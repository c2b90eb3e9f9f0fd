import Mathlib.Data.Nat.Notation
import Stablemate.Lib.Run
import Stablemate.Model.Gates

/-!
# The control channel (`control.py`, `reload.py`)

Operators connect to a run and write one request each. The run looks at the channel from a
few sites: a streaming turn, a recovery wait, a parked gate, and the boundary before a
state. A request that has to wait for the boundary is held in a single slot.

A connection is a number, and a request is known by the connection it came in on. The log
of replies has, for each one, the connection it was written to and the request it answers.
-/

namespace Stablemate.Control

def STATUS : Text := "status".toList
def QUESTIONS : Text := "questions".toList
def ANSWER : Text := "answer".toList
def STOP : Text := "stop".toList
/-- `reload.ACTION`. -/
def ACTION : Text := "reload".toList
def SWITCH_PROFILE : Text := "switch-profile".toList

/-- What an operator asked for. -/
structure Request where
  action : Text
  core : Bool
  atBoundary : Bool
  cli : Text
  profile : Text
  path : Text
  body : Text

/-- What a connection wrote: something that is no request, or a request. -/
inductive Message
  | unreadable
  | request (r : Request)

/-- The replies of the code, one constructor for each payload it writes. -/
inductive Reply
  | described
  | pendingQuestions
  | stopping
  | queued (profile : Text)
  | notBlocked
  | unknown (action : Text)
  /-- `{"ok": True, "cut": now}` -/
  | reload (now : Bool)
  /-- What `switch_profile` says. -/
  | switched (ok : Bool)
  | waitingOn (asked path : Text)
  | alreadyAnswered
  | couldNotWrite
  | answeredGate (asked : Text)
deriving DecidableEq

structure Replied where
  conn : ℕ
  request : ℕ
  reply : Reply
deriving DecidableEq

/-- The listener's queue, the open connection `_conn`, the slot `_watch.held`; then what
the outside has seen: the connections made, the replies written, the requests acknowledged
and left for later, and those that `boundary_requested` returned. -/
structure State where
  queue : List (ℕ × Message)
  conn : Option ℕ
  held : Option (ℕ × Request)
  seen : List ℕ
  replies : List Replied
  left : List ℕ
  served : List ℕ
  ended : Bool

/-- The connections that still wait in the queue. -/
def waiting (queue : List (ℕ × Message)) : List ℕ := queue.map Prod.fst

/-- `SocketChannel.reply`, in answer to the request `id`. -/
def reply (s : State) (id : ℕ) (payload : Reply) : State :=
  match s.conn with
  | none => s
  | some c => { s with conn := none, replies := ⟨c, id, payload⟩ :: s.replies }

/-- `_delivered`: the next request that a consumer has to decide about. Each round is one
`SocketChannel.take`, which drops the open connection and reads the next one. -/
def deliver : List (ℕ × Message) → State → Option (ℕ × Request) × State
  | [], s => (none, { s with queue := [], conn := none })
  | (_, .unreadable) :: queue, s => (none, { s with queue := queue, conn := none })
  | (c, .request r) :: queue, s =>
    let s := { s with queue := queue, conn := some c }
    if r.action = STATUS then deliver queue (reply s c .described)
    else if r.action = QUESTIONS then deliver queue (reply s c .pendingQuestions)
    else (some (c, r), s)

def delivered (s : State) : Option (ℕ × Request) × State := deliver s.queue s

/-- `control.hold`. -/
def hold (s : State) (id : ℕ) (r : Request) : State :=
  { s with held := some (id, r), left := id :: s.left }

/-- A `ReloadRequested` unwinds the run. With `core` or a `cli` the process is replaced;
otherwise `_drive_reloadable` goes on in this one. -/
def unwind (s : State) (r : Request) : State :=
  if r.core ∨ r.cli ≠ [] then { s with ended := true } else s

/-- `cut_by`, and the unwinding that its caller does with a request that cuts. -/
def cutBy (s : State) (id : ℕ) (r : Request) : State :=
  if r.action = STOP then { reply s id .stopping with ended := true }
  else if r.action = SWITCH_PROFILE then hold (reply s id (.queued r.profile)) id r
  else if r.action = ANSWER then reply s id .notBlocked
  else if r.action ≠ ACTION then reply s id (.unknown r.action)
  else if r.atBoundary then hold (reply s id (.reload false)) id r
  else unwind (reply s id (.reload true)) r

/-- A streaming turn, or a recovery wait of the ladder, looks at the channel. -/
def cutRequested (s : State) : State :=
  match delivered s with
  | (none, s) => s
  | (some (id, r), s) => cutBy s id r

/-- The reply of `_consume_answer` on the gate `asked` with the text `file`. -/
def gateReply (asked : Text) (file : Gates.File) (writes : Bool) (r : Request) : Reply :=
  if r.path ≠ [] ∧ r.path ≠ asked then .waitingOn asked r.path
  else if Gates.answered file then .alreadyAnswered
  else if writes then .answeredGate asked else .couldNotWrite

/-- A run parked on a gate looks at the channel (`wait_for_answer`, `park_on`). -/
def parkedOn (s : State) (operator : Bool) (asked : Text) (file : Gates.File) (writes : Bool) :
    State :=
  match delivered s with
  | (none, s) => s
  | (some (id, r), s) =>
    if r.action = ANSWER then
      reply s id (if operator then gateReply asked file writes r else .notBlocked)
    else cutBy s id r

/-- `outstanding`: the held request first, then the channel. -/
def outstanding (s : State) : Option (ℕ × Request) × State :=
  match s.held with
  | some h => (some h, { s with held := none })
  | none => delivered s

/-- `boundary_requested`, and what `drive` does with the request it returns; `switches`
says whether the profile exists. -/
def boundary (s : State) (switches : Bool) : State :=
  match outstanding s with
  | (none, s) => s
  | (some (id, r), s) =>
    if r.action = STOP then { reply s id .stopping with ended := true }
    else if r.action = SWITCH_PROFILE then
      reply { s with served := id :: s.served } id (.switched switches)
    else if r.action = ANSWER then reply s id .notBlocked
    else if r.action ≠ ACTION then reply s id (.unknown r.action)
    else
      let s := reply s id (.reload false)
      unwind { s with served := id :: s.served } r

inductive Event
  /-- An operator connects, on a new connection, and writes its message. -/
  | connect (c : ℕ) (m : Message)
  | turn
  | recoveryWait
  | parked (operator : Bool) (asked : Text) (file : Gates.File) (writes : Bool)
  | boundary (switches : Bool)
  /-- The run ends by itself. -/
  | finish

/-- One event of a run that has not ended. -/
def step (s : State) (e : Event) : Option State :=
  if s.ended then none
  else match e with
    | .connect c m =>
      if c ∈ s.seen then none else some { s with queue := s.queue ++ [(c, m)], seen := c :: s.seen }
    | .turn => some (cutRequested s)
    | .recoveryWait => some (cutRequested s)
    | .parked operator asked file writes => some (parkedOn s operator asked file writes)
    | .boundary switches => some (boundary s switches)
    | .finish => some { s with ended := true }

/-- `arm`: a run that has just opened its channel. -/
def armed : State where
  queue := []
  conn := none
  held := none
  seen := []
  replies := []
  left := []
  served := []
  ended := false

/-- `cut_by` leaves this request for the boundary. -/
def Request.deferred (r : Request) : Prop :=
  r.action = SWITCH_PROFILE ∨ r.action = ACTION ∧ r.atBoundary = true

/-- Nothing acknowledged and left for later is lost: it was returned, or is still held. -/
def NothingLost (s : State) : Prop :=
  ∀ id ∈ s.left, id ∈ s.served ∨ ∃ r, s.held = some (id, r)

/-- The event looks at the channel for a request that cuts (`cut_by` is its policy). -/
def Event.cuts : Event → Prop
  | .turn | .recoveryWait | .parked .. => True
  | _ => False

/-- The condition: no request is deferred while another one is held. -/
def SlotFree (s : State) (e : Event) : Prop :=
  e.cuts → ∀ id r, (delivered s).1 = some (id, r) → r.deferred → s.held = none

end Stablemate.Control
