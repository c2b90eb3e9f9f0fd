import Mathlib.Data.Nat.Notation
import Stablemate.Lib.Run
import Stablemate.Model.Gates

/-!
# The transition loop (`pyflow/driver.py`, `pyflow/park.py`)

`drive` runs one state after another: it pays for a transition from its budget, writes the
checkpoint, runs the body, and on an `Await` asks, checkpoints what it waits on, and parks
until the gate is answered. The machine takes one step for each piece of the loop between
two writes, so that a run can stop between any two of them; `resume` is a new process that
reads the checkpoint. The world may change a gate file at any moment.

State bodies are arbitrary: an event brings what the body returned.
-/

namespace Stablemate.Drive

open Gates

variable {V : Type*}

/-- The parameters of a transition, by name. -/
abbrev Params (V : Type*) := List (Text × V)

inductive Kind
  | operator | machine
deriving DecidableEq

structure Await (V : Type*) where
  kind : Kind
  path : Text
  questions : Text
  state : Text
  params : Params V

/-- The three ways a state can end. -/
inductive Transition (V : Type*)
  | continueTo (state : Text) (params : Params V)
  | done
  | await (a : Await V)

/-- A workflow class and the run's configuration. `maxTransitions` is the budget,
`refuelOn` is `REFUEL_ON` sorted, and `reprJsonable` is `repr(jsonable(..))`. -/
structure Flow (V : Type*) where
  startState : Text
  resolveState : Text → Text
  maxTransitions : ℤ
  refuelOn : List Text
  reprJsonable : Params V → Text
  jsonable : V → V
  hasQuestionHeading : Text → Bool
  dryRun : Bool

/-- What `checkpoint.json` says about where to go on. -/
structure Checkpoint (V : Type*) where
  state : Text
  params : Params V
  waitingOn : Option Text

/-- Where the loop stands. -/
inductive Pc (V : Type*)
  /-- The head of the loop, about to enter the state. -/
  | top (state : Text) (params : Params V)
  /-- The state is checkpointed and its body runs. -/
  | body (state : Text)
  /-- The ask of an `Await` is on disk, its checkpoint is not. -/
  | asked (a : Await V)
  /-- Inside `park_on`. -/
  | parked (path : Text) (kind : Kind) (state : Text) (params : Params V)
  /-- No process runs. -/
  | down
  | finished

/-- `bodies` counts the bodies this process entered, `tokens` are the refuel tokens it took,
newest first. `awaiting` is the path of the `Await` whose next state has not been entered
yet, and `held` says that `answered` of it has held since it was returned. -/
structure State (V : Type*) where
  pc : Pc V
  remaining : ℤ
  refuelToken : Option Text
  checkpoint : Option (Checkpoint V)
  files : Text → File
  bodies : ℕ
  tokens : List Text
  awaiting : Option Text
  held : Bool

inductive Event (V : Type*)
  | enter
  | returns (outcome : Transition V)
  | record
  | poll
  /-- An `answer` request on the control socket. -/
  | answer (path body : Text)
  /-- The world writes, or removes, a file. -/
  | edit (path : Text) (content : File)
  /-- The process ends: a stop, a reload, an error, a crash. -/
  | stop
  | resume

variable (wf : Flow V)

/-- `_refuel_token`. -/
def refuelToken (params : Params V) : Option Text :=
  let seen := wf.refuelOn.filterMap fun k => (params.lookup k).map fun v => (k, v)
  if seen.isEmpty then none else some (wf.reprJsonable seen)

/-- The refill at the head of the loop. -/
def refuel (s : State V) (params : Params V) : State V :=
  match refuelToken wf params with
  | some token =>
    if some token ≠ s.refuelToken then
      { s with refuelToken := some token, remaining := wf.maxTransitions, tokens := token :: s.tokens }
    else s
  | none => s

/-- From the head of the loop to the body; an exhausted budget raises. -/
def enter (s : State V) (state : Text) (params : Params V) : State V :=
  let s := refuel wf s params
  if s.remaining ≤ 0 then { s with pc := .down }
  else
    { s with
      remaining := s.remaining - 1
      checkpoint := some ⟨wf.resolveState state, params.map fun (k, v) => (k, wf.jsonable v), none⟩
      pc := .body (wf.resolveState state)
      bodies := s.bodies + 1
      awaiting := none
      held := false }

def write (s : State V) (path : Text) (content : File) : State V :=
  { s with files := fun p => if p = path then content else s.files p }

/-- `ask`: write the questions, so that the operator has something to answer. -/
def ask (s : State V) (path questions : Text) : State V :=
  if questions = [] then s
  else
    let existing := (readText (s.files path)).getD []
    if Text.strip existing ≠ [] then
      write s path (some (appendOperatorGate wf.hasQuestionHeading existing questions))
    else write s path (some (formatOperatorGate wf.hasQuestionHeading questions))

/-- What the loop does with the body's outcome. -/
def returned (s : State V) (outcome : Transition V) : State V :=
  match outcome with
  | .continueTo state params => { s with pc := .top state params }
  | .done => { s with pc := .finished }
  | .await a =>
    -- a dry run raises at the gate
    if wf.dryRun then { s with pc := .down }
    else { ask wf s a.path a.questions with pc := .asked a, awaiting := some a.path, held := false }

/-- The second checkpoint of an `Await`, which names what it waits on. -/
def record (s : State V) (a : Await V) : State V :=
  { s with
    checkpoint := some ⟨a.state, a.params.map fun (k, v) => (k, wf.jsonable v), some a.path⟩
    pc := .parked a.path a.kind a.state a.params }

/-- `_consume_answer`: an answer meant for this gate, and still needed, is written. -/
def consumeAnswer (s : State V) (asked : Text) (kind : Kind) (path body : Text) : State V :=
  if kind = .machine then s
  else if path ≠ [] ∧ path ≠ asked then s
  else if answered (s.files asked) then s
  else write s asked (some (applyAnswer ((readText (s.files asked)).getD []) body))

/-- The resume branch's test: is this gate still open? -/
def stillParked (file : File) : Bool :=
  match readText file with
  | some text => decide (statusOf text = AWAITING_OPERATOR)
  | none => false

/-- The head of `drive`: from the start state, or from the checkpoint. -/
def resume (s : State V) : State V :=
  let s := { s with remaining := wf.maxTransitions, refuelToken := none, bodies := 0, tokens := [] }
  match s.checkpoint with
  | none => { s with pc := .top wf.startState [], awaiting := none, held := false }
  | some ⟨state, params, none⟩ => { s with pc := .top state params, awaiting := none, held := false }
  | some ⟨state, params, some gate⟩ =>
    if stillParked (s.files gate) then { s with pc := .parked gate .operator state params }
    else { s with pc := .top state params }

/-- Note that the gate is answered, when it is. -/
def observe (s : State V) : State V :=
  match s.awaiting with
  | some path => { s with held := s.held || answered (s.files path) }
  | none => s

/-- One event, if it can happen here. -/
def advance (s : State V) (e : Event V) : Option (State V) :=
  match e with
  | .edit path content => some (write s path content)
  | .enter =>
    match s.pc with
    | .top state params => some (enter wf s state params)
    | _ => none
  | .returns outcome =>
    match s.pc with
    | .body _ => some (returned wf s outcome)
    | _ => none
  | .record =>
    match s.pc with
    | .asked a => some (record wf s a)
    | _ => none
  | .poll =>
    match s.pc with
    | .parked path _ state params =>
      some (if answered (s.files path) then { s with pc := .top state params } else s)
    | _ => none
  | .answer path body =>
    match s.pc with
    | .parked asked kind _ _ => some (consumeAnswer s asked kind path body)
    | _ => none
  | .stop =>
    match s.pc with
    | .finished => none
    | _ => some { s with pc := .down }
  | .resume =>
    match s.pc with
    | .down => some (resume wf s)
    | _ => none

def step (s : State V) (e : Event V) : Option (State V) := (advance wf s e).map observe

/-- A run directory before the run: no checkpoint, some files. -/
def init (files : Text → File) : State V where
  pc := .top wf.startState []
  remaining := wf.maxTransitions
  refuelToken := none
  checkpoint := none
  files := files
  bodies := 0
  tokens := []
  awaiting := none
  held := false

end Stablemate.Drive
