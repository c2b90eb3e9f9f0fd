import Mathlib.Data.List.Sort
import Stablemate.Lib.Pool
import Stablemate.Lib.Run
import Stablemate.Model.Text

/-!
# Dispatch queues (`groom/dispatch.py`, `groom/dispatch_ledger.py`)

Items are enqueued in named queues, and threads launch a process for each of them, as many at a
time as the queue's semaphore has slots. A step is one operation on the ledger or on a
semaphore, one launch, one kill, or the end of a process; a thread is held as what it does next.

Each ledger function is one transaction. `proc.wait` does not raise.
-/

namespace Stablemate.Dispatch

open Pool (swap)

/-! ## The ledger -/

inductive Status
  | pending
  | running
  | done
  | failed
  | cancelled
deriving DecidableEq

/-- `pending` or `running`. -/
def Status.live : Status → Bool
  | .pending | .running => true
  | .done | .failed | .cancelled => false

/-- A row of `dispatch_items`. -/
structure Row where
  item_id : Text
  queue : Text
  status : Status
  pid : Option ℕ
  exit_code : Option ℤ
  enqueued_at : ℕ
deriving DecidableEq

/-- A process that was launched here. `code` is what it exited with. -/
structure Proc where
  item : Text
  queue : Text
  pid : ℕ
  code : Option ℤ
deriving DecidableEq

/-- What a thread does next. `rows` are the items of the list that `_drain` still goes through,
and a process is known by its place among those that were launched. -/
inductive Thread
  /-- `_drain`: `_slot`, or nothing if the queue is not configured. -/
  | drain (queue : Text)
  | listPending (queue : Text)
  | acquire (queue : Text) (rows : List Text)
  | launch (queue item : Text) (rows : List Text)
  /-- The launch failed: `slot.release()`, then `dispatch_finish`. -/
  | giveBack (queue item : Text) (rows : List Text)
  | fail (queue item : Text) (rows : List Text)
  | start (queue item : Text) (proc : ℕ) (rows : List Text)
  /-- `_own`: `proc.wait()`, then `dispatch_finish`. -/
  | own (queue item : Text) (proc : ℕ)
  /-- `stop`: `dispatch_get`, `kill_group`, `dispatch_finish`, `_slot`. -/
  | get (item : Text)
  | kill (queue item : Text) (pid : Option ℕ)
  | cancel (queue item : Text)
  | slot (queue : Text)
  /-- `slot.release()`, then `_drain`. -/
  | release (queue : Text)
deriving DecidableEq

/-- A semaphore, and how many rows were running when it was made. -/
structure Slot where
  free : ℕ
  occupied : ℕ
deriving DecidableEq

/-- The ledger, the semaphores, the threads and the processes. `cancelled` has the items that a
`cancel_pending` or a `stop` has cancelled. -/
structure State where
  rows : List Row
  slots : Text → Option Slot
  threads : List Thread
  procs : List Proc
  cancelled : List Text

/-- The item of each process, in the order of the launches. -/
def State.launched (s : State) : List Text := s.procs.map Proc.item

/-- `dispatch_get`. -/
def find (item : Text) (rows : List Row) : Option Row := rows.find? fun r => r.item_id = item

/-- The row of the item has a status with `p`: what `rowcount > 0` says of the updates. -/
def has (item : Text) (p : Status → Bool) (rows : List Row) : Bool := (find item rows).any fun r => p r.status

/-- `UPDATE … WHERE item_id = ?`. -/
def update (item : Text) (f : Row → Row) (rows : List Row) : List Row :=
  rows.map fun r => if r.item_id = item then f r else r

/-- `dispatch_pending_for_queue`. -/
def pendingFor (queue : Text) (rows : List Row) : List Text :=
  ((rows.filter fun r => r.queue = queue && r.status = .pending).insertionSort
    fun a b => a.enqueued_at ≤ b.enqueued_at).map Row.item_id

/-- `dispatch_running_for_queue`. -/
def runningFor (queue : Text) (rows : List Row) : List Row :=
  rows.filter fun r => r.queue = queue && r.status = .running

/-- `dispatch_enqueue`. -/
def dispatchEnqueue (item queue : Text) (now : ℕ) (rows : List Row) : List Row :=
  (rows.filter fun r => r.item_id ≠ item) ++
    [{ item_id := item, queue, status := .pending, pid := none, exit_code := none, enqueued_at := now }]

/-- `dispatch_start`. -/
def dispatchStart (item : Text) (pid : ℕ) (rows : List Row) : List Row :=
  update item (fun r => { r with status := .running, pid := some pid }) rows

/-- `dispatch_finish`, as far as the rows. -/
def dispatchFinish (item : Text) (status : Status) (code : Option ℤ) (rows : List Row) : List Row :=
  update item (fun r => if r.status.live then { r with status := status, exit_code := code } else r) rows

/-- `dispatch_cancel_pending`, as far as the rows. -/
def dispatchCancelPending (item : Text) (rows : List Row) : List Row :=
  update item (fun r => if r.status = .pending then { r with status := .cancelled } else r) rows

/-! ## Steps -/

/-- The `concurrency` of each configured queue. -/
abbrev Config := Text → Option ℕ

/-- `_slot`. -/
def slotOf (queue : Text) (concurrency : ℕ) (s : State) : State :=
  match s.slots queue with
  | some _ => s
  | none =>
    let occupied := (runningFor queue s.rows).length
    { s with slots := Function.update s.slots queue (some { free := concurrency - occupied, occupied }) }

/-- `slot.release()`. -/
def releaseSlot (queue : Text) (s : State) : State :=
  let slot := (s.slots queue).map fun slot => { slot with free := slot.free + 1 }
  { s with slots := Function.update s.slots queue slot }

inductive Event
  /-- `enqueue` records the item `item`, a fresh one, and goes on to `_drain`. -/
  | enqueue (item queue : Text) (now : ℕ)
  | drain (queue : Text)
  | cancelPending (item : Text)
  | stop (item : Text)
  /-- A process ends by itself. -/
  | exit (proc : ℕ) (code : ℤ)
  /-- A thread does its next operation. -/
  | run (thread : Thread)
  /-- `_launch` gives a process with this pid, or raises. -/
  | launch (thread : Thread) (pid : Option ℕ)
  /-- `kill_group`, and what the killed processes exit with. -/
  | kill (thread : Thread) (code : ℤ)

/-- `kill_group`: the processes with the pid end. -/
def killGroup (pid : Option ℕ) (code : ℤ) (procs : List Proc) : List Proc :=
  procs.map fun p => if p.code = none ∧ some p.pid = pid then { p with code := some code } else p

/-- The thread goes on as `ts`. -/
def State.go (s : State) (thread : Thread) (ts : List Thread) : State :=
  { s with threads := swap thread ts s.threads }

/-- An operation on the ledger or on a semaphore. -/
def operate (config : Config) (s : State) (thread : Thread) : Option State :=
  match thread with
  | .drain queue =>
    match config queue with
    | none => some (s.go thread [])
    | some concurrency => some ((slotOf queue concurrency s).go thread [.listPending queue])
  | .listPending queue => some (s.go thread [.acquire queue (pendingFor queue s.rows)])
  | .acquire _ [] => some (s.go thread [])
  | .acquire queue (item :: rows) =>
    match s.slots queue with
    | some ⟨free + 1, occupied⟩ =>
      let t := { s with slots := Function.update s.slots queue (some ⟨free, occupied⟩) }
      some (t.go thread [.launch queue item rows])
    | _ => some (s.go thread [])
  | .giveBack queue item rows => some ((releaseSlot queue s).go thread [.fail queue item rows])
  | .fail queue item rows =>
    let t := { s with rows := dispatchFinish item .failed none s.rows }
    some (t.go thread [.acquire queue rows])
  | .start queue item proc rows =>
    (s.procs[proc]?).map fun p =>
      let t := { s with rows := dispatchStart item p.pid s.rows }
      t.go thread [.own queue item proc, .acquire queue rows]
  | .own queue item proc =>
    match s.procs[proc]? with
    | some { code := some code, .. } =>
      let t := { s with rows := dispatchFinish item (if code = 0 then .done else .failed) (some code) s.rows }
      some (t.go thread (if has item Status.live s.rows then [.release queue] else []))
    | _ => none
  | .get item =>
    match find item s.rows with
    | some r => some (s.go thread (if r.status = .running then [.kill r.queue item r.pid] else []))
    | none => some (s.go thread [])
  | .cancel queue item =>
    let t := { s with rows := dispatchFinish item .cancelled none s.rows }
    if has item Status.live s.rows then
      let t := { t with cancelled := item :: s.cancelled }
      some (t.go thread [.slot queue])
    else some (t.go thread [])
  | .slot queue =>
    match config queue with
    | none => some (s.go thread [])
    | some concurrency => some ((slotOf queue concurrency s).go thread [.release queue])
  | .release queue => some ((releaseSlot queue s).go thread [.drain queue])
  | .launch .. | .kill .. => none

/-- One step. -/
def step (config : Config) (s : State) : Event → Option State
  | .enqueue item queue now =>
    if (config queue).isSome ∧ find item s.rows = none then
      some { s with rows := dispatchEnqueue item queue now s.rows, threads := .drain queue :: s.threads }
    else none
  | .drain queue => some { s with threads := .drain queue :: s.threads }
  | .cancelPending item =>
    let t := { s with rows := dispatchCancelPending item s.rows }
    if has item (· = .pending) s.rows then some { t with cancelled := item :: s.cancelled } else some t
  | .stop item => some { s with threads := .get item :: s.threads }
  | .exit proc code =>
    match s.procs[proc]? with
    | some p =>
      if p.code = none then some { s with procs := s.procs.set proc { p with code := some code } } else none
    | none => none
  | .run thread => if thread ∈ s.threads then operate config s thread else none
  | .launch thread pid =>
    match thread with
    | .launch queue item rows =>
      if thread ∈ s.threads then
        match pid with
        | none => some (s.go thread [.giveBack queue item rows])
        | some pid =>
          if ∀ p ∈ s.procs, p.code = none → p.pid ≠ pid then
            let proc : Proc := { item, queue, pid, code := none }
            let t := { s with procs := s.procs ++ [proc] }
            some (t.go thread [.start queue item s.procs.length rows])
          else none
      else none
    | _ => none
  | .kill thread code =>
    match thread with
    | .kill queue item pid =>
      if thread ∈ s.threads then
        let t := { s with procs := killGroup pid code s.procs }
        some (t.go thread [.cancel queue item])
      else none
    | _ => none

/-! ## What the queues are to keep -/

/-- What a groom process starts from: a ledger where no pending row has a pid. -/
structure Start (s : State) : Prop where
  rows : (s.rows.map Row.item_id).Nodup
  pending : ∀ r ∈ s.rows, r.status = .pending → r.pid = none
  slots : ∀ queue, s.slots queue = none
  threads : s.threads = []
  procs : s.procs = []
  cancelled : s.cancelled = []

/-- A row that an earlier process has left as running. -/
def leftover (start : State) (item : Text) : Bool := has item (· = .running) start.rows

/-- The processes of the queue that are alive. -/
def alive (queue : Text) (s : State) : ℕ := (s.procs.filter fun p => p.queue = queue && p.code.isNone).length

/-- The thread has taken a slot of the queue and has not given it back or passed it on. -/
def Thread.holds (queue : Text) : Thread → Bool
  | .launch q .. | .giveBack q .. | .start q .. | .slot q | .release q => q = queue
  | _ => false

/-- Every item of the queue that was not left over has ended, and no thread is between taking a
slot and giving it back. -/
def Settled (start : State) (queue : Text) (s : State) : Prop :=
  (∀ t ∈ s.threads, t.holds queue = false) ∧
    ∀ r ∈ s.rows, r.queue = queue → leftover start r.item_id = false → r.status.live = false

/-- **The queues are exclusive and bounded.** -/
structure Sound (config : Config) (start s : State) : Prop where
  once : s.launched.Nodup
  cancelled : ∀ item ∈ s.cancelled, has item (· = .cancelled) s.rows = true
  bounded : ∀ queue concurrency, config queue = some concurrency → alive queue s ≤ concurrency
  settled : ∀ queue concurrency slot, config queue = some concurrency → s.slots queue = some slot →
    Settled start queue s → slot.free = concurrency - slot.occupied

/-- An item is launched that was not launched before and was not cancelled; a row is not set
running when its item has been cancelled; a launch that failed does not end a row that runs; a
row that was left over is not stopped. -/
def meets (start s : State) : Event → Bool
  | .launch (.launch _ item _) (some _) => item ∉ s.launched && !has item (· = .cancelled) s.rows
  | .run (.start _ item _ _) => !has item (· = .cancelled) s.rows
  | .run (.fail _ item _) => !has item (· = .running) s.rows
  | .run (.cancel _ item) => !leftover start item
  | _ => true

def Meets (start s : State) (e : Event) : Prop := meets start s e = true

instance (start s : State) (e : Event) : Decidable (Meets start s e) := inferInstanceAs (Decidable (_ = _))

instance (start : State) (queue : Text) (s : State) : Decidable (Settled start queue s) :=
  inferInstanceAs (Decidable (_ ∧ _))

end Stablemate.Dispatch
