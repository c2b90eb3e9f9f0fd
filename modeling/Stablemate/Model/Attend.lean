import Mathlib.Data.List.Sort
import Mathlib.Logic.Function.Basic
import Stablemate.Lib.Pool
import Stablemate.Lib.Run
import Stablemate.Model.Text

/-!
# Attendants (`groom/attend.py`, `groom/attend_ledger.py`)

A run that parks on a gate or dies is announced, and an attendant is launched on it unless one
is there. A step is one operation on the ledger or on `by_run`, one launch, one kill, or the end
of a process.

* The announcements, and the calls of `release` for a gate that cleared, are made on the event
  loop, one after the other. `recover_orphans` is called before the server takes requests, and
  announcements and stops come from requests: `Place` is where the one of them is that is under
  way.
* The waiters of `_own` and the calls of `stop` are threads, held as what they do next.

Each ledger function is one transaction, `proc.wait` does not raise, and `uuid4` does not give
an id twice. An announcement that `attend_gate` drops before `_blocked`, for its kind or for a
deny pattern, changes nothing and is not an event.
-/

namespace Stablemate.Attend

open Pool (swap)

/-! ## The ledger -/

inductive Status
  | running
  | completed
deriving DecidableEq

/-- A row of `attend_sessions`. -/
structure Row where
  job_id : Text
  run_id : Text
  status : Status
  pid : ℕ
  started_at : ℕ
deriving DecidableEq

/-- `attend_get`. -/
def find (job : Text) (rows : List Row) : Option Row := rows.find? fun r => r.job_id = job

/-- `UPDATE … WHERE job_id = ?`. -/
def update (job : Text) (f : Row → Row) (rows : List Row) : List Row :=
  rows.map fun r => if r.job_id = job then f r else r

/-- `attend_start`. -/
def attendStart (row : Row) (rows : List Row) : List Row := (rows.filter fun r => r.job_id ≠ row.job_id) ++ [row]

/-- `attend_append_session`. -/
def attendAppendSession (job : Text) (pid : ℕ) (rows : List Row) : List Row :=
  update job (fun r => { r with status := .running, pid := pid }) rows

/-- `attend_finish`. -/
def attendFinish (job : Text) (rows : List Row) : List Row := update job (fun r => { r with status := .completed }) rows

/-- `attend_running_for_run` has a row. -/
def runningForRun (run : Text) (rows : List Row) : Bool := rows.any fun r => r.run_id = run && r.status = .running

/-- `attend_orphans`. -/
def attendOrphans (rows : List Row) : List Row :=
  (rows.filter fun r => r.status = .running).insertionSort fun a b => a.started_at ≤ b.started_at

/-! ## Steps -/

inductive Mode
  | off
  | session
  | headless
deriving DecidableEq

/-- What a job carries that the exclusion depends on. -/
structure AttendJob where
  job_id : Text
  run_id : Text
  created_at : ℕ
deriving DecidableEq

/-- An attendant that groom started. -/
structure Proc where
  job : Text
  run : Text
  pid : ℕ
  alive : Bool
deriving DecidableEq

/-- What the event loop or `recover_orphans` does next. A process is known by its place among
those that were launched, and `rows` are the rows that `recover_orphans` still goes through. -/
inductive Place
  | idle
  /-- `_blocked`: `attend_running_for_run`. -/
  | query (job : AttendJob)
  /-- `_dispatch`, then `spawn_headless`. -/
  | publish (job : AttendJob)
  | launch (job : AttendJob)
  | start (job : AttendJob) (proc : ℕ)
  | own (job : AttendJob) (proc : ℕ)
  /-- `recover_orphans`. -/
  | list
  | probe (spawning : Bool) (rows : List Row)
  | relaunch (row : Row) (rows : List Row)
  | append (row : Row) (proc : ℕ) (rows : List Row)
  | hold (row : Row) (proc : ℕ) (rows : List Row)
  | reown (row : Row) (proc : ℕ) (rows : List Row)
  | lose (spawning : Bool) (row : Row) (rows : List Row)
deriving DecidableEq

inductive Thread
  /-- `_own`: `proc.wait()`. -/
  | wait (job run : Text) (proc : ℕ)
  /-- `stop`: `attend_get`, then `kill_group`. -/
  | get (job : Text)
  | kill (job run : Text) (pid : ℕ)
  /-- Both go on with `attend_finish` and `release`. -/
  | finish (job run : Text)
  | release (run : Text)
deriving DecidableEq

/-- The ledger, what groom remembers, the threads and the processes. `given` has the run that
each job id was made for. -/
structure State where
  rows : List Row
  by_run : Text → Option Text
  place : Place
  threads : List Thread
  procs : List Proc
  given : Text → Option Text

/-- `recover_orphans` is still to return. -/
def Place.recovering : Place → Bool
  | .idle | .query _ | .publish _ | .launch _ | .start .. | .own .. => false
  | .list | .probe .. | .relaunch .. | .append .. | .hold .. | .reown .. | .lose .. => true

/-- `release`: the run's job is dropped, whichever it is. -/
def release (run : Text) (by_run : Text → Option Text) : Text → Option Text := Function.update by_run run none

/-- `kill_group`: the processes with the pid end. -/
def killGroup (pid : ℕ) (procs : List Proc) : List Proc :=
  procs.map fun p => if p.pid = pid then { p with alive := false } else p

/-- How `_launch` ends: with a process, or with an exception before or after it has started one
(the prompt is written to the new process). -/
inductive Launch
  | starts (pid : ℕ)
  | raises
  | raisesAfter (pid : ℕ)
deriving DecidableEq

inductive Event
  /-- `attend_gate` or `attend_death`, up to `run_id in _LEDGER.by_run`. -/
  | announce (mode : Mode) (job : AttendJob)
  /-- The gates of the run have cleared. -/
  | release (run : Text)
  | stop (job : Text)
  /-- An attendant ends by itself. -/
  | exit (proc : ℕ)
  /-- groom ends, and a new one starts. -/
  | restart
  /-- `attend_running_for_run`, which may not be readable. -/
  | query (readable : Bool)
  | publish (mode : Mode)
  | launch (outcome : Launch)
  | list (mode : Mode)
  /-- What `procs.alive` says of the row's pid. -/
  | probe (alive : Bool)
  /-- The operation at a place where no outcome is open. -/
  | advance
  /-- A thread does its next operation. -/
  | run (thread : Thread)
deriving DecidableEq

/-- A new attendant of the job, where the pid is free. -/
def spawn (job run : Text) (pid : ℕ) (s : State) : Option State :=
  if ∀ p ∈ s.procs, p.alive = true → p.pid ≠ pid then
    some { s with procs := s.procs ++ [{ job, run, pid, alive := true }] }
  else none

/-- `_launch`, for a fresh job and in `recover_orphans`. -/
def launch (s : State) (outcome : Launch) : Option State :=
  match s.place with
  | .launch job =>
    match outcome with
    | .starts pid => (spawn job.job_id job.run_id pid s).map fun t => { t with place := .start job s.procs.length }
    | .raises => some { s with place := .idle }
    | .raisesAfter pid => (spawn job.job_id job.run_id pid s).map fun t => { t with place := .idle }
  | .relaunch row rows =>
    match outcome with
    | .starts pid => (spawn row.job_id row.run_id pid s).map fun t => { t with place := .append row s.procs.length rows }
    | .raises => some { s with place := .lose true row rows }
    | .raisesAfter pid => (spawn row.job_id row.run_id pid s).map fun t => { t with place := .lose true row rows }
  | _ => none

/-- The operations at a place that have one outcome. -/
def advance (s : State) : Option State :=
  match s.place with
  | .start job proc =>
    (s.procs[proc]?).map fun p =>
      let row : Row := ⟨job.job_id, job.run_id, .running, p.pid, job.created_at⟩
      { s with rows := attendStart row s.rows, place := .own job proc }
  | .own job proc => some { s with threads := .wait job.job_id job.run_id proc :: s.threads, place := .idle }
  | .append row proc rows =>
    (s.procs[proc]?).map fun p =>
      { s with rows := attendAppendSession row.job_id p.pid s.rows, place := .hold row proc rows }
  | .hold row proc rows =>
    some { s with by_run := Function.update s.by_run row.run_id (some row.job_id), place := .reown row proc rows }
  | .reown row proc rows =>
    some { s with threads := .wait row.job_id row.run_id proc :: s.threads, place := .probe true rows }
  | .lose spawning row rows => some { s with rows := attendFinish row.job_id s.rows, place := .probe spawning rows }
  | .probe _ [] => some { s with place := .idle }
  | _ => none

/-- The thread goes on as `ts`. -/
def State.go (s : State) (thread : Thread) (ts : List Thread) : State :=
  { s with threads := swap thread ts s.threads }

/-- The next operation of a thread. -/
def operate (s : State) (thread : Thread) : Option State :=
  match thread with
  | .wait job run proc =>
    match s.procs[proc]? with
    | some p => if p.alive then none else some (s.go thread [.finish job run])
    | none => none
  | .get job =>
    match find job s.rows with
    | some r => some (s.go thread (if r.status = .running then [.kill job r.run_id r.pid] else []))
    | none => some (s.go thread [])
  | .kill job run pid =>
    let t := { s with procs := killGroup pid s.procs }
    some (t.go thread [.finish job run])
  | .finish job run =>
    let t := { s with rows := attendFinish job s.rows }
    some (t.go thread [.release run])
  | .release run =>
    let t := { s with by_run := release run s.by_run }
    some (t.go thread [])

/-- One step. -/
def step (s : State) : Event → Option State
  | .announce mode job =>
    if s.place = .idle ∧ job.job_id ≠ [] ∧ s.given job.job_id = none then
      if mode = .off ∨ (s.by_run job.run_id).isSome then some s
      else some { s with place := .query job, given := Function.update s.given job.job_id (some job.run_id) }
    else none
  | .release run => if s.place = .idle then some { s with by_run := release run s.by_run } else none
  | .stop job => if s.place.recovering then none else some { s with threads := .get job :: s.threads }
  | .exit proc =>
    match s.procs[proc]? with
    | some p => if p.alive then some { s with procs := s.procs.set proc { p with alive := false } } else none
    | none => none
  | .restart => some { s with by_run := fun _ => none, place := .list, threads := [] }
  | .query readable =>
    match s.place with
    | .query job =>
      if readable && !runningForRun job.run_id s.rows then some { s with place := .publish job }
      else some { s with place := .idle }
    | _ => none
  | .publish mode =>
    match s.place with
    | .publish job =>
      let held := Function.update s.by_run job.run_id (some job.job_id)
      some { s with by_run := held, place := if mode = .headless then .launch job else .idle }
    | _ => none
  | .launch outcome => launch s outcome
  | .list mode =>
    match s.place with
    | .list => some { s with place := .probe (mode = .headless) (attendOrphans s.rows) }
    | _ => none
  | .probe alive =>
    match s.place with
    | .probe spawning (row :: rows) =>
      -- the pid may be that of another process by now
      if (∃ p ∈ s.procs, p.alive = true ∧ p.pid = row.pid) ∧ alive = false then none
      else if row.job_id = [] ∨ alive = true then some { s with place := .probe spawning rows }
      else some { s with place := if spawning then .relaunch row rows else .lose spawning row rows }
    | _ => none
  | .advance => advance s
  | .run thread => if thread ∈ s.threads then operate s thread else none

/-! ## What the ledger is to keep -/

/-- The first groom, with an empty ledger. -/
def init : State := ⟨[], fun _ => none, .list, [], [], fun _ => none⟩

/-- The job and the run that a dispatch or `recover_orphans` is at. -/
def Place.at? : Place → Option (Text × Text)
  | .idle | .list | .probe .. => none
  | .query job | .publish job | .launch job | .start job _ | .own job _ => some (job.job_id, job.run_id)
  | .relaunch row _ | .append row .. | .hold row .. | .reown row .. | .lose _ row _ => some (row.job_id, row.run_id)

/-- The rows that `recover_orphans` has not looked at yet. -/
def Place.ahead : Place → List Row
  | .idle | .query _ | .publish _ | .launch _ | .start .. | .own .. | .list => []
  | .probe _ rows | .relaunch _ rows | .append _ _ rows | .hold _ _ rows | .reown _ _ rows | .lose _ _ rows => rows

/-- The run of a waiter or of a call of `stop` that is past `attend_get`. -/
def Thread.run? : Thread → Option Text
  | .wait _ run _ | .kill _ run _ | .finish _ run | .release run => some run
  | .get _ => none

/-- The row's process has a waiter, which is to finish the row. -/
def Owned (s : State) (r : Row) : Prop :=
  (∃ i p, s.procs[i]? = some p ∧ p.job = r.job_id ∧ p.pid = r.pid ∧ .wait r.job_id r.run_id i ∈ s.threads) ∨
    .finish r.job_id r.run_id ∈ s.threads

/-- The row is being dispatched, or `recover_orphans` is to take it up. -/
def Dispatched (s : State) (r : Row) : Prop :=
  s.place.at? = some (r.job_id, r.run_id) ∨ s.place = .list ∨ ∃ r' ∈ s.place.ahead, r'.job_id = r.job_id

/-- The run is held by an attendance: by a running row, or by a job that a process was launched
for. -/
def Held (s : State) (run : Text) : Prop :=
  runningForRun run s.rows = true ∨ ∃ job p, s.by_run run = some job ∧ p ∈ s.procs ∧ p.job = job

/-- A thread, a dispatch or `recover_orphans` is at the run. -/
def AtWork (s : State) (run : Text) : Prop :=
  (∃ t ∈ s.threads, t.run? = some run) ∨ (∃ job, s.place.at? = some (job, run)) ∨ s.place = .list ∨
    ∃ r ∈ s.place.ahead, r.run_id = run

/-- **One attendant a run, and no run held by a dead one.** -/
structure Sound (s : State) : Prop where
  alone : ∀ (i j : ℕ) (p q : Proc), s.procs[i]? = some p → s.procs[j]? = some q →
    p.alive = true → q.alive = true → p.run = q.run → i = j
  tended : ∀ r ∈ s.rows, r.status = .running → Owned s r ∨ Dispatched s r
  freed : ∀ run, ¬ AtWork s run → ¬ Held s run

/-- A process is alive that the ledger does not know of yet. -/
def unrecorded (s : State) : Bool :=
  match s.place with
  | .start _ proc | .append _ proc _ => (s.procs[proc]?).any Proc.alive
  | _ => false

/-- No launch raises when it has started a process, groom does not end with a process that is
not in the ledger, and `recover_orphans` finds no process with the pid of a row. -/
def meets (s : State) : Event → Bool
  | .launch (.raisesAfter _) => false
  | .restart => !unrecorded s
  | .probe alive => !alive
  | _ => true

def Meets (s : State) (e : Event) : Prop := meets s e = true

instance (s : State) (e : Event) : Decidable (Meets s e) := inferInstanceAs (Decidable (_ = _))

end Stablemate.Attend
