import Stablemate.Lib.Run
import Stablemate.Model.Text

/-!
# Benchmark rounds (`paddock/runner.py`, `paddock/names.py`)

A round is one workspace. `execute` opens it and runs the first segment, each `resume` runs one
more, and a segment ends by writing the result folder, by an interrupt, or because its process
is gone. The machine does one file operation, one step body or one score for a step of its own,
so that the process can be stopped between any two. What a round's files hold that no later
operation reads (its heads, its times, the commands of a step) is left out.
-/

namespace Stablemate.Rounds

/-! ## Names (`names.py`) -/

/-- `RunName`, of one task: the key of its commits and the number. -/
structure RunName where
  key : Text
  n : ℕ
deriving DecidableEq

/-- `_taken`: the highest number of a key, over the workspaces and the results. -/
def _taken (folders : List RunName) (key : Text) : ℕ :=
  ((folders.filter fun f => f.key = key).map RunName.n).foldl max 0

/-- One process in `reserve`: about to try a number, or done with its own. -/
inductive Claim
  | trying (name : RunName)
  | claimed (name : RunName)
deriving DecidableEq

/-- The folders that exist, and the processes that have called `reserve`. -/
structure Reserving where
  folders : List RunName
  claims : List Claim
deriving DecidableEq

inductive ReserveEvent
  /-- A process calls `reserve` and looks for the highest number. -/
  | look (key : Text)
  /-- The `i`-th process makes its folder, or finds that it exists. -/
  | mkdir (i : ℕ)

def reserveStep (s : Reserving) : ReserveEvent → Option Reserving
  | .look key => some { s with claims := s.claims ++ [.trying ⟨key, _taken s.folders key + 1⟩] }
  | .mkdir i =>
    match s.claims[i]? with
    | some (.trying name) =>
      if name ∈ s.folders then
        some { s with claims := s.claims.set i (.trying { name with n := name.n + 1 }) }
      else some { folders := name :: s.folders, claims := s.claims.set i (.claimed name) }
    | _ => none

/-- The names that processes have reserved. -/
def reserved (s : Reserving) : List RunName :=
  s.claims.filterMap fun c => match c with
    | .claimed name => some name
    | .trying _ => none

/-! ## Which round `resume` continues -/

/-- A workspace with a `round.json`; it is open while it has no result folder. -/
structure Found where
  name : RunName
  isOpen : Bool
deriving DecidableEq

inductive RunError
  | noWorkspace
  | finished (n : ℕ)
  | tied (n : ℕ)
deriving DecidableEq

/-- `_unfinished_workspace`. -/
def _unfinished_workspace (found : List Found) (n : Option ℕ) : Except RunError Found :=
  let found := found.filter fun (f : Found) => n.all fun n => f.name.n = n
  match found.getLast? with
  | none => .error .noWorkspace
  | some last =>
    let open_ones := found.filter Found.isOpen
    let highest := (open_ones.map fun (f : Found) => f.name.n).foldl max 0
    match open_ones.filter fun (f : Found) => f.name.n = highest with
    | [] => .error (.finished last.name.n)
    | [f] => .ok f
    | _ => .error (.tied highest)

/-! ## The files of a round -/

inductive Status
  | ok | failed | skipped
deriving DecidableEq

structure StepOutcome where
  name : Text
  status : Status
  error : Text
deriving DecidableEq

/-- How a segment ended; `none` while it has no end. -/
inductive SegmentOutcome
  | interrupted | finished
deriving DecidableEq

/-- `round.json`: what `execute` and `resume` change of it. -/
structure Round where
  caveats : List Text
  segments : List (Option SegmentOutcome)
deriving DecidableEq

/-- `ledger.json`. -/
structure Ledger where
  caveats : List Text
  segments : List (Option SegmentOutcome)
  steps : List StepOutcome
deriving DecidableEq

/-- The copy of the stage in the result folder. -/
inductive Copy
  | absent | partially | complete
deriving DecidableEq

/-- The result folder. -/
structure Result where
  ledger : Option Ledger
  score : Bool
  config : Bool
  stage : Copy
deriving DecidableEq

structure Disk where
  round : Option Round
  steps : Option (List StepOutcome)
  result : Option Result
deriving DecidableEq

/-- A task: the names of its steps, and whether it has a score function. -/
structure Task where
  steps : List Text
  scored : Bool

/-! ## One segment -/

/-- What a step body does. -/
inductive Body
  | returns
  | fails (error : Text)
  | interrupted
  /-- An exception that `_run_step` does not catch. -/
  | exits

/-- What the score function does. -/
inductive Scoring
  | returns (caveats : List Text)
  | interrupted
  /-- An exception, or a changed stage. -/
  | raises

/-- The operations that fill the result folder, in order. -/
inductive Filing
  | folder | ledger | score | config | stage | copied
deriving DecidableEq

/-- Where the process of a segment is; `done` are the outcomes it was given. -/
inductive Pc
  | idle
  /-- About to write `round.json`. -/
  | opening (round : Round) (done : List StepOutcome)
  /-- In the loop of `_run_steps`. -/
  | stepping (round : Round) (done outcomes : List StepOutcome) (todo : List Text)
  /-- About to write `steps.json`. -/
  | recording (round : Round) (done outcomes : List StepOutcome) (todo : List Text)
  | scoring (round : Round) (outcomes : List StepOutcome)
  /-- In `_interrupt`, about to write `round.json`. -/
  | interrupting (round : Round)
  /-- Filling the result folder; `own` are the caveats of this segment. -/
  | filing (next : Filing) (ledger : Ledger) (own : List Text)
deriving DecidableEq

/-- The files, the process, and what `degraded` and `escaped` would say of the pin now;
`reported` has the caveats of the segments that ended by an interrupt or by finishing. -/
structure State where
  disk : Disk
  pc : Pc
  pin : List Text
  reported : List Text
deriving DecidableEq

inductive Event
  /-- The pending file operation of the process. -/
  | write
  /-- The next step has finished in an earlier segment. -/
  | skip
  /-- The body of the next step, and what the pin says more after it. -/
  | body (b : Body) (touched : List Text)
  /-- The end of the loop, and the score function if there is one. -/
  | score (b : Scoring) (touched : List Text)
  /-- The process is gone. -/
  | stop
  | resume

/-- `_end_segment`. -/
def _end_segment (segments : List (Option SegmentOutcome)) (outcome : SegmentOutcome) :
    List (Option SegmentOutcome) :=
  segments.dropLast ++ [some outcome]

/-- `finished`: the outcome that an earlier segment left of a step. -/
def finished (done : List StepOutcome) (name : Text) : Option StepOutcome :=
  (done.filter fun o => o.status = .ok).reverse.find? fun o => o.name = name

/-- The steps after a failed one. -/
def skipped (todo : List Text) : List StepOutcome :=
  todo.map fun name => { name, status := .skipped, error := [] }

/-- `f"step {name!r} {status}"` for each step that is not ok. -/
def failedCaveats (outcomes : List StepOutcome) : List Text :=
  (outcomes.filter fun o => o.status ≠ .ok).map fun o =>
    "step ".toList ++ Text.repr o.name ++ [' '] ++
      (match o.status with
        | .ok => "ok".toList
        | .failed => "failed".toList
        | .skipped => "skipped".toList)

/-- The ledger of a segment that finishes. -/
def ledgerOf (round : Round) (outcomes : List StepOutcome) (escaped scored : List Text) : Ledger where
  caveats := round.caveats ++ failedCaveats outcomes ++ escaped ++ scored
  segments := _end_segment round.segments .finished
  steps := outcomes

/-- One operation of the filing, on the result folder. -/
def fill (next : Filing) (ledger : Ledger) (result : Option Result) : Option Result :=
  match next with
  | .folder => some (result.getD { ledger := none, score := false, config := false, stage := .absent })
  | .ledger => result.map fun r => { r with ledger := some ledger }
  | .score => result.map fun r => { r with score := true }
  | .config => result.map fun r => { r with config := true }
  | .stage => result.map fun r => { r with stage := .partially }
  | .copied => result.map fun r => { r with stage := .complete }

/-- The operation after. -/
def Filing.after : Filing → Option Filing
  | .folder => some .ledger
  | .ledger => some .score
  | .score => some .config
  | .config => some .stage
  | .stage => some .copied
  | .copied => none

/-- The pending file operation. -/
def write (task : Task) (s : State) : Option State :=
  match s.pc with
  | .opening round done =>
    some { s with disk := { s.disk with round := some round }, pc := .stepping round done [] task.steps }
  | .recording round done outcomes todo =>
    let s := { s with disk := { s.disk with steps := some outcomes } }
    if (outcomes.getLast?.map StepOutcome.status) = some .ok then
      some { s with pc := .stepping round done outcomes todo }
    else some { s with pc := .scoring round (outcomes ++ skipped todo) }
  | .interrupting round =>
    some { s with
      disk := { s.disk with round := some {
        caveats := round.caveats ++ s.pin, segments := _end_segment round.segments .interrupted } }
      pc := .idle
      reported := s.reported ++ s.pin }
  | .filing next ledger own =>
    some { s with
      disk := { s.disk with result := fill next ledger s.disk.result }
      pc := (next.after.map fun next => Pc.filing next ledger own).getD .idle
      reported := if next = .ledger then s.reported ++ own else s.reported }
  | _ => none

/-- A step body, or none when the step has finished before. -/
def runBody (s : State) (b : Body) (touched : List Text) : Option State :=
  match s.pc with
  | .stepping round done outcomes (name :: todo) =>
    if (finished done name).isSome then none
    else
      let s := { s with pin := s.pin ++ touched }
      match b with
      | .returns => some { s with pc := .recording round done (outcomes ++ [⟨name, .ok, []⟩]) todo }
      | .fails error => some { s with pc := .recording round done (outcomes ++ [⟨name, .failed, error⟩]) todo }
      | .interrupted => some { s with pc := .interrupting round }
      | .exits => some { s with pc := .idle }
  | _ => none

/-- The end of the loop is the start of the score; without a score function there is no score. -/
def runScore (task : Task) (s : State) (b : Scoring) (touched : List Text) : Option State :=
  let scored := fun (round : Round) (outcomes : List StepOutcome) =>
    if task.scored then
      let s := { s with pin := s.pin ++ touched }
      match b with
      | .returns caveats =>
        some { s with pc := .filing .folder (ledgerOf round outcomes s.pin caveats) (s.pin ++ caveats) }
      | .interrupted => some { s with pc := .interrupting round }
      | .raises => some { s with pc := .idle }
    else some { s with pc := .filing .folder (ledgerOf round outcomes s.pin []) s.pin }
  match s.pc with
  | .stepping round _ outcomes [] => scored round outcomes
  | .scoring round outcomes => scored round outcomes
  | _ => none

/-- One event of a round. -/
def step (task : Task) (s : State) : Event → Option State
  | .write => write task s
  | .skip =>
    match s.pc with
    | .stepping round done outcomes (name :: todo) =>
      (finished done name).map fun o => { s with pc := .stepping round done (outcomes ++ [o]) todo }
    | _ => none
  | .body b touched => runBody s b touched
  | .score b touched => runScore task s b touched
  | .stop => if s.pc = .idle then none else some { s with pc := .idle }
  | .resume =>
    match s.pc, s.disk.round, s.disk.result with
    -- the pin is made again
    | .idle, some round, none =>
      some { s with
        pc := .opening { round with segments := round.segments ++ [none] } (s.disk.steps.getD [])
        pin := [] }
    | _, _, _ => none

/-- A round that `execute` has reserved and staged; `degraded` says what the pin lacks. -/
def opened (degraded : List Text) : State where
  disk := { round := none, steps := none, result := none }
  pc := .opening { caveats := [], segments := [none] } []
  pin := degraded
  reported := []

/-! ## What is claimed -/

/-- The process has made the result folder and not yet filled it. -/
def State.Files (s : State) : Prop := ∃ next ledger own, s.pc = .filing next ledger own ∧ next ≠ .folder

/-- The condition: no process is stopped while it fills the result folder. -/
def StopsOutside (s : State) (e : Event) : Prop := e = .stop → ¬ s.Files

/-- A result with all its parts. -/
def Result.Complete (r : Result) : Prop :=
  (∃ ledger, r.ledger = some ledger) ∧ r.score = true ∧ r.config = true ∧ r.stage = .complete

/-- The body that runs next. -/
def State.runsNext (s : State) (name : Text) : Prop :=
  ∃ round done outcomes todo, s.pc = .stepping round done outcomes (name :: todo) ∧ finished done name = none

/-- `steps.json` has an ok outcome of the step. -/
def Disk.Recorded (d : Disk) (name : Text) : Prop :=
  ∃ o ∈ d.steps.getD [], o.name = name ∧ o.status = .ok

/-- One outcome for each step in order: ok ones, then at most one failed one with the rest skipped. -/
def Shaped (steps : List Text) (outcomes : List StepOutcome) : Prop :=
  outcomes.map StepOutcome.name = steps ∧
    ∃ ok rest, outcomes = ok ++ rest ∧ (∀ o ∈ ok, o.status = .ok) ∧
      (rest = [] ∨ ∃ o later, rest = o :: later ∧ o.status = .failed ∧ ∀ l ∈ later, l.status = .skipped)

/-- `resume` finds the round by its number, when no other open round of the task has it. -/
def Resumable (d : Disk) : Prop :=
  (∃ round, d.round = some round) ∧ ∀ (name : RunName) (before after : List Found),
    (∀ f ∈ before ++ after, f.isOpen = true → f.name.n ≠ name.n) →
      _unfinished_workspace (before ++ ⟨name, d.result.isNone⟩ :: after) (some name.n) = .ok ⟨name, true⟩

end Stablemate.Rounds
