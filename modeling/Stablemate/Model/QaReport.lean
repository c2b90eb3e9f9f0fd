import Mathlib.Data.Char
import Mathlib.Data.List.Dedup
import Mathlib.Data.List.Lex
import Mathlib.Data.List.Sort
import Stablemate.Lib.Dict
import Stablemate.Model.Json

/-!
# The report of a QA run (`ostler/qa/report.py`)

* `_scenarios`: the scenarios of a ledger, each with its steps and what they recorded.
* `_place_in_recordings`: where each step is in the recording of its target.
* `_subject`: a criterion or an obligation, and the assertions that cover it.
* `build_report`: all of it. The warnings, which are texts for the reader, are left out.

What Python raises on a value of the wrong type is part of the model.
-/

namespace Stablemate.QaReport

open Json (Fields)

inductive Raised
  | type_error
  | value_error
  | overflow_error
  | key_error
deriving DecidableEq

/-! ## Values of a record -/

mutual

/-- `repr(x)` -/
def repr : Json → Text
  | .word .null => "None".toList
  | .word (.bool b) => if b then "True".toList else "False".toList
  | .word (.int i) => PyJson.decimal i
  | .word (.float token) => token.val
  | .word .nan => "nan".toList
  | .word .infinity => "inf".toList
  | .word .negInfinity => "-inf".toList
  | .str s => Text.repr s
  | .arr xs => '[' :: ", ".toList.intercalate (reprList xs) ++ [']']
  | .obj kvs => '{' :: ", ".toList.intercalate (reprFields kvs) ++ ['}']

def reprList : List Json → List Text
  | [] => []
  | x :: xs => repr x :: reprList xs

def reprFields : Fields → List Text
  | [] => []
  | (k, x) :: kvs => (Text.repr k ++ ": ".toList ++ repr x) :: reprFields kvs

end

/-- `str(x)` -/
def str : Json → Text
  | .str s => s
  | x => repr x

/-- `x == s` -/
def isStr (s : Text) : Json → Bool
  | .str t => t = s
  | _ => false

/-- `x is None` -/
def isNone : Json → Bool
  | .word .null => true
  | _ => false

/-- `record.get(key, default)` -/
def field (record : Fields) (key : Text) (default : Json) : Json := (Dict.get record key).getD default

/-- `record.get(key)` -/
def value (record : Fields) (key : Text) : Json := field record key Json.null

/-- `str(record.get(key, ""))` -/
def textOf (record : Fields) (key : Text) : Text := str (field record key (.str []))

/-- `str(record.get(key, "") or "")` -/
def textOr (record : Fields) (key : Text) : Text := if (value record key).truthy then str (value record key) else []

/-- The items of `x or []`. -/
def items (x : Json) : Except Raised (List Json) :=
  if x.truthy then
    match x with
    | .arr xs => .ok xs
    | .obj kvs => .ok (kvs.map fun kx => .str kx.1)
    | .str s => .ok (s.map fun c => .str [c])
    | .word _ => .error .type_error
  else .ok []

def isKind (kind : Text) (record : Fields) : Bool := isStr kind (value record "kind".toList)

/-- `str(record.get("scenario", ""))` -/
def scenarioOf (record : Fields) : Text := textOf record "scenario".toList

/-! ## What a scenario holds -/

structure AssertView where
  id : Text
  label : Text
  check : Text
  actual : Json
  expected : Json
  hasActual : Bool
  /-- `PASS`, or else `FAIL` -/
  passed : Bool
  covers : List Text
  sentinel : Bool
  action : Json
  scenario : Text
  step : Text
  stepLabel : Text
  file : Text

structure CaptureView where
  key : Text
  value : Json
  step : Text
  stepLabel : Text

structure ArtifactView where
  kind : Text
  path : Text
  bytes : Json
  step : Text
  stepLabel : Text

/-- What was recorded in a step, or outside of steps. -/
structure Bucket where
  asserts : List AssertView := []
  artifacts : List ArtifactView := []
  captures : List CaptureView := []

/-- Where a step is in a recording. -/
structure Placement where
  path : Text
  begins : Word
  ends : Word

structure Step where
  id : Text
  label : Text
  exit_code : Json := Json.null
  unfinished : Bool := false
  error : Text := []
  startedOffsetMs : Json := Json.null
  endedOffsetMs : Json := Json.null
  video : Option Placement := none
  kept : Bucket := {}
  closed : Bool := false

structure Scenario where
  id : Text
  target : Text
  driver : Text
  mechanism : Text
  covers : List Text
  stamped : Bool
  status : Text := "incomplete".toList
  aborted : Bool := false
  assertions : ℤ := 0
  failures : ℤ := 0
  message : Text := []
  steps : List Step := []
  outside : Bucket := {}
  artifacts : List ArtifactView := []
  /-- The key `_steps` is there. -/
  indexed : Bool := true

structure Recording where
  target : Text
  path : Text
  durationSeconds : Json
  width : Json
  height : Json
  actionStartOffsetMs : Json
  actionEndOffsetMs : Json

/-- What is not part of the model: numbers read from any value, and floating point. -/
structure World where
  /-- `int(x)` -/
  int : Json → Except Raised ℤ
  /-- `Path(raw).name` -/
  name : Text → Text
  /-- `_video_placement` of a step that started at an offset and ended at one -/
  placed : Json → Json → Recording → Except Raised (Option Placement)

variable (W : World)

/-! ## Reading a record -/

def _assert_view (record : Fields) : Except Raised AssertView := do
  let params := match value record "params".toList with
    | .obj params => params
    | _ => []
  let raw := textOr record "raw_result_file".toList
  let covers ← items (value record "covers".toList)
  return {
    id := textOf record "id".toList
    label := textOf record "label".toList
    check := textOf record "check".toList
    actual := value params "actual".toList
    expected := value params "expected".toList
    hasActual := (Dict.get params "actual".toList).isSome
    passed := isStr "PASS".toList (value record "result".toList)
    covers := covers.map str
    sentinel := (value record "sentinel".toList).truthy
    action := value record "action".toList
    scenario := scenarioOf record
    step := textOr record "step".toList
    stepLabel := textOr record "step_label".toList
    file := if raw ≠ [] then "qa/asserts/".toList ++ W.name raw else [] }

def _capture_view (record : Fields) : CaptureView where
  key := textOf record "key".toList
  value := value record "value".toList
  step := textOr record "step".toList
  stepLabel := textOr record "step_label".toList

def _artifact_view (record : Fields) : ArtifactView where
  kind := textOf record "kind".toList
  path := textOf record "path".toList
  bytes := value record "bytes".toList
  step := textOr record "step".toList
  stepLabel := textOr record "step_label".toList

/-- `int(record.get(key, 0) or 0)` -/
def count (record : Fields) (key : Text) : Except Raised ℤ :=
  if (value record key).truthy then W.int (value record key) else .ok 0

/-- What a `step` record says of its step. -/
structure Finished where
  id : Text
  label : Text
  exit_code : Json
  unfinished : Bool
  error : Text
  startedOffsetMs : Json
  endedOffsetMs : Json

def finishedOf (record : Fields) : Finished where
  id := textOf record "id".toList
  label := textOf record "label".toList
  exit_code := value record "exit_code".toList
  unfinished := (value record "unfinished".toList).truthy
  error := textOr record "error".toList
  startedOffsetMs := value record "started_offset_ms".toList
  endedOffsetMs := value record "ended_offset_ms".toList

/-- What a record adds to its scenario. -/
inductive Entry
  | stopped (status : Text) (aborted : Bool) (assertions failures : ℤ) (message : Text)
  | asserted (view : AssertView)
  | captured (view : CaptureView)
  | finished (step : Finished)
  | scenarioLevel (view : ArtifactView)
  | artifact (view : ArtifactView)
  | nothing

def _HOUSEKEEPING_KINDS : List Text :=
  ["assertion-result".toList, "run-ledger".toList, "qa-evidence".toList, "qa-report".toList]

def _SCREENSHOT_SIDECARS : List Text := ["layout".toList, "regions".toList, "vet".toList]

def _SCENARIO_LEVEL_KINDS : List Text := ["playwright-trace".toList, "browser-diagnostics".toList, "command-output".toList]

def entryOf (record : Fields) : Except Raised Entry :=
  let kind := textOf record "kind".toList
  if kind = "scenario_stop".toList then do
    let assertions ← count W record "assertions".toList
    let failures ← count W record "failures".toList
    let status := textOr record "status".toList
    return .stopped (if status ≠ [] then status else "incomplete".toList) (value record "aborted".toList).truthy assertions failures
      (textOr record "message".toList)
  else if kind = "assert".toList then Entry.asserted <$> _assert_view W record
  else if kind = "capture".toList then .ok (.captured (_capture_view record))
  else if kind = "step".toList then .ok (.finished (finishedOf record))
  else if kind ∈ _HOUSEKEEPING_KINDS ∨ kind = "scenario_start".toList then .ok .nothing
  else if (value record "path".toList).truthy then
    if kind ∈ _SCENARIO_LEVEL_KINDS then .ok (.scenarioLevel (_artifact_view record))
    else if kind ∈ _SCREENSHOT_SIDECARS then .ok .nothing
    else .ok (.artifact (_artifact_view record))
  else .ok .nothing

/-! ## Filling a scenario -/

/-- The step as `_step_of` gives it. -/
def _step_of (steps : List Step) (step_id label : Text) : Step :=
  match Keyed.get Step.id steps step_id with
  | none => { id := step_id, label := label }
  | some step => if label ≠ [] ∧ step.label = [] then { step with label := label } else step

/-- A change of the step that `_step_of` gives. -/
def Scenario.onStep (s : Scenario) (step_id label : Text) (f : Step → Step) : Scenario :=
  { s with steps := Keyed.upsert Step.id s.steps (f (_step_of s.steps step_id label)) }

def _place (s : Scenario) (step stepLabel : Text) (f : Bucket → Bucket) : Scenario :=
  if step ≠ [] then s.onStep step stepLabel fun st => { st with kept := f st.kept }
  else { s with outside := f s.outside }

def Step.finish (st : Step) (step : Finished) : Step :=
  { st with
    exit_code := step.exit_code
    unfinished := step.unfinished
    error := step.error
    startedOffsetMs := step.startedOffsetMs
    endedOffsetMs := step.endedOffsetMs
    closed := true }

def Scenario.add (s : Scenario) : Entry → Scenario
  | .stopped status aborted assertions failures message =>
    { s with status := status, aborted := aborted, assertions := assertions, failures := failures, message := message }
  | .asserted view => _place s view.step view.stepLabel fun b => { b with asserts := b.asserts ++ [view] }
  | .captured view => _place s view.step view.stepLabel fun b => { b with captures := b.captures ++ [view] }
  | .finished step => s.onStep step.id step.label fun st => st.finish step
  | .scenarioLevel view => { s with artifacts := s.artifacts ++ [view] }
  | .artifact view => _place s view.step view.stepLabel fun b => { b with artifacts := b.artifacts ++ [view] }
  | .nothing => s

/-! ## The scenarios of a ledger -/

/-- Some record that is no bracket of a step or a scenario says in which step it was made. -/
def isStamped (log : List Fields) : Bool :=
  log.any fun record => !(isKind "step".toList record || isKind "scenario_start".toList record || isKind "scenario_stop".toList record) &&
    (Dict.get record "step".toList).isSome

def opened (stamped : Bool) (record : Fields) : Except Raised Scenario := do
  let covers ← items (value record "covers".toList)
  return {
    id := scenarioOf record
    target := textOf record "target".toList
    driver := textOf record "driver".toList
    mechanism := textOf record "mechanism".toList
    covers := covers.map str
    stamped := stamped }

/-- A record of the second pass. -/
def note (by_id : List Scenario) (record : Fields) : Except Raised (List Scenario) :=
  match Keyed.get Scenario.id by_id (scenarioOf record) with
  | none => .ok by_id
  | some scenario => do
    let entry ← entryOf W record
    return Keyed.upsert Scenario.id by_id (scenario.add entry)

def Step.close (st : Step) : Step :=
  { st with
    unfinished := if st.closed then st.unfinished else true
    exit_code := if st.closed then st.exit_code else .word (.int 1)
    closed := false }

/-- A scenario without its marks. -/
def Scenario.finished (s : Scenario) : Scenario := { s with steps := s.steps.map Step.close, indexed := false }

/-- A scenario of `order`; the list is of those that are done. -/
def finish (state : List Scenario × List Scenario) (id : Text) : Except Raised (List Scenario × List Scenario) :=
  match Keyed.get Scenario.id state.1 id with
  | none => .error .key_error
  | some scenario =>
    if scenario.indexed then
      .ok (Keyed.upsert Scenario.id state.1 scenario.finished, state.2 ++ [scenario.finished])
    else .error .key_error

def _scenarios (log : List Fields) : Except Raised (List Scenario) := do
  let started ← (log.filter (isKind "scenario_start".toList)).mapM (opened (isStamped log))
  let by_id ← log.foldlM (note W) (started.foldl (Keyed.upsert Scenario.id) [])
  let done ← (started.map Scenario.id).foldlM finish (by_id, [])
  return done.2

/-! ## Recordings -/

def recordingsOf (log : List Fields) : List Recording :=
  (log.filter fun record => isKind "video".toList record && (value record "path".toList).truthy).map fun record =>
    { target := textOf record "target".toList
      path := textOf record "path".toList
      durationSeconds := value record "durationSeconds".toList
      width := value record "width".toList
      height := value record "height".toList
      actionStartOffsetMs := value record "actionStartOffsetMs".toList
      actionEndOffsetMs := value record "actionEndOffsetMs".toList }

/-- `by_target.get(target)` -/
def recordingFor (recordings : List Recording) (target : Text) : Option Recording :=
  (recordings.filter fun r => !isNone r.actionStartOffsetMs && r.target = target).getLast?

def _video_placement (started ended : Json) (recording : Recording) : Except Raised (Option Placement) :=
  if isNone started then .ok none else W.placed started ended recording

def placeStep (recording : Option Recording) (st : Step) : Except Raised Step :=
  match recording with
  | none => .ok { st with video := none }
  | some recording => do
    let video ← _video_placement W st.startedOffsetMs st.endedOffsetMs recording
    return { st with video := video }

def placeScenario (recordings : List Recording) (s : Scenario) : Except Raised Scenario := do
  let steps ← s.steps.mapM (placeStep W (recordingFor recordings s.target))
  return { s with steps := steps }

def _place_in_recordings (scenarios : List Scenario) (recordings : List Recording) : Except Raised (List Scenario) :=
  scenarios.mapM (placeScenario W recordings)

/-! ## Criteria and obligations -/

structure GroupStep where
  id : Text
  label : Text
  unfinished : Bool
  video : Option Placement
  asserts : List AssertView
  artifacts : List ArtifactView

structure Group where
  scenario : Text
  status : Text
  aborted : Bool
  target : Text
  driver : Text
  steps : List GroupStep
  outside : List AssertView

/-- A row of the evidence map, as far as the report takes it over. -/
structure Row where
  status : Text
  why : Text
  checksMissing : List Text
  checksInsensitive : List Text

structure Subject where
  id : Text
  kind : Text
  requirement : Text
  verdict : Text
  why : Text
  scenarios : List Text
  passing : ℕ
  failing : ℕ
  groups : List Group
  source : Text := []
  evidenceRequired : Text := []
  checksDeclared : List Text := []
  row : Option Row := none

/-- `subject_id in (record.get("covers") or [])` -/
def isBound (subject_id : Text) (record : Fields) : Except Raised Bool :=
  let covers := value record "covers".toList
  if covers.truthy then
    match covers with
    | .arr xs => .ok (xs.any (isStr subject_id))
    | .obj kvs => .ok (kvs.any fun kx => kx.1 = subject_id)
    | .str s => .ok (Text.contains subject_id s)
    | .word _ => .error .type_error
  else .ok false

/-- `record["id"]`, as an element of a set. -/
def idOf (record : Fields) : Except Raised Json :=
  match Dict.get record "id".toList with
  | none => .error .key_error
  | some (.arr _) => .error .type_error
  | some (.obj _) => .error .type_error
  | some x => .ok x

def groupOf (subject_id : Text) (bound : List Fields) (s : Scenario) : Except Raised (Option Group) := do
  let mine ← (bound.filter fun r => scenarioOf r = s.id).mapM idOf
  let hits (views : List AssertView) := views.filter fun view => mine.any (isStr view.id)
  if mine.isEmpty && !(decide (subject_id ∈ s.covers)) then return none
  else return some {
    scenario := s.id
    status := s.status
    aborted := s.aborted
    target := s.target
    driver := s.driver
    steps := (s.steps.filter fun st => !(hits st.kept.asserts).isEmpty).map fun st =>
      { id := st.id
        label := st.label
        unfinished := st.unfinished
        video := st.video
        asserts := hits st.kept.asserts
        artifacts := st.kept.artifacts }
    outside := hits s.outside.asserts }

/-- The verdict on a subject, and why. -/
def verdictOf (failing passing stopped : List Fields) (claimed : List Text) : Text × Text :=
  if failing ≠ [] then ("FAIL".toList, PyJson.decimal failing.length ++ " assertion(s) covering it failed".toList)
  else if passing ≠ [] then ("PASS".toList, PyJson.decimal passing.length ++ " assertion(s) covering it passed".toList)
  else if stopped ≠ [] then
    ("UNPROVEN".toList, ("every assertion covering it ran inside a scenario that stopped early, so the " ++
      "run never observed the whole of it").toList)
  else if claimed ≠ [] then
    ("UNPROVEN".toList, "claimed by ".toList ++ ", ".toList.intercalate (claimed.map fun s => "\x60".toList ++ s ++ "\x60".toList) ++
      " but no assertion declares \x60covers\x60 for it".toList)
  else ("UNPROVEN".toList, "no scenario claims it and no assertion covers it — it was not tested".toList)

def _subject (item : Fields) (scenarios : List Scenario) (asserts : List Fields) (aborted : List Text) : Except Raised Subject := do
  let subject_id := str (value item "id".toList)
  let flags ← asserts.mapM (isBound subject_id)
  let bound := ((asserts.zip flags).filter Prod.snd).map Prod.fst
  let isPass (r : Fields) := isStr "PASS".toList (value r "result".toList)
  let passing := bound.filter fun r => isPass r && !(decide (scenarioOf r ∈ aborted))
  let failing := bound.filter fun r => !isPass r && !(value r "sentinel".toList).truthy
  let stopped := bound.filter fun r => decide (scenarioOf r ∈ aborted)
  let claimed := (scenarios.filter fun s => subject_id ∈ s.covers).map Scenario.id
  let verdict := verdictOf failing passing stopped claimed
  let groups ← scenarios.mapM (groupOf subject_id bound)
  return {
    id := subject_id
    kind := textOf item "kind".toList
    requirement := textOf item "requirement".toList
    verdict := verdict.1
    why := verdict.2
    scenarios := (bound.map scenarioOf ++ claimed).dedup.insertionSort (· ≤ ·)
    passing := passing.length
    failing := failing.length
    groups := groups.reduceOption }

/-- The entries of a list of the context packet that have an id. -/
def entries (context : Fields) (key : Text) : Except Raised (List Fields) := do
  let xs ← items (value context key)
  return xs.filterMap fun x => match x with
    | .obj item => if (value item "id".toList).truthy then some item else none
    | _ => none

def isRequired (item : Fields) : Bool := (field item "required".toList (.word (.bool true))).truthy

def declaredCalls (item : Fields) : Except Raised (List Text) := do
  let xs ← items (value item "checksDeclared".toList)
  return xs.filterMap fun x => match x with
    | .obj entry => if (value entry "call".toList).truthy then some (str (value entry "call".toList)) else none
    | _ => none

/-- A required obligation, with its row of the evidence map. -/
def obligationOf (scenarios : List Scenario) (asserts : List Fields) (aborted : List Text) (rows : List (Text × Row)) (item : Fields) :
    Except Raised Subject := do
  let subject ← _subject item scenarios asserts aborted
  let declared ← declaredCalls item
  return { subject with
    source := textOf item "source".toList
    evidenceRequired := textOf item "evidenceRequired".toList
    checksDeclared := declared
    row := Dict.get rows subject.id }

/-! ## The report -/

structure Report where
  story : Text
  runId : Text
  status : Text
  startedAt : Text
  finishedAt : Text
  assertions : ℕ
  passed : ℕ
  failed : ℕ
  sentinelsFailed : ℕ
  scenariosPassed : ℕ
  scenariosFailed : ℕ
  aborted : ℕ
  contextOnly : ℕ
  criteria : List Subject
  obligations : List Subject
  scenarios : List Scenario
  recordings : List Recording
  runnerErrors : List Text

def runnerError (record : Fields) : Except Raised Text := do
  let problems ← items (value record "problems".toList)
  return textOf record "message".toList ++
    if (value record "problems".toList).truthy then ": ".toList ++ "; ".toList.intercalate (problems.map str) else []

/-- The rows of the evidence map, which is asked for only if something is owed. -/
def rowsOf (owed : List Fields) (evidence : Except Raised (Option (List (Text × Row)))) : Except Raised (Option (List (Text × Row))) :=
  if owed.isEmpty then .ok none else evidence

/-- `build_report` of the records that `read_log` gives. `context` is what the context packet holds, if it
can be read, and `evidence` what `build_evidence_map` gives, with nothing for an `EvidenceMapError`. -/
def build_report (log : List Fields) (context : Fields) (evidence : Except Raised (Option (List (Text × Row)))) :
    Except Raised Report := do
  let start := (log.find? (isKind "session_start".toList)).getD []
  let stop := (log.reverse.find? (isKind "session_stop".toList)).getD []
  let scenarios ← _scenarios W log
  let scenarios ← _place_in_recordings W scenarios (recordingsOf log)
  let asserts := log.filter (isKind "assert".toList)
  let aborted := (scenarios.filter Scenario.aborted).map Scenario.id
  let criteria_source ← entries context "acceptanceCriteria".toList
  let obligations_all ← entries context "obligations".toList
  let obligations_source := obligations_all.filter isRequired
  let criteria ← criteria_source.mapM fun item => _subject item scenarios asserts aborted
  let rows ← rowsOf obligations_source evidence
  let obligations ← obligations_source.mapM (obligationOf scenarios asserts aborted (rows.getD []))
  let runnerErrors ← (log.filter (isKind "runner_error".toList)).mapM runnerError
  let status := value stop "status".toList
  let runId := value start "run_id".toList
  let runId := if runId.truthy then runId else value stop "run_id".toList
  let isPass (r : Fields) := isStr "PASS".toList (value r "result".toList)
  return {
    story := textOf start "story".toList
    runId := if runId.truthy then str runId else []
    status := if status.truthy then str status else "incomplete".toList
    startedAt := textOf start "ts".toList
    finishedAt := textOf stop "ts".toList
    assertions := asserts.length
    passed := asserts.countP isPass
    failed := asserts.countP fun r => !isPass r
    sentinelsFailed := asserts.countP fun r => (value r "sentinel".toList).truthy && !isPass r
    scenariosPassed := scenarios.countP fun s => s.status = "passed".toList
    scenariosFailed := scenarios.countP fun s => s.status ≠ "passed".toList
    aborted := aborted.dedup.length
    contextOnly := obligations_all.countP fun item => !isRequired item
    criteria := criteria
    obligations := obligations
    scenarios := scenarios
    recordings := recordingsOf log
    runnerErrors := runnerErrors }

end Stablemate.QaReport
