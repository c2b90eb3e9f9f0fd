import Mathlib.Data.List.Sort
import Stablemate.Lib.Dict
import Stablemate.Lib.Marks
import Stablemate.Lib.TwoRun
import Stablemate.Model.Json

/-!
# The ledger of a QA session (`ostler/qa/session.py`)

* `_redact`, `_redact_value`: secrets become `[REDACTED]`, in text and in the strings of a JSON value.
* `_append`: a record becomes a line of `qa-run.ndjson`.
* `run_step`, `run_assert`, `register_artifact`, `start_daemon`, `stop_daemon`, `close`: the operations that write
  records, `run_assert` also a file `asserts/*.json`.
* `run`: any operations, one after the other, of which each may raise.

What a command printed, what a check found and what the file system answers comes with each operation. Bytes
are the text that they decode to.
-/

namespace Stablemate.QaSession

open Json (Fields)
open Scan (replaced startsAt unmarked mark)

/-! ## Redaction -/

def REDACTED : Text := "[REDACTED]".toList

/-- `sorted((str(v) for v in values if v), key=len, reverse=True)` -/
def longestFirst (values : List Text) : List Text :=
  (values.filter (· ≠ [])).insertionSort fun a b => b.length ≤ a.length

def _redact (values : List Text) (text : Text) : Text :=
  (longestFirst values).foldl (fun text value => Text.replace value REDACTED text) text

/-- The redacted text, each character with whether redaction put it in. -/
def redactMarked (values : List Text) (text : Text) : List (Char × Bool) :=
  replaced (mark true REDACTED) ((longestFirst values).map fun value => unmarked (startsAt value)) (mark false text)

mutual

def _redact_value (values : List Text) : Json → Json
  | .word w => .word w
  | .str s => .str (_redact values s)
  | .arr xs => .arr (redactList values xs)
  | .obj kvs => .obj (redactFields values kvs)

def redactList (values : List Text) : List Json → List Json
  | [] => []
  | x :: xs => _redact_value values x :: redactList values xs

def redactFields (values : List Text) : Fields → Fields
  | [] => []
  | (k, x) :: kvs => (k, _redact_value values x) :: redactFields values kvs

end

/-! ## The session -/

structure Daemon where
  name : Text
  pid : ℤ
  argv : List Text
  log_file : Text

structure Session where
  run_id : Text
  story : Text
  env : List (Text × Text)
  secret_values : List (Text × Text)
  captures : List (Text × Text) := []
  daemons : List Daemon := []
  step_count : ℕ := 0
  assert_count : ℕ := 0
  pass_count : ℕ := 0
  fail_count : ℕ := 0
  /-- The lines of `qa-run.ndjson`. -/
  ledger : List Fields := []
  /-- The files `asserts/*.json` by path. -/
  asserts : List (Text × Fields) := []
  /-- The files that the output of steps was written to, by path. -/
  outputs : List (Text × Text) := []

/-- `create` -/
def Session.create (run_id story : Text) (env secret_values : List (Text × Text)) : Session where
  run_id := run_id
  story := story
  env := env
  secret_values := secret_values

/-- The values of `_secret_values`. -/
def Session.values (s : Session) : List Text := s.secret_values.map Prod.snd

/-- What the session reads of the world and of the output of a step. -/
structure World where
  /-- `_now()` and the offset when a record is appended, by the number of the record -/
  clock : ℕ → Text × ℤ
  /-- `str(qa_dir.joinpath(*parts))` -/
  qa_path : List Text → Text
  /-- `int(text)` if `text.isdigit()` -/
  digits : Text → Option ℕ
  /-- `_status_from_header_dump` -/
  header_status : Text → Option ℕ
  /-- `_extract_path(json.loads(body), path)` -/
  extract : Text → Text → Option Text
  /-- `_kill_pid`, by the number of records so far -/
  kill : ℕ → ℤ → ℤ

/-- An operation; what it raises is a message. -/
abbrev Call (α : Type) := TwoRun.Call Text Session α

/-- `d.update(items)` -/
def update {α : Type} (d items : List (Text × α)) : List (Text × α) := items.foldl (fun d kx => Dict.set d kx.1 kx.2) d

def texts (ts : List Text) : Json := .arr (ts.map .str)

def textFields (kvs : List (Text × Text)) : Json := .obj (kvs.map fun kx => (kx.1, .str kx.2))

variable (w : World)

/-- `_append`, which gives the record back as it leaves it. `append` only calls it. -/
def _append (record : Fields) : Call Fields := do
  let s ← get
  let record := update record
    [("ts".toList, .str (w.clock s.ledger.length).1), ("offset_ms".toList, .word (.int (w.clock s.ledger.length).2))]
  let log_record := redactFields s.values (record.filter fun kx => kx.1.head? ≠ some '_')
  modify fun s => { s with ledger := s.ledger ++ [log_record] }
  return record

def write_session_start : Call Fields := do
  let s ← get
  _append w [("kind".toList, .str "session_start".toList), ("run_id".toList, .str s.run_id), ("story".toList, .str s.story),
    ("env".toList, textFields s.env)]

/-- What is found of a file in the spec directory. -/
structure Found where
  path : Text
  sha256 : Text
  bytes : ℕ

/-- The entry that `RunManifest.register` makes. -/
def entryOf (found : Found) (kind scenario target : Text) (metadata : Fields) : Fields :=
  update
    ([("path".toList, .str found.path), ("kind".toList, .str kind), ("sha256".toList, .str found.sha256),
      ("bytes".toList, Json.ofNat found.bytes)] ++
      (if scenario ≠ [] then [("scenario".toList, .str scenario)] else []) ++
      (if target ≠ [] then [("target".toList, .str target)] else []))
    metadata

/-- `register_artifact`; the manifest itself is no record. -/
def register_artifact (found : Except Text Found) (kind scenario target : Text) (metadata : Fields) : Call Fields := do
  let found ← liftM found
  let entry := entryOf found kind scenario target metadata
  let _ ← _append w (update [("kind".toList, .str "artifact".toList)] entry)
  return entry

/-! ## Daemons -/

/-- `start_daemon`; `pid` is what `Popen` gives or raises, and `ready` what `_poll_ready` raises. -/
def start_daemon (name : Text) (argv : List Text) (pid : Except Text ℤ) (ready_check : Json) (ready : Except Text Unit) :
    Call ℤ :=
  if argv = [] then throw ("daemon '".toList ++ name ++ "' declares an empty argv".toList)
  else do
    let log_file := w.qa_path ["daemon-".toList ++ name ++ ".log".toList]
    let pid ← liftM pid
    modify fun s => { s with daemons := s.daemons ++ [⟨name, pid, argv, log_file⟩] }
    let s ← get
    let _ ← _append w [("kind".toList, .str "daemon_start".toList), ("name".toList, .str name), ("pid".toList, .word (.int pid)),
      ("argv".toList, texts (argv.map (_redact s.values))), ("log_file".toList, .str log_file), ("ready_check".toList, ready_check)]
    liftM (if ready_check.truthy then ready else .ok ())
    return pid

def stop_daemon (name reason : Text) : Call ℤ := do
  let s ← get
  match s.daemons.find? fun d => d.name = name with
  | none => throw ("no running daemon named ".toList ++ Text.repr name)
  | some entry =>
    let exit_code := w.kill s.ledger.length entry.pid
    modify fun s => { s with daemons := s.daemons.eraseP fun d => d.name = name }
    let _ ← _append w ([("kind".toList, .str "daemon_stop".toList), ("name".toList, .str name), ("pid".toList, .word (.int entry.pid)),
      ("exit_code".toList, .word (.int exit_code))] ++ if reason ≠ [] then [("reason".toList, .str reason)] else [])
    return exit_code

def stop_all_daemons : Call Unit := do
  let s ← get
  s.daemons.forM fun d => discard (stop_daemon w d.name [])
  modify fun s => { s with daemons := [] }

/-! ## Steps -/

/-- What a command did; a command that ran out of time has no exit code of its own. -/
structure Ran where
  stdout : Text
  stderr : Text
  exit_code : Option ℤ

/-- The file of a step's `out:`. -/
structure OutFile where
  /-- `str(resolved_out)` -/
  path : Text
  /-- what stands in the file, if it is `_adoptable` -/
  standing : Option Text
  found : Except Text Found

/-- The arguments of `run_step`, and what happens outside. -/
structure Step where
  step_id : Text
  label : Text
  mechanism : Text
  cmd : Text
  captures : List (Text × Text)
  allow_fail : Bool
  scenario : Text
  driver : Text
  action : Option ℤ
  covers : List Text
  ran : Except Text Ran
  /-- `_resolve_out`, if there is an `out:` -/
  out : Option (Except Text OutFile)

/-- `text.rstrip("\n")` -/
def unterminated (text : Text) : Text := (text.reverse.dropWhile (· = '\n')).reverse

def _extract_http_status (stdout : Text) : Option ℕ :=
  let last_line := Text.strip ((unterminated stdout).reverse.takeWhile (· ≠ '\n')).reverse
  (w.digits last_line).filter fun code => 100 ≤ code ∧ code ≤ 599

def _without_http_status (stdout : Text) : Text :=
  (((unterminated stdout).reverse.dropWhile (· ≠ '\n')).drop 1).reverse

/-- What counts as the output of a step, and whether the command wrote it to the file itself. -/
def adopted (stdout : Text) : Option OutFile → Text × Bool
  | some out =>
    match out.standing with
    | some standing => if stdout = [] then (standing, true) else (stdout, false)
    | none => (stdout, false)
  | none => (stdout, false)

/-- The output goes to the file, unless the command wrote it there. -/
def keepOutput (stdout_safe : Text) (out_kept : Bool) (scenario driver : Text) : Option OutFile → Call Unit
  | some out => do
    modify fun s => { s with outputs := if out_kept then s.outputs else Dict.set s.outputs out.path stdout_safe }
    let _ ← register_artifact w out.found "command-output".toList scenario driver []
  | none => return ()

def run_step (step : Step) : Call Fields :=
  if step.mechanism ∉ ["live".toList, "fixture".toList] then
    throw ("mechanism must be one of ['fixture', 'live'], got '".toList ++ step.mechanism ++ "'".toList)
  else do
    let s ← get
    let ran ← liftM step.ran
    let out ← liftM (step.out.mapM id)
    let (stdout_raw, out_kept) := adopted ran.stdout out
    let http_status := _extract_http_status w stdout_raw
    let body_raw := if http_status.isSome then _without_http_status stdout_raw else stdout_raw
    let http_status := http_status.or (w.header_status stdout_raw)
    let stdout_safe := _redact s.values body_raw
    let stderr_safe := _redact s.values ran.stderr
    keepOutput w stdout_safe out_kept step.scenario step.driver out
    let read := step.captures.filterMap fun capture => (w.extract body_raw capture.2).map fun value => (capture.1, value)
    let captured := update [] read
    modify fun s => { s with captures := update s.captures read, step_count := s.step_count + 1 }
    let record ← _append w
      ([("kind".toList, .str "step".toList), ("id".toList, .str step.step_id), ("label".toList, .str step.label),
        ("mechanism".toList, .str step.mechanism), ("cmd".toList, .str step.cmd), ("exit_code".toList, .word (.int (ran.exit_code.getD 124))),
        ("driver".toList, .str step.driver)] ++
        (if step.scenario ≠ [] then [("scenario".toList, .str step.scenario)] else []) ++
        (step.action.toList.map fun action => ("action".toList, .word (.int action))) ++
        (if step.covers ≠ [] then [("covers".toList, texts step.covers)] else []) ++
        (if ran.exit_code.isNone then [("timed_out".toList, .word (.bool true))] else []) ++
        (http_status.toList.map fun code => ("http_status".toList, Json.ofNat code)) ++
        (out.toList.map fun out => ("stdout_file".toList, .str out.path)) ++
        (if out_kept then [("stdout_file_written_by_cmd".toList, .word (.bool true))] else []) ++
        (if captured ≠ [] then [("captured".toList, textFields captured)] else []) ++
        (if stderr_safe ≠ [] then [("stderr".toList, .str (stderr_safe.take 2000))] else []) ++
        [("_stdout".toList, .str stdout_safe), ("_stdout_actual".toList, .str body_raw)])
    if ¬ step.allow_fail ∧ ran.exit_code ≠ some 0 then
      throw ("step '".toList ++ step.step_id ++ "' exited ".toList ++ PyJson.decimal (ran.exit_code.getD 124) ++ ": ".toList ++
        stdout_safe.take 500)
    else return record

/-! ## Asserts -/

/-- The arguments of `run_assert`, and what `_execute_check` finds. -/
structure Assert where
  assert_id : Text
  label : Text
  check_type : Text
  params : Fields
  scenario : Text
  driver : Text
  action : Option ℤ
  covers : List Text
  declared : Option (Text × Fields)
  sentinel : Bool
  step : Option (Text × Text)
  checked : Except Text (Bool × Fields)
  found : Except Text Found

def run_assert (check : Assert) : Call (Bool × Fields) := do
  let raw_out_path := w.qa_path ["asserts".toList, check.assert_id ++ ".json".toList]
  let (passed, raw_result) ← liftM check.checked
  modify fun s => { s with asserts := Dict.set s.asserts raw_out_path (redactFields s.values raw_result) }
  let _ ← register_artifact w check.found "assertion-result".toList check.scenario check.driver []
  modify fun s => { s with
    assert_count := s.assert_count + 1
    pass_count := if passed then s.pass_count + 1 else s.pass_count
    fail_count := if passed then s.fail_count else s.fail_count + 1 }
  let record ← _append w
    ([("kind".toList, .str "assert".toList), ("id".toList, .str check.assert_id), ("label".toList, .str check.label),
      ("check".toList, .str (check.declared.elim check.check_type Prod.fst)), ("params".toList, .obj check.params),
      ("raw_result_file".toList, .str raw_out_path), ("result".toList, .str (if passed then "PASS".toList else "FAIL".toList)),
      ("driver".toList, .str check.driver)] ++
      (if check.scenario ≠ [] then [("scenario".toList, .str check.scenario)] else []) ++
      (check.action.toList.map fun action => ("action".toList, .word (.int action))) ++
      (if check.covers ≠ [] then [("covers".toList, texts check.covers)] else []) ++
      (if check.sentinel then [("sentinel".toList, .word (.bool true))] else []) ++
      (check.step.elim [] fun step => [("step".toList, .str step.1), ("step_label".toList, .str step.2)]) ++
      (check.declared.toList.map fun declared => ("check_args".toList, .obj declared.2)) ++
      (["match_count".toList, "count".toList, "value".toList, "expected".toList].filterMap fun key =>
        (Dict.get raw_result key).map fun x => (key, x)))
  return (passed, record)

/-! ## The end, and runs -/

def close (status : Text) : Call Fields := do
  stop_all_daemons w
  let s ← get
  let status := if status ≠ [] then status else if s.fail_count = 0 then "passed".toList else "failed".toList
  _append w [("kind".toList, .str "session_stop".toList), ("run_id".toList, .str s.run_id), ("step_count".toList, Json.ofNat s.step_count),
    ("assert_count".toList, Json.ofNat s.assert_count), ("pass_count".toList, Json.ofNat s.pass_count),
    ("fail_count".toList, Json.ofNat s.fail_count), ("status".toList, .str status)]

inductive Op
  | append (record : Fields)
  | write_session_start
  | register_artifact (found : Except Text Found) (kind scenario target : Text) (metadata : Fields)
  | start_daemon (name : Text) (argv : List Text) (pid : Except Text ℤ) (ready_check : Json) (ready : Except Text Unit)
  | stop_daemon (name reason : Text)
  | run_step (step : Step)
  | run_assert (check : Assert)
  | close (status : Text)

def perform : Op → Call Unit
  | .append record => discard (_append w record)
  | .write_session_start => discard (write_session_start w)
  | .register_artifact found kind scenario target metadata => discard (register_artifact w found kind scenario target metadata)
  | .start_daemon name argv pid ready_check ready => discard (start_daemon w name argv pid ready_check ready)
  | .stop_daemon name reason => discard (stop_daemon w name reason)
  | .run_step step => discard (run_step w step)
  | .run_assert check => discard (run_assert w check)
  | .close status => discard (close w status)

/-- What the operations leave, one after the other. One that raises leaves what it had done. -/
def run (ops : List Op) (s : Session) : Session := ops.foldl (fun s op => (TwoRun.outcome (perform w op) s).2) s

end Stablemate.QaSession
