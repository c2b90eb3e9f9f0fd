import Mathlib.Data.List.Sort
import Stablemate.Lib.Dict
import Stablemate.Model.Json

/-!
# The export of the turn archive (`groom/export.py`, `groom/store.py`)

* `query_turns`: the indexed turns, in the order of their visits.
* `_transcript_lines`, `_message_of`: the messages of an archived record.
* `_write_session`, `export_by_node`: a file for each session, and `INDEX.json`.

The folder that the export goes to is a `Disk`; places in it are lists of names. What `json.loads` and
`datetime.fromtimestamp` answer and which names the file system takes are an `Env`.
-/

namespace Stablemate.Export

open Json (Fields)

/-- A row of the table `turns`, with what the export reads. -/
structure Row where
  run_id : Text
  workflow : Text
  node : Text
  session_id : Text
  generation : Option ℤ
  seq : Option ℤ
  ts : PyJson.PyFloat
  source : Text
  path : Text
  head : Option Text

/-- The files of an archived record, as text. -/
structure Record where
  transcript_jsonl : Option Text
  transcript_json : Option Text
  prompt : Bool

/-- What `datetime.fromtimestamp` answers: an error that is caught, or one that is not. -/
inductive Stamp
  | time (iso : Text)
  | invalid
  | overflow
deriving DecidableEq

structure Env where
  /-- `json.loads`, with `none` for a `ValueError` -/
  loads : Text → Option Json
  /-- The record in the folder `record_path(row)`. -/
  record : Row → Record
  fromtimestamp : PyJson.PyFloat → Stamp
  /-- The file system takes the name. -/
  accepts : Text → Bool

/-! ## The index of turns -/

/-- `NULL` comes first. -/
def nullsFirst : Option ℤ → Option ℤ → Bool
  | none, _ => true
  | some _, none => false
  | some a, some b => a ≤ b

/-- `ORDER BY run_id, generation, seq` -/
def Row.before (a b : Row) : Prop :=
  a.run_id < b.run_id ∨ a.run_id = b.run_id ∧
    (a.generation ≠ b.generation ∧ nullsFirst a.generation b.generation = true ∨
      a.generation = b.generation ∧ nullsFirst a.seq b.seq = true)

instance : DecidableRel Row.before := fun _ _ => inferInstanceAs (Decidable (_ ∨ _ ∧ (_ ∧ _ ∨ _ ∧ _)))

def query_turns (turns : List Row) (run node workflow : Text) (limit : ℤ) : List Row :=
  (((turns.filter fun row => (run = [] ∨ row.run_id = run) ∧ (node = [] ∨ row.node = node) ∧
    (workflow = [] ∨ row.workflow = workflow)).insertionSort Row.before)).take (max 1 limit).toNat

/-! ## The messages of a record -/

def _message_of (entry : Fields) : Option Fields :=
  let own := if (Json.get entry "role".toList).truthy then
    some [("role".toList, Json.get entry "role".toList), ("content".toList, Json.get entry "content".toList)] else none
  match Json.get entry "message".toList with
  | .obj message =>
    if (Json.get message "role".toList).truthy then
      some ([("role".toList, Json.get message "role".toList), ("content".toList, Json.get message "content".toList)] ++
        if (Json.get message "model".toList).truthy then [("model".toList, Json.get message "model".toList)] else [])
    else own
  | _ => own

/-- `full_model` -/
def fullModel (provider model : Json) : Json :=
  match provider, model with
  | .str provider, .str name => if provider ≠ [] ∧ name ≠ [] then .str (provider ++ '/' :: name) else .str name
  | _, model => model

/-- A message of a full-session export, as a transcript line. -/
def itemEntry : Json → Option Fields
  | .obj item =>
    match (item.lookup "info".toList).getD (.obj []), (item.lookup "parts".toList).getD (.arr []) with
    | .obj info, .arr parts =>
      let model := match fullModel (Json.get info "providerID".toList) (Json.get info "modelID".toList) with
        | .str name => if name ≠ [] then [("model".toList, .str name)] else []
        | _ => []
      let cwd := match (info.lookup "path".toList).getD (.obj []) with
        | .obj path => match Json.get path "cwd".toList with
          | .str cwd => [("cwd".toList, .str cwd)]
          | _ => []
        | _ => []
      some (("message".toList, .obj ([("role".toList, Json.get info "role".toList), ("content".toList, .arr parts)] ++ model)) :: cwd)
    | _, _ => none
  | _ => none

def _transcript_lines (env : Env) (record : Record) : List Fields :=
  match record.transcript_jsonl with
  | some text =>
    ((Text.newlines text).splitOn '\n').filterMap fun line =>
      if Text.strip line = [] then none else
        match env.loads (Text.strip line) with
        | some (.obj entry) => some entry
        | _ => none
  | none =>
    match record.transcript_json.bind env.loads with
    | some (.obj payload) =>
      match (payload.lookup "messages".toList).getD (.arr []) with
      | .arr messages => messages.filterMap itemEntry
      | _ => []
    | _ => []

/-! ## Names -/

/-- `_iso(row.get("ts"))`, or `none` where it raises. -/
def _iso (env : Env) (ts : PyJson.PyFloat) : Option Text :=
  match env.fromtimestamp ts with
  | .time iso => some iso
  | .invalid => some []
  | .overflow => none

def isSafe (c : Char) : Bool := c.isAlphanum || c ∈ "._-".toList

/-- `_UNSAFE.sub("_", value)`, in a run of other characters or not. -/
def sub : Bool → Text → Text
  | _, [] => []
  | inRun, c :: cs =>
    if isSafe c then c :: sub false cs else if inRun then sub true cs else '_' :: sub true cs

/-- `value.strip("._-")` -/
def stripMarks (value : Text) : Text :=
  ((value.dropWhile fun c => c ∈ "._-".toList).reverse.dropWhile fun c => c ∈ "._-".toList).reverse

def _safe (value fallback : Text) : Text :=
  let cleaned := stripMarks (sub false value)
  if cleaned = [] then fallback else cleaned

def UNKNOWN_SOURCE : Text := "unknown".toList

/-- `source or UNKNOWN_SOURCE` -/
def sourceOf (row : Row) : Text := if row.source = [] then UNKNOWN_SOURCE else row.source

/-- The stem of a session's file. -/
def stem (row : Row) : Text :=
  _safe (sourceOf row) UNKNOWN_SOURCE ++ "__".toList ++ _safe row.session_id "unknown-session".toList

/-- The folder of a session's file. -/
def parent (row : Row) : List Text :=
  [_safe row.workflow "unknown-workflow".toList, _safe row.node "unknown-node".toList]

def relative (row : Row) : List Text := parent row ++ [stem row ++ ".json".toList]

/-- `target.with_suffix(".json.part")` -/
def partialOf (row : Row) : List Text := parent row ++ [stem row ++ ".json.part".toList]

/-- `relative.as_posix()` -/
def as_posix (place : List Text) : Text := ['/'].intercalate place

/-! ## The folder -/

inductive Content
  | text (t : Text)
  /-- `json.dumps(v, indent=2)` -/
  | indented (v : Json)

structure Disk where
  folders : List (List Text)
  files : List (List Text × Content)

/-- The file system takes the last name of a place. -/
def Env.takes (env : Env) (place : List Text) : Bool := place.getLast?.all env.accepts

def mkdir (env : Env) (disk : Disk) (place : List Text) : Option Disk :=
  if place ∈ disk.folders then some disk
  else if (Dict.get disk.files place).isSome ∨ env.takes place = false then none
  else some { disk with folders := place :: disk.folders }

/-- `mkdir(parents=True, exist_ok=True)` of a place and the folders above it; what was made before an
error stays. -/
def mkdirs (env : Env) : Disk → List (List Text) → Disk × Bool
  | disk, [] => (disk, true)
  | disk, place :: places =>
    match mkdir env disk place with
    | some disk => mkdirs env disk places
    | none => (disk, false)

/-- A file that is opened for writing and filled. -/
def write (env : Env) (disk : Disk) (place : List Text) (content : Content) : Option Disk :=
  if place ∈ disk.folders ∨ env.takes place = false then none
  else some { disk with files := Dict.set disk.files place content }

/-- `source.replace(target)` of a file with this content. -/
def replace (env : Env) (disk : Disk) (source target : List Text) (content : Content) : Option Disk :=
  (write env disk target content).map fun disk => { disk with files := Dict.pop disk.files source }

/-! ## A session -/

/-- The loop over the entries of a record. -/
structure Progress where
  out : Text
  count : ℕ
  cwd : Text
  model : Text

/-- The text of the first of the values that is one. -/
def orText (known : Text) (value : Json) : Text :=
  if known ≠ [] then known else
    match value with
    | .str text => text
    | _ => known

def Progress.step (p : Progress) (entry : Fields) : Progress :=
  match _message_of entry with
  | none => { p with cwd := orText p.cwd (Json.get entry "cwd".toList) }
  | some message =>
    { out := p.out ++ (if p.count = 0 then [] else ", ".toList) ++ Json.dumps (.obj message)
      count := p.count + 1
      cwd := orText p.cwd (Json.get entry "cwd".toList)
      model := orText p.model (Json.get message "model".toList) }

def progress (env : Env) (row : Row) : Progress :=
  (_transcript_lines env (env.record row)).foldl Progress.step ⟨[], 0, [], []⟩

def headOf (row : Row) (time_created : Text) : Fields :=
  [("task".toList, .str row.node), ("source".toList, .str (sourceOf row)), ("session_id".toList, .str row.session_id),
    ("run_id".toList, .str row.run_id), ("workflow".toList, .str row.workflow),
    ("generation".toList, Json.ofOption (fun i => .word (.int i)) row.generation),
    ("seq".toList, Json.ofOption (fun i => .word (.int i)) row.seq), ("time_created".toList, .str time_created),
    ("head".toList, Json.ofOption .str row.head)]

def tailOf (p : Progress) : Fields :=
  [("n_messages".toList, .ofNat p.count), ("cwd".toList, .str p.cwd), ("model".toList, .str p.model)]

/-- What `_write_session` puts into the file. -/
def sessionText (env : Env) (row : Row) (time_created : Text) : Text :=
  (Json.dumps (.obj (headOf row time_created))).dropLast ++ ", \"messages\": [".toList ++ (progress env row).out ++ "]".toList ++
    ", ".toList ++ (Json.dumps (.obj (tailOf (progress env row)))).tail

/-- What `_write_session` gives to the index. -/
def entryOf (env : Env) (row : Row) (time_created : Text) : Fields :=
  headOf row time_created ++ tailOf (progress env row) ++
    [("bytes".toList, .ofNat (Text.utf8 (sessionText env row time_created)).length),
      ("has_prompt".toList, .word (.bool (env.record row).prompt))]

/-- How a session comes out: an `OverflowError`, an `OSError`, or its record in the index. -/
inductive Outcome
  | raised
  | skipped (disk : Disk)
  | written (disk : Disk) (entry : Fields)

def _write_session (env : Env) (disk : Disk) (row : Row) : Outcome :=
  match mkdirs env disk [(parent row).take 1, parent row] with
  | (disk, false) => .skipped disk
  | (disk, true) =>
    match write env disk (partialOf row) (.text []) with
    | none => .skipped disk
    | some opened =>
      match _iso env row.ts with
      | none => .raised
      | some time_created =>
        let text := sessionText env row time_created
        match replace env opened (partialOf row) (relative row) (.text text) with
        | none => .skipped { opened with files := Dict.set opened.files (partialOf row) (.text text) }
        | some disk => .written disk (entryOf env row time_created)

/-! ## The export -/

/-- One round of the loop: the folder and the index after it. -/
def exportRow (env : Env) (state : Disk × List Fields) (row : Row) : Option (Disk × List Fields) :=
  if row.session_id = [] then some state else
    match _write_session env state.1 row with
    | .raised => none
    | .skipped disk => some (disk, state.2)
    | .written disk entry => some (disk, state.2 ++ [entry ++ [("path".toList, .str (as_posix (relative row)))]])

def INDEX : List Text := ["INDEX.json".toList]

/-- The export into an empty folder, or `none` where it raises. -/
def export_by_node (env : Env) (turns : List Row) (workflow run node : Text) (limit : ℤ) : Option Disk :=
  ((query_turns turns run node workflow limit).foldlM (exportRow env) (⟨[], []⟩, [])).bind fun state =>
    write env state.1 INDEX
      (.indented (.obj [("sessions".toList, .ofNat state.2.length), ("records".toList, .arr (state.2.map .obj))]))

end Stablemate.Export
