import Mathlib.Algebra.Order.Ring.Rat
import Stablemate.Model.Archive

/-!
# The index of an archive (`groom/archive.py`, `groom/store.py`)

`write_telemetry` writes the rows of a run to a `telemetry.jsonl`, and `build_index` reads them
back into the tables of a `telemetry.db`. Here a row has every column of its table.

A file is the list of what `json.loads` gives of its lines. An `attrs_json` is held as the object
that it decodes to.
-/

namespace Stablemate.Index

open PyJson
open Archive (Kind RunBounds ARCHIVED_METRICS ARCHIVE_PAGE blank truthy)

/-! ## The tables -/

inductive Affinity
  | text
  | integer
  | real
  /-- `attrs_json`. -/
  | object
deriving DecidableEq

structure Column where
  name : Text
  affinity : Affinity
  notNull : Bool
  default : Value

def nullable (affinity : Affinity) (name : String) : Column := ⟨name.toList, affinity, false, .none⟩

def required (affinity : Affinity) (name : String) : Column := ⟨name.toList, affinity, true, .none⟩

/-- `TEXT NOT NULL DEFAULT …`. -/
def defaulted (name default : String) : Column := ⟨name.toList, .text, true, .str default.toList⟩

/-- `TEXT NOT NULL DEFAULT '{}'`. -/
def attrsJson : Column := ⟨"attrs_json".toList, .object, true, .dict []⟩

/-- `_SCHEMA` with the columns that `_migrate` adds. -/
def columns : Kind → List Column
  | .span => [nullable .text "span_id", required .text "trace_id", defaulted "parent_id" "",
      defaulted "run_id" "", defaulted "workflow" "", defaulted "repo" "", defaulted "branch" "",
      defaulted "node" "", defaulted "name" "", defaulted "run_dir" "", required .real "start_ts",
      required .real "end_ts", defaulted "status" "UNSET", attrsJson, nullable .integer "duration_ms",
      nullable .real "total_cost_usd", nullable .integer "input_tokens", nullable .integer "output_tokens",
      nullable .integer "cache_read_tokens", nullable .integer "cache_creation_tokens",
      nullable .integer "pid", nullable .integer "resume_generation", nullable .text "head_start",
      nullable .text "head_end", nullable .text "workspace_start", nullable .text "workspace_end",
      nullable .text "vcs_start", nullable .text "vcs_end", nullable .text "origin_start",
      nullable .text "origin_end", nullable .text "branch_start", nullable .text "branch_end",
      nullable .text "repositories_start", nullable .text "repositories_end",
      nullable .real "est_cost_usd", nullable .text "priced_model"]
  | .log => [defaulted "run_id" "", defaulted "workflow" "", defaulted "run_dir" "", defaulted "node" "",
      defaulted "logger" "", defaulted "severity" "INFO", defaulted "body" "", required .real "ts",
      defaulted "trace_id" "", attrsJson, nullable .text "head", nullable .text "workspace",
      nullable .text "vcs", nullable .text "origin", nullable .text "branch", nullable .text "repositories"]
  | .metric => [defaulted "run_id" "", required .text "name", required .real "ts", required .real "value",
      attrsJson]

/-- A value that the column can hold. -/
def Column.Fits (c : Column) : Value → Prop
  | .none => c.notNull = false
  | .int _ => c.affinity = .integer
  | .float (.fin ..) => c.affinity = .real
  | .str _ => c.affinity = .text
  | .dict kvs => c.affinity = .object ∧ Plain (.dict kvs)
  | _ => False

/-- A row of a table, with a value for each column. -/
structure Row (kind : Kind) where
  rowid : ℕ
  values : List Value
  rowid_pos : 0 < rowid
  fits : List.Forall₂ Column.Fits (columns kind) values

variable {kind : Kind}

/-- The columns by name. -/
def Row.cells (r : Row kind) : Entries := ((columns kind).map fun c => .str c.name).zip r.values

/-- `row[column]`. -/
def get (column : Text) (row : Entries) : Value := (row.lookup (.str column)).getD .none

/-- A value of a column of text; NULL is no text. -/
def textOf : Value → Option Text
  | .str s => some s
  | _ => none

/-- A row's primary key. -/
def spanId (values : List Value) : Option Text := values.head?.bind textOf

/-- `groom.db`. A span that has a `span_id` is the only one that has it. -/
structure Database where
  tables : (kind : Kind) → List (Row kind)
  rowids : ∀ kind, ((tables kind).map Row.rowid).Nodup
  spanIds : ((tables .span).filterMap fun r => spanId r.values).Nodup

/-! ## Writing -/

/-- The keys of `_KIND_TABLES`. -/
def kindName : Kind → Text
  | .span => "span".toList
  | .log => "log".toList
  | .metric => "metric".toList

/-- The column of `_ARCHIVE_STREAMS`. -/
def tsColumn : Kind → Text
  | .span => "start_ts".toList
  | .log | .metric => "ts".toList

/-- `dict(row)` of a row that `archive_page` selects. -/
def Row.dict (r : Row kind) : Entries :=
  (.str "_rowid".toList, .int r.rowid) :: (.str "_ts".toList, get (tsColumn kind) r.cells) :: r.cells

/-- `float(value)`. -/
def floatOf : Value → ℚ
  | .float (.fin x _) => x
  | _ => 0

/-- What a stream is in the order of. -/
def position (r : Row kind) : ℚ ×ₗ ℕ := toLex (floatOf (get "_ts".toList r.dict), r.rowid)

/-- Of the metrics, only some are archived. -/
def archived (kind : Kind) (cells : Entries) : Bool :=
  match kind with
  | .metric => ((textOf (get "name".toList cells)).map ARCHIVED_METRICS.contains).getD false
  | .span | .log => true

/-- The rows of a run that are archived. -/
def archivable (db : Database) (run_id : Text) (kind : Kind) : List (Row kind) :=
  (db.tables kind).filter fun r => textOf (get "run_id".toList r.cells) = some run_id && archived kind r.cells

/-- `_attrs`. -/
def attrsOf (row : Entries) : Entries :=
  match get "attrs_json".toList row with
  | .dict kvs => kvs
  | _ => []

/-- A column that `_record` leaves out. -/
def skipped (kx : Key × Value) : Bool :=
  kx.1 = .str "_ts".toList || kx.1 = .str "_rowid".toList || kx.1 = .str "attrs_json".toList || blank kx.2

/-- `key in d`. -/
def has (key : Text) (d : Entries) : Bool := (d.lookup (.str key)).isSome

/-- `d.pop(key, None)`, as far as what stays. -/
def drop (key : Text) (d : Entries) : Entries := d.filter fun kx => kx.1 ≠ .str key

/-- `d.setdefault(key, x)`. -/
def setDefault (key : Text) (x : Value) (d : Entries) : Entries :=
  if has key d then d else setItem (.str key) x d

/-- The keys that a record of the kind has besides its columns. -/
def addressed (kind : Kind) (row attrs record : Entries) : Entries :=
  match kind with
  | .span =>
    drop "resume_generation".toList
      (setItem (.str "seq".toList) (get "workhorse.seq".toList attrs)
        (setItem (.str "generation".toList) (get "resume_generation".toList row) record))
  | .metric =>
    let node := get "node".toList attrs
    let node := if truthy node then node else get "workhorse.node".toList attrs
    if truthy node then setItem (.str "node".toList) node record else record
  | .log => record

def notNone : Value → Bool
  | .none => false
  | _ => true

/-- `_record`. -/
def record (kind : Kind) (row : Entries) : Entries :=
  let attrs := attrsOf row
  let record := [(.str "kind".toList, .str (kindName kind)), (.str "ts".toList, get "_ts".toList row)]
  let record := row.foldl (fun record kx => if skipped kx then record else setItem kx.1 kx.2 record) record
  let record := addressed kind row attrs record
  let record := setDefault "node".toList (.str []) record
  let record := if attrs.isEmpty then record else setItem (.str "attrs".toList) (.dict attrs) record
  record.filter fun kx => notNone kx.2

/-- What `_stream` yields. -/
structure Item where
  position : ℚ ×ₗ ℕ
  kind : Kind
  record : Entries

/-- `_stream`, from `(0.0, 0)`. -/
def stream (db : Database) (run_id : Text) (kind : Kind) : List Item :=
  let rows := archivable db run_id kind
  (Keyset.scan position ARCHIVE_PAGE rows (rows.length + 1) (toLex (0, 0))).map fun r =>
    { position := position r, kind, record := record kind r.dict }

/-- `records`. -/
def records (db : Database) (run_id : Text) : List Item :=
  (stream db run_id .span ++ stream db run_id .log ++ stream db run_id .metric).insertionSort
    fun a b => a.position ≤ b.position

/-- A summary: what `json` can write. -/
abbrev Summary := { v : Value // Plain v }

/-- `_manifest_line`. -/
def manifestLine (run : RunBounds PyFloat) (now : PyFloat) (summary : Option Summary) : Entries :=
  let key (name : String) : Key := .str name.toList
  [(key "kind", .str "manifest".toList), (key "run_id", .str run.run_id),
    (key "workflow", .str run.workflow), (key "repo", .str run.repo), (key "branch", .str run.branch),
    (key "archived_at", .float now), (key "min_ts", .float run.min_ts), (key "max_ts", .float run.max_ts),
    (key "rows", .dict [(key "span", .int run.spans), (key "log", .int run.logs),
      (key "metric", .int run.metrics)])] ++
    match summary with
    | none => []
    | some v => [(key "summary", v.1)]

/-- How many records of a kind are written. -/
def counted (kind : Kind) (items : List Item) : ℕ := (items.filter fun it => it.kind = kind).length

/-- `write_telemetry`, or `none` where it raises. -/
def writeTelemetry (db : Database) (run : RunBounds PyFloat) (now : PyFloat) (summary : Option Summary) :
    Option (List Value) :=
  let items := records db run.run_id
  if counted .span items = run.spans ∧ counted .log items = run.logs ∧ counted .metric items = run.metrics then
    (manifestLine run now summary :: items.map (·.record)).mapM fun line => json (.dict line)
  else none

/-- The counts of a run as `run_bounds` takes them. -/
def Database.counts (db : Database) (run : RunBounds PyFloat) : RunBounds PyFloat :=
  { run with
    spans := (archivable db run.run_id .span).length
    logs := (archivable db run.run_id .log).length
    metrics := (archivable db run.run_id .metric).length }

/-! ## Reading back -/

/-- `_row`. -/
def rowOf (kind : Kind) (record : Entries) : Entries :=
  let attrs := get "attrs".toList record
  let row := drop "attrs".toList (drop "kind".toList record)
  let row :=
    match kind with
    | .span =>
      let row :=
        if has "generation".toList row then
          setItem (.str "resume_generation".toList) (get "generation".toList row) (drop "generation".toList row)
        else row
      setDefault "trace_id".toList (.str []) row
    | .log | .metric => row
  let row := setItem (.str "attrs_json".toList) (if notNone attrs then attrs else .dict []) row
  row.filter fun kx => (columns kind).any fun c => kx.1 = .str c.name

/-- The row that an `INSERT` makes of the named values. -/
def filled (kind : Kind) (row : Entries) : List Value :=
  (columns kind).map fun c => (row.lookup (.str c.name)).getD c.default

/-- A table of the index. -/
abbrev Table := List (List Value)

/-- `INSERT OR IGNORE`: a NULL in a column that is `NOT NULL`, and a `span_id` that is there, are
ignored. -/
def insertOrIgnore (kind : Kind) (table : Table) (row : Entries) : Table :=
  let values := filled kind row
  let complete := ((columns kind).zip values).all fun cv => !cv.1.notNull || notNone cv.2
  let fresh := kind ≠ .span || spanId values = none || table.all fun old => spanId old ≠ spanId values
  if complete && fresh then table ++ [values] else table

/-- `tuple(sorted(row))`. -/
def keysOf (row : Entries) : List Text := (row.map fun kx => kx.1.text).insertionSort (· ≤ ·)

/-- `by_keys.setdefault(keys, []).append(row)`. -/
def appendTo (keys : List Text) (row : Entries) : List (List Text × List Entries) → List (List Text × List Entries)
  | [] => [(keys, [row])]
  | (keys', rows) :: groups =>
    if keys' = keys then (keys', rows ++ [row]) :: groups else (keys', rows) :: appendTo keys row groups

/-- `by_keys`. -/
def byKeys (batch : List Entries) : List (List Text × List Entries) :=
  batch.foldl (fun groups row => appendTo (keysOf row) row groups) []

/-- `_flush`. -/
def flush (kind : Kind) (table : Table) (batch : List Entries) : Table :=
  ((byKeys batch).flatMap (·.2)).foldl (insertOrIgnore kind) table

def INDEX_BATCH : ℕ := 5000

/-- The index and the rows that wait for a flush. -/
structure Building where
  tables : Kind → Table
  batches : Kind → List Entries

/-- The table that a line is for, if it is a record. -/
def kindOf (record : Entries) : Option Kind :=
  match get "kind".toList record with
  | .str s =>
    if s = "span".toList then some .span
    else if s = "log".toList then some .log
    else if s = "metric".toList then some .metric
    else none
  | _ => none

/-- One flush of `_build_index`. -/
def Building.flush (b : Building) (kind : Kind) : Building where
  tables := Function.update b.tables kind (Index.flush kind (b.tables kind) (b.batches kind))
  batches := Function.update b.batches kind []

/-- One line of the file. -/
def readLine (b : Building) : Value → Building
  | .dict record =>
    match kindOf record with
    | none => b
    | some kind =>
      let batch := b.batches kind ++ [rowOf kind record]
      let b := { b with batches := Function.update b.batches kind batch }
      if INDEX_BATCH ≤ batch.length then b.flush kind else b
  | _ => b

/-- `_build_index`, where there is no index yet. -/
def buildIndex (lines : List Value) : Kind → Table :=
  let b := lines.foldl readLine { tables := fun _ => [], batches := fun _ => [] }
  (((b.flush .span).flush .log).flush .metric).tables

/-! ## The round trip -/

/-- **The archive of a run reads back as the run was stored**: it is written, and each table of
its index has the rows of the store, up to their order. -/
def ReadsBack (db : Database) (run : RunBounds PyFloat) (now : PyFloat) (summary : Option Summary) : Prop :=
  ∃ lines, writeTelemetry db (db.counts run) now summary = some lines ∧
    ∀ kind, (buildIndex lines kind).Perm ((archivable db run.run_id kind).map Row.values)

/-- What a column holds when its record has no key for it. -/
def Column.absent (c : Column) : Value := if c.name = "trace_id".toList then .str [] else c.default

/-- The row is not from before the epoch, and a column of it that holds the empty text is one that
holds it by default. -/
def Restorable (r : Row kind) : Prop :=
  0 ≤ floatOf (get "_ts".toList r.dict) ∧
    ∀ cv ∈ (columns kind).zip r.values, cv.2 = .str [] → cv.1.absent = .str []

end Stablemate.Index
