import Mathlib.Data.Prod.Lex
import Stablemate.Lib.Keyset
import Stablemate.Lib.Run
import Stablemate.Lib.Sha256
import Stablemate.Model.PyJson

/-!
# The telemetry store and its archive (`groom/store.py`, `groom/archive.py`)

Rows are inserted into three tables. A sweep writes what the store holds of a run to the
`telemetry.jsonl` of the run's directory, moves the directory under `archives/`, and deletes
the run's rows; a prune deletes expired rows of the runs that have an archive. A step is one
transaction on the store, or one file written or moved, so that a stop can come anywhere.

A timestamp is a non-negative float: an element of a linear order whose least one is `0.0`.
A run id names one directory, as it does for the runs that the engine starts.
-/

namespace Stablemate.Archive

open PyJson

/-! ## Rows -/

/-- A signal, with its table. -/
inductive Kind
  | span
  | log
  | metric
deriving DecidableEq

def LIVENESS_METRICS : List Text :=
  ["workhorse.run.heartbeat".toList, "workhorse.turn.heartbeat".toList, "workhorse.cap_wait.heartbeat".toList]

def UNARCHIVED_DELETABLE_METRICS : List Text :=
  ["workhorse.node.active".toList, "workhorse.node.elapsed_s".toList, "workhorse.turn.active".toList,
    "workhorse.turn.idle_s".toList, "workhorse.turn.elapsed_s".toList, "workhorse.wait.active".toList,
    "workhorse.wait.elapsed_s".toList]

def ARCHIVED_METRICS : List Text :=
  ["workhorse.gas".toList, "workhorse.gas.capacity".toList, "workhorse.gas.refuels".toList,
    "workhorse.cap_wait.remaining_s".toList]

def NEVER_ARCHIVED_METRICS : List Text := UNARCHIVED_DELETABLE_METRICS ++ LIVENESS_METRICS

/-- A row. A log or a metric has its `ts` as `start_ts` and does not use `end_ts`; a column that
its table does not have is empty. `attrs` is what `attrs_json` decodes to, and `rest` has the
columns that only the archive reads. -/
structure Row (T : Type) where
  kind : Kind
  span_id : Text
  run_id : Text
  workflow : Text
  repo : Text
  branch : Text
  name : Text
  run_dir : Text
  start_ts : T
  end_ts : T
  attrs : Entries
  rest : Entries

/-- A row in its table. `arrival` says how many rows were inserted before it. -/
structure Stored (T : Type) extends Row T where
  rowid : ℕ
  arrival : ℕ

variable {T : Type} [LinearOrder T] [OrderBot T]

/-- The time by which a row expires. -/
def Row.last (r : Row T) : T :=
  match r.kind with
  | .span => r.end_ts
  | .log | .metric => r.start_ts

/-- A span, a log, or a metric that is kept: what an archive holds. -/
def Row.archived (r : Row T) : Bool :=
  match r.kind with
  | .metric => ARCHIVED_METRICS.contains r.name
  | .span | .log => true

/-- Two spans with one primary key. -/
def Row.sameSpan (r r' : Row T) : Bool := r.kind = .span && r'.kind = .span && r.span_id = r'.span_id

/-! ## Archived lines -/

/-- `bool(value)`. -/
def truthy : Value → Bool
  | .none => false
  | .bool b => b
  | .int i => i ≠ 0
  | .float (.fin x _) => x ≠ 0
  | .str s => s ≠ []
  | .list xs | .tuple xs => !xs.isEmpty
  | .dict kvs => !kvs.isEmpty
  | _ => true

/-- `d.get(key)`. -/
def get (key : Text) (d : Entries) : Value := (d.lookup (.str key)).getD .none

/-- `None` or `""`. -/
def blank : Value → Bool
  | .none => true
  | .str s => s = []
  | _ => false

/-- The columns of a row, but for its timestamps and `attrs_json`. -/
def Row.columns (r : Row T) : Entries :=
  let text (column : String) (s : Text) : Key × Value := (.str column.toList, .str s)
  (match r.kind with
    | .span => [text "span_id" r.span_id, text "run_id" r.run_id, text "workflow" r.workflow,
        text "repo" r.repo, text "branch" r.branch, text "name" r.name, text "run_dir" r.run_dir]
    | .log => [text "run_id" r.run_id, text "workflow" r.workflow, text "run_dir" r.run_dir,
        text "branch" r.branch]
    | .metric => [text "run_id" r.run_id, text "name" r.name]) ++ r.rest

/-- One archived line: its kind, its `ts`, the timestamps of a span, and the other keys. -/
structure Record (T : Type) where
  kind : Kind
  ts : T
  times : Option (T × T)
  fields : Entries

/-- `_record`. -/
def record (r : Row T) : Record T :=
  let fields := r.columns.filter fun kx => !blank kx.2
  let fields :=
    match r.kind with
    | .span =>
      (setItem (.str "seq".toList) (get "workhorse.seq".toList r.attrs)
        (setItem (.str "generation".toList) (get "resume_generation".toList r.rest) fields)).filter
          fun kx => kx.1 ≠ .str "resume_generation".toList
    | .metric =>
      let node := get "node".toList r.attrs
      let node := if truthy node then node else get "workhorse.node".toList r.attrs
      if truthy node then setItem (.str "node".toList) node fields else fields
    | .log => fields
  let fields :=
    if (fields.map (·.1)).contains (.str "node".toList) then fields
    else setItem (.str "node".toList) (.str []) fields
  let fields := if r.attrs.isEmpty then fields else setItem (.str "attrs".toList) (.dict r.attrs) fields
  { kind := r.kind
    ts := r.start_ts
    times := if r.kind = .span then some (r.start_ts, r.end_ts) else none
    fields := fields.filter fun kx => match kx.2 with | .none => false | _ => true }

/-! ## Runs -/

/-- The bounds of a run, and the manifest of its archive. -/
structure RunBounds (T : Type) where
  run_id : Text
  workflow : Text
  repo : Text
  branch : Text
  run_dir : Text
  min_ts : T
  max_ts : T
  spans : ℕ
  logs : ℕ
  metrics : ℕ

def RunBounds.rows (b : RunBounds T) : ℕ := b.spans + b.logs + b.metrics

/-- The rows of one table that belong to a run. -/
def table (kind : Kind) (run_id : Text) (rows : List (Stored T)) : List (Stored T) :=
  rows.filter fun r => r.kind = kind && r.run_id = run_id

/-- The latest of the spans, which says what run it is. -/
def latest : List (Stored T) → Option (Stored T)
  | [] => none
  | r :: rows =>
    match latest rows with
    | none => some r
    | some r' => if r'.start_ts ≤ r.start_ts then some r else some r'

/-- `run_bounds`, of one run. -/
def boundsOf (rows : List (Stored T)) (run_id : Text) : RunBounds T :=
  let spans := table .span run_id rows
  let logs := table .log run_id rows
  let metrics := table .metric run_id rows
  let stamps := (spans.flatMap (fun r => [r.start_ts, r.end_ts]) ++ logs.map (·.start_ts) ++
    metrics.map (·.start_ts)).filter (· ≠ ⊥)
  let identity := latest spans
  let of (column : Row T → Text) : Text := (identity.map fun r => column r.toRow).getD []
  { run_id
    workflow := of Row.workflow
    repo := of Row.repo
    branch := of Row.branch
    run_dir := of Row.run_dir
    min_ts := (stamps.min?).getD ⊥
    max_ts := (stamps.max?).getD ⊥
    spans := spans.length
    logs := logs.length
    metrics := (metrics.filter fun r => r.archived).length }

/-- The process that groom runs in: `tempfile.gettempdir()`, and `repr` of a timestamp. -/
structure Env (T : Type) where
  tempdir : Text
  repr : T → Text

def TEST_RUN_DIR_MARKERS : List Text :=
  ["/pytest-of-".toList, "/.workhorse-test/".toList, "/.groom-test/".toList]

/-- `^tmp[A-Za-z0-9_]{6,}$`, where `$` is also found before a last newline. -/
def isPyTempDir (segment : Text) : Bool :=
  let body := segment.drop 3
  let body := if body.getLast? = some '\n' then body.dropLast else body
  segment.take 3 = "tmp".toList && 6 ≤ body.length && body.all fun c =>
    'A' ≤ c && c ≤ 'Z' || 'a' ≤ c && c ≤ 'z' || '0' ≤ c && c ≤ '9' || c = '_'

/-- `_temp_roots`. -/
def tempRoots (env : Env T) : List Text :=
  let root := (env.tempdir.reverse.dropWhile (· = '/')).reverse
  ((([root, "/tmp".toList].dedup).insertionSort (· ≤ ·)).filter (· ≠ [])).map (· ++ ['/'])

/-- `is_scratch_run_dir`. -/
def isScratchRunDir (env : Env T) (run_dir : Text) : Bool :=
  (run_dir ≠ [] && TEST_RUN_DIR_MARKERS.any fun marker => Text.contains marker run_dir) ||
    match (tempRoots env).find? (·.isPrefixOf run_dir) with
    | some root => isPyTempDir ((run_dir.drop root.length).takeWhile (· ≠ '/'))
    | none => false

/-- `eligible`: the runs wholly past the window, the oldest first, and those that still emit. -/
def eligible (env : Env T) (bounds : List (RunBounds T)) (cutoff : T) :
    List (RunBounds T) × List (RunBounds T) :=
  let runs := bounds.filter fun b => !isScratchRunDir env b.run_dir
  let past (b : RunBounds T) : Bool := b.max_ts ≠ ⊥ && b.max_ts < cutoff
  let archivable := runs.filter fun b => past b && b.rows ≠ 0
  let held := runs.filter fun b => !past b && b.min_ts ≠ ⊥ && b.min_ts < cutoff
  (archivable.insertionSort fun a b => a.max_ts ≤ b.max_ts, held.insertionSort fun a b => a.max_ts ≤ b.max_ts)

/-! ## Writing a run's telemetry -/

def ARCHIVE_PAGE : ℕ := 5000

/-- The order of the rows of a table. -/
def position (r : Stored T) : T ×ₗ ℕ := toLex (r.start_ts, r.rowid)

/-- `archive_page`: the rows with `ts > stamp or (ts = stamp and rowid > rowid)`, in order. -/
def archivePage (run_id : Text) (kind : Kind) (after : T × ℕ) (rows : List (Stored T)) : List (Stored T) :=
  ((((table kind run_id rows).filter fun r => r.archived).filter fun r =>
    after.1 < r.start_ts || r.start_ts = after.1 && after.2 < r.rowid).insertionSort
      fun a b => position a ≤ position b).take ARCHIVE_PAGE

/-- `_stream`: page after page, `fuel` of them at most, until one is empty. -/
def stream (run_id : Text) (kind : Kind) (rows : List (Stored T)) : ℕ → T × ℕ → List (Stored T)
  | 0, _ => []
  | fuel + 1, after =>
    let page := archivePage run_id kind after rows
    match page.getLast? with
    | none => []
    | some last => page ++ stream run_id kind rows fuel (last.start_ts, last.rowid)

/-- `heapq.merge` by `(ts, rowid)`, of streams in that order: of equal keys, the one of the
earlier stream comes first. -/
def heapMerge (streams : List (List (Stored T))) : List (Stored T) :=
  streams.flatten.insertionSort fun a b => position a ≤ position b

/-- `records`: the three streams, from `(0.0, 0)`. -/
def records (run_id : Text) (rows : List (Stored T)) : List (Stored T) :=
  let whole (kind : Kind) := stream run_id kind rows (rows.length + 1) (⊥, 0)
  heapMerge [whole .span, whole .log, whole .metric]

/-- A `telemetry.jsonl`: the manifest, the lines with the rows they were made from, and how many
rows had been inserted when it was written. -/
structure Telemetry (T : Type) where
  run : RunBounds T
  lines : List (Stored T × Record T)
  clock : ℕ

/-- How many rows of a kind were written. -/
def counted (kind : Kind) (written : List (Stored T)) : ℕ := (written.filter fun r => r.kind = kind).length

/-- `write_telemetry`, or `none` where it raises. -/
def writeTelemetry (run : RunBounds T) (rows : List (Stored T)) (clock : ℕ) : Option (Telemetry T) :=
  let written := records run.run_id rows
  if counted .span written = run.spans ∧ counted .log written = run.logs ∧
      counted .metric written = run.metrics then
    some { run, lines := written.map fun r => (r, record r.toRow), clock }
  else none

/-! ## Archive folders -/

/-- The folders under `archives/`, by name; each has a `telemetry.jsonl`. -/
abbrev Archives (T : Type) := List (Text × Telemetry T)

/-- `archived_run_ids`. -/
def archivedRunIds (archives : Archives T) : List Text := archives.map (·.1)

/-- `derived_name`. -/
def derivedName (env : Env T) (run : RunBounds T) : Text :=
  run.run_id ++ '-' :: (Sha256.hexdigest (Text.utf8 (run.run_id ++ ':' :: env.repr run.max_ts))).take 8

/-- `_matches`. -/
def matchesRun (found : Telemetry T) (run : RunBounds T) : Bool :=
  found.run.max_ts = run.max_ts && found.run.spans = run.spans && found.run.logs = run.logs &&
    found.run.metrics = run.metrics

inductive Destination
  | free (name : Text)
  /-- The archive is there already. -/
  | there
  /-- Both names are taken by other archives: `_destination` raises. -/
  | taken

/-- `_destination`. -/
def destination (env : Env T) (archives : Archives T) (run : RunBounds T) : Destination :=
  match archives.lookup run.run_id with
  | none => .free run.run_id
  | some found =>
    if matchesRun found run then .there
    else
      match archives.lookup (derivedName env run) with
      | none => .free (derivedName env run)
      | some found => if matchesRun found run then .there else .taken

/-! ## Processes -/

/-- Where a sweep is; `runs` are the ones still to be archived. -/
inductive Sweeper (T : Type)
  | idle
  | choosing (runs : List (RunBounds T))
  /-- The run's `telemetry.jsonl` is written. -/
  | written (run : RunBounds T) (name : Text) (runs : List (RunBounds T))
  /-- The archive is in place; the run's rows in `tables` are still to be deleted. -/
  | deleting (run_id : Text) (tables : List Kind) (runs : List (RunBounds T))

/-- Where a prune is. -/
inductive Pruner (T : Type)
  | idle
  /-- The metrics that are never archived are deleted. -/
  | gauges (cutoff : T) (archived : List Text)
  | choosing (cutoff : T) (archived : List Text)
  | deleting (cutoff : T) (targets : List (Text × Kind))

/-- The store, the files, and the two processes. `inserted` has every row that was inserted and
`clock` says how many. -/
structure State (T : Type) where
  rows : List (Stored T)
  clock : ℕ
  inserted : List (Stored T)
  /-- The `telemetry.jsonl` of a run's directory under `transcripts/`. -/
  transcripts : Text → Option (Telemetry T)
  archives : Archives T
  sweeper : Sweeper T
  pruner : Pruner T

/-- One step. `order` is the order in which a set of run ids is iterated, and `picked` are the
rowids that a `DELETE … LIMIT` takes: SQLite and Python leave both open. -/
inductive Event (T : Type)
  | insert (row : Row T)
  | sweep (order : List Text) (cutoff : T) (limit : ℕ)
  | archiveRun
  | rename
  | sweepChunk (picked : List ℕ)
  /-- A file operation of the sweep raises. -/
  | osError
  | stopSweep
  | prune (cutoff : T)
  | pruneChunk (picked : List ℕ)
  | pruneTargets
  | stopPrune

/-- The next rowid of a table. -/
def nextRowid (kind : Kind) (rows : List (Stored T)) : ℕ :=
  ((rows.filter fun r => r.kind = kind).map (·.rowid)).foldr max 0 + 1

/-- `insert_spans`, `insert_logs` and `insert_metrics`, of one row. A span replaces the one with
its `span_id`; a heartbeat is dropped. -/
def insertRow (row : Row T) (s : State T) : State T :=
  if row.kind = .metric && LIVENESS_METRICS.contains row.name then s
  else
    let stored : Stored T := { row with rowid := nextRowid row.kind s.rows, arrival := s.clock }
    { s with
      rows := (s.rows.filter fun r => !row.sameSpan r.toRow) ++ [stored]
      clock := s.clock + 1
      inserted := s.inserted ++ [stored] }

def PRUNE_CHUNK : ℕ := 50000

/-- What a chunk deletes: rows of the clause, with the rowids `picked`. -/
def chunk (clause : Stored T → Bool) (picked : List ℕ) (rows : List (Stored T)) : List (Stored T) :=
  rows.filter fun r => clause r && picked.contains r.rowid

/-- `_delete_chunk`: what stays, and whether the next call would find more. The chunk takes
`PRUNE_CHUNK` rows of the clause, or all if there are fewer. -/
def deleteChunk (clause : Stored T → Bool) (picked : List ℕ) (rows : List (Stored T)) :
    Option (List (Stored T) × Bool) :=
  let count := (chunk clause picked rows).length
  if count = min PRUNE_CHUNK (rows.filter clause).length then
    some (rows.filter fun r => !(clause r && picked.contains r.rowid), PRUNE_CHUNK ≤ count)
  else none

/-- Of a run's rows in one table: those that a sweep deletes. -/
def sweepClause (run_id : Text) (kind : Kind) (r : Stored T) : Bool := r.kind = kind && r.run_id = run_id

/-- Of a run's rows in one table: those that a prune deletes. -/
def pruneClause (cutoff : T) (run_id : Text) (kind : Kind) (r : Stored T) : Bool :=
  r.kind = kind && r.run_id = run_id && r.last < cutoff

def gaugeClause (cutoff : T) (r : Stored T) : Bool :=
  r.kind = .metric && r.start_ts < cutoff && NEVER_ARCHIVED_METRICS.contains r.name

/-- `_expired_run_ids`. -/
def expiredRunIds (rows : List (Stored T)) (cutoff : T) : List Text :=
  (rows.filter fun r => r.last < cutoff).map (·.run_id)

/-- `_test_run_ids`. -/
def testRunIds (env : Env T) (rows : List (Stored T)) : List Text :=
  (rows.filter fun r => r.kind ≠ .metric && r.run_dir ≠ [] && r.run_id ≠ [] &&
    isScratchRunDir env r.run_dir).map (·.run_id)

/-- The runs that a prune deletes from, in order, with their tables. -/
def pruneTargets (env : Env T) (rows : List (Stored T)) (cutoff : T) (archived : List Text) :
    List (Text × Kind) :=
  let expired := expiredRunIds rows cutoff
  let deletable := archived ++ [[]] ++ (if expired.isEmpty then [] else testRunIds env rows)
  ((expired.filter deletable.contains).dedup.insertionSort (· ≤ ·)).flatMap fun run_id =>
    [(run_id, .span), (run_id, .log), (run_id, .metric)]

/-- The rows that a delete is after, if a process has come to one. -/
def sweepTarget (s : State T) : Option (Stored T → Bool) :=
  match s.sweeper with
  | .deleting run_id (kind :: _) _ => some (sweepClause run_id kind)
  | _ => none

def pruneTarget (s : State T) : Option (Stored T → Bool) :=
  match s.pruner with
  | .gauges cutoff _ => some (gaugeClause cutoff)
  | .deleting cutoff ((run_id, kind) :: _) => some (pruneClause cutoff run_id kind)
  | _ => none

/-- The run ids of the store, each once: a set as it is iterated. -/
def RunIds (order : List Text) (rows : List (Stored T)) : Prop :=
  order.Nodup ∧ (∀ id ∈ order, id ≠ [] ∧ id ∈ rows.map (·.run_id)) ∧
    ∀ r ∈ rows, r.run_id ≠ [] → r.run_id ∈ order

instance (order : List Text) (rows : List (Stored T)) : Decidable (RunIds order rows) :=
  inferInstanceAs (Decidable (_ ∧ _ ∧ _))

/-- Where a sweep goes on when the delete is through. -/
def Sweeper.advance : Sweeper T → Sweeper T
  | .deleting _ [] runs | .deleting _ [_] runs => .choosing runs
  | .deleting run_id (_ :: tables) runs => .deleting run_id tables runs
  | sweeper => sweeper

/-- Where a prune goes on when the delete is through. -/
def Pruner.advance : Pruner T → Pruner T
  | .gauges cutoff archived => .choosing cutoff archived
  | .deleting _ [] | .deleting _ [_] => .idle
  | .deleting cutoff (_ :: targets) => .deleting cutoff targets
  | pruner => pruner

/-- `archive_run` of the next run, as far as its telemetry file. -/
def archiveRun (env : Env T) (run : RunBounds T) (runs : List (RunBounds T)) (s : State T) : State T :=
  match destination env s.archives run with
  | .taken => { s with sweeper := .choosing runs }
  | .there => { s with sweeper := .deleting run.run_id [.span, .log, .metric] runs }
  | .free name =>
    match writeTelemetry run s.rows s.clock with
    | none => { s with sweeper := .choosing runs }
    | some file =>
      { s with
        transcripts := fun id => if id = run.run_id then some file else s.transcripts id
        sweeper := .written run name runs }

/-- The directory of a run, with its telemetry, becomes an archive folder. -/
def rename (run : RunBounds T) (name : Text) (runs : List (RunBounds T)) (s : State T) : Option (State T) :=
  -- a directory is not moved onto one that is not empty
  if (s.archives.lookup name).isSome then some { s with sweeper := .choosing runs }
  else
    (s.transcripts run.run_id).map fun file =>
      { s with
        archives := s.archives ++ [(name, file)]
        transcripts := fun id => if id = run.run_id then none else s.transcripts id
        sweeper := .deleting run.run_id [.span, .log, .metric] runs }

/-- One step of the store, the sweep or the prune. -/
def step (env : Env T) (s : State T) : Event T → Option (State T)
  | .insert row => some (insertRow row s)
  | .sweep order cutoff limit =>
    match s.sweeper with
    | .idle =>
      if RunIds order s.rows then
        some { s with sweeper := .choosing ((eligible env (order.map (boundsOf s.rows)) cutoff).1.take limit) }
      else none
    | _ => none
  | .archiveRun =>
    match s.sweeper with
    | .choosing [] => some { s with sweeper := .idle }
    | .choosing (run :: runs) => some (archiveRun env run runs s)
    | _ => none
  | .rename =>
    match s.sweeper with
    | .written run name runs => rename run name runs s
    | _ => none
  | .sweepChunk picked =>
    (sweepTarget s).bind fun clause => (deleteChunk clause picked s.rows).map fun d =>
      { s with rows := d.1, sweeper := if d.2 then s.sweeper else s.sweeper.advance }
  | .osError =>
    match s.sweeper with
    | .choosing (_ :: runs) | .written _ _ runs => some { s with sweeper := .choosing runs }
    | _ => none
  | .stopSweep => some { s with sweeper := .idle }
  | .prune cutoff =>
    match s.pruner with
    | .idle => some { s with pruner := .gauges cutoff (archivedRunIds s.archives) }
    | _ => none
  | .pruneChunk picked =>
    (pruneTarget s).bind fun clause => (deleteChunk clause picked s.rows).map fun d =>
      { s with rows := d.1, pruner := if d.2 then s.pruner else s.pruner.advance }
  | .pruneTargets =>
    match s.pruner with
    | .choosing cutoff archived =>
      match pruneTargets env s.rows cutoff archived with
      | [] => some { s with pruner := .idle }
      | target :: targets => some { s with pruner := .deleting cutoff (target :: targets) }
    | _ => none
  | .stopPrune => some { s with pruner := .idle }

/-- Nothing is stored and nothing is archived. -/
def start : State T where
  rows := []
  clock := 0
  inserted := []
  transcripts _ := none
  archives := []
  sweeper := .idle
  pruner := .idle

/-! ## What is kept -/

/-- The row that stands for `r`: itself, or a later one under its primary key. -/
def Stored.standsFor (r' r : Stored T) : Prop :=
  r' = r ∨ r'.sameSpan r.toRow = true ∧ r.arrival ≤ r'.arrival

/-- In the store, or in the `telemetry.jsonl` of an archive folder. -/
def Kept (s : State T) (r : Stored T) : Prop :=
  (∃ r' ∈ s.rows, r'.standsFor r) ∨
    ∃ f ∈ s.archives, ∃ r', r'.standsFor r ∧ (r', record r'.toRow) ∈ f.2.lines

/-- **No telemetry is lost**: each row that an archive is to hold is kept. -/
def Safe (s : State T) : Prop := ∀ r ∈ s.inserted, r.archived = true → Kept s r

/-- The rows that the event deletes. -/
def removed (s : State T) : Event T → List (Stored T)
  | .sweepChunk picked => ((sweepTarget s).map fun clause => chunk clause picked s.rows).getD []
  | .pruneChunk picked => ((pruneTarget s).map fun clause => chunk clause picked s.rows).getD []
  | _ => []

/-- Each row that the event deletes had arrived when an archive of its run was written. -/
def Covered (s : State T) (e : Event T) : Prop :=
  ∀ r ∈ removed s e, r.archived = true → ∃ f ∈ s.archives, f.2.run.run_id = r.run_id ∧ r.arrival < f.2.clock

instance (s : State T) (e : Event T) : Decidable (Covered s e) :=
  inferInstanceAs (Decidable (∀ _ ∈ _, _ → ∃ _ ∈ _, _ ∧ _))

end Stablemate.Archive
