import Mathlib.Algebra.Order.Ring.Rat
import Mathlib.Data.Char
import Mathlib.Data.List.Lex
import Mathlib.Data.List.Sort
import Stablemate.Lib.Dict
import Stablemate.Model.Text

/-!
# The runs that ended (`groom/history.py`)

* `discover`: the runs whose summary is missing or out of date, from aggregates over the span index.
* `summarize`, `compute`: the summary of one run, from its spans.

A time is rational. SQLite promises of `ORDER BY` only that the rows are sorted, so the two orders that the
code asks for are functions of a `Sql`.
-/

namespace Stablemate.History

/-- A row of the table `spans`. Where `workhorse.terminal` is no text, it is no ending to either reader, as
where it is missing. -/
structure Span where
  run_id : Text
  node : Text
  name : Text
  start_ts : ℚ
  end_ts : ℚ
  terminal : Text
deriving DecidableEq

inductive State
  | ready
  | pending
  | unreadable
deriving DecidableEq

/-- A row of the table `run_summary`, with the columns that `discover` reads. -/
structure Summary where
  run_id : Text
  state : State
  ending : Text
  ended_ts : Option ℚ
  last_ts : ℚ
  resume_read : ℤ
deriving DecidableEq

structure Store where
  spans : List Span
  summaries : List (Text × Summary)

structure Sql where
  /-- `ORDER BY end_ts` -/
  byEnd : List Span → List Span
  /-- `ORDER BY start_ts` -/
  byStart : List Span → List Span

structure Config where
  /-- `alerts.dead_after_s()` -/
  dead_after_s : ℚ
  /-- `alerts.giveup_nodes()` -/
  giveup_nodes : List Text

variable (config : Config) (sql : Sql)

/-! ## Endings -/

def CLEAN_TERMINALS : List Text := ["terminal".toList, "ended".toList]

def _TERMINAL_ENDINGS : List (Text × Text) :=
  [("fail".toList, "failed".toList), ("interrupted".toList, "interrupted".toList), ("aborted".toList, "crashed".toList)]

def CONTINUABLE : List Text := ["failed".toList, "interrupted".toList, "crashed".toList]

def STOPPED : List Text := CONTINUABLE ++ ["gave-up".toList]

def RESUME_READ : ℤ := 2

def ENDING_TOLERANCE_S : ℚ := 60

def ending_of (terminal : Text) (gave_up : Bool) : Option Text :=
  if terminal ∈ CLEAN_TERMINALS then some (if gave_up then "gave-up".toList else "success".toList)
  else Dict.get _TERMINAL_ENDINGS terminal

def _closed (root_ts last_ts : ℚ) : Bool := root_ts ≠ 0 ∧ root_ts + ENDING_TOLERANCE_S ≥ last_ts

def _silent (last_ts now : ℚ) : Bool := now - last_ts > config.dead_after_s

/-! ## The index -/

/-- `name >= 'run:' AND name < 'run;'` -/
def _ROOT (span : Span) : Bool := "run:".toList ≤ span.name ∧ span.name < "run;".toList

/-- `MAX(end_ts)`, and the greatest of the `end_ts` of some spans. -/
def maxEnd (spans : List Span) : Option ℚ := (spans.map (·.end_ts)).max?

def spansOf (store : Store) (run_id : Text) : List Span := store.spans.filter fun span => span.run_id = run_id

/-- `_last_records()`, with the end of the last record. -/
def _last_records (store : Store) : List (Text × ℚ) :=
  (((store.spans.map (·.run_id)).filter fun run_id => run_id ≠ []).dedup).map fun run_id =>
    (run_id, (maxEnd (spansOf store run_id)).getD 0)

/-- `_latest_roots()`: of the rows of one run the last one stays. -/
def _latest_roots (store : Store) : List (Text × (ℚ × Text)) :=
  (sql.byEnd (store.spans.filter fun span => span.run_id ≠ [] ∧ _ROOT span)).foldl
    (fun roots span => Dict.set roots span.run_id (span.end_ts, span.terminal)) []

/-! ## Discovery -/

/-- What is done about a run. -/
inductive Verdict
  /-- It is wanted, with the row to insert if it has none. -/
  | wanted (pending : Option Summary)
  /-- It leaves History. -/
  | returned
  | kept
deriving DecidableEq

def rootOf (store : Store) (run_id : Text) : ℚ × Text := (Dict.get (_latest_roots sql store) run_id).getD (0, [])

/-- `ended` -/
def isEnded (store : Store) (run_id : Text) (last_ts : ℚ) : Bool :=
  _closed (rootOf sql store run_id).1 last_ts && (ending_of (rootOf sql store run_id).2 false).isSome

/-- The stored row is pending or out of date. -/
def isStale (row : Summary) (last_ts : ℚ) : Bool :=
  row.state = .pending ∨ |row.last_ts - last_ts| > 1 / 1000000 ∨ (row.ending ∈ STOPPED ∧ row.resume_read < RESUME_READ)

/-- The body of the loop of `discover`. -/
def look (store : Store) (now : ℚ) (run_id : Text) (last_ts : ℚ) : Verdict :=
  let ended := isEnded sql store run_id last_ts
  let silent := _silent config last_ts now
  match Dict.get store.summaries run_id with
  | none =>
    if ended || silent then
      .wanted (some ⟨run_id, .pending, [], some (if ended then (rootOf sql store run_id).1 else last_ts), 0, 0⟩)
    else .kept
  | some row =>
    if isStale row last_ts then
      if ended || silent then .wanted none
      else if row.ended_ts.isSome then .returned
      else .kept
    else if row.ended_ts = none ∧ silent then .wanted none
    else .kept

/-- What the loop does to the table: `INSERT OR IGNORE` of a pending row, `SET ended_ts = NULL`. -/
def Verdict.apply (verdict : Verdict) (run_id : Text) (summaries : List (Text × Summary)) : List (Text × Summary) :=
  match verdict with
  | .wanted (some pending) => Dict.setdefault summaries run_id pending
  | .wanted none => summaries
  | .returned =>
    match Dict.get summaries run_id with
    | some row => Dict.set summaries run_id { row with ended_ts := none }
    | none => summaries
  | .kept => summaries

def Verdict.isWanted : Verdict → Bool
  | .wanted _ => true
  | _ => false

/-- `sorted(wanted, reverse=True)` -/
def newestFirst (wanted : List (ℚ × Text)) : List (ℚ × Text) :=
  wanted.insertionSort fun a b => b.1 < a.1 ∨ b.1 = a.1 ∧ b.2 ≤ a.2

/-- The ids that are returned, and the store after it. -/
def discover (store : Store) (now : ℚ) : List Text × Store :=
  let looked := (_last_records store).map fun run => (run.1, run.2, look config sql store now run.1 run.2)
  ((newestFirst ((looked.filter fun run => run.2.2.isWanted).map fun run => (run.2.1, run.1))).map (·.2),
    { store with summaries := looked.foldl (fun summaries run => run.2.2.apply run.1 summaries) store.summaries })

/-! ## A summary -/

/-- `max(roots, key=lambda span: span["end_ts"], default=None)`: the first of the greatest. -/
def latest (roots : List Span) : Option Span :=
  roots.foldl (fun best span => if (best.any fun b => b.end_ts ≥ span.end_ts) then best else some span) none

/-- `store.run_turn_spans(run_id)` -/
def run_turn_spans (store : Store) (run_id : Text) : List Span :=
  if run_id = [] then [] else sql.byStart (spansOf store run_id)

/-- The root of the spans of a run. -/
def root (spans : List Span) : Option Span := latest (spans.filter fun span => "run:".toList.isPrefixOf span.name)

/-- `ending`, before silence is looked at. -/
def endingOf (spans : List Span) (last_ts : ℚ) : Option Text :=
  (root spans).bind fun root =>
    if _closed root.end_ts last_ts then ending_of root.terminal (spans.any fun span => span.node ∈ config.giveup_nodes) else none

def summarize (store : Store) (run_id : Text) (now : ℚ) : Option Summary :=
  let spans := run_turn_spans sql store run_id
  (maxEnd spans).map fun last_ts =>
    match endingOf config spans last_ts with
    | some ending => ⟨run_id, .ready, ending, (root spans).map (·.end_ts), last_ts, RESUME_READ⟩
    | none =>
      if _silent config last_ts now then ⟨run_id, .ready, "none".toList, some last_ts, last_ts, RESUME_READ⟩
      else ⟨run_id, .ready, [], none, last_ts, RESUME_READ⟩

/-- `compute`: the store after it. -/
def compute (now : ℚ) (store : Store) (run_id : Text) : Store :=
  match summarize config sql store run_id now with
  | none =>
    { store with
      summaries := store.summaries.filter fun row => ¬ (row.1 = run_id ∧ row.2.state = .pending) }
  | some row => { store with summaries := Dict.set store.summaries run_id row }

/-- `discover`, and `compute` of what it returned. -/
def round (store : Store) (now : ℚ) : Store :=
  (discover config sql store now).1.foldl (compute config sql now) (discover config sql store now).2

end Stablemate.History
