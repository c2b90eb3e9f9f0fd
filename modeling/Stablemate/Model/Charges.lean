import Mathlib.Data.Rat.Defs
import Mathlib.Data.Prod.Lex
import Mathlib.Data.List.Lex
import Mathlib.Data.Char
import Mathlib.Data.List.Dedup
import Mathlib.Data.List.Sort
import Stablemate.Lib.Dict
import Stablemate.Lib.Window
import Stablemate.Model.Text

/-!
# What a turn is charged (`groom/store.py`)

* `_charges`: the total that a session has reported becomes the charge of each turn, under a scope that
  each view pastes in;
* the views that join it: `turn_charges`, `_run_spans` and the rows of `_node_laps`.

Money, times and sums are exact. The rows of the table stand in `rowid` order.
-/

namespace Stablemate.Charges

open Window

/-! ## The tables -/

/-- `attrs_json`: what `json_extract` finds under the keys that are read here. -/
structure Attrs where
  backend : Option Text := none
  /-- `session.id` -/
  session : Option Text := none
  work_id : Option Text := none
  total_cost_usd : Option ℚ := none
  duration_ms : Option ℚ := none
  /-- `usage.output_tokens` -/
  output_tokens : Option ℤ := none
deriving DecidableEq

/-- A row of `spans`. -/
structure Row where
  span_id : Text
  run_id : Text := []
  workflow : Text := []
  node : Text := []
  name : Text := []
  start_ts : ℚ
  end_ts : ℚ
  duration_ms : Option ℚ := none
  total_cost_usd : Option ℚ := none
  output_tokens : Option ℤ := none
  est_cost_usd : Option ℚ := none
  attrs : Attrs := {}
deriving DecidableEq

/-- The store. `span_id` is the primary key of `spans`. -/
structure Store where
  spans : List Row
  keyed : (spans.map Row.span_id).Nodup

def Row.isTurn (row : Row) : Bool := row.name = "agent_turn".toList

/-- `_cost` -/
def Row._cost (row : Row) : Option ℚ := row.total_cost_usd.or row.attrs.total_cost_usd

/-- `_duration` -/
def Row._duration (row : Row) : Option ℚ := row.duration_ms.or row.attrs.duration_ms

/-- `_output` -/
def Row._output (row : Row) : Option ℤ := row.output_tokens.or row.attrs.output_tokens

/-! ## Charges -/

def SESSION_TOTAL_BACKENDS : List Text := ["claude".toList]

/-- What a turn says its session has cost so far. -/
structure Report where
  span_id : Text
  run_id : Text
  session : Text
  start_ts : ℚ
  end_ts : ℚ
  reported : ℚ
deriving DecidableEq

/-- The window of a report: `PARTITION BY run_id, session`. -/
def Report.partition (r : Report) : Text × Text := (r.run_id, r.session)

/-- Its place in the window: `ORDER BY start_ts, end_ts, span_id`. -/
def Report.place (r : Report) : ℚ ×ₗ ℚ ×ₗ Text := toLex (r.start_ts, toLex (r.end_ts, r.span_id))

def Row.isSessionTotal (row : Row) : Bool :=
  row.isTurn && (row.attrs.backend.map SESSION_TOTAL_BACKENDS.contains).getD false

/-- `WHERE session IS NOT NULL AND reported IS NOT NULL` -/
def Row.report (row : Row) : Option Report :=
  match row.attrs.session, row._cost with
  | some session, some reported =>
    some { span_id := row.span_id, run_id := row.run_id, session := session,
           start_ts := row.start_ts, end_ts := row.end_ts, reported := reported }
  | _, _ => none

/-- The reports of the turns under a scope. -/
def reports (scope : Row → Bool) (spans : List Row) : List Report :=
  (spans.filter fun row => row.isSessionTotal && scope row).filterMap Row.report

/-- One partition, in window order. -/
def window (rs : List Report) (p : Text × Text) : List Report :=
  (rs.filter fun r => r.partition = p).insertionSort fun r r' => r.place ≤ r'.place

/-- `_charges`: `span_id` and `charge_usd`. `LAG` looks one row back in the window. -/
def _charges (scope : Row → Bool) (spans : List Row) : List (Text × ℚ) :=
  let rs := reports scope spans
  (rs.map Report.partition).dedup.flatMap fun p =>
    (lagFrom none (window rs p)).map fun (r, prior) => (r.span_id, step r.reported (prior.map Report.reported))

/-- `_charge`, after `LEFT JOIN charges USING (span_id)`. -/
def _charge (charges : List (Text × ℚ)) (row : Row) : Option ℚ := (Dict.get charges row.span_id).or row._cost

/-! ## The views -/

variable (store : Store)

def turn_charges (run : Text) : List (Text × ℚ) := _charges (fun row => row.run_id = run) store.spans

/-- A row of `_run_spans`. -/
structure Profiled where
  row : Row
  profile_duration_ms : Option ℚ
  profile_cost_usd : Option ℚ
  profile_output_tokens : Option ℤ
deriving DecidableEq

def _run_spans (run : Text) : List Profiled :=
  ((store.spans.filter fun row => row.run_id = run).map fun row =>
    { row := row, profile_duration_ms := row._duration,
      profile_cost_usd := _charge (_charges (fun row => row.run_id = run) store.spans) row,
      profile_output_tokens := row._output : Profiled }).insertionSort fun p q => p.row.start_ts ≤ q.row.start_ts

/-- The scope that `_node_laps` pastes into `_charges`: its run and its workflow, not its `since_ts`. -/
def lapScope (run workflow : Text) (row : Row) : Bool :=
  (run = [] || row.run_id = run) && (workflow = [] || row.workflow = workflow)

/-- The turns that `_node_laps` selects. -/
def lapTurns (run workflow : Text) (since_ts : Option ℚ) : List Row :=
  (store.spans.filter fun row => row.isTurn && row.attrs.work_id.isSome && lapScope run workflow row &&
    since_ts.all fun since => since ≤ row.start_ts).insertionSort
      fun a b => toLex (a.start_ts, a.end_ts) ≤ toLex (b.start_ts, b.end_ts)

/-- The rows that `_node_laps` reads: each turn with its `cost_usd`. -/
def lapRows (run workflow : Text) (since_ts : Option ℚ) : List (Row × Option ℚ) :=
  (lapTurns store run workflow since_ts).map fun row =>
    (row, _charge (_charges (lapScope run workflow) store.spans) row)

end Stablemate.Charges
