import Mathlib.Algebra.Order.Ring.Rat
import Mathlib.Data.Char
import Mathlib.Data.List.Lex
import Mathlib.Data.List.Sort
import Mathlib.Data.Prod.Lex
import Stablemate.Lib.Tally
import Stablemate.Model.Trace

/-!
# The flow tree (`groom/flows.py`)

* `_ancestry`, `_flow_above`, `_standin`: from a span up to the flow it ran in.
* `build_flows`: the finished work of a run as a tree of flows, states and nodes, and `node_breakdown`, its
  leaves merged by node.
* `_profile_turn_summary` (`groom/store.py`) and `_retry_turns` (`groom/problems.py`): the totals and the
  retries that are shown beside the tree.

Times and money are exact. A span id is the primary key of its table.
-/

namespace Stablemate.Flows

open Trace

def UNFINISHED : Text := "Unfinished flow or state".toList

def _is_state (span : Span) : Bool := span.span_kind = "state".toList

def _is_node (span : Span) : Bool := span.span_kind = [] && !span.isTurn && !span.isRun

def _is_infra (span : Span) : Bool := span.span_kind = "infra".toList

def _seconds (span : Span) : ℚ :=
  match span.profile_duration_ms with
  | some millis => millis / 1000
  | none => max 0 (span.end_ts - span.start_ts)

/-! ## Upwards -/

/-- `by_id.get(id)`: of two spans with one id the later stands. -/
def byId (spans : List Span) (id : Text) : Option Span := Keyed.get Span.span_id spans.reverse id

def _containers (spans : List Span) : List Text :=
  (spans.filter fun span => span.parent_id ≠ [] && (_is_state span || _is_node span)).map Span.parent_id

/-- A span and the ones above it that are not `visited` yet, at most `fuel` of them. -/
def ancestryFrom (spans : List Span) : ℕ → List Text → Span → List Span
  | 0, _, item => [item]
  | fuel + 1, visited, item =>
    match byId spans item.parent_id with
    | none => [item]
    | some above =>
      if above.span_id ∈ visited then [item]
      else item :: ancestryFrom spans fuel (above.span_id :: visited) above

/-- A chain visits a span once, so there are steps enough for the whole of it. -/
def _ancestry (item : Span) (spans : List Span) : List Span :=
  ancestryFrom spans spans.length [item.span_id] item

/-- The last of a chain. -/
def top (item : Span) (spans : List Span) : Span := (_ancestry item spans).getLast?.getD item

def stateOf (chain : List Span) : Option Span := chain.find? _is_state

def _flow_above (chain : List Span) : Option Span :=
  let beyond := if chain.any _is_state then (chain.dropWhile fun span => !_is_state span).tail else chain.tail
  beyond.find? _is_node

/-- The node span a turn ran in, where it holds nothing else. -/
def leafParent (spans : List Span) (turn : Span) : Option Span :=
  (byId spans turn.parent_id).filter fun parent => _is_node parent && !(_containers spans).contains parent.span_id

def _standin (spans : List Span) (turn : Span) : Span := (leafParent spans turn).getD turn

/-- The state spans that hold no child span but infra ones. -/
def state_steps (spans : List Span) : List Span :=
  let busy := (spans.filter fun span => span.parent_id ≠ [] && !_is_infra span).map Span.parent_id
  spans.filter fun span => _is_state span && !busy.contains span.span_id

/-- A step whose span is the only record of it. -/
def isStep (spans : List Span) (span : Span) : Bool :=
  (_is_node span && !(_containers spans).contains span.span_id) ||
    ((state_steps spans).map Span.span_id).contains span.span_id

/-! ## Where work is counted -/

inductive Kind
  | workflow | flow | unfinished | state | node
deriving DecidableEq

/-- The flow and the state that `place` finds for a span. -/
structure Place where
  kind : Kind
  name : Text
  title : Text := []
  /-- The flow's own span, where it is stored. -/
  flow_id : Option Text := none
  /-- The state's name and, where it is stored, its span. -/
  state : Option (Text × Option Text) := none
deriving DecidableEq

/-- The run's own name. -/
def workflowOf (spans : List Span) : Text :=
  (((spans.find? fun span => span.workflow ≠ []).map Span.workflow).getD "run".toList)

/-- The chain of a span is cut off above: the span that should hold its top has not ended yet. -/
def stopped (spans : List Span) (item : Span) : Bool :=
  let top := top item spans
  top.parent_id ≠ [] && (byId spans top.parent_id).isNone && top.depth ≠ some 0

/-- The flow part of `place`. -/
def flowPlace (spans : List Span) (item : Span) : Place :=
  match _flow_above (_ancestry item spans) with
  | some flow_span => { kind := .flow, name := flow_span.node, flow_id := some flow_span.span_id }
  | none =>
    if stopped spans item then
      match item.flow with
      | some [] => { kind := .workflow, name := workflowOf spans }
      | some named => { kind := .flow, name := named }
      | none =>
        let id := (top item spans).parent_id
        { kind := .unfinished, name := id, title := id }
    else { kind := .workflow, name := workflowOf spans }

/-- The state part of `place`. -/
def statePlace (spans : List Span) (item : Span) : Option (Text × Option Text) :=
  match stateOf (_ancestry item spans) with
  | some state => some (state.node, some state.span_id)
  | none =>
    if stopped spans item && (_flow_above (_ancestry item spans)).isNone && item.state.getD [] ≠ [] then
      some (item.state.getD [], none)
    else none

def place (spans : List Span) (item : Span) : Place :=
  { flowPlace spans item with state := statePlace spans item }

/-! ## The accumulators -/

structure Node where
  span_ids : List Text := []
  node_seconds : ℚ := 0
  step_seconds : List ℚ := []
  turns : List Span := []

structure State where
  span_ids : List Text := []
  nodes : Tally Text Node := .empty

structure Flow where
  kind : Kind
  name : Text
  title : Text := []
  span_ids : List Text := []
  direct : Tally Text Node := .empty
  states : Tally Text State := .empty

abbrev FlowTally := Tally (Kind × Text) Flow

def addTurn (turn : Span) (acc : Node) : Node := { acc with turns := acc.turns ++ [turn] }

def addStep (step : Span) (acc : Node) : Node :=
  { acc with
    span_ids := acc.span_ids.insert step.span_id
    node_seconds := acc.node_seconds + _seconds step
    step_seconds := acc.step_seconds ++ [_seconds step] }

/-- `ids.add(id)`, where there is one. -/
def addId (id : Option Text) (ids : List Text) : List Text := (id.map ids.insert).getD ids

/-- `target` of a place: the accumulator of a node in its flow or state, all made where they are missing. -/
def File.flow (p : Place) (node : Text) (f : Node → Node) (found : Option Flow) : Flow :=
  let flow := found.getD { kind := p.kind, name := p.name, title := p.title }
  let flow := { flow with span_ids := addId p.flow_id flow.span_ids }
  match p.state with
  | none => { flow with direct := flow.direct.update node fun acc => f (acc.getD {}) }
  | some (name, id) =>
    { flow with
      states := flow.states.update name fun found =>
        let state := found.getD {}
        { span_ids := addId id state.span_ids, nodes := state.nodes.update node fun acc => f (acc.getD {}) } }

/-- What is counted: a turn, or a step that is its only record. -/
inductive Work
  | turn (span : Span)
  | step (span : Span)

def Work.add : Work → Node → Node
  | .turn span => addTurn span
  | .step span => addStep span

/-- A piece of work with the span that is placed for it. -/
structure Entry where
  item : Span
  work : Work

/-- The loops of `build_flows`: steps and turns that stand alone, then the turns of leaf nodes. -/
def entries (spans : List Span) : List Entry :=
  spans.filterMap (fun span =>
    if span.isTurn then if (leafParent spans span).isSome then none else some ⟨span, .turn span⟩
    else if isStep spans span then some ⟨span, .step span⟩ else none) ++
  spans.filterMap fun span =>
    if span.isTurn then (leafParent spans span).map fun parent => ⟨parent, .turn span⟩ else none

def Place.key (p : Place) : Kind × Text := (p.kind, p.name)

/-- `flows`, after both loops. -/
def flowTally (spans : List Span) : FlowTally :=
  Tally.file (fun entry => (place spans entry.item).key)
    (fun entry => File.flow (place spans entry.item) entry.item.node entry.work.add) .empty (entries spans)

/-! ## Seats -/

/-- Where work is counted: its flow, its state and its node. -/
abbrev Seat := (Kind × Text) × Option Text × Text

def seatOf (spans : List Span) (entry : Entry) : Seat :=
  let p := place spans entry.item
  (p.key, p.state.map Prod.fst, entry.item.node)

def Flow.nodeAt (flow : Flow) : Option Text × Text → Option Node
  | (none, node) => flow.direct.get node
  | (some state, node) => (flow.states.get state).bind fun state => state.nodes.get node

def nodeAt (flows : FlowTally) (seat : Seat) : Option Node :=
  (flows.get seat.1).bind fun flow => flow.nodeAt seat.2

def Flow.seats (flow : Flow) : List ((Option Text × Text) × Node) :=
  (flow.direct.rows.map fun row => ((none, row.1), row.2)) ++
    (flow.states.spread fun state => state.nodes.rows).map fun row => ((some row.1.1, row.1.2), row.2)

/-- Every accumulator with its seat. -/
def seats (flows : FlowTally) : List (Seat × Node) := flows.spread Flow.seats

def Work.turn? : Work → Option Span
  | .turn span => some span
  | .step _ => none

/-- The turns among some entries. -/
def turnsOf (entries : List Entry) : List Span := entries.filterMap fun entry => entry.work.turn?

/-- Where a turn is counted. -/
def turnSeat (spans : List Span) (turn : Span) : Seat := seatOf spans ⟨_standin spans turn, .turn turn⟩

/-! ## The rows -/

/-- The figures that every row has. -/
@[ext] structure Figures where
  time_s : ℚ := 0
  turns : ℕ := 0
  cost_turns : ℕ := 0
  cost_usd : Option ℚ := none
  output_tokens : ℤ := 0
  retries : ℤ := 0
deriving DecidableEq

/-- A row with a `node`. -/
structure Leaf where
  kind : Kind
  node : Text
  name : Text
  samples : ℕ
  longest_s : ℚ
  visits : ℕ
  figures : Figures
deriving DecidableEq

inductive Row
  | leaf (row : Leaf)
  | group (kind : Kind) (name title : Text) (visits : Option ℕ) (figures : Figures) (children : List Row)

def Row.name : Row → Text
  | .leaf row => row.name
  | .group _ name .. => name

def Row.title : Row → Text
  | .leaf _ => []
  | .group _ _ title .. => title

def Row.figures : Row → Figures
  | .leaf row => row.figures
  | .group _ _ _ _ figures _ => figures

/-- `sum(costs) if costs else None` -/
def total (costs : List ℚ) : Option ℚ := if costs = [] then none else some costs.sum

/-- The visit a turn is an attempt of. -/
def visit (turn : Span) : Text × Text :=
  (turn.trace_id, if turn.parent_id = [] then turn.span_id else turn.parent_id)

def nodeFigures (acc : Node) : Figures :=
  let costs := acc.turns.filterMap Span.profile_cost_usd
  { time_s := if acc.turns = [] then acc.node_seconds else (acc.turns.map _seconds).sum
    turns := acc.turns.length
    cost_turns := costs.length
    cost_usd := total costs
    output_tokens := (acc.turns.map fun turn => turn.profile_output_tokens.getD 0).sum
    retries := acc.turns.length - (acc.turns.map visit).dedup.length }

def _node_row (name : Text) (acc : Node) : Leaf :=
  let groups := (acc.turns.map visit).dedup
  let orphan_groups := groups.filter fun group => !acc.span_ids.contains group.2
  let samples := if acc.turns = [] then acc.step_seconds else acc.turns.map _seconds
  { kind := .node
    node := name
    name := name
    samples := samples.length
    longest_s := (samples.max?).getD 0
    visits := acc.span_ids.length + orphan_groups.length
    figures := nodeFigures acc }

/-- `(-row["time_s"], row["name"], row["title"])`; children have no title. -/
def Row.key (row : Row) : ℚ ×ₗ Text ×ₗ Text := toLex (-row.figures.time_s, toLex (row.name, row.title))

def sortRows (rows : List Row) : List Row := rows.insertionSort fun a b => a.key ≤ b.key

/-- The figures of `_sum`. -/
def sumFigures (rows : List Row) : Figures where
  time_s := (rows.map fun row => row.figures.time_s).sum
  turns := (rows.map fun row => row.figures.turns).sum
  cost_turns := (rows.map fun row => row.figures.cost_turns).sum
  cost_usd := total (rows.filterMap fun row => row.figures.cost_usd)
  output_tokens := (rows.map fun row => row.figures.output_tokens).sum
  retries := (rows.map fun row => row.figures.retries).sum

def _sum (kind : Kind) (name title : Text) (visits : Option ℕ) (rows : List Row) : Row :=
  .group kind name title visits (sumFigures rows) (sortRows rows)

/-- `n or None` -/
def orNone (n : ℕ) : Option ℕ := if n = 0 then none else some n

def _state_row (name : Text) (state : State) : Row :=
  match state.nodes.rows.map fun row => _node_row row.1 row.2 with
  | [only] =>
    .leaf { only with
      kind := .state
      name := if only.name = name then name else name ++ " › ".toList ++ only.name }
  | nodes => _sum .state name [] (orNone state.span_ids.length) (nodes.map .leaf)

def flowRows (flow : Flow) : List Row :=
  (flow.direct.rows.map fun row => Row.leaf (_node_row row.1 row.2)) ++
    flow.states.rows.map fun row => _state_row row.1 row.2

/-- `_flow_row`, with the name that `build_flows` gives an unfinished one. -/
def _flow_row (flow : Flow) : Row :=
  _sum flow.kind (if flow.kind = .unfinished then UNFINISHED else flow.name) flow.title
    (if flow.kind = .flow then orNone flow.span_ids.length else none) (flowRows flow)

def build_flows (spans : List Span) : List Row := sortRows ((flowTally spans).values.map _flow_row)

/-! ## The breakdown -/

/-- A row of `node_breakdown`, less its `kind`. -/
structure Merged where
  node : Text
  visits : ℕ
  samples : ℕ
  longest_s : ℚ
  figures : Figures
deriving DecidableEq

mutual

/-- The rows with a `node`, in the order `walk` comes to them. -/
def Row.leaves : Row → List Leaf
  | .leaf row => [row]
  | .group _ _ _ _ _ children => leavesOf children

def leavesOf : List Row → List Leaf
  | [] => []
  | row :: rows => row.leaves ++ leavesOf rows

end

/-- `found["cost_usd"] = (found["cost_usd"] or 0.0) + row["cost_usd"]`, where the row has one. -/
def addCost : Option ℚ → Option ℚ → Option ℚ
  | found, none => found
  | found, some cost => some (found.getD 0 + cost)

def Merged.add (row : Leaf) : Option Merged → Merged
  | none => { node := row.node, visits := row.visits, samples := row.samples, longest_s := row.longest_s,
              figures := row.figures }
  | some found =>
    { node := found.node
      visits := found.visits + row.visits
      samples := found.samples + row.samples
      longest_s := max found.longest_s row.longest_s
      figures :=
        { time_s := found.figures.time_s + row.figures.time_s
          turns := found.figures.turns + row.figures.turns
          cost_turns := found.figures.cost_turns + row.figures.cost_turns
          cost_usd := addCost found.figures.cost_usd row.figures.cost_usd
          output_tokens := found.figures.output_tokens + row.figures.output_tokens
          retries := found.figures.retries + row.figures.retries } }

/-- `merged`, after `walk` of every row. -/
def merged (rows : List Row) : Tally Text Merged := Tally.file Leaf.node Merged.add .empty (leavesOf rows)

def node_breakdown (rows : List Row) : List Merged :=
  (merged rows).values.insertionSort fun a b => toLex (-a.figures.time_s, a.node) ≤ toLex (-b.figures.time_s, b.node)

/-! ## The summary beside the tree -/

/-- `_profile_turn_summary`, less the figures that are about other things than the turns themselves. -/
structure TurnSummary where
  turns : ℕ
  visits : ℕ
  backend_retries : ℤ
  cost_usd : Option ℚ
  cost_turns : ℕ
  output_tokens : ℤ

def _profile_turn_summary (turns : List Span) : TurnSummary :=
  let visits := (turns.map visit).dedup.length
  let costs := turns.filterMap Span.profile_cost_usd
  { turns := turns.length
    visits := visits
    backend_retries := turns.length - visits
    cost_usd := total costs
    cost_turns := costs.length
    output_tokens := (turns.map fun turn => turn.profile_output_tokens.getD 0).sum }

/-- The turns of each visit. -/
def visitsOf (spans : List Span) : List ((Text × Text) × List Span) :=
  Dict.group ((spans.filter Span.isTurn).map fun turn => (visit turn, turn))

def attempts (turns : List Span) : List Span :=
  turns.insertionSort fun a b => toLex (a.start_ts, a.span_id) ≤ toLex (b.start_ts, b.span_id)

/-- `_retry_turns`: each turn after the first of its visit, with the attempt it follows. -/
def _retry_turns (spans : List Span) : List (Span × Span) :=
  (visitsOf spans).flatMap fun row => (attempts row.2).tail.zip (attempts row.2)

end Stablemate.Flows
