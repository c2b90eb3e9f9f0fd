import Mathlib.Data.Rat.Lemmas
import Mathlib.Data.Finset.Card
import Mathlib.Algebra.BigOperators.Group.List.Lemmas
import Stablemate.Lib.Lists
import Stablemate.Lib.Window
import Stablemate.Model.Flows

/-!
# The flow tree conserves a run's work

* `figures_eq_leaves`: in a tree whose groups add up, every row has the figures of the leaves under it; every
  tree that `build_flows` gives is one (`adds_build_flows`), and `node_breakdown` has the same totals
  (`breakdown_total`).
* `nodeAt_flowTally`: the accumulator of a seat (a node in its flow and state) holds the work that is placed
  there, whatever the order of the loops. So each turn is counted once (`perm_turnsOf`), and the tree has
  the totals of the summary beside it (`summary_agrees`), but for the retries, where a visit is counted
  once for each seat its attempts have (`retries_total`).
* `retry_turns_listed`: the retries that are listed are those that are counted.
-/

namespace Stablemate.Flows

open Trace

variable {spans : List Span}

/-! ## Figures -/

theorem addCost_assoc (a b c : Option ℚ) : addCost (addCost a b) c = addCost a (addCost b c) := by
  cases b <;> cases c <;> simp [addCost, add_assoc]

theorem addCost_comm (a b : Option ℚ) : addCost a b = addCost b a := by
  cases a <;> cases b <;> simp [addCost, add_comm]

theorem addCost_none_left (a : Option ℚ) : addCost none a = a := by cases a <;> simp [addCost]

instance instFiguresAdd : Add Figures where
  add a b :=
    { time_s := a.time_s + b.time_s, turns := a.turns + b.turns, cost_turns := a.cost_turns + b.cost_turns,
      cost_usd := addCost a.cost_usd b.cost_usd, output_tokens := a.output_tokens + b.output_tokens,
      retries := a.retries + b.retries }

instance instFiguresZero : Zero Figures := ⟨{}⟩

instance instFiguresAddCommMonoid : AddCommMonoid Figures where
  add_assoc a b c := by
    refine Figures.ext ?_ ?_ ?_ (addCost_assoc ..) ?_ ?_ <;> exact add_assoc ..
  zero_add a := by
    refine Figures.ext ?_ ?_ ?_ (addCost_none_left _) ?_ ?_ <;> exact zero_add _
  add_zero a := by
    refine Figures.ext ?_ ?_ ?_ rfl ?_ ?_ <;> exact add_zero _
  add_comm a b := by
    refine Figures.ext ?_ ?_ ?_ (addCost_comm ..) ?_ ?_ <;> exact add_comm ..
  nsmul := nsmulRec

theorem total_cons (cost : ℚ) (costs : List ℚ) : total (cost :: costs) = addCost (some cost) (total costs) := by
  cases costs with
  | nil => simp [total, addCost]
  | cons c costs => simp [total, addCost]

theorem total_append (costs costs' : List ℚ) : total (costs ++ costs') = addCost (total costs) (total costs') := by
  induction costs with
  | nil => exact (addCost_none_left _).symm
  | cons cost costs ih => rw [List.cons_append, total_cons, total_cons, ih, addCost_assoc]

theorem total_perm {costs costs' : List ℚ} (h : costs.Perm costs') : total costs = total costs' := by
  have hnil : costs = [] ↔ costs' = [] := by
    constructor
    · rintro rfl
      exact h.nil_eq.symm
    · rintro rfl
      exact h.eq_nil
  by_cases hc : costs = []
  · simp [total, hc, hnil.1 hc]
  · have hc' : costs' ≠ [] := fun h' => hc (hnil.2 h')
    simp [total, hc, hc', h.sum_eq]

theorem sumFigures_cons (row : Row) (rows : List Row) : sumFigures (row :: rows) = row.figures + sumFigures rows := by
  refine Figures.ext ?_ ?_ ?_ ?_ ?_ ?_
  · simp [sumFigures]; rfl
  · simp [sumFigures]; rfl
  · simp [sumFigures]; rfl
  · show total _ = addCost _ (total _)
    cases h : row.figures.cost_usd with
    | none => simp only [List.filterMap_cons, h, addCost_none_left]
    | some cost => simp only [List.filterMap_cons, h, total_cons]
  · simp [sumFigures]; rfl
  · simp [sumFigures]; rfl

/-- The figures of `_sum` are the sum of those of the rows. -/
theorem sumFigures_eq (rows : List Row) : sumFigures rows = (rows.map Row.figures).sum := by
  induction rows with
  | nil => rfl
  | cons row rows ih => rw [sumFigures_cons, ih, List.map_cons, List.sum_cons]

/-! ## Trees whose groups add up -/

/-- Every group under a row has the figures of its children. -/
inductive Row.Adds : Row → Prop
  | leaf (row : Leaf) : Adds (.leaf row)
  | group {kind : Kind} {name title : Text} {visits : Option ℕ} {figures : Figures} {children : List Row}
      (hfigures : figures = (children.map Row.figures).sum) (hchildren : ∀ row ∈ children, row.Adds) :
      Adds (.group kind name title visits figures children)

theorem sum_figures_leavesOf {rows : List Row} (h : ∀ row ∈ rows, row.figures = (row.leaves.map Leaf.figures).sum) :
    ((leavesOf rows).map Leaf.figures).sum = (rows.map Row.figures).sum := by
  induction rows with
  | nil => rfl
  | cons row rows ih =>
    have hrest := ih fun row' hrow' => h row' (List.mem_cons_of_mem row hrow')
    have hrow := h row List.mem_cons_self
    rw [leavesOf, List.map_append, List.sum_append, hrest, ← hrow, List.map_cons, List.sum_cons]

/-- **In a tree whose groups add up, a row has the figures of the leaves under it.** -/
theorem figures_eq_leaves {row : Row} (h : row.Adds) : row.figures = (row.leaves.map Leaf.figures).sum := by
  induction h with
  | leaf row => simp [Row.figures, Row.leaves]
  | group hfigures hchildren ih =>
    rw [Row.figures, Row.leaves, sum_figures_leavesOf ih, hfigures]

theorem perm_sortRows (rows : List Row) : (sortRows rows).Perm rows := List.perm_insertionSort _ _

theorem adds_sum {rows : List Row} (h : ∀ row ∈ rows, row.Adds) (kind : Kind) (name title : Text) (visits : Option ℕ) :
    (_sum kind name title visits rows).Adds := by
  refine .group ?_ fun row hrow => h row ((perm_sortRows rows).mem_iff.1 hrow)
  rw [sumFigures_eq]
  exact (((perm_sortRows rows).map Row.figures).sum_eq).symm

theorem adds_state_row (name : Text) (state : State) : (_state_row name state).Adds := by
  unfold _state_row
  split
  · exact .leaf _
  · refine adds_sum (fun row hrow => ?_) ..
    obtain ⟨leaf, -, rfl⟩ := List.mem_map.1 hrow
    exact .leaf leaf

theorem adds_flow_row (flow : Flow) : (_flow_row flow).Adds := by
  refine adds_sum (fun row hrow => ?_) ..
  rcases List.mem_append.1 hrow with hrow | hrow
  · obtain ⟨node, -, rfl⟩ := List.mem_map.1 hrow
    exact .leaf _
  · obtain ⟨state, -, rfl⟩ := List.mem_map.1 hrow
    exact adds_state_row ..

/-- Every group of the tree has the figures of its children. -/
theorem adds_build_flows (spans : List Span) : ∀ row ∈ build_flows spans, row.Adds := by
  intro row hrow
  obtain ⟨flow, -, rfl⟩ := List.mem_map.1 ((perm_sortRows _).mem_iff.1 hrow)
  exact adds_flow_row flow

/-- Merging the leaves by node keeps their sum. -/
theorem sum_merged (rows : List Row) : (merged rows).sum Merged.figures = ((leavesOf rows).map Leaf.figures).sum := by
  have h := Tally.sum_file Merged.figures Leaf.node Merged.add Leaf.figures (fun _ => rfl) (fun _ _ => rfl)
    (leavesOf rows) .empty
  rwa [Tally.sum_empty, zero_add] at h

/-- **The breakdown has the totals of the tree**, with one row for each node. -/
theorem breakdown_total (spans : List Span) :
    ((node_breakdown (build_flows spans)).map Merged.figures).sum = ((build_flows spans).map Row.figures).sum ∧
      (∀ row ∈ build_flows spans, row.Adds ∧ row.figures = (row.leaves.map Leaf.figures).sum) := by
  have hadds := adds_build_flows spans
  have hleaves := sum_figures_leavesOf fun row hrow => figures_eq_leaves (hadds row hrow)
  refine ⟨?_, fun row hrow => ⟨hadds row hrow, figures_eq_leaves (hadds row hrow)⟩⟩
  have hsort : (node_breakdown (build_flows spans)).Perm (merged (build_flows spans)).values :=
    List.perm_insertionSort _ _
  rw [(hsort.map Merged.figures).sum_eq, ← hleaves, ← sum_merged]
  rfl

/-! ## What a seat holds -/

/-- A flow that is not there yet has no accumulators. -/
theorem nodeAt_getD (kind : Kind) (name title : Text) (found : Option Flow) (below : Option Text × Text) :
    (found.getD { kind := kind, name := name, title := title }).nodeAt below =
      found.bind fun flow => flow.nodeAt below := by
  obtain ⟨state, node⟩ := below
  cases found with
  | none => cases state <;> simp [Flow.nodeAt]
  | some flow => rfl

/-- Filing a piece of work in a flow changes one accumulator of it. -/
theorem nodeAt_flow (p : Place) (node : Text) (f : Node → Node) (found : Option Flow) (below : Option Text × Text) :
    (File.flow p node f found).nodeAt below =
      if (p.state.map Prod.fst, node) = below then
        some (f ((found.bind fun flow => flow.nodeAt below).getD {}))
      else found.bind fun flow => flow.nodeAt below := by
  rw [← nodeAt_getD p.kind p.name p.title found below]
  generalize hflow : found.getD { kind := p.kind, name := p.name, title := p.title } = flow
  obtain ⟨state, name⟩ := below
  unfold File.flow
  rw [hflow]
  cases hp : p.state with
  | none =>
    cases state with
    | none => by_cases hname : node = name <;> simp [Flow.nodeAt, hname]
    | some state => simp [Flow.nodeAt]
  | some row =>
    cases state with
    | none => simp [Flow.nodeAt]
    | some state =>
      by_cases hstate : row.1 = state
      · subst hstate
        have hget : ((flow.states.get row.1).bind fun state => state.nodes.get name) =
            ((flow.states.get row.1).getD {}).nodes.get name := by
          cases flow.states.get row.1 <;> simp
        by_cases hname : node = name
        · subst hname
          simp [Flow.nodeAt, hget]
        · simp [Flow.nodeAt, hget, hname]
      · simp [Flow.nodeAt, hstate]

/-- Filing a piece of work changes the accumulator of its seat only. -/
theorem nodeAt_file (spans : List Span) (flows : FlowTally) (entry : Entry) (seat : Seat) :
    nodeAt (flows.update (place spans entry.item).key
        (File.flow (place spans entry.item) entry.item.node entry.work.add)) seat =
      if seatOf spans entry = seat then some (entry.work.add ((nodeAt flows seat).getD {})) else nodeAt flows seat := by
  obtain ⟨key, below⟩ := seat
  unfold nodeAt seatOf
  rw [Tally.get_update]
  by_cases hkey : (place spans entry.item).key = key
  · subst hkey
    rw [if_pos rfl, Option.bind_some, nodeAt_flow]
    simp
  · simp [hkey]

/-- **The accumulator of a seat holds the work that is placed there**, in the order of the loops. -/
theorem nodeAt_flowTally (spans : List Span) (seat : Seat) :
    nodeAt (flowTally spans) seat =
      ((entries spans).filter fun entry => seatOf spans entry = seat).foldl
        (fun found entry => some (entry.work.add (found.getD {}))) none :=
  Tally.look_foldl nodeAt _ (seatOf spans) (fun entry found => entry.work.add (found.getD {}))
    (nodeAt_file spans) (entries spans) .empty seat

@[simp] theorem turnsOf_cons_turn (item turn : Span) (es : List Entry) :
    turnsOf (⟨item, .turn turn⟩ :: es) = turn :: turnsOf es := rfl

@[simp] theorem turnsOf_cons_step (item step : Span) (es : List Entry) :
    turnsOf (⟨item, .step step⟩ :: es) = turnsOf es := rfl

theorem turns_foldl (es : List Entry) (found : Option Node) :
    ((es.foldl (fun found entry => some (entry.work.add (found.getD {}))) found).getD {}).turns =
      (found.getD {}).turns ++ turnsOf es := by
  induction es generalizing found with
  | nil => simp [turnsOf]
  | cons entry es ih =>
    rw [List.foldl_cons, ih]
    obtain ⟨item, work⟩ := entry
    cases work with
    | turn span => simp [Work.add, addTurn]
    | step span => simp [Work.add, addStep]

theorem turns_nodeAt (spans : List Span) (seat : Seat) :
    ((nodeAt (flowTally spans) seat).getD {}).turns =
      turnsOf ((entries spans).filter fun entry => seatOf spans entry = seat) := by
  rw [nodeAt_flowTally, turns_foldl]
  rfl

theorem foldl_isSome (es : List Entry) (found : Option Node) :
    (es.foldl (fun found entry => some (entry.work.add (found.getD {}))) found).isSome = (found.isSome || !es.isEmpty) := by
  induction es generalizing found with
  | nil => simp
  | cons entry es ih => rw [List.foldl_cons, ih]; simp

/-! ## The entries -/

/-- A turn stands alone or is placed with its leaf node. -/
theorem item_of_turn {entry : Entry} {turn : Span} (h : entry ∈ entries spans) (hturn : entry.work = .turn turn) :
    entry.item = _standin spans turn ∧ turn.isTurn = true := by
  rcases List.mem_append.1 h with h | h
  · obtain ⟨span, -, hspan⟩ := List.mem_filterMap.1 h
    by_cases hs : span.isTurn = true
    · by_cases hp : (leafParent spans span).isSome = true
      · simp [hs, hp] at hspan
      · simp only [hs, if_true, hp] at hspan
        obtain rfl := Option.some.inj hspan
        obtain rfl : span = turn := by simpa using hturn
        have hnone : leafParent spans span = none := by simpa using hp
        exact ⟨by simp [_standin, hnone], hs⟩
    · by_cases hstep : isStep spans span = true
      · simp only [hs, hstep, if_true] at hspan
        obtain rfl := Option.some.inj hspan
        cases hturn
      · simp [hs, hstep] at hspan
  · obtain ⟨span, -, hspan⟩ := List.mem_filterMap.1 h
    by_cases hs : span.isTurn = true
    · simp only [hs, if_true] at hspan
      obtain ⟨parent, hparent, rfl⟩ := Option.map_eq_some_iff.1 hspan
      obtain rfl : span = turn := by simpa using hturn
      exact ⟨by simp [_standin, hparent], hs⟩
    · simp [hs] at hspan

theorem turnsOf_filter_of_mem (seat : Seat) {es : List Entry} (hes : ∀ entry ∈ es, entry ∈ entries spans) :
    turnsOf (es.filter fun entry => seatOf spans entry = seat) =
      (turnsOf es).filter fun turn => turnSeat spans turn = seat := by
  induction es with
  | nil => rfl
  | cons entry es ih =>
    have hrest := ih fun e he => hes e (List.mem_cons_of_mem entry he)
    obtain ⟨item, work⟩ := entry
    cases work with
    | step span => by_cases hseat : seatOf spans ⟨item, .step span⟩ = seat <;> simp [hseat, hrest]
    | turn turn =>
      have hitem : item = _standin spans turn := (item_of_turn (hes _ List.mem_cons_self) rfl).1
      have hsame : seatOf spans ⟨item, .turn turn⟩ = turnSeat spans turn := by rw [hitem, turnSeat]
      by_cases hseat : turnSeat spans turn = seat
      · simp [hsame, hseat, hrest]
      · simp [hsame, hseat, hrest]

/-- The accumulator of a seat holds the turns that are placed there. -/
theorem turns_of_mem_seats {row : Seat × Node} (h : nodeAt (flowTally spans) row.1 = some row.2) :
    row.2.turns = (turnsOf (entries spans)).filter fun turn => turnSeat spans turn = row.1 := by
  have hturns := turns_nodeAt spans row.1
  rw [h, Option.getD_some] at hturns
  rw [hturns, turnsOf_filter_of_mem row.1 fun _ he => he]

/-- The turns among the entries of a loop are the spans for which it makes one. -/
theorem turnsOf_filterMap {f : Span → Option Entry} {p : Span → Bool}
    (h : ∀ span, ((f span).bind fun entry => entry.work.turn?) = Option.guard (p ·) span) (l : List Span) :
    turnsOf (l.filterMap f) = l.filter p := by
  rw [turnsOf, List.filterMap_filterMap, ← List.filterMap_eq_filter]
  exact List.filterMap_congr fun span _ => h span

/-- The two loops come to each turn once. -/
theorem perm_turnsOf (spans : List Span) : (turnsOf (entries spans)).Perm (spans.filter Span.isTurn) := by
  have hsplit : turnsOf (entries spans) =
      (spans.filter fun turn => !(leafParent spans turn).isSome && turn.isTurn) ++
        spans.filter fun turn => (leafParent spans turn).isSome && turn.isTurn := by
    rw [turnsOf, entries, List.filterMap_append]
    refine congrArg₂ _ (turnsOf_filterMap (fun span => ?_) spans) (turnsOf_filterMap (fun span => ?_) spans)
    · by_cases hturn : span.isTurn = true
      · cases hparent : leafParent spans span <;> simp [Option.guard, hturn, hparent, Work.turn?]
      · by_cases hstep : isStep spans span = true <;> simp [Option.guard, hturn, hstep, Work.turn?]
    · by_cases hturn : span.isTurn = true
      · cases hparent : leafParent spans span <;> simp [Option.guard, hturn, hparent, Work.turn?]
      · simp [Option.guard, hturn]
  rw [hsplit, ← List.filter_filter, ← List.filter_filter]
  refine List.perm_append_comm.trans ?_
  exact List.filter_append_perm (fun turn => (leafParent spans turn).isSome) (spans.filter Span.isTurn)

/-! ## The seats of the tree -/

theorem mem_flow_seats {flow : Flow} {row : (Option Text × Text) × Node} :
    row ∈ flow.seats ↔ flow.nodeAt row.1 = some row.2 := by
  obtain ⟨⟨state, name⟩, node⟩ := row
  unfold Flow.seats
  rw [List.mem_append, List.mem_map, List.mem_map]
  cases state with
  | none =>
    constructor
    · rintro (⟨row, hrow, heq⟩ | ⟨row, -, heq⟩)
      · obtain ⟨⟨-, rfl⟩, rfl⟩ : (True ∧ row.1 = name) ∧ row.2 = node := by simpa using heq
        exact Tally.mem_rows_iff.1 hrow
      · simp at heq
    · intro h
      exact .inl ⟨(name, node), Tally.mem_rows_iff.2 h, rfl⟩
  | some state =>
    constructor
    · rintro (⟨row, -, heq⟩ | ⟨⟨⟨state', name'⟩, node'⟩, hrow, heq⟩)
      · simp at heq
      · obtain ⟨⟨rfl, rfl⟩, rfl⟩ : (state' = state ∧ name' = name) ∧ node' = node := by simpa using heq
        obtain ⟨found, hfound, hnode⟩ := Tally.mem_spread.1 hrow
        simp only [Flow.nodeAt, hfound, Option.bind_some]
        exact Tally.mem_rows_iff.1 hnode
    · intro h
      obtain ⟨found, hfound, hnode⟩ := Option.bind_eq_some_iff.1 h
      exact .inr ⟨((state, name), node), Tally.mem_spread.2 ⟨found, hfound, Tally.mem_rows_iff.2 hnode⟩, rfl⟩

theorem nodup_flow_seats (flow : Flow) : (flow.seats.map Prod.fst).Nodup := by
  unfold Flow.seats
  rw [List.map_append, List.map_map, List.map_map]
  refine List.nodup_append.2 ⟨?_, ?_, ?_⟩
  · have h := flow.direct.keyed.map (f := fun name : Text => ((none : Option Text), name)) fun a b hab => (Prod.mk.inj hab).2
    simpa [Function.comp_def] using h
  · have h := (Tally.nodup_spread (fun state : State => state.nodes.rows) flow.states
      fun state _ => state.nodes.keyed).map (f := fun key : Text × Text => (some key.1, key.2)) fun a b hab => by
        obtain ⟨h1, h2⟩ := Prod.mk.inj hab
        exact Prod.ext (Option.some.inj h1) h2
    simpa [Function.comp_def] using h
  · intro a ha b hb hab
    obtain ⟨row, -, rfl⟩ := List.mem_map.1 ha
    obtain ⟨row', -, rfl⟩ := List.mem_map.1 hb
    simp at hab

theorem mem_seats {flows : FlowTally} {row : Seat × Node} : row ∈ seats flows ↔ nodeAt flows row.1 = some row.2 := by
  obtain ⟨seat, node⟩ := row
  unfold seats nodeAt
  rw [Tally.mem_spread, Option.bind_eq_some_iff]
  constructor
  · rintro ⟨flow, hflow, hrow⟩
    exact ⟨flow, hflow, mem_flow_seats.1 hrow⟩
  · rintro ⟨flow, hflow, hnode⟩
    exact ⟨flow, hflow, mem_flow_seats.2 hnode⟩

theorem nodup_seats (flows : FlowTally) : ((seats flows).map Prod.fst).Nodup :=
  Tally.nodup_spread _ _ fun flow _ => nodup_flow_seats flow

/-- The seat of a turn is in the tree. -/
theorem turnSeat_mem {turn : Span} (h : turn ∈ turnsOf (entries spans)) :
    turnSeat spans turn ∈ (seats (flowTally spans)).map Prod.fst := by
  obtain ⟨entry, hentry, hwork⟩ := List.mem_filterMap.1 h
  have hturn : entry.work = .turn turn := by
    cases hw : entry.work with
    | turn span => simpa [hw, Work.turn?] using hwork
    | step span => simp [hw, Work.turn?] at hwork
  have hitem := (item_of_turn hentry hturn).1
  have hsome : (nodeAt (flowTally spans) (turnSeat spans turn)).isSome = true := by
    rw [nodeAt_flowTally, foldl_isSome]
    have hmem : entry ∈ (entries spans).filter fun e => seatOf spans e = turnSeat spans turn :=
      List.mem_filter.2 ⟨hentry, by simp [seatOf, turnSeat, hitem]⟩
    simpa using ⟨entry, (List.mem_filter.1 hmem).1, by simp [seatOf, turnSeat, hitem]⟩
  obtain ⟨node, hnode⟩ := Option.isSome_iff_exists.1 hsome
  exact List.mem_map.2 ⟨(turnSeat spans turn, node), mem_seats.2 hnode, rfl⟩

/-- The turns of the seats are the turns of the run. -/
theorem perm_seats_turns (spans : List Span) :
    ((seats (flowTally spans)).flatMap fun row => row.2.turns).Perm (spans.filter Span.isTurn) := by
  have hrows : ((seats (flowTally spans)).flatMap fun row => row.2.turns) =
      ((seats (flowTally spans)).map Prod.fst).flatMap fun seat =>
        (turnsOf (entries spans)).filter fun turn => turnSeat spans turn = seat := by
    rw [List.flatMap_map]
    exact List.flatMap_congr fun row hrow => turns_of_mem_seats (mem_seats.1 hrow)
  rw [hrows]
  exact (perm_flatMap_filter (turnSeat spans) (nodup_seats _) fun turn hturn => turnSeat_mem hturn).symm.trans
    (perm_turnsOf spans)

/-! ## The totals -/

theorem figures_state_row (name : Text) (state : State) :
    (_state_row name state).figures = (state.nodes.rows.map fun row => nodeFigures row.2).sum := by
  have hrows : ((state.nodes.rows.map fun row => _node_row row.1 row.2).map Leaf.figures).sum =
      (state.nodes.rows.map fun row => nodeFigures row.2).sum := by
    rw [List.map_map]
    rfl
  rw [← hrows]
  unfold _state_row
  split
  · rename_i only honly
    simp [Row.figures, honly]
  · rw [_sum, Row.figures, sumFigures_eq, List.map_map]
    rfl

theorem figures_flow_row (flow : Flow) :
    (_flow_row flow).figures = (flow.seats.map fun row => nodeFigures row.2).sum := by
  have hdirect : ((flow.direct.rows.map fun row => Row.leaf (_node_row row.1 row.2)).map Row.figures).sum =
      (flow.direct.rows.map fun row => nodeFigures row.2).sum := by
    rw [List.map_map]
    rfl
  have hstates : ((flow.states.rows.map fun row => _state_row row.1 row.2).map Row.figures).sum =
      ((flow.states.spread fun state => state.nodes.rows).map fun row => nodeFigures row.2).sum := by
    rw [Tally.sum_spread, List.map_map, Tally.sum, Tally.values, List.map_map]
    exact congrArg List.sum (List.map_congr_left fun row _ => figures_state_row row.1 row.2)
  rw [_flow_row, _sum, Row.figures, sumFigures_eq, flowRows, List.map_append, List.sum_append, hdirect, hstates,
    Flow.seats, List.map_append, List.sum_append, List.map_map, List.map_map]
  rfl

/-- The tree has the figures of its seats. -/
theorem figures_build_flows (spans : List Span) :
    sumFigures (build_flows spans) = ((seats (flowTally spans)).map fun row => nodeFigures row.2).sum := by
  have hrows : (((flowTally spans).values.map _flow_row).map Row.figures).sum =
      (flowTally spans).sum fun flow => (flow.seats.map fun row => nodeFigures row.2).sum := by
    rw [List.map_map, Tally.sum]
    exact congrArg List.sum (List.map_congr_left fun flow _ => figures_flow_row flow)
  rw [sumFigures_eq, build_flows, ((perm_sortRows _).map Row.figures).sum_eq, hrows, seats, Tally.sum_spread]

/-- The figures that are sums over the turns themselves. -/
def turnFigures (turns : List Span) : Figures where
  turns := turns.length
  cost_turns := (turns.filterMap Span.profile_cost_usd).length
  cost_usd := total (turns.filterMap Span.profile_cost_usd)
  output_tokens := (turns.map fun turn => turn.profile_output_tokens.getD 0).sum

/-- Figures less the time and the retries. -/
def spend : Figures →+ Figures where
  toFun figures := { figures with time_s := 0, retries := 0 }
  map_zero' := rfl
  map_add' _ _ := Figures.ext (add_zero _).symm rfl rfl rfl rfl (add_zero _).symm

def retriesOf : Figures →+ ℤ where
  toFun := Figures.retries
  map_zero' := rfl
  map_add' _ _ := rfl

theorem turnFigures_append (turns turns' : List Span) :
    turnFigures (turns ++ turns') = turnFigures turns + turnFigures turns' := by
  refine Figures.ext (add_zero _).symm ?_ ?_ ?_ ?_ (add_zero _).symm
  · exact List.length_append
  · show (List.filterMap _ _).length = _
    rw [List.filterMap_append, List.length_append]
    rfl
  · show total _ = _
    rw [List.filterMap_append, total_append]
    rfl
  · show (List.map _ _).sum = _
    rw [List.map_append, List.sum_append]
    rfl

theorem turnFigures_flatMap {α : Type} (f : α → List Span) (l : List α) :
    turnFigures (l.flatMap f) = (l.map fun a => turnFigures (f a)).sum := by
  induction l with
  | nil => rfl
  | cons a l ih => rw [List.flatMap_cons, turnFigures_append, ih, List.map_cons, List.sum_cons]

theorem turnFigures_perm {turns turns' : List Span} (h : turns.Perm turns') : turnFigures turns = turnFigures turns' := by
  have hcosts := h.filterMap Span.profile_cost_usd
  have htokens := h.map fun turn => turn.profile_output_tokens.getD 0
  exact Figures.ext rfl h.length_eq hcosts.length_eq (total_perm hcosts) htokens.sum_eq rfl

/-- What the tree spends is what its turns spend. -/
theorem spend_build_flows (spans : List Span) :
    spend (sumFigures (build_flows spans)) = turnFigures (spans.filter Span.isTurn) := by
  rw [← turnFigures_perm (perm_seats_turns spans), turnFigures_flatMap, figures_build_flows, map_list_sum,
    List.map_map]
  rfl

/-- **The tree has the totals of the summary that is shown beside it**: turns, costs and tokens, whatever the
spans are. -/
theorem summary_agrees (spans : List Span) :
    let tree := sumFigures (build_flows spans)
    let summary := _profile_turn_summary (spans.filter Span.isTurn)
    tree.turns = summary.turns ∧ tree.cost_turns = summary.cost_turns ∧ tree.cost_usd = summary.cost_usd ∧
      tree.output_tokens = summary.output_tokens := by
  intro tree summary
  have hspend := spend_build_flows spans
  exact ⟨congrArg Figures.turns hspend, congrArg Figures.cost_turns hspend, congrArg Figures.cost_usd hspend,
    congrArg Figures.output_tokens hspend⟩

theorem sum_sub_nat {α : Type} (f g : α → ℕ) (l : List α) :
    (l.map fun a => (f a : ℤ) - (g a : ℤ)).sum = ((l.map f).sum : ℤ) - ((l.map g).sum : ℤ) := by
  induction l with
  | nil => rfl
  | cons a l ih =>
    simp only [List.map_cons, List.sum_cons, ih, Nat.cast_add]
    omega

/-- **A visit is counted once for each seat of its attempts.** So the tree never has more retries than the
summary, and as many exactly if the attempts of a visit all have one seat. -/
theorem retries_total (spans : List Span) :
    let turns := spans.filter Span.isTurn
    let tree := sumFigures (build_flows spans)
    let summary := _profile_turn_summary turns
    tree.retries = turns.length - (turns.map fun turn => (turnSeat spans turn, visit turn)).dedup.length ∧
      tree.retries ≤ summary.backend_retries ∧
      (tree.retries = summary.backend_retries ↔
        ∀ turn ∈ turns, ∀ other ∈ turns, visit turn = visit other → turnSeat spans turn = turnSeat spans other) := by
  intro turns tree summary
  have hturns := perm_turnsOf spans
  have hlength : ((seats (flowTally spans)).map fun row => row.2.turns.length).sum = turns.length := by
    rw [← (perm_seats_turns spans).length_eq, List.length_flatMap]
  have hvisits : ((seats (flowTally spans)).map fun row => (row.2.turns.map visit).dedup.length).sum =
      (turns.map fun turn => (turnSeat spans turn, visit turn)).dedup.length := by
    have hseats : ((seats (flowTally spans)).map fun row => (row.2.turns.map visit).dedup.length) =
        ((seats (flowTally spans)).map Prod.fst).map fun seat =>
          (((turnsOf (entries spans)).filter fun turn => turnSeat spans turn = seat).map visit).dedup.length := by
      rw [List.map_map]
      refine List.map_congr_left fun row hrow => ?_
      rw [turns_of_mem_seats (mem_seats.1 hrow)]
      rfl
    rw [hseats, Tally.sum_length_dedup _ _ (nodup_seats _) fun turn hturn => turnSeat_mem hturn]
    exact ((hturns.map fun turn => (turnSeat spans turn, visit turn)).dedup).length_eq
  have htotal : tree.retries = turns.length - (turns.map fun turn => (turnSeat spans turn, visit turn)).dedup.length := by
    have hmap : tree.retries = ((seats (flowTally spans)).map fun row =>
        (row.2.turns.length : ℤ) - ((row.2.turns.map visit).dedup.length : ℤ)).sum := by
      show retriesOf (sumFigures (build_flows spans)) = _
      rw [figures_build_flows, map_list_sum, List.map_map]
      rfl
    rw [hmap, sum_sub_nat, hlength, hvisits]
  obtain ⟨hle, hiff⟩ := Tally.length_dedup_le (turnSeat spans) visit turns
  have hretries : summary.backend_retries = turns.length - (turns.map visit).dedup.length := rfl
  refine ⟨htotal, by omega, ?_⟩
  rw [← hiff]
  omega

/-! ## Retries as they are listed -/

theorem mem_visitsOf {row : (Text × Text) × List Span} (h : row ∈ visitsOf spans) :
    row.2 = (spans.filter Span.isTurn).filter fun turn => visit turn = row.1 := by
  obtain ⟨key, turns⟩ := row
  rw [Dict.eq_of_mem_group h, List.filter_map, List.map_map]
  simp [Function.comp_def]

theorem perm_visits (spans : List Span) :
    ((visitsOf spans).map Prod.fst).Perm ((spans.filter Span.isTurn).map visit).dedup := by
  refine (List.perm_ext_iff_of_nodup (Dict.nodup_group _) (List.nodup_dedup _)).2 fun key => ?_
  rw [List.mem_dedup, Dict.mem_keys_group, List.map_map]
  rfl

theorem sum_visitsOf (spans : List Span) :
    ((visitsOf spans).map fun row => row.2.length).sum = (spans.filter Span.isTurn).length := by
  have hrows : ((visitsOf spans).flatMap fun row => row.2) =
      ((visitsOf spans).map Prod.fst).flatMap fun key => (spans.filter Span.isTurn).filter fun turn => visit turn = key := by
    rw [List.flatMap_map]
    exact List.flatMap_congr fun row hrow => mem_visitsOf hrow
  have hkeys : ∀ turn ∈ spans.filter Span.isTurn, visit turn ∈ (visitsOf spans).map Prod.fst := by
    intro turn hturn
    exact (perm_visits spans).mem_iff.2 (List.mem_dedup.2 (List.mem_map_of_mem hturn))
  rw [← List.length_flatMap, hrows]
  exact (perm_flatMap_filter visit (Dict.nodup_group _) hkeys).length_eq.symm

theorem tail_zip_mem {α : Type} {r : α → α → Prop} {l : List α} (hl : l.Pairwise r) {later earlier : α}
    (h : (later, earlier) ∈ l.tail.zip l) : r earlier later := by
  cases l with
  | nil => simp at h
  | cons a l =>
    induction l generalizing a with
    | nil => simp at h
    | cons b l ih =>
      simp only [List.tail_cons, List.zip_cons_cons, List.mem_cons] at h
      rcases h with h | h
      · obtain ⟨rfl, rfl⟩ := Prod.mk.inj h
        exact List.rel_of_pairwise_cons hl List.mem_cons_self
      · exact ih b hl.tail (by simpa using h)

theorem length_attempts (turns : List Span) : (attempts turns).length = turns.length :=
  (List.perm_insertionSort _ _).length_eq

/-- **The retries that are listed are those that are counted**: of each visit every turn but one, each with
an attempt of the same visit that started no later. -/
theorem retry_turns_listed (spans : List Span) :
    ((_retry_turns spans).length : ℤ) = (_profile_turn_summary (spans.filter Span.isTurn)).backend_retries ∧
      ∀ row ∈ _retry_turns spans, (row.1 ∈ spans ∧ row.1.isTurn = true) ∧ (row.2 ∈ spans ∧ row.2.isTurn = true) ∧
        visit row.1 = visit row.2 ∧ row.2.start_ts ≤ row.1.start_ts := by
  have hvisit : ∀ row ∈ visitsOf spans, 1 ≤ row.2.length := by
    intro row hrow
    have hkey := (perm_visits spans).mem_iff.1 (List.mem_map_of_mem hrow)
    obtain ⟨turn, hturn, heq⟩ := List.mem_map.1 (List.mem_dedup.1 hkey)
    have hmem : turn ∈ row.2 := by
      rw [mem_visitsOf hrow]
      exact List.mem_filter.2 ⟨hturn, by simpa using heq⟩
    exact List.length_pos_of_mem hmem
  constructor
  · have hlength : ((_retry_turns spans).length : ℤ) =
        ((visitsOf spans).map fun row => (row.2.length : ℤ) - ((1 : ℕ) : ℤ)).sum := by
      rw [_retry_turns, List.length_flatMap]
      refine (map_list_sum (Nat.castAddMonoidHom ℤ) _).trans ?_
      rw [List.map_map]
      refine congrArg List.sum (List.map_congr_left fun row hrow => ?_)
      have hpos := hvisit row hrow
      show (((attempts row.2).tail.zip (attempts row.2)).length : ℤ) = _
      rw [List.length_zip, List.length_tail, length_attempts]
      omega
    have hcount : (visitsOf spans).length = ((spans.filter Span.isTurn).map visit).dedup.length := by
      rw [← (perm_visits spans).length_eq, List.length_map]
    rw [sum_sub_nat, sum_visitsOf, List.map_const', List.sum_replicate, hcount] at hlength
    have hretries : (_profile_turn_summary (spans.filter Span.isTurn)).backend_retries =
        (spans.filter Span.isTurn).length - ((spans.filter Span.isTurn).map visit).dedup.length := rfl
    simpa [hretries] using hlength
  · rintro ⟨later, earlier⟩ hpair
    obtain ⟨row, hrow, hzip⟩ := List.mem_flatMap.1 hpair
    have hmem : ∀ turn ∈ attempts row.2, (turn ∈ spans ∧ turn.isTurn = true) ∧ visit turn = row.1 := by
      intro turn hturn
      have h := ((List.perm_insertionSort _ _).mem_iff).1 hturn
      rw [mem_visitsOf hrow, List.mem_filter, List.mem_filter] at h
      exact ⟨h.1, by simpa using h.2⟩
    have hlater := hmem later (List.mem_of_mem_tail (List.of_mem_zip hzip).1)
    have hearlier := hmem earlier (List.of_mem_zip hzip).2
    have hsorted := Window.pairwise_le_insertionSort (fun turn : Span => toLex (turn.start_ts, turn.span_id)) row.2
    have hle := tail_zip_mem hsorted hzip
    refine ⟨hlater.1, hearlier.1, hlater.2.trans hearlier.2.symm, ?_⟩
    rcases (Prod.Lex.le_iff).1 hle with hlt | ⟨heq, -⟩
    · exact hlt.le
    · exact heq.le

end Stablemate.Flows
