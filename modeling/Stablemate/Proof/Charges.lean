import Stablemate.Lib.Lists
import Stablemate.Model.Charges
import Stablemate.Proof.Flows

/-!
# One charge for a turn

* `get_charges`: what a turn is charged, from the reports of its session alone.
* `session_total`: the charges of a session add up to the last total of each stretch in which the reported
  totals do not fall.
* `views_agree`: **a turn is charged the same in every view**, and a filter by workflow changes nothing for a
  session that is all of the workflow.
-/

namespace Stablemate.Charges

open Window

variable {spans : List Row} {scope scope' : Row → Bool} {r r' : Report} {row : Row}

/-! ## The window of a report -/

theorem report_ids {row : Row} {r : Report} (h : row.report = some r) : r.span_id = row.span_id ∧ r.run_id = row.run_id ∧
    row.attrs.session = some r.session ∧ row._cost = some r.reported := by
  unfold Row.report at h
  split at h
  · rename_i session reported hsession hcost
    obtain rfl := Option.some.inj h
    exact ⟨rfl, rfl, hsession, hcost⟩
  · cases h

theorem mem_reports : r ∈ reports scope spans ↔
    ∃ row ∈ spans, row.isSessionTotal = true ∧ scope row = true ∧ row.report = some r := by
  unfold reports
  rw [List.mem_filterMap]
  constructor
  · rintro ⟨row, hrow, hreport⟩
    obtain ⟨hrow, hcond⟩ := List.mem_filter.1 hrow
    obtain ⟨htotal, hscope⟩ := Bool.and_eq_true_iff.1 hcond
    exact ⟨row, hrow, htotal, hscope, hreport⟩
  · rintro ⟨row, hrow, htotal, hscope, hreport⟩
    exact ⟨row, List.mem_filter.2 ⟨hrow, by simp [htotal, hscope]⟩, hreport⟩

/-- The reports have distinct spans. -/
theorem nodup_reports (hspans : (spans.map Row.span_id).Nodup) (scope : Row → Bool) :
    ((reports scope spans).map Report.span_id).Nodup := by
  have hsub : ((reports scope spans).map Report.span_id).Sublist
      ((spans.filter fun row => row.isSessionTotal && scope row).map Row.span_id) :=
    map_filterMap_sublist (fun row r h => (report_ids h).1) _
  exact hspans.sublist (hsub.trans (List.filter_sublist.map _))

theorem mem_window {rs : List Report} {p : Text × Text} : r ∈ window rs p ↔ r ∈ rs ∧ r.partition = p := by
  have hperm : (window rs p).Perm (rs.filter fun r => r.partition = p) := List.perm_insertionSort _ _
  rw [hperm.mem_iff, List.mem_filter]
  simp

/-- A window stands in the strict order of its places. -/
theorem pairwise_window {rs : List Report} (hrs : (rs.map Report.span_id).Nodup) (p : Text × Text) :
    (window rs p).Pairwise fun r r' => r.place < r'.place := by
  refine pairwise_insertionSort ?_
  refine List.Nodup.of_map (fun place : ℚ ×ₗ ℚ ×ₗ Text => (ofLex (ofLex place).2).2) ?_
  rw [List.map_map]
  exact hrs.sublist (List.filter_sublist.map _)

/-- The report before one in its session: the last of those that stand before it. -/
def prior (rs : List Report) (r : Report) : Option Report :=
  ((window rs r.partition).filter fun r' => r'.place < r.place).getLast?

theorem mem_lag {rs : List Report} (hrs : (rs.map Report.span_id).Nodup) {p : Text × Text} {q : Option Report} :
    (r, q) ∈ lagFrom none (window rs p) ↔ r ∈ window rs p ∧ q = prior rs r := by
  have hsorted := pairwise_window hrs p
  have hprior : ∀ {r q}, (r, q) ∈ lagFrom none (window rs p) → q = prior rs r := by
    intro r q hlag
    have hr : r ∈ window rs p := by
      have hfst := List.mem_map_of_mem (f := Prod.fst) hlag
      rwa [map_fst_lagFrom] at hfst
    have hq := mem_lagFrom_sorted hsorted (fun x y hxy => not_lt.2 hxy.le) hlag
    rw [hq, prior, (mem_window.1 hr).2]
  constructor
  · intro hlag
    have hfst := List.mem_map_of_mem (f := Prod.fst) hlag
    rw [map_fst_lagFrom] at hfst
    exact ⟨hfst, hprior hlag⟩
  · rintro ⟨hr, rfl⟩
    rw [← map_fst_lagFrom none (window rs p)] at hr
    obtain ⟨⟨r, q⟩, hlag, rfl⟩ := List.mem_map.1 hr
    rwa [← hprior hlag]

/-! ## Charges -/

/-- What a report is charged: its part of the session's running total. -/
def chargeOf (rs : List Report) (r : Report) : ℚ := step r.reported ((prior rs r).map Report.reported)

theorem mem_charges (hspans : (spans.map Row.span_id).Nodup) {row : Text × ℚ} : row ∈ _charges scope spans ↔
    ∃ r ∈ reports scope spans, (r.span_id, chargeOf (reports scope spans) r) = row := by
  have hrs := nodup_reports hspans scope
  unfold _charges
  simp only [List.mem_flatMap, List.mem_dedup, List.mem_map]
  constructor
  · rintro ⟨p, -, ⟨r, q⟩, hlag, rfl⟩
    obtain ⟨hr, rfl⟩ := (mem_lag hrs).1 hlag
    exact ⟨r, (mem_window.1 hr).1, rfl⟩
  · rintro ⟨r, hr, rfl⟩
    exact ⟨r.partition, ⟨r, hr, rfl⟩, (r, prior (reports scope spans) r),
      (mem_lag hrs).2 ⟨mem_window.2 ⟨hr, rfl⟩, rfl⟩, rfl⟩

theorem map_fst_charges (scope : Row → Bool) (spans : List Row) :
    (_charges scope spans).map Prod.fst =
      ((reports scope spans).map Report.partition).dedup.flatMap fun p =>
        (window (reports scope spans) p).map Report.span_id := by
  unfold _charges
  rw [List.map_flatMap]
  refine List.flatMap_congr fun p _ => ?_
  have hfst := congrArg (List.map Report.span_id) (map_fst_lagFrom none (window (reports scope spans) p))
  rw [List.map_map] at hfst ⊢
  exact hfst

/-- A turn is charged once. -/
theorem nodup_charges (hspans : (spans.map Row.span_id).Nodup) (scope : Row → Bool) :
    ((_charges scope spans).map Prod.fst).Nodup := by
  have hrs := nodup_reports hspans scope
  rw [map_fst_charges]
  refine List.nodup_flatMap.2 ⟨fun p _ => ?_, ?_⟩
  · have hperm : (window (reports scope spans) p).Perm _ := List.perm_insertionSort _ _
    exact ((hperm.map Report.span_id).nodup_iff).2 (hrs.sublist (List.filter_sublist.map _))
  · refine (List.nodup_dedup _).imp ?_
    intro p q hpq
    refine List.disjoint_left.2 ?_
    intro id hp hq
    obtain ⟨r, hr, rfl⟩ := List.mem_map.1 hp
    obtain ⟨r', hr', hid⟩ := List.mem_map.1 hq
    have heq : r' = r := eq_of_key hrs (mem_window.1 hr').1 (mem_window.1 hr).1 hid
    exact hpq ((mem_window.1 hr).2.symm.trans (heq ▸ (mem_window.1 hr').2))

/-- **What a turn is charged**, from the report before it in its session. -/
theorem get_charges (hspans : (spans.map Row.span_id).Nodup) (hr : r ∈ reports scope spans) :
    Dict.get (_charges scope spans) r.span_id = some (chargeOf (reports scope spans) r) :=
  Dict.get_of_mem (nodup_charges hspans scope) ((mem_charges hspans).2 ⟨r, hr, rfl⟩)

/-- **The charges of a session add up to the last total of each stretch in which the totals do not fall.** -/
theorem session_total (store : Store) (scope : Row → Bool) (p : Text × Text) :
    let session := window (reports scope store.spans) p
    (session.map fun r => (Dict.get (_charges scope store.spans) r.span_id).getD 0).sum =
      ((stretches (session.map Report.reported)).map fun g => g.getLastD 0).sum := by
  obtain ⟨spans, hspans⟩ := store
  show ((window (reports scope spans) p).map fun r => (Dict.get (_charges scope spans) r.span_id).getD 0).sum =
    ((stretches ((window (reports scope spans) p).map Report.reported)).map fun g => g.getLastD 0).sum
  have hrs := nodup_reports hspans scope
  have hcharge : ((window (reports scope spans) p).map fun r => (Dict.get (_charges scope spans) r.span_id).getD 0) =
      (window (reports scope spans) p).map (chargeOf (reports scope spans)) := by
    refine List.map_congr_left fun r hr => ?_
    rw [get_charges hspans (mem_window.1 hr).1, Option.getD_some]
  have hsteps : (window (reports scope spans) p).map (chargeOf (reports scope spans)) =
      stepsFrom none ((window (reports scope spans) p).map Report.reported) := by
    have hlag := lagFrom_map Report.reported none (window (reports scope spans) p)
    rw [Option.map_none] at hlag
    rw [stepsFrom, hlag, List.map_map]
    conv_lhs => rw [← map_fst_lagFrom none (window (reports scope spans) p), List.map_map]
    refine List.map_congr_left fun row hrow => ?_
    obtain ⟨r, q⟩ := row
    obtain ⟨-, rfl⟩ := (mem_lag hrs).1 hrow
    rfl
  rw [hcharge, hsteps, sum_steps]

/-! ## Scopes -/

/-- Rows of one session. -/
def SameSession (row other : Row) : Prop := other.run_id = row.run_id ∧ other.attrs.session = row.attrs.session

/-- A scope that agrees on a session leaves its window as it is. -/
theorem window_congr {p : Text × Text} (h : ∀ row ∈ spans, ∀ r, row.report = some r → r.partition = p →
    scope row = scope' row) : window (reports scope spans) p = window (reports scope' spans) p := by
  have hfilter : (reports scope spans).filter (fun r => r.partition = p) =
      (reports scope' spans).filter fun r => r.partition = p := by
    unfold reports
    rw [List.filterMap_filter, List.filterMap_filter, List.filter_filterMap, List.filter_filterMap]
    refine List.filterMap_congr fun row hrow => ?_
    cases hreport : row.report with
    | none => simp
    | some r =>
      by_cases hp : r.partition = p
      · rw [h row hrow r hreport hp]
      · have hnone : (some r).filter (fun r => decide (r.partition = p)) = none := by simp [hp]
        by_cases hc : (row.isSessionTotal && scope row) = true <;>
          by_cases hc' : (row.isSessionTotal && scope' row) = true <;> simp [hc, hc', hnone]
  rw [window, window, hfilter]

/-- A turn that is no session total has no charge of its own. -/
theorem get_charges_none (hspans : (spans.map Row.span_id).Nodup)
    (h : ¬ ∃ r ∈ reports scope spans, r.span_id = row.span_id) : Dict.get (_charges scope spans) row.span_id = none := by
  rw [Dict.get_eq_none_iff]
  intro hmem
  obtain ⟨charge, hcharge, hid⟩ := List.mem_map.1 hmem
  obtain ⟨r, hr, rfl⟩ := (mem_charges hspans).1 hcharge
  exact h ⟨r, hr, hid⟩

/-- **What a turn is charged depends on the rows of its session only**: scopes that take it, and agree on
the rows of its session, charge it the same. -/
theorem charge_scope (hspans : (spans.map Row.span_id).Nodup) (hrow : row ∈ spans)
    (hsame : ∀ other ∈ spans, SameSession row other → scope other = scope' other) :
    _charge (_charges scope spans) row = _charge (_charges scope' spans) row := by
  have hreports : ∀ r, row.report = some r → (r ∈ reports scope spans ↔ r ∈ reports scope' spans) := by
    have honly : ∀ (scope : Row → Bool) r, row.report = some r →
        (r ∈ reports scope spans ↔ row.isSessionTotal = true ∧ scope row = true) := by
      intro scope r hr
      rw [mem_reports]
      constructor
      · rintro ⟨other, hother, htotal, hscope, hreport⟩
        have hid : other.span_id = row.span_id := (report_ids hreport).1.symm.trans (report_ids hr).1
        obtain rfl := eq_of_key hspans hother hrow hid
        exact ⟨htotal, hscope⟩
      · rintro ⟨htotal, hscope⟩
        exact ⟨row, hrow, htotal, hscope, hr⟩
    intro r hr
    rw [honly scope r hr, honly scope' r hr, hsame row hrow ⟨rfl, rfl⟩]
  have hnone : ∀ scope : Row → Bool, (∀ r, row.report = some r → r ∉ reports scope spans) →
      Dict.get (_charges scope spans) row.span_id = none := by
    intro scope hno
    refine get_charges_none hspans ?_
    rintro ⟨r, hr, hid⟩
    obtain ⟨other, hother, -, -, hreport⟩ := mem_reports.1 hr
    obtain rfl := eq_of_key hspans hother hrow ((report_ids hreport).1.symm.trans hid)
    exact hno r hreport hr
  unfold _charge
  by_cases hin : ∃ r, row.report = some r ∧ r ∈ reports scope spans
  · obtain ⟨r, hr, hmem⟩ := hin
    have hmem' := (hreports r hr).1 hmem
    obtain ⟨hid, hrun, hsession, -⟩ := report_ids hr
    have hwindow : window (reports scope spans) r.partition = window (reports scope' spans) r.partition := by
      refine window_congr fun other hother r' hr' hp => hsame other hother ?_
      obtain ⟨-, hrun', hsession', -⟩ := report_ids hr'
      obtain ⟨hp1, hp2⟩ := Prod.mk.inj hp
      exact ⟨hrun'.symm.trans (hp1.trans hrun), hsession'.trans (by rw [hp2, hsession])⟩
    rw [← hid, get_charges hspans hmem, get_charges hspans hmem', chargeOf, chargeOf, prior, prior, hwindow]
  · have hno : ∀ r, row.report = some r → r ∉ reports scope spans := fun r hr hmem => hin ⟨r, hr, hmem⟩
    have hno' : ∀ r, row.report = some r → r ∉ reports scope' spans :=
      fun r hr hmem => hno r hr ((hreports r hr).2 hmem)
    rw [hnone scope hno, hnone scope' hno']

/-! ## The views -/

variable {store : Store}

/-- Among the charges of all runs a turn is charged what it is among those of its own. -/
theorem charge_run (hrow : row ∈ store.spans) {run : Text} (hrun : run = [] ∨ run = row.run_id) :
    _charge (_charges (fun r => run = [] || r.run_id = run) store.spans) row =
      _charge (turn_charges store row.run_id) row := by
  refine charge_scope store.keyed hrow fun other hother hsame => ?_
  rcases hrun with rfl | rfl
  · simp [hsame.1]
  · by_cases hnil : row.run_id = []
    · simp [hsame.1, hnil]
    · simp [hnil]

/-- **A turn is charged the same in every view**: in its run's charges, among the charges of all runs, in the
spans of its run, and in the laps under any filter that takes all of its session or none of it. -/
theorem views_agree (hrow : row ∈ store.spans) :
    (∀ run, run = [] ∨ run = row.run_id →
      _charge (_charges (fun r => run = [] || r.run_id = run) store.spans) row =
        _charge (turn_charges store row.run_id) row) ∧
      (∀ p ∈ _run_spans store row.run_id, p.row = row →
        p.profile_cost_usd = _charge (turn_charges store row.run_id) row) ∧
      ∀ run workflow since_ts, (∀ other ∈ store.spans, SameSession row other →
          workflow = [] ∨ (other.workflow = workflow ↔ row.workflow = workflow)) →
        ∀ cost, (row, cost) ∈ lapRows store run workflow since_ts →
          cost = _charge (turn_charges store row.run_id) row := by
  refine ⟨fun run hrun => charge_run hrow hrun, ?_, ?_⟩
  · intro p hp hprow
    have hperm : (_run_spans store row.run_id).Perm _ := List.perm_insertionSort _ _
    obtain ⟨other, -, rfl⟩ := List.mem_map.1 (hperm.mem_iff.1 hp)
    obtain rfl : other = row := hprow
    rfl
  · intro run workflow since_ts hworkflow cost hlap
    obtain ⟨other, hother, heq⟩ := List.mem_map.1 hlap
    obtain ⟨rfl, rfl⟩ := Prod.mk.inj heq
    have hperm : (lapTurns store run workflow since_ts).Perm _ := List.perm_insertionSort _ _
    have hscope : lapScope run workflow other = true := by
      have hcond := (List.mem_filter.1 (hperm.mem_iff.1 hother)).2
      simp only [Bool.and_eq_true] at hcond
      exact hcond.1.2
    refine charge_scope store.keyed hrow fun third hthird hsame => ?_
    have hrun : (run = [] || decide (third.run_id = run)) = true := by
      have h := (Bool.and_eq_true_iff.1 hscope).1
      rwa [← hsame.1] at h
    have hflow : (workflow = [] || decide (third.workflow = workflow)) = true := by
      have h := (Bool.and_eq_true_iff.1 hscope).2
      rcases hworkflow third hthird hsame with rfl | hiff
      · simp
      · by_cases hnil : workflow = []
        · simp [hnil]
        · simp only [hnil, decide_false, Bool.false_or, decide_eq_true_eq] at h ⊢
          exact hiff.2 h
    rw [lapScope, hrun, hflow]
    simp [hsame.1]

/-! A run with one session, whose second turn starts it again. -/

namespace TwoTurns

def turn (id : Text) (start_ts reported : ℚ) : Row :=
  { span_id := id, run_id := "r".toList, node := "code".toList, name := "agent_turn".toList, start_ts := start_ts,
    end_ts := start_ts, total_cost_usd := some reported,
    attrs := { backend := some "claude".toList, session := some "s".toList } }

def first : Row := turn "a".toList 1 5

def kept : Store := { spans := [first, turn "b".toList 2 3], keyed := by decide }

end TwoTurns

theorem views_agree_first : (_charge (_charges (fun r => [] = ([] : Text) || r.run_id = []) TwoTurns.kept.spans)
    TwoTurns.first) = _charge (turn_charges TwoTurns.kept "r".toList) TwoTurns.first :=
  (@views_agree TwoTurns.first TwoTurns.kept List.mem_cons_self).1 [] (.inl rfl)

end Stablemate.Charges
