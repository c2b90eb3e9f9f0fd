import Mathlib.MeasureTheory.Measure.Lebesgue.Basic

/-!
# Sweeping over intervals

Each interval raises the counter of its label where it starts and lowers it where it stops. A sweep
goes through some points in order and gives, from each point to the next, the counters there.

* `pieces_spec`: what the counters are between two points.
* `active_pos_iff`: **a counter is positive exactly where an interval of its label is on**.
* `volume_pieces`: the length of the instants with a property is the sum over the pieces that have it.
-/

namespace Stablemate.Sweep

variable {ι : Type*} [DecidableEq ι]

structure Interval (ι : Type*) where
  start : ℚ
  stop : ℚ
  label : ι

/-- A change of the counter of a label, and its time. -/
abbrev Change (ι : Type*) := ℚ × ι × ℤ

def Interval.changes (i : Interval ι) : List (Change ι) := [(i.start, i.label, 1), (i.stop, i.label, -1)]

def apply (active : ι → ℤ) (change : Change ι) : ι → ℤ :=
  Function.update active change.2.1 (active change.2.1 + change.2.2)

/-- The counters after the changes at `t`. -/
def advance (changes : List (Change ι)) (active : ι → ℤ) (t : ℚ) : ι → ℤ :=
  (changes.filter fun e => e.1 = t).foldl apply active

/-- From a point to the next one. -/
structure Piece (ι : Type*) where
  active : ι → ℤ
  left : ℚ
  right : ℚ

def pieces (changes : List (Change ι)) : (ι → ℤ) → List ℚ → List (Piece ι)
  | active, left :: right :: rest =>
    ⟨advance changes active left, left, right⟩ :: pieces changes (advance changes active left) (right :: rest)
  | _, _ => []

variable {changes : List (Change ι)} {active : ι → ℤ} {points rest : List ℚ} {first t : ℚ} {c : ι} {piece : Piece ι}
  {intervals : List (Interval ι)}

/-! ## Counters -/

/-- What the changes at some times add to a counter. -/
def net (changes : List (Change ι)) (p : ℚ → Prop) [DecidablePred p] (c : ι) : ℤ :=
  (changes.map fun e => if p e.1 ∧ e.2.1 = c then e.2.2 else 0).sum

theorem net_add (changes : List (Change ι)) {p q r : ℚ → Prop} [DecidablePred p] [DecidablePred q] [DecidablePred r] (c : ι)
    (h : ∀ e ∈ changes, (r e.1 ↔ p e.1 ∨ q e.1) ∧ ¬ (p e.1 ∧ q e.1)) : net changes r c = net changes p c + net changes q c := by
  induction changes with
  | nil => rfl
  | cons e changes ih =>
    have ih := ih fun e' he' => h e' (List.mem_cons_of_mem e he')
    obtain ⟨hr, hpq⟩ := h e List.mem_cons_self
    unfold net at ih ⊢
    simp only [List.map_cons, List.sum_cons, ih, hr]
    by_cases hp : p e.1 <;> by_cases hq : q e.1 <;> by_cases hc : e.2.1 = c <;> simp_all <;> omega

theorem net_congr {p q : ℚ → Prop} [DecidablePred p] [DecidablePred q] (h : ∀ e ∈ changes, p e.1 ↔ q e.1) :
    net changes p c = net changes q c := by
  unfold net
  refine congrArg List.sum (List.map_congr_left fun e he => ?_)
  simp only [h e he]

theorem net_eq_zero {p : ℚ → Prop} [DecidablePred p] (h : ∀ e ∈ changes, ¬ p e.1) : net changes p c = 0 := by
  unfold net
  refine List.sum_eq_zero fun x hx => ?_
  obtain ⟨e, he, rfl⟩ := List.mem_map.1 hx
  exact if_neg fun hp => h e he hp.1

theorem foldl_apply (l : List (Change ι)) (active : ι → ℤ) (c : ι) :
    l.foldl apply active c = active c + (l.map fun e => if e.2.1 = c then e.2.2 else 0).sum := by
  induction l generalizing active with
  | nil => simp
  | cons e l ih =>
    rw [List.foldl_cons, ih, List.map_cons, List.sum_cons]
    unfold apply
    by_cases hc : e.2.1 = c
    · subst hc
      rw [Function.update_self, if_pos rfl]
      omega
    · rw [Function.update_of_ne (Ne.symm hc), if_neg hc]
      omega

theorem advance_apply (changes : List (Change ι)) (active : ι → ℤ) (t : ℚ) (c : ι) :
    advance changes active t c = active c + net changes (· = t) c := by
  unfold advance
  rw [foldl_apply]
  congr 1
  unfold net
  induction changes with
  | nil => rfl
  | cons e changes ih =>
    by_cases ht : e.1 = t
    · rw [List.filter_cons_of_pos (by simpa using ht), List.map_cons, List.sum_cons, List.map_cons, List.sum_cons, ih]
      simp [ht]
    · rw [List.filter_cons_of_neg (by simpa using ht), List.map_cons, List.sum_cons, ih]
      simp [ht]

/-- **Between two points** the counters are what the changes up to the first of them make, and none
comes before the second. -/
theorem pieces_spec : ∀ (points : List ℚ) (active : ι → ℤ), points.Pairwise (· < ·) →
    (∀ first ∈ points.head?, (∀ c, active c = net changes (· < first) c) ∧ ∀ e ∈ changes, e.1 < first ∨ e.1 ∈ points) →
    ∀ piece ∈ pieces changes active points, piece.left < piece.right ∧ piece.left ∈ points ∧ piece.right ∈ points ∧
      (∀ c, piece.active c = net changes (· ≤ piece.left) c) ∧ ∀ e ∈ changes, e.1 ≤ piece.left ∨ piece.right ≤ e.1
  | [], active, _, _, piece, hpiece => (nomatch hpiece)
  | [first], active, _, _, piece, hpiece => (nomatch hpiece)
  | left :: right :: rest, active, hsorted, hstart, piece, hpiece => by
    obtain ⟨hactive, hmem⟩ := hstart left rfl
    have hlt : left < right := (List.pairwise_cons.1 hsorted).1 right List.mem_cons_self
    have hrest := (List.pairwise_cons.1 hsorted).2
    -- what is not over at the first point does not come before the second
    have hgap : ∀ e ∈ changes, e.1 ≤ left ∨ right ≤ e.1 := by
      intro e he
      rcases hmem e he with hbefore | hin
      · exact .inl hbefore.le
      · rcases List.mem_cons.1 hin with heq | hin
        · exact .inl heq.le
        · rcases List.mem_cons.1 hin with heq | hin
          · exact .inr heq.ge
          · exact .inr ((List.pairwise_cons.1 hrest).1 _ hin).le
    have hnow : ∀ c, advance changes active left c = net changes (· ≤ left) c := by
      intro c
      have hadd : net changes (fun s => s ≤ left) c = net changes (fun s => s < left) c + net changes (fun s => s = left) c :=
        net_add changes c fun e _ => ⟨le_iff_lt_or_eq, fun h => h.1.ne h.2⟩
      rw [advance_apply, hactive, hadd]
    rcases List.mem_cons.1 hpiece with rfl | hpiece
    · exact ⟨hlt, List.mem_cons_self, List.mem_cons_of_mem _ List.mem_cons_self, hnow, hgap⟩
    · have hih := pieces_spec (right :: rest) (advance changes active left) hrest (by
        intro first hfirst
        obtain rfl := Option.some.inj hfirst
        constructor
        · intro c
          rw [hnow]
          refine net_congr fun e he => ?_
          rcases hgap e he with h | h
          · exact iff_of_true h (h.trans_lt hlt)
          · exact iff_of_false (by linarith) (by linarith)
        · intro e he
          rcases hmem e he with hbefore | hin
          · exact .inl (hbefore.trans hlt)
          · rcases List.mem_cons.1 hin with heq | hin
            · exact .inl (heq ▸ hlt)
            · exact .inr hin) piece hpiece
      exact ⟨hih.1, List.mem_cons_of_mem _ hih.2.1, List.mem_cons_of_mem _ hih.2.2.1, hih.2.2.2⟩

/-! ## Intervals -/

/-- An interval of the label is on. -/
def On (intervals : List (Interval ι)) (c : ι) (t : ℝ) : Prop :=
  ∃ i ∈ intervals, i.label = c ∧ (i.start : ℝ) ≤ t ∧ t < i.stop

/-- The counter at a time is the number of the intervals that are on. -/
theorem net_changes (hlt : ∀ i ∈ intervals, i.start < i.stop) (t : ℚ) (c : ι) :
    net (intervals.flatMap Interval.changes) (· ≤ t) c =
      (intervals.countP fun i => i.label = c ∧ i.start ≤ t ∧ t < i.stop : ℕ) := by
  induction intervals with
  | nil => rfl
  | cons i intervals ih =>
    have ih := ih fun j hj => hlt j (List.mem_cons_of_mem i hj)
    have hi := hlt i List.mem_cons_self
    unfold net at ih ⊢
    rw [List.flatMap_cons, List.map_append, List.sum_append, ih, List.countP_cons]
    unfold Interval.changes
    simp only [List.map_cons, List.map_nil, List.sum_cons, List.sum_nil, decide_eq_true_eq]
    by_cases hc : i.label = c
    · by_cases hstart : i.start ≤ t
      · by_cases hstop : i.stop ≤ t
        · simp [hc, hstart, hstop, not_lt.2 hstop]
        · simp [hc, hstart, hstop, not_le.1 hstop]
          omega
      · have hstop : ¬ i.stop ≤ t := fun h => hstart (hi.le.trans h)
        simp [hc, hstart, hstop]
    · simp [hc]

/-- **A counter is positive exactly where an interval of its label is on.** -/
theorem active_pos_iff (hlt : ∀ i ∈ intervals, i.start < i.stop) (hsorted : points.Pairwise (· < ·))
    (hmem : ∀ i ∈ intervals, i.start ∈ points ∧ i.stop ∈ points)
    (hpiece : piece ∈ pieces (intervals.flatMap Interval.changes) (fun _ => 0) points) {t : ℝ} (hleft : (piece.left : ℝ) ≤ t)
    (hright : t < piece.right) (c : ι) : 0 < piece.active c ↔ On intervals c t := by
  have htimes : ∀ e ∈ intervals.flatMap Interval.changes, e.1 ∈ points := by
    intro e he
    obtain ⟨i, hi, he⟩ := List.mem_flatMap.1 he
    unfold Interval.changes at he
    simp only [List.mem_cons, List.not_mem_nil, or_false] at he
    rcases he with rfl | rfl
    · exact (hmem i hi).1
    · exact (hmem i hi).2
  have hspec := pieces_spec points (fun _ => 0) hsorted (by
    intro first hfirst
    refine ⟨fun c => ?_, fun e he => .inr (htimes e he)⟩
    -- nothing changes before the first point
    refine (net_eq_zero (p := fun s => s < first) fun e he => not_lt.2 ?_).symm
    cases points with
    | nil => cases hfirst
    | cons p points =>
      obtain rfl := Option.some.inj hfirst
      rcases List.mem_cons.1 (htimes e he) with heq | hin
      · exact heq.ge
      · exact ((List.pairwise_cons.1 hsorted).1 _ hin).le) piece hpiece
  obtain ⟨-, -, -, hactive, hgap⟩ := hspec
  rw [hactive, net_changes hlt, Int.natCast_pos, List.countP_pos_iff]
  refine exists_congr fun i => and_congr_right fun hi => ?_
  rw [decide_eq_true_eq]
  refine and_congr_right fun _ => ?_
  have hstart := hgap (i.start, i.label, 1) (List.mem_flatMap.2 ⟨i, hi, List.mem_cons_self⟩)
  have hstop := hgap (i.stop, i.label, -1) (List.mem_flatMap.2 ⟨i, hi, List.mem_cons_of_mem _ List.mem_cons_self⟩)
  dsimp only at hstart hstop
  constructor
  · rintro ⟨hs, he⟩
    have hafter : piece.right ≤ i.stop := hstop.resolve_left (not_le.2 he)
    exact ⟨le_trans (by exact_mod_cast hs) hleft, hright.trans_le (by exact_mod_cast hafter)⟩
  · rintro ⟨hs, he⟩
    have hbefore : i.start ≤ piece.left := by
      refine hstart.resolve_right fun h => ?_
      have : (piece.right : ℝ) ≤ i.start := by exact_mod_cast h
      linarith
    have hafter : piece.right ≤ i.stop := by
      refine hstop.resolve_left fun h => ?_
      have : (i.stop : ℝ) ≤ piece.left := by exact_mod_cast h
      linarith
    have hne : piece.left < piece.right := by exact_mod_cast hleft.trans_lt hright
    exact ⟨hbefore, hne.trans_le hafter⟩

/-! ## Lengths -/

theorem pieces_lt : ∀ (points : List ℚ) (active : ι → ℤ), points.Pairwise (· < ·) →
    ∀ piece ∈ pieces changes active points, piece.left < piece.right
  | [], active, _, piece, hpiece => (nomatch hpiece)
  | [first], active, _, piece, hpiece => (nomatch hpiece)
  | left :: right :: rest, active, hsorted, piece, hpiece => by
    obtain ⟨hfirst, hrest⟩ := List.pairwise_cons.1 hsorted
    rcases List.mem_cons.1 hpiece with rfl | hpiece
    · exact hfirst right List.mem_cons_self
    · exact pieces_lt _ _ hrest piece hpiece

/-- The pieces fill what is between the first and the last point. -/
theorem sum_pieces : ∀ (first : ℚ) (rest : List ℚ) (active : ι → ℤ),
    ((pieces changes active (first :: rest)).map fun piece => piece.right - piece.left).sum =
      (first :: rest).getLast (List.cons_ne_nil _ _) - first
  | first, [], active => by simp [pieces]
  | first, next :: rest, active => by
    rw [pieces, List.map_cons, List.sum_cons, sum_pieces next rest, List.getLast_cons_cons]
    ring

/-- **The length of the instants with a property** is that of the pieces that have it. -/
theorem volume_pieces {P : ℝ → Prop} {f : Piece ι → Bool} : ∀ (first : ℚ) (rest : List ℚ) (active : ι → ℤ),
    (first :: rest).Pairwise (· < ·) →
    (∀ piece ∈ pieces changes active (first :: rest), ∀ t : ℝ, piece.left ≤ t → t < piece.right → (P t ↔ f piece = true)) →
    MeasureTheory.volume {t : ℝ | first ≤ t ∧ t < (first :: rest).getLast (List.cons_ne_nil _ _) ∧ P t} =
      ENNReal.ofReal ((((pieces changes active (first :: rest)).filter f).map fun piece => piece.right - piece.left).sum : ℚ)
  | first, [], active, _, _ => by
    have hempty : {t : ℝ | first ≤ t ∧ t < ([first].getLast (List.cons_ne_nil _ _) : ℚ) ∧ P t} = ∅ := by
      refine Set.eq_empty_iff_forall_notMem.2 fun t ht => ?_
      exact absurd ht.1 (not_le.2 ht.2.1)
    rw [hempty]
    simp [pieces]
  | first, next :: rest, active, hsorted, hP => by
    have hlt : first < next := (List.pairwise_cons.1 hsorted).1 next List.mem_cons_self
    have hrest := (List.pairwise_cons.1 hsorted).2
    have hlast : (next : ℚ) ≤ (next :: rest).getLast (List.cons_ne_nil _ _) := by
      rcases List.mem_cons.1 (List.getLast_mem (List.cons_ne_nil next rest)) with heq | hin
      · exact heq.ge
      · exact ((List.pairwise_cons.1 hrest).1 _ hin).le
    rw [pieces] at hP ⊢
    have ih := volume_pieces next rest (advance changes active first) hrest
      fun piece hpiece => hP piece (List.mem_cons_of_mem _ hpiece)
    have hsplit : {t : ℝ | first ≤ t ∧ t < ((first :: next :: rest).getLast (List.cons_ne_nil _ _) : ℚ) ∧ P t} =
        {t : ℝ | first ≤ t ∧ t < next ∧ P t} ∪
          {t : ℝ | next ≤ t ∧ t < ((next :: rest).getLast (List.cons_ne_nil _ _) : ℚ) ∧ P t} := by
      ext t
      have h1 : (first : ℝ) < next := by exact_mod_cast hlt
      have h2 : (next : ℝ) ≤ ((next :: rest).getLast (List.cons_ne_nil _ _) : ℚ) := by exact_mod_cast hlast
      rw [List.getLast_cons_cons]
      constructor
      · rintro ⟨hf, hl, hp⟩
        rcases lt_or_ge t next with h | h
        · exact .inl ⟨hf, h, hp⟩
        · exact .inr ⟨h, hl, hp⟩
      · rintro (⟨hf, hn, hp⟩ | ⟨hn, hl, hp⟩)
        · exact ⟨hf, hn.trans_le h2, hp⟩
        · exact ⟨h1.le.trans hn, hl, hp⟩
    have hdisjoint : Disjoint {t : ℝ | first ≤ t ∧ t < next ∧ P t}
        {t : ℝ | next ≤ t ∧ t < ((next :: rest).getLast (List.cons_ne_nil _ _) : ℚ) ∧ P t} :=
      Set.disjoint_left.2 fun t ht ht' => absurd ht.2.1 (not_lt.2 ht'.1)
    have hnonneg : (0 : ℚ) ≤ (((pieces changes (advance changes active first) (next :: rest)).filter f).map
        fun piece => piece.right - piece.left).sum := by
      refine List.sum_nonneg fun x hx => ?_
      obtain ⟨piece, hpiece, rfl⟩ := List.mem_map.1 hx
      exact sub_nonneg.2 (pieces_lt _ _ hrest piece (List.mem_filter.1 hpiece).1).le
    have hpiece := hP ⟨advance changes active first, first, next⟩ List.mem_cons_self
    dsimp only at hpiece
    -- the first piece has the property in whole or not at all
    by_cases hf : f ⟨advance changes active first, first, next⟩ = true
    · have hfirst : {t : ℝ | first ≤ t ∧ t < next ∧ P t} = Set.Ico (first : ℝ) next := by
        ext t
        exact ⟨fun h => ⟨h.1, h.2.1⟩, fun h => ⟨h.1, h.2, (hpiece t h.1 h.2).2 hf⟩⟩
      rw [hsplit, MeasureTheory.measure_union' hdisjoint (hfirst ▸ measurableSet_Ico), ih, hfirst, Real.volume_Ico,
        List.filter_cons_of_pos hf, List.map_cons, List.sum_cons, Rat.cast_add,
        ENNReal.ofReal_add (by push_cast; exact sub_nonneg.2 (by exact_mod_cast hlt.le)) (by exact_mod_cast hnonneg)]
      push_cast
      rfl
    · have hfirst : {t : ℝ | first ≤ t ∧ t < next ∧ P t} = ∅ := by
        refine Set.eq_empty_iff_forall_notMem.2 fun t ht => ?_
        exact hf ((hpiece t ht.1 ht.2.1).1 ht.2.2)
      rw [hsplit, hfirst, Set.empty_union, ih, List.filter_cons_of_neg hf]

end Stablemate.Sweep
