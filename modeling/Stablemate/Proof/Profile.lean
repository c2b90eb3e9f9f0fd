import Mathlib.Data.List.MinMax
import Stablemate.Model.Profile

/-!
# The partition of the wall time

* `Highest`, `Counted`: which activity an instant belongs to, and which kind of wait.
* `foldl_addPiece`: what the loop adds up.
* `exact_iff`: the amounts are the lengths of the instants and sum to the wall time exactly if the window
  does not end before it starts and the resume gaps lie in it.
* `partition_exact`: **and a span that is added where higher activities are active changes no amount**.
-/

namespace Stablemate.Profile

open Trace (Span)
open Sweep (Interval Piece)

/-! ## Instants -/

def Activity.rank : Activity → ℕ
  | resume_gap => 0
  | wait => 1
  | agent => 2
  | infra => 3
  | deterministic => 4
  | unclassified => 5

def Category.activity : Category → Activity
  | resume_gap => .resume_gap
  | wait _ => .wait
  | agent => .agent
  | infra => .infra
  | deterministic => .deterministic

/-- A span of the category is open. -/
def Open (spans : List Span) (category : Category) (t : ℝ) : Prop :=
  ∃ span ∈ spans, _span_category span (parentKeys spans) = some category ∧ (span.start_ts : ℝ) ≤ t ∧ t < span.end_ts

def Active (spans : List Span) (t : ℝ) : Activity → Prop
  | .resume_gap => ∃ gap ∈ _resume_intervals spans, (gap.1 : ℝ) ≤ t ∧ t < gap.2
  | .unclassified => True
  | activity => ∃ category, category.activity = activity ∧ Open spans category t

/-- The activity is the highest one that is active. -/
def Highest (spans : List Span) (t : ℝ) (activity : Activity) : Prop :=
  Active spans t activity ∧ ∀ other, other.rank < activity.rank → ¬ Active spans t other

/-- The instant is waited for something of this kind: of the only open kind, or `overlap`. -/
def Counted (spans : List Span) (t : ℝ) (kind : Text) : Prop :=
  Highest spans t .wait ∧ ((∀ k, Open spans (.wait k) t ↔ k = kind) ∨
    (kind = "overlap".toList ∧ ∃ k k', k ≠ k' ∧ Open spans (.wait k) t ∧ Open spans (.wait k') t))

/-- The instants of the window with a property. -/
def instants (start stop : ℚ) (P : ℝ → Prop) : Set ℝ := {t | start ≤ t ∧ t < stop ∧ P t}

def Partition.amount (p : Partition) : Activity → ℚ
  | .resume_gap => p.resume_gap
  | .wait => p.wait
  | .agent => p.agent
  | .infra => p.infra
  | .deterministic => p.deterministic
  | .unclassified => p.unclassified

/-- What a table of amounts has of a kind. -/
def waited (waits : List (Text × ℚ)) (kind : Text) : ℚ := ((waits.filter fun w => w.1 = kind).map (·.2)).sum

/-- The amounts are the lengths of the instants, and sum up. -/
structure Exact (spans : List Span) (start stop : ℚ) (p : Partition) : Prop where
  nonneg : ∀ activity, 0 ≤ p.amount activity
  wall : p.resume_gap + p.wait + p.agent + p.infra + p.deterministic + p.unclassified = p.wall
  kinds : (p.waits_by_kind.map (·.1)).Nodup ∧ (∀ w ∈ p.waits_by_kind, 0 ≤ w.2) ∧ (p.waits_by_kind.map (·.2)).sum = p.wait
  lengths : ∀ activity, MeasureTheory.volume (instants start stop fun t => Highest spans t activity) =
    ENNReal.ofReal (p.amount activity : ℚ)
  waits : ∀ kind, MeasureTheory.volume (instants start stop fun t => Counted spans t kind) =
    ENNReal.ofReal (waited p.waits_by_kind kind : ℚ)

/-- The window of a run: from the least start to the greatest end. -/
structure Window (spans : List Span) (start stop : ℚ) : Prop where
  start : (spans.map (·.start_ts)).min? = some start
  stop : (spans.map (·.end_ts)).max? = some stop

/-- The window does not end before it starts, and no resume gap reaches out of it. -/
def Inside (spans : List Span) (start stop : ℚ) : Prop :=
  start ≤ stop ∧ ∀ gap ∈ _resume_intervals spans, start ≤ gap.1 ∧ gap.2 ≤ stop

/-- A span is added where higher activities are active all the time, and nothing else changes. -/
structure Covered (spans spans' : List Span) (extra : Span) : Prop where
  perm : spans'.Perm (extra :: spans)
  lasts : extra.start_ts < extra.end_ts
  categories : ∀ span ∈ spans, _span_category span (parentKeys spans') = _span_category span (parentKeys spans)
  gaps : _resume_intervals spans' = _resume_intervals spans
  above : ∃ category, _span_category extra (parentKeys spans') = some category ∧
    ∀ t : ℝ, extra.start_ts ≤ t → t < extra.end_ts → ∃ activity, activity.rank < category.activity.rank ∧ Active spans t activity

variable {spans spans' : List Span} {start stop : ℚ} {extra : Span} {totals : Partition} {piece : Piece Category}
  {kinds : List Text} {activity : Activity} {kind : Text} {t : ℝ}

/-! ## The loop -/

def kindOf (kinds : List Text) (piece : Piece Category) : Text := waitKind (wait_kinds kinds piece)

theorem amount_addPiece (kinds : List Text) (totals : Partition) (piece : Piece Category) (activity : Activity) :
    (addPiece kinds totals piece).amount activity = totals.amount activity +
      if activityOf kinds piece = activity then max 0 (piece.right - piece.left) else 0 := by
  unfold addPiece
  cases activityOf kinds piece <;> cases activity <;> simp [Partition.add, Partition.amount]

theorem wall_addPiece (kinds : List Text) (totals : Partition) (piece : Piece Category) :
    (addPiece kinds totals piece).wall = totals.wall := by
  unfold addPiece
  cases activityOf kinds piece <;> rfl

theorem waits_addPiece (kinds : List Text) (totals : Partition) (piece : Piece Category) :
    (addPiece kinds totals piece).waits_by_kind =
      if activityOf kinds piece = .wait then
        addWait (kindOf kinds piece) (max 0 (piece.right - piece.left)) totals.waits_by_kind
      else totals.waits_by_kind := by
  unfold addPiece
  cases activityOf kinds piece <;> rfl

theorem keys_addWait (kind : Text) (duration : ℚ) (waits : List (Text × ℚ)) :
    ∀ k, k ∈ (addWait kind duration waits).map (·.1) ↔ k = kind ∨ k ∈ waits.map (·.1) := by
  induction waits with
  | nil => simp [addWait]
  | cons w waits ih =>
    obtain ⟨k', amount⟩ := w
    intro k
    rw [addWait]
    split
    · rename_i heq
      subst heq
      simp
    · rw [List.map_cons, List.map_cons, List.mem_cons, List.mem_cons, ih]
      exact or_left_comm

theorem nodup_addWait (kind : Text) (duration : ℚ) {waits : List (Text × ℚ)} (h : (waits.map (·.1)).Nodup) :
    ((addWait kind duration waits).map (·.1)).Nodup := by
  induction waits with
  | nil => simp [addWait]
  | cons w waits ih =>
    obtain ⟨k', amount⟩ := w
    rw [List.map_cons, List.nodup_cons] at h
    rw [addWait]
    split
    · rw [List.map_cons, List.nodup_cons]
      exact h
    · rename_i hne
      rw [List.map_cons, List.nodup_cons, keys_addWait]
      exact ⟨fun hin => hin.elim hne h.1, ih h.2⟩

theorem nonneg_addWait {duration : ℚ} (hduration : 0 ≤ duration) (kind : Text) {waits : List (Text × ℚ)}
    (h : ∀ w ∈ waits, 0 ≤ w.2) : ∀ w ∈ addWait kind duration waits, 0 ≤ w.2 := by
  induction waits with
  | nil =>
    intro w hw
    obtain rfl := List.mem_singleton.1 hw
    exact hduration
  | cons x waits ih =>
    obtain ⟨k', amount⟩ := x
    have hamount : 0 ≤ amount := h (k', amount) List.mem_cons_self
    have hrest := fun w hw => h w (List.mem_cons_of_mem _ hw)
    intro w hw
    rw [addWait] at hw
    split at hw
    · rcases List.mem_cons.1 hw with rfl | hw
      · exact add_nonneg hamount hduration
      · exact hrest w hw
    · rcases List.mem_cons.1 hw with rfl | hw
      · exact hamount
      · exact ih hrest w hw

theorem waited_addWait (kind : Text) (duration : ℚ) (waits : List (Text × ℚ)) (k : Text) :
    waited (addWait kind duration waits) k = waited waits k + if kind = k then duration else 0 := by
  unfold waited
  induction waits with
  | nil => by_cases hk : kind = k <;> simp [addWait, hk]
  | cons w waits ih =>
    obtain ⟨k', amount⟩ := w
    rw [addWait]
    split
    · rename_i heq
      subst heq
      by_cases hk : k' = k
      · simp [hk]
        ring
      · simp [hk]
    · by_cases hk : k' = k
      · simp only [List.filter_cons, hk, decide_true, if_true, List.map_cons, List.sum_cons, ih]
        ring
      · simp only [List.filter_cons, hk, decide_false, Bool.false_eq_true, if_false, ih]

theorem sum_addWait (kind : Text) (duration : ℚ) (waits : List (Text × ℚ)) :
    ((addWait kind duration waits).map (·.2)).sum = (waits.map (·.2)).sum + duration := by
  induction waits with
  | nil => simp [addWait]
  | cons w waits ih =>
    obtain ⟨k', amount⟩ := w
    rw [addWait]
    split
    · simp only [List.map_cons, List.sum_cons]
      ring
    · simp only [List.map_cons, List.sum_cons, ih]
      ring

/-- The length of the pieces with a property. -/
def lengthOf (f : Piece Category → Bool) (pieces : List (Piece Category)) : ℚ :=
  ((pieces.filter f).map fun piece => piece.right - piece.left).sum

/-- What the loop's totals are kept to be. -/
structure Kept (totals : Partition) : Prop where
  nodup : (totals.waits_by_kind.map (·.1)).Nodup
  nonneg : ∀ w ∈ totals.waits_by_kind, 0 ≤ w.2
  sum : (totals.waits_by_kind.map (·.2)).sum = totals.wait

theorem Kept.addPiece (h : Kept totals) (kinds : List Text) (piece : Piece Category) : Kept (addPiece kinds totals piece) := by
  have hamount := amount_addPiece kinds totals piece .wait
  have hwaits := waits_addPiece kinds totals piece
  unfold Partition.amount at hamount
  dsimp only at hamount
  split at hwaits
  · rename_i hwait
    rw [if_pos hwait] at hamount
    refine ⟨?_, ?_, ?_⟩
    · rw [hwaits]
      exact nodup_addWait _ _ h.nodup
    · rw [hwaits]
      exact nonneg_addWait (le_max_left _ _) _ h.nonneg
    · rw [hwaits, sum_addWait, h.sum, hamount]
  · rename_i hwait
    rw [if_neg hwait, add_zero] at hamount
    exact ⟨hwaits ▸ h.nodup, hwaits ▸ h.nonneg, by rw [hwaits, h.sum, hamount]⟩

/-- **What the loop adds up**: to each activity and to each kind of wait the length of its pieces. -/
theorem foldl_addPiece (kinds : List Text) {pieces : List (Piece Category)} (hlt : ∀ piece ∈ pieces, piece.left < piece.right) :
    ∀ totals, Kept totals →
      Kept (pieces.foldl (addPiece kinds) totals) ∧ (pieces.foldl (addPiece kinds) totals).wall = totals.wall ∧
      (∀ activity, (pieces.foldl (addPiece kinds) totals).amount activity =
        totals.amount activity + lengthOf (fun piece => activityOf kinds piece = activity) pieces) ∧
      ∀ kind, waited (pieces.foldl (addPiece kinds) totals).waits_by_kind kind = waited totals.waits_by_kind kind +
        lengthOf (fun piece => activityOf kinds piece = .wait ∧ kindOf kinds piece = kind) pieces := by
  induction pieces with
  | nil =>
    intro totals h
    exact ⟨h, rfl, fun _ => by simp [lengthOf], fun _ => by simp [lengthOf]⟩
  | cons piece pieces ih =>
    intro totals h
    have hpiece : max 0 (piece.right - piece.left) = piece.right - piece.left :=
      max_eq_right (sub_nonneg.2 (hlt piece List.mem_cons_self).le)
    obtain ⟨hkept, hwall, hamount, hwaited⟩ := ih (fun p hp => hlt p (List.mem_cons_of_mem _ hp))
      (Profile.addPiece kinds totals piece) (h.addPiece kinds piece)
    rw [List.foldl_cons]
    refine ⟨hkept, hwall.trans (wall_addPiece ..), fun activity => ?_, fun kind => ?_⟩
    · rw [hamount, amount_addPiece, hpiece]
      unfold lengthOf
      by_cases hactivity : activityOf kinds piece = activity
      · rw [List.filter_cons_of_pos (by simpa using hactivity), List.map_cons, List.sum_cons, if_pos hactivity]
        ring
      · rw [List.filter_cons_of_neg (by simpa using hactivity), if_neg hactivity, add_zero]
    · rw [hwaited, waits_addPiece, hpiece]
      unfold lengthOf
      by_cases hwait : activityOf kinds piece = .wait
      · rw [if_pos hwait, waited_addWait]
        by_cases hkind : kindOf kinds piece = kind
        · rw [List.filter_cons_of_pos (by simp [hwait, hkind]), List.map_cons, List.sum_cons, if_pos hkind]
          ring
        · rw [List.filter_cons_of_neg (by simp [hkind]), if_neg hkind, add_zero]
      · rw [if_neg hwait, List.filter_cons_of_neg (by simp [hwait])]

/-! ## What is swept over -/

theorem mem_intervals {i : Interval Category} : i ∈ intervals spans ↔
    (∃ span ∈ spans, _span_category span (parentKeys spans) = some i.label ∧ span.start_ts < span.end_ts ∧
      i.start = span.start_ts ∧ i.stop = span.end_ts) ∨
    i.label = .resume_gap ∧ (i.start, i.stop) ∈ _resume_intervals spans := by
  unfold intervals
  rw [List.mem_append, List.mem_filterMap, List.mem_map]
  refine or_congr ⟨?_, ?_⟩ ⟨?_, ?_⟩
  · rintro ⟨span, hspan, hsome⟩
    obtain ⟨category, hcategory, hsome⟩ := Option.bind_eq_some_iff.1 hsome
    split at hsome
    · rename_i hlt
      rw [← Option.some.inj hsome]
      exact ⟨span, hspan, hcategory, hlt, rfl, rfl⟩
    · cases hsome
  · rintro ⟨span, hspan, hcategory, hlt, hstart, hstop⟩
    refine ⟨span, hspan, Option.bind_eq_some_iff.2 ⟨i.label, hcategory, ?_⟩⟩
    rw [if_pos hlt, ← hstart, ← hstop]
  · rintro ⟨gap, hgap, rfl⟩
    exact ⟨rfl, hgap⟩
  · rintro ⟨hlabel, hgap⟩
    exact ⟨(i.start, i.stop), hgap, by rw [← hlabel]⟩

theorem gaps_lt {sessions : List Session} : ∀ gap ∈ gaps sessions, gap.1 < gap.2 := by
  fun_induction gaps sessions with
  | case1 previous current rest hgap ih =>
    intro gap hmem
    rcases List.mem_cons.1 hmem with rfl | hmem
    · exact hgap.1
    · exact ih gap hmem
  | case2 previous current rest hgap ih => exact ih
  | case3 sessions hshort => exact fun gap hmem => (nomatch hmem)

theorem intervals_lt : ∀ i ∈ intervals spans, i.start < i.stop := by
  intro i hi
  rcases mem_intervals.1 hi with ⟨span, -, -, hlt, hstart, hstop⟩ | ⟨-, hgap⟩
  · rw [hstart, hstop]
    exact hlt
  · exact gaps_lt _ hgap

/-- An interval is on where a span of its category is open, or in a gap. -/
theorem on_iff {category : Category} : Sweep.On (intervals spans) category t ↔
    (Open spans category t ∨ category = .resume_gap ∧ Active spans t .resume_gap) := by
  constructor
  · rintro ⟨i, hi, rfl, hstart, hstop⟩
    rcases mem_intervals.1 hi with ⟨span, hspan, hcategory, -, hs, he⟩ | ⟨hlabel, hgap⟩
    · exact .inl ⟨span, hspan, hcategory, hs ▸ hstart, he ▸ hstop⟩
    · exact .inr ⟨hlabel, (i.start, i.stop), hgap, hstart, hstop⟩
  · rintro (⟨span, hspan, hcategory, hstart, hstop⟩ | ⟨rfl, gap, hgap, hstart, hstop⟩)
    · have hlt : span.start_ts < span.end_ts := by exact_mod_cast hstart.trans_lt hstop
      exact ⟨⟨span.start_ts, span.end_ts, category⟩, mem_intervals.2 (.inl ⟨span, hspan, hcategory, hlt, rfl, rfl⟩), rfl, hstart, hstop⟩
    · exact ⟨⟨gap.1, gap.2, .resume_gap⟩, mem_intervals.2 (.inr ⟨rfl, hgap⟩), rfl, hstart, hstop⟩

/-- No span is a resume gap. -/
theorem category_ne_gap (span : Span) (keys : List (Text × Text)) : _span_category span keys ≠ some .resume_gap := by
  unfold _span_category
  split_ifs <;> simp

theorem mem_points {x : ℚ} : x ∈ points spans start stop ↔
    x = start ∨ x = stop ∨ ∃ i ∈ intervals spans, x = i.start ∨ x = i.stop := by
  unfold points
  rw [List.mem_insertionSort, List.mem_dedup, List.mem_cons, List.mem_cons, List.mem_flatMap]
  simp only [List.mem_cons, List.not_mem_nil, or_false]

theorem points_sorted (spans : List Span) (start stop : ℚ) : (points spans start stop).Pairwise (· < ·) := by
  have hle := List.pairwise_insertionSort (fun a b : ℚ => a ≤ b)
    ((start :: stop :: (intervals spans).flatMap fun i => [i.start, i.stop]).dedup)
  have hnodup : (points spans start stop).Nodup :=
    (List.perm_insertionSort _ _).nodup_iff.2 (List.nodup_dedup _)
  exact (hle.and hnodup).imp fun h => lt_of_le_of_ne h.1 h.2

/-- The pieces of the sweep. -/
def swept (spans : List Span) (start stop : ℚ) : List (Piece Category) :=
  Sweep.pieces ((intervals spans).flatMap Interval.changes) (fun _ => 0) (points spans start stop)

theorem swept_lt : ∀ piece ∈ swept spans start stop, piece.left < piece.right :=
  Sweep.pieces_lt _ _ (points_sorted spans start stop)

theorem active_swept {category : Category} (hpiece : piece ∈ swept spans start stop) (hleft : (piece.left : ℝ) ≤ t)
    (hright : t < piece.right) : 0 < piece.active category ↔ Sweep.On (intervals spans) category t :=
  Sweep.active_pos_iff intervals_lt (points_sorted spans start stop)
    (fun i hi => ⟨mem_points.2 (.inr (.inr ⟨i, hi, .inl rfl⟩)), mem_points.2 (.inr (.inr ⟨i, hi, .inr rfl⟩))⟩) hpiece hleft hright
    category

/-! ## A piece and its instants -/

theorem mem_wait_kinds (hpiece : piece ∈ swept spans start stop) (hleft : (piece.left : ℝ) ≤ t) (hright : t < piece.right) :
    kind ∈ wait_kinds (waitKinds (intervals spans)) piece ↔ Open spans (.wait kind) t := by
  have hactive : 0 < piece.active (.wait kind) ↔ Sweep.On (intervals spans) (.wait kind) t := active_swept hpiece hleft hright
  have hopen : Sweep.On (intervals spans) (.wait kind) t ↔ Open spans (.wait kind) t := by
    rw [on_iff]
    exact or_iff_left fun h => (nomatch h.1)
  unfold wait_kinds
  rw [List.mem_insertionSort, List.mem_filter, decide_eq_true_eq, gt_iff_lt, hactive, hopen]
  refine and_iff_right_of_imp fun h => ?_
  -- an open span of the kind is swept over, so the kind is known
  obtain ⟨i, hi, hlabel, -⟩ := hopen.2 h
  unfold waitKinds
  rw [List.mem_dedup, List.mem_filterMap]
  exact ⟨i, hi, by rw [hlabel]⟩

theorem active_iff_open {category : Category} {activity : Activity} (hgap : activity ≠ .resume_gap) (hwait : activity ≠ .wait)
    (hcategory : category.activity = activity) : Active spans t activity ↔ Open spans category t := by
  have honly : ∀ other : Category, other.activity = activity → other = category := by
    intro other hother
    subst hcategory
    cases other <;> cases category <;> simp_all [Category.activity]
  cases category with
  | resume_gap => exact absurd hcategory.symm hgap
  | wait k => exact absurd hcategory.symm hwait
  | agent | infra | deterministic =>
    subst hcategory
    constructor
    · rintro ⟨other, hother, hopen⟩
      exact honly other hother ▸ hopen
    · exact fun h => ⟨_, rfl, h⟩

/-- At most one activity is the highest one. -/
theorem Highest.unique {a b : Activity} (ha : Highest spans t a) (hb : Highest spans t b) : a = b := by
  have hrank : a.rank = b.rank := by
    rcases lt_trichotomy a.rank b.rank with h | h | h
    · exact absurd ha.1 (hb.2 a h)
    · exact h
    · exact absurd hb.1 (ha.2 b h)
  cases a <;> cases b <;> first | rfl | exact absurd hrank (by decide)

theorem highest_activityOf (hpiece : piece ∈ swept spans start stop) (hleft : (piece.left : ℝ) ≤ t) (hright : t < piece.right) :
    Highest spans t (activityOf (waitKinds (intervals spans)) piece) := by
  have hcounter : ∀ category : Category, piece.active category > 0 ↔ Sweep.On (intervals spans) category t :=
    fun category => active_swept hpiece hleft hright
  have hgap : piece.active .resume_gap > 0 ↔ Active spans t .resume_gap := by
    rw [hcounter, on_iff]
    constructor
    · rintro (⟨span, -, hcategory, -⟩ | ⟨-, h⟩)
      · exact absurd hcategory (category_ne_gap span _)
      · exact h
    · exact fun h => .inr ⟨rfl, h⟩
  have hwait : (wait_kinds (waitKinds (intervals spans)) piece).length > 0 ↔ Active spans t .wait := by
    rw [gt_iff_lt, List.length_pos_iff_exists_mem]
    constructor
    · rintro ⟨kind, hkind⟩
      exact ⟨.wait kind, rfl, (mem_wait_kinds hpiece hleft hright).1 hkind⟩
    · rintro ⟨category, hcategory, hopen⟩
      cases category with
      | wait kind => exact ⟨kind, (mem_wait_kinds hpiece hleft hright).2 hopen⟩
      | resume_gap | agent | infra | deterministic => exact absurd hcategory (by decide)
  have hother : ∀ category : Category, category.activity ≠ .resume_gap → category.activity ≠ .wait →
      (piece.active category > 0 ↔ Active spans t category.activity) := by
    intro category h1 h2
    rw [hcounter, on_iff, active_iff_open h1 h2 rfl]
    exact or_iff_left fun h => h1 (h.1 ▸ rfl)
  have hagent : piece.active .agent > 0 ↔ Active spans t .agent := hother .agent (by decide) (by decide)
  have hinfra : piece.active .infra > 0 ↔ Active spans t .infra := hother .infra (by decide) (by decide)
  have hdeterministic : piece.active .deterministic > 0 ↔ Active spans t .deterministic :=
    hother .deterministic (by decide) (by decide)
  have hnot : ∀ {p : Prop} {active : Prop}, (p ↔ active) → ¬ p → ¬ active := fun hiff hp => mt hiff.2 hp
  unfold activityOf
  split_ifs with h0 h1 h2 h3 h4
  · exact ⟨hgap.1 h0, fun other hlt => absurd hlt (by cases other <;> decide)⟩
  · have := hnot hgap h0
    exact ⟨hwait.1 h1, fun other hlt => by cases other <;> first | assumption | exact absurd hlt (by decide)⟩
  · have := hnot hgap h0
    have := hnot hwait h1
    exact ⟨hagent.1 h2, fun other hlt => by cases other <;> first | assumption | exact absurd hlt (by decide)⟩
  · have := hnot hgap h0
    have := hnot hwait h1
    have := hnot hagent h2
    exact ⟨hinfra.1 h3, fun other hlt => by cases other <;> first | assumption | exact absurd hlt (by decide)⟩
  · have := hnot hgap h0
    have := hnot hwait h1
    have := hnot hagent h2
    have := hnot hinfra h3
    exact ⟨hdeterministic.1 h4, fun other hlt => by cases other <;> first | assumption | exact absurd hlt (by decide)⟩
  · have := hnot hgap h0
    have := hnot hwait h1
    have := hnot hagent h2
    have := hnot hinfra h3
    have := hnot hdeterministic h4
    exact ⟨trivial, fun other hlt => by cases other <;> first | assumption | exact absurd hlt (by decide)⟩

theorem highest_iff (hpiece : piece ∈ swept spans start stop) (hleft : (piece.left : ℝ) ≤ t) (hright : t < piece.right) :
    Highest spans t activity ↔ activityOf (waitKinds (intervals spans)) piece = activity :=
  ⟨fun h => (highest_activityOf hpiece hleft hright).unique h, fun h => h ▸ highest_activityOf hpiece hleft hright⟩

theorem counted_iff (hpiece : piece ∈ swept spans start stop) (hleft : (piece.left : ℝ) ≤ t) (hright : t < piece.right) :
    Counted spans t kind ↔ activityOf (waitKinds (intervals spans)) piece = .wait ∧
      kindOf (waitKinds (intervals spans)) piece = kind := by
  unfold Counted
  rw [highest_iff hpiece hleft hright]
  refine and_congr_right fun hwait => ?_
  have hmem : ∀ k, k ∈ wait_kinds (waitKinds (intervals spans)) piece ↔ Open spans (.wait k) t :=
    fun k => mem_wait_kinds hpiece hleft hright
  have hnodup : (wait_kinds (waitKinds (intervals spans)) piece).Nodup := by
    unfold wait_kinds waitKinds
    exact (List.perm_insertionSort _ _).nodup_iff.2 ((List.nodup_dedup _).filter _)
  simp only [← hmem]
  unfold kindOf
  cases hkinds : wait_kinds (waitKinds (intervals spans)) piece with
  | nil =>
    -- the piece is waited for some kind
    have hnone : ¬ (wait_kinds (waitKinds (intervals spans)) piece).length > 0 := by rw [hkinds]; decide
    unfold activityOf at hwait
    rw [if_neg hnone] at hwait
    split_ifs at hwait
  | cons k rest =>
    rw [hkinds] at hnodup
    cases rest with
    | nil =>
      constructor
      · rintro (h | ⟨-, k1, k2, hne, h1, h2⟩)
        · exact (h k).1 List.mem_cons_self
        · exact absurd ((List.mem_singleton.1 h1).trans (List.mem_singleton.1 h2).symm) hne
      · rintro rfl
        exact .inl fun k' => List.mem_singleton
    | cons k' rest =>
      have hne : k ≠ k' := fun heq => (List.nodup_cons.1 hnodup).1 (heq ▸ List.mem_cons_self)
      have hk : k ∈ k :: k' :: rest := List.mem_cons_self
      have hk' : k' ∈ k :: k' :: rest := List.mem_cons_of_mem _ List.mem_cons_self
      constructor
      · rintro (h | ⟨heq, -⟩)
        · exact absurd (((h k).1 hk).trans ((h k').1 hk').symm) hne
        · exact heq.symm
      · exact fun heq => .inr ⟨heq.symm, k, k', hne, hk, hk'⟩

/-! ## The window -/

theorem Window.start_le (h : Window spans start stop) {span : Span} (hspan : span ∈ spans) : start ≤ span.start_ts :=
  (List.min?_eq_some_iff.1 h.start).2 _ (List.mem_map_of_mem hspan)

theorem Window.le_stop (h : Window spans start stop) {span : Span} (hspan : span ∈ spans) : span.end_ts ≤ stop :=
  (List.max?_eq_some_iff.1 h.stop).2 _ (List.mem_map_of_mem hspan)

/-- The points, from the first to the last. -/
theorem points_ends (spans : List Span) (start stop : ℚ) : ∃ first rest, points spans start stop = first :: rest ∧
    ∀ x ∈ points spans start stop, first ≤ x ∧ x ≤ (first :: rest).getLast (List.cons_ne_nil _ _) := by
  have hsorted := points_sorted spans start stop
  cases hpoints : points spans start stop with
  | nil =>
    have hstart : start ∈ points spans start stop := mem_points.2 (.inl rfl)
    rw [hpoints] at hstart
    cases hstart
  | cons first rest =>
    rw [hpoints] at hsorted
    refine ⟨first, rest, rfl, fun x hx => ⟨?_, ?_⟩⟩
    · rcases List.mem_cons.1 hx with rfl | hx
      · exact le_refl _
      · exact ((List.pairwise_cons.1 hsorted).1 x hx).le
    · exact (hsorted.imp le_of_lt).rel_getLast hx

/-- In a window that holds everything, the points go from its start to its end. -/
theorem points_inside (h : Window spans start stop) (hinside : Inside spans start stop) :
    ∃ rest, points spans start stop = start :: rest ∧ (start :: rest).getLast (List.cons_ne_nil _ _) = stop := by
  obtain ⟨first, rest, hpoints, hends⟩ := points_ends spans start stop
  have hwithin : ∀ x ∈ points spans start stop, start ≤ x ∧ x ≤ stop := by
    intro x hx
    obtain ⟨hle, hgaps⟩ := hinside
    rcases mem_points.1 hx with rfl | rfl | ⟨i, hi, hx⟩
    · exact ⟨le_refl _, hle⟩
    · exact ⟨hle, le_refl _⟩
    · have hlt := intervals_lt i hi
      have hboth : start ≤ i.start ∧ i.stop ≤ stop := by
        rcases mem_intervals.1 hi with ⟨span, hspan, -, -, hs, he⟩ | ⟨-, hgap⟩
        · exact ⟨hs ▸ h.start_le hspan, he ▸ h.le_stop hspan⟩
        · exact hgaps _ hgap
      rcases hx with rfl | rfl
      · exact ⟨hboth.1, hlt.le.trans hboth.2⟩
      · exact ⟨hboth.1.trans hlt.le, hboth.2⟩
  have hfirst : first = start :=
    le_antisymm (hends start (mem_points.2 (.inl rfl))).1 (hwithin first (hpoints ▸ List.mem_cons_self)).1
  subst hfirst
  refine ⟨rest, hpoints, le_antisymm ?_ (hends stop (mem_points.2 (.inr (.inl rfl)))).2⟩
  have hlast : (first :: rest).getLast (List.cons_ne_nil _ _) ∈ points spans first stop := by
    rw [hpoints]
    exact List.getLast_mem _
  exact (hwithin _ hlast).2

/-! ## The amounts -/

theorem lengthOf_activities (kinds : List Text) (pieces : List (Piece Category)) :
    lengthOf (fun piece => activityOf kinds piece = .resume_gap) pieces + lengthOf (fun piece => activityOf kinds piece = .wait) pieces +
      lengthOf (fun piece => activityOf kinds piece = .agent) pieces + lengthOf (fun piece => activityOf kinds piece = .infra) pieces +
      lengthOf (fun piece => activityOf kinds piece = .deterministic) pieces +
      lengthOf (fun piece => activityOf kinds piece = .unclassified) pieces =
        (pieces.map fun piece => piece.right - piece.left).sum := by
  unfold lengthOf
  induction pieces with
  | nil => simp
  | cons piece pieces ih =>
    rw [List.map_cons, List.sum_cons, ← ih]
    cases hactivity : activityOf kinds piece <;> simp [hactivity] <;> ring

theorem lengthOf_nonneg {pieces : List (Piece Category)} (hlt : ∀ piece ∈ pieces, piece.left < piece.right)
    (f : Piece Category → Bool) : 0 ≤ lengthOf f pieces := by
  refine List.sum_nonneg fun x hx => ?_
  obtain ⟨piece, hpiece, rfl⟩ := List.mem_map.1 hx
  exact sub_nonneg.2 (hlt piece (List.mem_filter.1 hpiece).1).le

/-- What the function answers. -/
structure Answer (spans : List Span) (start stop : ℚ) (p : Partition) : Prop where
  wall : p.wall = max 0 (stop - start)
  kept : Kept p
  amounts : ∀ activity, p.amount activity =
    lengthOf (fun piece => activityOf (waitKinds (intervals spans)) piece = activity) (swept spans start stop)
  waits : ∀ kind, waited p.waits_by_kind kind = lengthOf (fun piece => activityOf (waitKinds (intervals spans)) piece = .wait ∧
    kindOf (waitKinds (intervals spans)) piece = kind) (swept spans start stop)

theorem answer (spans : List Span) (start stop : ℚ) : Answer spans start stop (_profile_time_partition spans start stop) := by
  have hempty : Kept ⟨max 0 (stop - start), 0, 0, 0, 0, [], 0, 0⟩ := ⟨List.nodup_nil, fun _ hw => (nomatch hw), rfl⟩
  have hlt : ∀ piece ∈ swept spans start stop, piece.left < piece.right := swept_lt
  obtain ⟨hkept, hwall, hamount, hwaited⟩ :=
    foldl_addPiece (waitKinds (intervals spans)) hlt _ hempty
  unfold _profile_time_partition
  -- sorting keeps what the table of waits has
  have hperm := fun waits : List (Text × ℚ) => List.perm_insertionSort (fun a b : Text × ℚ => a.1 ≤ b.1) waits
  refine ⟨hwall, ⟨?_, ?_, ?_⟩, fun activity => ?_, fun kind => ?_⟩
  · exact ((hperm _).map _).nodup_iff.2 hkept.nodup
  · exact fun w hw => hkept.nonneg w ((hperm _).mem_iff.1 hw)
  · exact ((hperm _).map _).sum_eq.trans hkept.sum
  · have hzero : Partition.amount ⟨max 0 (stop - start), 0, 0, 0, 0, [], 0, 0⟩ activity = 0 := by cases activity <;> rfl
    have hsum := hamount activity
    rw [hzero, zero_add] at hsum
    cases activity <;> exact hsum
  · have hsum := hwaited kind
    have hsorted : ∀ waits : List (Text × ℚ), waited (waits.insertionSort fun a b => a.1 ≤ b.1) kind = waited waits kind :=
      fun waits => (((hperm waits).filter _).map _).sum_eq
    dsimp only
    rw [hsorted, show waited ([] : List (Text × ℚ)) kind = 0 from rfl, zero_add] at *
    exact hsum

theorem Answer.total {p : Partition} (h : Answer spans start stop p) :
    p.resume_gap + p.wait + p.agent + p.infra + p.deterministic + p.unclassified =
      ((swept spans start stop).map fun piece => piece.right - piece.left).sum := by
  have hsum := lengthOf_activities (waitKinds (intervals spans)) (swept spans start stop)
  rw [← h.amounts, ← h.amounts, ← h.amounts, ← h.amounts, ← h.amounts, ← h.amounts] at hsum
  exact hsum

theorem Answer.exact {p : Partition} (hp : Answer spans start stop p) (h : Window spans start stop) (hinside : Inside spans start stop) :
    Exact spans start stop p := by
  obtain ⟨rest, hpoints, hlast⟩ := points_inside h hinside
  have hsorted := points_sorted spans start stop
  rw [hpoints] at hsorted
  have hswept : swept spans start stop = Sweep.pieces ((intervals spans).flatMap Interval.changes) (fun _ => 0) (start :: rest) := by
    unfold swept
    rw [hpoints]
  have hvolume : ∀ (P : ℝ → Prop) (f : Piece Category → Bool),
      (∀ piece ∈ swept spans start stop, ∀ t : ℝ, piece.left ≤ t → t < piece.right → (P t ↔ f piece = true)) →
      MeasureTheory.volume (instants start stop P) = ENNReal.ofReal (lengthOf f (swept spans start stop) : ℚ) := by
    intro P f hP
    rw [hswept] at hP ⊢
    have hvolume := Sweep.volume_pieces start rest (fun _ => 0) hsorted hP
    rw [hlast] at hvolume
    exact hvolume
  refine ⟨fun activity => ?_, ?_, ⟨hp.kept.nodup, hp.kept.nonneg, hp.kept.sum⟩, fun activity => ?_, fun kind => ?_⟩
  · rw [hp.amounts]
    exact lengthOf_nonneg swept_lt _
  · rw [hp.total, hp.wall, hswept, Sweep.sum_pieces, hlast, max_eq_right (sub_nonneg.2 hinside.1)]
  · rw [hp.amounts]
    refine hvolume _ _ fun piece hpiece t hleft hright => ?_
    rw [highest_iff hpiece hleft hright, decide_eq_true_eq]
  · rw [hp.waits]
    refine hvolume _ _ fun piece hpiece t hleft hright => ?_
    rw [counted_iff hpiece hleft hright, decide_eq_true_eq]

/-- Where the amounts sum to the wall time, nothing reaches out of the window. -/
theorem Answer.inside {p : Partition} (hp : Answer spans start stop p)
    (hwall : p.resume_gap + p.wait + p.agent + p.infra + p.deterministic + p.unclassified = p.wall) : Inside spans start stop := by
  obtain ⟨first, rest, hpoints, hends⟩ := points_ends spans start stop
  have hsum := hp.total
  unfold swept at hsum
  rw [hwall, hp.wall, hpoints, Sweep.sum_pieces] at hsum
  have hstart := hends start (mem_points.2 (.inl rfl))
  have hstop := hends stop (mem_points.2 (.inr (.inl rfl)))
  have hle : start ≤ stop := by
    by_contra hlt
    rw [max_eq_left (by linarith)] at hsum
    linarith [hstart.2, hstop.1]
  rw [max_eq_right (sub_nonneg.2 hle)] at hsum
  have hfirst : start ≤ first := by linarith [hstop.2]
  have hlast : (first :: rest).getLast (List.cons_ne_nil _ _) ≤ stop := by linarith [hstart.1]
  refine ⟨hle, fun gap hgap => ?_⟩
  have hmem : (⟨gap.1, gap.2, .resume_gap⟩ : Interval Category) ∈ intervals spans := mem_intervals.2 (.inr ⟨rfl, hgap⟩)
  exact ⟨hfirst.trans (hends gap.1 (mem_points.2 (.inr (.inr ⟨_, hmem, .inl rfl⟩)))).1,
    (hends gap.2 (mem_points.2 (.inr (.inr ⟨_, hmem, .inr rfl⟩)))).2.trans hlast⟩

/-- The amounts are what they should be exactly in a window that nothing reaches out of. -/
theorem exact_iff (h : Window spans start stop) :
    Exact spans start stop (_profile_time_partition spans start stop) ↔ Inside spans start stop :=
  ⟨fun hexact => (answer spans start stop).inside hexact.wall, fun hinside => (answer spans start stop).exact h hinside⟩

/-! ## A covered span -/

theorem Covered.open_of (h : Covered spans spans' extra) {category : Category} (hopen : Open spans category t) :
    Open spans' category t := by
  obtain ⟨span, hspan, hcategory, hwhen⟩ := hopen
  exact ⟨span, h.perm.mem_iff.2 (List.mem_cons_of_mem _ hspan), (h.categories span hspan).trans hcategory, hwhen⟩

/-- A span that is open is open without the extra one, or something higher is active. -/
theorem Covered.open_or (h : Covered spans spans' extra) {category : Category} (hopen : Open spans' category t) :
    Open spans category t ∨ ∃ activity, activity.rank < category.activity.rank ∧ Active spans t activity := by
  obtain ⟨span, hspan, hcategory, hstart, hstop⟩ := hopen
  rcases List.mem_cons.1 (h.perm.mem_iff.1 hspan) with rfl | hspan
  · obtain ⟨own, hown, habove⟩ := h.above
    obtain rfl := Option.some.inj (hown.symm.trans hcategory)
    exact .inr (habove t hstart hstop)
  · exact .inl ⟨span, hspan, (h.categories span hspan).symm.trans hcategory, hstart, hstop⟩

theorem Covered.active_of (h : Covered spans spans' extra) (hactive : Active spans t activity) : Active spans' t activity := by
  cases activity with
  | resume_gap =>
    unfold Active
    rw [h.gaps]
    exact hactive
  | unclassified => trivial
  | wait | agent | infra | deterministic =>
    obtain ⟨category, hcategory, hopen⟩ := hactive
    exact ⟨category, hcategory, h.open_of hopen⟩

theorem Covered.active_or (h : Covered spans spans' extra) (hactive : Active spans' t activity) :
    Active spans t activity ∨ ∃ other, other.rank < activity.rank ∧ Active spans t other := by
  cases activity with
  | resume_gap =>
    unfold Active at hactive
    rw [h.gaps] at hactive
    exact .inl hactive
  | unclassified => exact .inl trivial
  | wait | agent | infra | deterministic =>
    obtain ⟨category, hcategory, hopen⟩ := hactive
    rcases h.open_or hopen with hopen | habove
    · exact .inl ⟨category, hcategory, hopen⟩
    · exact .inr (hcategory ▸ habove)

theorem Covered.highest_iff (h : Covered spans spans' extra) : Highest spans' t activity ↔ Highest spans t activity := by
  constructor
  · rintro ⟨hactive, hnone⟩
    refine ⟨?_, fun other hlt hother => hnone other hlt (h.active_of hother)⟩
    rcases h.active_or hactive with hactive | ⟨other, hlt, hother⟩
    · exact hactive
    · exact absurd (h.active_of hother) (hnone other hlt)
  · rintro ⟨hactive, hnone⟩
    refine ⟨h.active_of hactive, fun other hlt hother => ?_⟩
    rcases h.active_or hother with hother | ⟨higher, hlt', hhigher⟩
    · exact hnone other hlt hother
    · exact hnone higher (hlt'.trans hlt) hhigher

theorem Covered.counted_iff (h : Covered spans spans' extra) : Counted spans' t kind ↔ Counted spans t kind := by
  unfold Counted
  rw [h.highest_iff]
  refine and_congr_right fun hwait => ?_
  -- what is above a wait is not active here, so that the same waits are open
  have hopen : ∀ k, Open spans' (.wait k) t ↔ Open spans (.wait k) t := by
    intro k
    refine ⟨fun hopen => ?_, h.open_of⟩
    rcases h.open_or hopen with hopen | ⟨other, hlt, hother⟩
    · exact hopen
    · exact absurd hother (hwait.2 other hlt)
  simp only [hopen]

/-- What is active above some category is so in the window. -/
theorem Window.of_active (h : Window spans start stop) (hinside : Inside spans start stop) {category : Category}
    (hlt : activity.rank < category.activity.rank) (hactive : Active spans t activity) : (start : ℝ) ≤ t ∧ t < stop := by
  have hspan : ∀ other, Open spans other t → (start : ℝ) ≤ t ∧ t < stop := by
    rintro other ⟨span, hspan, -, hstart, hstop⟩
    have h1 : (start : ℝ) ≤ span.start_ts := by exact_mod_cast h.start_le hspan
    have h2 : (span.end_ts : ℝ) ≤ stop := by exact_mod_cast h.le_stop hspan
    exact ⟨h1.trans hstart, hstop.trans_le h2⟩
  cases activity with
  | resume_gap =>
    obtain ⟨gap, hgap, hstart, hstop⟩ := hactive
    have h1 : (start : ℝ) ≤ gap.1 := by exact_mod_cast (hinside.2 gap hgap).1
    have h2 : (gap.2 : ℝ) ≤ stop := by exact_mod_cast (hinside.2 gap hgap).2
    exact ⟨h1.trans hstart, hstop.trans_le h2⟩
  | unclassified => exact absurd hlt (by cases category <;> simp [Activity.rank, Category.activity])
  | wait | agent | infra | deterministic =>
    obtain ⟨other, -, hopen⟩ := hactive
    exact hspan other hopen

theorem Covered.window (h : Covered spans spans' extra) (hwindow : Window spans start stop) (hinside : Inside spans start stop) :
    Window spans' start stop := by
  obtain ⟨category, -, habove⟩ := h.above
  have hlasts : (extra.start_ts : ℝ) < extra.end_ts := by exact_mod_cast h.lasts
  have hwithin : ∀ t : ℝ, extra.start_ts ≤ t → t < extra.end_ts → (start : ℝ) ≤ t ∧ t < stop := by
    intro t hstart hstop
    obtain ⟨activity, hlt, hactive⟩ := habove t hstart hstop
    exact hwindow.of_active hinside hlt hactive
  have hstart : start ≤ extra.start_ts := by exact_mod_cast (hwithin extra.start_ts (le_refl _) hlasts).1
  have hstop : extra.end_ts ≤ stop := by
    by_contra hlt
    have hlt : (stop : ℝ) < extra.end_ts := by exact_mod_cast not_le.1 hlt
    exact absurd (hwithin (max stop extra.start_ts) (le_max_right _ _) (max_lt hlt hlasts)).2 (not_lt.2 (le_max_left _ _))
  constructor
  · refine List.min?_eq_some_iff.2 ⟨?_, fun x hx => ?_⟩
    · obtain ⟨span, hspan, heq⟩ := List.mem_map.1 (List.min?_eq_some_iff.1 hwindow.start).1
      exact List.mem_map.2 ⟨span, h.perm.mem_iff.2 (List.mem_cons_of_mem _ hspan), heq⟩
    · obtain ⟨span, hspan, rfl⟩ := List.mem_map.1 hx
      rcases List.mem_cons.1 (h.perm.mem_iff.1 hspan) with rfl | hspan
      · exact hstart
      · exact hwindow.start_le hspan
  · refine List.max?_eq_some_iff.2 ⟨?_, fun x hx => ?_⟩
    · obtain ⟨span, hspan, heq⟩ := List.mem_map.1 (List.max?_eq_some_iff.1 hwindow.stop).1
      exact List.mem_map.2 ⟨span, h.perm.mem_iff.2 (List.mem_cons_of_mem _ hspan), heq⟩
    · obtain ⟨span, hspan, rfl⟩ := List.mem_map.1 hx
      rcases List.mem_cons.1 (h.perm.mem_iff.1 hspan) with rfl | hspan
      · exact hstop
      · exact hwindow.le_stop hspan

/-- Lengths that are equal as measures are equal. -/
theorem ofReal_rat_inj {a b : ℚ} (ha : 0 ≤ a) (hb : 0 ≤ b) (h : ENNReal.ofReal (a : ℝ) = ENNReal.ofReal (b : ℝ)) : a = b := by
  have := (ENNReal.ofReal_eq_ofReal_iff (by exact_mod_cast ha) (by exact_mod_cast hb)).1 h
  exact_mod_cast this

theorem waited_nonneg {waits : List (Text × ℚ)} (h : ∀ w ∈ waits, 0 ≤ w.2) (kind : Text) : 0 ≤ waited waits kind := by
  refine List.sum_nonneg fun x hx => ?_
  obtain ⟨w, hw, rfl⟩ := List.mem_map.1 hx
  exact h w (List.mem_filter.1 hw).1

/-- The two answers agree in every amount and in every kind of wait. -/
structure Same (p p' : Partition) : Prop where
  wall : p'.wall = p.wall
  amounts : ∀ activity, p'.amount activity = p.amount activity
  waits : ∀ kind, waited p'.waits_by_kind kind = waited p.waits_by_kind kind

/-- **The wall time is partitioned exactly** where the window does not end before it starts and no resume
gap reaches out of it, and a span that is added where higher activities are active changes no amount. -/
theorem partition_exact (spans : List Span) (start stop : ℚ) (hwindow : Window spans start stop) (hinside : Inside spans start stop) :
    Exact spans start stop (_profile_time_partition spans start stop) ∧
    ∀ spans' extra, Covered spans spans' extra → Window spans' start stop ∧
      Same (_profile_time_partition spans start stop) (_profile_time_partition spans' start stop) := by
  have hexact := (exact_iff hwindow).2 hinside
  refine ⟨hexact, fun spans' extra h => ?_⟩
  have hwindow' := h.window hwindow hinside
  have hinside' : Inside spans' start stop := ⟨hinside.1, fun gap hgap => hinside.2 gap (h.gaps ▸ hgap)⟩
  have hexact' := (exact_iff hwindow').2 hinside'
  refine ⟨hwindow', ?_, fun activity => ?_, fun kind => ?_⟩
  · rw [(answer spans' start stop).wall, (answer spans start stop).wall]
  · refine ofReal_rat_inj (hexact'.nonneg activity) (hexact.nonneg activity) ?_
    rw [← hexact'.lengths, ← hexact.lengths]
    simp only [h.highest_iff]
  · refine ofReal_rat_inj (waited_nonneg hexact'.kinds.2.1 kind) (waited_nonneg hexact.kinds.2.1 kind) ?_
    rw [← hexact'.waits, ← hexact.waits]
    simp only [h.counted_iff]

/-! ## Runs -/

/-- Two sessions of a run, with a gate that waits while a step is open, and a turn that ends before it starts. -/
def resumed : List Span := [
  { span_id := "1".toList, trace_id := "a".toList, parent_id := [], node := "plan".toList, workflow := "dev".toList,
    name := "plan".toList, start_ts := 0, end_ts := 10, resume_generation := some 1 },
  { span_id := "2".toList, trace_id := "a".toList, parent_id := [], node := "gate".toList, workflow := "dev".toList,
    name := "gate".toList, start_ts := 2, end_ts := 8, span_kind := "wait".toList, wait_kind := "operator".toList },
  { span_id := "3".toList, trace_id := "b".toList, parent_id := [], node := "code".toList, workflow := "dev".toList,
    name := "agent_turn".toList, start_ts := 15, end_ts := 14, resume_generation := some 2 },
  { span_id := "4".toList, trace_id := "b".toList, parent_id := [], node := "test".toList, workflow := "dev".toList,
    name := "test".toList, start_ts := 15, end_ts := 20 }]

/-- A step inside of the gate. -/
def inGate : Span :=
  { span_id := "5".toList, trace_id := "a".toList, parent_id := [], node := "poll".toList, workflow := "dev".toList,
    name := "poll".toList, start_ts := 3, end_ts := 4 }

theorem partition_exact_resumed : Exact resumed 0 20 (_profile_time_partition resumed 0 20) ∧
    Same (_profile_time_partition resumed 0 20) (_profile_time_partition (inGate :: resumed) 0 20) := by
  obtain ⟨hexact, hcovered⟩ := partition_exact resumed 0 20 ⟨by decide, by decide⟩ ⟨by decide, by decide⟩
  refine ⟨hexact, (hcovered (inGate :: resumed) inGate ⟨List.Perm.refl _, by decide, by decide, by decide, ?_⟩).2⟩
  refine ⟨.deterministic, by decide, fun t hstart hstop => ⟨.wait, by decide, .wait "operator".toList, rfl, ?_⟩⟩
  refine ⟨resumed.get ⟨1, by decide⟩, List.get_mem _ _, by decide, ?_, ?_⟩
  · have : (inGate.start_ts : ℝ) = 3 := by norm_num [inGate]
    norm_num [resumed]
    linarith
  · have : (inGate.end_ts : ℝ) = 4 := by norm_num [inGate]
    norm_num [resumed]
    linarith

/-- A span that ends before it starts, on its own. -/
def backwards : Span :=
  { span_id := "1".toList, trace_id := "a".toList, parent_id := [], node := "plan".toList, workflow := "dev".toList,
    name := "plan".toList, start_ts := 5, end_ts := 3 }

/-- A step, a gate in it, and a step below it. -/
def outer : Span :=
  { span_id := "1".toList, trace_id := "a".toList, parent_id := [], node := "plan".toList, workflow := "dev".toList,
    name := "plan".toList, start_ts := 0, end_ts := 10 }

def gate : Span :=
  { span_id := "2".toList, trace_id := "a".toList, parent_id := [], node := "gate".toList, workflow := "dev".toList,
    name := "gate".toList, start_ts := 2, end_ts := 8, span_kind := "wait".toList }

def below : Span :=
  { span_id := "3".toList, trace_id := "a".toList, parent_id := "1".toList, node := "poll".toList, workflow := "dev".toList,
    name := "poll".toList, start_ts := 3, end_ts := 4 }

/-- **A window that ends before it starts** is partitioned into more than its wall time, and a span that
is added below a step takes the step's own time away. -/
theorem partition_inexact :
    (Window [backwards] 5 3 ∧ (_profile_time_partition [backwards] 5 3).unclassified = 2 ∧
      (_profile_time_partition [backwards] 5 3).wall = 0 ∧ ¬ Exact [backwards] 5 3 (_profile_time_partition [backwards] 5 3)) ∧
    (Window [outer, gate] 0 10 ∧ Inside [outer, gate] 0 10 ∧
      _span_category below (parentKeys [outer, gate, below]) = some .deterministic ∧
      (∀ t : ℝ, below.start_ts ≤ t → t < below.end_ts → Active [outer, gate] t .wait) ∧
      (_profile_time_partition [outer, gate] 0 10).unclassified = 0 ∧
      (_profile_time_partition [outer, gate, below] 0 10).unclassified = 4) := by
  have hwindow : Window [backwards] 5 3 := ⟨by decide, by decide⟩
  refine ⟨⟨hwindow, by with_unfolding_all decide, by with_unfolding_all decide, fun hexact => ?_⟩, ⟨by decide, by decide⟩,
    ⟨by decide, by decide⟩, by decide, ?_, by with_unfolding_all decide, by with_unfolding_all decide⟩
  · exact absurd ((exact_iff hwindow).1 hexact).1 (by decide)
  · intro t hstart hstop
    refine ⟨.wait "unknown".toList, rfl, gate, List.mem_cons_of_mem _ List.mem_cons_self, by decide, ?_, ?_⟩
    · have : (below.start_ts : ℝ) = 3 := by norm_num [below]
      norm_num [gate]
      linarith
    · have : (below.end_ts : ℝ) = 4 := by norm_num [below]
      norm_num [gate]
      linarith

end Stablemate.Profile
