import Mathlib.Algebra.Order.Group.Basic
import Mathlib.Algebra.BigOperators.Group.List.Basic
import Mathlib.Data.List.Sort
import Mathlib.Data.List.SplitBy
import Mathlib.Tactic.Abel

/-!
# Ordered windows and running totals

* a window in the order of a key (`pairwise_insertionSort`);
* each item of a window with the one before it (`lagFrom`), as a property of the list (`mem_lagFrom`)
  and, in a sorted list, of the order alone (`mem_lagFrom_sorted`);
* the steps of a running total that can start again (`step`), and their sum: the last total of each
  stretch in which the total does not fall (`sum_steps`).
-/

namespace Stablemate.Window

section Sorting

variable {α κ : Type*} [LinearOrder κ] {l : List α}

theorem pairwise_le_insertionSort (key : α → κ) (l : List α) :
    (l.insertionSort fun a b => key a ≤ key b).Pairwise fun a b => key a ≤ key b := by
  have htotal : Std.Total fun a b : α => key a ≤ key b := ⟨fun a b => le_total _ _⟩
  have htrans : IsTrans α fun a b => key a ≤ key b := ⟨fun a b c => le_trans⟩
  exact List.pairwise_insertionSort _ _

/-- A sort by a key that tells the elements apart is strict. -/
theorem pairwise_insertionSort {key : α → κ} (hl : (l.map key).Nodup) :
    (l.insertionSort fun a b => key a ≤ key b).Pairwise fun a b => key a < key b := by
  have hnodup : ((l.insertionSort fun a b => key a ≤ key b).map key).Nodup :=
    ((List.perm_insertionSort _ _).map key).nodup_iff.2 hl
  have hne := List.pairwise_map.1 hnodup
  exact ((pairwise_le_insertionSort key l).and hne).imp fun h => lt_of_le_of_ne h.1 h.2

end Sorting

section Lag

variable {α : Type*} {a : α} {l : List α} {prior q : Option α}

/-- Each item with the one before it; `prior` stands before the first. -/
def lagFrom (prior : Option α) : List α → List (α × Option α)
  | [] => []
  | a :: l => (a, prior) :: lagFrom (some a) l

@[simp] theorem map_fst_lagFrom (prior : Option α) (l : List α) : (lagFrom prior l).map Prod.fst = l := by
  induction l generalizing prior with
  | nil => rfl
  | cons a l ih => simp [lagFrom, ih]

theorem lagFrom_append (prior : Option α) (s t : List α) :
    lagFrom prior (s ++ t) = lagFrom prior s ++ lagFrom (s.getLast?.or prior) t := by
  induction s generalizing prior with
  | nil => simp [lagFrom]
  | cons a s ih =>
    have h : ((a :: s).getLast?.or prior) = s.getLast?.or (some a) := by
      cases s with
      | nil => rfl
      | cons b s => simp [List.getLast?_cons]
    simp only [List.cons_append, lagFrom, ih, h]

theorem lagFrom_map {β : Type*} (f : α → β) (prior : Option α) (l : List α) :
    lagFrom (prior.map f) (l.map f) = (lagFrom prior l).map fun p => (f p.1, p.2.map f) := by
  induction l generalizing prior with
  | nil => rfl
  | cons a l ih => simpa [lagFrom] using ih (some a)

theorem mem_lagFrom (h : (a, q) ∈ lagFrom prior l) : ∃ s t, l = s ++ a :: t ∧ q = s.getLast?.or prior := by
  induction l generalizing prior with
  | nil => simp [lagFrom] at h
  | cons b l ih =>
    rcases List.mem_cons.mp h with h | h
    · obtain ⟨rfl, rfl⟩ := Prod.mk.inj h
      exact ⟨[], l, rfl, rfl⟩
    · obtain ⟨s, t, rfl, rfl⟩ := ih h
      refine ⟨b :: s, t, rfl, ?_⟩
      cases s with
      | nil => rfl
      | cons c s => simp [List.getLast?_cons]

/-- **In a list sorted by a strict order, the item before `a` is the last one below `a`.** -/
theorem mem_lagFrom_sorted {r : α → α → Prop} [DecidableRel r] (hl : l.Pairwise r)
    (hr : ∀ x y, r x y → ¬ r y x) (h : (a, q) ∈ lagFrom none l) : q = (l.filter fun b => r b a).getLast? := by
  obtain ⟨s, t, rfl, rfl⟩ := mem_lagFrom h
  obtain ⟨-, htail, hbelow⟩ := List.pairwise_append.mp hl
  have hs : s.filter (fun b => r b a) = s :=
    List.filter_eq_self.mpr fun b hb => by simpa using hbelow b hb a List.mem_cons_self
  have ht : (a :: t).filter (fun b => r b a) = [] := by
    refine List.filter_eq_nil_iff.mpr fun b hb => ?_
    rcases List.mem_cons.mp hb with rfl | hb
    · simpa using fun hbb => hr b b hbb hbb
    · simpa using hr a b (List.rel_of_pairwise_cons htail hb)
  rw [List.filter_append, hs, ht, List.append_nil, Option.or_none]

end Lag

section Steps

variable {K : Type*} [AddCommGroup K] [LinearOrder K]

/-- What a running total `total` adds to the one before it: all of it where it has started again. -/
def step (total : K) : Option K → K
  | none => total
  | some prior => if total < prior then total else total - prior

/-- The stretches of a list of totals in which they do not fall. -/
def stretches (totals : List K) : List (List K) := totals.splitBy fun a b => a ≤ b

/-- The steps of a list of running totals. -/
def stepsFrom (prior : Option K) (totals : List K) : List K := (lagFrom prior totals).map fun p => step p.1 p.2

theorem stepsFrom_append (prior : Option K) (s t : List K) :
    stepsFrom prior (s ++ t) = stepsFrom prior s ++ stepsFrom (s.getLast?.or prior) t := by
  simp only [stepsFrom, lagFrom_append, List.map_append]

/-- Within a stretch the steps telescope. -/
theorem sum_stepsFrom_chain {a : K} {l : List K} (h : (a :: l).IsChain (· ≤ ·)) :
    a + (stepsFrom (some a) l).sum = (a :: l).getLast (by simp) := by
  induction l generalizing a with
  | nil => simp [stepsFrom, lagFrom]
  | cons b l ih =>
    obtain ⟨hab, hbl⟩ := List.isChain_cons_cons.mp h
    have hstep : step b (some a) = b - a := by simp [step, not_lt.mpr hab]
    have hrest : (stepsFrom (some a) (b :: l)).sum = step b (some a) + (stepsFrom (some b) l).sum := by
      simp [stepsFrom, lagFrom]
    rw [hrest, hstep, List.getLast_cons (by simp), ← ih hbl]
    abel

/-- A stretch adds up to its last total, where it is the first or the total has just fallen. -/
theorem sum_stepsFrom_stretch {g : List K} (hg : g ≠ []) (hchain : g.IsChain (· ≤ ·)) {prior : Option K}
    (hprior : ∀ p ∈ prior, g.head hg < p) : (stepsFrom prior g).sum = g.getLast hg := by
  obtain ⟨a, l, rfl⟩ := List.exists_cons_of_ne_nil hg
  have hstep : step a prior = a := by
    cases prior with
    | none => rfl
    | some p => simpa [step] using fun hle : p ≤ a => absurd (hprior p rfl) (not_lt.mpr hle)
  rw [← sum_stepsFrom_chain hchain]
  simp [stepsFrom, lagFrom, hstep]

theorem sum_stepsFrom_stretches : ∀ (gs : List (List K)) (prior : Option K), (∀ g ∈ gs, g ≠ []) →
    (∀ g ∈ gs, g.IsChain (· ≤ ·)) →
    gs.IsChain (fun s t => ∀ hs ht, t.head ht < s.getLast hs) →
    (∀ p ∈ prior, ∀ g hg, gs.head? = some g → g.head hg < p) →
    (stepsFrom prior gs.flatten).sum = (gs.map fun g => g.getLastD 0).sum
  | [], _, _, _, _, _ => rfl
  | g :: gs, prior, hne, hchain, hfall, hprior => by
    have hg : g ≠ [] := hne g List.mem_cons_self
    have hlast : g.getLast? = some (g.getLast hg) := List.getLast?_eq_some_getLast hg
    have hhere := sum_stepsFrom_stretch hg (hchain g List.mem_cons_self) fun p hp => hprior p hp g hg rfl
    have hrest := sum_stepsFrom_stretches gs (some (g.getLast hg)) (fun t ht => hne t (List.mem_cons_of_mem _ ht))
      (fun t ht => hchain t (List.mem_cons_of_mem _ ht)) hfall.tail fun p hp t ht hhead => by
        obtain rfl := Option.mem_some_iff.mp hp
        cases gs with
        | nil => simp at hhead
        | cons t' gs =>
          obtain rfl : t' = t := by simpa using hhead
          exact (List.isChain_cons_cons.mp hfall).1 hg ht
    rw [List.flatten_cons, stepsFrom_append, List.sum_append, hhere, hlast, Option.some_or, hrest,
      List.map_cons, List.sum_cons, List.getLastD_eq_getLast?, hlast, Option.getD_some]

/-- **The steps of a list of totals add up to the last total of each stretch.** -/
theorem sum_steps (totals : List K) :
    (stepsFrom none totals).sum = ((stretches totals).map fun g => g.getLastD 0).sum := by
  have hflat : (stretches totals).flatten = totals := List.flatten_splitBy _ totals
  have hne : ∀ g ∈ stretches totals, g ≠ [] := fun g hg => List.ne_nil_of_mem_splitBy hg
  have hchain : ∀ g ∈ stretches totals, g.IsChain (· ≤ ·) := fun g hg =>
    (List.isChain_of_mem_splitBy hg).imp fun a b h => by simpa using h
  have hfall : (stretches totals).IsChain (fun s t => ∀ hs ht, t.head ht < s.getLast hs) :=
    (List.isChain_getLast_head_splitBy _ totals).imp fun s t h hs ht => by
      obtain ⟨hs', ht', hlt⟩ := h
      simpa using hlt
  rw [← sum_stepsFrom_stretches (stretches totals) none hne hchain hfall (fun p hp => by cases hp), hflat]

end Steps

end Stablemate.Window
