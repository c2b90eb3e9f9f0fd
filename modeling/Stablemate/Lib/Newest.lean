import Mathlib.Data.List.Sort

/-!
# The last elements of a stable sort

* `newest`: the last `k` elements of a list that is sorted without moving equal ones past each other.
* `newest_append`: **what is dropped early would be dropped later**, whatever comes in between.

The relation need only be a total preorder on the elements with `P`.
-/

namespace Stablemate.Newest

variable {α β : Type*} (r : α → α → Prop) [DecidableRel r]

def newest (k : ℕ) (l : List α) : List α := (l.insertionSort r).drop (l.length - k)

/-- The relation is a total preorder on the elements with `P`. -/
structure Orders (P : α → Prop) : Prop where
  total : ∀ a b, P a → P b → r a b ∨ r b a
  trans : ∀ a b c, P a → P b → P c → r a b → r b c → r a c

variable {r} {P : α → Prop} {a b c : α} {k : ℕ} {l m : List α}

/-! ## Sorting -/

/-- A smaller element and a greater one can be inserted in either order. -/
theorem orderedInsert_comm (h : Orders r P) (ha : P a) (hc : P c) (hca : ¬ r a c) (hl : ∀ b ∈ l, P b) :
    (l.orderedInsert r a).orderedInsert r c = (l.orderedInsert r c).orderedInsert r a := by
  have hle : r c a := (h.total a c ha hc).resolve_left hca
  induction l with
  | nil => simp [hle, hca]
  | cons b l ih =>
    obtain ⟨hb, hl⟩ := List.forall_mem_cons.1 hl
    have ih := ih hl
    by_cases hab : r a b
    · have hcb : r c b := h.trans c a b hc ha hb hle hab
      simp [hab, hcb, hle, hca]
    · by_cases hcb : r c b
      · simp [hab, hcb, hca]
      · simp [hab, hcb, ih]

theorem all_orderedInsert (ha : P a) (hl : ∀ b ∈ l, P b) : ∀ b ∈ l.orderedInsert r a, P b := by
  intro b hb
  rcases (List.mem_orderedInsert r).1 hb with rfl | hb
  · exact ha
  · exact hl b hb

theorem all_foldr (hl : ∀ b ∈ l, P b) (hm : ∀ b ∈ m, P b) : ∀ b ∈ l.foldr (List.orderedInsert r) m, P b := by
  induction l with
  | nil => exact hm
  | cons a l ih =>
    obtain ⟨ha, hl⟩ := List.forall_mem_cons.1 hl
    exact all_orderedInsert ha (ih hl)

/-- Inserting an element first and the rest then, or in the order of a sorted list. -/
theorem foldr_orderedInsert (h : Orders r P) (ha : P a) (hl : ∀ b ∈ l, P b) (hm : ∀ b ∈ m, P b) :
    (l.orderedInsert r a).foldr (List.orderedInsert r) m = (l.foldr (List.orderedInsert r) m).orderedInsert r a := by
  induction l with
  | nil => rfl
  | cons c l ih =>
    obtain ⟨hc, hl⟩ := List.forall_mem_cons.1 hl
    rw [List.orderedInsert_cons]
    by_cases hac : r a c
    · rw [if_pos hac]
      rfl
    · rw [if_neg hac, List.foldr_cons, ih hl, List.foldr_cons]
      exact orderedInsert_comm h ha hc hac (all_foldr hl hm)

/-- What is sorted already may be sorted again together with more. -/
theorem insertionSort_append (h : Orders r P) (hl : ∀ b ∈ l, P b) (hm : ∀ b ∈ m, P b) :
    (l.insertionSort r ++ m).insertionSort r = (l ++ m).insertionSort r := by
  have hsorted : ∀ b ∈ m.insertionSort r, P b := fun b hb => hm b ((List.mem_insertionSort r).1 hb)
  unfold List.insertionSort at hsorted ⊢
  rw [List.foldr_append, List.foldr_append]
  induction l with
  | nil => rfl
  | cons a l ih =>
    obtain ⟨ha, hl⟩ := List.forall_mem_cons.1 hl
    have hrest : ∀ b ∈ l.foldr (List.orderedInsert r) [], P b := all_foldr hl fun b hb => (nomatch hb)
    rw [List.foldr_cons, foldr_orderedInsert h ha hrest hsorted, ih hl, List.foldr_cons]

/-! ## The newest -/

/-- An element that `k` others are no smaller than is not among the last `k`. -/
theorem drop_orderedInsert (hk : k ≤ l.countP fun b => r a b) :
    (l.orderedInsert r a).drop (l.length + 1 - k) = l.drop (l.length - k) := by
  induction l with
  | nil =>
    have : k = 0 := by simpa using hk
    simp [this]
  | cons b l ih =>
    have hle : k ≤ (b :: l).length := hk.trans List.countP_le_length
    rw [List.orderedInsert_cons]
    by_cases hab : r a b
    · rw [if_pos hab, show (b :: l).length + 1 - k = ((b :: l).length - k) + 1 by omega, List.drop_succ_cons]
    · rw [List.countP_cons_of_neg (by simpa using hab)] at hk
      have hle : k ≤ l.length := hk.trans List.countP_le_length
      rw [if_neg hab, List.length_cons, show l.length + 1 + 1 - k = (l.length + 1 - k) + 1 by omega, List.drop_succ_cons, ih hk,
        show l.length + 1 - k = (l.length - k) + 1 by omega, List.drop_succ_cons]

/-- An element before `k` others that it is no greater than is dropped, whatever comes with it. -/
theorem newest_cons (hall : ∀ b ∈ l, r a b) (hk : k ≤ l.length) (m : List α) : newest r k (a :: l ++ m) = newest r k (l ++ m) := by
  have hcount : k ≤ ((l ++ m).insertionSort r).countP fun b => r a b := by
    rw [(List.perm_insertionSort r (l ++ m)).countP_eq, List.countP_append, List.countP_eq_length.2 fun b hb => by simpa using hall b hb]
    omega
  have hdrop := drop_orderedInsert hcount
  rw [List.length_insertionSort] at hdrop
  exact hdrop

theorem newest_append_of_sorted (hl : l.Pairwise r) (m : List α) : newest r k (l.drop (l.length - k) ++ m) = newest r k (l ++ m) := by
  induction l with
  | nil => rw [List.drop_nil]
  | cons a l ih =>
    obtain ⟨hall, hsorted⟩ := List.pairwise_cons.1 hl
    by_cases hk : k ≤ l.length
    · rw [newest_cons hall hk, ← ih hsorted, List.length_cons, show l.length + 1 - k = (l.length - k) + 1 by omega, List.drop_succ_cons]
    · rw [List.length_cons, show l.length + 1 - k = 0 by omega, List.drop_zero]

theorem sorted_orderedInsert (h : Orders r P) (ha : P a) (hl : ∀ b ∈ l, P b) (hsorted : l.Pairwise r) :
    (l.orderedInsert r a).Pairwise r := by
  induction l with
  | nil => exact List.pairwise_singleton r a
  | cons b l ih =>
    obtain ⟨hb, hrest⟩ := List.forall_mem_cons.1 hl
    obtain ⟨hall, hsorted⟩ := List.pairwise_cons.1 hsorted
    rw [List.orderedInsert_cons]
    by_cases hab : r a b
    · rw [if_pos hab, List.pairwise_cons, List.pairwise_cons]
      refine ⟨fun c hc => ?_, hall, hsorted⟩
      rcases List.mem_cons.1 hc with rfl | hc
      · exact hab
      · exact h.trans a b c ha hb (hrest c hc) hab (hall c hc)
    · rw [if_neg hab, List.pairwise_cons]
      refine ⟨fun c hc => ?_, ih hrest hsorted⟩
      rcases (List.mem_orderedInsert r).1 hc with rfl | hc
      · exact (h.total c b ha hb).resolve_left hab
      · exact hall c hc

theorem sorted_insertionSort (h : Orders r P) (hl : ∀ b ∈ l, P b) : (l.insertionSort r).Pairwise r := by
  induction l with
  | nil => exact List.Pairwise.nil
  | cons a l ih =>
    obtain ⟨ha, hl⟩ := List.forall_mem_cons.1 hl
    exact sorted_orderedInsert h ha (fun b hb => hl b ((List.mem_insertionSort r).1 hb)) (ih hl)

/-- **What is dropped early would be dropped later.** -/
theorem newest_append (h : Orders r P) (hl : ∀ b ∈ l, P b) (hm : ∀ b ∈ m, P b) :
    newest r k (newest r k l ++ m) = newest r k (l ++ m) := by
  have hsorted := newest_append_of_sorted (k := k) (sorted_insertionSort h hl) m
  rw [List.length_insertionSort] at hsorted
  unfold newest at hsorted ⊢
  rw [hsorted, insertionSort_append h hl hm, List.length_append, List.length_append, List.length_insertionSort]

/-- A change that leaves the order alone may come before or after. -/
theorem newest_map {f : α → α} (hf : ∀ a b, r a b ↔ r (f a) (f b)) (k : ℕ) (l : List α) :
    newest r k (l.map f) = (newest r k l).map f := by
  unfold newest
  rw [List.map_drop, List.map_insertionSort r r f l fun a _ b _ => hf a b, List.length_map]

end Stablemate.Newest
