import Mathlib.Data.List.Nodup
import Mathlib.Data.List.Perm.Subperm

/-!
# Lists

* `mem_take_filter`, `mem_take_filter_or`: what is among the first `n` elements, when other
  elements are taken away or are taken first.
* `eq_of_key`: with distinct keys an element is known by its key.
* `exists_of_forall₂`, `forall₂_imp_mem`, `forall₂_append`: related lists.
* `mapM_some`, `perm_flatMap_filter`: a list that is read, and one that is made up of its parts.
* `flatMap_injective`: a code whose words can be told apart is read back.
-/

namespace Stablemate

variable {α β : Type*} {l : List α} {n : ℕ} {p : α → Bool} {x : α}

/-- Taking away other elements moves an element forward. -/
theorem mem_take_filter : ∀ {l : List α} {n : ℕ}, x ∈ l.take n → p x = true → x ∈ (l.filter p).take n
  | a :: l, n + 1, h, hp => by
    rw [List.take_succ_cons] at h
    rcases List.mem_cons.1 h with rfl | h
    · rw [List.filter_cons_of_pos hp]
      exact List.mem_cons_self
    · have ih := mem_take_filter (l := l) (n := n) h hp
      by_cases ha : p a = true
      · rw [List.filter_cons_of_pos ha, List.take_succ_cons]
        exact List.mem_cons_of_mem _ ih
      · rw [List.filter_cons_of_neg ha]
        exact List.take_subset_take_left _ (Nat.le_succ n) ih
  | [], n, h, _ => by simp at h
  | _ :: _, 0, h, _ => by simp at h

/-- What is taken of the elements with `p`, and of others after them, comes first among these. -/
theorem mem_take_filter_or {q : List α} {k : α → Bool} (hl : l.Nodup)
    (hk : ∀ a ∈ l, k a = true ↔ a ∈ (l.filter p ++ q).take n) (hx : x ∈ l) (hxk : k x = true) :
    x ∈ (l.filter fun a => p a || k a).take n := by
  by_cases hn : n ≤ (l.filter p).length
  · -- only elements with `p` are taken
    have htake : (l.filter p ++ q).take n = (l.filter p).take n := List.take_append_of_le_length hn
    have hfilter : (l.filter fun a => p a || k a) = l.filter p := by
      refine List.filter_congr fun a ha => ?_
      by_cases hka : k a = true
      · have := (hk a ha).1 hka
        rw [htake] at this
        simp [(List.mem_filter.1 (List.mem_of_mem_take this)).2]
      · simp [hka]
    rw [hfilter, ← htake]
    exact (hk x hx).1 hxk
  · -- every element with `p` is taken, so there are at most `n` in all
    have hfilter : (l.filter fun a => p a || k a) = l.filter k := by
      refine List.filter_congr fun a ha => ?_
      by_cases hpa : p a = true
      · have : a ∈ (l.filter p ++ q).take n := by
          rw [List.take_append, List.take_of_length_le (by omega)]
          exact List.mem_append_left _ (List.mem_filter.2 ⟨ha, hpa⟩)
        simp [hpa, (hk a ha).2 this]
      · simp [hpa]
    have hle : (l.filter k).length ≤ n := by
      have hsub : l.filter k ⊆ (l.filter p ++ q).take n := fun a ha =>
        (hk a (List.mem_filter.1 ha).1).1 (List.mem_filter.1 ha).2
      calc (l.filter k).length ≤ ((l.filter p ++ q).take n).length :=
            (List.subperm_of_subset (hl.filter _) hsub).length_le
        _ ≤ n := List.length_take_le _ _
    rw [hfilter, List.take_of_length_le hle]
    exact List.mem_filter.2 ⟨hx, hxk⟩

/-- Of two tests, one of which asks for less, the same number of elements pass exactly if the same elements do. -/
theorem length_filter_eq_iff {p q : α → Bool} (h : ∀ x ∈ l, p x = true → q x = true) :
    (l.filter p).length = (l.filter q).length ↔ ∀ x ∈ l, q x = true → p x = true := by
  have hnested : l.filter p = (l.filter q).filter p := by
    rw [List.filter_filter]
    refine List.filter_congr fun x hx => ?_
    cases hp : p x with
    | false => rfl
    | true => rw [h x hx hp, Bool.and_true]
  rw [hnested, List.length_filter_eq_length_iff]
  exact ⟨fun hall x hx hq => hall x (List.mem_filter.2 ⟨hx, hq⟩), fun hall x hx =>
    hall x (List.mem_filter.1 hx).1 (List.mem_filter.1 hx).2⟩

/-- With distinct keys an element is known by its key. -/
theorem eq_of_key {f : α → β} (h : (l.map f).Nodup) {a b : α} (ha : a ∈ l) (hb : b ∈ l)
    (hab : f a = f b) : a = b :=
  List.inj_on_of_nodup_map h ha hb hab

theorem map_fst_zip_sublist : ∀ (l : List α) (l' : List β), ((l.zip l').map (·.1)).Sublist l
  | [], _ => List.Sublist.refl []
  | _ :: _, [] => List.nil_sublist _
  | x :: l, _ :: l' => (map_fst_zip_sublist l l').cons_cons x

/-- What stands in the second of two related lists is related to something in the first. -/
theorem exists_of_forall₂ {R : α → β → Prop} : ∀ {l : List α} {l' : List β}, List.Forall₂ R l l' →
    ∀ b ∈ l', ∃ a ∈ l, R a b
  | _, _, .nil, b, hb => by cases hb
  | _, _, .cons h t, b, hb => by
    rcases List.mem_cons.1 hb with rfl | hb
    · exact ⟨_, List.mem_cons_self, h⟩
    · obtain ⟨a, ha, hab⟩ := exists_of_forall₂ t b hb
      exact ⟨a, List.mem_cons_of_mem _ ha, hab⟩

/-- A relation between two lists, weakened with what is known of their elements. -/
theorem forall₂_imp_mem {R S : α → β → Prop} : ∀ {l : List α} {l' : List β}, List.Forall₂ R l l' →
    (∀ a ∈ l, ∀ b ∈ l', R a b → S a b) → List.Forall₂ S l l'
  | _, _, .nil, _ => .nil
  | _, _, .cons h t, hS =>
    .cons (hS _ List.mem_cons_self _ List.mem_cons_self h)
      (forall₂_imp_mem t fun a ha b hb => hS a (List.mem_cons_of_mem _ ha) b (List.mem_cons_of_mem _ hb))

theorem forall₂_comp {γ : Type*} {R : α → β → Prop} {S : β → γ → Prop} : ∀ {l : List α} {m : List β} {n : List γ},
    List.Forall₂ R l m → List.Forall₂ S m n → List.Forall₂ (fun a c => ∃ b, R a b ∧ S b c) l n
  | _, _, _, .nil, .nil => .nil
  | _, _, _, .cons hR hl, .cons hS hm => .cons ⟨_, hR, hS⟩ (forall₂_comp hl hm)

/-- What is related to two lists one after the other comes in two parts. -/
theorem forall₂_append {R : α → β → Prop} : ∀ {l₁ l₂ : List α} {l' : List β},
    List.Forall₂ R (l₁ ++ l₂) l' → ∃ a b, List.Forall₂ R l₁ a ∧ List.Forall₂ R l₂ b ∧ l' = a ++ b
  | [], _, l', h => ⟨[], l', .nil, h, rfl⟩
  | _ :: _, _, _, .cons h t => by
    obtain ⟨a, b, ha, hb, rfl⟩ := forall₂_append t
    exact ⟨_ :: a, b, .cons h ha, hb, rfl⟩

/-- Elements that are related by having the same key have the same list of keys. -/
theorem map_eq_of_forall₂ {γ : Type*} {f : α → γ} {g : β → γ} : ∀ {l : List α} {l' : List β},
    List.Forall₂ (fun a b => g b = f a) l l' → l'.map g = l.map f
  | _, _, .nil => rfl
  | _, _, .cons h t => by rw [List.map_cons, List.map_cons, map_eq_of_forall₂ t, h]

/-- What is in joined pieces is in a piece or in the separator. -/
theorem mem_intercalate {sep : List α} {ls : List (List α)} {x : α} (h : x ∈ sep.intercalate ls) :
    x ∈ sep ∨ ∃ l ∈ ls, x ∈ l := by
  induction ls with
  | nil => cases h
  | cons l ls ih =>
    rcases ls with _ | ⟨l', ls⟩
    · exact .inr ⟨l, List.mem_cons_self, by simpa using h⟩
    · rw [List.intercalate_cons_cons, List.mem_append, List.mem_append] at h
      rcases h with (h | h) | h
      · exact .inr ⟨l, List.mem_cons_self, h⟩
      · exact .inl h
      · exact (ih h).imp_right fun ⟨k, hk, hx⟩ => ⟨k, List.mem_cons_of_mem _ hk, hx⟩

/-- Pieces joined in two parts: the parts joined, with a separator between them. -/
theorem intercalate_append_cons (sep : List α) (ls : List (List α)) (l : List α) (rest : List (List α)) :
    sep.intercalate (ls ++ l :: rest) =
      (if ls = [] then [] else sep.intercalate ls ++ sep) ++ sep.intercalate (l :: rest) := by
  induction ls with
  | nil => rfl
  | cons k ls ih =>
    rcases ls with _ | ⟨k', ls⟩
    · simp [List.intercalate_cons_cons]
    · have hne : (k' :: ls) ++ l :: rest ≠ [] := by simp
      rw [List.cons_append, List.intercalate_cons_of_ne_nil hne, ih]
      simp [List.intercalate_cons_cons]

/-- What is found when the keys without `p` are taken away. -/
theorem lookup_filter_key {κ : Type*} [BEq κ] [LawfulBEq κ] (p : κ → Bool) (k : κ) (kvs : List (κ × β)) :
    (kvs.filter fun kx => p kx.1).lookup k = if p k then kvs.lookup k else none := by
  induction kvs with
  | nil => simp
  | cons kx kvs ih =>
    obtain ⟨l, y⟩ := kx
    by_cases hk : k = l
    · subst hk
      by_cases hp : p k = true
      · simp [hp]
      · simp [hp, ih]
    · have hne : (k == l) = false := by simpa using hk
      by_cases hp : p l = true
      · rw [List.filter_cons_of_pos (by simpa using hp), List.lookup_cons, List.lookup_cons, hne, ih]
      · rw [List.filter_cons_of_neg (by simpa using hp), List.lookup_cons, hne, ih]

/-- The first of each. -/
theorem nodup_eraseDups [BEq α] [LawfulBEq α] : ∀ l : List α, l.eraseDups.Nodup
  | [] => List.nodup_nil
  | a :: l => by
    rw [List.eraseDups_cons, List.nodup_cons]
    refine ⟨fun hmem => ?_, nodup_eraseDups _⟩
    have hne := (List.mem_filter.1 (List.mem_eraseDups.1 hmem)).2
    simp at hne
termination_by l => l.length
decreasing_by exact Nat.lt_succ_of_le (List.length_filter_le _ _)

/-- A list is known by the words of its elements, if no word begins another one. -/
theorem flatMap_injective {f : α → List β} (hne : ∀ a, f a ≠ [])
    (hcut : ∀ a b x y, f a ++ x = f b ++ y → a = b ∧ x = y) : Function.Injective fun l : List α => l.flatMap f := by
  intro l
  induction l with
  | nil =>
    intro l' heq
    cases l' with
    | nil => rfl
    | cons b l' => exact absurd (List.append_eq_nil_iff.1 heq.symm).1 (hne b)
  | cons a l ih =>
    intro l' heq
    cases l' with
    | nil => exact absurd (List.append_eq_nil_iff.1 heq).1 (hne a)
    | cons b l' =>
      obtain ⟨rfl, hrest⟩ := hcut a b _ _ heq
      rw [ih hrest]

/-- Every element can be read. -/
theorem mapM_some {f : α → Option β} {g : α → β} (h : ∀ a ∈ l, f a = some (g a)) : l.mapM f = some (l.map g) := by
  induction l with
  | nil => rfl
  | cons a l ih =>
    rw [List.mapM_cons, h a List.mem_cons_self, ih fun b hb => h b (List.mem_cons_of_mem a hb)]
    rfl

/-- A list is made up of its parts, one for each key. -/
theorem perm_flatMap_filter {κ : Type*} [DecidableEq κ] (key : α → κ) {ks : List κ} (hks : ks.Nodup)
    (h : ∀ x ∈ l, key x ∈ ks) : l.Perm (ks.flatMap fun k => l.filter fun x => key x = k) := by
  induction ks generalizing l with
  | nil =>
    cases l with
    | nil => exact .nil
    | cons x l => exact absurd (h x List.mem_cons_self) List.not_mem_nil
  | cons k ks ih =>
    obtain ⟨hk, hks⟩ := List.nodup_cons.1 hks
    have hrest : ∀ x ∈ l.filter fun x => ¬ key x = k, key x ∈ ks := by
      intro x hx
      obtain ⟨hx, hne⟩ := List.mem_filter.1 hx
      exact (List.mem_cons.1 (h x hx)).resolve_left (of_decide_eq_true hne)
    have hsame : (ks.flatMap fun k' => (l.filter fun x => ¬ key x = k).filter fun x => key x = k') =
        ks.flatMap fun k' => l.filter fun x => key x = k' := by
      refine List.flatMap_congr fun k' hk' => ?_
      rw [List.filter_filter]
      refine List.filter_congr fun x _ => ?_
      by_cases hx : key x = k'
      · have hne : k' ≠ k := fun heq => hk (heq ▸ hk')
        simp [hx, hne]
      · simp [hx]
    have hsplit := List.filter_append_perm (fun x => decide (key x = k)) l
    rw [List.flatMap_cons, ← hsame]
    refine hsplit.symm.trans (List.Perm.append_left _ ?_)
    have hneg : (l.filter fun x => !decide (key x = k)) = l.filter fun x => ¬ key x = k :=
      List.filter_congr fun x _ => by simp
    rw [hneg]
    exact ih hks hrest

/-- What is chosen keeps its key, so the keys stay in their order. -/
theorem map_filterMap_sublist {γ : Type*} {f : α → Option β} {g : β → γ} {key : α → γ} (h : ∀ a b, f a = some b → g b = key a)
    (l : List α) : ((l.filterMap f).map g).Sublist (l.map key) := by
  induction l with
  | nil => exact List.Sublist.refl _
  | cons a l ih =>
    rw [List.map_cons]
    cases hf : f a with
    | none =>
      rw [List.filterMap_cons_none hf]
      exact ih.cons _
    | some b =>
      rw [List.filterMap_cons_some hf, List.map_cons, h a b hf]
      exact ih.cons_cons _

end Stablemate
