import Stablemate.Lib.Stream

/-!
# Which items were put in

One word after another is replaced. Each item may carry a mark that says whether replacing put it
in; the matchers read the items and not their marks.

* `exists_of_infix_sub`: a word that lies apart from what is put in, and stands in the result, stood in the
  list where the matcher reads nothing.
* `not_infix_replaced`: **after one replacement after another, no such word is left that one of the matchers reads**.
* `map_fst_replaced`: with marks the items are the same.
-/

namespace Stablemate.Scan

variable {α : Type*} {m : List α → ℕ} {ms : List (List α → ℕ)} {rep w : List α}

theorem exists_of_infix_sub (hapart : Apart w rep) (hne : w ≠ []) : ∀ {s : List α} {k : ℕ}, w <:+: sub m rep k s →
    ∃ y, y <:+ s ∧ w <+: y ∧ m y = 0 := by
  intro s
  induction s with
  | nil =>
    intro k h
    have hnil : sub m rep k [] = [] := by cases k <;> rfl
    rw [hnil] at h
    exact absurd (List.infix_nil.1 h) hne
  | cons c s ih =>
    intro k h
    have hlater : ∀ {k : ℕ}, w <:+: sub m rep k s → ∃ y, y <:+ c :: s ∧ w <+: y ∧ m y = 0 := by
      intro k hin
      obtain ⟨y, hy, hp, hzero⟩ := ih hin
      exact ⟨y, hy.trans (List.suffix_cons c s), hp, hzero⟩
    cases k with
    | succ k => exact hlater h
    | zero =>
      have hfront : w <+: sub m rep 0 (c :: s) → w <+: c :: s :=
        prefix_of_sub fun x hx hsuf hmeet => hapart.1 ⟨x, hx, hsuf, hmeet⟩
      unfold sub at h hfront
      split at h
      · rename_i hzero
        rw [hzero] at hfront
        rcases List.infix_cons_iff.1 h with hp | hin
        · exact ⟨c :: s, List.suffix_rfl, hfront hp, hzero⟩
        · exact hlater hin
      · exact hlater (infix_of_rep (fun x hx hsuf hmeet => hapart.2 ⟨x, hx, hsuf, hmeet⟩) h)

/-- One replacement after another. -/
def replaced (rep : List α) (ms : List (List α → ℕ)) (s : List α) : List α := ms.foldl (fun t m => sub m rep 0 t) s

theorem infix_of_replaced (hapart : Apart w rep) (hne : w ≠ []) : ∀ {ms : List (List α → ℕ)} {s : List α},
    w <:+: replaced rep ms s → w <:+: s := by
  intro ms
  induction ms with
  | nil => exact fun h => h
  | cons m ms ih =>
    intro s h
    obtain ⟨y, hy, hp, -⟩ := exists_of_infix_sub hapart hne (ih h)
    exact hp.isInfix.trans hy.isInfix

theorem not_infix_replaced (hapart : Apart w rep) (hne : w ≠ []) (hm : m ∈ ms) (hreads : ∀ y, w <+: y → m y ≠ 0)
    (s : List α) : ¬ w <:+: replaced rep ms s := by
  intro h
  obtain ⟨before, after, rfl⟩ := List.append_of_mem hm
  -- no later replacement makes the word, and the one that reads it leaves none
  have hafter : w <:+: replaced rep after (sub m rep 0 (replaced rep before s)) := by
    unfold replaced at h ⊢
    rw [List.foldl_append, List.foldl_cons] at h
    exact h
  obtain ⟨y, -, hp, hzero⟩ := exists_of_infix_sub hapart hne (infix_of_replaced hapart hne hafter)
  exact hreads y hp hzero

theorem startsAt_ne_zero [DecidableEq α] (hne : w ≠ []) {y : List α} (hp : w <+: y) : startsAt w y ≠ 0 := by
  unfold startsAt
  rw [if_pos hp]
  exact fun hzero => hne (List.eq_nil_of_length_eq_zero hzero)

theorem sub_startsAt_of_none [DecidableEq α] {s : List α} (h : ¬ w <:+: s) : sub (startsAt w) rep 0 s = s := by
  have hone : firstOf [w] = startsAt w := by
    funext s
    unfold firstOf startsAt
    rw [List.find?_singleton]
    by_cases hp : w <+: s <;> simp [hp]
  rw [← hone]
  refine sub_of_none fun v hv => ?_
  obtain rfl := List.mem_singleton.1 hv
  exact h

/-! ## Marks -/

/-- The items with one mark for all of them. -/
def mark (b : Bool) (s : List α) : List (α × Bool) := s.map fun c => (c, b)

/-- The matcher of the items that passes over their marks. -/
def unmarked (m : List α → ℕ) (s : List (α × Bool)) : ℕ := m (s.map Prod.fst)

theorem map_fst_mark (b : Bool) (s : List α) : (mark b s).map Prod.fst = s := by
  unfold mark
  rw [List.map_map]
  exact List.map_id s

theorem map_fst_sub (m : List α → ℕ) (rep : List α) : ∀ (s : List (α × Bool)) (k : ℕ),
    (sub (unmarked m) (mark true rep) k s).map Prod.fst = sub m rep k (s.map Prod.fst) := by
  intro s
  induction s with
  | nil => intro k; cases k <;> rfl
  | cons c s ih =>
    intro k
    cases k with
    | succ k => exact ih k
    | zero =>
      have hread : unmarked m (c :: s) = m (c.1 :: s.map Prod.fst) := rfl
      rw [List.map_cons]
      unfold sub
      rw [hread]
      cases m (c.1 :: s.map Prod.fst) with
      | zero => exact congrArg (c.1 :: ·) (ih 0)
      | succ k =>
        change (mark true rep ++ sub (unmarked m) (mark true rep) k s).map Prod.fst = rep ++ sub m rep k (s.map Prod.fst)
        rw [List.map_append, map_fst_mark, ih k]

theorem map_fst_replaced : ∀ (ms : List (List α → ℕ)) (s : List (α × Bool)),
    (replaced (mark true rep) (ms.map unmarked) s).map Prod.fst = replaced rep ms (s.map Prod.fst) := by
  intro ms
  induction ms with
  | nil => exact fun _ => rfl
  | cons m ms ih =>
    intro s
    have hrest := ih (sub (unmarked m) (mark true rep) 0 s)
    rw [map_fst_sub] at hrest
    exact hrest

/-- A word without marks lies apart from one with marks. -/
theorem apart_mark (hne : w ≠ []) (hrep : rep ≠ []) : Apart (mark false w) (mark true rep) := by
  have hmeets : ∀ {b : Bool} {u v : List α}, v ≠ [] → ¬ Meets (mark b u) (mark (!b) v) := by
    rintro b u v hv ⟨x, hx, hsuf, hmeet⟩
    have hmark : ∀ {b : Bool} {u : List α} {y : α × Bool}, y ∈ mark b u → y.2 = b := by
      intro b u y hy
      obtain ⟨c, -, rfl⟩ := List.mem_map.1 hy
      rfl
    have hclash : ∀ y, y ∈ mark b u → y ∉ mark (!b) v := by
      intro y hy hy'
      have heq := (hmark hy).symm.trans (hmark hy')
      cases b <;> cases heq
    rcases hmeet with hp | hp
    · obtain ⟨c, x, rfl⟩ := List.exists_cons_of_ne_nil hx
      exact hclash c (hsuf.subset List.mem_cons_self) (hp.subset List.mem_cons_self)
    · obtain ⟨c, v, rfl⟩ := List.exists_cons_of_ne_nil hv
      exact hclash _ (hsuf.subset (hp.subset List.mem_cons_self)) List.mem_cons_self
  exact ⟨hmeets hrep, hmeets hne⟩

end Stablemate.Scan
