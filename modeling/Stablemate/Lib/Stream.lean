import Stablemate.Lib.Scan

/-!
# Replacing in a list that arrives in pieces

* `spans`: where a matcher reads something, left to right.
* `copy`: copies a list up to a place `safe`, with `rep` for each span that starts before it.
* `copy_spans`: **what is copied, and the replacement in what is left, are the replacement in the
  whole**, whatever follows: a matcher that looks at no more than `longest` items is not misled
  before `safe`.
* `firstOf`: the first of some words that stands at the front; `firstOf_eq_longestOf`: the longest,
  where longer words come first.
* `not_infix_sub`: **no word is left** where the words lie `Apart` from what is put for them.
-/

namespace Stablemate.Scan

variable {α : Type*} {m : List α → ℕ} {rep held s r : List α} {longest safe i k pos : ℕ}

/-- The spans that `m` reads in a list that starts at `i`; the first counter is how many items of
the current span are still to be passed over. -/
def spans (m : List α → ℕ) : ℕ → ℕ → List α → List (ℕ × ℕ)
  | _, _, [] => []
  | k + 1, i, _ :: s => spans m k (i + 1) s
  | 0, i, c :: s =>
    match m (c :: s) with
    | 0 => spans m 0 (i + 1) s
    | k + 1 => (i, i + k + 1) :: spans m k (i + 1) s

/-- Copies from `pos` on, with `rep` for each span that starts before `safe`: what is copied up to
the end of the last such span, and that end. -/
def copy (rep held : List α) (safe : ℕ) : ℕ → List (ℕ × ℕ) → List α × ℕ
  | pos, [] => ([], pos)
  | pos, (start, stop) :: rest =>
    if safe ≤ start then ([], pos)
    else
      let (out, last) := copy rep held safe stop rest
      ((held.drop pos).take (start - pos) ++ rep ++ out, last)

/-- A matcher that reads inside the list and looks at no more than `longest` items. -/
structure Local (m : List α → ℕ) (longest : ℕ) : Prop where
  within : ∀ s, m s ≤ s.length
  sees : ∀ s r, longest ≤ s.length → m (s ++ r) = m s

theorem sub_skip : ∀ {k : ℕ} {s : List α}, k ≤ s.length → sub m rep k (s ++ r) = sub m rep 0 (s.drop k ++ r) := by
  intro k
  induction k with
  | zero => exact fun _ => rfl
  | succ k ih =>
    intro s hk
    cases s with
    | nil => simp at hk
    | cons c s =>
      rw [List.length_cons] at hk
      exact ih (by omega)

theorem spans_skip : ∀ {k i : ℕ} {s : List α}, spans m k i s = spans m 0 (i + k) (s.drop k) := by
  intro k
  induction k with
  | zero => exact fun {i s} => rfl
  | succ k ih =>
    intro i s
    cases s with
    | nil => rfl
    | cons c s =>
      have hi : i + (k + 1) = i + 1 + k := by omega
      rw [hi]
      exact ih

/-- Every span starts at the front of the list or past it. -/
theorem le_of_mem_spans : ∀ {s : List α} {k i : ℕ} {a : ℕ × ℕ}, a ∈ spans m k i s → i ≤ a.1 := by
  intro s
  induction s with
  | nil =>
    intro k i a h
    cases k <;> cases h
  | cons c s ih =>
    intro k i a h
    cases k with
    | succ k =>
      have := ih h
      omega
    | zero =>
      unfold spans at h
      split at h
      · have := ih h
        omega
      · rcases List.mem_cons.1 h with rfl | h
        · exact le_rfl
        · have := ih h
          omega

theorem copy_stop (h : safe ≤ i) : copy rep held safe pos (spans m k i s) = ([], pos) := by
  cases hs : spans m k i s with
  | nil => rfl
  | cons a as =>
    have hmem : a ∈ spans m k i s := by
      rw [hs]
      exact List.mem_cons_self
    have ha := le_of_mem_spans hmem
    exact if_pos (by omega)

theorem take_drop_snoc {pos i : ℕ} {c : α} (hpos : pos ≤ i) (hc : held.drop i = c :: s) :
    (held.drop pos).take (i + 1 - pos) = (held.drop pos).take (i - pos) ++ [c] := by
  have hget : (held.drop pos)[i - pos]? = some c := by
    have h0 : (held.drop i)[0]? = some c := by rw [hc]; rfl
    rw [List.getElem?_drop] at h0 ⊢
    have hi : pos + (i - pos) = i + 0 := by omega
    rw [hi, h0]
  have hsucc : i + 1 - pos = i - pos + 1 := by omega
  rw [hsucc, List.take_add_one, hget]
  rfl

variable (rep held safe) in
/-- **Copying up to `safe` and replacing in the rest is replacing in the whole.** -/
theorem copy_spans (hm : Local m longest) (hpos : 0 < longest) (hsafe : safe = 0 ∨ safe + longest ≤ held.length + 1)
    (r : List α) : ∀ (n i pos : ℕ), safe - i ≤ n → pos ≤ i → (i ≤ safe ∨ pos = i) →
      (held.drop pos).take (i - pos) ++ sub m rep 0 (held.drop i ++ r) =
        (copy rep held safe pos (spans m 0 i (held.drop i))).1 ++
          (held.drop (copy rep held safe pos (spans m 0 i (held.drop i))).2).take
            (max (copy rep held safe pos (spans m 0 i (held.drop i))).2 safe -
              (copy rep held safe pos (spans m 0 i (held.drop i))).2) ++
          sub m rep 0 (held.drop (max (copy rep held safe pos (spans m 0 i (held.drop i))).2 safe) ++ r) := by
  intro n
  induction n with
  | zero =>
    intro i pos hn hle hor
    have hstop : safe ≤ i := by omega
    have hcut : max pos safe = i := by omega
    rw [copy_stop hstop, hcut]
    rfl
  | succ n ih =>
    intro i pos hn hle hor
    by_cases hstop : safe ≤ i
    · have hcut : max pos safe = i := by omega
      rw [copy_stop hstop, hcut]
      rfl
    · have hlen : i < held.length := by omega
      obtain ⟨c, s, hc⟩ := List.exists_cons_of_ne_nil (l := held.drop i) (by
        intro hnil
        have := congrArg List.length hnil
        rw [List.length_drop, List.length_nil] at this
        omega)
      have hdrop : held.drop (i + 1) = s := by
        rw [← List.tail_drop, hc]
        rfl
      have hsees : m (c :: (s ++ r)) = m (c :: s) := by
        refine hm.sees (c :: s) r ?_
        rw [← hc, List.length_drop]
        omega
      have hwithin := hm.within (c :: s)
      rw [hc, List.cons_append, sub, spans, hsees]
      cases hmatch : m (c :: s) with
      | zero =>
        -- the item is kept
        have hrest := ih (i + 1) pos (by omega) (by omega) (.inl (by omega))
        rw [hdrop, take_drop_snoc hle hc, List.append_assoc, List.singleton_append] at hrest
        exact hrest
      | succ k =>
        -- the span is put out as `rep`, and the scan goes on past it
        rw [hmatch, List.length_cons] at hwithin
        have hpast : (held.drop (i + k + 1)) = s.drop k := by
          rw [← hdrop, List.drop_drop]
          congr 1
          omega
        have hrest := ih (i + k + 1) (i + k + 1) (by omega) le_rfl (.inr rfl)
        have hskip : spans m k (i + 1) s = spans m 0 (i + k + 1) (s.drop k) := by
          rw [spans_skip]
          congr 1
          omega
        rw [Nat.sub_self, List.take_zero, List.nil_append, hpast] at hrest
        dsimp only
        rw [copy, if_neg hstop, sub_skip (by omega), hrest, hskip]
        simp only [List.append_assoc]

/-! ## Words that lie apart from what is put -/

/-- Some items at the end of `a` are the first items of `b`, or begin with all of `b`. -/
def Meets (a b : List α) : Prop := ∃ x, x ≠ [] ∧ x <:+ a ∧ (x <+: b ∨ b <+: x)

/-- No place of `a` can be a place of `b` too. -/
def Apart (a b : List α) : Prop := ¬ Meets a b ∧ ¬ Meets b a

instance [DecidableEq α] (a b : List α) : Decidable (Meets a b) :=
  decidable_of_iff (∃ x ∈ a.tails, x ≠ [] ∧ (x <+: b ∨ b <+: x)) <| by
    unfold Meets
    refine exists_congr fun x => ?_
    rw [List.mem_tails]
    tauto

instance [DecidableEq α] (a b : List α) : Decidable (Apart a b) := inferInstanceAs (Decidable (_ ∧ _))

/-- A word that stands at the front of the result stood at the front of the list. -/
theorem prefix_of_sub : ∀ {s w : List α}, (∀ x, x ≠ [] → x <:+ w → ¬ (x <+: rep ∨ rep <+: x)) →
    w <+: sub m rep 0 s → w <+: s := by
  intro s
  induction s with
  | nil => exact fun _ h => h
  | cons c s ih =>
    intro w hapart hp
    cases w with
    | nil => exact List.nil_prefix
    | cons a w =>
      unfold sub at hp
      split at hp
      · obtain ⟨rfl, hrest⟩ := List.cons_prefix_cons.1 hp
        refine List.cons_prefix_cons.2 ⟨rfl, ih (fun x hx hsuf => ?_) hrest⟩
        exact hapart x hx (hsuf.trans (List.suffix_cons a w))
      · refine absurd ?_ (hapart (a :: w) (List.cons_ne_nil a w) List.suffix_rfl)
        exact List.prefix_or_prefix_of_prefix hp (List.prefix_append rep _)

/-- A word in what follows `rep` comes after it, unless the two meet. -/
theorem infix_of_rep {w rest : List α} : ∀ {y : List α}, (∀ x, x ≠ [] → x <:+ y → ¬ (x <+: w ∨ w <+: x)) →
    w <:+: y ++ rest → w <:+: rest := by
  intro y
  induction y with
  | nil => exact fun _ h => h
  | cons c y ih =>
    intro hapart h
    rw [List.cons_append, List.infix_cons_iff] at h
    rcases h with hp | h
    · refine absurd ?_ (hapart (c :: y) (List.cons_ne_nil c y) List.suffix_rfl)
      exact (List.prefix_or_prefix_of_prefix hp (List.prefix_append (c :: y) rest)).symm
    · exact ih (fun x hx hsuf => hapart x hx (hsuf.trans (List.suffix_cons c y))) h

/-! ## The first of some words -/

section Words

variable [DecidableEq α] {words : List (List α)} {w : List α}

/-- The matcher of the first of `words` that stands at the front. -/
def firstOf (words : List (List α)) (s : List α) : ℕ :=
  match words.find? (fun w => decide (w <+: s)) with
  | some w => w.length
  | none => 0

theorem firstOf_cases (words : List (List α)) (s : List α) :
    (∃ w ∈ words, w <+: s ∧ firstOf words s = w.length) ∨ ((∀ w ∈ words, ¬ w <+: s) ∧ firstOf words s = 0) := by
  unfold firstOf
  cases h : words.find? fun w => decide (w <+: s) with
  | none =>
    refine .inr ⟨fun w hw hp => ?_, rfl⟩
    simpa [hp] using List.find?_eq_none.1 h w hw
  | some w =>
    have hp := List.find?_some h
    exact .inl ⟨w, List.mem_of_find?_eq_some h, of_decide_eq_true hp, rfl⟩

/-- Where longer words come first, the longest one at the front is read. -/
theorem firstOf_longest (hsort : words.Pairwise fun a b => b.length ≤ a.length) (hw : w ∈ words) (hp : w <+: s) :
    w.length ≤ firstOf words s := by
  induction words with
  | nil => cases hw
  | cons a words ih =>
    have hcons : firstOf (a :: words) s = if a <+: s then a.length else firstOf words s := by
      unfold firstOf
      rw [List.find?_cons]
      by_cases ha : a <+: s <;> simp [ha]
    rw [List.pairwise_cons] at hsort
    rw [hcons]
    rcases List.mem_cons.1 hw with rfl | hw
    · rw [if_pos hp]
    · split
      · exact hsort.1 w hw
      · exact ih hsort.2 hw

theorem local_firstOf (hlong : ∀ w ∈ words, w.length ≤ longest) : Local (firstOf words) longest := by
  refine ⟨fun s => ?_, fun s r hs => ?_⟩
  · rcases firstOf_cases words s with ⟨w, -, hp, heq⟩ | ⟨-, heq⟩
    · rw [heq]
      exact hp.length_le
    · omega
  · have hsame : ∀ w ∈ words, decide (w <+: s ++ r) = decide (w <+: s) := by
      intro w hw
      refine decide_eq_decide.2 ⟨fun h => ?_, fun h => h.trans (List.prefix_append s r)⟩
      exact List.prefix_of_prefix_length_le h (List.prefix_append s r) (le_trans (hlong w hw) hs)
    have hfind : words.find? (fun w => decide (w <+: s ++ r)) = words.find? fun w => decide (w <+: s) := by
      rw [← List.head?_filter, ← List.head?_filter, List.filter_congr hsame]
    unfold firstOf
    rw [hfind]

theorem firstOf_ne_zero (hne : ∀ w ∈ words, w ≠ []) (hw : w ∈ words) (hp : w <+: s) : firstOf words s ≠ 0 := by
  rcases firstOf_cases words s with ⟨a, ha, -, heq⟩ | ⟨hnone, -⟩
  · rw [heq]
    exact fun hzero => hne a ha (List.eq_nil_of_length_eq_zero hzero)
  · exact absurd hp (hnone w hw)

/-- **No word is left.** -/
theorem not_infix_sub (hne : ∀ w ∈ words, w ≠ []) (hw : w ∈ words) (hapart : Apart w rep) :
    ∀ (n : ℕ) (s : List α), s.length ≤ n → ¬ w <:+: sub (firstOf words) rep 0 s := by
  have hnil : ¬ w <:+: [] := fun h => hne w hw (List.infix_nil.1 h)
  intro n
  induction n with
  | zero =>
    intro s hs
    rw [List.eq_nil_of_length_eq_zero (Nat.le_zero.1 hs)]
    exact hnil
  | succ n ih =>
    intro s hs h
    cases s with
    | nil => exact hnil h
    | cons c s =>
      rw [List.length_cons] at hs
      have hsub := h
      unfold sub at hsub
      split at hsub
      · rename_i hzero
        rcases List.infix_cons_iff.1 hsub with hp | hin
        · have hfront : w <+: c :: s := by
            refine prefix_of_sub (m := firstOf words) (fun x hx hsuf hmeet => hapart.1 ⟨x, hx, hsuf, hmeet⟩) ?_
            rw [sub, hzero]
            exact hp
          exact firstOf_ne_zero hne hw hfront hzero
        · exact ih s (by omega) hin
      · rename_i k hk
        have hle : k ≤ s.length := by
          rcases firstOf_cases words (c :: s) with ⟨a, -, hp, heq⟩ | ⟨-, heq⟩
          · have := hp.length_le
            rw [List.length_cons] at this
            omega
          · omega
        have hin := infix_of_rep (fun x hx hsuf hmeet => hapart.2 ⟨x, hx, hsuf, hmeet⟩) hsub
        have hskip : sub (firstOf words) rep k (s ++ []) = sub (firstOf words) rep 0 (s.drop k ++ []) := sub_skip hle
        rw [List.append_nil, List.append_nil] at hskip
        rw [hskip] at hin
        refine ih _ ?_ hin
        rw [List.length_drop]
        omega

/-- Where no word stands, nothing is replaced. -/
theorem sub_of_none : ∀ {s : List α}, (∀ w ∈ words, ¬ w <:+: s) → sub (firstOf words) rep 0 s = s := by
  intro s
  induction s with
  | nil => exact fun _ => rfl
  | cons c s ih =>
    intro h
    have hzero : firstOf words (c :: s) = 0 := by
      rcases firstOf_cases words (c :: s) with ⟨w, hw, hp, -⟩ | ⟨-, heq⟩
      · exact absurd hp.isInfix (h w hw)
      · exact heq
    rw [sub, hzero]
    exact congrArg (c :: ·) (ih fun w hw hin => h w hw (List.infix_cons_iff.2 (.inr hin)))

/-- How long the longest of `words` at the front is. -/
def longestOf (words : List (List α)) (s : List α) : ℕ :=
  ((words.filter fun w => decide (w <+: s)).map List.length).foldr max 0

theorem longestOf_le_iff {n : ℕ} : longestOf words s ≤ n ↔ ∀ w ∈ words, w <+: s → w.length ≤ n := by
  have hfold : ∀ ns : List ℕ, ns.foldr max 0 ≤ n ↔ ∀ m ∈ ns, m ≤ n := by
    intro ns
    induction ns with
    | nil => simp
    | cons m ns ih => rw [List.foldr_cons, Nat.max_le, ih, List.forall_mem_cons]
  unfold longestOf
  rw [hfold, List.forall_mem_map]
  refine forall_congr' fun w => ?_
  rw [List.mem_filter, decide_eq_true_iff, and_imp]

/-- The order of the words does not matter to what is read. -/
theorem longestOf_congr {words' : List (List α)} (h : ∀ w, w ∈ words ↔ w ∈ words') (s : List α) :
    longestOf words s = longestOf words' s := by
  refine le_antisymm (longestOf_le_iff.2 fun w hw => ?_) (longestOf_le_iff.2 fun w hw => ?_)
  · exact longestOf_le_iff.1 le_rfl w ((h w).1 hw)
  · exact longestOf_le_iff.1 le_rfl w ((h w).2 hw)

theorem firstOf_eq_longestOf (hsort : words.Pairwise fun a b => b.length ≤ a.length) (s : List α) :
    firstOf words s = longestOf words s := by
  refine le_antisymm ?_ (longestOf_le_iff.2 fun w hw hp => firstOf_longest hsort hw hp)
  rcases firstOf_cases words s with ⟨w, hw, hp, heq⟩ | ⟨-, heq⟩
  · rw [heq]
    exact longestOf_le_iff.1 le_rfl w hw hp
  · omega

end Words

end Stablemate.Scan
