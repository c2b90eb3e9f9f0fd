import Mathlib.Data.List.Forall2
import Mathlib.Data.List.Infix
import Mathlib.Data.List.TakeWhile

/-!
# Scanning a list and replacing what a matcher reads

A matcher says how many items it reads at the front of a list, `0` for none. `sub m rep`
goes from left to right and puts `rep` where `m` reads something; `strike m dot` puts one
`dot` for each item read instead, so positions stay.

A matcher is `Plain` when it never looks at a `dot` or past one. For plain matchers and a
`rep` made of dots the two results are `Alike`: equal but for the lengths of their runs of
dots. Lists alike hold the same dot-free words (`Alike.infix_iff`), and appending keeps
lists alike (`Alike.append`).
-/

namespace Stablemate.Scan

variable {α : Type*}

/-- Puts `rep` where `m` reads something, left to right; the counter is how many items of
the current match are still to be dropped. -/
def sub (m : List α → ℕ) (rep : List α) : ℕ → List α → List α
  | _, [] => []
  | k + 1, _ :: s => sub m rep k s
  | 0, c :: s =>
    match m (c :: s) with
    | 0 => c :: sub m rep 0 s
    | k + 1 => rep ++ sub m rep k s

/-- The same scan with one `dot` for each item read. -/
def strike (m : List α → ℕ) (dot : α) : ℕ → List α → List α
  | _, [] => []
  | k + 1, _ :: s => dot :: strike m dot k s
  | 0, c :: s =>
    match m (c :: s) with
    | 0 => c :: strike m dot 0 s
    | k + 1 => dot :: strike m dot k s

/-- Each item is kept or struck. -/
theorem strike_forall₂ (m : List α → ℕ) (dot : α) :
    ∀ (s : List α) (k : ℕ), List.Forall₂ (fun c d => d = c ∨ d = dot) s (strike m dot k s) := by
  intro s
  induction s with
  | nil => intro k; cases k <;> exact .nil
  | cons c s ih =>
    intro k
    cases k with
    | succ k => exact .cons (.inr rfl) (ih k)
    | zero =>
      unfold strike
      split
      · exact .cons (.inl rfl) (ih 0)
      · exact .cons (.inr rfl) (ih _)

section Struck

variable {dot : α} {s t w : List α}

/-- A dot-free word at the front of a struck list stood at the front of the list. -/
theorem prefix_of_struck (h : List.Forall₂ (fun c d => d = c ∨ d = dot) s t) :
    ∀ {w : List α}, dot ∉ w → w <+: t → w <+: s := by
  induction h with
  | nil => intro w _ hp; exact hp
  | @cons c d s t hd _ ih =>
    intro w hw hp
    cases w with
    | nil => exact List.nil_prefix
    | cons a w =>
      obtain ⟨rfl, hp'⟩ := List.cons_prefix_cons.1 hp
      rcases hd with rfl | rfl
      · exact List.cons_prefix_cons.2 ⟨rfl, ih (fun h => hw (List.mem_cons_of_mem _ h)) hp'⟩
      · exact absurd List.mem_cons_self hw

theorem infix_of_struck (h : List.Forall₂ (fun c d => d = c ∨ d = dot) s t) (hw : dot ∉ w)
    (hi : w <:+: t) : w <:+: s := by
  induction h with
  | nil => exact hi
  | cons hd h ih =>
    rcases List.infix_cons_iff.1 hi with hp | hi
    · exact (prefix_of_struck (.cons hd h) hw hp).isInfix
    · exact List.infix_cons_iff.2 (.inr (ih hi))

theorem struck_trans {u : List α} (h : List.Forall₂ (fun c d => d = c ∨ d = dot) s t)
    (h' : List.Forall₂ (fun c d => d = c ∨ d = dot) t u) :
    List.Forall₂ (fun c d => d = c ∨ d = dot) s u := by
  induction h generalizing u with
  | nil => exact h'
  | cons hd _ ih =>
    cases h' with
    | cons hd' h' =>
      refine .cons ?_ (ih h')
      rcases hd' with rfl | rfl
      · exact hd
      · exact .inr rfl

/-- The matcher of one word: all of it, or nothing. -/
def startsAt [DecidableEq α] (w s : List α) : ℕ := if w <+: s then w.length else 0

/-- **A struck word is gone.** -/
theorem strike_startsAt [DecidableEq α] (hw : dot ∉ w) (hne : w ≠ []) :
    ∀ (s : List α) (k : ℕ), ¬ w <:+: strike (startsAt w) dot k s := by
  have hlen : 0 < w.length := List.length_pos_of_ne_nil hne
  have hdot : ∀ r : List α, ¬ w <+: dot :: r := by
    intro r hp
    obtain ⟨d, w, rfl⟩ := List.exists_cons_of_ne_nil hne
    obtain ⟨rfl, -⟩ := List.cons_prefix_cons.1 hp
    exact hw List.mem_cons_self
  intro s
  induction s with
  | nil =>
    intro k hi
    have : strike (startsAt w) dot k [] = [] := by cases k <;> rfl
    rw [this] at hi
    exact hne (List.infix_nil.1 hi)
  | cons c s ih =>
    intro k hi
    cases k with
    | succ k => exact (List.infix_cons_iff.1 hi).elim (hdot _) (ih k)
    | zero =>
      have hF := strike_forall₂ (startsAt w) dot (c :: s) 0
      unfold strike at hi hF
      split at hi
      · next h0 =>
        rw [h0] at hF
        refine (List.infix_cons_iff.1 hi).elim (fun hp => ?_) (ih 0)
        -- the word stands here in the scanned list too, so the matcher reads it
        have := prefix_of_struck hF hw hp
        unfold startsAt at h0
        rw [if_pos this] at h0; omega
      · exact (List.infix_cons_iff.1 hi).elim (hdot _) (ih _)

end Struck

/-- Equal but for the lengths of the runs of dots. -/
inductive Alike (dot : α) : List α → List α → Prop
  | nil : Alike dot [] []
  | cons (c : α) {s t : List α} : Alike dot s t → Alike dot (c :: s) (c :: t)
  | dots (i j : ℕ) {s t : List α} : Alike dot s t →
      Alike dot (List.replicate (i + 1) dot ++ s) (List.replicate (j + 1) dot ++ t)

variable {dot : α} {s t : List α} {m : List α → ℕ}

theorem Alike.refl (dot : α) : ∀ s : List α, Alike dot s s
  | [] => .nil
  | c :: s => .cons c (Alike.refl dot s)

theorem Alike.symm (h : Alike dot s t) : Alike dot t s := by
  induction h with
  | nil => exact .nil
  | cons c _ ih => exact .cons c ih
  | dots i j _ ih => exact .dots j i ih

theorem Alike.append {s' t' : List α} (h : Alike dot s t) (h' : Alike dot s' t') :
    Alike dot (s ++ s') (t ++ t') := by
  induction h with
  | nil => exact h'
  | cons c _ ih => exact .cons c ih
  | dots i j _ ih => rw [List.append_assoc, List.append_assoc]; exact .dots i j ih

/-- The lists of two lists of pieces, alike piece by piece, are alike. -/
theorem Alike.flatten {ss ts : List (List α)} (h : List.Forall₂ (Alike dot) ss ts) :
    Alike dot ss.flatten ts.flatten := by
  induction h with
  | nil => exact .nil
  | cons h _ ih => exact h.append ih

section Words

variable {w : List α}

theorem prefix_of_alike (h : Alike dot s t) : ∀ {w : List α}, dot ∉ w → w <+: s → w <+: t := by
  induction h with
  | nil => intro w _ hp; exact hp
  | cons c _ ih =>
    intro w hw hp
    cases w with
    | nil => exact List.nil_prefix
    | cons d w =>
      obtain ⟨rfl, hp'⟩ := List.cons_prefix_cons.1 hp
      exact List.cons_prefix_cons.2 ⟨rfl, ih (fun h => hw (List.mem_cons_of_mem _ h)) hp'⟩
  | dots i j _ _ =>
    intro w hw hp
    cases w with
    | nil => exact List.nil_prefix
    | cons d w =>
      rw [List.replicate_succ, List.cons_append] at hp
      obtain ⟨rfl, -⟩ := List.cons_prefix_cons.1 hp
      exact absurd List.mem_cons_self hw

/-- A word without dots that follows a run of dots is found past the run. -/
theorem infix_dots (hw : dot ∉ w) (hne : w ≠ []) {n : ℕ} :
    w <:+: List.replicate n dot ++ s ↔ w <:+: s := by
  induction n with
  | zero => simp
  | succ n ih =>
    rw [List.replicate_succ, List.cons_append, List.infix_cons_iff, ih]
    refine ⟨fun h => h.resolve_left fun hp => ?_, .inr⟩
    obtain ⟨d, w, rfl⟩ := List.exists_cons_of_ne_nil hne
    obtain ⟨rfl, -⟩ := List.cons_prefix_cons.1 hp
    exact hw List.mem_cons_self

theorem infix_of_alike (h : Alike dot s t) (hw : dot ∉ w) (hne : w ≠ []) (hi : w <:+: s) :
    w <:+: t := by
  induction h with
  | nil => exact hi
  | cons c h ih =>
    rcases List.infix_cons_iff.1 hi with hp | hi
    · exact (prefix_of_alike (.cons c h) hw hp).isInfix
    · exact List.infix_cons_iff.2 (.inr (ih hi))
  | dots i j _ ih => exact (infix_dots hw hne).2 (ih ((infix_dots hw hne).1 hi))

/-- **Lists alike hold the same dot-free words.** -/
theorem Alike.infix_iff (h : Alike dot s t) (hw : dot ∉ w) (hne : w ≠ []) :
    w <:+: s ↔ w <:+: t :=
  ⟨infix_of_alike h hw hne, infix_of_alike h.symm hw hne⟩

end Words

section Plain

variable [DecidableEq α]

/-- The part of a list before its first dot. -/
def clear (dot : α) (s : List α) : List α := s.takeWhile fun c => decide (c ≠ dot)

/-- A matcher that sees no dot: it reads inside the part before the first one. -/
structure Plain (dot : α) (m : List α → ℕ) : Prop where
  sees : ∀ s, m s = m (clear dot s)
  within : ∀ s, m s ≤ (clear dot s).length

@[simp] theorem clear_dot (s : List α) : clear dot (dot :: s) = [] := by simp [clear]

theorem clear_cons {c : α} (hc : c ≠ dot) (s : List α) : clear dot (c :: s) = c :: clear dot s := by
  simp [clear, hc]

@[simp] theorem clear_clear (s : List α) : clear dot (clear dot s) = clear dot s :=
  List.takeWhile_idem

theorem clear_alike (h : Alike dot s t) : clear dot s = clear dot t := by
  induction h with
  | nil => rfl
  | cons c _ ih =>
    by_cases hc : c = dot
    · subst hc; simp
    · rw [clear_cons hc, clear_cons hc, ih]
  | dots i j _ _ => simp [List.replicate_succ]

theorem Plain.at_dot (hm : Plain dot m) (s : List α) : m (dot :: s) = 0 := by
  have := hm.within (dot :: s)
  simpa using this

theorem Plain.alike (hm : Plain dot m) (h : Alike dot s t) : m s = m t := by
  rw [hm.sees s, hm.sees t, clear_alike h]

/-- A plain matcher that reads something starts on an item that is no dot. -/
theorem Plain.head (hm : Plain dot m) {c : α} {k : ℕ} (h : m (c :: s) = k + 1) :
    c ≠ dot ∧ k ≤ (clear dot s).length := by
  have hc : c ≠ dot := by
    rintro rfl
    rw [hm.at_dot] at h; omega
  have hw := hm.within (c :: s)
  rw [h, clear_cons hc, List.length_cons] at hw
  exact ⟨hc, by omega⟩

theorem sub_dots (hm : Plain dot m) (rep : List α) (n : ℕ) :
    sub m rep 0 (List.replicate n dot ++ s) = List.replicate n dot ++ sub m rep 0 s := by
  induction n with
  | zero => rfl
  | succ n ih =>
    rw [List.replicate_succ, List.cons_append, sub, hm.at_dot]
    simp only [List.cons_append, ih]

theorem strike_dots (hm : Plain dot m) (n : ℕ) :
    strike m dot 0 (List.replicate n dot ++ s) = List.replicate n dot ++ strike m dot 0 s := by
  induction n with
  | zero => rfl
  | succ n ih =>
    rw [List.replicate_succ, List.cons_append, strike, hm.at_dot]
    simp only [List.cons_append, ih]

/-- **Replacing and striking stay alike.** At the start of a match (`k = 0`) the two scans
are alike; inside one, past the dots both have put for it. -/
theorem sub_alike_strike (hm : Plain dot m) (r : ℕ) (h : Alike dot s t) :
    Alike dot (sub m (List.replicate (r + 1) dot) 0 s) (strike m dot 0 t) ∧
      ∀ k, k ≤ (clear dot s).length → ∀ i j,
        Alike dot (List.replicate (i + 1) dot ++ sub m (List.replicate (r + 1) dot) k s)
          (List.replicate (j + 1) dot ++ strike m dot k t) := by
  induction h with
  | nil =>
    refine ⟨.nil, fun k _ i j => ?_⟩
    cases k <;> exact .dots i j .nil
  | @cons c s t h ih =>
    have hstart : Alike dot (sub m (List.replicate (r + 1) dot) 0 (c :: s))
        (strike m dot 0 (c :: t)) := by
      unfold sub strike
      rw [← hm.alike (.cons c h)]
      split
      · exact .cons c ih.1
      · next k hk => exact ih.2 k (hm.head hk).2 r 0
    refine ⟨hstart, fun k hk i j => ?_⟩
    cases k with
    | zero => exact .dots i j hstart
    | succ k =>
      -- the items still to be dropped come before the next dot
      have hc : c ≠ dot := by
        rintro rfl
        simp at hk
      rw [clear_cons hc, List.length_cons] at hk
      have := ih.2 k (by omega) i (j + 1)
      rw [List.replicate_succ' (n := j + 1), List.append_assoc] at this
      exact this
  | @dots i j s t h ih =>
    rw [sub_dots hm, strike_dots hm]
    refine ⟨.dots i j ih.1, fun k hk i' j' => ?_⟩
    obtain rfl : k = 0 := by simpa [List.replicate_succ] using hk
    rw [sub_dots hm, strike_dots hm, ← List.append_assoc, ← List.append_assoc,
      List.replicate_append_replicate, List.replicate_append_replicate]
    exact .dots _ _ ih.1

/-- A dot-free word stands at the front of a list iff it does before the first dot. -/
theorem prefix_clear {w : List α} (hw : dot ∉ w) (s : List α) : w <+: s ↔ w <+: clear dot s := by
  induction w generalizing s with
  | nil => simp
  | cons d w ih =>
    rw [List.mem_cons, not_or] at hw
    cases s with
    | nil => simp [clear]
    | cons c s =>
      by_cases hc : c = dot
      · subst hc; simp [List.cons_prefix_cons, Ne.symm hw.1]
      · rw [clear_cons hc, List.cons_prefix_cons, List.cons_prefix_cons, ih hw.2]

theorem clear_append {w : List α} (hw : dot ∉ w) (s : List α) :
    clear dot (w ++ s) = w ++ clear dot s := by
  induction w with
  | nil => rfl
  | cons d w ih =>
    rw [List.mem_cons, not_or] at hw
    rw [List.cons_append, clear_cons (Ne.symm hw.1), ih hw.2, List.cons_append]

/-- A run of items of a class without the dot ends by the first dot. -/
theorem takeWhile_clear {p : α → Bool} (hp : p dot = false) (s : List α) :
    s.takeWhile p = (clear dot s).takeWhile p := by
  induction s with
  | nil => rfl
  | cons c s ih =>
    by_cases hc : c = dot
    · subst hc; simp [hp]
    · rw [clear_cons hc, List.takeWhile_cons, List.takeWhile_cons, ih]

/-- The matcher of a dot-free word is plain. -/
theorem plain_startsAt {w : List α} (hw : dot ∉ w) : Plain dot (startsAt w) := by
  refine ⟨fun s => by unfold startsAt; rw [if_congr (prefix_clear hw s) rfl rfl], fun s => ?_⟩
  unfold startsAt
  split
  · next h => exact ((prefix_clear hw s).1 h).length_le
  · exact Nat.zero_le _

/-- Matchers applied one after the other, replacing and striking. -/
theorem foldl_alike {ms : List (List α → ℕ)} (hms : ∀ m ∈ ms, Plain dot m) (r : ℕ) :
    ∀ {s t : List α}, Alike dot s t →
      Alike dot (ms.foldl (fun x m => sub m (List.replicate (r + 1) dot) 0 x) s)
        (ms.foldl (fun x m => strike m dot 0 x) t) := by
  induction ms with
  | nil => intro s t h; exact h
  | cons m ms ih =>
    intro s t h
    exact ih (fun m' h' => hms m' (List.mem_cons_of_mem _ h'))
      (sub_alike_strike (hms m List.mem_cons_self) r h).1

end Plain

/-! ## A word in a list of pieces -/

/-- A word in the concatenation of pieces lies in one of them, or over a place where one
ends and the next begins. -/
theorem infix_flatten_cases {w : List α} (hne : w ≠ []) : ∀ (ps : List (List α)) {x y : List α},
    ps.flatten = x ++ w ++ y → (∃ p ∈ ps, w <:+: p) ∨ ∃ k < ps.length,
      x.length < (ps.take k).flatten.length ∧ (ps.take k).flatten.length < x.length + w.length := by
  intro ps
  induction ps with
  | nil => intro x y h; simp [hne] at h
  | cons p ps ih =>
    intro x y h
    rw [List.flatten_cons] at h
    rcases le_or_gt (x.length + w.length) p.length with hin | hout
    · -- the word ends inside the first piece
      have hpre : x ++ w <+: p := by
        refine List.prefix_of_prefix_length_le ⟨y, h.symm⟩ (List.prefix_append p _) ?_
        rw [List.length_append]; exact hin
      exact .inl ⟨p, List.mem_cons_self, (List.suffix_append x w).isInfix.trans hpre.isInfix⟩
    · rcases le_or_gt p.length x.length with hafter | hover
      · -- it starts after the first piece
        have hpx : p <+: x :=
          List.prefix_of_prefix_length_le ⟨_, h⟩ ⟨w ++ y, by simp⟩ hafter
        obtain ⟨x', rfl⟩ := hpx
        have h' : ps.flatten = x' ++ w ++ y := by
          rw [List.append_assoc, List.append_assoc] at h
          rw [List.append_assoc]; exact List.append_cancel_left h
        rcases ih h' with ⟨q, hq, hw⟩ | ⟨k, hk, h1, h2⟩
        · exact .inl ⟨q, List.mem_cons_of_mem _ hq, hw⟩
        · refine .inr ⟨k + 1, by simpa using hk, ?_, ?_⟩ <;>
            simp only [List.take_succ_cons, List.flatten_cons, List.length_append] <;> omega
      · refine .inr ⟨1, ?_, by simpa using hover, by simpa using hout⟩
        cases ps with
        | nil =>
          have := congrArg List.length h
          simp at this; omega
        | cons _ _ => simp

section Passes

variable {ms : List (List α → ℕ)} {w : List α}

/-- Each item is kept or struck, whatever number of passes. -/
theorem foldl_strike_forall₂ (ms : List (List α → ℕ)) : ∀ s : List α,
    List.Forall₂ (fun c d => d = c ∨ d = dot) s (ms.foldl (fun x m => strike m dot 0 x) s) := by
  induction ms with
  | nil => exact fun s => List.forall₂_same.2 fun _ _ => .inl rfl
  | cons m ms ih => exact fun s => struck_trans (strike_forall₂ m dot s 0) (ih _)

/-- No pass after the one for a word brings the word back. -/
theorem foldl_strike_clean [DecidableEq α] (hw : dot ∉ w) (hne : w ≠ [])
    (hm : startsAt w ∈ ms) (s : List α) :
    ¬ w <:+: ms.foldl (fun x m => strike m dot 0 x) s := by
  obtain ⟨before, after, rfl⟩ := List.append_of_mem hm
  rw [List.foldl_append, List.foldl_cons]
  intro hi
  exact strike_startsAt hw hne _ 0 (infix_of_struck (foldl_strike_forall₂ after _) hw hi)

end Passes

end Stablemate.Scan
