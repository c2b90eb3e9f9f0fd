import Mathlib.Data.Nat.Notation
import Mathlib.Tactic.TypeStar

/-!
# Step machines

A machine is a partial step `step : σ → ε → Option σ`: `none` says that the state does
not allow the event. A run is a list of events, each allowed where it happens.

* `inv_run`: what one step preserves, a run preserves.
* `inv_run_of`: the same for the runs whose steps all meet a guard (`Along`).
* `potential`: a potential that each step pays from bounds the length of a run by its
  first value and what the run adds to a counter.
* `run_upTo_or`: a stream of events runs on, or comes to rest.
-/

namespace Stablemate.Run

variable {σ ε : Type*} {step : σ → ε → Option σ}

/-- The state after the events `es`, if each of them is allowed where it happens. -/
def run (step : σ → ε → Option σ) : σ → List ε → Option σ
  | s, [] => some s
  | s, e :: es => (step s e).bind fun t => run step t es

@[simp] theorem run_nil (s : σ) : run step s [] = some s := rfl

@[simp] theorem run_cons (s : σ) (e : ε) (es : List ε) :
    run step s (e :: es) = (step s e).bind fun t => run step t es := rfl

theorem run_cons_some {s s' : σ} {e : ε} {es : List ε} :
    run step s (e :: es) = some s' ↔ ∃ t, step s e = some t ∧ run step t es = some s' := by
  rw [run_cons, Option.bind_eq_some_iff]

theorem run_append (s : σ) (es es' : List ε) :
    run step s (es ++ es') = (run step s es).bind fun t => run step t es' := by
  induction es generalizing s with
  | nil => rfl
  | cons e es ih =>
    rw [List.cons_append, run_cons, run_cons]
    cases step s e with
    | none => rfl
    | some t => exact ih t

theorem run_snoc {s s' : σ} {es : List ε} {e : ε} :
    run step s (es ++ [e]) = some s' ↔ ∃ t, run step s es = some t ∧ step t e = some s' := by
  rw [run_append, Option.bind_eq_some_iff]
  simp [run_cons]

/-- **What one step preserves, a run preserves.** -/
theorem inv_run {Inv : σ → Prop} (h : ∀ s e t, Inv s → step s e = some t → Inv t)
    {es : List ε} : ∀ {s s' : σ}, Inv s → run step s es = some s' → Inv s' := by
  induction es with
  | nil => intro s s' hs hr; cases hr; exact hs
  | cons e es ih =>
    intro s s' hs hr
    obtain ⟨t, ht, hr⟩ := run_cons_some.1 hr
    exact ih (h s e t hs ht) hr

/-- Every step of the run meets the guard `G` at the state it is taken from. -/
def Along (step : σ → ε → Option σ) (G : σ → ε → Prop) : σ → List ε → Prop
  | _, [] => True
  | s, e :: es => G s e ∧ ∀ t, step s e = some t → Along step G t es

theorem along_cons {G : σ → ε → Prop} {s t : σ} {e : ε} {es : List ε} (ht : step s e = some t) :
    Along step G s (e :: es) ↔ G s e ∧ Along step G t es := by
  refine and_congr_right fun _ => ⟨fun h => h t ht, fun h u hu => ?_⟩
  rw [ht] at hu
  cases hu
  exact h

theorem along_append {G : σ → ε → Prop} {es es' : List ε} : ∀ {s t : σ}, Along step G s (es ++ es') →
    run step s es = some t → Along step G t es' := by
  induction es with
  | nil =>
    intro s t h hr
    cases hr
    exact h
  | cons e es ih =>
    intro s t h hr
    obtain ⟨u, hu, hr⟩ := run_cons_some.1 hr
    exact ih (h.2 u hu) hr

theorem along_left {G : σ → ε → Prop} {es es' : List ε} : ∀ {s : σ}, Along step G s (es ++ es') → Along step G s es := by
  induction es with
  | nil => exact fun _ => trivial
  | cons e es ih => exact fun h => ⟨h.1, fun t ht => ih (h.2 t ht)⟩

instance decidableAlong {G : σ → ε → Prop} [∀ s e, Decidable (G s e)] :
    ∀ (s : σ) (es : List ε), Decidable (Along step G s es)
  | _, [] => .isTrue trivial
  | s, e :: es =>
    match ht : step s e with
    | none => decidable_of_iff (G s e) ⟨fun h => ⟨h, fun t h' => by rw [ht] at h'; cases h'⟩, And.left⟩
    | some t =>
      have := decidableAlong (G := G) t es
      decidable_of_iff _ (along_cons ht).symm

/-- The guard is met along a run if it is met after each of its beginnings. -/
theorem along_iff {G : σ → ε → Prop} {es : List ε} : ∀ {s : σ}, Along step G s es ↔
    ∀ es' e t, es' ++ [e] <+: es → run step s es' = some t → G t e := by
  induction es with
  | nil =>
    intro s
    refine iff_of_true trivial fun es' e t hpre _ => ?_
    have := hpre.length_le
    simp at this
  | cons a es ih =>
    intro s
    -- a beginning is empty, or it begins with `a`
    constructor
    · rintro ⟨ha, hrest⟩ (_ | ⟨b, es'⟩) e t hpre hr
      · rw [List.nil_append, List.cons_prefix_cons] at hpre
        cases hr
        exact hpre.1 ▸ ha
      · rw [List.cons_append, List.cons_prefix_cons] at hpre
        obtain ⟨rfl, hpre⟩ := hpre
        obtain ⟨u, hu, hr⟩ := run_cons_some.1 hr
        exact ih.1 (hrest u hu) es' e t hpre hr
    · intro h
      refine ⟨h [] a s (List.prefix_append _ _) rfl, fun u hu => ih.2 fun es' e t hpre hr => ?_⟩
      exact h (a :: es') e t (List.cons_prefix_cons.2 ⟨rfl, hpre⟩) (run_cons_some.2 ⟨u, hu, hr⟩)

/-- A run that goes through also goes through each of its beginnings. -/
theorem run_of_prefix {s s' : σ} {es es' : List ε} (hr : run step s es = some s') (hpre : es' <+: es) :
    ∃ t, run step s es' = some t := by
  obtain ⟨rest, rfl⟩ := hpre
  rw [run_append] at hr
  obtain ⟨t, ht, -⟩ := Option.bind_eq_some_iff.1 hr
  exact ⟨t, ht⟩

/-- **A guarded run preserves what each guarded step preserves.** -/
theorem inv_run_of {Inv : σ → Prop} {G : σ → ε → Prop}
    (h : ∀ s e t, Inv s → G s e → step s e = some t → Inv t)
    {es : List ε} : ∀ {s s' : σ}, Along step G s es → Inv s → run step s es = some s' → Inv s' := by
  induction es with
  | nil => intro s s' _ hs hr; cases hr; exact hs
  | cons e es ih =>
    intro s s' hg hs hr
    obtain ⟨t, ht, hr⟩ := run_cons_some.1 hr
    exact ih (hg.2 t ht) (h s e t hs hg.1 ht) hr

/-- **Potential.** If each step pays for itself from the potential `μ` and from what it
adds to the counter `credit`, a run is no longer than the first potential and all that was
added to the counter. -/
theorem potential {Inv : σ → Prop} {μ credit : σ → ℕ}
    (hinv : ∀ s e t, Inv s → step s e = some t → Inv t)
    (h : ∀ s e t, Inv s → step s e = some t → μ t + 1 + credit s ≤ μ s + credit t)
    {es : List ε} : ∀ {s s' : σ}, Inv s → run step s es = some s' →
      μ s' + es.length + credit s ≤ μ s + credit s' := by
  induction es with
  | nil => intro s s' _ hr; cases hr; simp
  | cons e es ih =>
    intro s s' hs hr
    obtain ⟨t, ht, hr⟩ := run_cons_some.1 hr
    have h1 := h s e t hs ht
    have h2 := ih (hinv s e t hs ht) hr
    rw [List.length_cons]
    omega

/-! ## Streams of events -/

/-- The first `n` events of a stream. -/
def upTo (b : ℕ → ε) (n : ℕ) : List ε := (List.range n).map b

@[simp] theorem upTo_zero (b : ℕ → ε) : upTo b 0 = [] := rfl

theorem upTo_succ (b : ℕ → ε) (n : ℕ) : upTo b (n + 1) = upTo b n ++ [b n] := by
  simp [upTo, List.range_succ]

@[simp] theorem length_upTo (b : ℕ → ε) (n : ℕ) : (upTo b n).length = n := by simp [upTo]

theorem run_upTo_snoc {b : ℕ → ε} {s t u : σ} {n : ℕ} (ht : run step s (upTo b n) = some t)
    (hu : step t (b n) = some u) : run step s (upTo b (n + 1)) = some u := by
  rw [upTo_succ]
  exact run_snoc.2 ⟨t, ht, hu⟩

/-- The steps of a stream are allowed as long as the state before each is not at rest. -/
theorem run_upTo_or {rest : σ → Prop} (hstep : ∀ s e, ¬ rest s → ∃ t, step s e = some t)
    (b : ℕ → ε) (s : σ) : ∀ n : ℕ, (∃ t, run step s (upTo b n) = some t) ∨
      ∃ m < n, ∃ t, run step s (upTo b m) = some t ∧ rest t
  | 0 => .inl ⟨s, rfl⟩
  | n + 1 => by
    rcases run_upTo_or hstep b s n with ⟨t, ht⟩ | ⟨m, hm, h⟩
    · by_cases hr : rest t
      · exact .inr ⟨n, n.lt_succ_self, t, ht, hr⟩
      · obtain ⟨u, hu⟩ := hstep t (b n) hr
        exact .inl ⟨u, run_upTo_snoc ht hu⟩
    · exact .inr ⟨m, Nat.lt_succ_of_lt hm, h⟩

/-- A stream whose run gets to `m` took a step at every earlier place. -/
theorem run_upTo_lt {b : ℕ → ε} {s t : σ} {n : ℕ} : ∀ {m : ℕ}, n < m →
    run step s (upTo b m) = some t → ∃ u v, run step s (upTo b n) = some u ∧ step u (b n) = some v
  | m + 1, hn, hm => by
    rw [upTo_succ] at hm
    obtain ⟨u, hu, hut⟩ := run_snoc.1 hm
    rcases Nat.eq_or_lt_of_le (Nat.le_of_lt_succ hn) with rfl | h
    · exact ⟨u, t, hu, hut⟩
    · exact run_upTo_lt h hu

/-- What the runs of a stream up to `N` reach is bounded. -/
theorem exists_bound_upTo (f : σ → ℕ) (b : ℕ → ε) (s : σ) : ∀ N : ℕ,
    ∃ D, ∀ n ≤ N, ∀ t, run step s (upTo b n) = some t → f t ≤ D
  | 0 => ⟨f s, fun n hn t ht => by
      obtain rfl := Nat.le_zero.1 hn
      rw [upTo_zero, run_nil] at ht
      exact Nat.le_of_eq (congrArg f (Option.some.inj ht)).symm⟩
  | N + 1 => by
    obtain ⟨D, hD⟩ := exists_bound_upTo f b s N
    cases hr : run step s (upTo b (N + 1)) with
    | none =>
      refine ⟨D, fun n hn t ht => ?_⟩
      rcases Nat.eq_or_lt_of_le hn with rfl | h
      · rw [hr] at ht; simp at ht
      · exact hD n (Nat.le_of_lt_succ h) t ht
    | some u =>
      refine ⟨max D (f u), fun n hn t ht => ?_⟩
      rcases Nat.eq_or_lt_of_le hn with rfl | h
      · rw [hr] at ht
        cases ht
        exact Nat.le_max_right _ _
      · exact Nat.le_trans (hD n (Nat.le_of_lt_succ h) t ht) (Nat.le_max_left _ _)

end Stablemate.Run
