import Mathlib.Data.List.Forall2
import Mathlib.Data.Option.Basic

/-!
# Two runs of calls that change a state and may raise

`Agree R P m n`: from related states `m` and `n` both raise the same exception or both return
related results, and leave related states. `Blind R m` is that of one call with itself, for equal
results: what it returns does not depend on what `R` leaves open.

`Yields m Q`: whatever one run of `m` returns has `Q`. `Keeps I m`: `m` leaves `I` true, whether it raises
or returns.

* `Agree.bind`, `Blind.bind`, `Yields.bind`, `Keeps.bind`: one call after another.
* `Agree.foldlM`, `Agree.mapM`, `Blind.foldlM`, `Blind.mapM`: loops over a list.
* `Agree.knowing`: calls that count on what earlier ones have found out.
-/

namespace Stablemate.TwoRun

variable {σ ε α β γ δ : Type} {R : σ → σ → Prop} {P Q : α → β → Prop}

/-- A call that changes a state and may raise. -/
abbrev Call (ε σ α : Type) := ExceptT ε (StateM σ) α

/-- The outcome of a call from a state, and the state that it leaves. -/
def outcome (m : Call ε σ α) (s : σ) : Except ε α × σ := m.run.run s

/-- Both raise the same exception or both return related results. -/
def Alike (P : α → β → Prop) : Except ε α → Except ε β → Prop
  | .ok a, .ok b => P a b
  | .error e, .error e' => e = e'
  | _, _ => False

/-- From related states the two calls come out alike and leave related states. -/
def Agree (R : σ → σ → Prop) (P : α → β → Prop) (m : Call ε σ α) (n : Call ε σ β) : Prop :=
  ∀ s t, R s t → Alike P (outcome m s).1 (outcome n t).1 ∧ R (outcome m s).2 (outcome n t).2

/-- A call returns the same from related states. -/
def Blind (R : σ → σ → Prop) (m : Call ε σ α) : Prop := Agree R Eq m m

theorem Agree.mono {m : Call ε σ α} {n : Call ε σ β} (h : Agree R P m n) (hPQ : ∀ a b, P a b → Q a b) : Agree R Q m n := by
  intro s t hst
  obtain ⟨halike, hR⟩ := h s t hst
  refine ⟨?_, hR⟩
  cases hm : (outcome m s).1 with
  | ok a =>
    cases hn : (outcome n t).1 with
    | ok b =>
      rw [hm, hn] at halike
      exact hPQ a b halike
    | error e =>
      rw [hm, hn] at halike
      exact halike.elim
  | error e =>
    cases hn : (outcome n t).1 with
    | ok b =>
      rw [hm, hn] at halike
      exact halike.elim
    | error e' =>
      rw [hm, hn] at halike
      exact halike

theorem Agree.pure {a : α} {b : β} (h : P a b) : Agree (ε := ε) R P (Pure.pure a) (Pure.pure b) := fun _ _ hst => ⟨h, hst⟩

theorem Agree.raise (e : ε) : Agree R P (throw e : Call ε σ α) (throw e : Call ε σ β) := fun _ _ hst => ⟨rfl, hst⟩

theorem outcome_bind (m : Call ε σ α) (f : α → Call ε σ γ) (s : σ) : outcome (m >>= f) s =
    match outcome m s with
    | (.ok a, s') => outcome (f a) s'
    | (.error e, s') => (.error e, s') := by
  have hrun : outcome (m >>= f) s = match m.run.run s with
    | (.ok a, s') => outcome (f a) s'
    | (.error e, s') => (.error e, s') := by
    unfold outcome
    rw [ExceptT.run_bind, StateT.run_bind]
    cases m.run.run s with
    | mk r s' => cases r <;> rfl
  exact hrun

/-- **One call after another.** -/
theorem Agree.bind {Q : γ → δ → Prop} {m : Call ε σ α} {n : Call ε σ β} {f : α → Call ε σ γ} {g : β → Call ε σ δ}
    (h : Agree R P m n) (hfg : ∀ a b, P a b → Agree R Q (f a) (g b)) : Agree R Q (m >>= f) (n >>= g) := by
  intro s t hst
  obtain ⟨halike, hR⟩ := h s t hst
  rw [outcome_bind, outcome_bind]
  revert halike hR
  cases outcome m s with
  | mk r s' =>
    cases outcome n t with
    | mk r' t' =>
      intro halike hR
      cases r with
      | ok a =>
        cases r' with
        | ok b => exact hfg a b halike s' t' hR
        | error e => exact halike.elim
      | error e =>
        cases r' with
        | ok b => exact halike.elim
        | error e' => exact ⟨halike, hR⟩

theorem Agree.modify {f g : σ → σ} (h : ∀ s t, R s t → R (f s) (g t)) :
    Agree (ε := ε) R Eq (modify f : Call ε σ Unit) (modify g) := fun s t hst => ⟨rfl, h s t hst⟩

/-- What a call raises, handled. -/
theorem Agree.handle {m : Call ε σ α} {n : Call ε σ β} {f : ε → Call ε σ α} {g : ε → Call ε σ β} (h : Agree R P m n)
    (hfg : ∀ e, Agree R P (f e) (g e)) : Agree R P (tryCatchThe ε m f) (tryCatchThe ε n g) := by
  have hrun : ∀ {κ : Type} (m : Call ε σ κ) (f : ε → Call ε σ κ) (s : σ), outcome (tryCatchThe ε m f) s =
      match outcome m s with
      | (.ok a, s') => (.ok a, s')
      | (.error e, s') => outcome (f e) s' := by
    intro κ m f s
    have hdef : outcome (tryCatchThe ε m f) s = (m.run >>= fun r => match r with
        | .ok a => Pure.pure (.ok a)
        | .error e => (f e).run : StateM σ (Except ε κ)).run s := rfl
    rw [hdef, StateT.run_bind]
    unfold outcome
    cases m.run.run s with
    | mk r s' => cases r <;> rfl
  intro s t hst
  obtain ⟨halike, hR⟩ := h s t hst
  rw [hrun, hrun]
  revert halike hR
  cases outcome m s with
  | mk r s' =>
    cases outcome n t with
    | mk r' t' =>
      intro halike hR
      cases r with
      | ok a =>
        cases r' with
        | ok b => exact ⟨halike, hR⟩
        | error e => exact halike.elim
      | error e =>
        cases r' with
        | ok b => exact halike.elim
        | error e' =>
          obtain rfl : e = e' := halike
          exact hfg e s' t' hR

/-- Two loops over related elements that carry related values. -/
theorem Agree.foldlM₂ {f : γ → α → Call ε σ γ} {g : δ → β → Call ε σ δ} {P : γ → δ → Prop} {Q : α → β → Prop}
    (hfg : ∀ x y, Q x y → ∀ c d, P c d → Agree R P (f c x) (g d y)) {l : List α} {l' : List β} (hl : List.Forall₂ Q l l') :
    ∀ {c : γ} {d : δ}, P c d → Agree R P (l.foldlM f c) (l'.foldlM g d) := by
  induction hl with
  | nil =>
    intro c d h
    exact Agree.pure h
  | cons hxy _ ih =>
    intro c d h
    rw [List.foldlM_cons, List.foldlM_cons]
    exact (hfg _ _ hxy c d h).bind fun a b hab => ih hab

theorem forall₂_self (l : List α) : List.Forall₂ (fun x y => x = y ∧ x ∈ l) l l :=
  List.forall₂_same.2 fun _ hx => ⟨rfl, hx⟩

/-- A loop whose two runs carry related values. -/
theorem Agree.foldlM {f : γ → α → Call ε σ γ} {g : δ → α → Call ε σ δ} {P : γ → δ → Prop} {l : List α}
    (hfg : ∀ x ∈ l, ∀ c d, P c d → Agree R P (f c x) (g d x)) {c : γ} {d : δ} (h : P c d) :
    Agree R P (l.foldlM f c) (l.foldlM g d) := by
  refine Agree.foldlM₂ (fun x y hxy c d hcd => ?_) (forall₂_self l) h
  obtain ⟨rfl, hx⟩ := hxy
  exact hfg x hx c d hcd

/-- Calls on related elements, in order. -/
theorem Agree.mapM₂ {Q : γ → δ → Prop} {f : γ → Call ε σ α} {g : δ → Call ε σ β}
    (hfg : ∀ x y, Q x y → Agree R P (f x) (g y)) {l : List γ} {l' : List δ} (hl : List.Forall₂ Q l l') :
    Agree R (List.Forall₂ P) (l.mapM f) (l'.mapM g) := by
  induction hl with
  | nil => exact Agree.pure .nil
  | cons hxy _ ih =>
    rw [List.mapM_cons, List.mapM_cons]
    exact (hfg _ _ hxy).bind fun a b hab => ih.bind fun as bs habs => Agree.pure (.cons hab habs)

/-- A call on every element, in order. -/
theorem Agree.mapM {f : γ → Call ε σ α} {g : γ → Call ε σ β} {l : List γ} (hfg : ∀ x ∈ l, Agree R P (f x) (g x)) :
    Agree R (List.Forall₂ P) (l.mapM f) (l.mapM g) := by
  refine Agree.mapM₂ (fun x y hxy => ?_) (forall₂_self l)
  obtain ⟨rfl, hx⟩ := hxy
  exact hfg x hx

section From

variable {R₀ : σ → σ → Prop} {Q' : γ → δ → Prop} {m : Call ε σ α} {n : Call ε σ β} {f : α → Call ε σ γ} {g : β → Call ε σ δ}

/-- From states with `R₀` the two calls come out alike and leave states with `R`. -/
def AgreeFrom (R₀ R : σ → σ → Prop) (P : α → β → Prop) (m : Call ε σ α) (n : Call ε σ β) : Prop :=
  ∀ s t, R₀ s t → Alike P (outcome m s).1 (outcome n t).1 ∧ R (outcome m s).2 (outcome n t).2

theorem Agree.from (h : Agree R P m n) (hR : ∀ s t, R₀ s t → R s t) : AgreeFrom R₀ R P m n :=
  fun s t hst => h s t (hR s t hst)

theorem AgreeFrom.pre {R₁ : σ → σ → Prop} (h : AgreeFrom R₀ R P m n) (hR : ∀ s t, R₁ s t → R₀ s t) : AgreeFrom R₁ R P m n :=
  fun s t hst => h s t (hR s t hst)

theorem AgreeFrom.bind (h : AgreeFrom R₀ R P m n) (hfg : ∀ a b, P a b → Agree R Q' (f a) (g b)) :
    AgreeFrom R₀ R Q' (m >>= f) (n >>= g) := by
  intro s t hst
  have hm := h s t hst
  rw [outcome_bind, outcome_bind]
  revert hm
  cases outcome m s with
  | mk r s' =>
    cases outcome n t with
    | mk r' t' =>
      rintro ⟨halike, hR⟩
      cases r with
      | ok a =>
        cases r' with
        | ok b => exact hfg a b halike s' t' hR
        | error e => exact halike.elim
      | error e =>
        cases r' with
        | ok b => exact halike.elim
        | error e' => exact ⟨halike, hR⟩

/-- **What the first calls have found out, the rest may count on.** -/
theorem Agree.knowing {K : α → β → σ → σ → Prop} (h : Agree R₀ P m n)
    (hK : ∀ s t a b, R₀ s t → (outcome m s).1 = .ok a → (outcome n t).1 = .ok b → K a b (outcome m s).2 (outcome n t).2)
    (hR : ∀ s t, R₀ s t → R s t) (hfg : ∀ a b, P a b → AgreeFrom (fun s t => R₀ s t ∧ K a b s t) R Q' (f a) (g b)) :
    AgreeFrom R₀ R Q' (m >>= f) (n >>= g) := by
  intro s t hst
  have hm := h s t hst
  have hknown := hK s t
  rw [outcome_bind, outcome_bind]
  revert hm hknown
  cases outcome m s with
  | mk r s' =>
    cases outcome n t with
    | mk r' t' =>
      rintro ⟨halike, hR₀⟩ hknown
      cases r with
      | ok a =>
        cases r' with
        | ok b => exact hfg a b halike s' t' ⟨hR₀, hknown a b hst rfl rfl⟩
        | error e => exact halike.elim
      | error e =>
        cases r' with
        | ok b => exact halike.elim
        | error e' => exact ⟨halike, hR s' t' hR₀⟩

/-- A call that finds out nothing more. -/
theorem Agree.then (h : Agree R₀ P m n) (hR : ∀ s t, R₀ s t → R s t)
    (hfg : ∀ a b, P a b → AgreeFrom R₀ R Q' (f a) (g b)) : AgreeFrom R₀ R Q' (m >>= f) (n >>= g) :=
  h.knowing (K := fun _ _ _ _ => True) (fun _ _ _ _ _ _ _ => trivial) hR fun a b hab s t hst => hfg a b hab s t hst.1

end From

section Blind

theorem Blind.pure (a : α) : Blind (ε := ε) R (Pure.pure a) := Agree.pure rfl

theorem Blind.raise (e : ε) : Blind R (throw e : Call ε σ α) := Agree.raise e

theorem Blind.bind {m : Call ε σ α} {f : α → Call ε σ γ} (h : Blind R m) (hf : ∀ a, Blind R (f a)) : Blind R (m >>= f) := by
  refine Agree.bind h fun a b hab => ?_
  subst hab
  exact hf a

theorem Blind.ite {c : Prop} [Decidable c] {m n : Call ε σ α} (hm : Blind R m) (hn : Blind R n) :
    Blind R (if c then m else n) := by
  split
  · exact hm
  · exact hn

theorem Blind.foldlM {f : γ → α → Call ε σ γ} {l : List α} (h : ∀ c x, Blind R (f c x)) (c : γ) :
    Blind R (l.foldlM f c) := by
  refine Agree.foldlM (fun x _ c d hcd => ?_) rfl
  subst hcd
  exact h c x

theorem Blind.mapM {f : α → Call ε σ γ} {l : List α} (h : ∀ x, Blind R (f x)) : Blind R (l.mapM f) := by
  exact (Agree.mapM fun x _ => h x).mono fun ys zs hyz => List.forall₂_eq_eq_eq ▸ hyz

theorem Blind.forM {f : α → Call ε σ PUnit} {l : List α} (h : ∀ x, Blind R (f x)) : Blind R (l.forM f) := by
  induction l with
  | nil => exact Blind.pure PUnit.unit
  | cons x l ih => exact (h x).bind fun _ => ih

end Blind

section OneRun

variable {Q : α → Prop} {Q' : γ → Prop}

/-- Whatever a call returns, from any state, has `Q`. -/
def Yields (m : Call ε σ α) (Q : α → Prop) : Prop := ∀ s a, (outcome m s).1 = .ok a → Q a

theorem Yields.pure {a : α} (h : Q a) : Yields (ε := ε) (σ := σ) (Pure.pure a) Q := by
  intro s b hb
  obtain rfl := Except.ok.inj hb
  exact h

theorem Yields.raise (e : ε) : Yields (throw e : Call ε σ α) Q := fun _ _ h => nomatch h

theorem Yields.bind {m : Call ε σ α} {f : α → Call ε σ γ} (h : Yields m Q) (hf : ∀ a, Q a → Yields (f a) Q') :
    Yields (m >>= f) Q' := by
  intro s c hc
  rw [outcome_bind] at hc
  cases hm : outcome m s with
  | mk r s' =>
    rw [hm] at hc
    cases r with
    | ok a => exact hf a (h s a (by rw [hm])) s' c hc
    | error e => cases hc

/-- A call of which nothing is known. -/
theorem Yields.any (m : Call ε σ α) : Yields m fun _ => True := fun _ _ _ => trivial

variable {I : σ → Prop}

/-- A call leaves `I` true, whether it raises or returns. -/
def Keeps (I : σ → Prop) (m : Call ε σ α) : Prop := ∀ s, I s → I (outcome m s).2

theorem Keeps.pure (a : α) : Keeps I (Pure.pure a : Call ε σ α) := fun _ h => h

theorem Keeps.raise (e : ε) : Keeps I (throw e : Call ε σ α) := fun _ h => h

theorem Keeps.modify {f : σ → σ} (hf : ∀ s, I s → I (f s)) : Keeps I (modify f : Call ε σ Unit) := hf

/-- A result from elsewhere. -/
theorem Keeps.lift (r : Except ε α) : Keeps I (liftM r : Call ε σ α) := by
  intro s h
  cases r <;> exact h

theorem Keeps.bind {m : Call ε σ α} {f : α → Call ε σ γ} (h : Keeps I m) (hf : ∀ a, Keeps I (f a)) : Keeps I (m >>= f) := by
  intro s hs
  have hm := h s hs
  rw [outcome_bind]
  cases hrun : outcome m s with
  | mk r s' =>
    rw [hrun] at hm
    cases r with
    | ok a => exact hf a s' hm
    | error e => exact hm

/-- What follows may count on `I` of the state that is read. -/
theorem Keeps.read {f : σ → Call ε σ γ} (hf : ∀ s, I s → Keeps I (f s)) : Keeps I (get >>= f) := by
  intro s hs
  rw [outcome_bind]
  exact hf s hs s hs

theorem Keeps.map {m : Call ε σ α} (h : Keeps I m) (f : α → γ) : Keeps I (f <$> m) := by
  rw [map_eq_pure_bind]
  exact h.bind fun a => Keeps.pure (f a)

theorem Keeps.forM {f : α → Call ε σ PUnit} (hf : ∀ a, Keeps I (f a)) (l : List α) : Keeps I (l.forM f) := by
  induction l with
  | nil => exact Keeps.pure _
  | cons a l ih => exact (hf a).bind fun _ => ih

end OneRun

section Options

variable {o : Option α} {o' : Option β}

theorem Rel.mono (h : Option.Rel P o o') (hPQ : ∀ a b, P a b → Q a b) : Option.Rel Q o o' := by
  cases h with
  | none => exact .none
  | some hab => exact .some (hPQ _ _ hab)

theorem Rel.map {Q : γ → δ → Prop} {f : α → γ} {g : β → δ} (h : Option.Rel P o o') (hfg : ∀ a b, P a b → Q (f a) (g b)) :
    Option.Rel Q (o.map f) (o'.map g) := by
  cases h with
  | none => exact .none
  | some hab => exact .some (hfg _ _ hab)

theorem Rel.isSome (h : Option.Rel P o o') : o.isSome = o'.isSome := by
  cases h <;> rfl

/-- What is kept of both sides is kept of them together. -/
theorem Rel.filter {p : α → Bool} {q : β → Bool} (h : Option.Rel P o o') (hpq : ∀ a b, P a b → p a = q b) :
    Option.Rel P (o.filter p) (o'.filter q) := by
  cases h with
  | none => exact .none
  | @some a b hab =>
    rw [Option.filter_some, Option.filter_some, hpq a b hab]
    split
    · exact .some hab
    · exact .none

theorem Rel.filterMap {Q : γ → δ → Prop} {f : α → Option γ} {g : α → Option δ} :
    ∀ {l : List α}, (∀ x ∈ l, Option.Rel Q (f x) (g x)) → List.Forall₂ Q (l.filterMap f) (l.filterMap g) := by
  intro l
  induction l with
  | nil => exact fun _ => .nil
  | cons x l ih =>
    intro hfg
    obtain ⟨hhead, htail⟩ := List.forall_mem_cons.1 hfg
    rw [List.filterMap_cons, List.filterMap_cons]
    generalize f x = y, g x = z at hhead
    cases hhead with
    | none => exact ih htail
    | some hyz => exact .cons hyz (ih htail)

end Options

end Stablemate.TwoRun
