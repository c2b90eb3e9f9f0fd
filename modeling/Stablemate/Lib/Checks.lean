import Mathlib.Data.List.Forall2

/-!
# Checks that raise

When a sequence of fallible steps comes out, and with what.
-/

namespace Stablemate.Checks

variable {ε α β γ : Type}

theorem error_ne_ok {e : ε} {a : α} : (Except.error e : Except ε α) ≠ .ok a := by
  intro h
  cases h

/-- The result of a check that raised nothing. -/
theorem bind_ok_iff {x : Except ε α} {f : α → Except ε β} {b : β} : x >>= f = .ok b ↔ ∃ a, x = .ok a ∧ f a = .ok b := by
  cases x with
  | error e =>
    constructor
    · intro h
      cases h
    · rintro ⟨a, ha, -⟩
      cases ha
  | ok a =>
    constructor
    · exact fun h => ⟨a, rfl, h⟩
    · rintro ⟨a', ha, h⟩
      rw [Except.ok.inj ha]
      exact h

/-- What a sequence raises is raised by one of its steps. -/
theorem bind_error_iff {x : Except ε α} {f : α → Except ε β} {e : ε} :
    x >>= f = .error e ↔ x = .error e ∨ ∃ a, x = .ok a ∧ f a = .error e := by
  cases x with
  | error e' =>
    constructor
    · exact fun h => .inl (congrArg Except.error (Except.error.inj h))
    · rintro (h | ⟨a, ha, -⟩)
      · exact congrArg Except.error (Except.error.inj h)
      · cases ha
  | ok a =>
    constructor
    · exact fun h => .inr ⟨a, rfl, h⟩
    · rintro (h | ⟨a', ha, h⟩)
      · cases h
      · rw [Except.ok.inj ha]
        exact h

theorem isOk_iff {x : Except ε α} : x.isOk = true ↔ ∃ a, x = .ok a := by
  cases x with
  | error e =>
    constructor
    · intro h
      cases h
    · rintro ⟨a, ha⟩
      cases ha
  | ok a => exact ⟨fun _ => ⟨a, rfl⟩, fun _ => rfl⟩

/-- What was raised. -/
def raised : Except ε α → Option ε
  | .error e => some e
  | .ok _ => none

theorem raised_eq_some_iff {x : Except ε α} {e : ε} : raised x = some e ↔ x = .error e := by
  cases x with
  | error e' => exact ⟨fun h => congrArg Except.error (Option.some.inj h), fun h => congrArg some (Except.error.inj h)⟩
  | ok a =>
    constructor
    · intro h
      cases h
    · intro h
      cases h

theorem forM_ok_iff {f : α → Except ε Unit} : ∀ {l : List α}, l.forM f = .ok () ↔ ∀ x ∈ l, f x = .ok () := by
  intro l
  induction l with
  | nil => exact ⟨fun _ _ h => (List.not_mem_nil h).elim, fun _ => rfl⟩
  | cons x l ih =>
    have hcons : (x :: l).forM f = f x >>= fun _ => l.forM f := rfl
    rw [hcons, bind_ok_iff, List.forall_mem_cons, ← ih]
    constructor
    · rintro ⟨⟨⟩, hx, hl⟩
      exact ⟨hx, hl⟩
    · rintro ⟨hx, hl⟩
      exact ⟨⟨⟩, hx, hl⟩

theorem mapM_ok_iff {f : α → Except ε β} : ∀ {l : List α} {bs : List β},
    l.mapM f = .ok bs ↔ List.Forall₂ (fun a b => f a = .ok b) l bs := by
  intro l
  induction l with
  | nil =>
    intro bs
    constructor
    · intro h
      obtain rfl := Except.ok.inj h
      exact .nil
    · intro h
      cases h
      rfl
  | cons x l ih =>
    intro bs
    rw [List.mapM_cons, bind_ok_iff]
    constructor
    · rintro ⟨b, hb, h⟩
      obtain ⟨bs', hbs, h⟩ := bind_ok_iff.1 h
      obtain rfl := Except.ok.inj h
      exact .cons hb (ih.1 hbs)
    · intro h
      cases h with
      | cons hb hbs => exact ⟨_, hb, bind_ok_iff.2 ⟨_, ih.2 hbs, rfl⟩⟩

theorem mapM_ok {f : α → Except ε β} : ∀ {l : List α}, (∀ x ∈ l, ∃ b, f x = .ok b) → ∃ bs, l.mapM f = .ok bs := by
  intro l
  induction l with
  | nil => exact fun _ => ⟨[], rfl⟩
  | cons x l ih =>
    intro h
    obtain ⟨b, hb⟩ := h x List.mem_cons_self
    obtain ⟨bs, hbs⟩ := ih fun y hy => h y (List.mem_cons_of_mem x hy)
    exact ⟨b :: bs, mapM_ok_iff.2 (.cons hb (mapM_ok_iff.1 hbs))⟩

theorem mapM_error {f : α → Except ε β} {e : ε} : ∀ {l : List α}, l.mapM f = .error e → ∃ x ∈ l, f x = .error e := by
  intro l
  induction l with
  | nil =>
    intro h
    cases h
  | cons x l ih =>
    intro h
    rw [List.mapM_cons] at h
    rcases bind_error_iff.1 h with hx | ⟨b, -, h⟩
    · exact ⟨x, List.mem_cons_self, hx⟩
    · rcases bind_error_iff.1 h with hl | ⟨bs, -, h⟩
      · obtain ⟨y, hy, hfy⟩ := ih hl
        exact ⟨y, List.mem_cons_of_mem x hy, hfy⟩
      · cases h

/-- A loop whose every step raises nothing raises nothing, and keeps what a step keeps. -/
theorem foldlM_ok {f : γ → α → Except ε γ} {Inv : γ → Prop} : ∀ {l : List α},
    (∀ x ∈ l, ∀ c, Inv c → ∃ c', f c x = .ok c' ∧ Inv c') → ∀ {c : γ}, Inv c → ∃ c', l.foldlM f c = .ok c' ∧ Inv c' := by
  intro l
  induction l with
  | nil => exact fun _ c hc => ⟨c, rfl, hc⟩
  | cons x l ih =>
    intro hf c hc
    obtain ⟨c', hx, hc'⟩ := hf x List.mem_cons_self c hc
    obtain ⟨c'', hl, hc''⟩ := ih (fun y hy => hf y (List.mem_cons_of_mem x hy)) hc'
    refine ⟨c'', ?_, hc''⟩
    rw [List.foldlM_cons, hx]
    exact hl

/-- What a loop that came out keeps. -/
theorem foldlM_inv {f : γ → α → Except ε γ} {Inv : γ → Prop} : ∀ {l : List α},
    (∀ x ∈ l, ∀ c c', Inv c → f c x = .ok c' → Inv c') → ∀ {c c' : γ}, Inv c → l.foldlM f c = .ok c' → Inv c' := by
  intro l
  induction l with
  | nil =>
    intro _ c c' hc h
    rw [← Except.ok.inj h]
    exact hc
  | cons x l ih =>
    intro hf c c' hc h
    rw [List.foldlM_cons] at h
    obtain ⟨d, hd, hrest⟩ := bind_ok_iff.1 h
    exact ih (fun y hy => hf y (List.mem_cons_of_mem x hy)) (hf x List.mem_cons_self c d hc hd) hrest

/-- What a step of a loop brings about, and no later one undoes, holds at the end. -/
theorem foldlM_reaches {f : γ → α → Except ε γ} {Inv : γ → Prop} {x : α} (hx : ∀ c c', f c x = .ok c' → Inv c') :
    ∀ {l : List α}, x ∈ l → (∀ y ∈ l, ∀ c c', Inv c → f c y = .ok c' → Inv c') → ∀ {c c' : γ}, l.foldlM f c = .ok c' →
      Inv c' := by
  intro l
  induction l with
  | nil => exact fun hmem => (List.not_mem_nil hmem).elim
  | cons y l ih =>
    intro hmem hkeep c c' h
    have hrest : ∀ z ∈ l, ∀ c c', Inv c → f c z = .ok c' → Inv c' := fun z hz => hkeep z (List.mem_cons_of_mem y hz)
    rw [List.foldlM_cons] at h
    obtain ⟨d, hd, hlast⟩ := bind_ok_iff.1 h
    rcases List.mem_cons.1 hmem with rfl | hmem
    · exact foldlM_inv hrest (hx c d hd) hlast
    · exact ih hmem hrest hlast

/-- A loop that appends one thing for each item. -/
theorem foldlM_map {f : List β → α → Except ε (List β)} {g : α → β} : ∀ {l : List α} {acc : List β},
    (∀ pre x post, l = pre ++ x :: post → f (acc ++ pre.map g) x = .ok (acc ++ pre.map g ++ [g x])) →
      l.foldlM f acc = .ok (acc ++ l.map g) := by
  intro l
  induction l with
  | nil =>
    intro acc _
    rw [List.map_nil, List.append_nil]
    rfl
  | cons x l ih =>
    intro acc h
    have hx : f acc x = .ok (acc ++ [g x]) := by
      have hfirst := h [] x l rfl
      rwa [List.map_nil, List.append_nil] at hfirst
    have hrest : l.foldlM f (acc ++ [g x]) = .ok (acc ++ [g x] ++ l.map g) := by
      refine ih fun pre y post hl => ?_
      have hy := h (x :: pre) y post (by rw [hl, List.cons_append])
      rwa [List.map_cons, ← List.singleton_append, ← List.append_assoc] at hy
    rw [List.foldlM_cons, hx]
    show l.foldlM f (acc ++ [g x]) = _
    rw [hrest, List.append_assoc, List.singleton_append, List.map_cons]

end Stablemate.Checks
