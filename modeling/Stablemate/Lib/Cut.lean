import Stablemate.Lib.Run

/-!
# Programs that are cut short

A program reads a state and writes it, and can be gone after any of its writes. Two writes may
belong together: the first is then half of a write, and the second makes it whole.

* `Keeps`: what holds after every whole write; `Keeps.cut`: so it does wherever the program is cut.
* `Holds`: the same for programs that may raise; `holds_bind` and `holds_foldlM` compose them.
* `kept`: what every program keeps, every run of programs keeps that is cut only after whole writes.
-/

namespace Stablemate.Cut

/-- A program; what follows a read depends on the state that it finds. -/
inductive Prog (σ α : Type) where
  | done (a : α)
  | read (k : σ → Prog σ α)
  /-- After a write that is `half`, the next write belongs to it. -/
  | write (half : Bool) (f : σ → σ) (p : Prog σ α)

variable {σ α β ι ε : Type}

namespace Prog

def bind : Prog σ α → (α → Prog σ β) → Prog σ β
  | .done a, k => k a
  | .read r, k => .read fun s => (r s).bind k
  | .write half f p, k => .write half f (p.bind k)

instance : Monad (Prog σ) where
  pure := .done
  bind := bind

/-- What a program leaves and answers when nothing stops it. -/
def finish : Prog σ α → σ → σ × α
  | .done a, s => (s, a)
  | .read k, s => (k s).finish s
  | .write _ f p, s => p.finish (f s)

/-- What the first `n` writes leave, and whether the last of them is half of one. -/
def cut : Prog σ α → ℕ → σ → Bool → σ × Bool
  | .done _, _, s, half => (s, half)
  | .read k, n, s, half => (k s).cut n s half
  | .write _ _ _, 0, s, half => (s, half)
  | .write half f p, n + 1, s, _ => p.cut n (f s) half

end Prog

/-! ## What a program keeps -/

/-- From `s` every whole write leads to a state with `I`, and the answer has `Q`. -/
def Keeps (I : σ → Prop) (Q : σ → α → Prop) : Prog σ α → σ → Prop
  | .done a, s => Q s a
  | .read k, s => Keeps I Q (k s) s
  | .write half f p, s => (half = false → I (f s)) ∧ Keeps I Q p (f s)

section Programs

variable {I : σ → Prop} {p : Prog σ α} {s : σ}

theorem Keeps.mono {Q Q' : σ → α → Prop} (h : Keeps I Q p s) (hQ : ∀ s a, Q s a → Q' s a) : Keeps I Q' p s := by
  induction p generalizing s with
  | done a => exact hQ s a h
  | read k ih => exact ih s h
  | write half f p ih => exact ⟨h.1, ih h.2⟩

/-- **One program after another.** -/
theorem Keeps.bind {Q : σ → β → Prop} {k : α → Prog σ β} (h : Keeps I (fun s a => Keeps I Q (k a) s) p s) :
    Keeps I Q (p >>= k) s := by
  change Keeps I Q (p.bind k) s
  induction p generalizing s with
  | done a => exact h
  | read r ih => exact ih s h
  | write half f p ih => exact ⟨h.1, ih h.2⟩

theorem Keeps.finish {Q : σ → α → Prop} (h : Keeps I Q p s) : Q (p.finish s).1 (p.finish s).2 := by
  induction p generalizing s with
  | done a => exact h
  | read k ih => exact ih s h
  | write half f p ih => exact ih h.2

/-- Wherever it is cut, `I` holds, unless half of a write is missing. -/
theorem Keeps.cut {Q : σ → α → Prop} {half : Bool} (h : Keeps I Q p s) (hs : half = false → I s) (n : ℕ)
    (hwhole : (p.cut n s half).2 = false) : I (p.cut n s half).1 := by
  induction p generalizing s n half with
  | done a => exact hs hwhole
  | read k ih => exact ih s h hs n hwhole
  | write half' f p ih =>
    cases n with
    | zero => exact hs hwhole
    | succ n => exact ih h.2 h.1 n hwhole

end Programs

/-! ## Programs that raise -/

/-- From `s` every whole write leads to a state with `I`; what raises leaves a state with `E`, and what
does not, a state and an answer with `Q`. -/
def Holds (I E : σ → Prop) (Q : σ → α → Prop) (x : ExceptT ε (Prog σ) α) (s : σ) : Prop :=
  Keeps I (fun s r => match r with
    | .ok a => Q s a
    | .error _ => E s) (x : Prog σ (Except ε α)) s

section Raising

variable {I E : σ → Prop} {Q : σ → α → Prop} {x : ExceptT ε (Prog σ) α} {s : σ}

theorem holds_pure {a : α} (h : Q s a) : Holds I E Q (pure a : ExceptT ε (Prog σ) α) s := h

theorem holds_throw {e : ε} (h : E s) : Holds I E Q (throw e : ExceptT ε (Prog σ) α) s := h

theorem Holds.mono {Q' : σ → α → Prop} (h : Holds I E Q x s) (hQ : ∀ s a, Q s a → Q' s a) : Holds I E Q' x s := by
  apply Keeps.mono h
  intro s r hr
  cases r with
  | ok a => exact hQ s a hr
  | error e => exact hr

theorem Holds.raising {E' : σ → Prop} (h : Holds I E Q x s) (hE : ∀ s, E s → E' s) : Holds I E' Q x s := by
  apply Keeps.mono h
  intro s r hr
  cases r with
  | ok a => exact hr
  | error e => exact hE s hr

theorem Holds.of_ok {a : α} (h : Holds I E Q x s) (hok : ((x : Prog σ (Except ε α)).finish s).2 = .ok a) :
    Q ((x : Prog σ (Except ε α)).finish s).1 a := by
  have hanswer := Keeps.finish h
  rw [hok] at hanswer
  exact hanswer

/-- A program that does not raise. -/
theorem Holds.never (h : Holds I (fun _ => False) Q x s) : ∃ a, Q ((x : Prog σ (Except ε α)).finish s).1 a := by
  have hanswer := Keeps.finish h
  split at hanswer
  · next a _ => exact ⟨a, hanswer⟩
  · exact hanswer.elim

/-- A program that leaves a state with `R` whether it raises or not. -/
theorem Holds.leaves {R : σ → Prop} (h : Holds I R (fun s _ => R s) x s) : R ((x : Prog σ (Except ε α)).finish s).1 := by
  have hanswer := Keeps.finish h
  split at hanswer
  · exact hanswer
  · exact hanswer

theorem holds_bind {Q : σ → β → Prop} {f : α → ExceptT ε (Prog σ) β} (h : Holds I E (fun s a => Holds I E Q (f a) s) x s) :
    Holds I E Q (x >>= f) s := by
  apply Keeps.bind (p := (x : Prog σ (Except ε α)))
  apply Keeps.mono h
  intro s r hr
  cases r with
  | ok a => exact hr
  | error e => exact hr

/-- **A loop**: `J` relates what is still to come, what has been gathered, and the state. -/
theorem holds_foldlM {J : List α → β → σ → Prop} {f : β → α → ExceptT ε (Prog σ) β} {l : List α} {b : β}
    (hstep : ∀ a rest b s, J (a :: rest) b s → Holds I E (fun s b => J rest b s) (f b a) s) (h : J l b s) :
    Holds I E (fun s b => J [] b s) (l.foldlM f b) s := by
  induction l generalizing b s with
  | nil => exact holds_pure h
  | cons a l ih =>
    rw [List.foldlM_cons]
    apply holds_bind
    exact (hstep a l b s h).mono fun s b hb => ih hb

end Raising

/-! ## Runs -/

/-- A command, and after how many writes it is cut, if it is. -/
structure Event (ι : Type) where
  command : ι
  upTo : Option ℕ

/-- One command, whole or cut; `prog` gives each its program. -/
def step (prog : ι → Prog σ α) (s : σ) (e : Event ι) : Option σ :=
  match e.upTo with
  | none => some ((prog e.command).finish s).1
  | some n => some ((prog e.command).cut n s false).1

/-- The command is cut after a whole write, if it is. -/
def Whole (prog : ι → Prog σ α) (s : σ) (e : Event ι) : Prop := ∀ n ∈ e.upTo, ((prog e.command).cut n s false).2 = false

instance (prog : ι → Prog σ α) (s : σ) (e : Event ι) : Decidable (Whole prog s e) :=
  match h : e.upTo with
  | none => .isTrue fun n hn => by rw [h] at hn; cases hn
  | some m => decidable_of_iff (((prog e.command).cut m s false).2 = false)
      ⟨fun hm n hn => by rw [h] at hn; cases hn; exact hm, fun hall => hall m h⟩

section Runs

variable {prog : ι → Prog σ α} {I : σ → Prop} {G : σ → ι → Prop} {s t : σ} {e : Event ι} {es : List (Event ι)}

theorem step_kept (hprog : ∀ c s, I s → G s c → Keeps I (fun s _ => I s) (prog c) s) (hs : I s)
    (hwhole : Whole prog s e) (hguard : G s e.command) (hstep : step prog s e = some t) : I t := by
  have hkeeps := hprog e.command s hs hguard
  unfold step at hstep
  unfold Whole at hwhole
  cases hcut : e.upTo with
  | none =>
    rw [hcut] at hstep
    obtain rfl := Option.some.inj hstep
    exact hkeeps.finish
  | some n =>
    rw [hcut] at hstep
    obtain rfl := Option.some.inj hstep
    exact hkeeps.cut (fun _ => hs) n (hwhole n hcut)

/-- **What every program keeps, a run keeps** whose commands are cut only after whole writes. -/
theorem kept (hprog : ∀ c s, I s → G s c → Keeps I (fun s _ => I s) (prog c) s) (hs : I s)
    (halong : Run.Along (step prog) (fun s e => Whole prog s e ∧ G s e.command) s es)
    (hrun : Run.run (step prog) s es = some t) : I t := by
  have hinv : ∀ s e t, I s → Whole prog s e ∧ G s e.command → step prog s e = some t → I t :=
    fun s e t hs hguard hstep => step_kept hprog hs hguard.1 hguard.2 hstep
  exact Run.inv_run_of hinv halong hs hrun

end Runs

end Stablemate.Cut
