import Stablemate.Lib.Run

/-!
# Programs that share a state

A program does one operation on a shared state after another. Several run at once, their
operations in any order, and any of them can be gone between two of its own. `Undisturbed` asks
that a process changes the state only when no other has changed it since the process began.

* `Keeps`: what a program preserves when it runs alone; `Keeps.bind`: one program after another.
* `kept`: what every program preserves alone, undisturbed processes preserve together.
* `Answers`: what an answer says of the state in which it is given, whatever the others do;
  `answered`: so it is in every run.
-/

namespace Stablemate.Solo

/-- A program; what follows a read depends on the state that it finds. -/
inductive Prog (σ α : Type) where
  | done (a : α)
  | read (k : σ → Prog σ α)
  | write (f : σ → σ) (k : Prog σ α)
  /-- A write that may do nothing, and the program goes on all the same. -/
  | attempt (f : σ → σ) (k : Prog σ α)

variable {σ α β ι : Type}

namespace Prog

def bind : Prog σ α → (α → Prog σ β) → Prog σ β
  | .done a, k => k a
  | .read r, k => .read fun s => (r s).bind k
  | .write f p, k => .write f (p.bind k)
  | .attempt f p, k => .attempt f (p.bind k)

instance : Monad (Prog σ) where
  pure := .done
  bind := bind

/-- Whether the next operation may change the state. -/
def changes : Prog σ α → Bool
  | .write _ _ | .attempt _ _ => true
  | .done _ | .read _ => false

/-- What the next operation makes of the state. -/
def next : Prog σ α → σ → σ
  | .write f _, s | .attempt f _, s => f s
  | .done _, s | .read _, s => s

/-- What a program leaves and answers when it runs alone. -/
def alone : Prog σ α → σ → σ × α
  | .done a, s => (s, a)
  | .read k, s => (k s).alone s
  | .write f p, s => p.alone (f s)
  | .attempt f p, s => p.alone (f s)

end Prog

/-! ## A program alone -/

/-- From `s` every operation leads to a state with `I`, and the answer has `Q`. -/
def Keeps (I : σ → Prop) (Q : σ → α → Prop) : Prog σ α → σ → Prop
  | .done a, s => Q s a
  | .read k, s => Keeps I Q (k s) s
  | .write f p, s => I (f s) ∧ Keeps I Q p (f s)
  | .attempt f p, s => I (f s) ∧ Keeps I Q p (f s)

/-- Whenever the program gives its answer, that answer has `A` for the state of that moment. -/
def Answers (A : σ → α → Prop) : Prog σ α → σ → Prop
  | .done a, s => A s a
  | .read k, _ => ∀ s, Answers A (k s) s
  | .write f p, _ => ∀ s, Answers A p (f s)
  | .attempt f p, _ => ∀ s, Answers A p (f s) ∧ Answers A p s

section Programs

variable {I : σ → Prop} {Q : σ → β → Prop} {A : σ → β → Prop} {p : Prog σ α} {k : α → Prog σ β} {s : σ}

theorem Keeps.mono {R R' : σ → α → Prop} (h : Keeps I R p s) (hR : ∀ s a, R s a → R' s a) : Keeps I R' p s := by
  induction p generalizing s with
  | done a => exact hR s a h
  | read k ih => exact ih s h
  | write f p ih => exact ⟨h.1, ih h.2⟩
  | attempt f p ih => exact ⟨h.1, ih h.2⟩

/-- **One program after another.** -/
theorem Keeps.bind (h : Keeps I (fun s a => Keeps I Q (k a) s) p s) : Keeps I Q (p >>= k) s := by
  change Keeps I Q (p.bind k) s
  induction p generalizing s with
  | done a => exact h
  | read r ih => exact ih s h
  | write f p ih => exact ⟨h.1, ih h.2⟩
  | attempt f p ih => exact ⟨h.1, ih h.2⟩

theorem Answers.mono {R R' : σ → α → Prop} (h : Answers R p s) (hR : ∀ s a, R s a → R' s a) : Answers R' p s := by
  induction p generalizing s with
  | done a => exact hR s a h
  | read k ih => exact fun t => ih t (h t)
  | write f p ih => exact fun t => ih (h t)
  | attempt f p ih => exact fun t => ⟨ih (h t).1, ih (h t).2⟩

theorem Answers.bind (h : Answers (fun s a => Answers A (k a) s) p s) : Answers A (p >>= k) s := by
  change Answers A (p.bind k) s
  induction p generalizing s with
  | done a => exact h
  | read r ih => exact fun t => ih t (h t)
  | write f p ih => exact fun t => ih (h t)
  | attempt f p ih => exact fun t => ⟨ih (h t).1, ih (h t).2⟩

theorem alone_bind (s : σ) : (p >>= k).alone s = (k (p.alone s).2).alone (p.alone s).1 := by
  change (p.bind k).alone s = _
  induction p generalizing s with
  | done a => rfl
  | read r ih => exact ih s s
  | write f p ih => exact ih (f s)
  | attempt f p ih => exact ih (f s)

end Programs

/-! ## Processes -/

/-- A process: its command, the version of the state that it counts on, and the rest of its program. -/
structure Proc (ι σ α : Type) where
  command : ι
  base : ℕ
  prog : Prog σ α

/-- The state, how often it has been changed, and the processes; `none` is one that is gone. -/
structure Sys (ι σ α : Type) where
  shared : σ
  version : ℕ
  procs : List (Option (Proc ι σ α))

inductive Event (ι : Type) where
  | start (c : ι)
  /-- The `i`-th process does its next operation. -/
  | act (i : ℕ)
  /-- Its next operation, an attempt, does nothing. -/
  | miss (i : ℕ)
  /-- It is gone. -/
  | stop (i : ℕ)
deriving DecidableEq

/-- The process at `i`, if it is still there. -/
def Sys.at (s : Sys ι σ α) (i : ℕ) : Option (Proc ι σ α) := s.procs[i]?.join

def Sys.put (s : Sys ι σ α) (i : ℕ) (p : Proc ι σ α) : Sys ι σ α := { s with procs := s.procs.set i (some p) }

/-- The `i`-th process changes the state and goes on with `p`. -/
def Sys.change (s : Sys ι σ α) (i : ℕ) (f : σ → σ) (p : Proc ι σ α) : Sys ι σ α :=
  { s with shared := f s.shared, version := s.version + 1 }.put i { p with base := p.base + 1 }

/-- One event; `prog` gives each command its program. -/
def step (prog : ι → Prog σ α) (s : Sys ι σ α) : Event ι → Option (Sys ι σ α)
  | .start c => some { s with procs := s.procs ++ [some ⟨c, s.version, prog c⟩] }
  | .act i =>
    match s.at i with
    | some ⟨c, base, .read k⟩ => some (s.put i ⟨c, base, k s.shared⟩)
    | some ⟨c, base, .write f p⟩ => some (s.change i f ⟨c, base, p⟩)
    | some ⟨c, base, .attempt f p⟩ => some (s.change i f ⟨c, base, p⟩)
    | _ => none
  | .miss i =>
    match s.at i with
    | some ⟨c, base, .attempt _ p⟩ => some (s.put i ⟨c, base, p⟩)
    | _ => none
  | .stop i => if (s.at i).isSome then some { s with procs := s.procs.set i none } else none

/-- A process changes the state only when no other has done so since it began, and an attempt does
nothing only where there is nothing to do. -/
def Undisturbed (s : Sys ι σ α) : Event ι → Prop
  | .act i => ∀ p ∈ s.at i, p.prog.changes = true → p.base = s.version
  | .miss i => ∀ p ∈ s.at i, p.prog.next s.shared = s.shared
  | .start _ | .stop _ => True

instance [DecidableEq σ] (s : Sys ι σ α) : ∀ e : Event ι, Decidable (Undisturbed s e)
  | .act i => inferInstanceAs (Decidable (∀ p ∈ s.at i, p.prog.changes = true → p.base = s.version))
  | .miss i => inferInstanceAs (Decidable (∀ p ∈ s.at i, p.prog.next s.shared = s.shared))
  | .start _ => .isTrue trivial
  | .stop _ => .isTrue trivial

def start (s : σ) : Sys ι σ α := ⟨s, 0, []⟩

section At

variable {s : Sys ι σ α} {p q : Proc ι σ α} {i j : ℕ}

theorem at_put (h : (s.put i q).at j = some p) : (j = i ∧ p = q) ∨ (j ≠ i ∧ s.at j = some p) := by
  unfold Sys.at Sys.put at h
  unfold Sys.at
  rw [List.getElem?_set] at h
  split at h
  · next heq =>
    left
    split at h
    · exact ⟨heq.symm, (Option.some.inj h).symm⟩
    · cases h
  · next hne => exact .inr ⟨fun heq => hne heq.symm, h⟩

theorem at_start (h : ({ s with procs := s.procs ++ [some q] } : Sys ι σ α).at j = some p) :
    p = q ∨ s.at j = some p := by
  unfold Sys.at at h ⊢
  rw [List.getElem?_append] at h
  split at h
  · exact .inr h
  · left
    rcases hj : j - s.procs.length with _ | m
    · rw [hj] at h
      exact (Option.some.inj h).symm
    · rw [hj] at h
      cases h

theorem at_stop (h : ({ s with procs := s.procs.set i none } : Sys ι σ α).at j = some p) : s.at j = some p := by
  unfold Sys.at at h ⊢
  rw [List.getElem?_set] at h
  split at h
  · split at h <;> cases h
  · exact h

end At

/-! ## Undisturbed processes -/

/-- What the processes keep together: the state has `I`, and one that could still change it keeps `I`. -/
structure Kept (I : σ → Prop) (s : Sys ι σ α) : Prop where
  shared : I s.shared
  behind : ∀ i p, s.at i = some p → p.base ≤ s.version
  procs : ∀ i p, s.at i = some p → p.base = s.version → Keeps I (fun _ _ => True) p.prog s.shared

section Together

variable {I : σ → Prop} {prog : ι → Prog σ α} {s t : Sys ι σ α} {es : List (Event ι)} {p : Proc ι σ α} {i : ℕ}

/-- A process that changes the state leaves all others behind. -/
theorem kept_change {f : σ → σ} (h : Kept I s) (hbase : p.base = s.version) (hI : I (f s.shared))
    (hp : Keeps I (fun _ _ => True) p.prog (f s.shared)) : Kept I (s.change i f p) := by
  refine ⟨hI, fun j q hq => ?_, fun j q hq heq => ?_⟩
  · rcases at_put hq with ⟨-, rfl⟩ | ⟨-, hq⟩
    · exact Nat.le_of_eq (congrArg (· + 1) hbase)
    · exact Nat.le_trans (h.behind j q hq) (Nat.le_succ _)
  · rcases at_put hq with ⟨-, rfl⟩ | ⟨-, hq⟩
    · exact hp
    · have hle : q.base ≤ s.version := h.behind j q hq
      have hlt : q.base = s.version + 1 := heq
      omega

/-- A process that goes on without a change. -/
theorem kept_put (h : Kept I s) (hle : p.base ≤ s.version)
    (hp : p.base = s.version → Keeps I (fun _ _ => True) p.prog s.shared) : Kept I (s.put i p) := by
  refine ⟨h.shared, fun j q hq => ?_, fun j q hq heq => ?_⟩
  · rcases at_put hq with ⟨-, rfl⟩ | ⟨-, hq⟩
    · exact hle
    · exact h.behind j q hq
  · rcases at_put hq with ⟨-, rfl⟩ | ⟨-, hq⟩
    · exact hp heq
    · exact h.procs j q hq heq

theorem step_kept {e : Event ι} (hprog : ∀ c s, I s → Keeps I (fun _ _ => True) (prog c) s) (h : Kept I s)
    (halone : Undisturbed s e) (hstep : step prog s e = some t) : Kept I t := by
  cases e with
  | start c =>
    obtain rfl := Option.some.inj hstep
    refine ⟨h.shared, fun j q hq => ?_, fun j q hq heq => ?_⟩
    · rcases at_start hq with rfl | hq
      · exact Nat.le_refl _
      · exact h.behind j q hq
    · rcases at_start hq with rfl | hq
      · exact hprog c _ h.shared
      · exact h.procs j q hq heq
  | act i =>
    simp only [step] at hstep
    simp only [Undisturbed] at halone
    split at hstep
    · next c base k hat =>
      obtain rfl := Option.some.inj hstep
      have hle := h.behind i _ hat
      have hkeeps := h.procs i _ hat
      exact kept_put h hle hkeeps
    · next c base f p hat =>
      obtain rfl := Option.some.inj hstep
      have hbase := halone _ hat rfl
      have hkeeps := h.procs i _ hat hbase
      exact kept_change h hbase hkeeps.1 hkeeps.2
    · next c base f p hat =>
      obtain rfl := Option.some.inj hstep
      have hbase := halone _ hat rfl
      have hkeeps := h.procs i _ hat hbase
      exact kept_change h hbase hkeeps.1 hkeeps.2
    · cases hstep
  | miss i =>
    simp only [step] at hstep
    simp only [Undisturbed] at halone
    split at hstep
    · next c base f p hat =>
      obtain rfl := Option.some.inj hstep
      have hle := h.behind i _ hat
      have hsame : f s.shared = s.shared := halone _ hat
      refine kept_put h hle fun heq => ?_
      have hkeeps := (h.procs i _ hat heq).2
      rwa [hsame] at hkeeps
    · cases hstep
  | stop i =>
    simp only [step] at hstep
    split at hstep
    · obtain rfl := Option.some.inj hstep
      exact ⟨h.shared, fun j q hq => h.behind j q (at_stop hq), fun j q hq => h.procs j q (at_stop hq)⟩
    · cases hstep

/-- **What every program preserves alone, undisturbed processes preserve together.** -/
theorem kept {s₀ : σ} (hprog : ∀ c s, I s → Keeps I (fun _ _ => True) (prog c) s) (hs₀ : I s₀)
    (halone : Run.Along (step prog) Undisturbed (start s₀) es) (hrun : Run.run (step prog) (start s₀) es = some t) :
    I t.shared := by
  have hstart : Kept (ι := ι) (α := α) I (start s₀) :=
    ⟨hs₀, fun i p hp => (nomatch hp), fun i p hp => (nomatch hp)⟩
  exact (Run.inv_run_of (fun s e t (hs : Kept I s) hoff hstep => step_kept hprog hs hoff hstep) halone hstart hrun).shared

end Together

/-! ## Answers -/

section Answers

variable {A : ι → σ → α → Prop} {prog : ι → Prog σ α} {s t : Sys ι σ α} {es : List (Event ι)} {i : ℕ} {e : Event ι}

/-- What a process will answer: nothing more, or what `A` says of its command. -/
def Proc.Answers (A : ι → σ → α → Prop) (p : Proc ι σ α) : Prop :=
  (∃ a, p.prog = .done a) ∨ ∀ s, Solo.Answers (A p.command) p.prog s

/-- What follows an operation is an answer, which has `A`, or answers later. -/
theorem Proc.answers_of {p : Proc ι σ α} {s : σ} (h : Solo.Answers (A p.command) p.prog s) : p.Answers A := by
  cases hp : p.prog with
  | done a => exact .inl ⟨a, hp⟩
  | read k =>
    right
    rw [hp] at h ⊢
    exact fun _ => h
  | write f p =>
    right
    rw [hp] at h ⊢
    exact fun _ => h
  | attempt f p =>
    right
    rw [hp] at h ⊢
    exact fun _ => h

/-- What the process that acts goes on with. -/
theorem act_answers (h : ∀ j p, s.at j = some p → p.Answers A) (hstep : step prog s (.act i) = some t) :
    ∃ p, t.at i = some p ∧ Solo.Answers (A p.command) p.prog t.shared ∧ ∀ j q, t.at j = some q → q = p ∨ s.at j = some q := by
  have hset : ∀ {s' : Sys ι σ α} {p q : Proc ι σ α}, s'.at i = some q → (s'.put i p).at i = some p := by
    intro s' p q hq
    unfold Sys.at at hq
    unfold Sys.at Sys.put
    rw [List.getElem?_set_self]
    · rfl
    · rcases Nat.lt_or_ge i s'.procs.length with hlt | hge
      · exact hlt
      · rw [List.getElem?_eq_none hge] at hq
        cases hq
  have hchanged : ∀ {f : σ → σ} {q : Proc ι σ α}, s.at i = some q →
      ({ s with shared := f s.shared, version := s.version + 1 } : Sys ι σ α).at i = some q := id
  have hothers : ∀ {s' : Sys ι σ α} {p : Proc ι σ α} (j : ℕ) (q : Proc ι σ α), (s'.put i p).at j = some q →
      q = p ∨ s'.at j = some q := fun j q hq => (at_put hq).imp And.right And.right
  simp only [step] at hstep
  split at hstep
  · next c base k hat =>
    obtain rfl := Option.some.inj hstep
    refine ⟨_, hset hat, ?_, hothers⟩
    rcases h i _ hat with ⟨a, hdone⟩ | hlater
    · cases hdone
    · exact hlater s.shared s.shared
  · next c base f p hat =>
    obtain rfl := Option.some.inj hstep
    refine ⟨_, hset (hchanged hat), ?_, hothers⟩
    rcases h i _ hat with ⟨a, hdone⟩ | hlater
    · cases hdone
    · exact hlater s.shared s.shared
  · next c base f p hat =>
    obtain rfl := Option.some.inj hstep
    refine ⟨_, hset (hchanged hat), ?_, hothers⟩
    rcases h i _ hat with ⟨a, hdone⟩ | hlater
    · cases hdone
    · exact (hlater s.shared s.shared).1
  · cases hstep

theorem step_answers (hprog : ∀ c s, Solo.Answers (A c) (prog c) s) (h : ∀ j p, s.at j = some p → p.Answers A)
    (hstep : step prog s e = some t) : ∀ j p, t.at j = some p → p.Answers A := by
  intro j p hp
  cases e with
  | start c =>
    obtain rfl := Option.some.inj hstep
    rcases at_start hp with rfl | hp
    · exact .inr (hprog c)
    · exact h j p hp
  | act i =>
    obtain ⟨q, -, hanswers, hothers⟩ := act_answers h hstep
    rcases hothers j p hp with rfl | hp
    · exact Proc.answers_of hanswers
    · exact h j p hp
  | miss i =>
    simp only [step] at hstep
    split at hstep
    · next c base f q hat =>
      obtain rfl := Option.some.inj hstep
      rcases at_put hp with ⟨-, rfl⟩ | ⟨-, hp⟩
      · rcases h i _ hat with ⟨a, hdone⟩ | hlater
        · cases hdone
        · exact Proc.answers_of (hlater s.shared s.shared).2
      · exact h j p hp
    · cases hstep
  | stop i =>
    simp only [step] at hstep
    split at hstep
    · obtain rfl := Option.some.inj hstep
      exact h j p (at_stop hp)
    · cases hstep

/-- **An answer that a process gives with its last operation has `A`**, whatever the others do. -/
theorem answered {s₀ : σ} (hprog : ∀ c s, Solo.Answers (A c) (prog c) s)
    (hrun : Run.run (step prog) (start s₀) (es ++ [.act i]) = some t) {c : ι} {base : ℕ} {a : α}
    (hat : t.at i = some ⟨c, base, .done a⟩) : A c t.shared a := by
  obtain ⟨u, hu, hstep⟩ := Run.run_snoc.1 hrun
  have hanswers : ∀ j p, u.at j = some p → p.Answers A :=
    Run.inv_run (fun s e t (hs : ∀ j p, s.at j = some p → p.Answers A) hstep => step_answers hprog hs hstep)
      (fun j p hp => by cases hp) hu
  obtain ⟨p, hp, hright, -⟩ := act_answers hanswers hstep
  rw [hat] at hp
  obtain rfl := Option.some.inj hp
  exact hright

end Answers

end Stablemate.Solo
