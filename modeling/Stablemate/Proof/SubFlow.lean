import Stablemate.Model.SubFlow

/-!
# A sub-flow that starts fresh sees its own results

* `continues_same_invocation`: a child that is continued finds its own class and inputs in
  the checkpoint, on every run.
* `handoff_clean_iff`: a handoff continues the child or starts it in an empty scope exactly
  when `subscope` and `_resume_in_place` agree on the checkpoint (and the old outputs can be
  removed).
* `fresh_child_sees_its_own`: **along a run whose handoffs all agree, a child that was
  started fresh finds nothing in its scope that its own drive did not write.**
* `second_handoff_is_seen`: a state that hands off twice, a stop in the second child, and
  the first child reads the second one's output.
-/

namespace Stablemate.SubFlow

variable {I O : Type*} {s t : State I O} {e : Event I O} {es : List (Event I O)}

theorem keeps_present {resume : Bool} {dir : Dir I O} (h : keeps resume dir) :
    resume = true ∧ dir.checkpoint.present := by
  simp only [keeps, Bool.and_eq_true] at h
  exact ⟨h.1.1, h.1.2⟩

theorem subscope_kept {resume : Bool} {dir : Dir I O} (stuck : Text → Bool) (h : keeps resume dir) :
    subscope resume stuck dir = { dir with terminal := false } := if_pos h

theorem subscope_cleared {resume : Bool} {dir : Dir I O} (stuck : Text → Bool)
    (h : ¬ keeps resume dir) : subscope resume stuck dir = clear stuck dir := if_neg h

/-- An empty scope is its next drive's own. -/
theorem Dir.Empty.own {dir : Dir I O} (h : dir.Empty) (drive : ℕ) : dir.Own drive where
  outputs node o ho := by rw [h.outputs node] at ho; cases ho
  checkpoint hp := by rw [h.checkpoint] at hp; cases hp

/-- **The invariant**: a child that was started fresh has its scope to itself. -/
def Fresh (s : State I O) : Prop :=
  ∀ flow inputs drive, s.pc = .child flow inputs drive false → s.dir.Own drive

theorem fresh_of_not_child (h : ∀ flow inputs drive, s.pc ≠ .child flow inputs drive false) : Fresh s :=
  fun flow inputs drive hpc => absurd hpc (h flow inputs drive)

variable [DecidableEq I]

/-- What is accepted names the class and the inputs. -/
theorem accepts_iff {flow : Text} {inputs : I} {checkpoint : Checkpoint I} :
    accepts flow inputs checkpoint ↔ ∃ state drive, checkpoint = .pyflow flow inputs state drive := by
  cases checkpoint with
  | pyflow flow' inputs' state drive =>
    simp only [accepts, Bool.and_eq_true, decide_eq_true_eq]
    constructor
    · rintro ⟨rfl, rfl⟩; exact ⟨state, drive, rfl⟩
    · rintro ⟨_, _, h⟩; cases h; exact ⟨rfl, rfl⟩
  | absent => simp [accepts]
  | unreadable => simp [accepts]
  | nodeGraph => simp [accepts]

/-- A continued child was kept: an emptied scope has no checkpoint to accept. -/
theorem continued_iff {resume : Bool} {dir : Dir I O} (stuck : Text → Bool) {flow : Text}
    {inputs : I} : (resume && accepts flow inputs (subscope resume stuck dir).checkpoint) = true ↔
      keeps resume dir ∧ accepts flow inputs dir.checkpoint := by
  by_cases h : keeps resume dir
  · rw [subscope_kept stuck h]
    simp [(keeps_present h).1, (keeps_present h).1 ▸ h]
  · rw [subscope_cleared stuck h]
    simp [h, clear, accepts]

theorem step_handoff {flow : Text} {inputs : I} {stuck : Text → Bool}
    (h : step s (.handoff flow inputs stuck) = some t) : ∃ resumePending,
      s.pc = .parent resumePending ∧ t = handoff s resumePending flow inputs stuck := by
  dsimp only [step] at h
  split at h
  · rename_i resumePending hpc; cases h; exact ⟨resumePending, hpc, rfl⟩
  · cases h

/-- **A continued child finds its own invocation** in the checkpoint. -/
theorem continues_same_invocation {flow flow' : Text} {inputs inputs' : I} {stuck : Text → Bool}
    {drive : ℕ} (h : step s (.handoff flow inputs stuck) = some t)
    (ht : t.pc = .child flow' inputs' drive true) :
    ∃ state drive', s.dir.checkpoint = .pyflow flow' inputs' state drive' := by
  obtain ⟨resumePending, hpc, rfl⟩ := step_handoff h
  simp only [handoff, Pc.child.injEq] at ht
  obtain ⟨rfl, rfl, -, hcont⟩ := ht
  exact accepts_iff.1 ((continued_iff _).1 hcont).2

/-- **A handoff is clean exactly when its two decisions agree.** -/
theorem handoff_clean_iff {flow : Text} {inputs : I} {stuck : Text → Bool}
    (h : step s (.handoff flow inputs stuck) = some t) :
    (t.pc = .child flow inputs s.drives true ∨ t.dir.Empty) ↔ Agrees s (.handoff flow inputs stuck) := by
  obtain ⟨resumePending, hpc, rfl⟩ := step_handoff h
  have hagrees : Agrees s (.handoff flow inputs stuck) ↔
      (keeps resumePending s.dir → accepts flow inputs s.dir.checkpoint) ∧
      (¬ keeps resumePending s.dir → ∀ node, stuck node → s.dir.outputs node = none) := by
    constructor
    · intro h; exact h resumePending flow inputs stuck hpc rfl
    · intro h rp flow' inputs' stuck' hpc' he
      rw [hpc] at hpc'
      cases hpc'
      cases he
      exact h
  have hcont : (handoff s resumePending flow inputs stuck).pc = .child flow inputs s.drives true ↔
      keeps resumePending s.dir ∧ accepts flow inputs s.dir.checkpoint := by
    rw [← continued_iff stuck]
    simp [handoff]
  rw [hagrees, hcont]
  by_cases hk : keeps resumePending s.dir
  · -- the scope is kept: it has a checkpoint, so it is not empty
    have hempty : ¬ (handoff s resumePending flow inputs stuck).dir.Empty := by
      intro hempty
      have hc := hempty.checkpoint
      have hp := (keeps_present hk).2
      simp only [handoff, subscope_kept stuck hk] at hc
      rw [hc] at hp
      cases hp
    simp [hk, hempty]
  · -- the scope is cleared: it is empty if nothing in it could not be removed
    have hempty : (handoff s resumePending flow inputs stuck).dir.Empty ↔
        ∀ node, stuck node → s.dir.outputs node = none := by
      constructor
      · intro hempty node hstuck
        have := hempty.outputs node
        simpa [handoff, subscope_cleared stuck hk, clear, hstuck] using this
      · intro hstuck
        refine ⟨?_, fun node => ?_⟩
        · simp [handoff, subscope_cleared stuck hk, clear]
        · simp only [handoff, subscope_cleared stuck hk, clear]
          split
          · rename_i h; exact hstuck node h
          · rfl
    simp [hk, hempty]

theorem handoff_fresh {flow : Text} {inputs : I} {stuck : Text → Bool}
    (hg : Agrees s (.handoff flow inputs stuck)) (h : step s (.handoff flow inputs stuck) = some t) :
    Fresh t := by
  intro flow' inputs' drive hpc
  rcases (handoff_clean_iff h).2 hg with hcont | hempty
  · rw [hcont] at hpc; cases hpc
  · exact hempty.own drive

/-- **Every step keeps a fresh child's scope its own.** -/
theorem step_fresh (hs : Fresh s) (hg : Agrees s e) (h : step s e = some t) : Fresh t := by
  cases e with
  | handoff flow inputs stuck => exact handoff_fresh hg h
  | diesClearing kept keptCheckpoint keptRun =>
    dsimp only [step] at h
    split at h
    · split at h
      · cases h
      · cases h; exact fresh_of_not_child (by simp)
    · cases h
  | enter state =>
    dsimp only [step] at h
    split at h
    · rename_i flow inputs drive continued hpc
      cases h
      intro flow' inputs' drive' hpc'
      have hown := hs flow' inputs' drive' hpc'
      rw [hpc] at hpc'
      cases hpc'
      exact ⟨hown.outputs, fun _ => ⟨flow, inputs, state, rfl⟩⟩
    · cases h
  | record node value =>
    dsimp only [step] at h
    split at h
    · rename_i flow inputs drive continued hpc
      cases h
      intro flow' inputs' drive' hpc'
      have hown := hs flow' inputs' drive' hpc'
      rw [hpc] at hpc'
      cases hpc'
      -- the new output is of this drive, and the others were
      refine ⟨fun n o ho => ?_, hown.checkpoint⟩
      dsimp only at ho
      split at ho
      · cases ho; rfl
      · exact hown.outputs n o ho
    · cases h
  | done =>
    dsimp only [step] at h
    split at h
    · cases h; exact fresh_of_not_child (by simp)
    · cases h
  | raised =>
    dsimp only [step] at h
    split at h
    · cases h; exact fresh_of_not_child (by simp)
    · cases h
  | next =>
    dsimp only [step] at h
    split at h
    · cases h; exact fresh_of_not_child (by simp)
    · cases h
  | stop =>
    dsimp only [step] at h
    split at h
    · cases h
    · cases h; exact fresh_of_not_child (by simp)
  | resume =>
    dsimp only [step] at h
    split at h
    · cases h; exact fresh_of_not_child (by simp)
    · cases h

/-- **A sub-flow that starts fresh sees none of an earlier visit.** Along a run whose handoffs
all agree, everything in the scope of a child that was started fresh was written by its own
drive. On every run, a continued child finds its own class and inputs in the checkpoint, and
a handoff continues the child or starts it in an empty scope exactly when it agrees. -/
theorem fresh_child_sees_its_own (dir : Dir I O) (es : List (Event I O)) (s : State I O)
    (h : Run.run step (init dir) es = some s) :
    (Run.Along step Agrees (init dir) es → ∀ flow inputs drive,
      s.pc = .child flow inputs drive false → s.dir.Own drive) ∧
    ∀ flow inputs stuck t, step s (.handoff flow inputs stuck) = some t →
      (∀ flow' inputs' drive, t.pc = .child flow' inputs' drive true →
        ∃ state drive', s.dir.checkpoint = .pyflow flow' inputs' state drive') ∧
      ((t.pc = .child flow inputs s.drives true ∨ t.dir.Empty) ↔
        Agrees s (.handoff flow inputs stuck)) :=
  ⟨fun hagrees =>
      have hfresh : Fresh s :=
        Run.inv_run_of (fun _ _ _ => step_fresh) hagrees (fresh_of_not_child (by simp [init])) h
      hfresh,
    fun _ _ _ _ ht => ⟨fun _ _ _ => continues_same_invocation ht, handoff_clean_iff ht⟩⟩

/-! ## Two handoffs in one state -/

/-- A visit of the child: it enters its only state and records what `measure` returned. -/
def visit (inputs value : ℕ) : List (Event ℕ ℕ) :=
  [.handoff "Sub".toList inputs fun _ => false, .enter "go".toList, .record "measure".toList value]

/-- A directory that does not exist. -/
def noDir : Dir ℕ ℕ := ⟨.absent, false, fun _ => none⟩

/-- A handoff of a state that was not resumed agrees, when every output can be removed. -/
theorem agrees_of_parent_false {flow : Text} {inputs : I} (hpc : s.pc = .parent false) :
    Agrees s (.handoff flow inputs fun _ => false) := by
  intro resumePending flow' inputs' stuck hpc' he
  rw [hpc] at hpc'
  cases hpc'
  cases he
  exact ⟨fun h => (by cases h), fun _ _ h => (by cases h)⟩

theorem agrees_of_not_handoff (he : ∀ flow inputs stuck, e ≠ .handoff flow inputs stuck) :
    Agrees s e :=
  fun _ flow inputs stuck _ h => absurd h (he flow inputs stuck)

/-- Two visits, one after the other, in a process that does not stop. -/
theorem fresh_child_sees_its_own_twice : ∃ s,
    Run.run step (init noDir) (visit 1 10 ++ [.done] ++ visit 2 20) = some s ∧ s.dir.Own 1 := by
  refine ⟨_, rfl, (fresh_child_sees_its_own noDir (visit 1 10 ++ [.done] ++ visit 2 20) _ rfl).1 ?_
    "Sub".toList 2 1 rfl⟩
  refine (Run.along_cons rfl).2 ⟨agrees_of_parent_false rfl, ?_⟩
  refine (Run.along_cons rfl).2 ⟨agrees_of_not_handoff (by simp), ?_⟩
  refine (Run.along_cons rfl).2 ⟨agrees_of_not_handoff (by simp), ?_⟩
  refine (Run.along_cons rfl).2 ⟨agrees_of_not_handoff (by simp), ?_⟩
  refine (Run.along_cons rfl).2 ⟨agrees_of_parent_false rfl, ?_⟩
  refine (Run.along_cons rfl).2 ⟨agrees_of_not_handoff (by simp), ?_⟩
  exact (Run.along_cons rfl).2 ⟨agrees_of_not_handoff (by simp), trivial⟩

/-- **The second handoff is seen by the first.** One state hands off with the inputs 1, then
with the inputs 2, and the run is stopped in the second child. On resume the first handoff
keeps the scope and rejects its checkpoint, so the child starts at its first state and reads
20, which the second child recorded. -/
theorem second_handoff_is_seen : ∃ s,
    Run.run step (init noDir) (visit 1 10 ++ [.done] ++ visit 2 20 ++
      [.stop, .resume, .handoff "Sub".toList 1 fun _ => false]) = some s ∧
    s.pc = .child "Sub".toList 1 2 false ∧ output s "measure".toList = some ⟨20, 1⟩ ∧
    ¬ s.dir.Own 2 := by
  refine ⟨_, rfl, rfl, rfl, fun h => ?_⟩
  exact absurd (h.outputs "measure".toList ⟨20, 1⟩ rfl) (by decide)

end Stablemate.SubFlow
