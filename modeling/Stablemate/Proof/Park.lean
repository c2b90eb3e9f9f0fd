import Stablemate.Proof.Drive

/-!
# A parked run waits for its answer, as long as its gate can be read when it resumes

* `stillParked_eq_iff`: on a file that can be read the resume branch blocks exactly when
  `park_on` does; on any other file it does not block and `park_on` does.
* `resume_keeps_waiting`: **along a run whose resumes find the gate readable, the next state
  of an `Await` is entered only after `answered` has held**, and a resume of an open wait
  goes past it exactly when the gate cannot be read.
* `resume_skips_missing_gate`: a run parked on a file that is not there yet goes on when it
  is stopped and resumed.
-/

namespace Stablemate.Drive

open Gates

variable {V : Type*} {wf : Flow V} {s t : State V} {e : Event V} {es : List (Event V)}

/-- **The two tests agree on what can be read, and on nothing else.** -/
theorem stillParked_eq_iff (file : File) : stillParked file = !answered file ↔ file.isSome := by
  cases file with
  | none => simp [stillParked, answered, readText]
  | some text => simp [stillParked, answered, readText]

/-- The condition: a process that finds a wait in its checkpoint can read the gate. -/
def GateReadable (s : State V) (e : Event V) : Prop :=
  e = .resume → ∀ cp gate, s.checkpoint = some cp → cp.waitingOn = some gate → (s.files gate).isSome

/-- **The invariant of a wait.** -/
structure Waits (s : State V) : Prop where
  body : ∀ state, s.pc = .body state → s.awaiting = none
  top : ∀ state params path, s.pc = .top state params → s.awaiting = some path → s.held = true
  asked : ∀ a, s.pc = .asked a → s.awaiting = some a.path
  parked : ∀ path kind state params, s.pc = .parked path kind state params → s.awaiting = some path
  saved : ∀ cp gate, s.checkpoint = some cp → cp.waitingOn = some gate → s.awaiting = some gate

/-- The invariant only looks at the wait, and not at the gate. -/
theorem Waits.congr (hs : Waits s) (hpc : t.pc = s.pc) (hcp : t.checkpoint = s.checkpoint)
    (ha : t.awaiting = s.awaiting) (hheld : s.held = true → t.held = true) : Waits t where
  body state h := ha.trans (hs.body state (hpc ▸ h))
  top state params path h1 h2 := hheld (hs.top state params path (hpc ▸ h1) (ha ▸ h2))
  asked a h := ha.trans (hs.asked a (hpc ▸ h))
  parked path kind state params h := ha.trans (hs.parked path kind state params (hpc ▸ h))
  saved cp gate h1 h2 := ha.trans (hs.saved cp gate (hcp ▸ h1) h2)

theorem observe_waits (hs : Waits s) : Waits (observe s) :=
  hs.congr (observe_pc s) (observe_checkpoint s) (observe_awaiting s) (observe_held s)

/-- Where no process runs the invariant is about the checkpoint alone. -/
theorem waits_down (hs : Waits s) (hpc : t.pc = .down) (hcp : t.checkpoint = s.checkpoint)
    (ha : t.awaiting = s.awaiting) : Waits t where
  body _ h := by simp [hpc] at h
  top _ _ _ h := by simp [hpc] at h
  asked _ h := by simp [hpc] at h
  parked _ _ _ _ h := by simp [hpc] at h
  saved cp gate h1 h2 := ha.trans (hs.saved cp gate (hcp ▸ h1) h2)

/-- A state entered or gone on to, with no wait open. -/
theorem waits_none (ha : s.awaiting = none) (hpc : ∀ a, s.pc ≠ .asked a)
    (hpark : ∀ path kind state params, s.pc ≠ .parked path kind state params)
    (hcp : ∀ cp, s.checkpoint = some cp → cp.waitingOn = none) : Waits s where
  body _ _ := ha
  top _ _ _ _ h := by simp [ha] at h
  asked a h := absurd h (hpc a)
  parked path kind state params h := absurd h (hpark path kind state params)
  saved cp gate h1 h2 := by simp [hcp cp h1] at h2

/-- The wait is over when its gate is answered. -/
theorem observe_top {state : Text} {params : Params V} {gate : Text} (hs : Waits s)
    (hpc : t.pc = .top state params) (hcp : t.checkpoint = s.checkpoint)
    (ha : t.awaiting = s.awaiting) (hgate : s.awaiting = some gate)
    (hans : answered (t.files gate) = true) : Waits (observe t) where
  body _ h := by simp [hpc] at h
  top _ _ _ _ _ := observe_answered _ (ha.trans hgate) hans
  asked _ h := by simp [hpc] at h
  parked _ _ _ _ h := by simp [hpc] at h
  saved cp gate h1 h2 := by
    rw [observe_checkpoint, hcp] at h1
    rw [observe_awaiting, ha]
    exact hs.saved cp gate h1 h2

/-- Where a body runs, nothing is waited for, on disk either. -/
theorem Waits.noWait {state : Text} (hs : Waits s) (hpc : s.pc = .body state) :
    ∀ cp, s.checkpoint = some cp → cp.waitingOn = none := by
  intro cp hcp
  cases hw : cp.waitingOn with
  | none => rfl
  | some gate =>
    have h := hs.saved cp gate hcp hw
    rw [hs.body state hpc] at h
    cases h

theorem ask_checkpoint (s : State V) (path questions : Text) :
    (ask wf s path questions).checkpoint = s.checkpoint := by
  unfold ask
  split
  · rfl
  dsimp only
  split <;> rfl

theorem enter_waits (hs : Waits s) (state : Text) (params : Params V) :
    Waits (enter wf s state params) := by
  have hcp : (refuel wf s params).checkpoint = s.checkpoint := by
    unfold refuel; split <;> (try split) <;> rfl
  have ha : (refuel wf s params).awaiting = s.awaiting := by
    unfold refuel; split <;> (try split) <;> rfl
  unfold enter
  dsimp only
  split
  · exact waits_down hs rfl hcp ha
  · refine waits_none rfl (by simp) (by simp) ?_
    rintro _ ⟨⟩
    rfl

theorem returned_waits {state : Text} (hs : Waits s) (hpc : s.pc = .body state)
    (outcome : Transition V) : Waits (returned wf s outcome) := by
  have hnone := hs.body state hpc
  unfold returned
  split
  · exact waits_none hnone (by simp) (by simp) (hs.noWait hpc)
  · exact waits_none hnone (by simp) (by simp) (hs.noWait hpc)
  · rename_i a
    split
    · exact waits_down hs rfl rfl rfl
    · exact {
        body := fun _ h => by cases h
        top := fun _ _ _ h => by cases h
        asked := fun _ h => by cases h; rfl
        parked := fun _ _ _ _ h => by cases h
        saved := fun cp gate h1 h2 => by
          -- the body's own checkpoint waits on nothing
          have h3 : s.checkpoint = some cp := (ask_checkpoint s a.path a.questions).symm.trans h1
          simp [hs.noWait hpc cp h3] at h2 }

theorem record_waits {a : Await V} (hs : Waits s) (hpc : s.pc = .asked a) :
    Waits (record wf s a) where
  body _ h := by cases h
  top _ _ _ h := by cases h
  asked _ h := by cases h
  parked _ _ _ _ h := by cases h; exact hs.asked a hpc
  saved _ _ h1 h2 := by cases h1; cases h2; exact hs.asked a hpc

/-- The gate of the checkpoint can be read: it is still open, or it is answered. -/
theorem answered_of_not_stillParked {file : File} (hfile : file.isSome)
    (h : ¬ stillParked file = true) : answered file = true := by
  have := (stillParked_eq_iff file).2 hfile
  rw [this] at h
  simpa using h

theorem resume_waits (hs : Waits s) (hgate : GateReadable s .resume) :
    Waits (observe (resume wf s)) := by
  unfold resume
  dsimp only
  split
  · -- no checkpoint: the run starts over
    rename_i hcp
    refine observe_waits (waits_none rfl (by simp) (by simp) ?_)
    intro cp h
    rw [hcp] at h
    cases h
  · -- a checkpoint with no gate
    rename_i state params hcp
    refine observe_waits (waits_none rfl (by simp) (by simp) ?_)
    intro cp h
    rw [hcp] at h
    cases h
    rfl
  · -- a checkpoint with a gate, which is parked on again if it is still open
    rename_i state params gate hcp
    have ha : s.awaiting = some gate := hs.saved _ gate hcp rfl
    split
    · exact observe_waits {
        body := fun _ h => by cases h
        top := fun _ _ _ h => by cases h
        asked := fun _ h => by cases h
        parked := fun _ _ _ _ h => by cases h; exact ha
        saved := hs.saved }
    · -- the gate is not open and can be read, so it is answered
      rename_i hopen
      exact observe_top hs rfl rfl rfl ha
        (answered_of_not_stillParked (hgate rfl _ gate hcp rfl) hopen)

theorem consumeAnswer_waits (hs : Waits s) (asked path body : Text) (kind : Kind) :
    Waits (consumeAnswer s asked kind path body) := by
  unfold consumeAnswer
  repeat' split
  all_goals exact hs.congr rfl rfl rfl id

/-- **Every step keeps the wait**, if a resumed process can read the gate. -/
theorem step_waits (hs : Waits s) (hgate : GateReadable s e) (h : step wf s e = some t) :
    Waits t := by
  obtain ⟨u, hu, rfl⟩ := step_some h
  unfold advance at hu
  split at hu
  · -- a gate file is edited
    cases hu; exact observe_waits (hs.congr rfl rfl rfl id)
  · -- a state is entered
    split at hu
    · cases hu; exact observe_waits (enter_waits hs _ _)
    · cases hu
  · -- the body of a state returns
    split at hu
    · rename_i hpc; cases hu; exact observe_waits (returned_waits hs hpc _)
    · cases hu
  · -- a wait is recorded
    split at hu
    · rename_i hpc; cases hu; exact observe_waits (record_waits hs hpc)
    · cases hu
  · -- a wait is polled: the run goes past it only if the gate is answered
    split at hu
    · rename_i path kind state params hpc
      cases hu
      split
      · rename_i hans
        exact observe_top hs rfl rfl rfl (hs.parked path kind state params hpc) hans
      · exact observe_waits hs
    · cases hu
  · -- an answer is consumed
    split at hu
    · cases hu; exact observe_waits (consumeAnswer_waits hs _ _ _ _)
    · cases hu
  · -- the process stops
    split at hu
    · cases hu
    · cases hu; exact observe_waits (waits_down hs rfl rfl rfl)
  · -- a new process resumes
    split at hu
    · cases hu; exact resume_waits hs hgate
    · cases hu

theorem init_waits (wf : Flow V) (files : Text → File) : Waits (init wf files) :=
  waits_none rfl (by simp [init]) (by simp [init]) (by simp [init])

/-- What a new process does with an open wait whose answer has not been seen. -/
theorem resume_open {cp : Checkpoint V} {gate : Text} (h : step wf s .resume = some t)
    (hcp : s.checkpoint = some cp) (hw : cp.waitingOn = some gate) (ha : s.awaiting = some gate)
    (hheld : s.held = false) :
    t.held = answered (s.files gate) ∧
      t.pc = if stillParked (s.files gate) then .parked gate .operator cp.state cp.params
        else .top cp.state cp.params := by
  obtain ⟨state, params, waitingOn⟩ := cp
  subst hw
  obtain ⟨u, hu, rfl⟩ := step_some h
  have hu' : u = resume wf s := by
    dsimp only [advance] at hu
    split at hu
    · exact (Option.some.inj hu).symm
    · cases hu
  rw [hu', observe_pc]
  unfold resume
  simp only [hcp]
  split
  · exact ⟨by simp [observe, ha, hheld], rfl⟩
  · exact ⟨by simp [observe, ha, hheld], rfl⟩

/-- **A parked run waits.** Along a run whose resumes can read the gate they find in the
checkpoint, the next state of an `Await` is entered only after `answered` has held; and a
process that finds a wait not answered so far goes past it if and only if it cannot read
the gate. -/
theorem resume_keeps_waiting (wf : Flow V) (files : Text → File) (es : List (Event V))
    (hgates : Run.Along (step wf) GateReadable (init wf files) es)
    (h : Run.run (step wf) (init wf files) es = some s) :
    (∀ state params path, s.pc = .top state params → s.awaiting = some path → s.held = true) ∧
    (∀ t cp gate, step wf s .resume = some t → s.checkpoint = some cp →
      cp.waitingOn = some gate → s.held = false →
      ((t.pc = .top cp.state cp.params ∧ t.held = false) ↔ s.files gate = none)) := by
  have hs : Waits s := Run.inv_run_of (fun _ _ _ => step_waits) hgates (init_waits wf files) h
  refine ⟨hs.top, fun t cp gate ht hcp hw hheld => ?_⟩
  obtain ⟨hheld', hpc⟩ := resume_open ht hcp hw (hs.saved cp gate hcp hw) hheld
  rw [hheld', hpc]
  constructor
  · rintro ⟨h1, h2⟩
    cases hfile : s.files gate with
    | none => rfl
    | some text =>
      have hagree := (stillParked_eq_iff (s.files gate)).2 (by simp [hfile])
      rw [h2] at hagree
      simp [hagree] at h1
  · intro hfile
    rw [hfile]
    exact ⟨rfl, rfl⟩

/-! ## A gate that is not there yet -/

/-- A workflow that waits on a file which something else will write. -/
def waiting : Flow Unit where
  startState := "ask".toList
  resolveState := id
  maxTransitions := 1000
  refuelOn := []
  reprJsonable := fun _ => []
  jsonable := id
  hasQuestionHeading := fun _ => false
  dryRun := false

def waitingAwait : Await Unit where
  kind := .operator
  path := "gate.md".toList
  questions := []
  state := "next".toList
  params := []

/-- The run parks, polls in vain, and is stopped. -/
def parkAndStop : List (Event Unit) :=
  [.enter, .returns (.await waitingAwait), .record, .poll, .stop]

/-- A gate that is there, and open. -/
def openGate (_ : Text) : File := some "STATUS: AWAITING_OPERATOR".toList

/-- With the gate there, the stopped run parks again. -/
theorem resume_keeps_waiting_open : ∃ s, Run.run (step waiting) (init waiting openGate)
    (parkAndStop ++ [.resume]) = some s ∧ s.held = false ∧
      ∀ state params path, s.pc = .top state params → s.awaiting = some path → s.held = true := by
  have hgates : Run.Along (step waiting) GateReadable (init waiting openGate)
      (parkAndStop ++ [.resume]) := by
    refine (Run.along_cons rfl).2 ⟨fun h => (by cases h), ?_⟩
    refine (Run.along_cons rfl).2 ⟨fun h => (by cases h), ?_⟩
    refine (Run.along_cons rfl).2 ⟨fun h => (by cases h), ?_⟩
    refine (Run.along_cons rfl).2 ⟨fun h => (by cases h), ?_⟩
    refine (Run.along_cons rfl).2 ⟨fun h => (by cases h), ?_⟩
    exact (Run.along_cons rfl).2 ⟨fun _ _ _ _ _ => rfl, trivial⟩
  cases hrun : Run.run (step waiting) (init waiting openGate) (parkAndStop ++ [.resume]) with
  | none => cases hrun
  | some s =>
    obtain rfl := Option.some.inj hrun
    exact ⟨_, rfl, rfl, (resume_keeps_waiting waiting openGate _ hgates hrun).1⟩

/-- **A missing gate is skipped.** The same wait, stopped while the file is not there: the
run was parked, nothing answered it, and the resumed process stands before the next state. -/
theorem resume_skips_missing_gate :
    (∃ s, Run.run (step waiting) (init waiting fun _ => none)
      [.enter, .returns (.await waitingAwait), .record, .poll] = some s ∧
      s.pc = .parked "gate.md".toList .operator "next".toList []) ∧
    ∃ s, Run.run (step waiting) (init waiting fun _ => none) (parkAndStop ++ [.resume]) = some s ∧
      s.pc = .top "next".toList [] ∧ s.awaiting = some "gate.md".toList ∧ s.held = false :=
  ⟨⟨_, rfl, rfl⟩, _, rfl, rfl, rfl, rfl⟩

end Stablemate.Drive
