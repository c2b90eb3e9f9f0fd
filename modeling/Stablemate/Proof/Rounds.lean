import Stablemate.Lib.Lists
import Stablemate.Model.Rounds

/-!
# A benchmark round is resumable or complete

* `reserved_nodup`: no two processes reserve one number, in any order of their steps.
* `Steps`: how far `steps.json` and the running segment have got; kept by every operation and
  by a stop between any two.
* `Files`: what the result folder holds and which caveats it has; kept as long as no process is
  stopped while it fills the folder.
* `round_resumable_or_complete` puts them together.
-/

namespace Stablemate.Rounds

/-! ## Reserving a number -/

/-- What each process has reserved is a folder of its own that was not there before. -/
structure Reserved (before : List RunName) (s : Reserving) : Prop where
  nodup : (reserved s).Nodup
  made : ∀ name ∈ reserved s, name ∈ s.folders
  fresh : ∀ name ∈ reserved s, name ∉ before
  kept : ∀ name ∈ before, name ∈ s.folders

section Reserve

variable {before : List RunName} {s t : Reserving} {claims : List Claim} {folders : List RunName}

/-- A process that changes its claim leaves those of the others. -/
theorem set_eq {i : ℕ} {c d : Claim} (h : claims[i]? = some c) :
    ∃ pre post, claims = pre ++ c :: post ∧ claims.set i d = pre ++ d :: post := by
  obtain ⟨hi, rfl⟩ := List.getElem?_eq_some_iff.1 h
  refine ⟨claims.take i, claims.drop (i + 1), ?_, ?_⟩
  · rw [List.cons_getElem_drop_succ, List.take_append_drop]
  · rw [List.set_eq_take_append_cons_drop, if_pos hi]

theorem reserveStep_reserved {e : ReserveEvent} (h : Reserved before s) (hstep : reserveStep s e = some t) :
    Reserved before t := by
  obtain ⟨folders, claims⟩ := s
  cases e with
  | look key =>
    obtain rfl := Option.some.inj hstep
    have heq : reserved ⟨folders, claims ++ [.trying ⟨key, _taken folders key + 1⟩]⟩ =
        reserved ⟨folders, claims⟩ := by simp [reserved]
    exact ⟨heq ▸ h.nodup, heq ▸ h.made, heq ▸ h.fresh, h.kept⟩
  | mkdir i =>
    simp only [reserveStep] at hstep
    split at hstep
    · next name hi =>
      split at hstep
      · obtain rfl := Option.some.inj hstep
        obtain ⟨pre, post, hclaims, hset⟩ := set_eq (d := .trying { name with n := name.n + 1 }) hi
        have heq : reserved ⟨folders, claims.set i (.trying { name with n := name.n + 1 })⟩ =
            reserved ⟨folders, claims⟩ := by
          rw [hset, hclaims]
          simp [reserved]
        exact ⟨heq ▸ h.nodup, heq ▸ h.made, heq ▸ h.fresh, h.kept⟩
      · next hnew =>
        obtain rfl := Option.some.inj hstep
        obtain ⟨pre, post, hclaims, hset⟩ := set_eq (d := .claimed name) hi
        have hperm : (reserved ⟨name :: folders, claims.set i (.claimed name)⟩).Perm
            (name :: reserved ⟨folders, claims⟩) := by
          rw [hset, hclaims]
          simp only [reserved, List.filterMap_append, List.filterMap_cons]
          exact List.perm_middle
        refine ⟨hperm.nodup_iff.2 (List.nodup_cons.2 ⟨fun hmem => hnew (h.made _ hmem), h.nodup⟩), fun n hn => ?_,
          fun n hn => ?_, fun n hn => List.mem_cons_of_mem _ (h.kept n hn)⟩
        · exact List.mem_cons.2 ((List.mem_cons.1 (hperm.mem_iff.1 hn)).imp id (h.made n))
        · rcases List.mem_cons.1 (hperm.mem_iff.1 hn) with rfl | hn
          · exact fun hbefore => hnew (h.kept _ hbefore)
          · exact h.fresh n hn
    · cases hstep

/-- **No two processes reserve one number**, and none that was there before. -/
theorem reserved_nodup {es : List ReserveEvent} (hrun : Run.run reserveStep ⟨before, []⟩ es = some t) :
    (reserved t).Nodup ∧ ∀ name ∈ reserved t, name ∉ before := by
  have hstart : Reserved before ⟨before, []⟩ :=
    ⟨List.nodup_nil, fun name hn => absurd hn List.not_mem_nil, fun name hn => absurd hn List.not_mem_nil,
      fun name hn => hn⟩
  have h : Reserved before t :=
    Run.inv_run (fun s e t (hs : Reserved before s) hstep => reserveStep_reserved hs hstep) hstart hrun
  exact ⟨h.nodup, h.fresh⟩

end Reserve

/-! ## Which round is found -/

/-- **`resume` finds an open round by its number**, when no other open round has it. -/
theorem unfinished_of_open {name : RunName} {before after : List Found}
    (h : ∀ f ∈ before ++ after, f.isOpen = true → f.name.n ≠ name.n) :
    _unfinished_workspace (before ++ ⟨name, true⟩ :: after) (some name.n) = .ok ⟨name, true⟩ := by
  have hopen : ∀ l : List Found, (∀ f ∈ l, f.isOpen = true → f.name.n ≠ name.n) →
      (l.filter fun f => (some name.n).all fun n => f.name.n = n).filter Found.isOpen = [] := by
    intro l hl
    rw [List.filter_filter, List.filter_eq_nil_iff]
    intro f hf hboth
    simp only [Option.all_some, Bool.and_eq_true, decide_eq_true_eq] at hboth
    exact hl f hf hboth.1 hboth.2
  have hone : ((before ++ ⟨name, true⟩ :: after).filter fun f => (some name.n).all fun n => f.name.n = n).filter
      Found.isOpen = [⟨name, true⟩] := by
    rw [List.filter_append, List.filter_append, hopen before fun f hf => h f (by simp [hf])]
    simp only [List.nil_append]
    rw [List.filter_cons_of_pos (by simp), List.filter_cons_of_pos rfl,
      hopen after fun f hf => h f (by simp [hf])]
  unfold _unfinished_workspace
  dsimp only
  rw [hone]
  have hlast : ∃ last, ((before ++ ⟨name, true⟩ :: after).filter fun f =>
      (some name.n).all fun n => f.name.n = n).getLast? = some last := by
    refine ⟨_, List.getLast?_eq_some_getLast (fun hnil => ?_)⟩
    rw [hnil] at hone
    cases hone
  obtain ⟨last, hlast⟩ := hlast
  rw [hlast]
  simp

/-! ## How far the steps have got -/

section Steps

variable {task : Task} {s t : State} {steps todo : List Text} {name : Text} {done outcomes : List StepOutcome}

/-- A step is among the first `k` when it stands before place `k`. -/
theorem mem_take_of_split {pre post : List Text} (hnodup : (pre ++ name :: post).Nodup) {k : ℕ} :
    name ∈ (pre ++ name :: post).take k ↔ pre.length < k := by
  have hpre : name ∉ pre := by
    rw [List.nodup_append] at hnodup
    exact fun h => hnodup.2.2 name h name List.mem_cons_self rfl
  rw [List.take_append, List.mem_append]
  constructor
  · rintro (h | h)
    · exact absurd (List.mem_of_mem_take h) hpre
    · by_contra hle
      rw [Nat.sub_eq_zero_of_le (not_lt.1 hle)] at h
      exact absurd h List.not_mem_nil
  · intro hlt
    right
    obtain ⟨m, hm⟩ := Nat.exists_eq_add_of_lt hlt
    rw [show k - pre.length = m + 1 by omega, List.take_succ_cons]
    exact List.mem_cons_self

theorem finished_isSome : (finished done name).isSome = true ↔ ∃ o ∈ done, o.name = name ∧ o.status = .ok := by
  unfold finished
  rw [List.find?_isSome]
  simp only [List.mem_reverse, List.mem_filter, decide_eq_true_eq]
  exact ⟨fun ⟨o, ⟨ho, hok⟩, hname⟩ => ⟨o, ho, hname, hok⟩, fun ⟨o, ho, hname, hok⟩ => ⟨o, ⟨ho, hok⟩, hname⟩⟩

theorem finished_eq_some {o : StepOutcome} (h : finished done name = some o) : o.name = name ∧ o.status = .ok := by
  unfold finished at h
  have hname := List.find?_some h
  have hmem := List.mem_filter.1 (List.mem_reverse.1 (List.mem_of_find?_eq_some h))
  exact ⟨of_decide_eq_true hname, of_decide_eq_true hmem.2⟩

/-- The steps that the outcomes `done` have finished are the first `k`. -/
def Upto (steps : List Text) (done : List StepOutcome) (k : ℕ) : Prop :=
  ∀ name, (∃ o ∈ done, o.name = name ∧ o.status = .ok) ↔ name ∈ steps.take k

/-- The outcomes of a segment so far, and the steps that follow. -/
structure Going (steps : List Text) (outcomes : List StepOutcome) (todo : List Text) : Prop where
  names : outcomes.map StepOutcome.name ++ todo = steps
  allOk : ∀ o ∈ outcomes, o.status = .ok

/-- The outcomes when a body has just ended: the last one is its own. -/
structure Ended (steps : List Text) (outcomes : List StepOutcome) (todo : List Text) : Prop where
  names : outcomes.map StepOutcome.name ++ todo = steps
  last : ∃ ok o, outcomes = ok ++ [o] ∧ (∀ p ∈ ok, p.status = .ok) ∧ (o.status = .ok ∨ o.status = .failed)

theorem Going.upto (h : Going steps outcomes todo) : Upto steps outcomes outcomes.length := by
  intro name
  have htake : steps.take outcomes.length = outcomes.map StepOutcome.name := by
    rw [← h.names, List.take_left' (List.length_map _)]
  rw [htake, List.mem_map]
  exact ⟨fun ⟨o, ho, hname, _⟩ => ⟨o, ho, hname⟩, fun ⟨o, ho, hname⟩ => ⟨o, ho, hname, h.allOk o ho⟩⟩

/-- Outcomes of a body that failed count without it. -/
theorem Ended.upto (h : Ended steps outcomes todo) :
    ∃ k, outcomes.length - 1 ≤ k ∧ k ≤ outcomes.length ∧ Upto steps outcomes k := by
  obtain ⟨ok, o, rfl, hok, ho⟩ := h.last
  rcases ho with ho | ho
  · have hall : Going steps (ok ++ [o]) todo := ⟨h.names, fun p hp => by
      rcases List.mem_append.1 hp with hp | hp
      · exact hok p hp
      · rwa [List.mem_singleton.1 hp]⟩
    exact ⟨_, Nat.sub_le _ _, le_rfl, hall.upto⟩
  · have hbefore : Going steps ok (o.name :: todo) := ⟨by simpa using h.names, hok⟩
    refine ⟨ok.length, by simp, by simp, fun name => ?_⟩
    rw [← hbefore.upto name]
    constructor
    · rintro ⟨p, hp, hname, hpok⟩
      rcases List.mem_append.1 hp with hp | hp
      · exact ⟨p, hp, hname, hpok⟩
      · obtain rfl := List.mem_singleton.1 hp
        rw [ho] at hpok
        cases hpok
    · exact fun ⟨p, hp, hname, hpok⟩ => ⟨p, List.mem_append_left _ hp, hname, hpok⟩

theorem Going.shaped (h : Going steps outcomes []) : Shaped steps outcomes :=
  ⟨by simpa using h.names, outcomes, [], by simp, h.allOk, .inl rfl⟩

theorem Ended.shaped (h : Ended steps outcomes todo)
    (hfailed : (outcomes.getLast?.map StepOutcome.status) ≠ some .ok) :
    Shaped steps (outcomes ++ skipped todo) := by
  obtain ⟨ok, o, rfl, hok, ho⟩ := h.last
  have hfail : o.status = .failed := ho.resolve_left fun hok' => hfailed (by simp [hok'])
  have hnames : (skipped todo).map StepOutcome.name = todo := by
    rw [skipped, List.map_map]
    exact List.map_id' todo
  refine ⟨by rw [List.map_append, hnames, h.names], ok, o :: skipped todo, by simp, hok, .inr ?_⟩
  refine ⟨o, skipped todo, rfl, hfail, fun l hl => ?_⟩
  obtain ⟨name, -, rfl⟩ := List.mem_map.1 hl
  rfl

theorem Ended.going (h : Ended steps outcomes todo)
    (hok : (outcomes.getLast?.map StepOutcome.status) = some .ok) : Going steps outcomes todo := by
  obtain ⟨ok, o, rfl, hall, -⟩ := h.last
  refine ⟨h.names, fun p hp => ?_⟩
  rcases List.mem_append.1 hp with hp | hp
  · exact hall p hp
  · rw [List.mem_singleton.1 hp]
    simpa using hok

/-- What the process knows, when `steps.json` has the first `k` steps. -/
def PcSteps (steps : List Text) (k : ℕ) : Pc → Prop
  | .idle => True
  | .opening _ done => ∃ f, Upto steps done f ∧ k ≤ f
  | .stepping _ done outcomes todo =>
    Going steps outcomes todo ∧ ∃ f, Upto steps done f ∧ k ≤ max f outcomes.length
  | .recording _ done outcomes todo =>
    Ended steps outcomes todo ∧ ∃ f, Upto steps done f ∧ f < outcomes.length ∧ k < outcomes.length
  | .scoring _ outcomes => Shaped steps outcomes
  | .interrupting _ => True
  | .filing _ ledger _ => Shaped steps ledger.steps

/-- **How far a round has got**: `steps.json` has the first `k` steps, and the running segment
does not run them again. -/
structure StepsInv (steps : List Text) (k : ℕ) (s : State) : Prop where
  disk : Upto steps (s.disk.steps.getD []) k
  pc : PcSteps steps k s.pc
  ledger : ∀ r l, s.disk.result = some r → r.ledger = some l → Shaped steps l.steps

theorem write_steps {k : ℕ} (h : StepsInv task.steps k s)
    (hwrite : write task s = some t) : ∃ k', k ≤ k' ∧ StepsInv task.steps k' t := by
  have hpc := h.pc
  unfold write at hwrite
  split at hwrite
  · next round done heq =>
    obtain rfl := Option.some.inj hwrite
    rw [heq] at hpc
    obtain ⟨f, hf, hk⟩ := hpc
    exact ⟨k, le_rfl, h.disk, ⟨⟨rfl, by simp⟩, f, hf, hk.trans (le_max_left _ _)⟩, h.ledger⟩
  · next round done outcomes todo heq =>
    rw [heq] at hpc
    obtain ⟨hended, f, hf, hflt, hklt⟩ := hpc
    obtain ⟨k', hlow, hhigh, hupto⟩ := hended.upto
    dsimp only at hwrite
    split at hwrite
    · next hok =>
      obtain rfl := Option.some.inj hwrite
      exact ⟨k', by omega, hupto, ⟨hended.going hok, f, hf, hhigh.trans (le_max_right _ _)⟩, h.ledger⟩
    · next hfailed =>
      obtain rfl := Option.some.inj hwrite
      exact ⟨k', by omega, hupto, hended.shaped hfailed, h.ledger⟩
  · obtain rfl := Option.some.inj hwrite
    exact ⟨k, le_rfl, h.disk, trivial, h.ledger⟩
  · next next ledger own heq =>
    obtain rfl := Option.some.inj hwrite
    rw [heq] at hpc
    refine ⟨k, le_rfl, h.disk, ?_, fun r l hr hl => ?_⟩
    · cases next <;> first | exact hpc | trivial
    · dsimp only at hr
      rcases hres : s.disk.result with _ | r'
      · cases next <;> rw [hres] at hr <;> simp only [fill, Option.map_none, Option.getD_none] at hr
        · obtain rfl := Option.some.inj hr
          cases hl
        all_goals cases hr
      · cases next <;> rw [hres] at hr <;> obtain rfl := Option.some.inj hr
        · exact h.ledger r' l hres hl
        · obtain rfl : ledger = l := Option.some.inj hl
          exact hpc
        all_goals exact h.ledger r' l hres hl
  · cases hwrite

theorem runBody_steps {k : ℕ} {b : Body} {touched : List Text} (hnodup : task.steps.Nodup)
    (h : StepsInv task.steps k s) (hbody : runBody s b touched = some t) : StepsInv task.steps k t := by
  have hpc := h.pc
  unfold runBody at hbody
  split at hbody
  · next round done outcomes name todo heq =>
    rw [heq] at hpc
    obtain ⟨hgoing, f, hf, hk⟩ := hpc
    split at hbody
    · cases hbody
    · next hnew =>
      have hsplit := hgoing.names
      -- a step that has not finished stands behind all that have
      have hlen : f ≤ outcomes.length := by
        by_contra hlt
        refine hnew (finished_isSome.2 ((hf name).2 ?_))
        rw [← hsplit, mem_take_of_split (hsplit ▸ hnodup), List.length_map]
        omega
      have hended : ∀ o : StepOutcome, o.name = name → (o.status = .ok ∨ o.status = .failed) →
          PcSteps task.steps k (.recording round done (outcomes ++ [o]) todo) := by
        intro o hname ho
        refine ⟨⟨?_, outcomes, o, rfl, hgoing.allOk, ho⟩, f, hf, ?_, ?_⟩
        · rw [List.map_append, List.append_assoc, ← hsplit, ← hname]
          rfl
        · rw [List.length_append, List.length_singleton]
          omega
        · rw [List.length_append, List.length_singleton]
          omega
      cases b <;> obtain rfl := Option.some.inj hbody
      · exact ⟨h.disk, hended _ rfl (.inl rfl), h.ledger⟩
      · exact ⟨h.disk, hended _ rfl (.inr rfl), h.ledger⟩
      · exact ⟨h.disk, trivial, h.ledger⟩
      · exact ⟨h.disk, trivial, h.ledger⟩
  · cases hbody

/-- The score changes no step. -/
theorem runScore_steps {k : ℕ} {b : Scoring} {touched : List Text} (h : StepsInv task.steps k s)
    (hscore : runScore task s b touched = some t) : StepsInv task.steps k t := by
  have hpc := h.pc
  unfold runScore at hscore
  dsimp only at hscore
  split at hscore
  · next round done outcomes heq =>
    rw [heq] at hpc
    have hshaped := hpc.1.shaped
    split at hscore
    · cases b <;> obtain rfl := Option.some.inj hscore
      · exact ⟨h.disk, hshaped, h.ledger⟩
      · exact ⟨h.disk, trivial, h.ledger⟩
      · exact ⟨h.disk, trivial, h.ledger⟩
    · obtain rfl := Option.some.inj hscore
      exact ⟨h.disk, hshaped, h.ledger⟩
  · next round outcomes heq =>
    rw [heq] at hpc
    split at hscore
    · cases b <;> obtain rfl := Option.some.inj hscore
      · exact ⟨h.disk, hpc, h.ledger⟩
      · exact ⟨h.disk, trivial, h.ledger⟩
      · exact ⟨h.disk, trivial, h.ledger⟩
    · obtain rfl := Option.some.inj hscore
      exact ⟨h.disk, hpc, h.ledger⟩
  · cases hscore

/-- **One event keeps what `steps.json` has**, and nothing in it is lost. -/
theorem step_steps {k : ℕ} {e : Event} (hnodup : task.steps.Nodup) (h : StepsInv task.steps k s)
    (hstep : step task s e = some t) : ∃ k', k ≤ k' ∧ StepsInv task.steps k' t := by
  have hpc := h.pc
  cases e with
  | write => exact write_steps h hstep
  | skip =>
    simp only [step] at hstep
    split at hstep
    · next round done outcomes name todo heq =>
      obtain ⟨o, ho, rfl⟩ := Option.map_eq_some_iff.1 hstep
      obtain ⟨hname, hok⟩ := finished_eq_some ho
      rw [heq] at hpc
      obtain ⟨hgoing, f, hf, hk⟩ := hpc
      refine ⟨k, le_rfl, h.disk, ⟨⟨?_, fun p hp => ?_⟩, f, hf, ?_⟩, h.ledger⟩
      · rw [List.map_append, List.append_assoc, ← hgoing.names, ← hname]
        rfl
      · rcases List.mem_append.1 hp with hp | hp
        · exact hgoing.allOk p hp
        · rwa [List.mem_singleton.1 hp]
      · rw [List.length_append, List.length_singleton]
        omega
    · cases hstep
  | body b touched => exact ⟨k, le_rfl, runBody_steps hnodup h hstep⟩
  | score b touched => exact ⟨k, le_rfl, runScore_steps h hstep⟩
  | stop =>
    simp only [step] at hstep
    split at hstep
    · cases hstep
    · obtain rfl := Option.some.inj hstep
      exact ⟨k, le_rfl, h.disk, trivial, h.ledger⟩
  | resume =>
    simp only [step] at hstep
    split at hstep
    · obtain rfl := Option.some.inj hstep
      exact ⟨k, le_rfl, h.disk, ⟨k, h.disk, le_rfl⟩, h.ledger⟩
    · cases hstep

theorem opened_steps (degraded : List Text) : StepsInv steps 0 (opened degraded) := by
  have hnone : Upto steps [] 0 := by
    intro name
    simp
  exact ⟨hnone, ⟨0, hnone, le_rfl⟩, fun r l hr => (nomatch hr)⟩

theorem run_steps {es : List Event} (hnodup : task.steps.Nodup) : ∀ {s : State} {k : ℕ},
    StepsInv task.steps k s → Run.run (step task) s es = some t → ∃ k', k ≤ k' ∧ StepsInv task.steps k' t := by
  induction es with
  | nil =>
    intro s k h hrun
    obtain rfl := Option.some.inj hrun
    exact ⟨k, le_rfl, h⟩
  | cons e es ih =>
    intro s k h hrun
    obtain ⟨u, hu, hrun⟩ := Run.run_cons_some.1 hrun
    obtain ⟨k₁, hk₁, h₁⟩ := step_steps hnodup h hu
    obtain ⟨k₂, hk₂, h₂⟩ := ih h₁ hrun
    exact ⟨k₂, hk₁.trans hk₂, h₂⟩

/-- A step that `steps.json` has is not the one whose body runs next. -/
theorem StepsInv.not_runsNext {k : ℕ} (hnodup : steps.Nodup) (h : StepsInv steps k s)
    (hrecorded : s.disk.Recorded name) : ¬ s.runsNext name := by
  rintro ⟨round, done, outcomes, todo, heq, hnew⟩
  have hpc := h.pc
  rw [heq] at hpc
  obtain ⟨hgoing, f, hf, hk⟩ := hpc
  have hat := mem_take_of_split (k := k) (hgoing.names ▸ hnodup)
  have hat' := mem_take_of_split (k := f) (hgoing.names ▸ hnodup)
  rw [hgoing.names, List.length_map] at hat hat'
  have hlt := hat.1 ((h.disk name).1 hrecorded)
  have hnot : name ∉ steps.take f := by
    intro hmem
    have := finished_isSome.2 ((hf name).2 hmem)
    rw [hnew] at this
    cases this
  have hle : ¬ outcomes.length < f := fun hlt' => hnot (hat'.2 hlt')
  omega

end Steps

/-! ## What the result folder holds -/

section Files

variable {task : Task} {s t : State}

/-- The result folder when `next` is the operation that follows. -/
def contents (next : Filing) (ledger : Ledger) : Option Result :=
  match next with
  | .folder => none
  | .ledger => some ⟨none, false, false, .absent⟩
  | .score => some ⟨some ledger, false, false, .absent⟩
  | .config => some ⟨some ledger, true, false, .absent⟩
  | .stage => some ⟨some ledger, true, true, .absent⟩
  | .copied => some ⟨some ledger, true, true, .partially⟩

/-- What the process has in memory, of the caveats and of the result folder. -/
def PcFiles (reported : List Text) (result : Option Result) : Pc → Prop
  | .idle => result = none ∨
    ∃ ledger, result = some ⟨some ledger, true, true, .complete⟩ ∧ ∀ c ∈ reported, c ∈ ledger.caveats
  | .opening round _ | .stepping round _ _ _ | .recording round _ _ _ | .scoring round _
  | .interrupting round => result = none ∧ ∀ c ∈ reported, c ∈ round.caveats
  | .filing next ledger own => result = contents next ledger ∧
    (∀ c ∈ reported, c ∈ ledger.caveats) ∧ ∀ c ∈ own, c ∈ ledger.caveats

/-- **The result folder is there in full, or not at all, or is being filled.** -/
structure FilesInv (s : State) : Prop where
  pc : PcFiles s.reported s.disk.result s.pc
  round : s.disk.result = none → ∀ round, s.disk.round = some round → ∀ c ∈ s.reported, c ∈ round.caveats

theorem write_files (h : FilesInv s) (hwrite : write task s = some t) : FilesInv t := by
  have hpc := h.pc
  unfold write at hwrite
  split at hwrite
  · next round done heq =>
    obtain rfl := Option.some.inj hwrite
    rw [heq] at hpc
    refine ⟨hpc, fun _ round' hround => ?_⟩
    obtain rfl := Option.some.inj hround
    exact hpc.2
  · next round done outcomes todo heq =>
    rw [heq] at hpc
    dsimp only at hwrite
    split at hwrite
    · obtain rfl := Option.some.inj hwrite
      exact ⟨hpc, h.round⟩
    · obtain rfl := Option.some.inj hwrite
      exact ⟨hpc, h.round⟩
  · next round heq =>
    obtain rfl := Option.some.inj hwrite
    rw [heq] at hpc
    refine ⟨.inl hpc.1, fun _ round' hround c hc => ?_⟩
    obtain rfl := Option.some.inj hround
    rcases List.mem_append.1 hc with hc | hc
    · exact List.mem_append_left _ (hpc.2 c hc)
    · exact List.mem_append_right _ hc
  · next next ledger own heq =>
    obtain rfl := Option.some.inj hwrite
    rw [heq] at hpc
    obtain ⟨hresult, hreported, hown⟩ := hpc
    have hboth : ∀ c ∈ s.reported ++ own, c ∈ ledger.caveats := fun c hc =>
      (List.mem_append.1 hc).elim (hreported c) (hown c)
    have hsome : fill next ledger s.disk.result ≠ none := by
      rw [hresult]
      cases next <;> simp [fill, contents]
    refine ⟨?_, fun hnone => absurd hnone hsome⟩
    cases next <;> rw [contents] at hresult
    · exact ⟨by simp [hresult, fill, contents], hreported, hown⟩
    · exact ⟨by simp [hresult, fill, contents], hboth, hown⟩
    · exact ⟨by simp [hresult, fill, contents], hreported, hown⟩
    · exact ⟨by simp [hresult, fill, contents], hreported, hown⟩
    · exact ⟨by simp [hresult, fill, contents], hreported, hown⟩
    · exact .inr ⟨ledger, by simp [hresult, fill], hreported⟩
  · cases hwrite

theorem mem_ledgerOf {round : Round} {outcomes : List StepOutcome} {escaped scored : List Text} {c : Text}
    (h : c ∈ round.caveats ∨ c ∈ escaped ++ scored) : c ∈ (ledgerOf round outcomes escaped scored).caveats := by
  simp only [ledgerOf, List.mem_append] at h ⊢
  tauto

/-- Before the folder is made, the score decides how the segment ends. -/
theorem runScore_files {b : Scoring} {touched : List Text} (h : FilesInv s)
    (hscore : runScore task s b touched = some t) : FilesInv t := by
  have hpc := h.pc
  have hend : ∀ (round : Round) (outcomes : List StepOutcome) (escaped scored : List Text),
      (s.disk.result = none ∧ ∀ c ∈ s.reported, c ∈ round.caveats) →
      PcFiles s.reported s.disk.result
        (.filing .folder (ledgerOf round outcomes escaped scored) (escaped ++ scored)) :=
    fun round outcomes escaped scored hr => ⟨hr.1, fun c hc => mem_ledgerOf (.inl (hr.2 c hc)),
      fun c hc => mem_ledgerOf (.inr hc)⟩
  have hscored : ∀ (round : Round) (outcomes : List StepOutcome),
      (s.disk.result = none ∧ ∀ c ∈ s.reported, c ∈ round.caveats) →
      PcFiles s.reported s.disk.result
        (.filing .folder (ledgerOf round outcomes s.pin []) s.pin) := by
    intro round outcomes hr
    have := hend round outcomes s.pin [] hr
    rwa [List.append_nil] at this
  unfold runScore at hscore
  dsimp only at hscore
  split at hscore
  · next round done outcomes heq =>
    rw [heq] at hpc
    split at hscore
    · cases b <;> obtain rfl := Option.some.inj hscore
      · exact ⟨hend _ _ _ _ hpc, h.round⟩
      · exact ⟨hpc, h.round⟩
      · exact ⟨.inl hpc.1, h.round⟩
    · obtain rfl := Option.some.inj hscore
      exact ⟨hscored _ _ hpc, h.round⟩
  · next round outcomes heq =>
    rw [heq] at hpc
    split at hscore
    · cases b <;> obtain rfl := Option.some.inj hscore
      · exact ⟨hend _ _ _ _ hpc, h.round⟩
      · exact ⟨hpc, h.round⟩
      · exact ⟨.inl hpc.1, h.round⟩
    · obtain rfl := Option.some.inj hscore
      exact ⟨hscored _ _ hpc, h.round⟩
  · cases hscore

/-- **One event keeps the result folder whole**, when it does not stop a process that fills it. -/
theorem step_files {e : Event} (h : FilesInv s) (hoff : StopsOutside s e) (hstep : step task s e = some t) :
    FilesInv t := by
  have hpc := h.pc
  cases e with
  | write => exact write_files h hstep
  | skip =>
    simp only [step] at hstep
    split at hstep
    · next round done outcomes name todo heq =>
      obtain ⟨o, -, rfl⟩ := Option.map_eq_some_iff.1 hstep
      rw [heq] at hpc
      exact ⟨hpc, h.round⟩
    · cases hstep
  | body b touched =>
    simp only [step, runBody] at hstep
    split at hstep
    · next round done outcomes name todo heq =>
      rw [heq] at hpc
      split at hstep
      · cases hstep
      · cases b <;> obtain rfl := Option.some.inj hstep
        · exact ⟨hpc, h.round⟩
        · exact ⟨hpc, h.round⟩
        · exact ⟨hpc, h.round⟩
        · exact ⟨.inl hpc.1, h.round⟩
    · cases hstep
  | score b touched => exact runScore_files h hstep
  | stop =>
    simp only [step] at hstep
    split at hstep
    · cases hstep
    · next hrunning =>
      obtain rfl := Option.some.inj hstep
      refine ⟨?_, h.round⟩
      rcases heq : s.pc with _ | _ | _ | _ | _ | _ | ⟨next, ledger, own⟩ <;> rw [heq] at hpc
      · exact absurd heq hrunning
      · exact .inl hpc.1
      · exact .inl hpc.1
      · exact .inl hpc.1
      · exact .inl hpc.1
      · exact .inl hpc.1
      · by_cases hnext : next = .folder
        · rw [hnext] at hpc
          exact .inl hpc.1
        · exact absurd ⟨next, ledger, own, heq, hnext⟩ (hoff rfl)
  | resume =>
    simp only [step] at hstep
    split at hstep
    · next round hidle hround hnone =>
      obtain rfl := Option.some.inj hstep
      exact ⟨⟨hnone, h.round hnone round hround⟩, h.round⟩
    · cases hstep

theorem run_files {es : List Event} {degraded : List Text}
    (hoff : Run.Along (step task) StopsOutside (opened degraded) es)
    (hrun : Run.run (step task) (opened degraded) es = some t) : FilesInv t := by
  have hstart : FilesInv (opened degraded) :=
    ⟨⟨rfl, fun c hc => absurd hc List.not_mem_nil⟩, fun _ round hround => (nomatch hround)⟩
  exact Run.inv_run_of (fun s e t (hs : FilesInv s) hoff hstep => step_files hs hoff hstep) hoff hstart hrun

/-- A round without a result, a round with all of it, or one that is being filled. -/
theorem FilesInv.legal (h : FilesInv s) : s.Files ∨
    (s.disk.result = none ∧ ∀ round, s.disk.round = some round → Resumable s.disk) ∨
    ∃ r, s.disk.result = some r ∧ r.Complete := by
  have hresumable : s.disk.result = none → ∀ round, s.disk.round = some round → Resumable s.disk := by
    intro hnone round hround
    refine ⟨⟨round, hround⟩, fun name before after hothers => ?_⟩
    rw [hnone]
    exact unfinished_of_open hothers
  have hpc := h.pc
  rcases heq : s.pc with _ | _ | _ | _ | _ | _ | ⟨next, ledger, own⟩ <;> rw [heq] at hpc
  · rcases hpc with hnone | ⟨ledger, hresult, -⟩
    · exact .inr (.inl ⟨hnone, hresumable hnone⟩)
    · exact .inr (.inr ⟨_, hresult, ⟨ledger, rfl⟩, rfl, rfl, rfl⟩)
  · exact .inr (.inl ⟨hpc.1, hresumable hpc.1⟩)
  · exact .inr (.inl ⟨hpc.1, hresumable hpc.1⟩)
  · exact .inr (.inl ⟨hpc.1, hresumable hpc.1⟩)
  · exact .inr (.inl ⟨hpc.1, hresumable hpc.1⟩)
  · exact .inr (.inl ⟨hpc.1, hresumable hpc.1⟩)
  · by_cases hnext : next = .folder
    · rw [hnext] at hpc
      exact .inr (.inl ⟨hpc.1, hresumable hpc.1⟩)
    · exact .inl ⟨next, ledger, own, heq, hnext⟩

/-- The ledger has the caveats of every segment that reported. -/
theorem FilesInv.caveats (h : FilesInv s) {r : Result} {l : Ledger} (hresult : s.disk.result = some r)
    (hl : r.ledger = some l) : ∀ c ∈ s.reported, c ∈ l.caveats := by
  have hpc := h.pc
  rcases heq : s.pc with _ | _ | _ | _ | _ | _ | ⟨next, ledger, own⟩ <;> rw [heq, hresult] at hpc
  · rcases hpc with hnone | ⟨ledger, hresult', hcaveats⟩
    · cases hnone
    · obtain rfl := Option.some.inj hresult'
      obtain rfl := Option.some.inj hl
      exact hcaveats
  · cases hpc.1
  · cases hpc.1
  · cases hpc.1
  · cases hpc.1
  · cases hpc.1
  · have hcontents := hpc.1
    cases next <;> rw [contents] at hcontents
    · cases hcontents
    · obtain rfl := Option.some.inj hcontents
      cases hl
    · obtain rfl := Option.some.inj hcontents
      obtain rfl := Option.some.inj hl
      exact hpc.2.1
    · obtain rfl := Option.some.inj hcontents
      obtain rfl := Option.some.inj hl
      exact hpc.2.1
    · obtain rfl := Option.some.inj hcontents
      obtain rfl := Option.some.inj hl
      exact hpc.2.1
    · obtain rfl := Option.some.inj hcontents
      obtain rfl := Option.some.inj hl
      exact hpc.2.1

end Files

/-! ## The round -/

section Round

variable {task : Task} {t : State} {es : List Event} {degraded : List Text}

/-- **A round is resumable or complete.** A step that `steps.json` has as ok does not run again,
whatever happens; the steps of a ledger have their shape; as long as no process is stopped while
it fills the result folder, the folder is not there and `resume` finds the round, or it is there
in full, or it is being filled, and its ledger has the caveats of every segment that reported;
and no two rounds have one name. -/
theorem round_resumable_or_complete (htask : task.steps.Nodup)
    (hrun : Run.run (step task) (opened degraded) es = some t) :
    (∀ name, t.disk.Recorded name → ∀ es' u, Run.run (step task) t es' = some u →
      u.disk.Recorded name ∧ ¬ u.runsNext name) ∧
    (∀ r l, t.disk.result = some r → r.ledger = some l → Shaped task.steps l.steps) ∧
    (Run.Along (step task) StopsOutside (opened degraded) es →
      (t.Files ∨ (t.disk.result = none ∧ ∀ round, t.disk.round = some round → Resumable t.disk) ∨
        ∃ r, t.disk.result = some r ∧ r.Complete) ∧
      ∀ r l, t.disk.result = some r → r.ledger = some l → ∀ c ∈ t.reported, c ∈ l.caveats) ∧
    ∀ folders es' u, Run.run reserveStep ⟨folders, []⟩ es' = some u →
      (reserved u).Nodup ∧ ∀ name ∈ reserved u, name ∉ folders := by
  obtain ⟨k, -, hsteps⟩ := run_steps htask (opened_steps degraded) hrun
  refine ⟨fun name hname es' u hu => ?_, hsteps.ledger, fun hoff => ?_, fun folders es' u hu => reserved_nodup hu⟩
  · obtain ⟨k', hk', hsteps'⟩ := run_steps htask hsteps hu
    have hin : name ∈ task.steps.take k := (hsteps.disk name).1 hname
    have hin' : name ∈ task.steps.take k' := (List.take_sublist_take_left hk').subset hin
    have hrecorded : u.disk.Recorded name := (hsteps'.disk name).2 hin'
    exact ⟨hrecorded, hsteps'.not_runsNext htask hrecorded⟩
  · have hfiles := run_files hoff hrun
    exact ⟨hfiles.legal, fun r l hr hl => hfiles.caveats hr hl⟩

end Round

/-- Two steps and no score function. -/
def build : Task where
  steps := ["build".toList, "try".toList]
  scored := false

/-- The first step runs, the second is interrupted, `resume` runs it and finishes. -/
def interruptedOnce : List Event :=
  [.write, .body .returns ["own checkout".toList], .write, .body .interrupted [], .write,
   .resume, .write, .skip, .body .returns [], .write, .score .raises [],
   .write, .write, .write, .write, .write, .write]

/-- Its first step is not run again, its result is complete, and the ledger has the caveat. -/
theorem round_resumable_or_complete_interrupted :
    ∃ t, Run.run (step build) (opened []) interruptedOnce = some t ∧
      (∀ es' u, Run.run (step build) t es' = some u → ¬ u.runsNext "build".toList) ∧
      ∀ r l, t.disk.result = some r → r.ledger = some l → "own checkout".toList ∈ l.caveats := by
  have hends : (Run.run (step build) (opened []) interruptedOnce).map (fun t => (t.disk.steps, t.reported)) =
      some (some [⟨"build".toList, .ok, []⟩, ⟨"try".toList, .ok, []⟩], ["own checkout".toList]) := by
    decide
  obtain ⟨t, ht, heq⟩ := Option.map_eq_some_iff.1 hends
  obtain ⟨hsteps, hreported⟩ := Prod.mk.inj heq
  have hoff : Run.Along (step build) StopsOutside (opened []) interruptedOnce := by
    refine Run.along_iff.2 fun es' e u hpre _ hstop => ?_
    have hmem : e ∈ interruptedOnce := hpre.subset (List.mem_append_right _ List.mem_cons_self)
    rw [hstop] at hmem
    simp [interruptedOnce] at hmem
  obtain ⟨hagain, -, hwhole, -⟩ := round_resumable_or_complete (by decide) ht
  refine ⟨t, ht, fun es' u hu => (hagain _ ?_ es' u hu).2, fun r l hr hl => (hwhole hoff).2 r l hr hl _ ?_⟩
  · exact ⟨⟨"build".toList, .ok, []⟩, by rw [hsteps]; exact List.mem_cons_self, rfl, rfl⟩
  · rw [hreported]
    exact List.mem_cons_self

/-- Three ways out: a process that is stopped while it fills the result folder leaves a result
without its stage that `resume` refuses; a segment that is stopped leaves no word of its pin; and
a number is free again for another commit, with which two open rounds are told apart no more. -/
theorem stop_leaves_neither :
    (Run.run (step build) (opened [])
      [.write, .body (.fails []) [], .write, .score .raises [], .write, .write, .stop]).map
      (fun t => (t.disk.result.map fun r => (r.score, r.stage), (step build t .resume).isSome)) =
        some (some (false, .absent), false) ∧
    (Run.run (step build) (opened [])
      [.write, .body .returns ["own checkout".toList], .stop, .resume, .write, .body (.fails []) [], .write,
       .score .raises [], .write, .write]).map
      (fun t => (t.disk.result.bind Result.ledger).map Ledger.caveats) =
        some (some (some ["step 'build' failed".toList, "step 'try' skipped".toList])) ∧
    (Run.run reserveStep ⟨[], []⟩ [.look "one".toList, .mkdir 0, .look "two".toList, .mkdir 1]).map reserved =
      some [⟨"one".toList, 1⟩, ⟨"two".toList, 1⟩] ∧
    _unfinished_workspace [⟨⟨"one".toList, 1⟩, true⟩, ⟨⟨"two".toList, 1⟩, true⟩] (some 1) = .error (.tied 1) := by
  refine ⟨by decide, by decide, by decide, by decide⟩

end Stablemate.Rounds
