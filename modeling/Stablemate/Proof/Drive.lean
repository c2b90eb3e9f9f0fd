import Mathlib.Data.Finset.Card
import Stablemate.Model.Drive

/-!
# The transition budget bounds a run, as long as its tokens never come back

* `bodies_le_refuels`: a process enters at most `refuels + 1` budgets of state bodies.
* `budget_bounds_run`: with an empty `REFUEL_ON` it enters at most `budget` of them; **when
  a token that differs from the last one is always a new one, `k` distinct tokens allow at
  most `(k + 1) * budget` bodies.**
* `ping_pong_refuels`: two tokens that take turns refuel the run for ever.
-/

namespace Stablemate.Drive

variable {V : Type*} {wf : Flow V} {s t : State V} {e : Event V} {es : List (Event V)}

section Observe

variable (s : State V)

@[simp] theorem observe_pc : (observe s).pc = s.pc := by unfold observe; split <;> rfl
@[simp] theorem observe_checkpoint : (observe s).checkpoint = s.checkpoint := by
  unfold observe; split <;> rfl
@[simp] theorem observe_awaiting : (observe s).awaiting = s.awaiting := by
  unfold observe; split <;> rfl

/-- Once held, an answer stays so. -/
theorem observe_held (h : s.held = true) : (observe s).held = true := by
  unfold observe; split
  · simp [h]
  · exact h

/-- An answered gate is noted. -/
theorem observe_answered {path : Text} (h : s.awaiting = some path)
    (ha : Gates.answered (s.files path) = true) : (observe s).held = true := by
  unfold observe; rw [h]; simp [ha]

end Observe

theorem step_some (h : step wf s e = some t) : ∃ u, advance wf s e = some u ∧ t = observe u := by
  obtain ⟨u, hu, rfl⟩ := Option.map_eq_some_iff.1 h
  exact ⟨u, hu, rfl⟩

/-! ## The tank -/

/-- What the budget is counted with. -/
def tank (s : State V) : ℕ × ℤ × Option Text × List Text :=
  (s.bodies, s.remaining, s.refuelToken, s.tokens)

@[simp] theorem tank_observe (s : State V) : tank (observe s) = tank s := by
  unfold observe; split <;> rfl

theorem tank_ask (s : State V) (path questions : Text) : tank (ask wf s path questions) = tank s := by
  unfold ask
  split
  · rfl
  dsimp only
  split <;> rfl

theorem tank_returned (s : State V) (outcome : Transition V) :
    tank (returned wf s outcome) = tank s := by
  unfold returned
  split
  · rfl
  · rfl
  · split
    · rfl
    · exact tank_ask s _ _

theorem tank_consumeAnswer (s : State V) (asked path body : Text) (kind : Kind) :
    tank (consumeAnswer s asked kind path body) = tank s := by
  unfold consumeAnswer
  repeat' split
  all_goals rfl

/-- Only entering a state and starting a process touch the tank. -/
theorem advance_tank (h : advance wf s e = some t) :
    (e = .enter ∧ ∃ state params, s.pc = .top state params ∧ t = enter wf s state params) ∨
      (e = .resume ∧ t = resume wf s) ∨ tank t = tank s := by
  unfold advance at h
  split at h
  · -- a gate file is edited
    cases h; exact .inr (.inr rfl)
  · -- a state is entered
    split at h
    · rename_i hpc; cases h; exact .inl ⟨rfl, _, _, hpc, rfl⟩
    · cases h
  · -- the body of a state returns
    split at h
    · cases h; exact .inr (.inr (tank_returned s _))
    · cases h
  · -- a wait is recorded
    split at h
    · cases h; exact .inr (.inr rfl)
    · cases h
  · -- a wait is polled
    split at h
    · cases h; right; right; split <;> rfl
    · cases h
  · -- an answer is consumed
    split at h
    · cases h; exact .inr (.inr (tank_consumeAnswer s _ _ _ _))
    · cases h
  · -- the process stops
    split at h
    · cases h
    · cases h; exact .inr (.inr rfl)
  · -- a new process resumes
    split at h
    · cases h; exact .inr (.inl ⟨rfl, rfl⟩)
    · cases h

/-- **The tank's invariant**: what was spent and what is left is what was filled in. -/
structure Filled (wf : Flow V) (s : State V) : Prop where
  paid : s.bodies + s.remaining.toNat ≤ (s.tokens.length + 1) * wf.maxTransitions.toNat
  noTokens : wf.refuelOn = [] → s.tokens = []

theorem Filled.congr (hs : Filled wf s) (h : tank t = tank s) : Filled wf t := by
  simp only [tank, Prod.mk.injEq] at h
  obtain ⟨h1, h2, -, h4⟩ := h
  exact ⟨by rw [h1, h2, h4]; exact hs.paid, by rw [h4]; exact hs.noTokens⟩

theorem refuelToken_nil (h : wf.refuelOn = []) (params : Params V) : refuelToken wf params = none := by
  simp [refuelToken, h]

theorem refuel_filled (hs : Filled wf s) (params : Params V) : Filled wf (refuel wf s params) := by
  unfold refuel
  split
  · rename_i token htoken
    split
    · -- one more token pays for one more budget
      refine ⟨?_, fun h => ?_⟩
      · have := hs.paid
        simp only [List.length_cons]
        rw [Nat.add_mul (s.tokens.length + 1), Nat.one_mul]
        omega
      · rw [refuelToken_nil h] at htoken; cases htoken
    · exact hs
  · exact hs

theorem enter_filled (hs : Filled wf s) (state : Text) (params : Params V) :
    Filled wf (enter wf s state params) := by
  -- the tank is refuelled first, and then a transition is paid from it
  have h := refuel_filled hs params
  unfold enter
  dsimp only
  split
  · exact ⟨h.paid, h.noTokens⟩
  · have := h.paid
    exact ⟨by dsimp only; omega, h.noTokens⟩

theorem resume_filled (wf : Flow V) (s : State V) : Filled wf (resume wf s) := by
  -- a new process starts with one budget, whatever the old one had spent
  have h : tank (resume wf s) = (0, wf.maxTransitions, none, []) := by
    unfold resume
    dsimp only
    split
    · rfl
    · rfl
    · split <;> rfl
  simp only [tank, Prod.mk.injEq] at h
  obtain ⟨h1, h2, -, h4⟩ := h
  exact ⟨by rw [h1, h2, h4]; simp, fun _ => h4⟩

theorem step_filled (hs : Filled wf s) (h : step wf s e = some t) : Filled wf t := by
  obtain ⟨u, hu, rfl⟩ := step_some h
  refine Filled.congr ?_ (tank_observe u)
  rcases advance_tank hu with ⟨-, state, params, -, rfl⟩ | ⟨-, rfl⟩ | hu
  · exact enter_filled hs state params
  · exact resume_filled wf s
  · exact hs.congr hu

theorem init_filled (wf : Flow V) (files : Text → Gates.File) : Filled wf (init wf files) :=
  ⟨by simp [init], fun _ => rfl⟩

theorem run_filled {files : Text → Gates.File} (h : Run.run (step wf) (init wf files) es = some s) :
    Filled wf s :=
  Run.inv_run (fun _ _ _ => step_filled) (init_filled wf files) h

/-- **A process enters at most `refuels + 1` budgets of state bodies.** -/
theorem bodies_le_refuels {files : Text → Gates.File}
    (h : Run.run (step wf) (init wf files) es = some s) :
    s.bodies ≤ (s.tokens.length + 1) * wf.maxTransitions.toNat :=
  Nat.le_of_add_right_le (run_filled h).paid

/-! ## Tokens that never come back -/

/-- The condition: a token that differs from the last one is new to this process. -/
def NewToken (wf : Flow V) (s : State V) (e : Event V) : Prop :=
  e = .enter → ∀ state params, s.pc = .top state params → ∀ token,
    refuelToken wf params = some token → s.refuelToken ≠ some token → token ∉ s.tokens

theorem step_nodup (hs : s.tokens.Nodup) (hnew : NewToken wf s e) (h : step wf s e = some t) :
    t.tokens.Nodup := by
  obtain ⟨u, hu, rfl⟩ := step_some h
  have htokens : (observe u).tokens = u.tokens := congrArg (·.2.2.2) (tank_observe u)
  rw [htokens]
  rcases advance_tank hu with ⟨rfl, state, params, hpc, rfl⟩ | ⟨-, rfl⟩ | hu
  · have hrefuel : (refuel wf s params).tokens.Nodup := by
      unfold refuel
      split
      · rename_i token htoken
        split
        · rename_i hne
          exact List.nodup_cons.2 ⟨hnew rfl state params hpc token htoken (Ne.symm hne), hs⟩
        · exact hs
      · exact hs
    unfold enter
    dsimp only
    split <;> exact hrefuel
  · -- a new process has taken no token
    have : (resume wf s).tokens = [] := by
      unfold resume
      dsimp only
      split
      · rfl
      · rfl
      · split <;> rfl
    rw [this]
    exact List.nodup_nil
  · have : u.tokens = s.tokens := congrArg (·.2.2.2) hu
    rw [this]
    exact hs

/-- **The transition budget bounds a run.** A process enters at most `budget` bodies when
`REFUEL_ON` is empty; and in a run whose tokens differ from the last one only when they are
new, `k` distinct tokens allow at most `(k + 1) * budget` bodies. -/
theorem budget_bounds_run (wf : Flow V) (files : Text → Gates.File) (es : List (Event V))
    (h : Run.run (step wf) (init wf files) es = some s) :
    (wf.refuelOn = [] → s.bodies ≤ wf.maxTransitions.toNat) ∧
    (Run.Along (step wf) (NewToken wf) (init wf files) es → ∀ K : Finset Text,
      (∀ token ∈ s.tokens, token ∈ K) → s.bodies ≤ (K.card + 1) * wf.maxTransitions.toNat) := by
  refine ⟨fun hempty => ?_, fun hnew K hK => ?_⟩
  · have hle := bodies_le_refuels h
    rw [(run_filled h).noTokens hempty] at hle
    simpa using hle
  · have hnodup : s.tokens.Nodup :=
      Run.inv_run_of (fun _ _ _ => step_nodup) hnew List.nodup_nil h
    -- distinct tokens from `K` are at most as many as `K` has
    have hcard : s.tokens.length ≤ K.card := by
      rw [← List.toFinset_card_of_nodup hnodup]
      exact Finset.card_le_card fun token htoken => hK token (List.mem_toFinset.1 htoken)
    exact Nat.le_trans (bodies_le_refuels h) (Nat.mul_le_mul_right _ (Nat.add_le_add_right hcard 1))

/-! ## Two tokens that take turns -/

/-- Two states hand each other a value that `REFUEL_ON` names; the budget is two. -/
def pingPong : Flow Text where
  startState := "ping".toList
  resolveState := id
  maxTransitions := 2
  refuelOn := ["progress".toList]
  reprJsonable := fun seen => seen.flatMap Prod.snd
  jsonable := id
  hasQuestionHeading := fun _ => false
  dryRun := false

def pingPongLap : List (Event Text) :=
  [.enter, .returns (.continueTo "pong".toList [("progress".toList, ['b'])]),
   .enter, .returns (.continueTo "ping".toList [("progress".toList, ['a'])])]

/-- One lap takes both tokens again, and enters two bodies. -/
theorem pingPong_lap {s : State Text} (hpc : s.pc = .top "ping".toList [("progress".toList, ['a'])])
    (htoken : s.refuelToken = some ['b']) : ∃ t, Run.run (step pingPong) s pingPongLap = some t ∧
      t.pc = s.pc ∧ t.refuelToken = s.refuelToken ∧ t.bodies = s.bodies + 2 ∧
      t.tokens = ['b'] :: ['a'] :: s.tokens := by
  obtain ⟨pc, remaining, refuelToken, checkpoint, files, bodies, tokens, awaiting, held⟩ := s
  subst hpc htoken
  cases awaiting <;> exact ⟨_, rfl, rfl, rfl, rfl, rfl⟩

/-- One lap, which takes one token. -/
theorem budget_bounds_pingPong : ∃ s, Run.run (step pingPong) (init pingPong fun _ => none)
    pingPongLap = some s ∧ s.bodies ≤ (({['a'], ['b']} : Finset Text).card + 1) * 2 := by
  refine ⟨_, rfl, (budget_bounds_run pingPong (fun _ => none) pingPongLap rfl).2 ?_ _ (by decide)⟩
  -- no token has been taken when either state is entered
  refine (Run.along_cons rfl).2 ⟨fun _ _ _ _ _ _ _ => List.not_mem_nil, ?_⟩
  refine (Run.along_cons rfl).2 ⟨fun h => (by cases h), ?_⟩
  refine (Run.along_cons rfl).2 ⟨fun _ _ _ _ _ _ _ => List.not_mem_nil, ?_⟩
  exact (Run.along_cons rfl).2 ⟨fun h => (by cases h), trivial⟩

/-- **Two tokens that take turns refuel the run for ever**: with a budget of two and two
tokens there is no bound on the bodies one process enters. -/
theorem ping_pong_refuels : ¬ ∃ N, ∀ es s,
    Run.run (step pingPong) (init pingPong fun _ => none) es = some s →
    (∀ token ∈ s.tokens, token ∈ ({['a'], ['b']} : Finset Text)) → s.bodies ≤ N := by
  rintro ⟨N, hN⟩
  have hlaps : ∀ n : ℕ, ∃ es s, Run.run (step pingPong) (init pingPong fun _ => none) es = some s ∧
      s.pc = .top "ping".toList [("progress".toList, ['a'])] ∧ s.refuelToken = some ['b'] ∧
      (∀ token ∈ s.tokens, token ∈ ({['a'], ['b']} : Finset Text)) ∧ n ≤ s.bodies := by
    intro n
    -- each lap ends where the next one begins
    induction n with
    | zero => exact ⟨pingPongLap, _, rfl, rfl, rfl, by decide, Nat.zero_le _⟩
    | succ n ih =>
      obtain ⟨es, s, hrun, hpc, htoken, hmem, hn⟩ := ih
      obtain ⟨t, ht, hpc', htoken', hbodies, htokens⟩ := pingPong_lap hpc htoken
      refine ⟨es ++ pingPongLap, t, ?_, hpc'.trans hpc, htoken'.trans htoken, ?_, by omega⟩
      · rw [Run.run_append, hrun]; exact ht
      · rw [htokens]
        intro token h
        rcases List.mem_cons.1 h with rfl | h
        · decide
        rcases List.mem_cons.1 h with rfl | h
        · decide
        · exact hmem token h
  obtain ⟨es, s, hrun, -, -, hmem, hn⟩ := hlaps (N + 1)
  have := hN es s hrun hmem
  omega

end Stablemate.Drive
