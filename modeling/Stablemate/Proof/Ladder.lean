import Mathlib.Tactic.Ring
import Stablemate.Model.Ladder

/-!
# The recovery ladder ends, as long as sessions are not refused for ever

* `calls_le`: **a run that has dropped `D` sessions has made at most `callBound D` calls**,
  whatever the backend, the clock and the control channel do.
* `ladder_ends_iff`: along any stream of behaviours the ladder ends if and only if it drops
  finitely many sessions, and then within the bound.
* `ladder_refused_forever`: a backend that writes a session id and then reports that the
  session is not found is called for ever.

A call is paid from `left`: the rounds of `_run` still allowed, each worth a full
`_invoke_and_parse`, and the calls left in the current one. Only a dropped session adds
to it.
-/

namespace Stablemate.Ladder

variable {α : Type*} {cfg : Config α} {s t : State α} {b : Behaviour}

/-! ## What is left to spend -/

variable (cfg) in
/-- The rounds of `_run` that may still follow this one. -/
def roundsLeft (s : State α) : ℕ :=
  (cfg.rephraseBudget.toNat - s.rephrase) + s.compactAttempts.toNat +
    (if cfg.rebrief && !s.rebriefedOverflow then
      1 + cfg.rephraseBudget.toNat + cfg.resilience.maxCompactAttempts.toNat else 0)

variable (cfg) in
/-- The calls of one `turn`, at most. -/
def callsPerTurn : ℕ := cfg.maxInvokeRetries.toNat + cfg.resilience.maxCapWaits.toNat + 1

variable (cfg) in
/-- The calls left in this `_invoke_and_parse`, the next one included. -/
def invokeLeft (s : State α) : ℕ :=
  (cfg.resilience.maxOutputRetries.toNat - s.attempt) * callsPerTurn cfg +
    (cfg.maxInvokeRetries.toNat - s.shortAttempt) + (cfg.resilience.maxCapWaits.toNat - s.capWaits) + 1

variable (cfg) in
/-- The calls left, if no session is dropped. -/
def left (s : State α) : ℕ :=
  if s.outcome.isSome then 0 else roundsLeft cfg s * callsPerInvoke cfg + invokeLeft cfg s

variable (cfg) in
/-- One call takes `s` to `t` and is paid for: from what is left, or by dropping a session. -/
def Paid (s t : State α) : Prop :=
  left cfg t + 1 + rounds cfg * callsPerInvoke cfg * s.drops ≤
    left cfg s + rounds cfg * callsPerInvoke cfg * t.drops

theorem left_running (hs : s.outcome = none) :
    left cfg s = roundsLeft cfg s * callsPerInvoke cfg + invokeLeft cfg s := by
  simp [left, hs]

theorem one_le_left (hs : s.outcome = none) : 1 ≤ left cfg s := by
  rw [left_running hs, invokeLeft]; omega

/-- The run ends here. -/
theorem paid_finish (hs : s.outcome = none) (o : Outcome α) {u : State α}
    (hd : u.drops = s.drops) : Paid cfg s (u.finish o) := by
  have h1 : 1 ≤ left cfg s := one_le_left hs
  have h2 : left cfg (u.finish o) = 0 := rfl
  have h3 : (u.finish o).drops = s.drops := hd
  rw [Paid, h2, h3]
  omega

/-- The same round goes on, with fewer calls left in it. -/
theorem paid_invoke (hs : s.outcome = none) (ht : t.outcome = none) (hd : t.drops = s.drops)
    (hr : roundsLeft cfg t = roundsLeft cfg s) (hi : invokeLeft cfg t + 1 ≤ invokeLeft cfg s) :
    Paid cfg s t := by
  rw [Paid, left_running hs, left_running ht, hd, hr]
  omega

/-- What is left does not look at the session, the prompts and the ledger. -/
theorem paid_congr {u : State α} (h : Paid cfg u t) (hl : left cfg u ≤ left cfg s)
    (hd : u.drops = s.drops) : Paid cfg s t := by
  rw [Paid, hd] at h
  rw [Paid]
  omega

/-! ## Writing the session file -/

section Session

variable (s : State α) (sessionId : Option Text)

@[simp] theorem recordSession_outcome : (s.recordSession cfg sessionId).outcome = s.outcome := by
  unfold State.recordSession; split <;> (try split) <;> rfl

@[simp] theorem recordSession_drops : (s.recordSession cfg sessionId).drops = s.drops := by
  unfold State.recordSession; split <;> (try split) <;> rfl

@[simp] theorem roundsLeft_recordSession :
    roundsLeft cfg (s.recordSession cfg sessionId) = roundsLeft cfg s := by
  unfold State.recordSession; split <;> (try split) <;> rfl

@[simp] theorem left_recordSession : left cfg (s.recordSession cfg sessionId) = left cfg s := by
  unfold State.recordSession; split <;> (try split) <;> rfl

end Session

/-! ## A new round -/

/-- `t` stands at the first turn of a new `_invoke_and_parse`. -/
structure NewRound (t : State α) : Prop where
  running : t.outcome = none
  attempt : t.attempt = 0
  shortAttempt : t.shortAttempt = 0
  capWaits : t.capWaits = 0

theorem loopHead_newRound (hs : s.outcome = none) : NewRound s.loopHead := by
  unfold State.loopHead State.startTurn
  split <;> exact ⟨hs, rfl, rfl, rfl⟩

@[simp] theorem loopHead_drops (s : State α) : s.loopHead.drops = s.drops := by
  unfold State.loopHead State.startTurn; split <;> rfl

@[simp] theorem roundsLeft_loopHead (s : State α) : roundsLeft cfg s.loopHead = roundsLeft cfg s := by
  unfold State.loopHead State.startTurn; split <;> rfl

/-- A new round starts with all the calls of an `_invoke_and_parse`. -/
theorem left_newRound (hO : 0 ≤ cfg.resilience.maxOutputRetries) (ht : NewRound t) :
    left cfg t = (roundsLeft cfg t + 1) * callsPerInvoke cfg := by
  have hO' : (cfg.resilience.maxOutputRetries + 1).toNat =
      cfg.resilience.maxOutputRetries.toNat + 1 := by omega
  rw [left_running ht.running, invokeLeft, ht.attempt, ht.shortAttempt, ht.capWaits, callsPerInvoke,
    callsPerTurn, hO']
  simp only [Nat.sub_zero]
  ring

/-- A new round is paid by a round of `_run` that is used up. -/
theorem paid_newRound (hO : 0 ≤ cfg.resilience.maxOutputRetries) (hs : s.outcome = none)
    (ht : NewRound t) (hd : t.drops = s.drops) (hr : roundsLeft cfg t + 1 ≤ roundsLeft cfg s) :
    Paid cfg s t := by
  have h1 : (roundsLeft cfg t + 1) * callsPerInvoke cfg ≤ roundsLeft cfg s * callsPerInvoke cfg :=
    Nat.mul_le_mul_right _ hr
  rw [Paid, left_newRound hO ht, left_running hs, hd, invokeLeft]
  omega

/-- A dropped session adds the rounds that it gives back. -/
theorem paid_drop (hO : 0 ≤ cfg.resilience.maxOutputRetries) (hs : s.outcome = none)
    (ht : NewRound t) (hd : t.drops = s.drops + 1)
    (hr : roundsLeft cfg t ≤ roundsLeft cfg s + cfg.rephraseBudget.toNat) : Paid cfg s t := by
  have h1 : (roundsLeft cfg t + 1) * callsPerInvoke cfg ≤
      (roundsLeft cfg s + rounds cfg) * callsPerInvoke cfg :=
    Nat.mul_le_mul_right _ (by rw [rounds]; omega)
  rw [Nat.add_mul (roundsLeft cfg s)] at h1
  rw [Paid, left_newRound hO ht, left_running hs, hd, invokeLeft, Nat.mul_add, Nat.mul_one]
  omega

/-! ## Each branch pays -/

section Branches

variable (hO : 0 ≤ cfg.resilience.maxOutputRetries) (hs : s.outcome = none)
include hO hs

theorem dropSession_paid : Paid cfg s (dropSession cfg s b) := by
  unfold dropSession
  split
  · refine paid_drop hO hs (loopHead_newRound hs) (by simp) ?_
    rw [roundsLeft_loopHead, roundsLeft, roundsLeft]
    dsimp only
    omega
  · refine paid_drop hO hs (loopHead_newRound hs) (by simp) ?_
    rw [roundsLeft_loopHead, roundsLeft, roundsLeft]
    dsimp only
    omega

theorem reframe_paid (exc : Failure) : Paid cfg s (reframe cfg s exc b) := by
  unfold reframe
  split
  · exact paid_finish hs _ rfl
  split
  · rename_i hlt
    split
    · exact paid_finish hs _ rfl
    split
    · exact paid_finish hs _ rfl
    · refine paid_newRound hO hs (loopHead_newRound hs) (by simp) ?_
      rw [roundsLeft_loopHead, roundsLeft, roundsLeft]
      dsimp only
      omega
  · exact paid_finish hs _ rfl

theorem replaceSession_paid (exc : Failure) : Paid cfg s (replaceSession cfg s exc b) := by
  unfold replaceSession
  split
  · -- the one replacement is spent
    rename_i h
    simp only [Bool.and_eq_true, Bool.not_eq_true'] at h
    refine paid_newRound hO hs (loopHead_newRound hs) (by simp) ?_
    rw [roundsLeft_loopHead, roundsLeft, roundsLeft, if_neg (by simp), if_pos (by simp [h])]
    dsimp only
    omega
  · exact reframe_paid hO hs exc

theorem failed_paid (exc : Failure) : Paid cfg s (failed cfg s exc b) := by
  unfold failed
  split
  · exact dropSession_paid hO hs
  split
  · -- a compaction is spent, and the round it opens is paid from it
    rename_i h
    simp only [Bool.and_eq_true, decide_eq_true_eq] at h
    have hleft : roundsLeft cfg { s with compactAttempts := s.compactAttempts - 1 } + 1 =
        roundsLeft cfg s := by
      rw [roundsLeft, roundsLeft]; dsimp only; omega
    dsimp only
    split
    · refine paid_newRound hO hs (loopHead_newRound (by simpa)) (by simp) ?_
      rw [roundsLeft_loopHead, roundsLeft_recordSession]
      omega
    · refine paid_congr (replaceSession_paid hO (by simpa) exc) ?_ (by simp)
      rw [left_recordSession, left_running hs, left_running (by exact hs)]
      have := Nat.mul_le_mul_right (callsPerInvoke cfg) (Nat.le_of_lt (Nat.lt_of_lt_of_eq
        (Nat.lt_succ_self _) hleft))
      exact Nat.add_le_add_right this _
  · exact replaceSession_paid hO hs exc

theorem parseFailed_paid (message : Text) : Paid cfg s (parseFailed cfg s message b) := by
  unfold parseFailed
  split
  · exact failed_paid hO hs _
  · -- one output attempt less is left in this round
    rename_i h
    refine paid_invoke hs hs rfl rfl ?_
    have h1 : cfg.resilience.maxOutputRetries.toNat - s.attempt =
        cfg.resilience.maxOutputRetries.toNat - (s.attempt + 1) + 1 := by omega
    rw [invokeLeft, invokeLeft, State.startTurn, h1, Nat.add_mul, callsPerTurn]
    dsimp only
    omega

/-- A pause of `turn` is paid, if the next attempt is. -/
theorem pause_paid (kind : WaitKind) (sleepS : ℚ) {next : State α → State α}
    (hnext : ∀ spent, Paid cfg s (next { s with spent := spent })) :
    Paid cfg s (pause cfg s kind sleepS b next) := by
  unfold pause
  split
  · exact failed_paid hO hs _
  dsimp only
  split
  · exact paid_finish hs _ rfl
  · exact hnext _

theorem turnFailed_paid (exc : BackendInvocationError) : Paid cfg s (turnFailed cfg s exc b) := by
  unfold turnFailed
  split
  · exact failed_paid hO hs _
  dsimp only
  split
  · split
    · exact failed_paid hO hs _
    · rename_i h
      refine pause_paid hO hs _ _ fun spent => paid_invoke hs hs rfl rfl ?_
      rw [invokeLeft, invokeLeft]
      dsimp only
      omega
  · split
    · exact failed_paid hO hs _
    · rename_i h
      refine pause_paid hO hs _ _ fun spent => paid_invoke hs hs rfl rfl ?_
      rw [invokeLeft, invokeLeft]
      dsimp only
      omega

/-- **Every call is paid for.** -/
theorem afterCall_paid : Paid cfg s (afterCall cfg s b) := by
  have hs' : (s.recordSession cfg b.sessionId).outcome = none := by simpa
  refine paid_congr (u := s.recordSession cfg b.sessionId) ?_ (by simp) (by simp)
  unfold afterCall
  dsimp only
  split
  · exact paid_finish hs' _ rfl
  · exact turnFailed_paid hO hs' _
  · split
    · exact paid_finish hs' _ rfl
    · exact parseFailed_paid hO hs' _

end Branches

/-! ## Whole runs -/

/-- A state that makes a call has an output attempt to make it in. -/
def Attempts (cfg : Config α) (s : State α) : Prop :=
  s.outcome = none → 0 ≤ cfg.resilience.maxOutputRetries

theorem step_some (h : step cfg s b = some t) : s.outcome = none ∧ t = afterCall cfg s b := by
  unfold step at h
  split at h
  · simp at h
  · rename_i hs
    exact ⟨by simpa using hs, (Option.some.inj h).symm⟩

theorem step_of_running (hs : s.outcome = none) : step cfg s b = some (afterCall cfg s b) := by
  simp [step, hs]

theorem start_attempts (renderedPrompt : Text) (session : Option Text) :
    Attempts cfg (start cfg renderedPrompt session) := by
  unfold start Attempts
  dsimp only
  split
  · intro h; simp [State.finish] at h
  · intro _; omega

theorem step_attempts (hs : Attempts cfg s) (h : step cfg s b = some t) : Attempts cfg t :=
  fun _ => hs (step_some h).1

theorem start_drops (renderedPrompt : Text) (session : Option Text) :
    (start cfg renderedPrompt session).drops = 0 := by
  unfold start
  dsimp only
  split
  · rfl
  · simp

theorem left_start (renderedPrompt : Text) (session : Option Text) :
    left cfg (start cfg renderedPrompt session) ≤ callBound cfg 0 := by
  unfold start
  dsimp only
  split
  · exact Nat.zero_le _
  · rename_i h
    rw [left_newRound (by omega) (loopHead_newRound rfl), roundsLeft_loopHead, callBound, roundsLeft]
    simp only [Bool.not_false, Bool.and_true, Nat.sub_zero, Nat.zero_mul, Nat.add_zero]
    exact le_rfl

theorem callBound_eq (D : ℕ) :
    callBound cfg D = callBound cfg 0 + rounds cfg * callsPerInvoke cfg * D := by
  unfold callBound; ring

/-- **A run that has dropped `D` sessions has made at most `callBound D` calls.** -/
theorem calls_le {renderedPrompt : Text} {session : Option Text} {es : List Behaviour}
    (h : Run.run (step cfg) (start cfg renderedPrompt session) es = some t) :
    es.length + left cfg t ≤ callBound cfg t.drops := by
  have hpaid : ∀ s e t, Attempts cfg s → step cfg s e = some t →
      left cfg t + 1 + rounds cfg * callsPerInvoke cfg * s.drops ≤
        left cfg s + rounds cfg * callsPerInvoke cfg * t.drops := by
    intro s e t hs h
    obtain ⟨hrun, rfl⟩ := step_some h
    exact afterCall_paid (hs hrun) hrun
  have hp := Run.potential (fun s e t hs h => step_attempts hs h) hpaid
    (start_attempts renderedPrompt session) h
  have h0 : left cfg (start cfg renderedPrompt session) ≤ callBound cfg 0 := left_start renderedPrompt session
  rw [start_drops, Nat.mul_zero] at hp
  rw [callBound_eq]
  omega

/-- A stream that drops at most `D` sessions ends within the bound. -/
theorem endsWithin_callBound {renderedPrompt : Text} {session : Option Text} {b : ℕ → Behaviour}
    {D : ℕ} (hD : DropsAtMost cfg (start cfg renderedPrompt session) b D) :
    EndsWithin cfg (start cfg renderedPrompt session) b (callBound cfg D) := by
  have hmono : ∀ d ≤ D, callBound cfg d ≤ callBound cfg D := fun d hd => by
    rw [callBound_eq, callBound_eq D]
    exact Nat.add_le_add_left (Nat.mul_le_mul_left _ hd) _
  have hstep : ∀ (s : State α) e, ¬ s.outcome.isSome → ∃ t, step cfg s e = some t :=
    fun s e hs => ⟨_, step_of_running (by simpa using hs)⟩
  rcases Run.run_upTo_or hstep b (start cfg renderedPrompt session) (callBound cfg D + 1) with
    ⟨t, ht⟩ | ⟨m, hm, t, ht, hend⟩
  · have h1 := calls_le ht
    have h2 := hmono _ (hD _ _ ht)
    rw [Run.length_upTo] at h1
    omega
  · exact ⟨m, by omega, t, ht, hend⟩

/-- **The ladder ends exactly when it drops finitely many sessions**, and a run that drops at
most `D` of them makes at most `callBound D` calls. -/
theorem ladder_ends_iff (cfg : Config α) (renderedPrompt : Text) (session : Option Text)
    (b : ℕ → Behaviour) :
    ((∃ N, EndsWithin cfg (start cfg renderedPrompt session) b N) ↔
      ∃ D, DropsAtMost cfg (start cfg renderedPrompt session) b D) ∧
    ∀ D, DropsAtMost cfg (start cfg renderedPrompt session) b D →
      EndsWithin cfg (start cfg renderedPrompt session) b (callBound cfg D) := by
  refine ⟨⟨?_, fun ⟨D, hD⟩ => ⟨_, endsWithin_callBound hD⟩⟩, fun D hD => endsWithin_callBound hD⟩
  rintro ⟨N, m, -, u, hu, hend⟩
  obtain ⟨D, hD⟩ : ∃ D, ∀ n ≤ m, ∀ t, Run.run (step cfg) (start cfg renderedPrompt session)
      (Run.upTo b n) = some t → t.drops ≤ D := Run.exists_bound_upTo State.drops b _ m
  refine ⟨D, fun n t ht => ?_⟩
  -- nothing runs past the end
  have hn : n ≤ m := by
    by_contra hlt
    obtain ⟨v, w, hv, hvw⟩ := Run.run_upTo_lt (by omega : m < n) ht
    rw [hu] at hv
    cases hv
    simp [(step_some hvw).1] at hend
  exact hD n hn t ht

/-! ## A session that is refused every time -/

/-- The default settings, with a session file and no rebrief. -/
def plainConfig : Config Text where
  resilience := {}
  retries := none
  invokeRetries := none
  supportsCompaction := true
  sessionIdPath := true
  resumeSession := true
  rebrief := false
  outputs := .ok
  parseResetSeconds := fun _ _ => none
  formatG := fun _ => []

def sessionNotFound : BackendInvocationError where
  message := "session not found".toList
  transient := false
  overflow := false
  timedOut := false
  resetAt := none

theorem sessionNotFound_unresumable : (Failure.backend sessionNotFound).unresumable = true := by
  decide

/-- The stream names a session, and the CLI then says that it is not there. -/
def refusedTurn : Behaviour where
  answer := .error sessionNotFound
  sessionId := some "s1".toList
  now := 0
  cut := false
  compacts := false
  compactSessionId := none
  rebriefText := []

/-- A refused turn drops the session and calls the backend again. -/
theorem refusedTurn_step (cfg : Config α) (s : State α) (hpath : cfg.sessionIdPath = true)
    (hbrief : cfg.rebrief = false) (hs : s.outcome = none) :
    ∃ t, step cfg s refusedTurn = some t ∧ t.outcome = none ∧ t.drops = s.drops + 1 := by
  have hrecord : s.recordSession cfg refusedTurn.sessionId = { s with session := some "s1".toList } :=
    if_pos hpath
  have hdrop : afterCall cfg s refusedTurn =
      dropSession cfg { s with session := some "s1".toList } refusedTurn := by
    change turnFailed cfg (s.recordSession cfg refusedTurn.sessionId) sessionNotFound refusedTurn = _
    rw [hrecord]
    refine (if_pos rfl).trans (if_pos ?_)
    simp [sessionNotFound_unresumable, State.sessionExists, hpath]
  refine ⟨_, step_of_running hs, ?_⟩
  rw [hdrop, dropSession, hbrief]
  exact ⟨(loopHead_newRound (by exact hs)).running, by simp⟩

/-- A turn that answers. -/
def answeredTurn : Behaviour := { refusedTurn with answer := .text "done".toList }

/-- One refused session, then an answer. -/
def refusedOnce (n : ℕ) : Behaviour := if n = 0 then refusedTurn else answeredTurn

theorem ladder_ends_refusedOnce : EndsWithin plainConfig (start plainConfig [] none) refusedOnce
    (callBound plainConfig 1) := by
  obtain ⟨t, ht, hrunning, hd⟩ := refusedTurn_step plainConfig (start plainConfig [] none) rfl rfl rfl
  have hd : t.drops = 1 := hd
  have h1 : Run.run (step plainConfig) (start plainConfig [] none) (Run.upTo refusedOnce 1) = some t :=
    Run.run_cons_some.2 ⟨t, ht, rfl⟩
  have h2 : Run.run (step plainConfig) (start plainConfig [] none) (Run.upTo refusedOnce 2) =
      some (afterCall plainConfig t answeredTurn) :=
    Run.run_upTo_snoc h1 (step_of_running hrunning)
  refine (ladder_ends_iff plainConfig [] none refusedOnce).2 1 fun n u hu => ?_
  match n, hu with
  | 0, hu => cases hu; exact Nat.zero_le _
  | 1, hu => rw [h1] at hu; cases hu; exact hd.le
  | 2, hu => rw [h2] at hu; cases hu; exact hd.le
  | n + 3, hu =>
    -- the second call returns, so there is no third
    obtain ⟨v, w, hv, hvw⟩ := Run.run_upTo_lt (by omega : 2 < n + 3) hu
    rw [h2] at hv
    cases hv
    exact absurd (step_some hvw).1 (by simp [afterCall, answeredTurn, plainConfig, State.finish])

/-- **A backend whose sessions are refused is called for ever**: the ladder does not end
within any number of calls, and drops a session at every one of them. -/
theorem ladder_refused_forever :
    (¬ ∃ N, EndsWithin plainConfig (start plainConfig [] none) (fun _ => refusedTurn) N) ∧
    ∀ n, ∃ t, Run.run (step plainConfig) (start plainConfig [] none)
      (Run.upTo (fun _ => refusedTurn) n) = some t ∧ t.drops = n := by
  have hrun : ∀ n, ∃ t, Run.run (step plainConfig) (start plainConfig [] none)
      (Run.upTo (fun _ => refusedTurn) n) = some t ∧ t.outcome = none ∧ t.drops = n := by
    intro n
    induction n with
    | zero => exact ⟨_, rfl, rfl, rfl⟩
    | succ n ih =>
      obtain ⟨t, ht, hrunning, hd⟩ := ih
      obtain ⟨u, hu, hrunning', hd'⟩ :=
        refusedTurn_step plainConfig t rfl rfl hrunning
      exact ⟨u, Run.run_upTo_snoc ht hu, hrunning', by omega⟩
  refine ⟨?_, fun n => ?_⟩
  · rintro ⟨N, n, -, t, ht, hend⟩
    obtain ⟨u, hu, hrunning, -⟩ := hrun n
    rw [hu] at ht
    cases ht
    simp [hrunning] at hend
  · obtain ⟨t, ht, -, hd⟩ := hrun n
    exact ⟨t, ht, hd⟩

end Stablemate.Ladder
