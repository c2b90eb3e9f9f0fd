import Mathlib.Tactic.Linarith
import Stablemate.Model.Budget

/-!
# Recovery sleeps stay within their budgets

* `consume_eq`: a ledger grants exactly the delays that fit.
* `Sound`: the books of a run. Every site pays from the one ledger, which has spent what was
  slept; `afterCall_inv` keeps it through every failure, and `run_inv` through every run.
* `sleeps_within_budget`: no category sleeps longer than its limit.
-/

namespace Stablemate.Budget

open Ladder (BackendInvocationError Failure)

/-! ## Finite floats -/

namespace Seconds

variable {a b : ℚ}

@[simp] theorem isfinite_finite : (finite a).isfinite = true := rfl

@[simp] theorem lt_finite : (finite a).lt (finite b) = decide (a < b) := rfl

@[simp] theorem add_finite : (finite a).add (finite b) = finite (a + b) := rfl

@[simp] theorem sub_finite : (finite a).sub (finite b) = finite (a - b) := by
  rw [sub_eq_add_neg]
  rfl

@[simp] theorem pyMax_finite : pyMax (finite a) (finite b) = finite (max a b) := by
  unfold pyMax
  rw [lt_finite]
  split
  · next h => rw [max_eq_right (of_decide_eq_true h).le]
  · next h => rw [max_eq_left (by simpa using h)]

end Seconds

/-! ## The ledger -/

section Consume

variable {formatG : Seconds → Text} {l l' : RecoveryWaitBudget} {kind : WaitKind} {delay : Seconds}

/-- The ledger after a delay is paid for. -/
def RecoveryWaitBudget.pay (l : RecoveryWaitBudget) (kind : WaitKind) (delay : Seconds) : RecoveryWaitBudget :=
  { l with spent := fun k => if k = kind then (l.spent kind).add delay else l.spent k }

/-- **A ledger grants the delays that fit**, as long as it is not overdrawn. -/
theorem consume_eq (formatG : Seconds → Text) (delay : Seconds) {spent : ℚ} (hs : l.spent kind = .finite spent)
    (hle : ∀ limit : ℚ, l.limits kind = .finite limit → 0 ≤ limit → spent ≤ limit) :
    (Fits l kind delay ∧ consume formatG l kind delay = .ok (l.pay kind delay)) ∨
      (¬ Fits l kind delay ∧ ∃ e, consume formatG l kind delay = .error e) := by
  by_cases hfits : Fits l kind delay
  · left
    refine ⟨hfits, ?_⟩
    obtain ⟨limit, spent', d, hlimit, hs', rfl, hd, hpos, hsum⟩ := hfits
    obtain rfl : spent = spent' := by simpa [hs] using hs'
    have hroom : d ≤ max 0 (limit - spent) := le_max_of_le_right (by linarith)
    unfold consume
    dsimp only
    rw [hlimit, hs, if_neg]
    · simp [RecoveryWaitBudget.pay, hs]
    · rcases le_max_iff.1 hroom with h | h
      · simp [hd, hpos, h]
      · simp [hd, hpos, h]
  · right
    refine ⟨hfits, exceeded formatG kind (l.limits kind) (l.spent kind) delay, ?_⟩
    unfold consume
    dsimp only
    rw [if_pos]
    by_contra hgrant
    simp only [Bool.or_eq_true, not_or, Bool.not_eq_true] at hgrant
    obtain ⟨⟨⟨⟨hlf, hl0⟩, hdf⟩, hd0⟩, hroom⟩ := hgrant
    rcases hlimit : l.limits kind with limit | _ | _ | _
    · rcases delay with d | _ | _ | _
      · have hlimit0 : 0 ≤ limit := by simpa [hlimit] using hl0
        have hd0 : 0 ≤ d := by simpa using hd0
        have hsl := hle limit hlimit hlimit0
        have hmax : max 0 (limit - spent) = limit - spent := max_eq_right (by linarith)
        rw [hlimit, hs, Seconds.sub_finite, Seconds.pyMax_finite, hmax] at hroom
        have : d ≤ limit - spent := by simpa using hroom
        exact hfits ⟨limit, spent, d, hlimit, hs, rfl, hd0, hlimit0, by linarith⟩
      all_goals simp [Seconds.isfinite] at hdf
    all_goals simp [hlimit, Seconds.isfinite] at hlf

end Consume

/-! ## The books of a run -/

section Books

variable {cfg : Config} {bk : Books} {s t : State} {kind : WaitKind} {delay : Seconds}

/-- What the log says of one delay: it was slept when it fitted, and else nothing changed. -/
def Attempt.Honest (cfg : Config) (a : Attempt) : Prop :=
  ∃ l, a.before = some l ∧ l.limits = (from_resilience cfg.resilience).limits ∧
    (a.slept = true ↔ Fits l a.kind a.delay) ∧
    (a.slept = false → a.after = a.before ∧ ∃ e, consume cfg.formatG l a.kind a.delay = .error e)

/-- **The books of a run**: the one ledger is active, it has spent what was slept, no category
is overdrawn, and every delay in the log was asked for. -/
structure Sound (cfg : Config) (bk : Books) : Prop where
  active : bk.active = some 0
  limits : (bk.ledgers 0).limits = (from_resilience cfg.resilience).limits
  spent : ∀ kind, (bk.ledgers 0).spent kind = .finite (total kind bk.log)
  bound : ∀ kind limit, (from_resilience cfg.resilience).limits kind = .finite limit → 0 ≤ limit →
    total kind bk.log ≤ limit
  honest : ∀ a ∈ bk.log, a.Honest cfg

theorem total_cons (a : Attempt) (log : List Attempt) :
    total kind (a :: log) = (if a.kind = kind ∧ a.slept = true then a.delay.value else 0) + total kind log := rfl

/-- Asking the one ledger for a delay keeps the books sound. -/
theorem charge_sound (kind : WaitKind) (delay : Seconds) (h : Sound cfg bk) : Sound cfg (bk.charge cfg 0 kind delay).2 := by
  have hbound : ∀ limit : ℚ, (bk.ledgers 0).limits kind = .finite limit → 0 ≤ limit →
      total kind bk.log ≤ limit := by
    rw [h.limits]
    exact h.bound kind
  unfold Books.charge
  rcases consume_eq cfg.formatG delay (h.spent kind) hbound with
    ⟨hfits, hc⟩ | ⟨hfits, e, hc⟩
  · rw [hc]
    obtain ⟨limit, spent, d, hlimit, hs, rfl, hd, hpos, hsum⟩ := hfits
    have hspent := h.spent kind
    obtain rfl : spent = total kind bk.log := by simpa [hs] using hspent
    have htotal : ∀ k (l l' : RecoveryWaitBudget), total k (⟨kind, .finite d, some l, some l', true⟩ :: bk.log) =
        if k = kind then total kind bk.log + d else total k bk.log := by
      intro k l l'
      rw [total_cons]
      by_cases hk : k = kind
      · subst hk
        simp [Seconds.value, add_comm]
      · simp [hk, Ne.symm hk]
    refine ⟨h.active, h.limits, fun k => ?_, fun k limit' hlimit' hpos' => ?_, fun a ha => ?_⟩
    · dsimp only
      rw [htotal, if_pos rfl, RecoveryWaitBudget.pay]
      by_cases hk : k = kind
      · simp [hk, hspent]
      · simp [hk, h.spent k]
    · dsimp only
      rw [htotal]
      split
      · next hk =>
        rw [hk, ← h.limits, hlimit] at hlimit'
        obtain rfl : limit = limit' := by simpa using hlimit'
        exact hsum
      · exact h.bound k limit' hlimit' hpos'
    · rcases List.mem_cons.1 ha with rfl | ha
      · exact ⟨bk.ledgers 0, rfl, h.limits,
          ⟨fun _ => ⟨limit, _, d, hlimit, hs, rfl, hd, hpos, hsum⟩, fun _ => rfl⟩, fun hf => (nomatch hf)⟩
      · exact h.honest a ha
  · rw [hc]
    have htotal : ∀ k (l : RecoveryWaitBudget), total k (⟨kind, delay, some l, some l, false⟩ :: bk.log) =
        total k bk.log := by
      intro k l
      simp [total_cons]
    refine ⟨h.active, h.limits, fun k => ?_, fun k limit hlimit hpos => ?_, fun a ha => ?_⟩
    · dsimp only
      rw [htotal]
      exact h.spent k
    · dsimp only
      rw [htotal]
      exact h.bound k limit hlimit hpos
    · rcases List.mem_cons.1 ha with rfl | ha
      · exact ⟨bk.ledgers 0, rfl, h.limits, ⟨fun hf => (nomatch hf), fun hf => absurd hf hfits⟩,
          fun _ => ⟨rfl, e, hc⟩⟩
      · exact h.honest a ha

/-- Every site finds the one ledger. -/
theorem activeOr_sound (h : Sound cfg bk) : bk.activeOr cfg = (0, bk) := by
  rw [Books.activeOr, h.active]

theorem spawnFrom_sound {failures : List OsFailure} : ∀ {attempt : ℕ} {bk : Books}, Sound cfg bk →
    Sound cfg (spawnFrom cfg 0 attempt failures bk).2 := by
  induction failures with
  | nil => exact fun h => h
  | cons f failures ih =>
    intro attempt bk h
    unfold spawnFrom
    split_ifs
    · exact h
    · dsimp only
      have hcharge := charge_sound .execRetry (Seconds.pyMin
        (cfg.resilience.execRetryBaseS.scale attempt) cfg.resilience.execRetryCapS) h
      split
      · next e bk' heq => rwa [heq] at hcharge
      · next bk' heq =>
        rw [heq] at hcharge
        exact ih hcharge
    · exact h

theorem spawnAll_sound (spawns : List (List OsFailure)) : ∀ {bk : Books}, Sound cfg bk →
    Sound cfg (spawnAll cfg spawns bk).2 := by
  induction spawns with
  | nil => exact fun h => h
  | cons failures spawns ih =>
    intro bk h
    have hspawn : Sound cfg (spawn cfg failures bk).2 := by
      rw [spawn, activeOr_sound h]
      exact spawnFrom_sound h
    unfold spawnAll
    split
    · next e bk' heq => rwa [heq] at hspawn
    · next bk' heq =>
      rw [heq] at hspawn
      exact ih hspawn

/-! ## The loops -/

/-- A state whose books are sound and whose turn has the one ledger. -/
structure Inv (cfg : Config) (s : State) : Prop where
  books : Sound cfg s.books
  turn : s.turnBudget = 0

theorem startTurn_inv (h : Sound cfg s.books) : Inv cfg (s.startTurn cfg) := by
  unfold State.startTurn
  rw [activeOr_sound h]
  exact ⟨h, rfl⟩

theorem loopHead_inv (h : Sound cfg s.books) : Inv cfg (s.loopHead cfg) := by
  unfold State.loopHead
  split
  · exact startTurn_inv h
  · exact startTurn_inv h

theorem dropSession_inv (h : Inv cfg s) : Inv cfg (dropSession cfg s) := by
  unfold dropSession
  dsimp only
  split
  · exact loopHead_inv h.books
  · exact loopHead_inv h.books

theorem chargeReframe_sound (delay : Seconds) (h : Sound cfg bk) : Sound cfg (chargeReframe cfg bk delay).2 := by
  rw [chargeReframe, h.active]
  exact charge_sound .reframe delay h

variable {exc : Failure} {b : Behaviour}

theorem reframe_inv (h : Inv cfg s) : Inv cfg (reframe cfg s exc b) := by
  unfold reframe
  split
  · exact ⟨h.books, h.turn⟩
  · split
    · have hcharge := chargeReframe_sound (.finite (min (10 * ((s.rephrase : ℚ) + 1)) 60)) h.books
      split
      · next e books heq =>
        rw [heq] at hcharge
        exact ⟨hcharge, h.turn⟩
      · next books heq =>
        rw [heq] at hcharge
        split
        · exact ⟨hcharge, h.turn⟩
        · exact loopHead_inv hcharge
    · exact ⟨h.books, h.turn⟩

theorem replaceSession_inv (h : Inv cfg s) : Inv cfg (replaceSession cfg s exc b) := by
  unfold replaceSession
  split
  · exact loopHead_inv h.books
  · exact reframe_inv h

theorem failed_inv (h : Inv cfg s) : Inv cfg (failed cfg s exc b) := by
  unfold failed
  split
  · exact dropSession_inv h
  · split
    · have hspawns := spawnAll_sound b.compactSpawns h.books
      dsimp only
      split
      · next e books heq =>
        rw [heq] at hspawns
        exact replaceSession_inv ⟨hspawns, h.turn⟩
      · next books heq =>
        rw [heq] at hspawns
        split
        · exact loopHead_inv hspawns
        · exact replaceSession_inv ⟨hspawns, h.turn⟩
    · exact replaceSession_inv h

theorem parseFailed_inv {message : Text} (h : Inv cfg s) : Inv cfg (parseFailed cfg s message b) := by
  unfold parseFailed
  split
  · exact failed_inv h
  · exact startTurn_inv h.books

theorem pause_inv {next : State → State} (h : Inv cfg s) (hnext : ∀ s, Inv cfg s → Inv cfg (next s)) :
    Inv cfg (pause cfg s kind delay b next) := by
  unfold pause
  split
  · exact ⟨h.books, h.turn⟩
  · have hcharge : Sound cfg (s.books.charge cfg s.turnBudget kind delay).2 := by
      rw [h.turn]
      exact charge_sound kind delay h.books
    split
    · next e books heq =>
      rw [heq] at hcharge
      exact failed_inv ⟨hcharge, h.turn⟩
    · next books heq =>
      rw [heq] at hcharge
      split
      · exact ⟨hcharge, h.turn⟩
      · exact hnext _ ⟨hcharge, h.turn⟩

theorem turnFailed_inv {exc : BackendInvocationError} (h : Inv cfg s) : Inv cfg (turnFailed cfg s exc b) := by
  unfold turnFailed
  split
  · exact failed_inv h
  · dsimp only
    split
    · split
      · exact failed_inv h
      · exact pause_inv h fun s hs => ⟨hs.books, hs.turn⟩
    · split
      · exact failed_inv h
      · exact pause_inv h fun s hs => ⟨hs.books, hs.turn⟩

theorem runTurn_inv (h : Inv cfg s) : Inv cfg (runTurn cfg s b).2 := by
  have hscope : Sound cfg { s.books with active := some s.turnBudget } :=
    ⟨congrArg some h.turn, h.books.limits, h.books.spent, h.books.bound, h.books.honest⟩
  have hspawns := spawnAll_sound b.spawns hscope
  exact ⟨⟨h.books.active, hspawns.limits, hspawns.spent, hspawns.bound, hspawns.honest⟩, h.turn⟩

/-- **One call keeps the books sound**, whatever fails in it. -/
theorem afterCall_inv (h : Inv cfg s) : Inv cfg (afterCall cfg s b) := by
  have hturn := runTurn_inv (b := b) h
  unfold afterCall
  split
  · next e s' heq =>
    rw [heq] at hturn
    exact turnFailed_inv hturn
  · next s' heq =>
    rw [heq] at hturn
    split
    · exact ⟨hturn.books, hturn.turn⟩
    · exact turnFailed_inv hturn
    · exact ⟨hturn.books, hturn.turn⟩
    · exact parseFailed_inv hturn

/-- A new ledger in the context variable, and nothing asked of it. -/
theorem opened_sound (hledger : bk.ledgers 0 = from_resilience cfg.resilience) (hactive : bk.active = some 0)
    (hlog : bk.log = []) : Sound cfg bk where
  active := hactive
  limits := by rw [hledger]
  spent kind := by
    rw [hledger, hlog]
    rfl
  bound kind limit _ hpos := by
    rw [hlog]
    exact hpos
  honest a ha := by
    rw [hlog] at ha
    exact absurd ha List.not_mem_nil

theorem start_inv (session : Bool) : Inv cfg (start cfg session) := by
  unfold start
  dsimp only
  split
  · exact ⟨opened_sound rfl rfl rfl, rfl⟩
  · exact loopHead_inv (opened_sound rfl rfl rfl)

theorem run_inv {session : Bool} {bs : List Behaviour}
    (hrun : Run.run (step cfg) (start cfg session) bs = some t) : Inv cfg t := by
  refine Run.inv_run (fun s b t (hs : Inv cfg s) hstep => ?_) (start_inv session) hrun
  unfold step at hstep
  split at hstep
  · cases hstep
  · obtain rfl := Option.some.inj hstep
    exact afterCall_inv hs

/-- The seconds slept are not negative, and none are where the limit allows none. -/
theorem total_eq_zero {log : List Attempt} (h : ∀ a ∈ log, a.kind = kind → a.slept = false) :
    total kind log = 0 := by
  induction log with
  | nil => rfl
  | cons a log ih =>
    rw [total_cons, ih fun a ha => h a (List.mem_cons_of_mem _ ha), if_neg, add_zero]
    rintro ⟨hk, hs⟩
    rw [h a List.mem_cons_self hk] at hs
    cases hs

/-- **Recovery sleeps stay within their budgets.**

After any calls of the backend, whatever fails in them: the delays of a category that the run
has started to sleep do not add up to more than `max(0.0, limit)`, and it has slept none where the
limit is negative, infinite or no number. Every delay was asked of one ledger with the run's
limits. It was slept exactly when it fitted into what was left; else `consume` raised, and the
ledger after is the one before. -/
theorem sleeps_within_budget {session : Bool} {bs : List Behaviour}
    (hrun : Run.run (step cfg) (start cfg session) bs = some t) :
    (∀ kind, (Seconds.pyMax (.finite 0) ((from_resilience cfg.resilience).limits kind)).lt
      (.finite (total kind t.books.log)) = false) ∧
    (∀ kind, (∀ limit : ℚ, (from_resilience cfg.resilience).limits kind = .finite limit → limit < 0) →
      ∀ a ∈ t.books.log, a.kind = kind → a.slept = false) ∧
    ∀ a ∈ t.books.log, a.Honest cfg := by
  have h := (run_inv hrun).books
  have hnone : ∀ kind, (∀ limit : ℚ, (from_resilience cfg.resilience).limits kind = .finite limit → limit < 0) →
      ∀ a ∈ t.books.log, a.kind = kind → a.slept = false := by
    intro kind hlimits a ha hk
    obtain ⟨l, -, hl, hslept, -⟩ := h.honest a ha
    by_contra hs
    obtain ⟨limit, -, -, hlimit, -, -, -, hpos, -⟩ := hslept.1 (by simpa using hs)
    rw [hl, hk] at hlimit
    exact absurd (hlimits limit hlimit) (not_lt.2 hpos)
  refine ⟨fun kind => ?_, hnone, h.honest⟩
  by_cases hlimit : ∃ limit : ℚ, (from_resilience cfg.resilience).limits kind = .finite limit ∧ 0 ≤ limit
  · obtain ⟨limit, hlimit, hpos⟩ := hlimit
    have hbound := h.bound kind limit hlimit hpos
    rw [hlimit, Seconds.pyMax_finite, Seconds.lt_finite]
    exact decide_eq_false (not_lt.2 (hbound.trans (le_max_right _ _)))
  · have hzero := total_eq_zero (hnone kind fun limit hl => not_le.1 fun hpos => hlimit ⟨limit, hl, hpos⟩)
    rw [hzero]
    rcases (from_resilience cfg.resilience).limits kind with limit | _ | _ | _
    · rw [Seconds.pyMax_finite]
      simp
    all_goals rfl

end Books

/-- A node with these limits and the defaults for the rest. -/
def node (resilience : AgentResilience) : Config where
  resilience
  retries := none
  invokeRetries := none
  supportsCompaction := true
  sessionIdPath := true
  resumeSession := false
  rebrief := false
  parseResetSeconds _ _ := none
  formatG _ := []

/-- A turn whose first spawn finds the executable busy once, and that then reports a usage limit. -/
def limited : Behaviour where
  spawns := [[{ missingCwd := false, retryable := true, known := true, message := [] }]]
  answer := .error { message := "usage limit".toList, transient := true, overflow := false,
                     timedOut := false, resetAt := none }
  session := false
  now := 0
  messageFails := false
  cut := false
  compactSpawns := []
  compacts := false

/-- Two such turns with the default limits: one second for the spawns of each, ten minutes for the cap. -/
theorem sleeps_within_budget_limited :
    ∃ t, Run.run (step (node {})) (start (node {}) false) [limited, limited] = some t ∧
      total .cap t.books.log = 1200 ∧ total .execRetry t.books.log = 2 ∧
      (Seconds.pyMax (.finite 0) ((from_resilience {}).limits .cap)).lt
        (.finite (total .cap t.books.log)) = false := by
  have htotals : (Run.run (step (node {})) (start (node {}) false) [limited, limited]).map
      (fun t => (total .cap t.books.log, total .execRetry t.books.log)) = some (1200, 2) := by decide +kernel
  obtain ⟨t, ht, heq⟩ := Option.map_eq_some_iff.1 htotals
  obtain ⟨hcap, hexec⟩ := Prod.mk.inj heq
  exact ⟨t, ht, hcap, hexec, (sleeps_within_budget ht).1 .cap⟩

/-- With a negative limit nothing is slept, and nothing is still more than the limit. -/
theorem negative_limit_exceeded :
    (Run.run (step (node { capWaitBudgetS := .finite (-1) }))
      (start (node { capWaitBudgetS := .finite (-1) }) false) [limited]).map
      (fun t => (((from_resilience { capWaitBudgetS := .finite (-1) }).limits .cap).lt
        (.finite (total .cap t.books.log)), total .cap t.books.log)) = some (true, 0) := by
  decide +kernel

end Stablemate.Budget
