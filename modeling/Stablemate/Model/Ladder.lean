import Mathlib.Algebra.Order.Ring.Rat
import Stablemate.Lib.Run
import Stablemate.Model.Text

/-!
# The agent recovery ladder (`runner/ladder.py`, `runner/failure.py`, `runner/waits.py`)

`AgentRunner.run` calls `backend.run_turn` until a node has its outputs or the ladder gives
up. The machine takes one step for one such call: `afterCall` is everything the three
nested loops (`_run`, `_invoke_and_parse`, `turn`) do with its answer, up to the next call
or the end. A `Behaviour` is what the backend, the session file and the clock do there.

Seconds are rationals, so every setting is finite. Prompts stay symbolic: the ladder never
looks into one.
-/

namespace Stablemate.Ladder

/-! ## Failures (`failure.py`) -/

def CAP_MARKERS : List Text :=
  ["spending cap".toList, "usage limit".toList, "weekly limit".toList, "session limit".toList,
   "quota".toList, "key limit".toList, "daily limit".toList]

def UNRESUMABLE_SESSION_MARKERS : List Text :=
  ["no conversation found".toList, "session not found".toList, "no session found".toList,
   "invalid session id".toList, "could not resume".toList, "failed to resume".toList]

/-- `BackendInvocationError`: an agent-CLI turn failed. -/
structure BackendInvocationError where
  message : Text
  transient : Bool
  overflow : Bool
  timedOut : Bool
  resetAt : Option ℚ
deriving DecidableEq

/-- What `_run` catches: a failed turn, or an `OutputParseError` with its message. -/
inductive Failure
  | backend (exc : BackendInvocationError)
  | parse (message : Text)
deriving DecidableEq

/-- `is_cap`: a scheduled-reset cap. -/
def isCap (diagnostics : Text) : Bool :=
  CAP_MARKERS.any fun marker => Text.contains marker (Text.lower diagnostics)

/-- `is_unresumable_session`: the CLI refused the session id it was asked to resume. -/
def isUnresumableSession (diagnostics : Text) : Bool :=
  UNRESUMABLE_SESSION_MARKERS.any fun marker => Text.contains marker (Text.lower diagnostics)

/-- `exc.overflow`, for a failed turn. -/
def Failure.overflow : Failure → Bool
  | .backend exc => exc.overflow
  | .parse _ => false

/-- A failed turn that no retry helps: neither `transient` nor `overflow`. -/
def Failure.nonRecoverable : Failure → Bool
  | .backend exc => !exc.transient && !exc.overflow
  | .parse _ => false

/-- A failed turn whose message says that the session was refused. -/
def Failure.unresumable : Failure → Bool
  | .backend exc => isUnresumableSession exc.message
  | .parse _ => false

/-! ## Configuration -/

/-- The knobs of `AgentResilience` that the ladder reads. -/
structure AgentResilience where
  maxOutputRetries : ℤ := 2
  maxInvokeRetries : ℤ := 60
  maxRephraseAttempts : ℤ := 3
  maxCompactAttempts : ℤ := 2
  invokeBackoffBaseS : ℚ := 15
  invokeBackoffCapS : ℚ := 1800
  retryWaitBudgetS : ℚ := 97305
  capDefaultWaitS : ℚ := 600
  capWaitMarginS : ℚ := 120
  capProbeS : ℚ := 7200
  maxCapWaits : ℤ := 1536
  capMaxWaitS : ℚ := 691200
  capWaitBudgetS : ℚ := 691320
  reframeWaitBudgetS : ℚ := 60

/-- One call of `AgentRunner.run`: the run's settings, the node's, and what it is called
with. `outputs` is `extract_outputs` followed by `validate`; `parseResetSeconds` reads a
reset time from a message, and `formatG` is the format `:g` of a float. -/
structure Config (α : Type*) where
  resilience : AgentResilience
  retries : Option ℤ
  invokeRetries : Option ℤ
  supportsCompaction : Bool
  /-- A `session_id_path` is given. -/
  sessionIdPath : Bool
  resumeSession : Bool
  /-- A `rebrief` is given. -/
  rebrief : Bool
  outputs : Text → Except Text α
  parseResetSeconds : Text → ℚ → Option ℚ
  formatG : ℚ → Text

/-- The kinds of wait the ladder pays for, `WaitKind`. -/
inductive WaitKind
  | cap | retry | reframe
deriving DecidableEq

def WaitKind.name : WaitKind → Text
  | .cap => "cap".toList
  | .retry => "retry".toList
  | .reframe => "reframe".toList

def AgentResilience.limit (r : AgentResilience) : WaitKind → ℚ
  | .cap => r.capWaitBudgetS
  | .retry => r.retryWaitBudgetS
  | .reframe => r.reframeWaitBudgetS

/-- A prompt, by how the ladder made it. -/
inductive Prompt
  | rendered (text : Text)
  | rebrief (text : Text)
  | rephrase (original : Prompt) (attempt : ℕ)
  | retry (error : Text)
  | timeoutRetry (original : Prompt)
deriving DecidableEq

/-! ## One call and the state between calls -/

/-- How one `backend.run_turn` ends. -/
inductive Answer
  | text (result : Text)
  | error (exc : BackendInvocationError)
  | reload
deriving DecidableEq

/-- One backend turn and what the world does until the next one. -/
structure Behaviour where
  answer : Answer
  /-- The id that `record_session_start` or `classify_turn` writes while the turn runs. -/
  sessionId : Option Text
  /-- The clock after the turn. -/
  now : ℚ
  /-- A control request ends the wait that follows. -/
  cut : Bool
  /-- What `backend.compact` returns, and the session id it leaves. -/
  compacts : Bool
  compactSessionId : Option Text
  /-- What `rebrief()` returns. -/
  rebriefText : Text

/-- How `AgentRunner.run` ends. -/
inductive Outcome (α : Type*)
  | returned (prompt : Prompt) (outputs : α)
  | raised (exc : Failure)
  /-- A reload or a stop unwound the ladder. -/
  | unwound
  | assertion
deriving DecidableEq

/-- The variables of the three loops, the session file and the wait ledger. `drops` counts
the sessions dropped because the CLI refused them. -/
structure State (α : Type*) where
  rephrase : ℕ
  compactAttempts : ℤ
  rebriefedOverflow : Bool
  renderedPrompt : Prompt
  attempt : ℕ
  prompt : Prompt
  shortAttempt : ℕ
  capWaits : ℕ
  attemptPrompt : Prompt
  session : Option Text
  spent : WaitKind → ℚ
  drops : ℕ
  outcome : Option (Outcome α)

variable {α : Type*} (cfg : Config α)

/-- `rephrase_budget`. -/
def Config.rephraseBudget : ℤ := cfg.retries.getD cfg.resilience.maxRephraseAttempts

/-- `max_invoke_retries` of `turn`. -/
def Config.maxInvokeRetries : ℤ := cfg.invokeRetries.getD cfg.resilience.maxInvokeRetries

/-- `session_id_path and session_id_path.exists()`. -/
def State.sessionExists (s : State α) : Bool := cfg.sessionIdPath && s.session.isSome

/-- Writing a session id; an empty one, or no path to write to, writes nothing. -/
def State.recordSession (s : State α) (sessionId : Option Text) : State α :=
  match sessionId with
  | some (c :: cs) => if cfg.sessionIdPath then { s with session := some (c :: cs) } else s
  | _ => s

/-- The run ends. -/
def State.finish (s : State α) (o : Outcome α) : State α := { s with outcome := some o }

/-- `RecoveryWaitBudget.consume`: the ledger after a sleep, or the error it raises. -/
def consume (spent : WaitKind → ℚ) (kind : WaitKind) (requestedS : ℚ) :
    Except BackendInvocationError (WaitKind → ℚ) :=
  let budgetS := cfg.resilience.limit kind
  let spentS := spent kind
  if budgetS < 0 ∨ requestedS < 0 ∨ max 0 (budgetS - spentS) < requestedS then
    .error {
      message := kind.name ++ " wait budget exhausted: spent ".toList ++ cfg.formatG spentS ++
        "s of ".toList ++ cfg.formatG budgetS ++ "s; next recovery requires ".toList ++
        cfg.formatG requestedS ++ ['s']
      transient := false, overflow := false, timedOut := false, resetAt := none }
  else .ok fun k => if k = kind then spentS + requestedS else spent k

/-- The seconds of `cap_delay_seconds`. -/
def capDelaySeconds (exc : BackendInvocationError) (now : ℚ) : ℚ :=
  let r := cfg.resilience
  match exc.resetAt with
  | some resetAt =>
    if 0 < resetAt - now then min (resetAt - now) r.capMaxWaitS + r.capWaitMarginS
    else r.capWaitMarginS
  | none =>
    match cfg.parseResetSeconds exc.message now with
    | none => r.capDefaultWaitS
    | some parsed => parsed + r.capWaitMarginS

/-- A new `turn` for the prompt of this attempt. -/
def State.startTurn (s : State α) (prompt : Prompt) : State α :=
  { s with prompt := prompt, shortAttempt := 0, capWaits := 0, attemptPrompt := prompt }

/-- The head of the loop of `_run`, down to the first `turn` of `_invoke_and_parse`. -/
def State.loopHead (s : State α) : State α :=
  if s.rephrase = 0 then { s with attempt := 0 }.startTurn s.renderedPrompt
  else { s with attempt := 0, session := none }.startTurn (.rephrase s.renderedPrompt s.rephrase)

/-- The call's state before its first turn. -/
def start (renderedPrompt : Text) (session : Option Text) : State α :=
  let s : State α :=
    { rephrase := 0
      compactAttempts := cfg.resilience.maxCompactAttempts
      rebriefedOverflow := false
      renderedPrompt := .rendered renderedPrompt
      attempt := 0
      prompt := .rendered renderedPrompt
      shortAttempt := 0
      capWaits := 0
      attemptPrompt := .rendered renderedPrompt
      session := if cfg.resumeSession then session else none
      spent := fun _ => 0
      drops := 0
      outcome := none }
  -- `range(max_output_retries + 1)` is empty
  if cfg.resilience.maxOutputRetries < 0 then s.finish .assertion else s.loopHead

/-! ## The three `except` branches -/

/-- A refused session is dropped: the file goes, and the loop goes round again. -/
def dropSession (s : State α) (b : Behaviour) : State α :=
  let s := { s with session := none, drops := s.drops + 1 }
  if cfg.rebrief then { s with renderedPrompt := .rebrief b.rebriefText, rephrase := 0 }.loopHead
  else s.loopHead

/-- The last rungs of `_run`: give up on a failure that no retry helps, else reframe. -/
def reframe (s : State α) (exc : Failure) (b : Behaviour) : State α :=
  if exc.nonRecoverable then s.finish (.raised exc)
  else if (s.rephrase : ℤ) < cfg.rephraseBudget then
    match consume cfg s.spent .reframe (min (10 * ((s.rephrase : ℚ) + 1)) 60) with
    | .error e => s.finish (.raised (.backend e))
    | .ok spent =>
      if b.cut then { s with spent := spent }.finish .unwound
      else { s with spent := spent, rephrase := s.rephrase + 1 }.loopHead
  else s.finish (.raised exc)

/-- The overflow rungs of `_run` after compaction: replace the session once, else go on. -/
def replaceSession (s : State α) (exc : Failure) (b : Behaviour) : State α :=
  if exc.overflow && cfg.rebrief && !s.rebriefedOverflow then
    { s with
      rebriefedOverflow := true
      session := none
      renderedPrompt := .rebrief b.rebriefText
      rephrase := 0
      compactAttempts := cfg.resilience.maxCompactAttempts }.loopHead
  else reframe cfg s exc b

/-- The `except` branch of `_run`. -/
def failed (s : State α) (exc : Failure) (b : Behaviour) : State α :=
  if exc.unresumable && s.sessionExists cfg then dropSession cfg s b
  else if exc.overflow && cfg.supportsCompaction && decide (0 < s.compactAttempts) then
    let s := { s with compactAttempts := s.compactAttempts - 1 }.recordSession cfg b.compactSessionId
    if b.compacts then s.loopHead else replaceSession cfg s exc b
  else replaceSession cfg s exc b

/-- The `except` branch of `_invoke_and_parse`. -/
def parseFailed (s : State α) (message : Text) (b : Behaviour) : State α :=
  if cfg.resilience.maxOutputRetries ≤ s.attempt then failed cfg s (.parse message) b
  else { s with attempt := s.attempt + 1 }.startTurn (.retry message)

/-- Pay for a pause of `turn` and sleep it; `next` is the state of the next attempt. -/
def pause (s : State α) (kind : WaitKind) (sleepS : ℚ) (b : Behaviour)
    (next : State α → State α) : State α :=
  match consume cfg s.spent kind sleepS with
  | .error e => failed cfg s (.backend e) b
  | .ok spent =>
    let s := { s with spent := spent }
    if b.cut ∧ 0 < sleepS then s.finish .unwound else next s

/-- The `except` branch of `turn`. -/
def turnFailed (s : State α) (exc : BackendInvocationError) (b : Behaviour) : State α :=
  if !exc.transient then failed cfg s (.backend exc) b
  else
    let r := cfg.resilience
    let isCapHit := exc.resetAt.isSome || isCap exc.message
    let attemptPrompt := if exc.timedOut && !isCapHit then .timeoutRetry s.prompt else s.prompt
    if isCapHit then
      if r.maxCapWaits ≤ s.capWaits then failed cfg s (.backend exc) b
      else
        let delay := capDelaySeconds cfg exc b.now
        let sleepS := if 0 < r.capProbeS ∧ r.capProbeS < delay then r.capProbeS else delay
        pause cfg s .cap sleepS b fun s =>
          { s with capWaits := s.capWaits + 1, attemptPrompt := attemptPrompt }
    else if cfg.maxInvokeRetries ≤ s.shortAttempt then failed cfg s (.backend exc) b
    else
      let delay := min (r.invokeBackoffBaseS * 2 ^ s.shortAttempt) r.invokeBackoffCapS
      pause cfg s .retry delay b fun s =>
        { s with shortAttempt := s.shortAttempt + 1, attemptPrompt := attemptPrompt }

/-- Everything from the end of one `backend.run_turn` to the next one or the end. -/
def afterCall (s : State α) (b : Behaviour) : State α :=
  let s := s.recordSession cfg b.sessionId
  match b.answer with
  | .reload => s.finish .unwound
  | .error exc => turnFailed cfg s exc b
  | .text result =>
    match cfg.outputs result with
    | .ok outputs => s.finish (.returned s.renderedPrompt outputs)
    | .error message => parseFailed cfg s message b

/-- One call of `backend.run_turn`; a run that has ended makes none. -/
def step (s : State α) (b : Behaviour) : Option (State α) :=
  if s.outcome.isSome then none else some (afterCall cfg s b)

/-! ## What is claimed -/

/-- Along the behaviours `b` the ladder returns or raises within `N` calls. -/
def EndsWithin (s : State α) (b : ℕ → Behaviour) (N : ℕ) : Prop :=
  ∃ n ≤ N, ∃ t, Run.run (step cfg) s (Run.upTo b n) = some t ∧ t.outcome.isSome

/-- Along the behaviours `b` at most `D` refused sessions are dropped. -/
def DropsAtMost (s : State α) (b : ℕ → Behaviour) (D : ℕ) : Prop :=
  ∀ n t, Run.run (step cfg) s (Run.upTo b n) = some t → t.drops ≤ D

/-- The calls of one `_invoke_and_parse`, at most. -/
def callsPerInvoke : ℕ :=
  (cfg.resilience.maxOutputRetries + 1).toNat *
    (cfg.maxInvokeRetries.toNat + cfg.resilience.maxCapWaits.toNat + 1)

/-- The rounds of `_run` between two dropped sessions, at most. -/
def rounds : ℕ := cfg.rephraseBudget.toNat + 1

/-- The calls of one run that drops at most `D` sessions, at most. -/
def callBound (D : ℕ) : ℕ :=
  (cfg.rephraseBudget.toNat + cfg.resilience.maxCompactAttempts.toNat +
    (if cfg.rebrief then 1 + cfg.rephraseBudget.toNat + cfg.resilience.maxCompactAttempts.toNat
      else 0) + 1 + D * rounds cfg) * callsPerInvoke cfg

end Stablemate.Ladder
