import Stablemate.Model.Ladder

/-!
# The cumulative wait budgets (`runner/waits.py`, `runner/ladder.py`, `runner/process.py`)

One call of `AgentRunner.run` makes a ledger and puts it in a context variable; the ladder, each
`turn` and each `spawn` pay for their sleeps from the ledger they find there, or from one of
their own when they find none. The machine takes one step for one `backend.run_turn`, as that
of `Model/Ladder.lean`, with the process spawns inside it and without the prompts. Seconds are
floats with exact finite values.

An `Attempt` is one delay that a site wants to sleep, with the ledger before and after it asks.
-/

namespace Stablemate.Budget

open Ladder (BackendInvocationError Failure isCap)

/-! ## Floats -/

/-- A Python float. -/
inductive Seconds
  | finite (s : ℚ)
  | inf
  | negInf
  | nan
deriving DecidableEq

namespace Seconds

/-- `a < b`. -/
def lt : Seconds → Seconds → Bool
  | nan, _ => false
  | _, nan => false
  | finite a, finite b => decide (a < b)
  | inf, _ => false
  | _, negInf => false
  | negInf, _ => true
  | _, inf => true

/-- `math.isfinite`. -/
def isfinite : Seconds → Bool
  | finite _ => true
  | _ => false

/-- `min(a, b)`, which is `a` unless `b < a`. -/
def pyMin (a b : Seconds) : Seconds := if b.lt a then b else a

/-- `max(a, b)`, which is `a` unless `a < b`. -/
def pyMax (a b : Seconds) : Seconds := if a.lt b then b else a

/-- `a + b`. -/
def add : Seconds → Seconds → Seconds
  | finite a, finite b => finite (a + b)
  | nan, _ => nan
  | _, nan => nan
  | inf, negInf => nan
  | negInf, inf => nan
  | inf, _ => inf
  | _, inf => inf
  | negInf, _ => negInf
  | _, negInf => negInf

/-- `-a`. -/
def neg : Seconds → Seconds
  | finite a => finite (-a)
  | inf => negInf
  | negInf => inf
  | nan => nan

/-- `a - b`. -/
def sub (a b : Seconds) : Seconds := a.add b.neg

/-- `a * 2 ** k`. -/
def scale : Seconds → ℕ → Seconds
  | finite a, k => finite (a * 2 ^ k)
  | a, _ => a

/-- The value of a finite float. -/
def value : Seconds → ℚ
  | finite a => a
  | _ => 0

end Seconds

/-! ## The ledger (`waits.py`) -/

/-- `WaitKind`. -/
inductive WaitKind
  | cap | retry | reframe | execRetry
deriving DecidableEq

def WaitKind.name : WaitKind → Text
  | .cap => "cap".toList
  | .retry => "retry".toList
  | .reframe => "reframe".toList
  | .execRetry => "exec-retry".toList

/-- The knobs of `AgentResilience` that the waits read. -/
structure AgentResilience where
  maxOutputRetries : ℤ := 2
  maxInvokeRetries : ℤ := 60
  maxRephraseAttempts : ℤ := 3
  maxCompactAttempts : ℤ := 2
  invokeBackoffBaseS : Seconds := .finite 15
  invokeBackoffCapS : Seconds := .finite 1800
  retryWaitBudgetS : Seconds := .finite 97305
  capDefaultWaitS : Seconds := .finite 600
  capWaitMarginS : Seconds := .finite 120
  capProbeS : Seconds := .finite 7200
  maxCapWaits : ℤ := 1536
  capMaxWaitS : Seconds := .finite 691200
  capWaitBudgetS : Seconds := .finite 691320
  reframeWaitBudgetS : Seconds := .finite 60
  execRetryMax : ℤ := 5
  execRetryBaseS : Seconds := .finite 1
  execRetryCapS : Seconds := .finite 8
  execRetryWaitBudgetS : Seconds := .finite 23

/-- `RecoveryWaitBudget`. -/
structure RecoveryWaitBudget where
  limits : WaitKind → Seconds
  spent : WaitKind → Seconds

/-- `RecoveryWaitBudget.from_resilience`. -/
def from_resilience (r : AgentResilience) : RecoveryWaitBudget where
  limits
    | .cap => r.capWaitBudgetS
    | .retry => r.retryWaitBudgetS
    | .reframe => r.reframeWaitBudgetS
    | .execRetry => r.execRetryWaitBudgetS
  spent _ := .finite 0

/-- `RecoveryWaitBudgetExceeded`; `formatG` is the format `:g` of a float. -/
def exceeded (formatG : Seconds → Text) (kind : WaitKind) (budget_s spent_s requested_s : Seconds) :
    BackendInvocationError where
  message := kind.name ++ " wait budget exhausted: spent ".toList ++ formatG spent_s ++
    "s of ".toList ++ formatG budget_s ++ "s; next recovery requires ".toList ++
    formatG requested_s ++ ['s']
  transient := false
  overflow := false
  timedOut := false
  resetAt := none

/-- `RecoveryWaitBudget.consume`. -/
def consume (formatG : Seconds → Text) (l : RecoveryWaitBudget) (kind : WaitKind) (requested_s : Seconds) :
    Except BackendInvocationError RecoveryWaitBudget :=
  let budget_s := l.limits kind
  let spent_s := l.spent kind
  if !budget_s.isfinite || budget_s.lt (.finite 0) || !requested_s.isfinite ||
      requested_s.lt (.finite 0) ||
      (Seconds.pyMax (.finite 0) (budget_s.sub spent_s)).lt requested_s then
    .error (exceeded formatG kind budget_s spent_s requested_s)
  else .ok { l with spent := fun k => if k = kind then spent_s.add requested_s else l.spent k }

/-! ## The context variable -/

/-- A delay that a site is about to sleep, with the ledger before and after it asks; `none` when
it asks no ledger. -/
structure Attempt where
  kind : WaitKind
  delay : Seconds
  before : Option RecoveryWaitBudget
  after : Option RecoveryWaitBudget
  slept : Bool

/-- The ledgers made so far, `_ACTIVE`, and every delay asked for. -/
structure Books where
  ledgers : ℕ → RecoveryWaitBudget
  made : ℕ
  active : Option ℕ
  log : List Attempt

/-- One call of `AgentRunner.run`: its settings, the node's, and what it is called with. -/
structure Config where
  resilience : AgentResilience
  retries : Option ℤ
  invokeRetries : Option ℤ
  supportsCompaction : Bool
  /-- A `session_id_path` is given. -/
  sessionIdPath : Bool
  resumeSession : Bool
  /-- A `rebrief` is given. -/
  rebrief : Bool
  parseResetSeconds : Text → ℚ → Option ℚ
  formatG : Seconds → Text

variable (cfg : Config)

/-- A new ledger. -/
def Books.new (bk : Books) : ℕ × Books :=
  (bk.made, { bk with
    ledgers := fun i => if i = bk.made then from_resilience cfg.resilience else bk.ledgers i
    made := bk.made + 1 })

/-- `active_recovery_wait_budget() or RecoveryWaitBudget.from_resilience(resilience)`. -/
def Books.activeOr (bk : Books) : ℕ × Books :=
  match bk.active with
  | some i => (i, bk)
  | none => bk.new cfg

/-- `consume` on the ledger `i`, and the start of the sleep that follows. -/
def Books.charge (bk : Books) (i : ℕ) (kind : WaitKind) (delay : Seconds) :
    Option BackendInvocationError × Books :=
  match consume cfg.formatG (bk.ledgers i) kind delay with
  | .error e =>
    (some e, { bk with log := ⟨kind, delay, some (bk.ledgers i), some (bk.ledgers i), false⟩ :: bk.log })
  | .ok l =>
    (none, { bk with
      ledgers := fun j => if j = i then l else bk.ledgers j
      log := ⟨kind, delay, some (bk.ledgers i), some l, true⟩ :: bk.log })

/-! ## `ProcessSupervisor.spawn` -/

/-- An `OSError` of `Popen`, as `spawn` looks at it, with the text of what it raises for it. -/
structure OsFailure where
  /-- `ENOENT`, with a working directory that is gone. -/
  missingCwd : Bool
  /-- One of `_EXEC_BUSY_ERRNOS`, or `ENOENT`. -/
  retryable : Bool
  /-- The command resolves, or has run before. -/
  known : Bool
  message : Text

/-- The error that `spawn` raises. -/
def OsFailure.error (f : OsFailure) (transient : Bool) : BackendInvocationError :=
  { message := f.message, transient, overflow := false, timedOut := false, resetAt := none }

/-- The loop of `spawn`, over the failures of `Popen` before it succeeds. -/
def spawnFrom (i : ℕ) : ℕ → List OsFailure → Books → Option BackendInvocationError × Books
  | _, [], bk => (none, bk)
  | attempt, f :: failures, bk =>
    if f.missingCwd then (some (f.error false), bk)
    else if f.retryable && decide (((attempt + 1 : ℕ) : ℤ) ≤ cfg.resilience.execRetryMax) then
      let delay := Seconds.pyMin (cfg.resilience.execRetryBaseS.scale attempt) cfg.resilience.execRetryCapS
      match bk.charge cfg i .execRetry delay with
      | (some e, bk) => (some e, bk)
      | (none, bk) => spawnFrom i (attempt + 1) failures bk
    else (some (f.error (f.retryable && f.known)), bk)

/-- `ProcessSupervisor.spawn`. -/
def spawn (failures : List OsFailure) (bk : Books) : Option BackendInvocationError × Books :=
  let (i, bk) := bk.activeOr cfg
  spawnFrom cfg i 0 failures bk

/-- The spawns of one call of the backend, up to the first that raises. -/
def spawnAll : List (List OsFailure) → Books → Option BackendInvocationError × Books
  | [], bk => (none, bk)
  | failures :: spawns, bk =>
    match spawn cfg failures bk with
    | (some e, bk) => (some e, bk)
    | (none, bk) => spawnAll spawns bk

/-! ## One call of the ladder -/

/-- How one `backend.run_turn` ends when its spawns succeed. -/
inductive Answer
  /-- A result with outputs that are accepted. -/
  | outputs
  /-- A result without, and the text of the `OutputParseError`. -/
  | unparsed (message : Text)
  | error (exc : BackendInvocationError)
  | reload

/-- One backend turn and what the world does until the next one. -/
structure Behaviour where
  spawns : List (List OsFailure)
  answer : Answer
  /-- The turn leaves a session file. -/
  session : Bool
  /-- The clock after the turn. -/
  now : ℚ
  /-- A message cannot be made of the delay: `int` or a date refuses it. -/
  messageFails : Bool
  /-- A control request ends the wait that follows. -/
  cut : Bool
  compactSpawns : List (List OsFailure)
  /-- What `backend.compact` returns when its spawns succeed. -/
  compacts : Bool

/-- How `AgentRunner.run` ends. -/
inductive Outcome
  | returned
  | raised (exc : Failure)
  /-- A reload or a stop unwound the ladder. -/
  | unwound
  /-- Any other exception. -/
  | crashed
deriving DecidableEq

/-- The variables of the three loops, whether the session file exists, and the books. -/
structure State where
  rephrase : ℕ
  compactAttempts : ℤ
  rebriefedOverflow : Bool
  attempt : ℕ
  shortAttempt : ℕ
  capWaits : ℕ
  session : Bool
  /-- The `budget` of `turn`. -/
  turnBudget : ℕ
  books : Books
  outcome : Option Outcome

/-- `rephrase_budget`. -/
def Config.rephraseBudget : ℤ := cfg.retries.getD cfg.resilience.maxRephraseAttempts

/-- `max_invoke_retries` of `turn`. -/
def Config.maxInvokeRetries : ℤ := cfg.invokeRetries.getD cfg.resilience.maxInvokeRetries

/-- The run ends. -/
def State.finish (s : State) (o : Outcome) : State := { s with outcome := some o }

/-- The head of `turn`: its budget, and its counters at zero. -/
def State.startTurn (s : State) : State :=
  let (i, books) := s.books.activeOr cfg
  { s with shortAttempt := 0, capWaits := 0, turnBudget := i, books := books }

/-- The head of the loop of `_run`, down to the first `turn` of `_invoke_and_parse`. -/
def State.loopHead (s : State) : State :=
  if s.rephrase = 0 then { s with attempt := 0 }.startTurn cfg
  else { s with attempt := 0, session := false }.startTurn cfg

/-- `AgentRunner.run` up to the first turn: a new ledger, put into the context variable. -/
def start (session : Bool) : State :=
  let (i, books) := Books.new cfg { ledgers := fun _ => from_resilience cfg.resilience, made := 0,
                                    active := none, log := [] }
  let s : State :=
    { rephrase := 0
      compactAttempts := cfg.resilience.maxCompactAttempts
      rebriefedOverflow := false
      attempt := 0
      shortAttempt := 0
      capWaits := 0
      session := cfg.resumeSession && session
      turnBudget := i
      books := { books with active := some i }
      outcome := none }
  -- `range(max_output_retries + 1)` is empty
  if cfg.resilience.maxOutputRetries < 0 then s.finish .crashed else s.loopHead cfg

/-- A refused session is dropped: the file goes, and the loop goes round again. -/
def dropSession (s : State) : State :=
  let s := { s with session := false }
  if cfg.rebrief then { s with rephrase := 0 }.loopHead cfg else s.loopHead cfg

/-- A reframe pause: `consume` on the active ledger, if there is one. -/
def chargeReframe (bk : Books) (delay : Seconds) : Option BackendInvocationError × Books :=
  match bk.active with
  | some i => bk.charge cfg i .reframe delay
  | none => (none, { bk with log := ⟨.reframe, delay, none, none, true⟩ :: bk.log })

/-- The last rungs of `_run`: give up on a failure that no retry helps, else reframe. -/
def reframe (s : State) (exc : Failure) (b : Behaviour) : State :=
  if exc.nonRecoverable then s.finish (.raised exc)
  else if (s.rephrase : ℤ) < cfg.rephraseBudget then
    match chargeReframe cfg s.books (.finite (min (10 * ((s.rephrase : ℚ) + 1)) 60)) with
    | (some e, books) => { s with books := books }.finish (.raised (.backend e))
    | (none, books) =>
      if b.cut then { s with books := books }.finish .unwound
      else { s with books := books, rephrase := s.rephrase + 1 }.loopHead cfg
  else s.finish (.raised exc)

/-- The overflow rungs of `_run` after compaction: replace the session once, else go on. -/
def replaceSession (s : State) (exc : Failure) (b : Behaviour) : State :=
  if exc.overflow && cfg.rebrief && !s.rebriefedOverflow then
    { s with
      rebriefedOverflow := true
      session := false
      rephrase := 0
      compactAttempts := cfg.resilience.maxCompactAttempts }.loopHead cfg
  else reframe cfg s exc b

/-- The `except` branch of `_run`. A compaction whose spawn raises has not compacted. -/
def failed (s : State) (exc : Failure) (b : Behaviour) : State :=
  if exc.unresumable && cfg.sessionIdPath && s.session then dropSession cfg s
  else if exc.overflow && cfg.supportsCompaction && decide (0 < s.compactAttempts) then
    let s := { s with compactAttempts := s.compactAttempts - 1 }
    match spawnAll cfg b.compactSpawns s.books with
    | (some _, books) => replaceSession cfg { s with books := books } exc b
    | (none, books) =>
      if b.compacts then { s with books := books }.loopHead cfg
      else replaceSession cfg { s with books := books } exc b
  else replaceSession cfg s exc b

/-- The `except` branch of `_invoke_and_parse`. -/
def parseFailed (s : State) (message : Text) (b : Behaviour) : State :=
  if cfg.resilience.maxOutputRetries ≤ s.attempt then failed cfg s (.parse message) b
  else { s with attempt := s.attempt + 1 }.startTurn cfg

/-- The seconds of `cap_delay_seconds`. -/
def capDelaySeconds (exc : BackendInvocationError) (now : ℚ) : Seconds :=
  let r := cfg.resilience
  match exc.resetAt with
  | some resetAt =>
    if 0 < resetAt - now then (Seconds.pyMin (.finite (resetAt - now)) r.capMaxWaitS).add r.capWaitMarginS
    else r.capWaitMarginS
  | none =>
    match cfg.parseResetSeconds exc.message now with
    | none => r.capDefaultWaitS
    | some parsed => (Seconds.finite parsed).add r.capWaitMarginS

/-- Pay for a pause of `turn` and sleep it; `next` is the state of the next attempt. -/
def pause (s : State) (kind : WaitKind) (sleepS : Seconds) (b : Behaviour) (next : State → State) : State :=
  if b.messageFails then s.finish .crashed
  else match s.books.charge cfg s.turnBudget kind sleepS with
    | (some e, books) => failed cfg { s with books := books } (.backend e) b
    | (none, books) =>
      if b.cut ∧ (Seconds.finite 0).lt sleepS = true then { s with books := books }.finish .unwound
      else next { s with books := books }

/-- The `except` branch of `turn`. -/
def turnFailed (s : State) (exc : BackendInvocationError) (b : Behaviour) : State :=
  if !exc.transient then failed cfg s (.backend exc) b
  else
    let r := cfg.resilience
    if exc.resetAt.isSome || isCap exc.message then
      if r.maxCapWaits ≤ s.capWaits then failed cfg s (.backend exc) b
      else
        let delay := capDelaySeconds cfg exc b.now
        let sleepS := if (Seconds.finite 0).lt r.capProbeS && r.capProbeS.lt delay then r.capProbeS else delay
        pause cfg s .cap sleepS b fun s => { s with capWaits := s.capWaits + 1 }
    else if cfg.maxInvokeRetries ≤ s.shortAttempt then failed cfg s (.backend exc) b
    else
      let delay := Seconds.pyMin (r.invokeBackoffBaseS.scale s.shortAttempt) r.invokeBackoffCapS
      pause cfg s .retry delay b fun s => { s with shortAttempt := s.shortAttempt + 1 }

/-- The spawns of `backend.run_turn`, in the scope of the turn's budget. -/
def runTurn (s : State) (b : Behaviour) : Option BackendInvocationError × State :=
  let (raised, books) := spawnAll cfg b.spawns { s.books with active := some s.turnBudget }
  (raised, { s with
    session := s.session || (cfg.sessionIdPath && b.session)
    books := { books with active := s.books.active } })

/-- Everything from the start of one `backend.run_turn` to the next one or the end. -/
def afterCall (s : State) (b : Behaviour) : State :=
  match runTurn cfg s b with
  | (some e, s) => turnFailed cfg s e b
  | (none, s) =>
    match b.answer with
    | .reload => s.finish .unwound
    | .error exc => turnFailed cfg s exc b
    | .outputs => s.finish .returned
    | .unparsed message => parseFailed cfg s message b

/-- One call of `backend.run_turn`; a run that has ended makes none. -/
def step (s : State) (b : Behaviour) : Option State :=
  if s.outcome.isSome then none else some (afterCall cfg s b)

/-! ## What is claimed -/

/-- The seconds of a category that the run has started to sleep. -/
def total (kind : WaitKind) (log : List Attempt) : ℚ :=
  (log.map fun a => if a.kind = kind ∧ a.slept = true then a.delay.value else 0).sum

/-- The delay fits into what the ledger has left of its category. -/
def Fits (l : RecoveryWaitBudget) (kind : WaitKind) (delay : Seconds) : Prop :=
  ∃ limit spent d : ℚ, l.limits kind = .finite limit ∧ l.spent kind = .finite spent ∧
    delay = .finite d ∧ 0 ≤ d ∧ 0 ≤ limit ∧ spent + d ≤ limit

end Stablemate.Budget
