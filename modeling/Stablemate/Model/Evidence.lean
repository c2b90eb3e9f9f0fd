import Mathlib.Data.List.Dedup
import Stablemate.Lib.Keyed
import Stablemate.Lib.Template
import Stablemate.Model.Verify

/-!
# The evidence map and the report (`ostler/qa/evidence_map.py`, `report.py`, `references.py`)

Both read one run: the packet's obligations, the ledger's records, the manifest and the published
evidence. `build_evidence_map` gives every obligation a status, `build_report` a verdict.

Entries of the documents that are no mappings come as `none`. `sensitive` is what
`sensitivity.trial` finds of a call; the other parameters are those of `parse_check`.
-/

namespace Stablemate.Evidence

open PyJson (Value PyFloat)
open Verify (CheckCall Expr Refusal)

/-! ## The documents -/

/-- A record of the run ledger. -/
structure LogRecord where
  kind : Text
  scenario : Text := []
  covers : List Text := []
  result : Text := []
  sentinel : Bool := false
  aborted : Bool := false
  check : Text := []
  check_args : List (Text × Value) := []
  action : Option ℤ := none

/-- An obligation of the context packet; `deferred` holds the kind and the detail. -/
structure Obligation where
  id : Text
  kind : Text := []
  source : Text := []
  requirement : Text := []
  evidenceRequired : Text := []
  required : Bool := true
  checksDeclared : List (Option Text) := []
  deferred : Option (Text × Text) := none

structure Packet where
  runId : Text := []
  obligations : List (Option Obligation) := []

structure Artifact where
  scenario : Text
  path : Text

structure Manifest where
  artifacts : List (Option Artifact) := []

structure Published where
  id : Text
  verdict : Text

structure EvidenceArtifact where
  runId : Text := []
  overall : Text := []
  obligations : List (Option Published) := []

/-- `sorted(set(texts))` -/
def sortedSet (texts : List Text) : List Text := texts.dedup.insertionSort (· ≤ ·)

/-- `_artifacts_by_scenario(manifest).get(scenario, [])` -/
def artifactsOf (manifest : Manifest) (scenario : Text) : List Text :=
  ((manifest.artifacts.filterMap id).filter fun a => a.path ≠ [] ∧ a.scenario ≠ [] ∧ a.scenario = scenario).map (·.path)

/-- `_published(evidence).get(id)` -/
def publishedOf (evidence : EvidenceArtifact) (id : Text) : Option Published :=
  (((evidence.obligations.filterMap fun row => row).filter fun row => row.id ≠ []).reverse).find? fun row => row.id = id

/-- The obligations of the packet that are ones. -/
def Packet.scope (packet : Packet) : List Obligation := (packet.obligations.filterMap id).filter fun o => o.id ≠ []

def Packet.owed (packet : Packet) : List Obligation := packet.scope.filter (·.required)

def Obligation.declared (o : Obligation) : List Text := (o.checksDeclared.filterMap fun call => call).filter (· ≠ [])

/-! ## References -/

section References

variable (isWord : Char → Bool)

/-- `[a-zA-Z0-9]` -/
def isAlnum (c : Char) : Bool := ('a' ≤ c && c ≤ 'z') || ('A' ≤ c && c ≤ 'Z') || ('0' ≤ c && c ≤ '9')

/-- The length of `[a-zA-Z0-9][a-zA-Z0-9_-]*` at the start of a text, 0 where there is none. -/
def nameLength (text : Text) : ℕ :=
  match text with
  | c :: _ => if isAlnum c then (text.takeWhile fun c => isAlnum c || c = '_' || c = '-').length else 0
  | [] => 0

/-- The length of the reference that a text starts with: `_NODE_REF` or `_CAPTURE_REF`, without what
must not stand before it. -/
def refLength (text : Text) : ℕ :=
  match text with
  | '@' :: rest =>
    let node := nameLength rest
    let key := nameLength (rest.drop (node + 1))
    if node > 0 ∧ (rest.drop node).head? = some '.' ∧ key > 0 then node + key + 2 else 0
  | '$' :: rest => if nameLength rest > 0 then nameLength rest + 1 else 0
  | _ => 0

/-- The template from here on; `blocked` says that a word or a point stands before, and the first
`skip` characters belong to a reference. The names of a reference hold no `@` and no `$`, so the
references of the two kinds are found in one pass. -/
def template : Bool → ℕ → Text → List Template.Part
  | _, _, [] => []
  | _, skip + 1, c :: cs => template (isWord c || c = '.') skip cs
  | blocked, 0, c :: cs =>
    let length := if blocked then 0 else refLength (c :: cs)
    if length > 0 then .hole :: template (isWord c || c = '.') (length - 1) cs
    else .lit c :: template (isWord c || c = '.') 0 cs

def template_pattern (text : Text) : List Template.Part := template isWord false 0 text

/-- What `[^"]` matches. -/
def unquoted (c : Char) : Bool := c ≠ '"'

def _observed (declared : Text) (observed : List Text) : Bool :=
  observed.contains declared || observed.any fun call => Template.fullmatch unquoted (template_pattern isWord declared) call

end References

/-! ## The evidence map -/

inductive Status where
  | contradicted | unproven | uncovered | claimedButUnasserted | insensitive | deferred | covered
deriving DecidableEq

def Status.text : Status → Text
  | contradicted => "contradicted".toList
  | unproven => "unproven".toList
  | uncovered => "uncovered".toList
  | claimedButUnasserted => "claimed-but-unasserted".toList
  | insensitive => "insensitive".toList
  | deferred => "deferred".toList
  | covered => "covered".toList

def STATUSES : List Status := [.contradicted, .unproven, .uncovered, .claimedButUnasserted, .insensitive, .deferred, .covered]

structure Row where
  id : Text
  kind : Text
  source : Text
  requirement : Text
  evidenceRequired : Text
  status : Status
  why : Text
  claimedBy : List Text
  passing : ℕ
  failing : ℕ
  checksDeclared : List Text
  checksObserved : List Text
  checksMissing : List Text
  checksInsensitive : List Text
  evidence : List Text
  logRefs : List Text
  failingLogRefs : Option (List Text)
  abortedLogRefs : Option (List Text)
  publishedVerdict : Option Text

structure EvidenceMap where
  runId : Text
  overall : Text
  counts : List (Status × ℕ)
  contextOnly : ℕ
  obligations : List Row

def _ref (record : LogRecord) : Text :=
  record.scenario ++ ":assert:".toList ++ (record.action.map PyJson.decimal).getD ['?']

def asserts (log : List LogRecord) : List LogRecord := log.filter fun r => r.kind = "assert".toList

/-- The scenarios with a stop that says they were aborted. -/
def aborted_scenarios (log : List LogRecord) : List Text :=
  (log.filter fun r => r.kind = "scenario_stop".toList ∧ r.aborted).map (·.scenario)

/-- `claims.get(id, set())` -/
def claimsOf (log : List LogRecord) (id : Text) : List Text :=
  (log.filter fun r => r.kind = "scenario_start".toList ∧ id ∈ r.covers).map (·.scenario)

/-- The assertions that name an obligation. -/
def boundTo (id : Text) (asserts : List LogRecord) : List LogRecord := asserts.filter fun r => id ∈ r.covers

def isPass (record : LogRecord) : Bool := record.result = "PASS".toList

def passingIn (aborted : List Text) (bound : List LogRecord) : List LogRecord :=
  bound.filter fun r => isPass r ∧ r.scenario ∉ aborted

def abortedIn (aborted : List Text) (bound : List LogRecord) : List LogRecord :=
  bound.filter fun r => isPass r ∧ r.scenario ∈ aborted

def failingOf (bound : List LogRecord) : List LogRecord := bound.filter fun r => ¬ isPass r ∧ ¬ r.sentinel

def sentinelsOf (bound : List LogRecord) : List LogRecord := bound.filter fun r => ¬ isPass r ∧ r.sentinel

def decimalOf (n : ℕ) : Text := Nat.toDigits 10 n

/-- What `_row` has found out of an obligation. -/
structure Findings where
  claimed : List Text
  passing : List LogRecord
  aborted : List LogRecord
  failing : List LogRecord
  sentinels : List LogRecord
  declared : List Text
  missing : List Text
  insensitive : List Text
  published : Option Published
  deferred : Option (Text × Text)

def _classify (obligation_id : Text) (f : Findings) : Status × Text :=
  let verdict := (f.published.map (·.verdict)).getD []
  if f.failing ≠ [] then
    (.contradicted, decimalOf f.failing.length ++ (" assertion(s) bound to it failed — the run observed the product " ++
      "and it did not do this.").toList)
  else if f.sentinels ≠ [] ∨ (f.aborted ≠ [] ∧ f.passing = []) then
    (.unproven, "scenario(s) ".toList ++ commaList (sortedSet ((f.sentinels ++ f.aborted).map (·.scenario))) ++
      (" did not run to completion, so nothing in " ++
      "this run observed the product for this obligation — the assertion(s) that " ++
      "would have are the ones that never ran. Repair the plan, then re-run: until " ++
      "one does, this is a claim about the plan and not about the product.").toList)
  else if verdict = "Pass".toList ∧ f.passing = [] then
    (.contradicted, ("qa-evidence.json publishes Pass, and no passing assertion in the run log is " ++
      "bound to it — the artifact claims evidence the ledger does not hold.").toList)
  else if verdict = "Fail".toList ∧ f.passing ≠ [] ∧ f.missing = [] then
    (.contradicted, ("qa-evidence.json publishes Fail while every assertion bound to it passed — the " ++
      "artifact and the ledger disagree, and the ledger is the one that ran.").toList)
  else if f.passing = [] then
    if f.claimed ≠ [] then
      (.claimedButUnasserted, "scenario(s) ".toList ++ commaList (sortedSet f.claimed) ++ " declare covers=['".toList ++
        obligation_id ++ "'] and recorded no passing assertion bound to it.".toList)
    else match f.deferred with
    | some (kind, detail) =>
      (.deferred, "the packet defers it (".toList ++ kind ++ "): ".toList ++ detail ++
        ". No plan can prove it until the book changes, so this run owes it nothing.".toList)
    | none =>
      (.uncovered, ("no scenario claims it and no assertion is bound to it — nothing in this run " ++ "observed it.").toList)
  else if f.missing = [] ∧ f.declared ≠ [] ∧ f.insensitive.length = f.declared.length then
    (.insensitive, ("every check its `verify:` bullets declare passed, and no observation of the " ++
      "product could have made any of them fail: ").toList ++ commaList (f.insensitive.map Verify.tick) ++
      (". A pass here says the assertion ran, not that the product does this — " ++
      "repair the declaration, not the app.").toList)
  else if f.missing ≠ [] then
    (.claimedButUnasserted, "the book declares ".toList ++ commaList (f.missing.map Verify.tick) ++
      (" and no passing assertion invokes it — what was asserted is not what was " ++ "claimed to be asserted.").toList)
  else
    (.covered, decimalOf f.passing.length ++ " passing assertion(s) bound to it".toList ++
      if f.declared ≠ [] then
        ", making all ".toList ++ decimalOf f.declared.length ++ " check(s) its `verify:` bullets declare.".toList
      else ", and its `verify:` bullets declare no check to hold them to.".toList)

section Map

variable (floatOf : Text → PyFloat) (elsewhere : Text → Option Expr) (leading_code_spans : Text → List Text)
  (isWord : Char → Bool) (foreign : Value → Text) (re_error : Text → Option Text) (sensitive : CheckCall → Bool)

def _call_text (name : Text) (args : List (Text × Value)) : Except Text (Option Text) :=
  match Verify.bind foreign re_error name args .checks with
  | .ok bound => bound.text.map some
  | .error _ => pure none

/-- The calls that the assertions made. -/
def observedCalls (passing : List LogRecord) : Except Text (List Text) := do
  let calls ← (passing.filter fun r => r.check ≠ []).mapM fun r => _call_text foreign re_error r.check r.check_args
  pure (calls.filterMap id)

/-- A declared check that no observation could have failed. -/
def isInsensitive (call : Text) : Bool :=
  match Verify.parse_check floatOf elsewhere leading_code_spans isWord foreign re_error call with
  | .ok parsed => !sensitive parsed
  | .error _ => false

/-- What there is to say of one obligation, given the calls that were observed. -/
def findings (log : List LogRecord) (evidence : EvidenceArtifact) (obligation : Obligation) (observed : List Text) : Findings :=
  let bound := boundTo obligation.id (asserts log)
  { claimed := claimsOf log obligation.id
    passing := passingIn (aborted_scenarios log) bound
    aborted := abortedIn (aborted_scenarios log) bound
    failing := failingOf bound
    sentinels := sentinelsOf bound
    declared := obligation.declared
    missing := obligation.declared.filter fun call => !_observed isWord call observed
    insensitive := obligation.declared.filter
      (isInsensitive floatOf elsewhere leading_code_spans isWord foreign re_error sensitive)
    published := publishedOf evidence obligation.id
    deferred := obligation.deferred }

/-- The row of an obligation, given what was found. -/
def rowOf (log : List LogRecord) (manifest : Manifest) (obligation : Obligation) (observed : List Text) (f : Findings) : Row :=
  let verdict := _classify obligation.id f
  { id := obligation.id
    kind := obligation.kind
    source := obligation.source
    requirement := obligation.requirement
    evidenceRequired := obligation.evidenceRequired
    status := verdict.1
    why := verdict.2
    claimedBy := sortedSet f.claimed
    passing := f.passing.length
    failing := f.failing.length
    checksDeclared := f.declared
    checksObserved := sortedSet observed
    checksMissing := f.missing
    checksInsensitive := f.insensitive
    evidence := sortedSet (f.passing.flatMap fun r => artifactsOf manifest r.scenario)
    logRefs := (boundTo obligation.id (asserts log)).map _ref
    failingLogRefs := if f.failing ≠ [] then some (f.failing.map _ref) else none
    abortedLogRefs := if f.aborted ≠ [] ∨ f.sentinels ≠ [] then some ((f.aborted ++ f.sentinels).map _ref) else none
    publishedVerdict := f.published.map (·.verdict) }

def _row (log : List LogRecord) (manifest : Manifest) (evidence : EvidenceArtifact) (obligation : Obligation) : Except Text Row := do
  let observed ← observedCalls foreign re_error (passingIn (aborted_scenarios log) (boundTo obligation.id (asserts log)))
  pure (rowOf log manifest obligation observed
    (findings floatOf elsewhere leading_code_spans isWord foreign re_error sensitive log evidence obligation observed))

/-- `evidence.get("runId") or context.get("runId")` -/
def runIdOf (packet : Packet) (evidence : EvidenceArtifact) : Text := if evidence.runId ≠ [] then evidence.runId else packet.runId

def build_evidence_map (packet : Packet) (log : List LogRecord) (manifest : Manifest) (evidence : EvidenceArtifact) :
    Except Text EvidenceMap := do
  let rows ← packet.owed.mapM
    (_row floatOf elsewhere leading_code_spans isWord foreign re_error sensitive log manifest evidence)
  pure { runId := runIdOf packet evidence
         overall := evidence.overall
         counts := STATUSES.map fun status => (status, rows.countP fun row => row.status = status)
         contextOnly := packet.scope.length - packet.owed.length
         obligations := rows }

end Map

/-! ## The report -/

inductive Verdict where
  | fail | unproven | pass
deriving DecidableEq

def Verdict.text : Verdict → Text
  | fail => "FAIL".toList
  | unproven => "UNPROVEN".toList
  | pass => "PASS".toList

/-- A scenario of the report, as far as a verdict reads it. -/
structure Scenario where
  id : Text
  covers : List Text
  aborted : Bool

/-- The first loop of `_scenarios`: every start makes its scenario anew. -/
def startedBy (log : List LogRecord) : List Scenario :=
  (log.filter fun r => r.kind = "scenario_start".toList).foldl
    (fun by_id r => Keyed.upsert Scenario.id by_id ⟨r.scenario, r.covers, false⟩) []

/-- One turn of the second loop: a stop says whether its scenario was aborted. -/
def recordStop (scenarios : List Scenario) (record : LogRecord) : List Scenario :=
  if record.kind = "scenario_stop".toList then
    scenarios.map fun s => if s.id = record.scenario then { s with aborted := record.aborted } else s
  else scenarios

def _scenarios (log : List LogRecord) : List Scenario :=
  let by_id := log.foldl recordStop (startedBy log)
  ((log.filter fun r => r.kind = "scenario_start".toList).map (·.scenario)).filterMap (Keyed.get Scenario.id by_id)

structure Subject where
  id : Text
  kind : Text
  requirement : Text
  verdict : Verdict
  why : Text
  scenarios : List Text
  passing : ℕ
  failing : ℕ

def _subject (item : Obligation) (scenarios : List Scenario) (asserts : List LogRecord) (aborted : List Text) : Subject :=
  let bound := boundTo item.id asserts
  let passing := passingIn aborted bound
  let failing := failingOf bound
  let stopped := bound.filter fun r => r.scenario ∈ aborted
  let claimed := (scenarios.filter fun s => item.id ∈ s.covers).map (·.id)
  let verdict : Verdict × Text :=
    if failing ≠ [] then (.fail, decimalOf failing.length ++ " assertion(s) covering it failed".toList)
    else if passing ≠ [] then (.pass, decimalOf passing.length ++ " assertion(s) covering it passed".toList)
    else if stopped ≠ [] then
      (.unproven, ("every assertion covering it ran inside a scenario that stopped early, so the " ++
        "run never observed the whole of it").toList)
    else if claimed ≠ [] then
      (.unproven, "claimed by ".toList ++ commaList (claimed.map Verify.tick) ++
        " but no assertion declares `covers` for it".toList)
    else (.unproven, "no scenario claims it and no assertion covers it — it was not tested".toList)
  { id := item.id
    kind := item.kind
    requirement := item.requirement
    verdict := verdict.1
    why := verdict.2
    scenarios := sortedSet (bound.map (·.scenario) ++ claimed)
    passing := passing.length
    failing := failing.length }

/-- An obligation as the report shows it, with the row of the evidence map where there is one. -/
structure Reported where
  subject : Subject
  source : Text
  evidenceRequired : Text
  checksDeclared : List Text
  row : Option Row

/-- The scenarios that the report shows as aborted. -/
def shownAborted (log : List LogRecord) : List Text := ((_scenarios log).filter (·.aborted)).map (·.id)

/-- The obligations of `build_report`, given the rows of the evidence map. -/
def reportObligations (packet : Packet) (log : List LogRecord) (rows : List Row) : List Reported :=
  packet.owed.map fun item =>
    { subject := _subject item (_scenarios log) (asserts log) (shownAborted log)
      source := item.source
      evidenceRequired := item.evidenceRequired
      checksDeclared := item.declared
      row := rows.reverse.find? fun row => row.id = item.id }

end Stablemate.Evidence
