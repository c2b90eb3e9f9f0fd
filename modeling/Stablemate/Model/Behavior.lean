import Mathlib.Data.Char
import Mathlib.Data.List.Dedup
import Mathlib.Data.List.Lex
import Mathlib.Data.List.Sort
import Stablemate.Lib.Keyed
import Stablemate.Model.Text

/-!
# Two-way behavior reviews (`ostler/behavior_models.py`, `behavior.py`, `behavior_memo.py`)

A packet puts claims of the book beside candidates of the source. A reviewer gives every item a
verdict and `validate_verdicts` checks the reply as a whole. `remember` files each verdict under
a digest of its item and of what it was judged beside; `recall` reads back what is known of a
packet, `reduce_packet` leaves the rest to the reviewer and `merge_verdicts` joins the two.

`packet_digest` is a parameter, for pydantic writes the JSON that is hashed; so is `sha`, the
hash of some texts.
-/

namespace Stablemate.Behavior

/-! ## Wire contracts -/

inductive EvidenceKind where
  | route | decorator | argparse_option | function_default | raise | return | schema_field | panic | http_response
  | function_contract
deriving DecidableEq

def EvidenceKind.text : EvidenceKind → Text
  | route => "route".toList
  | decorator => "decorator".toList
  | argparse_option => "argparse_option".toList
  | function_default => "function_default".toList
  | raise => "raise".toList
  | «return» => "return".toList
  | schema_field => "schema_field".toList
  | panic => "panic".toList
  | http_response => "http_response".toList
  | function_contract => "function_contract".toList

structure BehaviorEvidence where
  id : Text
  path : Text
  symbol : Text
  start_line : ℕ
  end_line : ℕ
  start_column : ℕ
  end_column : ℕ
  kind : EvidenceKind
  text : Text
  snippet : Text
  conditions : List Text := []
  source_digest : Text
  framework : Text := "python".toList
  exported : Option Bool := none
deriving DecidableEq

/-- Some lines of a file, as `model_copy` may leave them. -/
structure FileExcerpt where
  path : Text
  start_line : ℕ
  end_line : ℕ
  text : Text
  source_digest : Text
deriving DecidableEq

/-- `text.count("\n") + (0 if text.endswith("\n") else 1)` -/
def lineCount (text : Text) : ℕ := text.count '\n' + if text.getLast? = some '\n' then 0 else 1

/-- The lines that an excerpt advertises are those that it carries. -/
structure FileExcerpt.Bounded (e : FileExcerpt) : Prop where
  text : e.text ≠ []
  start : 1 ≤ e.start_line
  stop : 1 ≤ e.end_line
  span : (e.end_line : ℤ) - e.start_line + 1 = max 1 (lineCount e.text)

structure SourceContext extends FileExcerpt where
  symbol : Text
deriving DecidableEq

abbrev SourceExcerpt := FileExcerpt

structure BookContext extends FileExcerpt where
  node : Text
  bounded : toFileExcerpt.Bounded
deriving DecidableEq

structure BookClaim where
  id : Text
  node : Text
  path : Text
  line : ℕ
  kind : Text
  text : Text
  citations : List Text := []
  title : Text := []
  context : List BookContext := []
deriving DecidableEq

inductive Group where
  | source_file
  | ungrounded_book
  | empty_scope
deriving DecidableEq

/-- A packet, less its digest. -/
structure PacketBody where
  group : Group := .source_file
  module : Text
  symbol : Text
  scope : List Text
  inventory_digest : Text
  candidates : List BehaviorEvidence
  claims : List BookClaim
  omitted_candidates : ℕ
  omitted_claims : ℕ
  limitations : List Text
  source_context : List SourceContext := []
  book_context : List BookContext := []
  support_context : List SourceExcerpt := []

structure AuditPacket extends PacketBody where
  digest : Text

/-- `partially` is the source's `"partial"`. -/
inductive ClaimStatus where
  | supported
  | contradicted
  | partially
  | unresolved
deriving DecidableEq

inductive CandidateStatus where
  | covered
  | missing
  | implementation_detail
  | mixed
  | unresolved
deriving DecidableEq

structure ClaimVerdict where
  id : Text
  status : ClaimStatus
  candidate_ids : List Text := []
  explanation : Text
deriving DecidableEq

structure BookEvidenceRef where
  node : Text
  start_line : ℕ
  end_line : ℕ
deriving DecidableEq

structure CandidateVerdict where
  id : Text
  status : CandidateStatus
  book_evidence : List BookEvidenceRef := []
  explanation : Text
deriving DecidableEq

structure AuditVerdicts where
  claims : List ClaimVerdict
  candidates : List CandidateVerdict
deriving DecidableEq

structure AuditReport where
  packet_digest : Text
  verdicts : AuditVerdicts
  limitations : List Text

def ClaimStatus.text : ClaimStatus → Text
  | supported => "supported".toList
  | contradicted => "contradicted".toList
  | partially => "partial".toList
  | unresolved => "unresolved".toList

def CandidateStatus.text : CandidateStatus → Text
  | covered => "covered".toList
  | missing => "missing".toList
  | implementation_detail => "implementation_detail".toList
  | mixed => "mixed".toList
  | unresolved => "unresolved".toList

/-- `status in {"supported", "partial"}` -/
def ClaimStatus.supports (s : ClaimStatus) : Bool := s = .supported || s = .partially

def PacketBody.claim_ids (p : PacketBody) : List Text := p.claims.map (·.id)

def PacketBody.candidate_ids (p : PacketBody) : List Text := p.candidates.map (·.id)

/-! ## Checks of a reply -/

def sortedTexts (texts : List Text) : List Text := texts.insertionSort (· ≤ ·)

/-- A list of texts as an f-string shows it. -/
def shown (texts : List Text) : Text := '[' :: [',', ' '].intercalate (texts.map Text.repr) ++ [']']

def _exact_ids (actual expected : List Text) (label : Text) : Except Text Unit :=
  if ¬ actual.Nodup then throw ("duplicate IDs in ".toList ++ label ++ ": ".toList ++ shown actual)
  else if (∀ x ∈ actual, x ∈ expected) ∧ ∀ x ∈ expected, x ∈ actual then pure ()
  else
    throw (label ++ ": missing IDs ".toList ++ shown (sortedTexts (expected.dedup.filter (· ∉ actual))) ++
      "; foreign IDs ".toList ++ shown (sortedTexts (actual.dedup.filter (· ∉ expected))))

def _check_claim_verdict (claim : ClaimVerdict) (candidate_ids : List Text) : Except Text Unit := do
  _exact_ids claim.candidate_ids (claim.candidate_ids.filter (· ∈ candidate_ids)) ("links for ".toList ++ claim.id)
  if claim.status ≠ .unresolved ∧ claim.candidate_ids = [] then
    throw (claim.id ++ ": ".toList ++ claim.status.text ++ " requires candidate links".toList)

/-- A reference as an f-string shows it. -/
def BookEvidenceRef.text (ref : BookEvidenceRef) : Text :=
  "node=".toList ++ Text.repr ref.node ++ " start_line=".toList ++ Nat.toDigits 10 ref.start_line ++
    " end_line=".toList ++ Nat.toDigits 10 ref.end_line

/-- One reference of `_check_candidate_verdict`. -/
def checkRef (book_context : List BookContext) (id : Text) (ref : BookEvidenceRef) : Except Text Unit :=
  match book_context.filter fun context => context.node = ref.node with
  | [context] =>
    if ¬ (context.start_line ≤ ref.start_line ∧ ref.start_line ≤ ref.end_line ∧ ref.end_line ≤ context.end_line) then
      throw (id ++ ": book evidence range outside context or reversed: ".toList ++ ref.text)
    else
      let lines := ((Text.splitlines context.text).drop (ref.start_line - context.start_line)).take
        (ref.end_line - ref.start_line + 1)
      if lines.length ≠ ref.end_line - ref.start_line + 1 ∨ Text.strip (['\n'].intercalate lines) = [] then
        throw (id ++ ": book evidence range is unseen or blank: ".toList ++ ref.text)
      else pure ()
  | _ => throw (id ++ ": book evidence node is absent or ambiguous: ".toList ++ ref.node)

def _check_candidate_verdict (packet : PacketBody) (candidate : CandidateVerdict) : Except Text Unit := do
  if candidate.book_evidence ≠ [] ∧ candidate.status ≠ .covered then
    throw (candidate.id ++ ": ".toList ++ candidate.status.text ++ " cannot carry book evidence".toList)
  if ¬ candidate.book_evidence.Nodup then throw (candidate.id ++ ": duplicate book evidence".toList)
  candidate.book_evidence.forM (checkRef packet.book_context candidate.id)

def _check_candidate_links (candidate : CandidateVerdict) (links supported_claims : List Text) : Except Text Unit := do
  if candidate.status = .covered ∧ (∀ x ∈ supported_claims, x ∉ links) ∧ candidate.book_evidence = [] then
    throw (candidate.id ++ ": covered requires a supported or partial claim link or book evidence".toList)
  if candidate.status = .implementation_detail ∧ links ≠ [] then
    throw (candidate.id ++ ": implementation_detail cannot be linked by claims ".toList ++ shown (sortedTexts links))

/-- The claims whose verdicts link a candidate: `linked_claims` and `links`. -/
def linksOf (claims : List ClaimVerdict) (candidate_id : Text) : List Text :=
  (claims.filter fun claim => candidate_id ∈ claim.candidate_ids).map (·.id)

/-- `supported_claims` and `supporting` -/
def supportedOf (claims : List ClaimVerdict) : List Text := (claims.filter fun claim => claim.status.supports).map (·.id)

section Digests

variable (packet_digest : PacketBody → Text)

def validate_verdicts (packet : AuditPacket) (verdicts : AuditVerdicts) : Except Text AuditReport := do
  if packet.digest ≠ packet_digest packet.toPacketBody then
    throw "packet content digest does not match its contents".toList
  _exact_ids (verdicts.claims.map (·.id)) packet.claim_ids "claim verdicts".toList
  _exact_ids (verdicts.candidates.map (·.id)) packet.candidate_ids "candidate verdicts".toList
  verdicts.claims.forM fun claim => _check_claim_verdict claim packet.candidate_ids
  verdicts.candidates.forM fun candidate => do
    _check_candidate_verdict packet.toPacketBody candidate
    _check_candidate_links candidate (linksOf verdicts.claims candidate.id) (supportedOf verdicts.claims)
  pure ⟨packet_digest packet.toPacketBody, verdicts, packet.limitations ++
    [("Validated book evidence confirms externally reviewed documented source coverage, not QA proof; " ++
      "span resolution does not establish semantic correctness.").toList]⟩

end Digests

/-! ## The memo -/

section Keys

variable (sha : List Text → Text)

def claim_digest (claim : BookClaim) : Text :=
  sha ([claim.id, claim.node, claim.path, claim.kind, claim.text, claim.title] ++ claim.citations)

def candidate_digest (candidate : BehaviorEvidence) : Text :=
  sha ([candidate.id, candidate.path, candidate.symbol, candidate.kind.text, candidate.text, candidate.snippet,
    candidate.framework] ++ candidate.conditions)

def _source_parts (packet : PacketBody) : List Text :=
  packet.source_context.flatMap (fun c => ["source".toList, c.path, c.symbol, c.text]) ++
    packet.support_context.flatMap fun c => ["support".toList, c.path, c.text]

/-- The parts of the book excerpts, or of those of one node. -/
def _book_parts (packet : PacketBody) (node : Option Text) : List Text :=
  (packet.book_context.filter fun book => node.isNone || node = some book.node).flatMap fun book =>
    ["book".toList, book.node, book.path, book.text]

def claim_context_digest (packet : PacketBody) (claim : BookClaim) : Text :=
  sha (_source_parts packet ++ _book_parts packet (some claim.node))

def candidate_context_digest (packet : PacketBody) : Text := sha (_source_parts packet ++ _book_parts packet none)

def _pool (digests : List Text) : Text := sha (sortedTexts digests)

def NAMESPACE : Text := "behavior-verdict".toList

variable (epoch contract_digest : Text)

/-- `IndexStore.content_key` -/
def content_key (material : List Text) : Text := sha (epoch :: material)

def claimKey (packet : PacketBody) (claim : BookClaim) : Text :=
  content_key sha epoch [NAMESPACE, "claim".toList, contract_digest, claim_digest sha claim,
    _pool sha (packet.candidates.map (candidate_digest sha)), claim_context_digest sha packet claim]

def candidateKey (packet : PacketBody) (candidate : BehaviorEvidence) : Text :=
  content_key sha epoch [NAMESPACE, "candidate".toList, contract_digest, candidate_digest sha candidate,
    _pool sha (packet.claims.map (claim_digest sha)), candidate_context_digest sha packet]

/-- `VerdictMemo.keys`: two dicts, in which the last of equal ids counts. -/
def keys (packet : PacketBody) : (Text → Option Text) × (Text → Option Text) :=
  (fun id => (packet.claims.reverse.find? fun claim => claim.id = id).map (claimKey sha epoch contract_digest packet),
    fun id => (packet.candidates.reverse.find? fun candidate => candidate.id = id).map
      (candidateKey sha epoch contract_digest packet))

end Keys

/-- What an entry of the index holds. The lines of a reference are relative to its node. -/
inductive Stored where
  | claim (status : ClaimStatus) (explanation : Text) (candidate_ids : List Text)
  | candidate (status : CandidateStatus) (explanation : Text) (book_evidence : List (Text × ℤ × ℤ))
  | damaged

/-- An index that keeps what is put into it. -/
abbrev IndexStore := Text → Option Stored

structure MemoRecall where
  claims : List ClaimVerdict := []
  candidates : List CandidateVerdict := []
deriving DecidableEq

def MemoRecall.covers (recalled : MemoRecall) (packet : PacketBody) : Bool :=
  packet.claim_ids.all (recalled.claims.map (·.id)).contains &&
    packet.candidate_ids.all (recalled.candidates.map (·.id)).contains

/-- The first line of each node, the last of equal nodes counting: `contexts`. -/
def contexts (packet : PacketBody) (node : Text) : Option ℕ :=
  (packet.book_context.reverse.find? fun book => book.node = node).map (·.start_line)

def _claim_from (claim_id : Text) (stored : Option Stored) (candidate_ids : List Text) : Option ClaimVerdict :=
  match stored with
  | some (.claim status explanation links) =>
    if ∀ x ∈ links, x ∈ candidate_ids then some ⟨claim_id, status, links, explanation⟩ else none
  | _ => none

/-- A reference of an entry, moved to where its node stands now; a line below one is refused. -/
def refFrom (packet : PacketBody) (ref : Text × ℤ × ℤ) : Option BookEvidenceRef := do
  let first ← contexts packet ref.1
  let (start, stop) := (first + ref.2.1, first + ref.2.2)
  if 1 ≤ start ∧ 1 ≤ stop then some ⟨ref.1, start.toNat, stop.toNat⟩ else none

def _candidate_from (packet : PacketBody) (candidate_id : Text) (stored : Option Stored) : Option CandidateVerdict :=
  match stored with
  | some (.candidate status explanation evidence) =>
    (evidence.mapM (refFrom packet)).map fun refs => ⟨candidate_id, status, refs, explanation⟩
  | _ => none

section Memo

variable (sha : List Text → Text) (epoch contract_digest : Text)

def «recall» (store : IndexStore) (packet : PacketBody) : MemoRecall :=
  let (claim_keys, candidate_keys) := keys sha epoch contract_digest packet
  { claims := packet.claims.filterMap fun claim =>
      _claim_from claim.id ((claim_keys claim.id).bind store) packet.candidate_ids
    candidates := packet.candidates.filterMap fun candidate =>
      _candidate_from packet candidate.id ((candidate_keys candidate.id).bind store) }

/-- `store.put_key(key, value)` -/
def put_key (key : Text) (value : Stored) (store : IndexStore) : IndexStore := Function.update store key (some value)

/-- `d[key]`, or a `KeyError`. -/
def item {α : Type} (d : Text → Option α) (key : Text) : Except Text α := (d key).elim (throw (Text.repr key)) pure

/-- A reference, relative to the first line of its node. -/
def relative (packet : PacketBody) (ref : BookEvidenceRef) : Except Text (Text × ℤ × ℤ) := do
  let first ← item (contexts packet) ref.node
  pure (ref.node, (ref.start_line : ℤ) - first, (ref.end_line : ℤ) - first)

def rememberClaim (packet : PacketBody) (store : IndexStore) (claim : ClaimVerdict) : Except Text IndexStore := do
  let key ← item (keys sha epoch contract_digest packet).1 claim.id
  pure (put_key key (.claim claim.status claim.explanation claim.candidate_ids) store)

def rememberCandidate (packet : PacketBody) (store : IndexStore) (candidate : CandidateVerdict) :
    Except Text IndexStore := do
  let key ← item (keys sha epoch contract_digest packet).2 candidate.id
  let evidence ← candidate.book_evidence.mapM (relative packet)
  pure (put_key key (.candidate candidate.status candidate.explanation evidence) store)

/-- `VerdictMemo.remember`, less the count. -/
def remember (packet : AuditPacket) (report : AuditReport) (store : IndexStore) : Except Text IndexStore := do
  if report.packet_digest ≠ packet.digest then throw "report was validated against another packet".toList
  let store ← report.verdicts.claims.foldlM (rememberClaim sha epoch contract_digest packet.toPacketBody) store
  report.verdicts.candidates.foldlM (rememberCandidate sha epoch contract_digest packet.toPacketBody) store

end Memo

/-! ## Salvage, reduction, merge -/

/-- Keeps a verdict on an item of the packet that has none yet, if it answers for itself. -/
def answer {α : Type} (id : α → Text) (ids : List Text) (ok : α → Bool) (kept : List α) (x : α) : List α :=
  if id x ∉ ids ∨ id x ∈ kept.map id then kept else if ok x then kept ++ [x] else kept

def answeredClaims (packet : PacketBody) (claims : List ClaimVerdict) : List ClaimVerdict :=
  claims.foldl (answer ClaimVerdict.id packet.claim_ids fun claim =>
    (_check_claim_verdict claim packet.candidate_ids).isOk) []

def answeredCandidates (packet : PacketBody) (candidates : List CandidateVerdict) : List CandidateVerdict :=
  candidates.foldl (answer CandidateVerdict.id packet.candidate_ids fun candidate =>
    (_check_candidate_verdict packet candidate).isOk) []

/-- The candidates whose verdict the claims of the reply contradict. -/
def conflicting (packet : PacketBody) (claims : List ClaimVerdict) (candidates : List CandidateVerdict) :
    List CandidateVerdict :=
  let whole := packet.claim_ids.all (claims.map (·.id)).contains
  candidates.filter fun candidate =>
    !(candidate.status = .covered && !whole) &&
      !(_check_candidate_links candidate (linksOf claims candidate.id) (supportedOf claims)).isOk

section Merge

variable (packet_digest : PacketBody → Text)

def salvage_verdicts (packet : AuditPacket) (verdicts : AuditVerdicts) : Except Text (MemoRecall × List Text) := do
  if packet.digest ≠ packet_digest packet.toPacketBody then
    throw "packet content digest does not match its contents".toList
  let claims := answeredClaims packet.toPacketBody verdicts.claims
  let candidates := answeredCandidates packet.toPacketBody verdicts.candidates
  let conflicts := conflicting packet.toPacketBody claims candidates
  let conflicting_claims := conflicts.flatMap fun candidate => linksOf claims candidate.id
  let claims := claims.filter fun claim => claim.id ∉ conflicting_claims
  let candidates := candidates.filter fun candidate => candidate.id ∉ conflicts.map (·.id)
  let owing := sortedTexts ((packet.claim_ids.filter (· ∉ claims.map (·.id))) ++
    packet.candidate_ids.filter (· ∉ candidates.map (·.id))).dedup
  let recalled : MemoRecall :=
    { claims := Keyed.pick ClaimVerdict.id claims packet.claim_ids
      candidates := Keyed.pick CandidateVerdict.id candidates packet.candidate_ids }
  pure (recalled, owing)

/-- The claims that have no recalled verdict. -/
def missedClaims (packet : PacketBody) (recalled : MemoRecall) : List BookClaim :=
  packet.claims.filter fun claim => claim.id ∉ recalled.claims.map (·.id)

/-- The candidates that are reviewed: all of them beside a missed claim, else those that are missed. -/
def missedCandidates (packet : PacketBody) (recalled : MemoRecall) : List BehaviorEvidence :=
  if missedClaims packet recalled ≠ [] then packet.candidates
  else packet.candidates.filter fun candidate => candidate.id ∉ recalled.candidates.map (·.id)

def reduce_packet (packet : AuditPacket) (recalled : MemoRecall) : Option AuditPacket :=
  if recalled.covers packet.toPacketBody then none
  else
    let claims := missedClaims packet.toPacketBody recalled
    let candidates := missedCandidates packet.toPacketBody recalled
    if claims.length = packet.claims.length ∧ candidates.length = packet.candidates.length then some packet
    else
      let reduced : PacketBody := { packet.toPacketBody with
        claims, candidates
        omitted_claims := packet.omitted_claims + packet.claims.length - claims.length
        omitted_candidates := packet.omitted_candidates + packet.candidates.length - candidates.length
        limitations := packet.limitations ++
          ["Reduced packet: items with a memoized verdict are omitted; judge what is present.".toList] }
      some { reduced with digest := packet_digest reduced }

/-- What the claims make of a candidate's verdict. -/
def settle (claims : List ClaimVerdict) (verdict : CandidateVerdict) : CandidateVerdict :=
  let links := linksOf claims verdict.id
  let supporting := linksOf (claims.filter fun claim => claim.status.supports) verdict.id
  let joined := fun ids => [',', ' '].intercalate (sortedTexts ids)
  if verdict.status = .mixed then verdict
  else if verdict.status ≠ .covered ∧ supporting ≠ [] then
    { verdict with
      status := .covered, book_evidence := []
      explanation := "Covered by ".toList ++ joined supporting ++ "; reviewed apart from that claim as: ".toList ++
        verdict.explanation }
  else if verdict.status = .implementation_detail ∧ links ≠ [] then
    { verdict with
      status := .unresolved
      explanation := "Linked by ".toList ++ joined links ++
        " without support; reviewed apart from that claim as: ".toList ++ verdict.explanation }
  else verdict

/-- The recalled verdicts, with the reviewer's in their place. -/
def mergedClaims (recalled : MemoRecall) (reviewed : Option AuditVerdicts) : List ClaimVerdict :=
  ((reviewed.map (·.claims)).getD []).foldl (Keyed.upsert ClaimVerdict.id)
    (recalled.claims.foldl (Keyed.upsert ClaimVerdict.id) [])

def mergedCandidates (recalled : MemoRecall) (reviewed : Option AuditVerdicts) : List CandidateVerdict :=
  ((reviewed.map (·.candidates)).getD []).foldl (Keyed.upsert CandidateVerdict.id)
    (recalled.candidates.foldl (Keyed.upsert CandidateVerdict.id) [])

/-- The verdict of the report on a candidate. -/
def settled (claims : List ClaimVerdict) (candidates : List CandidateVerdict) (candidate : BehaviorEvidence) :
    Except Text CandidateVerdict :=
  match Keyed.get CandidateVerdict.id candidates candidate.id with
  | none => throw (candidate.id ++ ": no recalled or reviewed verdict".toList)
  | some verdict => pure (settle claims verdict)

def merge_verdicts (packet : AuditPacket) (recalled : MemoRecall) (reviewed : Option AuditVerdicts) :
    Except Text AuditReport := do
  let claims := mergedClaims recalled reviewed
  let merged ← packet.candidates.mapM (settled claims (mergedCandidates recalled reviewed))
  validate_verdicts packet_digest packet ⟨Keyed.pick ClaimVerdict.id claims packet.claim_ids, merged⟩

end Merge

end Stablemate.Behavior
