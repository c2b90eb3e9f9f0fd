import Mathlib.Data.List.Dedup
import Stablemate.Lib.Tiling
import Stablemate.Model.Behavior
import Stablemate.Model.Refs

/-!
# Preparing a two-way review (`ostler/behavior.py`: `build_audit_packets`)

The candidates of the source and the claims of the book are grouped by file. A file that the book
does not know is a finding; any other gives packets, each with some of its candidates beside some
of its claims. A packet that is too long to send is cut in half along one side.

`dump_length`, `digest` and `packet_digest` are parameters, for pydantic writes the JSON that they
read; so are `isupper`, a table of Unicode, `leading_code_spans` and the files under `root`.
-/

namespace Stablemate.Behavior

/-! ## Wire contracts -/

inductive FileStatus where
  | parsed | unsupported | parse_error | unreadable
deriving DecidableEq

def FileStatus.text : FileStatus → Text
  | parsed => "parsed".toList
  | unsupported => "unsupported".toList
  | parse_error => "parse_error".toList
  | unreadable => "unreadable".toList

structure EvidenceFile where
  path : Text
  status : FileStatus
  source_digest : Text := []
  message : Text := []

structure EvidenceInventory where
  grammar_version : Text := []
  scope : List Text
  files : List EvidenceFile
  candidates : List BehaviorEvidence
  limitations : List Text
  excluded_paths : List Text := []
  source_context : List SourceContext := []
  context_paths : List Text := []
  context_files : List EvidenceFile := []
  support_context : List SourceExcerpt := []
  /-- A path is `Nonblank`. -/
  files_nonblank : ∀ file ∈ files, file.path ≠ []
  candidates_nonblank : ∀ candidate ∈ candidates, candidate.path ≠ []

/-- A plain sequence of claims is read as one without the other fields. -/
structure BookClaims where
  claims : List BookClaim
  limitations : List Text := []
  cited_paths : List Text := []
  cited_symbols : List Text := []

structure UndocumentedFile where
  path : Text
  candidate_count : ℕ
  exported_symbols : List Text
  first_lines : List ℕ

/-- `Literal[1, "all"]` -/
inductive Tier where
  | one | all
deriving DecidableEq

structure AuditPreparation where
  inventory : EvidenceInventory
  packets : List AuditPacket
  selected_candidates : ℕ
  selected_claims : ℕ
  undocumented : List UndocumentedFile
  tier : Tier
  deferred_candidates : ℕ
  out_of_scope_claims : ℕ

/-- What `build_audit_packets` raises: a `ValueError` of its own, or the `ValidationError` of an
excerpt whose lines are not those that it advertises. -/
inductive Refusal where
  | value (message : Text)
  | validation
deriving DecidableEq

/-! ## Symbols -/

section Symbols

variable (isupper : Char → Bool)

def moduleSymbol : Text := "<module>".toList

def exported_symbol (path symbol : Text) (exported : Option Bool) : Bool :=
  if symbol = moduleSymbol then false
  else exported.getD
    (if (".go".toList).isSuffixOf path then (symbol.splitOn '.').all fun part => part.head?.any isupper
    else (symbol.splitOn '.').all fun part => part ≠ [] && part.head? ≠ some '_')

def cited_symbol (path symbol : Text) (cited_symbols : List Text) : Bool :=
  let parts := symbol.splitOn '.'
  List.contains cited_symbols path ||
    (List.range parts.length).any fun i =>
      List.contains cited_symbols (path ++ "::".toList ++ ['.'].intercalate (parts.take (i + 1)))

def candidate_tier (path symbol : Text) (cited_symbols : List Text) (exported : Option Bool) : ℕ :=
  if symbol = moduleSymbol || exported_symbol isupper path symbol exported || cited_symbol path symbol cited_symbols then 1
  else 2

/-- The order of `(item.start_line, item.start_column, item.id)`. -/
def Earlier (x y : BehaviorEvidence) : Prop :=
  x.start_line < y.start_line ∨ (x.start_line = y.start_line ∧
    (x.start_column < y.start_column ∨ (x.start_column = y.start_column ∧ x.id ≤ y.id)))

instance : DecidableRel Earlier := fun x y => by unfold Earlier; infer_instance

/-- `first`, with one more item. -/
def noteFirst (path : Text) (first : List (Text × ℕ)) (item : BehaviorEvidence) : List (Text × ℕ) :=
  if exported_symbol isupper path item.symbol item.exported && !List.contains (first.map (·.1)) item.symbol then
    first ++ [(item.symbol, item.start_line)]
  else first

def undocumented_file (path : Text) (evidence : List BehaviorEvidence) : Option UndocumentedFile :=
  let first := (evidence.insertionSort Earlier).foldl (noteFirst isupper path) []
  if first = [] then none else some ⟨path, evidence.length, first.map (·.1), first.map (·.2)⟩

end Symbols

/-! ## Grouping by file -/

section Grouping

variable (isupper : Char → Bool) (tier : Tier) (cited_symbols : List Text)

def isDeferred (candidate : BehaviorEvidence) : Bool :=
  tier = .one && candidate_tier isupper candidate.path candidate.symbol cited_symbols candidate.exported = 2

/-- The candidates that are not deferred. -/
def keptCandidates (inventory : EvidenceInventory) : List BehaviorEvidence :=
  inventory.candidates.filter fun candidate => !isDeferred isupper tier cited_symbols candidate

/-- `deferred[module]` -/
def deferredAt (inventory : EvidenceInventory) (module : Text) : ℕ :=
  (inventory.candidates.filter fun candidate => isDeferred isupper tier cited_symbols candidate && candidate.path = module).length

/-- The keys of `grouped`, before the claims are placed. -/
def groupedPaths (inventory : EvidenceInventory) : List Text :=
  (inventory.files.map (·.path) ++ (keptCandidates isupper tier cited_symbols inventory).map (·.path)).dedup

/-- `grouped[module]`, sorted. No candidate has the blank path, so a blank entry forgets none. -/
def evidenceAt (inventory : EvidenceInventory) (module : Text) : List BehaviorEvidence :=
  ((keptCandidates isupper tier cited_symbols inventory).filter fun candidate => candidate.path = module).insertionSort Earlier

end Grouping

/-! ## Claims by file -/

section Claims

variable (leading_code_spans : Text → List Text) (root : Option (Text → Bool)) (grouped : List Text)

/-- What one citation is for a claim: the file that it finds, and whether it names a file elsewhere. -/
def placeCitation (citation : Text) : Option Text × Bool :=
  match Refs.parse_code_ref citation with
  | .error _ => (none, false)
  | .ok ref =>
    let path := Refs.normpath ref.path
    (if ref.repository = [] ∧ path ∈ grouped then some path else none, ref.repository.isEmpty && root.any fun is_file => is_file path)

/-- `matches`, as the loop reads it. -/
def matchesOf (claim : BookClaim) : List Text :=
  sortedTexts ((Refs.code_refs leading_code_spans claim.citations).filterMap fun c => (placeCitation root grouped c).1).dedup

def outOfScope (claim : BookClaim) : Bool :=
  let elsewhere := (Refs.code_refs leading_code_spans claim.citations).map fun c => (placeCitation root grouped c).2
  (matchesOf leading_code_spans root grouped claim).isEmpty && !elsewhere.isEmpty && elsewhere.all id

/-- The files whose packets carry a claim; the blank one is the ungrounded packet. -/
def modulesOf (claim : BookClaim) : List Text :=
  if outOfScope leading_code_spans root grouped claim then []
  else if matchesOf leading_code_spans root grouped claim = [] then [[]]
  else matchesOf leading_code_spans root grouped claim

/-- `claims_by_file[module]` -/
def claimsAt (ordered_claims : List BookClaim) (module : Text) : List BookClaim :=
  ordered_claims.filter fun claim => module ∈ modulesOf leading_code_spans root grouped claim

end Claims

/-! ## Excerpts -/

def SourceContext.encloses (other context : SourceContext) : Bool :=
  other.path = context.path && other.start_line ≤ context.start_line && context.end_line ≤ other.end_line &&
    (other.start_line, other.end_line) ≠ (context.start_line, context.end_line)

def _outermost_contexts (contexts : List SourceContext) : List SourceContext :=
  (contexts.zipIdx.filter fun (context, index) =>
    !(contexts.any (·.encloses context) || (contexts.take index).any fun other =>
      other.path = context.path && (other.start_line, other.end_line) = (context.start_line, context.end_line))).map (·.1)

/-- `text.splitlines(keepends=True)`, `line` being the reversed text of the line that is read. -/
def keptLinesFrom (line : Text) : Text → List Text
  | [] => if line = [] then [] else [line.reverse]
  | '\r' :: '\n' :: cs => ('\n' :: '\r' :: line).reverse :: keptLinesFrom [] cs
  | c :: cs => if Text.isBreak c then (c :: line).reverse :: keptLinesFrom [] cs else keptLinesFrom (c :: line) cs

/-- A boundary ends the line that is read, and belongs to it. -/
theorem keptLinesFrom_break {c : Char} {line cs : Text} (hc : Text.isBreak c = true)
    (hpair : ∀ rest, c = '\r' → cs ≠ '\n' :: rest) :
    keptLinesFrom line (c :: cs) = (c :: line).reverse :: keptLinesFrom [] cs := by
  rw [keptLinesFrom.eq_3 line c cs fun rest h h' => hpair rest h h', if_pos hc]

theorem keptLinesFrom_plain {c : Char} {line cs : Text} (hc : Text.isBreak c = false) :
    keptLinesFrom line (c :: cs) = keptLinesFrom (c :: line) cs := by
  have hne : c ≠ '\r' := by
    rintro rfl
    exact absurd hc (by decide)
  rw [keptLinesFrom.eq_3 line c cs fun rest h _ => hne h, if_neg (by simp [hc])]

/-- `by_node`, with one more context of a claim at a line. -/
def noteContext (by_node : List (BookContext × List ℕ)) (found : BookContext × ℕ) : List (BookContext × List ℕ) :=
  if by_node.any fun entry => entry.1.node = found.1.node then
    by_node.map fun entry => if entry.1.node = found.1.node then (entry.1, entry.2 ++ [found.2]) else entry
  else by_node ++ [(found.1, [found.2])]

instance (e : FileExcerpt) : Decidable e.Bounded :=
  decidable_of_iff (e.text ≠ [] ∧ 1 ≤ e.start_line ∧ 1 ≤ e.end_line ∧
      (e.end_line : ℤ) - e.start_line + 1 = max 1 (lineCount e.text))
    ⟨fun h => ⟨h.1, h.2.1, h.2.2.1, h.2.2.2⟩, fun h => ⟨h.text, h.start, h.stop, h.span⟩⟩

/-- One excerpt, cut to what is around some lines, and validated again with its packet. -/
def windowed (context_lines : ℕ) (context : BookContext) (lines : List ℕ) : Except Refusal BookContext :=
  let start := max context.start_line ((lines.min?).getD 0 - context_lines)
  let stop := min context.end_line ((lines.max?).getD 0 + context_lines)
  if start = context.start_line ∧ stop = context.end_line then pure context
  else
    let kept := ((keptLinesFrom [] context.text).drop (start - context.start_line)).take (stop + 1 - start)
    let excerpt : FileExcerpt :=
      { context.toFileExcerpt with start_line := start, end_line := stop, text := kept.flatten }
    if h : excerpt.Bounded then pure { excerpt with node := context.node, bounded := h }
    else throw .validation

def _windowed_book_context (chunk : List BookClaim) (context_lines : ℕ) : Except Refusal (List BookContext) :=
  ((chunk.flatMap fun claim => claim.context.map fun context => (context, claim.line)).foldl noteContext []).mapM
    fun entry => windowed context_lines entry.1 entry.2

/-! ## Packets -/

/-- What the packets of one file share. -/
structure Setting where
  inventory : EvidenceInventory
  inventory_digest : Text
  module : Text
  group : Group
  limitations : List Text
  selected_candidates : ℕ
  selected_claims : ℕ
  context_lines : ℕ

section Packets

variable (packet_digest : PacketBody → Text) (dump_length : AuditPacket → ℕ)

/-- The excerpts around some candidates of a file. -/
def contextOf (inventory : EvidenceInventory) (module : Text) (candidates : List BehaviorEvidence) : List SourceContext :=
  _outermost_contexts (inventory.source_context.filter fun context =>
    context.path = module && candidates.any fun candidate => context.symbol = moduleSymbol ||
      candidate.symbol = context.symbol || (context.symbol ++ ['.']).isPrefixOf candidate.symbol)

/-- `claim.model_copy(update={"context": ()})` -/
def BookClaim.bare (claim : BookClaim) : BookClaim := { claim with context := [] }

def packetOf (setting : Setting) (candidates : List BehaviorEvidence) (chunk : List BookClaim) : Except Refusal AuditPacket := do
  let book_context ← _windowed_book_context chunk setting.context_lines
  let packet : PacketBody :=
    { group := setting.group, module := setting.module, symbol := []
      scope := if setting.module = [] then [] else [setting.module]
      inventory_digest := setting.inventory_digest, candidates
      claims := chunk.map BookClaim.bare
      source_context := contextOf setting.inventory setting.module candidates
      book_context
      support_context := setting.inventory.support_context.eraseDups
      omitted_candidates := setting.selected_candidates - candidates.length
      omitted_claims := setting.selected_claims - chunk.length
      limitations := setting.limitations }
  pure { packet with digest := packet_digest packet }

def oversized (module : Text) (max_chars : ℕ) : Text :=
  "oversized packet for ".toList ++ (if module = [] then "ungrounded book".toList else module) ++
    ": cannot fit max_chars=".toList ++ Nat.toDigits 10 max_chars ++ " without truncation".toList

/-- `while pending:` -/
def splitting (setting : Setting) (max_chars : ℕ) :
    List (List BehaviorEvidence × List BookClaim) → Except Refusal (List AuditPacket)
  | [] => pure []
  | (candidates, chunk) :: pending => do
    let packet ← packetOf packet_digest setting candidates chunk
    if dump_length packet ≤ max_chars then return packet :: (← splitting setting max_chars pending)
    else if _ : 1 < candidates.length then
      let half := candidates.length / 2
      splitting setting max_chars ((candidates.take half, chunk) :: (candidates.drop half, chunk) :: pending)
    else if _ : 1 < chunk.length then
      let half := chunk.length / 2
      splitting setting max_chars ((candidates, chunk.take half) :: (candidates, chunk.drop half) :: pending)
    else throw (.value (oversized setting.module max_chars))
termination_by pending => (pending.map weight).sum
decreasing_by
  all_goals simp only [List.map_cons, List.sum_cons]
  · have hpos := weight_pos (candidates, chunk)
    omega
  · have hless := weight_halves_left chunk ‹_›
    omega
  · have hless := weight_halves_right candidates ‹_›
    omega

/-- `[…] or [()]` -/
def orEmpty {α : Type} (parts : List (List α)) : List (List α) := if parts = [] then [[]] else parts

/-- `pending`, before the loop. -/
def batches (max_items : ℕ) (evidence : List BehaviorEvidence) (local_claims : List BookClaim) :
    List (List BehaviorEvidence × List BookClaim) :=
  let size := if local_claims = [] then max_items else max_items / 2
  let claim_size := if evidence ≠ [] ∧ local_claims ≠ [] then max_items - size else max_items
  (orEmpty (chunks size evidence)).flatMap fun candidates =>
    (orEmpty (chunks claim_size local_claims)).map fun chunk => (candidates, chunk)

end Packets

/-! ## Limitations -/

/-- The file that a note of the inventory is about. -/
def ownerOf (inventory : EvidenceInventory) (note : Text) : Option Text :=
  (inventory.files.find? fun file => (file.path ++ "::".toList).isPrefixOf note).map (·.path)

/-- `files_by_path.get(module)`: the last of equal paths counts. -/
def fileAt (inventory : EvidenceInventory) (module : Text) : Option EvidenceFile :=
  inventory.files.reverse.find? fun file => file.path = module

def scopeLimitations (out_of_scope : ℕ) : List Text :=
  if out_of_scope = 0 then []
  else [Nat.toDigits 10 out_of_scope ++ (" claims cite only files outside the selected source scope and are not in " ++
    "this audit; select those files to review them.").toList]

/-- The limitations of the packets of one file. -/
def limitationsAt (inventory : EvidenceInventory) (book_limitations : List Text) (out_of_scope deferred : ℕ) (module : Text)
    (evidence : List BehaviorEvidence) (local_claims : List BookClaim) : List Text :=
  (inventory.limitations.filter fun note => ownerOf inventory note = none) ++
    (inventory.limitations.filter fun note => ownerOf inventory note = some module) ++
    book_limitations ++ scopeLimitations out_of_scope ++
    (match fileAt inventory module with
      | some file =>
        if file.status ≠ .parsed then [file.path ++ ": ".toList ++ file.status.text ++ ": ".toList ++ file.message]
        else if evidence = [] ∧ deferred = 0 then
          ["No behavior candidates extracted from ".toList ++ module ++ "; this is not proof of no behavior.".toList]
        else []
      | none => []) ++
    (if deferred = 0 then [] else
      [module ++ ": ".toList ++ Nat.toDigits 10 deferred ++ (" tier-2 candidates (private, uncited symbols) are not in " ++
        "this packet; `ostler audit --tier all` reviews them.").toList]) ++
    if module = [] ∧ local_claims ≠ [] then
      [("Ungrounded book-only packet: citations are absent, malformed, foreign, or outside the selected files. " ++
        "Search source before deciding support.").toList]
    else []

/-! ## The whole preparation -/

/-- The arguments of `build_audit_packets` and what it calls. -/
structure AuditCall where
  isupper : Char → Bool
  leading_code_spans : Text → List Text
  digest : EvidenceInventory → Text
  packet_digest : PacketBody → Text
  dump_length : AuditPacket → ℕ
  inventory : EvidenceInventory
  book : BookClaims
  max_items : ℤ := 80
  max_chars : ℤ := 60000
  skip_undocumented : Bool := true
  tier : Tier := .one
  root : Option (Text → Bool) := none
  context_lines : ℤ := 40

namespace AuditCall

variable (call : AuditCall)

def ordered : List BookClaim := call.book.claims.insertionSort fun x y => x.id ≤ y.id

def deferred (candidate : BehaviorEvidence) : Bool := isDeferred call.isupper call.tier call.book.cited_symbols candidate

/-- The keys of `grouped` when the claims are placed. -/
def grouped : List Text := groupedPaths call.isupper call.tier call.book.cited_symbols call.inventory

def placed (claim : BookClaim) : List Text := modulesOf call.leading_code_spans call.root call.grouped claim

def isOutOfScope (claim : BookClaim) : Bool := outOfScope call.leading_code_spans call.root call.grouped claim

def evidence (module : Text) : List BehaviorEvidence :=
  evidenceAt call.isupper call.tier call.book.cited_symbols call.inventory module

def localClaims (module : Text) : List BookClaim :=
  claimsAt call.leading_code_spans call.root call.grouped call.ordered module

def deferredIn (module : Text) : ℕ := deferredAt call.isupper call.tier call.book.cited_symbols call.inventory module

def outOfScopeCount : ℕ := (call.ordered.filter call.isOutOfScope).length

/-- `sorted(grouped)`, with the blank file where it is added. -/
def modules : List Text :=
  sortedTexts (call.grouped ++ if call.localClaims [] ≠ [] ∨ call.grouped = [] then [[]] else [])

/-- `selected`: the candidates less those that are deferred. -/
def selectedCount : ℕ := call.inventory.candidates.length - (call.inventory.candidates.filter call.deferred).length

/-- How many claims are in scope. -/
def selectedClaims : ℕ := (call.ordered.filter fun claim => call.placed claim ≠ []).length

def setting (module : Text) : Setting :=
  { inventory := call.inventory, inventory_digest := call.digest call.inventory, module
    group := if module ≠ [] then .source_file else if call.localClaims module ≠ [] then .ungrounded_book else .empty_scope
    limitations := limitationsAt call.inventory call.book.limitations call.outOfScopeCount (call.deferredIn module) module
      (call.evidence module) (call.localClaims module)
    selected_candidates := call.selectedCount, selected_claims := call.selectedClaims
    context_lines := call.context_lines.toNat }

/-- The finding of a file that has candidates and that no claim cites. -/
def finding (module : Text) : Option UndocumentedFile :=
  if call.skip_undocumented ∧ ((fileAt call.inventory module).any fun file => file.status = .parsed) ∧
      call.evidence module ≠ [] ∧ call.localClaims module = [] ∧ module ∉ call.book.cited_paths then
    undocumented_file call.isupper module (call.evidence module)
  else none

/-- One turn of the loop over the files. -/
def review (module : Text) : Except Refusal (List UndocumentedFile × List AuditPacket) :=
  match call.finding module with
  | some found => pure ([found], [])
  | none =>
    if call.deferredIn module ≠ 0 ∧ call.evidence module = [] ∧ call.localClaims module = [] then pure ([], [])
    else do
      let packets ← splitting call.packet_digest call.dump_length (call.setting module) call.max_chars.toNat
        (batches call.max_items.toNat (call.evidence module) (call.localClaims module))
      pure ([], packets)

end AuditCall

/-- A check of `_exact_ids`, as `build_audit_packets` raises it. -/
def distinctIds (ids : List Text) (label : Text) : Except Refusal Unit :=
  match _exact_ids ids ids label with
  | .ok () => pure ()
  | .error message => throw (.value message)

def build_audit_packets (call : AuditCall) : Except Refusal AuditPreparation := do
  if call.max_items < 2 then throw (.value "max_items must be at least 2".toList)
  if call.max_chars < 1 then throw (.value "max_chars must be positive".toList)
  if call.context_lines < 1 then throw (.value "context_lines must be positive".toList)
  distinctIds (call.ordered.map (·.id)) "input claims".toList
  distinctIds (call.inventory.candidates.map (·.id)) "input candidates".toList
  let turns ← call.modules.mapM call.review
  pure
    { inventory := call.inventory
      packets := turns.flatMap (·.2)
      selected_candidates := call.selectedCount
      selected_claims := call.selectedClaims
      undocumented := turns.flatMap (·.1)
      tier := call.tier
      deferred_candidates := (call.inventory.candidates.filter call.deferred).length
      out_of_scope_claims := call.outOfScopeCount }

end Stablemate.Behavior
