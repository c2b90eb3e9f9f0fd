import Stablemate.Lib.Checks
import Stablemate.Lib.Lists
import Stablemate.Model.Behavior

/-!
# What a memo makes of reviews

* `validate_ok_iff`: what a reply must have to be accepted.
* `merge_ok_iff`: when recalled verdicts and those of a reviewer join to an accepted report.
* `Filed`: what every entry of a memo says; `filed_of_reached`: in every run.
* `memo_faithful_iff`: a memo that is asked for a packet gives a report **exactly when** it does not
  hold a covered candidate beside claims that leave it without support.
-/

namespace Stablemate.Behavior

open Checks (bind_ok_iff forM_ok_iff mapM_ok_iff)

variable {packet_digest : PacketBody → Text} {p q : AuditPacket} {v : AuditVerdicts} {report : AuditReport}

/-! ## The rules of a reply -/

theorem exact_ids_ok_iff {label : Text} {xs ys : List Text} :
    _exact_ids xs ys label = .ok () ↔ xs.Nodup ∧ ∀ x, x ∈ xs ↔ x ∈ ys := by
  unfold _exact_ids
  by_cases hnodup : xs.Nodup
  · rw [if_neg (not_not.2 hnodup)]
    split
    · rename_i hsame
      exact ⟨fun _ => ⟨hnodup, fun x => ⟨hsame.1 x, hsame.2 x⟩⟩, fun _ => rfl⟩
    · rename_i hsame
      constructor
      · intro h
        cases h
      · intro h
        exact (hsame ⟨fun x hx => (h.2 x).1 hx, fun x hx => (h.2 x).2 hx⟩).elim
  · rw [if_pos hnodup]
    constructor
    · intro h
      cases h
    · exact fun h => (hnodup h.1).elim

/-- A claim verdict that answers for itself, beside some candidates. -/
structure ClaimOk (candidate_ids : List Text) (claim : ClaimVerdict) : Prop where
  nodup : claim.candidate_ids.Nodup
  links : ∀ x ∈ claim.candidate_ids, x ∈ candidate_ids
  linked : claim.status ≠ .unresolved → claim.candidate_ids ≠ []

theorem check_claim_ok_iff {claim : ClaimVerdict} {ids : List Text} :
    _check_claim_verdict claim ids = .ok () ↔ ClaimOk ids claim := by
  unfold _check_claim_verdict
  rw [bind_ok_iff]
  constructor
  · rintro ⟨⟨⟩, hids, hlast⟩
    obtain ⟨hnodup, hsame⟩ := exact_ids_ok_iff.1 hids
    refine ⟨hnodup, fun x hx => ?_, fun hstatus hnil => ?_⟩
    · exact of_decide_eq_true (List.mem_filter.1 ((hsame x).1 hx)).2
    · rw [if_pos ⟨hstatus, hnil⟩] at hlast
      cases hlast
  · intro h
    refine ⟨(), exact_ids_ok_iff.2 ⟨h.nodup, fun x => ?_⟩, ?_⟩
    · rw [List.mem_filter]
      exact ⟨fun hx => ⟨hx, decide_eq_true (h.links x hx)⟩, fun hx => hx.1⟩
    · rw [if_neg fun hno => h.linked hno.1 hno.2]
      rfl

/-- A reference to some lines of the only excerpt of a node, not all of them blank. -/
def RefOk (contexts : List BookContext) (ref : BookEvidenceRef) : Prop :=
  ∃ context, contexts.filter (fun context => context.node = ref.node) = [context] ∧
    (context.start_line ≤ ref.start_line ∧ ref.start_line ≤ ref.end_line ∧ ref.end_line ≤ context.end_line) ∧
    (((Text.splitlines context.text).drop (ref.start_line - context.start_line)).take
      (ref.end_line - ref.start_line + 1)).length = ref.end_line - ref.start_line + 1 ∧
    Text.strip (['\n'].intercalate (((Text.splitlines context.text).drop (ref.start_line - context.start_line)).take
      (ref.end_line - ref.start_line + 1))) ≠ []

theorem checkRef_ok_iff {contexts : List BookContext} {id : Text} {ref : BookEvidenceRef} :
    checkRef contexts id ref = .ok () ↔ RefOk contexts ref := by
  unfold checkRef RefOk
  split
  · rename_i context hfilter
    constructor
    · intro h
      split at h
      · cases h
      · rename_i hrange
        dsimp only at h
        split at h
        · cases h
        · rename_i hlines
          rw [not_or, not_not] at hlines
          exact ⟨context, hfilter, not_not.1 hrange, hlines.1, hlines.2⟩
    · rintro ⟨context', hfilter', hrange, hlength, hblank⟩
      rw [hfilter] at hfilter'
      obtain rfl := List.head_eq_of_cons_eq hfilter'
      rw [if_neg (not_not.2 hrange), if_neg fun hno => hno.elim (fun h => h hlength) hblank]
      rfl
  · rename_i hfilter
    constructor
    · intro h
      cases h
    · rintro ⟨context, hone, -⟩
      exact (hfilter context hone).elim

/-- A candidate verdict that answers for itself, beside some excerpts. -/
structure CandidateOk (contexts : List BookContext) (candidate : CandidateVerdict) : Prop where
  covered : candidate.book_evidence ≠ [] → candidate.status = .covered
  nodup : candidate.book_evidence.Nodup
  refs : ∀ ref ∈ candidate.book_evidence, RefOk contexts ref

theorem check_candidate_ok_iff {body : PacketBody} {candidate : CandidateVerdict} :
    _check_candidate_verdict body candidate = .ok () ↔ CandidateOk body.book_context candidate := by
  unfold _check_candidate_verdict
  constructor
  · intro h
    dsimp only at h
    split at h
    · cases h
    · rename_i hcovered
      split at h
      · cases h
      · rename_i hnodup
        refine ⟨fun hne => ?_, not_not.1 hnodup, fun ref href => checkRef_ok_iff.1 (forM_ok_iff.1 h ref href)⟩
        by_contra hstatus
        exact hcovered ⟨hne, hstatus⟩
  · intro h
    dsimp only
    rw [if_neg fun hno => hno.2 (h.covered hno.1), if_neg (not_not.2 h.nodup)]
    exact forM_ok_iff.2 fun ref href => checkRef_ok_iff.2 (h.refs ref href)

/-- What the claims must say for a candidate's verdict to stand. -/
structure LinksOk (links supported : List Text) (candidate : CandidateVerdict) : Prop where
  covered : candidate.status = .covered → (∃ x ∈ supported, x ∈ links) ∨ candidate.book_evidence ≠ []
  detail : candidate.status = .implementation_detail → links = []

theorem check_links_ok_iff {links supported : List Text} {candidate : CandidateVerdict} :
    _check_candidate_links candidate links supported = .ok () ↔ LinksOk links supported candidate := by
  unfold _check_candidate_links
  constructor
  · intro h
    dsimp only at h
    split at h
    · cases h
    · rename_i hcovered
      split at h
      · cases h
      · rename_i hdetail
        refine ⟨fun hstatus => ?_, fun hstatus => ?_⟩
        · by_contra hno
          rw [not_or, not_not] at hno
          exact hcovered ⟨hstatus, fun x hx hlink => hno.1 ⟨x, hx, hlink⟩, hno.2⟩
        · by_contra hne
          exact hdetail ⟨hstatus, hne⟩
  · intro h
    dsimp only
    rw [if_neg, if_neg]
    · rfl
    · exact fun hno => hno.2 (h.detail hno.1)
    · rintro ⟨hstatus, hnone, hnil⟩
      rcases h.covered hstatus with ⟨x, hx, hlink⟩ | hne
      · exact hnone x hx hlink
      · exact hne hnil

/-- What a reply must have to be accepted. -/
structure Accepted (p : PacketBody) (v : AuditVerdicts) : Prop where
  claims_nodup : (v.claims.map (·.id)).Nodup
  claims : ∀ x, x ∈ v.claims.map (·.id) ↔ x ∈ p.claim_ids
  candidates_nodup : (v.candidates.map (·.id)).Nodup
  candidates : ∀ x, x ∈ v.candidates.map (·.id) ↔ x ∈ p.candidate_ids
  claim : ∀ c ∈ v.claims, ClaimOk p.candidate_ids c
  candidate : ∀ c ∈ v.candidates, CandidateOk p.book_context c
  link : ∀ c ∈ v.candidates, LinksOk (linksOf v.claims c.id) (supportedOf v.claims) c

/-- The report of an accepted reply. -/
def reportOf (packet_digest : PacketBody → Text) (p : PacketBody) (v : AuditVerdicts) : AuditReport :=
  ⟨packet_digest p, v, p.limitations ++
    [("Validated book evidence confirms externally reviewed documented source coverage, not QA proof; " ++
      "span resolution does not establish semantic correctness.").toList]⟩

/-- **A reply is accepted exactly when it keeps the rules**, of a packet that carries its own digest. -/
theorem validate_ok_iff : validate_verdicts packet_digest p v = .ok report ↔
    p.digest = packet_digest p.toPacketBody ∧ Accepted p.toPacketBody v ∧
      report = reportOf packet_digest p.toPacketBody v := by
  unfold validate_verdicts
  constructor
  · intro h
    dsimp only at h
    split at h
    · cases h
    · rename_i hdigest
      obtain ⟨⟨⟩, hclaims, h⟩ := bind_ok_iff.1 h
      obtain ⟨⟨⟩, hcandidates, h⟩ := bind_ok_iff.1 h
      obtain ⟨⟨⟩, hclaim, h⟩ := bind_ok_iff.1 h
      obtain ⟨⟨⟩, hcandidate, h⟩ := bind_ok_iff.1 h
      obtain ⟨hcn, hc⟩ := exact_ids_ok_iff.1 hclaims
      obtain ⟨hkn, hk⟩ := exact_ids_ok_iff.1 hcandidates
      have hboth : ∀ c ∈ v.candidates, _check_candidate_verdict p.toPacketBody c = .ok () ∧
          _check_candidate_links c (linksOf v.claims c.id) (supportedOf v.claims) = .ok () := by
        intro c hmem
        obtain ⟨⟨⟩, hverdict, hlinks⟩ := bind_ok_iff.1 (forM_ok_iff.1 hcandidate c hmem)
        exact ⟨hverdict, hlinks⟩
      refine ⟨not_not.1 hdigest, ⟨hcn, hc, hkn, hk, fun c hmem => ?_, fun c hmem => ?_, fun c hmem => ?_⟩, ?_⟩
      · exact check_claim_ok_iff.1 (forM_ok_iff.1 hclaim c hmem)
      · exact check_candidate_ok_iff.1 (hboth c hmem).1
      · exact check_links_ok_iff.1 (hboth c hmem).2
      · exact (Except.ok.inj h).symm
  · rintro ⟨hdigest, hv, rfl⟩
    dsimp only
    rw [if_neg (not_not.2 hdigest)]
    refine bind_ok_iff.2 ⟨(), exact_ids_ok_iff.2 ⟨hv.claims_nodup, hv.claims⟩, ?_⟩
    refine bind_ok_iff.2 ⟨(), exact_ids_ok_iff.2 ⟨hv.candidates_nodup, hv.candidates⟩, ?_⟩
    refine bind_ok_iff.2 ⟨(), forM_ok_iff.2 fun c hmem => check_claim_ok_iff.2 (hv.claim c hmem), ?_⟩
    refine bind_ok_iff.2 ⟨(), forM_ok_iff.2 fun c hmem => ?_, rfl⟩
    refine bind_ok_iff.2 ⟨(), check_candidate_ok_iff.2 (hv.candidate c hmem), ?_⟩
    exact check_links_ok_iff.2 (hv.link c hmem)

/-! ## Joining verdicts -/

/-- A candidate that some claim of these supports. -/
def Supported (claims : List ClaimVerdict) (id : Text) : Prop :=
  ∃ c ∈ claims, c.status.supports = true ∧ id ∈ c.candidate_ids

theorem mem_linksOf {claims : List ClaimVerdict} {id x : Text} :
    x ∈ linksOf claims id ↔ ∃ c ∈ claims, id ∈ c.candidate_ids ∧ c.id = x := by
  unfold linksOf
  rw [List.mem_map]
  refine exists_congr fun c => ?_
  rw [List.mem_filter, decide_eq_true_iff, and_assoc]

theorem supported_iff {claims : List ClaimVerdict} (hnodup : (claims.map (·.id)).Nodup) {id : Text} :
    (∃ x ∈ supportedOf claims, x ∈ linksOf claims id) ↔ Supported claims id := by
  unfold supportedOf
  constructor
  · rintro ⟨x, hx, hlink⟩
    obtain ⟨c, hc, rfl⟩ := List.mem_map.1 hx
    obtain ⟨hc, hstatus⟩ := List.mem_filter.1 hc
    obtain ⟨c', hc', hid, heq⟩ := mem_linksOf.1 hlink
    obtain rfl := eq_of_key hnodup hc' hc heq
    exact ⟨c', hc', hstatus, hid⟩
  · rintro ⟨c, hc, hstatus, hid⟩
    exact ⟨c.id, List.mem_map.2 ⟨c, List.mem_filter.2 ⟨hc, hstatus⟩, rfl⟩, mem_linksOf.2 ⟨c, hc, hid, rfl⟩⟩

theorem supporting_ne_nil {claims : List ClaimVerdict} {id : Text} :
    linksOf (claims.filter fun claim => claim.status.supports) id ≠ [] ↔ Supported claims id := by
  constructor
  · intro hne
    obtain ⟨x, rest, hx⟩ := List.exists_cons_of_ne_nil hne
    have hmem : x ∈ linksOf (claims.filter fun claim => claim.status.supports) id := by
      rw [hx]
      exact List.mem_cons_self
    obtain ⟨c, hc, hid, -⟩ := mem_linksOf.1 hmem
    obtain ⟨hc, hstatus⟩ := List.mem_filter.1 hc
    exact ⟨c, hc, hstatus, hid⟩
  · rintro ⟨c, hc, hstatus, hid⟩ hnil
    have hmem : c.id ∈ linksOf (claims.filter fun claim => claim.status.supports) id :=
      mem_linksOf.2 ⟨c, List.mem_filter.2 ⟨hc, hstatus⟩, hid, rfl⟩
    rw [hnil] at hmem
    cases hmem

/-- Two lists of the same claims say the same of a candidate. -/
theorem supported_congr {claims claims' : List ClaimVerdict} (h : ∀ c, c ∈ claims ↔ c ∈ claims') {id : Text} :
    Supported claims id ↔ Supported claims' id :=
  exists_congr fun c => and_congr_left fun _ => h c

theorem linksOf_eq_nil_congr {claims claims' : List ClaimVerdict} (h : ∀ c, c ∈ claims ↔ c ∈ claims') {id : Text} :
    linksOf claims id = [] ↔ linksOf claims' id = [] := by
  have hmem : ∀ x, x ∈ linksOf claims id ↔ x ∈ linksOf claims' id := by
    intro x
    rw [mem_linksOf, mem_linksOf]
    exact exists_congr fun c => and_congr_left fun _ => h c
  rw [List.eq_nil_iff_forall_not_mem, List.eq_nil_iff_forall_not_mem]
  exact forall_congr' fun x => not_congr (hmem x)

section Settle

variable {claims : List ClaimVerdict} {verdict : CandidateVerdict} {contexts : List BookContext}

theorem settle_id : (settle claims verdict).id = verdict.id := by
  unfold settle
  dsimp only
  split_ifs <;> rfl

/-- What claims make of a verdict still answers for itself. -/
theorem settle_ok (h : CandidateOk contexts verdict) : CandidateOk contexts (settle claims verdict) := by
  unfold settle
  dsimp only
  split_ifs with hmixed hsupported hdetail
  · exact h
  · exact ⟨fun hne => (hne rfl).elim, List.nodup_nil, fun _ href => (List.not_mem_nil href).elim⟩
  · refine ⟨fun hne => ?_, h.nodup, h.refs⟩
    have hcovered := h.covered hne
    rw [hdetail.1] at hcovered
    cases hcovered
  · exact h

/-- **A settled verdict stands exactly when a covered one had its ground before.** -/
theorem settle_links_iff (hnodup : (claims.map (·.id)).Nodup) :
    LinksOk (linksOf claims verdict.id) (supportedOf claims) (settle claims verdict) ↔
      (verdict.status = .covered → Supported claims verdict.id ∨ verdict.book_evidence ≠ []) := by
  unfold settle
  dsimp only
  split_ifs with hmixed hsupported hdetail
  · constructor
    · intro _ hcovered
      rw [hmixed] at hcovered
      cases hcovered
    · intro _
      refine ⟨fun hcovered => ?_, fun hdetail => ?_⟩
      · rw [hmixed] at hcovered
        cases hcovered
      · rw [hmixed] at hdetail
        cases hdetail
  · constructor
    · exact fun _ hcovered => (hsupported.1 hcovered).elim
    · exact fun _ => ⟨fun _ => .inl ((supported_iff hnodup).2 (supporting_ne_nil.1 hsupported.2)), fun hno => nomatch hno⟩
  · constructor
    · intro _ hcovered
      rw [hdetail.1] at hcovered
      cases hcovered
    · exact fun _ => ⟨fun hno => (nomatch hno), fun hno => nomatch hno⟩
  · constructor
    · intro h hcovered
      exact (h.covered hcovered).imp_left (supported_iff hnodup).1
    · intro h
      refine ⟨fun hcovered => (h hcovered).imp_left (supported_iff hnodup).2, fun hstatus => ?_⟩
      by_contra hne
      exact hdetail ⟨hstatus, hne⟩

end Settle

/-- A packet as it is built: it carries its own digest, and no two claims or candidates have one id. -/
structure Sound (packet_digest : PacketBody → Text) (p : AuditPacket) : Prop where
  digest : p.digest = packet_digest p.toPacketBody
  claims : p.claim_ids.Nodup
  candidates : p.candidate_ids.Nodup

/-- Verdicts on some items of a packet that each answer for themselves. -/
structure Recalled (p : PacketBody) (r : MemoRecall) : Prop where
  claims_nodup : (r.claims.map (·.id)).Nodup
  claims : ∀ x ∈ r.claims.map (·.id), x ∈ p.claim_ids
  candidates_nodup : (r.candidates.map (·.id)).Nodup
  candidates : ∀ x ∈ r.candidates.map (·.id), x ∈ p.candidate_ids
  claim : ∀ c ∈ r.claims, ClaimOk p.candidate_ids c
  candidate : ∀ c ∈ r.candidates, CandidateOk p.book_context c

/-- Some claim of the packet has no recalled verdict. -/
def Lacking (p : PacketBody) (r : MemoRecall) : Prop := ∃ x ∈ p.claim_ids, x ∉ r.claims.map (·.id)

/-- What a reviewer's verdicts on the rest of a packet have. -/
structure Rest (p : PacketBody) (r : MemoRecall) (w : AuditVerdicts) : Prop where
  claims_nodup : (w.claims.map (·.id)).Nodup
  claims : ∀ x, x ∈ w.claims.map (·.id) ↔ x ∈ p.claim_ids ∧ x ∉ r.claims.map (·.id)
  candidates_nodup : (w.candidates.map (·.id)).Nodup
  candidates : ∀ x, x ∈ w.candidates.map (·.id) ↔ x ∈ p.candidate_ids ∧ (Lacking p r ∨ x ∉ r.candidates.map (·.id))
  claim : ∀ c ∈ w.claims, ClaimOk p.candidate_ids c
  candidate : ∀ c ∈ w.candidates, CandidateOk p.book_context c
  ground : ∀ c ∈ w.candidates, c.status = .covered → Supported w.claims c.id ∨ c.book_evidence ≠ []

/-- The reviewer answered for what is left of a packet, or nothing is left. -/
def Reviewed (packet_digest : PacketBody → Text) (p : AuditPacket) (r : MemoRecall) (v : Option AuditVerdicts) : Prop :=
  match reduce_packet packet_digest p r with
  | none => v = none
  | some q => ∃ w report, v = some w ∧ validate_verdicts packet_digest q w = .ok report

section Reduce

variable {r : MemoRecall}

theorem covers_iff {body : PacketBody} : r.covers body = true ↔
    ¬ Lacking body r ∧ ∀ x ∈ body.candidate_ids, x ∈ r.candidates.map (·.id) := by
  unfold MemoRecall.covers Lacking
  rw [Bool.and_eq_true, List.all_eq_true, List.all_eq_true]
  refine and_congr ⟨fun h => ?_, fun h x hx => ?_⟩ (forall₂_congr fun x _ => List.contains_iff_mem)
  · rintro ⟨x, hx, hno⟩
    exact hno (List.contains_iff_mem.1 (h x hx))
  · by_contra hno
    exact h ⟨x, hx, fun hmem => hno (List.contains_iff_mem.2 hmem)⟩

theorem mem_missedClaims {body : PacketBody} {x : Text} : x ∈ (missedClaims body r).map (·.id) ↔
    x ∈ body.claim_ids ∧ x ∉ r.claims.map (·.id) := by
  unfold missedClaims PacketBody.claim_ids
  rw [List.mem_map, List.mem_map]
  constructor
  · rintro ⟨c, hc, rfl⟩
    obtain ⟨hc, hno⟩ := List.mem_filter.1 hc
    exact ⟨⟨c, hc, rfl⟩, of_decide_eq_true hno⟩
  · rintro ⟨⟨c, hc, rfl⟩, hno⟩
    exact ⟨c, List.mem_filter.2 ⟨hc, decide_eq_true hno⟩, rfl⟩

theorem missedClaims_ne_nil {body : PacketBody} : missedClaims body r ≠ [] ↔ Lacking body r := by
  unfold Lacking
  constructor
  · intro hne
    obtain ⟨c, rest, hc⟩ := List.exists_cons_of_ne_nil hne
    refine ⟨c.id, mem_missedClaims.1 (List.mem_map.2 ⟨c, ?_, rfl⟩)⟩
    rw [hc]
    exact List.mem_cons_self
  · rintro ⟨x, hx⟩ hnil
    have hmem := mem_missedClaims.2 hx
    rw [hnil] at hmem
    cases hmem

theorem mem_missedCandidates {body : PacketBody} {x : Text} : x ∈ (missedCandidates body r).map (·.id) ↔
    x ∈ body.candidate_ids ∧ (Lacking body r ∨ x ∉ r.candidates.map (·.id)) := by
  unfold missedCandidates
  by_cases hlack : Lacking body r
  · rw [if_pos (missedClaims_ne_nil.2 hlack)]
    exact ⟨fun hx => ⟨hx, .inl hlack⟩, fun hx => hx.1⟩
  · rw [if_neg fun hne => hlack (missedClaims_ne_nil.1 hne)]
    unfold PacketBody.candidate_ids
    rw [List.mem_map, List.mem_map]
    constructor
    · rintro ⟨c, hc, rfl⟩
      obtain ⟨hc, hno⟩ := List.mem_filter.1 hc
      exact ⟨⟨c, hc, rfl⟩, .inr (of_decide_eq_true hno)⟩
    · rintro ⟨⟨c, hc, rfl⟩, hno⟩
      exact ⟨c, List.mem_filter.2 ⟨hc, decide_eq_true (hno.resolve_left hlack)⟩, rfl⟩

/-- What `reduce_packet` leaves to the reviewer. -/
theorem reduce_spec (hp : Sound packet_digest p) (h : reduce_packet packet_digest p r = some q) :
    q.digest = packet_digest q.toPacketBody ∧ q.book_context = p.book_context ∧
      (∀ x, x ∈ q.claim_ids ↔ x ∈ p.claim_ids ∧ x ∉ r.claims.map (·.id)) ∧
      ∀ x, x ∈ q.candidate_ids ↔ x ∈ p.candidate_ids ∧ (Lacking p.toPacketBody r ∨ x ∉ r.candidates.map (·.id)) := by
  unfold reduce_packet at h
  split at h
  · cases h
  dsimp only at h
  split at h
  · -- nothing was taken out
    rename_i hlength
    obtain rfl := Option.some.inj h
    have hclaims : missedClaims p.toPacketBody r = p.claims := List.filter_sublist.eq_of_length hlength.1
    have hcandidates : missedCandidates p.toPacketBody r = p.candidates := by
      have hlast := hlength.2
      unfold missedCandidates at hlast ⊢
      split
      · rfl
      · rename_i hnil
        rw [if_neg hnil] at hlast
        exact List.filter_sublist.eq_of_length hlast
    refine ⟨hp.digest, rfl, fun x => ?_, fun x => ?_⟩
    · rw [← mem_missedClaims, hclaims]
      rfl
    · rw [← mem_missedCandidates, hcandidates]
      rfl
  · obtain rfl := Option.some.inj h
    exact ⟨rfl, rfl, fun x => mem_missedClaims, fun x => mem_missedCandidates⟩

/-- **The reviewer's verdicts answer for what was left**, and ground what they call covered. -/
theorem rest_of_reviewed (hp : Sound packet_digest p) {w : Option AuditVerdicts} (h : Reviewed packet_digest p r w) :
    Rest p.toPacketBody r (w.getD ⟨[], []⟩) := by
  unfold Reviewed at h
  cases hreduce : reduce_packet packet_digest p r with
  | none =>
    rw [hreduce] at h
    subst h
    have hcovers : r.covers p.toPacketBody = true := by
      by_contra hno
      unfold reduce_packet at hreduce
      rw [if_neg hno] at hreduce
      dsimp only at hreduce
      split at hreduce <;> cases hreduce
    obtain ⟨hclaims, hcandidates⟩ := covers_iff.1 hcovers
    refine ⟨List.nodup_nil, fun x => ⟨fun hx => ?_, fun hx => (hclaims ⟨x, hx⟩).elim⟩, List.nodup_nil,
      fun x => ⟨fun hx => ?_, fun hx => ?_⟩, fun _ hc => ?_, fun _ hc => ?_, fun _ hc => ?_⟩
    · cases hx
    · cases hx
    · exact (hx.2.elim hclaims fun hno => hno (hcandidates x hx.1)).elim
    · cases hc
    · cases hc
    · cases hc
  | some q =>
    rw [hreduce] at h
    obtain ⟨v, report, rfl, hv⟩ := h
    obtain ⟨-, hv, -⟩ := validate_ok_iff.1 hv
    obtain ⟨-, hcontext, hclaims, hcandidates⟩ := reduce_spec hp hreduce
    have hsub : ∀ x, x ∈ q.candidate_ids → x ∈ p.candidate_ids := fun x hx => ((hcandidates x).1 hx).1
    refine ⟨hv.claims_nodup, fun x => (hv.claims x).trans (hclaims x), hv.candidates_nodup,
      fun x => (hv.candidates x).trans (hcandidates x), fun c hc => ?_, fun c hc => ?_, fun c hc hcovered => ?_⟩
    · have hone := hv.claim c hc
      exact ⟨hone.nodup, fun x hx => hsub x (hone.links x hx), hone.linked⟩
    · have hone := hv.candidate c hc
      rw [hcontext] at hone
      exact hone
    · exact ((hv.link c hc).covered hcovered).imp_left (supported_iff hv.claims_nodup).1

end Reduce

section Merge

variable {r : MemoRecall} {w : Option AuditVerdicts}

/-- The merged dict of some verdicts and of others in their place. -/
theorem get_merged {α : Type} {id : α → Text} {old new : List α} (hold : (old.map id).Nodup) (hnew : (new.map id).Nodup)
    (k : Text) : Keyed.get id (new.foldl (Keyed.upsert id) (old.foldl (Keyed.upsert id) [])) k =
      (Keyed.get id new k).or (Keyed.get id old k) := by
  rw [Keyed.get_foldl_upsert hnew, Keyed.get_foldl_upsert hold]
  congr 1
  cases Keyed.get id old k <;> rfl

theorem nodup_merged {α : Type} (id : α → Text) (old new : List α) :
    ((new.foldl (Keyed.upsert id) (old.foldl (Keyed.upsert id) [])).map id).Nodup :=
  Keyed.nodup_foldl_upsert new (Keyed.nodup_foldl_upsert old List.nodup_nil)

theorem mem_merged {α : Type} {id : α → Text} {old new : List α} (hold : (old.map id).Nodup) (hnew : (new.map id).Nodup)
    {x : α} : x ∈ new.foldl (Keyed.upsert id) (old.foldl (Keyed.upsert id) []) ↔
      x ∈ new ∨ x ∈ old ∧ id x ∉ new.map id := by
  have hget : x ∈ new.foldl (Keyed.upsert id) (old.foldl (Keyed.upsert id) []) ↔
      (Keyed.get id new (id x)).or (Keyed.get id old (id x)) = some x := by
    rw [← get_merged hold hnew, Keyed.get_eq_some_iff (nodup_merged id old new)]
    exact ⟨fun h => ⟨h, rfl⟩, fun h => h.1⟩
  rw [hget, Option.or_eq_some_iff, Keyed.get_eq_some_iff hnew, Keyed.get_eq_none_iff, Keyed.get_eq_some_iff hold]
  constructor
  · rintro (⟨h, -⟩ | ⟨hno, h, -⟩)
    · exact .inl h
    · exact .inr ⟨h, hno⟩
  · rintro (h | ⟨h, hno⟩)
    · exact .inl ⟨h, rfl⟩
    · exact .inr ⟨hno, h, rfl⟩

variable (hp : Sound packet_digest p) (hr : Recalled p.toPacketBody r) (hw : Rest p.toPacketBody r (w.getD ⟨[], []⟩))

theorem mergedClaims_eq (r : MemoRecall) (w : Option AuditVerdicts) : mergedClaims r w =
    (w.getD ⟨[], []⟩).claims.foldl (Keyed.upsert ClaimVerdict.id) (r.claims.foldl (Keyed.upsert ClaimVerdict.id) []) := by
  cases w <;> rfl

theorem mergedCandidates_eq (r : MemoRecall) (w : Option AuditVerdicts) : mergedCandidates r w =
    (w.getD ⟨[], []⟩).candidates.foldl (Keyed.upsert CandidateVerdict.id)
      (r.candidates.foldl (Keyed.upsert CandidateVerdict.id) []) := by
  cases w <;> rfl

theorem nodup_mergedClaims : ((mergedClaims r w).map (·.id)).Nodup := by
  rw [mergedClaims_eq]
  exact nodup_merged _ _ _

theorem nodup_mergedCandidates : ((mergedCandidates r w).map (·.id)).Nodup := by
  rw [mergedCandidates_eq]
  exact nodup_merged _ _ _

include hr hw

/-- The reviewer's claims and the recalled ones are the merged ones: no claim is in both. -/
theorem mem_mergedClaims {c : ClaimVerdict} : c ∈ mergedClaims r w ↔ c ∈ (w.getD ⟨[], []⟩).claims ∨ c ∈ r.claims := by
  rw [mergedClaims_eq, mem_merged hr.claims_nodup hw.claims_nodup]
  refine or_congr_right ⟨fun h => h.1, fun h => ⟨h, fun hmem => ?_⟩⟩
  exact ((hw.claims c.id).1 hmem).2 (List.mem_map.2 ⟨c, h, rfl⟩)

theorem mergedClaims_ids {x : Text} : x ∈ (mergedClaims r w).map (·.id) ↔ x ∈ p.claim_ids := by
  rw [List.mem_map]
  constructor
  · rintro ⟨c, hc, rfl⟩
    rcases (mem_mergedClaims hr hw).1 hc with hc | hc
    · exact ((hw.claims c.id).1 (List.mem_map.2 ⟨c, hc, rfl⟩)).1
    · exact hr.claims c.id (List.mem_map.2 ⟨c, hc, rfl⟩)
  · intro hx
    by_cases hold : x ∈ r.claims.map (·.id)
    · obtain ⟨c, hc, rfl⟩ := List.mem_map.1 hold
      exact ⟨c, (mem_mergedClaims hr hw).2 (.inr hc), rfl⟩
    · obtain ⟨c, hc, rfl⟩ := List.mem_map.1 ((hw.claims x).2 ⟨hx, hold⟩)
      exact ⟨c, (mem_mergedClaims hr hw).2 (.inl hc), rfl⟩

theorem mem_mergedCandidates {c : CandidateVerdict} : c ∈ mergedCandidates r w ↔
    c ∈ (w.getD ⟨[], []⟩).candidates ∨ c ∈ r.candidates ∧ ¬ Lacking p.toPacketBody r := by
  rw [mergedCandidates_eq, mem_merged hr.candidates_nodup hw.candidates_nodup]
  refine or_congr_right (and_congr_right fun h => ?_)
  have hold : c.id ∈ r.candidates.map (·.id) := List.mem_map.2 ⟨c, h, rfl⟩
  have hmem := hr.candidates c.id hold
  constructor
  · exact fun hno hlack => hno ((hw.candidates c.id).2 ⟨hmem, .inl hlack⟩)
  · exact fun hlack hin => ((hw.candidates c.id).1 hin).2.elim hlack fun hno => hno hold

/-- Every candidate has a merged verdict. -/
theorem mergedCandidates_total {x : Text} (hx : x ∈ p.candidate_ids) :
    ∃ c, Keyed.get CandidateVerdict.id (mergedCandidates r w) x = some c := by
  cases hget : Keyed.get CandidateVerdict.id (mergedCandidates r w) x with
  | some c => exact ⟨c, rfl⟩
  | none =>
    have hno := Keyed.get_eq_none_iff.1 hget
    refine (hno ?_).elim
    by_cases hrest : Lacking p.toPacketBody r ∨ x ∉ r.candidates.map (·.id)
    · obtain ⟨c, hc, rfl⟩ := List.mem_map.1 ((hw.candidates x).2 ⟨hx, hrest⟩)
      exact List.mem_map.2 ⟨c, (mem_mergedCandidates hr hw).2 (.inl hc), rfl⟩
    · rw [not_or, not_not] at hrest
      obtain ⟨c, hc, rfl⟩ := List.mem_map.1 hrest.2
      exact List.mem_map.2 ⟨c, (mem_mergedCandidates hr hw).2 (.inr ⟨hc, hrest.1⟩), rfl⟩

/-- The claims of the merged report, in the order of the packet. -/
theorem mem_ordered {c : ClaimVerdict} :
    c ∈ Keyed.pick ClaimVerdict.id (mergedClaims r w) p.claim_ids ↔ c ∈ mergedClaims r w := by
  rw [Keyed.mem_pick nodup_mergedClaims]
  exact ⟨fun h => h.1, fun h => ⟨h, (mergedClaims_ids hr hw).1 (List.mem_map.2 ⟨c, h, rfl⟩)⟩⟩

theorem ordered_ids : (Keyed.pick ClaimVerdict.id (mergedClaims r w) p.claim_ids).map (·.id) = p.claim_ids :=
  Keyed.keys_pick_of_forall fun _ hx => (mergedClaims_ids hr hw).2 hx

theorem claim_ok_of_merged {c : ClaimVerdict} (hc : c ∈ mergedClaims r w) : ClaimOk p.candidate_ids c :=
  ((mem_mergedClaims hr hw).1 hc).elim (hw.claim c) (hr.claim c)

theorem candidate_ok_of_merged {c : CandidateVerdict} (hc : c ∈ mergedCandidates r w) : CandidateOk p.book_context c :=
  ((mem_mergedCandidates hr hw).1 hc).elim (hw.candidate c) fun h => hr.candidate c h.1

theorem merged_candidate_id {c : CandidateVerdict} (hc : c ∈ mergedCandidates r w) : c.id ∈ p.candidate_ids := by
  rcases (mem_mergedCandidates hr hw).1 hc with hc | ⟨hc, -⟩
  · exact ((hw.candidates c.id).1 (List.mem_map.2 ⟨c, hc, rfl⟩)).1
  · exact hr.candidates c.id (List.mem_map.2 ⟨c, hc, rfl⟩)

omit hr hw in
theorem settled_ok_iff {claims : List ClaimVerdict} {candidates : List CandidateVerdict} {x : BehaviorEvidence}
    {c : CandidateVerdict} : settled claims candidates x = .ok c ↔
      ∃ k, Keyed.get CandidateVerdict.id candidates x.id = some k ∧ settle claims k = c := by
  unfold settled
  cases Keyed.get CandidateVerdict.id candidates x.id with
  | none =>
    constructor
    · intro h
      cases h
    · rintro ⟨k, hk, -⟩
      cases hk
  | some k =>
    constructor
    · exact fun h => ⟨k, rfl, Except.ok.inj h⟩
    · rintro ⟨k', hk, rfl⟩
      rw [Option.some.inj hk]
      rfl

/-- The verdicts of the merged report, one for each candidate of the packet. -/
theorem merged_exists : ∃ merged, p.candidates.mapM (settled (mergedClaims r w) (mergedCandidates r w)) = .ok merged ∧
    merged.map (·.id) = p.candidate_ids ∧
    ∀ c, c ∈ merged ↔ ∃ k ∈ mergedCandidates r w, settle (mergedClaims r w) k = c := by
  obtain ⟨merged, hmerged⟩ := Checks.mapM_ok (f := settled (mergedClaims r w) (mergedCandidates r w)) (l := p.candidates)
    fun x hx => by
      obtain ⟨k, hk⟩ := mergedCandidates_total hr hw (List.mem_map.2 ⟨x, hx, rfl⟩)
      exact ⟨_, settled_ok_iff.2 ⟨k, hk, rfl⟩⟩
  have hrel : List.Forall₂ (fun x c => ∃ k, Keyed.get CandidateVerdict.id (mergedCandidates r w) x.id = some k ∧
      settle (mergedClaims r w) k = c) p.candidates merged :=
    (mapM_ok_iff.1 hmerged).imp fun _ _ h => settled_ok_iff.1 h
  refine ⟨merged, hmerged, map_eq_of_forall₂ (hrel.imp fun x c h => ?_), fun c => ⟨fun hc => ?_, ?_⟩⟩
  · obtain ⟨k, hk, rfl⟩ := h
    rw [settle_id, (Keyed.get_spec hk).2]
  · obtain ⟨x, -, k, hk, rfl⟩ := exists_of_forall₂ hrel c hc
    exact ⟨k, (Keyed.get_spec hk).1, rfl⟩
  · rintro ⟨k, hk, rfl⟩
    obtain ⟨x, hx, hid⟩ := List.mem_map.1 (merged_candidate_id hr hw hk)
    obtain ⟨c, hc, k', hk', hsettle⟩ := exists_of_forall₂ hrel.flip x hx
    obtain ⟨hmem, hkey⟩ := Keyed.get_spec hk'
    have hsame : k' = k := eq_of_key nodup_mergedCandidates hmem hk (hkey.trans hid)
    rw [← hsame, hsettle]
    exact hc

/-- What is said of a report that was merged. -/
structure Honest (packet_digest : PacketBody → Text) (p : AuditPacket) (r : MemoRecall) (w : Option AuditVerdicts)
    (report : AuditReport) : Prop where
  /-- The report is accepted for its packet. -/
  accepted : validate_verdicts packet_digest p report.verdicts = .ok report
  /-- Every claim verdict is the recalled one or the reviewer's own. -/
  claims : ∀ c ∈ report.verdicts.claims, c ∈ r.claims ∨ c ∈ (w.getD ⟨[], []⟩).claims
  /-- What is covered has book evidence or the support of a claim of the same report. -/
  covered : ∀ c ∈ report.verdicts.candidates, c.status = .covered →
    c.book_evidence ≠ [] ∨ Supported report.verdicts.claims c.id

theorem honest_of_merge (h : merge_verdicts packet_digest p r w = .ok report) : Honest packet_digest p r w report := by
  unfold merge_verdicts at h
  dsimp only at h
  obtain ⟨merged, -, h⟩ := bind_ok_iff.1 h
  obtain ⟨-, hv, rfl⟩ := validate_ok_iff.1 h
  refine ⟨h, fun c hc => ?_, fun c hc hcovered => ?_⟩
  · exact ((mem_mergedClaims hr hw).1 ((mem_ordered hr hw).1 hc)).symm
  · exact (((hv.link c hc).covered hcovered).imp_left (supported_iff hv.claims_nodup).1).symm

include hp

/-- **When recalled verdicts and a reviewer's join to a report**: when every one of them that is
covered has its ground among the joined claims. -/
theorem merge_ok_iff_ground : (∃ report, merge_verdicts packet_digest p r w = .ok report) ↔
    ∀ c ∈ mergedCandidates r w, c.status = .covered → Supported (mergedClaims r w) c.id ∨ c.book_evidence ≠ [] := by
  obtain ⟨merged, hmerged, hids, hmem⟩ := merged_exists hr hw
  have hsame : ∀ c, c ∈ Keyed.pick ClaimVerdict.id (mergedClaims r w) p.claim_ids ↔ c ∈ mergedClaims r w :=
    fun c => mem_ordered hr hw
  have hordered := ordered_ids hr hw
  have hnodup : ((Keyed.pick ClaimVerdict.id (mergedClaims r w) p.claim_ids).map (·.id)).Nodup := by
    rw [hordered]
    exact hp.claims
  -- the links of a candidate are read off the ordered claims
  have hlink : ∀ c : CandidateVerdict,
      LinksOk (linksOf (Keyed.pick ClaimVerdict.id (mergedClaims r w) p.claim_ids) c.id)
          (supportedOf (Keyed.pick ClaimVerdict.id (mergedClaims r w) p.claim_ids)) (settle (mergedClaims r w) c) ↔
        LinksOk (linksOf (mergedClaims r w) c.id) (supportedOf (mergedClaims r w)) (settle (mergedClaims r w) c) := by
    intro c
    constructor
    · intro h
      refine ⟨fun hcovered => (h.covered hcovered).imp_left fun hx => ?_, fun hdetail => ?_⟩
      · exact (supported_iff nodup_mergedClaims).2 ((supported_congr hsame).1 ((supported_iff hnodup).1 hx))
      · exact (linksOf_eq_nil_congr hsame).1 (h.detail hdetail)
    · intro h
      refine ⟨fun hcovered => (h.covered hcovered).imp_left fun hx => ?_, fun hdetail => ?_⟩
      · exact (supported_iff hnodup).2 ((supported_congr hsame).2 ((supported_iff nodup_mergedClaims).1 hx))
      · exact (linksOf_eq_nil_congr hsame).2 (h.detail hdetail)
  have hmerge : ∀ report, merge_verdicts packet_digest p r w = .ok report ↔ validate_verdicts packet_digest p
      ⟨Keyed.pick ClaimVerdict.id (mergedClaims r w) p.claim_ids, merged⟩ = .ok report := by
    intro report
    unfold merge_verdicts
    dsimp only
    rw [hmerged]
    rfl
  constructor
  · rintro ⟨report, hreport⟩ c hc hcovered
    obtain ⟨-, hv, -⟩ := validate_ok_iff.1 ((hmerge report).1 hreport)
    have hone := hv.link _ ((hmem _).2 ⟨c, hc, rfl⟩)
    rw [settle_id] at hone
    exact (settle_links_iff nodup_mergedClaims).1 ((hlink c).1 hone) hcovered
  · intro hground
    refine ⟨_, (hmerge _).2 (validate_ok_iff.2 ⟨hp.digest, ⟨hnodup, fun x => ?_, ?_, fun x => ?_, fun c hc => ?_, fun c hc => ?_,
      fun c hc => ?_⟩, rfl⟩)⟩
    · rw [hordered]
    · rw [hids]
      exact hp.candidates
    · rw [hids]
    · exact claim_ok_of_merged hr hw ((hsame c).1 hc)
    · obtain ⟨k, hk, rfl⟩ := (hmem c).1 hc
      exact settle_ok (candidate_ok_of_merged hr hw hk)
    · obtain ⟨k, hk, rfl⟩ := (hmem c).1 hc
      rw [settle_id]
      exact (hlink k).2 ((settle_links_iff nodup_mergedClaims).2 (hground k hk))

/-- A covered candidate was recalled beside a verdict on every claim, none of which supports it. -/
def Stuck (p : PacketBody) (r : MemoRecall) : Prop :=
  ¬ Lacking p r ∧ ∃ c ∈ r.candidates, c.status = .covered ∧ c.book_evidence = [] ∧ ¬ Supported r.claims c.id

/-- **The join fails exactly when the recall is stuck.** -/
theorem merge_ok_iff : (∃ report, merge_verdicts packet_digest p r w = .ok report) ↔ ¬ Stuck p.toPacketBody r := by
  rw [merge_ok_iff_ground hp hr hw]
  constructor
  · rintro hground ⟨hwhole, c, hc, hcovered, hevidence, hunsupported⟩
    have hnone : (w.getD ⟨[], []⟩).claims = [] := by
      refine List.eq_nil_iff_forall_not_mem.2 fun x hx => hwhole ⟨x.id, (hw.claims x.id).1 ?_⟩
      exact List.mem_map.2 ⟨x, hx, rfl⟩
    have hsame : ∀ x, x ∈ mergedClaims r w ↔ x ∈ r.claims := by
      intro x
      rw [mem_mergedClaims hr hw, hnone]
      simp
    rcases hground c ((mem_mergedCandidates hr hw).2 (.inr ⟨hc, hwhole⟩)) hcovered with hsupported | hne
    · exact hunsupported ((supported_congr hsame).1 hsupported)
    · exact hne hevidence
  · intro hfree c hc hcovered
    rcases (mem_mergedCandidates hr hw).1 hc with hc | ⟨hc, hwhole⟩
    · refine (hw.ground c hc hcovered).imp_left fun hsupported => ?_
      obtain ⟨x, hx, hstatus, hlink⟩ := hsupported
      exact ⟨x, (mem_mergedClaims hr hw).2 (.inl hx), hstatus, hlink⟩
    · by_contra hno
      rw [not_or, not_not] at hno
      refine hfree ⟨hwhole, c, hc, hcovered, hno.2, fun hsupported => hno.1 ?_⟩
      obtain ⟨x, hx, hstatus, hlink⟩ := hsupported
      exact ⟨x, (mem_mergedClaims hr hw).2 (.inr hx), hstatus, hlink⟩

end Merge

/-! ## Salvage -/

section Salvage

variable {recalled : MemoRecall} {owing : List Text}

/-- What is kept of a reply: of each id the first verdict that answers for itself. -/
theorem answered_spec {α : Type} {id : α → Text} {ids : List Text} {ok : α → Bool} :
    ∀ (xs kept : List α), (kept.map id).Nodup → (∀ x ∈ kept, id x ∈ ids ∧ ok x = true) →
      ((xs.foldl (answer id ids ok) kept).map id).Nodup ∧ ∀ x ∈ xs.foldl (answer id ids ok) kept, id x ∈ ids ∧ ok x = true := by
  intro xs
  induction xs with
  | nil => exact fun kept hnodup hkept => ⟨hnodup, hkept⟩
  | cons x xs ih =>
    intro kept hnodup hkept
    have hstep : ((answer id ids ok kept x).map id).Nodup ∧ ∀ y ∈ answer id ids ok kept x, id y ∈ ids ∧ ok y = true := by
      unfold answer
      split_ifs with hskip hok
      · exact ⟨hnodup, hkept⟩
      · rw [not_or, not_not] at hskip
        refine ⟨?_, fun y hy => ?_⟩
        · rw [List.map_append, List.nodup_append]
          refine ⟨hnodup, List.nodup_singleton _, fun a ha b hb => ?_⟩
          obtain rfl := List.mem_singleton.1 hb
          exact fun heq => hskip.2 (heq ▸ ha)
        · rcases List.mem_append.1 hy with hy | hy
          · exact hkept y hy
          · obtain rfl := List.mem_singleton.1 hy
            exact ⟨hskip.1, hok⟩
      · exact ⟨hnodup, hkept⟩
    exact ih _ hstep.1 hstep.2

theorem isOk_iff {x : Except Text Unit} : x.isOk = true ↔ x = .ok () := by
  rw [Checks.isOk_iff]
  exact ⟨fun h => h.elim fun _ hx => hx, fun h => ⟨(), h⟩⟩

theorem answeredClaims_spec (body : PacketBody) (claims : List ClaimVerdict) :
    ((answeredClaims body claims).map (·.id)).Nodup ∧
      ∀ c ∈ answeredClaims body claims, c.id ∈ body.claim_ids ∧ ClaimOk body.candidate_ids c := by
  have hspec : ((answeredClaims body claims).map (·.id)).Nodup ∧ ∀ c ∈ answeredClaims body claims,
      c.id ∈ body.claim_ids ∧ (_check_claim_verdict c body.candidate_ids).isOk = true :=
    answered_spec claims [] List.nodup_nil fun _ h => (List.not_mem_nil h).elim
  exact ⟨hspec.1, fun c hc => ⟨(hspec.2 c hc).1, check_claim_ok_iff.1 (isOk_iff.1 (hspec.2 c hc).2)⟩⟩

theorem answeredCandidates_spec (body : PacketBody) (candidates : List CandidateVerdict) :
    ((answeredCandidates body candidates).map (·.id)).Nodup ∧
      ∀ c ∈ answeredCandidates body candidates, c.id ∈ body.candidate_ids ∧ CandidateOk body.book_context c := by
  have hspec : ((answeredCandidates body candidates).map (·.id)).Nodup ∧ ∀ c ∈ answeredCandidates body candidates,
      c.id ∈ body.candidate_ids ∧ (_check_candidate_verdict body c).isOk = true :=
    answered_spec candidates [] List.nodup_nil fun _ h => (List.not_mem_nil h).elim
  exact ⟨hspec.1, fun c hc => ⟨(hspec.2 c hc).1, check_candidate_ok_iff.1 (isOk_iff.1 (hspec.2 c hc).2)⟩⟩

/-- A candidate that is kept beside a verdict on every claim has its ground. -/
theorem links_ok_of_not_conflicting {body : PacketBody} {claims : List ClaimVerdict} {candidates : List CandidateVerdict}
    (hwhole : ∀ x ∈ body.claim_ids, x ∈ claims.map (·.id)) {c : CandidateVerdict} (hc : c ∈ candidates)
    (hno : c ∉ conflicting body claims candidates) : LinksOk (linksOf claims c.id) (supportedOf claims) c := by
  rw [← check_links_ok_iff, ← isOk_iff]
  by_contra hbad
  rw [Bool.not_eq_true] at hbad
  have hall : body.claim_ids.all (claims.map (·.id)).contains = true :=
    List.all_eq_true.2 fun x hx => List.contains_iff_mem.2 (hwhole x hx)
  refine hno (List.mem_filter.2 ⟨hc, ?_⟩)
  rw [hall, hbad]
  simp

theorem mem_sortedTexts {texts : List Text} {x : Text} : x ∈ sortedTexts texts ↔ x ∈ texts := List.mem_insertionSort _

/-- **What is salvaged of a reply**: verdicts that answer for themselves and are not stuck; and what
is owing is every other item. -/
theorem salvage_spec (hp : Sound packet_digest p) (h : salvage_verdicts packet_digest p v = .ok (recalled, owing)) :
    Recalled p.toPacketBody recalled ∧ ¬ Stuck p.toPacketBody recalled ∧
      ∀ x, x ∈ owing ↔ (x ∈ p.claim_ids ∧ x ∉ recalled.claims.map (·.id)) ∨
        (x ∈ p.candidate_ids ∧ x ∉ recalled.candidates.map (·.id)) := by
  unfold salvage_verdicts at h
  dsimp only at h
  split at h
  · cases h
  obtain ⟨hclaims_nodup, hclaims⟩ := answeredClaims_spec p.toPacketBody v.claims
  obtain ⟨hcandidates_nodup, hcandidates⟩ := answeredCandidates_spec p.toPacketBody v.candidates
  generalize answeredClaims p.toPacketBody v.claims = claims at h hclaims_nodup hclaims
  generalize answeredCandidates p.toPacketBody v.candidates = candidates at h hcandidates_nodup hcandidates
  generalize hconflicts : conflicting p.toPacketBody claims candidates = conflicts at h
  obtain ⟨rfl, rfl⟩ := Prod.mk.inj (Except.ok.inj h)
  -- what is kept of the claims and of the candidates
  generalize hkept : claims.filter (fun claim => claim.id ∉ conflicts.flatMap fun c => linksOf claims c.id) = kept
  generalize hstay : candidates.filter (fun candidate => candidate.id ∉ conflicts.map (·.id)) = stay
  have hkept_sub : kept.Sublist claims := hkept ▸ List.filter_sublist
  have hstay_sub : stay.Sublist candidates := hstay ▸ List.filter_sublist
  have hkept_nodup : (kept.map ClaimVerdict.id).Nodup := (hkept_sub.map _).nodup hclaims_nodup
  have hstay_nodup : (stay.map CandidateVerdict.id).Nodup := (hstay_sub.map _).nodup hcandidates_nodup
  have hpicked : ∀ c, c ∈ Keyed.pick ClaimVerdict.id kept p.claim_ids ↔ c ∈ kept := by
    intro c
    rw [Keyed.mem_pick hkept_nodup]
    exact ⟨fun hc => hc.1, fun hc => ⟨hc, (hclaims c (hkept_sub.subset hc)).1⟩⟩
  have hpicked' : ∀ c, c ∈ Keyed.pick CandidateVerdict.id stay p.candidate_ids ↔ c ∈ stay := by
    intro c
    rw [Keyed.mem_pick hstay_nodup]
    exact ⟨fun hc => hc.1, fun hc => ⟨hc, (hcandidates c (hstay_sub.subset hc)).1⟩⟩
  have hids : ∀ x, x ∈ (Keyed.pick ClaimVerdict.id kept p.claim_ids).map (·.id) ↔ x ∈ kept.map (·.id) := by
    intro x
    rw [List.mem_map, List.mem_map]
    exact exists_congr fun c => and_congr_left fun _ => hpicked c
  have hids' : ∀ x, x ∈ (Keyed.pick CandidateVerdict.id stay p.candidate_ids).map (·.id) ↔ x ∈ stay.map (·.id) := by
    intro x
    rw [List.mem_map, List.mem_map]
    exact exists_congr fun c => and_congr_left fun _ => hpicked' c
  refine ⟨⟨?_, fun x hx => ?_, ?_, fun x hx => ?_, fun c hc => ?_, fun c hc => ?_⟩, ?_, fun x => ?_⟩
  · exact (Keyed.keys_pick kept p.claim_ids).symm ▸ hp.claims.filter _
  · obtain ⟨c, hc, rfl⟩ := List.mem_map.1 ((hids x).1 hx)
    exact (hclaims c (hkept_sub.subset hc)).1
  · exact (Keyed.keys_pick stay p.candidate_ids).symm ▸ hp.candidates.filter _
  · obtain ⟨c, hc, rfl⟩ := List.mem_map.1 ((hids' x).1 hx)
    exact (hcandidates c (hstay_sub.subset hc)).1
  · exact (hclaims c (hkept_sub.subset ((hpicked c).1 hc))).2
  · exact (hcandidates c (hstay_sub.subset ((hpicked' c).1 hc))).2
  · rintro ⟨hwhole, c, hc, hcovered, hevidence, hunsupported⟩
    have hfull : ∀ x ∈ p.claim_ids, x ∈ kept.map (·.id) := by
      intro x hx
      by_contra hno
      exact hwhole ⟨x, hx, fun hmem => hno ((hids x).1 hmem)⟩
    have hsame : ∀ x, x ∈ claims ↔ x ∈ Keyed.pick ClaimVerdict.id kept p.claim_ids := by
      intro x
      rw [hpicked]
      refine ⟨fun hx => ?_, fun hx => hkept_sub.subset hx⟩
      obtain ⟨y, hy, hid⟩ := List.mem_map.1 (hfull x.id (hclaims x hx).1)
      exact eq_of_key hclaims_nodup (hkept_sub.subset hy) hx hid ▸ hy
    have hstay_mem := (hpicked' c).1 hc
    rw [← hstay] at hstay_mem
    obtain ⟨hc, hno⟩ := List.mem_filter.1 hstay_mem
    have hlinks := links_ok_of_not_conflicting
      (fun x hx => (hkept_sub.map _).subset (hfull x hx)) hc fun hmem => by
        rw [hconflicts] at hmem
        exact of_decide_eq_true hno (List.mem_map.2 ⟨c, hmem, rfl⟩)
    rcases hlinks.covered hcovered with hsupported | hne
    · exact hunsupported ((supported_congr hsame).1 ((supported_iff hclaims_nodup).1 hsupported))
    · exact hne hevidence
  · rw [mem_sortedTexts, List.mem_dedup, List.mem_append, List.mem_filter, List.mem_filter, decide_eq_true_iff,
      decide_eq_true_iff, hids, hids']

end Salvage

/-! ## Keys -/

/-- One excerpt, as the digests spell it. -/
inductive Part where
  | source (path symbol text : Text)
  | support (path text : Text)
  | book (node path text : Text)

def Part.render : Part → List Text
  | source path symbol text => ["source".toList, path, symbol, text]
  | support path text => ["support".toList, path, text]
  | book node path text => ["book".toList, node, path, text]

/-- The tag of an excerpt tells how many texts spell it. -/
theorem parts_inj : ∀ {l l' : List Part}, l.flatMap Part.render = l'.flatMap Part.render → l = l' := by
  have htag : "source".toList ≠ "support".toList ∧ "source".toList ≠ "book".toList ∧ "support".toList ≠ "book".toList := by
    decide
  obtain ⟨h1, h2, h3⟩ := htag
  intro l
  induction l with
  | nil =>
    intro l' h
    cases l' with
    | nil => rfl
    | cons b l' => cases b <;> cases h
  | cons a l ih =>
    intro l' h
    cases l' with
    | nil => cases a <;> cases h
    | cons b l' =>
      rw [List.flatMap_cons, List.flatMap_cons] at h
      cases a <;> cases b <;>
        simp only [Part.render, List.cons_append, List.nil_append, List.cons.injEq, true_and, h1, h2, h3, h1.symm, h2.symm,
          h3.symm, false_and] at h
      · obtain ⟨rfl, rfl, rfl, h⟩ := h
        rw [ih h]
      · obtain ⟨rfl, rfl, h⟩ := h
        rw [ih h]
      · obtain ⟨rfl, rfl, rfl, h⟩ := h
        rw [ih h]

/-- The book excerpts among the parts. -/
def Part.ofBook : Part → Option (Text × Text × Text)
  | book node path text => some (node, path, text)
  | _ => none

/-- What the digests read of a book excerpt. -/
def triple (b : BookContext) : Text × Text × Text := (b.node, b.path, b.text)

section Keys

variable {sha : List Text → Text} (hsha : Function.Injective sha) {epoch contract_digest : Text} {body other : PacketBody}
include hsha

theorem pool_inj {digests digests' : List Text} (h : _pool sha digests = _pool sha digests') : digests.Perm digests' :=
  (List.perm_insertionSort _ digests).symm.trans ((List.Perm.of_eq (hsha h)).trans (List.perm_insertionSort _ digests'))

theorem claim_digest_inj {c d : BookClaim} (h : claim_digest sha c = claim_digest sha d) : c.id = d.id :=
  (List.cons.inj (hsha h)).1

theorem candidate_digest_inj {x y : BehaviorEvidence} (h : candidate_digest sha x = candidate_digest sha y) : x.id = y.id :=
  (List.cons.inj (hsha h)).1

/-- Claims of one key have one id and stood beside the same candidates. -/
theorem claimKey_inj {c d : BookClaim} (h : claimKey sha epoch contract_digest body c = claimKey sha epoch contract_digest other d) :
    c.id = d.id ∧ ∀ x, x ∈ body.candidate_ids ↔ x ∈ other.candidate_ids := by
  have hparts := hsha h
  simp only [List.cons.injEq, true_and, and_true] at hparts
  obtain ⟨hdigest, hpool, -⟩ := hparts
  refine ⟨claim_digest_inj hsha hdigest, fun x => ?_⟩
  have hperm := pool_inj hsha hpool
  have hone : ∀ b b' : PacketBody, (b.candidates.map (candidate_digest sha)).Perm (b'.candidates.map (candidate_digest sha)) →
      x ∈ b.candidate_ids → x ∈ b'.candidate_ids := by
    intro b b' hb hx
    obtain ⟨y, hy, rfl⟩ := List.mem_map.1 hx
    obtain ⟨z, hz, heq⟩ := List.mem_map.1 (hb.subset (List.mem_map.2 ⟨y, hy, rfl⟩))
    exact List.mem_map.2 ⟨z, hz, candidate_digest_inj hsha heq⟩
  exact ⟨hone _ _ hperm, hone _ _ hperm.symm⟩

/-- Candidates of one key have one id and stood beside the same book excerpts. -/
theorem candidateKey_inj {x y : BehaviorEvidence}
    (h : candidateKey sha epoch contract_digest body x = candidateKey sha epoch contract_digest other y) :
    x.id = y.id ∧ body.book_context.map triple = other.book_context.map triple := by
  have hparts := hsha h
  simp only [List.cons.injEq, true_and, and_true] at hparts
  obtain ⟨hdigest, -, hcontext⟩ := hparts
  refine ⟨candidate_digest_inj hsha hdigest, ?_⟩
  have hrender : ∀ b : PacketBody, _source_parts b ++ _book_parts b none =
      (b.source_context.map (fun c => Part.source c.path c.symbol c.text) ++
        b.support_context.map (fun c => Part.support c.path c.text) ++
        b.book_context.map fun c => Part.book c.node c.path c.text).flatMap Part.render := by
    intro b
    have hall : (b.book_context.filter fun book => (none : Option Text).isNone || none = some book.node) = b.book_context :=
      List.filter_eq_self.2 fun _ _ => rfl
    unfold _source_parts _book_parts
    rw [hall, List.flatMap_append, List.flatMap_append, List.flatMap_map, List.flatMap_map, List.flatMap_map]
    rfl
  have hlists := hsha hcontext
  rw [hrender, hrender] at hlists
  have hbooks := congrArg (List.filterMap Part.ofBook) (parts_inj hlists)
  have hread : ∀ b : PacketBody, (b.source_context.map (fun c => Part.source c.path c.symbol c.text) ++
        b.support_context.map (fun c => Part.support c.path c.text) ++
        b.book_context.map fun c => Part.book c.node c.path c.text).filterMap Part.ofBook =
          b.book_context.map triple := by
    intro b
    rw [List.filterMap_append, List.filterMap_append, List.filterMap_map, List.filterMap_map, List.filterMap_map]
    have hsource : b.source_context.filterMap (fun _ => (none : Option (Text × Text × Text))) = [] := by simp
    have hsupport : b.support_context.filterMap (fun _ => (none : Option (Text × Text × Text))) = [] := by simp
    refine (congrArg₂ (· ++ ·) (congrArg₂ (· ++ ·) hsource hsupport) ?_).trans (List.nil_append _)
    exact congrFun List.filterMap_eq_map _
  rw [hread, hread] at hbooks
  exact hbooks

/-- No claim has the key of a candidate. -/
theorem claimKey_ne_candidateKey {c : BookClaim} {x : BehaviorEvidence} :
    claimKey sha epoch contract_digest body c ≠ candidateKey sha epoch contract_digest other x := by
  intro h
  have htag : "claim".toList ≠ "candidate".toList := by decide
  have hparts := hsha h
  simp only [List.cons.injEq, true_and] at hparts
  exact htag hparts.1

end Keys

/-! ## References that move with their node -/

section Moved

variable {body other : PacketBody} {ref : BookEvidenceRef}

/-- The only excerpt of a node gives the node its first line. -/
theorem contexts_of_filter {context : BookContext} {node : Text}
    (h : body.book_context.filter (fun b => b.node = node) = [context]) : contexts body node = some context.start_line := by
  unfold contexts
  rw [← List.head?_filter, List.filter_reverse, h]
  rfl

/-- The same excerpts, in content, of another packet. -/
theorem filter_of_triples (h : other.book_context.map triple = body.book_context.map triple) {node : Text}
    {context : BookContext} (hone : other.book_context.filter (fun b => b.node = node) = [context]) :
    ∃ context', body.book_context.filter (fun b => b.node = node) = [context'] ∧ triple context' = triple context := by
  have hfilter : ∀ b : PacketBody, (b.book_context.map triple).filter (fun t => t.1 = node) =
      (b.book_context.filter fun c => c.node = node).map triple := fun b => List.filter_map
  have hsame := hfilter body
  rw [← h, hfilter other, hone] at hsame
  cases hmine : body.book_context.filter fun c => c.node = node with
  | nil =>
    rw [hmine] at hsame
    cases hsame
  | cons context' rest =>
    rw [hmine] at hsame
    obtain ⟨heq, hrest⟩ := List.cons.inj hsame
    exact ⟨context', by rw [List.map_eq_nil_iff.1 hrest.symm], heq.symm⟩

/-- The first line of a node, or 0. -/
def firstLine (body : PacketBody) (node : Text) : ℕ := (contexts body node).getD 0

/-- A reference as an entry keeps it. -/
def kept (body : PacketBody) (ref : BookEvidenceRef) : Text × ℤ × ℤ :=
  (ref.node, (ref.start_line : ℤ) - firstLine body ref.node, (ref.end_line : ℤ) - firstLine body ref.node)

/-- A reference, moved from one packet to another. -/
def moved (body other : PacketBody) (ref : BookEvidenceRef) : BookEvidenceRef :=
  ⟨ref.node, ref.start_line - firstLine other ref.node + firstLine body ref.node,
    ref.end_line - firstLine other ref.node + firstLine body ref.node⟩

theorem relative_ok (h : RefOk body.book_context ref) : relative body ref = .ok (kept body ref) := by
  obtain ⟨context, hone, -⟩ := h
  have hfirst := contexts_of_filter hone
  unfold relative item kept firstLine
  rw [hfirst]
  rfl

/-- **A kept reference is read back where its node stands now**, and still answers for itself. -/
theorem refFrom_kept (hbooks : other.book_context.map triple = body.book_context.map triple)
    (h : RefOk other.book_context ref) :
    refFrom body (kept other ref) = some (moved body other ref) ∧ RefOk body.book_context (moved body other ref) ∧
      firstLine other ref.node ≤ ref.start_line ∧ firstLine other ref.node ≤ ref.end_line := by
  obtain ⟨context, hone, ⟨hlow, hmid, hhigh⟩, hlength, hblank⟩ := h
  obtain ⟨context', hone', htriple⟩ := filter_of_triples hbooks hone
  have htext : context'.text = context.text := congrArg (fun t => t.2.2) htriple
  have hfirst := contexts_of_filter hone
  have hfirst' := contexts_of_filter hone'
  have hline : firstLine other ref.node = context.start_line := by
    unfold firstLine
    rw [hfirst]
    rfl
  have hline' : firstLine body ref.node = context'.start_line := by
    unfold firstLine
    rw [hfirst']
    rfl
  have hspan := context.bounded.span
  have hspan' := context'.bounded.span
  have hstart' := context'.bounded.start
  rw [htext] at hspan'
  refine ⟨?_, ?_, by omega, by omega⟩
  · have hcond : (1 : ℤ) ≤ context'.start_line + ((ref.start_line : ℤ) - context.start_line) ∧
        (1 : ℤ) ≤ context'.start_line + ((ref.end_line : ℤ) - context.start_line) := by omega
    unfold refFrom kept moved
    rw [hline, hline']
    simp only [hfirst', Option.bind_eq_bind, Option.bind_some]
    rw [if_pos hcond]
    congr 2 <;> omega
  · have hoffset : context'.start_line ≤ ref.start_line - context.start_line + context'.start_line ∧
        ref.start_line - context.start_line + context'.start_line ≤ ref.end_line - context.start_line + context'.start_line ∧
        ref.end_line - context.start_line + context'.start_line ≤ context'.end_line := by omega
    have hdrop : ref.start_line - context.start_line + context'.start_line - context'.start_line =
        ref.start_line - context.start_line := by omega
    have hcount : ref.end_line - context.start_line + context'.start_line -
        (ref.start_line - context.start_line + context'.start_line) = ref.end_line - ref.start_line := by omega
    unfold moved
    rw [hline, hline']
    refine ⟨context', hone', hoffset, ?_, ?_⟩
    · rw [hdrop, hcount, htext]
      exact hlength
    · rw [hdrop, hcount, htext]
      exact hblank

theorem moved_self (h : RefOk body.book_context ref) : moved body body ref = ref := by
  obtain ⟨-, -, hstart, hstop⟩ := refFrom_kept rfl h
  unfold moved
  rw [Nat.sub_add_cancel hstart, Nat.sub_add_cancel hstop]

/-- A verdict whose references are kept and read back. -/
theorem candidateFrom_kept (hbooks : other.book_context.map triple = body.book_context.map triple) {c : CandidateVerdict}
    (h : CandidateOk other.book_context c) (id : Text) :
    _candidate_from body id (some (.candidate c.status c.explanation (c.book_evidence.map (kept other)))) =
        some ⟨id, c.status, c.book_evidence.map (moved body other), c.explanation⟩ ∧
      CandidateOk body.book_context ⟨id, c.status, c.book_evidence.map (moved body other), c.explanation⟩ := by
  have hread : (c.book_evidence.map (kept other)).mapM (refFrom body) = some (c.book_evidence.map (moved body other)) := by
    rw [List.mapM_map]
    exact mapM_some fun ref href => (refFrom_kept hbooks (h.refs ref href)).1
  refine ⟨?_, fun hne => h.covered fun hnil => hne ?_, ?_, fun ref href => ?_⟩
  · unfold _candidate_from
    dsimp only
    rw [hread]
    rfl
  · show c.book_evidence.map _ = []
    rw [hnil]
    rfl
  · refine h.nodup.map_on fun a ha b hb hab => ?_
    obtain ⟨-, -, ha1, ha2⟩ := refFrom_kept hbooks (h.refs a ha)
    obtain ⟨-, -, hb1, hb2⟩ := refFrom_kept hbooks (h.refs b hb)
    obtain ⟨na, sa, ea⟩ := a
    obtain ⟨nb, sb, eb⟩ := b
    obtain ⟨hnode, hstart, hstop⟩ := BookEvidenceRef.mk.inj hab
    obtain rfl : na = nb := hnode
    dsimp only at ha1 ha2 hb1 hb2 hstart hstop
    congr 1 <;> omega
  · obtain ⟨a, ha, rfl⟩ := List.mem_map.1 href
    exact (refFrom_kept hbooks (h.refs a ha)).2.1

end Moved

/-! ## Runs of a memo -/

section Memo

variable {sha : List Text → Text} {epoch contract_digest : Text} {store store' : IndexStore} {body other : PacketBody}

/-- What an entry says of a claim of some packet. -/
def claimEntry (c : ClaimVerdict) : Stored := .claim c.status c.explanation c.candidate_ids

/-- What an entry says of a candidate of some packet. -/
def candidateEntry (body : PacketBody) (c : CandidateVerdict) : Stored :=
  .candidate c.status c.explanation (c.book_evidence.map (kept body))

/-- **Every entry is damaged, or a verdict** that answered for itself beside what its key digests. -/
def Filed (sha : List Text → Text) (epoch contract_digest : Text) (store : IndexStore) : Prop :=
  ∀ key stored, store key = some stored → stored = .damaged ∨
    (∃ (body : PacketBody) (claim : BookClaim) (c : ClaimVerdict), key = claimKey sha epoch contract_digest body claim ∧
      ClaimOk body.candidate_ids c ∧ stored = claimEntry c) ∨
    ∃ (body : PacketBody) (candidate : BehaviorEvidence) (c : CandidateVerdict),
      key = candidateKey sha epoch contract_digest body candidate ∧ CandidateOk body.book_context c ∧
        stored = candidateEntry body c

/-- The stores that calls of `remember` leave, where entries may get lost or damaged. -/
inductive Reached (packet_digest : PacketBody → Text) (sha : List Text → Text) (epoch contract_digest : Text) :
    IndexStore → Prop
  | empty : Reached packet_digest sha epoch contract_digest fun _ => none
  | remember {old new : IndexStore} {p : AuditPacket} {v : AuditVerdicts} {report : AuditReport} :
      Reached packet_digest sha epoch contract_digest old → validate_verdicts packet_digest p v = .ok report →
      remember sha epoch contract_digest p report old = .ok new → Reached packet_digest sha epoch contract_digest new
  | lose {old new : IndexStore} : Reached packet_digest sha epoch contract_digest old →
      (∀ key, new key = old key ∨ new key = none ∨ new key = some .damaged) →
      Reached packet_digest sha epoch contract_digest new

/-- The item that a dict holds under an id. -/
theorem find_reverse {α : Type} {id : α → Text} {l : List α} {k : Text} (h : k ∈ l.map id) :
    ∃ x ∈ l, id x = k ∧ l.reverse.find? (fun y => id y = k) = some x := by
  cases hfind : Keyed.get id l.reverse k with
  | none =>
    refine absurd ?_ (Keyed.get_eq_none_iff.1 hfind)
    rw [List.map_reverse]
    exact List.mem_reverse.2 h
  | some x =>
    obtain ⟨hx, hid⟩ := Keyed.get_spec hfind
    exact ⟨x, List.mem_reverse.1 hx, hid, hfind⟩

/-- The key that a claim's id finds. -/
theorem keys_claim {k : Text} (h : k ∈ body.claim_ids) : ∃ claim ∈ body.claims, claim.id = k ∧
    (keys sha epoch contract_digest body).1 k = some (claimKey sha epoch contract_digest body claim) := by
  obtain ⟨claim, hmem, hid, hfind⟩ := find_reverse h
  refine ⟨claim, hmem, hid, ?_⟩
  unfold keys
  dsimp only
  rw [hfind]
  rfl

theorem keys_candidate {k : Text} (h : k ∈ body.candidate_ids) : ∃ candidate ∈ body.candidates, candidate.id = k ∧
    (keys sha epoch contract_digest body).2 k = some (candidateKey sha epoch contract_digest body candidate) := by
  obtain ⟨candidate, hmem, hid, hfind⟩ := find_reverse h
  refine ⟨candidate, hmem, hid, ?_⟩
  unfold keys
  dsimp only
  rw [hfind]
  rfl

/-- The claims of distinct ids have their own keys. -/
theorem keys_own_claim (h : body.claim_ids.Nodup) {claim : BookClaim} (hc : claim ∈ body.claims) :
    (keys sha epoch contract_digest body).1 claim.id = some (claimKey sha epoch contract_digest body claim) := by
  obtain ⟨other, hmem, hid, hkey⟩ := keys_claim (List.mem_map.2 ⟨claim, hc, rfl⟩)
  rw [hkey, eq_of_key h hmem hc hid]

theorem keys_own_candidate (h : body.candidate_ids.Nodup) {candidate : BehaviorEvidence} (hc : candidate ∈ body.candidates) :
    (keys sha epoch contract_digest body).2 candidate.id = some (candidateKey sha epoch contract_digest body candidate) := by
  obtain ⟨other, hmem, hid, hkey⟩ := keys_candidate (List.mem_map.2 ⟨candidate, hc, rfl⟩)
  rw [hkey, eq_of_key h hmem hc hid]

theorem rememberClaim_ok {c : ClaimVerdict} (h : c.id ∈ body.claim_ids) : ∃ claim ∈ body.claims, claim.id = c.id ∧
    rememberClaim sha epoch contract_digest body store c =
      .ok (put_key (claimKey sha epoch contract_digest body claim) (claimEntry c) store) := by
  obtain ⟨claim, hmem, hid, hkey⟩ := keys_claim h
  refine ⟨claim, hmem, hid, ?_⟩
  unfold rememberClaim item
  rw [hkey]
  rfl

theorem rememberCandidate_ok {c : CandidateVerdict} (h : c.id ∈ body.candidate_ids) (hc : CandidateOk body.book_context c) :
    ∃ candidate ∈ body.candidates, candidate.id = c.id ∧ rememberCandidate sha epoch contract_digest body store c =
      .ok (put_key (candidateKey sha epoch contract_digest body candidate) (candidateEntry body c) store) := by
  obtain ⟨candidate, hmem, hid, hkey⟩ := keys_candidate h
  have hevidence : c.book_evidence.mapM (relative body) = .ok (c.book_evidence.map (kept body)) := by
    rw [mapM_ok_iff, List.forall₂_map_right_iff, List.forall₂_same]
    exact fun ref href => relative_ok (hc.refs ref href)
  refine ⟨candidate, hmem, hid, ?_⟩
  unfold rememberCandidate item
  rw [hkey, hevidence]
  rfl

section Remember

variable (sha epoch contract_digest)

/-- **What `remember` does** with the report of an accepted reply: it files every verdict. -/
theorem remember_ok (hv : validate_verdicts packet_digest p v = .ok report) {inv : IndexStore → Prop} (hstore : inv store)
    (hclaim : ∀ s, inv s → ∀ claim ∈ p.claims, ∀ c ∈ v.claims, claim.id = c.id →
      inv (put_key (claimKey sha epoch contract_digest p.toPacketBody claim) (claimEntry c) s))
    (hcandidate : ∀ s, inv s → ∀ candidate ∈ p.candidates, ∀ c ∈ v.candidates, candidate.id = c.id →
      inv (put_key (candidateKey sha epoch contract_digest p.toPacketBody candidate) (candidateEntry p.toPacketBody c) s)) :
    ∃ store', remember sha epoch contract_digest p report store = .ok store' ∧ inv store' := by
  obtain ⟨hdigest, hok, rfl⟩ := validate_ok_iff.1 hv
  have hone : ∀ c ∈ v.claims, ∀ s, inv s →
      ∃ s', rememberClaim sha epoch contract_digest p.toPacketBody s c = .ok s' ∧ inv s' := by
    intro c hc s hs
    obtain ⟨claim, hmem, hid, hput⟩ := rememberClaim_ok ((hok.claims c.id).1 (List.mem_map.2 ⟨c, hc, rfl⟩))
    exact ⟨_, hput, hclaim s hs claim hmem c hc hid⟩
  have hother : ∀ c ∈ v.candidates, ∀ s, inv s →
      ∃ s', rememberCandidate sha epoch contract_digest p.toPacketBody s c = .ok s' ∧ inv s' := by
    intro c hc s hs
    obtain ⟨candidate, hmem, hid, hput⟩ :=
      rememberCandidate_ok ((hok.candidates c.id).1 (List.mem_map.2 ⟨c, hc, rfl⟩)) (hok.candidate c hc)
    exact ⟨_, hput, hcandidate s hs candidate hmem c hc hid⟩
  obtain ⟨middle, hmiddle, hinv⟩ := Checks.foldlM_ok hone hstore
  obtain ⟨last, hlast, hinv'⟩ := Checks.foldlM_ok hother hinv
  refine ⟨last, ?_, hinv'⟩
  have hsame : ¬ packet_digest p.toPacketBody ≠ p.digest := not_not.2 hdigest.symm
  unfold remember reportOf
  dsimp only
  rw [if_neg hsame, hmiddle]
  exact hlast

end Remember

/-- A new entry is as good as the verdict that it keeps. -/
theorem filed_put {key : Text} {stored : Stored} (h : Filed sha epoch contract_digest store)
    (hnew : Filed sha epoch contract_digest (Function.update (fun _ => none) key (some stored))) :
    Filed sha epoch contract_digest (put_key key stored store) := by
  intro k s hs
  unfold put_key at hs
  by_cases hk : k = key
  · subst hk
    rw [Function.update_self] at hs
    exact hnew k s (by rw [Function.update_self]; exact hs)
  · rw [Function.update_of_ne hk] at hs
    exact h k s hs

theorem filed_claim {claim : BookClaim} {c : ClaimVerdict} (h : Filed sha epoch contract_digest store)
    (hc : ClaimOk body.candidate_ids c) :
    Filed sha epoch contract_digest (put_key (claimKey sha epoch contract_digest body claim) (claimEntry c) store) := by
  refine filed_put h fun k s hk => ?_
  by_cases heq : k = claimKey sha epoch contract_digest body claim
  · subst heq
    rw [Function.update_self] at hk
    exact .inr (.inl ⟨body, claim, c, rfl, hc, (Option.some.inj hk).symm⟩)
  · rw [Function.update_of_ne heq] at hk
    cases hk

theorem filed_candidate {candidate : BehaviorEvidence} {c : CandidateVerdict} (h : Filed sha epoch contract_digest store)
    (hc : CandidateOk body.book_context c) : Filed sha epoch contract_digest
      (put_key (candidateKey sha epoch contract_digest body candidate) (candidateEntry body c) store) := by
  refine filed_put h fun k s hk => ?_
  by_cases heq : k = candidateKey sha epoch contract_digest body candidate
  · subst heq
    rw [Function.update_self] at hk
    exact .inr (.inr ⟨body, candidate, c, rfl, hc, (Option.some.inj hk).symm⟩)
  · rw [Function.update_of_ne heq] at hk
    cases hk

/-- The report of an accepted reply is remembered. -/
theorem remember_filed (h : Filed sha epoch contract_digest store) (hv : validate_verdicts packet_digest p v = .ok report) :
    ∃ store', remember sha epoch contract_digest p report store = .ok store' ∧ Filed sha epoch contract_digest store' := by
  obtain ⟨-, hok, -⟩ := validate_ok_iff.1 hv
  exact remember_ok sha epoch contract_digest hv h (fun s hs claim _ c hc _ => filed_claim hs (hok.claim c hc))
    fun s hs candidate _ c hc _ => filed_candidate hs (hok.candidate c hc)

/-- **In every run every entry is a verdict that answered for itself.** -/
theorem filed_of_reached (h : Reached packet_digest sha epoch contract_digest store) :
    Filed sha epoch contract_digest store := by
  induction h with
  | empty =>
    intro key stored hs
    cases hs
  | @remember old new p v report _ hv hremember ih =>
    obtain ⟨last, hlast, hinv⟩ := remember_filed ih hv
    rw [hremember] at hlast
    obtain rfl := Except.ok.inj hlast
    exact hinv
  | @lose old new _ hlost ih =>
    intro key stored hs
    rcases hlost key with hsame | hnone | hdamaged
    · exact ih key stored (hsame ▸ hs)
    · rw [hnone] at hs
      cases hs
    · rw [hdamaged] at hs
      exact .inl (Option.some.inj hs).symm

/-- The keys of what a filter finds are keys of what it looks at, in order. -/
theorem keys_filterMap_sublist {α β : Type} {f : α → Option β} {id : α → Text} {id' : β → Text}
    (h : ∀ x y, f x = some y → id' y = id x) : ∀ l : List α, ((l.filterMap f).map id').Sublist (l.map id) := by
  intro l
  induction l with
  | nil => exact List.Sublist.refl []
  | cons x l ih =>
    rw [List.filterMap_cons, List.map_cons]
    cases hx : f x with
    | none => exact ih.cons (id x)
    | some y =>
      show (id' y :: (l.filterMap f).map id').Sublist (id x :: l.map id)
      rw [h x y hx]
      exact ih.cons_cons (id x)

/-- What is read back of a claim. -/
theorem claimFrom_some {id : Text} {stored : Option Stored} {ids : List Text} {c : ClaimVerdict} :
    _claim_from id stored ids = some c ↔ c.id = id ∧ stored = some (claimEntry c) ∧ ∀ x ∈ c.candidate_ids, x ∈ ids := by
  obtain ⟨k, status, links, explanation⟩ := c
  unfold _claim_from claimEntry
  split
  · rename_i status' explanation' links'
    split
    · rename_i hlinks
      constructor
      · intro h
        obtain ⟨rfl, rfl, rfl, rfl⟩ := ClaimVerdict.mk.inj (Option.some.inj h)
        exact ⟨rfl, rfl, hlinks⟩
      · rintro ⟨hid, hstored, -⟩
        obtain ⟨rfl, rfl, rfl⟩ := Stored.claim.inj (Option.some.inj hstored)
        rw [show k = id from hid]
    · rename_i hlinks
      constructor
      · intro h
        cases h
      · rintro ⟨-, hstored, hall⟩
        obtain ⟨rfl, rfl, rfl⟩ := Stored.claim.inj (Option.some.inj hstored)
        exact (hlinks hall).elim
  · rename_i hother
    constructor
    · intro h
      cases h
    · rintro ⟨-, hstored, -⟩
      exact (hother _ _ _ hstored).elim

theorem candidateFrom_id {id : Text} {stored : Option Stored} {c : CandidateVerdict}
    (h : _candidate_from body id stored = some c) : c.id = id := by
  unfold _candidate_from at h
  split at h
  · obtain ⟨refs, -, rfl⟩ := Option.map_eq_some_iff.1 h
    rfl
  · cases h

section Recall

variable (hsha : Function.Injective sha) (hfiled : Filed sha epoch contract_digest store)
include hsha hfiled

/-- An entry under a claim's key is damaged, or a verdict that answers for itself beside the same candidates. -/
theorem filed_at_claim {claim : BookClaim} {stored : Stored}
    (h : store (claimKey sha epoch contract_digest body claim) = some stored) :
    stored = .damaged ∨ ∃ c, ClaimOk body.candidate_ids c ∧ stored = claimEntry c := by
  rcases hfiled _ _ h with hdamaged | ⟨other, claim', c, hkey, hc, hstored⟩ | ⟨other, candidate, c, hkey, -, -⟩
  · exact .inl hdamaged
  · obtain ⟨-, hsame⟩ := claimKey_inj hsha hkey
    exact .inr ⟨c, ⟨hc.nodup, fun x hx => (hsame x).2 (hc.links x hx), hc.linked⟩, hstored⟩
  · exact (claimKey_ne_candidateKey hsha hkey).elim

/-- An entry under a candidate's key is damaged, or a verdict that answered for itself beside the same excerpts. -/
theorem filed_at_candidate {candidate : BehaviorEvidence} {stored : Stored}
    (h : store (candidateKey sha epoch contract_digest body candidate) = some stored) :
    stored = .damaged ∨ ∃ (other : PacketBody) (c : CandidateVerdict), other.book_context.map triple = body.book_context.map triple ∧
      CandidateOk other.book_context c ∧ stored = candidateEntry other c := by
  rcases hfiled _ _ h with hdamaged | ⟨other, claim, c, hkey, -, -⟩ | ⟨other, candidate', c, hkey, hc, hstored⟩
  · exact .inl hdamaged
  · exact (claimKey_ne_candidateKey hsha hkey.symm).elim
  · exact .inr ⟨other, c, (candidateKey_inj hsha hkey).2.symm, hc, hstored⟩

/-- The recalled claims are those whose key holds a verdict. -/
theorem mem_recall_claims (h : body.claim_ids.Nodup) {c : ClaimVerdict} :
    c ∈ («recall» sha epoch contract_digest store body).claims ↔
      ∃ claim ∈ body.claims, claim.id = c.id ∧ store (claimKey sha epoch contract_digest body claim) = some (claimEntry c) := by
  unfold «recall»
  dsimp only
  rw [List.mem_filterMap]
  refine exists_congr fun claim => and_congr_right fun hmem => ?_
  rw [keys_own_claim h hmem, Option.bind_some, claimFrom_some]
  constructor
  · rintro ⟨hid, hstored, -⟩
    exact ⟨hid.symm, hstored⟩
  · rintro ⟨hid, hstored⟩
    refine ⟨hid.symm, hstored, ?_⟩
    rcases filed_at_claim hsha hfiled hstored with hdamaged | ⟨d, hd, hentry⟩
    · cases hdamaged
    · obtain ⟨-, -, hlinks⟩ := Stored.claim.inj hentry
      rw [hlinks]
      exact hd.links

/-- The recalled candidates are those whose key holds a verdict, with its references where they stand now. -/
theorem mem_recall_candidates (h : body.candidate_ids.Nodup) {c : CandidateVerdict} :
    c ∈ («recall» sha epoch contract_digest store body).candidates ↔
      ∃ candidate ∈ body.candidates, candidate.id = c.id ∧ ∃ (other : PacketBody) (d : CandidateVerdict),
        other.book_context.map triple = body.book_context.map triple ∧ CandidateOk other.book_context d ∧
        store (candidateKey sha epoch contract_digest body candidate) = some (candidateEntry other d) ∧
        c = ⟨candidate.id, d.status, d.book_evidence.map (moved body other), d.explanation⟩ := by
  unfold «recall»
  dsimp only
  rw [List.mem_filterMap]
  refine exists_congr fun candidate => and_congr_right fun hmem => ?_
  rw [keys_own_candidate h hmem, Option.bind_some]
  constructor
  · intro hread
    cases hstored : store (candidateKey sha epoch contract_digest body candidate) with
    | none =>
      rw [hstored] at hread
      cases hread
    | some stored =>
      rw [hstored] at hread
      rcases filed_at_candidate hsha hfiled hstored with rfl | ⟨other, d, hbooks, hd, rfl⟩
      · cases hread
      · have hback := (candidateFrom_kept hbooks hd candidate.id).1
        obtain rfl := Option.some.inj (hread.symm.trans hback)
        exact ⟨rfl, other, d, hbooks, hd, rfl, rfl⟩
  · rintro ⟨-, other, d, hbooks, hd, hstored, rfl⟩
    rw [hstored]
    exact (candidateFrom_kept hbooks hd candidate.id).1

/-- **What is recalled** is distinct items of the packet, each with a verdict that answers for itself there. -/
theorem recall_spec (hclaims : body.claim_ids.Nodup) (hcandidates : body.candidate_ids.Nodup) :
    Recalled body («recall» sha epoch contract_digest store body) := by
  have hsub : ((«recall» sha epoch contract_digest store body).claims.map ClaimVerdict.id).Sublist body.claim_ids :=
    keys_filterMap_sublist (fun claim c hc => (claimFrom_some.1 hc).1) body.claims
  have hsub' : ((«recall» sha epoch contract_digest store body).candidates.map CandidateVerdict.id).Sublist body.candidate_ids :=
    keys_filterMap_sublist (fun candidate c hc => candidateFrom_id hc) body.candidates
  refine ⟨hsub.nodup hclaims, fun x hx => hsub.subset hx, hsub'.nodup hcandidates, fun x hx => hsub'.subset hx,
    fun c hc => ?_, fun c hc => ?_⟩
  · obtain ⟨claim, -, -, hstored⟩ := (mem_recall_claims hsha hfiled hclaims).1 hc
    rcases filed_at_claim hsha hfiled hstored with hdamaged | ⟨d, hd, hentry⟩
    · cases hdamaged
    · obtain ⟨hstatus, -, hlinks⟩ := Stored.claim.inj hentry
      refine ⟨hlinks ▸ hd.nodup, fun x hx => hd.links x (hlinks ▸ hx), fun hne hnil => ?_⟩
      exact hd.linked (hstatus ▸ hne) (hlinks ▸ hnil)
  · obtain ⟨candidate, -, -, other, d, hbooks, hd, -, rfl⟩ := (mem_recall_candidates hsha hfiled hcandidates).1 hc
    exact (candidateFrom_kept hbooks hd candidate.id).2

end Recall

/-- **The memo wedges a packet**: for its keys it holds a verdict on every claim, and a covered
candidate without book evidence that no claim it holds supports. -/
def Stranded (sha : List Text → Text) (epoch contract_digest : Text) (store : IndexStore) (p : PacketBody) : Prop :=
  (∀ claim ∈ p.claims, ∃ status explanation links,
      store (claimKey sha epoch contract_digest p claim) = some (.claim status explanation links)) ∧
    ∃ candidate ∈ p.candidates,
      (∃ explanation, store (candidateKey sha epoch contract_digest p candidate) = some (.candidate .covered explanation [])) ∧
      ∀ claim ∈ p.claims, ∀ status explanation links,
        store (claimKey sha epoch contract_digest p claim) = some (.claim status explanation links) →
          candidate.id ∈ links → status.supports = false

theorem stuck_iff_stranded (hsha : Function.Injective sha) (hfiled : Filed sha epoch contract_digest store)
    (hclaims : body.claim_ids.Nodup) (hcandidates : body.candidate_ids.Nodup) :
    Stuck body («recall» sha epoch contract_digest store body) ↔ Stranded sha epoch contract_digest store body := by
  have hmem : ∀ c, c ∈ («recall» sha epoch contract_digest store body).claims ↔ _ := fun c =>
    mem_recall_claims hsha hfiled hclaims
  -- a claim is recalled when its key holds a verdict
  have hrecalled : ∀ claim ∈ body.claims, claim.id ∈ («recall» sha epoch contract_digest store body).claims.map (·.id) ↔
      ∃ status explanation links, store (claimKey sha epoch contract_digest body claim) =
        some (.claim status explanation links) := by
    intro claim hclaim
    rw [List.mem_map]
    constructor
    · rintro ⟨c, hc, hid⟩
      obtain ⟨claim', hclaim', hid', hstored⟩ := (hmem c).1 hc
      rw [eq_of_key hclaims hclaim' hclaim (hid'.trans hid)] at hstored
      exact ⟨_, _, _, hstored⟩
    · rintro ⟨status, explanation, links, hstored⟩
      exact ⟨⟨claim.id, status, links, explanation⟩, (hmem _).2 ⟨claim, hclaim, rfl, hstored⟩, rfl⟩
  constructor
  · rintro ⟨hwhole, c, hc, hcovered, hevidence, hunsupported⟩
    refine ⟨fun claim hclaim => (hrecalled claim hclaim).1 ?_, ?_⟩
    · by_contra hno
      exact hwhole ⟨claim.id, List.mem_map.2 ⟨claim, hclaim, rfl⟩, hno⟩
    · obtain ⟨candidate, hcandidate, hid, other, d, -, -, hstored, hread⟩ :=
        (mem_recall_candidates hsha hfiled hcandidates).1 hc
      rw [hread] at hcovered hevidence
      have hnone : d.book_evidence = [] := List.map_eq_nil_iff.1 hevidence
      have hentry : candidateEntry other d = .candidate .covered d.explanation [] := by
        unfold candidateEntry
        rw [show d.status = .covered from hcovered, hnone]
        rfl
      refine ⟨candidate, hcandidate, ⟨d.explanation, hentry ▸ hstored⟩, ?_⟩
      intro claim hclaim status explanation links hclaimed hlink
      by_contra hsupports
      rw [Bool.not_eq_false] at hsupports
      exact hunsupported ⟨⟨claim.id, status, links, explanation⟩, (hmem _).2 ⟨claim, hclaim, rfl, hclaimed⟩, hsupports,
        hid ▸ hlink⟩
  · rintro ⟨hwhole, candidate, hcandidate, ⟨explanation, hstored⟩, hunsupported⟩
    refine ⟨?_, ⟨candidate.id, .covered, [], explanation⟩, ?_, rfl, rfl, ?_⟩
    · rintro ⟨x, hx, hno⟩
      obtain ⟨claim, hclaim, rfl⟩ := List.mem_map.1 hx
      exact hno ((hrecalled claim hclaim).2 (hwhole claim hclaim))
    · rcases filed_at_candidate hsha hfiled hstored with hdamaged | ⟨other, d, hbooks, hd, hentry⟩
      · cases hdamaged
      · obtain ⟨hstatus, hexplanation, hevidence⟩ := Stored.candidate.inj hentry
        refine (mem_recall_candidates hsha hfiled hcandidates).2
          ⟨candidate, hcandidate, rfl, other, d, hbooks, hd, hentry ▸ hstored, ?_⟩
        rw [← hstatus, ← hexplanation, List.map_eq_nil_iff.1 hevidence.symm]
        rfl
    · rintro ⟨c, hc, hsupports, hlink⟩
      obtain ⟨claim, hclaim, -, hclaimed⟩ := (hmem c).1 hc
      rw [hunsupported claim hclaim _ _ _ hclaimed hlink] at hsupports
      cases hsupports

end Memo

/-! ## What is remembered -/

section Remembered

variable {sha : List Text → Text} {epoch contract_digest : Text} {store store' : IndexStore}

/-- The entry under a key. -/
def Keeps (key : Text) (stored : Stored) (store : IndexStore) : Prop := store key = some stored

theorem keeps_put_self {key : Text} {stored : Stored} : Keeps key stored (put_key key stored store) :=
  Function.update_self ..

theorem keeps_put {key other : Text} {stored new : Stored} (h : Keeps key stored store) (hsame : other = key → new = stored) :
    Keeps key stored (put_key other new store) := by
  unfold Keeps put_key
  by_cases hk : other = key
  · subst hk
    rw [Function.update_self, hsame rfl]
  · rw [Function.update_of_ne (Ne.symm hk)]
    exact h

/-- The two loops of `remember`. -/
theorem remember_loops (hv : validate_verdicts packet_digest p v = .ok report)
    (h : remember sha epoch contract_digest p report store = .ok store') :
    ∃ middle, v.claims.foldlM (rememberClaim sha epoch contract_digest p.toPacketBody) store = .ok middle ∧
      v.candidates.foldlM (rememberCandidate sha epoch contract_digest p.toPacketBody) middle = .ok store' := by
  obtain ⟨hdigest, -, rfl⟩ := validate_ok_iff.1 hv
  have hsame : ¬ packet_digest p.toPacketBody ≠ p.digest := not_not.2 hdigest.symm
  unfold remember reportOf at h
  dsimp only at h
  rw [if_neg hsame] at h
  exact bind_ok_iff.1 h

variable (hsha : Function.Injective sha) (hp : Sound packet_digest p) (hv : Accepted p.toPacketBody v)
include hsha hp hv

/-- The step of the first loop: the entry of one claim is as new, every other is left. -/
theorem keeps_rememberClaim {claim : BookClaim} {c d : ClaimVerdict} (hc : c ∈ v.claims)
    (hid : claim.id = c.id) (hd : d ∈ v.claims)
    (h : rememberClaim sha epoch contract_digest p.toPacketBody store d = .ok store')
    (hbefore : d = c ∨ Keeps (claimKey sha epoch contract_digest p.toPacketBody claim) (claimEntry c) store) :
    claim ∈ p.claims → Keeps (claimKey sha epoch contract_digest p.toPacketBody claim) (claimEntry c) store' := by
  intro hclaim
  obtain ⟨other, hother, hother_id, hput⟩ := rememberClaim_ok ((hv.claims d.id).1 (List.mem_map.2 ⟨d, hd, rfl⟩))
  rw [hput] at h
  obtain rfl := Except.ok.inj h
  rcases hbefore with rfl | hbefore
  · rw [eq_of_key hp.claims hother hclaim (hother_id.trans hid.symm)]
    exact keeps_put_self
  · refine keeps_put hbefore fun hkey => ?_
    have hsame : d.id = c.id := hother_id.symm.trans ((claimKey_inj hsha hkey).1.trans hid)
    rw [eq_of_key hv.claims_nodup hd hc hsame]

/-- The step of the second loop. -/
theorem keeps_rememberCandidate {candidate : BehaviorEvidence} {c d : CandidateVerdict} (hc : c ∈ v.candidates)
    (hid : candidate.id = c.id) (hd : d ∈ v.candidates)
    (h : rememberCandidate sha epoch contract_digest p.toPacketBody store d = .ok store')
    (hbefore : d = c ∨
      Keeps (candidateKey sha epoch contract_digest p.toPacketBody candidate) (candidateEntry p.toPacketBody c) store) :
    candidate ∈ p.candidates →
      Keeps (candidateKey sha epoch contract_digest p.toPacketBody candidate) (candidateEntry p.toPacketBody c) store' := by
  intro hcandidate
  obtain ⟨other, hother, hother_id, hput⟩ :=
    rememberCandidate_ok ((hv.candidates d.id).1 (List.mem_map.2 ⟨d, hd, rfl⟩)) (hv.candidate d hd)
  rw [hput] at h
  obtain rfl := Except.ok.inj h
  rcases hbefore with rfl | hbefore
  · rw [eq_of_key hp.candidates hother hcandidate (hother_id.trans hid.symm)]
    exact keeps_put_self
  · refine keeps_put hbefore fun hkey => ?_
    have hsame : d.id = c.id := hother_id.symm.trans ((candidateKey_inj hsha hkey).1.trans hid)
    rw [eq_of_key hv.candidates_nodup hd hc hsame]

omit hp in
/-- The second loop leaves the entries of the claims. -/
theorem keeps_claims {claim : BookClaim} {stored : Stored} {d : CandidateVerdict} (hd : d ∈ v.candidates)
    (h : rememberCandidate sha epoch contract_digest p.toPacketBody store d = .ok store')
    (hbefore : Keeps (claimKey sha epoch contract_digest p.toPacketBody claim) stored store) :
    Keeps (claimKey sha epoch contract_digest p.toPacketBody claim) stored store' := by
  obtain ⟨other, -, -, hput⟩ :=
    rememberCandidate_ok ((hv.candidates d.id).1 (List.mem_map.2 ⟨d, hd, rfl⟩)) (hv.candidate d hd)
  rw [hput] at h
  obtain rfl := Except.ok.inj h
  exact keeps_put hbefore fun hkey => (claimKey_ne_candidateKey hsha hkey.symm).elim

omit hv in
/-- **Every verdict of a remembered report stands under its key.** -/
theorem remembered (hv : validate_verdicts packet_digest p v = .ok report)
    (h : remember sha epoch contract_digest p report store = .ok store') :
    (∀ claim ∈ p.claims, ∀ c ∈ v.claims, claim.id = c.id →
        Keeps (claimKey sha epoch contract_digest p.toPacketBody claim) (claimEntry c) store') ∧
      ∀ candidate ∈ p.candidates, ∀ c ∈ v.candidates, candidate.id = c.id →
        Keeps (candidateKey sha epoch contract_digest p.toPacketBody candidate) (candidateEntry p.toPacketBody c) store' := by
  obtain ⟨middle, hfirst, hsecond⟩ := remember_loops hv h
  obtain ⟨-, hok, -⟩ := validate_ok_iff.1 hv
  constructor
  · intro claim hclaim c hc hid
    have hmiddle : Keeps (claimKey sha epoch contract_digest p.toPacketBody claim) (claimEntry c) middle :=
      Checks.foldlM_reaches (fun s s' hstep => keeps_rememberClaim hsha hp hok hc hid hc hstep (.inl rfl) hclaim) hc
        (fun d hd s s' hs hstep => keeps_rememberClaim hsha hp hok hc hid hd hstep (.inr hs) hclaim) hfirst
    exact Checks.foldlM_inv (fun d hd s s' hs hstep => keeps_claims hsha hok hd hstep hs) hmiddle hsecond
  · intro candidate hcandidate c hc hid
    exact Checks.foldlM_reaches
      (fun s s' hstep => keeps_rememberCandidate hsha hp hok hc hid hc hstep (.inl rfl) hcandidate) hc
      (fun d hd s s' hs hstep => keeps_rememberCandidate hsha hp hok hc hid hd hstep (.inr hs) hcandidate) hsecond

omit hv in
/-- **Recalled straight after it was remembered**, a report is the same report. -/
theorem recall_remember (hstore : Reached packet_digest sha epoch contract_digest store)
    (hv : validate_verdicts packet_digest p v = .ok report)
    (h : remember sha epoch contract_digest p report store = .ok store') :
    («recall» sha epoch contract_digest store' p.toPacketBody).claims.Perm report.verdicts.claims ∧
      («recall» sha epoch contract_digest store' p.toPacketBody).candidates.Perm report.verdicts.candidates := by
  obtain ⟨hclaims, hcandidates⟩ := remembered hsha hp hv h
  have hfiled := filed_of_reached (.remember hstore hv h)
  have hrecalled := recall_spec hsha hfiled hp.claims hp.candidates
  obtain ⟨-, hok, rfl⟩ := validate_ok_iff.1 hv
  -- a verdict of the report is recalled; a recalled one is on an item that the report has a verdict on
  have hin : ∀ c ∈ v.claims, c ∈ («recall» sha epoch contract_digest store' p.toPacketBody).claims := by
    intro c hc
    obtain ⟨claim, hclaim, hid⟩ := List.mem_map.1 ((hok.claims c.id).1 (List.mem_map.2 ⟨c, hc, rfl⟩))
    exact (mem_recall_claims hsha hfiled hp.claims).2 ⟨claim, hclaim, hid, hclaims claim hclaim c hc hid⟩
  have hin' : ∀ c ∈ v.candidates, c ∈ («recall» sha epoch contract_digest store' p.toPacketBody).candidates := by
    intro c hc
    obtain ⟨candidate, hcandidate, hid⟩ :=
      List.mem_map.1 ((hok.candidates c.id).1 (List.mem_map.2 ⟨c, hc, rfl⟩))
    refine (mem_recall_candidates hsha hfiled hp.candidates).2 ⟨candidate, hcandidate, hid, p.toPacketBody, c, rfl,
      hok.candidate c hc, hcandidates candidate hcandidate c hc hid, ?_⟩
    have hself : c.book_evidence.map (moved p.toPacketBody p.toPacketBody) = c.book_evidence :=
      (List.map_congr_left fun ref href => moved_self ((hok.candidate c hc).refs ref href)).trans (List.map_id _)
    rw [hself, hid]
  constructor
  · refine (List.perm_ext_iff_of_nodup hrecalled.claims_nodup.of_map hok.claims_nodup.of_map).2 fun c => ⟨fun hc => ?_, hin c⟩
    obtain ⟨d, hd, hid⟩ := List.mem_map.1
      ((hok.claims c.id).2 (hrecalled.claims c.id (List.mem_map.2 ⟨c, hc, rfl⟩)))
    exact eq_of_key hrecalled.claims_nodup (hin d hd) hc hid ▸ hd
  · refine (List.perm_ext_iff_of_nodup hrecalled.candidates_nodup.of_map hok.candidates_nodup.of_map).2
      fun c => ⟨fun hc => ?_, hin' c⟩
    obtain ⟨d, hd, hid⟩ := List.mem_map.1
      ((hok.candidates c.id).2 (hrecalled.candidates c.id (List.mem_map.2 ⟨c, hc, rfl⟩)))
    exact eq_of_key hrecalled.candidates_nodup (hin' d hd) hc hid ▸ hd

end Remembered

/-! ## The memo as a whole -/

section Whole

variable {r : MemoRecall} {w : Option AuditVerdicts} {recalled : MemoRecall} {owing : List Text}

/-- Only the report of a sound packet is accepted by the join. -/
theorem sound_of_merge (h : merge_verdicts packet_digest p r w = .ok report) : Sound packet_digest p := by
  unfold merge_verdicts at h
  dsimp only at h
  obtain ⟨merged, hmerged, h⟩ := bind_ok_iff.1 h
  obtain ⟨hdigest, hok, -⟩ := validate_ok_iff.1 h
  have hids : merged.map (·.id) = p.candidate_ids := by
    have hrel := mapM_ok_iff.1 hmerged
    unfold PacketBody.candidate_ids
    clear hmerged h hok
    generalize p.candidates = candidates at hrel
    induction hrel with
    | nil => rfl
    | cons hone _ ih =>
      obtain ⟨k, hk, rfl⟩ := settled_ok_iff.1 hone
      rw [List.map_cons, List.map_cons, ih, settle_id, (Keyed.get_spec hk).2]
  refine ⟨hdigest, ?_, ?_⟩
  · have hpicked : (Keyed.pick ClaimVerdict.id (mergedClaims r w) p.claim_ids).map ClaimVerdict.id =
        p.claim_ids.filter fun k => (Keyed.get ClaimVerdict.id (mergedClaims r w) k).isSome := Keyed.keys_pick _ _
    have hall : (Keyed.pick ClaimVerdict.id (mergedClaims r w) p.claim_ids).map ClaimVerdict.id = p.claim_ids := by
      rw [hpicked, List.filter_eq_self]
      intro x hx
      have hmem := (hok.claims x).2 hx
      rw [hpicked] at hmem
      exact (List.mem_filter.1 hmem).2
    rw [← hall]
    exact hok.claims_nodup
  · rw [← hids]
    exact hok.candidates_nodup

/-- No claim of the packet has the id of a candidate. -/
def Apart (p : PacketBody) : Prop := ∀ x ∈ p.claim_ids, x ∉ p.candidate_ids

/-- The ids of a packet are split: each one is recalled or owing, and none is both. -/
def Splits (p : PacketBody) (r : MemoRecall) (owing : List Text) : Prop :=
  (∀ x, x ∈ owing ∨ x ∈ r.claims.map (·.id) ∨ x ∈ r.candidates.map (·.id) ↔ x ∈ p.claim_ids ∨ x ∈ p.candidate_ids) ∧
    ∀ x ∈ owing, x ∉ r.claims.map (·.id) ∧ x ∉ r.candidates.map (·.id)

theorem splits_of_salvage (hp : Sound packet_digest p) (hapart : Apart p.toPacketBody)
    (h : salvage_verdicts packet_digest p v = .ok (recalled, owing)) : Splits p.toPacketBody recalled owing := by
  obtain ⟨hrecalled, -, howing⟩ := salvage_spec hp h
  refine ⟨fun x => ?_, fun x hx => ?_⟩
  · rw [howing]
    constructor
    · rintro ((⟨hx, -⟩ | ⟨hx, -⟩) | hx | hx)
      · exact .inl hx
      · exact .inr hx
      · exact .inl (hrecalled.claims x hx)
      · exact .inr (hrecalled.candidates x hx)
    · rintro (hx | hx)
      · by_cases hin : x ∈ recalled.claims.map (·.id)
        · exact .inr (.inl hin)
        · exact .inl (.inl ⟨hx, hin⟩)
      · by_cases hin : x ∈ recalled.candidates.map (·.id)
        · exact .inr (.inr hin)
        · exact .inl (.inr ⟨hx, hin⟩)
  · rcases (howing x).1 hx with ⟨hmem, hno⟩ | ⟨hmem, hno⟩
    · exact ⟨hno, fun hin => hapart x hmem (hrecalled.candidates x hin)⟩
    · exact ⟨fun hin => hapart x (hrecalled.claims x hin) hmem, hno⟩

/-- An id that a claim shares with a candidate can be recalled and owing. -/
theorem apart_of_splits (hp : Sound packet_digest p)
    (h : ∀ v recalled owing, salvage_verdicts packet_digest p v = .ok (recalled, owing) →
      Splits p.toPacketBody recalled owing) : Apart p.toPacketBody := by
  intro x hclaim hcandidate
  generalize hc : (⟨x, .unresolved, [], ['-']⟩ : ClaimVerdict) = c
  have hid : c.id = x := hc ▸ rfl
  have hclaims : answeredClaims p.toPacketBody [c] = [c] := by
    have hok : (_check_claim_verdict c p.candidate_ids).isOk = true := by
      refine isOk_iff.2 (check_claim_ok_iff.2 ?_)
      subst hc
      exact ⟨List.nodup_nil, fun y hy => (List.not_mem_nil hy).elim, fun hne => (hne rfl).elim⟩
    have hnew : ¬ (c.id ∉ p.claim_ids ∨ c.id ∈ ([] : List ClaimVerdict).map ClaimVerdict.id) := by
      rw [hid]
      exact fun hno => hno.elim (fun hout => hout hclaim) List.not_mem_nil
    unfold answeredClaims
    rw [List.foldl_cons, List.foldl_nil]
    unfold answer
    rw [if_neg hnew, if_pos hok]
    rfl
  have hsalvage : salvage_verdicts packet_digest p ⟨[c], []⟩ = .ok (⟨Keyed.pick ClaimVerdict.id [c] p.claim_ids,
      Keyed.pick CandidateVerdict.id [] p.candidate_ids⟩, sortedTexts ((p.claim_ids.filter (· ∉ [c].map (·.id))) ++
        p.candidate_ids.filter (· ∉ ([] : List CandidateVerdict).map (·.id))).dedup) := by
    unfold salvage_verdicts
    dsimp only
    rw [if_neg (not_not.2 hp.digest), hclaims]
    rfl
  have hone : ([c].map ClaimVerdict.id).Nodup := List.nodup_singleton _
  have hin : x ∈ (Keyed.pick ClaimVerdict.id [c] p.claim_ids).map (·.id) :=
    List.mem_map.2 ⟨c, (Keyed.mem_pick hone).2 ⟨List.mem_singleton_self c, hid ▸ hclaim⟩, hid⟩
  refine ((h _ _ _ hsalvage).2 x ?_).1 hin
  rw [mem_sortedTexts, List.mem_dedup]
  refine List.mem_append_right _ (List.mem_filter.2 ⟨hcandidate, ?_⟩)
  simp

/-- **What a memo makes of a packet**, in every run. Whatever the reviewer answers, verdicts that
are recalled join with the answer to a report exactly when the packet is sound and the memo does not
strand it; those that are salvaged always do. A joined report is honest; a remembered one is
recalled as it was; and a reply is split into recalled and owing when no id is shared. -/
theorem memo_faithful_iff {sha : List Text → Text} {epoch contract_digest : Text} {store : IndexStore}
    (hsha : Function.Injective sha) (hstore : Reached packet_digest sha epoch contract_digest store) (p : AuditPacket) :
    (∀ w, Reviewed packet_digest p («recall» sha epoch contract_digest store p.toPacketBody) w →
        ((∃ report, merge_verdicts packet_digest p («recall» sha epoch contract_digest store p.toPacketBody) w = .ok report) ↔
          Sound packet_digest p ∧ ¬ Stranded sha epoch contract_digest store p.toPacketBody)) ∧
      (∀ w report, Reviewed packet_digest p («recall» sha epoch contract_digest store p.toPacketBody) w →
        merge_verdicts packet_digest p («recall» sha epoch contract_digest store p.toPacketBody) w = .ok report →
          Honest packet_digest p («recall» sha epoch contract_digest store p.toPacketBody) w report) ∧
      (∀ v r owing w, salvage_verdicts packet_digest p v = .ok (r, owing) → Reviewed packet_digest p r w →
        ((∃ report, merge_verdicts packet_digest p r w = .ok report) ↔ Sound packet_digest p) ∧
          ∀ report, merge_verdicts packet_digest p r w = .ok report → Honest packet_digest p r w report) ∧
      (Sound packet_digest p → ((∀ v r owing, salvage_verdicts packet_digest p v = .ok (r, owing) →
        Splits p.toPacketBody r owing) ↔ Apart p.toPacketBody)) ∧
      (Sound packet_digest p → ∀ v report, validate_verdicts packet_digest p v = .ok report →
        ∃ store', remember sha epoch contract_digest p report store = .ok store' ∧
          («recall» sha epoch contract_digest store' p.toPacketBody).claims.Perm report.verdicts.claims ∧
          («recall» sha epoch contract_digest store' p.toPacketBody).candidates.Perm report.verdicts.candidates) := by
  have hfiled := filed_of_reached hstore
  have hrecalled : Sound packet_digest p → Recalled p.toPacketBody («recall» sha epoch contract_digest store p.toPacketBody) :=
    fun hp => recall_spec hsha hfiled hp.claims hp.candidates
  refine ⟨fun w hw => ?_, fun w report hw h => ?_, fun v r owing w hsalvage hw => ⟨?_, fun report h => ?_⟩, fun hp => ?_,
    fun hp v report hv => ?_⟩
  · have hone : Sound packet_digest p → ((∃ report, merge_verdicts packet_digest p _ w = .ok report) ↔
        ¬ Stranded sha epoch contract_digest store p.toPacketBody) := fun hp => by
      rw [merge_ok_iff hp (hrecalled hp) (rest_of_reviewed hp hw), stuck_iff_stranded hsha hfiled hp.claims hp.candidates]
    constructor
    · rintro ⟨report, h⟩
      have hp := sound_of_merge h
      exact ⟨hp, (hone hp).1 ⟨report, h⟩⟩
    · rintro ⟨hp, hfree⟩
      exact (hone hp).2 hfree
  · have hp := sound_of_merge h
    exact honest_of_merge (hrecalled hp) (rest_of_reviewed hp hw) h
  · constructor
    · rintro ⟨report, h⟩
      exact sound_of_merge h
    · intro hp
      obtain ⟨hkept, hfree, -⟩ := salvage_spec hp hsalvage
      exact (merge_ok_iff hp hkept (rest_of_reviewed hp hw)).2 hfree
  · have hp := sound_of_merge h
    exact honest_of_merge (salvage_spec hp hsalvage).1 (rest_of_reviewed hp hw) h
  · exact ⟨apart_of_splits hp, fun hapart v r owing h => splits_of_salvage hp hapart h⟩
  · obtain ⟨store', hremember, -⟩ := remember_filed hfiled hv
    exact ⟨store', hremember, recall_remember hsha hp hstore hv hremember⟩

/-! A book with one claim edited and put back. -/

/-- A digest that tells any two lists of texts apart. -/
def tally (texts : List Text) : Text := texts.flatMap fun t => List.replicate t.length 'n' ++ '.' :: t

theorem tally_injective : Function.Injective tally := by
  have hhead : ∀ (n m : ℕ) (x y : Text), List.replicate n 'n' ++ '.' :: x = List.replicate m 'n' ++ '.' :: y →
      n = m ∧ x = y := by
    intro n
    induction n with
    | zero =>
      intro m x y h
      cases m with
      | zero => exact ⟨rfl, (List.cons.inj h).2⟩
      | succ m => exact absurd (List.cons.inj h).1 (by decide)
    | succ n ih =>
      intro m x y h
      cases m with
      | zero => exact absurd (List.cons.inj h).1 (by decide)
      | succ m =>
        obtain ⟨rfl, rfl⟩ := ih m x y (List.cons.inj h).2
        exact ⟨rfl, rfl⟩
  intro l
  induction l with
  | nil =>
    intro l' h
    cases l' with
    | nil => rfl
    | cons t l' => simp [tally] at h
  | cons t l ih =>
    intro l' h
    cases l' with
    | nil => simp [tally] at h
    | cons t' l' =>
      unfold tally at h
      rw [List.flatMap_cons, List.flatMap_cons, List.append_assoc, List.append_assoc] at h
      obtain ⟨hlength, hrest⟩ := hhead _ _ _ _ h
      obtain ⟨rfl, htail⟩ := List.append_inj hrest hlength
      rw [ih htail]

def zeroReturn : BehaviorEvidence :=
  { id := "e1".toList, path := "a.py".toList, symbol := "f".toList, start_line := 1, end_line := 2, start_column := 0
    end_column := 12, kind := .return, text := "0".toList, snippet := "return 0".toList, source_digest := "d".toList }

def zeroClaim (n text : Text) : BookClaim :=
  { id := "okf:f:rule:".toList ++ n, node := "f".toList, path := "f.md".toList, line := 3, kind := "rule".toList, text
    citations := ["a.py".toList] }

/-- The packet of one function, beside two claims; the text of the second is given. -/
def zeroBody (second : Text) : PacketBody :=
  { module := "a.py".toList, symbol := "f".toList, scope := ["a.py".toList], inventory_digest := "i".toList
    candidates := [zeroReturn], claims := [zeroClaim ['1'] "It returns 0.".toList, zeroClaim ['2'] second]
    omitted_candidates := 0, omitted_claims := 0, limitations := [] }

def contentDigest (body : PacketBody) : Text := tally (body.claims.map (·.text) ++ body.candidates.map (·.text))

def zeroPacket (second : Text) : AuditPacket := { zeroBody second with digest := contentDigest (zeroBody second) }

/-- A reply that has the one claim support the candidate, and leaves the other open. -/
def oneSupports (supporting other : Text) : AuditVerdicts :=
  { claims := [⟨"okf:f:rule:".toList ++ supporting, .supported, ["e1".toList], "It does.".toList⟩,
      ⟨"okf:f:rule:".toList ++ other, .unresolved, [], "Not seen.".toList⟩]
    candidates := [⟨"e1".toList, .covered, [], "It is said.".toList⟩] }

/-- A memo that knows nothing strands no packet. -/
theorem memo_faithful_iff_zero : ∃ report, merge_verdicts contentDigest (zeroPacket "It never fails.".toList)
    («recall» tally [] [] (fun _ => none) (zeroBody "It never fails.".toList)) (some (oneSupports ['1'] ['2'])) = .ok report := by
  refine ((memo_faithful_iff tally_injective .empty (zeroPacket "It never fails.".toList)).1 _ ?_).2
    ⟨⟨rfl, by decide, by decide⟩, ?_⟩
  · exact ⟨_, _, rfl, rfl⟩
  · rintro ⟨hwhole, -⟩
    obtain ⟨_, _, _, hno⟩ := hwhole _ List.mem_cons_self
    cases hno

/-- The second claim is edited, reviewed, and put back: the recalled verdicts then cover the packet
but do not join. -/
theorem memo_wedges : ∃ first second store store',
    validate_verdicts contentDigest (zeroPacket "It never fails.".toList) (oneSupports ['1'] ['2']) = .ok first ∧
      remember tally [] [] (zeroPacket "It never fails.".toList) first (fun _ => none) = .ok store ∧
      validate_verdicts contentDigest (zeroPacket "It is total.".toList) (oneSupports ['2'] ['1']) = .ok second ∧
      remember tally [] [] (zeroPacket "It is total.".toList) second store = .ok store' ∧
      reduce_packet contentDigest (zeroPacket "It never fails.".toList)
        («recall» tally [] [] store' (zeroBody "It never fails.".toList)) = none ∧
      ¬ ∃ report, merge_verdicts contentDigest (zeroPacket "It never fails.".toList)
        («recall» tally [] [] store' (zeroBody "It never fails.".toList)) none = .ok report := by
  refine ⟨_, _, _, _, rfl, rfl, rfl, rfl, ?_, ?_⟩
  · decide +kernel
  · exact fun h => absurd (Checks.isOk_iff.2 h) (by decide +kernel)

end Whole

end Stablemate.Behavior
