import Stablemate.Lib.Checks
import Stablemate.Lib.Lists
import Stablemate.Model.Audit

/-!
# What a review is given

* `splitting_spec`: the packets of a file are tiles of its candidates and its claims.
* `review_spec`: what one file gives.
* `audit_complete`: a preparation gives every candidate and every claim away, and nothing twice.
-/

namespace Stablemate.Behavior

open Checks (bind_ok_iff bind_error_iff mapM_ok_iff mapM_error)

variable {packet_digest : PacketBody → Text} {dump_length : AuditPacket → ℕ} {setting : Setting} {max_chars : ℕ}

/-! ## One packet -/

/-- A packet carries what it was made of. -/
structure Carries (packet_digest : PacketBody → Text) (setting : Setting) (candidates : List BehaviorEvidence)
    (chunk : List BookClaim) (packet : AuditPacket) : Prop where
  module : packet.module = setting.module
  candidates : packet.candidates = candidates
  claims : packet.claims = chunk.map BookClaim.bare
  digest : packet.digest = packet_digest packet.toPacketBody

theorem Carries.claim_ids {candidates : List BehaviorEvidence} {chunk : List BookClaim} {packet : AuditPacket}
    (h : Carries packet_digest setting candidates chunk packet) : packet.claim_ids = chunk.map (·.id) := by
  unfold PacketBody.claim_ids
  rw [h.claims, List.map_map]
  rfl

theorem packetOf_ok {candidates : List BehaviorEvidence} {chunk : List BookClaim} {packet : AuditPacket}
    (h : packetOf packet_digest setting candidates chunk = .ok packet) :
    Carries packet_digest setting candidates chunk packet := by
  obtain ⟨book_context, -, h⟩ := bind_ok_iff.1 h
  obtain rfl := Except.ok.inj h
  exact ⟨rfl, rfl, rfl, rfl⟩

theorem windowed_error {context_lines : ℕ} {context : BookContext} {lines : List ℕ} {e : Refusal}
    (h : windowed context_lines context lines = .error e) : e = .validation := by
  unfold windowed at h
  dsimp only at h
  split at h
  · cases h
  · split at h
    · cases h
    · exact (Except.error.inj h).symm

theorem packetOf_error {candidates : List BehaviorEvidence} {chunk : List BookClaim} {e : Refusal}
    (h : packetOf packet_digest setting candidates chunk = .error e) : e = .validation := by
  rcases bind_error_iff.1 h with h | ⟨book_context, -, h⟩
  · obtain ⟨entry, -, hentry⟩ := mapM_error h
    exact windowed_error hentry
  · cases h

/-! ## The packets of a file -/

/-- **The packets that the loop gives are tiles of what is pending**, each small enough. -/
theorem splitting_spec : ∀ {pending : List (List BehaviorEvidence × List BookClaim)} {packets : List AuditPacket},
    splitting packet_digest dump_length setting max_chars pending = .ok packets →
      ∃ tiles, Cut pending tiles ∧ List.Forall₂ (fun t packet =>
        Carries packet_digest setting t.1 t.2 packet ∧ dump_length packet ≤ max_chars) tiles packets := by
  intro pending
  induction pending using splitting.induct with
  | case1 =>
    intro packets h
    rw [splitting] at h
    obtain rfl := Except.ok.inj h
    exact ⟨[], Cut.nil, .nil⟩
  | case2 candidates chunk pending ih ihleft ihright =>
    intro packets h
    rw [splitting] at h
    obtain ⟨packet, hpacket, h⟩ := bind_ok_iff.1 h
    split at h
    · rename_i hfits
      obtain ⟨rest, hrest, h⟩ := bind_ok_iff.1 h
      obtain rfl := Except.ok.inj h
      obtain ⟨tiles, hcut, hpackets⟩ := ih hrest
      exact ⟨(candidates, chunk) :: tiles, cut_cons.2 ⟨[(candidates, chunk)], tiles, rfl, .whole candidates chunk, hcut⟩,
        .cons ⟨packetOf_ok hpacket, hfits⟩ hpackets⟩
    · split at h
      · rename_i hmany
        -- both halves of the candidates stand before what is pending
        obtain ⟨tiles, hcut, hpackets⟩ := ihleft hmany h
        obtain ⟨ts, rest, rfl, hone, hcut⟩ := cut_cons.1 hcut
        obtain ⟨ts', rest, rfl, hother, hcut⟩ := cut_cons.1 hcut
        have hwhole := Tiling.left hone hother
        rw [List.take_append_drop] at hwhole
        exact ⟨ts ++ (ts' ++ rest), cut_cons.2 ⟨ts ++ ts', rest, (List.append_assoc ..).symm, hwhole, hcut⟩, hpackets⟩
      · split at h
        · rename_i hmany
          obtain ⟨tiles, hcut, hpackets⟩ := ihright hmany h
          obtain ⟨ts, rest, rfl, hone, hcut⟩ := cut_cons.1 hcut
          obtain ⟨ts', rest, rfl, hother, hcut⟩ := cut_cons.1 hcut
          have hwhole := Tiling.right hone hother
          rw [List.take_append_drop] at hwhole
          exact ⟨ts ++ (ts' ++ rest), cut_cons.2 ⟨ts ++ ts', rest, (List.append_assoc ..).symm, hwhole, hcut⟩, hpackets⟩
        · cases h

/-- A packet that is too long and cannot be cut. -/
def Unfit (packet_digest : PacketBody → Text) (dump_length : AuditPacket → ℕ) (setting : Setting) (max_chars : ℕ)
    (candidates : List BehaviorEvidence) (chunk : List BookClaim) : Prop :=
  candidates.length ≤ 1 ∧ chunk.length ≤ 1 ∧
    ∃ packet, packetOf packet_digest setting candidates chunk = .ok packet ∧ max_chars < dump_length packet

/-- **What the loop raises**: it gives up on a packet that cannot be cut, or an excerpt is refused. -/
theorem splitting_error {e : Refusal} : ∀ {pending : List (List BehaviorEvidence × List BookClaim)},
    splitting packet_digest dump_length setting max_chars pending = .error e → e = .validation ∨
      (e = .value (oversized setting.module max_chars) ∧ ∃ p ∈ pending, ∃ candidates chunk, candidates.Sublist p.1 ∧
        chunk.Sublist p.2 ∧ Unfit packet_digest dump_length setting max_chars candidates chunk) := by
  intro pending
  induction pending using splitting.induct with
  | case1 =>
    intro h
    rw [splitting] at h
    cases h
  | case2 candidates chunk pending ih ihleft ihright =>
    intro h
    rw [splitting] at h
    rcases bind_error_iff.1 h with h | ⟨packet, hpacket, h⟩
    · exact .inl (packetOf_error h)
    · split at h
      · rcases bind_error_iff.1 h with h | ⟨rest, -, h⟩
        · refine (ih h).imp_right fun ⟨he, p, hp, hunfit⟩ => ⟨he, p, List.mem_cons_of_mem _ hp, hunfit⟩
        · cases h
      · rename_i hlong
        split at h
        · rename_i hmany
          refine (ihleft hmany h).imp_right fun ⟨he, p, hp, cs, ks, hcs, hks, hunfit⟩ => ⟨he, ?_⟩
          rcases List.mem_cons.1 hp with rfl | hp
          · exact ⟨(candidates, chunk), List.mem_cons_self, cs, ks, hcs.trans (List.take_sublist _ _), hks, hunfit⟩
          · rcases List.mem_cons.1 hp with rfl | hp
            · exact ⟨(candidates, chunk), List.mem_cons_self, cs, ks, hcs.trans (List.drop_sublist _ _), hks, hunfit⟩
            · exact ⟨p, List.mem_cons_of_mem _ hp, cs, ks, hcs, hks, hunfit⟩
        · rename_i hfew
          split at h
          · rename_i hmany
            refine (ihright hmany h).imp_right fun ⟨he, p, hp, cs, ks, hcs, hks, hunfit⟩ => ⟨he, ?_⟩
            rcases List.mem_cons.1 hp with rfl | hp
            · exact ⟨(candidates, chunk), List.mem_cons_self, cs, ks, hcs, hks.trans (List.take_sublist _ _), hunfit⟩
            · rcases List.mem_cons.1 hp with rfl | hp
              · exact ⟨(candidates, chunk), List.mem_cons_self, cs, ks, hcs, hks.trans (List.drop_sublist _ _), hunfit⟩
              · exact ⟨p, List.mem_cons_of_mem _ hp, cs, ks, hcs, hks, hunfit⟩
          · rename_i hone
            refine .inr ⟨(Except.error.inj h).symm, (candidates, chunk), List.mem_cons_self, candidates, chunk,
              List.Sublist.refl _, List.Sublist.refl _, ?_⟩
            exact ⟨Nat.not_lt.1 hfew, Nat.not_lt.1 hone, packet, hpacket, Nat.not_le.1 hlong⟩

/-! ## Batches -/

section Batches

variable {α : Type} {n max_items : ℕ} {evidence : List BehaviorEvidence} {local_claims : List BookClaim}

theorem orEmpty_ne_nil (parts : List (List α)) : orEmpty parts ≠ [] := by
  unfold orEmpty
  split
  · exact List.cons_ne_nil _ _
  · assumption

theorem flatten_orEmpty_chunks (hn : 0 < n) (l : List α) : (orEmpty (chunks n l)).flatten = l := by
  unfold orEmpty
  split
  · rename_i hnil
    have hflat := flatten_chunks hn l
    rw [hnil] at hflat
    exact hflat
  · exact flatten_chunks hn l

theorem length_orEmpty_chunks {l c : List α} (h : c ∈ orEmpty (chunks n l)) : c.length ≤ n := by
  unfold orEmpty at h
  split at h
  · obtain rfl := List.mem_singleton.1 h
    exact Nat.zero_le n
  · exact length_of_mem_chunks h

theorem sublist_orEmpty_chunks (hn : 0 < n) {l c : List α} (h : c ∈ orEmpty (chunks n l)) : c.Sublist l := by
  have hsub := List.sublist_flatten_of_mem h
  rw [flatten_orEmpty_chunks hn] at hsub
  exact hsub

variable (evidence local_claims) in
/-- Both sizes are positive. -/
theorem sizes (hmax : 2 ≤ max_items) :
    0 < (if local_claims = [] then max_items else max_items / 2) ∧
      0 < (if evidence ≠ [] ∧ local_claims ≠ [] then
        max_items - (if local_claims = [] then max_items else max_items / 2) else max_items) := by
  constructor
  · split <;> omega
  · split
    · rename_i hboth
      rw [if_neg hboth.2]
      omega
    · omega

/-- **What is left of the batches** after some of them are cut tiles the candidates and the claims. -/
theorem batches_tiling (hmax : 2 ≤ max_items) {tiles : List (List BehaviorEvidence × List BookClaim)}
    (h : Cut (batches max_items evidence local_claims) tiles) : Tiling evidence local_claims tiles := by
  obtain ⟨hsize, hclaim⟩ := sizes evidence local_claims hmax
  have htiling := tiling_product (orEmpty_ne_nil _) (orEmpty_ne_nil _) h
  rw [flatten_orEmpty_chunks hsize, flatten_orEmpty_chunks hclaim] at htiling
  exact htiling

/-- No batch is larger than the bound. -/
theorem length_batches (hmax : 2 ≤ max_items) {p : List BehaviorEvidence × List BookClaim}
    (h : p ∈ batches max_items evidence local_claims) : p.1.length + p.2.length ≤ max_items := by
  obtain ⟨hsize, hclaim⟩ := sizes evidence local_claims hmax
  obtain ⟨candidates, hcandidates, h⟩ := List.mem_flatMap.1 h
  obtain ⟨chunk, hchunk, rfl⟩ := List.mem_map.1 h
  have hleft := length_orEmpty_chunks hcandidates
  have hright := length_orEmpty_chunks hchunk
  have hcandidates_sub := (sublist_orEmpty_chunks hsize hcandidates).length_le
  have hchunk_sub := (sublist_orEmpty_chunks hclaim hchunk).length_le
  dsimp only
  by_cases hclaims : local_claims = []
  · subst hclaims
    rw [if_pos rfl] at hleft
    rw [List.length_nil] at hchunk_sub
    omega
  · rw [if_neg hclaims] at hleft
    by_cases hevidence : evidence = []
    · subst hevidence
      rw [if_neg fun hno => hno.1 rfl] at hright
      rw [List.length_nil] at hcandidates_sub
      omega
    · rw [if_pos ⟨hevidence, hclaims⟩, if_neg hclaims] at hright
      omega

end Batches

/-! ## Files -/

section Files

variable {call : AuditCall} {module : Text}

theorem mem_evidence {c : BehaviorEvidence} :
    c ∈ call.evidence module ↔ c ∈ call.inventory.candidates ∧ call.deferred c = false ∧ c.path = module := by
  unfold AuditCall.evidence evidenceAt keptCandidates
  rw [List.mem_insertionSort, List.mem_filter, List.mem_filter, decide_eq_true_iff, Bool.not_eq_true', and_assoc]
  exact Iff.rfl

theorem evidence_nodup (h : call.inventory.candidates.Nodup) : (call.evidence module).Nodup := by
  unfold AuditCall.evidence evidenceAt keptCandidates
  exact (List.perm_insertionSort _ _).nodup_iff.2 ((h.filter _).filter _)

/-- What a file keeps of the candidates, counted. -/
theorem length_evidence : (call.evidence module).length =
    call.inventory.candidates.countP fun c => !call.deferred c && c.path = module := by
  unfold AuditCall.evidence evidenceAt keptCandidates
  rw [List.length_insertionSort, List.filter_filter, ← List.countP_eq_length_filter]
  refine List.countP_congr fun c _ => ?_
  rw [Bool.and_eq_true, Bool.and_eq_true]
  exact and_comm

theorem mem_localClaims {claim : BookClaim} :
    claim ∈ call.localClaims module ↔ claim ∈ call.book.claims ∧ module ∈ call.placed claim := by
  unfold AuditCall.localClaims claimsAt AuditCall.ordered
  rw [List.mem_filter, List.mem_insertionSort, decide_eq_true_iff]
  exact Iff.rfl

theorem localClaims_sublist : (call.localClaims module).Sublist call.ordered := List.filter_sublist

/-- A file that a claim is placed at is a file of the scope, or the blank one. -/
theorem mem_grouped_of_placed {claim : BookClaim} (h : module ∈ call.placed claim) : module = [] ∨ module ∈ call.grouped := by
  unfold AuditCall.placed modulesOf at h
  split at h
  · cases h
  split at h
  · exact .inl (List.mem_singleton.1 h)
  · unfold matchesOf at h
    rw [sortedTexts, List.mem_insertionSort, List.mem_dedup, List.mem_filterMap] at h
    obtain ⟨citation, -, hplace⟩ := h
    unfold placeCitation at hplace
    split at hplace
    · cases hplace
    · dsimp only at hplace
      split at hplace
      · rename_i hin
        rw [← Option.some.inj hplace]
        exact .inr hin.2
      · cases hplace

theorem placed_eq_nil_iff {claim : BookClaim} : call.placed claim = [] ↔ call.isOutOfScope claim = true := by
  unfold AuditCall.placed modulesOf AuditCall.isOutOfScope
  split
  · rename_i hout
    exact ⟨fun _ => hout, fun _ => rfl⟩
  · rename_i hin
    constructor
    · intro h
      split at h
      · cases h
      · rename_i hne
        exact (hne h).elim
    · exact fun h => (hin h).elim

theorem mem_modules : module ∈ call.modules ↔
    module ∈ call.grouped ∨ (module = [] ∧ (call.localClaims [] ≠ [] ∨ call.grouped = [])) := by
  unfold AuditCall.modules sortedTexts
  rw [List.mem_insertionSort, List.mem_append]
  refine or_congr_right ?_
  split
  · rename_i hadd
    rw [List.mem_singleton]
    exact ⟨fun h => ⟨h, hadd⟩, fun h => h.1⟩
  · rename_i hadd
    exact ⟨fun h => (List.not_mem_nil h).elim, fun h => (hadd h.2).elim⟩

theorem nil_not_mem_grouped : [] ∉ call.grouped := by
  unfold AuditCall.grouped groupedPaths
  rw [List.mem_dedup, List.mem_append, List.mem_map, List.mem_map]
  rintro (⟨file, hfile, hpath⟩ | ⟨c, hc, hpath⟩)
  · exact call.inventory.files_nonblank file hfile hpath
  · exact call.inventory.candidates_nonblank c (List.mem_filter.1 hc).1 hpath

theorem modules_nodup : call.modules.Nodup := by
  unfold AuditCall.modules sortedTexts
  refine (List.perm_insertionSort _ _).nodup_iff.2 (List.Nodup.append (List.nodup_dedup _) ?_ ?_)
  · split
    · exact List.nodup_singleton _
    · exact List.nodup_nil
  · intro x hx hblank
    split at hblank
    · obtain rfl := List.mem_singleton.1 hblank
      exact nil_not_mem_grouped hx
    · cases hblank

theorem path_mem_modules {c : BehaviorEvidence} (hc : c ∈ call.inventory.candidates) (hkept : call.deferred c = false) :
    c.path ∈ call.modules := by
  refine mem_modules.2 (.inl ?_)
  unfold AuditCall.grouped groupedPaths
  rw [List.mem_dedup]
  refine List.mem_append_right _ (List.mem_map.2 ⟨c, List.mem_filter.2 ⟨hc, ?_⟩, rfl⟩)
  rw [Bool.not_eq_true']
  exact hkept

theorem placed_mem_modules {claim : BookClaim} (hclaim : claim ∈ call.book.claims) (h : module ∈ call.placed claim) :
    module ∈ call.modules := by
  rw [mem_modules]
  rcases mem_grouped_of_placed h with rfl | hin
  · exact .inr ⟨rfl, .inl (List.ne_nil_of_mem (mem_localClaims.2 ⟨hclaim, h⟩))⟩
  · exact .inl hin

/-- A finding counts the candidates of its file, and no claim is lost with it. -/
theorem finding_some {u : UndocumentedFile} (h : call.finding module = some u) :
    u.path = module ∧ u.candidate_count = (call.evidence module).length ∧ call.localClaims module = [] := by
  unfold AuditCall.finding at h
  split at h
  · rename_i hcond
    unfold undocumented_file at h
    dsimp only at h
    split at h
    · cases h
    · obtain rfl := Option.some.inj h
      exact ⟨rfl, rfl, hcond.2.2.2.1⟩
  · cases h

/-- The packets of a file: tiles of its candidates and its claims, within the bounds. -/
structure Tiles (call : AuditCall) (module : Text) (packets : List AuditPacket) : Prop where
  tiles : ∃ tiles, Tiling (call.evidence module) (call.localClaims module) tiles ∧
    List.Forall₂ (fun t packet => Carries call.packet_digest (call.setting module) t.1 t.2 packet) tiles packets
  items : ∀ packet ∈ packets, packet.candidates.length + packet.claims.length ≤ call.max_items.toNat
  chars : ∀ packet ∈ packets, call.dump_length packet ≤ call.max_chars.toNat

/-- **What one file gives**: a finding, packets, or nothing when there is nothing to review. -/
theorem review_spec (hmax : 2 ≤ call.max_items) {turn : List UndocumentedFile × List AuditPacket}
    (h : call.review module = .ok turn) :
    (∃ u, call.finding module = some u ∧ turn = ([u], [])) ∨
      (turn = ([], []) ∧ call.evidence module = [] ∧ call.localClaims module = []) ∨
        (turn.1 = [] ∧ Tiles call module turn.2) := by
  unfold AuditCall.review at h
  split at h
  · rename_i found hfound
    exact .inl ⟨found, hfound, (Except.ok.inj h).symm⟩
  · split at h
    · rename_i hempty
      exact .inr (.inl ⟨(Except.ok.inj h).symm, hempty.2⟩)
    · obtain ⟨packets, hpackets, h⟩ := bind_ok_iff.1 h
      obtain rfl := Except.ok.inj h
      obtain ⟨tiles, hcut, hforall⟩ := splitting_spec hpackets
      have hmax' : 2 ≤ call.max_items.toNat := by omega
      refine .inr (.inr ⟨rfl, ⟨tiles, batches_tiling hmax' hcut, hforall.imp fun _ _ hboth => hboth.1⟩, ?_, ?_⟩)
      · intro packet hpacket
        obtain ⟨t, ht, hcarries, -⟩ := exists_of_forall₂ hforall packet hpacket
        obtain ⟨p, hp, hleft, hright⟩ := hcut.sublist t ht
        have hbatch := length_batches hmax' hp
        have hleft' := hleft.length_le
        have hright' := hright.length_le
        rw [hcarries.candidates, hcarries.claims, List.length_map]
        omega
      · intro packet hpacket
        obtain ⟨t, -, -, hfits⟩ := exists_of_forall₂ hforall packet hpacket
        exact hfits

namespace Tiles

variable {packets : List AuditPacket} (h : Tiles call module packets)
include h

/-- A packet is about its file, and carries its own digest. -/
theorem own : ∀ packet ∈ packets, packet.module = module ∧ (∀ c ∈ packet.candidates, c ∈ call.evidence module) ∧
    (∀ x ∈ packet.claim_ids, ∃ claim ∈ call.localClaims module, claim.id = x) ∧
    packet.digest = call.packet_digest packet.toPacketBody := by
  obtain ⟨tiles, htiling, hforall⟩ := h.tiles
  intro packet hpacket
  obtain ⟨t, ht, hcarries⟩ := exists_of_forall₂ hforall packet hpacket
  obtain ⟨hleft, hright⟩ := htiling.sublist t ht
  refine ⟨hcarries.module, fun c hc => hleft.subset (hcarries.candidates ▸ hc), fun x hx => ?_, hcarries.digest⟩
  rw [hcarries.claim_ids] at hx
  obtain ⟨claim, hclaim, hid⟩ := List.mem_map.1 hx
  exact ⟨claim, hright.subset hclaim, hid⟩

theorem carries_candidate {c : BehaviorEvidence} (hc : c ∈ call.evidence module) :
    ∃ packet ∈ packets, c ∈ packet.candidates := by
  obtain ⟨tiles, htiling, hforall⟩ := h.tiles
  obtain ⟨t, ht, hct⟩ := htiling.covers_left hc
  obtain ⟨packet, hpacket, hcarries⟩ := exists_of_forall₂ hforall.flip t ht
  refine ⟨packet, hpacket, ?_⟩
  rw [hcarries.candidates]
  exact hct

theorem carries_claim {claim : BookClaim} (hclaim : claim ∈ call.localClaims module) :
    ∃ packet ∈ packets, claim.id ∈ packet.claim_ids := by
  obtain ⟨tiles, htiling, hforall⟩ := h.tiles
  obtain ⟨t, ht, hct⟩ := htiling.covers_right hclaim
  obtain ⟨packet, hpacket, hcarries⟩ := exists_of_forall₂ hforall.flip t ht
  refine ⟨packet, hpacket, ?_⟩
  rw [hcarries.claim_ids]
  exact List.mem_map.2 ⟨claim, hct, rfl⟩

/-- **A candidate and a claim of the file stand together in exactly one of its packets.** -/
theorem once (hcandidates : (call.inventory.candidates.map (·.id)).Nodup) (hclaims : (call.ordered.map (·.id)).Nodup)
    {c : BehaviorEvidence} {claim : BookClaim} (hc : c ∈ call.evidence module) (hclaim : claim ∈ call.localClaims module) :
    packets.countP (fun packet => decide (c ∈ packet.candidates ∧ claim.id ∈ packet.claim_ids)) = 1 := by
  classical
  obtain ⟨tiles, htiling, hforall⟩ := h.tiles
  have hlocal : ((call.localClaims module).map (·.id)).Nodup := (localClaims_sublist.map _).nodup hclaims
  have hone := htiling.once (evidence_nodup hcandidates.of_map) hlocal.of_map hc hclaim
  have hsame : ∀ {ts : List (List BehaviorEvidence × List BookClaim)} {ps : List AuditPacket},
      List.Forall₂ (fun t packet => Carries call.packet_digest (call.setting module) t.1 t.2 packet) ts ps →
      (∀ t ∈ ts, t.2.Sublist (call.localClaims module)) →
        ps.countP (fun packet => decide (c ∈ packet.candidates ∧ claim.id ∈ packet.claim_ids)) = Tiling.holding ts c claim := by
    intro ts ps hrel
    induction hrel with
    | nil => exact fun _ => rfl
    | @cons t packet ts ps hcarries _ ih =>
      intro hsub
      unfold Tiling.holding at ih ⊢
      rw [List.countP_cons, List.countP_cons, ih fun t ht => hsub t (List.mem_cons_of_mem _ ht)]
      have hiff : (c ∈ packet.candidates ∧ claim.id ∈ packet.claim_ids) ↔ (c ∈ t.1 ∧ claim ∈ t.2) := by
        rw [hcarries.candidates, hcarries.claim_ids]
        refine and_congr_right fun _ => ⟨fun hid => ?_, fun hmem => List.mem_map.2 ⟨claim, hmem, rfl⟩⟩
        obtain ⟨other, hother, hid⟩ := List.mem_map.1 hid
        exact eq_of_key hlocal ((hsub t List.mem_cons_self).subset hother) hclaim hid ▸ hother
      rw [decide_eq_decide.2 hiff]
  rw [hsame hforall fun t ht => (htiling.sublist t ht).2]
  exact hone

end Tiles

end Files

/-! ## The whole preparation -/

section Whole

variable {call : AuditCall} {prep : AuditPreparation}

/-- **Nothing is lost, and nothing is reviewed twice.** -/
structure Complete (call : AuditCall) (prep : AuditPreparation) : Prop where
  /-- No packet carries a deferred candidate. -/
  deferred : ∀ c ∈ call.inventory.candidates, call.deferred c = true → ∀ packet ∈ prep.packets, c ∉ packet.candidates
  deferred_count : prep.deferred_candidates = call.inventory.candidates.countP call.deferred
  /-- Any other one is either of an undocumented file or in a packet of its own file. -/
  kept : ∀ c ∈ call.inventory.candidates, call.deferred c = false →
    Xor (∃ u ∈ prep.undocumented, u.path = c.path) (∃ packet ∈ prep.packets, c ∈ packet.candidates)
  own : ∀ packet ∈ prep.packets, ∀ c ∈ packet.candidates, c ∈ call.inventory.candidates ∧ packet.module = c.path
  /-- An undocumented file counts the candidates that are not deferred. -/
  undocumented_count : ∀ u ∈ prep.undocumented, u.candidate_count =
    call.inventory.candidates.countP fun c => !call.deferred c && c.path = u.path
  undocumented_once : (prep.undocumented.map (·.path)).Nodup
  out_of_scope_count : prep.out_of_scope_claims = call.book.claims.countP call.isOutOfScope
  out_of_scope : ∀ claim ∈ call.book.claims, call.isOutOfScope claim = true →
    ∀ packet ∈ prep.packets, claim.id ∉ packet.claim_ids
  /-- A claim in scope is placed, and carried by a packet of each file that it is placed at. -/
  placed : ∀ claim ∈ call.book.claims, call.isOutOfScope claim = false → call.placed claim ≠ [] ∧
    ∀ module ∈ call.placed claim, ∃ packet ∈ prep.packets, packet.module = module ∧ claim.id ∈ packet.claim_ids
  /-- A candidate and a claim of one file stand together in exactly one packet. -/
  pairs : ∀ c ∈ call.inventory.candidates, call.deferred c = false → ∀ claim ∈ call.book.claims, c.path ∈ call.placed claim →
    prep.packets.countP (fun packet => decide (c ∈ packet.candidates ∧ claim.id ∈ packet.claim_ids)) = 1
  items : ∀ packet ∈ prep.packets, (packet.candidates.length + packet.claims.length : ℤ) ≤ call.max_items
  chars : ∀ packet ∈ prep.packets, (call.dump_length packet : ℤ) ≤ call.max_chars
  digest : ∀ packet ∈ prep.packets, packet.digest = call.packet_digest packet.toPacketBody

theorem distinctIds_ok_iff {ids : List Text} {label : Text} : distinctIds ids label = .ok () ↔ ids.Nodup := by
  unfold distinctIds _exact_ids
  by_cases h : ids.Nodup
  · rw [if_neg (not_not.2 h), if_pos ⟨fun x hx => hx, fun x hx => hx⟩]
    exact ⟨fun _ => h, fun _ => rfl⟩
  · rw [if_pos h]
    constructor
    · intro hok
      cases hok
    · exact fun hok => (h hok).elim

/-- What a call that comes out has passed, and its turns. -/
structure Prepared (call : AuditCall) (turns : List (List UndocumentedFile × List AuditPacket)) : Prop where
  items : 2 ≤ call.max_items
  chars : 1 ≤ call.max_chars
  claims : (call.ordered.map (·.id)).Nodup
  candidates : (call.inventory.candidates.map (·.id)).Nodup
  turns : List.Forall₂ (fun module turn => call.review module = .ok turn) call.modules turns

theorem build_ok (h : build_audit_packets call = .ok prep) : ∃ turns, Prepared call turns ∧
    prep.packets = turns.flatMap (·.2) ∧ prep.undocumented = turns.flatMap (·.1) ∧
    prep.deferred_candidates = (call.inventory.candidates.filter call.deferred).length ∧
    prep.out_of_scope_claims = call.outOfScopeCount := by
  unfold build_audit_packets at h
  dsimp only at h
  split at h
  · cases h
  rename_i hitems
  split at h
  · cases h
  rename_i hchars
  split at h
  · cases h
  obtain ⟨⟨⟩, hclaims, h⟩ := bind_ok_iff.1 h
  obtain ⟨⟨⟩, hcandidates, h⟩ := bind_ok_iff.1 h
  obtain ⟨turns, hturns, h⟩ := bind_ok_iff.1 h
  obtain rfl := Except.ok.inj h
  exact ⟨turns, ⟨not_lt.1 hitems, not_lt.1 hchars, distinctIds_ok_iff.1 hclaims, distinctIds_ok_iff.1 hcandidates,
    mapM_ok_iff.1 hturns⟩, rfl, rfl, rfl, rfl⟩

section Turns

variable {turns : List (List UndocumentedFile × List AuditPacket)} (hp : Prepared call turns)
include hp

theorem turn_at {module : Text} (h : module ∈ call.modules) : ∃ turn ∈ turns, call.review module = .ok turn :=
  exists_of_forall₂ hp.turns.flip module h

/-- A packet comes from the turn of its file. -/
theorem packet_turn {packet : AuditPacket} (h : packet ∈ turns.flatMap (·.2)) :
    ∃ turn, packet ∈ turn.2 ∧ call.review packet.module = .ok turn ∧ Tiles call packet.module turn.2 := by
  obtain ⟨turn, hturn, hpacket⟩ := List.mem_flatMap.1 h
  obtain ⟨module, -, hreview⟩ := exists_of_forall₂ hp.turns turn hturn
  have htiles : Tiles call module turn.2 := by
    rcases review_spec hp.items hreview with ⟨u, -, rfl⟩ | ⟨rfl, -, -⟩ | ⟨-, htiles⟩
    · cases hpacket
    · cases hpacket
    · exact htiles
  obtain rfl := (htiles.own packet hpacket).1
  exact ⟨turn, hpacket, hreview, htiles⟩

theorem found_turn {u : UndocumentedFile} (h : u ∈ turns.flatMap (·.1)) :
    call.finding u.path = some u ∧ call.review u.path = .ok ([u], []) := by
  obtain ⟨turn, hturn, hu⟩ := List.mem_flatMap.1 h
  obtain ⟨module, -, hreview⟩ := exists_of_forall₂ hp.turns turn hturn
  rcases review_spec hp.items hreview with ⟨v, hfinding, rfl⟩ | ⟨rfl, -, -⟩ | ⟨hnone, -⟩
  · obtain rfl := List.mem_singleton.1 hu
    obtain ⟨rfl, -, -⟩ := finding_some hfinding
    exact ⟨hfinding, hreview⟩
  · cases hu
  · rw [hnone] at hu
    cases hu

/-- A file with candidates gives a finding or packets. -/
theorem turn_of_evidence {c : BehaviorEvidence} (hc : c ∈ call.inventory.candidates) (hkept : call.deferred c = false) :
    ∃ turn ∈ turns, call.review c.path = .ok turn ∧
      ((∃ u, call.finding c.path = some u ∧ turn = ([u], [])) ∨ (turn.1 = [] ∧ Tiles call c.path turn.2)) := by
  obtain ⟨turn, hturn, hreview⟩ := turn_at hp (path_mem_modules hc hkept)
  refine ⟨turn, hturn, hreview, ?_⟩
  rcases review_spec hp.items hreview with hfound | ⟨-, hnone, -⟩ | htiles
  · exact .inl hfound
  · have hin := mem_evidence.2 ⟨hc, hkept, rfl⟩
    rw [hnone] at hin
    cases hin
  · exact .inr htiles

/-- A file with claims gives packets. -/
theorem turn_of_claim {claim : BookClaim} {module : Text} (hclaim : claim ∈ call.localClaims module) :
    ∃ turn ∈ turns, call.review module = .ok turn ∧ Tiles call module turn.2 := by
  obtain ⟨hmem, hplaced⟩ := mem_localClaims.1 hclaim
  obtain ⟨turn, hturn, hreview⟩ := turn_at hp (placed_mem_modules hmem hplaced)
  refine ⟨turn, hturn, hreview, ?_⟩
  have hne : call.localClaims module ≠ [] := List.ne_nil_of_mem hclaim
  rcases review_spec hp.items hreview with ⟨u, hfinding, -⟩ | ⟨-, -, hnone⟩ | ⟨-, htiles⟩
  · exact (hne (finding_some hfinding).2.2).elim
  · exact (hne hnone).elim
  · exact htiles

/-- What is counted of the packets of one file only is counted in its turn. -/
theorem countP_turns {module : Text} (hmodule : module ∈ call.modules) {turn : List UndocumentedFile × List AuditPacket}
    (hturn : call.review module = .ok turn) {counts : AuditPacket → Bool}
    (hother : ∀ packet ∈ turns.flatMap (·.2), packet.module ≠ module → counts packet = false) :
    (turns.flatMap (·.2)).countP counts = turn.2.countP counts := by
  obtain ⟨before, after, hsplit⟩ := List.append_of_mem hmodule
  have hnodup : call.modules.Nodup := modules_nodup
  have hturns := hp.turns
  rw [hsplit] at hnodup hturns
  obtain ⟨ts, rest, hts, hrest, rfl⟩ := forall₂_append hturns
  cases hrest with
  | @cons _ t _ ts' hone hafter =>
    obtain rfl := Except.ok.inj (hone.symm.trans hturn)
    obtain ⟨-, hcons, hdisjoint⟩ := List.nodup_append.1 hnodup
    -- the packets of the other turns are about other files
    have hzero : ∀ {ms : List Text} {us : List (List UndocumentedFile × List AuditPacket)},
        List.Forall₂ (fun m u => call.review m = .ok u) ms us → module ∉ ms →
        (∀ packet ∈ us.flatMap (·.2), packet ∈ (ts ++ t :: ts').flatMap (·.2)) → (us.flatMap (·.2)).countP counts = 0 := by
      intro ms us hrel hno hsub
      refine List.countP_eq_zero.2 fun packet hpacket => ?_
      obtain ⟨u, hu, hin⟩ := List.mem_flatMap.1 hpacket
      obtain ⟨m, hm, hreview⟩ := exists_of_forall₂ hrel u hu
      have htiles : Tiles call m u.2 := by
        rcases review_spec hp.items hreview with ⟨v, -, rfl⟩ | ⟨rfl, -, -⟩ | ⟨-, htiles⟩
        · cases hin
        · cases hin
        · exact htiles
      rw [Bool.not_eq_true]
      refine hother packet (hsub packet hpacket) ?_
      rw [(htiles.own packet hin).1]
      exact fun heq => hno (heq ▸ hm)
    have hbefore := hzero hts (fun hin => hdisjoint module hin module List.mem_cons_self rfl) fun packet hpacket => by
      rw [List.flatMap_append]
      exact List.mem_append_left _ hpacket
    have hafter := hzero hafter (List.nodup_cons.1 hcons).1 fun packet hpacket => by
      rw [List.flatMap_append, List.flatMap_cons]
      exact List.mem_append_right _ (List.mem_append_right _ hpacket)
    rw [List.flatMap_append, List.flatMap_cons, List.countP_append, List.countP_append, hbefore, hafter]
    omega

/-- No file is found undocumented twice. -/
theorem undocumented_once : ((turns.flatMap (·.1)).map (·.path)).Nodup := by
  have hsub : ∀ {ms : List Text} {us : List (List UndocumentedFile × List AuditPacket)},
      List.Forall₂ (fun m u => call.review m = .ok u) ms us → ((us.flatMap (·.1)).map (·.path)).Sublist ms := by
    intro ms us hrel
    induction hrel with
    | nil => exact List.Sublist.refl []
    | @cons m u ms us hreview _ ih =>
      rw [List.flatMap_cons, List.map_append]
      rcases review_spec hp.items hreview with ⟨v, hfinding, rfl⟩ | ⟨rfl, -, -⟩ | ⟨hnone, -⟩
      · obtain ⟨rfl, -, -⟩ := finding_some hfinding
        exact ih.cons_cons v.path
      · exact ih.cons m
      · rw [hnone]
        exact ih.cons m
  exact (hsub hp.turns).nodup modules_nodup

end Turns

/-- **A preparation is complete.** -/
theorem complete_of_build (h : build_audit_packets call = .ok prep) : Complete call prep := by
  obtain ⟨turns, hp, hpackets, hundocumented, hdeferred, hout⟩ := build_ok h
  have hitems := hp.items
  have hchars := hp.chars
  have hown : ∀ packet ∈ prep.packets, ∀ c ∈ packet.candidates, c ∈ call.evidence packet.module := by
    intro packet hpacket
    rw [hpackets] at hpacket
    obtain ⟨turn, hin, -, htiles⟩ := packet_turn hp hpacket
    exact (htiles.own packet hin).2.1
  refine ⟨fun c _ hc packet hpacket hin => ?_, ?_, fun c hc hkept => ?_, fun packet hpacket c hc => ?_, fun u hu => ?_, ?_, ?_,
    fun claim hclaim hscope packet hpacket hin => ?_, fun claim hclaim hscope => ⟨?_, fun module hmodule => ?_⟩,
    fun c hc hkept claim hclaim hplaced => ?_, fun packet hpacket => ?_, fun packet hpacket => ?_, fun packet hpacket => ?_⟩
  · have hkept := (mem_evidence.1 (hown packet hpacket c hin)).2.1
    rw [hc] at hkept
    cases hkept
  · rw [hdeferred, List.countP_eq_length_filter]
  · obtain ⟨turn, hturn, hreview, hgives⟩ := turn_of_evidence hp hc hkept
    rcases hgives with ⟨u, hfinding, rfl⟩ | ⟨hnone, htiles⟩
    · refine .inl ⟨⟨u, hundocumented ▸ List.mem_flatMap.2 ⟨_, hturn, List.mem_singleton_self u⟩, (finding_some hfinding).1⟩, ?_⟩
      rintro ⟨packet, hpacket, hin⟩
      have hpath := (mem_evidence.1 (hown packet hpacket c hin)).2.2
      rw [hpackets] at hpacket
      obtain ⟨turn, hmem, hother, -⟩ := packet_turn hp hpacket
      rw [← hpath, hreview] at hother
      rw [← Except.ok.inj hother] at hmem
      cases hmem
    · obtain ⟨packet, hpacket, hin⟩ := htiles.carries_candidate (mem_evidence.2 ⟨hc, hkept, rfl⟩)
      refine .inr ⟨⟨packet, hpackets ▸ List.mem_flatMap.2 ⟨turn, hturn, hpacket⟩, hin⟩, ?_⟩
      rintro ⟨u, hu, hpath⟩
      obtain ⟨-, hother⟩ := found_turn hp (hundocumented ▸ hu)
      rw [hpath, hreview] at hother
      rw [Except.ok.inj hother] at hpacket
      cases hpacket
  · obtain ⟨hmem, -, hpath⟩ := mem_evidence.1 (hown packet hpacket c hc)
    exact ⟨hmem, hpath.symm⟩
  · obtain ⟨hfinding, -⟩ := found_turn hp (hundocumented ▸ hu)
    rw [(finding_some hfinding).2.1, length_evidence]
  · rw [hundocumented]
    exact undocumented_once hp
  · rw [hout]
    unfold AuditCall.outOfScopeCount AuditCall.ordered
    rw [← List.countP_eq_length_filter]
    exact (List.perm_insertionSort _ _).countP_eq _
  · rw [hpackets] at hpacket
    obtain ⟨turn, hmem, -, htiles⟩ := packet_turn hp hpacket
    obtain ⟨other, hother, hid⟩ := (htiles.own packet hmem).2.2.1 _ hin
    obtain ⟨hbook, hplaced⟩ := mem_localClaims.1 hother
    have hordered : ∀ k ∈ call.book.claims, k ∈ call.ordered := fun k hk => (List.mem_insertionSort _).2 hk
    have hsame := eq_of_key hp.claims (hordered other hbook) (hordered claim hclaim) hid
    rw [hsame, placed_eq_nil_iff.2 hscope] at hplaced
    cases hplaced
  · rw [Ne, placed_eq_nil_iff, Bool.not_eq_true]
    exact hscope
  · obtain ⟨turn, hturn, -, htiles⟩ := turn_of_claim hp (mem_localClaims.2 ⟨hclaim, hmodule⟩)
    obtain ⟨packet, hpacket, hin⟩ := htiles.carries_claim (mem_localClaims.2 ⟨hclaim, hmodule⟩)
    exact ⟨packet, hpackets ▸ List.mem_flatMap.2 ⟨turn, hturn, hpacket⟩, (htiles.own packet hpacket).1, hin⟩
  · have hlocal := mem_localClaims.2 ⟨hclaim, hplaced⟩
    obtain ⟨turn, -, hreview, htiles⟩ := turn_of_claim hp hlocal
    rw [hpackets, countP_turns hp (path_mem_modules hc hkept) hreview fun packet hpacket hne => ?_]
    · exact htiles.once hp.candidates hp.claims (mem_evidence.2 ⟨hc, hkept, rfl⟩) hlocal
    · refine decide_eq_false fun hboth => hne ?_
      exact (mem_evidence.1 (hown packet (hpackets ▸ hpacket) c hboth.1)).2.2.symm
  · rw [hpackets] at hpacket
    obtain ⟨turn, hmem, -, htiles⟩ := packet_turn hp hpacket
    have hbound := htiles.items packet hmem
    omega
  · rw [hpackets] at hpacket
    obtain ⟨turn, hmem, -, htiles⟩ := packet_turn hp hpacket
    have hbound := htiles.chars packet hmem
    omega
  · rw [hpackets] at hpacket
    obtain ⟨turn, hmem, -, htiles⟩ := packet_turn hp hpacket
    exact (htiles.own packet hmem).2.2.2

theorem review_error {module : Text} {e : Refusal} (hmax : 2 ≤ call.max_items) (h : call.review module = .error e) :
    e = .validation ∨ (e = .value (oversized module call.max_chars.toNat) ∧ ∃ candidates chunk,
      candidates.Sublist (call.evidence module) ∧ chunk.Sublist (call.localClaims module) ∧
        Unfit call.packet_digest call.dump_length (call.setting module) call.max_chars.toNat candidates chunk) := by
  unfold AuditCall.review at h
  split at h
  · cases h
  · split at h
    · cases h
    · rcases bind_error_iff.1 h with h | ⟨packets, -, h⟩
      · refine (splitting_error h).imp_right fun ⟨he, p, hp, candidates, chunk, hleft, hright, hunfit⟩ => ?_
        obtain ⟨hsize, hclaim⟩ := sizes (call.evidence module) (call.localClaims module)
          (show 2 ≤ call.max_items.toNat by omega)
        obtain ⟨cs, hcs, hp⟩ := List.mem_flatMap.1 hp
        obtain ⟨ks, hks, rfl⟩ := List.mem_map.1 hp
        exact ⟨he, candidates, chunk, hleft.trans (sublist_orEmpty_chunks hsize hcs),
          hright.trans (sublist_orEmpty_chunks hclaim hks), hunfit⟩
      · cases h

/-- **What a call with good arguments raises.** -/
theorem build_error {e : Refusal} (h : build_audit_packets call = .error e) (hitems : 2 ≤ call.max_items)
    (hchars : 1 ≤ call.max_chars) (hlines : 1 ≤ call.context_lines) (hclaims : (call.book.claims.map (·.id)).Nodup)
    (hcandidates : (call.inventory.candidates.map (·.id)).Nodup) :
    e = .validation ∨ ∃ module candidates chunk, e = .value (oversized module call.max_chars.toNat) ∧
      candidates.Sublist (call.evidence module) ∧ chunk.Sublist (call.localClaims module) ∧
        Unfit call.packet_digest call.dump_length (call.setting module) call.max_chars.toNat candidates chunk := by
  have hordered : (call.ordered.map (·.id)).Nodup :=
    (((List.perm_insertionSort _ call.book.claims).map _).nodup_iff).2 hclaims
  unfold build_audit_packets at h
  dsimp only at h
  rw [if_neg (not_lt.2 hitems), if_neg (not_lt.2 hchars), if_neg (not_lt.2 hlines)] at h
  rcases bind_error_iff.1 h with h | ⟨-, -, h⟩
  · rw [distinctIds_ok_iff.2 hordered] at h
    cases h
  rcases bind_error_iff.1 h with h | ⟨-, -, h⟩
  · rw [distinctIds_ok_iff.2 hcandidates] at h
    cases h
  rcases bind_error_iff.1 h with h | ⟨turns, -, h⟩
  · obtain ⟨module, -, hreview⟩ := mapM_error h
    refine (review_error hitems hreview).imp_right fun ⟨he, candidates, chunk, hrest⟩ => ?_
    exact ⟨module, candidates, chunk, he, hrest⟩
  · cases h

/-- **A review is given everything, within its bounds.** A call that comes out is complete; one with
good arguments raises only over an excerpt that is refused, or a packet that is too long and has at
most one candidate and at most one claim. -/
theorem audit_complete (call : AuditCall) :
    (∀ prep, build_audit_packets call = .ok prep → Complete call prep) ∧
      ∀ e, build_audit_packets call = .error e → 2 ≤ call.max_items → 1 ≤ call.max_chars → 1 ≤ call.context_lines →
        (call.book.claims.map (·.id)).Nodup → (call.inventory.candidates.map (·.id)).Nodup →
          e = .validation ∨ ∃ module candidates chunk, e = .value (oversized module call.max_chars.toNat) ∧
            candidates.Sublist (call.evidence module) ∧ chunk.Sublist (call.localClaims module) ∧
              Unfit call.packet_digest call.dump_length (call.setting module) call.max_chars.toNat candidates chunk :=
  ⟨fun _ h => complete_of_build h, fun _ h hitems hchars hlines hclaims hcandidates =>
    build_error h hitems hchars hlines hclaims hcandidates⟩

/-- One return statement, beside the claims that are given. -/
def loneCall (claims : List BookClaim) (max_chars : ℤ) : AuditCall :=
  { isupper := Char.isUpper, leading_code_spans := fun _ => [], digest := fun inventory => inventory.limitations.flatten
    packet_digest := fun body => body.module ++ body.limitations.flatten
    dump_length := fun packet => (packet.candidates.map fun c => c.snippet.length).sum + packet.limitations.flatten.length
    inventory :=
      { scope := ["a.py".toList], files := [{ path := "a.py".toList, status := .parsed }]
        candidates :=
          [{ id := "e1".toList, path := "a.py".toList, symbol := "f".toList, start_line := 1, end_line := 2, start_column := 0
             end_column := 12, kind := .return, text := "0".toList, snippet := "return 0".toList, source_digest := "d".toList }]
        limitations := [], files_nonblank := by decide, candidates_nonblank := by decide }
    book := { claims }, max_chars, skip_undocumented := false }

def loneClaim : BookClaim :=
  { id := "okf:f:rule:1".toList, node := "f".toList, path := "f.md".toList, line := 3, kind := "rule".toList
    text := "It returns 0.".toList, citations := ["a.py".toList] }

theorem audit_complete_lone : ∃ prep, build_audit_packets (loneCall [loneClaim] 100) = .ok prep ∧
    Complete (loneCall [loneClaim] 100) prep := by
  have hok : (build_audit_packets (loneCall [loneClaim] 100)).isOk = true := by decide +kernel
  obtain ⟨prep, h⟩ := Checks.isOk_iff.1 hok
  exact ⟨prep, h, (audit_complete _).1 prep h⟩

/-- A packet of one candidate and no claim is refused too. -/
theorem claimless_packet_refused : (loneCall [] 3).book.claims = [] ∧
    build_audit_packets (loneCall [] 3) = .error (.value (oversized "a.py".toList 3)) := by
  refine ⟨rfl, Checks.raised_eq_some_iff.1 ?_⟩
  decide +kernel

end Whole

end Stablemate.Behavior
