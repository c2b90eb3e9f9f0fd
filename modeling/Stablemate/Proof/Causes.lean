import Stablemate.Proof.Findings

/-!
# No finding of a coder run is lost

* `pairing_spec`: what a round's reports merge into, and what is merged into them.
* `holds_file_findings`, `holds_consolidate`, `holds_own`: each operation keeps the list sound, after
  each of its writes; `own` leaves no open finding with finished work, unless the follow-up of a
  finding's text is done.
* `rerun_same_iff`: when a round that is filed again leaves the open findings as they are.
* `findings_stay` puts them together.
-/

namespace Stablemate.Coder

open Cut (Prog Holds holds_pure holds_bind holds_throw holds_foldlM)
open WorkList (ofKind prune settle)

/-! ## Ids -/

section Names

theorem find_reverse_digits {digits rest : Text} {c : Char} (hdigits : ∀ d ∈ digits, d ≠ '.' ∧ d ≠ '-')
    (hc : c = '.' ∨ c = '-') : ((rest ++ [c] ++ digits).reverse.find? fun d => d = '.' || d = '-') = some c := by
  have hnone : digits.reverse.find? (fun d => d = '.' || d = '-') = none := by
    rw [List.find?_eq_none]
    intro d hd
    obtain ⟨hdot, hdash⟩ := hdigits d (List.mem_reverse.1 hd)
    simp [hdot, hdash]
  rw [List.reverse_append, List.find?_append, hnone, Option.none_or, List.reverse_append, List.reverse_singleton,
    List.singleton_append, List.find?_cons]
  rcases hc with rfl | rfl <;> rfl

theorem dotted_finding_id (work_id source : Text) (number : ℤ) (index : ℕ) :
    dotted (finding_id work_id source number index) := by
  have hdigits : ∀ d ∈ PyJson.decimal (index + 1), d ≠ '.' ∧ d ≠ '-' := by
    intro d hd
    have hpos : ¬ ((index : ℤ) + 1 < 0) := by omega
    unfold PyJson.decimal at hd
    rw [if_neg hpos] at hd
    have hdigit : d.isDigit = true := Nat.isDigit_of_mem_toDigits (by decide) (by decide) hd
    constructor
    · rintro rfl
      exact absurd hdigit (by decide)
    · rintro rfl
      exact absurd hdigit (by decide)
  exact find_reverse_digits hdigits (.inl rfl)

theorem mem_toHex {n x : ℕ} {c : Char} (h : c ∈ Sha256.toHex n x) : c ≠ '.' ∧ c ≠ '-' := by
  induction n generalizing x with
  | zero => exact absurd h List.not_mem_nil
  | succ n ih =>
    rcases List.mem_append.1 h with h | h
    · exact ih h
    · have hlt : x % 16 < 16 := Nat.mod_lt _ (by decide)
      have hall : ∀ d < 16, "0123456789abcdef".toList.getD d '0' ≠ '.' ∧ "0123456789abcdef".toList.getD d '0' ≠ '-' := by
        decide
      rw [List.mem_singleton.1 h]
      exact hall _ hlt

theorem follow_up_id_eq (parent : Item) (entry : FollowUp) : ∃ key : Text, (∀ c ∈ key, c ≠ '.' ∧ c ≠ '-') ∧
    follow_up_id parent entry = parent.id ++ lit "/follow-up" ++ ['-'] ++ key := by
  refine ⟨(Sha256.hexdigest (Text.utf8 (Text.strip entry.title ++ ['\n'] ++ Text.strip entry.reason))).take 8, ?_, ?_⟩
  · intro c hc
    obtain ⟨word, -, hword⟩ := List.mem_flatMap.1 (List.mem_of_mem_take hc)
    exact mem_toHex hword
  · unfold follow_up_id
    have hlit : lit "/follow-up-" = lit "/follow-up" ++ ['-'] := by decide
    rw [hlit, ← List.append_assoc]

theorem not_dotted_follow_up (parent : Item) (entry : FollowUp) : ¬ dotted (follow_up_id parent entry) := by
  obtain ⟨key, hkey, heq⟩ := follow_up_id_eq parent entry
  unfold dotted
  rw [heq, find_reverse_digits hkey (.inr rfl)]
  decide

theorem follow_up_id_ne_new (parent : Item) (entry : FollowUp) : follow_up_id parent entry ≠ NEW := by
  intro heq
  have hslash : '/' ∈ follow_up_id parent entry := by
    unfold follow_up_id
    exact List.mem_append_left _ (List.mem_append_right _ (by decide))
  rw [heq] at hslash
  exact absurd hslash (by decide)

end Names

/-! ## Rulings -/

/-- A report is new, or describes one of the causes. -/
theorem same_causes_mem (judge : Judge) (reports causes : List (Text × Text)) (rid : Text) :
    same_causes judge reports causes rid = NEW ∨ same_causes judge reports causes rid ∈ causes.map Prod.fst := by
  unfold same_causes
  split
  · exact .inl rfl
  · unfold answer_of
    cases hlook : (judge.rule (cause_question reports causes)).lookup rid with
    | none => exact .inl rfl
    | some answer =>
      have hproper : (cause_question reports causes).Proper := fun known hknown =>
        List.mem_append_left _ (List.mem_map_of_mem hknown)
      obtain ⟨before, after, hsplit, -⟩ := List.lookup_eq_some_iff.1 hlook
      have hmem : (rid, answer) ∈ judge.rule (cause_question reports causes) := by
        rw [hsplit]
        exact List.mem_append_right _ List.mem_cons_self
      have hallowed : answer ∈ causes.map Prod.fst ++ [NEW] := (judge.accepted _ hproper _ hmem).2
      rcases List.mem_append.1 hallowed with hcause | hnew
      · exact .inr hcause
      · exact .inl (List.mem_singleton.1 hnew)

/-- What `pairing` makes of the reports of a round. -/
structure Paired (same : Text → Text) (rids : List Text) (taken : List (Text × Text)) (into : List Text) : Prop where
  length : into.length = rids.length
  merged : ∀ m ∈ into, m = [] ∨ ∃ merge ∈ taken, m = merge.2
  first : ∀ merge ∈ taken, same merge.2 = merge.1 ∧ merge.1 ≠ NEW ∧ ∃ i : ℕ, rids[i]? = some merge.2 ∧ into[i]? = some []
  all : ∀ rid ∈ rids, same rid ≠ NEW → ∃ merge ∈ taken, merge.1 = same rid

section Pairing

variable {same : Text → Text} {rids into : List Text} {taken : List (Text × Text)} {rid m : Text}

/-- A report that takes no old finding. -/
theorem Paired.snoc (h : Paired same rids taken into) (hm : m = [] ∨ ∃ merge ∈ taken, m = merge.2)
    (hall : same rid ≠ NEW → ∃ merge ∈ taken, merge.1 = same rid) : Paired same (rids ++ [rid]) taken (into ++ [m]) := by
  refine ⟨?_, fun m' hm' => ?_, fun merge hmerge => ?_, fun r hr hnew => ?_⟩
  · rw [List.length_append, List.length_append, h.length]
    rfl
  · rcases List.mem_append.1 hm' with hm' | hm'
    · exact h.merged m' hm'
    · rw [List.mem_singleton.1 hm']
      exact hm
  · obtain ⟨hsame, hne, i, hrid, hinto⟩ := h.first merge hmerge
    refine ⟨hsame, hne, i, ?_, ?_⟩
    · rw [List.getElem?_append_left (List.getElem?_eq_some_iff.1 hrid).1, hrid]
    · rw [List.getElem?_append_left (List.getElem?_eq_some_iff.1 hinto).1, hinto]
  · rcases List.mem_append.1 hr with hr | hr
    · exact h.all r hr hnew
    · obtain rfl := List.mem_singleton.1 hr
      exact hall hnew

/-- A report that is the first of the cause of an old finding. -/
theorem Paired.take (h : Paired same rids taken into) (hnew : same rid ≠ NEW) :
    Paired same (rids ++ [rid]) (taken ++ [(same rid, rid)]) (into ++ [[]]) := by
  have hsub : ∀ merge ∈ taken, merge ∈ taken ++ [(same rid, rid)] := fun merge hmerge => List.mem_append_left _ hmerge
  refine ⟨?_, fun m' hm' => ?_, fun merge hmerge => ?_, fun r hr hr' => ?_⟩
  · rw [List.length_append, List.length_append, h.length]
    rfl
  · rcases List.mem_append.1 hm' with hm' | hm'
    · exact (h.merged m' hm').imp id fun ⟨merge, hmerge, heq⟩ => ⟨merge, hsub merge hmerge, heq⟩
    · exact .inl (List.mem_singleton.1 hm')
  · rcases List.mem_append.1 hmerge with hmerge | hmerge
    · obtain ⟨hsame, hne, i, hrid, hinto⟩ := h.first merge hmerge
      refine ⟨hsame, hne, i, ?_, ?_⟩
      · rw [List.getElem?_append_left (List.getElem?_eq_some_iff.1 hrid).1, hrid]
      · rw [List.getElem?_append_left (List.getElem?_eq_some_iff.1 hinto).1, hinto]
    · obtain rfl := List.mem_singleton.1 hmerge
      refine ⟨rfl, hnew, rids.length, ?_, ?_⟩
      · simp
      · rw [← h.length]
        simp
  · rcases List.mem_append.1 hr with hr | hr
    · obtain ⟨merge, hmerge, heq⟩ := h.all r hr hr'
      exact ⟨merge, hsub merge hmerge, heq⟩
    · obtain rfl := List.mem_singleton.1 hr
      exact ⟨_, List.mem_append_right _ List.mem_cons_self, rfl⟩

theorem pairing_spec (same : Text → Text) (rids : List Text) :
    Paired same rids (pairing same rids).1 (pairing same rids).2 := by
  induction rids using List.reverseRecOn with
  | nil =>
    exact ⟨rfl, fun _ h => absurd h List.not_mem_nil, fun _ h => absurd h List.not_mem_nil, fun _ h => absurd h List.not_mem_nil⟩
  | append_singleton rids rid ih =>
    have hstep : pairing same (rids ++ [rid]) = pairStep same (pairing same rids) rid := by
      unfold pairing
      rw [List.foldl_append, List.foldl_cons, List.foldl_nil]
    rw [hstep]
    unfold pairStep
    split
    · next hnew => exact ih.snoc (.inl rfl) fun hne => absurd hnew hne
    · next hnew =>
      split
      · next first hlook =>
        obtain ⟨before, after, hsplit, -⟩ := List.lookup_eq_some_iff.1 hlook
        have hmem : (same rid, first) ∈ (pairing same rids).1 := by
          rw [hsplit]
          exact List.mem_append_right _ List.mem_cons_self
        exact ih.snoc (.inr ⟨_, hmem, rfl⟩) fun _ => ⟨_, hmem, rfl⟩
      · exact ih.take hnew

end Pairing

/-! ## A round of findings -/

section Round

variable {I E : State → Prop} {judge : Judge} {work_id source : Text} {number : ℤ} {findings : List Report} {caller : Text}
  {same : Text → Text} {s : State}

/-- The open findings of one work item, or with an empty id of all. -/
def opened (s : State) (work_id : Text) : List Item :=
  (ofKind s.items (some [FINDING])).filter fun it => !SCHEME.isDone it && (work_id = [] || it.content.work_id = some work_id)

/-- A finding that is neither settled nor declined nor merged. -/
structure IsOpen (s : State) (it : Item) : Prop where
  mem : it ∈ s.items
  kind : it.kind = FINDING
  open_ : SCHEME.isDone it = false

theorem IsOpen.not_merged {it : Item} (h : IsOpen s it) : it.status ≠ MERGED := by
  intro hmerged
  have hdone := h.open_
  unfold WorkList.Scheme.isDone at hdone
  rw [hmerged] at hdone
  exact absurd hdone (by decide)

theorem mem_ofKind_one {it : Item} {kind : Text} {rows : List Item} :
    it ∈ ofKind rows (some [kind]) ↔ it ∈ rows ∧ it.kind = kind := by
  simp [ofKind, WorkList.WorkItem.isKind]

theorem isOpen_of_opened {it : Item} (h : it ∈ opened s work_id) : IsOpen s it := by
  obtain ⟨hrow, hopen⟩ := List.mem_filter.1 h
  obtain ⟨hmem, hkind⟩ := mem_ofKind_one.1 hrow
  rw [Bool.and_eq_true, Bool.not_eq_true'] at hopen
  exact ⟨hmem, hkind, hopen.1⟩

theorem holds_open_findings {Q : State → List Item → Prop} (h : Q s (opened s work_id)) :
    Holds I E Q (open_findings work_id) s := h

theorem holds_find {Q : State → Option Item → Prop} {id : Text} (h : Q s (s.items.find? fun it => it.id = id)) :
    Holds I E Q (find id) s := by
  unfold find
  apply holds_bind
  apply holds_items
  have hall : ofKind s.items none = s.items := List.filter_true _
  rw [hall]
  exact holds_pure h

/-- The ids of a round. -/
def roundIds (work_id source : Text) (number : ℤ) (findings : List Report) : List Text :=
  (reports work_id source number findings).map Prod.fst

theorem roundIds_eq : roundIds work_id source number findings = findings.mapIdx fun i _ => finding_id work_id source number i := by
  unfold roundIds reports
  apply List.ext_getElem?
  intro i
  rw [List.getElem?_map, List.getElem?_mapIdx, List.getElem?_mapIdx, Option.map_map]
  rfl

/-- An item of a round: open, or merged into one that takes an old finding. -/
structure RoundRow (same : Text → Text) (work_id source : Text) (number : ℤ) (findings : List Report) (it : Item) : Prop where
  kind : it.kind = FINDING
  id : it.id ∈ roundIds work_id source number findings
  dotted : dotted it.id
  link : it.status = OPEN ∧ it.content.same_as = none ∨
    ∃ merge ∈ (pairing same (roundIds work_id source number findings)).1, it.status = MERGED ∧ it.content.same_as = some merge.2

theorem round_row {it : Item} (h : it ∈ roundItems same work_id source number findings) :
    RoundRow same work_id source number findings it := by
  obtain ⟨i, hi, rfl⟩ := List.mem_mapIdx.1 h
  have hid : finding_id work_id source number i ∈ roundIds work_id source number findings := by
    rw [roundIds_eq]
    exact List.mem_mapIdx.2 ⟨i, hi, rfl⟩
  refine ⟨rfl, hid, dotted_finding_id _ _ _ _, ?_⟩
  by_cases hinto : same_of (pairing same ((reports work_id source number findings).map Prod.fst)).2 i = []
  · exact .inl ⟨if_pos hinto, if_pos hinto⟩
  · right
    have hmem : same_of (pairing same ((reports work_id source number findings).map Prod.fst)).2 i ∈
        (pairing same ((reports work_id source number findings).map Prod.fst)).2 := by
      unfold same_of at hinto ⊢
      rw [List.getD_eq_getElem?_getD] at hinto ⊢
      cases hget : (pairing same ((reports work_id source number findings).map Prod.fst)).2[i]? with
      | none =>
        rw [hget] at hinto
        exact absurd rfl hinto
      | some m => exact List.mem_of_getElem? hget
    rcases (pairing_spec same _).merged _ hmem with hnil | ⟨merge, hmerge, heq⟩
    · exact absurd hnil hinto
    · exact ⟨merge, hmerge, if_neg hinto, (if_neg hinto).trans (congrArg some heq)⟩

/-- What takes an old finding is itself open in the round. -/
theorem round_first {merge : Text × Text} (h : merge ∈ (pairing same (roundIds work_id source number findings)).1) :
    merge.2 ∈ roundIds work_id source number findings ∧
      ∃ it ∈ roundItems same work_id source number findings, it.id = merge.2 ∧ it.status = OPEN ∧ it.content.same_as = none := by
  obtain ⟨-, -, i, hrid, hinto⟩ := (pairing_spec same _).first merge h
  refine ⟨List.mem_of_getElem? hrid, ?_⟩
  have hsame : same_of (pairing same ((reports work_id source number findings).map Prod.fst)).2 i = [] := by
    unfold same_of
    rw [List.getD_eq_getElem?_getD]
    exact congrArg (·.getD []) hinto
  rw [roundIds_eq, List.getElem?_mapIdx] at hrid
  obtain ⟨entry, hentry, hid⟩ := Option.map_eq_some_iff.1 hrid
  obtain ⟨hi, rfl⟩ := List.getElem?_eq_some_iff.1 hentry
  exact ⟨_, List.mem_mapIdx.2 ⟨i, hi, rfl⟩, hid, if_pos hsame, if_pos hsame⟩

/-- **A round that keeps the list sound**: the judge names no finding of the round itself, and no other
content has the digest of one that it files. -/
structure Apart (judge : Judge) (work_id source : Text) (number : ℤ) (findings : List Report) (s : State) : Prop where
  own : ∀ rid ∈ roundIds work_id source number findings,
    judged judge work_id source number findings (opened s work_id) rid ∉ roundIds work_id source number findings
  digests : ∀ it ∈ roundItems (judged judge work_id source number findings (opened s work_id)) work_id source number findings,
    ∀ known ∈ s.items, known.id = it.id → payload_digest known = payload_digest it →
      known.kind = it.kind ∧ known.content = it.content

/-- What takes an old finding is on the list when the round is filed, and is not merged. -/
theorem taken_root {new : List Item} (h : Sound s) (hapart : Apart judge work_id source number findings s)
    (hfresh : Fresh s.items
      (roundItems (judged judge work_id source number findings (opened s work_id)) work_id source number findings) new caller)
    {merge : Text × Text} (hmerge : merge ∈ (pairing (judged judge work_id source number findings (opened s work_id))
      (roundIds work_id source number findings)).1) :
    ∃ root ∈ s.items ++ new, root.id = merge.2 ∧ root.kind = FINDING ∧ root.status ≠ MERGED := by
  obtain ⟨-, it, hit, hid, hopen, hsame⟩ := round_first hmerge
  have hkind := (round_row hit).kind
  rcases hfresh.rest it hit with hnew | ⟨known, hknown, hkid, hdigest⟩
  · refine ⟨it, List.mem_append_right _ hnew, hid, hkind, ?_⟩
    rw [hopen]
    decide
  · -- a finding that is known as one without a link is not merged
    obtain ⟨hkkind, hcontent⟩ := hapart.digests it hit known hknown hkid hdigest
    have hknownkind : known.kind = FINDING := hkkind.trans hkind
    refine ⟨known, List.mem_append_left _ hknown, hkid.trans hid, hknownkind, fun hmerged => ?_⟩
    apply h.same_as hknown hknownkind hmerged
    rw [hcontent]
    exact hsame

theorem sound_round {new : List Item} (h : Sound s) (hapart : Apart judge work_id source number findings s)
    (hfresh : Fresh s.items
      (roundItems (judged judge work_id source number findings (opened s work_id)) work_id source number findings) new caller)
    (hrep : repeated (s.items.map (·.id)) new = none) : Sound (added s new) := by
  apply h.added hrep
  · intro it hit hkind
    have hrow := round_row (hfresh.sub it hit)
    refine ⟨hrow.dotted, ?_⟩
    rcases hrow.link with ⟨hopen, -⟩ | ⟨merge, hmerge, hmerged, hsame⟩
    · left
      rw [hopen]
      decide
    · right
      obtain ⟨root, hroot, hid, hrootkind, hrootopen⟩ := taken_root h hapart hfresh hmerge
      exact ⟨hmerged, root, hroot, hrootkind, hrootopen, by rw [hsame, hid]⟩
  · intro it hit hkind
    have hfinding := (round_row (hfresh.sub it hit)).kind
    rw [hfinding] at hkind
    exact absurd hkind (by decide)

/-- What is still to be merged: an old finding that is on the list, and one of the round that is not merged. -/
structure Merging (rids : List Text) (s : State) (merge : Text × Text) : Prop where
  old : ∃ it ∈ s.items, it.id = merge.1 ∧ it.kind = FINDING
  apart : merge.1 ∉ rids
  round : merge.2 ∈ rids
  root : ∃ root ∈ s.items, root.id = merge.2 ∧ root.kind = FINDING ∧ root.status ≠ MERGED

theorem holds_mergeOld {Q : State → Unit → Prop} {merge : Text × Text} (hids : (s.items.map (·.id)).Nodup)
    (hnone : s.items.find? (fun it => it.id = merge.1) = none → Q s ())
    (hsome : ∀ stale ∈ s.items, stale.id = merge.1 → ∀ item : Item, Takes s item stale → item.status = MERGED →
      item.content.same_as = some merge.2 → I (replaced s item) ∧ Q (replaced s item) ()) :
    Holds I E Q (mergeOld merge) s := by
  unfold mergeOld
  apply holds_bind
  apply holds_find
  cases hfind : s.items.find? (fun it => it.id = merge.1) with
  | none => exact holds_pure (hnone hfind)
  | some stale =>
    have hmem : stale ∈ s.items := List.mem_of_find?_eq_some hfind
    have hid : stale.id = merge.1 := by simpa using List.find?_some hfind
    obtain ⟨hI, hQ⟩ := hsome stale hmem hid { stale with
      content := { stale.content with same_as := some merge.2 }, status := MERGED } ⟨hmem, rfl, rfl⟩ rfl rfl
    exact holds_replace hids ⟨hmem, rfl, rfl⟩ hI hQ

theorem holds_merge {rids : List Text} {merge : Text × Text} {rest : List (Text × Text)} (h : Sound s)
    (hall : ∀ m ∈ merge :: rest, Merging rids s m) :
    Holds Sound Sound (fun s _ => Sound s ∧ ∀ m ∈ rest, Merging rids s m) (mergeOld merge) s := by
  obtain ⟨hhead, hrest⟩ := List.forall_mem_cons.1 hall
  apply holds_mergeOld h.ids (fun _ => ⟨h, hrest⟩)
  intro stale hmem hid item htakes hmerged hsame
  obtain ⟨old, hold, holdid, holdkind⟩ := hhead.old
  obtain rfl := h.eq_of_id hmem hold (hid.trans holdid.symm)
  obtain ⟨root, hroot, hrootid, hrootkind, hrootopen⟩ := hhead.root
  have hne : root.id ≠ item.id := by
    rw [hrootid, ← htakes.id, hid]
    exact fun heq => hhead.apart (heq ▸ hhead.round)
  have hsound := h.replaced htakes fun _ =>
    .inr (.inr ⟨hmerged, root, hroot, hne, hrootkind, hrootopen, by rw [hrootid]; exact hsame⟩)
  have hrow := fun it : Item => @mem_replaced s it item stale h.ids htakes
  refine ⟨hsound, hsound, fun m hm => ?_⟩
  obtain ⟨⟨old', hold', holdid', holdkind'⟩, hapart, hround', root', hroot', hrootid', hrest'⟩ := hrest m hm
  refine ⟨?_, hapart, hround', root', (hrow root').2 (.inr ⟨hroot', ?_⟩), hrootid', hrest'⟩
  · by_cases heq : old'.id = item.id
    · exact ⟨item, (hrow item).2 (.inl rfl), heq.symm.trans holdid', htakes.kind.symm.trans holdkind⟩
    · exact ⟨old', (hrow old').2 (.inr ⟨hold', heq⟩), holdid', holdkind'⟩
  · -- what takes an old finding is of the round, and `stale` is not
    intro heq
    rw [hrootid', ← htakes.id, hid] at heq
    exact hhead.apart (heq ▸ hround')

/-- **Filing a round** keeps the list sound, after each of its writes. -/
theorem holds_file_findings (h : Sound s) (hapart : Apart judge work_id source number findings s) :
    Holds Sound Sound (fun s _ => Sound s) (file_findings judge work_id source number findings caller) s := by
  unfold file_findings
  apply holds_bind
  apply holds_open_findings
  apply holds_bind
  apply holds_file h
  intro new hfresh hrep
  have hsound := sound_round h hapart hfresh hrep
  refine ⟨hsound, ?_⟩
  apply holds_bind
  have hmerging : ∀ merge ∈ (pairing (judged judge work_id source number findings (opened s work_id))
      (roundIds work_id source number findings)).1, Merging (roundIds work_id source number findings) (added s new) merge := by
    intro merge hmerge
    obtain ⟨hsame, hnew, i, hrid, -⟩ := (pairing_spec _ _).first merge hmerge
    have hmem : merge.2 ∈ roundIds work_id source number findings := List.mem_of_getElem? hrid
    refine ⟨?_, ?_, hmem, taken_root h hapart hfresh hmerge⟩
    · -- the judge answers with one of the open findings
      rcases same_causes_mem judge (reports work_id source number findings)
        ((opened s work_id).map fun it => (it.id, issue it)) merge.2 with heq | hcause
      · exact absurd (hsame.symm.trans heq) hnew
      · have hold : merge.1 ∈ ((opened s work_id).map fun it => (it.id, issue it)).map Prod.fst := by
          rw [← hsame]
          exact hcause
        obtain ⟨known, hknown, heq⟩ := List.mem_map.1 hold
        obtain ⟨old, hopened, rfl⟩ := List.mem_map.1 hknown
        have hopen := isOpen_of_opened hopened
        exact ⟨old, List.mem_append_left _ hopen.mem, heq, hopen.kind⟩
    · rw [← hsame]
      exact hapart.own merge.2 hmem
  have hloop := holds_foldlM (I := Sound) (E := Sound) (J := fun rest (_ : Unit) s =>
    Sound s ∧ ∀ m ∈ rest, Merging (roundIds work_id source number findings) s m) (b := ())
    (fun merge rest _ s hJ => holds_merge hJ.1 hJ.2) ⟨hsound, hmerging⟩
  exact hloop.mono fun s _ hs => holds_pure hs.1

end Round

/-! ## Follow-ups of one cause -/

section Consolidate

variable {I E : State → Prop} {s : State}

theorem nodup_ofKind (h : (s.items.map (·.id)).Nodup) (kind : WorkList.KindFilter) :
    ((ofKind s.items kind).map (·.id)).Nodup := h.sublist (List.filter_sublist.map _)

theorem holds_findings_of {Q : State → List Item → Prop} {work_id : Text}
    (h : Q s ((ofKind s.items (some [FINDING])).filter fun it => it.content.work_id = some work_id)) :
    Holds I E Q (findings_of work_id) s := h

/-- A finding keeps its link when what it belongs to changes. -/
theorem link_kept (it item : Item) (hstatus : item.status = it.status) (hsame : item.content.same_as = it.content.same_as) :
    item.status ≠ MERGED ∨ it.status = MERGED ∧ item.status = MERGED ∧ item.content.same_as = it.content.same_as := by
  by_cases hmerged : it.status = MERGED
  · exact .inr ⟨hmerged, hstatus.trans hmerged, hsame⟩
  · exact .inl (hstatus ▸ hmerged)

theorem holds_rehome {found : List Item} (h : Sound s) (hfound : ∀ f ∈ found, f ∈ s.items)
    (hnodup : (found.map (·.id)).Nodup) (keep : Text) :
    Holds Sound Sound (fun s _ => Sound s) (found.foldlM (fun _ finding => replace { finding with
      content := { finding.content with work_id := some keep } }) ()) s := by
  have hstep : ∀ (f : Item) (rest : List Item) (_ : Unit) (s : State),
      (Sound s ∧ (∀ g ∈ f :: rest, g ∈ s.items) ∧ ((f :: rest).map (·.id)).Nodup) →
      Holds Sound Sound (fun s _ => Sound s ∧ (∀ g ∈ rest, g ∈ s.items) ∧ (rest.map (·.id)).Nodup)
        (replace { f with content := { f.content with work_id := some keep } }) s := by
    rintro f rest - s ⟨hs, hmem, hids⟩
    obtain ⟨hf, hrest⟩ := List.forall_mem_cons.1 hmem
    rw [List.map_cons, List.nodup_cons] at hids
    have htakes : Takes s { f with content := { f.content with work_id := some keep } } f := ⟨hf, rfl, rfl⟩
    have hsound := hs.replaced htakes fun _ => (link_kept f _ rfl rfl).imp id .inl
    refine holds_replace hs.ids htakes hsound ⟨hsound, fun g hg => ?_, hids.2⟩
    have hne : g.id ≠ f.id := fun heq => hids.1 (List.mem_map.2 ⟨g, hg, heq⟩)
    exact (mem_replaced hs.ids htakes).2 (.inr ⟨hrest g hg, hne⟩)
  exact (holds_foldlM (J := fun rest (_ : Unit) s => Sound s ∧ (∀ g ∈ rest, g ∈ s.items) ∧ (rest.map (·.id)).Nodup)
    hstep ⟨h, hfound, hnodup⟩).mono fun s _ hs => hs.1

/-- **Pruning follow-ups of one cause** keeps the list sound: their findings go to the one that is kept. -/
theorem holds_consolidate (h : Sound s) : Holds Sound Sound (fun s _ => Sound s) consolidate s := by
  unfold consolidate
  apply holds_bind
  apply holds_items
  apply holds_foldlM (J := fun _ (_ : List Text) s => Sound s) _ h
  intro group groups pruned s hs
  split
  · exact holds_pure hs
  · next keep hkeep =>
    apply holds_foldlM (J := fun _ (_ : List Text) s => Sound s) _ hs
    intro it items pruned s hs
    dsimp only
    split
    · exact holds_pure hs
    · apply holds_bind
      apply holds_findings_of
      apply holds_bind
      have hfound : ∀ f ∈ (ofKind s.items (some [FINDING])).filter (fun f => f.content.work_id = some it.id), f ∈ s.items :=
        fun f hf => (mem_ofKind_one.1 (List.mem_of_mem_filter hf)).1
      refine (holds_rehome hs hfound ((nodup_ofKind hs.ids _).sublist (List.filter_sublist.map _)) keep.id).mono ?_
      intro s _ hs
      have hpruned := hs.pruned it.id (show FOLLOW_UP ≠ FINDING by decide)
      exact holds_bind (holds_edit hpruned (holds_pure hpruned))

end Consolidate

/-! ## Findings of finished work -/

section Own

variable {I E : State → Prop} {s t : State} {it item old : Item}

/-- Stories and follow-ups keep their status, and none becomes done. -/
structure Steady (s t : State) : Prop where
  kept : ∀ p ∈ s.items, p.kind ≠ FINDING → ∃ q ∈ t.items, q.id = p.id ∧ q.kind = p.kind ∧ q.status = p.status
  done : ∀ q ∈ t.items, q.kind ≠ FINDING → q.status = DONE → ∃ p ∈ s.items, p.id = q.id ∧ p.kind = q.kind ∧ p.status = DONE

theorem Steady.refl (s : State) : Steady s s :=
  ⟨fun p hp _ => ⟨p, hp, rfl, rfl, rfl⟩, fun q hq _ hdone => ⟨q, hq, rfl, rfl, hdone⟩⟩

theorem Steady.trans {u : State} (h : Steady s t) (h' : Steady t u) : Steady s u := by
  refine ⟨fun p hp hkind => ?_, fun q hq hkind hdone => ?_⟩
  · obtain ⟨q, hq, hid, hqkind, hstatus⟩ := h.kept p hp hkind
    obtain ⟨r, hr, hid', hrkind, hstatus'⟩ := h'.kept q hq (hqkind ▸ hkind)
    exact ⟨r, hr, hid'.trans hid, hrkind.trans hqkind, hstatus'.trans hstatus⟩
  · obtain ⟨r, hr, hid, hrkind, hrdone⟩ := h'.done q hq hkind hdone
    obtain ⟨p, hp, hid', hpkind, hpdone⟩ := h.done r hr (hrkind ▸ hkind) hrdone
    exact ⟨p, hp, hid'.trans hid, hpkind.trans hrkind, hpdone⟩

/-- A replacement that changes no status, unless it is that of a finding. -/
theorem steady_replaced (hids : (s.items.map (·.id)).Nodup) (htakes : Takes s item old)
    (hstatus : item.kind = FINDING ∨ old.status = item.status) : Steady s (replaced s item) := by
  have hrow := fun it : Item => @mem_replaced s it item old hids htakes
  refine ⟨fun p hp hkind => ?_, fun q hq hkind hdone => ?_⟩
  · by_cases hid : p.id = item.id
    · obtain rfl : p = old := eq_of_key hids hp htakes.mem (hid.trans htakes.id.symm)
      rcases hstatus with hfinding | hsame
      · exact absurd (htakes.kind.trans hfinding) hkind
      · exact ⟨item, (hrow item).2 (.inl rfl), hid.symm, htakes.kind.symm, hsame.symm⟩
    · exact ⟨p, (hrow p).2 (.inr ⟨hp, hid⟩), rfl, rfl, rfl⟩
  · rcases (hrow q).1 hq with rfl | ⟨hq, -⟩
    · rcases hstatus with hfinding | hsame
      · exact absurd hfinding hkind
      · exact ⟨old, htakes.mem, htakes.id, htakes.kind, hsame.trans hdone⟩
    · exact ⟨q, hq, rfl, rfl, hdone⟩

/-- The open finding belongs to work that is done. -/
def OfDone (s : State) (it : Item) : Prop :=
  ∃ p ∈ s.items, p.kind ∈ PROGRESS_KINDS ∧ p.status = DONE ∧ it.content.work_id = some p.id

/-- `own` on its way: `T` are the findings that are still to be handed over. If `C`, no others belong to
work that is done. -/
structure Stage (s₀ : State) (C : Prop) (T : Item → Prop) (s : State) : Prop where
  sound : Sound s
  intact : ∀ it, T it → IsOpen s it
  steady : Steady s₀ s
  only : C → ∀ it, IsOpen s it → OfDone s it → T it

variable {s₀ : State} {C : Prop} {T T' : Item → Prop} {group rest : List Item} {target : Item} {origins : Item → Text}

theorem finding_not_progress (h : it.kind ∈ PROGRESS_KINDS) : it.kind ≠ FINDING := by
  intro heq
  rw [heq] at h
  exact absurd h (by decide)

/-- Within a group: `rest` is still to be handed to the target, and the leader is not merged. -/
structure Handing (s₀ : State) (C : Prop) (T : Item → Prop) (target : Item) (leader : Text) (rest : List Item) (s : State) :
    Prop where
  stage : Stage s₀ C (fun it => T it ∨ it ∈ rest) s
  apart : ∀ it, T it → it ∉ rest
  ids : (rest.map (·.id)).Nodup
  target : ∃ row ∈ s.items, row.id = target.id ∧ row.kind = target.kind ∧ row.status = target.status
  leader : ∃ root ∈ s.items, root.id = leader ∧ root.kind = FINDING ∧ root.status ≠ MERGED

/-- One finding is replaced by one that is merged, or that belongs to the target. -/
theorem Handing.next (item : Item) {leader : Text} (h : Handing s₀ C T target leader (it :: rest) s) (hid : item.id = it.id)
    (hkind : item.kind = FINDING) (htarget : target.kind ≠ FINDING)
    (hlink : item.status ≠ MERGED ∧ it.id = leader ∨ item.status = MERGED ∧ it.id ≠ leader ∧ item.content.same_as = some leader)
    (hwork : item.status ≠ MERGED → item.content.work_id = some target.id)
    (hdone : C → target.kind ∈ PROGRESS_KINDS → target.status ≠ DONE) :
    Takes s item it ∧ Handing s₀ C T target leader rest (replaced s item) ∧ Steady s (replaced s item) := by
  have hopen : IsOpen s it := h.stage.intact it (.inr List.mem_cons_self)
  have hids := h.stage.sound.ids
  have htakes : Takes s item it := ⟨hopen.mem, hid.symm, hopen.kind.trans hkind.symm⟩
  have hrow := fun x : Item => @mem_replaced s x item it hids htakes
  have hsteady := steady_replaced hids htakes (.inl hkind)
  obtain ⟨root, hroot, hrootid, hrootkind, hrootopen⟩ := h.leader
  have hsound : Sound (replaced s item) := by
    apply h.stage.sound.replaced htakes
    intro _
    rcases hlink with ⟨hitem, -⟩ | ⟨hmerged, hne, hsame⟩
    · exact .inl hitem
    · refine .inr (.inr ⟨hmerged, root, hroot, ?_, hrootkind, hrootopen, by rw [hrootid]; exact hsame⟩)
      rw [hrootid, hid]
      exact hne.symm
  obtain ⟨row, hrowmem, hrowid, hrowkind, hrowstatus⟩ := h.target
  obtain ⟨row', hrow', hrowid', hrowkind', hrowstatus'⟩ := hsteady.kept row hrowmem (hrowkind ▸ htarget)
  have htargetrow : row'.id = target.id ∧ row'.kind = target.kind ∧ row'.status = target.status :=
    ⟨hrowid'.trans hrowid, hrowkind'.trans hrowkind, hrowstatus'.trans hrowstatus⟩
  have hnodup := h.ids
  rw [List.map_cons, List.nodup_cons] at hnodup
  refine ⟨htakes, ⟨⟨hsound, fun x hx => ?_, h.stage.steady.trans hsteady, fun hC x hx hof => ?_⟩,
    fun x hx hmem => h.apart x hx (List.mem_cons_of_mem _ hmem), hnodup.2, ⟨row', hrow', htargetrow⟩, ?_⟩, hsteady⟩
  · -- what is still to come is not the item that was replaced
    have hopen' : IsOpen s x := h.stage.intact x (hx.imp id (List.mem_cons_of_mem _))
    refine ⟨(hrow x).2 (.inr ⟨hopen'.mem, fun heq => ?_⟩), hopen'.kind, hopen'.open_⟩
    obtain rfl := h.stage.sound.eq_of_id hopen'.mem hopen.mem (heq.trans hid)
    rcases hx with hx | hx
    · exact h.apart x hx List.mem_cons_self
    · exact hnodup.1 (List.mem_map_of_mem hx)
  · obtain ⟨p, hp, hpkind, hpdone, hpwork⟩ := hof
    rcases (hrow x).1 hx.mem with rfl | ⟨hxs, hne⟩
    · have hpid : some target.id = some p.id := (hwork hx.not_merged).symm.trans hpwork
      obtain rfl := hsound.eq_of_id hp hrow' ((Option.some.inj hpid).symm.trans htargetrow.1.symm)
      exact absurd (htargetrow.2.2.symm.trans hpdone) (hdone hC (htargetrow.2.1 ▸ hpkind))
    · have hpitem : p ≠ item := fun heq => finding_not_progress hpkind (heq ▸ hkind)
      have hps : p ∈ s.items := ((hrow p).1 hp).elim (fun heq => absurd heq hpitem) And.left
      rcases h.stage.only hC x ⟨hxs, hx.kind, hx.open_⟩ ⟨p, hps, hpkind, hpdone, hpwork⟩ with hT | hmem
      · exact .inl hT
      · rcases List.mem_cons.1 hmem with rfl | hmem
        · exact absurd hid.symm hne
        · exact .inr hmem
  · rcases hlink with ⟨hitem, hleader⟩ | ⟨-, hne, -⟩
    · exact ⟨item, (hrow item).2 (.inl rfl), hid.trans hleader, hkind, hitem⟩
    · refine ⟨root, (hrow root).2 (.inr ⟨hroot, fun heq => hne ?_⟩), hrootid, hrootkind, hrootopen⟩
      rw [← hid, ← heq, hrootid]

/-- A story or follow-up that is replaced by one of its status. -/
theorem Stage.replaced (item : Item) (h : Stage s₀ C T s) (htakes : Takes s item old) (hkind : item.kind ≠ FINDING)
    (hstatus : old.status = item.status) : Stage s₀ C T (replaced s item) ∧ Steady s (replaced s item) := by
  have hids := h.sound.ids
  have hrow := fun x : Item => @mem_replaced s x item old hids htakes
  have hsteady := steady_replaced hids htakes (.inr hstatus)
  have hback : ∀ x, IsOpen (Coder.replaced s item) x → IsOpen s x := by
    intro x hx
    rcases (hrow x).1 hx.mem with rfl | ⟨hmem, -⟩
    · exact absurd hx.kind hkind
    · exact ⟨hmem, hx.kind, hx.open_⟩
  refine ⟨⟨h.sound.replaced htakes fun heq => absurd heq hkind, fun x hx => ?_, h.steady.trans hsteady, fun hC x hx hof => ?_⟩,
    hsteady⟩
  · have hopen := h.intact x hx
    refine ⟨(hrow x).2 (.inr ⟨hopen.mem, fun heq => ?_⟩), hopen.kind, hopen.open_⟩
    obtain rfl := h.sound.eq_of_id hopen.mem htakes.mem (heq.trans htakes.id.symm)
    exact hkind (htakes.kind.symm.trans hopen.kind)
  · obtain ⟨p, hp, hpkind, hpdone, hpwork⟩ := hof
    obtain ⟨q, hq, hqid, hqkind, hqdone⟩ := hsteady.done p hp (finding_not_progress hpkind) hpdone
    exact h.only hC x (hback x hx) ⟨q, hq, hqkind ▸ hpkind, hqdone, by rw [hqid]; exact hpwork⟩

/-- **Handing a group to a target** merges all but one of it, and takes the one from finished work, if the
target is not done. -/
theorem holds_reown (h : Stage s₀ C (fun it => T it ∨ it ∈ group) s) (hapart : ∀ it, T it → it ∉ group) (hne : group ≠ [])
    (hnodup : (group.map (·.id)).Nodup)
    (htarget : ∃ row ∈ s.items, row.id = target.id ∧ row.kind = target.kind ∧ row.status = target.status)
    (hkind : target.kind ≠ FINDING) (hdone : C → target.kind ∈ PROGRESS_KINDS → target.status ≠ DONE) :
    Holds Sound (fun _ => False) (fun t _ => Stage s₀ C T t ∧ Steady s t) (_reown group target origins) s := by
  unfold _reown
  apply holds_bind
  apply holds_open_findings
  have hleader : ∃ root ∈ s.items, root.id = leaderOf (opened s target.id) group ∧ root.kind = FINDING ∧ root.status ≠ MERGED := by
    unfold leaderOf
    cases hhead : (opened s target.id).head? with
    | some root =>
      have hopen := isOpen_of_opened (List.mem_of_mem_head? hhead)
      exact ⟨root, hopen.mem, rfl, hopen.kind, hopen.not_merged⟩
    | none =>
      cases hlast : group.getLast? with
      | none => exact absurd (List.getLast?_eq_none_iff.1 hlast) hne
      | some root =>
        have hopen := h.intact root (.inr (List.mem_of_getLast? hlast))
        exact ⟨root, hopen.mem, rfl, hopen.kind, hopen.not_merged⟩
  apply holds_bind
  generalize leaderOf (opened s target.id) group = leader at hleader ⊢
  have hstep : ∀ (it : Item) (rest : List Item) (_ : Unit) (u : State),
      (Handing s₀ C T target leader (it :: rest) u ∧ Steady s u) →
      Holds Sound (fun _ => False) (fun u _ => Handing s₀ C T target leader rest u ∧ Steady s u)
        (if it.id ≠ leader then replace { it with
          content := { it.content with work_id := some target.id, escaped_from := some (origins it), same_as := some leader },
          status := MERGED }
        else replace { it with
          content := { it.content with work_id := some target.id, escaped_from := some (origins it) } }) u := by
    rintro it rest - u ⟨hand, hu⟩
    have hopen : IsOpen u it := hand.stage.intact it (.inr List.mem_cons_self)
    have hids := hand.stage.sound.ids
    split
    · next hid =>
      obtain ⟨htakes, hnext, hsteady⟩ := hand.next { it with
          content := { it.content with work_id := some target.id, escaped_from := some (origins it), same_as := some leader },
          status := MERGED } rfl hopen.kind hkind (.inr ⟨rfl, hid, rfl⟩) (fun hne => absurd rfl hne) hdone
      exact holds_replace hids htakes hnext.stage.sound ⟨hnext, hu.trans hsteady⟩
    · next hid =>
      obtain ⟨htakes, hnext, hsteady⟩ := hand.next { it with
          content := { it.content with work_id := some target.id, escaped_from := some (origins it) } } rfl hopen.kind hkind
        (.inl ⟨hopen.not_merged, not_not.1 hid⟩) (fun _ => rfl) hdone
      exact holds_replace hids htakes hnext.stage.sound ⟨hnext, hu.trans hsteady⟩
  have hloop := holds_foldlM (J := fun rest (_ : Unit) u => Handing s₀ C T target leader rest u ∧ Steady s u)
    (b := ()) hstep ⟨⟨h, hapart, hnodup, htarget, hleader⟩, Steady.refl s⟩
  apply hloop.mono
  rintro u - ⟨hand, hu⟩
  have hstage : Stage s₀ C T u :=
    ⟨hand.stage.sound, fun it hit => hand.stage.intact it (.inl hit), hand.stage.steady, fun hC it hit hof =>
      (hand.stage.only hC it hit hof).resolve_right List.not_mem_nil⟩
  split
  · obtain ⟨row, hrow, hrowid, hrowkind, hrowstatus⟩ := hand.target
    obtain ⟨hnext, hsteady⟩ := hstage.replaced { target with
      content := { target.content with escaped_from := group.head?.map origins } } ⟨hrow, hrowid, hrowkind⟩ hkind hrowstatus
    exact holds_replace hstage.sound.ids ⟨hrow, hrowid, hrowkind⟩ hnext.sound ⟨hnext, hu.trans hsteady⟩
  · exact holds_pure ⟨hstage, hu⟩

/-- The groups of findings: each finding is in one. -/
structure Grouping (held : List Item) (groups : List (Text × List Item)) : Prop where
  keys : (groups.map Prod.fst).Nodup
  sub : ∀ key ∈ groups.map Prod.fst, key ∈ held.map (·.id)
  nonempty : ∀ group ∈ groups, group.2 ≠ []
  perm : (groups.flatMap (·.2)).Perm held

theorem perm_put {groups : List (Text × List Item)} {hit : Text} (it : Item) (hkeys : (groups.map Prod.fst).Nodup)
    (hhit : hit ∈ groups.map Prod.fst) :
    ((groups.map fun group => if group.1 = hit then (group.1, group.2 ++ [it]) else group).flatMap (·.2)).Perm
      (groups.flatMap (·.2) ++ [it]) := by
  induction groups with
  | nil => exact absurd hhit List.not_mem_nil
  | cons group groups ih =>
    rw [List.map_cons, List.nodup_cons] at hkeys
    rw [List.map_cons, List.flatMap_cons, List.flatMap_cons]
    by_cases heq : group.1 = hit
    · have hsame : (groups.map fun group => if group.1 = hit then (group.1, group.2 ++ [it]) else group) = groups := by
        have hother : ∀ other ∈ groups, (if other.1 = hit then (other.1, other.2 ++ [it]) else other) = other := by
          intro other hother
          have hne : other.1 ≠ hit := fun hother' => hkeys.1 (heq ▸ hother' ▸ List.mem_map_of_mem hother)
          exact if_neg hne
        rw [List.map_congr_left hother, List.map_id']
      rw [if_pos heq, hsame, List.append_assoc, List.append_assoc]
      exact List.Perm.append_left _ List.perm_append_comm
    · have htail : hit ∈ groups.map Prod.fst := by
        rcases List.mem_cons.1 hhit with hhead | htail
        · exact absurd hhead.symm heq
        · exact htail
      rw [if_neg heq, List.append_assoc]
      exact List.Perm.append_left _ (ih hkeys.2 htail)

theorem grouped_spec (judge : Judge) {held : List Item} (hids : (held.map (·.id)).Nodup) : Grouping held (grouped judge held) := by
  induction held using List.reverseRecOn with
  | nil => exact ⟨List.nodup_nil, fun _ h => absurd h List.not_mem_nil, fun _ h => absurd h List.not_mem_nil, .nil⟩
  | append_singleton held it ih =>
    rw [List.map_append, List.nodup_append] at hids
    obtain ⟨hheld, -, hapart⟩ := hids
    have hnot : it.id ∉ held.map (·.id) := fun hmem => hapart it.id hmem it.id (by simp) rfl
    obtain ⟨hkeys, hsub, hne, hperm⟩ := ih hheld
    have hstep : grouped judge (held ++ [it]) = groupStep judge (grouped judge held) it := by
      unfold grouped
      rw [List.foldl_append, List.foldl_cons, List.foldl_nil]
    rw [hstep]
    unfold groupStep
    dsimp only
    split
    · refine ⟨?_, fun key hkey => ?_, fun group hgroup => ?_, ?_⟩
      · rw [List.map_append, List.nodup_append]
        refine ⟨hkeys, List.nodup_singleton _, ?_⟩
        rintro a ha b hb rfl
        have heq : a = it.id := List.mem_singleton.1 hb
        exact hnot (heq ▸ hsub a ha)
      · rw [List.map_append] at hkey ⊢
        exact (List.mem_append.1 hkey).elim (fun hkey => List.mem_append_left _ (hsub key hkey))
          (fun hkey => List.mem_append_right _ hkey)
      · rcases List.mem_append.1 hgroup with hgroup | hgroup
        · exact hne group hgroup
        · obtain rfl := List.mem_singleton.1 hgroup
          exact List.cons_ne_nil _ _
      · rw [List.flatMap_append, List.flatMap_singleton]
        exact hperm.append_right [it]
    · next hnew =>
      rcases same_causes_mem judge [(it.id, issue it)]
        ((grouped judge held).map fun group => (group.1, (group.2.head?.map issue).getD [])) it.id with heq | hhit
      · exact absurd heq hnew
      · have hfst : ∀ f : Text × List Item → Text × List Item, (∀ group, (f group).1 = group.1) →
            ((grouped judge held).map f).map Prod.fst = (grouped judge held).map Prod.fst := by
          intro f hf
          rw [List.map_map]
          exact List.map_congr_left fun group _ => hf group
        have hmem : same_causes judge [(it.id, issue it)]
            ((grouped judge held).map fun group => (group.1, (group.2.head?.map issue).getD [])) it.id ∈
            (grouped judge held).map Prod.fst := by
          rw [List.map_map] at hhit
          exact hhit
        refine ⟨?_, fun key hkey => ?_, fun group hgroup => ?_, (perm_put it hkeys hmem).trans (hperm.append_right [it])⟩
        · rw [hfst _ fun group => by split <;> rfl]
          exact hkeys
        · rw [hfst _ fun group => by split <;> rfl] at hkey
          rw [List.map_append]
          exact List.mem_append_left _ (hsub key hkey)
        · obtain ⟨old, hold, rfl⟩ := List.mem_map.1 hgroup
          split
          · exact List.append_ne_nil_of_right_ne_nil _ (List.cons_ne_nil _ _)
          · exact hne old hold

theorem holds_follow_up {Q : State → List Item → Prop} {parent : Item} {entry : FollowUp}
    (h : ∀ made : Item, made.id = follow_up_id parent entry → made.kind = FOLLOW_UP → made.status = PENDING → Q s [made]) :
    Holds I E Q (follow_up_items parent [entry]) s := by
  unfold follow_up_items
  apply holds_bind
  apply holds_items
  exact holds_pure (h _ rfl rfl rfl)

/-- A follow-up that is pending joins the list. -/
theorem Stage.added (made : Item) (h : Stage s₀ C T s) (hfree : s.items.find? (fun it => it.id = made.id) = none)
    (hkind : made.kind = FOLLOW_UP) (hstatus : made.status = PENDING) (hname : made.id ≠ NEW) :
    Stage s₀ C T (added s [made]) ∧ Steady s (added s [made]) := by
  have hnot : made.id ∉ s.items.map (·.id) := by
    intro hmem
    obtain ⟨it, hit, hid⟩ := List.mem_map.1 hmem
    exact List.find?_eq_none.1 hfree it hit (by simpa using hid)
  have hfollow : made.kind ≠ FINDING := by
    rw [hkind]
    decide
  have hpending : made.status ≠ DONE := by
    rw [hstatus]
    decide
  have hrow : ∀ x ∈ (Coder.added s [made]).items, x ∈ s.items ∨ x = made := fun x hx =>
    (List.mem_append.1 hx).imp id List.mem_singleton.1
  have hsteady : Steady s (Coder.added s [made]) := by
    refine ⟨fun p hp _ => ⟨p, List.mem_append_left _ hp, rfl, rfl, rfl⟩, fun q hq _ hdone => ?_⟩
    rcases hrow q hq with hq | rfl
    · exact ⟨q, hq, rfl, rfl, hdone⟩
    · exact absurd hdone hpending
  have hsound : Sound (Coder.added s [made]) := by
    apply h.sound.added
    · simp [repeated, hnot]
    · intro it hit hfinding
      obtain rfl := List.mem_singleton.1 hit
      exact absurd hfinding hfollow
    · intro it hit _
      obtain rfl := List.mem_singleton.1 hit
      exact hname
  refine ⟨⟨hsound, fun x hx => ?_, h.steady.trans hsteady, fun hC x hx hof => ?_⟩, hsteady⟩
  · have hopen := h.intact x hx
    exact ⟨List.mem_append_left _ hopen.mem, hopen.kind, hopen.open_⟩
  · obtain ⟨p, hp, hpkind, hpdone, hpwork⟩ := hof
    obtain ⟨q, hq, hqid, hqkind, hqdone⟩ := hsteady.done p hp (finding_not_progress hpkind) hpdone
    rcases hrow x hx.mem with hmem | rfl
    · exact h.only hC x ⟨hmem, hx.kind, hx.open_⟩ ⟨q, hq, hqkind ▸ hpkind, hqdone, by rw [hqid]; exact hpwork⟩
    · exact absurd hx.kind hfollow

/-- The item of an id that no finding has is found, or filed. -/
theorem holds_targetOf {made : Item} (h : Stage s₀ C T s) (hdot : ¬ dotted made.id) (hkind : made.kind = FOLLOW_UP)
    (hstatus : made.status = PENDING) (hname : made.id ≠ NEW) :
    Holds Sound (fun _ => False) (fun t r => ∃ target ∈ t.items, r = some target ∧ target.id = made.id ∧
      target.kind ≠ FINDING ∧ Stage s₀ C T t ∧ Steady s t) (targetOf made) s := by
  unfold targetOf
  apply holds_bind
  apply holds_find
  cases hfind : s.items.find? (fun it => it.id = made.id) with
  | some target =>
    have hmem : target ∈ s.items := List.mem_of_find?_eq_some hfind
    have hid : target.id = made.id := by simpa using List.find?_some hfind
    have hnot : target.kind ≠ FINDING := fun heq => hdot (hid ▸ h.sound.dotted target hmem heq)
    exact holds_pure ⟨target, hmem, rfl, hid, hnot, h, Steady.refl s⟩
  | none =>
    obtain ⟨hstage, hsteady⟩ := h.added made hfind hkind hstatus hname
    have hcheck : _check FILERS made.kind (lit "ownership") (lit "file") = .ok () := by
      rw [hkind]
      decide
    have hnot : made.kind ≠ FINDING := by
      rw [hkind]
      decide
    have hfound : (added s [made]).items.find? (fun it => it.id = made.id) = some made := by
      show (s.items ++ [made]).find? _ = _
      rw [List.find?_append, hfind, Option.none_or]
      simp
    apply holds_bind
    apply holds_file_one hfind hcheck hstage.sound
    apply holds_find
    exact ⟨made, List.mem_append_right _ List.mem_cons_self, hfound, rfl, hnot, hstage, hsteady⟩

/-- A group of finished work goes to the follow-up of its text. -/
theorem holds_handNew {progress : List Item} {owner : Item} {moved : ℕ} (h : Stage s₀ C (fun it => T it ∨ it ∈ group) s)
    (hapart : ∀ it, T it → it ∉ group) (hne : group ≠ []) (hnodup : (group.map (·.id)).Nodup)
    (hfree : C → ∀ p ∈ s₀.items, p.kind ∈ PROGRESS_KINDS → p.status = DONE →
      p.id ≠ follow_up_id (parentOf progress owner) (proposal group)) :
    Holds Sound (fun _ => False) (fun t _ => Stage s₀ C T t ∧ Steady s t) (handNew progress owner origins moved group) s := by
  unfold handNew
  apply holds_bind
  apply holds_follow_up
  intro made hid hkind hstatus
  have hdot : ¬ dotted made.id := by
    rw [hid]
    exact not_dotted_follow_up _ _
  have hname : made.id ≠ NEW := by
    rw [hid]
    exact follow_up_id_ne_new _ _
  apply holds_bind
  apply (holds_targetOf h hdot hkind hstatus hname).mono
  rintro u r ⟨target, htarget, rfl, htid, htkind, hstage, hsteady⟩
  have hdone : C → target.kind ∈ PROGRESS_KINDS → target.status ≠ DONE := by
    intro hC hprogress htdone
    obtain ⟨p, hp, hpid, hpkind, hpdone⟩ := hstage.steady.done target htarget htkind htdone
    exact hfree hC p hp (hpkind ▸ hprogress) hpdone (hpid.trans (htid.trans hid))
  apply holds_bind
  apply (holds_reown hstage hapart hne hnodup ⟨target, htarget, rfl, rfl, rfl⟩ htkind hdone).mono
  rintro v - ⟨hv, huv⟩
  exact holds_pure ⟨hv, hsteady.trans huv⟩

theorem Stage.weaken (h : Stage s₀ C T s) (hsub : ∀ it, T' it → T it) (hC : C → ∀ it, T it → T' it) : Stage s₀ C T' s :=
  ⟨h.sound, fun it hit => h.intact it (hsub it hit), h.steady, fun c it hit hof => hC c it (h.only c it hit hof)⟩

/-- What `own` starts from: the findings that it holds belong to work on the list; if `C`, the follow-up that
is proposed for one of them is not done. -/
structure Holding (s₀ : State) (C : Prop) (progress held : List Item) : Prop where
  ids : (held.map (·.id)).Nodup
  work : ∀ it ∈ held, ∃ wid owner, it.content.work_id = some wid ∧ workOf progress wid = some owner
  free : C → ∀ it ∈ held, ∀ owner, ownerOf progress it = some owner → ∀ p ∈ s₀.items, p.kind ∈ PROGRESS_KINDS →
    p.status = DONE → p.id ≠ follow_up_id (parentOf progress owner) (proposal [it])

variable {judge : Judge} {owners : List Text} {file_new : Bool} {progress held mine : List Item} {moved : ℕ} {epic : Text}

/-- The findings of one owner, group by group. -/
theorem holds_groups {owner : Item} {wid : Text} (hold : Holding s₀ C progress held)
    (h : Stage s₀ C (fun it => T it ∨ it ∈ mine) s) (hsub : mine.Sublist held) (hapart : ∀ it, T it → it ∉ mine)
    (hwork : ∀ it ∈ mine, it.content.work_id = some wid) (howner : workOf progress wid = some owner) :
    Holds Sound (fun _ => False) (fun t _ => Stage s₀ C T t ∧ Steady s t)
      ((_group_findings judge mine).foldlM (handNew progress owner origins) moved) s := by
  have hids : (mine.map (·.id)).Nodup := hold.ids.sublist (hsub.map _)
  obtain ⟨-, -, hne, hperm⟩ := grouped_spec judge hids
  have hflat : (_group_findings judge mine).flatten.Perm mine := by
    rw [List.flatMap_def] at hperm
    exact hperm
  have hstep : ∀ (group : List Item) (groups : List (List Item)) (moved : ℕ) (u : State),
      ((Stage s₀ C (fun it => T it ∨ it ∈ (group :: groups).flatten) u ∧ Steady s u) ∧
        (∀ g ∈ group :: groups, g ≠ [] ∧ ∀ it ∈ g, it ∈ mine) ∧ ((group :: groups).flatten.map (·.id)).Nodup) →
      Holds Sound (fun _ => False) (fun u _ => (Stage s₀ C (fun it => T it ∨ it ∈ groups.flatten) u ∧ Steady s u) ∧
        (∀ g ∈ groups, g ≠ [] ∧ ∀ it ∈ g, it ∈ mine) ∧ (groups.flatten.map (·.id)).Nodup)
        (handNew progress owner origins moved group) u := by
    rintro group groups moved u ⟨⟨hu, hsu⟩, hall, hnodup⟩
    obtain ⟨⟨hgne, hgmine⟩, hrest⟩ := List.forall_mem_cons.1 hall
    rw [List.flatten_cons, List.map_append, List.nodup_append] at hnodup
    obtain ⟨hgids, hrestids, hdisjoint⟩ := hnodup
    obtain ⟨first, tail, rfl⟩ := List.exists_cons_of_ne_nil hgne
    have hfirst : first ∈ held := hsub.subset (hgmine first List.mem_cons_self)
    have hfirstowner : ownerOf progress first = some owner := by
      unfold ownerOf
      rw [hwork first (hgmine first List.mem_cons_self)]
      exact howner
    have hstage : Stage s₀ C (fun it => (T it ∨ it ∈ groups.flatten) ∨ it ∈ first :: tail) u := by
      apply hu.weaken
      · rintro it ((hT | hmem) | hmem)
        · exact .inl hT
        · exact .inr (by rw [List.flatten_cons]; exact List.mem_append_right _ hmem)
        · exact .inr (by rw [List.flatten_cons]; exact List.mem_append_left _ hmem)
      · rintro - it (hT | hmem)
        · exact .inl (.inl hT)
        · rw [List.flatten_cons] at hmem
          exact (List.mem_append.1 hmem).elim .inr fun hmem => .inl (.inr hmem)
    have hnot : ∀ it, T it ∨ it ∈ groups.flatten → it ∉ first :: tail := by
      rintro it (hT | hmem) hgroup
      · exact hapart it hT (hgmine it hgroup)
      · exact hdisjoint it.id (List.mem_map_of_mem hgroup) it.id (List.mem_map_of_mem hmem) rfl
    apply (holds_handNew hstage hnot hgne hgids fun hC => hold.free hC first hfirst owner hfirstowner).mono
    rintro v - ⟨hv, huv⟩
    exact ⟨⟨hv, hsu.trans huv⟩, hrest, hrestids⟩
  have hstart : Stage s₀ C (fun it => T it ∨ it ∈ (_group_findings judge mine).flatten) s := by
    apply h.weaken
    · exact fun it => Or.imp id fun hmem => hflat.mem_iff.1 hmem
    · exact fun _ it => Or.imp id fun hmem => hflat.mem_iff.2 hmem
  have hgroups : ∀ g ∈ _group_findings judge mine, g ≠ [] ∧ ∀ it ∈ g, it ∈ mine := by
    intro g hg
    obtain ⟨group, hgroup, rfl⟩ := List.mem_map.1 hg
    exact ⟨hne group hgroup, fun it hit => hflat.mem_iff.1 (List.mem_flatten_of_mem hg hit)⟩
  have hflatids : ((_group_findings judge mine).flatten.map (·.id)).Nodup := (hflat.map _).nodup_iff.2 hids
  have hloop := holds_foldlM (J := fun groups (_ : ℕ) u =>
    (Stage s₀ C (fun it => T it ∨ it ∈ groups.flatten) u ∧ Steady s u) ∧
      (∀ g ∈ groups, g ≠ [] ∧ ∀ it ∈ g, it ∈ mine) ∧ (groups.flatten.map (·.id)).Nodup) (b := moved)
    hstep ⟨⟨hstart, Steady.refl s⟩, hgroups, hflatids⟩
  apply hloop.mono
  rintro u - ⟨⟨hu, hsu⟩, -, -⟩
  exact ⟨hu.weaken (fun it => .inl) fun _ it hit => hit.resolve_right List.not_mem_nil, hsu⟩

/-- The findings that no follow-up owns, owner by owner. -/
theorem holds_unmatched (hold : Holding s₀ C progress held) (h : Stage s₀ C (fun it => T it ∨ it ∈ mine) s)
    (hsub : mine.Sublist held) (hapart : ∀ it, T it → it ∉ mine) :
    Holds Sound (fun _ => False) (fun t _ => Stage s₀ C T t)
      ((mine.filterMap (·.content.work_id)).eraseDups.foldlM (handOwner judge progress mine origins) moved) s := by
  -- what is still to come belongs to one of the owners that are left
  have hstep : ∀ (wid : Text) (wids : List Text) (moved : ℕ) (u : State),
      (Stage s₀ C (fun it => T it ∨ it ∈ mine ∧ ∃ w ∈ wid :: wids, it.content.work_id = some w) u ∧ (wid :: wids).Nodup) →
      Holds Sound (fun _ => False)
        (fun u _ => Stage s₀ C (fun it => T it ∨ it ∈ mine ∧ ∃ w ∈ wids, it.content.work_id = some w) u ∧ wids.Nodup)
        (handOwner judge progress mine origins moved wid) u := by
    rintro wid wids moved u ⟨hu, hnodup⟩
    obtain ⟨hwid, hwids⟩ := List.nodup_cons.1 hnodup
    unfold handOwner
    split
    · next hnone =>
      have hno : ∀ it ∈ mine, it.content.work_id ≠ some wid := by
        intro it hit heq
        obtain ⟨w, owner, hw, howner⟩ := hold.work it (hsub.subset hit)
        obtain rfl := Option.some.inj (hw.symm.trans heq)
        rw [hnone] at howner
        cases howner
      refine holds_pure ⟨hu.weaken (fun it => Or.imp id ?_) (fun _ it => Or.imp id ?_), hwids⟩
      · rintro ⟨hit, w, hw, heq⟩
        exact ⟨hit, w, List.mem_cons_of_mem _ hw, heq⟩
      · rintro ⟨hit, w, hw, heq⟩
        rcases List.mem_cons.1 hw with rfl | hw
        · exact absurd heq (hno it hit)
        · exact ⟨hit, w, hw, heq⟩
    · next owner howner =>
      have hmem : ∀ it, it ∈ mine.filter (fun it => it.content.work_id = some wid) ↔ it ∈ mine ∧ it.content.work_id = some wid := by
        intro it
        rw [List.mem_filter, decide_eq_true_eq]
      have hstage : Stage s₀ C (fun it => (T it ∨ it ∈ mine ∧ ∃ w ∈ wids, it.content.work_id = some w) ∨
          it ∈ mine.filter fun it => it.content.work_id = some wid) u := by
        apply hu.weaken
        · rintro it ((hT | ⟨hit, w, hw, heq⟩) | hgroup)
          · exact .inl hT
          · exact .inr ⟨hit, w, List.mem_cons_of_mem _ hw, heq⟩
          · obtain ⟨hit, heq⟩ := (hmem it).1 hgroup
            exact .inr ⟨hit, wid, List.mem_cons_self, heq⟩
        · rintro - it (hT | ⟨hit, w, hw, heq⟩)
          · exact .inl (.inl hT)
          · rcases List.mem_cons.1 hw with rfl | hw
            · exact .inr ((hmem it).2 ⟨hit, heq⟩)
            · exact .inl (.inr ⟨hit, w, hw, heq⟩)
      have hnot : ∀ it, (T it ∨ it ∈ mine ∧ ∃ w ∈ wids, it.content.work_id = some w) →
          it ∉ mine.filter fun it => it.content.work_id = some wid := by
        rintro it (hT | ⟨hit, w, hw, heq⟩) hgroup
        · exact hapart it hT ((hmem it).1 hgroup).1
        · obtain rfl := Option.some.inj (heq.symm.trans ((hmem it).1 hgroup).2)
          exact hwid hw
      apply (holds_groups hold hstage (List.filter_sublist.trans hsub) hnot (fun it hit => ((hmem it).1 hit).2) howner).mono
      rintro v - ⟨hv, -⟩
      exact ⟨hv, hwids⟩
  have hstart : Stage s₀ C (fun it => T it ∨ it ∈ mine ∧
      ∃ w ∈ (mine.filterMap (·.content.work_id)).eraseDups, it.content.work_id = some w) s := by
    apply h.weaken
    · exact fun it => Or.imp id And.left
    · rintro - it (hT | hit)
      · exact .inl hT
      · obtain ⟨w, -, hw, -⟩ := hold.work it (hsub.subset hit)
        exact .inr ⟨hit, w, List.mem_eraseDups.2 (List.mem_filterMap.2 ⟨it, hit, hw⟩), hw⟩
  have hloop := holds_foldlM (J := fun wids (_ : ℕ) u =>
    Stage s₀ C (fun it => T it ∨ it ∈ mine ∧ ∃ w ∈ wids, it.content.work_id = some w) u ∧ wids.Nodup) (b := moved)
    hstep ⟨hstart, nodup_eraseDups _⟩
  apply hloop.mono
  rintro u - ⟨hu, -⟩
  apply hu.weaken (fun it => .inl)
  rintro - it (hT | ⟨-, w, hw, -⟩)
  · exact hT
  · exact absurd hw List.not_mem_nil

/-- The findings of one epic. -/
theorem holds_ownEpic (hold : Holding s₀ C progress held) (hC : C → file_new = true)
    (h : Stage s₀ C (fun it => T it ∨ it ∈ held.filter fun it => epicOf progress it = epic) s)
    (hapart : ∀ it, T it → it ∉ held.filter fun it => epicOf progress it = epic) :
    Holds Sound (fun _ => False) (fun t _ => Stage s₀ C T t) (ownEpic judge owners file_new progress held moved epic) s := by
  unfold ownEpic
  apply holds_bind
  apply holds_items
  generalize hmine : (held.filter fun it => epicOf progress it = epic) = mine at h hapart ⊢
  have hsub : mine.Sublist held := hmine ▸ List.filter_sublist
  dsimp only
  generalize htargets : ((ofKind s.items (some [FOLLOW_UP])).filter fun fu =>
    [PENDING, ACTIVE].contains fu.status && !owners.contains fu.id && decide (fu.content.epic.getD [] = epic)) = targets
  have htarget : ∀ fu ∈ targets, fu ∈ s.items ∧ fu.kind = FOLLOW_UP ∧ fu.status ≠ DONE := by
    intro fu hfu
    rw [← htargets, List.mem_filter] at hfu
    obtain ⟨hmem, hkind⟩ := mem_ofKind_one.1 hfu.1
    refine ⟨hmem, hkind, fun hdone => ?_⟩
    rw [hdone] at hfu
    have hno : [PENDING, ACTIVE].contains DONE = false := by decide
    rw [hno] at hfu
    exact absurd hfu.2 (by simp)
  have htargetids : (targets.map (·.id)).Nodup := by
    rw [← htargets]
    exact (nodup_ofKind h.sound.ids _).sublist (List.filter_sublist.map _)
  generalize hsame : same_causes judge (mine.map fun it => (it.id, issue it))
    (targets.map fun fu => (fu.id, fu.content.title.getD [])) = same
  have hanswer : ∀ id, same id = NEW ∨ same id ∈ targets.map (·.id) := by
    intro id
    rw [← hsame]
    have hmem := same_causes_mem judge (mine.map fun it => (it.id, issue it))
      (targets.map fun fu => (fu.id, fu.content.title.getD [])) id
    rw [List.map_map] at hmem
    exact hmem
  have hunmatched : ∀ it, it ∈ mine.filter (fun it => same it.id = NEW) ↔ it ∈ mine ∧ same it.id = NEW := by
    intro it
    rw [List.mem_filter, decide_eq_true_eq]
  have hstep : ∀ (fu : Item) (rest : List Item) (moved : ℕ) (u : State),
      (Stage s₀ C (fun it => (T it ∨ it ∈ mine.filter fun it => same it.id = NEW) ∨ it ∈ mine ∧ same it.id ∈ (fu :: rest).map (·.id)) u ∧
        (∀ g ∈ fu :: rest, g ∈ targets ∧ ∃ row ∈ u.items, row.id = g.id ∧ row.kind = g.kind ∧ row.status = g.status) ∧
        ((fu :: rest).map (·.id)).Nodup) →
      Holds Sound (fun _ => False) (fun u _ =>
        Stage s₀ C (fun it => (T it ∨ it ∈ mine.filter fun it => same it.id = NEW) ∨ it ∈ mine ∧ same it.id ∈ rest.map (·.id)) u ∧
        (∀ g ∈ rest, g ∈ targets ∧ ∃ row ∈ u.items, row.id = g.id ∧ row.kind = g.kind ∧ row.status = g.status) ∧
        (rest.map (·.id)).Nodup) (handTo same mine (fun it => ((ownerOf progress it).map story_of).getD []) moved fu) u := by
    rintro fu rest moved u ⟨hu, hall, hnodup⟩
    obtain ⟨⟨hfu, hrow⟩, hrest⟩ := List.forall_mem_cons.1 hall
    rw [List.map_cons, List.nodup_cons] at hnodup
    obtain ⟨hfumem, hfukind, hfustatus⟩ := htarget fu hfu
    have hfinding : fu.kind ≠ FINDING := by
      rw [hfukind]
      decide
    have hnew : fu.id ≠ NEW := h.sound.named fu hfumem hfukind
    have hmem : ∀ it, it ∈ mine.filter (fun it => same it.id = fu.id) ↔ it ∈ mine ∧ same it.id = fu.id := by
      intro it
      rw [List.mem_filter, decide_eq_true_eq]
    have hstage : Stage s₀ C (fun it => ((T it ∨ it ∈ mine.filter fun it => same it.id = NEW) ∨
        it ∈ mine ∧ same it.id ∈ rest.map (·.id)) ∨ it ∈ mine.filter fun it => same it.id = fu.id) u := by
      apply hu.weaken
      · rintro it ((hleft | ⟨hit, hid⟩) | hgroup)
        · exact .inl hleft
        · exact .inr ⟨hit, by rw [List.map_cons]; exact List.mem_cons_of_mem _ hid⟩
        · obtain ⟨hit, heq⟩ := (hmem it).1 hgroup
          exact .inr ⟨hit, by rw [List.map_cons, heq]; exact List.mem_cons_self⟩
      · rintro - it (hleft | ⟨hit, hid⟩)
        · exact .inl (.inl hleft)
        · rw [List.map_cons] at hid
          rcases List.mem_cons.1 hid with heq | hid
          · exact .inr ((hmem it).2 ⟨hit, heq⟩)
          · exact .inl (.inr ⟨hit, hid⟩)
    have hnot : ∀ it, ((T it ∨ it ∈ mine.filter fun it => same it.id = NEW) ∨ it ∈ mine ∧ same it.id ∈ rest.map (·.id)) →
        it ∉ mine.filter fun it => same it.id = fu.id := by
      rintro it ((hT | hun) | ⟨-, hid⟩) hgroup
      · exact hapart it hT ((hmem it).1 hgroup).1
      · exact hnew (((hmem it).1 hgroup).2.symm.trans ((hunmatched it).1 hun).2)
      · exact hnodup.1 (((hmem it).1 hgroup).2 ▸ hid)
    unfold handTo
    dsimp only
    split
    · next hnil =>
      refine holds_pure ⟨hstage.weaken (fun it => .inl) fun _ it hit => hit.resolve_right ?_, hrest, hnodup.2⟩
      rw [hnil]
      exact List.not_mem_nil
    · next hne =>
      have hgids : ((mine.filter fun it => same it.id = fu.id).map (·.id)).Nodup :=
        (hold.ids.sublist (hsub.map _)).sublist (List.filter_sublist.map _)
      apply holds_bind
      apply (holds_reown hstage hnot hne hgids hrow hfinding fun _ _ => hfustatus).mono
      rintro v - ⟨hv, huv⟩
      refine holds_pure ⟨hv, fun g hg => ?_, hnodup.2⟩
      obtain ⟨hgt, row, hrow, hid, hkind, hstatus⟩ := hrest g hg
      have hgkind : row.kind ≠ FINDING := by
        rw [hkind, (htarget g hgt).2.1]
        decide
      obtain ⟨row', hrow', hid', hkind', hstatus'⟩ := huv.kept row hrow hgkind
      exact ⟨hgt, row', hrow', hid'.trans hid, hkind'.trans hkind, hstatus'.trans hstatus⟩
  have hstart : Stage s₀ C (fun it => (T it ∨ it ∈ mine.filter fun it => same it.id = NEW) ∨
      it ∈ mine ∧ same it.id ∈ targets.map (·.id)) s := by
    apply h.weaken
    · rintro it ((hT | hun) | ⟨hit, -⟩)
      · exact .inl hT
      · exact .inr ((hunmatched it).1 hun).1
      · exact .inr hit
    · rintro - it (hT | hit)
      · exact .inl (.inl hT)
      · rcases hanswer it.id with hnew | hid
        · exact .inl (.inr ((hunmatched it).2 ⟨hit, hnew⟩))
        · exact .inr ⟨hit, hid⟩
  have hloop := holds_foldlM (J := fun rest (_ : ℕ) u =>
    Stage s₀ C (fun it => (T it ∨ it ∈ mine.filter fun it => same it.id = NEW) ∨ it ∈ mine ∧ same it.id ∈ rest.map (·.id)) u ∧
      (∀ g ∈ rest, g ∈ targets ∧ ∃ row ∈ u.items, row.id = g.id ∧ row.kind = g.kind ∧ row.status = g.status) ∧
      (rest.map (·.id)).Nodup) (b := moved) hstep
    ⟨hstart, fun g hg => ⟨hg, g, (htarget g hg).1, rfl, rfl, rfl⟩, htargetids⟩
  apply holds_bind
  apply hloop.mono
  rintro u moved ⟨hu, -, -⟩
  have hleft : Stage s₀ C (fun it => T it ∨ it ∈ mine.filter fun it => same it.id = NEW) u := by
    apply hu.weaken (fun it => .inl)
    rintro - it (hit | ⟨-, hid⟩)
    · exact hit
    · exact absurd hid List.not_mem_nil
  cases hfile : file_new with
  | true =>
    exact holds_unmatched hold hleft (List.filter_sublist.trans hsub) fun it hT hun => hapart it hT ((hunmatched it).1 hun).1
  | false =>
    refine holds_pure (hleft.weaken (fun it => .inl) fun c => ?_)
    rw [hC c] at hfile
    cases hfile

/-- For no open finding of finished work is the follow-up of its text done. -/
def Free (s : State) : Prop :=
  ∀ it ∈ s.items, it.kind = FINDING → SCHEME.isDone it = false →
    ∀ owner ∈ ownerOf (ofKind s.items (some PROGRESS_KINDS)) it, owner.status = DONE →
      ∀ p ∈ s.items, p.kind ∈ PROGRESS_KINDS → p.status = DONE →
        p.id ≠ follow_up_id (parentOf (ofKind s.items (some PROGRESS_KINDS)) owner) (proposal [it])

theorem mem_progress : it ∈ ofKind s.items (some PROGRESS_KINDS) ↔ it ∈ s.items ∧ it.kind ∈ PROGRESS_KINDS := by
  simp [ofKind, WorkList.WorkItem.isKind]

/-- What `own` holds at its start. -/
theorem holding_start (h : Sound s) (owners : Option (List Text)) (hC : C → owners = none ∧ Free s) :
    Holding s C (ofKind s.items (some PROGRESS_KINDS)) (heldOf (ofKind s.items (some PROGRESS_KINDS))
      (owners.getD (((ofKind s.items (some PROGRESS_KINDS)).filter fun it => it.status = DONE).map (·.id))) (opened s [])) := by
  have howner : ∀ {it owner : Item}, ownerOf (ofKind s.items (some PROGRESS_KINDS)) it = some owner →
      ∃ wid, it.content.work_id = some wid ∧ workOf (ofKind s.items (some PROGRESS_KINDS)) wid = some owner := by
    intro it owner howner
    obtain ⟨wid, hwid, hwork⟩ := Option.bind_eq_some_iff.1 howner
    exact ⟨wid, hwid, hwork⟩
  refine ⟨((nodup_ofKind h.ids _).sublist (List.filter_sublist.map _)).sublist (List.filter_sublist.map _),
    fun it hit => ?_, fun c it hit owner hof p hp hpkind hpdone => ?_⟩
  · have hheld := (List.mem_filter.1 hit).2
    rw [Bool.and_eq_true, Option.isSome_iff_exists] at hheld
    obtain ⟨owner, hof⟩ := hheld.2
    obtain ⟨wid, hwid, hwork⟩ := howner hof
    exact ⟨wid, owner, hwid, hwork⟩
  · obtain ⟨rfl, hfree⟩ := hC c
    obtain ⟨hopened, hheld⟩ := List.mem_filter.1 hit
    obtain ⟨wid, hwid, hwork⟩ := howner hof
    rw [Bool.and_eq_true, hwid, Option.any_some, List.contains_iff_mem] at hheld
    obtain ⟨q, hq, hqid⟩ := List.mem_map.1 hheld.1
    obtain ⟨hqmem, hqdone⟩ := List.mem_filter.1 hq
    have hownermem : owner ∈ ofKind s.items (some PROGRESS_KINDS) := List.mem_of_find?_eq_some hwork
    have hownerid : owner.id = wid := by simpa using List.find?_some hwork
    -- ids are distinct, so the owner is the work that is done
    obtain rfl := eq_of_key (nodup_ofKind h.ids _) hownermem hqmem (hownerid.trans hqid.symm)
    have hopen := isOpen_of_opened hopened
    exact hfree it hopen.mem hopen.kind hopen.open_ owner hof (by simpa using hqdone) p hp hpkind hpdone

/-- **`own`** keeps the list sound and does not raise; when it looks at all finished work, and files what no
follow-up owns, no open finding is left with it, if the follow-up of a finding's text is not done. -/
theorem holds_own (h : Sound s) (judge : Judge) (owners : Option (List Text)) (file_new : Bool) :
    Holds Sound (fun _ => False) (fun t _ => Sound t ∧
      (owners = none ∧ file_new = true ∧ Free s → ∀ it, IsOpen t it → ¬ OfDone t it)) (own judge owners file_new) s := by
  unfold own
  apply holds_bind
  apply holds_items
  apply holds_bind
  apply holds_open_findings
  have hold := holding_start (C := owners = none ∧ file_new = true ∧ Free s) h owners fun c => ⟨c.1, c.2.2⟩
  generalize hprogress : ofKind s.items (some PROGRESS_KINDS) = progress at hold ⊢
  generalize howners : owners.getD ((progress.filter fun it => it.status = DONE).map (·.id)) = ids at hold ⊢
  generalize hheld : heldOf progress ids (opened s []) = held at hold ⊢
  have hstart : Stage s (owners = none ∧ file_new = true ∧ Free s)
      (fun it => it ∈ held ∧ epicOf progress it ∈ (held.map (epicOf progress)).eraseDups) s := by
    have hepic : ∀ it ∈ held, epicOf progress it ∈ (held.map (epicOf progress)).eraseDups := fun it hit =>
      List.mem_eraseDups.2 (List.mem_map_of_mem hit)
    refine ⟨h, fun it hit => ?_, Steady.refl s, ?_⟩
    · rw [← hheld] at hit
      exact isOpen_of_opened (List.mem_of_mem_filter hit.1)
    · rintro ⟨rfl, -, -⟩ it hopen ⟨p, hp, hpkind, hpdone, hpwork⟩
      have hmem : it ∈ held := by
        have hpin : p ∈ progress := hprogress ▸ mem_progress.2 ⟨hp, hpkind⟩
        have hpids : p.id ∈ ids := by
          rw [← howners, Option.getD_none]
          exact List.mem_map.2 ⟨p, List.mem_filter.2 ⟨hpin, by simpa using hpdone⟩, rfl⟩
        have hsome : (workOf progress p.id).isSome = true := by
          unfold workOf
          rw [List.find?_isSome]
          exact ⟨p, hpin, by simp⟩
        rw [← hheld]
        unfold heldOf ownerOf
        refine List.mem_filter.2 ⟨?_, ?_⟩
        · refine List.mem_filter.2 ⟨mem_ofKind_one.2 ⟨hopen.mem, hopen.kind⟩, ?_⟩
          rw [hopen.open_]
          simp
        · rw [hpwork, Option.any_some, Option.bind_some, hsome, Bool.and_true, List.contains_iff_mem]
          exact hpids
      exact ⟨hmem, hepic it hmem⟩
  have hstep : ∀ (epic : Text) (epics : List Text) (moved : ℕ) (u : State),
      (Stage s (owners = none ∧ file_new = true ∧ Free s) (fun it => it ∈ held ∧ epicOf progress it ∈ epic :: epics) u ∧
        (epic :: epics).Nodup) →
      Holds Sound (fun _ => False) (fun u _ => Stage s (owners = none ∧ file_new = true ∧ Free s)
        (fun it => it ∈ held ∧ epicOf progress it ∈ epics) u ∧ epics.Nodup)
        (ownEpic judge ids file_new progress held moved epic) u := by
    rintro epic epics moved u ⟨hu, hnodup⟩
    obtain ⟨hnot, hepics⟩ := List.nodup_cons.1 hnodup
    have hmem : ∀ it, it ∈ held.filter (fun it => epicOf progress it = epic) ↔ it ∈ held ∧ epicOf progress it = epic := by
      intro it
      rw [List.mem_filter, decide_eq_true_eq]
    have hstage : Stage s (owners = none ∧ file_new = true ∧ Free s) (fun it => (it ∈ held ∧ epicOf progress it ∈ epics) ∨
        it ∈ held.filter fun it => epicOf progress it = epic) u := by
      apply hu.weaken
      · rintro it (⟨hit, hepic⟩ | hgroup)
        · exact ⟨hit, List.mem_cons_of_mem _ hepic⟩
        · obtain ⟨hit, rfl⟩ := (hmem it).1 hgroup
          exact ⟨hit, List.mem_cons_self⟩
      · rintro - it ⟨hit, hepic⟩
        rcases List.mem_cons.1 hepic with rfl | hepic
        · exact .inr ((hmem it).2 ⟨hit, rfl⟩)
        · exact .inl ⟨hit, hepic⟩
    apply (holds_ownEpic hold (fun c => c.2.1) hstage ?_).mono
    · exact fun v _ hv => ⟨hv, hepics⟩
    · rintro it ⟨-, hepic⟩ hgroup
      exact hnot (((hmem it).1 hgroup).2 ▸ hepic)
  have hloop := holds_foldlM (J := fun epics (_ : ℕ) u => Stage s (owners = none ∧ file_new = true ∧ Free s)
    (fun it => it ∈ held ∧ epicOf progress it ∈ epics) u ∧ epics.Nodup) (b := 0) hstep ⟨hstart, nodup_eraseDups _⟩
  apply hloop.mono
  rintro u - ⟨hu, -⟩
  exact ⟨hu.sound, fun c it hopen hof => List.not_mem_nil (hu.only c it hopen hof).2⟩

end Own

/-! ## A round that is filed again -/

section Rerun

variable {judge judge' : Judge} {work_id source : Text} {number : ℤ} {findings : List Report} {caller : Text}
  {same : Text → Text} {s t u : State}

theorem mem_roundIds {rid : Text} (h : rid ∈ roundIds work_id source number findings) :
    ∃ it ∈ roundItems same work_id source number findings, it.id = rid := by
  rw [roundIds_eq] at h
  obtain ⟨i, hi, rfl⟩ := List.mem_mapIdx.1 h
  exact ⟨_, List.mem_mapIdx.2 ⟨i, hi, rfl⟩, rfl⟩

/-- The ids are distinct, and those of the round are among them. -/
structure Filed (rids : List Text) (s : State) : Prop where
  ids : (s.items.map (·.id)).Nodup
  there : ∀ rid ∈ rids, ∃ it ∈ s.items, it.id = rid

theorem Filed.replaced {rids : List Text} {item old : Item} (h : Filed rids s) (htakes : Takes s item old) :
    Filed rids (replaced s item) := by
  refine ⟨replaced_ids h.ids htakes, fun rid hrid => ?_⟩
  obtain ⟨it, hit, hid⟩ := h.there rid hrid
  by_cases heq : it.id = item.id
  · exact ⟨item, (mem_replaced h.ids htakes).2 (.inl rfl), heq.symm.trans hid⟩
  · exact ⟨it, (mem_replaced h.ids htakes).2 (.inr ⟨hit, heq⟩), hid⟩

theorem added_ids {new : List Item} (hids : (s.items.map (·.id)).Nodup) (hrep : repeated (s.items.map (·.id)) new = none) :
    ((added s new).items.map (·.id)).Nodup := by
  obtain ⟨hnodup, hfresh⟩ := repeated_none hrep
  show ((s.items ++ new).map (·.id)).Nodup
  rw [List.map_append, List.nodup_append]
  refine ⟨hids, hnodup, ?_⟩
  rintro a ha b hb rfl
  obtain ⟨it, hit, rfl⟩ := List.mem_map.1 hb
  exact hfresh it hit ha

/-- A round that is filed is on the list, and its caller may file it. -/
theorem holds_filed (hids : (s.items.map (·.id)).Nodup) :
    Holds (fun _ => True) (fun _ => True)
      (fun t _ => Filed (roundIds work_id source number findings) t ∧
        (roundIds work_id source number findings ≠ [] → _check FILERS FINDING caller (lit "file") = .ok ()))
      (file_findings judge work_id source number findings caller) s := by
  unfold file_findings
  apply holds_bind
  apply holds_open_findings
  apply holds_bind
  apply holds_file trivial
  intro new hfresh hrep
  refine ⟨trivial, ?_⟩
  apply holds_bind
  have hthere : ∀ rid ∈ roundIds work_id source number findings, ∃ it ∈ (added s new).items, it.id = rid := by
    intro rid hrid
    obtain ⟨it, hit, rfl⟩ := mem_roundIds hrid
    rcases hfresh.rest it hit with hnew | ⟨known, hknown, hid, -⟩
    · exact ⟨it, List.mem_append_right _ hnew, rfl⟩
    · exact ⟨known, List.mem_append_left _ hknown, hid⟩
  have hcheck : roundIds work_id source number findings ≠ [] → _check FILERS FINDING caller (lit "file") = .ok () := by
    intro hne
    obtain ⟨rid, rids, hrids⟩ := List.exists_cons_of_ne_nil hne
    have hrid : rid ∈ roundIds work_id source number findings := hrids ▸ List.mem_cons_self
    obtain ⟨it, hit, -⟩ := mem_roundIds hrid
    have hitem := hfresh.checked it hit
    rwa [(round_row hit).kind] at hitem
  have hstep : ∀ (merge : Text × Text) (_ : List (Text × Text)) (_ : Unit) (u : State),
      Filed (roundIds work_id source number findings) u →
      Holds (fun _ => True) (fun _ => True) (fun u _ => Filed (roundIds work_id source number findings) u) (mergeOld merge) u :=
    fun merge _ _ u hu => holds_mergeOld hu.ids (fun _ => hu) fun _ _ _ _ htakes _ _ => ⟨trivial, hu.replaced htakes⟩
  have hloop := holds_foldlM (J := fun _ (_ : Unit) u => Filed (roundIds work_id source number findings) u)
    (b := ()) (l := (pairing (judged judge work_id source number findings (opened s work_id))
      ((reports work_id source number findings).map Prod.fst)).1) hstep ⟨added_ids hids hrep, hthere⟩
  exact hloop.mono fun u _ hu => holds_pure ⟨hu, hcheck⟩

/-- A judge that names no cause changes nothing when the round is on the list. -/
theorem holds_rerun_new (h : Filed (roundIds work_id source number findings) t)
    (hstop : (∀ rid ∈ roundIds work_id source number findings,
        judged judge work_id source number findings (opened t work_id) rid = NEW) ∨
      ∃ it ∈ roundItems (judged judge work_id source number findings (opened t work_id)) work_id source number findings,
        ∃ known ∈ t.items, known.id = it.id ∧ payload_digest known ≠ payload_digest it) :
    Holds (fun _ => True) (fun u => u = t) (fun u _ => u = t)
      (file_findings judge work_id source number findings caller) t := by
  unfold file_findings
  apply holds_bind
  apply holds_open_findings
  apply holds_bind
  apply holds_file (E := fun u => u = t) rfl
  intro new hfresh hrep
  refine ⟨trivial, ?_⟩
  -- nothing is new, as every id of the round is there
  have hnot : ∀ it ∈ new, False := by
    intro it hit
    obtain ⟨known, hknown, hid⟩ := h.there it.id (round_row (hfresh.sub it hit)).id
    exact (repeated_none hrep).2 it hit (List.mem_map.2 ⟨known, hknown, hid⟩)
  obtain rfl : new = [] := List.eq_nil_iff_forall_not_mem.2 hnot
  have hsame : added t [] = t := by
    unfold added findingIds
    simp
  rw [hsame]
  rcases hstop with hnew | ⟨it, hit, known, hknown, hid, hdigest⟩
  · have htaken : (pairing (judged judge work_id source number findings (opened t work_id))
        ((reports work_id source number findings).map Prod.fst)).1 = [] := by
      rw [List.eq_nil_iff_forall_not_mem]
      intro merge hmerge
      obtain ⟨hjudged, hne, i, hrid, -⟩ := (pairing_spec _ _).first merge hmerge
      exact hne (hjudged.symm.trans (hnew merge.2 (List.mem_of_getElem? hrid)))
    rw [htaken]
    exact holds_bind (holds_pure (holds_pure rfl))
  · exfalso
    rcases hfresh.rest it hit with hmem | ⟨known', hknown', hid', hdigest'⟩
    · exact List.not_mem_nil hmem
    · obtain rfl := eq_of_key h.ids hknown hknown' (hid.trans hid'.symm)
      exact hdigest hdigest'

/-- A judge that names a cause merges it, unless the round is refused. -/
theorem holds_rerun_merges (h : Filed (roundIds work_id source number findings) t)
    (hcheck : roundIds work_id source number findings ≠ [] → _check FILERS FINDING caller (lit "file") = .ok ())
    (hdigest : ∀ it ∈ roundItems (judged judge work_id source number findings (opened t work_id)) work_id source number findings,
      ∀ known ∈ t.items, known.id = it.id → payload_digest known = payload_digest it) :
    Holds (fun _ => True) (fun _ => False) (fun u _ => (u.items.map (·.id)).Nodup ∧
      ∀ rid ∈ roundIds work_id source number findings,
        judged judge work_id source number findings (opened t work_id) rid ≠ NEW →
        ∃ it ∈ u.items, it.id = judged judge work_id source number findings (opened t work_id) rid ∧ it.status = MERGED)
      (file_findings judge work_id source number findings caller) t := by
  unfold file_findings
  apply holds_bind
  apply holds_open_findings
  have hknown : fresh t.items caller
      (roundItems (judged judge work_id source number findings (opened t work_id)) work_id source number findings) = .ok [] := by
    apply fresh_known
    · intro it hit
      rw [(round_row hit).kind]
      exact hcheck (List.ne_nil_of_mem (round_row hit).id)
    · exact fun it hit => h.there it.id (round_row hit).id
    · exact hdigest
  have hall : ofKind t.items none = t.items := List.filter_true _
  have hsame : added t [] = t := by
    unfold added findingIds
    simp
  dsimp only
  generalize htaken : pairing (judged judge work_id source number findings (opened t work_id))
    ((reports work_id source number findings).map Prod.fst) = paired
  have hspec := pairing_spec (judged judge work_id source number findings (opened t work_id))
    ((reports work_id source number findings).map Prod.fst)
  rw [htaken] at hspec
  have hold : ∀ merge ∈ paired.1, ∃ it ∈ t.items, it.id = merge.1 := by
    intro merge hmerge
    obtain ⟨hjudged, hnew, -, -, -⟩ := hspec.first merge hmerge
    rcases same_causes_mem judge (reports work_id source number findings)
      ((opened t work_id).map fun it => (it.id, issue it)) merge.2 with heq | hcause
    · exact absurd (hjudged.symm.trans heq) hnew
    · rw [List.map_map] at hcause
      obtain ⟨it, hit, heq⟩ := List.mem_map.1 hcause
      exact ⟨it, (isOpen_of_opened hit).mem, heq.trans hjudged⟩
  have hstep : ∀ (merge : Text × Text) (rest : List (Text × Text)) (_ : Unit) (u : State),
      ((u.items.map (·.id)).Nodup ∧ (∀ m ∈ paired.1, ∃ it ∈ u.items, it.id = m.1) ∧
        ∀ m ∈ paired.1, m ∈ merge :: rest ∨ ∃ it ∈ u.items, it.id = m.1 ∧ it.status = MERGED) →
      Holds (fun _ => True) (fun _ => False) (fun u _ => (u.items.map (·.id)).Nodup ∧
        (∀ m ∈ paired.1, ∃ it ∈ u.items, it.id = m.1) ∧
        ∀ m ∈ paired.1, m ∈ rest ∨ ∃ it ∈ u.items, it.id = m.1 ∧ it.status = MERGED) (mergeOld merge) u := by
    rintro merge rest - u ⟨hids, hthere, hmerged⟩
    apply holds_mergeOld hids
    · intro hnone
      refine ⟨hids, hthere, fun m hm => ?_⟩
      rcases hmerged m hm with hmem | hdone
      · rcases List.mem_cons.1 hmem with rfl | hmem
        · obtain ⟨it, hit, hid⟩ := hthere m hm
          exact absurd (by simpa using hid) (List.find?_eq_none.1 hnone it hit)
        · exact .inl hmem
      · exact .inr hdone
    · intro stale hstale hid item htakes hstatus _
      have hitem : item.id = merge.1 := htakes.id.symm.trans hid
      have hbefore : Filed (paired.1.map Prod.fst) u := ⟨hids, fun rid hrid => by
        obtain ⟨m, hm, rfl⟩ := List.mem_map.1 hrid
        exact hthere m hm⟩
      have hfiled := hbefore.replaced htakes
      refine ⟨trivial, hfiled.ids, fun m hm => hfiled.there m.1 (List.mem_map_of_mem hm), fun m hm => ?_⟩
      by_cases heq : m.1 = merge.1
      · exact .inr ⟨item, (mem_replaced hids htakes).2 (.inl rfl), hitem.trans heq.symm, hstatus⟩
      · rcases hmerged m hm with hmem | ⟨it, hit, hitid, hitstatus⟩
        · rcases List.mem_cons.1 hmem with rfl | hmem
          · exact absurd rfl heq
          · exact .inl hmem
        · refine .inr ⟨it, (mem_replaced hids htakes).2 (.inr ⟨hit, fun hne => heq ?_⟩), hitid, hitstatus⟩
          rw [← hitid, hne, hitem]
  have hloop := holds_foldlM (I := fun _ : State => True) (E := fun _ : State => False)
    (J := fun rest (_ : Unit) u => (u.items.map (·.id)).Nodup ∧ (∀ m ∈ paired.1, ∃ it ∈ u.items, it.id = m.1) ∧
      ∀ m ∈ paired.1, m ∈ rest ∨ ∃ it ∈ u.items, it.id = m.1 ∧ it.status = MERGED) (b := ())
    hstep ⟨h.ids, hold, fun m hm => .inl hm⟩
  apply holds_bind
  unfold file
  apply holds_bind
  apply holds_items
  rw [hall]
  apply holds_bind
  apply holds_lift
  · intro new hok
    obtain rfl := Except.ok.inj (hknown.symm.trans hok)
    refine holds_add (fun hne => absurd rfl hne) (fun _ => trivial) fun _ => ?_
    rw [hsame]
    apply holds_bind
    apply hloop.mono
    rintro u - ⟨hids, -, hmerged⟩
    refine holds_pure ⟨hids, fun rid hrid hnew => ?_⟩
    obtain ⟨merge, hmerge, heq⟩ := hspec.all rid hrid hnew
    obtain ⟨it, hit, hid, hstatus⟩ := (hmerged merge hmerge).resolve_left List.not_mem_nil
    exact ⟨it, hit, hid.trans heq, hstatus⟩
  · intro e herror
    rw [hknown] at herror
    cases herror

/-- **A round that is filed again leaves the open findings as they are exactly when** the judge names none of
them, or the round is refused because an item of it is on the list with other content. -/
theorem rerun_same_iff {filed : List Item} (hids : (s.items.map (·.id)).Nodup)
    (hok : ((file_findings judge work_id source number findings caller).run.finish s).2 = .ok filed)
    (ht : t = ((file_findings judge work_id source number findings caller).run.finish s).1)
    (hu : u = ((file_findings judge' work_id source number findings caller).run.finish t).1) :
    (opened u []).map (·.id) = (opened t []).map (·.id) ↔
      (∀ rid ∈ roundIds work_id source number findings,
        judged judge' work_id source number findings (opened t work_id) rid = NEW) ∨
      ∃ it ∈ roundItems (judged judge' work_id source number findings (opened t work_id)) work_id source number findings,
        ∃ known ∈ t.items, known.id = it.id ∧ payload_digest known ≠ payload_digest it := by
  have hround : Holds (fun _ => True) (fun _ => True) (fun t _ => Filed (roundIds work_id source number findings) t ∧
      (roundIds work_id source number findings ≠ [] → _check FILERS FINDING caller (lit "file") = .ok ()))
      (file_findings judge work_id source number findings caller) s := holds_filed hids
  obtain ⟨hfiled, hcheck⟩ := hround.of_ok hok
  change Filed _ ((file_findings judge work_id source number findings caller).run.finish s).1 at hfiled
  rw [← ht] at hfiled
  constructor
  · intro hsame
    by_contra hno
    rw [not_or] at hno
    obtain ⟨hnamed, hrefused⟩ := hno
    have hdigest : ∀ it ∈ roundItems (judged judge' work_id source number findings (opened t work_id)) work_id source number
        findings, ∀ known ∈ t.items, known.id = it.id → payload_digest known = payload_digest it := by
      intro it hit known hknown hid
      by_contra hne
      exact hrefused ⟨it, hit, known, hknown, hid, hne⟩
    obtain ⟨rid, hrid⟩ := not_forall.1 hnamed
    obtain ⟨hmem, hnew⟩ := Classical.not_imp.1 hrid
    obtain ⟨-, huids, hmerged⟩ := (holds_rerun_merges hfiled hcheck hdigest).never
    have hend : ((file_findings judge' work_id source number findings caller : Prog State (Except Raised (List Item))).finish t).1
        = u := hu.symm
    rw [hend] at huids hmerged
    obtain ⟨it, hit, hid, hstatus⟩ := hmerged rid hmem hnew
    -- what was open before is merged now
    have hopen : judged judge' work_id source number findings (opened t work_id) rid ∈ (opened t []).map (·.id) := by
      rcases same_causes_mem judge' (reports work_id source number findings)
        ((opened t work_id).map fun it => (it.id, issue it)) rid with heq | hcause
      · exact absurd heq hnew
      · rw [List.map_map] at hcause
        obtain ⟨old, hold, heq⟩ := List.mem_map.1 hcause
        obtain ⟨hrow, hstill⟩ := List.mem_filter.1 hold
        rw [Bool.and_eq_true] at hstill
        refine List.mem_map.2 ⟨old, List.mem_filter.2 ⟨hrow, ?_⟩, heq⟩
        rw [hstill.1]
        simp
    rw [← hsame] at hopen
    obtain ⟨row, hrow, hrowid⟩ := List.mem_map.1 hopen
    have hrowopen := isOpen_of_opened hrow
    obtain rfl := eq_of_key huids hrowopen.mem hit (hrowid.trans hid.symm)
    exact hrowopen.not_merged hstatus
  · intro hstop
    have hleaves : u = t := by
      rw [hu]
      exact (holds_rerun_new hfiled hstop).leaves
    rw [hleaves]

end Rerun

/-! ## Runs -/

section Runs

variable {s t : State} {es : List (Cut.Event Op)}

/-- **When an operation does what it is for**: a judge names no finding of the round that it is asked about, and
no two contents share a digest; the follow-up of a finding's text is not done when finished work is looked at. -/
def Apt (s : State) : Op → Prop
  | .file_findings judge work_id source number findings _ => Apart judge work_id source number findings s
  | .own _ none true => Free s
  | _ => True

instance (s : State) : ∀ op : Op, Decidable (Apt s op)
  | .file_findings judge work_id source number findings _ =>
    decidable_of_iff
      ((∀ rid ∈ roundIds work_id source number findings,
        judged judge work_id source number findings (opened s work_id) rid ∉ roundIds work_id source number findings) ∧
      ∀ it ∈ roundItems (judged judge work_id source number findings (opened s work_id)) work_id source number findings,
        ∀ known ∈ s.items, known.id = it.id → payload_digest known = payload_digest it →
          known.kind = it.kind ∧ known.content = it.content) ⟨fun h => ⟨h.1, h.2⟩, fun h => ⟨h.own, h.digests⟩⟩
  | .own _ none true => inferInstanceAs (Decidable (∀ it ∈ s.items, it.kind = FINDING → SCHEME.isDone it = false →
      ∀ owner ∈ ownerOf (ofKind s.items (some PROGRESS_KINDS)) it, owner.status = DONE →
        ∀ p ∈ s.items, p.kind ∈ PROGRESS_KINDS → p.status = DONE →
          p.id ≠ follow_up_id (parentOf (ofKind s.items (some PROGRESS_KINDS)) owner) (proposal [it])))
  | .own _ none false | .own _ (some _) _ | .launch _ | .settle _ _ _ | .consolidate | .claim | .standing | .amend _ _ =>
    .isTrue trivial

theorem keeps_stories (h : Sound s) {batch : List Item} (hkind : ∀ it ∈ batch, it.kind = STORY) (caller : Text) :
    Holds Sound Sound (fun s _ => Sound s) (file batch caller) s := by
  apply holds_file h
  intro new hfresh hrep
  have hstory : ∀ it ∈ new, it.kind = STORY := fun it hit => hkind it (hfresh.sub it hit)
  have hsound : Sound (added s new) := by
    apply h.added hrep
    · intro it hit hfinding
      rw [hstory it hit] at hfinding
      exact absurd hfinding (by decide)
    · intro it hit hfollow
      rw [hstory it hit] at hfollow
      exact absurd hfollow (by decide)
  exact ⟨hsound, hsound⟩

theorem story_items_kind {entries : List Entry} {start : ℚ} {stop : Option ℚ} {it : Item}
    (h : it ∈ story_items entries start stop) : it.kind = STORY := by
  obtain ⟨i, hi, rfl⟩ := List.mem_mapIdx.1 h
  rfl

theorem holds_amend (h : Sound s) (epic : Text) (entries : List Entry) :
    Holds Sound Sound (fun s _ => Sound s) (amend epic entries) s := by
  unfold amend
  apply holds_bind
  apply holds_items
  dsimp only
  apply holds_bind
  have hloop := holds_foldlM (I := Sound) (E := Sound) (J := fun _ (_ : Unit) s => Sound s) (b := ())
    (f := fun (_ : Unit) (it : Item) =>
      if it.kind = STORY ∧ !SCHEME.isDone it then edit false (prune it.id (some [STORY])) else pure ())
    (l := (ofKind s.items (some PROGRESS_KINDS)).filter fun it => it.content.epic = some epic)
    (fun it rest _ s hs => by
      split
      · exact holds_edit (hs.pruned it.id (by decide)) (hs.pruned it.id (by decide))
      · exact holds_pure hs) h
  apply hloop.mono
  intro u _ hu
  apply holds_bind
  apply holds_items
  exact keeps_stories hu (fun it hit => story_items_kind hit) _

/-- A status that is not `merged`, for the items of some ids. -/
theorem sound_settle (h : Sound s) (ids : List Text) {status kind : Text} (hstatus : status ≠ MERGED) :
    Sound { s with items := settle ids status (some [kind]) s.items } := by
  unfold settle WorkList.update
  apply h.map (WorkList.keeps_ite (WorkList.keeps_status status))
  intro it _ _
  split
  · exact .inl hstatus
  · exact .inr rfl

theorem holds_move (h : Sound s) (ids : List Text) {status kind caller : Text} (hstatus : status ≠ MERGED) :
    Holds Sound Sound (fun s _ => Sound s) (move ids status kind caller) s := by
  unfold move
  apply holds_bind
  apply holds_lift
  · exact fun _ _ => holds_edit (sound_settle h ids hstatus) (sound_settle h ids hstatus)
  · exact fun _ _ => h

/-- **Every operation keeps the list sound**, after each of its whole writes. -/
theorem holds_program (op : Op) (h : Sound s) (hapt : Apt s op) : Holds Sound Sound (fun s _ => Sound s) (program op) s := by
  have hdone : ∀ {α : Type} {x : Cmd α}, Holds Sound Sound (fun s _ => Sound s) x s →
      Holds Sound Sound (fun s _ => Sound s) (do let _ ← x; pure ()) s := fun hx =>
    holds_bind (hx.mono fun _ _ hs => holds_pure hs)
  cases op with
  | launch entries => exact hdone (keeps_stories h (fun it hit => story_items_kind hit) _)
  | file_findings judge work_id source number findings caller => exact hdone (holds_file_findings h hapt)
  | settle ids status hstatus =>
    apply holds_move h ids
    rintro rfl
    exact absurd hstatus (by decide)
  | own judge owners file_new => exact hdone (((holds_own h judge owners file_new).mono fun _ _ hs => hs.1).raising fun _ hno => hno.elim)
  | consolidate => exact hdone (holds_consolidate h)
  | claim =>
    have hclaim : Sound { s with items := (WorkList.claim SCHEME [] (some PROGRESS_KINDS) true 1 ACTIVE s.items).2 } := by
      apply h.map (WorkList.keeps_ite (WorkList.keeps_claimed ACTIVE))
      intro it _ _
      split
      · exact .inl (show ACTIVE ≠ MERGED by decide)
      · exact .inr rfl
    exact holds_edit hclaim hclaim
  | standing =>
    apply holds_bind
    unfold _item
    apply holds_bind
    apply holds_items
    split
    · exact holds_pure (holds_move h _ (by decide))
    · exact holds_throw h
  | amend epic entries => exact hdone (holds_amend h epic entries)

theorem sound_empty : Sound empty :=
  ⟨List.nodup_nil, fun _ h => absurd h List.not_mem_nil, fun _ h => absurd h List.not_mem_nil,
    fun _ h => absurd h List.not_mem_nil, fun _ h => absurd h List.not_mem_nil⟩

theorem sound_run (halong : Run.Along (Cut.step run) (fun s e => Cut.Whole run s e ∧ Apt s e.command) empty es)
    (hrun : Run.run (Cut.step run) empty es = some t) : Sound t := by
  refine Cut.kept (fun op s hs hapt => ?_) sound_empty halong hrun
  apply Cut.Keeps.mono (holds_program op hs hapt)
  intro s r hr
  cases r with
  | ok a => exact hr
  | error e => exact hr

/-- **No finding of a run is lost**, when no stop falls between the two writes of a replacement, a judge names
no finding of the round that it is asked about, no two contents share a digest, and the follow-up of a
finding's text is not done when finished work is looked at: what was filed is on the list; a merged finding
leads to one that is not; and when finished work has been looked at, no open finding is left with it. A round that is
filed again leaves the open findings as they are exactly when the judge names none, or the round is refused. -/
theorem findings_stay (halong : Run.Along (Cut.step run) (fun s e => Cut.Whole run s e ∧ Apt s e.command) empty es)
    (hrun : Run.run (Cut.step run) empty es = some t) :
    (∀ id ∈ t.filed, ∃ it ∈ t.items, it.id = id ∧ it.kind = FINDING) ∧
    (∀ it ∈ t.items, it.kind = FINDING → it.status = MERGED → Leads t.items it.id) ∧
    (∀ es' judge, es = es' ++ [⟨.consolidate, none⟩, ⟨.own judge none true, none⟩] → ∀ it, IsOpen t it → ¬ OfDone t it) ∧
    ∀ judge judge' work_id source number findings caller filed t' u,
      ((file_findings judge work_id source number findings caller).run.finish t).2 = .ok filed →
      t' = ((file_findings judge work_id source number findings caller).run.finish t).1 →
      u = ((file_findings judge' work_id source number findings caller).run.finish t').1 →
      ((opened u []).map (·.id) = (opened t' []).map (·.id) ↔
        (∀ rid ∈ roundIds work_id source number findings,
          judged judge' work_id source number findings (opened t' work_id) rid = NEW) ∨
        ∃ it ∈ roundItems (judged judge' work_id source number findings (opened t' work_id)) work_id source number findings,
          ∃ known ∈ t'.items, known.id = it.id ∧ payload_digest known ≠ payload_digest it) := by
  have hsound := sound_run halong hrun
  refine ⟨hsound.filed, fun it hit hkind _ => hsound.leads it hit hkind, fun es' judge hes => ?_,
    fun judge judge' work_id source number findings caller filed t' u hok ht' hu => rerun_same_iff hsound.ids hok ht' hu⟩
  have hsplit : es = (es' ++ [⟨.consolidate, none⟩]) ++ [⟨.own judge none true, none⟩] := by
    rw [hes, List.append_assoc]
    rfl
  subst hsplit
  obtain ⟨s, hs, hstep⟩ := Run.run_snoc.1 hrun
  have hapt : Free s := (Run.along_append halong hs).1.2
  have hstart := sound_run (Run.along_left halong) hs
  obtain rfl := Option.some.inj hstep
  have hleft : Holds Sound (fun _ => False) (fun t _ => ∀ it, IsOpen t it → ¬ OfDone t it) (program (.own judge none true)) s :=
    holds_bind ((holds_own hstart judge none true).mono fun u _ hu => holds_pure (hu.2 ⟨rfl, rfl, hapt⟩))
  obtain ⟨-, hopen⟩ := hleft.never
  exact hopen

/-- The word rule, and a reading that answers nothing. -/
def wordJudge : Judge := cause_judge ⟨fun _ => [], fun _ _ _ h => absurd h List.not_mem_nil⟩

def launchLogin : Op := .launch [⟨lit "login", lit "auth", lit "S1"⟩]

/-- The `number`-th round of a source against `login`, with one report. -/
def crashed (source : String) : Op :=
  .file_findings wordJudge (lit "login") (lit source) 1 [⟨[], lit "The page crashes.", [], [], 1⟩] (lit source)

/-- A review and then QA report one defect, the story is done, and a stop comes when the follow-up is filed. -/
def crashRun : List (Cut.Event Op) :=
  [⟨launchLogin, none⟩, ⟨.claim, none⟩, ⟨crashed "review", none⟩, ⟨crashed "qa", none⟩, ⟨.standing, none⟩,
    ⟨.own wordJudge none true, some 1⟩, ⟨.consolidate, none⟩, ⟨.own wordJudge none true, none⟩]

theorem findings_stay_crash : ∃ t, Run.run (Cut.step run) empty crashRun = some t ∧
    t.filed.dedup = [lit "login/review-1.1", lit "login/qa-1.1"] ∧
    (∀ id ∈ t.filed, ∃ it ∈ t.items, it.id = id ∧ it.kind = FINDING) ∧ Leads t.items (lit "login/review-1.1") ∧
    ∀ it, IsOpen t it → ¬ OfDone t it := by
  have hseen : (Run.run (Cut.step run) empty crashRun).map (fun t => (t.filed.dedup, t.items.any fun it =>
      it.id = lit "login/review-1.1" && it.kind = FINDING && it.status = MERGED)) =
      some ([lit "login/review-1.1", lit "login/qa-1.1"], true) := by decide +kernel
  obtain ⟨t, hrun, hseen⟩ := Option.map_eq_some_iff.1 hseen
  obtain ⟨hfiled, hmerged⟩ := Prod.mk.inj hseen
  obtain ⟨hstay, hleads, hdone, -⟩ := findings_stay (by decide +kernel) hrun
  obtain ⟨it, hit, hrow⟩ := List.any_eq_true.1 hmerged
  simp only [Bool.and_eq_true, decide_eq_true_eq] at hrow
  refine ⟨t, hrun, hfiled, hstay, ?_, hdone (crashRun.take 6) wordJudge rfl⟩
  rw [← hrow.1.1]
  exact hleads it hit hrow.1.2 hrow.2

/-- **A stop between the two writes of a replacement loses a finding; a round that is filed again is merged into
itself; and the finding of a follow-up that is done is handed to that follow-up.** -/
theorem finding_merged_into_itself :
    ((Run.run (Cut.step run) empty [⟨launchLogin, none⟩, ⟨.claim, none⟩, ⟨crashed "review", none⟩, ⟨crashed "qa", some 2⟩]).map
      fun t => (t.filed, t.items.map (·.id))) =
      some ([lit "login/review-1.1", lit "login/qa-1.1"], [lit "login", lit "login/qa-1.1"]) ∧
    ((Run.run (Cut.step run) empty [⟨launchLogin, none⟩, ⟨.claim, none⟩, ⟨crashed "qa", none⟩, ⟨crashed "qa", none⟩]).map
      fun t => t.items.map fun it => (it.id, it.status, it.content.same_as)) =
      some [(lit "login", ACTIVE, none), (lit "login/qa-1.1", MERGED, some (lit "login/qa-1.1"))] ∧
    ((Run.run (Cut.step run) empty [⟨launchLogin, none⟩, ⟨.claim, none⟩, ⟨crashed "qa", none⟩, ⟨.standing, none⟩,
      ⟨.consolidate, none⟩, ⟨.own wordJudge none true, none⟩, ⟨.claim, none⟩, ⟨.standing, none⟩, ⟨.consolidate, none⟩,
      ⟨.own wordJudge none true, none⟩]).map fun t => t.items.map fun it => (it.id, it.status, it.content.work_id)) =
      some [(lit "login", DONE, none), (lit "login/follow-up-e6f7fe8d", DONE, none),
        (lit "login/qa-1.1", OPEN, some (lit "login/follow-up-e6f7fe8d"))] := by
  refine ⟨?_, ?_, ?_⟩ <;> decide +kernel

end Runs

end Stablemate.Coder
