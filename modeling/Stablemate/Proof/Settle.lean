import Stablemate.Lib.Lists
import Stablemate.Model.Settle

/-!
# Review settlement is a partition that never overclaims

* `settle_review_spec`: a plan without an error counts every finding once, and gives the story the
  applied status only when each finding is verified by what it cites or declined with a reason.
* `settle_answers_spec`: **a filed id is settled exactly by one well-formed entry that has it
  alone**; the others are open.
-/

namespace Stablemate.Settle

open PyJson (Value Key Entries)
open Archive (truthy)

variable {W : World}

/-! ## What a verified finding cites -/

/-- The value that a pointer leads to. -/
inductive At (W : World) : Value → List Text → Value → Prop
  | here (v : Value) : At W v [] v
  | key {kvs : Entries} {part : Text} {parts : List Text} {v w : Value} :
      kvs.lookup (.str part) = some v → At W v parts w → At W (.dict kvs) (part :: parts) w
  | index {xs : List Value} {part : Text} {parts : List Text} {idx : ℤ} {v w : Value} :
      W.int part = some idx → -(xs.length : ℤ) ≤ idx → idx < xs.length →
      xs[(if idx < 0 then idx + xs.length else idx).toNat]? = some v → At W v parts w →
      At W (.list xs) (part :: parts) w

theorem navigate_at : ∀ {parts : List Text} {v w : Value}, _navigate W v parts = some (some w) → At W v parts w := by
  intro parts
  induction parts with
  | nil =>
    intro v w h
    cases h
    exact .here v
  | cons part parts ih =>
    intro v w h
    unfold _navigate at h
    split at h
    · split at h
      · rename_i hlookup
        exact .key hlookup (ih h)
      · cases h
    · rename_i xs
      split at h
      · split at h
        · cases h
        · rename_i idx hint
          split at h
          · rename_i hrange
            have hlt : (if idx < 0 then idx + xs.length else idx).toNat < xs.length := by
              split <;> omega
            rw [List.getElem?_eq_getElem hlt, Option.getD_some] at h
            exact .index hint hrange.1 hrange.2 (List.getElem?_eq_getElem hlt) (ih h)
          · cases h
      · cases h
    · cases h

/-- An artifact that exists. -/
def ArtifactHolds (W : World) (artifact : Value) : Prop := ∃ rel, artifact = .str rel ∧ W.is_file rel = true

/-- An assertion whose pointer holds the expected value. -/
def AssertionHolds (W : World) (assertion : Value) : Prop :=
  ∃ a afile data pointer actual, assertion = .dict a ∧ getOr a "file" (.str []) = .str afile ∧
    W.is_file afile = true ∧ W.load afile = .ok data ∧ getOr a "pointer" (.str []) = .str pointer ∧
    At W data (pointer.splitOn '.') actual ∧ eqv actual (getOr a "equals" .none) = true

/-- A finding all of whose citations hold. -/
structure Verified (W : World) (finding : Entries) : Prop where
  addressed : Text.lower (strOf W (getOr finding "disposition" (.str []))) = "addressed".toList
  artifacts : ∃ cited, iterate (getOr finding "artifacts" (.list [])) = some cited ∧ ∀ x ∈ cited, ArtifactHolds W x
  assertions : ∃ cited, iterate (getOr finding "assertions" (.list [])) = some cited ∧ ∀ x ∈ cited, AssertionHolds W x

/-- A finding declined with a reason. -/
structure Declined (W : World) (finding : Entries) : Prop where
  declined : Text.lower (strOf W (getOr finding "disposition" (.str []))) = "declined".toList
  reason : reasonOf W finding ≠ []

theorem artifactGap_nil {fid x : Value} (h : artifactGap W fid x = some []) : ArtifactHolds W x := by
  unfold artifactGap at h
  split at h
  · split at h
    · exact ⟨_, rfl, by assumption⟩
    · have hnil := Option.some.inj h
      simp at hnil
  · cases h

theorem assertionGap_nil {fid x : Value} (h : assertionGap W fid x = some []) : AssertionHolds W x := by
  unfold assertionGap at h
  split at h
  · rename_i a
    split at h
    · rename_i afile hfile
      split at h
      · have hnil := Option.some.inj h
        simp at hnil
      · rename_i hexists
        split at h
        · have hnil := Option.some.inj h
          simp at hnil
        · rename_i data hload
          split at h
          · rename_i pointer hpointer
            dsimp only at h
            split at h
            · cases h
            · have hnil := Option.some.inj h
              simp at hnil
            · rename_i actual hnav
              split at h
              · have hnil := Option.some.inj h
                simp at hnil
              · rename_i heq
                exact ⟨a, afile, data, pointer, actual, rfl, hfile, by simpa using hexists, hload, hpointer,
                  navigate_at hnav, by simpa using heq⟩
          · cases h
    · cases h
  · have hnil := Option.some.inj h
    simp at hnil

theorem firstGap_nil {gap : Value → Option Text} : ∀ {xs : List Value}, firstGap gap xs = some [] →
    ∀ x ∈ xs, gap x = some [] := by
  intro xs
  induction xs with
  | nil => exact fun _ x hx => absurd hx List.not_mem_nil
  | cons y xs ih =>
    intro h x hx
    unfold firstGap at h
    split at h
    · rename_i hy
      rcases List.mem_cons.1 hx with rfl | hx
      · exact hy
      · exact ih h x hx
    · rename_i hno
      exact absurd h (hno)

theorem citedGap_nil {gap : Value → Option Text} {cited : Value} (h : citedGap gap cited = some []) :
    ∃ xs, iterate cited = some xs ∧ ∀ x ∈ xs, gap x = some [] := by
  unfold citedGap at h
  split at h
  · cases h
  · rename_i xs hxs
    exact ⟨xs, hxs, firstGap_nil h⟩

/-- **A finding without a reason against it is one whose citations hold.** -/
theorem verify_finding_nil {finding : Entries} (h : _verify_finding W finding = some []) :
    (∃ cited, iterate (getOr finding "artifacts" (.list [])) = some cited ∧ ∀ x ∈ cited, ArtifactHolds W x) ∧
    ∃ cited, iterate (getOr finding "assertions" (.list [])) = some cited ∧ ∀ x ∈ cited, AssertionHolds W x := by
  unfold _verify_finding at h
  split at h
  · rename_i hart
    obtain ⟨artifacts, hiter, hall⟩ := citedGap_nil hart
    obtain ⟨assertions, hiter', hall'⟩ := citedGap_nil h
    exact ⟨⟨artifacts, hiter, fun x hx => artifactGap_nil (hall x hx)⟩,
      ⟨assertions, hiter', fun x hx => assertionGap_nil (hall' x hx)⟩⟩
  · rename_i hno
    exact absurd h hno

/-! ## What a finding is counted as -/

/-- The four lists of the ledger, one row of each finding. -/
def CountedOnce (row : Value × Standing) : Prop :=
  (isVerified row).isSome.toNat + (isDeclined row).isSome.toNat + (isOpen row).isSome.toNat +
    (isBlocked row).isSome.toNat = 1

theorem counted_once (row : Value × Standing) : CountedOnce row := by
  obtain ⟨fid, s⟩ := row
  cases s <;> rfl

/-- A verified row comes from a verified finding, and a declined one from one declined with a reason. -/
theorem standing_spec {finding : Value} {row : Value × Standing} (h : standing W finding = some (.ok row)) :
    ∃ f, finding = .dict f ∧ row.1 = fidOf f ∧ (row.2 = .verified → Verified W f) ∧
      ∀ reason, row.2 = .declined reason → reason = reasonOf W f ∧ Declined W f := by
  unfold standing at h
  split at h
  · rename_i f
    refine ⟨f, rfl, ?_⟩
    dsimp only at h
    split at h
    · rename_i haddressed
      split at h
      · cases h
      · rename_i hverify
        cases h
        obtain ⟨hart, hassert⟩ := verify_finding_nil hverify
        exact ⟨rfl, fun _ => ⟨haddressed, hart, hassert⟩, fun _ h => (nomatch h)⟩
      · cases h
        exact ⟨rfl, fun h => (nomatch h), fun _ h => (nomatch h)⟩
    · split at h
      · cases h
        exact ⟨rfl, fun h => (nomatch h), fun _ h => (nomatch h)⟩
      · split at h
        · rename_i hdeclined
          split at h
          · cases h
          · rename_i hreason
            cases h
            refine ⟨rfl, fun h => (nomatch h), fun reason h => ?_⟩
            cases h
            exact ⟨rfl, hdeclined, hreason⟩
        · cases h
  · cases h

theorem standings_spec : ∀ {findings : List Value} {rows : List (Value × Standing)},
    standings W findings = some (.ok rows) → List.Forall₂ (fun f row => standing W f = some (.ok row)) findings rows := by
  intro findings
  induction findings with
  | nil =>
    intro rows h
    cases h
    exact .nil
  | cons f findings ih =>
    intro rows h
    unfold standings at h
    split at h
    · cases h
    · cases h
    · rename_i row hrow
      split at h
      · rename_i rest hrest
        cases h
        exact .cons hrow (ih hrest)
      · rename_i hno
        exact absurd h (hno rows)

/-- **The four lists count every row once.** -/
theorem lengths_sum (rows : List (Value × Standing)) :
    (rows.filterMap isVerified).length + (rows.filterMap isDeclined).length + (rows.filterMap isOpen).length +
      (rows.filterMap isBlocked).length = rows.length := by
  induction rows with
  | nil => rfl
  | cons row rows ih =>
    have hrow := counted_once row
    have hlen : ∀ {β : Type} (f : Value × Standing → Option β),
        ((row :: rows).filterMap f).length = (f row).isSome.toNat + (rows.filterMap f).length := by
      intro β f
      cases hf : f row with
      | none => rw [List.filterMap_cons_none hf, Option.isSome_none, Bool.toNat_false, Nat.zero_add]
      | some b =>
        rw [List.filterMap_cons_some hf, List.length_cons, Option.isSome_some, Bool.toNat_true, Nat.add_comm]
    unfold CountedOnce at hrow
    rw [hlen, hlen, hlen, hlen, List.length_cons]
    omega

/-! ## The plan -/

theorem message_ne_nil {α : Type} {story : StoryRef α} {message : Text} (h : story.resolve = .error message) : message ≠ [] := by
  rintro rfl
  cases story <;> simp [StoryRef.resolve] at h

/-- What a ledger is made of the rows that it counts. -/
structure Counts (W : World) (findings : List Value) (rows : List (Value × Standing)) (ledger : Ledger) : Prop where
  rows_of : List.Forall₂ (fun f row => standing W f = some (.ok row)) findings rows
  verified : ledger.verified = rows.filterMap isVerified
  declined : ledger.declined = rows.filterMap isDeclined
  opened : ledger.open_ = rows.filterMap isOpen
  blocked : ledger.blocked = rows.filterMap isBlocked
  once : ∀ row ∈ rows, CountedOnce row
  sum : ledger.verified.length + ledger.declined.length + ledger.open_.length + ledger.blocked.length = findings.length

theorem counts_ledgerOf {findings : List Value} {rows : List (Value × Standing)} (verdict : Entries)
    (h : standings W findings = some (.ok rows)) : Counts W findings rows (ledgerOf W verdict rows) := by
  have hrows := standings_spec h
  exact ⟨hrows, rfl, rfl, rfl, rfl, fun row _ => counted_once row, (lengths_sum rows).trans hrows.length_eq.symm⟩

/-- A ledger that says all are settled has nothing open or blocked. -/
theorem all_settled_iff (verdict : Entries) (rows : List (Value × Standing)) :
    (ledgerOf W verdict rows).all_settled = true ↔ (ledgerOf W verdict rows).open_ = [] ∧
      (ledgerOf W verdict rows).any_blocked = false ∧
      (ledgerOf W verdict rows).verified.length + (ledgerOf W verdict rows).declined.length = rows.length := by
  unfold ledgerOf
  simp only [Bool.and_eq_true, List.isEmpty_iff, Bool.not_eq_true', decide_eq_true_eq, and_assoc]

theorem blocked_of_any (verdict : Entries) (rows : List (Value × Standing))
    (h : (ledgerOf W verdict rows).any_blocked = false) : (ledgerOf W verdict rows).blocked = [] := by
  unfold ledgerOf at h ⊢
  dsimp only at h ⊢
  rw [Bool.or_eq_false_iff, Bool.not_eq_false', List.isEmpty_iff] at h
  exact h.1

theorem all_settled_of_all_verified (verdict : Entries) (rows : List (Value × Standing))
    (h : (ledgerOf W verdict rows).all_verified = true) : (ledgerOf W verdict rows).all_settled = true := by
  have hsum := lengths_sum rows
  unfold ledgerOf at h ⊢
  simp only [Bool.and_eq_true, decide_eq_true_eq] at h ⊢
  obtain ⟨hopen, hall⟩ := h
  exact ⟨hopen, by omega⟩

/-- Where nothing is open or blocked, each finding is verified or declined with a reason. -/
theorem settled_each {findings : List Value} {rows : List (Value × Standing)}
    (hrows : List.Forall₂ (fun f row => standing W f = some (.ok row)) findings rows)
    (hopen : rows.filterMap isOpen = []) (hblocked : rows.filterMap isBlocked = []) :
    ∀ finding ∈ findings, ∃ f, finding = .dict f ∧ (Verified W f ∨ Declined W f) := by
  induction hrows with
  | nil => exact fun _ h => absurd h List.not_mem_nil
  | @cons finding row findings rows hrow _ ih =>
    have hno : ∀ {β : Type} {g : Value × Standing → Option β}, (row :: rows).filterMap g = [] →
        g row = none ∧ rows.filterMap g = [] := by
      intro β g h
      rw [List.filterMap_eq_nil_iff] at h ⊢
      exact ⟨h row List.mem_cons_self, fun x hx => h x (List.mem_cons_of_mem _ hx)⟩
    obtain ⟨ho, hopen'⟩ := hno hopen
    obtain ⟨hb, hblocked'⟩ := hno hblocked
    intro x hx
    rcases List.mem_cons.1 hx with rfl | hx
    · obtain ⟨f, rfl, -, hv, hd⟩ := standing_spec hrow
      refine ⟨f, rfl, ?_⟩
      obtain ⟨fid, s⟩ := row
      cases s with
      | verified => exact .inl (hv rfl)
      | opened reason => cases ho
      | blocked => cases hb
      | declined reason => exact .inr (hd reason rfl).2
    · exact ih hopen' hblocked' x hx

/-- What a plan for a ledger holds: the ledger first, and a status only where `statusOf` has one. -/
theorem planOf_spec (page : StoryPage) (status_write : Bool) (ledger : Ledger) :
    ((planOf page status_write ledger).error ≠ [] ∧ (planOf page status_write ledger).changes = []) ∨
    ((planOf page status_write ledger).error = [] ∧
      ∃ rest, (planOf page status_write ledger).changes = .ledger ledger :: rest ∧
        ∀ status old new, .story status old new ∈ rest → statusOf status_write ledger = some status) := by
  unfold planOf
  split
  · exact .inr ⟨rfl, [], rfl, fun _ _ _ h => absurd h List.not_mem_nil⟩
  · rename_i status hstatus
    split
    · rename_i message herror
      refine .inl ⟨?_, rfl⟩
      unfold _story_status_change at herror
      split at herror
      · cases herror
        simp
      · cases herror
    · rename_i old new _
      refine .inr ⟨rfl, _, rfl, fun status' old' new' h => ?_⟩
      split at h
      · cases List.mem_singleton.1 h
        exact hstatus
      · exact absurd h List.not_mem_nil

theorem applied_settled {status_write : Bool} {ledger : Ledger} (h : statusOf status_write ledger = some STATUS_APPLIED) :
    ledger.all_settled = true := by
  unfold statusOf at h
  split at h
  · cases h
  · split at h
    · exact absurd (Option.some.inj h) (by decide)
    · split at h
      · assumption
      · cases h

/-- An error of the loop says something. -/
theorem standing_error {finding : Value} {message : Text} (h : standing W finding = some (.error message)) :
    message ≠ [] := by
  unfold standing at h
  split at h
  · dsimp only at h
    split at h
    · split at h <;> cases h
    · split at h
      · cases h
      · split at h
        · split at h
          · cases h
            exact List.append_ne_nil_of_right_ne_nil _ (by decide)
          · cases h
        · cases h
          exact List.append_ne_nil_of_right_ne_nil _ (by decide)
  · cases h

theorem standings_error : ∀ {findings : List Value} {message : Text},
    standings W findings = some (.error message) → message ≠ [] := by
  intro findings
  induction findings with
  | nil => intro message h; cases h
  | cons f findings ih =>
    intro message h
    unfold standings at h
    split at h
    · cases h
    · rename_i hrow
      cases h
      exact standing_error hrow
    · split at h
      · cases h
      · exact ih h

/-- A plan that holds an error and nothing else. -/
theorem failed_plan {message : Text} (h : message ≠ []) :
    ({ error := message } : EditPlan).error ≠ [] ∧ ({ error := message } : EditPlan).changes = [] := ⟨h, rfl⟩

/-- **A plan without an error never overclaims.** -/
structure Honest (W : World) (resolution : Option (Except Text Value)) (plan : EditPlan) : Prop where
  honest : ∃ verdict findings rows ledger rest, resolution = some (.ok (.dict verdict)) ∧
    getOr verdict "findings" (.list []) = .list findings ∧ findings ≠ [] ∧ Counts W findings rows ledger ∧
    (ledger.all_verified = true → ledger.all_settled = true) ∧ plan.changes = .ledger ledger :: rest ∧
    ∀ old new, .story STATUS_APPLIED old new ∈ rest → ledger.open_ = [] ∧ ledger.blocked = [] ∧
      ∀ finding ∈ findings, ∃ f, finding = .dict f ∧ (Verified W f ∨ Declined W f)

theorem settle_review_spec {spec_dir : Text} {story : StoryRef StoryPage} {resolution : Option (Except Text Value)}
    {status_write : Bool} {plan : EditPlan} (h : settle_review W spec_dir story resolution status_write = some plan) :
    (plan.error ≠ [] ∧ plan.changes = []) ∨ (plan.error = [] ∧ Honest W resolution plan) := by
  unfold settle_review at h
  split at h
  · rename_i message hmessage
    obtain rfl := Option.some.inj h
    exact .inl (failed_plan (message_ne_nil hmessage))
  · rename_i page _
    split at h
    · obtain rfl := Option.some.inj h
      exact .inl (failed_plan (List.append_ne_nil_of_left_ne_nil (List.append_ne_nil_of_right_ne_nil _ (by decide)) _))
    · obtain rfl := Option.some.inj h
      exact .inl (failed_plan (List.append_ne_nil_of_right_ne_nil _ (by decide)))
    · rename_i verdict
      split at h
      · rename_i finding findings hfindings
        split at h
        · cases h
        · rename_i message hmessage
          obtain rfl := Option.some.inj h
          exact .inl (failed_plan (standings_error hmessage))
        · rename_i rows hrows
          obtain rfl := Option.some.inj h
          have hcounts := counts_ledgerOf verdict hrows
          rcases planOf_spec page status_write (ledgerOf W verdict rows) with hfail | ⟨hok, rest, hchanges, hstatus⟩
          · exact .inl hfail
          · refine .inr ⟨hok, verdict, _, rows, _, rest, rfl, hfindings, List.cons_ne_nil _ _, hcounts,
              all_settled_of_all_verified verdict rows, hchanges, fun old new hmem => ?_⟩
            obtain ⟨hopen, hblocked, -⟩ := (all_settled_iff verdict rows).1 (applied_settled (hstatus _ _ _ hmem))
            have hblocked' := blocked_of_any verdict rows hblocked
            exact ⟨hopen, hblocked', settled_each hcounts.rows_of hopen hblocked'⟩
      · obtain rfl := Option.some.inj h
        exact .inl (failed_plan (List.append_ne_nil_of_right_ne_nil _ (by decide)))
    · cases h

/-! ## Answers -/

section Answers

variable {sections : List Section} {entries all : List Entry} {a : Answer} {fid : Text} {story : StoryRef AnswerFile}
  {filed : List Text}

/-- An answer that says enough: evidence for a fix, a reason for a decline. -/
def Answer.Supported (a : Answer) : Prop :=
  (a.disposition = .fixed → a.commits ≠ [] ∨ a.paths ≠ [] ∨ a.tests ≠ []) ∧
    (a.disposition = .declined → a.reason ≠ [])

theorem entryOf_spec {b : Answer} (h : (entryOf b).answer = some a) : b = a ∧ entryOf b = ⟨a.finding_id, some a, []⟩ ∧ a.Supported := by
  unfold entryOf at h ⊢
  split at h
  · cases h
  · rename_i hfixed
    rw [if_neg hfixed]
    split at h
    · cases h
    · rename_i hdeclined
      rw [if_neg hdeclined]
      obtain rfl := Option.some.inj h
      refine ⟨rfl, rfl, fun hf => ?_, fun hd hr => hdeclined ⟨hd, hr⟩⟩
      by_contra hno
      simp only [not_or, not_not] at hno
      exact hfixed ⟨hf, hno.1, hno.2.1, hno.2.2⟩

theorem answerOf_finding_id (finding_id disposition : Text) (s : Section) :
    (answerOf finding_id disposition s).finding_id = finding_id := rfl

/-- An entry with an answer is well formed and has the answer's id. -/
theorem heading_spec {s : Section} (h : (_heading s).answer = some a) :
    (_heading s).error = [] ∧ (_heading s).finding_id = a.finding_id ∧ a.finding_id ≠ [] ∧ a.Supported := by
  unfold _heading at h ⊢
  dsimp only at h ⊢
  split at h
  · cases h
  · rename_i hform
    rw [if_neg hform]
    simp only [not_or] at hform
    obtain ⟨-, hid, -, -⟩ := hform
    split at h
    · cases h
    · rename_i hdisp
      rw [if_neg hdisp]
      obtain ⟨rfl, heq, hsupported⟩ := entryOf_spec h
      rw [heq]
      refine ⟨rfl, rfl, ?_, hsupported⟩
      rw [answerOf_finding_id]
      exact hid

theorem entry_spec {e : Entry} (he : e ∈ entriesOf sections) (h : e.answer = some a) :
    e.error = [] ∧ e.finding_id = a.finding_id ∧ a.finding_id ≠ [] ∧ a.Supported := by
  obtain ⟨s, -, rfl⟩ := List.mem_map.1 he
  exact heading_spec h

/-- The answer that an entry counts for. -/
def taken (all : List Entry) (e : Entry) : Option Answer :=
  if (e.finding_id ≠ [] ∧ 1 < counts all e.finding_id) ∨ e.error ≠ [] then none else e.answer

/-- **What the second loop collects**, whatever was reported before. -/
theorem collect_answers (all : List Entry) : ∀ (entries : List Entry) (reported : List Text),
    (collect all reported entries).answers = entries.filterMap (taken all) := by
  intro entries
  induction entries with
  | nil => exact fun _ => rfl
  | cons e entries ih =>
    intro reported
    unfold collect
    by_cases hmany : e.finding_id ≠ [] ∧ 1 < counts all e.finding_id
    · have hnone : taken all e = none := if_pos (.inl hmany)
      rw [if_pos hmany, List.filterMap_cons_none hnone]
      split
      · exact ih reported
      · exact ih _
    · rw [if_neg hmany]
      dsimp only
      by_cases herror : e.error = []
      · have htaken : taken all e = e.answer := if_neg fun h => h.elim hmany fun h => h herror
        rw [if_neg (not_not.2 herror)]
        cases hans : e.answer with
        | none =>
          rw [List.filterMap_cons_none (htaken.trans hans)]
          exact ih reported
        | some a =>
          rw [List.filterMap_cons_some (htaken.trans hans)]
          exact congrArg (a :: ·) (ih reported)
      · have hnone : taken all e = none := if_pos (.inr herror)
        rw [if_pos herror, List.filterMap_cons_none hnone]
        exact ih reported

/-- `fid` has one entry of its own, which is well formed and gives the answer `a`. -/
def AnsweredBy (sections : List Section) (fid : Text) (a : Answer) : Prop :=
  ∃ e, (entriesOf sections).filter (fun e => e.finding_id = fid) = [e] ∧ e.error = [] ∧ e.answer = some a

theorem answers_iff : a ∈ (parse_answers sections).answers ↔ AnsweredBy sections a.finding_id a := by
  unfold parse_answers
  rw [collect_answers, List.mem_filterMap]
  constructor
  · rintro ⟨e, he, htaken⟩
    unfold taken at htaken
    split at htaken
    · cases htaken
    · rename_i hno
      obtain ⟨herror, hid, hne, -⟩ := entry_spec he htaken
      have hone : ¬ 1 < counts (entriesOf sections) e.finding_id := fun h => hno (.inl ⟨hid ▸ hne, h⟩)
      have hmem : e ∈ (entriesOf sections).filter fun e => e.finding_id = a.finding_id :=
        List.mem_filter.2 ⟨he, decide_eq_true hid⟩
      unfold counts at hone
      rw [hid, List.countP_eq_length_filter] at hone
      -- a list of one or no elements that has this one is it alone
      obtain ⟨x, hx⟩ := List.length_eq_one_iff.1 (le_antisymm (not_lt.1 hone) (List.length_pos_of_mem hmem))
      rw [hx] at hmem
      obtain rfl := List.mem_singleton.1 hmem
      exact ⟨e, hx, herror, htaken⟩
  · rintro ⟨e, hfilter, herror, hans⟩
    have hmem : e ∈ (entriesOf sections).filter fun e => e.finding_id = a.finding_id :=
      hfilter ▸ List.mem_cons_self
    obtain ⟨he, hid⟩ := List.mem_filter.1 hmem
    refine ⟨e, he, ?_⟩
    unfold taken
    rw [if_neg, hans]
    rintro (⟨-, hmany⟩ | hne)
    · unfold counts at hmany
      rw [of_decide_eq_true hid, List.countP_eq_length_filter, hfilter] at hmany
      exact lt_irrefl _ hmany
    · exact hne herror

/-- No two answers have one id. -/
theorem nodup_answers (sections : List Section) : ((parse_answers sections).answers.map Answer.finding_id).Nodup := by
  have key : ∀ entries : List Entry, entries.Sublist (entriesOf sections) →
      ((entries.filterMap (taken (entriesOf sections))).map Answer.finding_id).Nodup := by
    intro entries
    induction entries with
    | nil => exact fun _ => .nil
    | cons e entries ih =>
      intro hsub
      have hrest := ih ((List.sublist_cons_self e entries).trans hsub)
      cases htaken : taken (entriesOf sections) e with
      | none => rwa [List.filterMap_cons_none htaken]
      | some a =>
        rw [List.filterMap_cons_some htaken, List.map_cons, List.nodup_cons]
        refine ⟨fun hmem => ?_, hrest⟩
        obtain ⟨b, hb, hba⟩ := List.mem_map.1 hmem
        obtain ⟨e', he', htaken'⟩ := List.mem_filterMap.1 hb
        unfold taken at htaken htaken'
        split at htaken
        · cases htaken
        · rename_i hno
          split at htaken'
          · cases htaken'
          · have he : e ∈ entriesOf sections := hsub.subset List.mem_cons_self
            obtain ⟨-, hid, hne, -⟩ := entry_spec he htaken
            obtain ⟨-, hid', -, -⟩ := entry_spec (hsub.subset (List.mem_cons_of_mem _ he')) htaken'
            -- the later entry makes the id one that is answered twice
            have htwo : 1 < counts (e :: entries) e.finding_id := by
              unfold counts
              rw [List.countP_cons_of_pos (by simp)]
              have hpos : 0 < entries.countP fun x => x.finding_id = e.finding_id :=
                List.countP_pos_iff.2 ⟨e', he', decide_eq_true (hid'.trans (hba.trans hid.symm))⟩
              omega
            exact hno (.inl ⟨hid ▸ hne, htwo.trans_le hsub.countP_le⟩)
  unfold parse_answers
  rw [collect_answers]
  exact key _ (List.Sublist.refl _)

theorem get_by_id : Keyed.get Answer.finding_id (parse_answers sections).by_id fid = some a ↔ AnsweredBy sections fid a := by
  unfold AnswerList.by_id
  rw [Keyed.get_foldl_upsert (nodup_answers sections)]
  have hnil : Keyed.get Answer.finding_id ([] : List Answer) fid = none := rfl
  rw [hnil, Option.or_none, Keyed.get_eq_some_iff (nodup_answers sections), answers_iff]
  constructor
  · rintro ⟨h, rfl⟩
    exact h
  · rintro ⟨e, hfilter, herror, hans⟩
    have hmem : e ∈ (entriesOf sections).filter fun e => e.finding_id = fid := hfilter ▸ List.mem_cons_self
    obtain ⟨he, hid⟩ := List.mem_filter.1 hmem
    obtain ⟨-, hid', -, -⟩ := entry_spec he hans
    obtain rfl : a.finding_id = fid := hid'.symm.trans (of_decide_eq_true hid)
    exact ⟨⟨e, hfilter, herror, hans⟩, rfl⟩

/-- A story's answer list answers `fid` by `a`. -/
def Answered (story : StoryRef AnswerFile) (fid : Text) (a : Answer) : Prop :=
  ∃ sections, story.resolve = .ok (some (.ok sections)) ∧ AnsweredBy sections fid a

theorem get_readAnswers : Keyed.get Answer.finding_id (readAnswers story).2 fid = some a ↔ Answered story fid a := by
  have hnone : Keyed.get Answer.finding_id [] fid ≠ some a := fun h => (nomatch h)
  have hother : ∀ r, (∀ sections, r ≠ .ok (some (.ok sections))) → story.resolve = r → ¬ Answered story fid a := by
    rintro r hr hresolve ⟨sections, hs, -⟩
    exact hr sections (hresolve.symm.trans hs)
  unfold readAnswers
  split
  · rename_i h
    exact iff_of_false hnone (hother _ (by simp) h)
  · rename_i h
    exact iff_of_false hnone (hother _ (by simp) h)
  · rename_i h
    exact iff_of_false hnone (hother _ (by simp) h)
  · rename_i sections h
    rw [get_by_id]
    constructor
    · exact fun ha => ⟨sections, h, ha⟩
    · rintro ⟨sections', hs, ha⟩
      rw [h] at hs
      cases hs
      exact ha

theorem Answered.id (h : Answered story fid a) : a.finding_id = fid := (Keyed.get_spec (get_readAnswers.2 h)).2

theorem Answered.unique {b : Answer} (h : Answered story fid a) (h' : Answered story fid b) : a = b :=
  Option.some.inj ((get_readAnswers.2 h).symm.trans (get_readAnswers.2 h'))

theorem Answered.supported (h : Answered story fid a) : a.Supported := by
  obtain ⟨sections, -, e, hfilter, -, hans⟩ := h
  have hmem : e ∈ (entriesOf sections).filter fun e => e.finding_id = fid := hfilter ▸ List.mem_cons_self
  exact (entry_spec (List.mem_filter.1 hmem).1 hans).2.2.2

/-- **The ledger of an answer list**: each filed id stands in exactly one of the three lists. -/
structure Settles (story : StoryRef AnswerFile) (filed : List Text) (ledger : AnswerLedger) : Prop where
  fixed : ∀ fid, fid ∈ ledger.fixed ↔ fid ∈ filed ∧ ∃ a, Answered story fid a ∧ a.disposition = .fixed
  declined : ∀ fid reason, (fid, reason) ∈ ledger.declined ↔
    fid ∈ filed ∧ ∃ a, Answered story fid a ∧ a.disposition = .declined ∧ a.reason = reason
  opened : ∀ fid, fid ∈ ledger.open_ ↔ fid ∈ filed ∧ ¬ ∃ a, Answered story fid a
  unknown : ∀ fid, fid ∈ ledger.unknown ↔ fid ∉ filed ∧ ∃ a, Answered story fid a
  once : (ledger.fixed ++ ledger.declined.map Prod.fst ++ ledger.open_).Perm filed.eraseDups
  all_answered : ledger.all_answered = true ↔ ledger.open_ = []

/-- The answered rows of the filed ids. -/
def rowsOf (by_id : List Answer) (wanted : List Text) : List (Text × Answer) :=
  wanted.filterMap fun fid => (Keyed.get Answer.finding_id by_id fid).map fun a => (fid, a)

theorem mem_rowsOf {by_id : List Answer} {wanted : List Text} :
    (fid, a) ∈ rowsOf by_id wanted ↔ fid ∈ wanted ∧ Keyed.get Answer.finding_id by_id fid = some a := by
  unfold rowsOf
  rw [List.mem_filterMap]
  constructor
  · rintro ⟨fid', hfid, hrow⟩
    obtain ⟨b, hb, heq⟩ := Option.map_eq_some_iff.1 hrow
    cases heq
    exact ⟨hfid, hb⟩
  · rintro ⟨hfid, ha⟩
    exact ⟨fid, hfid, by rw [ha]; rfl⟩

/-- Fixed, declined and open ids are the wanted ones. -/
theorem three_perm (by_id : List Answer) (wanted : List Text) :
    ((((rowsOf by_id wanted).filter fun row => row.2.disposition = .fixed).map Prod.fst) ++
      ((rowsOf by_id wanted).filter fun row => row.2.disposition = .declined).map Prod.fst ++
      wanted.filter fun fid => (Keyed.get Answer.finding_id by_id fid).isNone).Perm wanted := by
  induction wanted with
  | nil => exact .refl _
  | cons fid wanted ih =>
    cases hget : Keyed.get Answer.finding_id by_id fid with
    | none =>
      have hrows : rowsOf by_id (fid :: wanted) = rowsOf by_id wanted :=
        List.filterMap_cons_none (by rw [hget]; rfl)
      rw [hrows, List.filter_cons_of_pos (by rw [hget]; rfl)]
      exact List.perm_middle.trans (ih.cons fid)
    | some a =>
      have hrows : rowsOf by_id (fid :: wanted) = (fid, a) :: rowsOf by_id wanted :=
        List.filterMap_cons_some (by rw [hget]; rfl)
      rw [hrows, List.filter_cons_of_neg (l := wanted) (by rw [hget]; simp)]
      cases hdisp : a.disposition with
      | fixed =>
        rw [List.filter_cons_of_pos (by simp [hdisp]), List.filter_cons_of_neg (a := (fid, a)) (by simp [hdisp])]
        exact ih.cons fid
      | declined =>
        rw [List.filter_cons_of_neg (by simp [hdisp]), List.filter_cons_of_pos (a := (fid, a)) (by simp [hdisp]),
          List.append_assoc, List.map_cons, List.cons_append]
        rw [List.append_assoc] at ih
        exact List.perm_middle.trans (ih.cons fid)

theorem settle_answers_spec (story : StoryRef AnswerFile) (filed : List Text) :
    Settles story filed (settle_answers story filed) := by
  have hrow : ∀ fid a, (fid, a) ∈ rowsOf (readAnswers story).2 filed.eraseDups ↔ fid ∈ filed ∧ Answered story fid a := by
    intro fid a
    rw [mem_rowsOf, List.mem_eraseDups, get_readAnswers]
  refine ⟨fun fid => ?_, fun fid reason => ?_, fun fid => ?_, fun fid => ?_, ?_, ?_⟩
  · show fid ∈ ((rowsOf (readAnswers story).2 filed.eraseDups).filter fun row => row.2.disposition = .fixed).map Prod.fst ↔ _
    rw [List.mem_map]
    constructor
    · rintro ⟨⟨fid', a⟩, hmem, rfl⟩
      obtain ⟨hmem, hdisp⟩ := List.mem_filter.1 hmem
      obtain ⟨hfiled, ha⟩ := (hrow fid' a).1 hmem
      exact ⟨hfiled, a, ha, of_decide_eq_true hdisp⟩
    · rintro ⟨hfiled, a, ha, hdisp⟩
      exact ⟨(fid, a), List.mem_filter.2 ⟨(hrow fid a).2 ⟨hfiled, ha⟩, decide_eq_true hdisp⟩, rfl⟩
  · show (fid, reason) ∈ ((rowsOf (readAnswers story).2 filed.eraseDups).filter
      fun row => row.2.disposition = .declined).map (fun row => (row.1, row.2.reason)) ↔ _
    rw [List.mem_map]
    constructor
    · rintro ⟨⟨fid', a⟩, hmem, heq⟩
      cases heq
      obtain ⟨hmem, hdisp⟩ := List.mem_filter.1 hmem
      obtain ⟨hfiled, ha⟩ := (hrow _ a).1 hmem
      exact ⟨hfiled, a, ha, of_decide_eq_true hdisp, rfl⟩
    · rintro ⟨hfiled, a, ha, hdisp, rfl⟩
      exact ⟨(fid, a), List.mem_filter.2 ⟨(hrow fid a).2 ⟨hfiled, ha⟩, decide_eq_true hdisp⟩, rfl⟩
  · show fid ∈ filed.eraseDups.filter (fun fid => (Keyed.get Answer.finding_id (readAnswers story).2 fid).isNone) ↔ _
    rw [List.mem_filter, List.mem_eraseDups, Option.isNone_iff_eq_none, Option.eq_none_iff_forall_ne_some]
    exact and_congr_right fun _ => ⟨fun h ⟨a, ha⟩ => h a (get_readAnswers.2 ha),
      fun h a ha => h ⟨a, get_readAnswers.1 ha⟩⟩
  · show fid ∈ ((readAnswers story).2.map Answer.finding_id).filter (fun fid => !List.contains filed.eraseDups fid) ↔ _
    rw [List.mem_filter, Bool.not_eq_true', ← Bool.not_eq_true, List.contains_iff_mem, List.mem_eraseDups, and_comm]
    refine and_congr_right fun _ => ⟨fun h => ?_, fun ⟨a, ha⟩ => ?_⟩
    · by_contra hno
      have hnone : Keyed.get Answer.finding_id (readAnswers story).2 fid = none :=
        Option.eq_none_iff_forall_ne_some.2 fun a ha => hno ⟨a, get_readAnswers.1 ha⟩
      exact Keyed.get_eq_none_iff.1 hnone h
    · obtain ⟨hmem, hid⟩ := Keyed.get_spec (get_readAnswers.2 ha)
      exact List.mem_map.2 ⟨a, hmem, hid⟩
  · have hdeclined : (settle_answers story filed).declined.map Prod.fst =
        ((rowsOf (readAnswers story).2 filed.eraseDups).filter fun row => row.2.disposition = .declined).map Prod.fst :=
      List.map_map
    rw [hdeclined]
    exact three_perm (readAnswers story).2 filed.eraseDups
  · exact List.isEmpty_iff

end Answers

/-- **Review settlement is a partition that never overclaims.** A plan with an error writes nothing;
one without counts every finding once and claims no more than holds. An answer list settles each
filed id exactly once, and only by a single well-formed entry that supports what it says. -/
theorem settlement_never_overclaims (W : World) :
    (∀ spec_dir story resolution status_write plan, settle_review W spec_dir story resolution status_write = some plan →
      (plan.error ≠ [] ∧ ∀ write, written plan write = []) ∨ (plan.error = [] ∧ Honest W resolution plan)) ∧
    (∀ story filed, Settles story filed (settle_answers story filed)) ∧
    ∀ story fid a, Answered story fid a → a.finding_id = fid ∧ a.Supported := by
  refine ⟨fun spec_dir story resolution status_write plan h => ?_, settle_answers_spec, fun story fid a h =>
    ⟨h.id, h.supported⟩⟩
  rcases settle_review_spec h with ⟨herror, hchanges⟩ | hok
  · refine .inl ⟨herror, fun write => ?_⟩
    unfold written
    rw [hchanges, ite_self]
  · exact .inr hok

/-- A world without files. -/
def bare : World := ⟨fun _ => [], fun _ => true, fun _ => none, fun _ => false, fun _ => .error []⟩

/-- One finding, declined with a reason. -/
def oneDeclined : Value :=
  .dict [(.str "findings".toList, .list [.dict [(.str "disposition".toList, .str "declined".toList),
    (.str "reason".toList, .str "out of scope".toList)]])]

/-- The plan of one declined finding is honest. -/
theorem settlement_never_overclaims_one :
    ∃ plan, settle_review bare [] (.found ⟨"01-foo".toList, some [], fun status _ => status⟩) (some (.ok oneDeclined)) true =
      some plan ∧ Honest bare (some (.ok oneDeclined)) plan := by
  refine ⟨_, rfl, ?_⟩
  have hplan := (settlement_never_overclaims bare).1 [] (.found ⟨"01-foo".toList, some [], fun status _ => status⟩)
    (some (.ok oneDeclined)) true _ rfl
  exact (hplan.resolve_left fun h => h.1 (by decide)).2

end Stablemate.Settle
