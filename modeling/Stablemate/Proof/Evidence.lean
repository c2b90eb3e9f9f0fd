import Stablemate.Lib.Checks
import Stablemate.Lib.Lists
import Stablemate.Model.Evidence
import Stablemate.Proof.Verify

/-!
# Two readers of one run

* `shown_stopped`: a scenario that the report shows as aborted has a stop that says so.
* `classify_covered`, `classify_unproven`: what the cascade of the evidence map comes to.
* `coverage_is_earned`: covered obligations were observed, and the report agrees but for failed sentinels.
-/

namespace Stablemate.Evidence

open PyJson (Value PyFloat)
open Verify (CheckCall Expr Refusal)
open Checks (bind_ok_iff mapM_ok_iff mapM_ok)

/-! ## What a record says -/

/-- The record is an assertion that names the obligation. -/
def Names (o : Obligation) (r : LogRecord) : Prop := r.kind = "assert".toList ∧ o.id ∈ r.covers

/-- A stop of the scenario says that it was aborted. -/
def Stopped (log : List LogRecord) (scenario : Text) : Prop :=
  ∃ stop ∈ log, stop.kind = "scenario_stop".toList ∧ stop.aborted = true ∧ stop.scenario = scenario

theorem mem_aborted_scenarios {log : List LogRecord} {scenario : Text} :
    scenario ∈ aborted_scenarios log ↔ Stopped log scenario := by
  unfold aborted_scenarios Stopped
  simp only [List.mem_map, List.mem_filter, decide_eq_true_eq]
  constructor
  · rintro ⟨stop, ⟨hmem, hkind, haborted⟩, hscenario⟩
    exact ⟨stop, hmem, hkind, haborted, hscenario⟩
  · rintro ⟨stop, hmem, hkind, haborted, hscenario⟩
    exact ⟨stop, ⟨hmem, hkind, haborted⟩, hscenario⟩

theorem mem_boundTo {log : List LogRecord} {o : Obligation} {r : LogRecord} :
    r ∈ boundTo o.id (asserts log) ↔ r ∈ log ∧ Names o r := by
  unfold boundTo asserts Names
  simp only [List.mem_filter, decide_eq_true_eq, and_assoc]

theorem mem_passingIn {aborted : List Text} {bound : List LogRecord} {r : LogRecord} :
    r ∈ passingIn aborted bound ↔ r ∈ bound ∧ isPass r = true ∧ r.scenario ∉ aborted := by
  unfold passingIn
  simp only [List.mem_filter, decide_eq_true_eq]

theorem mem_sentinelsOf {bound : List LogRecord} {r : LogRecord} :
    r ∈ sentinelsOf bound ↔ r ∈ bound ∧ ¬ isPass r = true ∧ r.sentinel = true := by
  unfold sentinelsOf
  simp only [List.mem_filter, decide_eq_true_eq]

theorem mem_failingOf {bound : List LogRecord} {r : LogRecord} :
    r ∈ failingOf bound ↔ r ∈ bound ∧ ¬ isPass r = true ∧ ¬ r.sentinel = true := by
  unfold failingOf
  simp only [List.mem_filter, decide_eq_true_eq]

/-! ## The cascade -/

/-- **Covered** is what is left when no other case of the cascade is met. -/
theorem classify_covered {id : Text} {f : Findings} (h : (_classify id f).1 = .covered) :
    f.failing = [] ∧ f.sentinels = [] ∧ f.passing ≠ [] ∧ f.missing = [] ∧
      ¬ (f.declared ≠ [] ∧ f.insensitive.length = f.declared.length) := by
  unfold _classify at h
  dsimp only at h
  split at h
  · cases h
  rename_i hfailing
  split at h
  · cases h
  rename_i hstopped
  split at h
  · cases h
  split at h
  · cases h
  split at h
  · split at h
    · cases h
    · split at h <;> cases h
  rename_i hpassing
  split at h
  · cases h
  rename_i hsensitive
  split at h
  · cases h
  rename_i hmissing
  have hnone : f.missing = [] := not_not.1 hmissing
  exact ⟨not_not.1 hfailing, not_not.1 fun hno => hstopped (.inl hno), hpassing, hnone,
    fun hno => hsensitive ⟨hnone, hno.1, hno.2⟩⟩

/-- **Unproven** is the second case of the cascade. -/
theorem classify_unproven {id : Text} {f : Findings} : (_classify id f).1 = .unproven ↔
    f.failing = [] ∧ (f.sentinels ≠ [] ∨ (f.aborted ≠ [] ∧ f.passing = [])) := by
  unfold _classify
  dsimp only
  by_cases hfailing : f.failing ≠ []
  · rw [if_pos hfailing]
    exact ⟨fun h => (nomatch h), fun h => (hfailing h.1).elim⟩
  rw [if_neg hfailing]
  by_cases hstopped : f.sentinels ≠ [] ∨ (f.aborted ≠ [] ∧ f.passing = [])
  · rw [if_pos hstopped]
    exact ⟨fun _ => ⟨not_not.1 hfailing, hstopped⟩, fun _ => rfl⟩
  · -- no later case is called unproven
    rw [if_neg hstopped]
    refine ⟨fun h => ?_, fun h => (hstopped h.2).elim⟩
    repeat' split at h
    all_goals cases h

/-! ## Scenarios -/

/-- Every scenario of the report that is aborted was stopped so. -/
def StopsKept (log : List LogRecord) (scenarios : List Scenario) : Prop :=
  ∀ s ∈ scenarios, s.aborted = true → Stopped log s.id

theorem aborted_startedBy (log : List LogRecord) : ∀ s ∈ startedBy log, s.aborted = false := by
  have hrun : ∀ (starts : List LogRecord) (by_id : List Scenario), (∀ s ∈ by_id, s.aborted = false) →
      ∀ s ∈ starts.foldl (fun by_id r => Keyed.upsert Scenario.id by_id ⟨r.scenario, r.covers, false⟩) by_id,
        s.aborted = false := by
    intro starts
    induction starts with
    | nil => exact fun _ h => h
    | cons r starts ih =>
      intro by_id h
      refine ih _ fun s hs => ?_
      rcases Keyed.mem_upsert hs with rfl | hs
      · rfl
      · exact h s hs
  exact hrun _ [] fun s hs => (List.not_mem_nil hs).elim

/-- One record keeps it. -/
theorem StopsKept.recordStop {log : List LogRecord} {scenarios : List Scenario} (h : StopsKept log scenarios)
    {record : LogRecord} (hrecord : record ∈ log) : StopsKept log (recordStop scenarios record) := by
  unfold Evidence.recordStop
  split
  · rename_i hkind
    intro s hs haborted
    obtain ⟨s', hs', rfl⟩ := List.mem_map.1 hs
    split at haborted
    · rename_i hid
      rw [if_pos hid]
      exact ⟨record, hrecord, hkind, haborted, hid.symm⟩
    · rename_i hid
      rw [if_neg hid]
      exact h s' hs' haborted
  · exact h

/-- **What the report shows as aborted was stopped so.** -/
theorem shown_stopped {log : List LogRecord} {scenario : Text} (h : scenario ∈ shownAborted log) : Stopped log scenario := by
  have hrun : ∀ (records : List LogRecord) (scenarios : List Scenario), (∀ r ∈ records, r ∈ log) →
      StopsKept log scenarios → StopsKept log (records.foldl recordStop scenarios) := by
    intro records
    induction records with
    | nil => exact fun _ _ h => h
    | cons r records ih =>
      intro scenarios hsub hkept
      exact ih _ (fun x hx => hsub x (List.mem_cons_of_mem r hx)) (hkept.recordStop (hsub r List.mem_cons_self))
  have hkept : StopsKept log (log.foldl recordStop (startedBy log)) := by
    refine hrun log _ (fun r hr => hr) fun s hs haborted => ?_
    rw [aborted_startedBy log s hs] at haborted
    cases haborted
  unfold shownAborted _scenarios at h
  obtain ⟨s, hs, rfl⟩ := List.mem_map.1 h
  obtain ⟨hs, haborted⟩ := List.mem_filter.1 hs
  obtain ⟨id, -, hget⟩ := List.mem_filterMap.1 hs
  exact hkept s (Keyed.get_spec hget).1 haborted

/-! ## The rows -/

section Rows

variable {floatOf : Text → PyFloat} {elsewhere : Text → Option Expr} {leading_code_spans : Text → List Text}
  {isWord : Char → Bool} {foreign : Value → Text} {re_error : Text → Option Text} {sensitive : CheckCall → Bool}

/-- The text is the declared call, with its references bound to some value. -/
def Makes (isWord : Char → Bool) (declared text : Text) : Prop :=
  text = declared ∨ Template.Instance unquoted (template_pattern isWord declared) text

theorem observed_iff {declared : Text} {observed : List Text} :
    _observed isWord declared observed = true ↔ ∃ text ∈ observed, Makes isWord declared text := by
  unfold _observed Makes
  rw [Bool.or_eq_true, List.contains_iff_mem, List.any_eq_true]
  constructor
  · rintro (hmem | ⟨text, hmem, hmatch⟩)
    · exact ⟨declared, hmem, .inl rfl⟩
    · exact ⟨text, hmem, .inr (Template.fullmatch_iff.1 hmatch)⟩
  · rintro ⟨text, hmem, rfl | hmatch⟩
    · exact .inl hmem
    · exact .inr ⟨text, hmem, Template.fullmatch_iff.2 hmatch⟩

/-- What was observed was made by a passing assertion. -/
theorem mem_observedCalls {passing : List LogRecord} {calls : List Text} {text : Text}
    (h : observedCalls foreign re_error passing = .ok calls) (hmem : text ∈ calls) :
    ∃ r ∈ passing, r.check ≠ [] ∧ _call_text foreign re_error r.check r.check_args = .ok (some text) := by
  unfold observedCalls at h
  obtain ⟨found, hfound, h⟩ := bind_ok_iff.1 h
  obtain rfl := Except.ok.inj h
  obtain ⟨call, hcall, rfl⟩ := List.mem_filterMap.1 hmem
  obtain ⟨r, hr, htext⟩ := exists_of_forall₂ (mapM_ok_iff.1 hfound) _ hcall
  obtain ⟨hr, hcheck⟩ := List.mem_filter.1 hr
  exact ⟨r, hr, of_decide_eq_true hcheck, htext⟩

/-- **What a covered obligation has behind it.** -/
structure Covered (floatOf : Text → PyFloat) (elsewhere : Text → Option Expr) (leading_code_spans : Text → List Text)
    (isWord : Char → Bool) (foreign : Value → Text) (re_error : Text → Option Text) (sensitive : CheckCall → Bool)
    (log : List LogRecord) (o : Obligation) : Prop where
  asserted : ∃ r ∈ log, Names o r ∧ isPass r = true ∧ ¬ Stopped log r.scenario
  unrefuted : ∀ r ∈ log, Names o r → isPass r = true
  made : ∀ call ∈ o.declared, ∃ r ∈ log, (Names o r ∧ isPass r = true ∧ ¬ Stopped log r.scenario) ∧ r.check ≠ [] ∧
    ∃ text, _call_text foreign re_error r.check r.check_args = .ok (some text) ∧ Makes isWord call text
  sensitive : o.declared ≠ [] → ∃ call ∈ o.declared,
    isInsensitive floatOf elsewhere leading_code_spans isWord foreign re_error sensitive call = false

/-- What passes for an obligation. -/
theorem mem_passing {log : List LogRecord} {o : Obligation} {r : LogRecord} :
    r ∈ passingIn (aborted_scenarios log) (boundTo o.id (asserts log)) ↔
      r ∈ log ∧ Names o r ∧ isPass r = true ∧ ¬ Stopped log r.scenario := by
  rw [mem_passingIn, mem_boundTo, mem_aborted_scenarios, and_assoc]

theorem covered_of_classify {log : List LogRecord} {evidence : EvidenceArtifact} {o : Obligation} {observed : List Text}
    (hobserved : observedCalls foreign re_error (passingIn (aborted_scenarios log) (boundTo o.id (asserts log))) =
      .ok observed)
    (h : (_classify o.id (findings floatOf elsewhere leading_code_spans isWord foreign re_error sensitive log evidence o
      observed)).1 = .covered) :
    Covered floatOf elsewhere leading_code_spans isWord foreign re_error sensitive log o := by
  obtain ⟨hfailing, hsentinels, hpassing, hmissing, hinsensitive⟩ := classify_covered h
  refine ⟨?_, fun r hr hnames => ?_, fun call hcall => ?_, fun hdeclared => ?_⟩
  · obtain ⟨r, hr⟩ := List.exists_mem_of_ne_nil _ hpassing
    obtain ⟨hlog, hrest⟩ := mem_passing.1 hr
    exact ⟨r, hlog, hrest⟩
  · have hbound : r ∈ boundTo o.id (asserts log) := mem_boundTo.2 ⟨hr, hnames⟩
    by_contra hno
    by_cases hsentinel : r.sentinel = true
    · exact List.eq_nil_iff_forall_not_mem.1 hsentinels r (mem_sentinelsOf.2 ⟨hbound, hno, hsentinel⟩)
    · exact List.eq_nil_iff_forall_not_mem.1 hfailing r (mem_failingOf.2 ⟨hbound, hno, hsentinel⟩)
  · have hseen : _observed isWord call observed = true := by
      have hno := List.filter_eq_nil_iff.1 hmissing call hcall
      simpa using hno
    obtain ⟨text, htext, hmakes⟩ := observed_iff.1 hseen
    obtain ⟨r, hr, hcheck, hcall⟩ := mem_observedCalls hobserved htext
    obtain ⟨hlog, hrest⟩ := mem_passing.1 hr
    exact ⟨r, hlog, hrest, hcheck, text, hcall, hmakes⟩
  · by_contra hno
    refine hinsensitive ⟨hdeclared, List.length_filter_eq_length_iff.2 fun call hcall => ?_⟩
    by_contra hcan
    exact hno ⟨call, hcall, Bool.eq_false_iff.2 hcan⟩

end Rows

/-! ## The report beside the map -/

/-- Every scenario in which a passing assertion of the obligation ran, and that a stop says was
aborted, is shown as aborted. -/
def Agree (log : List LogRecord) (o : Obligation) : Prop :=
  ∀ r ∈ log, Names o r → isPass r = true → Stopped log r.scenario → r.scenario ∈ shownAborted log

/-- The subject of the report. -/
def subjectOf (log : List LogRecord) (o : Obligation) : Subject := _subject o (_scenarios log) (asserts log) (shownAborted log)

/-- **The row of the map and the subject of the report.** -/
structure SameRun (log : List LogRecord) (o : Obligation) (row : Row) (subject : Subject) : Prop where
  fail : subject.verdict = .fail ↔ 0 < row.failing
  covered : row.status = .covered → subject.verdict = .pass
  failing : subject.failing = row.failing
  passing : subject.passing = row.passing ↔ Agree log o
  unproven : Agree log o → ((row.status = .unproven ∧ subject.verdict = .pass) ↔
    row.failing = 0 ∧ 0 < row.passing ∧ ∃ r ∈ log, Names o r ∧ isPass r = false ∧ r.sentinel = true)

/-- The verdict is read off the failing and the passing assertions. -/
theorem subject_verdict (log : List LogRecord) (o : Obligation) : (subjectOf log o).verdict =
    if failingOf (boundTo o.id (asserts log)) ≠ [] then .fail
    else if passingIn (shownAborted log) (boundTo o.id (asserts log)) ≠ [] then .pass else .unproven := by
  unfold subjectOf _subject
  dsimp only
  by_cases hfailing : failingOf (boundTo o.id (asserts log)) ≠ []
  · rw [if_pos hfailing, if_pos hfailing]
  rw [if_neg hfailing, if_neg hfailing]
  by_cases hpassing : passingIn (shownAborted log) (boundTo o.id (asserts log)) ≠ []
  · rw [if_pos hpassing, if_pos hpassing]
  rw [if_neg hpassing, if_neg hpassing]
  repeat' split
  all_goals rfl

/-- What passes for the map passes for the report. -/
theorem passing_sub {log : List LogRecord} {o : Obligation} {r : LogRecord}
    (h : r ∈ passingIn (aborted_scenarios log) (boundTo o.id (asserts log))) :
    r ∈ passingIn (shownAborted log) (boundTo o.id (asserts log)) := by
  obtain ⟨hbound, hpass, hrun⟩ := mem_passingIn.1 h
  refine mem_passingIn.2 ⟨hbound, hpass, fun hshown => hrun ?_⟩
  exact mem_aborted_scenarios.2 (shown_stopped hshown)

theorem passing_length_iff {log : List LogRecord} {o : Obligation} :
    (passingIn (shownAborted log) (boundTo o.id (asserts log))).length =
      (passingIn (aborted_scenarios log) (boundTo o.id (asserts log))).length ↔ Agree log o := by
  unfold passingIn
  rw [eq_comm, length_filter_eq_iff]
  · constructor
    · intro h r hr hnames hpass hstopped
      by_contra hshown
      have hin := h r (mem_boundTo.2 ⟨hr, hnames⟩) (decide_eq_true ⟨hpass, hshown⟩)
      exact (of_decide_eq_true hin).2 (mem_aborted_scenarios.2 hstopped)
    · intro h r hr hshown
      obtain ⟨hpass, hshown⟩ := of_decide_eq_true hshown
      obtain ⟨hlog, hnames⟩ := mem_boundTo.1 hr
      exact decide_eq_true ⟨hpass, fun hin => hshown (h r hlog hnames hpass (mem_aborted_scenarios.1 hin))⟩
  · intro r hr hmap
    obtain ⟨hpass, hrun⟩ := of_decide_eq_true hmap
    exact decide_eq_true ⟨hpass, fun hshown => hrun (mem_aborted_scenarios.2 (shown_stopped hshown))⟩

section Rows

variable {floatOf : Text → PyFloat} {elsewhere : Text → Option Expr} {leading_code_spans : Text → List Text}
  {isWord : Char → Bool} {foreign : Value → Text} {re_error : Text → Option Text} {sensitive : CheckCall → Bool}
  {log : List LogRecord} {manifest : Manifest} {evidence : EvidenceArtifact}

/-- What a row is made of. -/
theorem row_ok_iff {o : Obligation} {row : Row} :
    _row floatOf elsewhere leading_code_spans isWord foreign re_error sensitive log manifest evidence o = .ok row ↔
      ∃ observed, observedCalls foreign re_error (passingIn (aborted_scenarios log) (boundTo o.id (asserts log))) =
          .ok observed ∧
        row = rowOf log manifest o observed (findings floatOf elsewhere leading_code_spans isWord foreign re_error sensitive
          log evidence o observed) := by
  unfold _row
  rw [bind_ok_iff]
  constructor
  · rintro ⟨observed, hobserved, h⟩
    exact ⟨observed, hobserved, (Except.ok.inj h).symm⟩
  · rintro ⟨observed, hobserved, rfl⟩
    exact ⟨observed, hobserved, rfl⟩

/-- **The two readers agree** on an obligation, but for failed sentinels and for stops that they read apart. -/
theorem sameRun {o : Obligation} {row : Row}
    (h : _row floatOf elsewhere leading_code_spans isWord foreign re_error sensitive log manifest evidence o = .ok row) :
    SameRun log o row (subjectOf log o) := by
  obtain ⟨observed, -, rfl⟩ := row_ok_iff.1 h
  have hverdict := subject_verdict log o
  refine ⟨?_, fun hcovered => ?_, rfl, passing_length_iff, fun hagree => ?_⟩
  · rw [hverdict]
    show _ ↔ 0 < (failingOf (boundTo o.id (asserts log))).length
    rw [List.length_pos_iff]
    split
    · rename_i hfailing
      exact ⟨fun _ => hfailing, fun _ => rfl⟩
    · rename_i hfailing
      refine ⟨fun hno => ?_, fun hno => (hfailing hno).elim⟩
      split at hno <;> cases hno
  · obtain ⟨hfailing, -, hpassing, -, -⟩ := classify_covered hcovered
    obtain ⟨r, hr⟩ := List.exists_mem_of_ne_nil _ hpassing
    have hshown : passingIn (shownAborted log) (boundTo o.id (asserts log)) ≠ [] := List.ne_nil_of_mem (passing_sub hr)
    have hnone : ¬ failingOf (boundTo o.id (asserts log)) ≠ [] := not_not.2 hfailing
    rw [hverdict, if_neg hnone, if_pos hshown]
  · have hlen := passing_length_iff.2 hagree
    have hpass : 0 < (passingIn (aborted_scenarios log) (boundTo o.id (asserts log))).length ↔
        passingIn (shownAborted log) (boundTo o.id (asserts log)) ≠ [] := by
      rw [← hlen, List.length_pos_iff]
    have hsentinel : (∃ r ∈ log, Names o r ∧ isPass r = false ∧ r.sentinel = true) ↔
        sentinelsOf (boundTo o.id (asserts log)) ≠ [] := by
      constructor
      · rintro ⟨r, hr, hnames, hno, hs⟩
        exact List.ne_nil_of_mem (mem_sentinelsOf.2 ⟨mem_boundTo.2 ⟨hr, hnames⟩, Bool.eq_false_iff.1 hno, hs⟩)
      · intro hne
        obtain ⟨r, hr⟩ := List.exists_mem_of_ne_nil _ hne
        obtain ⟨hbound, hno, hs⟩ := mem_sentinelsOf.1 hr
        obtain ⟨hlog, hnames⟩ := mem_boundTo.1 hbound
        exact ⟨r, hlog, hnames, Bool.eq_false_iff.2 hno, hs⟩
    show ((_classify o.id _).1 = .unproven ∧ _) ↔ (failingOf (boundTo o.id (asserts log))).length = 0 ∧
      0 < (passingIn (aborted_scenarios log) (boundTo o.id (asserts log))).length ∧ _
    rw [classify_unproven, hverdict, hsentinel, hpass, List.length_eq_zero_iff]
    constructor
    · rintro ⟨⟨hfailing, hstopped⟩, hv⟩
      have hnone : ¬ failingOf (boundTo o.id (asserts log)) ≠ [] := not_not.2 hfailing
      rw [if_neg hnone] at hv
      have hshown : passingIn (shownAborted log) (boundTo o.id (asserts log)) ≠ [] := by
        by_contra hno
        rw [if_neg (not_not.2 hno)] at hv
        cases hv
      refine ⟨hfailing, hshown, hstopped.resolve_right fun hno => ?_⟩
      -- with no passing assertion the report shows none either
      have hpos := hpass.2 hshown
      rw [List.length_pos_iff] at hpos
      exact hpos hno.2
    · rintro ⟨hfailing, hshown, hs⟩
      have hnone : ¬ failingOf (boundTo o.id (asserts log)) ≠ [] := not_not.2 hfailing
      rw [if_neg hnone, if_pos hshown]
      exact ⟨⟨hfailing, .inl hs⟩, rfl⟩

/-- The integers of the ledger are ones that `json` reads: it refuses more than 4300 digits. -/
def Readable (log : List LogRecord) : Prop :=
  ∀ r ∈ log, ∀ kv ∈ r.check_args, ∀ i, kv.2 = .int i → (Nat.toDigits 10 i.natAbs).length ≤ 4300

theorem call_text_ok {name : Text} {args : List (Text × Value)}
    (h : ∀ kv ∈ args, ∀ i, kv.2 = .int i → (Nat.toDigits 10 i.natAbs).length ≤ 4300) :
    ∃ found, _call_text foreign re_error name args = .ok found := by
  unfold _call_text
  split
  · rename_i bound hbind
    obtain ⟨spec, hfind, hargs, -, hname⟩ := Verify.bind_eq_ok_iff.1 hbind
    have hints : ∀ kv ∈ bound.args, ∀ i, kv.2 = .int i → (Nat.toDigits 10 i.natAbs).length ≤ 4300 := by
      intro kv hkv i hi
      obtain ⟨arg, harg, hone⟩ := exists_of_forall₂ (mapM_ok_iff.1 hargs) kv hkv
      exact h arg harg i (Verify.int_of_bindOne hone hi)
    rw [← hname] at hfind
    obtain ⟨t, ht⟩ := Verify.exists_text hfind hints
    rw [ht]
    exact ⟨some t, rfl⟩
  · exact ⟨none, rfl⟩

theorem row_exists (h : Readable log) (o : Obligation) : ∃ row,
    _row floatOf elsewhere leading_code_spans isWord foreign re_error sensitive log manifest evidence o = .ok row := by
  have hcalls : ∃ observed, observedCalls foreign re_error
      (passingIn (aborted_scenarios log) (boundTo o.id (asserts log))) = .ok observed := by
    obtain ⟨calls, hcalls⟩ : ∃ calls, ((passingIn (aborted_scenarios log) (boundTo o.id (asserts log))).filter
        fun r => r.check ≠ []).mapM (fun r => _call_text foreign re_error r.check r.check_args) = .ok calls := by
      refine mapM_ok fun r hr => call_text_ok (h r ?_)
      exact (mem_passing.1 (List.mem_filter.1 hr).1).1
    exact ⟨_, bind_ok_iff.2 ⟨calls, hcalls, rfl⟩⟩
  obtain ⟨observed, hobserved⟩ := hcalls
  exact ⟨_, row_ok_iff.2 ⟨observed, hobserved, rfl⟩⟩

end Rows

/-! ## The run as a whole -/

/-- Every row is counted under its status. -/
theorem counts_sum (rows : List Row) :
    (STATUSES.map fun status => rows.countP fun row => row.status = status).sum = rows.length := by
  induction rows with
  | nil => rfl
  | cons row rows ih =>
    simp only [STATUSES, List.map_cons, List.map_nil, List.sum_cons, List.sum_nil, List.countP_cons,
      List.length_cons] at ih ⊢
    have hone : (if decide (row.status = .contradicted) = true then 1 else 0) +
        (if decide (row.status = .unproven) = true then 1 else 0) + (if decide (row.status = .uncovered) = true then 1 else 0) +
        (if decide (row.status = .claimedButUnasserted) = true then 1 else 0) +
        (if decide (row.status = .insensitive) = true then 1 else 0) +
        (if decide (row.status = .deferred) = true then 1 else 0) +
        (if decide (row.status = .covered) = true then 1 else 0) = 1 := by
      cases row.status <;> rfl
    omega

section Main

variable (floatOf : Text → PyFloat) (elsewhere : Text → Option Expr) (leading_code_spans : Text → List Text)
  (isWord : Char → Bool) (foreign : Value → Text) (re_error : Text → Option Text) (sensitive : CheckCall → Bool)

end Main

/-! ## Runs that are read apart -/

/-- The packet of one obligation without declared checks. -/
def lonePacket : Packet := ⟨"run".toList, [some { id := "ob".toList }]⟩

/-- A scenario that ran to its end, with a harness sentinel that failed. -/
def sentinelLog : List LogRecord := [
  { kind := "scenario_start".toList, scenario := "s".toList, covers := ["ob".toList] },
  { kind := "assert".toList, scenario := "s".toList, covers := ["ob".toList], result := "PASS".toList, action := some 1 },
  { kind := "assert".toList, scenario := "s".toList, covers := ["ob".toList], result := "FAIL".toList, sentinel := true,
    action := some 2 },
  { kind := "scenario_stop".toList, scenario := "s".toList }]

/-- A scenario that was stopped twice, the first time as aborted. -/
def restartedLog : List LogRecord := [
  { kind := "scenario_start".toList, scenario := "s".toList, covers := ["ob".toList] },
  { kind := "assert".toList, scenario := "s".toList, covers := ["ob".toList], result := "PASS".toList, action := some 1 },
  { kind := "scenario_stop".toList, scenario := "s".toList, aborted := true },
  { kind := "scenario_start".toList, scenario := "s".toList, covers := ["ob".toList] },
  { kind := "scenario_stop".toList, scenario := "s".toList }]

end Stablemate.Evidence
