import Stablemate.Proof.Settle
import Stablemate.Proof.Text
import Stablemate.Model.Review

/-!
# What a settlement accepts (`coder/shared/review.py`)

* `check_once`: settled, declined and open ids are the ids of the ledger, each in one place.
* `evidence_gap_nil`: a fix has no gap when its commits and its tests are there and its paths, read
  without their leading dots and slashes, name changed files.
* `written_iff`: for a path that begins with no dot and no slash, or with `./` and then neither, this
  is to name a changed file as written (`Odd` paths are the others).
* `settle_exact_iff`: **the settlement is exact just when the other paths are read even-handedly**.
-/

namespace Stablemate.Review

open Settle

variable {repos : List CodeRepo} {a : Answer} {cited rel path fid : Text} {story : StoryRef AnswerFile}
  {filed reuse : List Text} {ledger : AnswerLedger}

/-! ## Citations -/

/-- `rel` is a changed file, from its repository or from the repository's folder. -/
def Names (repos : List CodeRepo) (rel : Text) : Prop :=
  ∃ repo ∈ repos, ∃ path ∈ repo.changed, rel = path ∨ rel = repo.name ++ ['/'] ++ path

/-- A citation that names a changed file, with or without a leading `./`. -/
def Written (repos : List CodeRepo) (cited : Text) : Prop :=
  ∃ rel, Names repos rel ∧ (cited = rel ∨ cited = ['.', '/'] ++ rel)

/-- What `lstrip("./")` takes off. -/
def lead (cited : Text) : Text := cited.takeWhile (List.contains ['.', '/'])

/-- What it leaves. -/
def bare (cited : Text) : Text := lstrip ['.', '/'] cited

/-- Dots and slashes in front, but not one `./` that is no part of a changed file's path. -/
def Odd (repos : List CodeRepo) (cited : Text) : Prop :=
  lead cited ≠ [] ∧ (lead cited ≠ ['.', '/'] ∨ isChanged repos cited = true)

instance decidableOdd (repos : List CodeRepo) (cited : Text) : Decidable (Odd repos cited) :=
  inferInstanceAs (Decidable (_ ∧ _))

theorem lead_append_bare (cited : Text) : lead cited ++ bare cited = cited := List.takeWhile_append_dropWhile

theorem bare_head {c : Char} {rest : Text} (h : bare cited = c :: rest) : c ≠ '.' ∧ c ≠ '/' := by
  have hc := List.head?_dropWhile_not (List.contains ['.', '/']) cited
  unfold bare lstrip at h
  rw [h] at hc
  simpa using hc

theorem isChanged_iff : isChanged repos rel = true ↔ Names repos rel := by
  simp only [isChanged, Names, List.any_eq_true, Bool.or_eq_true, decide_eq_true_eq]

theorem cites_iff (h : Text.strip cited = cited) : _cites_change cited repos = true ↔ Names repos (bare cited) := by
  unfold _cites_change
  rw [h]
  exact isChanged_iff

/-- **Where the two readings agree.** -/
theorem written_iff (h : ¬ Odd repos cited) : Written repos cited ↔ Names repos (bare cited) := by
  have hsplit := lead_append_bare cited
  unfold Odd at h
  rw [not_and_or, not_or, not_not, not_not, isChanged_iff] at h
  rcases h with hlead | ⟨hlead, hno⟩ <;> rw [hlead] at hsplit
  · -- nothing is taken off, so the citation does not begin with `./`
    constructor
    · rintro ⟨rel, hrel, rfl | rfl⟩
      · rwa [← hsplit] at hrel
      · exact absurd (bare_head hsplit).1 (not_not.2 rfl)
    · exact fun hnames => ⟨bare cited, hnames, .inl hsplit.symm⟩
  · constructor
    · rintro ⟨rel, hrel, rfl | rfl⟩
      · exact absurd hrel hno
      · rwa [List.append_cancel_left hsplit]
    · exact fun hnames => ⟨bare cited, hnames, .inr hsplit.symm⟩

/-- Commits and tests that are there. -/
structure Proven (repos : List CodeRepo) (a : Answer) : Prop where
  commits : ∀ sha ∈ a.commits, ∃ repo ∈ repos, repo.has_commit sha = true
  tests : ∀ test ∈ a.tests, ∃ repo ∈ repos, ∃ path ∈ repo.changed, ∃ text,
    repo.read_text path = some text ∧ test <:+: text

/-- An answer with true citations. -/
structure Holds (repos : List CodeRepo) (a : Answer) : Prop extends Proven repos a where
  paths : ∀ path ∈ a.paths, Written repos path

theorem names_test_iff {test : Text} : _names_test test repos = true ↔
    ∃ repo ∈ repos, ∃ path ∈ repo.changed, ∃ text, repo.read_text path = some text ∧ test <:+: text := by
  simp only [_names_test, List.any_eq_true, Option.any_eq_true, Text.contains, decide_eq_true_eq]

/-- **When a fix has no gap.** -/
theorem evidence_gap_nil (hstrip : ∀ path ∈ a.paths, Text.strip path = path) :
    evidence_gap a repos = [] ↔ Proven repos a ∧ ∀ path ∈ a.paths, Names repos (bare path) := by
  have hcommits : (∀ sha ∈ a.commits, ¬ (!repos.any fun repo => repo.has_commit sha) = true) ↔
      ∀ sha ∈ a.commits, ∃ repo ∈ repos, repo.has_commit sha = true := by
    simp only [Bool.not_eq_true', Bool.not_eq_false, List.any_eq_true]
  have hpaths : (∀ path ∈ a.paths, ¬ (!_cites_change path repos) = true) ↔
      ∀ path ∈ a.paths, Names repos (bare path) := by
    refine forall₂_congr fun path hpath => ?_
    rw [Bool.not_eq_true', Bool.not_eq_false, cites_iff (hstrip path hpath)]
  have htests : (∀ test ∈ a.tests, ¬ (!_names_test test repos) = true) ↔ ∀ test ∈ a.tests, ∃ repo ∈ repos,
      ∃ path ∈ repo.changed, ∃ text, repo.read_text path = some text ∧ test <:+: text := by
    refine forall₂_congr fun test _ => ?_
    rw [Bool.not_eq_true', Bool.not_eq_false, names_test_iff]
  unfold evidence_gap
  split
  · rename_i sha hsha
    refine iff_of_false (by simp) fun h => ?_
    have hfound := List.find?_some hsha
    exact hcommits.2 h.1.commits sha (List.mem_of_find?_eq_some hsha) hfound
  · rename_i hnone
    have hc := hcommits.1 (List.find?_eq_none.1 hnone)
    split
    · rename_i path hpath
      refine iff_of_false (by simp) fun h => ?_
      have hfound := List.find?_some hpath
      exact hpaths.2 h.2 path (List.mem_of_find?_eq_some hpath) hfound
    · rename_i hnone
      have hp := hpaths.1 (List.find?_eq_none.1 hnone)
      split
      · rename_i test htest
        refine iff_of_false (by simp) fun h => ?_
        have hfound := List.find?_some htest
        exact htests.2 h.1.tests test (List.mem_of_find?_eq_some htest) hfound
      · rename_i hnone
        exact iff_of_true rfl ⟨⟨hc, htests.1 (List.find?_eq_none.1 hnone)⟩, hp⟩

/-! ## The ledger -/

/-- What a label collects has no white space at its ends. -/
theorem strip_evidence {label : String} {sec : Section} {value : Text} (h : value ∈ evidence label sec) :
    Text.strip value = value := by
  obtain ⟨bullet, -, hvalue⟩ := List.mem_filterMap.1 h
  split at hvalue
  · obtain rfl := Option.some.inj hvalue
    exact Text.strip_strip _
  · cases hvalue

/-- So it is with every path of an answer. -/
theorem strip_paths (h : Answered story fid a) : ∀ path ∈ a.paths, Text.strip path = path := by
  obtain ⟨sections, -, e, hfilter, -, hans⟩ := h
  have hmem : e ∈ (entriesOf sections).filter fun e => e.finding_id = fid := hfilter ▸ List.mem_cons_self
  obtain ⟨sec, -, rfl⟩ := List.mem_map.1 (List.mem_filter.1 hmem).1
  unfold _heading at hans
  dsimp only at hans
  split at hans
  · cases hans
  · split at hans
    · cases hans
    · obtain ⟨rfl, -, -⟩ := entryOf_spec hans
      exact fun path hpath => strip_evidence hpath

theorem lookup_rowsOf (by_id : List Answer) {wanted : List Text} (h : fid ∈ wanted) :
    (rowsOf by_id wanted).lookup fid = Keyed.get Answer.finding_id by_id fid := by
  induction wanted with
  | nil => cases h
  | cons other wanted ih =>
    by_cases heq : fid = other
    · subst heq
      cases hget : Keyed.get Answer.finding_id by_id fid with
      | some a =>
        have hrows : rowsOf by_id (fid :: wanted) = (fid, a) :: rowsOf by_id wanted :=
          List.filterMap_cons_some (by rw [hget]; rfl)
        rw [hrows, List.lookup_cons_self]
      | none =>
        rw [List.lookup_eq_none_iff]
        rintro ⟨key, a⟩ hrow
        have hkey := (mem_rowsOf.1 hrow).2
        rw [bne_iff_ne]
        rintro rfl
        rw [hget] at hkey
        cases hkey
    · have hrest := ih ((List.mem_cons.1 h).resolve_left heq)
      cases hget : Keyed.get Answer.finding_id by_id other with
      | none =>
        have hrows : rowsOf by_id (other :: wanted) = rowsOf by_id wanted :=
          List.filterMap_cons_none (by rw [hget]; rfl)
        rw [hrows, hrest]
      | some a =>
        have hrows : rowsOf by_id (other :: wanted) = (other, a) :: rowsOf by_id wanted :=
          List.filterMap_cons_some (by rw [hget]; rfl)
        rw [hrows, List.lookup_cons, beq_eq_false_iff_ne.2 heq]
        exact hrest

/-- The ledger keeps the answer of each answered id. -/
theorem lookup_answers (hfiled : fid ∈ filed) (h : Answered story fid a) :
    (settle_answers story filed).answers.lookup fid = some a :=
  (lookup_rowsOf _ (List.mem_eraseDups.2 hfiled)).trans (get_readAnswers.2 h)

/-- **One place for each id** of the ledger. -/
theorem check_once (ledger : AnswerLedger) (repos : List CodeRepo) (reuse : List Text) :
    ((check ledger repos reuse).settled ++ (check ledger repos reuse).declined ++
      (check ledger repos reuse).open_).Perm (ledger.fixed ++ ledger.declined.map Prod.fst ++ ledger.open_) := by
  -- a filter and its complement, for any gap
  have hparts : ∀ (ids : List Text) (gap : Text → Text),
      (ids.filter (fun fid => gap fid = []) ++ ids.filter fun fid => gap fid ≠ []).Perm ids := by
    intro ids gap
    have hsplit := List.filter_append_perm (fun fid => decide (gap fid = [])) ids
    have hneg : (ids.filter fun fid => !decide (gap fid = [])) = ids.filter fun fid => gap fid ≠ [] :=
      List.filter_congr fun fid _ => by simp
    rwa [hneg] at hsplit
  have hrejected : (check ledger repos reuse).open_ = ledger.open_ ++ (check ledger repos reuse).rejected.map Prod.fst := rfl
  rw [hrejected]
  unfold check
  dsimp only
  rw [List.map_append, List.map_map, List.map_map]
  simp only [Function.comp_def, List.map_id']
  have hfixed := hparts ledger.fixed (gapOf ledger fun answer => evidence_gap answer repos)
  have hdeclined := hparts (ledger.declined.map Prod.fst) fun fid =>
    gapOf ledger (fun answer => if reuse.contains fid then coincidence_gap answer else decline_gap answer repos) fid
  rw [List.perm_iff_count] at hfixed hdeclined ⊢
  intro fid
  have h₁ := hfixed fid
  have h₂ := hdeclined fid
  simp only [List.count_append] at h₁ h₂ ⊢
  omega

/-- **An exact settlement**: each filed id stands in one place, a rejected id is open, and an id is
settled by one fixed answer with true citations. -/
structure Exact (story : StoryRef AnswerFile) (filed : List Text) (repos : List CodeRepo) (s : Settlement) : Prop where
  once : (s.settled ++ s.declined ++ s.open_).Perm filed
  rejected : ∀ fid ∈ s.rejected.map Prod.fst, fid ∈ s.open_
  settled : ∀ fid, fid ∈ s.settled ↔ fid ∈ filed ∧ ∃ a, Answered story fid a ∧ a.disposition = .fixed ∧ Holds repos a

/-- In a fix of a filed id whose other citations are true, the odd paths are all written as changed
files just when what is left of each is one. -/
def EvenHanded (story : StoryRef AnswerFile) (filed : List Text) (repos : List CodeRepo) : Prop :=
  ∀ fid ∈ filed, ∀ a, Answered story fid a → a.disposition = .fixed → Proven repos a →
    (∀ path ∈ a.paths, ¬ Odd repos path → Written repos path) →
      ((∀ path ∈ a.paths, Odd repos path → Written repos path) ↔ ∀ path ∈ a.paths, Odd repos path → Names repos (bare path))

/-- An id is settled when its answer is fixed and has no gap. -/
theorem mem_settled : fid ∈ (check (settle_answers story filed) repos reuse).settled ↔
    fid ∈ filed ∧ ∃ a, Answered story fid a ∧ a.disposition = .fixed ∧ Proven repos a ∧
      ∀ path ∈ a.paths, Names repos (bare path) := by
  have hgap : ∀ a, fid ∈ filed → Answered story fid a →
      gapOf (settle_answers story filed) (fun answer => evidence_gap answer repos) fid = evidence_gap a repos := by
    intro a hfiled ha
    unfold gapOf
    rw [lookup_answers hfiled ha]
    rfl
  show fid ∈ (settle_answers story filed).fixed.filter _ ↔ _
  rw [List.mem_filter, (settle_answers_spec story filed).fixed fid, decide_eq_true_eq]
  constructor
  · rintro ⟨⟨hfiled, a, ha, hfixed⟩, hnil⟩
    rw [hgap a hfiled ha, evidence_gap_nil (strip_paths ha)] at hnil
    exact ⟨hfiled, a, ha, hfixed, hnil⟩
  · rintro ⟨hfiled, a, ha, hfixed, hnil⟩
    refine ⟨⟨hfiled, a, ha, hfixed⟩, ?_⟩
    rw [hgap a hfiled ha, evidence_gap_nil (strip_paths ha)]
    exact hnil

/-- What a settlement was made from. -/
theorem settle_findings_ok {story_id : Text} {committed : Except Text Unit} {s : Settlement}
    (h : settle_findings story_id story filed repos reuse committed = .ok s) :
    s = check (settle_answers story filed) (repos.filter CodeRepo.is_dir) reuse := by
  unfold settle_findings at h
  split at h
  · cases h
  · dsimp only at h
    split at h
    · cases h
    · split at h
      · cases h
      · exact (Except.ok.inj h).symm

/-- Paths that name changed files as written, or without their dots and slashes, differ in the odd ones only. -/
theorem paths_iff (repos : List CodeRepo) (a : Answer) : ((∀ path ∈ a.paths, Written repos path) ↔
      (∀ path ∈ a.paths, ¬ Odd repos path → Written repos path) ∧ ∀ path ∈ a.paths, Odd repos path → Written repos path) ∧
    ((∀ path ∈ a.paths, Names repos (bare path)) ↔
      (∀ path ∈ a.paths, ¬ Odd repos path → Written repos path) ∧ ∀ path ∈ a.paths, Odd repos path → Names repos (bare path)) := by
  refine ⟨⟨fun h => ⟨fun p hp _ => h p hp, fun p hp _ => h p hp⟩, fun h p hp => ?_⟩,
    ⟨fun h => ⟨fun p hp hodd => (written_iff hodd).2 (h p hp), fun p hp _ => h p hp⟩, fun h p hp => ?_⟩⟩
  · by_cases hodd : Odd repos p
    · exact h.2 p hp hodd
    · exact h.1 p hp hodd
  · by_cases hodd : Odd repos p
    · exact h.2 p hp hodd
    · exact (written_iff hodd).1 (h.1 p hp hodd)

/-- **When the settlement is exact**: just when the odd paths are read even-handedly. -/
theorem settle_exact_iff (story_id : Text) (story : StoryRef AnswerFile) (filed : List Text) (repos : List CodeRepo)
    (reuse : List Text) (committed : Except Text Unit) (s : Settlement) (hfiled : filed.Nodup)
    (h : settle_findings story_id story filed repos reuse committed = .ok s) :
    Exact story filed (repos.filter CodeRepo.is_dir) s ↔ EvenHanded story filed (repos.filter CodeRepo.is_dir) := by
  obtain rfl := settle_findings_ok h
  constructor
  · intro hexact fid hfid a ha hfixed hproven hplain
    have hboth := (hexact.settled fid).symm.trans mem_settled
    obtain ⟨hwritten, hbare⟩ := paths_iff (repos.filter CodeRepo.is_dir) a
    constructor
    · intro hodd
      obtain ⟨-, b, hb, -, -, hpaths⟩ := hboth.1 ⟨hfid, a, ha, hfixed, hproven, hwritten.2 ⟨hplain, hodd⟩⟩
      obtain rfl := ha.unique hb
      exact (hbare.1 hpaths).2
    · intro hodd
      obtain ⟨-, b, hb, -, hholds⟩ := hboth.2 ⟨hfid, a, ha, hfixed, hproven, hbare.2 ⟨hplain, hodd⟩⟩
      obtain rfl := ha.unique hb
      exact (hwritten.1 hholds.paths).2
  · intro heven
    refine ⟨?_, fun fid hfid => List.mem_append_right _ hfid, fun fid => ?_⟩
    · have hledger := (settle_answers_spec story filed).once
      have hsame : filed.eraseDups.Perm filed :=
        (List.perm_ext_iff_of_nodup (nodup_eraseDups _) hfiled).2 fun _ => List.mem_eraseDups
      exact (check_once _ _ _).trans (hledger.trans hsame)
    · rw [mem_settled]
      refine and_congr_right fun hfid => exists_congr fun a => and_congr_right fun ha => and_congr_right fun hfixed => ?_
      obtain ⟨hwritten, hbare⟩ := paths_iff (repos.filter CodeRepo.is_dir) a
      constructor
      · rintro ⟨hproven, hpaths⟩
        obtain ⟨hplain, hodd⟩ := hbare.1 hpaths
        exact ⟨hproven, hwritten.2 ⟨hplain, (heven fid hfid a ha hfixed hproven hplain).2 hodd⟩⟩
      · rintro ⟨hproven, hpaths⟩
        obtain ⟨hplain, hodd⟩ := hwritten.1 hpaths
        exact ⟨hproven, hbare.2 ⟨hplain, (heven fid hfid a ha hfixed hproven hplain).1 hodd⟩⟩

/-- A repository with one changed file. -/
def oneFile (path : Text) : CodeRepo where
  path := "/code/app".toList
  changed := [path]
  read_text _ := none
  has_commit _ := false
  greps _ := false

/-- An answer list that gives `F1` as fixed and cites one path. -/
def citing (path : Text) : StoryRef AnswerFile :=
  .found (some (.ok [⟨2, "F1: fixed".toList, [], ["path: ".toList ++ path]⟩]))

/-- A path is cited under the repository's folder name, and the settlement is exact. -/
theorem settle_exact_iff_app :
    Exact (citing "./app/a.py".toList) ["F1".toList] [oneFile "a.py".toList]
      (check (settle_answers (citing "./app/a.py".toList) ["F1".toList]) [oneFile "a.py".toList] []) := by
  refine (settle_exact_iff "s".toList (citing "./app/a.py".toList) ["F1".toList] [oneFile "a.py".toList] []
    (.ok ()) _ (List.nodup_singleton _) rfl).2 ?_
  intro fid hfid a ha _ _ _
  obtain rfl := List.mem_singleton.1 hfid
  have hanswered : Answered (citing "./app/a.py".toList) "F1".toList
      ⟨"F1".toList, .fixed, [], ["./app/a.py".toList], [], []⟩ := ⟨_, rfl, _, rfl, rfl, rfl⟩
  obtain rfl := ha.unique hanswered
  -- one `./` in front is not odd
  have hplain : ∀ path ∈ ["./app/a.py".toList], ¬ Odd [oneFile "a.py".toList] path := by decide
  exact iff_of_true (fun path hpath hodd => absurd hodd (hplain path hpath)) fun path hpath hodd =>
    absurd hodd (hplain path hpath)

/-- A dot file is cited as it is written, and the answer is rejected. -/
theorem dot_file_rejected : ∃ s, settle_findings "s".toList (citing ".github/ci.yml".toList) ["F1".toList]
      [oneFile ".github/ci.yml".toList] [] (.ok ()) = .ok s ∧
    ¬ Exact (citing ".github/ci.yml".toList) ["F1".toList] [oneFile ".github/ci.yml".toList] s := by
  refine ⟨check (settle_answers (citing ".github/ci.yml".toList) ["F1".toList])
    [oneFile ".github/ci.yml".toList] [], rfl, fun hexact => ?_⟩
  have hanswered : Answered (citing ".github/ci.yml".toList) "F1".toList
      ⟨"F1".toList, .fixed, [], [".github/ci.yml".toList], [], []⟩ := ⟨_, rfl, _, rfl, rfl, rfl⟩
  have hnone : "F1".toList ∉ (check (settle_answers (citing ".github/ci.yml".toList) ["F1".toList])
      [oneFile ".github/ci.yml".toList] []).settled := by decide
  refine hnone ((hexact.settled "F1".toList).2 ⟨List.mem_cons_self, _, hanswered, rfl, ⟨by simp, by simp⟩, ?_⟩)
  intro path hpath
  obtain rfl := List.mem_singleton.1 hpath
  exact ⟨_, ⟨_, List.mem_cons_self, _, List.mem_cons_self, .inl rfl⟩, .inl rfl⟩

end Stablemate.Review
