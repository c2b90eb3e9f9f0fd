import Mathlib.Data.List.Dedup
import Mathlib.Data.List.MinMax
import Stablemate.Lib.Lists
import Stablemate.Model.History
import Stablemate.Proof.Text

/-!
# Discovery against the summaries

* `rootOf_spec`, `latest_spec`: which root the index and the spans give.
* `get_round`: what a round leaves of each run.
* `discover_iff`: **discovery settles in one round and agrees with the summaries, in whatever order SQLite
  gives equal rows, exactly if the last roots of each run that closed agree on whether they end it**.
-/

namespace Stablemate.History

variable {config : Config} {sql : Sql} {store : Store} {now last_ts : ℚ} {run_id : Text} {spans roots : List Span} {span a b : Span}

/-- The rows come sorted. -/
structure Sql.Lawful (sql : Sql) : Prop where
  end_perm : ∀ spans, (sql.byEnd spans).Perm spans
  end_sorted : ∀ spans, (sql.byEnd spans).Pairwise fun a b => a.end_ts ≤ b.end_ts
  start_perm : ∀ spans, (sql.byStart spans).Perm spans
  start_sorted : ∀ spans, (sql.byStart spans).Pairwise fun a b => a.start_ts ≤ b.start_ts

/-! ## Names of roots -/

/-- A text between two that start with one character starts with it. -/
theorem cons_of_range {c : Char} {p q name : Text} (hle : ¬ name < c :: p) (hlt : name < c :: q) :
    ∃ rest, name = c :: rest ∧ ¬ rest < p ∧ rest < q := by
  cases name with
  | nil => exact absurd (List.nil_lt_cons c p) hle
  | cons d rest =>
    rw [List.cons_lt_cons_iff] at hle hlt
    have heq : d = c := by
      rcases hlt with hlt | ⟨heq, -⟩
      · exact absurd (Or.inl hlt) hle
      · exact heq
    subst heq
    refine ⟨rest, rfl, fun h => hle (.inr ⟨rfl, h⟩), ?_⟩
    rcases hlt with hlt | ⟨-, hlt⟩
    · exact absurd hlt (lt_irrefl d)
    · exact hlt

/-- `':'` is the character before `';'`. -/
theorem eq_colon {c : Char} (hle : ':' ≤ c) (hlt : c < ';') : c = ':' := by
  have h1 : (':' : Char).toNat ≤ c.toNat := hle
  have h2 : c.toNat < (';' : Char).toNat := hlt
  have h3 : (':' : Char).toNat = 58 := rfl
  have h4 : (';' : Char).toNat = 59 := rfl
  exact Char.ext (UInt32.toNat_inj.1 (by change c.toNat = (':' : Char).toNat; omega))

/-- The range of the index is the prefix of the spans' names. -/
theorem root_eq (span : Span) : _ROOT span = "run:".toList.isPrefixOf span.name := by
  unfold _ROOT
  generalize span.name = name
  have hrun : "run:".toList = ['r', 'u', 'n', ':'] := rfl
  have hend : "run;".toList = ['r', 'u', 'n', ';'] := rfl
  rw [Bool.eq_iff_iff, decide_eq_true_eq, List.isPrefixOf_iff_prefix, hrun, hend, ← not_lt]
  constructor
  · rintro ⟨hle, hlt⟩
    obtain ⟨name, rfl, hle, hlt⟩ := cons_of_range hle hlt
    obtain ⟨name, rfl, hle, hlt⟩ := cons_of_range hle hlt
    obtain ⟨name, rfl, hle, hlt⟩ := cons_of_range hle hlt
    cases name with
    | nil => exact absurd (List.nil_lt_cons _ _) hle
    | cons c rest =>
      rw [List.cons_lt_cons_iff] at hle hlt
      have hc : c < ';' := by
        rcases hlt with hlt | ⟨-, hlt⟩
        · exact hlt
        · exact absurd hlt (List.not_lt_nil rest)
      rw [eq_colon (not_lt.1 fun h => hle (.inl h)) hc]
      exact List.prefix_append ['r', 'u', 'n', ':'] rest
  · rintro ⟨rest, rfl⟩
    simp [List.cons_lt_cons_iff]

/-! ## The last root -/

/-- The roots of a run. -/
def rootsOf (store : Store) (run_id : Text) : List Span := (spansOf store run_id).filter fun span => _ROOT span

/-- It ends last of `roots`. -/
def IsLast (roots : List Span) (a : Span) : Prop := a ∈ roots ∧ ∀ b ∈ roots, b.end_ts ≤ a.end_ts

theorem IsLast.end_eq (ha : IsLast roots a) (hb : IsLast roots b) : a.end_ts = b.end_ts :=
  le_antisymm (hb.2 a ha.1) (ha.2 b hb.1)

theorem IsLast.of_perm {roots' : List Span} (h : roots'.Perm roots) (ha : IsLast roots' a) : IsLast roots a :=
  ⟨h.mem_iff.1 ha.1, fun b hb => ha.2 b (h.mem_iff.2 hb)⟩

/-- Where rows are sorted by a key, the last has the greatest. -/
theorem isLast_getLast (hsorted : roots.Pairwise fun a b => a.end_ts ≤ b.end_ts) (ha : roots.getLast? = some a) :
    IsLast roots a := by
  obtain ⟨rows, rfl⟩ := List.getLast?_eq_some_iff.1 ha
  refine ⟨by simp, fun b hb => ?_⟩
  rcases List.mem_append.1 hb with hb | hb
  · exact (List.pairwise_append.1 hsorted).2.2 b hb a (by simp)
  · rw [List.mem_singleton.1 hb]

/-- `max` takes a root that ends last, where there is one. -/
theorem latest_spec (roots : List Span) : (roots = [] ∧ latest roots = none) ∨ ∃ a, latest roots = some a ∧ IsLast roots a := by
  have heq : latest roots = roots.argmax (·.end_ts) := by
    unfold latest List.argmax
    congr 1
    funext best span
    cases best with
    | none => rfl
    | some b =>
      unfold List.argAux
      by_cases hle : b.end_ts < span.end_ts
      · simp [hle, not_le.2 hle]
      · simp [hle, not_lt.1 hle]
  rw [heq]
  cases hmax : roots.argmax (·.end_ts) with
  | none => exact .inl ⟨List.argmax_eq_none.1 hmax, rfl⟩
  | some a => exact .inr ⟨a, rfl, List.argmax_mem hmax, fun b hb => List.le_of_mem_argmax hb hmax⟩

/-- The roots of a run as the index gives them. -/
theorem rows_eq (hrun : run_id ≠ []) (store : Store) :
    ((store.spans.filter fun span => span.run_id ≠ [] ∧ _ROOT span).filter fun span => span.run_id = run_id) =
      rootsOf store run_id := by
  unfold rootsOf spansOf
  rw [List.filter_filter, List.filter_filter]
  refine List.filter_congr fun span _ => ?_
  by_cases h : span.run_id = run_id
  · simp [h, hrun]
  · simp [h]

/-- **The index takes a root that ends last**, where the run has one. -/
theorem rootOf_spec (hsql : sql.Lawful) (hrun : run_id ≠ []) :
    (rootsOf store run_id = [] ∧ rootOf sql store run_id = (0, [])) ∨
      ∃ a, rootOf sql store run_id = (a.end_ts, a.terminal) ∧ IsLast (rootsOf store run_id) a ∧
        ((sql.byEnd (store.spans.filter fun span => span.run_id ≠ [] ∧ _ROOT span)).filter
          fun span => span.run_id = run_id).getLast? = some a := by
  unfold rootOf _latest_roots
  rw [Dict.get_foldl_set]
  set rows := store.spans.filter fun span => span.run_id ≠ [] ∧ _ROOT span with hrows
  have hperm : ((sql.byEnd rows).filter fun span => span.run_id = run_id).Perm (rootsOf store run_id) := by
    rw [← rows_eq hrun store]
    exact (hsql.end_perm rows).filter _
  have hsorted := (hsql.end_sorted rows).filter fun span => span.run_id = run_id
  cases hlast : ((sql.byEnd rows).filter fun span => span.run_id = run_id).getLast? with
  | none =>
    rw [List.getLast?_eq_none_iff.1 hlast] at hperm
    exact .inl ⟨List.nil_perm.1 hperm, rfl⟩
  | some a => exact .inr ⟨a, rfl, (isLast_getLast hsorted hlast).of_perm hperm, rfl⟩

/-! ## The last record -/

theorem mem_last_records : (run_id, last_ts) ∈ _last_records store ↔
    run_id ≠ [] ∧ spansOf store run_id ≠ [] ∧ last_ts = (maxEnd (spansOf store run_id)).getD 0 := by
  unfold _last_records
  simp only [List.mem_map, List.mem_dedup, List.mem_filter, decide_eq_true_eq, Prod.mk.injEq]
  constructor
  · rintro ⟨r, ⟨⟨span, hspan, rfl⟩, hne⟩, rfl, rfl⟩
    exact ⟨hne, List.ne_nil_of_mem (List.mem_filter.2 ⟨hspan, by simp⟩), rfl⟩
  · rintro ⟨hne, hspans, rfl⟩
    obtain ⟨span, hspan⟩ := List.exists_mem_of_ne_nil _ hspans
    obtain ⟨hmem, hrun⟩ := List.mem_filter.1 hspan
    exact ⟨run_id, ⟨⟨span, hmem, by simpa using hrun⟩, hne⟩, rfl, rfl⟩

theorem nodup_last_records (store : Store) : ((_last_records store).map (·.1)).Nodup := by
  unfold _last_records
  rw [List.map_map]
  exact (List.map_id' _).symm ▸ List.nodup_dedup _

theorem maxEnd_perm {spans' : List Span} (h : spans.Perm spans') : maxEnd spans = maxEnd spans' := by
  unfold maxEnd
  refine Option.ext fun t => ?_
  rw [List.max?_eq_some_iff, List.max?_eq_some_iff]
  have hmap := h.map (·.end_ts)
  exact and_congr hmap.mem_iff (forall_congr' fun b => imp_congr_left hmap.mem_iff)

theorem perm_run_turn_spans (hsql : sql.Lawful) (hrun : run_id ≠ []) :
    (run_turn_spans sql store run_id).Perm (spansOf store run_id) := by
  unfold run_turn_spans
  rw [if_neg hrun]
  exact hsql.start_perm _

/-- Both readers have one last record. -/
theorem maxEnd_run (hsql : sql.Lawful) (h : (run_id, last_ts) ∈ _last_records store) :
    maxEnd (run_turn_spans sql store run_id) = some last_ts := by
  obtain ⟨hrun, hspans, rfl⟩ := mem_last_records.1 h
  rw [maxEnd_perm (perm_run_turn_spans hsql hrun)]
  unfold maxEnd
  have hne : (spansOf store run_id).map (·.end_ts) ≠ [] := by simpa using hspans
  rw [List.max?_eq_some_max hne]
  rfl

/-! ## Summaries -/

theorem ending_of_isSome (terminal : Text) (gave_up : Bool) :
    (ending_of terminal gave_up).isSome = (ending_of terminal false).isSome := by
  unfold ending_of
  split
  · rfl
  · rfl

theorem ending_of_ne_none {terminal ending : Text} {gave_up : Bool} (h : ending_of terminal gave_up = some ending) :
    ending ≠ "none".toList := by
  unfold ending_of at h
  split at h
  · have heq := (Option.some.inj h).symm
    cases gave_up <;> subst heq <;> decide
  · have hmem := Dict.mem_of_get h
    simp only [_TERMINAL_ENDINGS, List.mem_cons, Prod.mk.injEq, List.not_mem_nil, or_false] at hmem
    rcases hmem with ⟨-, rfl⟩ | ⟨-, rfl⟩ | ⟨-, rfl⟩ <;> decide

/-- What `summarize` writes of a run: its end, if its root closed it, the end of silence, or none. -/
theorem summarize_spec (hsql : sql.Lawful) (h : (run_id, last_ts) ∈ _last_records store) (now : ℚ) :
    ∃ row, summarize config sql store run_id now = some row ∧ row.state = .ready ∧ row.last_ts = last_ts ∧
      row.resume_read = RESUME_READ ∧
      ((endingOf config (run_turn_spans sql store run_id) last_ts).isSome ↔
        row.ending ≠ "none".toList ∧ row.ended_ts.isSome) ∧
      (_silent config last_ts now → row.ended_ts.isSome) := by
  unfold summarize
  dsimp only
  rw [maxEnd_run hsql h, Option.map_some]
  refine ⟨_, rfl, ?_⟩
  cases hending : endingOf config (run_turn_spans sql store run_id) last_ts with
  | some ending =>
    obtain ⟨a, ha, hclosed⟩ := Option.bind_eq_some_iff.1 hending
    have hne : ending ≠ "none".toList := by
      split at hclosed
      · exact ending_of_ne_none hclosed
      · cases hclosed
    refine ⟨rfl, rfl, rfl, ⟨fun _ => ⟨hne, ?_⟩, fun _ => rfl⟩, fun _ => ?_⟩
    · rw [ha]
      rfl
    · rw [ha]
      rfl
  | none =>
    by_cases hsilent : _silent config last_ts now = true
    · simp [hsilent]
    · simp [hsilent]

/-! ## A round -/

/-- What a verdict leaves of the row of its run. -/
def Verdict.after (verdict : Verdict) (row : Option Summary) : Option Summary :=
  match verdict with
  | .wanted (some pending) => some (row.getD pending)
  | .wanted none => row
  | .returned => row.map fun row => { row with ended_ts := none }
  | .kept => row

theorem Verdict.get_apply (verdict : Verdict) (run_id : Text) (summaries : List (Text × Summary)) (k : Text) :
    Dict.get (verdict.apply run_id summaries) k =
      if run_id = k then verdict.after (Dict.get summaries k) else Dict.get summaries k := by
  have hsame : Dict.get summaries k = if run_id = k then Dict.get summaries k else Dict.get summaries k := by
    split <;> rfl
  unfold Verdict.apply Verdict.after
  cases verdict with
  | wanted pending =>
    cases pending with
    | some pending =>
      rw [Dict.get_setdefault]
      split
      · rename_i heq
        rw [heq]
      · rfl
    | none => exact hsame
  | returned =>
    cases hget : Dict.get summaries run_id with
    | some row =>
      dsimp only
      rw [Dict.get_set]
      split
      · rename_i heq
        rw [← heq, hget]
        rfl
      · rfl
    | none =>
      dsimp only
      split
      · rename_i heq
        rw [← heq, hget]
        rfl
      · rfl
  | kept => exact hsame

/-- The looks of a loop over runs change the row of each run once. -/
theorem get_foldl_apply (looked : List (Text × ℚ × Verdict)) (hnodup : (looked.map (·.1)).Nodup)
    (summaries : List (Text × Summary)) {run : Text × ℚ × Verdict} (hrun : run ∈ looked) :
    Dict.get (looked.foldl (fun summaries run => run.2.2.apply run.1 summaries) summaries) run.1 =
      run.2.2.after (Dict.get summaries run.1) := by
  induction looked generalizing summaries with
  | nil => cases hrun
  | cons first looked ih =>
    obtain ⟨hnot, hnodup⟩ := List.nodup_cons.1 hnodup
    rw [List.foldl_cons]
    rcases List.mem_cons.1 hrun with rfl | hrun
    · have hother : ∀ (rest : List (Text × ℚ × Verdict)) (s : List (Text × Summary)), run.1 ∉ rest.map (·.1) →
          Dict.get (rest.foldl (fun s run => run.2.2.apply run.1 s) s) run.1 = Dict.get s run.1 := by
        intro rest
        induction rest with
        | nil => intro s _; rfl
        | cons other rest ih' =>
          intro s hmem
          rw [List.map_cons, List.mem_cons, not_or] at hmem
          rw [List.foldl_cons, ih' _ hmem.2, Verdict.get_apply, if_neg fun h => hmem.1 h.symm]
      rw [hother looked _ hnot, Verdict.get_apply, if_pos rfl]
    · have hne : first.1 ≠ run.1 := fun h => hnot (List.mem_map.2 ⟨run, hrun, h.symm⟩)
      rw [ih hnodup _ hrun, Verdict.get_apply, if_neg hne]

theorem spans_compute (config : Config) (sql : Sql) (now : ℚ) (store : Store) (run_id : Text) :
    (compute config sql now store run_id).spans = store.spans := by
  unfold compute
  split <;> rfl

theorem spans_foldl_compute (ids : List Text) (store : Store) :
    (ids.foldl (compute config sql now) store).spans = store.spans := by
  induction ids generalizing store with
  | nil => rfl
  | cons id ids ih => exact (ih _).trans (spans_compute config sql now store id)

/-- A round leaves the spans. -/
theorem spans_round (config : Config) (sql : Sql) (store : Store) (now : ℚ) :
    (round config sql store now).spans = store.spans := spans_foldl_compute _ _

/-- A summary is read off the spans alone. -/
theorem summarize_congr {store' : Store} (h : store'.spans = store.spans) (run_id : Text) (now : ℚ) :
    summarize config sql store' run_id now = summarize config sql store run_id now := by
  unfold summarize run_turn_spans spansOf
  rw [h]

/-- Computing the runs of a list leaves their summaries, where each has spans. -/
theorem foldl_compute (ids : List Text) (h : ∀ id ∈ ids, (summarize config sql store id now).isSome) {store' : Store}
    (hspans : store'.spans = store.spans) :
    ∀ k, Dict.get (ids.foldl (compute config sql now) store').summaries k =
      if k ∈ ids then summarize config sql store k now else Dict.get store'.summaries k := by
  induction ids generalizing store' with
  | nil => exact fun k => rfl
  | cons id ids ih =>
    rw [List.foldl_cons]
    obtain ⟨row, hrow⟩ := Option.isSome_iff_exists.1 (h id List.mem_cons_self)
    have hget := ih (fun id hid => h id (List.mem_cons_of_mem _ hid))
      ((spans_compute config sql now store' id).trans hspans)
    intro k
    have hcompute : (compute config sql now store' id).summaries = Dict.set store'.summaries id row := by
      unfold compute
      rw [summarize_congr hspans, hrow]
    rw [hget k, hcompute, Dict.get_set]
    by_cases hk : k ∈ ids
    · rw [if_pos hk, if_pos (List.mem_cons_of_mem _ hk)]
    · rw [if_neg hk]
      by_cases heq : id = k
      · rw [if_pos heq, if_pos (by rw [heq]; exact List.mem_cons_self), ← heq, hrow]
      · rw [if_neg heq, if_neg]
        rw [List.mem_cons, not_or]
        exact ⟨fun h => heq h.symm, hk⟩

/-- The runs that are returned are those that are wanted. -/
theorem mem_discover : run_id ∈ (discover config sql store now).1 ↔
    ∃ last_ts, (run_id, last_ts) ∈ _last_records store ∧ (look config sql store now run_id last_ts).isWanted := by
  unfold discover newestFirst
  simp only [List.mem_map, List.mem_insertionSort, List.mem_filter]
  constructor
  · rintro ⟨_, ⟨_, ⟨⟨run, hmem, rfl⟩, hwanted⟩, rfl⟩, rfl⟩
    exact ⟨run.2, hmem, hwanted⟩
  · rintro ⟨last_ts, hmem, hwanted⟩
    exact ⟨_, ⟨_, ⟨⟨_, hmem, rfl⟩, hwanted⟩, rfl⟩, rfl⟩

theorem last_unique {last_ts' : ℚ} (h : (run_id, last_ts) ∈ _last_records store)
    (h' : (run_id, last_ts') ∈ _last_records store) : last_ts' = last_ts :=
  congrArg Prod.snd (eq_of_key (nodup_last_records store) h' h rfl)

/-- **What a round leaves of a run**: the summary, if it was wanted, and otherwise what the look left. -/
theorem get_round (hsql : sql.Lawful) (h : (run_id, last_ts) ∈ _last_records store) :
    Dict.get (round config sql store now).summaries run_id =
      if (look config sql store now run_id last_ts).isWanted then summarize config sql store run_id now
      else (look config sql store now run_id last_ts).after (Dict.get store.summaries run_id) := by
  have hids : ∀ id ∈ (discover config sql store now).1, (summarize config sql store id now).isSome := by
    intro id hid
    obtain ⟨last_ts', hmem, -⟩ := mem_discover.1 hid
    obtain ⟨row, hrow, -⟩ := summarize_spec hsql hmem now
    rw [hrow]
    rfl
  have hstore : (discover config sql store now).2.spans = store.spans := rfl
  refine (foldl_compute _ hids hstore run_id).trans ?_
  by_cases hwanted : (look config sql store now run_id last_ts).isWanted = true
  · rw [if_pos hwanted, if_pos (mem_discover.2 ⟨last_ts, h, hwanted⟩)]
  · have hout : run_id ∉ (discover config sql store now).1 := by
      intro hmem
      obtain ⟨last_ts', h', hwanted'⟩ := mem_discover.1 hmem
      rw [last_unique h h'] at hwanted'
      exact hwanted hwanted'
    rw [if_neg hwanted, if_neg hout]
    unfold discover
    dsimp only
    refine get_foldl_apply _ ?_ store.summaries (List.mem_map.2 ⟨_, h, rfl⟩)
    rw [List.map_map]
    exact nodup_last_records store

/-! ## The parts of the claim -/

/-- After a round discovery finds nothing to do. -/
def Settles (config : Config) (sql : Sql) (store : Store) (now : ℚ) : Prop :=
  (discover config sql (round config sql store now) now).1 = []

/-- The index ends a run exactly if its summary does. -/
def EndsAlike (config : Config) (sql : Sql) (store : Store) (now : ℚ) : Prop :=
  ∀ run_id last_ts, (run_id, last_ts) ∈ _last_records store →
    (isEnded sql store run_id last_ts ↔
      ∃ row, summarize config sql store run_id now = some row ∧ row.ending ≠ "none".toList ∧ row.ended_ts.isSome)

/-- A run with records after its roots is not listed as ended after a round. A row that is up to date was
summarized from the present spans. -/
def NotKept (config : Config) (sql : Sql) (store : Store) (now : ℚ) : Prop :=
  ∀ run_id last_ts, (run_id, last_ts) ∈ _last_records store →
    (∀ a ∈ rootsOf store run_id, a.end_ts + ENDING_TOLERANCE_S < last_ts) →
    (∀ row, Dict.get store.summaries run_id = some row → isStale row last_ts = false →
      ∃ then_, summarize config sql store run_id then_ = some row) →
    ∀ row, Dict.get (round config sql store now).summaries run_id = some row →
      ¬ (row.ending ≠ "none".toList ∧ row.ended_ts.isSome)

/-- The roots of a run that end last and closed it agree on whether they are an ending. -/
def RootsAgree (store : Store) : Prop :=
  ∀ run_id last_ts, (run_id, last_ts) ∈ _last_records store →
    ∀ a b, IsLast (rootsOf store run_id) a → IsLast (rootsOf store run_id) b → _closed a.end_ts last_ts →
      (ending_of a.terminal false).isSome = (ending_of b.terminal false).isSome

/-! ### It settles -/

/-- A fresh summary is up to date. -/
theorem not_stale {row : Summary} (hstate : row.state = .ready) (hlast : row.last_ts = last_ts)
    (hread : row.resume_read = RESUME_READ) : isStale row last_ts = false := by
  unfold isStale
  rw [hstate, hlast, hread]
  simp

/-- Where a look changes nothing or takes a run out, the next look changes nothing. -/
theorem look_after (hwanted : (look config sql store now run_id last_ts).isWanted = false) {store' : Store}
    (hspans : store'.spans = store.spans)
    (hget : Dict.get store'.summaries run_id =
      (look config sql store now run_id last_ts).after (Dict.get store.summaries run_id)) :
    (look config sql store' now run_id last_ts).isWanted = false := by
  have hended : isEnded sql store' run_id last_ts = isEnded sql store run_id last_ts := by
    unfold isEnded rootOf _latest_roots
    rw [hspans]
  unfold look at *
  rw [hended]
  cases hrow : Dict.get store.summaries run_id with
  | none =>
    rw [hrow] at hwanted hget
    dsimp only at hwanted hget
    split at hwanted
    · cases hwanted
    · rename_i hlive
      rw [if_neg hlive] at hget
      have hnone : Dict.get store'.summaries run_id = none := hget
      rw [hnone]
      dsimp only
      rw [if_neg hlive]
      rfl
  | some row =>
    rw [hrow] at hwanted hget
    dsimp only at hwanted hget
    by_cases hstale : isStale row last_ts = true
    · rw [if_pos hstale] at hwanted hget
      by_cases hlive : (isEnded sql store run_id last_ts || _silent config last_ts now) = true
      · rw [if_pos hlive] at hwanted
        cases hwanted
      · rw [if_neg hlive] at hget
        -- the end of the row is gone, and it was stale for reasons that stay
        obtain ⟨row', hrow', hended', hstale'⟩ : ∃ row', Dict.get store'.summaries run_id = some row' ∧
            row'.ended_ts = none ∧ isStale row' last_ts = true := by
          by_cases hsome : row.ended_ts.isSome = true
          · rw [if_pos hsome] at hget
            exact ⟨_, hget, rfl, hstale⟩
          · rw [if_neg hsome] at hget
            exact ⟨row, hget, Option.not_isSome_iff_eq_none.1 hsome, hstale⟩
        rw [hrow']
        dsimp only
        rw [if_pos hstale', if_neg hlive, hended']
        rfl
    · rw [if_neg hstale] at hwanted hget
      by_cases hnew : row.ended_ts = none ∧ _silent config last_ts now = true
      · rw [if_pos hnew] at hwanted
        cases hwanted
      · rw [if_neg hnew] at hget
        have hsame : Dict.get store'.summaries run_id = some row := hget
        rw [hsame]
        dsimp only
        rw [if_neg hstale, if_neg hnew]
        rfl

/-- A run that was just summarized is not wanted. -/
theorem look_summarized (hsql : sql.Lawful) (h : (run_id, last_ts) ∈ _last_records store) {store' : Store}
    (hget : Dict.get store'.summaries run_id = summarize config sql store run_id now) :
    (look config sql store' now run_id last_ts).isWanted = false := by
  obtain ⟨row, hrow, hstate, hlast, hread, -, hsilent⟩ := summarize_spec hsql h now
  unfold look
  rw [hget, hrow]
  dsimp only
  rw [not_stale hstate hlast hread, if_neg Bool.false_ne_true, if_neg]
  · rfl
  · rintro ⟨hnone, hs⟩
    have hsome := hsilent hs
    rw [hnone] at hsome
    cases hsome

/-- **Discovery settles in one round**, whatever the store holds. -/
theorem settles (hsql : sql.Lawful) (config : Config) (store : Store) (now : ℚ) : Settles config sql store now := by
  refine List.eq_nil_iff_forall_not_mem.2 fun run_id hmem => ?_
  obtain ⟨last_ts, hrecord, hwanted⟩ := mem_discover.1 hmem
  have hspans := spans_round config sql store now
  have h : (run_id, last_ts) ∈ _last_records store := by
    unfold _last_records spansOf at hrecord ⊢
    rw [hspans] at hrecord
    exact hrecord
  have hget : Dict.get (round config sql store now).summaries run_id = _ := get_round hsql h
  by_cases hfirst : (look config sql store now run_id last_ts).isWanted = true
  · rw [if_pos hfirst] at hget
    rw [look_summarized hsql h hget] at hwanted
    cases hwanted
  · rw [if_neg hfirst] at hget
    rw [look_after (Bool.not_eq_true _ ▸ hfirst) hspans hget] at hwanted
    cases hwanted

/-! ### It agrees -/

theorem perm_roots (hsql : sql.Lawful) (hrun : run_id ≠ []) :
    ((run_turn_spans sql store run_id).filter fun span => "run:".toList.isPrefixOf span.name).Perm (rootsOf store run_id) := by
  unfold rootsOf
  simp only [root_eq]
  exact (perm_run_turn_spans hsql hrun).filter _

/-- A summary has an ending exactly if the root that `max` takes closed the run and is one. -/
theorem endingOf_isSome_iff (hsql : sql.Lawful) (hrun : run_id ≠ []) :
    (endingOf config (run_turn_spans sql store run_id) last_ts).isSome ↔
      ∃ b, root (run_turn_spans sql store run_id) = some b ∧ IsLast (rootsOf store run_id) b ∧
        _closed b.end_ts last_ts ∧ (ending_of b.terminal false).isSome := by
  unfold endingOf
  rcases latest_spec ((run_turn_spans sql store run_id).filter fun span => "run:".toList.isPrefixOf span.name) with
    ⟨-, hnone⟩ | ⟨b, hb, hlast⟩
  · have hroot : root (run_turn_spans sql store run_id) = none := hnone
    simp [hroot]
  · have hroot : root (run_turn_spans sql store run_id) = some b := hb
    rw [hroot, Option.bind_some]
    constructor
    · intro hsome
      split at hsome
      · rename_i hclosed
        rw [ending_of_isSome] at hsome
        exact ⟨b, rfl, hlast.of_perm (perm_roots hsql hrun), hclosed, hsome⟩
      · cases hsome
    · rintro ⟨_, heq, -, hclosed, hsome⟩
      cases heq
      rw [if_pos hclosed, ending_of_isSome]
      exact hsome

theorem isEnded_iff (hsql : sql.Lawful) (hrun : run_id ≠ []) :
    isEnded sql store run_id last_ts ↔
      ∃ a, rootOf sql store run_id = (a.end_ts, a.terminal) ∧ IsLast (rootsOf store run_id) a ∧
        _closed a.end_ts last_ts ∧ (ending_of a.terminal false).isSome := by
  unfold isEnded
  rcases rootOf_spec hsql hrun with ⟨hnil, heq⟩ | ⟨a, heq, hlast, -⟩
  · rw [heq]
    constructor
    · intro h
      have hclosed : _closed 0 last_ts = false := by simp [_closed]
      rw [hclosed] at h
      cases h
    · rintro ⟨a, -, hlast, -⟩
      rw [hnil] at hlast
      cases hlast.1
  · rw [heq, Bool.and_eq_true]
    constructor
    · rintro ⟨hclosed, hsome⟩
      exact ⟨a, rfl, hlast, hclosed, hsome⟩
    · rintro ⟨b, hb, -, hclosed, hsome⟩
      obtain ⟨hend, hterminal⟩ := Prod.mk.inj hb
      dsimp only
      rw [hend, hterminal]
      exact ⟨hclosed, hsome⟩

/-- A root that ends last is there for `max` as soon as one is. -/
theorem exists_root (hsql : sql.Lawful) (hrun : run_id ≠ []) (ha : IsLast (rootsOf store run_id) a) :
    ∃ b, root (run_turn_spans sql store run_id) = some b ∧ IsLast (rootsOf store run_id) b := by
  have hperm : List.Perm _ (rootsOf store run_id) := perm_roots hsql hrun
  rcases latest_spec ((run_turn_spans sql store run_id).filter fun span => "run:".toList.isPrefixOf span.name) with
    ⟨hnil, -⟩ | ⟨b, hb, hlast⟩
  · rw [hnil] at hperm
    have hmem := ha.1
    rw [List.nil_perm.1 hperm] at hmem
    cases hmem
  · exact ⟨b, hb, hlast.of_perm hperm⟩

theorem endsAlike_of_agree (hsql : sql.Lawful) (h : RootsAgree store) : EndsAlike config sql store now := by
  intro run_id last_ts hmem
  have hrun := (mem_last_records.1 hmem).1
  obtain ⟨row, hrow, -, -, -, hending, -⟩ := summarize_spec hsql hmem now
  have hiff : (∃ row, summarize config sql store run_id now = some row ∧ row.ending ≠ "none".toList ∧
      row.ended_ts.isSome) ↔ (endingOf config (run_turn_spans sql store run_id) last_ts).isSome := by
    rw [hending]
    constructor
    · rintro ⟨row', hrow', hne⟩
      rw [hrow] at hrow'
      cases hrow'
      exact hne
    · exact fun hne => ⟨row, hrow, hne⟩
  rw [hiff, endingOf_isSome_iff hsql hrun, isEnded_iff hsql hrun]
  constructor
  · rintro ⟨a, -, ha, hclosed, hsome⟩
    obtain ⟨b, hroot, hb⟩ := exists_root hsql hrun ha
    refine ⟨b, hroot, hb, ?_, ?_⟩
    · rw [hb.end_eq ha]
      exact hclosed
    · rw [← h run_id last_ts hmem a b ha hb hclosed]
      exact hsome
  · rintro ⟨b, -, hb, hclosed, hsome⟩
    rcases rootOf_spec hsql hrun with ⟨hnil, -⟩ | ⟨a, heq, ha, -⟩
    · have hmem := hb.1
      rw [hnil] at hmem
      cases hmem
    · refine ⟨a, heq, ha, ?_, ?_⟩
      · rw [ha.end_eq hb]
        exact hclosed
      · rw [← h run_id last_ts hmem b a hb ha hclosed]
        exact hsome

/-! ### None is kept -/

/-- Where records came after the roots, no summary of the present spans has an ending of its own. -/
theorem summarize_open (hsql : sql.Lawful) (h : (run_id, last_ts) ∈ _last_records store)
    (hroots : ∀ a ∈ rootsOf store run_id, a.end_ts + ENDING_TOLERANCE_S < last_ts) {row : Summary} {then_ : ℚ}
    (hrow : summarize config sql store run_id then_ = some row) :
    ¬ (row.ending ≠ "none".toList ∧ row.ended_ts.isSome) := by
  obtain ⟨row', hrow', -, -, -, hending, -⟩ := summarize_spec hsql h then_
  rw [hrow] at hrow'
  cases hrow'
  rw [← hending, endingOf_isSome_iff hsql (mem_last_records.1 h).1]
  rintro ⟨b, -, hb, hclosed, -⟩
  have hlate := hroots b hb.1
  unfold _closed at hclosed
  rw [decide_eq_true_eq] at hclosed
  exact absurd hlate (not_lt.2 hclosed.2)

theorem notKept (hsql : sql.Lawful) (config : Config) (store : Store) (now : ℚ) : NotKept config sql store now := by
  intro run_id last_ts h hroots hfresh row hrow
  rw [get_round hsql h] at hrow
  by_cases hwanted : (look config sql store now run_id last_ts).isWanted = true
  · rw [if_pos hwanted] at hrow
    exact summarize_open hsql h hroots hrow
  · rw [if_neg hwanted] at hrow
    unfold look at hrow hwanted
    cases hget : Dict.get store.summaries run_id with
    | none =>
      rw [hget] at hrow hwanted
      dsimp only at hrow hwanted
      split at hrow
      · rename_i hlive
        rw [if_pos hlive] at hwanted
        exact absurd rfl hwanted
      · cases hrow
    | some stored =>
      rw [hget] at hrow hwanted
      dsimp only at hrow hwanted
      by_cases hstale : isStale stored last_ts = true
      · rw [if_pos hstale] at hrow hwanted
        split at hrow
        · rename_i hlive
          rw [if_pos hlive] at hwanted
          exact absurd rfl hwanted
        · -- it was stale and nothing ended it: its end is gone
          rintro ⟨-, hsome⟩
          split at hrow
          · cases hrow
            cases hsome
          · rename_i hnone
            cases hrow
            exact hnone hsome
      · have hstored := hfresh stored hget (Bool.not_eq_true _ ▸ hstale)
        rw [if_neg hstale] at hrow hwanted
        split at hrow
        · rename_i hnew
          rw [if_pos hnew] at hwanted
          exact absurd rfl hwanted
        · cases hrow
          obtain ⟨then_, hthen⟩ := hstored
          exact summarize_open hsql h hroots hthen

/-! ### An order that disagrees -/

/-- The rows by their end, with `q` after its equals. -/
def Sql.before (q a b : Span) : Prop := a.end_ts < b.end_ts ∨ a.end_ts = b.end_ts ∧ (a = q → b = q)

instance Sql.decidableBefore (q : Span) : DecidableRel (Sql.before q) := fun a b =>
  inferInstanceAs (Decidable (a.end_ts < b.end_ts ∨ a.end_ts = b.end_ts ∧ (a = q → b = q)))

instance Sql.totalBefore (q : Span) : Std.Total (Sql.before q) where
  total a b := by
    unfold Sql.before
    rcases lt_trichotomy a.end_ts b.end_ts with h | h | h
    · exact .inl (.inl h)
    · by_cases hb : b = q
      · exact .inl (.inr ⟨h, fun _ => hb⟩)
      · exact .inr (.inr ⟨h.symm, fun heq => absurd heq hb⟩)
    · exact .inr (.inl h)

instance Sql.transBefore (q : Span) : IsTrans Span (Sql.before q) where
  trans a b c := by
    unfold Sql.before
    rintro (h1 | ⟨h1, h1'⟩) (h2 | ⟨h2, h2'⟩)
    · exact .inl (h1.trans h2)
    · exact .inl (h2 ▸ h1)
    · exact .inl (h1 ▸ h2)
    · exact .inr ⟨h1.trans h2, h2' ∘ h1'⟩

/-- An order of SQLite in which `q` comes after the rows that end with it. -/
def Sql.last (q : Span) : Sql where
  byEnd spans := spans.insertionSort (Sql.before q)
  byStart spans := spans.insertionSort fun a b => a.start_ts ≤ b.start_ts

theorem Sql.lawful_last (q : Span) : (Sql.last q).Lawful where
  end_perm := List.perm_insertionSort _
  end_sorted spans := (List.pairwise_insertionSort (Sql.before q) spans).imp fun h => by
    rcases h with h | ⟨h, -⟩
    · exact h.le
    · exact h.le
  start_perm := List.perm_insertionSort _
  start_sorted spans := by
    have : Std.Total fun a b : Span => a.start_ts ≤ b.start_ts := ⟨fun a b => le_total a.start_ts b.start_ts⟩
    have : IsTrans Span fun a b : Span => a.start_ts ≤ b.start_ts := ⟨fun _ _ _ h h' => le_trans h h'⟩
    exact List.pairwise_insertionSort _ spans

/-- There the index takes `q`. -/
theorem rootOf_last (hrun : run_id ≠ []) (ha : IsLast (rootsOf store run_id) a) :
    rootOf (Sql.last a) store run_id = (a.end_ts, a.terminal) := by
  rcases rootOf_spec (Sql.lawful_last a) hrun with ⟨hnil, -⟩ | ⟨b, heq, hb, hlast⟩
  · have hmem := ha.1
    rw [hnil] at hmem
    cases hmem
  · set rows := store.spans.filter fun span => span.run_id ≠ [] ∧ _ROOT span with hrows
    have hsorted : (((Sql.last a).byEnd rows).filter fun span => span.run_id = run_id).Pairwise (Sql.before a) :=
      (List.pairwise_insertionSort (Sql.before a) rows).filter _
    have hperm : (((Sql.last a).byEnd rows).filter fun span => span.run_id = run_id).Perm (rootsOf store run_id) := by
      rw [← rows_eq hrun store]
      exact (List.perm_insertionSort _ rows).filter _
    obtain ⟨front, hfront⟩ := List.getLast?_eq_some_iff.1 hlast
    rw [hfront] at hsorted hperm
    rcases List.mem_append.1 (hperm.mem_iff.2 ha.1) with hmem | hmem
    · -- a row after `a` that does not end later is `a`
      rcases (List.pairwise_append.1 hsorted).2.2 a hmem b (by simp) with hlt | ⟨-, himp⟩
      · exact absurd (hb.end_eq ha) (ne_of_gt hlt)
      · rw [heq, himp rfl]
    · rw [heq, List.mem_singleton.1 hmem]

theorem agree_of_endsAlike (config : Config) (now : ℚ) (h : ∀ sql : Sql, sql.Lawful → EndsAlike config sql store now) :
    RootsAgree store := by
  intro run_id last_ts hmem a b ha hb hclosed
  have hrun := (mem_last_records.1 hmem).1
  -- the summary reads the spans by their start, so it says the same of the two orders
  have hsame : summarize config (Sql.last a) store run_id now = summarize config (Sql.last b) store run_id now := rfl
  have hends := h _ (Sql.lawful_last a) run_id last_ts hmem
  have hends' := h _ (Sql.lawful_last b) run_id last_ts hmem
  rw [hsame] at hends
  have hiff := hends.trans hends'.symm
  unfold isEnded at hiff
  rw [rootOf_last hrun ha, rootOf_last hrun hb, hb.end_eq ha, hclosed, Bool.true_and, Bool.true_and] at hiff
  exact Bool.eq_iff_iff.2 hiff

/-- **Discovery and the summaries agree exactly if tied roots do.** Whatever order SQLite gives to rows with equal
keys, discovery settles in one round, the index ends the runs that their summaries end, and no run with records
after its roots is kept as ended: exactly if the roots of each run that end last and closed it agree on whether they
are an ending. -/
theorem discover_iff (config : Config) (store : Store) (now : ℚ) :
    (∀ sql : Sql, sql.Lawful → Settles config sql store now ∧ EndsAlike config sql store now ∧ NotKept config sql store now) ↔
      RootsAgree store := by
  constructor
  · intro h
    exact agree_of_endsAlike config now fun sql hsql => (h sql hsql).2.1
  · intro h sql hsql
    exact ⟨settles hsql config store now, endsAlike_of_agree hsql h, notKept hsql config store now⟩

/-- A run whose second root ends with the first, without an ending. -/
def tied : Store where
  spans := [⟨"r".toList, [], "run:book".toList, 0, 100, "terminal".toList⟩, ⟨"r".toList, [], "run:book".toList, 50, 100, []⟩]
  summaries := []

/-- The index may take the second of two roots that end together, while the summary takes the first. -/
theorem tied_disagree : ¬ ∀ sql : Sql, sql.Lawful →
    Settles ⟨900, []⟩ sql tied 100 ∧ EndsAlike ⟨900, []⟩ sql tied 100 ∧ NotKept ⟨900, []⟩ sql tied 100 := by
  intro h
  have hagree : RootsAgree tied := agree_of_endsAlike ⟨900, []⟩ 100 fun sql hsql => (h sql hsql).2.1
  have hmem : ("r".toList, (100 : ℚ)) ∈ _last_records tied := by with_unfolding_all decide
  have hfirst : IsLast (rootsOf tied "r".toList) tied.spans[0] := by
    unfold IsLast
    with_unfolding_all decide
  have hsecond : IsLast (rootsOf tied "r".toList) tied.spans[1] := by
    unfold IsLast
    with_unfolding_all decide
  have heq := hagree _ _ hmem _ _ hfirst hsecond (by with_unfolding_all decide)
  revert heq
  decide

end Stablemate.History
