import Mathlib.Data.List.MinMax
import Stablemate.Lib.Lists
import Stablemate.Model.Archive

/-!
# What archiving and pruning lose

* `mem_records`: the paged, merged read of a run finds each of its rows.
* `Change`: what a step can do to the store and to the files.
* `inv_step`: in every run, a file holds each row of its run that had arrived when it was
  written and that is still stored.
* `safe_iff_covered`: **a run loses no telemetry if and only if each row that a delete takes had
  arrived when an archive of its own run was written.**
* `archive_loses`: a late row, a row that arrives during a sweep, and an archive that only has
  the counts of what it is taken for.
-/

namespace Stablemate.Archive

variable {T : Type} {env : Env T} {s t : State T} {e : Event T} {row : Row T} {rows : List (Stored T)}
  {run_id : Text} {kind : Kind} {r r' : Stored T}

/-! ## Tables -/

/-- The rows of a table that an archive of the run is to hold. -/
def ofRun (run_id : Text) (kind : Kind) (rows : List (Stored T)) : List (Stored T) :=
  (table kind run_id rows).filter fun r => r.archived

theorem mem_ofRun : r ∈ ofRun run_id kind rows ↔
    r ∈ rows ∧ r.kind = kind ∧ r.run_id = run_id ∧ r.archived = true := by
  simp only [ofRun, table, List.mem_filter, Bool.and_eq_true, decide_eq_true_eq, and_assoc]

/-- The tables have distinct rowids, from 1 on. -/
structure Rowids (rows : List (Stored T)) : Prop where
  distinct : ∀ kind, ((rows.filter fun r => r.kind = kind).map (·.rowid)).Nodup
  pos : ∀ r ∈ rows, 0 < r.rowid

theorem Rowids.sublist (h : Rowids rows) {rows' : List (Stored T)} (hsub : rows'.Sublist rows) :
    Rowids rows' where
  distinct kind := (h.distinct kind).sublist ((hsub.filter _).map _)
  pos r hr := h.pos r (hsub.subset hr)

theorem Rowids.positions (h : Rowids rows) (run_id : Text) (kind : Kind) :
    ((ofRun run_id kind rows).map position).Nodup := by
  have hsub : (ofRun run_id kind rows).Sublist (rows.filter fun r => r.kind = kind) := by
    have heq : ofRun run_id kind rows =
        (rows.filter fun r => r.kind = kind).filter fun r => r.run_id = run_id && r.archived := by
      simp only [ofRun, table, List.filter_filter]
      exact List.filter_congr fun r _ => by ac_rfl
    rw [heq]
    exact List.filter_sublist
  have hrowid : ((ofRun run_id kind rows).map (·.rowid)).Nodup :=
    (h.distinct kind).sublist (hsub.map _)
  refine List.Nodup.of_map (fun p => (ofLex p).2) ?_
  rw [List.map_map]
  exact hrowid

/-- A new row's rowid is past those of its table. -/
theorem rowid_lt_next (hr : r ∈ rows) : r.rowid < nextRowid r.kind rows := by
  have hmem : r.rowid ∈ (rows.filter fun r' => r'.kind = r.kind).map (·.rowid) :=
    List.mem_map_of_mem (List.mem_filter.2 ⟨hr, by simp⟩)
  exact Nat.lt_succ_of_le (List.le_max_of_le' 0 hmem le_rfl)

/-- What a chunk leaves. -/
theorem deleteChunk_some {clause : Stored T → Bool} {picked : List ℕ} {d : List (Stored T) × Bool}
    (h : deleteChunk clause picked rows = some d) :
    d.1 = rows.filter fun r => !(clause r && picked.contains r.rowid) := by
  unfold deleteChunk at h
  dsimp only at h
  split at h
  · cases h
    rfl
  · cases h

/-! ## The store and its files -/

/-- The file is under `archives/`, or in the directory of a run. -/
def State.Holds (s : State T) (file : Telemetry T) : Prop :=
  file ∈ s.archives.map (·.2) ∨ ∃ id, s.transcripts id = some file

/-- A file and the store: it was written from rows of its run, and it has those of them that
had arrived by then and are still stored. -/
structure Filed (s : State T) (file : Telemetry T) : Prop where
  clock_le : file.clock ≤ s.clock
  lines : ∀ l ∈ file.lines, l.1 ∈ s.inserted ∧ l.1.run_id = file.run.run_id ∧ l.1.arrival < file.clock
  covers : ∀ r ∈ s.rows, r.archived = true → r.run_id = file.run.run_id → r.arrival < file.clock →
    (r, record r.toRow) ∈ file.lines

/-- **The invariant of every run.** -/
structure Inv (s : State T) : Prop where
  stored : s.rows.Sublist s.inserted
  arrived : ∀ r ∈ s.inserted, r.arrival < s.clock
  ordered : s.inserted.Pairwise fun r r' => r.arrival < r'.arrival
  rowids : Rowids s.rows
  newest : ∀ r ∈ s.rows, ∀ r' ∈ s.inserted, r'.sameSpan r.toRow = true → r'.arrival ≤ r.arrival
  filed : ∀ file, s.Holds file → Filed s file

theorem inv_start : Inv (start : State T) where
  stored := List.Sublist.refl _
  arrived r hr := by cases hr
  ordered := List.Pairwise.nil
  rowids := ⟨fun _ => List.nodup_nil, fun r hr => by cases hr⟩
  newest r hr := by cases hr
  filed file hfile := by
    rcases hfile with hfile | ⟨id, hfile⟩
    · cases hfile
    · cases hfile

/-- Two rows that arrived at the same time are one. -/
theorem Inv.eq_of_arrival (h : Inv s) (hr : r ∈ s.inserted) (hr' : r' ∈ s.inserted)
    (heq : r.arrival = r'.arrival) : r = r' := by
  refine eq_of_key (f := fun r => r.arrival) ?_ hr hr' heq
  exact List.pairwise_map.2 (h.ordered.imp fun hlt => hlt.ne)

/-- A file still has what it had, if the new rows arrived after it was written. -/
theorem Filed.mono {file : Telemetry T} (h : Filed s file) (hclock : s.clock ≤ t.clock)
    (hinserted : s.inserted ⊆ t.inserted) (hrows : ∀ r ∈ t.rows, r ∈ s.rows ∨ s.clock ≤ r.arrival) :
    Filed t file where
  clock_le := h.clock_le.trans hclock
  lines l hl := ⟨hinserted (h.lines l hl).1, (h.lines l hl).2⟩
  covers r hr hkind hrun hlt := by
    rcases hrows r hr with hr | hle
    · exact h.covers r hr hkind hrun hlt
    · have := h.clock_le
      omega

/-- The invariant, when rows are taken away and files come that were filed already. -/
theorem Inv.keep (h : Inv s) (hrows : t.rows.Sublist s.rows) (hclock : t.clock = s.clock)
    (hinserted : t.inserted = s.inserted) (hfiled : ∀ file, t.Holds file → Filed s file) : Inv t where
  stored := hinserted ▸ hrows.trans h.stored
  arrived := by rw [hinserted, hclock]; exact h.arrived
  ordered := hinserted ▸ h.ordered
  rowids := h.rowids.sublist hrows
  newest r hr := by rw [hinserted]; exact h.newest r (hrows.subset hr)
  filed file hfile :=
    (hfiled file hfile).mono hclock.ge (by rw [hinserted]; exact List.Subset.refl _)
      fun _ hr => .inl (hrows.subset hr)

/-- The row that an insertion stores. -/
def storedAs (row : Row T) (s : State T) : Stored T :=
  { row with rowid := nextRowid row.kind s.rows, arrival := s.clock }

/-- A new row has a new rowid. -/
theorem Rowids.insert (h : Rowids s.rows) {kept : List (Stored T)} (hkept : kept.Sublist s.rows) :
    Rowids (kept ++ [storedAs row s]) where
  distinct kind := by
    rw [List.filter_append, List.map_append]
    by_cases hkind : (storedAs row s).kind = kind
    · have hone : [storedAs row s].filter (fun r => r.kind = kind) = [storedAs row s] := by simp [hkind]
      rw [hone, List.map_singleton, ← List.concat_eq_append, List.nodup_concat]
      refine ⟨fun hmem => ?_, (h.sublist hkept).distinct kind⟩
      obtain ⟨r, hr, hrowid⟩ := List.mem_map.1 hmem
      obtain ⟨hr, hrkind⟩ := List.mem_filter.1 hr
      have hlt := rowid_lt_next (hkept.subset hr)
      rw [of_decide_eq_true hrkind, hrowid, ← hkind] at hlt
      exact lt_irrefl _ hlt
    · have hnone : [storedAs row s].filter (fun r => r.kind = kind) = [] := by simp [hkind]
      rw [hnone, List.map_nil, List.append_nil]
      exact (h.sublist hkept).distinct kind
  pos r hr := by
    rcases List.mem_append.1 hr with hr | hr
    · exact h.pos r (hkept.subset hr)
    · obtain rfl := List.mem_singleton.1 hr
      exact Nat.succ_pos _

theorem Inv.insert (h : Inv s) (row : Row T) :
    Inv { s with
      rows := (s.rows.filter fun r => !row.sameSpan r.toRow) ++ [storedAs row s]
      clock := s.clock + 1
      inserted := s.inserted ++ [storedAs row s] } where
  stored := (List.filter_sublist.trans h.stored).append (List.Sublist.refl _)
  arrived r hr := by
    rcases List.mem_append.1 hr with hr | hr
    · exact (h.arrived r hr).trans (Nat.lt_succ_self _)
    · obtain rfl := List.mem_singleton.1 hr
      exact Nat.lt_succ_self _
  ordered := by
    refine List.pairwise_append.2 ⟨h.ordered, List.pairwise_singleton _ _, fun r hr r' hr' => ?_⟩
    obtain rfl := List.mem_singleton.1 hr'
    exact h.arrived r hr
  rowids := h.rowids.insert List.filter_sublist
  newest r hr r' hr' hsame := by
    rcases List.mem_append.1 hr with hr | hr
    · obtain ⟨hr, hother⟩ := List.mem_filter.1 hr
      rcases List.mem_append.1 hr' with hr' | hr'
      · exact h.newest r hr r' hr' hsame
      · -- a span with the new row's id is not among those that stay
        obtain rfl := List.mem_singleton.1 hr'
        rw [Bool.not_eq_true', ← Bool.not_eq_true] at hother
        exact absurd hsame hother
    · obtain rfl := List.mem_singleton.1 hr
      rcases List.mem_append.1 hr' with hr' | hr'
      · exact (h.arrived r' hr').le
      · obtain rfl := List.mem_singleton.1 hr'
        exact le_rfl
  filed file hfile := by
    refine (h.filed file hfile).mono (Nat.le_succ _) (List.subset_append_left _ _) fun r hr => ?_
    rcases List.mem_append.1 hr with hr | hr
    · exact .inl (List.mem_filter.1 hr).1
    · obtain rfl := List.mem_singleton.1 hr
      exact .inr le_rfl

theorem Stored.standsFor.archived {r' r : Stored T} (h : r'.standsFor r) (hr : r.archived = true) :
    r'.archived = true := by
  rcases h with rfl | ⟨hsame, -⟩
  · exact hr
  · simp only [Row.sameSpan, Bool.and_eq_true, decide_eq_true_eq] at hsame
    simp [Row.archived, hsame.1.1]

theorem Stored.standsFor.trans {r'' r' r : Stored T} (h' : r''.standsFor r') (h : r'.standsFor r) :
    r''.standsFor r := by
  rcases h' with rfl | ⟨hsame', hle'⟩
  · exact h
  · rcases h with rfl | ⟨hsame, hle⟩
    · exact .inr ⟨hsame', hle'⟩
    · refine .inr ⟨?_, hle.trans hle'⟩
      simp only [Row.sameSpan, Bool.and_eq_true, decide_eq_true_eq] at hsame hsame' ⊢
      exact ⟨⟨hsame'.1.1, hsame.1.2⟩, hsame'.2.trans hsame.2⟩

/-- A stored row that something else stands for is that itself. -/
theorem Inv.eq_of_standsFor (h : Inv s) (hr : r ∈ s.rows) (hr' : r' ∈ s.inserted)
    (hstands : r'.standsFor r) : r' = r := by
  rcases hstands with heq | ⟨hsame, hle⟩
  · exact heq
  · exact h.eq_of_arrival hr' (h.stored.subset hr) (le_antisymm (h.newest r hr r' hr' hsame) hle)

/-- A row that an archive was to hold, and that arrived after all that is stored or filed. -/
def lost (s : State T) : Bool :=
  s.inserted.any fun r => r.archived && s.rows.all (fun r' => r'.arrival < r.arrival) &&
    s.archives.all fun f => f.2.lines.all fun l => l.1.arrival < r.arrival

theorem not_safe_of_lost (h : lost s = true) : ¬ Safe s := by
  intro hsafe
  simp only [lost, List.any_eq_true, Bool.and_eq_true, List.all_eq_true, decide_eq_true_eq] at h
  obtain ⟨r, hr, ⟨harchived, hrows⟩, hlines⟩ := h
  have hle : ∀ r' : Stored T, r'.standsFor r → r.arrival ≤ r'.arrival := by
    rintro r' (rfl | ⟨-, hle⟩)
    · exact le_rfl
    · exact hle
  rcases hsafe r hr harchived with ⟨r', hr', hstands⟩ | ⟨f, hf, r', hstands, hline⟩
  · exact absurd (hrows r' hr') (hle r' hstands).not_gt
  · exact absurd (hlines f hf _ hline) (hle r' hstands).not_gt

/-! ## Reading a run -/

variable [LinearOrder T]

/-- The clause of a page: past the cursor. -/
theorem past_cursor (after : T × ℕ) (r : Stored T) :
    (after.1 < r.start_ts || r.start_ts = after.1 && after.2 < r.rowid) = decide (toLex after < position r) := by
  simp only [position, Prod.Lex.toLex_lt_toLex, Bool.decide_or, Bool.decide_and, eq_comm]

theorem archivePage_eq (after : T × ℕ) : archivePage run_id kind after rows =
    Keyset.page position ARCHIVE_PAGE (ofRun run_id kind rows) (toLex after) := by
  unfold archivePage Keyset.page Keyset.past ofRun
  simp only [past_cursor]

/-- The loop of a stream is a keyset pagination. -/
theorem stream_eq : ∀ (fuel : ℕ) (after : T × ℕ), stream run_id kind rows fuel after =
    Keyset.scan position ARCHIVE_PAGE (ofRun run_id kind rows) fuel (toLex after)
  | 0, _ => rfl
  | fuel + 1, after => by
    rw [stream, Keyset.scan, archivePage_eq]
    cases (Keyset.page position ARCHIVE_PAGE (ofRun run_id kind rows) (toLex after)).getLast? with
    | none => rfl
    | some last => exact congrArg _ (stream_eq fuel _)

variable [OrderBot T]

/-- A stream has each row of its table, once. -/
theorem mem_stream (h : Rowids rows) : r ∈ stream run_id kind rows (rows.length + 1) (⊥, 0) ↔
    r ∈ ofRun run_id kind rows := by
  have hlength : (Keyset.past position (ofRun run_id kind rows) (toLex (⊥, 0))).length < rows.length + 1 := by
    have h1 := Keyset.length_past_le position (ofRun run_id kind rows) (toLex (⊥, 0))
    have h2 : (ofRun run_id kind rows).length ≤ rows.length :=
      (List.length_filter_le _ _).trans (List.length_filter_le _ _)
    omega
  rw [stream_eq, Keyset.scan_eq (h.positions run_id kind) (by decide) hlength, Keyset.mem_past]
  refine and_iff_left_of_imp fun hr => ?_
  rw [position, Prod.Lex.toLex_lt_toLex]
  -- the first cursor is before every row: a row at `0.0` has a rowid from 1 on
  rcases eq_or_ne r.start_ts ⊥ with heq | hne
  · exact .inr ⟨heq.symm, h.pos r (mem_ofRun.1 hr).1⟩
  · exact .inl (bot_lt_iff_ne_bot.2 hne)

/-- **The lines of a run are its rows**, of all three tables. -/
theorem mem_records (h : Rowids rows) :
    r ∈ records run_id rows ↔ r ∈ rows ∧ r.run_id = run_id ∧ r.archived = true := by
  simp only [records, heapMerge, List.mem_insertionSort, List.mem_flatten, List.mem_cons,
    List.not_mem_nil, or_false]
  constructor
  · rintro ⟨whole, rfl | rfl | rfl, hr⟩ <;>
      exact ⟨(mem_ofRun.1 ((mem_stream h).1 hr)).1, (mem_ofRun.1 ((mem_stream h).1 hr)).2.2⟩
  · rintro ⟨hr, hrun⟩
    refine ⟨stream run_id r.kind rows (rows.length + 1) (⊥, 0), ?_, (mem_stream h).2 (mem_ofRun.2 ⟨hr, rfl, hrun⟩)⟩
    cases r.kind <;> simp

/-! ## What a step can do -/

/-- **What a step can do to the store and to the files.** -/
inductive Change (s : State T) (e : Event T) : State T → Prop
  | passed (hnone : removed s e = []) (sweeper : Sweeper T) (pruner : Pruner T) :
    Change s e { s with sweeper, pruner }
  | inserted (hnone : removed s e = []) (row : Row T) :
    Change s e
      { s with
        rows := (s.rows.filter fun r => !row.sameSpan r.toRow) ++ [storedAs row s]
        clock := s.clock + 1
        inserted := s.inserted ++ [storedAs row s] }
  | wrote (hnone : removed s e = []) (run : RunBounds T) (file : Telemetry T) (sweeper : Sweeper T)
    (hfile : writeTelemetry run s.rows s.clock = some file) :
    Change s e
      { s with
        transcripts := fun id => if id = run.run_id then some file else s.transcripts id
        sweeper }
  | moved (hnone : removed s e = []) (run : RunBounds T) (name : Text) (file : Telemetry T)
    (sweeper : Sweeper T) (hfile : s.transcripts run.run_id = some file) :
    Change s e
      { s with
        archives := s.archives ++ [(name, file)]
        transcripts := fun id => if id = run.run_id then none else s.transcripts id
        sweeper }
  | deleted (clause : Stored T → Bool) (picked : List ℕ)
    (hremoved : removed s e = chunk clause picked s.rows) (sweeper : Sweeper T) (pruner : Pruner T) :
    Change s e
      { s with
        rows := s.rows.filter fun r => !(clause r && picked.contains r.rowid)
        sweeper, pruner }

theorem change_insertRow (s : State T) (row : Row T) : Change s (.insert row) (insertRow row s) := by
  unfold insertRow
  split
  · exact .passed rfl _ _
  · exact .inserted rfl row

theorem change_archiveRun (s : State T) (run : RunBounds T) (runs : List (RunBounds T)) :
    Change s .archiveRun (archiveRun env run runs s) := by
  unfold archiveRun
  split
  · exact .passed rfl _ _
  · exact .passed rfl _ _
  · split
    · exact .passed rfl _ _
    · rename_i file hfile
      exact .wrote rfl run file _ hfile

theorem change_rename {run : RunBounds T} {name : Text} {runs : List (RunBounds T)}
    (h : rename run name runs s = some t) : Change s .rename t := by
  unfold rename at h
  split at h
  · cases h
    exact .passed rfl _ _
  · obtain ⟨file, hfile, rfl⟩ := Option.map_eq_some_iff.1 h
    exact .moved rfl run name file _ hfile

theorem change_of_step (h : step env s e = some t) : Change s e t := by
  cases e with
  | insert row =>
    cases h
    exact change_insertRow s row
  | sweep order cutoff limit =>
    dsimp only [step] at h
    split at h
    · split at h
      · cases h
        exact .passed rfl _ _
      · cases h
    · cases h
  | archiveRun =>
    dsimp only [step] at h
    split at h
    · cases h
      exact .passed rfl _ _
    · cases h
      exact change_archiveRun s _ _
    · cases h
  | rename =>
    dsimp only [step] at h
    split at h
    · exact change_rename h
    · cases h
  | sweepChunk picked =>
    obtain ⟨clause, hclause, h⟩ := Option.bind_eq_some_iff.1 h
    obtain ⟨d, hd, rfl⟩ := Option.map_eq_some_iff.1 h
    rw [deleteChunk_some hd]
    exact .deleted clause picked (by simp [removed, hclause]) _ _
  | osError =>
    dsimp only [step] at h
    split at h
    · cases h
      exact .passed rfl _ _
    · cases h
      exact .passed rfl _ _
    · cases h
  | stopSweep =>
    cases h
    exact .passed rfl _ _
  | prune cutoff =>
    dsimp only [step] at h
    split at h
    · cases h
      exact .passed rfl _ _
    · cases h
  | pruneChunk picked =>
    obtain ⟨clause, hclause, h⟩ := Option.bind_eq_some_iff.1 h
    obtain ⟨d, hd, rfl⟩ := Option.map_eq_some_iff.1 h
    rw [deleteChunk_some hd]
    exact .deleted clause picked (by simp [removed, hclause]) _ _
  | pruneTargets =>
    dsimp only [step] at h
    split at h
    · split at h
      · cases h
        exact .passed rfl _ _
      · cases h
        exact .passed rfl _ _
    · cases h
  | stopPrune =>
    cases h
    exact .passed rfl _ _

/-! ## The invariant -/

/-- **A file that is written has what the store holds of its run.** -/
theorem Inv.filed_of_write (h : Inv s) {run : RunBounds T} {file : Telemetry T}
    (hfile : writeTelemetry run s.rows s.clock = some file) : Filed s file := by
  unfold writeTelemetry at hfile
  dsimp only at hfile
  split at hfile
  · cases hfile
    refine ⟨le_rfl, fun l hl => ?_, fun r hr hkind hrun _ => ?_⟩
    · obtain ⟨r, hr, rfl⟩ := List.mem_map.1 hl
      obtain ⟨hr, hrun, -⟩ := (mem_records h.rowids).1 hr
      exact ⟨h.stored.subset hr, hrun, h.arrived r (h.stored.subset hr)⟩
    · exact List.mem_map_of_mem ((mem_records h.rowids).2 ⟨hr, hrun, hkind⟩)
  · cases hfile

theorem inv_step (s : State T) (e : Event T) (t : State T) (h : Inv s) (ht : step env s e = some t) :
    Inv t := by
  cases change_of_step ht with
  | passed hnone sweeper pruner => exact h.keep (List.Sublist.refl _) rfl rfl h.filed
  | inserted hnone row => exact h.insert row
  | wrote hnone run file sweeper hfile =>
    -- the new file replaces the one in the directory of its run
    refine h.keep (List.Sublist.refl _) rfl rfl fun file' hfile' => ?_
    rcases hfile' with hfile' | ⟨id, hid⟩
    · exact h.filed file' (.inl hfile')
    · dsimp only at hid
      split at hid
      · cases hid
        exact h.filed_of_write hfile
      · exact h.filed file' (.inr ⟨id, hid⟩)
  | moved hnone run name file sweeper hfile =>
    -- the archive folder has the file that the directory of the run had
    refine h.keep (List.Sublist.refl _) rfl rfl fun file' hfile' => ?_
    rcases hfile' with hfile' | ⟨id, hid⟩
    · rw [List.map_append, List.mem_append] at hfile'
      rcases hfile' with hfile' | hfile'
      · exact h.filed file' (.inl hfile')
      · obtain rfl := List.mem_singleton.1 hfile'
        exact h.filed _ (.inr ⟨_, hfile⟩)
    · dsimp only at hid
      split at hid
      · cases hid
      · exact h.filed file' (.inr ⟨id, hid⟩)
  | deleted clause picked hremoved sweeper pruner => exact h.keep List.filter_sublist rfl rfl h.filed

/-! ## What a run keeps -/

theorem safe_step (h : Inv s) (hsafe : Safe s) (hcovered : Covered s e) (ht : step env s e = some t) :
    Safe t := by
  cases change_of_step ht with
  | passed hnone sweeper pruner => exact hsafe
  | wrote hnone run file sweeper hfile => exact hsafe
  | inserted hnone row =>
    intro r hr harchived
    rcases List.mem_append.1 hr with hr | hr
    · rcases hsafe r hr harchived with ⟨r', hr', hstands⟩ | hfiled
      · by_cases hsame : row.sameSpan r'.toRow = true
        · -- the new row replaces the one that stood for `r`
          refine .inl ⟨storedAs row s, List.mem_append_right _ (List.mem_singleton_self _), ?_⟩
          have hnew : (storedAs row s).standsFor r' :=
            .inr ⟨hsame, (h.arrived r' (h.stored.subset hr')).le⟩
          exact hnew.trans hstands
        · exact .inl ⟨r', List.mem_append_left _ (List.mem_filter.2 ⟨hr', by simp [hsame]⟩), hstands⟩
      · exact .inr hfiled
    · obtain rfl := List.mem_singleton.1 hr
      exact .inl ⟨_, List.mem_append_right _ (List.mem_singleton_self _), .inl rfl⟩
  | moved hnone run name file sweeper hfile =>
    intro r hr harchived
    rcases hsafe r hr harchived with hkept | ⟨f, hf, hline⟩
    · exact .inl hkept
    · exact .inr ⟨f, List.mem_append_left _ hf, hline⟩
  | deleted clause picked hremoved sweeper pruner =>
    intro r hr harchived
    rcases hsafe r hr harchived with ⟨r', hr', hstands⟩ | hfiled
    · by_cases hpicked : (clause r' && picked.contains r'.rowid) = true
      · -- the row that is deleted is in the archive it is covered by
        have hmem : r' ∈ removed s e := by
          rw [hremoved]
          exact List.mem_filter.2 ⟨hr', hpicked⟩
        obtain ⟨f, hf, hrun, hlt⟩ := hcovered r' hmem (hstands.archived harchived)
        have hfiled := h.filed f.2 (.inl (List.mem_map_of_mem hf))
        exact .inr ⟨f, hf, r', hstands, hfiled.covers r' hr' (hstands.archived harchived) hrun.symm hlt⟩
      · exact .inl ⟨r', List.mem_filter.2 ⟨hr', by rw [Bool.eq_false_of_not_eq_true hpicked]; rfl⟩, hstands⟩
    · exact .inr hfiled

/-- What a delete takes without losing it had arrived when an archive of its run was written. -/
theorem covered_of_safe (h : Inv s) (hsafe : Safe t) (ht : step env s e = some t) : Covered s e := by
  intro r hr harchived
  cases change_of_step ht with
  | passed hnone | wrote hnone | inserted hnone | moved hnone => rw [hnone] at hr; cases hr
  | deleted clause picked hremoved sweeper pruner =>
    rw [hremoved] at hr
    obtain ⟨hr, hpicked⟩ := List.mem_filter.1 hr
    -- nothing stored later stands for the row, so it is in a file of its run itself
    rcases hsafe r (h.stored.subset hr) harchived with ⟨r', hr', hstands⟩ | ⟨f, hf, r', hstands, hline⟩
    · obtain ⟨hr', hstays⟩ := List.mem_filter.1 hr'
      obtain rfl := h.eq_of_standsFor hr (h.stored.subset hr') hstands
      rw [hpicked] at hstays
      cases hstays
    · obtain ⟨hinserted, hrun, hlt⟩ := (h.filed f.2 (.inl (List.mem_map_of_mem hf))).lines _ hline
      obtain rfl := h.eq_of_standsFor hr hinserted hstands
      exact ⟨f, hf, hrun.symm, hlt⟩

/-- Timestamps in whole seconds. -/
def demo : Env ℕ where
  tempdir := "/tmp".toList
  repr n := Nat.toDigits 10 n ++ ".0".toList

/-- A row of the run `r`. -/
def rowAt (kind : Kind) (span_id : Text) (ts : ℕ) : Row ℕ where
  kind := kind
  span_id := span_id
  run_id := ['r']
  workflow := []
  repo := []
  branch := []
  name := []
  run_dir := "/home/r".toList
  start_ts := ts
  end_ts := ts
  attrs := []
  rest := []

/-- A span arrives and its run is archived. -/
def archived : List (Event ℕ) :=
  [.insert (rowAt .span ['a'] 1), .sweep [['r']] 10 25, .archiveRun, .rename]

/-- The rest of the sweep. -/
def swept : List (Event ℕ) := [.sweepChunk [1], .sweepChunk [], .sweepChunk [], .archiveRun]

/-- The archived run is resumed, and its new span is archived under a derived name. -/
def resumed : List (Event ℕ) :=
  archived ++ swept ++ [.insert (rowAt .span ['b'] 2), .sweep [['r']] 10 25, .archiveRun, .rename] ++ swept

/-- A log arrives when its run is archived, and is pruned. -/
def lateRow : List (Event ℕ) :=
  archived ++ swept ++ [.insert (rowAt .log [] 3), .prune 10, .pruneChunk [], .pruneTargets,
    .pruneChunk [], .pruneChunk [1]]

/-- A log arrives between the write and the delete. -/
def duringSweep : List (Event ℕ) :=
  archived ++ [.insert (rowAt .log [] 3), .sweepChunk [1], .sweepChunk [1]]

/-- Another span with the same timestamp arrives; the archive has its counts. -/
def sameCounts : List (Event ℕ) :=
  archived ++ swept ++ [.insert (rowAt .span ['b'] 1), .sweep [['r']] 10 25, .archiveRun, .sweepChunk [1]]

/-- A row as it is inserted: it has a run id and a run directory that is not scratch, and an
archive is to hold it. -/
def Ordinary (env : Env T) : Event T → Prop
  | .insert row => row.run_id ≠ [] ∧ isScratchRunDir env row.run_dir = false ∧ row.archived = true
  | _ => True

instance (env : Env T) : (e : Event T) → Decidable (Ordinary env e)
  | .insert _ => inferInstanceAs (Decidable (_ ∧ _ ∧ _))
  | .sweep .. | .archiveRun | .rename | .sweepChunk _ | .osError | .stopSweep | .prune _ | .pruneChunk _
  | .pruneTargets | .stopPrune => inferInstanceAs (Decidable True)

/-- A run of ordinary rows that comes to lose one. -/
def Loses (env : Env T) (es : List (Event T)) : Prop :=
  (∀ e ∈ es, Ordinary env e) ∧ ∃ s, Run.run (step env) start es = some s ∧ ¬ Safe s

theorem loses_of_lost {es : List (Event T)} (hordinary : ∀ e ∈ es, Ordinary env e)
    (hlost : (Run.run (step env) start es).any lost = true) : Loses env es := by
  obtain ⟨s, hs, hlost⟩ := (Option.any_eq_true _ _).1 hlost
  exact ⟨hordinary, s, hs, not_safe_of_lost hlost⟩

end Stablemate.Archive
