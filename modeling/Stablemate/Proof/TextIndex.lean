import Stablemate.Lib.Lists
import Stablemate.Model.TextIndex

/-!
# A refreshed index is a rebuilt one

* `rels_nodup`: no two documents go under one name.
* `refresh_made`: what a refresh leaves in both tables, when the rows it passes over are the ones it would make.
* `Steady`: the pages whose stamp or digest is that of the last refresh are what they were then.
* `refresh_rebuilds`: in a run whose refreshes all meet that, each of them leaves what a rebuild would.
* `linked_stale`: a new link to a page that stays as it is.
-/

namespace Stablemate.TextIndex

variable {env : Env} {disk old : Disk} {tables : Tables} {item : Text × Path}

/-! ## Names of documents -/

/-- The name of a document in the index. -/
def rel (disk : Disk) (item : Text × Path) : Text := (_locate disk item.2).2

theorem look_nodup {state : List Path × List (Text × Path)} {key : Text} {path : Path}
    (h : (state.2.map fun item => disk.resolve item.2).Nodup) (hseen : ∀ item ∈ state.2, disk.resolve item.2 ∈ state.1) :
    ((documents.look disk key state path).2.map fun item => disk.resolve item.2).Nodup ∧
      ∀ item ∈ (documents.look disk key state path).2, disk.resolve item.2 ∈ (documents.look disk key state path).1 := by
  unfold documents.look
  split
  · exact ⟨h, hseen⟩
  · rename_i hnew
    have hreal : disk.resolve path ∉ state.1 := fun hmem => hnew (.inl hmem)
    refine ⟨?_, fun item hitem => ?_⟩
    · rw [List.map_append, List.nodup_append]
      refine ⟨h, List.nodup_singleton _, fun a ha b hb => ?_⟩
      obtain ⟨item, hitem, rfl⟩ := List.mem_map.1 ha
      obtain rfl := List.mem_singleton.1 hb
      intro heq
      have hmem := hseen item hitem
      rw [heq] at hmem
      exact hreal hmem
    · rcases List.mem_append.1 hitem with hitem | hitem
      · exact List.mem_cons_of_mem _ (hseen item hitem)
      · obtain rfl := List.mem_singleton.1 hitem
        exact List.mem_cons_self

/-- **Each file is listed once.** -/
theorem documents_nodup (disk : Disk) : ((documents disk).map fun item => disk.resolve item.2).Nodup := by
  have hfiles : ∀ (key : Text) (paths : List Path) (state : List Path × List (Text × Path)),
      (state.2.map fun item => disk.resolve item.2).Nodup ∧ (∀ item ∈ state.2, disk.resolve item.2 ∈ state.1) →
      ((paths.foldl (documents.look disk key) state).2.map fun item => disk.resolve item.2).Nodup ∧
        ∀ item ∈ (paths.foldl (documents.look disk key) state).2,
          disk.resolve item.2 ∈ (paths.foldl (documents.look disk key) state).1 := by
    intro key paths
    induction paths with
    | nil => exact fun state h => h
    | cons path paths ih => exact fun state h => ih _ (look_nodup h.1 h.2)
  have hroots : ∀ (roots : List (Text × Path)) (state : List Path × List (Text × Path)),
      (state.2.map fun item => disk.resolve item.2).Nodup ∧ (∀ item ∈ state.2, disk.resolve item.2 ∈ state.1) →
      ((roots.foldl (documents.under disk) state).2.map fun item => disk.resolve item.2).Nodup := by
    intro roots
    induction roots with
    | nil => exact fun state h => h.1
    | cons root roots ih =>
      intro state h
      refine ih _ ?_
      unfold documents.under
      split
      · exact hfiles _ _ _ h
      · exact h
  exact hroots _ _ ⟨List.nodup_nil, fun item hitem => absurd hitem List.not_mem_nil⟩

/-- A text in which names stand between slashes says which names they are. -/
theorem intercalate_inj {l l' : List Text} (hl : ∀ part ∈ l, part ≠ [] ∧ '/' ∉ part)
    (hl' : ∀ part ∈ l', part ≠ [] ∧ '/' ∉ part)
    (h : ['/'].intercalate l = ['/'].intercalate l') : l = l' := by
  have hnil : ∀ l : List Text, (∀ part ∈ l, part ≠ [] ∧ '/' ∉ part) → ['/'].intercalate l = [] → l = [] := by
    intro l hl hnil
    cases l with
    | nil => rfl
    | cons part l =>
      refine absurd ?_ (hl part List.mem_cons_self).1
      cases l with
      | nil => simpa [List.intercalate] using hnil
      | cons _ _ => simp [List.intercalate] at hnil
  by_cases hempty : l = []
  · subst hempty
    exact (hnil l' hl' h.symm).symm
  · have hempty' : l' ≠ [] := fun heq => hempty (hnil l hl (by rw [h, heq]; rfl))
    rw [← List.splitOn_intercalate '/' (fun part hpart => (hl part hpart).2) hempty, h,
      List.splitOn_intercalate '/' (fun part hpart => (hl' part hpart).2) hempty']

/-- No path below the repository starts with a slash. -/
theorem head_intercalate {l : List Text} (hl : ∀ part ∈ l, part ≠ [] ∧ '/' ∉ part) :
    (['/'].intercalate l).head? ≠ some '/' := by
  cases l with
  | nil => exact fun h => absurd h (by simp)
  | cons part l =>
    obtain ⟨hne, hslash⟩ := hl part List.mem_cons_self
    obtain ⟨c, cs, rfl⟩ := List.exists_cons_of_ne_nil hne
    intro h
    have hc : (['/'].intercalate ((c :: cs) :: l)).head? = some c := by
      cases l with
      | nil => simp [List.intercalate]
      | cons _ _ => simp [List.intercalate]
    rw [hc] at h
    exact hslash (Option.some.inj h ▸ List.mem_cons_self)

theorem relOf_inj {p q : Path} (h : relOf disk p = relOf disk q) : disk.resolve p = disk.resolve q := by
  have hparts : (disk.resolve p).parts = (disk.resolve q).parts := by
    have hdrop : ∀ p : Path, ∀ part ∈ p.parts.drop disk.root.parts.length, part ≠ [] ∧ '/' ∉ part := fun p part hpart =>
      p.plain part (List.mem_of_mem_drop hpart)
    unfold relOf at h
    dsimp only at h
    split at h
    · rename_i hp
      split at h
      · rename_i hq
        have hrest := intercalate_inj (hdrop _) (hdrop _) h
        rw [← List.prefix_iff_eq_append.1 hp, ← List.prefix_iff_eq_append.1 hq, hrest]
      · exact absurd (h ▸ rfl) (head_intercalate (hdrop (disk.resolve p)))
    · split at h
      · exact absurd (h ▸ rfl) (head_intercalate (hdrop (disk.resolve q)))
      · exact intercalate_inj (disk.resolve p).plain (disk.resolve q).plain (List.cons.inj h).2
  cases hp : disk.resolve p with
  | mk parts _ =>
    cases hq : disk.resolve q with
    | mk parts' _ =>
      rw [hp, hq] at hparts
      obtain rfl : parts = parts' := hparts
      rfl

/-- **No two documents go under one name.** -/
theorem rels_nodup (disk : Disk) : ((documents disk).map (rel disk)).Nodup := by
  have hreal := List.pairwise_map.1 (documents_nodup disk)
  exact List.pairwise_map.2 (hreal.imp fun hne heq => hne (relOf_inj heq))

/-! ## What a refresh leaves -/

/-- The row of `files` that a document has. -/
def fileOf (env : Env) (disk : Disk) (item : Text × Path) : FileRow :=
  ⟨rel disk item, env.content_sha (disk.read_bytes item.2), disk.stat item.2⟩

/-- The rows of `sections` that a path has. -/
def Tables.rowsAt (tables : Tables) (path : Text) : List Row := tables.sections.filter fun row => row.path = path

def Tables.fileAt (tables : Tables) (path : Text) : Option FileRow := Keyed.get FileRow.path tables.files path

/-- The tables hold what these documents give, and nothing else. -/
structure Made (env : Env) (disk : Disk) (items : List (Text × Path)) (tables : Tables) : Prop where
  keys : (tables.files.map FileRow.path).Nodup
  file : ∀ item ∈ items, tables.fileAt (rel disk item) = some (fileOf env disk item)
  rows : ∀ item ∈ items, rowsOf env disk item = some (tables.rowsAt (rel disk item))
  others : ∀ path ∉ items.map (rel disk), tables.fileAt path = none ∧ tables.rowsAt path = []

/-- A document that is passed over, or stamped again, has the rows and the digest that it would get. -/
structure Ready (env : Env) (disk : Disk) (tables : Tables) (item : Text × Path) : Prop where
  fresh : tables.fileAt (rel disk item) = none → tables.rowsAt (rel disk item) = []
  passed : ∀ row, tables.fileAt (rel disk item) = some row →
    row.stamp = disk.stat item.2 ∨ row.sha = env.content_sha (disk.read_bytes item.2) →
    row.sha = env.content_sha (disk.read_bytes item.2) ∧ rowsOf env disk item = some (tables.rowsAt (rel disk item))

theorem eq_of_mem_ite {α : Type*} {c : Prop} [Decidable c] {a x : α} (h : x ∈ if c then [a] else []) : x = a := by
  split at h
  · exact List.mem_singleton.1 h
  · exact absurd h List.not_mem_nil

theorem rows_path {key folder path : Text} {doc : Doc} : ∀ row ∈ rows_for key folder path doc, row.path = path := by
  intro row hrow
  unfold rows_for at hrow
  rcases List.mem_append.1 hrow with hrow | hrow
  · rw [eq_of_mem_ite hrow]
  · obtain ⟨item, -, rfl⟩ := List.mem_map.1 hrow
    rfl

theorem rowsOf_path {rows : List Row} (h : rowsOf env disk item = some rows) : ∀ row ∈ rows, row.path = rel disk item := by
  obtain ⟨doc, -, rfl⟩ := Option.map_eq_some_iff.1 h
  exact rows_path

section Step

variable {path : Text} {row : FileRow} {rows : List Row} {known : Bool}

theorem fileAt_reindex (tables : Tables) (known : Bool) (row : FileRow) (rows : List Row) (path : Text) :
    (tables.reindex known row rows).fileAt path = if row.path = path then some row else tables.fileAt path :=
  Keyed.get_upsert tables.files row path

theorem rowsAt_reindex (hrows : ∀ r ∈ rows, r.path = row.path) (hnone : known = false → tables.rowsAt row.path = [])
    (path : Text) :
    (tables.reindex known row rows).rowsAt path = if row.path = path then rows else tables.rowsAt path := by
  have hkept : (if known then tables.sections.filter fun r => r.path ≠ row.path else tables.sections).filter
      (fun r => r.path = path) = if row.path = path then [] else tables.rowsAt path := by
    by_cases heq : row.path = path
    · rw [if_pos heq, ← heq]
      cases known with
      | true =>
        rw [if_pos rfl, List.filter_filter]
        refine List.filter_eq_nil_iff.2 fun r _ => ?_
        simp
      | false => exact hnone rfl
    · rw [if_neg heq]
      cases known with
      | true =>
        rw [if_pos rfl, List.filter_filter]
        refine List.filter_congr fun r _ => ?_
        by_cases hr : r.path = path
        · have hne : path ≠ row.path := fun h => heq h.symm
          simp [hr, hne]
        · simp [hr]
      | false => rfl
  unfold Tables.rowsAt Tables.reindex
  dsimp only
  rw [List.filter_append, hkept]
  by_cases heq : row.path = path
  · have hnew : rows.filter (fun r => r.path = path) = rows :=
      List.filter_eq_self.2 fun r hr => decide_eq_true ((hrows r hr).trans heq)
    rw [if_pos heq, if_pos heq, hnew, List.nil_append]
  · have hnew : rows.filter (fun r => r.path = path) = [] :=
      List.filter_eq_nil_iff.2 fun r hr => by simpa [hrows r hr] using heq
    rw [if_neg heq, if_neg heq, hnew, List.append_nil]
    rfl

theorem fileAt_restamp (tables : Tables) (rel' : Text) (stamp : ℕ × ℕ) (path : Text) :
    (tables.restamp rel' stamp).fileAt path =
      (tables.fileAt path).map fun row => if row.path = rel' then { row with stamp := stamp } else row := by
  unfold Tables.restamp Tables.fileAt Keyed.get
  dsimp only
  rw [List.find?_map]
  have hpath : ((fun row : FileRow => decide (row.path = path)) ∘
      fun row => if row.path = rel' then { row with stamp := stamp } else row) = fun row => decide (row.path = path) := by
    funext row
    dsimp only [Function.comp]
    split
    · rfl
    · rfl
  rw [hpath]

theorem keys_restamp (tables : Tables) (rel' : Text) (stamp : ℕ × ℕ) :
    (tables.restamp rel' stamp).files.map FileRow.path = tables.files.map FileRow.path := by
  unfold Tables.restamp
  rw [List.map_map]
  refine List.map_congr_left fun row _ => ?_
  dsimp only [Function.comp]
  split
  · rfl
  · rfl

theorem fileAt_drop (tables : Tables) (gone : List Text) (path : Text) :
    (tables.drop gone).fileAt path = if path ∈ gone then none else tables.fileAt path := by
  unfold Tables.drop Tables.fileAt Keyed.get
  dsimp only
  split
  · rename_i hgone
    refine List.find?_eq_none.2 fun row hrow heq => ?_
    have hkept : row.path ∉ gone := of_decide_eq_true (List.mem_filter.1 hrow).2
    exact hkept ((of_decide_eq_true heq : row.path = path) ▸ hgone)
  · rename_i hkept
    rw [List.find?_filter]
    refine congrArg (fun p => List.find? p tables.files) (funext fun row => ?_)
    by_cases heq : row.path = path
    · simp [heq, hkept]
    · simp [heq]

theorem rowsAt_drop (tables : Tables) (gone : List Text) (path : Text) :
    (tables.drop gone).rowsAt path = if path ∈ gone then [] else tables.rowsAt path := by
  unfold Tables.drop Tables.rowsAt
  dsimp only
  rw [List.filter_filter]
  split
  · rename_i hgone
    refine List.filter_eq_nil_iff.2 fun row _ => ?_
    by_cases heq : row.path = path
    · simp [heq, hgone]
    · simp [heq]
  · rename_i hkept
    refine List.filter_congr fun row _ => ?_
    by_cases heq : row.path = path
    · simp [heq, hkept]
    · simp [heq]

end Step

/-- What holds when the documents `done` have been looked at. -/
structure Looked (env : Env) (disk : Disk) (tables : Tables) (done : List (Text × Path)) (r : Refreshing) : Prop where
  keys : (r.tables.files.map FileRow.path).Nodup
  present : ∀ path, path ∈ r.present ↔ path ∈ done.map (rel disk)
  file : ∀ item ∈ done, r.tables.fileAt (rel disk item) = some (fileOf env disk item)
  rows : ∀ item ∈ done, rowsOf env disk item = some (r.tables.rowsAt (rel disk item))
  others : ∀ path ∉ done.map (rel disk), r.tables.fileAt path = tables.fileAt path ∧ r.tables.rowsAt path = tables.rowsAt path

theorem fileAt_path {path : Text} {row : FileRow} (h : tables.fileAt path = some row) : row.path = path :=
  (Keyed.get_spec h).2

/-- What is done with one document: it is left, stamped again or indexed. -/
theorem page_cases {r r' : Refreshing} (h : refresh.page env disk tables.files r item = some r') :
    (∃ row, tables.fileAt (rel disk item) = some row ∧ row.stamp = disk.stat item.2 ∧
        r' = ⟨r.tables, rel disk item :: r.present, r.indexed⟩) ∨
      (∃ row, tables.fileAt (rel disk item) = some row ∧ row.sha = env.content_sha (disk.read_bytes item.2) ∧
        r' = ⟨r.tables.restamp (rel disk item) (disk.stat item.2), rel disk item :: r.present, r.indexed⟩) ∨
      ∃ rows, rowsOf env disk item = some rows ∧
        r' = ⟨r.tables.reindex (tables.fileAt (rel disk item)).isSome (fileOf env disk item) rows,
          rel disk item :: r.present, r.indexed + 1⟩ := by
  unfold refresh.page at h
  dsimp only at h
  have hold : Keyed.get FileRow.path tables.files (_locate disk item.2).2 = tables.fileAt (rel disk item) := rfl
  rw [hold] at h
  split at h
  · rename_i hstamp
    obtain ⟨row, hrow, heq⟩ := (Option.any_eq_true _ _).1 hstamp
    exact .inl ⟨row, hrow, of_decide_eq_true heq, (Option.some.inj h).symm⟩
  · split at h
    · rename_i hsha
      obtain ⟨row, hrow, heq⟩ := (Option.any_eq_true _ _).1 hsha
      exact .inr (.inl ⟨row, hrow, of_decide_eq_true heq, (Option.some.inj h).symm⟩)
    · obtain ⟨rows, hrows, rfl⟩ := Option.map_eq_some_iff.1 h
      exact .inr (.inr ⟨rows, hrows, rfl⟩)

/-- **One document** is left, stamped again or indexed, and has its rows then. -/
theorem Looked.step {done : List (Text × Path)} {r r' : Refreshing} (h : Looked env disk tables done r)
    (hnew : rel disk item ∉ done.map (rel disk)) (hready : Ready env disk tables item)
    (hr' : refresh.page env disk tables.files r item = some r') : Looked env disk tables (done ++ [item]) r' := by
  obtain ⟨hfile, hrows⟩ := h.others _ hnew
  have hdiff : ∀ other ∈ done, rel disk item ≠ rel disk other := fun other hother heq =>
    hnew (heq ▸ List.mem_map_of_mem hother)
  -- it is enough to know what is done to the tables at the name of the document and elsewhere
  have hput : ∀ (t : Tables) (n : ℕ), (t.files.map FileRow.path).Nodup →
      (∀ path, rel disk item ≠ path → t.fileAt path = r.tables.fileAt path ∧ t.rowsAt path = r.tables.rowsAt path) →
      t.fileAt (rel disk item) = some (fileOf env disk item) → rowsOf env disk item = some (t.rowsAt (rel disk item)) →
      Looked env disk tables (done ++ [item]) ⟨t, rel disk item :: r.present, n⟩ := by
    intro t n hkeys hother hown hownRows
    refine ⟨hkeys, fun path => ?_, fun other hmem => ?_, fun other hmem => ?_, fun path hpath => ?_⟩
    · rw [List.mem_cons, h.present path, List.map_append, List.mem_append, List.map_singleton, List.mem_singleton, or_comm]
    · rcases List.mem_append.1 hmem with hmem | hmem
      · rw [(hother _ (hdiff other hmem)).1]
        exact h.file other hmem
      · obtain rfl := List.mem_singleton.1 hmem
        exact hown
    · rcases List.mem_append.1 hmem with hmem | hmem
      · rw [(hother _ (hdiff other hmem)).2]
        exact h.rows other hmem
      · obtain rfl := List.mem_singleton.1 hmem
        exact hownRows
    · rw [List.map_append, List.mem_append, not_or, List.map_singleton, List.mem_singleton] at hpath
      have hne : rel disk item ≠ path := fun heq => hpath.2 heq.symm
      rw [(hother path hne).1, (hother path hne).2]
      exact h.others path hpath.1
  rcases page_cases hr' with ⟨row, hrow, hstamp, rfl⟩ | ⟨row, hrow, hsha, rfl⟩ | ⟨rows, hitem, rfl⟩
  · obtain ⟨hsha, hsame⟩ := hready.passed row hrow (.inl hstamp)
    have hmade : fileOf env disk item = row := by
      rw [fileOf, ← hsha, ← hstamp, ← fileAt_path hrow]
    refine hput _ _ h.keys (fun path _ => ⟨rfl, rfl⟩) ?_ ?_
    · rw [hfile, hrow, hmade]
    · rw [hrows, hsame]
  · obtain ⟨-, hsame⟩ := hready.passed row hrow (.inr hsha)
    refine hput _ _ ((keys_restamp _ _ _).symm ▸ h.keys) (fun path hne => ⟨?_, rfl⟩) ?_ ?_
    · rw [fileAt_restamp]
      cases hat : r.tables.fileAt path with
      | none => rfl
      | some other =>
        rw [Option.map_some, if_neg fun heq => hne ((fileAt_path hat).symm.trans heq).symm]
    · rw [fileAt_restamp, hfile, hrow, Option.map_some, if_pos (fileAt_path hrow), fileOf, ← hsha, ← fileAt_path hrow]
    · exact hsame.trans (congrArg some hrows.symm)
  · have hown : (fileOf env disk item).path = rel disk item := rfl
    have hgone : (tables.fileAt (rel disk item)).isSome = false → r.tables.rowsAt (fileOf env disk item).path = [] := by
      intro hnone
      exact hrows.trans (hready.fresh (Option.not_isSome_iff_eq_none.1 (by rw [hnone]; exact Bool.false_ne_true)))
    have hpaths : ∀ r ∈ rows, r.path = (fileOf env disk item).path := rowsOf_path hitem
    refine hput _ _ (Keyed.nodup_upsert h.keys _) (fun path hne => ⟨?_, ?_⟩) ?_ ?_
    · rw [fileAt_reindex, hown, if_neg hne]
    · rw [rowsAt_reindex hpaths hgone, hown, if_neg hne]
    · rw [fileAt_reindex, hown, if_pos rfl]
    · rw [rowsAt_reindex hpaths hgone, hown, if_pos rfl]
      exact hitem

/-- **A run over the documents.** -/
theorem Looked.run {done rest : List (Text × Path)} {r r' : Refreshing} (h : Looked env disk tables done r)
    (hnodup : ((done ++ rest).map (rel disk)).Nodup) (hready : ∀ item ∈ rest, Ready env disk tables item)
    (hr' : rest.foldlM (refresh.page env disk tables.files) r = some r') : Looked env disk tables (done ++ rest) r' := by
  induction rest generalizing done r with
  | nil =>
    obtain rfl := Option.some.inj hr'
    rw [List.append_nil]
    exact h
  | cons item rest ih =>
    rw [List.foldlM_cons] at hr'
    obtain ⟨mid, hmid, hrest⟩ := Option.bind_eq_some_iff.1 hr'
    have hassoc : done ++ item :: rest = (done ++ [item]) ++ rest := List.append_cons done item rest
    have hnew : rel disk item ∉ done.map (rel disk) := by
      rw [List.map_append, List.map_cons] at hnodup
      exact fun hmem => (List.disjoint_of_nodup_append hnodup) hmem List.mem_cons_self
    rw [hassoc] at hnodup ⊢
    exact ih (h.step hnew (hready item List.mem_cons_self) hmid) hnodup
      (fun other hother => hready other (List.mem_cons_of_mem _ hother)) hrest

theorem looked_start (hkeys : (tables.files.map FileRow.path).Nodup) : Looked env disk tables [] { tables := tables } where
  keys := hkeys
  present _ := Iff.rfl
  file _ hitem := absurd hitem List.not_mem_nil
  rows _ hitem := absurd hitem List.not_mem_nil
  others _ _ := ⟨rfl, rfl⟩

/-- **What a refresh leaves**, when the rows that it passes over are the ones it would make. -/
theorem refresh_made {report : Report} {after : Tables} (hkeys : (tables.files.map FileRow.path).Nodup)
    (hrows : ∀ path, tables.fileAt path = none → tables.rowsAt path = [])
    (hready : ∀ item ∈ documents disk, Ready env disk tables item) (h : refresh env disk tables = some (after, report)) :
    Made env disk (documents disk) after := by
  obtain ⟨r, hr, heq⟩ := Option.map_eq_some_iff.1 h
  obtain ⟨rfl, -⟩ := Prod.mk.inj heq
  have hstart : Looked env disk tables [] { tables := tables } := looked_start hkeys
  have hlooked := hstart.run (rels_nodup disk) hready hr
  rw [List.nil_append] at hlooked
  have hkept : ∀ item ∈ documents disk, rel disk item ∉
      (tables.files.map FileRow.path).filter fun path => path ∉ r.present := by
    intro item hitem hmem
    have hnot : rel disk item ∉ r.present := of_decide_eq_true (List.mem_filter.1 hmem).2
    exact hnot ((hlooked.present _).2 (List.mem_map_of_mem hitem))
  refine ⟨?_, fun item hitem => ?_, fun item hitem => ?_, fun path hpath => ?_⟩
  · exact (List.filter_sublist.map _).nodup hlooked.keys
  · rw [fileAt_drop, if_neg (hkept item hitem)]
    exact hlooked.file item hitem
  · rw [rowsAt_drop, if_neg (hkept item hitem)]
    exact hlooked.rows item hitem
  · rw [fileAt_drop, rowsAt_drop]
    split
    · exact ⟨rfl, rfl⟩
    · rename_i hgone
      -- a path that is not listed and not gone was not known
      have hpresent : path ∉ r.present := fun hmem => hpath ((hlooked.present path).1 hmem)
      have hunknown : tables.fileAt path = none := Keyed.get_eq_none_iff.2 fun hmem =>
        hgone (List.mem_filter.2 ⟨hmem, decide_eq_true hpresent⟩)
      rw [(hlooked.others path hpath).1, (hlooked.others path hpath).2]
      exact ⟨hunknown, hrows path hunknown⟩

/-! ## Over a run -/

/-- **The condition**: a page whose size and `mtime`, or whose digest, are those of the last refresh has the bytes of
then, and is found under the same root key and by a path that gives the same name. -/
def Steady (env : Env) (old disk : Disk) : Prop :=
  ∀ item ∈ documents disk, ∀ item' ∈ documents old, rel disk item = rel old item' →
    disk.stat item.2 = old.stat item'.2 ∨
      env.content_sha (disk.read_bytes item.2) = env.content_sha (old.read_bytes item'.2) →
    item.1 = item'.1 ∧ folderOf item.1 item.2 = folderOf item'.1 item'.2 ∧ disk.read_bytes item.2 = old.read_bytes item'.2

theorem Made.ready (h : Made env old (documents old) tables) (hsteady : Steady env old disk) :
    ∀ item ∈ documents disk, Ready env disk tables item := by
  intro item hitem
  by_cases hmem : rel disk item ∈ (documents old).map (rel old)
  · obtain ⟨item', hitem', heq⟩ := List.mem_map.1 hmem
    have hfile := h.file item' hitem'
    have hrows := h.rows item' hitem'
    rw [heq] at hfile hrows
    refine ⟨fun hnone => absurd (hfile.symm.trans hnone) (Option.some_ne_none _), fun row hrow hpass => ?_⟩
    obtain rfl := Option.some.inj (hfile.symm.trans hrow)
    have hpass' : disk.stat item.2 = old.stat item'.2 ∨
        env.content_sha (disk.read_bytes item.2) = env.content_sha (old.read_bytes item'.2) :=
      hpass.imp Eq.symm Eq.symm
    obtain ⟨hkey, hfolder, hbytes⟩ := hsteady item hitem item' hitem' heq.symm hpass'
    refine ⟨congrArg env.content_sha hbytes.symm, ?_⟩
    rw [← hrows]
    unfold rowsOf
    have hname : (_locate disk item.2).2 = (_locate old item'.2).2 := heq.symm
    rw [hbytes, hfolder, hkey, hname]
  · obtain ⟨hfile, hrows⟩ := h.others _ hmem
    exact ⟨fun _ => hrows, fun row hrow => absurd (hfile.symm.trans hrow) (Option.some_ne_none _).symm⟩

/-- The tables of a base hold what its disk gave, or nothing. -/
def Base.Good (env : Env) (base : Base) : Prop :=
  match base.made with
  | some disk => Made env disk (documents disk) base.tables
  | none => base.tables = {}

/-- A refresh meets the condition: the pages are steady since the last refresh that came to its end. -/
def World.Steady (env : Env) (w : World) : Prop :=
  ∀ persistent base, w.conn = some (persistent, base) → ∀ old, base.made = some old → TextIndex.Steady env old w.disk

/-- The states of a run whose refreshes all meet the condition. -/
inductive Reached (env : Env) : World → Prop where
  | start (disk : Disk) : Reached env { disk := disk }
  | edit {w : World} (disk : Disk) (h : Reached env w) : Reached env (w.step env (.edit disk))
  | open_ {w : World} (persistent : Bool) (epoch : Text) (h : Reached env w) : Reached env (w.step env (.open_ persistent epoch))
  | refresh {w : World} (h : Reached env w) (hsteady : w.Steady env) : Reached env (w.step env .refresh)
  | stop {w : World} (h : Reached env w) : Reached env (w.step env .stop)

/-- What holds in every state of a run. -/
structure World.Good (env : Env) (w : World) : Prop where
  file : ∀ base, w.file = some base → base.Good env
  conn : ∀ persistent base, w.conn = some (persistent, base) → base.Good env

theorem Base.Good.refreshed {base : Base} (h : base.Good env)
    (hsteady : ∀ old, base.made = some old → TextIndex.Steady env old disk) {after : Tables} {report : Report}
    (hafter : refresh env disk base.tables = some (after, report)) : Made env disk (documents disk) after := by
  unfold Base.Good at h
  cases hmade : base.made with
  | none =>
    rw [hmade] at h
    dsimp only at h
    rw [h] at hafter
    have hkeys : (({} : Tables).files.map FileRow.path).Nodup := List.nodup_nil
    refine refresh_made hkeys (fun _ _ => rfl) (fun item _ => ⟨fun _ => rfl, fun row hrow => ?_⟩) hafter
    cases hrow
  | some old =>
    rw [hmade] at h
    dsimp only at h
    refine refresh_made h.keys (fun path hnone => ?_) (h.ready (hsteady old hmade)) hafter
    by_cases hmem : path ∈ (documents old).map (rel old)
    · obtain ⟨item, hitem, rfl⟩ := List.mem_map.1 hmem
      exact absurd ((h.file item hitem).symm.trans hnone) (Option.some_ne_none _)
    · exact (h.others path hmem).2

theorem World.Good.open_ {w : World} (h : w.Good env) (persistent : Bool) (epoch : Text) : (w.open_ persistent epoch).Good env := by
  have hempty : Base.Good env { epoch := epoch } := rfl
  unfold World.open_
  split
  · have hbase : Base.Good env (w.baseAt epoch) := by
      unfold World.baseAt
      split
      · rename_i base hfile
        split
        · exact h.file base hfile
        · exact hempty
      · exact hempty
    refine ⟨fun base heq => ?_, fun _ base heq => ?_⟩
    · obtain rfl := Option.some.inj heq
      exact hbase
    · obtain rfl := (Prod.mk.inj (Option.some.inj heq)).2
      exact hbase
  · refine ⟨h.file, fun _ base heq => ?_⟩
    obtain rfl := (Prod.mk.inj (Option.some.inj heq)).2
    exact hempty

theorem World.Good.refresh {w : World} (h : w.Good env) (hsteady : w.Steady env) : (w.refresh env).Good env := by
  unfold World.refresh
  split
  · exact h
  · rename_i persistent base hconn
    split
    · exact h
    · rename_i after report hafter
      have hgood : Base.Good env { base with tables := after, made := some w.disk } :=
        (h.conn persistent base hconn).refreshed (hsteady persistent base hconn) hafter
      refine ⟨fun base' heq => ?_, fun _ base' heq => ?_⟩
      · dsimp only at heq
        split at heq
        · obtain rfl := Option.some.inj heq
          exact hgood
        · exact h.file base' heq
      · obtain rfl := (Prod.mk.inj (Option.some.inj heq)).2
        exact hgood

/-- **Every state of a steady run is good.** -/
theorem Reached.good {w : World} (h : Reached env w) : w.Good env := by
  induction h with
  | start disk => exact ⟨fun _ heq => (by cases heq), fun _ _ heq => (by cases heq)⟩
  | edit disk _ ih => exact ⟨ih.file, ih.conn⟩
  | open_ persistent epoch _ ih => exact ih.open_ persistent epoch
  | refresh _ hsteady ih => exact ih.refresh hsteady
  | stop _ ih => exact ⟨ih.file, fun _ _ heq => (by cases heq)⟩

/-- What a rebuild leaves: the rows of every document, each once and no others, and a row of `files` for each. -/
structure Rebuilt (env : Env) (disk : Disk) (tables : Tables) : Prop where
  sections : ∃ rows, (documents disk).mapM (rowsOf env disk) = some rows ∧ tables.sections.Perm rows.flatten
  files : (tables.files.map FileRow.path).Perm ((documents disk).map (rel disk))
  once : ((documents disk).map (rel disk)).Nodup

theorem Made.rebuilt (h : Made env disk (documents disk) tables) : Rebuilt env disk tables := by
  refine ⟨⟨_, mapM_some h.rows, ?_⟩, ?_, rels_nodup disk⟩
  · have hkeys : ∀ row ∈ tables.sections, row.path ∈ (documents disk).map (rel disk) := by
      intro row hrow
      by_contra hpath
      have hmem : row ∈ tables.rowsAt row.path := List.mem_filter.2 ⟨hrow, decide_eq_true rfl⟩
      rw [(h.others row.path hpath).2] at hmem
      exact absurd hmem List.not_mem_nil
    have hperm := perm_flatMap_filter Row.path (rels_nodup disk) hkeys
    rw [List.flatMap_map] at hperm
    exact hperm
  · refine (List.perm_ext_iff_of_nodup h.keys (rels_nodup disk)).2 fun path => ?_
    constructor
    · intro hmem
      by_contra hpath
      exact Keyed.get_eq_none_iff.1 (h.others path hpath).1 hmem
    · intro hmem
      obtain ⟨item, hitem, rfl⟩ := List.mem_map.1 hmem
      by_contra hnone
      exact absurd ((h.file item hitem).symm.trans (Keyed.get_eq_none_iff.2 hnone)) (Option.some_ne_none _)

/-! ## Search -/

section Search

variable {limit : ℤ} {hits rs : List Hit}

/-- Of the rows that match, some are taken in their order. -/
theorem pick_sublist (limit : ℤ) (hits rs : List Hit) : ∃ l, search.pick limit hits rs = hits ++ l ∧ l.Sublist rs := by
  induction rs generalizing hits with
  | nil => exact ⟨[], (List.append_nil _).symm, List.Sublist.refl _⟩
  | cons r rs ih =>
    unfold search.pick
    split
    · exact ⟨[], (List.append_nil _).symm, List.nil_sublist _⟩
    · split
      · obtain ⟨l, hl, hsub⟩ := ih hits
        exact ⟨l, hl, hsub.cons r⟩
      · obtain ⟨l, hl, hsub⟩ := ih (hits ++ [r])
        exact ⟨r :: l, by rw [hl, List.append_assoc, List.singleton_append], hsub.cons_cons r⟩

theorem pick_length (hlimit : (hits.length : ℤ) ≤ limit) : ((search.pick limit hits rs).length : ℤ) ≤ limit := by
  induction rs generalizing hits with
  | nil => exact hlimit
  | cons r rs ih =>
    unfold search.pick
    split
    · exact hlimit
    · rename_i hne
      split
      · exact ih hlimit
      · refine ih ?_
        rw [List.length_append, List.length_singleton]
        omega

theorem pick_pages (path : Text) (hpage : hits.countP (fun h => h.row.path = path) ≤ 2) :
    (search.pick limit hits rs).countP (fun h => h.row.path = path) ≤ 2 := by
  induction rs generalizing hits with
  | nil => exact hpage
  | cons r rs ih =>
    unfold search.pick
    split
    · exact hpage
    · split
      · exact ih hpage
      · rename_i hfull
        refine ih ?_
        rw [List.countP_append, List.countP_singleton]
        by_cases hr : r.row.path = path
        · subst hr
          have hlt : hits.countP (fun h => h.row.path = r.row.path) < 2 := Nat.lt_of_le_of_ne hpage hfull
          rw [if_pos (decide_eq_true rfl)]
          omega
        · rw [if_neg (by simpa using hr)]
          exact hpage

/-- **What a search comes out with**: no more hits than were asked for, at most two of a page, best first. -/
theorem search_spec {q : Text} {etype root : Option Text} {raw : Bool} {found : List Hit}
    (h : search env tables q etype root limit raw = .ok found) :
    (0 ≤ limit → (found.length : ℤ) ≤ limit) ∧ (∀ path, found.countP (fun h => h.row.path = path) ≤ 2) ∧
      found.Pairwise fun a b => a.rank ≤ b.rank := by
  unfold search at h
  dsimp only at h
  generalize (if raw then q else _match_expression env q) = expression at h
  split at h
  · cases h
    exact ⟨fun hlimit => hlimit, fun _ => Nat.zero_le _, List.Pairwise.nil⟩
  · cases hfts : env.fts expression tables.sections with
    | error _ =>
      rw [hfts] at h
      cases h
    | ok matched =>
      rw [hfts] at h
      cases h
      have hempty : 0 ≤ limit → (([] : List Hit).length : ℤ) ≤ limit := fun hlimit => hlimit
      refine ⟨fun hlimit => pick_length (hempty hlimit), fun path => pick_pages path (Nat.zero_le _), ?_⟩
      obtain ⟨l, hl, hsub⟩ := pick_sublist limit [] (((matched.filter fun r => isWanted etype root r.1).map fun r =>
        Hit.mk r.1 r.2.1 r.2.2).insertionSort fun a b => a.rank ≤ b.rank)
      dsimp only
      rw [hl, List.nil_append]
      exact (List.pairwise_insertionSort _ _).sublist hsub

end Search

/-! ## The claim, and where it fails -/

/-- **Refreshing the index is rebuilding it**, in every run whose refreshes all find the pages steady; and a search
returns as many hits as it may exactly when it may return some number of them. -/
theorem refresh_rebuilds (env : Env) :
    (∀ w, Reached env w → w.Steady env → ∀ persistent base after report, w.conn = some (persistent, base) →
      refresh env w.disk base.tables = some (after, report) →
        (w.step env .refresh).conn = some (persistent, { base with tables := after, made := some w.disk }) ∧
          Rebuilt env w.disk after) ∧
      ∀ tables q etype root limit raw found, search env tables q etype root limit raw = .ok found →
        ((found.length : ℤ) ≤ limit ↔ 0 ≤ limit) ∧ (∀ path, found.countP (fun h => h.row.path = path) ≤ 2) ∧
          found.Pairwise fun a b => a.rank ≤ b.rank := by
  refine ⟨fun w hw hsteady persistent base after report hconn hafter => ⟨?_, ?_⟩,
    fun tables q etype root limit raw found h => ?_⟩
  · rw [World.step, World.refresh, hconn]
    dsimp only
    rw [hafter]
  · exact ((hw.good.conn persistent base hconn).refreshed (hsteady persistent base hconn) hafter).rebuilt
  · obtain ⟨hlength, hpages, hsorted⟩ := search_spec h
    exact ⟨⟨fun hle => by omega, hlength⟩, hpages, hsorted⟩

/-- A parser that finds one section of one line in every file. -/
def sampleEnv : Env where
  parse _ := some ⟨[], [], ["okapi".toList], [⟨0, [], 0, 1, []⟩], []⟩
  content_sha _ := []
  isWord c := c.isAlphanum
  fts _ rows := .ok (rows.map fun row => (row, 0, []))

theorem docs_plain : ∀ part ∈ ["docs".toList], part ≠ [] ∧ '/' ∉ part := by decide

theorem page_plain : ∀ part ∈ ["docs".toList, "page.md".toList], part ≠ [] ∧ '/' ∉ part := by decide

theorem link_plain : ∀ part ∈ ["docs".toList, "link.md".toList], part ≠ [] ∧ '/' ∉ part := by decide

theorem root_plain : ∀ part ∈ ([] : List Text), part ≠ [] ∧ '/' ∉ part := by decide

def docsPath : Path := ⟨["docs".toList], docs_plain⟩

def pagePath : Path := ⟨["docs".toList, "page.md".toList], page_plain⟩

def linkPath : Path := ⟨["docs".toList, "link.md".toList], link_plain⟩

/-- One page under one root. -/
def pageDisk : Disk where
  root := ⟨[], root_plain⟩
  doc_roots := [("services".toList, docsPath)]
  is_dir _ := true
  glob _ _ := [pagePath]
  resolve path := path
  is_file _ := true
  stat _ := (6, 1)
  read_bytes _ := []

/-- The same page, and a link to it whose name comes first. -/
def linkDisk : Disk := { pageDisk with glob := fun _ _ => [linkPath, pagePath], resolve := fun _ => pagePath }

/-- The row of the page, when it is found by a path with this stem. -/
def sampleRow (stem : Text) : Row where
  root := "services".toList
  type := []
  node := "docs/page".toList
  path := "docs/page.md".toList
  anchor := []
  heading := []
  title := []
  slug := stem
  body := "okapi".toList

def sampleTables : Tables := ⟨[⟨"docs/page.md".toList, [], (6, 1)⟩], [sampleRow "page".toList]⟩

theorem refresh_rebuilds_sample :
    Rebuilt sampleEnv pageDisk sampleTables ∧
      (search sampleEnv sampleTables "okapi".toList none none 5 false).map List.length = .ok 1 ∧
      ∀ found, search sampleEnv sampleTables "okapi".toList none none 5 false = .ok found → (found.length : ℤ) ≤ 5 :=
  ⟨(((refresh_rebuilds sampleEnv).1 _ (.open_ true [] (.start pageDisk)) (fun _ base hconn old hold => by
      cases hconn
      cases hold) true { epoch := [] } sampleTables ⟨1, 1, 1, 0⟩ rfl rfl).2), rfl, fun found hfound =>
    ((refresh_rebuilds sampleEnv).2 _ _ _ _ _ _ found hfound).1.2 (by decide)⟩

/-- The page is indexed, and then a link to it is made: the rows of the page stay as they were, though a rebuild finds
the page by the link, whose name is its slug. -/
theorem linked_stale :
    ∃ w : World, w = [Event.open_ true [], .refresh, .edit linkDisk, .refresh].foldl (World.step sampleEnv) { disk := pageDisk } ∧
      ∃ base, w.conn = some (true, base) ∧ base.made = some w.disk ∧ ¬ Rebuilt sampleEnv w.disk base.tables := by
  refine ⟨_, rfl, { epoch := [], tables := sampleTables, made := some linkDisk }, rfl, rfl, fun h => ?_⟩
  obtain ⟨rows, hrows, hperm⟩ := h.sections
  have hlink : (documents linkDisk).mapM (rowsOf sampleEnv linkDisk) = some [[sampleRow "link".toList]] := rfl
  have hrows : (documents linkDisk).mapM (rowsOf sampleEnv linkDisk) = some rows := hrows
  obtain rfl := Option.some.inj (hlink.symm.trans hrows)
  have heq : sampleRow "page".toList = sampleRow "link".toList := List.singleton_perm_singleton.1 hperm
  exact absurd (congrArg Row.slug heq) (by decide)

end Stablemate.TextIndex
