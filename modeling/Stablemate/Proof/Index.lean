import Stablemate.Model.Index
import Stablemate.Proof.PyJson

/-!
# An archive and its index

* `filled_rowOf`: a record is read back as the row that it was made of, where a blank column has
  what the column holds when it is left out.
* `stream_perm`, `writeTelemetry_eq`: the pages together have each row from `(0.0, 0)` on, and
  the file is written if these are all.
* `holds_readLine`, `buildIndex_perm`: the batches lose no row that the tables accept.
* `readsBack_iff`: **the archive of a run reads back as the run was stored if and only if its rows
  are restorable.**
-/

namespace Stablemate.Index

open PyJson
open Archive (Kind RunBounds ARCHIVED_METRICS ARCHIVE_PAGE blank truthy)

variable {kind : Kind} {r : Row kind} {c : Column} {v : Value} {d : Entries} {n k : Text}

/-! ## Dictionaries -/

theorem lookup_drop : (drop k d).lookup (.str n) = if n = k then none else d.lookup (.str n) := by
  have h := lookup_filter_key (fun key => key ≠ .str k) (.str n) d
  rw [drop, h]
  by_cases hn : n = k <;> simp [hn]

theorem lookup_setDefault : (setDefault k v d).lookup (.str n) =
    if n = k then some ((d.lookup (.str n)).getD v) else d.lookup (.str n) := by
  rw [setDefault, has]
  by_cases hn : n = k
  · subst hn
    cases hd : d.lookup (.str n) with
    | none => simp [lookup_setItem]
    | some x => simp [hd]
  · rw [if_neg hn]
    split
    · rfl
    · rw [lookup_setItem, if_neg (by simpa using hn)]

/-- A `dict` that `json` gives back as it is. -/
def Dict (d : Entries) : Prop := Plain (.dict d)

theorem dict_iff : Dict d ↔ ((∀ kx ∈ d, kx.1.isStr = true) ∧ (d.map (·.1)).Nodup) ∧ ∀ kx ∈ d, Plain kx.2 := by
  rw [Dict, Plain, plainEntries_iff]

theorem Dict.setItem (h : Dict d) (hv : Plain v) : Dict (setItem (.str k) v d) := by
  rw [dict_iff] at h ⊢
  refine ⟨⟨isStr_setItem h.1.1, nodup_setItem _ _ h.1.2⟩, fun kx hkx => ?_⟩
  rcases mem_setItem hkx with hkx | rfl
  · exact h.2 kx hkx
  · exact hv

theorem Dict.filter (h : Dict d) (p : Key × Value → Bool) : Dict (d.filter p) := by
  rw [dict_iff] at h ⊢
  refine ⟨⟨fun kx hkx => h.1.1 kx (List.mem_of_mem_filter hkx), ?_⟩,
    fun kx hkx => h.2 kx (List.mem_of_mem_filter hkx)⟩
  exact h.1.2.sublist (List.filter_sublist.map _)

theorem Dict.setDefault (h : Dict d) (hv : Plain v) : Dict (setDefault k v d) := by
  rw [Index.setDefault]
  split
  · exact h
  · exact h.setItem hv

theorem Dict.get (h : Dict d) : Plain (get k d) := by
  rw [Index.get]
  cases hd : d.lookup (.str k) with
  | none => simp [Plain]
  | some x => exact (dict_iff.1 h).2 _ (mem_of_lookup hd)

/-! ## Rows -/

/-- The columns of a table have distinct names, and none of the keys that only a record has. -/
theorem columns_names (kind : Kind) : ((columns kind).map Column.name).Nodup ∧
    ∀ c ∈ columns kind, c.name ∉ ["kind".toList, "attrs".toList, "generation".toList, "seq".toList,
      "_ts".toList, "_rowid".toList] := by
  cases kind <;> decide

theorem nodup_keys (kind : Kind) : ((columns kind).map fun c => Key.str c.name).Nodup := by
  have h := (columns_names kind).1
  rw [show ((columns kind).map fun c => Key.str c.name) = ((columns kind).map Column.name).map Key.str by simp]
  exact h.map fun a b hab => by simpa using hab

theorem Row.length (r : Row kind) : (columns kind).length = r.values.length := r.fits.length_eq

theorem Row.keys_cells (r : Row kind) : r.cells.map (·.1) = (columns kind).map fun c => .str c.name := by
  rw [Row.cells, List.map_fst_zip]
  simp [r.length]

/-- A column of a row, by its name. -/
theorem Row.lookup_cells (h : (c, v) ∈ (columns kind).zip r.values) : r.cells.lookup (.str c.name) = some v := by
  refine lookup_of_mem (by rw [r.keys_cells]; exact nodup_keys kind) ?_
  rw [Row.cells, List.zip_map_left]
  exact List.mem_map.2 ⟨(c, v), h, rfl⟩

theorem Row.fits_mem (h : (c, v) ∈ (columns kind).zip r.values) : c.Fits v :=
  (List.forall₂_iff_zip.1 r.fits).2 h

theorem Column.Fits.plain (h : c.Fits v) : Plain v := by
  cases v with
  | dict kvs => exact h.2
  | none => simp [Plain]
  | int => simp [Plain]
  | float => simp [Plain]
  | str => simp [Plain]
  | _ => exact h.elim

theorem Row.dict_cells (r : Row kind) : Dict r.cells := by
  rw [dict_iff]
  refine ⟨⟨fun kx hkx => ?_, by rw [r.keys_cells]; exact nodup_keys kind⟩, fun kx hkx => ?_⟩
  · have := List.mem_map_of_mem (f := (·.1)) hkx
    rw [r.keys_cells] at this
    obtain ⟨c, -, hc⟩ := List.mem_map.1 this
    rw [← hc]
    rfl
  · rw [Row.cells, List.zip_map_left] at hkx
    obtain ⟨⟨c, v⟩, hcv, rfl⟩ := List.mem_map.1 hkx
    exact (r.fits_mem hcv).plain

theorem not_mem_names (h : n ∈ ["kind".toList, "attrs".toList, "generation".toList, "seq".toList,
    "_ts".toList, "_rowid".toList]) : r.cells.lookup (.str n) = none := by
  rw [List.lookup_eq_none_iff]
  intro kx hkx
  have := List.mem_map_of_mem (f := (·.1)) hkx
  rw [r.keys_cells] at this
  obtain ⟨c, hc, hkey⟩ := List.mem_map.1 this
  have hne : n ≠ c.name := fun heq => (columns_names kind).2 c hc (heq ▸ h)
  rw [← hkey]
  simpa using hne

/-- `dict(row)` has the columns, and two keys besides. -/
theorem Row.lookup_dict (hrowid : n ≠ "_rowid".toList) (hts : n ≠ "_ts".toList) :
    r.dict.lookup (.str n) = r.cells.lookup (.str n) := by
  have h1 : (Key.str n == Key.str "_rowid".toList) = false := by simpa using hrowid
  have h2 : (Key.str n == Key.str "_ts".toList) = false := by simpa using hts
  rw [Row.dict, List.lookup_cons, h1, List.lookup_cons, h2]

theorem Row.dict_dict (r : Row kind) : Dict r.dict := by
  have h := r.dict_cells
  have hts : Plain (Index.get (tsColumn kind) r.cells) := h.get
  have hnone1 := not_mem_names (r := r) (n := "_ts".toList) (by simp)
  have hnone2 := not_mem_names (r := r) (n := "_rowid".toList) (by simp)
  rw [dict_iff] at h ⊢
  have hnot : ∀ {n : Text}, r.cells.lookup (.str n) = none → Key.str n ∉ r.cells.map (·.1) := by
    intro n hn hmem
    obtain ⟨kx, hkx, hkey⟩ := List.mem_map.1 hmem
    have := List.lookup_eq_none_iff.1 hn kx hkx
    simp [hkey] at this
  refine ⟨⟨?_, ?_⟩, ?_⟩
  · intro kx hkx
    rcases List.mem_cons.1 hkx with rfl | hkx
    · rfl
    rcases List.mem_cons.1 hkx with rfl | hkx
    · rfl
    exact h.1.1 kx hkx
  · rw [Row.dict, List.map_cons, List.map_cons, List.nodup_cons, List.nodup_cons, List.mem_cons, not_or]
    exact ⟨⟨by simp, hnot hnone2⟩, hnot hnone1, h.1.2⟩
  · intro kx hkx
    rcases List.mem_cons.1 hkx with rfl | hkx
    · simp [Plain]
    rcases List.mem_cons.1 hkx with rfl | hkx
    · exact hts
    exact h.2 kx hkx

/-! ## Records -/

/-- The columns that are not blank. -/
def present (record row : Entries) : Entries :=
  row.foldl (fun record kx => if skipped kx then record else setItem kx.1 kx.2 record) record

theorem lookup_present {row : Entries} (h : (row.map (·.1)).Nodup) (k : Key) : ∀ record : Entries,
    (present record row).lookup k =
      match row.lookup k with
      | some v => if skipped (k, v) then record.lookup k else some v
      | none => record.lookup k := by
  induction row with
  | nil => exact fun record => rfl
  | cons kx row ih =>
    obtain ⟨l, y⟩ := kx
    rw [List.map_cons, List.nodup_cons] at h
    intro record
    rw [present, List.foldl_cons, ← present, ih h.2, List.lookup_cons]
    by_cases hk : k = l
    · subst hk
      have hnone : row.lookup k = none := by
        rw [List.lookup_eq_none_iff]
        intro kx hkx
        have : k ≠ kx.1 := fun hkl => h.1 (List.mem_map.2 ⟨_, hkx, hkl.symm⟩)
        simpa using this
      rw [hnone, beq_self_eq_true]
      dsimp only
      split
      · rfl
      · rw [lookup_setItem_self]
    · have hne : (k == l) = false := by simpa using hk
      have hset : (if skipped (l, y) then record else setItem l y record).lookup k = record.lookup k := by
        split
        · rfl
        · rw [lookup_setItem, if_neg hk]
      rw [hne, hset]

theorem Dict.present {record row : Entries} (hrow : Dict row) : Dict record → Dict (present record row) := by
  induction row generalizing record with
  | nil => exact id
  | cons kx row ih =>
    intro h
    obtain ⟨l, y⟩ := kx
    have hall := dict_iff.1 hrow
    have hl := hall.1.1 _ List.mem_cons_self
    rw [Index.present, List.foldl_cons, ← Index.present]
    refine ih ?_ ?_
    · rw [dict_iff]
      refine ⟨⟨fun kx hkx => hall.1.1 kx (List.mem_cons_of_mem _ hkx), ?_⟩,
        fun kx hkx => hall.2 kx (List.mem_cons_of_mem _ hkx)⟩
      exact (List.nodup_cons.1 hall.1.2).2
    · cases l with
      | str n =>
        split
        · exact h
        · exact h.setItem (hall.2 _ List.mem_cons_self)
      | _ => simp [Key.isStr] at hl

/-- A record before its columns are added. -/
def header (r : Row kind) : Entries :=
  [(.str "kind".toList, .str (kindName kind)), (.str "ts".toList, get "_ts".toList r.dict)]

theorem Row.plain_ts (r : Row kind) : Plain (Index.get "_ts".toList r.dict) := r.dict_dict.get

theorem dict_header (r : Row kind) : Dict (header r) := by
  rw [dict_iff]
  refine ⟨⟨by simp [header, Key.isStr], by simp [header]⟩, fun kx hkx => ?_⟩
  rcases List.mem_cons.1 hkx with rfl | hkx
  · simp [Plain]
  · obtain rfl := List.mem_singleton.1 hkx
    exact r.plain_ts

theorem lookup_header : (header r).lookup (.str n) =
    if n = "kind".toList then some (.str (kindName kind))
    else if n = "ts".toList then some (get "_ts".toList r.dict) else none := by
  rw [header, List.lookup_cons, List.lookup_cons, List.lookup_nil]
  by_cases h1 : n = "kind".toList
  · simp [h1]
  · have hne1 : (Key.str n == Key.str "kind".toList) = false := by simpa using h1
    rw [hne1, if_neg h1]
    by_cases h2 : n = "ts".toList
    · simp [h2]
    · have hne2 : (Key.str n == Key.str "ts".toList) = false := by simpa using h2
      rw [hne2, if_neg h2]

/-- What the columns are that a record treats in its own way. -/
theorem columns_special (kind : Kind) : ∀ c ∈ columns kind,
    (c.name = "ts".toList → c.notNull = true ∧ c.affinity = .real) ∧
      (c.name = "attrs_json".toList → c.notNull = true ∧ c.affinity = .object) ∧
      (c.name = "resume_generation".toList →
        kind = .span ∧ c.affinity = .integer ∧ notNone c.default = false) ∧
      (c.name = "node".toList → kind ≠ .metric ∧ textOf c.default = some []) ∧
      (c.name = "trace_id".toList → kind ≠ .span → textOf c.default = some []) := by
  cases kind <;> decide

theorem not_blank_of_required (h : c.Fits v) (hnull : c.notNull = true) (htext : c.affinity ≠ .text) :
    blank v = false := by
  cases v with
  | none => exact absurd (hnull.symm.trans h) (by simp)
  | str s => exact absurd h htext
  | _ => rfl

theorem lookup_present_col (h : (c, v) ∈ (columns kind).zip r.values) :
    (present (header r) r.dict).lookup (.str c.name) =
      if blank v = true ∨ c.name = "attrs_json".toList then none else some v := by
  have hc : c ∈ columns kind := (List.of_mem_zip h).1
  have hspecial := (columns_names kind).2 c hc
  simp only [List.mem_cons, List.not_mem_nil, or_false, not_or] at hspecial
  obtain ⟨hkind, -, -, -, hts, hrowid⟩ := hspecial
  obtain ⟨hreal, hobject, -⟩ := columns_special kind c hc
  rw [lookup_present (dict_iff.1 r.dict_dict).1.2, r.lookup_dict hrowid hts, r.lookup_cells h]
  have hskip : skipped (.str c.name, v) = true ↔ blank v = true ∨ c.name = "attrs_json".toList := by
    rw [skipped]
    simp only [Bool.or_eq_true, decide_eq_true_eq, Key.str.injEq, hts, hrowid, false_or]
    exact or_comm
  simp only [hskip]
  split
  · rename_i hblank
    rw [lookup_header, if_neg hkind, if_neg]
    -- a column `ts` is a number, and is kept
    intro htime
    obtain ⟨hnull, hfloat⟩ := hreal htime
    rcases hblank with hblank | hname
    · rw [not_blank_of_required (r.fits_mem h) hnull (by simp [hfloat])] at hblank
      cases hblank
    · rw [(hobject hname).2] at hfloat
      cases hfloat
  · rfl

theorem lookup_present_key (h : n ∈ ["kind".toList, "attrs".toList, "generation".toList, "seq".toList]) :
    (present (header r) r.dict).lookup (.str n) =
      if n = "kind".toList then some (.str (kindName kind)) else none := by
  have hnames : n ∈ ["kind".toList, "attrs".toList, "generation".toList, "seq".toList,
      "_ts".toList, "_rowid".toList] := List.mem_append_left ["_ts".toList, "_rowid".toList] h
  have hts : n ≠ "_ts".toList := by
    rintro rfl
    exact absurd h (by decide)
  have hrowid : n ≠ "_rowid".toList := by
    rintro rfl
    exact absurd h (by decide)
  have htime : n ≠ "ts".toList := by
    rintro rfl
    exact absurd h (by decide)
  rw [lookup_present (dict_iff.1 r.dict_dict).1.2, r.lookup_dict hrowid hts, not_mem_names hnames]
  dsimp only
  rw [lookup_header, if_neg htime]

/-- A record but for its `attrs`. -/
def body (r : Row kind) : Entries :=
  setDefault "node".toList (.str [])
    (addressed kind r.dict (attrsOf r.dict) (present (header r) r.dict))

theorem dict_attrsOf {row : Entries} (h : Dict row) : Dict (attrsOf row) := by
  have := h.get (k := "attrs_json".toList)
  rw [attrsOf]
  split
  · rename_i kvs heq
    rwa [heq] at this
  · simp [Dict, Plain, PlainEntries]

theorem record_eq (r : Row kind) : record kind r.dict =
    (if (attrsOf r.dict).isEmpty then body r else setItem (.str "attrs".toList) (.dict (attrsOf r.dict)) (body r)).filter
      fun kx => notNone kx.2 := rfl

theorem dict_body (r : Row kind) : Dict (body r) := by
  have hpresent : Dict (present (header r) r.dict) := Dict.present r.dict_dict (dict_header r)
  have hattrs := dict_attrsOf r.dict_dict
  refine Dict.setDefault ?_ (by simp [Plain])
  cases kind with
  | span => exact ((hpresent.setItem r.dict_dict.get).setItem hattrs.get).filter _
  | log => exact hpresent
  | metric =>
    have hset : ∀ node : Value, Plain node →
        Dict (if truthy node then setItem (.str "node".toList) node (present (header r) r.dict)
          else present (header r) r.dict) := by
      intro node hnode
      split
      · exact hpresent.setItem hnode
      · exact hpresent
    refine hset _ ?_
    split <;> exact hattrs.get

theorem dict_record (r : Row kind) : Dict (record kind r.dict) := by
  rw [record_eq]
  refine Dict.filter ?_ _
  split
  · exact dict_body r
  · exact (dict_body r).setItem (dict_attrsOf r.dict_dict)

/-- The keys that a record of the kind may have besides its columns. -/
theorem lookup_addressed {row attrs record : Entries} (hseq : n ≠ "seq".toList) (hgen : n ≠ "generation".toList)
    (hnode : kind = .metric → n ≠ "node".toList) : (addressed kind row attrs record).lookup (.str n) =
      if kind = .span ∧ n = "resume_generation".toList then none else record.lookup (.str n) := by
  have hseq' : Key.str n ≠ .str "seq".toList := by simpa using hseq
  have hgen' : Key.str n ≠ .str "generation".toList := by simpa using hgen
  cases kind with
  | span =>
    dsimp only [addressed]
    rw [lookup_drop, lookup_setItem, if_neg hseq', lookup_setItem, if_neg hgen']
    simp only [true_and]
  | log => simp only [addressed, reduceCtorEq, false_and, if_false]
  | metric =>
    have hnode' : Key.str n ≠ .str "node".toList := by simpa using hnode rfl
    have hset : ∀ node : Value, (if truthy node then setItem (.str "node".toList) node record else record).lookup
        (.str n) = record.lookup (.str n) := by
      intro node
      split
      · rw [lookup_setItem, if_neg hnode']
      · rfl
    rw [if_neg (by simp)]
    exact hset _

/-- A column stands in the record if it is not blank; the resume generation has another key, and a
span or a log always has its node. -/
theorem lookup_body_col (h : (c, v) ∈ (columns kind).zip r.values) : (body r).lookup (.str c.name) =
    if c.name = "node".toList then some (if blank v then .str [] else v)
    else if c.name = "resume_generation".toList ∨ c.name = "attrs_json".toList ∨ blank v = true then none
    else some v := by
  have hc : c ∈ columns kind := (List.of_mem_zip h).1
  have hspecial := (columns_names kind).2 c hc
  simp only [List.mem_cons, List.not_mem_nil, or_false, not_or] at hspecial
  obtain ⟨-, -, hgen, hseq, -, -⟩ := hspecial
  obtain ⟨-, -, hresume, hmetric, -⟩ := columns_special kind c hc
  rw [body, lookup_setDefault,
    lookup_addressed hseq hgen (fun hk hn => (hmetric hn).1 hk), lookup_present_col h]
  by_cases hnode : c.name = "node".toList
  · have h1 : c.name ≠ "resume_generation".toList := by
      rw [hnode]
      decide
    have h2 : c.name ≠ "attrs_json".toList := by
      rw [hnode]
      decide
    rw [if_pos hnode, if_pos hnode, if_neg fun hk => h1 hk.2]
    by_cases hb : blank v = true
    · rw [if_pos (.inl hb), if_pos hb]
      rfl
    · rw [if_neg (not_or.2 ⟨hb, h2⟩), if_neg hb]
      rfl
  · rw [if_neg hnode, if_neg hnode]
    by_cases hres : c.name = "resume_generation".toList
    · rw [if_pos ⟨(hresume hres).1, hres⟩, if_pos (.inl hres)]
    · rw [if_neg fun hk => hres hk.2]
      by_cases hb : blank v = true ∨ c.name = "attrs_json".toList
      · rw [if_pos hb, if_pos (.inr hb.symm)]
      · rw [if_neg hb, if_neg (not_or.2 ⟨hres, fun h' => hb h'.symm⟩)]

theorem lookup_body_key (h : n ∈ ["kind".toList, "attrs".toList]) : (body r).lookup (.str n) =
    if n = "kind".toList then some (.str (kindName kind)) else none := by
  have hmem : n ∈ ["kind".toList, "attrs".toList, "generation".toList, "seq".toList] :=
    List.mem_append_left ["generation".toList, "seq".toList] h
  have hnot : n ∉ ["node".toList, "seq".toList, "generation".toList, "resume_generation".toList] := by
    intro hn
    simp only [List.mem_cons, List.not_mem_nil, or_false] at h hn
    rcases h with rfl | rfl <;> exact absurd hn (by decide)
  simp only [List.mem_cons, List.not_mem_nil, or_false, not_or] at hnot
  obtain ⟨hnode, hseq, hgen, hres⟩ := hnot
  rw [body, lookup_setDefault, if_neg hnode, lookup_addressed hseq hgen fun _ => hnode,
    if_neg fun hk => hres hk.2, lookup_present_key hmem]

theorem lookup_body_generation {r : Row .span} :
    (body r).lookup (.str "generation".toList) = some (get "resume_generation".toList r.dict) := by
  have h1 : Key.str "generation".toList ≠ .str "seq".toList := by decide
  rw [body, lookup_setDefault, if_neg (by decide)]
  dsimp only [addressed]
  rw [lookup_drop, if_neg (by decide), lookup_setItem, if_neg h1, lookup_setItem_self]

/-! ## Reading a record back -/

theorem lookup_record (hn : n ≠ "attrs".toList) :
    (record kind r.dict).lookup (.str n) = ((body r).lookup (.str n)).filter notNone := by
  have hn' : Key.str n ≠ .str "attrs".toList := by simpa using hn
  rw [record_eq, lookup_filter_value]
  · split
    · rfl
    · rw [lookup_setItem, if_neg hn']
  · split
    · exact (dict_iff.1 (dict_body r)).1.2
    · exact nodup_setItem _ _ (dict_iff.1 (dict_body r)).1.2

theorem get_attrs_record : get "attrs".toList (record kind r.dict) =
    if (attrsOf r.dict).isEmpty then .none else .dict (attrsOf r.dict) := by
  have hnone : (body r).lookup (.str "attrs".toList) = none := by
    rw [lookup_body_key (by simp), if_neg (by decide)]
  rw [get, record_eq, lookup_filter_value]
  · split
    · rw [hnone]
      rfl
    · rw [lookup_setItem_self]
      rfl
  · split
    · exact (dict_iff.1 (dict_body r)).1.2
    · exact nodup_setItem _ _ (dict_iff.1 (dict_body r)).1.2

theorem get_kind_record : get "kind".toList (record kind r.dict) = .str (kindName kind) := by
  rw [get, lookup_record (by decide), lookup_body_key (by simp), if_pos rfl]
  rfl

theorem eq_none_of_notNone (h : notNone v = false) : v = .none := by
  cases v with
  | none => rfl
  | _ => cases h

theorem notNone_of_not_blank (h : ¬ blank v = true) : notNone v = true := by
  cases v with
  | none => exact absurd rfl h
  | _ => rfl

theorem eq_of_textOf {s : Text} (h : textOf v = some s) : v = .str s := by
  cases v with
  | str t =>
    cases h
    rfl
  | _ => cases h

/-- What the index holds of a column. -/
def restored (c : Column) (v : Value) : Value := if blank v then c.absent else v

/-- `_row`, before the columns are selected. -/
def renamed (kind : Kind) (row : Entries) : Entries :=
  match kind with
  | .span =>
    setDefault "trace_id".toList (.str [])
      (if has "generation".toList row then
        setItem (.str "resume_generation".toList) (get "generation".toList row) (drop "generation".toList row)
      else row)
  | .log | .metric => row

theorem lookup_renamed {row : Entries} (hgen : n ≠ "generation".toList)
    (hres : kind = .span → n ≠ "resume_generation".toList) : (renamed kind row).lookup (.str n) =
      if kind = .span ∧ n = "trace_id".toList then some ((row.lookup (.str n)).getD (.str []))
      else row.lookup (.str n) := by
  cases kind with
  | span =>
    have hres' : Key.str n ≠ .str "resume_generation".toList := by simpa using hres rfl
    have hrow : (if has "generation".toList row then
        setItem (.str "resume_generation".toList) (get "generation".toList row) (drop "generation".toList row)
        else row).lookup (.str n) = row.lookup (.str n) := by
      split
      · rw [lookup_setItem, if_neg hres', lookup_drop, if_neg hgen]
      · rfl
    dsimp only [renamed]
    rw [lookup_setDefault, hrow]
    simp only [true_and]
  | log => simp only [renamed, reduceCtorEq, false_and, if_false]
  | metric => simp only [renamed, reduceCtorEq, false_and, if_false]

theorem lookup_renamed_generation {row : Entries} (hrow : row.lookup (.str "resume_generation".toList) = none) :
    (renamed .span row).lookup (.str "resume_generation".toList) = row.lookup (.str "generation".toList) := by
  dsimp only [renamed]
  rw [lookup_setDefault, if_neg (by decide), has, get]
  cases hg : row.lookup (.str "generation".toList) with
  | none => simpa using hrow
  | some g =>
    rw [Option.isSome_some, if_pos rfl, lookup_setItem_self]
    rfl

theorem rowOf_eq : rowOf kind d = (setItem (.str "attrs_json".toList)
    (if notNone (get "attrs".toList d) then get "attrs".toList d else .dict [])
    (renamed kind (drop "attrs".toList (drop "kind".toList d)))).filter
      fun kx => (columns kind).any fun c => kx.1 = .str c.name := by
  cases kind <;> rfl

/-- The row of a record, in one of the columns. -/
theorem lookup_rowOf (hc : c ∈ columns kind) : (rowOf kind d).lookup (.str c.name) =
    if c.name = "attrs_json".toList then
      some (if notNone (get "attrs".toList d) then get "attrs".toList d else .dict [])
    else (renamed kind (drop "attrs".toList (drop "kind".toList d))).lookup (.str c.name) := by
  have hcolumn : ((columns kind).any fun c' => Key.str c.name = .str c'.name) = true :=
    List.any_eq_true.2 ⟨c, hc, by simp⟩
  rw [rowOf_eq, lookup_filter_key (fun key : Key => (columns kind).any fun c' => key = .str c'.name),
    if_pos hcolumn, lookup_setItem]
  simp only [Key.str.injEq]

theorem lookup_popped (hkind : n ≠ "kind".toList) (hattrs : n ≠ "attrs".toList) :
    (drop "attrs".toList (drop "kind".toList (record kind r.dict))).lookup (.str n) =
      ((body r).lookup (.str n)).filter notNone := by
  rw [lookup_drop, if_neg hattrs, lookup_drop, if_neg hkind, lookup_record hattrs]

/-- A column that can only hold an object holds one. -/
theorem Column.Fits.object (h : c.Fits v) (hnull : c.notNull = true) (hobj : c.affinity = .object) :
    ∃ kvs, v = .dict kvs := by
  cases v with
  | dict kvs => exact ⟨kvs, rfl⟩
  | none => exact absurd (hnull.symm.trans h) (by simp)
  | str s => exact absurd (hobj.symm.trans h) (by simp)
  | int i => exact absurd (hobj.symm.trans h) (by simp)
  | float x =>
    cases x with
    | fin => exact absurd (hobj.symm.trans h) (by simp)
    | _ => exact h.elim
  | _ => exact h.elim

/-- The attributes are `{}` when there is no key for them. -/
theorem column_attrs (h : (c, v) ∈ (columns kind).zip r.values) (hjson : c.name = "attrs_json".toList) :
    ((rowOf kind (record kind r.dict)).lookup (.str c.name)).getD c.default = restored c v := by
  have hc : c ∈ columns kind := (List.of_mem_zip h).1
  obtain ⟨-, hobject, -⟩ := columns_special kind c hc
  obtain ⟨kvs, rfl⟩ := (r.fits_mem h).object (hobject hjson).1 (hobject hjson).2
  have hkvs : attrsOf r.dict = kvs := by
    rw [attrsOf, get, r.lookup_dict (by decide) (by decide), ← hjson, r.lookup_cells h]
    rfl
  rw [lookup_rowOf hc, if_pos hjson, get_attrs_record, hkvs]
  cases kvs with
  | nil => rfl
  | cons => rfl

/-- The resume generation has the key `generation` in the record. -/
theorem column_generation (h : (c, v) ∈ (columns kind).zip r.values)
    (hres : c.name = "resume_generation".toList) :
    ((rowOf kind (record kind r.dict)).lookup (.str c.name)).getD c.default = restored c v := by
  have hc : c ∈ columns kind := (List.of_mem_zip h).1
  obtain ⟨-, -, hresume, -⟩ := columns_special kind c hc
  obtain ⟨rfl, hint, hdefault⟩ := hresume hres
  have hfits := r.fits_mem h
  have hjson : c.name ≠ "attrs_json".toList := by
    rw [hres]
    decide
  have htrace : c.name ≠ "trace_id".toList := by
    rw [hres]
    decide
  have hnode : c.name ≠ "node".toList := by
    rw [hres]
    decide
  have hgone : (drop "attrs".toList (drop "kind".toList (record .span r.dict))).lookup
      (.str "resume_generation".toList) = none := by
    rw [← hres, lookup_popped (by rw [hres]; decide) (by rw [hres]; decide), lookup_body_col h,
      if_neg hnode, if_pos (.inl hres)]
    rfl
  have hval : get "resume_generation".toList r.dict = v := by
    rw [get, r.lookup_dict (by decide) (by decide), ← hres, r.lookup_cells h]
    rfl
  rw [lookup_rowOf hc, if_neg hjson, restored, Column.absent, if_neg htrace, hres,
    lookup_renamed_generation hgone, lookup_popped (by decide) (by decide), lookup_body_generation, hval,
    eq_none_of_notNone hdefault]
  cases v with
  | str s => exact absurd (hint.symm.trans hfits) (by simp)
  | _ => rfl

/-- **A column is read back as it was, unless it was blank.** -/
theorem column_rowOf (h : (c, v) ∈ (columns kind).zip r.values) :
    ((rowOf kind (record kind r.dict)).lookup (.str c.name)).getD c.default = restored c v := by
  have hc : c ∈ columns kind := (List.of_mem_zip h).1
  have hspecial := (columns_names kind).2 c hc
  simp only [List.mem_cons, List.not_mem_nil, or_false, not_or] at hspecial
  obtain ⟨hkind, hattrs, hgen, -⟩ := hspecial
  obtain ⟨-, -, -, hnode, htrace⟩ := columns_special kind c hc
  by_cases hjson : c.name = "attrs_json".toList
  · exact column_attrs h hjson
  by_cases hres : c.name = "resume_generation".toList
  · exact column_generation h hres
  rw [lookup_rowOf hc, if_neg hjson, lookup_renamed hgen fun _ => hres, lookup_popped hkind hattrs,
    lookup_body_col h, restored, Column.absent]
  by_cases hb : blank v = true
  · have hfound : (if c.name = "node".toList then some (if blank v then Value.str [] else v)
        else if c.name = "resume_generation".toList ∨ c.name = "attrs_json".toList ∨ blank v = true then none
        else some v) = if c.name = "node".toList then some (Value.str []) else none := by
      rw [if_pos hb, if_pos (Or.inr (Or.inr hb))]
    rw [hfound, if_pos hb]
    by_cases hn : c.name = "node".toList
    · have hne : c.name ≠ "trace_id".toList := by
        rw [hn]
        decide
      rw [if_pos hn, if_neg fun h' => hne h'.2, if_neg hne, eq_of_textOf (hnode hn).2]
      rfl
    · rw [if_neg hn]
      by_cases ht : c.name = "trace_id".toList
      · by_cases hk : kind = .span
        · rw [if_pos ⟨hk, ht⟩, if_pos ht]
          rfl
        · rw [if_neg fun h' => hk h'.1, if_pos ht, eq_of_textOf (htrace ht hk)]
          rfl
      · rw [if_neg fun h' => ht h'.2, if_neg ht]
        rfl
  · have hkept : (some v).filter notNone = some v := by
      rw [Option.filter_some, if_pos (notNone_of_not_blank hb)]
    have hfound : (if c.name = "node".toList then some (if blank v then Value.str [] else v)
        else if c.name = "resume_generation".toList ∨ c.name = "attrs_json".toList ∨ blank v = true then none
        else some v) = some v := by
      rw [if_neg hb, if_neg (not_or.2 ⟨hres, not_or.2 ⟨hjson, hb⟩⟩)]
      split <;> rfl
    rw [hfound, hkept, if_neg hb]
    split <;> rfl

theorem map_eq_zipWith {α β γ : Type} {f : α → γ} {g : α → β → γ} : ∀ {l : List α} {l' : List β},
    l.length = l'.length → (∀ a b, (a, b) ∈ l.zip l' → f a = g a b) → l.map f = List.zipWith g l l'
  | [], [], _, _ => rfl
  | a :: l, b :: l', hlen, h => by
    rw [List.map_cons, List.zipWith_cons_cons, h a b List.mem_cons_self,
      map_eq_zipWith (by simpa using hlen) fun a' b' hab => h a' b' (List.mem_cons_of_mem _ hab)]

/-- **A record is read back as the row that it was made of**, but for its blank columns. -/
theorem filled_rowOf (r : Row kind) :
    filled kind (rowOf kind (record kind r.dict)) = List.zipWith restored (columns kind) r.values :=
  map_eq_zipWith r.length fun _ _ h => column_rowOf h

/-! ## Writing the file -/

variable {db : Database} {run_id : Text} {run : RunBounds PyFloat} {now : PyFloat} {summary : Option Summary}

/-- `row["_ts"]`. -/
def Row.stamp (r : Row kind) : ℚ := floatOf (Index.get "_ts".toList r.dict)

theorem past_start : toLex (0, 0) < position r ↔ 0 ≤ r.stamp := by
  have hrowid := r.rowid_pos
  rw [position, Prod.Lex.toLex_lt_toLex, ← Row.stamp]
  constructor
  · rintro (h | ⟨h, -⟩)
    · exact h.le
    · exact h.le
  · intro h
    rcases h.lt_or_eq with h | h
    · exact .inl h
    · exact .inr ⟨h, hrowid⟩

theorem nodup_positions : ((archivable db run_id kind).map position).Nodup := by
  have h : ((archivable db run_id kind).map Row.rowid).Nodup :=
    (db.rowids kind).sublist (List.filter_sublist.map _)
  have hsnd : (archivable db run_id kind).map Row.rowid =
      ((archivable db run_id kind).map position).map fun p => (ofLex p).2 := by
    rw [List.map_map]
    rfl
  rw [hsnd] at h
  exact h.of_map

def itemOf (r : Row kind) : Item := { position := position r, kind, record := record kind r.dict }

/-- The rows of a stream. -/
def timely (db : Database) (run_id : Text) (kind : Kind) : List (Row kind) :=
  (archivable db run_id kind).filter fun r => 0 ≤ r.stamp

theorem stream_perm : (stream db run_id kind).Perm ((timely db run_id kind).map itemOf) := by
  rw [stream, Keyset.scan_eq nodup_positions (by decide) (Nat.lt_succ_of_le (Keyset.length_past_le _ _ _))]
  refine List.Perm.map _ ((Keyset.past_perm _ _).trans (List.Perm.of_eq ?_))
  rw [timely]
  refine List.filter_congr fun r _ => ?_
  simp only [past_start]

theorem records_perm (db : Database) (run_id : Text) : (records db run_id).Perm
    ((timely db run_id .span).map itemOf ++ (timely db run_id .log).map itemOf ++
      (timely db run_id .metric).map itemOf) :=
  (List.perm_insertionSort _ _).trans ((stream_perm.append stream_perm).append stream_perm)

theorem filter_itemOf (rows : List (Row kind)) (k : Kind) :
    ((rows.map itemOf).filter fun it => it.kind = k) = if kind = k then rows.map itemOf else [] := by
  split
  · rename_i h
    refine List.filter_eq_self.2 fun it hit => ?_
    obtain ⟨r, -, rfl⟩ := List.mem_map.1 hit
    exact decide_eq_true h
  · rename_i h
    refine List.filter_eq_nil_iff.2 fun it hit => ?_
    obtain ⟨r, -, rfl⟩ := List.mem_map.1 hit
    have hne : (itemOf r).kind ≠ k := h
    simpa using hne

theorem counted_records (k : Kind) : counted k (records db run_id) = (timely db run_id k).length := by
  rw [counted, ((records_perm db run_id).filter _).length_eq, List.filter_append, List.filter_append, filter_itemOf,
    filter_itemOf, filter_itemOf]
  cases k <;> simp

theorem mem_records {it : Item} (h : it ∈ records db run_id) :
    ∃ kind, ∃ r ∈ timely db run_id kind, it = itemOf r := by
  rcases List.mem_append.1 ((records_perm db run_id).mem_iff.1 h) with h | h
  · rcases List.mem_append.1 h with h | h
    · obtain ⟨r, hr, rfl⟩ := List.mem_map.1 h
      exact ⟨_, r, hr, rfl⟩
    · obtain ⟨r, hr, rfl⟩ := List.mem_map.1 h
      exact ⟨_, r, hr, rfl⟩
  · obtain ⟨r, hr, rfl⟩ := List.mem_map.1 h
    exact ⟨_, r, hr, rfl⟩

theorem dict_manifestLine : Dict (manifestLine run now summary) := by
  rw [dict_iff]
  cases summary with
  | none => simp [manifestLine, Key.isStr, Plain, PlainEntries]
  | some v => simp [manifestLine, Key.isStr, Plain, PlainEntries, v.2]

theorem mapM_json : ∀ {ds : List Entries}, (∀ d ∈ ds, Dict d) →
    (ds.mapM fun d => json (.dict d)) = some (ds.map .dict)
  | [], _ => rfl
  | d :: ds, h => by
    rw [List.mapM_cons, json_eq_self _ (h d List.mem_cons_self),
      mapM_json fun d hd => h d (List.mem_cons_of_mem _ hd)]
    rfl

/-- The rows of a run that a file has them all of. -/
def AllTimely (db : Database) (run_id : Text) : Prop :=
  ∀ kind, ∀ r ∈ archivable db run_id kind, 0 ≤ r.stamp

theorem timely_eq (h : AllTimely db run_id) : timely db run_id kind = archivable db run_id kind :=
  List.filter_eq_self.2 fun r hr => decide_eq_true (h kind r hr)

/-- **A file is written if its run has no row from before the epoch.** -/
theorem writeTelemetry_eq (h : AllTimely db run.run_id) : writeTelemetry db (db.counts run) now summary =
    some (.dict (manifestLine (db.counts run) now summary) ::
      (records db run.run_id).map fun it => .dict it.record) := by
  have hdicts : ∀ d ∈ manifestLine (db.counts run) now summary :: (records db run.run_id).map (·.record), Dict d := by
    intro d hd
    rcases List.mem_cons.1 hd with rfl | hd
    · exact dict_manifestLine
    · obtain ⟨it, hit, rfl⟩ := List.mem_map.1 hd
      obtain ⟨kind, r, -, rfl⟩ := mem_records hit
      exact dict_record r
  dsimp only [writeTelemetry]
  rw [if_pos, mapM_json]
  · rw [List.map_cons, List.map_map]
    rfl
  · exact hdicts
  · simp only [Database.counts, counted_records, timely_eq h, and_self]

/-- **A file that is written has every row of the run.** -/
theorem allTimely_of_write {lines : List Value} (h : writeTelemetry db (db.counts run) now summary = some lines) :
    AllTimely db run.run_id := by
  dsimp only [writeTelemetry] at h
  split at h
  · rename_i hcounts
    simp only [Database.counts, counted_records] at hcounts
    have hall : ∀ kind, (timely db run.run_id kind).length = (archivable db run.run_id kind).length := by
      intro kind
      cases kind
      · exact hcounts.1
      · exact hcounts.2.1
      · exact hcounts.2.2
    intro kind r hr
    have := List.length_filter_eq_length_iff.1 (hall kind) r hr
    simpa using this
  · cases h

/-! ## Filling the tables -/

/-- No row breaks a constraint of the table. -/
structure Accepts (kind : Kind) (rows : Table) : Prop where
  complete : ∀ values ∈ rows, ∀ cv ∈ (columns kind).zip values, cv.1.notNull = true → notNone cv.2 = true
  fresh : kind = .span → (rows.filterMap spanId).Nodup

theorem Accepts.perm {rows rows' : Table} (h : Accepts kind rows) (hp : rows.Perm rows') : Accepts kind rows' where
  complete values hv := h.complete values (hp.mem_iff.2 hv)
  fresh hk := (hp.filterMap spanId).nodup_iff.1 (h.fresh hk)

theorem Accepts.sublist {rows rows' : Table} (h : Accepts kind rows) (hs : rows'.Sublist rows) :
    Accepts kind rows' where
  complete values hv := h.complete values (hs.subset hv)
  fresh hk := (h.fresh hk).sublist (hs.filterMap spanId)

/-- A row that breaks no constraint is inserted. -/
theorem insert_eq {table : Table} {row : Entries} (h : Accepts kind (table ++ [filled kind row])) :
    insertOrIgnore kind table row = table ++ [filled kind row] := by
  have hcomplete : (((columns kind).zip (filled kind row)).all fun cv => !cv.1.notNull || notNone cv.2) = true := by
    refine List.all_eq_true.2 fun cv hcv => ?_
    have := h.complete (filled kind row) (List.mem_append_right _ (List.mem_singleton_self _)) cv hcv
    cases hnull : cv.1.notNull with
    | false => rfl
    | true => simpa using this hnull
  have hfresh : (kind ≠ .span || spanId (filled kind row) = none ||
      table.all fun old => spanId old ≠ spanId (filled kind row)) = true := by
    by_cases hk : kind = .span
    · cases hid : spanId (filled kind row) with
      | none => simp
      | some id =>
        have hnodup := h.fresh hk
        rw [List.filterMap_append, List.nodup_append] at hnodup
        have hnew : id ∈ [filled kind row].filterMap spanId := by simp [hid]
        have hall : (table.all fun old => spanId old ≠ some id) = true := by
          refine List.all_eq_true.2 fun old hold => decide_eq_true fun heq => ?_
          exact hnodup.2.2 id (List.mem_filterMap.2 ⟨old, hold, heq⟩) id hnew rfl
        simp only [hall, Bool.or_true]
    · simp [hk]
  dsimp only [insertOrIgnore]
  rw [if_pos (by rw [hcomplete, hfresh]; rfl)]

theorem foldl_insert : ∀ {rows : List Entries} {table : Table},
    Accepts kind (table ++ rows.map (filled kind)) →
      rows.foldl (insertOrIgnore kind) table = table ++ rows.map (filled kind)
  | [], table, _ => (List.append_nil table).symm
  | row :: rows, table, h => by
    have hassoc : table ++ (row :: rows).map (filled kind) =
        (table ++ [filled kind row]) ++ rows.map (filled kind) := by simp
    rw [hassoc] at h ⊢
    rw [List.foldl_cons, insert_eq (h.sublist (List.sublist_append_left _ _)), foldl_insert h]

theorem appendTo_perm (keys : List Text) (row : Entries) : ∀ groups : List (List Text × List Entries),
    ((appendTo keys row groups).flatMap (·.2)).Perm (groups.flatMap (·.2) ++ [row])
  | [] => by simp [appendTo]
  | (keys', rows) :: groups => by
    rw [appendTo]
    split
    · rw [List.flatMap_cons, List.flatMap_cons, List.append_assoc, List.append_assoc]
      exact List.perm_append_comm.append_left rows
    · rw [List.flatMap_cons, List.flatMap_cons, List.append_assoc]
      exact (appendTo_perm keys row groups).append_left rows

/-- The groups have the rows of the batch. -/
theorem byKeys_perm (batch : List Entries) : ((byKeys batch).flatMap (·.2)).Perm batch := by
  have main : ∀ (batch : List Entries) (groups : List (List Text × List Entries)),
      ((batch.foldl (fun groups row => appendTo (keysOf row) row groups) groups).flatMap (·.2)).Perm
        (groups.flatMap (·.2) ++ batch) := by
    intro batch
    induction batch with
    | nil => intro groups; simp
    | cons row batch ih =>
      intro groups
      rw [List.foldl_cons]
      refine (ih _).trans (((appendTo_perm _ _ _).append_right batch).trans (List.Perm.of_eq ?_))
      simp
  exact (main batch []).trans (List.Perm.of_eq (by simp))

/-- **A flush inserts each row of the batch** when the table accepts them. -/
theorem flush_perm {table : Table} {batch : List Entries} (h : Accepts kind (table ++ batch.map (filled kind))) :
    (flush kind table batch).Perm (table ++ batch.map (filled kind)) := by
  have hgroups := (byKeys_perm batch).map (filled kind)
  rw [flush, foldl_insert (h.perm (hgroups.symm.append_left table))]
  exact hgroups.append_left table

/-! ## Reading the file -/

/-- The rows that a file has for a table. -/
def rowsOf (kind : Kind) (lines : List Value) : List Entries :=
  lines.filterMap fun line =>
    match line with
    | .dict record => if kindOf record = some kind then some (rowOf kind record) else none
    | _ => none

/-- What was read is in the table or waits for the next flush. -/
def Building.Holds (b : Building) (lines : List Value) : Prop :=
  ∀ kind, (b.tables kind ++ (b.batches kind).map (filled kind)).Perm ((rowsOf kind lines).map (filled kind))

/-- The tables accept what was read. -/
def Fillable (lines : List Value) : Prop := ∀ kind, Accepts kind ((rowsOf kind lines).map (filled kind))

variable {b : Building} {lines : List Value} {line : Value}

theorem Building.Holds.flush (h : b.Holds lines) (hfill : Fillable lines) (k : Kind) : (b.flush k).Holds lines := by
  intro kind
  by_cases hk : kind = k
  · subst hk
    have hp := flush_perm ((hfill kind).perm (h kind).symm)
    simpa [Building.flush] using hp.trans (h kind)
  · simpa [Building.flush, hk] using h kind

theorem rowsOf_append (kind : Kind) (lines : List Value) (line : Value) :
    rowsOf kind (lines ++ [line]) = rowsOf kind lines ++ rowsOf kind [line] := by
  rw [rowsOf, List.filterMap_append]
  rfl

/-- **A line that is read is not lost.** -/
theorem holds_readLine (h : b.Holds lines) (hfill : Fillable (lines ++ [line])) :
    (readLine b line).Holds (lines ++ [line]) := by
  cases line with
  | dict record =>
    cases hk : kindOf record with
    | none =>
      intro kind
      have hnone : rowsOf kind [.dict record] = [] := by simp [rowsOf, hk]
      rw [rowsOf_append, hnone, List.append_nil]
      simpa [readLine, hk] using h kind
    | some k =>
      -- the row joins its batch, which may be flushed then
      have hbatch : ({ b with batches := Function.update b.batches k (b.batches k ++ [rowOf k record]) } : Building).Holds
          (lines ++ [.dict record]) := by
        intro kind
        rw [rowsOf_append]
        by_cases hkind : kind = k
        · subst hkind
          have hone : rowsOf kind [.dict record] = [rowOf kind record] := by simp [rowsOf, hk]
          rw [hone, List.map_append]
          simpa using (h kind).append_right [filled kind (rowOf kind record)]
        · have hnone : rowsOf kind [.dict record] = [] := by simp [rowsOf, hk, Ne.symm hkind]
          rw [hnone, List.append_nil]
          simpa [hkind] using h kind
      rw [readLine, hk]
      dsimp only
      split
      · exact hbatch.flush hfill k
      · exact hbatch
  | _ =>
    intro kind
    simpa [rowsOf_append, readLine, rowsOf] using h kind

/-- **Each table of an index has the rows that its file has for it**, if it accepts them. -/
theorem buildIndex_perm (hfill : Fillable lines) (kind : Kind) :
    (buildIndex lines kind).Perm ((rowsOf kind lines).map (filled kind)) := by
  have main : ∀ (rest done : List Value) (b : Building), b.Holds done → Fillable (done ++ rest) →
      (rest.foldl readLine b).Holds (done ++ rest) := by
    intro rest
    induction rest with
    | nil => intro done b h _; simpa using h
    | cons line rest ih =>
      intro done b h hfill
      have hassoc : done ++ line :: rest = (done ++ [line]) ++ rest := by simp
      rw [hassoc] at hfill ⊢
      refine ih _ _ (holds_readLine h fun kind => (hfill kind).sublist ?_) hfill
      exact ((List.sublist_append_left (done ++ [line]) rest).filterMap _).map _
  have hstart : ({ tables := fun _ => [], batches := fun _ => [] } : Building).Holds [] :=
    fun kind => List.Perm.refl _
  have h := ((main lines [] _ hstart hfill).flush hfill .span).flush hfill .log |>.flush hfill .metric
  have hkind := h kind
  have hempty : ((((lines.foldl readLine { tables := fun _ => [], batches := fun _ => [] }).flush .span).flush
      .log).flush .metric).batches kind = [] := by
    cases kind <;> simp [Building.flush]
  rw [hempty, List.map_nil, List.append_nil] at hkind
  exact hkind

/-! ## The round trip -/

/-- What the index holds of a row. -/
def Row.restored (r : Row kind) : List Value := List.zipWith Index.restored (columns kind) r.values

theorem mem_zip_zipWith {α β : Type} {g : α → β → β} {a : α} {b : β} : ∀ {l : List α} {l' : List β},
    (a, b) ∈ l.zip (List.zipWith g l l') → ∃ b', (a, b') ∈ l.zip l' ∧ b = g a b'
  | x :: l, y :: l', h => by
    rw [List.zipWith_cons_cons, List.zip_cons_cons, List.mem_cons] at h
    rcases h with h | h
    · cases h
      exact ⟨y, List.mem_cons_self, rfl⟩
    · obtain ⟨b', hb', rfl⟩ := mem_zip_zipWith h
      exact ⟨b', List.mem_cons_of_mem _ hb', rfl⟩
  | [], _, h => by simp at h
  | _ :: _, [], h => by simp at h

theorem zipWith_eq_right {α β : Type} {g : α → β → β} : ∀ {l : List α} {l' : List β}, l.length = l'.length →
    (∀ a b, (a, b) ∈ l.zip l' → g a b = b) → List.zipWith g l l' = l'
  | [], [], _, _ => rfl
  | a :: l, b :: l', hlen, h => by
    rw [List.zipWith_cons_cons, h a b List.mem_cons_self,
      zipWith_eq_right (by simpa using hlen) fun a' b' hab => h a' b' (List.mem_cons_of_mem _ hab)]

/-- What the columns hold when they are left out. -/
theorem columns_absent (kind : Kind) : ∀ c ∈ columns kind,
    (c.notNull = false → c.name ≠ "trace_id".toList ∧ notNone c.default = false) ∧
      (c.notNull = true → c.affinity = .text → notNone c.absent = true ∨
        kind = .metric ∧ c.name = "name".toList) := by
  cases kind <;> decide

/-- The name of a metric that is archived is not empty. -/
theorem name_ne_nil {r : Row .metric} (hr : r ∈ archivable db run_id .metric)
    (h : (c, v) ∈ (columns .metric).zip r.values) (hname : c.name = "name".toList) : v ≠ .str [] := by
  rintro rfl
  have hget : get "name".toList r.cells = .str [] := by
    rw [get, ← hname, r.lookup_cells h]
    rfl
  have hkept := (List.mem_filter.1 hr).2
  rw [Bool.and_eq_true, archived, hget] at hkept
  exact absurd hkept.2 (by decide)

theorem restored_complete {r : Row kind} (hr : r ∈ archivable db run_id kind)
    (h : (c, v) ∈ (columns kind).zip r.values) (hnull : c.notNull = true) : notNone (restored c v) = true := by
  have hfits := r.fits_mem h
  rw [restored]
  split
  · rename_i hb
    cases v with
    | none => exact absurd (hnull.symm.trans hfits) (by simp)
    | str s =>
      have hs : s = [] := by simpa [blank] using hb
      subst hs
      rcases (columns_absent kind c (List.of_mem_zip h).1).2 hnull hfits with habsent | ⟨rfl, hname⟩
      · exact habsent
      · exact absurd rfl (name_ne_nil hr h hname)
    | _ => cases hb
  · rename_i hb
    exact notNone_of_not_blank hb

/-- An empty `span_id` becomes NULL; the others stay distinct. -/
theorem spanId_restored (r : Row .span) : spanId r.restored = (spanId r.values).filter (· ≠ []) := by
  have hfits := r.fits
  have hrestored : r.restored = List.zipWith restored (columns .span) r.values := rfl
  rw [hrestored]
  cases hv : r.values with
  | nil =>
    rw [hv] at hfits
    cases hfits
  | cons v values =>
    have hhead : (List.zipWith restored (columns .span) (v :: values)).head? =
        some (restored (nullable .text "span_id") v) := rfl
    rw [spanId, spanId, hhead]
    cases v with
    | str t =>
      by_cases ht : t = []
      · subst ht
        rfl
      · have hb : blank (.str t) = false := by simpa [blank] using ht
        have hpass : (some t).filter (fun t : Text => decide (t ≠ [])) = some t := by
          rw [Option.filter_some, if_pos (decide_eq_true ht)]
        rw [Option.bind_some, restored, hb, List.head?_cons, Option.bind_some]
        simpa [textOf] using hpass.symm
    | _ => rfl

theorem accepts_restored : Accepts kind ((archivable db run_id kind).map Row.restored) where
  complete values hv cv hcv hnull := by
    obtain ⟨r, hr, rfl⟩ := List.mem_map.1 hv
    obtain ⟨v, hmem, heq⟩ := mem_zip_zipWith hcv
    rw [heq]
    exact restored_complete hr hmem hnull
  fresh hk := by
    subst hk
    have hids : ((archivable db run_id .span).map Row.restored).filterMap spanId =
        ((archivable db run_id .span).filterMap fun r => spanId r.values).filter (· ≠ []) := by
      rw [List.filterMap_map, List.filter_filterMap]
      exact List.filterMap_congr fun r _ => spanId_restored r
    rw [hids]
    exact (db.spanIds.sublist (List.filter_sublist.filterMap _)).sublist List.filter_sublist

theorem kindOf_record (r : Row kind) : kindOf (record kind r.dict) = some kind := by
  rw [kindOf, get_kind_record]
  cases kind <;> decide

theorem kindOf_manifestLine : kindOf (manifestLine run now summary) = none := rfl

theorem rowsOf_items (rows : List (Row kind)) (k : Kind) :
    (rowsOf k (rows.map fun r => .dict (record kind r.dict))).map (filled k) =
      if kind = k then rows.map Row.restored else [] := by
  rw [rowsOf, List.filterMap_map]
  split
  · rename_i h
    subst h
    have hall : (rows.filterMap fun r => some (rowOf kind (record kind r.dict))) =
        rows.map fun r => rowOf kind (record kind r.dict) := congrFun List.filterMap_eq_map rows
    have hsome : (rows.filterMap ((fun line => match line with
        | Value.dict record => if kindOf record = some kind then some (rowOf kind record) else none
        | _ => none) ∘ fun r => Value.dict (record kind r.dict))) =
        rows.filterMap fun r => some (rowOf kind (record kind r.dict)) :=
      List.filterMap_congr fun r _ => by simp [kindOf_record]
    rw [hsome, hall, List.map_map]
    exact List.map_congr_left fun r _ => filled_rowOf r
  · rename_i h
    rw [List.map_eq_nil_iff, List.filterMap_eq_nil_iff]
    intro r _
    simp [kindOf_record, h]

/-- The file has each row of the run for its table. -/
theorem rowsOf_file (hall : AllTimely db run.run_id) (kind : Kind) :
    ((rowsOf kind (.dict (manifestLine (db.counts run) now summary) ::
      (records db run.run_id).map fun it => .dict it.record)).map (filled kind)).Perm
        ((archivable db run.run_id kind).map Row.restored) := by
  have hskip : rowsOf kind (.dict (manifestLine (db.counts run) now summary) ::
      (records db run.run_id).map fun it => .dict it.record) =
        rowsOf kind ((records db run.run_id).map fun it => .dict it.record) := by
    rw [rowsOf, List.filterMap_cons]
    simp [kindOf_manifestLine, rowsOf]
  have hitems : ∀ k, ((timely db run.run_id k).map itemOf).map (fun it => Value.dict it.record) =
      (archivable db run.run_id k).map fun r => .dict (record k r.dict) := by
    intro k
    rw [timely_eq hall, List.map_map]
    rfl
  have hperm := ((records_perm db run.run_id).map fun it => Value.dict it.record).filterMap
    fun line => match line with
      | .dict record => if kindOf record = some kind then some (rowOf kind record) else none
      | _ => none
  rw [hskip]
  refine (hperm.map (filled kind)).trans (List.Perm.of_eq ?_)
  rw [List.map_append, List.map_append, hitems, hitems, hitems, List.filterMap_append, List.filterMap_append,
    List.map_append, List.map_append]
  have hrows := fun k => rowsOf_items (archivable db run.run_id k) kind
  simp only [rowsOf] at hrows
  rw [hrows, hrows, hrows]
  cases kind <;> simp

/-- **What the index of a run has**: its rows, with the defaults of their blank columns. -/
theorem index_perm (hall : AllTimely db run.run_id) (kind : Kind) :
    (buildIndex (.dict (manifestLine (db.counts run) now summary) ::
      (records db run.run_id).map fun it => .dict it.record) kind).Perm
        ((archivable db run.run_id kind).map Row.restored) := by
  have hfill : Fillable (.dict (manifestLine (db.counts run) now summary) ::
      (records db run.run_id).map fun it => .dict it.record) :=
    fun k => accepts_restored.perm (rowsOf_file hall k).symm
  exact (buildIndex_perm hfill kind).trans (rowsOf_file hall kind)

/-- A restorable row is restored as it was. -/
theorem Restorable.restored_eq (h : Restorable r) : r.restored = r.values := by
  refine zipWith_eq_right r.length fun c v hcv => ?_
  rw [restored]
  split
  · rename_i hb
    cases v with
    | none =>
      obtain ⟨hname, hdefault⟩ := (columns_absent kind c (List.of_mem_zip hcv).1).1 (r.fits_mem hcv)
      rw [Column.absent, if_neg hname, eq_none_of_notNone hdefault]
    | str s =>
      have hs : s = [] := by simpa [blank] using hb
      subst hs
      exact h.2 (c, .str []) hcv rfl
    | _ => cases hb
  · rfl

/-- Whatever is restored has the empty text only where it is the default. -/
theorem eq_absent_of_restored (h : restored c v = .str []) : c.absent = .str [] := by
  rw [restored] at h
  split at h
  · exact h
  · rename_i hb
    rw [h] at hb
    exact absurd rfl hb

theorem restorable_of_readsBack (h : ReadsBack db run now summary) (kind : Kind) :
    ∀ r ∈ archivable db run.run_id kind, Restorable r := by
  obtain ⟨lines, hwrite, hperm⟩ := h
  have hall := allTimely_of_write hwrite
  rw [writeTelemetry_eq hall] at hwrite
  cases hwrite
  intro r hr
  refine ⟨hall kind r hr, ?_⟩
  -- the row is one that was restored
  have hmem : r.values ∈ (archivable db run.run_id kind).map Row.restored :=
    ((hperm kind).symm.trans (index_perm hall kind)).mem_iff.1 (List.mem_map_of_mem hr)
  obtain ⟨r', -, heq⟩ := List.mem_map.1 hmem
  intro cv hcv hempty
  rw [← heq] at hcv
  obtain ⟨v', -, hv'⟩ := mem_zip_zipWith hcv
  exact eq_absent_of_restored (hv'.symm.trans hempty)

/-- **The archive of a run reads back as the run was stored if and only if its rows are
restorable.** -/
theorem readsBack_iff (db : Database) (run : RunBounds PyFloat) (now : PyFloat) (summary : Option Summary) :
    ReadsBack db run now summary ↔ ∀ kind, ∀ r ∈ archivable db run.run_id kind, Restorable r := by
  constructor
  · exact restorable_of_readsBack
  · intro h
    have hall : AllTimely db run.run_id := fun kind r hr => (h kind r hr).1
    refine ⟨_, writeTelemetry_eq hall, fun kind => (index_perm hall kind).trans (List.Perm.of_eq ?_)⟩
    exact List.map_congr_left fun r hr => (h kind r hr).restored_eq

/-! ## A run that comes back changed -/

/-- A span of a repository that has no origin: the producer sent `git.origin.start` as `""`. -/
def noOrigin : Row .span where
  rowid := 1
  values := [.str "s1".toList, .str "t1".toList, .str [], .str "run-9".toList, .str "coder".toList,
    .str "repo".toList, .str "main".toList, .str "plan".toList, .str "node:plan".toList, .str [],
    .float (.fin 1 "1.0".toList), .float (.fin 2 "2.0".toList), .str "OK".toList,
    .dict [(.str "git.origin.start".toList, .str [])], .none, .none, .none, .none, .none, .none, .none, .none,
    .none, .none, .none, .none, .none, .none, .str [], .none, .none, .none, .none, .none, .none, .none]
  rowid_pos := Nat.one_pos
  fits := by
    repeat' constructor
    all_goals simp [Key.isStr]

def noOriginStore : Database where
  tables
    | .span => [noOrigin]
    | .log | .metric => []
  rowids kind := by cases kind <;> simp
  spanIds := by simp [noOrigin, spanId, textOf]

def noOriginRun : RunBounds PyFloat where
  run_id := "run-9".toList
  workflow := "coder".toList
  repo := "repo".toList
  branch := "main".toList
  run_dir := []
  min_ts := .fin 1 "1.0".toList
  max_ts := .fin 2 "2.0".toList
  spans := 1
  logs := 0
  metrics := 0

theorem mem_noOriginStore : noOrigin ∈ archivable noOriginStore noOriginRun.run_id .span :=
  List.mem_filter.2 ⟨List.mem_singleton_self _, by decide⟩

/-- The file is written, and in the index the origin is NULL. -/
theorem origin_becomes_null :
    (∃ lines, writeTelemetry noOriginStore (noOriginStore.counts noOriginRun) (.fin 3 "3.0".toList) none =
      some lines) ∧ ¬ ReadsBack noOriginStore noOriginRun (.fin 3 "3.0".toList) none := by
  constructor
  · refine ⟨_, writeTelemetry_eq fun kind r hr => ?_⟩
    have htable : r ∈ noOriginStore.tables kind := List.mem_of_mem_filter hr
    cases kind with
    | span =>
      obtain rfl := List.mem_singleton.1 htable
      exact (by decide : (0 : ℚ) ≤ 1)
    | log => cases htable
    | metric => cases htable
  · intro h
    have hrow := restorable_of_readsBack h .span _ mem_noOriginStore
    have hmem : (nullable .text "origin_start", Value.str []) ∈ (columns .span).zip noOrigin.values :=
      List.mem_iff_getElem.2 ⟨28, by decide, rfl⟩
    have hdefault := congrArg notNone (hrow.2 _ hmem rfl)
    cases hdefault

end Stablemate.Index
