import Stablemate.Lib.Lists
import Stablemate.Model.Digest
import Stablemate.Proof.PyJson

/-!
# Filing then reading

* `stored_row`, `load_save`: what a save leaves for the next load, row by row.
* `payloadDigest_stored`: a stable item has its digest again when it is read back.
* `reads_verify`: **in every run in which only stable items are filed, every read passes the
  digest check and gives what was filed.**
* `int_keys_trip`: a payload with integer keys does not.
-/

namespace Stablemate.Digest

open PyJson

variable {w : WorkList} {it it' : Item} {items : List Item} {s t : State}

/-! ## Rows -/

/-- The item holds what JSON gives. -/
structure Item.Plain (it : Item) : Prop where
  payload : ∀ kvs, it.payload = some kvs → PyJson.Plain (.dict kvs)
  extra : ∀ kx ∈ it.extra, PyJson.Plain kx.2

/-- What is read back of an item that was saved. -/
structure Stored (it it' : Item) : Prop where
  id : it'.id = it.id
  status : it'.status = it.status
  kind : it'.kind = it.kind
  order : it'.order = it.order
  payload : it.payload = none ∧ it'.payload = none ∨
    ∃ kvs kws, it.payload = some kvs ∧ it'.payload = some kws ∧ json (dump (.dict kvs)) = some (.dict kws)
  digest : it'.digest = it.digest
  laps : it'.laps = it.laps
  note : it'.note = it.note
  extra : List.Forall₂ (fun a b => a.1 = b.1 ∧ json (dump a.2) = some b.2) it.extra it'.extra

theorem dumpEntries_append (kvs kws : Entries) :
    dumpEntries (kvs ++ kws) = dumpEntries kvs ++ dumpEntries kws := by
  induction kvs with
  | nil => rw [dumpEntries]; rfl
  | cons kx kvs ih => obtain ⟨k, x⟩ := kx; simp [dumpEntries, ih]

theorem jsonEntries_append (kvs kws : Entries) : jsonEntries (kvs ++ kws) =
    (jsonEntries kvs).bind fun a => (jsonEntries kws).map fun b => a ++ b := by
  induction kvs with
  | nil => simp [jsonEntries]
  | cons kx kvs ih =>
    obtain ⟨k, x⟩ := kx
    simp only [List.cons_append, jsonEntries, ih]
    split
    · rfl
    · cases json x with
      | none => rfl
      | some y => cases jsonEntries kvs <;> cases jsonEntries kws <;> rfl

/-- A field of text or a number is written and read back as it is. -/
theorem jsonEntries_opt (name : String) {x : Option Value} (h : ∀ v, x = some v → PyJson.Plain v) :
    jsonEntries (dumpEntries (opt name x)) = some (opt name x) := by
  cases x with
  | none => simp [opt, dumpEntries, jsonEntries]
  | some v =>
    have hv := h v rfl
    simp [opt, dumpEntries, jsonEntries, dump_of_plain v hv, json_eq_self v hv, Key.text]

theorem plain_opt_text (x : Option Text) : ∀ v, x.map Value.str = some v → PyJson.Plain v := by
  rintro v h
  obtain ⟨s, -, rfl⟩ := Option.map_eq_some_iff.1 h
  simp [PyJson.Plain]

theorem plain_opt_int (x : Option ℤ) : ∀ v, x.map Value.int = some v → PyJson.Plain v := by
  rintro v h
  obtain ⟨s, -, rfl⟩ := Option.map_eq_some_iff.1 h
  simp [PyJson.Plain]

theorem plain_opt_order (x : Option Order) : ∀ v, x.map Order.value = some v → PyJson.Plain v := by
  rintro v h
  obtain ⟨o, -, rfl⟩ := Option.map_eq_some_iff.1 h
  cases o <;> simp [Order.value, PyJson.Plain]

/-- The extra fields read back. -/
theorem extras_json : ∀ {extra : List (Text × Value)} {kvs : Entries},
    jsonEntries (dumpEntries (extra.map fun kx => (.str kx.1, kx.2))) = some kvs →
      ∃ extra' : List (Text × Value), kvs = (extra'.map fun kx => (.str kx.1, kx.2)) ∧
        List.Forall₂ (fun a b => a.1 = b.1 ∧ json (dump a.2) = some b.2) extra extra'
  | [], kvs, h => by
    simp only [List.map_nil, dumpEntries, jsonEntries, Option.some.injEq] at h
    subst h
    exact ⟨[], rfl, .nil⟩
  | (name, x) :: extra, kvs, h => by
    simp only [List.map_cons, dumpEntries, jsonEntries, reduceCtorEq, if_false,
      Option.bind_eq_some_iff, Option.map_eq_some_iff] at h
    obtain ⟨y, hy, rest, hrest, rfl⟩ := h
    obtain ⟨extra', rfl, hall⟩ := extras_json hrest
    exact ⟨(name, y) :: extra', rfl, .cons ⟨rfl, hy⟩ hall⟩

theorem names_forall₂ {R : Value → Value → Prop} : ∀ {extra extra' : List (Text × Value)},
    List.Forall₂ (fun a b => a.1 = b.1 ∧ R a.2 b.2) extra extra' →
      extra'.map (·.1) = extra.map (·.1)
  | _, _, .nil => rfl
  | _, _, .cons h hall => by rw [List.map_cons, List.map_cons, names_forall₂ hall, h.1]

/-- The payload read back. -/
theorem payload_json {payload : Option Entries} {kvs : Entries}
    (h : jsonEntries (dumpEntries (opt "payload" (payload.map .dict))) = some kvs) :
    ∃ payload' : Option Entries, kvs = opt "payload" (payload'.map .dict) ∧
      (payload = none ∧ payload' = none ∨ ∃ kvs kws, payload = some kvs ∧ payload' = some kws ∧
        json (dump (.dict kvs)) = some (.dict kws)) := by
  cases payload with
  | none =>
    simp only [Option.map_none, opt, dumpEntries, jsonEntries, Option.some.injEq] at h
    exact ⟨none, h.symm, .inl ⟨rfl, rfl⟩⟩
  | some p =>
    simp only [Option.map_some, opt, dumpEntries, jsonEntries, reduceCtorEq, if_false,
      Option.bind_eq_some_iff, Option.some.injEq] at h
    obtain ⟨v, hv, rfl⟩ := h
    have hd := hv
    simp only [dump, json, Option.map_eq_some_iff] at hd
    obtain ⟨kws, -, rfl⟩ := hd
    exact ⟨some (ofPairs kws), rfl, .inr ⟨p, _, rfl, rfl, hv⟩⟩

/-- **A row that can be written is read back as the row of a stored item.** -/
theorem stored_row {kvs : Entries} (h : jsonEntries (dumpEntries it.row) = some kvs) :
    ∃ it', Stored it it' ∧ kvs = it'.row := by
  simp only [Item.row, dumpEntries_append, jsonEntries_append, jsonEntries_opt _ (plain_opt_text _),
    jsonEntries_opt _ (plain_opt_int _), jsonEntries_opt _ (plain_opt_order _), Option.bind_some,
    Option.map_some, Option.bind_eq_some_iff, Option.map_eq_some_iff, Option.some.injEq] at h
  obtain ⟨_, ⟨_, ⟨_, ⟨_, ⟨p, hp, rfl⟩, rfl⟩, rfl⟩, rfl⟩, e, he, rfl⟩ := h
  obtain ⟨payload', rfl, hpayload⟩ := payload_json hp
  obtain ⟨extra', rfl, hextra⟩ := extras_json he
  have hnames := names_forall₂ (R := fun x y => json (dump x) = some y) hextra
  refine ⟨{ it with
    payload := payload'
    extra := extra'
    extra_names := ?_ }, ⟨rfl, rfl, rfl, rfl, hpayload, rfl, rfl, rfl, hextra⟩, rfl⟩
  refine ⟨hnames ▸ it.extra_names.1, fun kx hkx => ?_⟩
  have hmem : kx.1 ∈ it.extra.map (·.1) := hnames ▸ List.mem_map_of_mem hkx
  obtain ⟨kx', hkx', heq⟩ := List.mem_map.1 hmem
  exact heq ▸ it.extra_names.2 kx' hkx'

/-- A stored item holds what JSON gives. -/
theorem Stored.plain (h : Stored it it') : it'.Plain where
  payload kvs hkvs := by
    rcases h.payload with ⟨-, hnone⟩ | ⟨_, kws, -, hsome, hjson⟩
    · rw [hnone] at hkvs; cases hkvs
    · rw [hsome] at hkvs
      cases hkvs
      exact plain_of_json _ _ hjson
  extra kx hkx := by
    obtain ⟨kx', -, -, hjson⟩ := exists_of_forall₂ h.extra kx hkx
    exact plain_of_json _ _ hjson

/-- An item that holds what JSON gives is stored as it is. -/
theorem Stored.eq_of_plain (h : Stored it it') (hp : it.Plain) : it' = it := by
  have hpayload : it'.payload = it.payload := by
    rcases h.payload with ⟨h1, h2⟩ | ⟨kvs, kws, h1, h2, hjson⟩
    · rw [h1, h2]
    · have hplain := hp.payload kvs h1
      rw [dump_of_plain _ hplain, json_eq_self _ hplain] at hjson
      cases hjson
      rw [h1, h2]
  have hextra : it'.extra = it.extra := by
    refine (List.forall₂_eq_eq_eq ▸ forall₂_imp_mem h.extra fun a ha b _ hab => ?_ : _ = _).symm
    have hplain := hp.extra a ha
    rw [dump_of_plain _ hplain, json_eq_self _ hplain, Option.some.injEq] at hab
    exact Prod.ext hab.1 hab.2
  cases it
  cases it'
  obtain ⟨rfl, rfl, rfl, rfl, -, rfl, rfl, rfl, -⟩ := h
  simp_all

/-! ## Reading a row -/

theorem get_append (kvs kws : Entries) (name : String) :
    get (kvs ++ kws) name = (get kvs name).or (get kws name) := List.lookup_append

/-- A field is found by its name. -/
theorem get_opt (name name' : String) (x : Option Value) :
    get (opt name x) name' = if name' = name then x else none := by
  cases x with
  | none => simp [get, opt]
  | some v =>
    unfold get opt
    rw [List.lookup_cons]
    by_cases h : name' = name
    · simp [h]
    · have hne : (Key.str name'.toList == Key.str name.toList) = false := by
        simpa using fun heq => h (String.toList_inj.1 heq)
      rw [hne, if_neg h]
      rfl

/-- No extra field has a field's name. -/
theorem get_extras (it : Item) (name : String) (hname : name.toList ∈ fieldNames) :
    get it.extras name = none := by
  unfold get
  rw [List.lookup_eq_none_iff]
  intro kx hkx
  obtain ⟨kx, hextra, rfl⟩ := List.mem_map.1 hkx
  have hne : name.toList ≠ kx.1 := fun heq => it.extra_names.2 kx hextra (heq ▸ hname)
  simpa using hne

theorem extraOf_opt {name : String} (hname : name.toList ∈ fieldNames) (x : Option Value) :
    extraOf (opt name x) = [] := by
  cases x <;> simp [extraOf, opt, hname]

theorem extraOf_extras : extraOf it.extras = it.extra := by
  unfold extraOf Item.extras
  rw [List.filterMap_map]
  refine (List.filterMap_congr fun kx hkx => ?_).trans List.filterMap_some
  simp [it.extra_names.2 kx hkx]

theorem extraOf_row : extraOf it.row = it.extra := by
  have happend : ∀ kvs kws, extraOf (kvs ++ kws) = extraOf kvs ++ extraOf kws :=
    fun kvs kws => List.filterMap_append
  simp only [Item.row, happend, extraOf_extras]
  rw [extraOf_opt (by decide), extraOf_opt (by decide), extraOf_opt (by decide), extraOf_opt (by decide),
    extraOf_opt (by decide), extraOf_opt (by decide), extraOf_opt (by decide), extraOf_opt (by decide)]
  rfl

theorem field_map {α : Type*} {kvs : Entries} {name : String} {read : Value → Option α} {f : α → Value}
    (hread : ∀ a, read (f a) = some a) {x : Option α} (h : get kvs name = x.map f) :
    field kvs name read = some x := by
  unfold field
  rw [h]
  cases x with
  | none => rfl
  | some a => simp [hread]

/-- **A row that was written is validated to its item.** -/
theorem validate_row (hp : it.Plain) : validate (.dict it.row) = some it := by
  have hid : field it.row "id" readText = some it.id :=
    field_map (f := Value.str) (fun _ => rfl)
      (by simp [Item.row, get_append, get_opt, get_extras it "id" (by decide)])
  have hstatus : field it.row "status" readText = some it.status :=
    field_map (f := Value.str) (fun _ => rfl)
      (by simp [Item.row, get_append, get_opt, get_extras it "status" (by decide)])
  have hkind : field it.row "kind" readText = some it.kind :=
    field_map (f := Value.str) (fun _ => rfl)
      (by simp [Item.row, get_append, get_opt, get_extras it "kind" (by decide)])
  have horder : field it.row "order" readOrder = some it.order :=
    field_map (f := Order.value) (fun o => by cases o <;> rfl)
      (by simp [Item.row, get_append, get_opt, get_extras it "order" (by decide)])
  have hdigest : field it.row "digest" readText = some it.digest :=
    field_map (f := Value.str) (fun _ => rfl)
      (by simp [Item.row, get_append, get_opt, get_extras it "digest" (by decide)])
  have hlaps : field it.row "laps" readInt = some it.laps :=
    field_map (f := Value.int) (fun _ => rfl)
      (by simp [Item.row, get_append, get_opt, get_extras it "laps" (by decide)])
  have hnote : field it.row "note" readText = some it.note :=
    field_map (f := Value.str) (fun _ => rfl)
      (by simp [Item.row, get_append, get_opt, get_extras it "note" (by decide)])
  have hpayload : field it.row "payload" readPayload = some it.payload := by
    have hget : get it.row "payload" = it.payload.map .dict := by
      simp [Item.row, get_append, get_opt, get_extras it "payload" (by decide)]
    unfold field
    rw [hget]
    cases hkvs : it.payload with
    | none => rfl
    | some kvs =>
      have hplain := hp.payload kvs hkvs
      rw [PyJson.Plain] at hplain
      simpa [readPayload] using fun k x hkx => hplain.1.1 (k, x) hkx
  simp only [validate, hid, hstatus, hkind, horder, hpayload, hdigest, hlaps, hnote,
    Option.bind_eq_bind, Option.bind_some, extraOf_row]
  rw [dif_pos it.extra_names]

theorem keys_opt (name : String) (x : Option Value) :
    ((opt name x).map (·.1)).Sublist [Key.str name.toList] := by
  cases x with
  | none => exact List.nil_sublist _
  | some v => exact List.Sublist.refl _

theorem mem_opt {name : String} {x : Option Value} {kx : Key × Value} (h : kx ∈ opt name x) :
    x = some kx.2 := by
  cases x with
  | none => cases h
  | some v => rw [List.mem_singleton.1 h]

/-- A row's keys are names, each once. -/
theorem keys_row (it : Item) :
    (it.row.map (·.1)).Sublist ((fieldNames ++ it.extra.map (·.1)).map Key.str) := by
  have hextras : it.extras.map (·.1) = (it.extra.map (·.1)).map Key.str := by simp [Item.extras]
  simp only [Item.row, List.map_append, hextras]
  exact ((((((((keys_opt _ _).append (keys_opt _ _)).append (keys_opt _ _)).append (keys_opt _ _)).append
    (keys_opt _ _)).append (keys_opt _ _)).append (keys_opt _ _)).append (keys_opt _ _)).append
    (List.Sublist.refl _)

/-- **The row of an item that holds what JSON gives is such a value.** -/
theorem plain_row (hp : it.Plain) : PyJson.Plain (.dict it.row) := by
  rw [PyJson.Plain, plainEntries_iff]
  refine ⟨⟨fun kx hkx => ?_, ?_⟩, fun kx hkx => ?_⟩
  · obtain ⟨name, -, heq⟩ := List.mem_map.1 ((keys_row it).subset (List.mem_map_of_mem hkx))
    rw [← heq]
    rfl
  · refine List.Nodup.sublist (keys_row it) (List.Nodup.map (fun _ _ h => Key.str.inj h) ?_)
    refine List.nodup_append.2 ⟨by decide, it.extra_names.1, ?_⟩
    rintro name hname _ hextra rfl
    obtain ⟨kx, hkx, rfl⟩ := List.mem_map.1 hextra
    exact it.extra_names.2 kx hkx hname
  · simp only [Item.row, List.mem_append] at hkx
    rcases hkx with (((((((h | h) | h) | h) | h) | h) | h) | h) | h
    · exact plain_opt_text _ _ (mem_opt h)
    · exact plain_opt_text _ _ (mem_opt h)
    · exact plain_opt_text _ _ (mem_opt h)
    · exact plain_opt_order _ _ (mem_opt h)
    · obtain ⟨kvs, hkvs, heq⟩ := Option.map_eq_some_iff.1 (mem_opt h)
      exact heq ▸ hp.payload kvs hkvs
    · exact plain_opt_text _ _ (mem_opt h)
    · exact plain_opt_int _ _ (mem_opt h)
    · exact plain_opt_text _ _ (mem_opt h)
    · obtain ⟨kx', hkx', rfl⟩ := List.mem_map.1 h
      exact hp.extra kx' hkx'

/-! ## Saving and loading -/

/-- The file holds what JSON gives. -/
def PlainFile (file : Option Value) : Prop := ∀ data, file = some data → PyJson.Plain data

theorem stored_rows : ∀ {items : List Item} {vs : List Value},
    jsonList (dumpList (items.map fun it => .dict it.row)) = some vs →
      ∃ items', List.Forall₂ Stored items items' ∧ vs = items'.map fun it => .dict it.row
  | [], vs, h => by
    simp only [List.map_nil, dumpList, jsonList, Option.some.injEq] at h
    subst h
    exact ⟨[], .nil, rfl⟩
  | it :: items, vs, h => by
    simp only [List.map_cons, dumpList, dump, jsonList, json, Option.bind_eq_some_iff,
      Option.map_eq_some_iff] at h
    obtain ⟨v, ⟨kvs, hkvs, rfl⟩, rest, hrest, rfl⟩ := h
    obtain ⟨it', hit', rfl⟩ := stored_row hkvs
    obtain ⟨items', hitems', rfl⟩ := stored_rows hrest
    refine ⟨it' :: items', .cons hit' hitems', ?_⟩
    have hplain := plain_row hit'.plain
    rw [PyJson.Plain] at hplain
    rw [ofPairs_eq_self hplain.1.2]
    rfl

theorem validateAll_rows : ∀ {items : List Item}, (∀ it ∈ items, it.Plain) →
    validateAll (items.map fun it => .dict it.row) = some items
  | [], _ => rfl
  | it :: items, h => by
    rw [List.map_cons, validateAll, validate_row (h it List.mem_cons_self),
      validateAll_rows fun it hit => h it (List.mem_cons_of_mem _ hit)]
    rfl

/-- What is written under a key is found under it. -/
theorem lookup_jsonEntries {k : Text} : ∀ {kvs kws : Entries} {x : Value},
    (∀ kx ∈ kvs, kx.1.isStr = true) → jsonEntries kvs = some kws → kvs.lookup (.str k) = some x →
      ∃ y, json x = some y ∧ kws.lookup (.str k) = some y
  | (k', x') :: kvs, kws, x, hstr, h, hx => by
    have hk' := hstr (k', x') List.mem_cons_self
    cases k' with
    | str name =>
      simp only [jsonEntries, reduceCtorEq, if_false, Option.bind_eq_some_iff, Option.map_eq_some_iff] at h
      obtain ⟨y, hy, rest, hrest, rfl⟩ := h
      rw [List.lookup_cons] at hx ⊢
      rw [Key.text]
      cases heq : (Key.str k == Key.str name) with
      | true =>
        rw [heq] at hx
        cases hx
        exact ⟨y, hy, rfl⟩
      | false =>
        rw [heq] at hx
        exact lookup_jsonEntries (fun kx hkx => hstr kx (List.mem_cons_of_mem _ hkx)) hrest hx
    | _ => simp [Key.isStr] at hk'

/-- Rows that were written are read back item by item. -/
theorem validateAll_stored {vs : List Value}
    (h : jsonList (dumpList (items.map fun it => .dict it.row)) = some vs) :
    ∃ items', List.Forall₂ Stored items items' ∧ validateAll vs = some items' := by
  obtain ⟨items', hall, rfl⟩ := stored_rows h
  refine ⟨items', hall, validateAll_rows fun it hit => ?_⟩
  obtain ⟨_, -, hst⟩ := exists_of_forall₂ hall it hit
  exact hst.plain

/-- A file whose rows stand under a key is read back. -/
theorem load_keyed {kvs : Entries} {data : Value} (hstr : ∀ kx ∈ kvs, kx.1.isStr = true)
    (hnodup : (kvs.map (·.1)).Nodup)
    (hlookup : kvs.lookup (.str w.itemsKey) = some (.list (dumpList (items.map fun it => .dict it.row))))
    (hjson : json (.dict kvs) = some data) (hkey : w.itemsKey ≠ []) :
    ∃ items', List.Forall₂ Stored items items' ∧ load w (some data) = some items' := by
  rw [json, Option.map_eq_some_iff] at hjson
  obtain ⟨kws, hkws, rfl⟩ := hjson
  obtain ⟨v, hv, hfound⟩ := lookup_jsonEntries hstr hkws hlookup
  rw [json, Option.map_eq_some_iff] at hv
  obtain ⟨vs, hvs, rfl⟩ := hv
  obtain ⟨items', hall, hrows⟩ := validateAll_stored hvs
  -- the keys are text, so that they are written as they are
  have hself : (kvs.map fun kx => kx.1.read) = kvs.map (·.1) := by
    refine List.map_congr_left fun kx hkx => ?_
    have hisStr := hstr kx hkx
    cases hk : kx.1 with
    | str s => rfl
    | _ => rw [hk] at hisStr; cases hisStr
  have hkeys : (kws.map (·.1)).Nodup := by
    rw [keys_jsonEntries hkws, hself]
    exact hnodup
  refine ⟨items', hall, ?_⟩
  rw [ofPairs_eq_self hkeys]
  simp only [load, if_neg hkey, hfound, Option.getD_some, orEmpty, Option.bind_some]
  exact hrows

/-- **What a save leaves, the next load reads**, item by item. -/
theorem load_save {file file' : Option Value} {data : Value} (hfile : PlainFile file)
    (h : save w file items = some data) (hfile' : file' = some data) :
    (∃ items', List.Forall₂ Stored items items' ∧ load w file' = some items') ∧ PlainFile file' := by
  subst hfile'
  have hplain : ∀ {v : Value}, json v = some data → PlainFile (some data) := fun hjson data' hdata => by
    cases hdata
    exact plain_of_json _ _ hjson
  unfold save at h
  dsimp only at h
  split at h
  · -- the rows are the whole file
    rename_i hkey
    have hdata := hplain h
    rw [json, Option.map_eq_some_iff] at h
    obtain ⟨vs, hvs, rfl⟩ := h
    obtain ⟨items', hall, hrows⟩ := validateAll_stored hvs
    refine ⟨⟨items', hall, ?_⟩, hdata⟩
    simp only [load, if_pos hkey, orEmpty, Option.bind_some]
    exact hrows
  · rename_i hkey
    split at h
    · -- the other keys of the file stay
      rename_i kvs
      have hold := hfile _ rfl
      rw [PyJson.Plain] at hold
      exact ⟨load_keyed (isStr_setItem hold.1.1) (nodup_setItem _ _ hold.1.2) (lookup_setItem_self _ _ _) h hkey,
        hplain h⟩
    · exact ⟨load_keyed (by simp [Key.isStr]) (by simp) (by simp) h hkey, hplain h⟩

theorem plain_rows (h : ∀ it ∈ items, it.Plain) :
    PyJson.Plain (.list (items.map fun it => .dict it.row)) := by
  rw [PyJson.Plain, plainList_iff]
  intro v hv
  obtain ⟨it, hit, rfl⟩ := List.mem_map.1 hv
  exact plain_row (h it hit)

/-- Items that hold what JSON gives can be saved. -/
theorem save_plain {file : Option Value} (hfile : PlainFile file) (h : ∀ it ∈ items, it.Plain) :
    ∃ data, save w file items = some data := by
  have hrows := plain_rows h
  have hdump : Value.list (dumpList (items.map fun it => .dict it.row)) =
      .list (items.map fun it => .dict it.row) := by
    simpa [dump] using dump_of_plain _ hrows
  unfold save
  dsimp only
  rw [hdump]
  split
  · exact ⟨_, json_eq_self _ hrows⟩
  · split
    · rename_i kvs
      have hplain := hfile _ rfl
      rw [PyJson.Plain, plainEntries_iff] at hplain
      refine ⟨_, json_eq_self _ ?_⟩
      rw [PyJson.Plain, plainEntries_iff]
      refine ⟨⟨isStr_setItem hplain.1.1, nodup_setItem _ _ hplain.1.2⟩, fun kx hkx => ?_⟩
      rcases mem_setItem hkx with hkx | rfl
      · exact hplain.2 kx hkx
      · exact hrows
    · refine ⟨_, json_eq_self _ ?_⟩
      rw [PyJson.Plain, plainEntries_iff]
      simpa [Key.isStr] using hrows

/-! ## The digest -/

theorem stableEntries_iff {kvs : Entries} : stableEntries kvs = true ↔ ∀ kx ∈ kvs, stable kx.2 = true := by
  induction kvs with
  | nil => simp [stableEntries]
  | cons kx kvs ih => obtain ⟨k, x⟩ := kx; simp [stableEntries, ih]

/-- Distinct names are in the order of their texts when they are sorted. -/
theorem stableKeys_names {names : List Text} (h : names.Nodup) : stableKeys (names.map .str) = true := by
  have hsort : (names.map Key.str).insertionSort (fun k l => Key.lt l k = false) =
      (names.insertionSort (· ≤ ·)).map Key.str :=
    (List.map_insertionSort _ _ _ names fun a _ b _ => by simp [Key.lt]).symm
  unfold stableKeys
  rw [hsort, List.map_map, decide_eq_true_eq]
  have hle := List.pairwise_insertionSort (· ≤ ·) names
  have hne : (names.insertionSort (· ≤ ·)).Nodup := (List.perm_insertionSort _ names).nodup_iff.2 h
  have hlt : (names.insertionSort (· ≤ ·)).Pairwise (· < ·) :=
    (hle.and hne).imp fun hab => lt_of_le_of_ne hab.1 hab.2
  simpa [Function.comp_def, Key.text] using hlt

/-- What is stored of a stable item is what it holds. -/
theorem Stored.same (h : Stored it it') (hs : it.Stable) : Same it it' where
  id := by rw [Item.getId, h.id]; rfl
  kind := by rw [Item.getKind, h.kind]; rfl
  payload := by
    have hstable := hs.1
    rcases h.payload with ⟨h1, h2⟩ | ⟨kvs, kws, h1, h2, hjson⟩
    · simp [Item.getPayload, h1, h2, json, jsonEntries, ofPairs]
    · rw [Item.getPayload, h1, Option.getD_some] at hstable ⊢
      rw [Item.getPayload, h2, Option.getD_some]
      rwa [dump_of_stable _ hstable] at hjson
  extra := forall₂_imp_mem h.extra fun a ha b _ hab => by
    rw [dump_of_stable _ (hs.2 a ha)] at hab
    exact hab

/-- The names of the content. -/
def contentNames (it : Item) : List Text :=
  it.extra.map (·.1) ++ ["id".toList, "kind".toList, "payload".toList]

theorem keys_content (it : Item) : it.content.map (·.1) = (contentNames it).map Key.str := by
  simp [Item.content, Item.extras, contentNames]

theorem nodup_contentNames (it : Item) : (contentNames it).Nodup := by
  refine List.nodup_append.2 ⟨it.extra_names.1, by decide, ?_⟩
  rintro name hextra _ hname rfl
  obtain ⟨kx, hkx, rfl⟩ := List.mem_map.1 hextra
  refine it.extra_names.2 kx hkx ?_
  have hsub : ["id".toList, "kind".toList, "payload".toList] ⊆ fieldNames := by decide
  exact hsub hname

/-- The content is read back as the content. -/
theorem json_content (h : Same it it') : json (.dict it.content) = some (.dict it'.content) := by
  have hextras : ∀ {extra extra' : List (Text × Value)},
      List.Forall₂ (fun a b => a.1 = b.1 ∧ json a.2 = some b.2) extra extra' →
        jsonEntries (extra.map fun kx => (Key.str kx.1, kx.2)) =
          some (extra'.map fun kx => (Key.str kx.1, kx.2)) := by
    intro extra extra' hall
    induction hall with
    | nil => simp [jsonEntries]
    | cons hab _ ih => simp [jsonEntries, hab.2, ih, hab.1, Key.text]
  have hentries : jsonEntries it.content = some it'.content := by
    unfold Item.content
    rw [jsonEntries_append, Item.extras, hextras h.extra]
    simp only [jsonEntries, reduceCtorEq, if_false, h.payload]
    simp [json, Key.text, h.id, h.kind, Item.extras]
  have hnodup : (it'.content.map (·.1)).Nodup := by
    rw [keys_content]
    exact (nodup_contentNames it').map fun _ _ heq => Key.str.inj heq
  rw [json, hentries, Option.map_some, ofPairs_eq_self hnodup]

theorem stable_content (hs : it.Stable) : stable (.dict it.content) = true := by
  rw [stable, Bool.and_eq_true, keys_content, stableEntries_iff]
  refine ⟨stableKeys_names (nodup_contentNames it), fun kx hkx => ?_⟩
  rcases List.mem_append.1 hkx with hkx | hkx
  · obtain ⟨kx', hkx', rfl⟩ := List.mem_map.1 hkx
    exact hs.2 kx' hkx'
  · simp only [List.mem_cons, List.not_mem_nil, or_false] at hkx
    rcases hkx with rfl | rfl | rfl
    · simp [stable]
    · simp [stable]
    · exact hs.1

/-- **A stable item has its digest again when it is read back.** -/
theorem payloadDigest_stored (h : Same it it') (hs : it.Stable) {digest : Text}
    (hd : it.payloadDigest = some digest) : it'.payloadDigest = some digest := by
  obtain ⟨text, htext, rfl⟩ := Option.map_eq_some_iff.1 hd
  unfold Item.payloadDigest
  rw [canonical_json _ _ _ (stable_content hs) htext (json_content h), Option.map_some]

/-! ## A file that is there already -/

theorem plain_of_lookup {kvs : Entries} {k : Key} {v : Value} (hp : PlainEntries kvs)
    (h : kvs.lookup k = some v) : PyJson.Plain v := by
  obtain ⟨pre, post, rfl, -⟩ := List.lookup_eq_some_iff.1 h
  exact plainEntries_iff.1 hp (k, v) (by simp)

/-- An item that was read from what JSON gives holds what JSON gives. -/
theorem plain_of_validate {v : Value} (hp : PyJson.Plain v) (h : validate v = some it) : it.Plain := by
  cases v with
  | dict kvs =>
    rw [PyJson.Plain] at hp
    simp only [validate, Option.bind_eq_bind, Option.bind_eq_some_iff] at h
    obtain ⟨id, -, status, -, kind, -, order, -, payload, hpayload, digest, -, laps, -, note, -, h⟩ := h
    split at h
    · cases h
      refine ⟨fun kvs' hkvs' => ?_, fun kx hkx => ?_⟩
      · dsimp only at hkvs'
        subst hkvs'
        unfold field at hpayload
        split at hpayload
        · cases hpayload
        · rename_i v hv
          obtain ⟨kvs'', hread, heq⟩ := Option.map_eq_some_iff.1 hpayload
          cases heq
          have hv := plain_of_lookup hp.2 hv
          cases v with
          | dict kvs =>
            simp only [readPayload] at hread
            split at hread
            · cases hread
              exact hv
            · cases hread
          | _ => cases hread
      · obtain ⟨kx', hkx', heq⟩ := List.mem_filterMap.1 hkx
        split at heq
        · split at heq
          · cases heq
          · cases heq
            exact plainEntries_iff.1 hp.2 kx' hkx'
        · cases heq
    · cases h
  | _ => cases h

theorem plain_of_validateAll : ∀ {vs : List Value} {items : List Item}, PlainList vs →
    validateAll vs = some items → ∀ it ∈ items, it.Plain
  | [], items, _, h, it, hit => by cases h; cases hit
  | v :: vs, items, hp, h, it, hit => by
    rw [PlainList] at hp
    simp only [validateAll, Option.bind_eq_some_iff, Option.map_eq_some_iff] at h
    obtain ⟨it₀, h₀, rest, hrest, rfl⟩ := h
    rcases List.mem_cons.1 hit with rfl | hit
    · exact plain_of_validate hp.1 h₀
    · exact plain_of_validateAll hp.2 hrest it hit

theorem plain_of_orEmpty {v : Value} {vs : List Value} (hp : PyJson.Plain v) (h : orEmpty v = some vs) :
    PlainList vs := by
  unfold orEmpty at h
  split at h
  · cases h
    rwa [PyJson.Plain] at hp
  all_goals
    first
      | cases h; trivial
      | split at h <;> cases h; trivial
      | cases h

theorem plain_of_load {file : Option Value} (hfile : PlainFile file) (h : load w file = some items) :
    ∀ it ∈ items, it.Plain := by
  cases file with
  | none => cases h; simp
  | some data =>
    have hdata := hfile data rfl
    simp only [load] at h
    split at h
    · obtain ⟨vs, hvs, hall⟩ := Option.bind_eq_some_iff.1 h
      exact plain_of_validateAll (plain_of_orEmpty hdata hvs) hall
    · split at h
      · rename_i kvs
        rw [PyJson.Plain] at hdata
        obtain ⟨vs, hvs, hall⟩ := Option.bind_eq_some_iff.1 h
        refine plain_of_validateAll (plain_of_orEmpty ?_ hvs) hall
        cases hl : kvs.lookup (.str w.itemsKey) with
        | none => simp [PyJson.Plain, PlainList]
        | some v => exact plain_of_lookup hdata.2 hl
      · cases h

/-! ## Runs -/

theorem read_eq {file : Option Value} :
    read w file = some items ↔ load w file = some items ∧ verify items = true := by
  unfold read
  rw [Option.bind_eq_some_iff]
  constructor
  · rintro ⟨items', hload, h⟩
    split at h
    · cases h
      exact ⟨hload, ‹_›⟩
    · cases h
  · rintro ⟨hload, hverify⟩
    exact ⟨items, hload, if_pos hverify⟩

/-- **The invariant of the list.** -/
structure Inv (w : WorkList) (s : State) (items : List Item) : Prop where
  read : read w s.file = some items
  ids : (items.map Item.getId).Nodup
  plain : ∀ it ∈ items, it.Plain
  filed : ∀ it ∈ items, ∃ f, s.filed it.getId = some f ∧ Same f it
  file : PlainFile s.file

/-- Two items with the same content and the same digest. -/
structure Body (it it' : Item) : Prop where
  id : it'.id = it.id
  kind : it'.kind = it.kind
  payload : it'.payload = it.payload
  digest : it'.digest = it.digest
  extra : it'.extra = it.extra

theorem Body.refl (it : Item) : Body it it := ⟨rfl, rfl, rfl, rfl, rfl⟩

theorem Body.payloadDigest (h : Body it it') : it'.payloadDigest = it.payloadDigest := by
  simp only [Item.payloadDigest, Item.content, Item.extras, Item.getId, Item.getKind, Item.getPayload,
    h.id, h.kind, h.payload, h.extra]

theorem Body.plain (h : Body it it') (hp : it.Plain) : it'.Plain where
  payload := by rw [h.payload]; exact hp.payload
  extra := by rw [h.extra]; exact hp.extra

theorem Body.same {f : Item} (h : Body it it') (hs : Same f it) : Same f it' where
  id := by rw [Item.getId, h.id]; exact hs.id
  kind := by rw [Item.getKind, h.kind]; exact hs.kind
  payload := by
    have hpayload : it'.getPayload = it.getPayload := by unfold Item.getPayload; rw [h.payload]
    rw [hpayload]
    exact hs.payload
  extra := by rw [h.extra]; exact hs.extra

/-- The item passes `verify`. -/
def Verified (it : Item) : Prop := it.getDigest = [] ∨ it.payloadDigest = some it.getDigest

theorem verify_iff : verify items = true ↔ ∀ it ∈ items, Verified it := by
  simp [verify, Verified]

/-- **Items that keep their content can be stored**, and are read back as they are. -/
theorem Inv.store (h : Inv w s items) {items' : List Item} (hids : (items'.map Item.getId).Nodup)
    (hbody : ∀ it' ∈ items', ∃ it ∈ items, Body it it') :
    ∃ t, store w s items' = some t ∧ Inv w t items' := by
  have hplain : ∀ it' ∈ items', it'.Plain := fun it' hit' => by
    obtain ⟨it, hit, hb⟩ := hbody it' hit'
    exact hb.plain (h.plain it hit)
  obtain ⟨data, hsave⟩ := save_plain (w := w) h.file hplain
  obtain ⟨⟨items'', hstored, hload⟩, hfile⟩ := load_save h.file hsave rfl
  have heq : items' = items'' :=
    List.forall₂_eq_eq_eq ▸ forall₂_imp_mem hstored fun a ha b _ hab => (hab.eq_of_plain (hplain a ha)).symm
  subst heq
  -- neither the content nor the digest has changed, so the check passes as before
  refine ⟨{ s with file := some data }, by rw [Digest.store, hsave]; rfl, ?_, hids, hplain, ?_, hfile⟩
  · refine read_eq.2 ⟨hload, verify_iff.2 fun it' hit' => ?_⟩
    obtain ⟨it, hit, hb⟩ := hbody it' hit'
    have hv := verify_iff.1 (read_eq.1 h.read).2 it hit
    unfold Verified at hv ⊢
    rwa [hb.payloadDigest, Item.getDigest, hb.digest]
  · intro it' hit'
    obtain ⟨it, hit, hb⟩ := hbody it' hit'
    obtain ⟨f, hf, hsame⟩ := h.filed it hit
    refine ⟨f, ?_, hb.same hsame⟩
    rw [Item.getId, hb.id]
    exact hf

theorem Inv.store_map (h : Inv w s items) {f : Item → Item} (hbody : ∀ it, Body it (f it)) :
    ∃ t, Digest.store w s (items.map f) = some t ∧ Inv w t (items.map f) := by
  refine h.store ?_ fun it' hit' => ?_
  · have hid : ∀ it, (f it).getId = it.getId := fun it => by unfold Item.getId; rw [(hbody it).id]
    have hmap : (items.map f).map Item.getId = items.map Item.getId := by
      rw [List.map_map]
      exact List.map_congr_left fun it _ => hid it
    rw [hmap]
    exact h.ids
  · obtain ⟨it, hit, rfl⟩ := List.mem_map.1 hit'
    exact ⟨it, hit, hbody it⟩

/-- An update keeps the invariant. -/
theorem Inv.update (h : Inv w s items) (ids : List Text) (kind : Stablemate.WorkList.KindFilter)
    {apply : Item → Item} (hbody : ∀ it, Body it (apply it)) :
    ∃ t, update w s ids kind apply = some t ∧ ∃ items', Inv w t items' := by
  unfold Digest.update
  split
  · exact ⟨s, rfl, items, h⟩
  · rw [h.read, Option.bind_some]
    dsimp only
    split
    · obtain ⟨t, ht, hinv⟩ := h.store_map (f := fun it =>
        if (ids.contains it.getId && it.view.isKind kind) = true then apply it else it)
        fun it => by split; exacts [hbody it, Body.refl it]
      exact ⟨t, ht, _, hinv⟩
    · exact ⟨s, rfl, items, h⟩

/-- **Every operation that files nothing is accepted** and keeps the invariant. -/
theorem Inv.other (h : Inv w s items) {op : Op} (hop : ∀ batch, op ≠ .add batch) :
    ∃ t, step w s op = some t ∧ ∃ items', Inv w t items' := by
  cases op with
  | add batch => exact absurd rfl (hop batch)
  | claim n kind skip status strict =>
    simp only [step, h.read, Option.bind_some]
    split
    · exact ⟨s, rfl, items, h⟩
    · obtain ⟨t, ht, hinv⟩ := h.store_map (f := fun it =>
        if (((Stablemate.WorkList.nextRows w.scheme skip kind strict n (items.map Item.view)).map
          (·.id)).contains it.getId) = true then
          { it with status := some status, laps := some (it.laps.getD 0 + 1) } else it)
        fun it => by split; exacts [⟨rfl, rfl, rfl, rfl, rfl⟩, Body.refl it]
      exact ⟨t, ht, _, hinv⟩
  | settle ids status kind => exact h.update ids kind fun _ => ⟨rfl, rfl, rfl, rfl, rfl⟩
  | mark id status kind note => exact h.update [id] kind fun _ => ⟨rfl, rfl, rfl, rfl, rfl⟩
  | requeue ids note kind => exact h.update ids kind fun _ => ⟨rfl, rfl, rfl, rfl, rfl⟩
  | prune id kind =>
    simp only [step, h.read, Option.bind_some]
    split
    · exact ⟨s, rfl, items, h⟩
    · obtain ⟨t, ht, hinv⟩ := h.store (h.ids.sublist (List.filter_sublist.map _))
        fun it hit => ⟨it, (List.mem_filter.1 hit).1, Body.refl it⟩
      exact ⟨t, ht, _, hinv⟩
  | read => exact ⟨s, by simp [step, h.read], items, h⟩

/-- The items of a batch are stamped one by one. -/
theorem stampAll_some : ∀ {batch stamped : List Item}, stampAll batch = some stamped →
    List.Forall₂ (fun it f => ∃ digest, it.payloadDigest = some digest ∧
      f = { it with digest := some digest }) batch stamped
  | [], stamped, h => by cases h; exact .nil
  | it :: batch, stamped, h => by
    simp only [stampAll, stamp, Option.bind_eq_some_iff, Option.map_eq_some_iff] at h
    obtain ⟨_, ⟨digest, hdigest, rfl⟩, rest, hrest, rfl⟩ := h
    exact .cons ⟨digest, hdigest, rfl⟩ (stampAll_some hrest)

/-- What a filing puts on the list: the batch, stamped, as it is read back. -/
structure Filing (items batch stamped new : List Item) : Prop where
  ids : (batch.map Item.getId).Nodup
  apart : ∀ it ∈ batch, it.getId ∉ items.map Item.getId
  stamps : List.Forall₂ (fun it f => ∃ digest, it.payloadDigest = some digest ∧
    f = { it with digest := some digest }) batch stamped
  stored : List.Forall₂ Stored stamped new

/-- A filing that goes through leaves the list with the new items at its end. -/
theorem Inv.filing (h : Inv w s items) {batch : List Item} (ht : step w s (.add batch) = some t) :
    t = s ∨ ∃ stamped new, Filing items batch stamped new ∧ load w t.file = some (items ++ new) ∧
      PlainFile t.file ∧ ∀ id, t.filed id = (stamped.find? fun f => f.getId = id).or (s.filed id) := by
  simp only [step, h.read, Option.bind_some] at ht
  split at ht
  swap
  · cases ht
  rename_i hfresh
  obtain ⟨stamped, hstamped, ht⟩ := Option.bind_eq_some_iff.1 ht
  split at ht
  · exact .inl (Option.some.inj ht).symm
  obtain ⟨data, hsave, rfl⟩ := Option.map_eq_some_iff.1 ht
  obtain ⟨⟨items', hstored, hload⟩, hfile⟩ := load_save h.file hsave rfl
  obtain ⟨old, new, hold, hnew, rfl⟩ := forall₂_append hstored
  -- what was on the list is read back as it is
  obtain rfl : items = old :=
    List.forall₂_eq_eq_eq ▸ forall₂_imp_mem hold fun a ha b _ hab => (hab.eq_of_plain (h.plain a ha)).symm
  exact .inr ⟨stamped, new, ⟨hfresh.1, hfresh.2, stampAll_some hstamped, hnew⟩, hload, hfile,
    fun _ => rfl⟩

variable {batch stamped new : List Item}

theorem Filing.stamped_ids (hf : Filing items batch stamped new) :
    stamped.map Item.getId = batch.map Item.getId := by
  refine map_eq_of_forall₂ (hf.stamps.imp ?_)
  rintro it _ ⟨digest, -, rfl⟩
  rfl

theorem Filing.new_ids (hf : Filing items batch stamped new) :
    new.map Item.getId = stamped.map Item.getId :=
  map_eq_of_forall₂ (hf.stored.imp fun f it' hst => by unfold Item.getId; rw [hst.id])

/-- No item of the list has the id of a stamped one. -/
theorem Filing.not_stamped (hf : Filing items batch stamped new) (hit : it ∈ items) :
    it.getId ∉ stamped.map Item.getId := by
  intro hmem
  rw [hf.stamped_ids] at hmem
  obtain ⟨it', hit', heq⟩ := List.mem_map.1 hmem
  exact hf.apart it' hit' (heq ▸ List.mem_map_of_mem hit)

/-- A new item on the list, the stamped item, and the item of the batch. -/
theorem Filing.exists_three (hf : Filing items batch stamped new) (hs : ∀ it ∈ batch, it.Stable)
    (hit' : it' ∈ new) : ∃ f ∈ stamped, Stored f it' ∧ f.Stable ∧ f.payloadDigest = some f.getDigest := by
  obtain ⟨f, hmem, hst⟩ := exists_of_forall₂ hf.stored it' hit'
  obtain ⟨it, hit, digest, hdigest, rfl⟩ := exists_of_forall₂ hf.stamps f hmem
  exact ⟨_, hmem, hst, hs it hit, hdigest⟩

/-- The filing records each new item. -/
theorem Filing.find_new (hf : Filing items batch stamped new) (hs : ∀ it ∈ batch, it.Stable)
    (hit : it ∈ new) : ∃ f, (stamped.find? fun f => f.getId = it.getId) = some f ∧ Same f it := by
  obtain ⟨f, hmem, hst, hstable, -⟩ := hf.exists_three hs hit
  have hid : it.getId = f.getId := (hst.same hstable).id
  obtain ⟨f', hf'⟩ : ∃ f', (stamped.find? fun f => f.getId = it.getId) = some f' :=
    Option.isSome_iff_exists.1 (List.find?_isSome.2 ⟨f, hmem, by simp [hid]⟩)
  have heq : f'.getId = it.getId := by simpa using List.find?_some hf'
  have hnodup : (stamped.map Item.getId).Nodup := hf.stamped_ids ▸ hf.ids
  refine ⟨f, ?_, hst.same hstable⟩
  rw [hf', eq_of_key hnodup (List.mem_of_find?_eq_some hf') hmem (heq.trans hid)]

/-- **Filing stable items keeps the invariant.** -/
theorem Inv.add (h : Inv w s items) (hs : ∀ it ∈ batch, it.Stable)
    (ht : step w s (.add batch) = some t) : ∃ items', Inv w t items' := by
  rcases h.filing ht with rfl | ⟨stamped, new, hf, hload, hfile, hfiled⟩
  · exact ⟨items, h⟩
  refine ⟨items ++ new, read_eq.2 ⟨hload, verify_iff.2 fun it hit => ?_⟩, ?_, fun it hit => ?_,
    fun it hit => ?_, hfile⟩
  · -- the digests: those of the new items are the ones that they were stamped with
    rcases List.mem_append.1 hit with hit | hit
    · exact verify_iff.1 (read_eq.1 h.read).2 it hit
    · obtain ⟨f, -, hst, hstable, hdigest⟩ := hf.exists_three hs hit
      right
      rw [Item.getDigest, hst.digest]
      exact payloadDigest_stored (hst.same hstable) hstable hdigest
  · -- the ids
    rw [List.map_append, List.nodup_append]
    refine ⟨h.ids, ?_, ?_⟩
    · rw [hf.new_ids, hf.stamped_ids]
      exact hf.ids
    · rintro _ hold _ hnew rfl
      obtain ⟨it, hit, rfl⟩ := List.mem_map.1 hold
      rw [hf.new_ids] at hnew
      exact hf.not_stamped hit hnew
  · rcases List.mem_append.1 hit with hit | hit
    · exact h.plain it hit
    · obtain ⟨f, -, hst, -⟩ := hf.exists_three hs hit
      exact hst.plain
  · -- what is filed under an id of the list stays, and the new items are filed as stamped
    rw [hfiled]
    rcases List.mem_append.1 hit with hit | hit
    · obtain ⟨f, hf', hsame⟩ := h.filed it hit
      have hnone : (stamped.find? fun f => f.getId = it.getId) = none := by
        rw [List.find?_eq_none]
        intro f' hmem heq
        exact hf.not_stamped hit (of_decide_eq_true heq ▸ List.mem_map_of_mem hmem)
      exact ⟨f, by rw [hnone, Option.none_or, hf'], hsame⟩
    · obtain ⟨f, hfind, hsame⟩ := hf.find_new hs hit
      exact ⟨f, by rw [hfind]; rfl, hsame⟩

/-- The list as it is found. -/
theorem inv_init {file : Option Value} (hfile : PlainFile file) (hread : read w file = some items)
    (hids : (items.map Item.getId).Nodup) : Inv w (init w file) items where
  read := hread
  ids := hids
  plain := plain_of_load hfile (read_eq.1 hread).1
  filed := by
    intro it hit
    have hplain := plain_of_load hfile (read_eq.1 hread).1
    obtain ⟨f, hf⟩ : ∃ f, (items.find? fun f => f.getId = it.getId) = some f :=
      Option.isSome_iff_exists.1 (List.find?_isSome.2 ⟨it, hit, by simp⟩)
    have hid : f.getId = it.getId := by simpa using List.find?_some hf
    obtain rfl : f = it := eq_of_key hids (List.mem_of_find?_eq_some hf) hit hid
    refine ⟨f, by simp [init, hread, hf], rfl, rfl, ?_, ?_⟩
    · cases hp : f.payload with
      | none => simp [Item.getPayload, hp, json, jsonEntries, ofPairs]
      | some kvs =>
        rw [Item.getPayload, hp]
        exact json_eq_self _ ((hplain f hit).payload kvs hp)
    · exact List.forall₂_same.2 fun kx hkx => ⟨rfl, json_eq_self _ ((hplain f hit).extra kx hkx)⟩
  file := hfile

/-- Only stable items are filed. -/
def FilesStable (_ : State) (op : Op) : Prop := ∀ batch, op = .add batch → ∀ it ∈ batch, it.Stable

/-- **Filing then reading.** From a list that can be read, in every run in which only stable
items are filed: every operation that files nothing is accepted, so no read finds a digest that
does not match, and each item on the list has the id, the kind, the payload and the extra fields
that it was filed with, as JSON reads them back. -/
theorem reads_verify {file : Option Value} {ops : List Op} (hfile : PlainFile file)
    (hread : read w file = some items) (hids : (items.map Item.getId).Nodup)
    (hstable : Run.Along (step w) FilesStable (init w file) ops)
    (hr : Run.run (step w) (init w file) ops = some s) :
    (∃ items', read w s.file = some items' ∧
      ∀ it ∈ items', ∃ f, s.filed it.getId = some f ∧ Same f it) ∧
    ∀ op, (∀ batch, op ≠ .add batch) → ∃ t, step w s op = some t := by
  have hstep : ∀ s op t, (∃ items, Inv w s items) → FilesStable s op → step w s op = some t →
      ∃ items, Inv w t items := by
    rintro s op t ⟨items, hs⟩ hop ht
    by_cases hadd : ∃ batch, op = .add batch
    · obtain ⟨batch, rfl⟩ := hadd
      exact hs.add (hop batch rfl) ht
    · obtain ⟨u, hu, hinv⟩ := hs.other fun batch heq => hadd ⟨batch, heq⟩
      rw [ht] at hu
      cases hu
      exact hinv
  obtain ⟨items', hinv⟩ := Run.inv_run_of hstep hstable ⟨items, inv_init hfile hread hids⟩ hr
  refine ⟨⟨items', hinv.read, hinv.filed⟩, fun op hop => ?_⟩
  obtain ⟨t, ht, -⟩ := hinv.other hop
  exact ⟨t, ht⟩

/-- A list that is the whole of its file, with the default scheme. -/
def wholeFile : WorkList where
  itemsKey := []
  scheme := { done := ["done".toList], active := ["active".toList], blocked := ["blocked".toList] }

theorem no_extra_names : (([] : List (Text × Value)).map (·.1)).Nodup ∧ ∀ kx ∈ ([] : List (Text × Value)), kx.1 ∉ fieldNames :=
  ⟨List.nodup_nil, fun _ h => (List.not_mem_nil h).elim⟩

/-- An item with one value in its payload. -/
def oneItem (x : Value) : Item where
  id := some "a".toList
  status := none
  kind := none
  order := none
  payload := some [(.str "m".toList, x)]
  digest := none
  laps := none
  note := none
  extra := []
  extra_names := no_extra_names

/-- A payload with the integer keys 2 and 3 is filed, claimed and read. -/
theorem reads_verify_one : ∃ s, Run.run (step wholeFile) (init wholeFile none)
      [.add [oneItem (.dict [(.int 2, .none), (.int 3, .none)])], .claim 1 none [] "active".toList false]
        = some s ∧ ∃ items, read wholeFile s.file = some items ∧
      ∀ it ∈ items, ∃ f, s.filed it.getId = some f ∧ Same f it := by
  obtain ⟨s, hs⟩ : ∃ s, Run.run (step wholeFile) (init wholeFile none)
      [.add [oneItem (.dict [(.int 2, .none), (.int 3, .none)])], .claim 1 none [] "active".toList false]
        = some s := Option.isSome_iff_exists.1 (by decide +kernel)
  refine ⟨s, hs, (reads_verify (fun _ h => by cases h)
    (show read wholeFile none = some [] from rfl) List.nodup_nil ?_ hs).1⟩
  refine ⟨?_, fun _ _ => ⟨?_, fun _ _ => trivial⟩⟩
  · rintro batch heq it hit
    cases heq
    rw [List.mem_singleton.1 hit]
    exact ⟨by decide, by simp [oneItem]⟩
  · rintro batch heq
    cases heq

/-- **A payload with the integer keys 2 and 10 is filed, and the next read refuses it**: `add`
sorts the keys as numbers, the read as text. So does a payload with a model in it, whose digest
covers its `str` and whose row has its fields. -/
theorem int_keys_trip :
    ((Run.run (step wholeFile) (init wholeFile none)
        [.add [oneItem (.dict [(.int 2, .none), (.int 10, .none)])]]).bind fun s =>
      load wholeFile s.file).map verify = some false ∧
    ((Run.run (step wholeFile) (init wholeFile none)
        [.add [oneItem (.model "a=1".toList [(.str "a".toList, .int 1)])]]).bind fun s =>
      load wholeFile s.file).map verify = some false := by
  constructor <;> decide +kernel

end Stablemate.Digest
