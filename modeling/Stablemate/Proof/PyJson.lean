import Mathlib.Data.List.Nodup
import Stablemate.Lib.Lists
import Stablemate.Model.PyJson

/-!
# The round trip through JSON

* `json_eq_self`: a value that `json.loads` can give (`Plain`) is read back as it is.
* `plain_of_json`: whatever was read back is such a value.
* `canonical_json`: a stable value has the same canonical text after the round trip.
-/

namespace Stablemate.PyJson

variable {v w : Value} {vs ws : List Value} {kvs kws : Entries}

/-! ## Setting items -/

theorem setItem_of_not_mem {k : Key} {x : Value} (h : k ∉ kvs.map (·.1)) :
    setItem k x kvs = kvs ++ [(k, x)] := by
  induction kvs with
  | nil => rfl
  | cons kx kvs ih =>
    rw [List.map_cons, List.mem_cons, not_or] at h
    rw [setItem, if_neg (Ne.symm h.1), ih h.2]
    rfl

/-- Setting an item keeps the keys, or adds one at the end. -/
theorem keys_setItem (k : Key) (x : Value) (kvs : Entries) :
    (setItem k x kvs).map (·.1) = if k ∈ kvs.map (·.1) then kvs.map (·.1) else kvs.map (·.1) ++ [k] := by
  induction kvs with
  | nil => simp [setItem]
  | cons kx kvs ih =>
    obtain ⟨k', x'⟩ := kx
    by_cases hk : k' = k
    · simp [setItem, hk]
    · simp only [setItem, if_neg hk, List.map_cons, ih, List.mem_cons, Ne.symm hk, false_or]
      split <;> rfl

theorem nodup_setItem (k : Key) (x : Value) (h : (kvs.map (·.1)).Nodup) :
    ((setItem k x kvs).map (·.1)).Nodup := by
  rw [keys_setItem]
  split
  · exact h
  · rename_i hnot
    refine List.nodup_append.2 ⟨h, by simp, ?_⟩
    rintro _ ha _ hb rfl
    exact hnot (List.mem_singleton.1 hb ▸ ha)

theorem mem_setItem {k : Key} {x : Value} {kx : Key × Value} (h : kx ∈ setItem k x kvs) :
    kx ∈ kvs ∨ kx = (k, x) := by
  induction kvs with
  | nil => exact .inr (List.mem_singleton.1 h)
  | cons kx' kvs ih =>
    obtain ⟨k', x'⟩ := kx'
    rw [setItem] at h
    split at h
    · rename_i hk
      rcases List.mem_cons.1 h with rfl | h
      · exact .inr (by rw [hk])
      · exact .inl (List.mem_cons_of_mem _ h)
    · rcases List.mem_cons.1 h with rfl | h
      · exact .inl List.mem_cons_self
      · exact (ih h).imp_left (List.mem_cons_of_mem _)

theorem isStr_setItem {k : Text} {x : Value} (h : ∀ kx ∈ kvs, kx.1.isStr = true) :
    ∀ kx ∈ setItem (.str k) x kvs, kx.1.isStr = true := by
  intro kx hkx
  rcases mem_setItem hkx with hkx | rfl
  · exact h kx hkx
  · rfl

/-! ## Looking up -/

theorem lookup_setItem (k k' : Key) (x : Value) (kvs : Entries) :
    (setItem k x kvs).lookup k' = if k' = k then some x else kvs.lookup k' := by
  induction kvs with
  | nil =>
    by_cases hk : k' = k
    · simp [setItem, hk]
    · have hne : (k' == k) = false := by simpa using hk
      simp [setItem, List.lookup_cons, hne, hk]
  | cons kx kvs ih =>
    obtain ⟨l, y⟩ := kx
    rw [setItem]
    split
    · rename_i h
      subst h
      by_cases hk : k' = l
      · simp [hk]
      · have hne : (k' == l) = false := by simpa using hk
        simp [List.lookup_cons, hne, hk]
    · rename_i h
      rw [List.lookup_cons, List.lookup_cons, ih]
      by_cases hk : k' = l
      · have hkk : ¬ k' = k := fun h' => h (hk ▸ h')
        simp [hk, h]
      · have hne : (k' == l) = false := by simpa using hk
        simp [hne]

theorem lookup_setItem_self (k : Key) (x : Value) (kvs : Entries) : (setItem k x kvs).lookup k = some x := by
  rw [lookup_setItem, if_pos rfl]

/-- With distinct keys, an entry is what is found under its key. -/
theorem lookup_of_mem (h : (kvs.map (·.1)).Nodup) {k : Key} {x : Value} (hx : (k, x) ∈ kvs) :
    kvs.lookup k = some x := by
  induction kvs with
  | nil => cases hx
  | cons kx kvs ih =>
    obtain ⟨l, y⟩ := kx
    rw [List.map_cons, List.nodup_cons] at h
    rcases List.mem_cons.1 hx with heq | hx
    · cases heq
      simp
    · have hne : (k == l) = false := by
        have : k ≠ l := fun hkl => h.1 (hkl ▸ List.mem_map.2 ⟨_, hx, rfl⟩)
        simpa using this
      rw [List.lookup_cons, hne]
      exact ih h.2 hx

theorem mem_of_lookup {k : Key} {x : Value} (h : kvs.lookup k = some x) : (k, x) ∈ kvs := by
  obtain ⟨pre, post, rfl, -⟩ := List.lookup_eq_some_iff.1 h
  simp

theorem lookup_filter_value (h : (kvs.map (·.1)).Nodup) (q : Value → Bool) (k : Key) :
    (kvs.filter fun kx => q kx.2).lookup k = (kvs.lookup k).filter q := by
  induction kvs with
  | nil => simp
  | cons kx kvs ih =>
    obtain ⟨l, y⟩ := kx
    rw [List.map_cons, List.nodup_cons] at h
    by_cases hk : k = l
    · subst hk
      by_cases hq : q y = true
      · simp [hq, Option.filter]
      · have hnone : kvs.lookup k = none := by
          rw [List.lookup_eq_none_iff]
          intro kx hkx
          have : k ≠ kx.1 := fun hkl => h.1 (List.mem_map.2 ⟨_, hkx, hkl.symm⟩)
          simpa using this
        rw [List.filter_cons_of_neg (by simpa using hq), ih h.2, hnone]
        simp [hq, Option.filter]
    · have hne : (k == l) = false := by simpa using hk
      by_cases hq : q y = true
      · rw [List.filter_cons_of_pos (by simpa using hq), List.lookup_cons, List.lookup_cons, hne, ih h.2]
      · rw [List.filter_cons_of_neg (by simpa using hq), List.lookup_cons, hne, ih h.2]

/-- Entries with distinct keys are a dictionary as they stand. -/
theorem ofPairs_eq_self (h : (kvs.map (·.1)).Nodup) : ofPairs kvs = kvs := by
  have main : ∀ (rest d : Entries), ((d ++ rest).map (·.1)).Nodup →
      rest.foldl (fun d kx => setItem kx.1 kx.2 d) d = d ++ rest := by
    intro rest
    induction rest with
    | nil => intro d _; simp
    | cons kx rest ih =>
      intro d hd
      have hnot : kx.1 ∉ d.map (·.1) := by
        rw [List.map_append, List.nodup_append] at hd
        exact fun hmem => hd.2.2 _ hmem _ (by simp) rfl
      rw [List.foldl_cons, setItem_of_not_mem hnot, ih _ (by simpa using hd)]
      simp
  exact main kvs [] h

theorem nodup_ofPairs (kvs : Entries) : ((ofPairs kvs).map (·.1)).Nodup := by
  have main : ∀ (rest d : Entries), (d.map (·.1)).Nodup →
      ((rest.foldl (fun d kx => setItem kx.1 kx.2 d) d).map (·.1)).Nodup := by
    intro rest
    induction rest with
    | nil => exact fun d hd => hd
    | cons kx rest ih =>
      intro d hd
      exact ih _ (nodup_setItem kx.1 kx.2 hd)
  exact main kvs [] List.nodup_nil

theorem mem_ofPairs {kx : Key × Value} (h : kx ∈ ofPairs kvs) : kx ∈ kvs := by
  have main : ∀ (rest d : Entries), kx ∈ rest.foldl (fun d kx => setItem kx.1 kx.2 d) d →
      kx ∈ d ∨ kx ∈ rest := by
    intro rest
    induction rest with
    | nil => exact fun d hd => .inl hd
    | cons kx' rest ih =>
      intro d hd
      rcases ih _ hd with hd | hd
      · rcases mem_setItem hd with hd | rfl
        · exact .inl hd
        · exact .inr List.mem_cons_self
      · exact .inr (List.mem_cons_of_mem _ hd)
  exact (main kvs [] h).resolve_left (by simp)

/-! ## What JSON gives -/

theorem plainEntries_iff : PlainEntries kvs ↔ ∀ kx ∈ kvs, Plain kx.2 := by
  induction kvs with
  | nil => simp [PlainEntries]
  | cons kx kvs ih => obtain ⟨k, x⟩ := kx; simp [PlainEntries, ih]

theorem plainList_iff : PlainList vs ↔ ∀ v ∈ vs, Plain v := by
  induction vs with
  | nil => simp [PlainList]
  | cons v vs ih => simp [PlainList, ih]

mutual

/-- **What JSON gives is read back as it is.** -/
theorem json_eq_self : ∀ v : Value, Plain v → json v = some v
  | .none, _ | .bool _, _ | .int _, _ | .float _, _ | .str _, _ => by simp [json]
  | .list xs, h => by
    rw [Plain] at h
    rw [json, jsonList_eq_self xs h]
    rfl
  | .dict kvs, h => by
    rw [Plain] at h
    rw [json, jsonEntries_eq_self kvs h.1.1 h.2, Option.map_some, ofPairs_eq_self h.1.2]
  | .tuple _, h | .model .., h | .other _, h => by simp [Plain] at h

theorem jsonList_eq_self : ∀ vs : List Value, PlainList vs → jsonList vs = some vs
  | [], _ => by rw [jsonList]
  | x :: xs, h => by
    rw [PlainList] at h
    rw [jsonList, json_eq_self x h.1, jsonList_eq_self xs h.2]
    rfl

theorem jsonEntries_eq_self : ∀ kvs : Entries, (∀ kx ∈ kvs, kx.1.isStr = true) → PlainEntries kvs →
    jsonEntries kvs = some kvs
  | [], _, _ => by rw [jsonEntries]
  | (k, x) :: kvs, hk, h => by
    rw [PlainEntries] at h
    have hstr := hk (k, x) List.mem_cons_self
    cases k with
    | str s =>
      rw [jsonEntries, if_neg (by simp), json_eq_self x h.1,
        jsonEntries_eq_self kvs (fun kx hkx => hk kx (List.mem_cons_of_mem _ hkx)) h.2]
      rfl
    | _ => simp [Key.isStr] at hstr

end

mutual

/-- What is read back is what JSON gives. -/
theorem plain_of_json : ∀ v w : Value, json v = some w → Plain w
  | .none, w, h | .bool _, w, h | .int _, w, h | .float _, w, h | .str _, w, h => by
    simp only [json, Option.some.injEq] at h
    subst h
    simp [Plain]
  | .list xs, w, h | .tuple xs, w, h => by
    simp only [json, Option.map_eq_some_iff] at h
    obtain ⟨ys, hys, rfl⟩ := h
    rw [Plain]
    exact plainList_of_json xs ys hys
  | .dict kvs, w, h => by
    simp only [json, Option.map_eq_some_iff] at h
    obtain ⟨kws, hkws, rfl⟩ := h
    obtain ⟨hstr, hplain⟩ := plainEntries_of_json kvs kws hkws
    rw [Plain, plainEntries_iff]
    exact ⟨⟨fun kx hkx => hstr kx (mem_ofPairs hkx), nodup_ofPairs kws⟩,
      fun kx hkx => plainEntries_iff.1 hplain kx (mem_ofPairs hkx)⟩
  | .model .., w, h | .other _, w, h => by simp [json] at h

theorem plainList_of_json : ∀ vs ws : List Value, jsonList vs = some ws → PlainList ws
  | [], ws, h => by
    simp only [jsonList, Option.some.injEq] at h
    subst h
    rw [PlainList]
    trivial
  | x :: xs, ws, h => by
    simp only [jsonList, Option.bind_eq_some_iff, Option.map_eq_some_iff] at h
    obtain ⟨y, hy, ys, hys, rfl⟩ := h
    rw [PlainList]
    exact ⟨plain_of_json x y hy, plainList_of_json xs ys hys⟩

theorem plainEntries_of_json : ∀ kvs kws : Entries, jsonEntries kvs = some kws →
    (∀ kx ∈ kws, kx.1.isStr = true) ∧ PlainEntries kws
  | [], kws, h => by
    simp only [jsonEntries, Option.some.injEq] at h
    subst h
    simp [PlainEntries]
  | (k, x) :: kvs, kws, h => by
    rw [jsonEntries] at h
    split at h
    · cases h
    · simp only [Option.bind_eq_some_iff, Option.map_eq_some_iff] at h
      obtain ⟨y, hy, rest, hrest, rfl⟩ := h
      obtain ⟨hstr, hplain⟩ := plainEntries_of_json kvs rest hrest
      rw [PlainEntries]
      refine ⟨fun kx hkx => ?_, plain_of_json x y hy, hplain⟩
      rcases List.mem_cons.1 hkx with rfl | hkx
      · rfl
      · exact hstr kx hkx

end

/-! ## `model_dump` -/

mutual

/-- What JSON gives is dumped as it is. -/
theorem dump_of_plain : ∀ v : Value, Plain v → dump v = v
  | .none, _ | .bool _, _ | .int _, _ | .float _, _ | .str _, _ => by simp [dump]
  | .list xs, h => by
    rw [Plain] at h
    rw [dump, dumpList_of_plain xs h]
  | .dict kvs, h => by
    rw [Plain] at h
    rw [dump, dumpEntries_of_plain kvs h.2]
  | .tuple _, h | .model .., h | .other _, h => by simp [Plain] at h

theorem dumpList_of_plain : ∀ vs : List Value, PlainList vs → dumpList vs = vs
  | [], _ => by rw [dumpList]
  | x :: xs, h => by
    rw [PlainList] at h
    rw [dumpList, dump_of_plain x h.1, dumpList_of_plain xs h.2]

theorem dumpEntries_of_plain : ∀ kvs : Entries, PlainEntries kvs → dumpEntries kvs = kvs
  | [], _ => by rw [dumpEntries]
  | (k, x) :: kvs, h => by
    rw [PlainEntries] at h
    rw [dumpEntries, dump_of_plain x h.1, dumpEntries_of_plain kvs h.2]

end

mutual

/-- A stable value has no model in it, and is dumped as it is. -/
theorem dump_of_stable : ∀ v : Value, stable v = true → dump v = v
  | .none, _ | .bool _, _ | .int _, _ | .float _, _ | .str _, _ | .other _, _ => by simp [dump]
  | .list xs, h | .tuple xs, h => by
    rw [stable] at h
    rw [dump, dumpList_of_stable xs h]
  | .dict kvs, h => by
    rw [stable, Bool.and_eq_true] at h
    rw [dump, dumpEntries_of_stable kvs h.2]
  | .model .., h => by simp [stable] at h

theorem dumpList_of_stable : ∀ vs : List Value, stableList vs = true → dumpList vs = vs
  | [], _ => by rw [dumpList]
  | x :: xs, h => by
    rw [stableList, Bool.and_eq_true] at h
    rw [dumpList, dump_of_stable x h.1, dumpList_of_stable xs h.2]

theorem dumpEntries_of_stable : ∀ kvs : Entries, stableEntries kvs = true → dumpEntries kvs = kvs
  | [], _ => by rw [dumpEntries]
  | (k, x) :: kvs, h => by
    rw [stableEntries, Bool.and_eq_true] at h
    rw [dumpEntries, dump_of_stable x h.1, dumpEntries_of_stable kvs h.2]

end

/-! ## The canonical text -/

/-- The key as it is read back. -/
def Key.read (k : Key) : Key := .str k.text

theorem keys_canonicalEntries : ∀ {kvs : Entries} {kts : List (Key × Text)},
    canonicalEntries kvs = some kts → kts.map (·.1) = kvs.map (·.1)
  | [], kts, h => by
    simp only [canonicalEntries, Option.some.injEq] at h
    subst h
    rfl
  | (k, x) :: kvs, kts, h => by
    simp only [canonicalEntries, Option.bind_eq_some_iff, Option.map_eq_some_iff] at h
    obtain ⟨t, -, rest, hrest, rfl⟩ := h
    rw [List.map_cons, List.map_cons, keys_canonicalEntries hrest]

theorem keys_jsonEntries : ∀ {kvs kws : Entries}, jsonEntries kvs = some kws →
    kws.map (·.1) = kvs.map fun kx => kx.1.read
  | [], kws, h => by
    simp only [jsonEntries, Option.some.injEq] at h
    subst h
    rfl
  | (k, x) :: kvs, kws, h => by
    rw [jsonEntries] at h
    split at h
    · cases h
    · simp only [Option.bind_eq_some_iff, Option.map_eq_some_iff] at h
      obtain ⟨y, -, rest, hrest, rfl⟩ := h
      rw [List.map_cons, List.map_cons, keys_jsonEntries hrest]
      rfl

/-- Keys that are in the order of their texts have distinct texts. -/
theorem nodup_of_stableKeys {keys : List Key} (h : stableKeys keys = true) :
    (keys.map Key.text).Nodup := by
  have hsorted := of_decide_eq_true h
  have hperm := (List.perm_insertionSort (fun k l => Key.lt l k = false) keys).map Key.text
  exact hperm.nodup_iff.1 (hsorted.imp fun hlt => ne_of_lt hlt)

/-- Sorting by the texts of the keys. -/
theorem sortItems_read (pts : List (Text × Text)) :
    sortItems (pts.map fun p => (Key.str p.1, p.2)) =
      (pts.insertionSort fun a b => a.1 ≤ b.1).map fun p => (Key.str p.1, p.2) := by
  unfold sortItems
  refine (List.map_insertionSort _ _ _ pts fun a _ b _ => ?_).symm
  simp [Key.lt]

/-- **Stable keys are sorted alike before and after the round trip.** -/
theorem objectText_read {kts : List (Key × Text)} {t : Text} (hkeys : stableKeys (kts.map (·.1)) = true)
    (h : objectText kts = some t) : objectText (kts.map fun kt => (kt.1.read, kt.2)) = some t := by
  let pts : List (Text × Text) := kts.map fun kt => (kt.1.text, kt.2)
  have hread : (kts.map fun kt => (kt.1.read, kt.2)) = pts.map fun p => (Key.str p.1, p.2) := by
    simp [pts, Key.read]
  -- both orders are that of the texts, which are distinct
  have hsorted : ((sortItems kts).map fun kt => (kt.1.text, kt.2)) =
      pts.insertionSort fun a b => a.1 ≤ b.1 := by
    have hperm : ((sortItems kts).map fun kt => (kt.1.text, kt.2)).Perm
        (pts.insertionSort fun a b => a.1 ≤ b.1) :=
      ((List.perm_insertionSort _ kts).map _).trans (List.perm_insertionSort _ pts).symm
    have hstrict : ((sortItems kts).map fun kt => (kt.1.text, kt.2)).Pairwise fun a b => a.1 < b.1 := by
      have hsort : (sortItems kts).map (·.1) =
          (kts.map (·.1)).insertionSort fun k l => Key.lt l k = false :=
        List.map_insertionSort _ _ _ kts fun _ _ _ _ => Iff.rfl
      have := of_decide_eq_true hkeys
      rw [← hsort, List.map_map, List.pairwise_map] at this
      exact List.pairwise_map.2 this
    have htotal : Std.Total fun a b : Text × Text => a.1 ≤ b.1 := ⟨fun a b => le_total a.1 b.1⟩
    have htrans : IsTrans (Text × Text) fun a b => a.1 ≤ b.1 := ⟨fun _ _ _ => le_trans⟩
    have hle : ((sortItems kts).map fun kt => (kt.1.text, kt.2)).Pairwise fun a b => a.1 ≤ b.1 :=
      hstrict.imp le_of_lt
    refine hperm.eq_of_pairwise (fun a b ha hb hab hba => ?_) hle (List.pairwise_insertionSort _ pts)
    have hnodup : (((sortItems kts).map fun kt => (kt.1.text, kt.2)).map (·.1)).Nodup :=
      List.pairwise_map.2 (hstrict.imp fun hlt => ne_of_lt hlt)
    exact List.inj_on_of_nodup_map hnodup ha (hperm.mem_iff.2 hb) (le_antisymm hab hba)
  unfold objectText at h ⊢
  split at h
  · rw [if_pos (by simp [sortable, Key.read, Key.isStr, Function.comp_def]), ← h, hread, sortItems_read,
      ← hsorted, List.map_map, List.map_map]
    rfl
  · cases h

mutual

/-- **A stable value has the same canonical text after the round trip.** -/
theorem canonical_json : ∀ (v w : Value) (t : Text), stable v = true → canonical v = some t →
    json v = some w → canonical w = some t
  | .none, w, t, _, hc, hj | .bool _, w, t, _, hc, hj | .int _, w, t, _, hc, hj
  | .float _, w, t, _, hc, hj | .str _, w, t, _, hc, hj => by
    simp only [json, Option.some.injEq] at hj
    subst hj
    exact hc
  | .list xs, w, t, hs, hc, hj | .tuple xs, w, t, hs, hc, hj => by
    rw [stable] at hs
    simp only [json, Option.map_eq_some_iff] at hj
    simp only [canonical, Option.map_eq_some_iff] at hc
    obtain ⟨ys, hys, rfl⟩ := hj
    obtain ⟨ts, hts, rfl⟩ := hc
    rw [canonical, canonicalList_json xs ys ts hs hts hys]
    rfl
  | .dict kvs, w, t, hs, hc, hj => by
    rw [stable, Bool.and_eq_true] at hs
    simp only [json, Option.map_eq_some_iff] at hj
    simp only [canonical, Option.bind_eq_some_iff] at hc
    obtain ⟨kws, hkws, rfl⟩ := hj
    obtain ⟨kts, hkts, ht⟩ := hc
    have hnodup : (kws.map (·.1)).Nodup := by
      rw [keys_jsonEntries hkws]
      have := nodup_of_stableKeys hs.1
      rw [List.map_map] at this
      exact List.Nodup.of_map Key.text (by simpa [Key.read, Key.text, Function.comp_def] using this)
    rw [canonical, ofPairs_eq_self hnodup, canonicalEntries_json kvs kws kts hs.2 hkts hkws]
    rw [← keys_canonicalEntries hkts] at hs
    exact objectText_read hs.1 ht
  | .model .., _, _, _, _, hj | .other _, _, _, _, _, hj => by simp [json] at hj

theorem canonicalList_json : ∀ (vs ws : List Value) (ts : List Text), stableList vs = true →
    canonicalList vs = some ts → jsonList vs = some ws → canonicalList ws = some ts
  | [], ws, ts, _, hc, hj => by
    simp only [jsonList, Option.some.injEq] at hj
    subst hj
    exact hc
  | x :: xs, ws, ts, hs, hc, hj => by
    rw [stableList, Bool.and_eq_true] at hs
    simp only [jsonList, Option.bind_eq_some_iff, Option.map_eq_some_iff] at hj
    simp only [canonicalList, Option.bind_eq_some_iff, Option.map_eq_some_iff] at hc
    obtain ⟨y, hy, ys, hys, rfl⟩ := hj
    obtain ⟨t, ht, us, hus, rfl⟩ := hc
    rw [canonicalList, canonical_json x y t hs.1 ht hy, canonicalList_json xs ys us hs.2 hus hys]
    rfl

theorem canonicalEntries_json : ∀ (kvs kws : Entries) (kts : List (Key × Text)),
    stableEntries kvs = true → canonicalEntries kvs = some kts → jsonEntries kvs = some kws →
      canonicalEntries kws = some (kts.map fun kt => (kt.1.read, kt.2))
  | [], kws, kts, _, hc, hj => by
    simp only [jsonEntries, Option.some.injEq] at hj
    simp only [canonicalEntries, Option.some.injEq] at hc
    subst hj hc
    rw [canonicalEntries]
    rfl
  | (k, x) :: kvs, kws, kts, hs, hc, hj => by
    rw [stableEntries, Bool.and_eq_true] at hs
    rw [jsonEntries] at hj
    split at hj
    · cases hj
    · simp only [Option.bind_eq_some_iff, Option.map_eq_some_iff] at hj
      simp only [canonicalEntries, Option.bind_eq_some_iff, Option.map_eq_some_iff] at hc
      obtain ⟨y, hy, ys, hys, rfl⟩ := hj
      obtain ⟨t, ht, us, hus, rfl⟩ := hc
      rw [canonicalEntries, canonical_json x y t hs.1 ht hy, canonicalEntries_json kvs ys us hs.2 hus hys]
      rfl

end

/-! ## NaN and infinities -/

mutual

/-- Without NaN and infinities, `model_dump_json` writes what is there. -/
theorem nulled_of_finite : ∀ v : Value, finite v = true → nulled v = v
  | .none, _ | .bool _, _ | .int _, _ | .str _, _ | .model .., _ | .other _, _ => by simp [nulled]
  | .float x, h => by cases x <;> simp_all [finite, nulled]
  | .list xs, h | .tuple xs, h => by
    rw [finite] at h
    rw [nulled, nulledList_of_finite xs h]
  | .dict kvs, h => by
    rw [finite] at h
    rw [nulled, nulledEntries_of_finite kvs h]

theorem nulledList_of_finite : ∀ vs : List Value, finiteList vs = true → nulledList vs = vs
  | [], _ => by rw [nulledList]
  | x :: xs, h => by
    rw [finiteList, Bool.and_eq_true] at h
    rw [nulledList, nulled_of_finite x h.1, nulledList_of_finite xs h.2]

theorem nulledEntries_of_finite : ∀ kvs : Entries, finiteEntries kvs = true → nulledEntries kvs = kvs
  | [], _ => by rw [nulledEntries]
  | (k, x) :: kvs, h => by
    rw [finiteEntries, Bool.and_eq_true] at h
    rw [nulledEntries, nulled_of_finite x h.1, nulledEntries_of_finite kvs h.2]

end

theorem keys_nulledEntries (kvs : Entries) : (nulledEntries kvs).map (·.1) = kvs.map (·.1) := by
  induction kvs with
  | nil => rw [nulledEntries]
  | cons kx kvs ih => rw [nulledEntries, List.map_cons, List.map_cons, ih]

mutual

theorem plain_nulled : ∀ v : Value, Plain v → Plain (nulled v)
  | .none, _ | .bool _, _ | .int _, _ | .str _, _ => by simp [nulled, Plain]
  | .float x, _ => by cases x <;> simp [nulled, Plain]
  | .list xs, h => by
    rw [Plain] at h
    rw [nulled, Plain]
    exact plain_nulledList xs h
  | .dict kvs, h => by
    rw [Plain] at h
    have hkeys := keys_nulledEntries kvs
    rw [nulled, Plain, hkeys]
    refine ⟨⟨fun kx hkx => ?_, h.1.2⟩, plain_nulledEntries kvs h.2⟩
    have hmem : kx.1 ∈ kvs.map (·.1) := hkeys ▸ List.mem_map_of_mem hkx
    obtain ⟨kx', hkx', heq⟩ := List.mem_map.1 hmem
    exact heq ▸ h.1.1 kx' hkx'
  | .tuple _, h | .model .., h | .other _, h => by simp [Plain] at h

theorem plain_nulledList : ∀ vs : List Value, PlainList vs → PlainList (nulledList vs)
  | [], _ => by rw [nulledList, PlainList]; trivial
  | x :: xs, h => by
    rw [PlainList] at h
    rw [nulledList, PlainList]
    exact ⟨plain_nulled x h.1, plain_nulledList xs h.2⟩

theorem plain_nulledEntries : ∀ kvs : Entries, PlainEntries kvs → PlainEntries (nulledEntries kvs)
  | [], _ => by rw [nulledEntries, PlainEntries]; trivial
  | (k, x) :: kvs, h => by
    rw [PlainEntries] at h
    rw [nulledEntries, PlainEntries]
    exact ⟨plain_nulled x h.1, plain_nulledEntries kvs h.2⟩

end

end Stablemate.PyJson
