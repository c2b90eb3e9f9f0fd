import Mathlib.Data.List.Nodup

/-!
# Lists of values that are known by a key

A dict whose keys can be read off its values is the list of the values.

* `get`, `upsert`: reading and setting; `get_foldl_upsert`: what many settings leave. `perm_upsert`, `perm_get`: a
  value and the others.
* `pick`: the values of some keys, in the order of the keys.
-/

namespace Stablemate.Keyed

variable {α κ : Type*} [DecidableEq κ] {key : α → κ} {d : List α} {k : κ} {x y : α}

/-- `d.get(k)` -/
def get (key : α → κ) (d : List α) (k : κ) : Option α := d.find? fun x => key x = k

/-- `d[key(x)] = x` -/
def upsert (key : α → κ) (d : List α) (x : α) : List α :=
  if key x ∈ d.map key then d.map fun y => if key y = key x then x else y else d ++ [x]

/-- The values of some keys, in their order; a key without a value is passed over. -/
def pick (key : α → κ) (d : List α) (ks : List κ) : List α := ks.filterMap (get key d)

theorem get_spec (h : get key d k = some x) : x ∈ d ∧ key x = k :=
  ⟨List.mem_of_find?_eq_some h, of_decide_eq_true (List.find?_some (p := fun x => decide (key x = k)) h)⟩

theorem get_of_mem (hd : (d.map key).Nodup) (hx : x ∈ d) : get key d (key x) = some x := by
  cases hget : get key d (key x) with
  | none =>
    have hno := List.find?_eq_none.1 hget x hx
    simp at hno
  | some y =>
    obtain ⟨hy, hkey⟩ := get_spec hget
    rw [List.inj_on_of_nodup_map hd hy hx hkey]

theorem get_eq_some_iff (hd : (d.map key).Nodup) : get key d k = some x ↔ x ∈ d ∧ key x = k := by
  refine ⟨get_spec, fun h => ?_⟩
  obtain ⟨hx, rfl⟩ := h
  exact get_of_mem hd hx

theorem get_eq_none_iff : get key d k = none ↔ k ∉ d.map key := by
  unfold get
  rw [List.find?_eq_none, List.mem_map]
  constructor
  · rintro h ⟨x, hx, rfl⟩
    exact h x hx (decide_eq_true rfl)
  · intro h x hx hk
    exact h ⟨x, hx, of_decide_eq_true hk⟩

theorem get_cons (x : α) (d : List α) (k : κ) : get key (x :: d) k = if key x = k then some x else get key d k := by
  unfold get
  rw [List.find?_cons]
  by_cases hk : key x = k <;> simp [hk]

/-- What is set and what was there is all that is there. -/
theorem mem_upsert (h : y ∈ upsert key d x) : y = x ∨ y ∈ d := by
  unfold upsert at h
  split at h
  · obtain ⟨z, hz, rfl⟩ := List.mem_map.1 h
    split
    · exact .inl rfl
    · exact .inr hz
  · rcases List.mem_append.1 h with hmem | hmem
    · exact .inr hmem
    · exact .inl (List.mem_singleton.1 hmem)

theorem keys_upsert (d : List α) (x : α) :
    (upsert key d x).map key = if key x ∈ d.map key then d.map key else d.map key ++ [key x] := by
  unfold upsert
  split
  · rw [List.map_map]
    refine List.map_congr_left fun y _ => ?_
    show key (if key y = key x then x else y) = key y
    split
    · exact Eq.symm (by assumption)
    · rfl
  · rw [List.map_append]
    rfl

theorem nodup_upsert (hd : (d.map key).Nodup) (x : α) : ((upsert key d x).map key).Nodup := by
  rw [keys_upsert]
  split
  · exact hd
  · rename_i hx
    refine List.nodup_append.2 ⟨hd, List.nodup_singleton _, fun a ha b hb => ?_⟩
    obtain rfl := List.mem_singleton.1 hb
    exact fun heq => hx (heq ▸ ha)

theorem get_upsert_self (d : List α) (x : α) : get key (upsert key d x) (key x) = some x := by
  cases hget : get key (upsert key d x) (key x) with
  | none =>
    refine absurd ?_ (get_eq_none_iff.1 hget)
    rw [keys_upsert]
    split
    · assumption
    · exact List.mem_append_right _ List.mem_cons_self
  | some z =>
    obtain ⟨hz, hkey⟩ := get_spec hget
    unfold upsert at hz
    split at hz
    · obtain ⟨y, hy, rfl⟩ := List.mem_map.1 hz
      split
      · rfl
      · rename_i hne
        rw [if_neg hne] at hkey
        exact (hne hkey).elim
    · rename_i hmem
      rcases List.mem_append.1 hz with hz | hz
      · exact (hmem (hkey ▸ List.mem_map_of_mem hz)).elim
      · rw [List.mem_singleton.1 hz]

theorem get_upsert_of_ne (d : List α) (hk : key x ≠ k) : get key (upsert key d x) k = get key d k := by
  unfold upsert
  split
  · rename_i hmem
    clear hmem
    induction d with
    | nil => rfl
    | cons y d ih =>
      rw [List.map_cons, get_cons, get_cons, ih]
      by_cases hyx : key y = key x
      · rw [if_pos hyx, if_neg hk, if_neg fun hy => hk (hyx.symm.trans hy)]
      · rw [if_neg hyx]
  · unfold get
    rw [List.find?_append]
    simp [hk]

theorem get_upsert (d : List α) (x : α) (k : κ) :
    get key (upsert key d x) k = if key x = k then some x else get key d k := by
  split
  · rename_i hk
    subst hk
    exact get_upsert_self d x
  · rename_i hk
    exact get_upsert_of_ne d hk

/-- Setting many values, of which no two have one key. -/
theorem get_foldl_upsert : ∀ {xs : List α}, (xs.map key).Nodup → ∀ (d : List α) (k : κ),
    get key (xs.foldl (upsert key) d) k = (get key xs k).or (get key d k) := by
  intro xs
  induction xs with
  | nil => exact fun _ d k => rfl
  | cons x xs ih =>
    intro hxs d k
    rw [List.map_cons, List.nodup_cons] at hxs
    rw [List.foldl_cons, ih hxs.2, get_upsert, get_cons]
    by_cases hk : key x = k
    · have hnone : get key xs k = none := get_eq_none_iff.2 (hk ▸ hxs.1)
      rw [hnone, if_pos hk, if_pos hk]
      rfl
    · rw [if_neg hk, if_neg hk]

theorem nodup_foldl_upsert : ∀ (xs : List α) {d : List α}, (d.map key).Nodup →
    ((xs.foldl (upsert key) d).map key).Nodup := by
  intro xs
  induction xs with
  | nil => exact fun h => h
  | cons x xs ih => exact fun h => ih (nodup_upsert h x)

theorem upsert_cons_of_ne (hne : key y ≠ key x) (d : List α) : upsert key (y :: d) x = y :: upsert key d x := by
  unfold upsert
  by_cases hmem : key x ∈ d.map key
  · have hcons : key x ∈ (y :: d).map key := List.mem_cons_of_mem (key y) hmem
    rw [if_pos hmem, if_pos hcons, List.map_cons, if_neg hne]
  · have hnot : key x ∉ (y :: d).map key := by
      rw [List.map_cons, List.mem_cons]
      rintro (heq | hin)
      · exact hne heq.symm
      · exact hmem hin
    rw [if_neg hmem, if_neg hnot, List.cons_append]

/-- What is set, and the others. -/
theorem perm_upsert (hd : (d.map key).Nodup) (x : α) :
    (upsert key d x).Perm (x :: d.filter fun y => key y ≠ key x) := by
  induction d with
  | nil => exact List.Perm.refl _
  | cons y d ih =>
    rw [List.map_cons, List.nodup_cons] at hd
    by_cases hk : key y = key x
    · have hnot : ∀ z ∈ d, key z ≠ key x := by
        intro z hz heq
        exact hd.1 (hk.trans heq.symm ▸ List.mem_map_of_mem hz)
      have hsame : (y :: d).map (fun z => if key z = key x then x else z) = x :: d := by
        rw [List.map_cons, if_pos hk]
        refine congrArg (x :: ·) ?_
        refine (List.map_congr_left fun z hz => ?_).trans (List.map_id d)
        exact if_neg (hnot z hz)
      have hmem : key x ∈ (y :: d).map key := hk ▸ List.mem_cons_self
      have hfilter : (y :: d).filter (fun z => key z ≠ key x) = d := by
        rw [List.filter_cons_of_neg (by simp [hk]), List.filter_eq_self]
        intro z hz
        exact decide_eq_true (hnot z hz)
      rw [upsert, if_pos hmem, hsame, hfilter]
    · rw [upsert_cons_of_ne hk, List.filter_cons_of_pos (by simp [hk])]
      exact ((ih hd.2).cons y).trans (List.Perm.swap x y _)

theorem mem_upsert_iff (hd : (d.map key).Nodup) : y ∈ upsert key d x ↔ y = x ∨ y ∈ d ∧ key y ≠ key x := by
  rw [(perm_upsert hd x).mem_iff, List.mem_cons, List.mem_filter, decide_eq_true_iff]

/-- The value of a key, if there is one, and the others. -/
theorem perm_get (hd : (d.map key).Nodup) (k : κ) : d.Perm ((get key d k).toList ++ d.filter fun y => key y ≠ k) := by
  cases hget : get key d k with
  | none =>
    have hall : ∀ y ∈ d, key y ≠ k := fun y hy heq => get_eq_none_iff.1 hget (heq ▸ List.mem_map_of_mem hy)
    have hfilter : d.filter (fun y => key y ≠ k) = d := List.filter_eq_self.2 fun y hy => decide_eq_true (hall y hy)
    rw [hfilter]
    exact List.Perm.refl d
  | some x =>
    obtain ⟨hx, rfl⟩ := get_spec hget
    have hsame : upsert key d x = d := by
      have hmem : key x ∈ d.map key := List.mem_map_of_mem hx
      rw [upsert, if_pos hmem]
      refine (List.map_congr_left fun y hy => ?_).trans (List.map_id d)
      split
      · rename_i hk
        exact List.inj_on_of_nodup_map hd hx hy hk.symm
      · rfl
    have hperm := perm_upsert hd x
    rw [hsame] at hperm
    exact hperm

theorem mem_pick {ks : List κ} (hd : (d.map key).Nodup) : x ∈ pick key d ks ↔ x ∈ d ∧ key x ∈ ks := by
  unfold pick
  rw [List.mem_filterMap]
  constructor
  · rintro ⟨k, hk, hget⟩
    obtain ⟨hx, rfl⟩ := get_spec hget
    exact ⟨hx, hk⟩
  · rintro ⟨hx, hk⟩
    exact ⟨key x, hk, get_of_mem hd hx⟩

/-- The keys of what is picked are those asked for that have a value. -/
theorem keys_pick (d : List α) (ks : List κ) : (pick key d ks).map key = ks.filter fun k => (get key d k).isSome := by
  induction ks with
  | nil => rfl
  | cons k ks ih =>
    unfold pick at ih ⊢
    cases hget : get key d k with
    | none =>
      rw [List.filterMap_cons_none hget, ih, List.filter_cons_of_neg]
      rw [hget]
      exact Bool.false_ne_true
    | some x =>
      obtain ⟨-, rfl⟩ := get_spec hget
      rw [List.filterMap_cons_some hget, List.map_cons, ih, List.filter_cons_of_pos]
      rw [hget]
      rfl

/-- Where every key asked for has a value, the keys are those asked for. -/
theorem keys_pick_of_forall {ks : List κ} (h : ∀ k ∈ ks, k ∈ d.map key) : (pick key d ks).map key = ks := by
  rw [keys_pick, List.filter_eq_self]
  intro k hk
  rw [Option.isSome_iff_ne_none]
  exact fun hnone => get_eq_none_iff.1 hnone (h k hk)

end Stablemate.Keyed
