import Stablemate.Lib.Keyed

/-!
# Dicts

A dict is the list of its items in the order they were put in.

* `get`, `set`, `setdefault`, `pop`: the operations, each with what `get` reads after it.
* `get_file`: filing items one after the other, where the first that comes for a key stays.
* `choose`: the items whose value can be read in some way.
-/

namespace Stablemate.Dict

variable {κ α β : Type*} [DecidableEq κ] {d l l' : List (κ × α)} {k k' : κ} {x y : α}

/-- `d.get(k)` -/
def get (d : List (κ × α)) (k : κ) : Option α := (Keyed.get Prod.fst d k).map Prod.snd

/-- `d[k] = x` -/
def set (d : List (κ × α)) (k : κ) (x : α) : List (κ × α) := Keyed.upsert Prod.fst d (k, x)

/-- `d.setdefault(k, x)` -/
def setdefault (d : List (κ × α)) (k : κ) (x : α) : List (κ × α) := if (get d k).isSome then d else set d k x

/-- `d.pop(k, None)` -/
def pop (d : List (κ × α)) (k : κ) : List (κ × α) := d.filter fun kx => kx.1 ≠ k

/-- Many items put in, of which the first for a key stays. -/
def file (d l : List (κ × α)) : List (κ × α) := l.foldl (fun d kx => setdefault d kx.1 kx.2) d

/-- `d.setdefault(k, []).append(x)` for many items. -/
def group (l : List (κ × α)) : List (κ × List α) :=
  l.foldl (fun d kx => set d kx.1 ((get d kx.1).getD [] ++ [kx.2])) []

/-- The items whose values `f` reads. -/
def choose (f : α → Option β) (d : List (κ × α)) : List (κ × β) :=
  d.filterMap fun kx => (f kx.2).map fun y => (kx.1, y)

/-! ## Reading -/

@[simp] theorem get_nil (k : κ) : get ([] : List (κ × α)) k = none := rfl

theorem get_cons (kx : κ × α) (d : List (κ × α)) (k : κ) :
    get (kx :: d) k = if kx.1 = k then some kx.2 else get d k := by
  unfold get
  rw [Keyed.get_cons]
  split <;> rfl

theorem get_append (l l' : List (κ × α)) (k : κ) : get (l ++ l') k = (get l k).or (get l' k) := by
  induction l with
  | nil => rfl
  | cons kx l ih =>
    rw [List.cons_append, get_cons, get_cons, ih]
    split <;> rfl

theorem get_eq_none_iff : get d k = none ↔ k ∉ d.map Prod.fst := by
  rw [get, Option.map_eq_none_iff, Keyed.get_eq_none_iff]

theorem mem_of_get (h : get d k = some x) : (k, x) ∈ d := by
  obtain ⟨⟨k', x'⟩, hget, rfl⟩ := Option.map_eq_some_iff.1 h
  obtain ⟨hmem, rfl⟩ := Keyed.get_spec hget
  exact hmem

theorem get_of_mem (hd : (d.map Prod.fst).Nodup) (h : (k, x) ∈ d) : get d k = some x := by
  have hget : Keyed.get Prod.fst d k = some (k, x) := Keyed.get_of_mem hd h
  rw [get, hget]
  rfl

theorem head?_filter (d : List (κ × α)) (k : κ) : ((d.filter fun kx => kx.1 = k).head?).map Prod.snd = get d k := by
  rw [List.head?_filter]
  rfl

theorem eq_nil_iff_get : d = [] ↔ ∀ k, get d k = none := by
  constructor
  · rintro rfl k
    exact get_nil k
  · intro h
    cases d with
    | nil => rfl
    | cons kx d =>
      have hget := h kx.1
      rw [get_cons, if_pos rfl] at hget
      cases hget

/-! ## Writing -/

/-- A new key goes to the end. -/
theorem set_of_not_mem (h : k ∉ d.map Prod.fst) (x : α) : set d k x = d ++ [(k, x)] := by
  unfold set Keyed.upsert
  rw [if_neg h]

@[simp] theorem get_set (d : List (κ × α)) (k : κ) (x : α) (k' : κ) :
    get (set d k x) k' = if k = k' then some x else get d k' := by
  unfold get set
  rw [Keyed.get_upsert]
  split <;> rfl

@[simp] theorem get_setdefault (d : List (κ × α)) (k : κ) (x : α) (k' : κ) :
    get (setdefault d k x) k' = if k = k' then some ((get d k).getD x) else get d k' := by
  unfold setdefault
  split
  · rename_i hsome
    split
    · rename_i heq
      obtain ⟨y, hy⟩ := Option.isSome_iff_exists.1 hsome
      rw [← heq, hy]
      rfl
    · rfl
  · rename_i hnone
    have hget : get d k = none := Option.not_isSome_iff_eq_none.1 hnone
    rw [get_set, hget]
    rfl

@[simp] theorem get_pop (d : List (κ × α)) (k k' : κ) : get (pop d k) k' = if k = k' then none else get d k' := by
  unfold pop
  induction d with
  | nil => simp
  | cons kx d ih =>
    by_cases hkx : kx.1 = k
    · rw [List.filter_cons_of_neg (by simpa using hkx), ih, get_cons, hkx]
      split <;> rfl
    · rw [List.filter_cons_of_pos (by simpa using hkx), get_cons, ih, get_cons]
      by_cases hk : k = k'
      · have hne : kx.1 ≠ k' := fun h => hkx (h.trans hk.symm)
        rw [if_pos hk, if_neg hne, if_pos hk]
      · rw [if_neg hk, if_neg hk]

theorem length_pop_lt (h : get d k = some x) : (pop d k).length < d.length :=
  List.length_filter_lt_length_iff_exists.2 ⟨(k, x), mem_of_get h, by simp⟩

/-- **The first item that comes for a key stays.** -/
theorem get_file (d l : List (κ × α)) (k : κ) : get (file d l) k = (get d k).or (get l k) := by
  unfold file
  induction l generalizing d with
  | nil => rw [get_nil, Option.or_none, List.foldl_nil]
  | cons kx l ih =>
    rw [List.foldl_cons, ih, get_setdefault, get_cons]
    by_cases hk : kx.1 = k
    · rw [if_pos hk, if_pos hk, hk]
      cases get d k <;> rfl
    · rw [if_neg hk, if_neg hk]

/-- **The last item that is put in for a key stays.** -/
theorem get_foldl_set {β : Type*} (key : β → κ) (val : β → α) (l : List β) (d : List (κ × α)) (k : κ) :
    get (l.foldl (fun d b => set d (key b) (val b)) d) k =
      (((l.filter fun b => key b = k).getLast?).map val).or (get d k) := by
  induction l generalizing d with
  | nil => rfl
  | cons b l ih =>
    rw [List.foldl_cons, ih, get_set]
    by_cases hk : key b = k
    · rw [if_pos hk, List.filter_cons_of_pos (by simpa using hk), List.getLast?_cons]
      cases (l.filter fun b => key b = k).getLast? <;> rfl
    · rw [if_neg hk, List.filter_cons_of_neg (by simpa using hk)]

theorem mem_set {kx : κ × α} (h : kx ∈ set d k x) : kx = (k, x) ∨ kx ∈ d := Keyed.mem_upsert h

theorem nodup_set (hd : (d.map Prod.fst).Nodup) (k : κ) (x : α) : ((set d k x).map Prod.fst).Nodup :=
  Keyed.nodup_upsert hd (k, x)

/-! ## Grouping -/

theorem get_foldl_group (l : List (κ × α)) (d : List (κ × List α)) (k : κ) :
    (get (l.foldl (fun d kx => set d kx.1 ((get d kx.1).getD [] ++ [kx.2])) d) k).getD [] =
      (get d k).getD [] ++ (l.filter fun kx => kx.1 = k).map Prod.snd := by
  induction l generalizing d with
  | nil => rw [List.foldl_nil, List.filter_nil, List.map_nil, List.append_nil]
  | cons kx l ih =>
    rw [List.foldl_cons, ih, get_set]
    by_cases hk : kx.1 = k
    · rw [if_pos hk, List.filter_cons_of_pos (by simpa using hk), List.map_cons, hk, Option.getD_some, List.append_assoc,
        List.singleton_append]
    · rw [if_neg hk, List.filter_cons_of_neg (by simpa using hk)]

/-- What is filed under a key, in the order it came. -/
theorem get_group (l : List (κ × α)) (k : κ) : (get (group l) k).getD [] = (l.filter fun kx => kx.1 = k).map Prod.snd :=
  get_foldl_group l [] k

theorem nodup_group (l : List (κ × α)) : ((group l).map Prod.fst).Nodup := by
  have hfold : ∀ (l : List (κ × α)) (d : List (κ × List α)), (d.map Prod.fst).Nodup →
      ((l.foldl (fun d kx => set d kx.1 ((get d kx.1).getD [] ++ [kx.2])) d).map Prod.fst).Nodup := by
    intro l
    induction l with
    | nil => exact fun d hd => hd
    | cons kx l ih => exact fun d hd => ih _ (nodup_set hd kx.1 _)
  exact hfold l [] List.nodup_nil

/-- The keys of the groups are those of the items. -/
theorem mem_keys_group {l : List (κ × α)} : k ∈ (group l).map Prod.fst ↔ k ∈ l.map Prod.fst := by
  have hfold : ∀ (l : List (κ × α)) (d : List (κ × List α)),
      k ∈ (l.foldl (fun d kx => set d kx.1 ((get d kx.1).getD [] ++ [kx.2])) d).map Prod.fst ↔
        k ∈ d.map Prod.fst ∨ k ∈ l.map Prod.fst := by
    intro l
    induction l with
    | nil => simp
    | cons kx l ih =>
      intro d
      have hset : k ∈ (set d kx.1 ((get d kx.1).getD [] ++ [kx.2])).map Prod.fst ↔ k ∈ d.map Prod.fst ∨ k = kx.1 := by
        rw [set, Keyed.keys_upsert]
        split
        · rename_i hmem
          exact ⟨.inl, fun h => h.elim id fun heq => heq ▸ hmem⟩
        · rw [List.mem_append, List.mem_singleton]
      rw [List.foldl_cons, ih, hset, List.map_cons, List.mem_cons, or_assoc]
  have h := hfold l []
  simpa [group] using h

theorem eq_of_mem_group {xs : List α} {l : List (κ × α)} (h : (k, xs) ∈ group l) :
    xs = (l.filter fun kx => kx.1 = k).map Prod.snd := by
  rw [← get_group, get_of_mem (nodup_group l) h]
  rfl

/-- A key that something is filed under has a group. -/
theorem mem_group_of_mem {l : List (κ × α)} (h : (k, x) ∈ l) :
    (k, (l.filter fun kx => kx.1 = k).map Prod.snd) ∈ group l := by
  have hx : x ∈ (get (group l) k).getD [] := by
    rw [get_group]
    exact List.mem_map.2 ⟨(k, x), List.mem_filter.2 ⟨h, decide_eq_true rfl⟩, rfl⟩
  cases hget : get (group l) k with
  | none =>
    rw [hget] at hx
    exact absurd hx List.not_mem_nil
  | some xs =>
    have hmem := mem_of_get hget
    rw [← eq_of_mem_group hmem]
    exact hmem

/-! ## Choosing -/

variable {f : α → Option β}

omit [DecidableEq κ] in
theorem mem_choose {y : β} : (k, y) ∈ choose f d ↔ ∃ x, (k, x) ∈ d ∧ f x = some y := by
  unfold choose
  rw [List.mem_filterMap]
  constructor
  · rintro ⟨⟨k', x⟩, hx, hy⟩
    obtain ⟨y', hy', heq⟩ := Option.map_eq_some_iff.1 hy
    obtain ⟨rfl, rfl⟩ := Prod.mk.inj heq
    exact ⟨x, hx, hy'⟩
  · rintro ⟨x, hx, hy⟩
    exact ⟨(k, x), hx, by rw [hy]; rfl⟩

omit [DecidableEq κ] in
theorem keys_choose_sublist (f : α → Option β) (d : List (κ × α)) :
    ((choose f d).map Prod.fst).Sublist (d.map Prod.fst) := by
  unfold choose
  induction d with
  | nil => exact .slnil
  | cons kx d ih =>
    cases hy : f kx.2 with
    | none => rw [List.filterMap_cons_none (by rw [hy]; rfl)]; exact ih.cons _
    | some y => rw [List.filterMap_cons_some (by rw [hy]; rfl)]; exact ih.cons_cons _

/-- Where no two items have one key, the value of a key is chosen alone. -/
theorem get_choose (hd : (d.map Prod.fst).Nodup) (k : κ) : get (choose f d) k = (get d k).bind f := by
  have hchosen : ((choose f d).map Prod.fst).Nodup := hd.sublist (keys_choose_sublist f d)
  refine Option.ext fun y => ⟨fun h => ?_, fun h => ?_⟩
  · obtain ⟨x, hx, hy⟩ := mem_choose.1 (mem_of_get h)
    rw [get_of_mem hd hx]
    exact hy
  · obtain ⟨x, hx, hy⟩ := Option.bind_eq_some_iff.1 h
    exact get_of_mem hchosen (mem_choose.2 ⟨x, mem_of_get hx, hy⟩)

end Stablemate.Dict
