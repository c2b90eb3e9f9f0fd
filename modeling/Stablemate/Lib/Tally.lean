import Mathlib.Algebra.Order.BigOperators.Group.List
import Mathlib.Algebra.Ring.Nat
import Mathlib.Data.Finset.Card
import Stablemate.Lib.Dict

/-!
# Tallies

A tally is a dict of accumulators: what is filed under a key goes into the accumulator of the key, which
is made when the first item comes.

* `update`, with what `get` reads after it; `look_foldl`: what is looked up after many.
* `sum`: a measure of the accumulators, added up over the tally. **What an update adds to the accumulator
  of its key it adds to the sum, whatever the key is** (`sum_update`), so the sum over a tally is that of
  the items filed in it, however they are spread (`sum_file`).
* `sum_length_dedup`, `length_dedup_le`: counting the different values part by part.
* `spread`: a tally whose accumulators hold dicts of their own, as one dict under the keys of both.
-/

namespace Stablemate

/-- A dict, in the order its keys were first used. -/
structure Tally (κ α : Type*) where
  rows : List (κ × α)
  keyed : (rows.map Prod.fst).Nodup

namespace Tally

variable {κ α β M : Type*} {k k' : κ} {x : α} {f : Option α → α} {t : Tally κ α}

def empty : Tally κ α := ⟨[], List.nodup_nil⟩

def values (t : Tally κ α) : List α := t.rows.map Prod.snd

/-- A measure of the accumulators, added up. -/
def sum [AddMonoid M] (m : α → M) (t : Tally κ α) : M := (t.values.map m).sum

@[simp] theorem sum_empty [AddMonoid M] (m : α → M) : (empty : Tally κ α).sum m = 0 := rfl

theorem mem_values : x ∈ t.values ↔ ∃ k, (k, x) ∈ t.rows := by simp [values]

variable [DecidableEq κ]

/-- The accumulator of a key. -/
def get (t : Tally κ α) (k : κ) : Option α := Dict.get t.rows k

/-- The accumulator of a key is what `f` makes of it, or of none. -/
def update (t : Tally κ α) (k : κ) (f : Option α → α) : Tally κ α where
  rows := Dict.set t.rows k (f (t.get k))
  keyed := Dict.nodup_set t.keyed k _

/-- Items filed one after the other. -/
def file (key : β → κ) (f : β → Option α → α) (t : Tally κ α) (l : List β) : Tally κ α :=
  l.foldl (fun t b => t.update (key b) (f b)) t

theorem mem_rows_iff : (k, x) ∈ t.rows ↔ t.get k = some x := ⟨Dict.get_of_mem t.keyed, Dict.mem_of_get⟩

@[simp] theorem get_empty (k : κ) : (empty : Tally κ α).get k = none := rfl

@[simp] theorem get_update (t : Tally κ α) (k : κ) (f : Option α → α) (k' : κ) :
    (t.update k f).get k' = if k = k' then some (f (t.get k)) else t.get k' :=
  Dict.get_set ..

/-- An update replaces the accumulator of its key, or adds the first one. -/
theorem perm_update (t : Tally κ α) (k : κ) (f : Option α → α) :
    (t.update k f).rows.Perm ((k, f (t.get k)) :: t.rows.filter fun row => row.1 ≠ k) :=
  Keyed.perm_upsert t.keyed (k, f (t.get k))

/-- The accumulator of a key, and the others. -/
theorem perm_get (t : Tally κ α) (k : κ) :
    t.rows.Perm (((t.get k).toList.map fun x => (k, x)) ++ t.rows.filter fun row => row.1 ≠ k) := by
  have h := Keyed.perm_get t.keyed k
  have hget : (Keyed.get Prod.fst t.rows k).toList = (t.get k).toList.map fun x => (k, x) := by
    cases hk : Keyed.get Prod.fst t.rows k with
    | none => simp [get, Dict.get, hk]
    | some row =>
      obtain ⟨-, rfl⟩ := Keyed.get_spec hk
      simp [get, Dict.get, hk]
  rwa [hget] at h

/-- Where a step changes what is looked up under one key only, a key is left with what the steps for it
make, one after the other. -/
theorem look_foldl {σ : Type*} (look : σ → κ → Option α) (step : σ → β → σ) (key : β → κ)
    (f : β → Option α → α) (hstep : ∀ s b k, look (step s b) k = if key b = k then some (f b (look s k)) else look s k)
    (l : List β) (s : σ) (k : κ) :
    look (l.foldl step s) k =
      (l.filter fun b => key b = k).foldl (fun found b => some (f b found)) (look s k) := by
  induction l generalizing s with
  | nil => simp
  | cons b l ih =>
    rw [List.foldl_cons, ih, hstep]
    by_cases hb : key b = k
    · simp [hb]
    · simp [hb]

/-! ## Tallies of tallies -/

/-- What is held within the accumulators, under the keys of both. -/
def spread {κ' : Type*} (inner : α → List (κ' × β)) (t : Tally κ α) : List ((κ × κ') × β) :=
  t.rows.flatMap fun row => (inner row.2).map fun below => ((row.1, below.1), below.2)

theorem mem_spread {κ' : Type*} {inner : α → List (κ' × β)} {kk : κ × κ'} {y : β} :
    (kk, y) ∈ t.spread inner ↔ ∃ x, t.get kk.1 = some x ∧ (kk.2, y) ∈ inner x := by
  constructor
  · intro h
    obtain ⟨⟨k, x⟩, hrow, hbelow⟩ := List.mem_flatMap.1 h
    obtain ⟨below, hin, heq⟩ := List.mem_map.1 hbelow
    obtain ⟨rfl, rfl⟩ := Prod.mk.inj heq
    exact ⟨x, mem_rows_iff.1 hrow, hin⟩
  · rintro ⟨x, hx, hin⟩
    exact List.mem_flatMap.2 ⟨(kk.1, x), mem_rows_iff.2 hx, List.mem_map.2 ⟨_, hin, rfl⟩⟩

omit [DecidableEq κ] in
theorem nodup_spread {κ' : Type*} (inner : α → List (κ' × β)) (t : Tally κ α)
    (h : ∀ x ∈ t.values, ((inner x).map Prod.fst).Nodup) : ((t.spread inner).map Prod.fst).Nodup := by
  have hmap : (t.spread inner).map Prod.fst =
      t.rows.flatMap fun row => ((inner row.2).map Prod.fst).map fun k' => (row.1, k') := by
    simp [spread, List.map_flatMap, Function.comp_def]
  rw [hmap, List.nodup_flatMap]
  refine ⟨fun row hrow => ?_, ?_⟩
  · exact (h row.2 (mem_values.2 ⟨row.1, hrow⟩)).map fun a b hab => (Prod.mk.inj hab).2
  · have hkeys : t.rows.Pairwise fun a b => a.1 ≠ b.1 := List.pairwise_map.1 t.keyed
    refine hkeys.imp ?_
    intro a b hab
    refine List.disjoint_left.2 ?_
    intro x hxa hxb
    obtain ⟨ka, hka, rfl⟩ := List.mem_map.1 hxa
    obtain ⟨kb, hkb, heq⟩ := List.mem_map.1 hxb
    exact hab (Prod.mk.inj heq).1.symm

section Sum

variable [AddCommMonoid M]

/-- **What an update adds to the accumulator of its key it adds to the sum.** -/
theorem sum_update (m : α → M) (t : Tally κ α) (k : κ) (f : Option α → α) {δ : M} (hnone : t.get k = none → m (f none) = δ)
    (hsome : ∀ x, t.get k = some x → m (f (some x)) = m x + δ) : (t.update k f).sum m = t.sum m + δ := by
  have hafter : (t.update k f).sum m =
      m (f (t.get k)) + ((t.rows.filter fun row => row.1 ≠ k).map fun row => m row.2).sum := by
    have h := ((perm_update t k f).map fun row => m row.2).sum_eq
    simpa [sum, values, Function.comp_def] using h
  have hbefore : t.sum m = ((t.get k).toList.map m).sum +
      ((t.rows.filter fun row => row.1 ≠ k).map fun row => m row.2).sum := by
    have h := ((perm_get t k).map fun row => m row.2).sum_eq
    simpa [sum, values, Function.comp_def] using h
  rw [hafter, hbefore]
  cases hk : t.get k with
  | none => simp [hnone hk, add_comm]
  | some x => simp [hsome x hk, add_right_comm]

/-- **The sum over a tally is the sum of what was filed in it.** -/
theorem sum_file (m : α → M) (key : β → κ) (g : β → Option α → α) (δ : β → M) (hnone : ∀ b, m (g b none) = δ b)
    (hsome : ∀ b x, m (g b (some x)) = m x + δ b) (l : List β) (t : Tally κ α) :
    (file key g t l).sum m = t.sum m + (l.map δ).sum := by
  induction l generalizing t with
  | nil => simp [file]
  | cons b l ih =>
    have hstep := sum_update m t (key b) (g b) (fun _ => hnone b) fun x _ => hsome b x
    have hrest := ih (t.update (key b) (g b))
    simp only [file, List.foldl_cons, List.map_cons, List.sum_cons] at hrest ⊢
    rw [hrest, hstep, add_assoc]

omit [DecidableEq κ] in
theorem sum_spread {κ' : Type*} (inner : α → List (κ' × β)) (m : β → M) (t : Tally κ α) :
    ((t.spread inner).map fun row => m row.2).sum = t.sum fun x => ((inner x).map fun below => m below.2).sum := by
  simp only [spread, sum, values, List.map_flatMap, List.map_map, Function.comp_def]
  rw [List.flatMap_def, List.sum_flatten, List.map_map]
  rfl

end Sum

/-! ## Different values, part by part -/

/-- The different values within each part, counted part by part, are the different pairs of part and value. -/
theorem sum_length_dedup [DecidableEq β] (key : α → κ) (v : α → β) {l : List α} {ks : List κ} (hks : ks.Nodup)
    (h : ∀ x ∈ l, key x ∈ ks) :
    (ks.map fun k => ((l.filter fun x => key x = k).map v).dedup.length).sum =
      (l.map fun x => (key x, v x)).dedup.length := by
  have hperm : (l.map fun x => (key x, v x)).dedup.Perm
      (ks.flatMap fun k => ((l.filter fun x => key x = k).map v).dedup.map fun y => (k, y)) := by
    refine (List.perm_ext_iff_of_nodup (List.nodup_dedup _) ?_).2 ?_
    · refine List.nodup_flatMap.2 ⟨fun k _ => ?_, ?_⟩
      · exact (List.nodup_dedup _).map fun a b hab => (Prod.mk.inj hab).2
      · refine hks.imp ?_
        intro k k' hne
        refine List.disjoint_left.2 ?_
        intro ky hky hky'
        obtain ⟨y, hy, rfl⟩ := List.mem_map.1 hky
        obtain ⟨y', hy', heq⟩ := List.mem_map.1 hky'
        exact hne (Prod.mk.inj heq).1.symm
    · rintro ⟨k, y⟩
      simp only [List.mem_dedup, List.mem_map, List.mem_flatMap, List.mem_filter, decide_eq_true_eq, Prod.mk.injEq]
      constructor
      · rintro ⟨x, hx, rfl, rfl⟩
        exact ⟨key x, h x hx, v x, ⟨x, ⟨hx, rfl⟩, rfl⟩, rfl, rfl⟩
      · rintro ⟨k', hk', y', ⟨x, ⟨hx, rfl⟩, rfl⟩, rfl, rfl⟩
        exact ⟨x, hx, rfl, rfl⟩
  rw [hperm.length_eq, List.length_flatMap]
  simp

/-- A value that is there for several keys counts once for each, so counting the values alone gives less,
and the same exactly if the value tells the key. -/
theorem length_dedup_le [DecidableEq β] (key : α → κ) (v : α → β) (l : List α) :
    (l.map v).dedup.length ≤ (l.map fun x => (key x, v x)).dedup.length ∧
      ((l.map v).dedup.length = (l.map fun x => (key x, v x)).dedup.length ↔
        ∀ x ∈ l, ∀ y ∈ l, v x = v y → key x = key y) := by
  have himage : (l.map fun x => (key x, v x)).toFinset.image Prod.snd = (l.map v).toFinset := by
    ext y
    simp
  have hinj : Set.InjOn Prod.snd ((l.map fun x => (key x, v x)).toFinset : Set (κ × β)) ↔
      ∀ x ∈ l, ∀ y ∈ l, v x = v y → key x = key y := by
    constructor
    · intro hinj x hx y hy hxy
      have hmem : ∀ z ∈ l, (key z, v z) ∈ ((l.map fun x => (key x, v x)).toFinset : Set (κ × β)) := by
        intro z hz
        exact List.mem_toFinset.2 (List.mem_map_of_mem hz)
      exact (Prod.mk.inj (hinj (hmem x hx) (hmem y hy) hxy)).1
    · intro hkey a ha b hb hab
      obtain ⟨x, hx, rfl⟩ : ∃ x ∈ l, (key x, v x) = a := by simpa using ha
      obtain ⟨y, hy, rfl⟩ : ∃ y ∈ l, (key y, v y) = b := by simpa using hb
      have hv : v x = v y := hab
      rw [hkey x hx y hy hv, hv]
  rw [← List.card_toFinset, ← List.card_toFinset, ← himage]
  exact ⟨Finset.card_image_le, Finset.card_image_iff.trans hinj⟩

end Tally

end Stablemate
