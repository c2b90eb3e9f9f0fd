import Mathlib.Data.List.Nodup
import Mathlib.Tactic.Ring

/-!
# Tilings

The pairs of two lists are a rectangle. A tiling is what is left of it when it is cut, again and
again, along one of its sides.

* `Tiling.once`: every pair stands in exactly one tile.
* `tiling_product`: the products of the chunks of both sides are a tiling.
* `weight_halves_left`, `weight_halves_right`: cutting a side in half leaves less to cut.
-/

namespace Stablemate

variable {α β : Type}

/-! ## Chunks -/

/-- `[l[i:i + n] for i in range(0, len(l), n)]` -/
def chunks (n : ℕ) (l : List α) : List (List α) :=
  (List.range ((l.length + n - 1) / n)).map fun i => (l.drop (n * i)).take n

theorem flatten_slices (n : ℕ) (l : List α) (k : ℕ) :
    ((List.range k).map fun i => (l.drop (n * i)).take n).flatten = l.take (n * k) := by
  induction k with
  | zero =>
    rw [Nat.mul_zero, List.take_zero]
    rfl
  | succ k ih =>
    rw [List.range_succ, List.map_append, List.flatten_append, ih, Nat.mul_succ, List.take_add]
    simp

theorem flatten_chunks {n : ℕ} (hn : 0 < n) (l : List α) : (chunks n l).flatten = l := by
  unfold chunks
  rw [flatten_slices, List.take_of_length_le]
  have hdiv := Nat.div_add_mod (l.length + n - 1) n
  have hmod := Nat.mod_lt (l.length + n - 1) hn
  omega

theorem length_of_mem_chunks {n : ℕ} {l c : List α} (h : c ∈ chunks n l) : c.length ≤ n := by
  obtain ⟨i, -, rfl⟩ := List.mem_map.1 h
  rw [List.length_take]
  exact Nat.min_le_left n _

/-! ## Tilings -/

/-- The tiles, in order, of a rectangle that is cut along its sides. -/
inductive Tiling : List α → List β → List (List α × List β) → Prop
  | whole (xs : List α) (ys : List β) : Tiling xs ys [(xs, ys)]
  | left {xs xs' : List α} {ys : List β} {ts ts' : List (List α × List β)} :
      Tiling xs ys ts → Tiling xs' ys ts' → Tiling (xs ++ xs') ys (ts ++ ts')
  | right {xs : List α} {ys ys' : List β} {ts ts' : List (List α × List β)} :
      Tiling xs ys ts → Tiling xs ys' ts' → Tiling xs (ys ++ ys') (ts ++ ts')

namespace Tiling

variable {xs : List α} {ys : List β} {ts : List (List α × List β)} {a : α} {b : β}

/-- A tile lies in the rectangle. -/
theorem sublist (h : Tiling xs ys ts) : ∀ t ∈ ts, t.1.Sublist xs ∧ t.2.Sublist ys := by
  induction h with
  | whole xs ys =>
    intro t ht
    obtain rfl := List.mem_singleton.1 ht
    exact ⟨List.Sublist.refl xs, List.Sublist.refl ys⟩
  | @left xs xs' ys ts ts' _ _ ih ih' =>
    intro t ht
    rcases List.mem_append.1 ht with ht | ht
    · exact ⟨(ih t ht).1.trans (List.sublist_append_left xs xs'), (ih t ht).2⟩
    · exact ⟨(ih' t ht).1.trans (List.sublist_append_right xs xs'), (ih' t ht).2⟩
  | @right xs ys ys' ts ts' _ _ ih ih' =>
    intro t ht
    rcases List.mem_append.1 ht with ht | ht
    · exact ⟨(ih t ht).1, (ih t ht).2.trans (List.sublist_append_left ys ys')⟩
    · exact ⟨(ih' t ht).1, (ih' t ht).2.trans (List.sublist_append_right ys ys')⟩

/-- Whatever stands on a side stands on the side of some tile. -/
theorem covers_left (h : Tiling xs ys ts) (ha : a ∈ xs) : ∃ t ∈ ts, a ∈ t.1 := by
  induction h with
  | whole xs ys => exact ⟨_, List.mem_singleton_self _, ha⟩
  | left _ _ ih ih' =>
    rcases List.mem_append.1 ha with ha | ha
    · obtain ⟨t, ht, hat⟩ := ih ha
      exact ⟨t, List.mem_append_left _ ht, hat⟩
    · obtain ⟨t, ht, hat⟩ := ih' ha
      exact ⟨t, List.mem_append_right _ ht, hat⟩
  | right _ _ ih _ =>
    obtain ⟨t, ht, hat⟩ := ih ha
    exact ⟨t, List.mem_append_left _ ht, hat⟩

theorem covers_right (h : Tiling xs ys ts) (hb : b ∈ ys) : ∃ t ∈ ts, b ∈ t.2 := by
  induction h with
  | whole xs ys => exact ⟨_, List.mem_singleton_self _, hb⟩
  | left _ _ ih _ =>
    obtain ⟨t, ht, hbt⟩ := ih hb
    exact ⟨t, List.mem_append_left _ ht, hbt⟩
  | right _ _ ih ih' =>
    rcases List.mem_append.1 hb with hb | hb
    · obtain ⟨t, ht, hbt⟩ := ih hb
      exact ⟨t, List.mem_append_left _ ht, hbt⟩
    · obtain ⟨t, ht, hbt⟩ := ih' hb
      exact ⟨t, List.mem_append_right _ ht, hbt⟩

variable [DecidableEq α] [DecidableEq β]

/-- How many tiles hold a pair. -/
def holding (ts : List (List α × List β)) (a : α) (b : β) : ℕ := ts.countP fun t => decide (a ∈ t.1 ∧ b ∈ t.2)

theorem holding_append (ts ts' : List (List α × List β)) : holding (ts ++ ts') a b = holding ts a b + holding ts' a b :=
  List.countP_append

/-- No tile holds a pair of which one stands on no side. -/
theorem holding_eq_zero (h : Tiling xs ys ts) (hab : a ∉ xs ∨ b ∉ ys) : holding ts a b = 0 := by
  refine List.countP_eq_zero.2 fun t ht hpair => ?_
  obtain ⟨hat, hbt⟩ := of_decide_eq_true hpair
  obtain ⟨hleft, hright⟩ := h.sublist t ht
  exact hab.elim (fun hno => hno (hleft.subset hat)) fun hno => hno (hright.subset hbt)

/-- **Every pair stands in exactly one tile.** -/
theorem once (h : Tiling xs ys ts) (hxs : xs.Nodup) (hys : ys.Nodup) (ha : a ∈ xs) (hb : b ∈ ys) : holding ts a b = 1 := by
  induction h with
  | whole xs ys =>
    have hall : holding [(xs, ys)] a b = [(xs, ys)].length := List.countP_eq_length.2 fun t ht => by
      obtain rfl := List.mem_singleton.1 ht
      exact decide_eq_true ⟨ha, hb⟩
    exact hall
  | left h h' ih ih' =>
    have hdisjoint := List.disjoint_of_nodup_append hxs
    rw [holding_append]
    rcases List.mem_append.1 ha with hone | hother
    · have hno := h'.holding_eq_zero (a := a) (b := b) (.inl (hdisjoint hone))
      rw [ih hxs.of_append_left hys hone hb, hno]
    · have hno := h.holding_eq_zero (a := a) (b := b) (.inl fun hone => hdisjoint hone hother)
      rw [ih' hxs.of_append_right hys hother hb, hno]
  | right h h' ih ih' =>
    have hdisjoint := List.disjoint_of_nodup_append hys
    rw [holding_append]
    rcases List.mem_append.1 hb with hone | hother
    · have hno := h'.holding_eq_zero (a := a) (b := b) (.inr (hdisjoint hone))
      rw [ih hxs hys.of_append_left ha hone, hno]
    · have hno := h.holding_eq_zero (a := a) (b := b) (.inr fun hone => hdisjoint hone hother)
      rw [ih' hxs hys.of_append_right ha hother, hno]

end Tiling

/-! ## Products of chunks -/

/-- Each of some rectangles is cut, and its tiles are put in its place. -/
def Cut (pending tiles : List (List α × List β)) : Prop :=
  ∃ parts : List (List (List α × List β)), tiles = parts.flatten ∧ List.Forall₂ (fun p ts => Tiling p.1 p.2 ts) pending parts

variable {pending pending' tiles tiles' : List (List α × List β)}

theorem Cut.nil : Cut ([] : List (List α × List β)) [] := ⟨[], rfl, .nil⟩

theorem cut_cons {p : List α × List β} : Cut (p :: pending) tiles ↔
    ∃ ts rest, tiles = ts ++ rest ∧ Tiling p.1 p.2 ts ∧ Cut pending rest := by
  constructor
  · rintro ⟨parts, rfl, hparts⟩
    cases hparts with
    | cons hone hrest => exact ⟨_, _, List.flatten_cons, hone, _, rfl, hrest⟩
  · rintro ⟨ts, rest, rfl, hone, parts, rfl, hrest⟩
    exact ⟨ts :: parts, List.flatten_cons.symm, .cons hone hrest⟩

/-- A tile lies in one of the rectangles. -/
theorem Cut.sublist (h : Cut pending tiles) : ∀ t ∈ tiles, ∃ p ∈ pending, t.1.Sublist p.1 ∧ t.2.Sublist p.2 := by
  induction pending generalizing tiles with
  | nil =>
    obtain ⟨parts, rfl, hparts⟩ := h
    cases hparts
    exact fun t ht => (List.not_mem_nil ht).elim
  | cons p pending ih =>
    obtain ⟨ts, rest, rfl, hone, hrest⟩ := cut_cons.1 h
    intro t ht
    rcases List.mem_append.1 ht with ht | ht
    · exact ⟨p, List.mem_cons_self, hone.sublist t ht⟩
    · obtain ⟨q, hq, hsub⟩ := ih hrest t ht
      exact ⟨q, List.mem_cons_of_mem p hq, hsub⟩

theorem cut_append : Cut (pending ++ pending') tiles ↔
    ∃ ts ts', tiles = ts ++ ts' ∧ Cut pending ts ∧ Cut pending' ts' := by
  induction pending generalizing tiles with
  | nil =>
    constructor
    · exact fun h => ⟨[], tiles, rfl, Cut.nil, h⟩
    · rintro ⟨ts, ts', rfl, ⟨parts, rfl, hnil⟩, h⟩
      cases hnil
      exact h
  | cons p pending ih =>
    rw [List.cons_append, cut_cons]
    constructor
    · rintro ⟨ts, rest, rfl, hone, hrest⟩
      obtain ⟨us, us', rfl, hus, hus'⟩ := ih.1 hrest
      exact ⟨ts ++ us, us', (List.append_assoc ..).symm, cut_cons.2 ⟨ts, us, rfl, hone, hus⟩, hus'⟩
    · rintro ⟨us, us', rfl, hus, hus'⟩
      obtain ⟨ts, rest, rfl, hone, hrest⟩ := cut_cons.1 hus
      exact ⟨ts, rest ++ us', List.append_assoc .., hone, ih.2 ⟨rest, us', rfl, hrest, hus'⟩⟩

/-- One row: a left side beside the chunks of a right one. -/
theorem tiling_row (xs : List α) : ∀ {columns : List (List β)} {tiles : List (List α × List β)}, columns ≠ [] →
    Cut (columns.map fun c => (xs, c)) tiles → Tiling xs columns.flatten tiles := by
  intro columns
  induction columns with
  | nil => exact fun hne => (hne rfl).elim
  | cons c columns ih =>
    intro tiles _ h
    rw [List.map_cons, cut_cons] at h
    obtain ⟨ts, rest, rfl, hone, hrest⟩ := h
    rw [List.flatten_cons]
    by_cases hnil : columns = []
    · subst hnil
      obtain ⟨parts, rfl, hparts⟩ := hrest
      cases hparts
      rw [List.flatten_nil, List.append_nil, List.flatten_nil, List.append_nil]
      exact hone
    · exact .right hone (ih hnil hrest)

/-- **The products of the chunks of both sides**, cut or not, are a tiling. -/
theorem tiling_product {columns : List (List β)} (hcolumns : columns ≠ []) : ∀ {rows : List (List α)}
    {tiles : List (List α × List β)}, rows ≠ [] → Cut (rows.flatMap fun r => columns.map fun c => (r, c)) tiles →
      Tiling rows.flatten columns.flatten tiles := by
  intro rows
  induction rows with
  | nil => exact fun hne => (hne rfl).elim
  | cons r rows ih =>
    intro tiles _ h
    rw [List.flatMap_cons, cut_append] at h
    obtain ⟨ts, ts', rfl, hone, hrest⟩ := h
    have hrow := tiling_row r hcolumns hone
    rw [List.flatten_cons]
    by_cases hnil : rows = []
    · subst hnil
      obtain ⟨parts, rfl, hparts⟩ := hrest
      cases hparts
      rw [List.flatten_nil, List.append_nil, List.flatten_nil, List.append_nil]
      exact hrow
    · exact .left hrow (ih hnil hrest)

/-! ## Cutting in half -/

/-- One more than the cuts that a rectangle allows, twice. -/
def weight (p : List α × List β) : ℕ := 2 * (max 1 p.1.length * max 1 p.2.length) - 1

theorem weight_pos (p : List α × List β) : 0 < weight p := by
  have hpos : 0 < max 1 p.1.length * max 1 p.2.length := Nat.mul_pos (by omega) (by omega)
  unfold weight
  omega

theorem weight_halves_left {xs : List α} (ys : List β) (h : 1 < xs.length) :
    weight (xs.take (xs.length / 2), ys) + weight (xs.drop (xs.length / 2), ys) < weight (xs, ys) := by
  unfold weight
  dsimp only
  rw [List.length_take, List.length_drop, Nat.min_eq_left (Nat.div_le_self _ 2)]
  have hlow : max 1 (xs.length / 2) = xs.length / 2 := by omega
  have hhigh : max 1 (xs.length - xs.length / 2) = xs.length - xs.length / 2 := by omega
  have hwhole : max 1 xs.length = xs.length := by omega
  have hsum : xs.length / 2 + (xs.length - xs.length / 2) = xs.length := by omega
  rw [hlow, hhigh, hwhole]
  have hpos : 0 < max 1 ys.length := by omega
  have hone : 0 < xs.length / 2 * max 1 ys.length := Nat.mul_pos (by omega) hpos
  have hother : 0 < (xs.length - xs.length / 2) * max 1 ys.length := Nat.mul_pos (by omega) hpos
  have hmul : xs.length / 2 * max 1 ys.length + (xs.length - xs.length / 2) * max 1 ys.length =
      xs.length * max 1 ys.length := by
    rw [← Nat.add_mul, hsum]
  omega

theorem weight_halves_right (xs : List α) {ys : List β} (h : 1 < ys.length) :
    weight (xs, ys.take (ys.length / 2)) + weight (xs, ys.drop (ys.length / 2)) < weight (xs, ys) := by
  have hswap : ∀ zs : List β, weight (xs, zs) = weight (zs, xs) := by
    intro zs
    unfold weight
    dsimp only
    rw [Nat.mul_comm (max 1 xs.length)]
  rw [hswap, hswap, hswap]
  exact weight_halves_left xs h

end Stablemate
