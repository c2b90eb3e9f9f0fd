import Mathlib.Algebra.Order.Field.Basic
import Mathlib.Tactic.Positivity
import Mathlib.Tactic.Linarith

/-!
# Places in a gap

`n` places divide the gap between two bounds into equal parts.

* `lt_place`, `place_lt`: the places lie between the bounds.
* `place_strictMono`: they rise, so no two are one.
-/

namespace Stablemate

variable {K : Type*} [Field K] [LinearOrder K] [IsStrictOrderedRing K] {a b : K} {n i j : ℕ}

/-- The place `i` of `n` between `a` and `b`. -/
def place (a b : K) (n i : ℕ) : K := a + (b - a) / (n + 1) * (i + 1)

/-- The length of a part. -/
theorem part_pos (h : a < b) (n : ℕ) : 0 < (b - a) / (n + 1 : K) :=
  div_pos (sub_pos.2 h) (by positivity)

theorem lt_place (h : a < b) (n i : ℕ) : a < place a b n i := by
  have hstep : 0 < (b - a) / (n + 1 : K) * (i + 1) := mul_pos (part_pos h n) (by positivity)
  unfold place
  linarith

theorem place_strictMono (h : a < b) (n : ℕ) : StrictMono (place a b n) := by
  intro i j hij
  have hcast : (i : K) + 1 < j + 1 := by
    have hlt : (i : K) < j := Nat.cast_lt.2 hij
    linarith
  have hstep := mul_lt_mul_of_pos_left hcast (part_pos h n)
  unfold place
  linarith

theorem place_lt (h : a < b) (hi : i < n) : place a b n i < b := by
  -- all `n + 1` parts reach `b`
  have hend : place a b n n = b := by
    have hne : (n : K) + 1 ≠ 0 := by positivity
    unfold place
    rw [div_mul_cancel₀ _ hne]
    exact add_sub_cancel a b
  calc place a b n i < place a b n n := place_strictMono h n hi
    _ = b := hend

end Stablemate
