import Mathlib.Data.Int.Basic
import Mathlib.Data.List.Lex
import Mathlib.Tactic.Ring

/-!
# Numerals of a fixed width

`low b d n v` is the `n` lowest digits of `v` in base `b`, the lowest first, and `numeral b d n v`
is the same digits the other way round; `d` spells a digit.

* `numeral_lt_numeral`: numerals of one width are ordered as words the way the numbers are, for
  digits that are spelled in order.
* `append_lt_append`: two words in one are ordered as the pair of them.
-/

namespace Stablemate.Radix

variable {α : Type*}

/-- The lowest digits, the lowest first. -/
def low (b : ℤ) (d : ℤ → α) : ℕ → ℤ → List α
  | 0, _ => []
  | n + 1, v => d (v % b) :: low b d n (v / b)

def numeral (b : ℤ) (d : ℤ → α) (n : ℕ) (v : ℤ) : List α := (low b d n v).reverse

variable {b : ℤ} {d : ℤ → α} {n : ℕ} {v w : ℤ}

theorem numeral_succ (b : ℤ) (d : ℤ → α) (n : ℕ) (v : ℤ) :
    numeral b d (n + 1) v = numeral b d n (v / b) ++ [d (v % b)] := by
  simp only [numeral, low, List.reverse_cons]

@[simp] theorem length_numeral (b : ℤ) (d : ℤ → α) (n : ℕ) (v : ℤ) : (numeral b d n v).length = n := by
  induction n generalizing v with
  | zero => rfl
  | succ n ih => rw [numeral_succ, List.length_append, ih, List.length_singleton]

/-- Each digit of a numeral is one. -/
theorem mem_numeral (hb : 0 < b) {a : α} (h : a ∈ numeral b d n v) : ∃ r, 0 ≤ r ∧ r < b ∧ a = d r := by
  induction n generalizing v with
  | zero => exact absurd h List.not_mem_nil
  | succ n ih =>
    rw [numeral_succ, List.mem_append, List.mem_singleton] at h
    rcases h with h | h
    · exact ih h
    · exact ⟨v % b, Int.emod_nonneg v hb.ne', Int.emod_lt_of_pos v hb, h⟩

section Order

variable [LinearOrder α]

/-- **Two words in one are ordered as the pair of them**, when the first ones have one length. -/
theorem append_lt_append {s t x y : List α} (h : s.length = t.length) :
    s ++ x < t ++ y ↔ s < t ∨ s = t ∧ x < y := by
  induction s generalizing t with
  | nil =>
    obtain rfl := List.length_eq_zero_iff.1 h.symm
    simp
  | cons a s ih =>
    cases t with
    | nil => cases h
    | cons c t =>
      have hst := ih (Nat.succ.inj h)
      simp only [List.cons_append, List.cons_lt_cons_iff, List.cons.injEq, hst]
      tauto

/-- What a number below a multiple of the base is, in its two parts. -/
theorem lt_iff_parts (hb : 0 < b) : v < w ↔ v / b < w / b ∨ v / b = w / b ∧ v % b < w % b := by
  have hv := Int.mul_ediv_add_emod v b
  have hw := Int.mul_ediv_add_emod w b
  have hvr := Int.emod_lt_of_pos v hb
  have hwr := Int.emod_lt_of_pos w hb
  have hv₀ := Int.emod_nonneg v hb.ne'
  have hw₀ := Int.emod_nonneg w hb.ne'
  constructor
  · intro h
    rcases lt_trichotomy (v / b) (w / b) with hlt | heq | hgt
    · exact .inl hlt
    · rw [heq] at hv
      exact .inr ⟨heq, by omega⟩
    · -- a larger quotient is a larger number
      have := Int.ediv_le_ediv hb h.le
      omega
  · rintro (hlt | ⟨heq, hlt⟩)
    · by_contra hle
      have := Int.ediv_le_ediv hb (not_lt.1 hle)
      omega
    · rw [heq] at hv
      omega

/-- **Numerals of one width are ordered the way the numbers are.** -/
theorem numeral_lt_numeral (hb : 0 < b) (hd : ∀ r s, 0 ≤ r → r < s → s < b → d r < d s)
    (hv₀ : 0 ≤ v) (hv : v < b ^ n) (hw₀ : 0 ≤ w) (hw : w < b ^ n) :
    numeral b d n v < numeral b d n w ↔ v < w := by
  have hdig : ∀ r s, 0 ≤ r → r < b → 0 ≤ s → s < b → (d r < d s ↔ r < s) := by
    intro r s hr₀ hr hs₀ hs
    refine ⟨fun h => ?_, fun h => hd r s hr₀ h hs⟩
    rcases lt_trichotomy r s with hlt | rfl | hgt
    · exact hlt
    · exact absurd h (lt_irrefl _)
    · exact absurd (h.trans (hd s r hs₀ hgt hr)) (lt_irrefl _)
  induction n generalizing v w with
  | zero =>
    rw [pow_zero] at hv hw
    have : ¬ v < w := by omega
    simpa [numeral, low] using this
  | succ n ih =>
    have hq : ∀ u : ℤ, 0 ≤ u → u < b ^ (n + 1) → 0 ≤ u / b ∧ u / b < b ^ n := by
      intro u hu₀ hu
      rw [pow_succ] at hu
      exact ⟨Int.ediv_nonneg hu₀ hb.le, Int.ediv_lt_of_lt_mul hb hu⟩
    obtain ⟨hv₁, hv₂⟩ := hq v hv₀ hv
    obtain ⟨hw₁, hw₂⟩ := hq w hw₀ hw
    have hlt : numeral b d n (v / b) < numeral b d n (w / b) ↔ v / b < w / b := ih hv₁ hv₂ hw₁ hw₂
    have hgt : numeral b d n (w / b) < numeral b d n (v / b) ↔ w / b < v / b := ih hw₁ hw₂ hv₁ hv₂
    have heq : numeral b d n (v / b) = numeral b d n (w / b) ↔ v / b = w / b := by
      refine ⟨fun h => ?_, fun h => by rw [h]⟩
      have h₁ : ¬ v / b < w / b := fun hlt' => absurd (hlt.2 hlt') (h ▸ lt_irrefl _)
      have h₂ : ¬ w / b < v / b := fun hgt' => absurd (hgt.2 hgt') (h ▸ lt_irrefl _)
      omega
    have hlast := hdig (v % b) (w % b) (Int.emod_nonneg v hb.ne') (Int.emod_lt_of_pos v hb)
      (Int.emod_nonneg w hb.ne') (Int.emod_lt_of_pos w hb)
    have hone : [d (v % b)] < [d (w % b)] ↔ d (v % b) < d (w % b) := by
      rw [List.cons_lt_cons_iff]
      exact ⟨fun h => h.resolve_right fun h => absurd h.2 (lt_irrefl _), .inl⟩
    have hlen : (numeral b d n (v / b)).length = (numeral b d n (w / b)).length := by
      rw [length_numeral, length_numeral]
    rw [numeral_succ, numeral_succ, append_lt_append hlen, hlt, heq, hone, hlast]
    exact (lt_iff_parts hb).symm

end Order

end Stablemate.Radix
