import Mathlib.Data.List.GetD
import Mathlib.Tactic.Linarith
import Stablemate.Model.Totp

/-!
# How long a typed code lives

* `code_eq`: what `code` returns is the code of RFC 6238 for the reading (`toBytes_eq`, `truncated_eq`,
  `zfill_eq`).
* `seconds_remaining_eq`: the seconds that are said to remain are the whole ones that do.
* `lives_iff`: **a typed code lives for as long as was asked exactly if that many whole seconds remained,
  or the clock stood at a whole second.**
-/

namespace Stablemate.Totp

open Sha256 (toBytes ofBytes)
open PyJson (decimal Value)

/-! ## The code -/

theorem length_toBytes (n x : ℕ) : (toBytes n x).length = n := by
  induction n generalizing x with
  | zero => rfl
  | succ n ih => simp [toBytes, ih]

theorem lt_of_mem_toBytes {n x b : ℕ} (h : b ∈ toBytes n x) : b < 256 := by
  induction n generalizing x with
  | zero => simp [toBytes] at h
  | succ n ih =>
    rcases List.mem_append.mp h with h | h
    · exact ih h
    · rw [List.mem_singleton.mp h]
      exact Nat.mod_lt _ (by decide)

theorem toBytes_eq (n x : ℕ) : toBytes n x = (List.range n).map fun i => x / 256 ^ (n - 1 - i) % 256 := by
  induction n generalizing x with
  | zero => rfl
  | succ n ih =>
    rw [toBytes, ih, List.range_succ, List.map_append]
    congr 1
    · refine List.map_congr_left fun i hi => ?_
      have hlt : i < n := List.mem_range.mp hi
      have hpow : 256 * 256 ^ (n - 1 - i) = 256 ^ (n + 1 - 1 - i) := by
        rw [← Nat.pow_succ', show (n - 1 - i).succ = n + 1 - 1 - i by omega]
      rw [Nat.div_div_eq_div_mul, hpow]
    · simp

theorem length_digest (bytes : List ℕ) : (Sha1.digest bytes).length = 20 := by
  simp [Sha1.digest, Sha1.Words.toList, length_toBytes]

theorem lt_of_mem_digest {bytes : List ℕ} {b : ℕ} (h : b ∈ Sha1.digest bytes) : b < 256 := by
  obtain ⟨word, -, hb⟩ := List.mem_flatMap.mp h
  exact lt_of_mem_toBytes hb

/-- A number below a power of ten, as that many digits. -/
theorem zfill_eq (w : ℕ) {n : ℕ} (hn : n < 10 ^ (w + 1)) :
    zfill (w + 1) n = (List.range (w + 1)).map fun i => Char.ofNat (48 + n / 10 ^ (w - i) % 10) := by
  have hdecimal (k : ℕ) : decimal (k : ℤ) = Nat.toDigits 10 k := by simp [decimal]
  have hdigit : ∀ d < 10, Nat.digitChar d = Char.ofNat (48 + d) := by decide
  induction w generalizing n with
  | zero =>
    have hlt : n < 10 := by simpa using hn
    simp [zfill, hdecimal, Nat.toDigits_of_lt_base hlt, hdigit n hlt, Nat.mod_eq_of_lt hlt]
  | succ w ih =>
    have hdiv : n / 10 < 10 ^ (w + 1) := by
      rw [Nat.div_lt_iff_lt_mul (by decide)]
      simpa [Nat.pow_succ] using hn
    have hmod : n % 10 < 10 := Nat.mod_lt _ (by decide)
    have hsplit : zfill (w + 1 + 1) n = zfill (w + 1) (n / 10) ++ [Char.ofNat (48 + n % 10)] := by
      by_cases hlt : n < 10
      · have h0 : n / 10 = 0 := Nat.div_eq_of_lt hlt
        simp only [zfill, hdecimal, h0, Nat.toDigits_of_lt_base hlt, Nat.toDigits_zero, List.length_singleton,
          Nat.mod_eq_of_lt hlt, hdigit n hlt, Nat.add_sub_cancel]
        rw [List.replicate_succ']
      · have hpos : 0 < n / 10 := Nat.div_pos (by omega) (by decide)
        have happend := Nat.toDigits_append_toDigits (b := 10) (by decide) hpos hmod
        rw [Nat.div_add_mod, Nat.toDigits_of_lt_base hmod, hdigit _ hmod] at happend
        simp only [zfill, hdecimal, ← happend, List.length_append, List.length_singleton, ← List.append_assoc]
        congr 3
        omega
    rw [hsplit, ih hdiv, List.range_succ (n := w + 1), List.map_append]
    congr 1
    · refine List.map_congr_left fun i hi => ?_
      have hlt : i < w + 1 := List.mem_range.mp hi
      have hpow : 10 * 10 ^ (w - i) = 10 ^ (w + 1 - i) := by
        rw [← Nat.pow_succ', show (w - i).succ = w + 1 - i by omega]
      rw [Nat.div_div_eq_div_mul, hpow]
    · simp

theorem truncated_eq {hs : List ℕ} (hlen : hs.length = 20) (hbytes : ∀ b ∈ hs, b < 256) :
    truncated hs = Rfc.digits (Rfc.truncate hs % 10 ^ 6) := by
  have hlast : hs.getLastD 0 = hs.getD 19 0 := by
    rw [List.getLastD_eq_getLast?, List.getLast?_eq_getElem?, hlen, List.getD_eq_getElem?_getD]
  have hoff : hs.getD 19 0 % 16 < 16 := Nat.mod_lt _ (by decide)
  have hand : hs.getD 19 0 &&& 0x0F = hs.getD 19 0 % 16 := Nat.and_two_pow_sub_one_eq_mod _ 4
  unfold truncated Rfc.truncate Rfc.digits
  rw [hlast, hand]
  generalize hs.getD 19 0 % 16 = off at hoff
  have hbyte (i : ℕ) (hi : i < 20) : hs.getD i 0 < 256 := by
    rw [List.getD_eq_getElem _ _ (by omega)]
    exact hbytes _ (List.getElem_mem _)
  have hfour : (hs.drop off).take 4 = [hs.getD off 0, hs.getD (off + 1) 0, hs.getD (off + 2) 0, hs.getD (off + 3) 0] := by
    have hcons (i : ℕ) (hi : i < 20) : hs.drop i = hs.getD i 0 :: hs.drop (i + 1) := by
      rw [List.getD_eq_getElem _ _ (by omega), List.drop_eq_getElem_cons (by omega)]
    rw [hcons off (by omega), hcons (off + 1) (by omega), hcons (off + 2) (by omega), hcons (off + 3) (by omega)]
    rfl
  have hmask (x : ℕ) : x &&& 0x7FFFFFFF = x % 2 ^ 31 := Nat.and_two_pow_sub_one_eq_mod _ 31
  have h0 := hbyte off (by omega)
  have h1 := hbyte (off + 1) (by omega)
  have h2 := hbyte (off + 2) (by omega)
  have h3 := hbyte (off + 3) (by omega)
  have hvalue : ofBytes [hs.getD off 0, hs.getD (off + 1) 0, hs.getD (off + 2) 0, hs.getD (off + 3) 0] % 2 ^ 31 =
      hs.getD off 0 % 128 * 2 ^ 24 + hs.getD (off + 1) 0 * 2 ^ 16 + hs.getD (off + 2) 0 * 2 ^ 8 +
        hs.getD (off + 3) 0 := by
    simp only [ofBytes, List.foldl_cons, List.foldl_nil]
    omega
  dsimp only
  rw [hfour, hmask, hvalue]
  exact zfill_eq 5 (Nat.mod_lt _ (by decide))

/-- **What `code` returns is the code of RFC 6238.** -/
theorem code_eq {seed text : Text} {now : ℚ} (h : code seed now = .ok text) :
    ∃ key, decode_seed seed = .ok key ∧ text = Rfc.totp key now := by
  unfold code at h
  cases hkey : decode_seed seed with
  | error message => simp [hkey] at h
  | ok key =>
    refine ⟨key, rfl, ?_⟩
    simp only [hkey] at h
    by_cases hcounter : 0 ≤ ⌊now / PERIOD_SECONDS⌋ ∧ ⌊now / PERIOD_SECONDS⌋ < 2 ^ 64
    · rw [if_pos hcounter, Except.ok.injEq] at h
      have hmoving : toBytes 8 ⌊now / PERIOD_SECONDS⌋.toNat = Rfc.moving (Rfc.step now) := toBytes_eq 8 _
      rw [← h, hmoving, Hmac.sha1, truncated_eq (length_digest _) fun b hb => lt_of_mem_digest hb]
      rfl
    · rw [if_neg hcounter] at h
      cases h

/-! ## The clock -/

theorem seconds_remaining_eq (now : ℚ) : seconds_remaining now = ⌊Rfc.validity now⌋ := by
  unfold seconds_remaining modulo Rfc.validity
  congr 1
  simp only [PERIOD_SECONDS, Nat.cast_ofNat]
  ring

theorem validity_pos (t : ℚ) : 0 < Rfc.validity t := by
  have h := Int.lt_floor_add_one (t / 30)
  unfold Rfc.validity
  linarith

theorem seconds_remaining_nonneg (t : ℚ) : 0 ≤ seconds_remaining t := by
  rw [seconds_remaining_eq, Int.floor_nonneg]
  exact (validity_pos t).le

theorem seconds_remaining_le (t : ℚ) : (seconds_remaining t : ℚ) ≤ Rfc.validity t := by
  rw [seconds_remaining_eq]
  exact Int.floor_le _

/-- Short of the next time step, waiting takes off what is waited. -/
theorem validity_add {t d : ℚ} (hd : 0 ≤ d) (hlt : d < Rfc.validity t) :
    Rfc.validity (t + d) = Rfc.validity t - d := by
  have hfloor : ⌊(t + d) / 30⌋ = ⌊t / 30⌋ := by
    have h := Int.floor_le (t / 30)
    unfold Rfc.validity at hlt
    rw [Int.floor_eq_iff]
    constructor <;> linarith
  simp only [Rfc.validity, hfloor]
  ring

/-- Waiting for the next time step gives a whole one. -/
theorem validity_next (t : ℚ) : Rfc.validity (t + Rfc.validity t) = 30 := by
  have hnext : (t + Rfc.validity t) / 30 = ((⌊t / 30⌋ + 1 : ℤ) : ℚ) := by
    simp only [Rfc.validity, Int.cast_add, Int.cast_one]
    ring
  have heq : t + Rfc.validity t = 30 * ((⌊t / 30⌋ + 1 : ℤ) : ℚ) := by
    rw [← hnext]
    ring
  rw [Rfc.validity, hnext, Int.floor_intCast, heq]
  ring

theorem whole_iff (t : ℚ) : (seconds_remaining t : ℚ) = Rfc.validity t ↔ (⌊t⌋ : ℚ) = t := by
  have hint : (⌊Rfc.validity t⌋ : ℚ) = Rfc.validity t ↔ ∃ n : ℤ, (n : ℚ) = Rfc.validity t :=
    ⟨fun h => ⟨_, h⟩, fun ⟨n, hn⟩ => by rw [← hn, Int.floor_intCast]⟩
  have hwhole : (⌊t⌋ : ℚ) = t ↔ ∃ n : ℤ, (n : ℚ) = t :=
    ⟨fun h => ⟨_, h⟩, fun ⟨n, hn⟩ => by rw [← hn, Int.floor_intCast]⟩
  rw [seconds_remaining_eq, hint, hwhole]
  constructor
  · rintro ⟨n, hn⟩
    refine ⟨30 * (⌊t / 30⌋ + 1) - n, ?_⟩
    push_cast
    rw [hn, Rfc.validity]
    ring
  · rintro ⟨n, hn⟩
    refine ⟨30 * (⌊t / 30⌋ + 1) - n, ?_⟩
    push_cast
    rw [hn, Rfc.validity]

/-! ## Typing -/

variable {name seed text : Text} {arg : Option Value} {minimum valid : ℤ} {now later : ℚ}

/-- Where the clock stands when a code is returned. -/
def laterOf (minimum : ℤ) (now : ℚ) : ℚ :=
  if seconds_remaining now < minimum then now + seconds_remaining now else now

theorem typable_spec (harg : minimumOf arg = some minimum)
    (h : _typable name "totp".toList (some seed) arg now = (.ok (text, some valid), later)) :
    later = laterOf minimum now ∧ code seed later = .ok text ∧ valid = seconds_remaining later := by
  simp only [_typable, _value, harg, Saddlebag.lit, ne_eq, not_true_eq_false, if_false, Prod.mk.injEq] at h
  obtain ⟨htyped, hlater⟩ := h
  have hlaterOf : later = laterOf minimum now := hlater.symm
  refine ⟨hlaterOf, ?_⟩
  rw [hlater] at htyped
  unfold typed at htyped
  cases hcode : code seed later with
  | ok code =>
    simp only [hcode, Except.ok.injEq, Prod.mk.injEq, Option.some.injEq] at htyped
    exact ⟨by rw [htyped.1], htyped.2.symm⟩
  | error raised => cases raised <;> simp [hcode] at htyped

/-- What is still valid of the code, once it is returned. -/
theorem validity_laterOf (hmin : 0 ≤ minimum) (hmax : minimum ≤ PERIOD_SECONDS) :
    (minimum : ℚ) ≤ Rfc.validity (laterOf minimum now) ↔ minimum ≤ seconds_remaining now ∨ (⌊now⌋ : ℚ) = now := by
  have hmax' : (minimum : ℚ) ≤ 30 := by exact_mod_cast hmax
  unfold laterOf
  by_cases hwait : seconds_remaining now < minimum
  · rw [if_pos hwait]
    have hle := seconds_remaining_le now
    rcases hle.lt_or_eq with hlt | heq
    · -- a part of a second is left, which is less than was asked for
      have hnonneg : (0 : ℚ) ≤ seconds_remaining now := by exact_mod_cast seconds_remaining_nonneg now
      have hpart : Rfc.validity now - seconds_remaining now < 1 := by
        have hfloor := Int.lt_floor_add_one (Rfc.validity now)
        rw [← seconds_remaining_eq] at hfloor
        linarith
      have hone : (1 : ℚ) ≤ minimum := by
        have hpos := seconds_remaining_nonneg now
        have hone : 1 ≤ minimum := by omega
        exact_mod_cast hone
      rw [validity_add hnonneg hlt]
      constructor
      · intro h
        linarith
      · rintro (h | h)
        · omega
        · exact absurd ((whole_iff now).mpr h) hlt.ne
    · rw [heq, validity_next]
      exact ⟨fun _ => .inr ((whole_iff now).mp heq), fun _ => hmax'⟩
  · rw [if_neg hwait]
    refine ⟨fun _ => .inl (by omega), fun _ => ?_⟩
    have hle : (minimum : ℚ) ≤ seconds_remaining now := by exact_mod_cast not_lt.mp hwait
    exact hle.trans (seconds_remaining_le now)

/-- **When a code is returned, it is the code of RFC 6238 for the clock and what is said to remain does
remain; and it lives for as long as was asked exactly if that many whole seconds remained at first, or the
clock stood at a whole second.** -/
theorem lives_iff (harg : minimumOf arg = some minimum) (hmin : 0 ≤ minimum) (hmax : minimum ≤ PERIOD_SECONDS)
    (h : _typable name "totp".toList (some seed) arg now = (.ok (text, some valid), later)) :
    ((∃ key, decode_seed seed = .ok key ∧ text = Rfc.totp key later) ∧ (minimum : ℚ) ≤ Rfc.validity later ∧
        (valid : ℚ) ≤ Rfc.validity later) ↔
      minimum ≤ seconds_remaining now ∨ (⌊now⌋ : ℚ) = now := by
  obtain ⟨hlater, hcode, hvalid⟩ := typable_spec harg h
  have hle : (valid : ℚ) ≤ Rfc.validity later := by
    rw [hvalid]
    exact seconds_remaining_le later
  rw [← validity_laterOf hmin hmax, ← hlater]
  exact ⟨fun hall => hall.2.1, fun hlives => ⟨code_eq hcode, hlives, hle⟩⟩

/-! ## Two readings of the clock -/

theorem floor_ratio (now : ℚ) (n : ℤ) (h : (n : ℚ) ≤ now / 30 ∧ now / 30 < n + 1) : ⌊now / 30⌋ = n :=
  Int.floor_eq_iff.mpr h

/-- A seed that is base32 gives a code. -/
theorem code_ok {key : List ℕ} (hkey : decode_seed seed = .ok key) {n : ℕ} (hfloor : ⌊now / 30⌋ = n) (hn : n < 2 ^ 64) :
    ∃ text, code seed now = .ok text := by
  have hcounter : ⌊now / PERIOD_SECONDS⌋ = n := hfloor
  refine ⟨truncated (Hmac.sha1 key (toBytes 8 n)), ?_⟩
  simp only [code, hkey, hcounter, Int.toNat_natCast]
  exact if_pos ⟨by omega, by omega⟩

theorem decode_MFRA : decode_seed "MFRA".toList = .ok [97, 98] := rfl

theorem typable_MFRA (now : ℚ) (n : ℕ) (hfloor : ⌊laterOf 5 now / 30⌋ = n) (hn : n < 2 ^ 64) :
    ∃ text, _typable "mail".toList "totp".toList (some "MFRA".toList) none now =
      (.ok (text, some (seconds_remaining (laterOf 5 now))), laterOf 5 now) := by
  obtain ⟨text, htext⟩ := code_ok decode_MFRA hfloor hn
  refine ⟨text, ?_⟩
  have htyped : typed "mail".toList "MFRA".toList (laterOf 5 now) =
      .ok (text, some (seconds_remaining (laterOf 5 now))) := by
    simp only [typed, htext]
  simp only [_typable, _value, minimumOf, Saddlebag.lit, ne_eq, not_true_eq_false, if_false]
  exact Prod.ext htyped rfl

/-- At 0 a whole period is left, which is enough. -/
theorem lives_iff_zero : ∃ text,
    _typable "mail".toList "totp".toList (some "MFRA".toList) none 0 = (.ok (text, some 30), 0) ∧
    (((∃ key, decode_seed "MFRA".toList = .ok key ∧ text = Rfc.totp key 0) ∧ ((5 : ℤ) : ℚ) ≤ Rfc.validity 0 ∧
      ((30 : ℤ) : ℚ) ≤ Rfc.validity 0) ↔ (5 : ℤ) ≤ seconds_remaining 0 ∨ ((⌊(0 : ℚ)⌋ : ℤ) : ℚ) = 0) := by
  have hremain : seconds_remaining 0 = 30 := by
    rw [seconds_remaining_eq, Rfc.validity, floor_ratio 0 0 (by norm_num), Int.floor_eq_iff]
    norm_num
  have hlater : laterOf 5 0 = 0 := by simp [laterOf, hremain]
  obtain ⟨text, htext⟩ := typable_MFRA 0 0 (by rw [hlater]; simp) (by decide)
  rw [hlater, hremain] at htext
  exact ⟨text, htext, lives_iff rfl (by decide) (by decide) htext⟩

/-- At 26.5 three whole seconds are left; after three seconds the code lives for half a one, and five were
asked for. -/
theorem typed_too_late : ∃ text valid later,
    _typable "mail".toList "totp".toList (some "MFRA".toList) none (53 / 2) = (.ok (text, some valid), later) ∧
      ¬ (5 : ℚ) ≤ Rfc.validity later := by
  have hremain : seconds_remaining (53 / 2) = 3 := by
    rw [seconds_remaining_eq, Rfc.validity, floor_ratio (53 / 2) 0 (by norm_num), Int.floor_eq_iff]
    norm_num
  have hlater : laterOf 5 (53 / 2) = 59 / 2 := by
    simp only [laterOf, hremain]
    norm_num
  have hfloor : ⌊(59 / 2 : ℚ) / 30⌋ = (0 : ℕ) := floor_ratio _ 0 (by norm_num)
  obtain ⟨text, htext⟩ := typable_MFRA (53 / 2) 0 (by rw [hlater, hfloor]) (by decide)
  refine ⟨text, _, _, htext, ?_⟩
  rw [hlater, Rfc.validity, hfloor]
  norm_num

end Stablemate.Totp
