import Mathlib.Data.List.GetD
import Stablemate.Model.Ids

/-!
# Minted ULIDs are strictly increasing

* `ulids_increasing`: under clock readings from `0` to `2^48 - 1`, in any order and with any
  random bytes, **each of the first `2^50 - 2^48 + 1` ULIDs of a process comes after every
  earlier one**, and each is 26 Crockford characters.
* `ulids_wrap`: one call more can return to the first string, for a full random part moves the
  time on; so does a clock before 1970.
-/

namespace Stablemate.Ids

/-! ## Digits -/

theorem digit_lt_digit (r s : ℤ) (hr : 0 ≤ r) (hrs : r < s) (hs : s < 32) : digit r < digit s := by
  have hsorted : _CROCKFORD.Pairwise (· < ·) := by decide
  have hlt := List.pairwise_iff_getElem.1 hsorted r.toNat s.toNat
  have hlen : _CROCKFORD.length = 32 := by decide
  unfold digit
  rw [List.getD_eq_getElem _ _ (by omega), List.getD_eq_getElem _ _ (by omega)]
  exact hlt (by omega) (by omega) (by omega)

theorem digit_mem (r : ℤ) (hr : 0 ≤ r) (hs : r < 32) : digit r ∈ _CROCKFORD := by
  have hlen : _CROCKFORD.length = 32 := by decide
  unfold digit
  rw [List.getD_eq_getElem _ _ (by omega)]
  exact List.getElem_mem _

@[simp] theorem length_b32 (value : ℤ) (length : ℕ) : (_b32 value length).length = length :=
  Radix.length_numeral _ _ _ _

theorem mem_b32 {value : ℤ} {length : ℕ} {c : Char} (h : c ∈ _b32 value length) : c ∈ _CROCKFORD := by
  obtain ⟨r, hr, hs, rfl⟩ := Radix.mem_numeral (by norm_num) h
  exact digit_mem r hr hs

theorem b32_lt_b32 {v w : ℤ} {n : ℕ} (hv : 0 ≤ v) (hv' : v < 32 ^ n) (hw : 0 ≤ w) (hw' : w < 32 ^ n) :
    _b32 v n < _b32 w n ↔ v < w :=
  Radix.numeral_lt_numeral (by norm_num) digit_lt_digit hv hv' hw hw'

/-! ## The state and its string -/

theorem from_bytes_lt (raw : List UInt8) : from_bytes raw < 256 ^ raw.length := by
  have key : ∀ (raw : List UInt8) (value : ℕ),
      raw.foldl (fun value byte => 256 * value + byte.toNat) value + 1 ≤ (value + 1) * 256 ^ raw.length := by
    intro raw
    induction raw with
    | nil => intro value; simp
    | cons byte raw ih =>
      intro value
      have hbyte := byte.toNat_lt
      calc _ ≤ (256 * value + byte.toNat + 1) * 256 ^ raw.length := ih _
        _ ≤ ((value + 1) * 256) * 256 ^ raw.length := Nat.mul_le_mul_right _ (by omega)
        _ = (value + 1) * 256 ^ (raw.length + 1) := by ring
  have := key raw 0
  unfold from_bytes
  omega

/-- The time part that ten characters hold, and the random part that sixteen hold. -/
structure Mono.Fits (mono : Mono) : Prop where
  ms_nonneg : 0 ≤ mono.last_ms
  ms_lt : mono.last_ms < 2 ^ 50
  rand_lt : mono.last_rand < 2 ^ 80

/-- The order that ULIDs are minted in. -/
def Mono.Before (mono later : Mono) : Prop :=
  mono.last_ms < later.last_ms ∨ mono.last_ms = later.last_ms ∧ mono.last_rand < later.last_rand

/-- **The string order is the order of the pair.** -/
theorem ulid_lt_ulid {mono later : Mono} (hm : mono.Fits) (hl : later.Fits) :
    mono.ulid < later.ulid ↔ mono.Before later := by
  have hms := b32_lt_b32 (n := _TIME_LEN) hm.ms_nonneg hm.ms_lt hl.ms_nonneg hl.ms_lt
  have hms' := b32_lt_b32 (n := _TIME_LEN) hl.ms_nonneg hl.ms_lt hm.ms_nonneg hm.ms_lt
  have hrand := b32_lt_b32 (n := _RAND_LEN) (Int.natCast_nonneg mono.last_rand)
    (by exact_mod_cast hm.rand_lt) (Int.natCast_nonneg later.last_rand) (by exact_mod_cast hl.rand_lt)
  have heq : _b32 mono.last_ms _TIME_LEN = _b32 later.last_ms _TIME_LEN ↔ mono.last_ms = later.last_ms := by
    refine ⟨fun h => ?_, fun h => by rw [h]⟩
    rw [h] at hms hms'
    have h₁ : ¬ mono.last_ms < later.last_ms := fun hlt => lt_irrefl _ (hms.2 hlt)
    have h₂ : ¬ later.last_ms < mono.last_ms := fun hlt => lt_irrefl _ (hms'.2 hlt)
    omega
  unfold Mono.ulid Mono.Before
  rw [Radix.append_lt_append (by simp), hms, heq, hrand, Int.ofNat_lt]

theorem length_ulid (mono : Mono) : mono.ulid.length = ULID_LEN := by
  simp [Mono.ulid, ULID_LEN]

theorem mem_ulid {mono : Mono} {c : Char} (h : c ∈ mono.ulid) : c ∈ _CROCKFORD :=
  (List.mem_append.1 h).elim mem_b32 mem_b32

/-! ## One call -/

/-- What a call can do to the state. -/
theorem next_cases (call : Call) (mono : Mono) :
    (mono.last_ms < call.ms ∧ mono.next call = ⟨call.ms, from_bytes call.urandom⟩) ∨
    (call.ms ≤ mono.last_ms ∧ mono.next call = ⟨mono.last_ms + 1, from_bytes call.urandom⟩) ∨
    (call.ms ≤ mono.last_ms ∧ mono.last_rand + 1 < 2 ^ 80 ∧
      mono.next call = ⟨mono.last_ms, mono.last_rand + 1⟩) := by
  unfold Mono.next
  split
  · exact .inl ⟨by assumption, rfl⟩
  · rename_i hms
    split
    · exact .inr (.inl ⟨not_lt.1 hms, rfl⟩)
    · rename_i hrand
      refine .inr (.inr ⟨not_lt.1 hms, ?_, rfl⟩)
      rw [ne_eq, not_not, Nat.shiftRight_eq_div_pow] at hrand
      exact (Nat.div_eq_zero_iff_lt (by norm_num)).1 hrand

theorem before_next (call : Call) (mono : Mono) : mono.Before (mono.next call) := by
  unfold Mono.Before
  rcases next_cases call mono with ⟨hms, h⟩ | ⟨-, h⟩ | ⟨-, -, h⟩ <;> rw [h]
  · exact .inl hms
  · exact .inl (Int.lt_succ _)
  · exact .inr ⟨rfl, Nat.lt_succ_self _⟩

theorem next_rand_lt (call : Call) (mono : Mono) : (mono.next call).last_rand < 2 ^ 80 := by
  have hbytes := from_bytes_lt call.urandom
  rw [call.ten] at hbytes
  rcases next_cases call mono with ⟨-, h⟩ | ⟨-, h⟩ | ⟨-, hlt, h⟩ <;> rw [h]
  · exact hbytes
  · exact hbytes
  · exact hlt

/-- The time part never falls behind the clock, and is at most one ahead of both. -/
theorem next_ms (call : Call) (mono : Mono) :
    call.ms ≤ (mono.next call).last_ms ∧ (mono.next call).last_ms ≤ max call.ms (mono.last_ms + 1) := by
  rcases next_cases call mono with ⟨-, h⟩ | ⟨hms, h⟩ | ⟨hms, -, h⟩ <;> rw [h] <;> dsimp only <;> omega

/-! ## Any number of calls -/

/-- What is minted next fits, while the clock and the calls to come leave room. -/
theorem next_fits {call : Call} {mono : Mono} {n : ℕ} (hpos : 0 ≤ call.ms) (hcall : call.ms + n < 2 ^ 50)
    (hmono : mono.last_ms + (n + 1 : ℕ) < 2 ^ 50) :
    (mono.next call).Fits ∧ (mono.next call).last_ms + n < 2 ^ 50 := by
  obtain ⟨hge, hle⟩ := next_ms call mono
  push_cast at hmono
  have hroom : (mono.next call).last_ms + n < 2 ^ 50 := by omega
  exact ⟨⟨by omega, by omega, next_rand_lt call mono⟩, hroom⟩

/-- Everything minted from a state on comes after the state's own string. -/
theorem ulid_lt_minted {calls : List Call} :
    ∀ {mono : Mono}, mono.Fits → mono.last_ms + calls.length < 2 ^ 50 →
      (∀ call ∈ calls, 0 ≤ call.ms ∧ call.ms + calls.length ≤ 2 ^ 50) →
      ∀ u ∈ minted mono calls, mono.ulid < u := by
  induction calls with
  | nil => intro mono _ _ _ u hu; exact absurd hu List.not_mem_nil
  | cons call calls ih =>
    intro mono hmono hroom hcalls u hu
    obtain ⟨hpos, hle⟩ := hcalls call List.mem_cons_self
    rw [List.length_cons] at hroom hle
    push_cast at hle
    obtain ⟨hfits, hroom'⟩ := next_fits (n := calls.length) hpos (by omega) hroom
    have hhead : mono.ulid < (mono.next call).ulid := (ulid_lt_ulid hmono hfits).2 (before_next call mono)
    rcases List.mem_cons.1 hu with rfl | hu
    · exact hhead
    · have hrest : ∀ c ∈ calls, 0 ≤ c.ms ∧ c.ms + calls.length ≤ 2 ^ 50 := by
        intro c hc
        obtain ⟨hc₀, hc₁⟩ := hcalls c (List.mem_cons_of_mem _ hc)
        rw [List.length_cons] at hc₁
        push_cast at hc₁
        exact ⟨hc₀, by omega⟩
      exact hhead.trans (ih hfits hroom' hrest u hu)

/-- The run: whatever the state before it, the strings rise. -/
theorem minted_pairwise {calls : List Call} :
    ∀ {mono : Mono}, mono.last_ms + calls.length < 2 ^ 50 →
      (∀ call ∈ calls, 0 ≤ call.ms ∧ call.ms + calls.length ≤ 2 ^ 50) →
      (minted mono calls).Pairwise (· < ·) := by
  induction calls with
  | nil => intro mono _ _; exact .nil
  | cons call calls ih =>
    intro mono hroom hcalls
    obtain ⟨hpos, hle⟩ := hcalls call List.mem_cons_self
    rw [List.length_cons] at hroom hle
    push_cast at hle
    obtain ⟨hfits, hroom'⟩ := next_fits (n := calls.length) hpos (by omega) hroom
    have hrest : ∀ c ∈ calls, 0 ≤ c.ms ∧ c.ms + calls.length ≤ 2 ^ 50 := by
      intro c hc
      obtain ⟨hc₀, hc₁⟩ := hcalls c (List.mem_cons_of_mem _ hc)
      rw [List.length_cons] at hc₁
      push_cast at hc₁
      exact ⟨hc₀, by omega⟩
    exact .cons (ulid_lt_minted hfits hroom' hrest) (ih hroom' hrest)

/-- What is minted is spelled out by states of the process. -/
theorem minted_spelled {calls : List Call} :
    ∀ {mono : Mono} {u : Text}, u ∈ minted mono calls → ∃ m : Mono, u = m.ulid := by
  induction calls with
  | nil => intro mono u hu; exact absurd hu List.not_mem_nil
  | cons call calls ih =>
    intro mono u hu
    rcases List.mem_cons.1 hu with rfl | hu
    · exact ⟨_, rfl⟩
    · exact ih hu

/-- **Minted ULIDs are strictly increasing.** The calls of one process, with clock readings from
`0` to `2^48 - 1`; repeated and falling readings and all random bytes are included. -/
theorem ulids_increasing (calls : List Call) (hclock : ∀ call ∈ calls, 0 ≤ call.ms ∧ call.ms < 2 ^ 48)
    (hcalls : calls.length ≤ 2 ^ 50 - 2 ^ 48 + 1) :
    (∀ u ∈ minted {} calls, u.length = 26 ∧ ∀ c ∈ u, c ∈ _CROCKFORD) ∧
      (minted {} calls).Pairwise (· < ·) ∧ (minted {} calls).Nodup := by
  have hrise : (minted {} calls).Pairwise (· < ·) := by
    apply minted_pairwise
    · show (-1 : ℤ) + calls.length < 2 ^ 50
      omega
    · intro call hcall
      obtain ⟨hpos, hlt⟩ := hclock call hcall
      exact ⟨hpos, by omega⟩
  refine ⟨fun u hu => ?_, hrise, hrise.imp fun h => h.ne⟩
  obtain ⟨m, rfl⟩ := minted_spelled hu
  exact ⟨length_ulid m, fun c hc => mem_ulid hc⟩

/-- A call whose ten random bytes are all `0xFF`. -/
def full (ms : ℤ) : Call := ⟨ms, List.replicate 10 255, by decide⟩

/-- A clock that goes back, and a random part that overflows. -/
theorem ulids_increasing_stalled :
    (minted {} [full 7, full 7, full 5]).Pairwise (· < ·) ∧
      (minted {} [full 7, full 7, full 5]).map String.ofList =
        ["0000000007ZZZZZZZZZZZZZZZZ", "0000000008ZZZZZZZZZZZZZZZZ", "0000000009ZZZZZZZZZZZZZZZZ"] :=
  ⟨(ulids_increasing [full 7, full 7, full 5] (by decide) (by decide)).2.1, by decide⟩

/-- A full random part and full random bytes move the time on with every call. -/
theorem next_stalled {call : Call} (hfull : from_bytes call.urandom = 2 ^ 80 - 1) {ms : ℤ} (hms : call.ms ≤ ms) :
    Mono.next call ⟨ms, 2 ^ 80 - 1⟩ = ⟨ms + 1, 2 ^ 80 - 1⟩ := by
  have hover : (2 ^ 80 - 1 + 1) >>> (_RAND_LEN * 5) ≠ 0 := by decide
  simp only [Mono.next, if_neg (not_lt.2 hms), if_pos hover, hfull]

theorem stalled_mem {call : Call} (hfull : from_bytes call.urandom = 2 ^ 80 - 1) :
    ∀ (n : ℕ) (ms : ℤ), call.ms ≤ ms →
      (⟨ms + (n + 1 : ℕ), 2 ^ 80 - 1⟩ : Mono).ulid ∈ minted ⟨ms, 2 ^ 80 - 1⟩ (List.replicate (n + 1) call) := by
  intro n
  induction n with
  | zero =>
    intro ms hms
    show _ ∈ [(Mono.next call ⟨ms, 2 ^ 80 - 1⟩).ulid]
    rw [next_stalled hfull hms]
    exact List.mem_singleton.2 rfl
  | succ n ih =>
    intro ms hms
    have hlater := ih (ms + 1) (by omega)
    have hsum : ms + 1 + ((n + 1 : ℕ) : ℤ) = ms + ((n + 1 + 1 : ℕ) : ℤ) := by push_cast; ring
    rw [hsum] at hlater
    rw [List.replicate_succ, minted]
    apply List.mem_cons_of_mem
    show _ ∈ minted (Mono.next call ⟨ms, 2 ^ 80 - 1⟩) _
    rw [next_stalled hfull hms]
    exact hlater

/-- **Without the two bounds the strings may fall**: a clock that stands at the last reading it may
have, and one more call than `ulids_increasing` allows; and a clock before 1970. -/
theorem ulids_wrap :
    (∃ calls : List Call, calls = List.replicate (2 ^ 50 - 2 ^ 48 + 2) (full (2 ^ 48 - 1)) ∧
      (∀ call ∈ calls, 0 ≤ call.ms ∧ call.ms < 2 ^ 48) ∧ ¬ (minted {} calls).Pairwise (· < ·)) ∧
    ¬ (minted {} [full (-1), full 0]).Pairwise (· < ·) := by
  constructor
  · refine ⟨_, rfl, fun call hcall => ?_, fun hrise => ?_⟩
    · rw [List.eq_of_mem_replicate hcall]
      decide
    · have hfirst : Mono.next (full (2 ^ 48 - 1)) {} = ⟨2 ^ 48 - 1, 2 ^ 80 - 1⟩ := by decide
      have hfull : from_bytes (full (2 ^ 48 - 1)).urandom = 2 ^ 80 - 1 := by decide
      have hlast := stalled_mem hfull (2 ^ 50 - 2 ^ 48) (2 ^ 48 - 1) le_rfl
      rw [List.replicate_succ, minted, List.pairwise_cons] at hrise
      have hlt := hrise.1 (⟨2 ^ 48 - 1 + (2 ^ 50 - 2 ^ 48 + 1 : ℕ), 2 ^ 80 - 1⟩ : Mono).ulid (by
        show _ ∈ minted (Mono.next (full (2 ^ 48 - 1)) {}) _
        rw [hfirst]
        exact hlast)
      revert hlt
      show ¬ (Mono.next (full (2 ^ 48 - 1)) {}).ulid < _
      rw [hfirst]
      decide
  · decide

end Stablemate.Ids
