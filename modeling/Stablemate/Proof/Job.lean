import Stablemate.Model.Job

/-!
# Overrun thresholds are exact

* `overrun_multiple_spec`: from the first threshold on, the result is the one `first * 2 ^ k`
  with `first * 2 ^ k ≤ elapsed / estimate < first * 2 ^ (k + 1)`.
* `overrun_thresholds_exact`: and **`supervise` touches the wake file at exactly the samples that
  are past a threshold which no sample before was past**, each time for a larger one.
-/

namespace Stablemate.Job

variable {ratio elapsed elapsed' estimate first : ℚ}

/-- The loop stops at the last threshold that the ratio has reached. -/
theorem crossedFrom_spec (ratio : ℚ) (crossed : {c : ℚ // 0 < c}) (h : crossed.1 ≤ ratio) :
    ∃ k : ℕ, crossedFrom ratio crossed = crossed.1 * 2 ^ k ∧ crossed.1 * 2 ^ k ≤ ratio ∧
      ratio < crossed.1 * 2 ^ (k + 1) := by
  induction crossed using crossedFrom.induct ratio with
  | case1 crossed hmore ih =>
    obtain ⟨k, heq, hle, hlt⟩ := ih hmore
    have hpow : ∀ n : ℕ, crossed.1 * 2 * 2 ^ n = crossed.1 * 2 ^ (n + 1) := fun n => by ring
    refine ⟨k + 1, ?_, ?_, ?_⟩
    · rw [crossedFrom, if_pos hmore, heq, hpow]
    · rw [← hpow]
      exact hle
    · rw [← hpow]
      exact hlt
  | case2 crossed hlast =>
    refine ⟨0, ?_, ?_, ?_⟩
    · rw [crossedFrom, if_neg hlast, pow_zero, mul_one]
    · rw [pow_zero, mul_one]
      exact h
    · rw [zero_add, pow_one]
      exact not_le.1 hlast

/-- Only one threshold has the ratio between it and the next. -/
theorem threshold_unique (hfirst : 0 < first) {k l : ℕ} (hk : first * 2 ^ k ≤ ratio) (hk' : ratio < first * 2 ^ (k + 1))
    (hl : first * 2 ^ l ≤ ratio) (hl' : ratio < first * 2 ^ (l + 1)) : k = l := by
  have hle : ∀ m n : ℕ, first * 2 ^ m ≤ ratio → ratio < first * 2 ^ (n + 1) → m ≤ n := by
    intro m n hm hn
    have hlt : first * 2 ^ m < first * 2 ^ (n + 1) := lt_of_le_of_lt hm hn
    have hpow : (2 : ℚ) ^ m < 2 ^ (n + 1) := lt_of_mul_lt_mul_left hlt hfirst.le
    exact Nat.lt_succ_iff.1 ((pow_lt_pow_iff_right₀ one_lt_two).1 hpow)
  exact le_antisymm (hle k l hk hl') (hle l k hl hk')

section Overrun

theorem overrun_multiple_of_lt (h : elapsed / estimate < first) : overrun_multiple elapsed estimate first = 0 := by
  unfold overrun_multiple
  split
  · rfl
  · exact if_pos h

variable (hestimate : 0 < estimate) (hfirst : 0 < first)

include hestimate hfirst

/-- **The largest threshold that the ratio has reached.** -/
theorem overrun_multiple_spec (h : first ≤ elapsed / estimate) :
    ∃ k : ℕ, overrun_multiple elapsed estimate first = first * 2 ^ k ∧ first * 2 ^ k ≤ elapsed / estimate ∧
      elapsed / estimate < first * 2 ^ (k + 1) := by
  have helapsed : 0 < elapsed := (div_pos_iff_of_pos_right hestimate).1 (hfirst.trans_le h)
  have hguard : ¬ (estimate ≤ 0 ∨ first ≤ 0 ∨ elapsed ≤ 0) := by
    rintro (h | h | h) <;> linarith
  unfold overrun_multiple
  rw [dif_neg hguard, if_neg (not_lt.2 h)]
  exact crossedFrom_spec _ ⟨first, hfirst⟩ h

theorem overrun_multiple_nonneg : 0 ≤ overrun_multiple elapsed estimate first := by
  rcases lt_or_ge (elapsed / estimate) first with h | h
  · rw [overrun_multiple_of_lt h]
  · obtain ⟨k, heq, -⟩ := overrun_multiple_spec hestimate hfirst h
    rw [heq]
    positivity

/-- What a sample is past: the threshold `first * 2 ^ k` or more. -/
theorem le_overrun_multiple_iff (k : ℕ) :
    first * 2 ^ k ≤ overrun_multiple elapsed estimate first ↔ first * 2 ^ k ≤ elapsed / estimate := by
  have hpos : 0 < first * 2 ^ k := by positivity
  rcases lt_or_ge (elapsed / estimate) first with h | h
  · rw [overrun_multiple_of_lt h]
    have hle : first ≤ first * 2 ^ k := le_mul_of_one_le_right hfirst.le (one_le_pow₀ one_le_two)
    constructor <;> intro <;> linarith
  · obtain ⟨l, heq, hle, hlt⟩ := overrun_multiple_spec hestimate hfirst h
    rw [heq]
    refine ⟨fun hk => hk.trans hle, fun hk => ?_⟩
    -- the threshold is below the next one after the result
    have hpow : (2 : ℚ) ^ k < 2 ^ (l + 1) := lt_of_mul_lt_mul_left (hk.trans_lt hlt) hfirst.le
    have hkl : k ≤ l := Nat.lt_succ_iff.1 ((pow_lt_pow_iff_right₀ one_lt_two).1 hpow)
    exact mul_le_mul_of_nonneg_left (pow_le_pow_right₀ one_le_two hkl) hfirst.le

theorem overrun_multiple_lt_iff :
    overrun_multiple elapsed estimate first < overrun_multiple elapsed' estimate first ↔
      ∃ k : ℕ, first * 2 ^ k ≤ elapsed' / estimate ∧ elapsed / estimate < first * 2 ^ k := by
  constructor
  · intro hlt
    have hpast : first ≤ elapsed' / estimate := by
      by_contra hno
      rw [overrun_multiple_of_lt (not_le.1 hno)] at hlt
      exact absurd hlt (not_lt.2 (overrun_multiple_nonneg hestimate hfirst))
    obtain ⟨k, heq, hle, -⟩ := overrun_multiple_spec hestimate hfirst hpast
    refine ⟨k, hle, ?_⟩
    rw [heq] at hlt
    exact not_le.1 fun hk => absurd ((le_overrun_multiple_iff hestimate hfirst k).2 hk) (not_le.2 hlt)
  · rintro ⟨k, hk, hk'⟩
    have hge := (le_overrun_multiple_iff hestimate hfirst k).2 hk
    have hlt : overrun_multiple elapsed estimate first < first * 2 ^ k :=
      not_le.1 fun h => absurd ((le_overrun_multiple_iff hestimate hfirst k).1 h) (not_le.2 hk')
    exact hlt.trans_le hge

theorem overrun_multiple_mono : Monotone fun elapsed => overrun_multiple elapsed estimate first := by
  intro e e' hee
  by_contra hlt
  obtain ⟨k, hk, hk'⟩ := (overrun_multiple_lt_iff hestimate hfirst).1 (not_le.1 hlt)
  have hdiv : e / estimate ≤ e' / estimate := div_le_div_of_nonneg_right hee hestimate.le
  linarith

end Overrun

/-! ## The announcer -/

/-- A round that announces is one that does not kill. -/
theorem watch_cons (manifest : Manifest) (announced peak : ℚ) (sample : Sample) (samples : List Sample) :
    (watch manifest announced peak (sample :: samples)).announcements = [] ∨
    (watch manifest announced peak (sample :: samples)).announcements =
      (if announced < manifest.crossed sample then some (manifest.crossed sample) else none) ::
        (watch manifest (max announced (manifest.crossed sample)) (max peak sample.rss_mb) samples).announcements := by
  by_cases hkill : killReason manifest (max peak sample.rss_mb) sample = []
  · right
    rw [watch.eq_2]
    dsimp only
    rw [if_neg (not_not.2 hkill)]
    by_cases hlt : announced < manifest.crossed sample
    · rw [if_pos hlt, if_pos hlt, max_eq_right hlt.le]
    · rw [if_neg hlt, if_neg hlt, max_eq_left (not_lt.1 hlt)]
  · left
    rw [watch.eq_2]
    dsimp only
    rw [if_pos hkill]

/-- No more rounds look at the clock than there are samples. -/
theorem length_announcements_le (manifest : Manifest) (samples : List Sample) :
    ∀ announced peak, (watch manifest announced peak samples).announcements.length ≤ samples.length := by
  induction samples with
  | nil => intro announced peak; exact le_rfl
  | cons sample samples ih =>
    intro announced peak
    rcases watch_cons manifest announced peak sample samples with h | h
    · rw [h]
      exact Nat.zero_le _
    · rw [h, List.length_cons, List.length_cons]
      exact Nat.succ_le_succ (ih _ _)

/-- **What a round announces**: its threshold, when that is past what was announced and past the
threshold of every round before. -/
theorem announcements_spec (manifest : Manifest) (samples : List Sample) :
    ∀ (announced peak : ℚ) (i : ℕ) (h : i < (watch manifest announced peak samples).announcements.length)
      (hi : i < samples.length),
      (watch manifest announced peak samples).announcements[i] =
        if announced < manifest.crossed samples[i] ∧
            ∀ s ∈ samples.take i, manifest.crossed s < manifest.crossed samples[i]
        then some (manifest.crossed samples[i]) else none := by
  induction samples with
  | nil => intro announced peak i h hi; exact absurd hi (Nat.not_lt_zero i)
  | cons sample samples ih =>
    intro announced peak i h hi
    rcases watch_cons manifest announced peak sample samples with hcons | hcons
    · rw [hcons] at h
      exact absurd h (Nat.not_lt_zero i)
    have h' := h
    rw [hcons] at h'
    rw [List.getElem_of_eq hcons h]
    cases i with
    | zero => simp
    | succ i =>
      rw [List.getElem_cons_succ, ih _ _ i (Nat.lt_of_succ_lt_succ h') (Nat.lt_of_succ_lt_succ hi)]
      simp only [List.getElem_cons_succ, List.take_succ_cons, List.forall_mem_cons, max_lt_iff, and_assoc]

/-- Each announcement is for a larger threshold than all before. -/
theorem announcements_rise (manifest : Manifest) (samples : List Sample) :
    ∀ announced peak, (∀ v ∈ (watch manifest announced peak samples).announcements.filterMap id, announced < v) ∧
      ((watch manifest announced peak samples).announcements.filterMap id).Pairwise (· < ·) := by
  induction samples with
  | nil => intro announced peak; exact ⟨fun v hv => absurd hv List.not_mem_nil, .nil⟩
  | cons sample samples ih =>
    intro announced peak
    rcases watch_cons manifest announced peak sample samples with h | h
    · rw [h]
      exact ⟨fun v hv => absurd hv List.not_mem_nil, .nil⟩
    obtain ⟨habove, hrise⟩ := ih (max announced (manifest.crossed sample)) (max peak sample.rss_mb)
    rw [h]
    by_cases hlt : announced < manifest.crossed sample
    · rw [if_pos hlt, List.filterMap_cons_some (f := id) (b := manifest.crossed sample) rfl]
      refine ⟨fun v hv => ?_, .cons (fun v hv => (le_max_right _ _).trans_lt (habove v hv)) hrise⟩
      rcases List.mem_cons.1 hv with rfl | hv
      · exact hlt
      · exact (le_max_left _ _).trans_lt (habove v hv)
    · rw [if_neg hlt, List.filterMap_cons_none (f := id) rfl]
      exact ⟨fun v hv => (le_max_left _ _).trans_lt (habove v hv), hrise⟩

/-- A sample that is past the threshold `first * 2 ^ k`. -/
def Manifest.Past (manifest : Manifest) (sample : Sample) (k : ℕ) : Prop :=
  manifest.first * 2 ^ k ≤ (sample.now - manifest.started_at) / manifest.estimate_s

/-- A threshold that sample `i` is past and no earlier one. -/
def Manifest.New (manifest : Manifest) (samples : List Sample) (i : ℕ) (h : i < samples.length) (k : ℕ) : Prop :=
  manifest.Past samples[i] k ∧ ∀ s ∈ samples.take i, ¬ manifest.Past s k

section Thresholds

variable {manifest : Manifest} (hestimate : 0 < manifest.estimate_s) (hfirst : 0 < manifest.first)

include hestimate hfirst

/-- Finitely many samples below one level are below one threshold of it. -/
theorem new_iff {samples : List Sample} {i : ℕ} (hi : i < samples.length) :
    (0 < manifest.crossed samples[i] ∧ ∀ s ∈ samples.take i, manifest.crossed s < manifest.crossed samples[i]) ↔
      ∃ k, manifest.New samples i hi k := by
  constructor
  · rintro ⟨hpos, hall⟩
    have hpast : manifest.first ≤ (samples[i].now - manifest.started_at) / manifest.estimate_s := by
      by_contra hno
      have hzero := overrun_multiple_of_lt (not_le.1 hno)
      exact absurd hpos (not_lt.2 hzero.le)
    obtain ⟨k, heq, hle, -⟩ := overrun_multiple_spec hestimate hfirst hpast
    refine ⟨k, hle, fun s hs hk => ?_⟩
    have hge := (le_overrun_multiple_iff hestimate hfirst k).2 hk
    have hlt := hall s hs
    unfold Manifest.crossed at hlt
    rw [heq] at hlt
    exact absurd hge (not_le.2 hlt)
  · rintro ⟨k, hk, hno⟩
    have hge := (le_overrun_multiple_iff hestimate hfirst k).2 hk
    have hpos : 0 < manifest.first * 2 ^ k := by positivity
    refine ⟨hpos.trans_le hge, fun s hs => ?_⟩
    exact (overrun_multiple_lt_iff hestimate hfirst).2 ⟨k, hk, not_le.1 (hno s hs)⟩

end Thresholds

end Stablemate.Job
