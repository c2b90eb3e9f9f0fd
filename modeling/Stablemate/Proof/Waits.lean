import Mathlib.Tactic.Linarith
import Stablemate.Model.Waits

/-!
# How long a recovery wait lasts

* `Slept`: what a wait without a predicate does to the clock and to the schedule, whatever
  arrives; `wait_until_slept` shows it of the loop, slice by slice.
* `recovery_wait_elapsed`: a wait lasts its full time when nothing disturbs its slices. A query
  in the middle of a slice shortens it, and a message that is refused lengthens it.
-/

namespace Stablemate.Waits

open Control (Request Message)

/-- Every message is a request, in the order of arrival. -/
structure Ordered (schedule : Schedule) : Prop where
  readable : ∀ p ∈ schedule, ∃ r, p.2 = .request r
  sorted : schedule.Pairwise fun p q => p.1 ≤ q.1

section Delivered

variable {schedule rest : Schedule} {now : ℚ} {request : Request}

theorem Ordered.of_suffix (h : Ordered schedule) (hs : rest <:+ schedule) : Ordered rest where
  readable p hp := h.readable p (hs.subset hp)
  sorted := h.sorted.sublist hs.sublist

/-- Nothing to decide about: the queries that have arrived are answered, and the rest is later. -/
theorem delivered_none (ho : Ordered schedule) (h : delivered now schedule = (none, rest)) :
    ∃ pre, schedule = pre ++ rest ∧ (∀ p ∈ pre, p.1 ≤ now ∧ isQuery p.2 = true) ∧
      ∀ p ∈ rest, now < p.1 := by
  induction schedule with
  | nil =>
    obtain rfl : [] = rest := by simpa [delivered] using h
    exact ⟨[], rfl, by simp, by simp⟩
  | cons p schedule ih =>
    obtain ⟨arrival, m⟩ := p
    obtain ⟨r, rfl⟩ : ∃ r, m = .request r := ho.readable _ List.mem_cons_self
    have hsorted := List.pairwise_cons.1 ho.sorted
    unfold delivered at h
    split_ifs at h with hlate
    · obtain rfl : (arrival, .request r) :: schedule = rest := (Prod.mk.inj h).2
      refine ⟨[], rfl, by simp, fun p hp => ?_⟩
      rcases List.mem_cons.1 hp with rfl | hp
      · exact hlate
      · exact hlate.trans_le (hsorted.1 p hp)
    · dsimp only at h
      split_ifs at h with hq
      · obtain ⟨pre, rfl, hpre, hrest⟩ := ih (ho.of_suffix (List.suffix_cons _ _)) h
        refine ⟨(arrival, .request r) :: pre, rfl, fun p hp => ?_, hrest⟩
        rcases List.mem_cons.1 hp with rfl | hp
        · exact ⟨not_lt.1 hlate, hq⟩
        · exact hpre p hp
      · cases (Prod.mk.inj h).1

/-- A request to decide about: the queries before it are answered. -/
theorem delivered_some (ho : Ordered schedule) (h : delivered now schedule = (some request, rest)) :
    ∃ pre arrival, schedule = pre ++ (arrival, .request request) :: rest ∧
      (∀ p ∈ pre, isQuery p.2 = true) ∧ arrival ≤ now ∧ isQuery (.request request) = false := by
  induction schedule with
  | nil => simp [delivered] at h
  | cons p schedule ih =>
    obtain ⟨arrival, m⟩ := p
    obtain ⟨r, rfl⟩ : ∃ r, m = .request r := ho.readable _ List.mem_cons_self
    unfold delivered at h
    split_ifs at h with hlate
    · simp at h
    · dsimp only at h
      split_ifs at h with hq
      · obtain ⟨pre, arrival', rfl, hpre, hle, hnq⟩ := ih (ho.of_suffix (List.suffix_cons _ _)) h
        refine ⟨(arrival, .request r) :: pre, arrival', rfl, fun p hp => ?_, hle, hnq⟩
        rcases List.mem_cons.1 hp with rfl | hp
        · exact hq
        · exact hpre p hp
      · obtain ⟨rfl, rfl⟩ : r = request ∧ schedule = rest := by simpa using h
        exact ⟨[], arrival, rfl, by simp, not_lt.1 hlate, by simpa using hq⟩

end Delivered

/-! ## One wait -/

/-- What a wait of `remaining` from `now` does when its predicate never holds. -/
structure Slept (selectable : Bool) (tick remaining now : ℚ) (schedule : Schedule) (w : Waited) : Prop where
  from_now : now ≤ w.now
  in_time : w.now ≤ now + remaining
  /-- A request ends the wait when it arrives, or at once when it was there before. -/
  request : ∀ r, w.result = some r → ∃ pre arrival,
    schedule = pre ++ (arrival, .request r) :: w.schedule ∧ (∀ p ∈ pre, isQuery p.2 = true) ∧
      isQuery (.request r) = false ∧ arrival ≤ w.now ∧ (w.now = now ∨ now < arrival)
  /-- Without one, the wait has answered the queries that arrived before its end. -/
  answered : w.result = none → ∃ pre, schedule = pre ++ w.schedule ∧
    (∀ p ∈ pre, p.1 ≤ w.now ∧ isQuery p.2 = true) ∧ ∀ p ∈ w.schedule, w.now < p.1
  /-- It lasts its full time when those queries arrive at the ends of slices, and only then. -/
  full : w.result = none → (w.now = now + remaining ↔ (selectable = true →
    ∀ p ∈ schedule, now < p.1 → p.1 ≤ now + remaining → OnTick tick now remaining p.1))
  /-- Only a query shortens it. -/
  undisturbed : w.result = none → (∀ p ∈ schedule, isQuery p.2 = false) → w.now = now + remaining

section Loop

variable {selectable : Bool} {tick remaining now arrival : ℚ} {schedule : Schedule}

/-- The first slice ends at its tick. -/
theorem onTick_first (htick : 0 < tick) (hnow : now < arrival) (hle : arrival ≤ now + min tick remaining) :
    OnTick tick now remaining arrival ↔ arrival = now + min tick remaining := by
  constructor
  · rintro ⟨k, rfl⟩
    rcases Nat.eq_zero_or_pos k with rfl | hk
    · rcases le_total 0 remaining with hr | hr
      · simp [hr] at hnow
      · have : min ((0 : ℕ) * tick) remaining ≤ 0 := by simp
        linarith
    · have hk : (1 : ℚ) ≤ k := by exact_mod_cast hk
      have : min tick remaining ≤ min (k * tick) remaining :=
        min_le_min_right _ (by nlinarith)
      linarith
  · rintro rfl
    exact ⟨1, by simp⟩

/-- The ticks after the first slice are those of the countdown that is left. -/
theorem onTick_shift (htick : 0 < tick) (hlate : now + min tick remaining < arrival) :
    OnTick tick now remaining arrival ↔
      OnTick tick (now + min tick remaining) (remaining - min tick remaining) arrival := by
  rcases le_or_gt tick remaining with hle | hgt
  · rw [min_eq_left hle] at hlate ⊢
    have hmin : ∀ k : ℕ, min ((k + 1 : ℕ) * tick) remaining = tick + min (k * tick) (remaining - tick) := by
      intro k
      rw [← min_add_add_left, add_sub_cancel, Nat.cast_succ, add_mul, one_mul, add_comm]
    constructor
    · rintro ⟨k, rfl⟩
      rcases k with _ | k
      · have : min ((0 : ℕ) * tick) remaining ≤ 0 := by simp
        linarith
      · exact ⟨k, by rw [hmin, add_assoc]⟩
    · rintro ⟨k, rfl⟩
      exact ⟨k + 1, by rw [hmin, add_assoc]⟩
  · rw [min_eq_right hgt.le, sub_self] at *
    constructor
    · rintro ⟨k, rfl⟩
      have := min_le_right (k * tick) remaining
      linarith
    · rintro ⟨k, rfl⟩
      have := min_le_right (k * tick) (0 : ℚ)
      linarith

/-- The slice that `select` sleeps through. -/
theorem slice_through (h : selectable = true → ∀ p ∈ schedule, now + remaining < p.1) :
    slice selectable remaining now schedule = ⟨none, now + remaining, schedule⟩ := by
  rcases selectable with _ | _
  · rfl
  · rcases schedule with _ | ⟨⟨arrival, m⟩, rest⟩
    · rfl
    · have := h rfl _ List.mem_cons_self
      rw [slice, if_neg (not_le.2 this)]

/-- The slice that the next connection ends. -/
theorem slice_woken {m : Message} {rest : Schedule} (hnow : now < arrival) (hle : arrival ≤ now + remaining) :
    slice true remaining now ((arrival, m) :: rest) =
      ⟨(delivered arrival ((arrival, m) :: rest)).1, arrival,
        (delivered arrival ((arrival, m) :: rest)).2⟩ := by
  rw [slice, if_pos hle, max_eq_left hnow.le]

/-- Queries that are there at the start change nothing. -/
theorem Slept.after_queries {pre : Schedule} {w : Waited}
    (hpre : ∀ p ∈ pre, p.1 ≤ now ∧ isQuery p.2 = true)
    (h : Slept selectable tick remaining now schedule w) :
    Slept selectable tick remaining now (pre ++ schedule) w where
  from_now := h.from_now
  in_time := h.in_time
  request r hr := by
    obtain ⟨pre', arrival, rfl, hq, hnq, hle, hwhen⟩ := h.request r hr
    refine ⟨pre ++ pre', arrival, by simp, fun p hp => ?_, hnq, hle, hwhen⟩
    exact (List.mem_append.1 hp).elim (fun hp => (hpre p hp).2) (hq p)
  answered hnone := by
    obtain ⟨pre', hsplit, hq, hlate⟩ := h.answered hnone
    refine ⟨pre ++ pre', by rw [List.append_assoc, ← hsplit], fun p hp => ?_, hlate⟩
    rcases List.mem_append.1 hp with hp | hp
    · exact ⟨(hpre p hp).1.trans h.from_now, (hpre p hp).2⟩
    · exact hq p hp
  full hnone := by
    rw [h.full hnone]
    constructor
    · intro hall hsel p hp hlt hle
      rcases List.mem_append.1 hp with hp | hp
      · exact absurd hlt (not_lt.2 (hpre p hp).1)
      · exact hall hsel p hp hlt hle
    · exact fun hall hsel p hp => hall hsel p (List.mem_append_right _ hp)
  undisturbed hnone hall := h.undisturbed hnone fun p hp => hall p (List.mem_append_right _ hp)

/-- A slice that nothing ends. -/
theorem Slept.through {w : Waited} (htick : 0 < tick) (hrem : 0 < remaining)
    (hlate : ∀ p ∈ schedule, now < p.1)
    (hthrough : selectable = true → ∀ p ∈ schedule, now + min tick remaining < p.1)
    (h : Slept selectable tick (remaining - min tick remaining) (now + min tick remaining) schedule w) :
    Slept selectable tick remaining now schedule w := by
  have hpos : 0 < min tick remaining := lt_min htick hrem
  have hend : now + min tick remaining + (remaining - min tick remaining) = now + remaining := by ring
  refine ⟨by linarith [h.from_now], by linarith [h.in_time], fun r hr => ?_, h.answered, fun hnone => ?_,
    fun hnone hall => by linarith [h.undisturbed hnone hall]⟩
  · obtain ⟨pre, arrival, hsplit, hq, hnq, hle, -⟩ := h.request r hr
    exact ⟨pre, arrival, hsplit, hq, hnq, hle, .inr (hlate (arrival, .request r) (by rw [hsplit]; simp))⟩
  · rw [← hend, h.full hnone, hend]
    constructor
    · intro hall hsel p hp _ hle
      exact (onTick_shift htick (hthrough hsel p hp)).2 (hall hsel p hp (hthrough hsel p hp) hle)
    · intro hall hsel p hp hlt hle
      exact (onTick_shift htick hlt).1 (hall hsel p hp (hlate p hp) hle)

/-- A slice that queries end. -/
theorem Slept.woken {pre : Schedule} {w : Waited} (htick : 0 < tick) (hrem : 0 < remaining)
    (hnow : now < arrival) (hle : arrival ≤ now + min tick remaining)
    (hfirst : ∃ m, (arrival, m) ∈ pre) (hpre : ∀ p ∈ pre, p.1 = arrival ∧ isQuery p.2 = true)
    (hlate : ∀ p ∈ schedule, arrival < p.1)
    (h : Slept true tick (remaining - min tick remaining) arrival schedule w) :
    Slept true tick remaining now (pre ++ schedule) w := by
  have hpos : 0 < min tick remaining := lt_min htick hrem
  obtain ⟨m, hm⟩ := hfirst
  refine ⟨by linarith [h.from_now], by linarith [h.in_time], fun r hr => ?_, fun hnone => ?_, fun hnone => ?_,
    fun hnone hall => ?_⟩
  · obtain ⟨pre', arrival', hsplit, hq, hnq, hle', -⟩ := h.request r hr
    have hlate' : arrival < arrival' := hlate (arrival', .request r) (by rw [hsplit]; simp)
    refine ⟨pre ++ pre', arrival', by rw [hsplit, List.append_assoc], fun p hp => ?_, hnq, hle',
      .inr (hnow.trans hlate')⟩
    exact (List.mem_append.1 hp).elim (fun hp => (hpre p hp).2) (hq p)
  · obtain ⟨pre', hsplit, hq, hlate'⟩ := h.answered hnone
    refine ⟨pre ++ pre', by rw [List.append_assoc, ← hsplit], fun p hp => ?_, hlate'⟩
    rcases List.mem_append.1 hp with hp | hp
    · exact ⟨(hpre p hp).1.le.trans h.from_now, (hpre p hp).2⟩
    · exact hq p hp
  · rcases hle.lt_or_eq with hshort | rfl
    · -- the slice counts in full, and the clock has not got there
      refine ⟨fun heq => ?_, fun hall => ?_⟩
      · linarith [h.in_time]
      · have hmin := min_le_right tick remaining
        have htick' := hall rfl _ (List.mem_append_left _ hm) hnow (by linarith)
        rw [onTick_first htick hnow hle] at htick'
        exact absurd htick' hshort.ne
    · have hend : now + min tick remaining + (remaining - min tick remaining) = now + remaining := by ring
      rw [← hend, h.full hnone, hend]
      constructor
      · intro hall hsel p hp hlt hle'
        rcases List.mem_append.1 hp with hp | hp
        · rw [(hpre p hp).1]
          exact (onTick_first htick hnow le_rfl).2 rfl
        · exact (onTick_shift htick (hlate p hp)).2 (hall hsel p hp (hlate p hp) hle')
      · intro hall hsel p hp hlt hle'
        exact (onTick_shift htick hlt).1 (hall hsel p (List.mem_append_right _ hp) (hnow.trans hlt) hle')
  · have := hall _ (List.mem_append_left _ hm)
    rw [(hpre _ hm).2] at this
    cases this

/-- **What the loop of `wait_until` does**, by induction on its rounds. -/
theorem waitFrom_slept (htick : 0 < tick) : ∀ (fuel : ℕ) {remaining : ℚ} (now : ℚ) {schedule : Schedule} (n : ℕ),
    Ordered schedule → 0 ≤ remaining → remaining ≤ n * tick → n < fuel →
    ∃ w, waitFrom (fun _ => false) selectable tick fuel remaining now schedule = some w ∧
      Slept selectable tick remaining now schedule w := by
  intro fuel
  induction fuel with
  | zero => intro _ _ _ n _ _ _ hn; exact absurd hn (Nat.not_lt_zero _)
  | succ fuel ih =>
    intro remaining now schedule n ho hrem hn hfuel
    rcases hd : delivered now schedule with ⟨_ | request, rest⟩
    · obtain ⟨pre, rfl, hpre, hrest⟩ := delivered_none ho hd
      have ho' := ho.of_suffix (List.suffix_append pre rest)
      by_cases hzero : remaining ≤ 0
      · -- the countdown is over
        obtain rfl : remaining = 0 := le_antisymm hzero hrem
        refine ⟨⟨none, now, rest⟩, by simp [waitFrom, hd], Slept.after_queries hpre ?_⟩
        refine ⟨le_rfl, by simp, fun r hr => (nomatch hr), fun _ => ⟨[], rfl, by simp, hrest⟩, fun _ => ?_,
          fun _ _ => by simp⟩
        refine ⟨fun _ _ p _ hlt hle => ?_, fun _ => by simp⟩
        rw [add_zero] at hle
        exact absurd hlt (not_lt.2 hle)
      · have hpos : 0 < remaining := not_le.1 hzero
        have hleft : 0 ≤ remaining - min tick remaining := sub_nonneg.2 (min_le_right _ _)
        obtain ⟨n, rfl⟩ : ∃ n', n = n' + 1 := by
          rcases n with _ | n
          · simp at hn
            exact absurd hpos (not_lt.2 hn)
          · exact ⟨n, rfl⟩
        have hn' : remaining - min tick remaining ≤ n * tick := by
          rw [Nat.cast_succ, add_mul, one_mul] at hn
          rcases le_total tick remaining with hle | hle
          · rw [min_eq_left hle]
            linarith
          · rw [min_eq_right hle, sub_self]
            positivity
        by_cases hthrough : selectable = true → ∀ p ∈ rest, now + min tick remaining < p.1
        · obtain ⟨w, hw, hslept⟩ := ih (now + min tick remaining) n ho' hleft hn' (by omega)
          refine ⟨w, ?_, Slept.after_queries hpre (hslept.through htick hpos hrest hthrough)⟩
          simp only [waitFrom, hd, if_neg hzero, slice_through hthrough]
          exact hw
        · -- a connection is there before the slice is over
          push Not at hthrough
          obtain ⟨rfl, p, hp, hle⟩ := hthrough
          obtain ⟨⟨arrival, m⟩, rest', rfl⟩ := List.exists_cons_of_ne_nil (List.ne_nil_of_mem hp)
          have hsorted := List.pairwise_cons.1 ho'.sorted
          have hnow : now < arrival := hrest _ List.mem_cons_self
          have hle : arrival ≤ now + min tick remaining := by
            rcases List.mem_cons.1 hp with rfl | hp
            · exact hle
            · exact (hsorted.1 p hp).trans hle
          have hafter : ∀ q ∈ (arrival, m) :: rest', arrival ≤ q.1 := by
            intro q hq
            rcases List.mem_cons.1 hq with rfl | hq
            · exact le_rfl
            · exact hsorted.1 q hq
          rcases hd' : delivered arrival ((arrival, m) :: rest') with ⟨_ | request, rest''⟩
          · obtain ⟨pre', hsplit, hpre', hrest'⟩ := delivered_none ho' hd'
            have ho'' := ho'.of_suffix (hsplit ▸ List.suffix_append pre' rest'')
            obtain ⟨w, hw, hslept⟩ := ih arrival n ho'' hleft hn' (by omega)
            have hmem : (arrival, m) ∈ pre' := by
              have hmem : (arrival, m) ∈ pre' ++ rest'' := hsplit ▸ List.mem_cons_self
              rcases List.mem_append.1 hmem with hmem | hmem
              · exact hmem
              · exact absurd (hrest' _ hmem) (lt_irrefl _)
            have hat : ∀ q ∈ pre', q.1 = arrival ∧ isQuery q.2 = true := fun q hq =>
              ⟨le_antisymm (hpre' q hq).1 (hafter q (hsplit ▸ List.mem_append_left _ hq)), (hpre' q hq).2⟩
            refine ⟨w, ?_, Slept.after_queries hpre ?_⟩
            · simp only [waitFrom, hd, if_neg hzero, slice_woken hnow hle, hd']
              exact hw
            · rw [hsplit]
              exact hslept.woken htick hpos hnow hle ⟨m, hmem⟩ hat hrest'
          · obtain ⟨pre', arrival', hsplit, hq, hle', hnq⟩ := delivered_some ho' hd'
            refine ⟨⟨some request, arrival, rest''⟩, ?_, Slept.after_queries hpre ?_⟩
            · simp only [waitFrom, hd, if_neg hzero, slice_woken hnow hle, hd']
              rfl
            · have hmin := min_le_right tick remaining
              refine ⟨hnow.le, by dsimp only; linarith, fun r hr => ?_, fun h => (nomatch h),
                fun h => (nomatch h), fun h => (nomatch h)⟩
              obtain rfl : request = r := by simpa using hr
              exact ⟨pre', arrival', hsplit, hq, hnq, hle',
                .inr (hrest (arrival', .request request) (by rw [hsplit]; simp))⟩
    · obtain ⟨pre, arrival, hsplit, hq, hle, hnq⟩ := delivered_some ho hd
      refine ⟨⟨some request, now, rest⟩, by simp [waitFrom, hd], le_rfl, by dsimp only; linarith,
        fun r hr => ?_, fun h => (nomatch h), fun h => (nomatch h), fun h => (nomatch h)⟩
      obtain rfl : request = r := by simpa using hr
      exact ⟨pre, arrival, hsplit, hq, hnq, hle, .inl rfl⟩

end Loop

section Whole

variable {selectable : Bool} {tick timeout remaining now : ℚ} {schedule : Schedule}
  {honour : Request → Option Request}

theorem wait_until_slept (selectable : Bool) (now : ℚ) (htick : 0 < tick) (htimeout : 0 ≤ timeout) (ho : Ordered schedule) :
    ∃ w, wait_until (fun _ => false) selectable tick timeout now schedule = some w ∧
      Slept selectable tick timeout now schedule w := by
  have hceil : timeout ≤ ⌈timeout / tick⌉₊ * tick := (div_le_iff₀ htick).1 (Nat.le_ceil _)
  exact waitFrom_slept htick _ now _ ho htimeout hceil (Nat.lt_succ_self _)

/-! ## The whole recovery wait -/

/-- What a recovery wait of `remaining` from `now` does when no message is honoured. -/
structure Lasts (selectable : Bool) (tick remaining now : ℚ) (schedule : Schedule) (w : Waited) : Prop where
  returns : w.result = none
  quiet : Quiet selectable tick now remaining schedule → w.now = now + remaining
  /-- Queries can only shorten it. -/
  queries : (∀ p ∈ schedule, isQuery p.2 = true) → w.now ≤ now + remaining ∧
    (w.now = now + remaining → Quiet selectable tick now remaining schedule)
  /-- Messages that are refused can only lengthen it. -/
  refused : (∀ p ∈ schedule, isQuery p.2 = false) → now + remaining ≤ w.now ∧
    (w.now = now + remaining → Quiet selectable tick now remaining schedule)

theorem Unhonoured.ordered (h : Unhonoured honour schedule)
    (hs : schedule.Pairwise fun p q => p.1 ≤ q.1) : Ordered schedule :=
  ⟨fun p hp => (h p hp).imp fun _ hr => hr.1, hs⟩

/-- A message that was there at the start and is refused changes nothing. -/
theorem Lasts.at_once {pre rest : Schedule} {arrival : ℚ} {r : Request} {w : Waited}
    (hpre : ∀ p ∈ pre, p.1 ≤ now ∧ isQuery p.2 = true) (hnow : arrival ≤ now)
    (hnq : isQuery (.request r) = false) (h : Lasts selectable tick remaining now rest w) :
    Lasts selectable tick remaining now (pre ++ (arrival, .request r) :: rest) w where
  returns := h.returns
  quiet hquiet := h.quiet fun p hp => hquiet p (by simp [hp])
  queries hall := by
    have := hall (arrival, .request r) (by simp)
    rw [hnq] at this
    cases this
  refused hall := by
    have hrest := h.refused fun p hp => hall p (by simp [hp])
    refine ⟨hrest.1, fun heq p hp hlt hle => ?_⟩
    rcases List.mem_append.1 hp with hp | hp
    · exact absurd hlt (not_lt.2 (hpre p hp).1)
    · rcases List.mem_cons.1 hp with rfl | hp
      · exact absurd hlt (not_lt.2 hnow)
      · exact hrest.2 heq p hp hlt hle

/-- A message that arrives in a chunk and is refused starts the chunk over. -/
theorem Lasts.restarted {pre rest : Schedule} {arrival now' : ℚ} {r : Request} {w : Waited}
    (hnow : now < arrival) (harrival : arrival ≤ now') (hle : now' ≤ now + remaining)
    (hnq : isQuery (.request r) = false) (h : Lasts selectable tick remaining now' rest w) :
    Lasts selectable tick remaining now (pre ++ (arrival, .request r) :: rest) w where
  returns := h.returns
  quiet hquiet := by
    have := (hquiet (arrival, .request r) (by simp) hnow (harrival.trans hle)).1
    rw [hnq] at this
    cases this
  queries hall := by
    have := hall (arrival, .request r) (by simp)
    rw [hnq] at this
    cases this
  refused hall := by
    have hrest := (h.refused fun p hp => hall p (by simp [hp])).1
    exact ⟨by linarith, fun heq => by linarith⟩

/-- A chunk that no request ends. -/
theorem Lasts.chunk {w w' : Waited} (htick : 0 < tick) (hpos : 0 < remaining)
    (hnone : w.result = none) (hslept : Slept selectable (min tick remaining) (min tick remaining) now schedule w)
    (h : Lasts selectable tick (remaining - min tick remaining) w.now w.schedule w') :
    Lasts selectable tick remaining now schedule w' := by
  have hmin := min_le_right tick remaining
  have hchunk : 0 < min tick remaining := lt_min htick hpos
  obtain ⟨pre, hsplit, hpre, hlate⟩ := hslept.answered hnone
  have hmem : ∀ {p}, p ∈ w.schedule → p ∈ schedule := fun hp => by rw [hsplit]; exact List.mem_append_right _ hp
  -- in the chunk, a tick of the wait and a tick of the chunk are both its end
  have hends : ∀ {arrival}, now < arrival → arrival ≤ now + min tick remaining →
      (OnTick tick now remaining arrival ↔ OnTick (min tick remaining) now (min tick remaining) arrival) := by
    intro arrival hlt hle
    rw [onTick_first htick hlt hle, onTick_first hchunk hlt (by rwa [min_self]), min_self]
  have hquiet : w.now = now + min tick remaining →
      Quiet selectable tick w.now (remaining - min tick remaining) w.schedule →
      Quiet selectable tick now remaining schedule := by
    intro hfull hrest p hp hlt hle
    rw [hsplit] at hp
    rcases List.mem_append.1 hp with hp' | hp'
    · have hle' : p.1 ≤ now + min tick remaining := hfull ▸ (hpre p hp').1
      refine ⟨(hpre p hp').2, fun hsel => (hends hlt hle').2 ?_⟩
      exact (hslept.full hnone).1 hfull hsel p (hsplit ▸ hp) hlt hle'
    · have hlate' : now + min tick remaining < p.1 := hfull ▸ hlate p hp'
      have hq := hrest p hp' (hlate p hp') (by rw [hfull]; linarith)
      refine ⟨hq.1, fun hsel => (onTick_shift htick hlate').2 ?_⟩
      rw [← hfull]
      exact hq.2 hsel
  refine ⟨h.returns, fun hq => ?_, fun hall => ?_, fun hall => ?_⟩
  · have hfull : w.now = now + min tick remaining :=
      (hslept.full hnone).2 fun hsel p hp hlt hle => (hends hlt hle).1 ((hq p hp hlt (by linarith)).2 hsel)
    have hrest := h.quiet fun p hp hlt hle => by
      have hlate' : now + min tick remaining < p.1 := hfull ▸ hlt
      have hp' := hq p (hmem hp) (by linarith) (by rw [hfull] at hle; linarith)
      refine ⟨hp'.1, fun hsel => ?_⟩
      rw [hfull]
      exact (onTick_shift htick hlate').1 (hp'.2 hsel)
    linarith
  · have hrest := h.queries fun p hp => hall p (hmem hp)
    have hle := hslept.in_time
    refine ⟨by linarith, fun heq => ?_⟩
    have hfull : w.now = now + min tick remaining := by linarith
    exact hquiet hfull (hrest.2 (by linarith))
  · have hrest := h.refused fun p hp => hall p (hmem hp)
    have hfull := hslept.undisturbed hnone hall
    refine ⟨by linarith, fun heq => ?_⟩
    exact hquiet hfull (hrest.2 (by linarith))

/-- **What the loop of `sleep_with_notice` does**, by induction on its rounds: a round takes a
chunk off the countdown or a message off the schedule. -/
theorem sleepFrom_lasts (htick : 0 < tick) : ∀ (fuel : ℕ) {remaining : ℚ} (now : ℚ) {schedule : Schedule} (n : ℕ),
    Ordered schedule → Unhonoured honour schedule → 0 ≤ remaining → remaining ≤ n * tick →
    n + schedule.length < fuel →
    ∃ w, sleepFrom honour selectable tick fuel remaining now schedule = some w ∧
      Lasts selectable tick remaining now schedule w := by
  intro fuel
  induction fuel with
  | zero => intro _ _ _ n _ _ _ _ hn; exact absurd hn (Nat.not_lt_zero _)
  | succ fuel ih =>
    intro remaining now schedule n ho hun hrem hn hfuel
    by_cases hzero : remaining ≤ 0
    · obtain rfl : remaining = 0 := le_antisymm hzero hrem
      have hquiet : Quiet selectable tick now 0 schedule := fun p _ hlt hle => by
        rw [add_zero] at hle
        exact absurd hlt (not_lt.2 hle)
      exact ⟨⟨none, now, schedule⟩, by simp [sleepFrom],
        rfl, fun _ => by simp, fun _ => ⟨by simp, fun _ => hquiet⟩, fun _ => ⟨by simp, fun _ => hquiet⟩⟩
    · have hpos : 0 < remaining := not_le.1 hzero
      have hchunk : 0 < min tick remaining := lt_min htick hpos
      have hmin := min_le_right tick remaining
      obtain ⟨w, hw, hslept⟩ := wait_until_slept selectable now hchunk hchunk.le ho
      rcases hr : w.result with _ | r
      · obtain ⟨pre, hsplit, -, -⟩ := hslept.answered hr
        have hsuffix : w.schedule <:+ schedule := ⟨pre, hsplit.symm⟩
        obtain ⟨n, rfl⟩ : ∃ n', n = n' + 1 := by
          rcases n with _ | n
          · rw [Nat.cast_zero, zero_mul] at hn
            exact absurd hpos (not_lt.2 hn)
          · exact ⟨n, rfl⟩
        have hn' : remaining - min tick remaining ≤ n * tick := by
          rw [Nat.cast_succ, add_mul, one_mul] at hn
          rcases le_total tick remaining with hle | hle
          · rw [min_eq_left hle]
            linarith
          · rw [min_eq_right hle, sub_self]
            positivity
        have hlen := hsuffix.length_le
        obtain ⟨w', hw', hlasts⟩ := ih w.now n (ho.of_suffix hsuffix)
          (fun p hp => hun p (hsuffix.subset hp)) (sub_nonneg.2 hmin) hn' (by omega)
        refine ⟨w', ?_, hlasts.chunk htick hpos hr hslept⟩
        simp only [sleepFrom, if_neg hzero, min_comm remaining tick, hw, hr]
        exact hw'
      · obtain ⟨pre, arrival, hsplit, hq, hnq, hle, hwhen⟩ := hslept.request r hr
        have hsuffix : w.schedule <:+ schedule :=
          ⟨pre ++ [(arrival, .request r)], by rw [hsplit]; simp⟩
        have hhonour : honour r = none := by
          obtain ⟨r', hr', hnone⟩ := hun (arrival, .request r) (by rw [hsplit]; simp)
          obtain rfl : r = r' := by simpa using hr'
          exact hnone
        have hlen : w.schedule.length < schedule.length := by
          rw [hsplit]
          simp
          omega
        obtain ⟨w', hw', hlasts⟩ := ih w.now n (ho.of_suffix hsuffix)
          (fun p hp => hun p (hsuffix.subset hp)) hrem hn (by omega)
        refine ⟨w', ?_, ?_⟩
        · simp only [sleepFrom, if_neg hzero, min_comm remaining tick, hw, hr, hhonour]
          exact hw'
        · rw [hsplit]
          rcases hwhen with hnow | hnow
          · have hsorted := ho.sorted
            rw [hsplit, List.pairwise_append] at hsorted
            rw [hnow] at hlasts hle
            refine hlasts.at_once (fun p hp => ⟨?_, hq p hp⟩) hle hnq
            exact (hsorted.2.2 p hp _ List.mem_cons_self).trans hle
          · exact hlasts.restarted hnow hle (by linarith [hslept.in_time]) hnq

/-- **How long a recovery wait lasts.**

No message of the schedule is honoured. Then `sleep_with_notice` returns `None`, after exactly
`total_s` when the schedule is `Quiet`. A schedule of queries alone never makes it longer, one of
refused requests alone never shorter, and each keeps the time only when it is `Quiet`. A
`wait_until` that returns `None` lasts its timeout exactly when the queries that arrive while it
runs arrive at the ends of slices, or its channel cannot be selected. -/
theorem recovery_wait_elapsed {start total : ℚ} (htick : 0 < tick) (htotal : 0 ≤ total)
    (htimeout : 0 ≤ timeout) (hun : Unhonoured honour schedule)
    (hsorted : schedule.Pairwise fun p q => p.1 ≤ q.1) :
    (∃ w, sleep_with_notice honour selectable tick total start schedule = some w ∧ w.result = none ∧
      (Quiet selectable tick start total schedule → w.now = start + total) ∧
      ((∀ p ∈ schedule, isQuery p.2 = true) →
        w.now ≤ start + total ∧ (w.now = start + total ↔ Quiet selectable tick start total schedule)) ∧
      ((∀ p ∈ schedule, isQuery p.2 = false) →
        start + total ≤ w.now ∧ (w.now = start + total ↔ Quiet selectable tick start total schedule))) ∧
    ∃ w, wait_until (fun _ => false) selectable tick timeout start schedule = some w ∧
      (w.result = none → (w.now = start + timeout ↔ (selectable = true →
        ∀ p ∈ schedule, start < p.1 → p.1 ≤ start + timeout → OnTick tick start timeout p.1))) := by
  have ho := hun.ordered hsorted
  have hceil : total ≤ ⌈total / tick⌉₊ * tick := (div_le_iff₀ htick).1 (Nat.le_ceil _)
  obtain ⟨w, hw, hlasts⟩ : ∃ w, sleep_with_notice honour selectable tick total start schedule = some w ∧
      Lasts selectable tick total start schedule w :=
    sleepFrom_lasts htick _ start _ ho hun htotal hceil (Nat.lt_succ_self _)
  obtain ⟨w', hw', hslept⟩ := wait_until_slept selectable start htick htimeout ho
  refine ⟨⟨w, hw, hlasts.returns, hlasts.quiet, fun hall => ?_, fun hall => ?_⟩, w', hw', hslept.full⟩
  · exact ⟨(hlasts.queries hall).1, (hlasts.queries hall).2, hlasts.quiet⟩
  · exact ⟨(hlasts.refused hall).1, (hlasts.refused hall).2, hlasts.quiet⟩

end Whole

/-- A request with this action and nothing else. -/
def asking (action : Text) : Request where
  action
  core := false
  atBoundary := true
  cli := []
  profile := []
  path := []
  body := []

/-- A wait of ten seconds in two chunks, with a query at the end of the first. -/
theorem recovery_wait_elapsed_on_tick :
    ∃ w, sleep_with_notice cut_by true 5 10 0 [(5, .request (asking Control.STATUS))] = some w ∧
      w.now = 10 := by
  have hun : Unhonoured cut_by [(5, .request (asking Control.STATUS))] := by
    intro p hp
    obtain rfl := List.mem_singleton.1 hp
    exact ⟨asking Control.STATUS, rfl, by decide⟩
  have hquiet : Quiet true 5 0 10 [(5, .request (asking Control.STATUS))] := by
    intro p hp _ _
    obtain rfl := List.mem_singleton.1 hp
    exact ⟨by decide, fun _ => ⟨1, by norm_num⟩⟩
  have htime : (0 : ℚ) < 5 ∧ (0 : ℚ) ≤ 10 := by norm_num
  obtain ⟨⟨w, hw, -, hfull, -⟩, -⟩ :=
    recovery_wait_elapsed htime.1 htime.2 htime.2 hun (List.pairwise_singleton _ _)
  exact ⟨w, hw, by rw [hfull hquiet]; norm_num⟩

/-- A query after one second ends a wait of ten; an answer after five makes it fifteen. -/
theorem query_shortens_refusal_lengthens :
    (sleep_with_notice cut_by true 10 10 0 [(1, .request (asking Control.STATUS))]).map Waited.now = some 1 ∧
      (sleep_with_notice cut_by true 10 10 0 [(5, .request (asking Control.ANSWER))]).map Waited.now = some 15 ∧
      (cut_by (asking Control.STATUS)).isNone = true ∧ (cut_by (asking Control.ANSWER)).isNone = true := by
  decide +kernel

end Stablemate.Waits
