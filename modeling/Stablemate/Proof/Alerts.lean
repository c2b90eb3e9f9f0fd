import Stablemate.Model.Alerts

/-!
# Operator waits are paged once, under a condition

* `Core`: what the fold keeps of a wait. `Move` has what one record can do to it, and
  `ingest_move` says that a record that meets the condition does nothing else.
* `inv_watch`: what the watched run keeps.
* `operator_waits_paged_once`: **along the records of one session that meet the condition, every
  operator wait is paged once and does not come back; and a record of an older session never
  changes a run.**
* `find_calls`: the calls do to a run what its records and the ticks do, in any batches.
-/

namespace Stablemate.Alerts

variable {cfg : Config} {id : Text} {now ts value : ℚ} {run run' : RunTelemetry} {p : Point} {s : Span}
  {attrs : Attrs} {session : Option (ℤ × ℤ)} {e : Event} {w w' : Watched} {rule : Rule} {message : Text}

/-! ## Series -/

theorem lookup_orderedInsert (k : Text) (kv : Text × Text) (l : Attrs) :
    (l.orderedInsert (fun a b => a.1 ≤ b.1) kv).lookup k = if k = kv.1 then some kv.2 else l.lookup k := by
  induction l with
  | nil =>
    rw [List.orderedInsert_nil, List.lookup_cons]
    by_cases hk : k = kv.1
    · simp [hk]
    · simp [hk, beq_eq_false_iff_ne.2 hk]
  | cons b l ih =>
    rw [List.orderedInsert_cons]
    split
    · rw [List.lookup_cons]
      by_cases hk : k = kv.1
      · simp [hk]
      · simp [hk, beq_eq_false_iff_ne.2 hk]
    · rename_i hle
      rw [List.lookup_cons, List.lookup_cons, ih]
      by_cases hb : k = b.1
      · have hne : k ≠ kv.1 := fun hk => hle ((hk.symm.trans hb) ▸ le_refl _)
        simp [hb, hb ▸ hne]
      · simp [beq_eq_false_iff_ne.2 hb]

/-- A series has the attributes that it is made of. -/
theorem get_waitSeries (key : String) (attrs : Attrs) : get key (waitSeries attrs) = get key attrs := by
  have hlookup : ∀ k : Text, (waitSeries attrs).lookup k = attrs.lookup k := by
    intro k
    rw [waitSeries]
    induction attrs with
    | nil => rfl
    | cons kv l ih =>
      rw [List.insertionSort_cons, lookup_orderedInsert, ih, List.lookup_cons]
      by_cases hk : k = kv.1
      · simp [hk]
      · simp [hk, beq_eq_false_iff_ne.2 hk]
  rw [get, get, hlookup]

/-! ## The core of a run -/

/-- What the fold keeps of the session, of the current wait, of the closed ones and of their
pages. -/
structure Core where
  session : Option (ℤ × ℤ)
  kind : Text
  series : Option Series
  closed : List Series
  blocked : Bool
  waiting : Bool

def RunTelemetry.core (run : RunTelemetry) : Core :=
  ⟨run.last_session, run.wait_kind, run.wait_series, run.closed_wait_series, .blocked ∈ run.fired, .waiting ∈ run.fired⟩

/-- How many `BLOCKED` pages there are. -/
def pagesOf (alerts : List Alert) : ℕ := (alerts.filter fun a => a.rule = .blocked).length

theorem core_discard (h1 : rule ≠ .blocked) (h2 : rule ≠ .waiting) : (run.discard rule).core = run.core := by
  simp [RunTelemetry.core, RunTelemetry.discard, h1.symm, h2.symm]

theorem core_fire (h1 : rule ≠ .blocked) (h2 : rule ≠ .waiting) :
    (fire rule message run).1.core = run.core ∧ pagesOf (fire rule message run).2 = 0 := by
  rw [fire]
  split
  · exact ⟨rfl, rfl⟩
  · simp [RunTelemetry.core, pagesOf, h1, h1.symm, h2.symm]

theorem core_identify (record : Resource) : (identify record now run).core = run.core :=
  (core_discard (by decide) (by decide) : (run.discard .stall).core = run.core)

theorem core_clearStaleTerminal (hclear : clears ts run = false) : clearStaleTerminal ts run = run := by
  rw [clearStaleTerminal, if_neg]
  intro h
  simp [clears, h.1, h.2.1, h.2.2] at hclear

/-- What is kept of a wait is consistent: a wait has a kind, which its series names; the pages
are those of an operator wait; and an operator wait has its page. -/
structure Core.Ok (c : Core) : Prop where
  kind : c.kind = c.series.elim [] (get "wait_kind")
  named : ∀ series, c.series = some series → get "wait_kind" series ≠ []
  parked : c.blocked = true ∨ c.waiting = true → c.kind = "operator".toList
  paged : c.kind = "operator".toList → c.blocked = true

/-- What a record can do: nothing, a page for a wait that lasts, to open a wait that was not
closed, with a page if it is an operator wait, and to close the current wait. -/
inductive Move (c : Core) : Core → ℕ → Prop
  | stay : Move c c 0
  | wait (h : c.kind = "operator".toList) : Move c { c with waiting := true } 0
  | enter (series : Series) (hnone : c.series = none) (hnew : series ∉ c.closed) (hnamed : get "wait_kind" series ≠ []) :
    Move c { c with
      series := some series, kind := get "wait_kind" series
      blocked := get "wait_kind" series = "operator".toList }
      (if get "wait_kind" series = "operator".toList then 1 else 0)
  | close (series : Series) (h : c.series = some series) :
    Move c ⟨c.session, [], none, series :: c.closed, false, false⟩ 0

theorem Move.session_eq {c c' : Core} {n : ℕ} (h : Move c c' n) : c'.session = c.session := by
  cases h <;> rfl

theorem Core.Ok.not_blocked (h : Core.Ok run.core) (hnone : run.wait_series = none) :
    run.core.blocked = false ∧ run.core.waiting = false := by
  have hkind : run.core.kind = [] := by rw [h.kind]; simp [RunTelemetry.core, hnone]
  have hne : ¬ (run.core.blocked = true ∨ run.core.waiting = true) := by
    intro hp
    have := h.parked hp
    rw [hkind] at this
    exact absurd this (by decide)
  simpa using hne

theorem Core.Ok.move {c c' : Core} {n : ℕ} (h : c.Ok) (hm : Move c c' n) : c'.Ok := by
  cases hm with
  | stay => exact h
  | wait hop => exact ⟨h.kind, h.named, fun _ => hop, h.paged⟩
  | enter series hnone hnew hnamed =>
    refine ⟨rfl, ?_, ?_, ?_⟩
    · rintro _ ⟨⟩
      exact hnamed
    · rintro (hb | hw)
      · exact of_decide_eq_true hb
      · have hop := h.parked (.inr hw)
        rw [h.kind, hnone] at hop
        exact absurd hop (by decide)
    · exact fun hop => decide_eq_true hop
  | close series hs =>
    refine ⟨rfl, nofun, by simp, fun hop => ?_⟩
    have hne : ([] : Text) ≠ "operator".toList := by decide
    exact absurd hop hne

/-! ## What the rules of the waits do -/

theorem closeWait_move (run : RunTelemetry) (h : Core.Ok run.core) : Move run.core (closeWait run).core 0 := by
  have hb : .blocked ∉ (closeWait run).fired := by simp [closeWait, RunTelemetry.discard]
  have hw : .waiting ∉ (closeWait run).fired := by simp [closeWait, RunTelemetry.discard]
  cases hs : run.wait_series with
  | none =>
    obtain ⟨hnb, hnw⟩ := h.not_blocked hs
    have hkind : run.wait_kind = [] := by
      have := h.kind
      simpa [RunTelemetry.core, hs] using this
    have hsame : (closeWait run).core = run.core := by
      simp only [RunTelemetry.core, decide_eq_false_iff_not] at hnb hnw
      simp [RunTelemetry.core, hnb, hnw, hs, hkind, closeWait, RunTelemetry.discard]
    rw [hsame]
    exact .stay
  | some series =>
    have hclosed : (closeWait run).core = ⟨run.core.session, [], none, series :: run.core.closed, false, false⟩ := by
      simp only [RunTelemetry.core, hb, hw, decide_false]
      simp [hs, closeWait, RunTelemetry.discard]
    rw [hclosed]
    exact .close series hs

theorem fire_blocked (h : .blocked ∉ run.fired) :
    (fire .blocked message run).1 = { run with fired := .blocked :: run.fired } ∧
      pagesOf (fire .blocked message run).2 = 1 := by
  rw [fire, if_neg h]
  exact ⟨rfl, rfl⟩

/-- A wait is entered that is the current one, or when there is none. -/
theorem enterWait_move {kind path question : Text} (h : Core.Ok run.core) (hkind : kind = get "wait_kind" attrs)
    (hnamed : kind ≠ []) (hcur : run.wait_series = some (waitSeries attrs) ∨
      run.wait_series = none ∧ waitSeries attrs ∉ run.closed_wait_series) :
    Move run.core (enterWait kind attrs path question run).1.core
      (pagesOf (enterWait kind attrs path question run).2) := by
  have hkind' : kind = get "wait_kind" (waitSeries attrs) := hkind.trans (get_waitSeries _ _).symm
  -- the run as it is entered, before the page
  set run₁ : RunTelemetry := ({ run with
    wait_series := some (waitSeries attrs), wait_kind := kind, wait_gate_path := path
    wait_gate_question := question } : RunTelemetry).discard .stuck with hrun₁
  have hcore₁ : run₁.core = { run.core with series := some (waitSeries attrs), kind } := by
    rw [hrun₁, core_discard (by decide) (by decide)]
    rfl
  have hblocked₁ : .blocked ∈ run₁.fired ↔ run.core.blocked = true := by
    have := congrArg Core.blocked hcore₁
    rw [← show run₁.core.blocked = run.core.blocked from this]
    exact decide_eq_true_iff.symm
  have henter : enterWait kind attrs path question run =
      if kind = "operator".toList then fireBlocked run₁ else (run₁, []) := rfl
  rcases hcur with hcur | ⟨hnone, hnew⟩
  · -- the wait is the current one, and has its page if it is an operator wait
    have hkind₀ : run.core.kind = kind := by
      rw [h.kind, show run.core.series = some (waitSeries attrs) from hcur]
      exact hkind'.symm
    have hcore : run₁.core = run.core := by
      rw [hcore₁]
      simp only [RunTelemetry.core] at hkind₀ ⊢
      rw [hcur, hkind₀]
    rw [henter]
    split
    · rename_i hop
      have hb : .blocked ∈ run₁.fired := hblocked₁.2 (h.paged (hkind₀.trans hop))
      rw [fireBlocked, fire, if_pos hb, hcore]
      exact .stay
    · rw [hcore]
      exact .stay
  · obtain ⟨hnb, -⟩ := h.not_blocked hnone
    have hopen : Move run.core { run.core with
        series := some (waitSeries attrs), kind := get "wait_kind" (waitSeries attrs)
        blocked := get "wait_kind" (waitSeries attrs) = "operator".toList } _ :=
      .enter (waitSeries attrs) hnone hnew (hkind' ▸ hnamed)
    rw [← hkind'] at hopen
    rw [henter]
    by_cases hop : kind = "operator".toList
    · have hb : .blocked ∉ run₁.fired := fun hb => by
        rw [hblocked₁.1 hb] at hnb
        cases hnb
      rw [if_pos hop, fireBlocked, (fire_blocked hb).1, (fire_blocked hb).2]
      rw [if_pos hop] at hopen
      have hcore : ({ run₁ with fired := .blocked :: run₁.fired } : RunTelemetry).core =
          { run.core with
            series := some (waitSeries attrs), kind := kind, blocked := kind = "operator".toList } := by
        have hwaiting := congrArg Core.waiting hcore₁
        simp only [RunTelemetry.core] at hcore₁ hwaiting ⊢
        simp only [Core.mk.injEq] at hcore₁
        simp [hcore₁, hop]
      rw [hcore]
      exact hopen
    · rw [if_neg hop]
      rw [if_neg hop] at hopen
      have hcore : run₁.core = { run.core with
          series := some (waitSeries attrs), kind := kind, blocked := kind = "operator".toList } := by
        rw [hcore₁]
        simp only [hnb, hop, decide_false]
      rw [hcore]
      exact hopen

theorem nodeActive_move {node : Text} (h : Core.Ok run.core) : Move run.core (nodeActive value node run).core 0 := by
  rw [nodeActive]
  split
  · dsimp only
    split
    · have hstuck : (run.discard .stuck).core = run.core := core_discard (by decide) (by decide)
      split
      · have hclose := closeWait_move (run.discard .stuck) (hstuck ▸ h)
        rw [hstuck] at hclose
        exact hclose
      · rw [show ({ run.discard .stuck with current_node := node } : RunTelemetry).core = (run.discard .stuck).core from
          rfl, hstuck]
        exact .stay
    · exact .stay
  · split
    · have hcore : (({ run with current_node := [], node_elapsed_s := 0 } : RunTelemetry).discard .stuck).core =
          run.core := core_discard (by decide) (by decide)
      rw [hcore]
      exact .stay
    · exact .stay

/-! ## What a record does -/

/-- The record is accepted, and leaves the waits as they are. -/
theorem acceptSession_core {r : Resource} (hr : r.session = session)
    (hrun : run.last_session = session ∨ ∃ now, run = .fresh id now) :
    ∃ run', acceptSession r run = some run' ∧ run'.core = { run.core with session } ∧
      ∀ ts, clears ts run' = clears ts run := by
  rw [acceptSession]
  cases hg : r.resume_generation with
  | none =>
    have hnone : session = none := by rw [← hr, Resource.session, hg]; rfl
    refine ⟨run, rfl, ?_, fun _ => rfl⟩
    rcases hrun with h | ⟨now, rfl⟩
    · rw [← h]
      rfl
    · rw [hnone]
      rfl
  | some g =>
    have hsome : session = some (r.pid.getD 0, g) := by rw [← hr, Resource.session, hg]; rfl
    rcases hrun with h | ⟨now, rfl⟩
    · refine ⟨run, ?_, ?_, fun _ => rfl⟩
      · rw [h, hsome]
        exact if_pos rfl
      · rw [← h]
        rfl
    · refine ⟨_, rfl, ?_, fun ts => by simp [clears, RunTelemetry.fresh]⟩
      rw [hsome]
      rfl

theorem stay_of {c : Core} (h : run.core = c) : Move c run.core (pagesOf []) := h ▸ .stay

/-- A point that says something of a wait is not of a closed one. -/
theorem not_closed_of_stale (hstale : stale p run = false) (hnamed : get "wait_kind" p.attrs ≠ [])
    (hname : p.name = .waitActive ∧ 1 ≤ p.value ∨ p.name = .waitElapsed) :
    waitSeries p.attrs ∉ run.closed_wait_series := by
  intro hclosed
  rw [stale, Bool.or_eq_false_iff] at hstale
  rcases hname with ⟨hname, hv⟩ | hname
  · simp [hname, hv, hnamed, hclosed] at hstale
  · simp [hname, hnamed, hclosed] at hstale

theorem applyMetric_move (h : Core.Ok run.core) (hstale : stale p run = false)
    (hturn : inTurn p run = true) :
    Move run.core (applyMetric cfg now p run).1.core (pagesOf (applyMetric cfg now p run).2) := by
  rw [inTurn, Bool.and_eq_true] at hturn
  obtain ⟨hnamed, hopen⟩ := hturn
  rw [applyMetric]
  cases hname : p.name with
  | waitActive =>
    have hnamed : get "wait_kind" p.attrs ≠ [] := by simpa [hname] using hnamed
    dsimp only
    rw [waitActive, orElse, if_neg hnamed]
    simp only [hname, ne_eq, not_true, decide_false, Bool.false_or] at hopen
    by_cases hv : 1 ≤ p.value
    · have hnew := not_closed_of_stale hstale hnamed (.inl ⟨hname, hv⟩)
      have hcur : run.wait_series = some (waitSeries p.attrs) ∨
          run.wait_series = none ∧ waitSeries p.attrs ∉ run.closed_wait_series := by
        simp only [hnew, hv, decide_false, Bool.false_or, decide_true, Bool.true_and, Bool.or_eq_true,
          decide_eq_true_eq] at hopen
        exact hopen.imp_right fun hnone => ⟨hnone, hnew⟩
      rw [if_pos hv]
      dsimp only
      split <;> exact enterWait_move h rfl hnamed hcur
    · rw [if_neg hv]
      exact closeWait_move run h
  | waitElapsed =>
    have hnamed : get "wait_kind" p.attrs ≠ [] := by simpa [hname] using hnamed
    dsimp only
    rw [waitElapsed]
    have hnew := not_closed_of_stale hstale hnamed (.inr hname)
    have hlast : ∀ x : RunTelemetry × List Alert, Move run.core x.1.core (pagesOf x.2) →
        Move run.core (if x.1.wait_kind = [] then x.1 else { x.1 with wait_elapsed_s := p.value }).core
          (pagesOf x.2) := by
      intro x hx
      split
      · exact hx
      · exact hx
    refine hlast _ ?_
    split
    · rename_i hkind
      have hnone : run.wait_series = none := by
        cases hs : run.wait_series with
        | none => rfl
        | some series =>
          have hk := h.kind
          rw [show run.core.kind = [] from hkind.1, show run.core.series = some series from hs] at hk
          exact absurd hk.symm (h.named series hs)
      split <;> exact enterWait_move h rfl hnamed (.inr ⟨hnone, hnew⟩)
    · exact .stay
  | nodeActive => exact nodeActive_move h
  | gasRefuels => exact stay_of (core_discard (by decide) (by decide))
  | turnActive =>
    dsimp only
    split
    · exact .stay
    · exact stay_of (core_discard (by decide) (by decide))
  | turnElapsed =>
    dsimp only
    split <;> exact .stay
  | turnIdle =>
    dsimp only
    split
    · exact .stay
    · split
      · exact stay_of (core_discard (by decide) (by decide))
      · exact .stay
  | nodeElapsed =>
    dsimp only
    split <;> exact .stay
  | runHeartbeat | turnHeartbeat | capWaitHeartbeat | gas | other => exact .stay

/-- Clearing a terminal touches no wait, if it comes when no operator wait is current. -/
theorem clearStaleTerminal_core (h : Core.Ok run.core)
    (hclears : (clears ts run && run.wait_kind = "operator".toList) = false) :
    (clearStaleTerminal ts run).core = run.core := by
  by_cases hc : clears ts run = true
  · have hkind : run.wait_kind ≠ "operator".toList := by
      rw [hc, Bool.true_and] at hclears
      exact of_decide_eq_false hclears
    have hflags : ¬ (run.core.blocked = true ∨ run.core.waiting = true) := fun hp => hkind (h.parked hp)
    rw [clearStaleTerminal]
    split
    · simp only [RunTelemetry.core, decide_eq_true_eq, not_or] at hflags ⊢
      simp [hflags]
    · rfl
  · rw [core_clearStaleTerminal (Bool.eq_false_iff.2 hc)]

theorem Core.Ok.inSession {c : Core} (h : c.Ok) (session : Option (ℤ × ℤ)) : Core.Ok { c with session } :=
  ⟨h.kind, h.named, h.parked, h.paged⟩

/-- What both folds do first with a record of the session leaves the waits as they are. -/
theorem begin_core {r : Resource} (now : ℚ) (h : Core.Ok run.core) (hr : r.session = session)
    (hrun : run.last_session = session ∨ ∃ now, run = .fresh id now)
    (hclears : (clears ts run && run.wait_kind = "operator".toList) = false) :
    ∃ run', acceptSession r run = some run' ∧
      (clearStaleTerminal ts (identify r now run')).core = { run.core with session } ∧
      (clearStaleTerminal ts { identify r now run' with last_span_ts := now }).core = { run.core with session } := by
  obtain ⟨run', haccept, hcore, hclears'⟩ := acceptSession_core hr hrun
  have hident : (identify r now run').core = { run.core with session } := (core_identify r).trans hcore
  have hcleared : ∀ x : RunTelemetry, x.core = { run.core with session } → clears ts x = clears ts run →
      (clearStaleTerminal ts x).core = { run.core with session } := by
    intro x hx hc
    have hlast : (clears ts x && x.wait_kind = "operator".toList) = false := by
      rw [hc, show x.wait_kind = run.wait_kind from congrArg Core.kind hx]
      exact hclears
    rw [clearStaleTerminal_core (hx.symm ▸ h.inSession session) hlast, hx]
  exact ⟨run', haccept, hcleared _ hident (hclears' ts), hcleared _ hident (hclears' ts)⟩

theorem ingestPoint_move (h : Core.Ok run.core) (hsession : p.session = session)
    (hrun : run.last_session = session ∨ ∃ now, run = .fresh id now) (hmeets : meetsRun run (.point now p) = true) :
    Move { run.core with session } (ingestPoint cfg now p run).1.core (pagesOf (ingestPoint cfg now p run).2) := by
  rw [meetsRun, Bool.and_eq_true, Bool.not_eq_true'] at hmeets
  obtain ⟨hturn, hclears⟩ := hmeets
  obtain ⟨run₁, haccept, hcore, -⟩ := begin_core now h hsession hrun hclears
  rw [ingestPoint, haccept]
  dsimp only
  set run₂ := clearStaleTerminal p.ts (identify p.toResource now run₁)
  have hturn₂ : inTurn p run₂ = true := by
    rw [inTurn, show run₂.wait_series = run.wait_series from congrArg Core.series hcore,
      show run₂.closed_wait_series = run.closed_wait_series from congrArg Core.closed hcore]
    exact hturn
  by_cases hstale : stale p run₂ = true
  · rw [if_pos hstale, hcore]
    exact .stay
  · rw [if_neg hstale]
    set run₃ := noteActivity p.attrs { run₂ with
      gauge_ts := if p.name.elapsedGauge then Function.update run₂.gauge_ts p.name (some now) else run₂.gauge_ts }
    have hcore₃ : run₃.core = { run.core with session } := hcore
    rw [← hcore₃]
    exact applyMetric_move (hcore₃.symm ▸ h.inSession session) (Bool.eq_false_iff.2 hstale) hturn₂

/-- A rule that is not one of the waits fires, or not, after what has been fired. -/
theorem fireIf_core {q : Prop} [Decidable q] {x : RunTelemetry × List Alert} (h1 : rule ≠ .blocked)
    (h2 : rule ≠ .waiting) : (fireIf q rule message x).1.core = x.1.core ∧
      pagesOf (fireIf q rule message x).2 = pagesOf x.2 := by
  rw [fireIf]
  split
  · obtain ⟨hcore, hpages⟩ : (fire rule message x.1).1.core = x.1.core ∧ pagesOf (fire rule message x.1).2 = 0 :=
      core_fire h1 h2
    refine ⟨hcore, ?_⟩
    dsimp only
    rw [pagesOf, List.filter_append, List.length_append]
    exact (congrArg _ hpages).trans (Nat.add_zero _)
  · exact ⟨rfl, rfl⟩

theorem visit_core {x : RunTelemetry × List Alert} {label : Text} :
    (visit cfg s label x).1.core = x.1.core ∧ pagesOf (visit cfg s label x).2 = pagesOf x.2 := by
  rw [visit]
  split
  · have hobserve : (observe s.node s.attrs x.1).1.core = x.1.core := by
      rw [observe]
      dsimp only
      split <;> rfl
    refine ⟨(fireIf_core (by decide) (by decide)).1.trans ?_, (fireIf_core (by decide) (by decide)).2⟩
    dsimp only
    split
    · exact (core_discard (by decide) (by decide)).trans hobserve
    · exact hobserve
  · exact ⟨rfl, rfl⟩

theorem ingestSpan_move (h : Core.Ok run.core) (hsession : s.session = session)
    (hrun : run.last_session = session ∨ ∃ now, run = .fresh id now) (hmeets : meetsRun run (.span now s) = true) :
    Move { run.core with session } (ingestSpan cfg now s run).1.core (pagesOf (ingestSpan cfg now s run).2) := by
  rw [meetsRun, Bool.not_eq_true'] at hmeets
  obtain ⟨run₁, haccept, -, hcore⟩ := begin_core now h hsession hrun hmeets
  have hstay : (ingestSpan cfg now s run).1.core = { run.core with session } ∧
      pagesOf (ingestSpan cfg now s run).2 = 0 := by
    rw [ingestSpan, haccept]
    dsimp only
    set run₂ := clearStaleTerminal s.end_ts { identify s.toResource now run₁ with last_span_ts := now }
    set run₃ : RunTelemetry := if s.name = "agent_turn".toList then
      { noteActivity s.attrs run₂ with
        backend := orElse (get "backend" s.attrs) (noteActivity s.attrs run₂).backend
        model := orElse (get "model" s.attrs) (noteActivity s.attrs run₂).model }
      else noteActivity s.attrs run₂ with hrun₃
    have hcore₃ : run₃.core = { run.core with session } := by
      rw [hrun₃]
      split <;> exact hcore
    split
    · have hended : Rule.ended ≠ .blocked ∧ Rule.ended ≠ .waiting := by decide
      exact ⟨(core_fire hended.1 hended.2).1.trans hcore₃, (core_fire hended.1 hended.2).2⟩
    · constructor
      · refine visit_core.1.trans ((fireIf_core ?_ ?_).1.trans ((fireIf_core ?_ ?_).1.trans hcore₃)) <;> decide
      · refine visit_core.2.trans ((fireIf_core ?_ ?_).2.trans (fireIf_core ?_ ?_).2) <;> decide
  rw [hstay.1, hstay.2]
  exact .stay

theorem checkRun_move (run : RunTelemetry) :
    Move run.core (checkRun cfg now run).1.core (pagesOf (checkRun cfg now run).2) := by
  have hother : ∀ {rule message}, rule ≠ .blocked → rule ≠ .waiting →
      Move run.core (fire rule message run).1.core (pagesOf (fire rule message run).2) := by
    intro rule message h1 h2
    rw [(core_fire h1 h2).1, (core_fire h1 h2).2]
    exact .stay
  rw [checkRun]
  split
  · exact .stay
  · split
    · exact hother (by decide) (by decide)
    · split
      · split
        · rename_i hop
          rw [fire]
          split
          · exact .stay
          · have hcore : ({ run with fired := .waiting :: run.fired } : RunTelemetry).core =
                { run.core with waiting := true } := by
              simp [RunTelemetry.core]
            rw [hcore]
            exact .wait hop.1
        · exact .stay
      · split
        · exact hother (by decide) (by decide)
        · split
          · exact hother (by decide) (by decide)
          · exact .stay

/-- **What an event that meets the condition does to the waits.** -/
theorem ingest_move (cfg : Config) (h : Core.Ok run.core) (hsession : OfSession session e)
    (hrun : run.last_session = session ∨ e.resource?.isSome ∧ ∃ now, run = .fresh id now)
    (hmeets : meetsRun run e = true) :
    Move { run.core with session } (ingest cfg e run).1.core (pagesOf (ingest cfg e run).2) := by
  cases e with
  | point now p => exact ingestPoint_move h (hsession _ rfl) (hrun.imp_right And.right) hmeets
  | span now s => exact ingestSpan_move h (hsession _ rfl) (hrun.imp_right And.right) hmeets
  | tick now =>
    have hlast : run.last_session = session := hrun.resolve_right nofun
    rw [← hlast]
    exact checkRun_move run

/-! ## The watched run -/

/-- What the watched run has shown fits the core: its waits are the current one and the closed
ones, the operator waits have one page each, and there are no other pages. -/
structure Waits (past operators : List Series) (pages : List (Option Series)) (c : Core) : Prop where
  seen : ∀ series, series ∈ past ↔ c.series = some series ∨ series ∈ c.closed
  named : ∀ series ∈ c.closed, get "wait_kind" series ≠ []
  listed : ∀ series ∈ operators, series ∈ past
  current : ∀ series, c.series = some series → c.kind = "operator".toList → series ∈ operators
  paged : ∀ series ∈ operators, pages.count (some series) = 1
  waits : ∀ page ∈ pages, ∃ series ∈ operators, page = some series

theorem Waits.move {past operators : List Series} {pages : List (Option Series)} {c c' : Core} {n : ℕ}
    {closes : Option Series} (h : Waits past operators pages c) (hok : c.Ok) (hm : Move c c' n)
    (hcloses : ∀ series, closes = some series → series ∈ past) :
    Waits (closes.toList ++ c'.series.toList ++ past)
      ((if c'.kind = "operator".toList then c'.series.toList else []) ++ operators)
      (List.replicate n c'.series ++ pages) c' := by
  have hclosed : ∀ series, series ∈ closes.toList → series ∈ past :=
    fun series hs => hcloses series (Option.mem_toList.1 hs)
  -- where nothing is opened, what has been shown stays as it is
  have hsame : ∀ c' : Core, c'.series = c.series → c'.kind = c.kind → c'.closed = c.closed →
      Waits (closes.toList ++ c'.series.toList ++ past)
        ((if c'.kind = "operator".toList then c'.series.toList else []) ++ operators)
        (List.replicate 0 c'.series ++ pages) c' := by
    intro c' hs hk hc
    have hcur : ∀ series, series ∈ c.series.toList → series ∈ past :=
      fun series hs => (h.seen series).2 (.inl (Option.mem_toList.1 hs))
    rw [hs, hk, List.replicate_zero, List.nil_append]
    have hops : ∀ series, series ∈ (if c.kind = "operator".toList then c.series.toList else []) ++ operators →
        series ∈ operators := by
      intro series hmem
      rcases List.mem_append.1 hmem with hmem | hmem
      · split at hmem
        · rename_i hop
          exact h.current series (Option.mem_toList.1 hmem) hop
        · cases hmem
      · exact hmem
    refine ⟨fun series => ?_, hc ▸ h.named, ?_, ?_, ?_, ?_⟩
    · rw [hs, hc, ← h.seen series]
      refine ⟨fun hmem => ?_, fun hmem => List.mem_append_right _ hmem⟩
      rcases List.mem_append.1 hmem with hmem | hmem
      · exact (List.mem_append.1 hmem).elim (hclosed series) (hcur series)
      · exact hmem
    · exact fun series hmem => List.mem_append_right _ (h.listed series (hops series hmem))
    · intro series hcs hop
      rw [hs] at hcs
      rw [hk] at hop
      exact List.mem_append_right _ (h.current series hcs hop)
    · exact fun series hmem => h.paged series (hops series hmem)
    · intro page hpage
      obtain ⟨series, hs, hp⟩ := h.waits page hpage
      exact ⟨series, List.mem_append_right _ hs, hp⟩
  cases hm with
  | stay => exact hsame c rfl rfl rfl
  | wait hop => exact hsame _ rfl rfl rfl
  | enter series hnone hnew hnamed =>
    have hpast : ∀ x, x ∈ past ↔ x ∈ c.closed := by
      intro x
      rw [h.seen x, hnone]
      simp
    have hfresh : series ∉ operators := fun hs => hnew ((hpast series).1 (h.listed series hs))
    have hnopage : pages.count (some series) = 0 := by
      refine List.count_eq_zero.2 fun hp => ?_
      obtain ⟨x, hx, hpx⟩ := h.waits _ hp
      exact hfresh (Option.some.inj hpx ▸ hx)
    refine ⟨fun x => ?_, h.named, ?_, ?_, ?_, ?_⟩
    · constructor
      · intro hx
        rcases List.mem_append.1 hx with hx | hx
        · rcases List.mem_append.1 hx with hx | hx
          · exact .inr ((hpast x).1 (hclosed x hx))
          · exact .inl (Option.mem_toList.1 hx)
        · exact .inr ((hpast x).1 hx)
      · rintro (hx | hx)
        · exact List.mem_append_left _ (List.mem_append_right _ (Option.mem_toList.2 hx))
        · exact List.mem_append_right _ ((hpast x).2 hx)
    · intro x hx
      rcases List.mem_append.1 hx with hx | hx
      · split at hx
        · exact List.mem_append_left _ (List.mem_append_right _ hx)
        · cases hx
      · exact List.mem_append_right _ (h.listed x hx)
    · intro x hx hop
      dsimp only at hop
      rw [if_pos hop]
      exact List.mem_append_left _ (Option.mem_toList.2 hx)
    · intro x hx
      rcases List.mem_append.1 hx with hx | hx
      · split at hx
        · rename_i hop
          dsimp only at hop hx
          obtain rfl : series = x := Option.some.inj (Option.mem_toList.1 hx)
          rw [if_pos hop, List.count_append, hnopage]
          simp
        · cases hx
      · have hne : x ≠ series := fun he => hfresh (he ▸ hx)
        rw [List.count_append, h.paged x hx]
        have hzero : List.count (some x)
            (List.replicate (if get "wait_kind" series = "operator".toList then 1 else 0) (some series)) = 0 := by
          rw [List.count_replicate, if_neg]
          simpa using hne.symm
        dsimp only
        rw [hzero]
    · intro page hpage
      rcases List.mem_append.1 hpage with hpage | hpage
      · obtain ⟨hn, hpage⟩ := List.mem_replicate.1 hpage
        split at hn
        · rename_i hop
          refine ⟨series, List.mem_append_left _ ?_, hpage⟩
          dsimp only
          rw [if_pos hop]
          exact List.mem_singleton_self _
        · exact absurd rfl hn
      · obtain ⟨x, hx, hp⟩ := h.waits page hpage
        exact ⟨x, List.mem_append_right _ hx, hp⟩
  | close series hs =>
    have hcur : ∀ x, x ∈ past ↔ x ∈ series :: c.closed := by
      intro x
      rw [h.seen x, hs, List.mem_cons, Option.some_inj, eq_comm]
    have hempty : ¬ (([] : Text) = "operator".toList) := by decide
    dsimp only
    rw [if_neg hempty, List.replicate_zero, List.nil_append, List.nil_append]
    refine ⟨fun x => ?_, ?_, ?_, nofun, h.paged, h.waits⟩
    · rw [Option.toList_none, List.append_nil, List.mem_append, hcur x]
      constructor
      · rintro (hx | hx)
        · exact .inr ((hcur x).1 (hclosed x hx))
        · exact .inr hx
      · rintro (hx | hx)
        · cases hx
        · exact .inr hx
    · intro x hx
      rcases List.mem_cons.1 hx with rfl | hx
      · exact hok.named _ hs
      · exact h.named x hx
    · exact fun x hx => List.mem_append_right _ (h.listed x hx)

/-- What is kept along the records of a session. -/
def Inv (session : Option (ℤ × ℤ)) (w : Watched) : Prop :=
  w = unseen ∨ ∃ run, w.run = some run ∧ run.last_session = session ∧ Core.Ok run.core ∧
    Waits w.past w.operators w.pages run.core

theorem fresh_ok (id : Text) (now : ℚ) : Core.Ok (RunTelemetry.fresh id now).core :=
  ⟨rfl, nofun, by simp [RunTelemetry.core, RunTelemetry.fresh], fun h => by
    have hne : ([] : Text) ≠ "operator".toList := by decide
    exact absurd h hne⟩

theorem waits_fresh (id : Text) (now : ℚ) : Waits [] [] [] (RunTelemetry.fresh id now).core :=
  ⟨by simp [RunTelemetry.core, RunTelemetry.fresh], nofun, nofun, nofun, nofun, nofun⟩

/-- A point that closes a series in turn closes one that the run has had. -/
theorem closes_past {past operators : List Series} {pages : List (Option Series)} {series : Series}
    (h : Waits past operators pages run.core) (hmeets : meetsRun run e = true) (hcloses : e.closes? = some series) :
    series ∈ past := by
  cases e with
  | point now p =>
    simp only [Event.closes?] at hcloses
    split at hcloses
    · rename_i hp
      cases hcloses
      rw [meetsRun, inTurn, Bool.and_eq_true, Bool.and_eq_true] at hmeets
      have hv : ¬ 1 ≤ p.value := not_le.2 hp.2
      have hturn := hmeets.1.2
      simp only [hp.1, hv, ne_eq, not_true, decide_false, Bool.false_or, Bool.false_and, Bool.or_false,
        Bool.or_eq_true, decide_eq_true_eq] at hturn
      exact (h.seen _).2 hturn.symm
    · cases hcloses
  | span now s => cases hcloses
  | tick now => cases hcloses

/-- **An event of the session that meets the condition keeps what is kept.** -/
theorem inv_watch (h : Inv session w) (hsession : OfSession session e) (hmeets : Meets id w e) :
    Inv session (watch cfg id w e) := by
  have hstep : ∀ run, w.run.getD (.fresh id e.now) = run → meetsRun run e = true →
      (run.last_session = session ∨ e.resource?.isSome ∧ ∃ now, run = .fresh id now) → Core.Ok run.core →
      Waits w.past w.operators w.pages run.core → ¬ (w.run.isNone ∧ e.resource?.isNone) →
      Inv session (watch cfg id w e) := by
    intro run hrun hm hlast hok hwaits hgo
    have hmove := ingest_move cfg hok hsession hlast hm
    have hok' := (hok.inSession session).move hmove
    have hwaits' : Waits w.past w.operators w.pages { run.core with session } :=
      ⟨hwaits.seen, hwaits.named, hwaits.listed, hwaits.current, hwaits.paged, hwaits.waits⟩
    have hnext := hwaits'.move (hok.inSession session) hmove fun series hs => closes_past hwaits hm hs
    refine .inr ⟨(ingest cfg e run).1, ?_, ?_, hok', ?_⟩
    · rw [watch, if_neg hgo, hrun]
    · exact hmove.session_eq
    · rw [watch, if_neg hgo, hrun]
      dsimp only
      rw [List.map_const']
      exact hnext
  rcases h with rfl | ⟨run, hrun, hlast, hok, hwaits⟩
  · by_cases htick : e.resource?.isNone
    · rw [watch, if_pos ⟨rfl, htick⟩]
      exact .inl rfl
    · refine hstep (.fresh id e.now) rfl hmeets (.inr ⟨?_, e.now, rfl⟩) (fresh_ok id e.now) (waits_fresh id e.now) ?_
      · cases hr : e.resource? with
        | none => exact absurd (by rw [hr]; rfl) htick
        | some r => rfl
      · exact fun hn => htick hn.2
  · have hget : w.run.getD (.fresh id e.now) = run := by rw [hrun]; rfl
    refine hstep run hget (hget ▸ hmeets) (.inl hlast) hok hwaits ?_
    rw [hrun]
    exact fun hn => by cases hn.1

/-- **A wait that is over stays over**: no point of its series changes the kind of the wait. -/
theorem over_stays {series : Series} (hok : Core.Ok run.core) (hlast : run.last_session = session)
    (hclosed : series ∈ run.closed_wait_series) (hnamed : get "wait_kind" series ≠ [])
    (hcur : run.wait_series ≠ some series) (hsession : OfSession session e) (hseries : e.series? = some series) :
    (ingest cfg e run).1.wait_kind = run.wait_kind := by
  cases e with
  | point now p =>
    simp only [Event.series?] at hseries
    split at hseries
    · rename_i hname
      cases hseries
      obtain ⟨run₁, haccept, hcore, -⟩ := acceptSession_core (hsession _ rfl)
        (.inl hlast : _ ∨ ∃ now, run = .fresh [] now)
      -- clearing a terminal leaves the wait as it is
      have hclear : ∀ r : RunTelemetry, (clearStaleTerminal p.ts r).wait_kind = r.wait_kind ∧
          (clearStaleTerminal p.ts r).wait_series = r.wait_series ∧
            (clearStaleTerminal p.ts r).closed_wait_series = r.closed_wait_series := by
        intro r
        rw [clearStaleTerminal]
        split <;> exact ⟨rfl, rfl, rfl⟩
      obtain ⟨hk, hs, hc⟩ := hclear (identify p.toResource now run₁)
      have hkind : (clearStaleTerminal p.ts (identify p.toResource now run₁)).wait_kind = run.wait_kind :=
        hk.trans (congrArg Core.kind hcore)
      have hser : (clearStaleTerminal p.ts (identify p.toResource now run₁)).wait_series = run.wait_series :=
        hs.trans (congrArg Core.series hcore)
      have hcl : (clearStaleTerminal p.ts (identify p.toResource now run₁)).closed_wait_series =
          run.closed_wait_series := hc.trans (congrArg Core.closed hcore)
      rw [get_waitSeries] at hnamed
      rw [ingest, ingestPoint, haccept]
      dsimp only
      set run₂ := clearStaleTerminal p.ts (identify p.toResource now run₁)
      by_cases hstale : stale p run₂ = true
      · rw [if_pos hstale]
        exact hkind
      · -- only the closing point is left, when no wait is current
        have hopen := not_closed_of_stale (Bool.eq_false_iff.2 hstale) hnamed
        rw [hcl] at hopen
        have hactive : p.name = .waitActive ∧ ¬ 1 ≤ p.value := by
          rcases hname with hname | hname
          · exact ⟨hname, fun hv => hopen (.inl ⟨hname, hv⟩) hclosed⟩
          · exact absurd hclosed (hopen (.inr hname))
        have hnone : run.wait_series = none := by
          cases hw : run.wait_series with
          | none => rfl
          | some other =>
            have hne : waitSeries p.attrs ≠ other := fun he => hcur (by rw [hw, he])
            have hlt : p.value < 1 := not_le.1 hactive.2
            rw [stale, hser, hw] at hstale
            simp [hactive.1, hlt, hnamed, hne] at hstale
        rw [if_neg hstale, applyMetric, hactive.1]
        dsimp only
        rw [waitActive, if_neg hactive.2]
        have hempty : run.wait_kind = [] := by
          have := hok.kind
          rw [show run.core.series = none from hnone] at this
          exact this
        rw [hempty]
        rfl
    · cases hseries
  | span now s => cases hseries
  | tick now => cases hseries

theorem sound_of_inv (h : Inv session w) : Sound cfg session w := by
  rcases h with rfl | ⟨run, hrun, hlast, hok, hwaits⟩
  · refine ⟨nofun, nofun, ?_, ?_⟩ <;> intro run hrun <;> cases hrun
  · refine ⟨hwaits.paged, hwaits.waits, ?_, ?_⟩
    · intro run' hrun' hfired
      rw [hrun] at hrun'
      cases hrun'
      exact hok.parked (hfired.imp decide_eq_true decide_eq_true)
    · intro run' hrun' series hpast hcur e hsession hseries
      rw [hrun] at hrun'
      cases hrun'
      have hclosed := ((hwaits.seen series).1 hpast).resolve_left hcur
      exact over_stays hok hlast hclosed (hwaits.named series hclosed) hcur hsession hseries

/-! ## Sessions -/

/-- The run after the events, if it is there before them. -/
def after (cfg : Config) (es : List Event) (run : RunTelemetry) : RunTelemetry :=
  es.foldl (fun run e => (ingest cfg e run).1) run

/-- A record of an older generation is not accepted. -/
theorem acceptSession_older {r : Resource} {last : ℤ × ℤ} {g : ℤ} (hlast : run.last_session = some last)
    (hr : r.resume_generation = some g) (hg : g < last.2) : acceptSession r run = none := by
  have hne : run.last_session ≠ some (r.pid.getD 0, g) := by
    rw [hlast]
    intro he
    have : last.2 = g := congrArg Prod.snd (Option.some.inj he)
    omega
  rw [acceptSession, hr]
  dsimp only
  rw [if_neg hne, if_pos]
  rw [hlast, Option.any_some]
  exact decide_eq_true (le_of_lt hg)

theorem ingest_older {r : Resource} {last : ℤ × ℤ} {g : ℤ} (hlast : run.last_session = some last)
    (he : e.resource? = some r) (hr : r.resume_generation = some g) (hg : g < last.2) :
    ingest cfg e run = (run, []) := by
  cases e with
  | point now p =>
    cases he
    rw [ingest, ingestPoint, acceptSession_older hlast hr hg]
  | span now s =>
    cases he
    rw [ingest, ingestSpan, acceptSession_older hlast hr hg]
  | tick now => cases he

/-- The run's id and the session that it is in, which only `acceptSession` changes. -/
def RunTelemetry.origin (run : RunTelemetry) : Text × Option (ℤ × ℤ) := (run.run_id, run.last_session)

@[simp] theorem origin_fire : (fire rule message run).1.origin = run.origin := by
  rw [fire]
  split <;> rfl

@[simp] theorem origin_clearStaleTerminal : (clearStaleTerminal ts run).origin = run.origin := by
  rw [clearStaleTerminal]
  split <;> rfl

theorem origin_enterWait {kind path question : Text} :
    (enterWait kind attrs path question run).1.origin = run.origin := by
  rw [enterWait]
  split
  · exact origin_fire
  · rfl

theorem origin_applyMetric : (applyMetric cfg now p run).1.origin = run.origin := by
  rw [applyMetric]
  cases p.name with
  | waitActive =>
    dsimp only
    rw [waitActive]
    split
    · dsimp only
      split <;> exact origin_enterWait
    · rfl
  | waitElapsed =>
    have hlast : ∀ x : RunTelemetry × List Alert, x.1.origin = run.origin →
        (if x.1.wait_kind = [] then x.1 else { x.1 with wait_elapsed_s := p.value }).origin = run.origin := by
      intro x hx
      split <;> exact hx
    refine hlast _ ?_
    split
    · split <;> exact origin_enterWait
    · rfl
  | nodeActive =>
    dsimp only
    rw [nodeActive]
    split
    · dsimp only
      split
      · split <;> rfl
      · rfl
    · split <;> rfl
  | nodeElapsed | turnActive | turnElapsed =>
    dsimp only
    split <;> rfl
  | turnIdle =>
    dsimp only
    split
    · rfl
    · split <;> rfl
  | _ => rfl

theorem origin_fireIf {q : Prop} [Decidable q] {x : RunTelemetry × List Alert} :
    (fireIf q rule message x).1.origin = x.1.origin := by
  rw [fireIf]
  split
  · exact origin_fire
  · rfl

theorem origin_visit {label : Text} {x : RunTelemetry × List Alert} :
    (visit cfg s label x).1.origin = x.1.origin := by
  rw [visit]
  split
  · refine origin_fireIf.trans ?_
    have hobserve : (observe s.node s.attrs x.1).1.origin = x.1.origin := by
      rw [observe]
      dsimp only
      split <;> rfl
    dsimp only
    split <;> exact hobserve
  · rfl

/-- When a record is accepted, the run keeps its id and its generation does not go back. -/
theorem acceptSession_le {r : Resource} (h : acceptSession r run = some run') : run'.run_id = run.run_id ∧
    ∀ last, run.last_session = some last → ∃ last', run'.last_session = some last' ∧ last.2 ≤ last'.2 := by
  rw [acceptSession] at h
  split at h
  · cases h
    exact ⟨rfl, fun last hlast => ⟨last, hlast, le_rfl⟩⟩
  · dsimp only at h
    split at h
    · cases h
      exact ⟨rfl, fun last hlast => ⟨last, hlast, le_rfl⟩⟩
    · split at h
      · cases h
      · rename_i hnewer
        cases h
        refine ⟨rfl, fun last hlast => ⟨_, rfl, ?_⟩⟩
        rw [hlast, Option.any_some, decide_eq_true_eq] at hnewer
        exact le_of_lt (not_le.1 hnewer)

/-- An event keeps the run's id, and its generation does not go back. -/
theorem ingest_le (cfg : Config) (e : Event) (run : RunTelemetry) : (ingest cfg e run).1.run_id = run.run_id ∧
    ∀ last, run.last_session = some last →
      ∃ last', (ingest cfg e run).1.last_session = some last' ∧ last.2 ≤ last'.2 := by
  -- after the record is accepted, the origin stays
  have hof : ∀ {run' run'' : RunTelemetry} {r : Resource}, acceptSession r run = some run' →
      run''.origin = run'.origin → run''.run_id = run.run_id ∧ ∀ last, run.last_session = some last →
        ∃ last', run''.last_session = some last' ∧ last.2 ≤ last'.2 := by
    intro run' run'' r haccept horigin
    obtain ⟨hid, hlast⟩ := acceptSession_le haccept
    have hid' : run''.run_id = run'.run_id := congrArg Prod.fst horigin
    have hlast' : run''.last_session = run'.last_session := congrArg Prod.snd horigin
    rw [hid', hlast']
    exact ⟨hid, hlast⟩
  have hsame : run.run_id = run.run_id ∧ ∀ last, run.last_session = some last →
      ∃ last', run.last_session = some last' ∧ last.2 ≤ last'.2 :=
    ⟨rfl, fun last hlast => ⟨last, hlast, le_rfl⟩⟩
  cases e with
  | point now p =>
    rw [ingest, ingestPoint]
    split
    · exact hsame
    · rename_i run₁ haccept
      refine hof haccept ?_
      have hcleared : (clearStaleTerminal p.ts (identify p.toResource now run₁)).origin = run₁.origin :=
        origin_clearStaleTerminal
      dsimp only
      split
      · exact hcleared
      · exact origin_applyMetric.trans hcleared
  | span now s =>
    rw [ingest, ingestSpan]
    split
    · exact hsame
    · rename_i run₁ haccept
      refine hof haccept ?_
      have hcleared : (clearStaleTerminal s.end_ts
          { identify s.toResource now run₁ with last_span_ts := now }).origin = run₁.origin :=
        origin_clearStaleTerminal
      dsimp only
      split
      · refine origin_fire.trans ?_
        split <;> exact hcleared
      · refine origin_visit.trans (origin_fireIf.trans (origin_fireIf.trans ?_))
        split <;> exact hcleared
  | tick now =>
    have hchecked : (checkRun cfg now run).1.origin = run.origin := by
      rw [checkRun]
      repeat' split
      all_goals simp
    have hid : (checkRun cfg now run).1.run_id = run.run_id := congrArg Prod.fst hchecked
    have hlast : (checkRun cfg now run).1.last_session = run.last_session := congrArg Prod.snd hchecked
    rw [ingest, hid, hlast]
    exact hsame

theorem after_le (cfg : Config) (es : List Event) :
    ∀ {run : RunTelemetry} {last : ℤ × ℤ}, run.last_session = some last →
    ∃ last', (after cfg es run).last_session = some last' ∧ last.2 ≤ last'.2 := by
  induction es with
  | nil => exact fun {_ last} hlast => ⟨last, hlast, le_rfl⟩
  | cons e es ih =>
    intro run last hlast
    obtain ⟨last₁, hlast₁, hle₁⟩ := (ingest_le cfg e run).2 last hlast
    obtain ⟨last₂, hlast₂, hle₂⟩ := ih hlast₁
    exact ⟨last₂, hlast₂, hle₁.trans hle₂⟩

/-! ## Batches -/

theorem find_map {runs : Runs} {f : RunTelemetry → RunTelemetry} (hf : ∀ run, (f run).run_id = run.run_id) :
    find id (runs.map f) = (find id runs).map f := by
  rw [find, find, List.find?_map]
  congr 1
  refine congrArg (fun q => runs.find? q) ?_
  funext run
  simp [hf]

/-- What a record of a run does to the runs. -/
theorem find_onRun {runs : Runs} {f : RunTelemetry → RunTelemetry × List Alert} {id' : Text}
    (hf : ∀ run, (f run).1.run_id = run.run_id) : find id (onRun id' now f runs).1 =
      if id' = id then some (f ((find id runs).getD (.fresh id now))).1 else find id runs := by
  have hid : ∀ {run}, find id' runs = some run → run.run_id = id' := by
    intro run hrun
    simpa using List.find?_some hrun
  rw [onRun]
  split
  · rename_i run hrun
    have hmap : ∀ r : RunTelemetry, (if r.run_id = id' then (f run).1 else r).run_id = r.run_id := by
      intro r
      split
      · rename_i hr
        rw [hf, hid hrun, hr]
      · rfl
    rw [find_map hmap]
    by_cases he : id' = id
    · subst he
      rw [if_pos rfl, hrun, Option.map_some, if_pos (hid hrun)]
      rfl
    · rw [if_neg he]
      cases hfind : find id runs with
      | none => rfl
      | some r =>
        have hr : r.run_id = id := by simpa using List.find?_some hfind
        rw [Option.map_some, if_neg (by rw [hr]; exact fun h => he h.symm)]
  · rename_i hnone
    dsimp only
    rw [find, List.find?_append]
    by_cases he : id' = id
    · subst he
      have hnone' : List.find? (fun run => decide (run.run_id = id')) runs = none := hnone
      rw [if_pos rfl, hnone, hnone', Option.none_or, List.find?_singleton, if_pos]
      · rfl
      · rw [hf]
        exact decide_eq_true rfl
    · rw [if_neg he, List.find?_singleton, if_neg]
      · rw [Option.or_none]
        rfl
      · rw [hf]
        exact fun h => he (of_decide_eq_true h)

/-- What an event does to the run of the id, if it is there. -/
def next (cfg : Config) (id : Text) (run : Option RunTelemetry) (e : Event) : Option RunTelemetry :=
  if run.isNone ∧ e.resource?.isNone then run else some (ingest cfg e (run.getD (.fresh id e.now))).1

theorem run_watch : (watch cfg id w e).run = next cfg id w.run e := by
  rw [watch, next]
  split <;> rfl

/-- A loop over records is the fold over those of the run. -/
theorem find_foldAlerts {α : Type} {f : α → Runs → Runs × List Alert} {events : α → List Event}
    (hf : ∀ a runs, find id (f a runs).1 = (events a).foldl (next cfg id) (find id runs)) :
    ∀ (as : List α) (runs : Runs), find id (foldAlerts f as runs).1 =
      (as.flatMap events).foldl (next cfg id) (find id runs) := by
  intro as
  induction as with
  | nil => exact fun _ => rfl
  | cons a as ih =>
    intro runs
    rw [foldAlerts, List.flatMap_cons, List.foldl_append, ← hf]
    exact ih _

theorem flatMap_filter {α : Type} (q : α → Prop) [DecidablePred q] (g : α → Event) (l : List α) :
    (l.filter q).map g = l.flatMap fun a => if q a then [g a] else [] := by
  induction l with
  | nil => rfl
  | cons a l ih =>
    rw [List.flatMap_cons, ← ih]
    by_cases hq : q a <;> simp [hq]

/-- **A call does to a run what its records and its tick do.** -/
theorem find_call (hid : id ≠ []) (c : Call) (runs : Runs) :
    find id (call cfg c runs).1 = (eventsOf id c).foldl (next cfg id) (find id runs) := by
  cases c with
  | metrics points now =>
    rw [call, eventsOf, flatMap_filter]
    refine find_foldAlerts (fun p runs => ?_) points runs
    by_cases hp : p.run_id = []
    · rw [if_pos hp, if_neg fun h => hid (h.symm.trans hp)]
      rfl
    · have hkeep : ∀ run, (ingestPoint cfg now p run).1.run_id = run.run_id :=
        fun run => (ingest_le cfg (.point now p) run).1
      rw [if_neg hp, find_onRun hkeep]
      split
      · rw [List.foldl_cons, List.foldl_nil, next, if_neg]
        · rfl
        · exact fun h => by cases h.2
      · rfl
  | spans spans now =>
    rw [call, eventsOf, flatMap_filter]
    refine find_foldAlerts (fun s runs => ?_) spans runs
    by_cases hs : s.run_id = []
    · rw [if_pos hs, if_neg fun h => hid (h.symm.trans hs)]
      rfl
    · have hkeep : ∀ run, (ingestSpan cfg now s run).1.run_id = run.run_id :=
        fun run => (ingest_le cfg (.span now s) run).1
      rw [if_neg hs, find_onRun hkeep]
      split
      · rw [List.foldl_cons, List.foldl_nil, next, if_neg]
        · rfl
        · exact fun h => by cases h.2
      · rfl
  | tick now =>
    rw [call, checkTimeRules, eventsOf, List.foldl_cons, List.foldl_nil]
    have hkeep : ∀ run, ((Prod.fst ∘ checkRun cfg now) run).run_id = run.run_id :=
      fun run => (ingest_le cfg (.tick now) run).1
    dsimp only
    rw [List.map_map, find_map hkeep, next]
    cases find id runs with
    | none => rfl
    | some run => rfl

theorem find_calls (hid : id ≠ []) (cs : List Call) :
    find id (calls cfg cs []).1 = (cs.flatMap (eventsOf id)).foldl (next cfg id) none :=
  find_foldAlerts (fun c runs => find_call hid c runs) cs []

/-! ## The claim -/

theorem run_eq_foldl : ∀ {es : List Event} {w w' : Watched}, Run.run (step cfg id) w es = some w' →
    w'.run = es.foldl (next cfg id) w.run := by
  intro es
  induction es with
  | nil =>
    intro w w' h
    cases h
    rfl
  | cons e es ih =>
    intro w w' h
    obtain ⟨t, ht, hr⟩ := Run.run_cons_some.1 h
    cases ht
    rw [ih hr, run_watch]
    rfl

/-- **Every operator wait is paged exactly once and does not come back**, in every state that the
records of one session and the ticks lead to when they meet the condition, however they are
batched; and a record of an older generation never changes a run that has accepted a newer one. -/
theorem operator_waits_paged_once {es : List Event} (hsession : ∀ e ∈ es, OfSession session e)
    (hmeets : Run.Along (step cfg id) (Meets id) unseen es) (hr : Run.run (step cfg id) unseen es = some w) :
    Sound cfg session w ∧
      (∀ cs, id ≠ [] → cs.flatMap (eventsOf id) = es → find id (calls cfg cs []).1 = w.run) ∧
        ∀ (run : RunTelemetry) (last : ℤ × ℤ) (later : List Event) (e : Event) (r : Resource) (g : ℤ),
          run.last_session = some last → e.resource? = some r → r.resume_generation = some g → g < last.2 →
            ingest cfg e (after cfg later run) = (after cfg later run, []) := by
  refine ⟨?_, ?_, ?_⟩
  · have hguard : Run.Along (step cfg id) (fun w e => OfSession session e ∧ Meets id w e) unseen es := by
      refine Run.along_iff.2 fun es' e t hpre ht => ⟨hsession e ?_, Run.along_iff.1 hmeets es' e t hpre ht⟩
      exact hpre.subset (List.mem_append_right _ List.mem_cons_self)
    refine sound_of_inv (Run.inv_run_of ?_ hguard (.inl rfl : Inv session unseen) hr)
    rintro w e w' hinv ⟨hs, hm⟩ hstep
    cases hstep
    exact inv_watch hinv hs hm
  · intro cs hid hes
    rw [find_calls hid, hes, run_eq_foldl hr]
    rfl
  · intro run last later e r g hlast he hr' hg
    obtain ⟨last', hlast', hle⟩ := after_le cfg later hlast
    exact ingest_older hlast' he hr' (lt_of_lt_of_le hg hle)

/-! ## Runs to try it on -/

def limits : Config := ⟨5400, 4500, 1800, [], 5⟩

/-- The process that the records come from; `none` is one that numbers no sessions. -/
def producer (generation : Option ℤ) : Resource := ⟨['r'], [], [], [], [], [], some 1, generation⟩

/-- A point of the wait `wait_id`. -/
def waitPoint (generation : Option ℤ) (name : Metric) (ts value : ℚ) (kind wait_id : String) : Event :=
  .point ts ⟨producer generation, name, ts, value,
    [("node".toList, ['n']), ("wait_kind".toList, kind.toList), ("wait_id".toList, wait_id.toList)]⟩

/-- Two operator waits, one after the other, with a late point of the first. -/
def twoWaits : List Event :=
  [waitPoint (some 1) .waitActive 1 1 "operator" "1", .tick 2, waitPoint (some 1) .waitActive 3 0 "operator" "1",
    waitPoint (some 1) .waitActive 4 1 "operator" "2", waitPoint (some 1) .waitElapsed 5 4 "operator" "1"]

theorem operator_waits_paged_once_twoWaits :
    ∃ w, Run.run (step limits ['r']) unseen twoWaits = some w ∧ w.pages.length = 2 ∧ Sound limits (some (1, 1)) w := by
  have hdone : (Run.run (step limits ['r']) unseen twoWaits).any (fun w => w.pages.length = 2) = true := by
    decide +kernel
  obtain ⟨w, hw, hlen⟩ := (Option.any_eq_true _ _).1 hdone
  exact ⟨w, hw, of_decide_eq_true hlen, (operator_waits_paged_once (by decide) (by decide +kernel) hw).1⟩

/-- The point that closes the first wait is missing. -/
def replaced : List Event :=
  [waitPoint (some 1) .waitActive 1 1 "operator" "1", waitPoint (some 1) .waitActive 2 1 "operator" "2"]

/-- The wait that replaces an operator wait is one of the runner's own. -/
def throttled : List Event :=
  [waitPoint (some 1) .waitActive 1 1 "operator" "1", waitPoint (some 1) .waitActive 2 1 "cap" "2"]

/-- The first point of a wait that arrives is the one that closes it. -/
def closedUnseen : List Event := [waitPoint (some 1) .waitActive 1 0 "operator" "1"]

/-- The root span ends and the wait goes on, with no session numbers. -/
def goesOn : List Event :=
  [waitPoint none .waitActive 1 1 "operator" "1", .span 2 ⟨producer none, [], "run:w".toList, 2, [], []⟩,
    waitPoint none .waitActive 3 1 "operator" "1"]

/-- An operator wait has not one page, or the pages of one stand with another wait. -/
def broken (w : Watched) : Bool :=
  (w.operators.any fun series => w.pages.count (some series) ≠ 1) ||
    w.run.any fun run => .blocked ∈ run.fired && run.wait_kind ≠ "operator".toList

theorem not_sound_of_broken (h : broken w = true) : ¬ Sound cfg session w := by
  intro hsound
  rcases Bool.or_eq_true_iff.1 h with h | h
  · obtain ⟨series, hseries, hcount⟩ := List.any_eq_true.1 h
    exact of_decide_eq_true hcount (hsound.paged series hseries)
  · obtain ⟨run, hrun, h⟩ := (Option.any_eq_true _ _).1 h
    obtain ⟨hfired, hkind⟩ := Bool.and_eq_true_iff.1 h
    exact of_decide_eq_true hkind (hsound.parked run hrun (.inl (of_decide_eq_true hfired)))

/-- The records of one session come to a state that is not sound. -/
def Breaks (session : Option (ℤ × ℤ)) (es : List Event) : Prop :=
  (∀ e ∈ es, OfSession session e) ∧ ∃ w, Run.run (step limits ['r']) unseen es = some w ∧ ¬ Sound limits session w

theorem breaks_of_broken {es : List Event} (hsession : ∀ e ∈ es, OfSession session e)
    (h : (Run.run (step limits ['r']) unseen es).any broken = true) : Breaks session es := by
  obtain ⟨w, hw, hb⟩ := (Option.any_eq_true _ _).1 h
  exact ⟨hsession, w, hw, not_sound_of_broken hb⟩

/-- **What the fold does with waits that are replaced, or closed unseen**: a wait that replaces
an operator wait has no page, or stands with the page of that; a wait that was closed before it
was seen comes back; and one that outlives its root span is paged twice. -/
theorem operator_waits_break : Breaks (some (1, 1)) replaced ∧ Breaks (some (1, 1)) throttled ∧
    Breaks (some (1, 1)) closedUnseen ∧ Breaks none goesOn := by
  refine ⟨breaks_of_broken (by decide) (by decide), breaks_of_broken (by decide) (by decide),
    ⟨by decide, _, rfl, fun hsound => ?_⟩, breaks_of_broken (by decide) (by decide)⟩
  have hover := hsound.stays _ rfl _ List.mem_cons_self (by decide)
    (waitPoint (some 1) .waitElapsed 2 1 "operator" "1") (by decide) (by decide)
  exact absurd hover (by decide)

end Stablemate.Alerts
