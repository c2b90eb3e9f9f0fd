import Stablemate.Lib.Checks
import Stablemate.Lib.Lists
import Stablemate.Model.QaReport
import Stablemate.Proof.Json

/-!
# What the report of a QA run accounts for

* `runs_entryOf_iff`: whether a record can be read.
* `Filled`: what a scenario holds after some entries; `Filled.add`, `filled_foldl`: so it is after each one more.
* `foldlM_note`, `foldlM_finish_iff`: the two passes over the ledger.
* `Fits`: no scenario is started twice, and every value can be read. `Accounts`: what a report says of the ledger.
* `build_report_iff`: **a report comes out, and accounts for the whole ledger, exactly when the ledger fits**.
-/

namespace Stablemate.QaReport

open Json (Fields)

variable {W : World} {log : List Fields} {record : Fields} {k : Text}

/-- A value that is read without an exception. -/
def Runs {α : Type} (x : Except Raised α) : Prop := ∃ a, x = .ok a

/-! ## Kinds -/

/-- A text that no value but itself is written as: not a word of Python, a number, a list or a dict. -/
def Plain (k : Text) : Prop := 's' ∈ k ∧ k ≠ "False".toList ∧ k.head? ≠ some '[' ∧ k.head? ≠ some '{'

instance (k : Text) : Decidable (Plain k) := inferInstanceAs (Decidable (_ ∧ _ ∧ _ ∧ _))

theorem str_eq_iff (hk : Plain k) (x : Json) : str x = k ↔ isStr k x = true := by
  obtain ⟨hs, hfalse, hlist, hdict⟩ := hk
  cases x with
  | str s => simp [str, isStr]
  | arr xs =>
    refine iff_of_false (fun h => hlist ?_) Bool.false_ne_true
    rw [← h]
    rfl
  | obj kvs =>
    refine iff_of_false (fun h => hdict ?_) Bool.false_ne_true
    rw [← h]
    rfl
  | word w =>
    refine iff_of_false (fun h => ?_) Bool.false_ne_true
    have hmem : 's' ∈ repr (.word w) := by
      have hrepr : repr (.word w) = k := h
      rw [hrepr]
      exact hs
    cases w with
    | null => exact absurd hmem (by decide)
    | bool b =>
      cases b with
      | true => exact absurd hmem (by decide)
      | false => exact hfalse h.symm
    | int i =>
      rcases Json.mem_decimal hmem with hdigit | hminus
      · exact absurd hdigit (by decide)
      · exact absurd hminus (by decide)
    | float token => exact absurd (Json.isNumeric_float token.2 _ hmem) (by decide)
    | nan => exact absurd hmem (by decide)
    | infinity => exact absurd hmem (by decide)
    | negInfinity => exact absurd hmem (by decide)

/-- `str(record.get("kind", "")) == k` and `record.get("kind") == k` are one for such a text. -/
theorem kind_eq_iff (hk : Plain k) : textOf record "kind".toList = k ↔ isKind k record = true := by
  unfold textOf isKind value field
  cases Dict.get record "kind".toList with
  | none =>
    refine iff_of_false (fun h => ?_) Bool.false_ne_true
    have hs := hk.1
    rw [← h] at hs
    exact List.not_mem_nil hs
  | some x => exact str_eq_iff hk x

/-! ## Entries -/

/-- The assertion that an entry brings. -/
def Entry.view? : Entry → Option AssertView
  | .asserted view => some view
  | _ => none

/-- The end of a step that an entry brings. -/
def Entry.finished? : Entry → Option Finished
  | .finished step => some step
  | _ => none

theorem entryOf_assert (hk : isKind "assert".toList record = true) : entryOf W record = Entry.asserted <$> _assert_view W record := by
  have hkind := (kind_eq_iff (by decide)).2 hk
  unfold entryOf
  simp only [hkind]
  rfl

theorem entryOf_step (hk : isKind "step".toList record = true) : entryOf W record = .ok (.finished (finishedOf record)) := by
  have hkind := (kind_eq_iff (by decide)).2 hk
  unfold entryOf
  simp only [hkind]
  rfl

theorem entryOf_other {e : Entry} (hassert : isKind "assert".toList record = false) (hstep : isKind "step".toList record = false)
    (h : entryOf W record = .ok e) : e.view? = none ∧ e.finished? = none := by
  have hnot : ∀ {k : Text}, Plain k → isKind k record = false → textOf record "kind".toList ≠ k := by
    intro k hk hfalse heq
    rw [(kind_eq_iff hk).1 heq] at hfalse
    cases hfalse
  unfold entryOf at h
  simp only [if_neg (hnot (by decide) hassert), if_neg (hnot (by decide) hstep)] at h
  split at h
  · obtain ⟨assertions, -, h⟩ := Checks.bind_ok_iff.1 h
    obtain ⟨failures, -, h⟩ := Checks.bind_ok_iff.1 h
    obtain rfl := Except.ok.inj h
    exact ⟨rfl, rfl⟩
  · split_ifs at h <;> obtain rfl := Except.ok.inj h <;> exact ⟨rfl, rfl⟩

theorem runs_assert_view_iff : Runs (_assert_view W record) ↔ Runs (items (value record "covers".toList)) := by
  unfold _assert_view
  constructor
  · rintro ⟨view, h⟩
    obtain ⟨covers, hcovers, -⟩ := Checks.bind_ok_iff.1 h
    exact ⟨covers, hcovers⟩
  · rintro ⟨covers, hcovers⟩
    exact ⟨_, Checks.bind_ok_iff.2 ⟨covers, hcovers, rfl⟩⟩

theorem runs_map_iff {α β : Type} {f : α → β} {x : Except Raised α} : Runs (f <$> x) ↔ Runs x := by
  cases x with
  | ok a => exact ⟨fun _ => ⟨a, rfl⟩, fun _ => ⟨f a, rfl⟩⟩
  | error e =>
    constructor
    · rintro ⟨b, h⟩
      cases h
    · rintro ⟨a, h⟩
      cases h

/-- **When a record is read.** -/
theorem runs_entryOf_iff : Runs (entryOf W record) ↔
    (isKind "scenario_stop".toList record = true → Runs (count W record "assertions".toList) ∧ Runs (count W record "failures".toList)) ∧
      (isKind "assert".toList record = true → Runs (items (value record "covers".toList))) := by
  by_cases hstop : isKind "scenario_stop".toList record = true
  · have hkind := (kind_eq_iff (by decide)).2 hstop
    have hassert : ¬ isKind "assert".toList record = true := by
      rw [← kind_eq_iff (by decide), hkind]
      decide
    have hentry : Runs (entryOf W record) ↔ Runs (count W record "assertions".toList) ∧ Runs (count W record "failures".toList) := by
      unfold entryOf
      simp only [hkind]
      constructor
      · rintro ⟨e, h⟩
        obtain ⟨assertions, ha, h⟩ := Checks.bind_ok_iff.1 h
        obtain ⟨failures, hf, -⟩ := Checks.bind_ok_iff.1 h
        exact ⟨⟨assertions, ha⟩, failures, hf⟩
      · rintro ⟨⟨assertions, ha⟩, failures, hf⟩
        exact ⟨_, Checks.bind_ok_iff.2 ⟨assertions, ha, Checks.bind_ok_iff.2 ⟨failures, hf, rfl⟩⟩⟩
    exact hentry.trans ⟨fun h => ⟨fun _ => h, fun h' => absurd h' hassert⟩, fun h => h.1 hstop⟩
  · by_cases hassert : isKind "assert".toList record = true
    · rw [entryOf_assert hassert, runs_map_iff, runs_assert_view_iff]
      exact ⟨fun h => ⟨fun h' => absurd h' hstop, fun _ => h⟩, fun h => h.2 hassert⟩
    · refine iff_of_true ?_ ⟨fun h => absurd h hstop, fun h => absurd h hassert⟩
      have hnot : textOf record "kind".toList ≠ "scenario_stop".toList := fun h => hstop ((kind_eq_iff (by decide)).1 h)
      have hnot' : textOf record "kind".toList ≠ "assert".toList := fun h => hassert ((kind_eq_iff (by decide)).1 h)
      unfold entryOf
      simp only [if_neg hnot, if_neg hnot']
      split_ifs <;> exact ⟨_, rfl⟩

/-! ## What a scenario holds after some entries -/

section Filling

variable {s s₀ : Scenario} {es es' : List Entry} {sid label : Text} {f : Step → Step} {added : List AssertView}

/-- The last end of a step among some entries. -/
def lastFinished (es : List Entry) (id : Text) : Option Finished :=
  ((es.filterMap Entry.finished?).filter fun step => step.id = id).getLast?

/-- The step is as its last end says, or has none. -/
def Step.Ends (st : Step) : Option Finished → Prop
  | none => st.closed = false ∧ st.startedOffsetMs = Json.null
  | some step => st.closed = true ∧ st.exit_code = step.exit_code ∧ st.unfinished = step.unfinished ∧
      st.startedOffsetMs = step.startedOffsetMs ∧ st.endedOffsetMs = step.endedOffsetMs

/-- The assertions of the steps of a scenario, and those outside. -/
def Scenario.asserts (s : Scenario) : List AssertView := (s.steps.flatMap fun st => st.kept.asserts) ++ s.outside.asserts

/-- **A scenario `s₀` to which some entries were added.** -/
structure Filled (s₀ : Scenario) (es : List Entry) (s : Scenario) : Prop where
  id : s.id = s₀.id
  target : s.target = s₀.target
  indexed : s.indexed = true
  nodup : (s.steps.map Step.id).Nodup
  asserts : s.asserts.Perm (es.filterMap Entry.view?)
  known : ∀ step ∈ es.filterMap Entry.finished?, step.id ∈ s.steps.map Step.id
  ends : ∀ st ∈ s.steps, st.Ends (lastFinished es st.id)

theorem step_of_cases (steps : List Step) (sid label : Text) :
    (∃ st l, Keyed.get Step.id steps sid = some st ∧ _step_of steps sid label = { st with label := l }) ∨
      Keyed.get Step.id steps sid = none ∧ _step_of steps sid label = { id := sid, label := label } := by
  unfold _step_of
  cases hget : Keyed.get Step.id steps sid with
  | none => exact .inr ⟨rfl, rfl⟩
  | some st =>
    refine .inl ?_
    dsimp only
    split
    · exact ⟨st, label, rfl, rfl⟩
    · exact ⟨st, st.label, rfl, rfl⟩

theorem step_of_id (steps : List Step) (sid label : Text) : (_step_of steps sid label).id = sid := by
  rcases step_of_cases steps sid label with ⟨st, l, hget, heq⟩ | ⟨-, heq⟩
  · rw [heq]
    exact (Keyed.get_spec hget).2
  · rw [heq]

theorem lastFinished_snoc (es : List Entry) (e : Entry) (id : Text) : lastFinished (es ++ [e]) id =
    (e.finished?.filter fun step => step.id = id).or (lastFinished es id) := by
  unfold lastFinished
  rw [List.filterMap_append, List.filter_append, List.getLast?_append]
  refine congrArg (Option.or · _) ?_
  cases hfin : e.finished? with
  | none => rw [List.filterMap_cons_none hfin]; rfl
  | some step =>
    rw [List.filterMap_cons_some hfin, List.filterMap_nil]
    by_cases hid : step.id = id <;> simp [hid, Option.filter]

/-- A step that `_step_of` makes anew has not ended yet. -/
theorem Filled.ends_step_of (h : Filled s₀ es s) (sid label : Text) : (_step_of s.steps sid label).Ends (lastFinished es sid) := by
  rcases step_of_cases s.steps sid label with ⟨st, l, hget, heq⟩ | ⟨hget, heq⟩
  · obtain ⟨hmem, rfl⟩ := Keyed.get_spec hget
    have hends := h.ends st hmem
    rw [heq]
    cases hlast : lastFinished es st.id with
    | none =>
      rw [hlast] at hends
      exact hends
    | some step =>
      rw [hlast] at hends
      exact hends
  · have hnone : lastFinished es sid = none := by
      cases hlast : lastFinished es sid with
      | none => rfl
      | some step =>
        obtain ⟨hmem, hid⟩ := List.mem_filter.1 (List.mem_of_getLast? hlast)
        obtain rfl := of_decide_eq_true hid
        exact absurd (h.known step hmem) (Keyed.get_eq_none_iff.1 hget)
    rw [heq, hnone]
    exact ⟨rfl, rfl⟩

theorem asserts_onStep (hd : (s.steps.map Step.id).Nodup) (hid : ∀ st, (f st).id = st.id)
    (hf : ∀ st, (f st).kept.asserts = st.kept.asserts ++ added) : (s.onStep sid label f).asserts.Perm (s.asserts ++ added) := by
  have hx : (f (_step_of s.steps sid label)).id = sid := (hid _).trans (step_of_id _ _ _)
  have hnew := (Keyed.perm_upsert hd (f (_step_of s.steps sid label))).flatMap_right fun st => st.kept.asserts
  have hold := (Keyed.perm_get hd sid).flatMap_right fun st => st.kept.asserts
  have hown : (_step_of s.steps sid label).kept.asserts = (Keyed.get Step.id s.steps sid).toList.flatMap fun st => st.kept.asserts := by
    rcases step_of_cases s.steps sid label with ⟨st, l, hget, heq⟩ | ⟨hget, heq⟩
    · rw [heq, hget]
      exact (List.append_nil _).symm
    · rw [heq, hget]
      rfl
  rw [List.flatMap_cons, hf, hown, hx] at hnew
  rw [List.flatMap_append] at hold
  unfold Scenario.asserts Scenario.onStep
  refine (hnew.append_right _).trans (List.Perm.trans ?_ ((hold.symm.append_right _).append_right _))
  -- what was added goes to the end
  simp only [List.append_assoc]
  refine List.Perm.append_left _ ?_
  exact List.perm_append_comm.trans (List.Perm.of_eq (List.append_assoc _ _ _))

theorem Filled.onStep (h : Filled s₀ es s) (hid : ∀ st, (f st).id = st.id)
    (hf : ∀ st, (f st).kept.asserts = st.kept.asserts ++ added)
    (hviews : es'.filterMap Entry.view? = es.filterMap Entry.view? ++ added)
    (hknown : ∀ step ∈ es'.filterMap Entry.finished?, step ∈ es.filterMap Entry.finished? ∨ step.id = sid)
    (hends : (f (_step_of s.steps sid label)).Ends (lastFinished es' sid))
    (hother : ∀ id, id ≠ sid → lastFinished es' id = lastFinished es id) : Filled s₀ es' (s.onStep sid label f) := by
  have hx : (f (_step_of s.steps sid label)).id = sid := (hid _).trans (step_of_id _ _ _)
  have hmem : ∀ st, st ∈ (s.onStep sid label f).steps ↔ st = f (_step_of s.steps sid label) ∨ st ∈ s.steps ∧ st.id ≠ sid := by
    intro st
    have hiff := Keyed.mem_upsert_iff (x := f (_step_of s.steps sid label)) (y := st) h.nodup
    rw [hx] at hiff
    exact hiff
  refine ⟨h.id, h.target, h.indexed, Keyed.nodup_upsert h.nodup _, ?_, fun step hstep => ?_, fun st hst => ?_⟩
  · rw [hviews]
    exact (asserts_onStep h.nodup hid hf).trans (h.asserts.append_right added)
  · have hids : ∀ id, id ∈ s.steps.map Step.id ∨ id = sid → id ∈ (s.onStep sid label f).steps.map Step.id := by
      intro id hor
      by_cases heq : id = sid
      · exact List.mem_map.2 ⟨_, (hmem _).2 (.inl rfl), hx.trans heq.symm⟩
      · obtain ⟨st, hst, rfl⟩ := List.mem_map.1 (hor.resolve_right heq)
        exact List.mem_map_of_mem ((hmem st).2 (.inr ⟨hst, heq⟩))
    exact hids _ ((hknown step hstep).imp_left (h.known step))
  · rcases (hmem st).1 hst with rfl | ⟨hold, hne⟩
    · rw [hx]
      exact hends
    · rw [hother st.id hne]
      exact h.ends st hold

/-- Something is recorded that is no end of a step. -/
theorem Filled.place {e : Entry} {g : Bucket → Bucket} (h : Filled s₀ es s) (hfin : e.finished? = none)
    (hg : ∀ b, (g b).asserts = b.asserts ++ e.view?.toList) : Filled s₀ (es ++ [e]) (_place s sid label g) := by
  have hviews : (es ++ [e]).filterMap Entry.view? = es.filterMap Entry.view? ++ e.view?.toList := by
    rw [List.filterMap_append]
    cases hview : e.view? with
    | none => rw [List.filterMap_cons_none hview]; rfl
    | some view => rw [List.filterMap_cons_some hview]; rfl
  have hsteps : (es ++ [e]).filterMap Entry.finished? = es.filterMap Entry.finished? := by
    rw [List.filterMap_append, List.filterMap_cons_none hfin, List.filterMap_nil, List.append_nil]
  have hlast : ∀ id, lastFinished (es ++ [e]) id = lastFinished es id := by
    intro id
    unfold lastFinished
    rw [hsteps]
  unfold _place
  split
  · refine h.onStep (fun st => rfl) (fun st => hg st.kept) hviews (fun step hstep => ?_) ?_ fun id _ => hlast id
    · rw [hsteps] at hstep
      exact .inl hstep
    · rw [hlast]
      have hends := h.ends_step_of sid label
      cases hfinished : lastFinished es sid with
      | none =>
        rw [hfinished] at hends
        exact hends
      | some step =>
        rw [hfinished] at hends
        exact hends
  · refine ⟨h.id, h.target, h.indexed, h.nodup, ?_, fun step hstep => ?_, fun st hst => ?_⟩
    · have hasserts : (s.asserts ++ e.view?.toList).Perm ((es ++ [e]).filterMap Entry.view?) := by
        rw [hviews]
        exact h.asserts.append_right _
      unfold Scenario.asserts at hasserts ⊢
      rw [List.append_assoc, ← hg] at hasserts
      exact hasserts
    · rw [hsteps] at hstep
      exact h.known step hstep
    · rw [hlast]
      exact h.ends st hst

/-- **One entry more.** -/
theorem Filled.add (h : Filled s₀ es s) (e : Entry) : Filled s₀ (es ++ [e]) (s.add e) := by
  -- an entry that changes no step and brings no assertion
  have hplain : ∀ {t : Scenario}, e.view? = none → e.finished? = none → t.id = s.id → t.target = s.target → t.indexed = s.indexed →
      t.steps = s.steps → t.outside = s.outside → Filled s₀ (es ++ [e]) t := by
    intro t hview hfin hid htarget hindexed hsteps houtside
    have hviews : (es ++ [e]).filterMap Entry.view? = es.filterMap Entry.view? := by
      rw [List.filterMap_append, List.filterMap_cons_none hview, List.filterMap_nil, List.append_nil]
    have hends : (es ++ [e]).filterMap Entry.finished? = es.filterMap Entry.finished? := by
      rw [List.filterMap_append, List.filterMap_cons_none hfin, List.filterMap_nil, List.append_nil]
    refine ⟨hid.trans h.id, htarget.trans h.target, hindexed.trans h.indexed, hsteps ▸ h.nodup, ?_, fun step hstep => ?_, fun st hst => ?_⟩
    · rw [hviews, Scenario.asserts, hsteps, houtside]
      exact h.asserts
    · rw [hends] at hstep
      rw [hsteps]
      exact h.known step hstep
    · rw [hsteps] at hst
      unfold lastFinished
      rw [hends]
      exact h.ends st hst
  cases e with
  | stopped status aborted assertions failures message => exact hplain rfl rfl rfl rfl rfl rfl rfl
  | asserted view =>
    have hg : ∀ b : Bucket, ({ b with asserts := b.asserts ++ [view] } : Bucket).asserts = b.asserts ++ (Entry.asserted view).view?.toList :=
      fun b => rfl
    exact h.place rfl hg
  | captured view =>
    have hg : ∀ b : Bucket, ({ b with captures := b.captures ++ [view] } : Bucket).asserts = b.asserts ++ (Entry.captured view).view?.toList :=
      fun b => (List.append_nil _).symm
    exact h.place rfl hg
  | finished step =>
    have hlast : ∀ id, lastFinished (es ++ [.finished step]) id = if step.id = id then some step else lastFinished es id := by
      intro id
      rw [lastFinished_snoc]
      by_cases hid : step.id = id <;> simp [Entry.finished?, Option.filter, hid]
    have hid : ∀ st : Step, (st.finish step).id = st.id := fun st => rfl
    have hasserts : ∀ st : Step, (st.finish step).kept.asserts = st.kept.asserts ++ [] := fun st => (List.append_nil _).symm
    refine h.onStep hid hasserts ?_ (fun st hst => ?_) ?_ fun id hne => ?_
    · rw [List.filterMap_append]
      rfl
    · rw [List.filterMap_append] at hst
      rcases List.mem_append.1 hst with hold | hnew
      · exact .inl hold
      · have heq : st = step := List.mem_singleton.1 hnew
        exact .inr (congrArg Finished.id heq)
    · rw [hlast, if_pos rfl]
      exact ⟨rfl, rfl, rfl, rfl, rfl⟩
    · rw [hlast, if_neg fun heq => hne heq.symm]
  | scenarioLevel view => exact hplain rfl rfl rfl rfl rfl rfl rfl
  | artifact view =>
    have hg : ∀ b : Bucket, ({ b with artifacts := b.artifacts ++ [view] } : Bucket).asserts = b.asserts ++ (Entry.artifact view).view?.toList :=
      fun b => (List.append_nil _).symm
    exact h.place rfl hg
  | nothing => exact hplain rfl rfl rfl rfl rfl rfl rfl

/-- **Any number of entries more.** -/
theorem filled_foldl (h : Filled s₀ es s) : ∀ es' : List Entry, Filled s₀ (es ++ es') (es'.foldl Scenario.add s) := by
  intro es'
  induction es' generalizing es s with
  | nil =>
    rw [List.append_nil]
    exact h
  | cons e es' ih =>
    have hrest := ih (h.add e)
    rw [List.append_assoc] at hrest
    exact hrest

end Filling

/-! ## The passes over the ledger -/

/-- The scenarios that are started, in order. -/
def started (log : List Fields) : List Text := (log.filter (isKind "scenario_start".toList)).map scenarioOf

/-- What the records of a scenario add to it. -/
def entriesFor (W : World) (log : List Fields) (id : Text) : List Entry :=
  log.filterMap fun record => if scenarioOf record = id then (entryOf W record).toOption else none

theorem add_id (s : Scenario) (e : Entry) : (s.add e).id = s.id := by
  have hplace : ∀ (sid label : Text) (g : Bucket → Bucket), (_place s sid label g).id = s.id := by
    intro sid label g
    unfold _place
    split <;> rfl
  cases e with
  | asserted view => exact hplace _ _ _
  | captured view => exact hplace _ _ _
  | artifact view => exact hplace _ _ _
  | stopped status aborted assertions failures message => rfl
  | finished step => rfl
  | scenarioLevel view => rfl
  | nothing => rfl

/-- A record of the second pass changes its own scenario, if that was started. -/
theorem note_spec {d d' : List Scenario} (h : note W d record = .ok d') : d'.map Scenario.id = d.map Scenario.id ∧
    (scenarioOf record ∈ d.map Scenario.id → Runs (entryOf W record)) ∧
    ∀ id, Keyed.get Scenario.id d' id = (Keyed.get Scenario.id d id).map fun s => (entriesFor W [record] id).foldl Scenario.add s := by
  unfold note at h
  split at h
  · rename_i hget
    obtain rfl := Except.ok.inj h
    have hnot := Keyed.get_eq_none_iff.1 hget
    refine ⟨rfl, fun hmem => absurd hmem hnot, fun id => ?_⟩
    by_cases hid : scenarioOf record = id
    · rw [← hid, hget]
      rfl
    · have hnil : entriesFor W [record] id = [] := List.filterMap_cons_none (if_neg hid)
      rw [hnil]
      exact Option.map_id'.symm ▸ rfl
  · rename_i s hget
    obtain ⟨e, he, h⟩ := Checks.bind_ok_iff.1 h
    obtain rfl := Except.ok.inj h
    obtain ⟨hmem, hsid⟩ := Keyed.get_spec hget
    have hkey : (s.add e).id = scenarioOf record := (add_id s e).trans hsid
    have hkeys : (s.add e).id ∈ d.map Scenario.id := by
      rw [add_id]
      exact List.mem_map_of_mem hmem
    refine ⟨?_, fun _ => ⟨e, he⟩, fun id => ?_⟩
    · rw [Keyed.keys_upsert, if_pos hkeys]
    · rw [Keyed.get_upsert, hkey]
      by_cases hid : scenarioOf record = id
      · have hone : entriesFor W [record] id = [e] := by
          refine List.filterMap_cons_some ?_
          rw [if_pos hid, he]
          rfl
        rw [if_pos hid, hone, ← hid, hget]
        rfl
      · have hnil : entriesFor W [record] id = [] := List.filterMap_cons_none (if_neg hid)
        rw [if_neg hid, hnil]
        exact Option.map_id'.symm ▸ rfl

/-- **The second pass.** -/
theorem foldlM_note : ∀ {log : List Fields} {d d' : List Scenario}, log.foldlM (note W) d = .ok d' →
    (∀ record ∈ log, scenarioOf record ∈ d.map Scenario.id → Runs (entryOf W record)) ∧
      ∀ id, Keyed.get Scenario.id d' id = (Keyed.get Scenario.id d id).map fun s => (entriesFor W log id).foldl Scenario.add s := by
  intro log
  induction log with
  | nil =>
    intro d d' h
    obtain rfl := Except.ok.inj h
    exact ⟨fun _ hmem => absurd hmem List.not_mem_nil, fun id => Option.map_id'.symm ▸ rfl⟩
  | cons record log ih =>
    intro d d' h
    rw [List.foldlM_cons] at h
    obtain ⟨d₁, hnote, hrest⟩ := Checks.bind_ok_iff.1 h
    obtain ⟨hkeys, hruns, hget⟩ := note_spec hnote
    obtain ⟨hall, hfold⟩ := ih hrest
    rw [hkeys] at hall
    refine ⟨List.forall_mem_cons.2 ⟨hruns, hall⟩, fun id => ?_⟩
    have happend : entriesFor W (record :: log) id = entriesFor W [record] id ++ entriesFor W log id :=
      List.filterMap_append (l := [record])
    rw [hfold, hget, Option.map_map, happend]
    refine congrArg (Option.map · _) ?_
    funext s
    rw [List.foldl_append]
    rfl

theorem runs_foldlM_note {d : List Scenario} (h : ∀ record ∈ log, scenarioOf record ∈ d.map Scenario.id → Runs (entryOf W record)) :
    Runs (log.foldlM (note W) d) := by
  have hstep : ∀ record ∈ log, ∀ c, c.map Scenario.id = d.map Scenario.id →
      ∃ c', note W c record = .ok c' ∧ c'.map Scenario.id = d.map Scenario.id := by
    intro record hmem c hc
    have hruns : Runs (note W c record) := by
      unfold note
      cases hget : Keyed.get Scenario.id c (scenarioOf record) with
      | none => exact ⟨c, rfl⟩
      | some s =>
        obtain ⟨hs, hsid⟩ := Keyed.get_spec hget
        obtain ⟨e, he⟩ := h record hmem (hc ▸ hsid ▸ List.mem_map_of_mem hs)
        exact ⟨_, Checks.bind_ok_iff.2 ⟨e, he, rfl⟩⟩
    obtain ⟨c', hc'⟩ := hruns
    exact ⟨c', hc', (note_spec hc').1.trans hc⟩
  obtain ⟨d', hd', -⟩ := Checks.foldlM_ok hstep rfl
  exact ⟨d', hd'⟩

/-- **The last pass**: a scenario that comes up twice has no marks the second time. -/
theorem foldlM_finish_iff : ∀ {order : List Text} {d acc ss : List Scenario},
    (∃ d', order.foldlM finish (d, acc) = .ok (d', ss)) ↔ order.Nodup ∧
      ∃ ts, List.Forall₂ (fun id t => Keyed.get Scenario.id d id = some t ∧ t.indexed = true) order ts ∧
        ss = acc ++ ts.map Scenario.finished := by
  intro order
  induction order with
  | nil =>
    intro d acc ss
    constructor
    · rintro ⟨d', h⟩
      obtain ⟨-, rfl⟩ := Prod.mk.inj (Except.ok.inj h)
      exact ⟨List.nodup_nil, [], .nil, (List.append_nil _).symm⟩
    · rintro ⟨-, ts, hts, rfl⟩
      cases hts
      exact ⟨d, by rw [List.map_nil, List.append_nil]; rfl⟩
  | cons id order ih =>
    intro d acc ss
    have hfinish : ∀ {t : Scenario}, Keyed.get Scenario.id d id = some t → t.indexed = true →
        ((id :: order).foldlM finish (d, acc) =
          order.foldlM finish (Keyed.upsert Scenario.id d t.finished, acc ++ [t.finished])) := by
      intro t hget hindexed
      rw [List.foldlM_cons]
      unfold finish
      rw [hget]
      simp only [hindexed]
      rfl
    -- the scenario that is done has no marks any more, and the others are as they were
    have hothers : ∀ {t : Scenario}, Keyed.get Scenario.id d id = some t → ∀ id',
        Keyed.get Scenario.id (Keyed.upsert Scenario.id d t.finished) id' =
          if id = id' then some t.finished else Keyed.get Scenario.id d id' := by
      intro t hget id'
      have hid : t.finished.id = id := (Keyed.get_spec hget).2
      rw [Keyed.get_upsert, hid]
    constructor
    · rintro ⟨d', h⟩
      cases hget : Keyed.get Scenario.id d id with
      | none =>
        rw [List.foldlM_cons] at h
        unfold finish at h
        rw [hget] at h
        cases h
      | some t₀ =>
        by_cases hindexed : t₀.indexed = true
        · rw [hfinish hget hindexed] at h
          obtain ⟨hnodup, ts, hts, heq⟩ := ih.1 ⟨d', h⟩
          have hfresh : id ∉ order := by
            intro hmem
            have hback : List.Forall₂ (fun t id => Keyed.get Scenario.id (Keyed.upsert Scenario.id d t₀.finished) id = some t ∧
                t.indexed = true) ts order := List.Forall₂.flip hts
            obtain ⟨t', -, hget', hindexed'⟩ := exists_of_forall₂ hback id hmem
            rw [hothers hget, if_pos rfl] at hget'
            rw [← Option.some.inj hget'] at hindexed'
            cases hindexed'
          refine ⟨List.nodup_cons.2 ⟨hfresh, hnodup⟩, t₀ :: ts, .cons ⟨hget, hindexed⟩ ?_, ?_⟩
          · refine forall₂_imp_mem hts fun id' hid' t' _ h' => ?_
            have hne : id ≠ id' := fun heq => hfresh (heq ▸ hid')
            rw [hothers hget, if_neg hne] at h'
            exact h'
          · rw [heq, List.append_assoc]
            rfl
        · rw [List.foldlM_cons] at h
          unfold finish at h
          rw [hget] at h
          simp only [if_neg hindexed] at h
          cases h
    · rintro ⟨hnodup, ts, hts, rfl⟩
      cases hts with
      | cons hhead htail =>
        rename_i t ts
        obtain ⟨hget, hindexed⟩ := hhead
        rw [hfinish hget hindexed]
        refine ih.2 ⟨(List.nodup_cons.1 hnodup).2, ts, ?_, ?_⟩
        · refine forall₂_imp_mem htail fun id' hid' t' _ h' => ?_
          have hne : id ≠ id' := fun heq => (List.nodup_cons.1 hnodup).1 (heq ▸ hid')
          rw [hothers hget, if_neg hne]
          exact h'
        · rw [List.append_assoc]
          rfl

/-! ## The scenarios -/

theorem runs_opened_iff {stamped : Bool} : Runs (opened stamped record) ↔ Runs (items (value record "covers".toList)) := by
  unfold opened
  constructor
  · rintro ⟨s, h⟩
    obtain ⟨covers, hcovers, -⟩ := Checks.bind_ok_iff.1 h
    exact ⟨covers, hcovers⟩
  · rintro ⟨covers, hcovers⟩
    exact ⟨_, Checks.bind_ok_iff.2 ⟨covers, hcovers, rfl⟩⟩

/-- A scenario that was just opened holds nothing. -/
theorem opened_spec {stamped : Bool} {s : Scenario} (h : opened stamped record = .ok s) :
    s.id = scenarioOf record ∧ s.target = textOf record "target".toList ∧ Filled s [] s := by
  unfold opened at h
  obtain ⟨covers, -, h⟩ := Checks.bind_ok_iff.1 h
  obtain rfl := Except.ok.inj h
  refine ⟨rfl, rfl, rfl, rfl, rfl, List.nodup_nil, List.Perm.refl _, fun _ hmem => absurd hmem List.not_mem_nil, fun _ hmem => ?_⟩
  exact absurd hmem List.not_mem_nil

theorem ids_of_opened {stamped : Bool} {starts : List Fields} {ss : List Scenario} (h : starts.mapM (opened stamped) = .ok ss) :
    ss.map Scenario.id = starts.map scenarioOf := by
  have hall := Checks.mapM_ok_iff.1 h
  induction hall with
  | nil => rfl
  | cons hs _ ih =>
    rw [List.map_cons, List.map_cons, (opened_spec hs).1, ih (Checks.mapM_ok_iff.2 (by assumption))]

/-- The dict of the scenarios that were opened. -/
theorem keys_foldl_upsert (ss : List Scenario) (id : Text) :
    id ∈ (ss.foldl (Keyed.upsert Scenario.id) []).map Scenario.id ↔ id ∈ ss.map Scenario.id := by
  have hgrow : ∀ (ss d : List Scenario), id ∈ (ss.foldl (Keyed.upsert Scenario.id) d).map Scenario.id ↔
      id ∈ d.map Scenario.id ∨ id ∈ ss.map Scenario.id := by
    intro ss
    induction ss with
    | nil => exact fun d => ⟨.inl, fun h => h.resolve_right List.not_mem_nil⟩
    | cons s ss ih =>
      intro d
      rw [List.foldl_cons, ih, Keyed.keys_upsert, List.map_cons, List.mem_cons]
      split
      · rename_i hmem
        constructor
        · rintro (h | h)
          · exact .inl h
          · exact .inr (.inr h)
        · rintro (h | rfl | h)
          · exact .inl h
          · exact .inl hmem
          · exact .inr h
      · rw [List.mem_append, List.mem_singleton, or_assoc]
  have h := hgrow ss []
  rw [List.map_nil] at h
  exact h.trans ⟨fun h => h.resolve_left List.not_mem_nil, .inr⟩

/-- What `_scenarios` gives for a `scenario_start` record. -/
def Opened (W : World) (log : List Fields) (start : Fields) (s : Scenario) : Prop :=
  ∃ s₀ t, s₀.id = scenarioOf start ∧ s₀.target = textOf start "target".toList ∧
    Filled s₀ (entriesFor W log (scenarioOf start)) t ∧ s = t.finished

/-- **What `_scenarios` gives**, and what it takes. -/
theorem scenarios_spec {ss : List Scenario} (h : _scenarios W log = .ok ss) :
    (started log).Nodup ∧
      (∀ record ∈ log, isKind "scenario_start".toList record = true → Runs (items (value record "covers".toList))) ∧
      (∀ record ∈ log, scenarioOf record ∈ started log → Runs (entryOf W record)) ∧
      List.Forall₂ (Opened W log) (log.filter (isKind "scenario_start".toList)) ss := by
  unfold _scenarios at h
  obtain ⟨fresh, hfresh, h⟩ := Checks.bind_ok_iff.1 h
  obtain ⟨by_id, hnote, h⟩ := Checks.bind_ok_iff.1 h
  obtain ⟨⟨d', done⟩, hdone, h⟩ := Checks.bind_ok_iff.1 h
  obtain rfl := Except.ok.inj h
  obtain ⟨hnodup, ts, hts, hss⟩ := foldlM_finish_iff.1 ⟨d', hdone⟩
  have hids : fresh.map Scenario.id = started log := ids_of_opened hfresh
  have hopened := Checks.mapM_ok_iff.1 hfresh
  obtain ⟨hruns, hget⟩ := foldlM_note hnote
  refine ⟨hids ▸ hnodup, fun record hmem hstart => ?_, fun record hmem hstarted => ?_, ?_⟩
  · obtain ⟨s, -, hs⟩ := exists_of_forall₂ hopened.flip record (List.mem_filter.2 ⟨hmem, hstart⟩)
    exact runs_opened_iff.1 ⟨s, hs⟩
  · refine hruns record hmem ((keys_foldl_upsert fresh _).2 ?_)
    rw [hids]
    exact hstarted
  · rw [List.nil_append] at hss
    have hss' : done = ts.map Scenario.finished := hss
    rw [hss', List.forall₂_map_right_iff]
    rw [List.forall₂_map_left_iff] at hts
    have hthere : List.Forall₂ (fun s₀ t => s₀ ∈ fresh ∧ Keyed.get Scenario.id by_id s₀.id = some t) fresh ts :=
      forall₂_imp_mem hts fun s₀ hs₀ t _ ht => ⟨hs₀, ht.1⟩
    -- each start, the scenario that it opens, and the scenario that is done
    refine (forall₂_comp hopened hthere).imp fun start t hcomp => ?_
    obtain ⟨s₀, hs₀, hmem, hgot⟩ := hcomp
    obtain ⟨hid, htarget, hempty⟩ := opened_spec hs₀
    have hinit : Keyed.get Scenario.id (fresh.foldl (Keyed.upsert Scenario.id) []) s₀.id = some s₀ := by
      rw [Keyed.get_foldl_upsert hnodup, Keyed.get_of_mem hnodup hmem]
      rfl
    rw [hget, hinit] at hgot
    obtain rfl := Option.some.inj hgot
    refine ⟨s₀, _, hid, htarget, ?_, rfl⟩
    rw [← hid]
    exact filled_foldl hempty (entriesFor W log s₀.id)

theorem runs_scenarios (honce : (started log).Nodup)
    (hstarts : ∀ record ∈ log, isKind "scenario_start".toList record = true → Runs (items (value record "covers".toList)))
    (hentries : ∀ record ∈ log, scenarioOf record ∈ started log → Runs (entryOf W record)) : Runs (_scenarios W log) := by
  obtain ⟨fresh, hfresh⟩ : Runs ((log.filter (isKind "scenario_start".toList)).mapM (opened (isStamped log))) := by
    refine Checks.mapM_ok fun record hmem => ?_
    obtain ⟨hlog, hstart⟩ := List.mem_filter.1 hmem
    exact runs_opened_iff.2 (hstarts record hlog hstart)
  have hids : fresh.map Scenario.id = started log := ids_of_opened hfresh
  obtain ⟨by_id, hnote⟩ : Runs (log.foldlM (note W) (fresh.foldl (Keyed.upsert Scenario.id) [])) := by
    refine runs_foldlM_note fun record hmem hkey => hentries record hmem ?_
    rw [← hids]
    exact (keys_foldl_upsert fresh _).1 hkey
  have hnodup : (fresh.map Scenario.id).Nodup := hids ▸ honce
  have hopened := Checks.mapM_ok_iff.1 hfresh
  -- every scenario is still there in the last pass, with its marks
  have hthere : ∀ s₀ ∈ fresh, ∃ t, Keyed.get Scenario.id by_id s₀.id = some t ∧ t.indexed = true := by
    intro s₀ hmem
    obtain ⟨start, -, hs₀⟩ := exists_of_forall₂ hopened s₀ hmem
    obtain ⟨-, -, hempty⟩ := opened_spec hs₀
    refine ⟨_, ?_, (filled_foldl hempty (entriesFor W log s₀.id)).indexed⟩
    rw [(foldlM_note hnote).2, Keyed.get_foldl_upsert hnodup, Keyed.get_of_mem hnodup hmem]
    rfl
  obtain ⟨ts, hts⟩ : ∃ ts, List.Forall₂ (fun id t => Keyed.get Scenario.id by_id id = some t ∧ t.indexed = true)
      (fresh.map Scenario.id) ts := by
    have hall : ∀ l : List Scenario, (∀ s₀ ∈ l, s₀ ∈ fresh) → ∃ ts, List.Forall₂ (fun id t =>
        Keyed.get Scenario.id by_id id = some t ∧ t.indexed = true) (l.map Scenario.id) ts := by
      intro l
      induction l with
      | nil => exact fun _ => ⟨[], .nil⟩
      | cons s₀ l ih =>
        intro hsub
        obtain ⟨t, ht⟩ := hthere s₀ (hsub s₀ List.mem_cons_self)
        obtain ⟨ts, hts⟩ := ih fun s hs => hsub s (List.mem_cons_of_mem s₀ hs)
        exact ⟨t :: ts, .cons ht hts⟩
    exact hall fresh fun s₀ h => h
  obtain ⟨d', hdone⟩ : ∃ d', (fresh.map Scenario.id).foldlM finish (by_id, []) = .ok (d', ts.map Scenario.finished) :=
    foldlM_finish_iff.2 ⟨hnodup, ts, hts, rfl⟩
  exact ⟨_, Checks.bind_ok_iff.2 ⟨fresh, hfresh, Checks.bind_ok_iff.2 ⟨by_id, hnote, Checks.bind_ok_iff.2 ⟨_, hdone, rfl⟩⟩⟩⟩

/-! ## The ledger's own words for it -/

/-- A record of a kind that belongs to a scenario. -/
def belongs (kind scenario : Text) (record : Fields) : Bool := isKind kind record && decide (scenarioOf record = scenario)

/-- The last `step` record of a step. -/
def lastStep (log : List Fields) (scenario sid : Text) : Option Fields :=
  ((log.filter (belongs "step".toList scenario)).filter fun record => textOf record "id".toList = sid).getLast?

section Ledger

variable {id sid : Text}

theorem entriesFor_cons (W : World) (record : Fields) (log : List Fields) (id : Text) :
    entriesFor W (record :: log) id = entriesFor W [record] id ++ entriesFor W log id := List.filterMap_append (l := [record])

/-- The assertions that the entries of a scenario bring are those of its `assert` records. -/
theorem views_entriesFor (h : ∀ record ∈ log, scenarioOf record = id → Runs (entryOf W record)) :
    (log.filter (belongs "assert".toList id)).mapM (_assert_view W) =
      .ok ((entriesFor W log id).filterMap Entry.view?) := by
  induction log with
  | nil => rfl
  | cons record log ih =>
    have hrest := Checks.mapM_ok_iff.1 (ih fun r hr => h r (List.mem_cons_of_mem record hr))
    refine Checks.mapM_ok_iff.2 ?_
    rw [entriesFor_cons, List.filterMap_append]
    by_cases hid : scenarioOf record = id
    · obtain ⟨e, he⟩ := h record List.mem_cons_self hid
      have hone : entriesFor W [record] id = [e] := by
        refine List.filterMap_cons_some ?_
        rw [if_pos hid, he]
        rfl
      rw [hone]
      cases hassert : isKind "assert".toList record with
      | true =>
        have hp : belongs "assert".toList id record = true := by
          rw [belongs, hassert, decide_eq_true hid]
          rfl
        rw [List.filter_cons_of_pos hp]
        rw [entryOf_assert hassert] at he
        cases hview : _assert_view W record with
        | error e' =>
          rw [hview] at he
          cases he
        | ok view =>
          rw [hview] at he
          obtain rfl := Except.ok.inj he
          exact .cons hview hrest
      | false =>
        have hp : ¬ belongs "assert".toList id record = true := by
          rw [belongs, hassert]
          exact Bool.false_ne_true
        rw [List.filter_cons_of_neg hp]
        have hnone : e.view? = none := by
          cases hstep : isKind "step".toList record with
          | true =>
            rw [entryOf_step hstep] at he
            obtain rfl := Except.ok.inj he
            rfl
          | false => exact (entryOf_other hassert hstep he).1
        rw [List.filterMap_cons_none hnone]
        exact hrest
    · have hnil : entriesFor W [record] id = [] := List.filterMap_cons_none (if_neg hid)
      have hp : ¬ belongs "assert".toList id record = true := fun h => hid (of_decide_eq_true (Bool.and_eq_true_iff.1 h).2)
      rw [hnil, List.filter_cons_of_neg hp]
      exact hrest

/-- The ends that the entries of a scenario bring are those of its `step` records. -/
theorem finished_entriesFor (h : ∀ record ∈ log, scenarioOf record = id → Runs (entryOf W record)) :
    (entriesFor W log id).filterMap Entry.finished? =
      (log.filter (belongs "step".toList id)).map finishedOf := by
  induction log with
  | nil => rfl
  | cons record log ih =>
    have hrest := ih fun r hr => h r (List.mem_cons_of_mem record hr)
    rw [entriesFor_cons, List.filterMap_append, hrest]
    by_cases hid : scenarioOf record = id
    · obtain ⟨e, he⟩ := h record List.mem_cons_self hid
      have hone : entriesFor W [record] id = [e] := by
        refine List.filterMap_cons_some ?_
        rw [if_pos hid, he]
        rfl
      rw [hone]
      cases hstep : isKind "step".toList record with
      | true =>
        have hp : belongs "step".toList id record = true := by
          rw [belongs, hstep, decide_eq_true hid]
          rfl
        rw [List.filter_cons_of_pos hp]
        rw [entryOf_step hstep] at he
        obtain rfl := Except.ok.inj he
        rfl
      | false =>
        have hp : ¬ belongs "step".toList id record = true := by
          rw [belongs, hstep]
          exact Bool.false_ne_true
        rw [List.filter_cons_of_neg hp]
        have hnone : e.finished? = none := by
          cases hassert : isKind "assert".toList record with
          | true =>
            rw [entryOf_assert hassert] at he
            cases hview : _assert_view W record with
            | error e' =>
              rw [hview] at he
              cases he
            | ok view =>
              rw [hview] at he
              obtain rfl := Except.ok.inj he
              rfl
          | false => exact (entryOf_other hassert hstep he).2
        rw [List.filterMap_cons_none hnone]
        rfl
    · have hnil : entriesFor W [record] id = [] := List.filterMap_cons_none (if_neg hid)
      have hp : ¬ belongs "step".toList id record = true := fun h => hid (of_decide_eq_true (Bool.and_eq_true_iff.1 h).2)
      rw [hnil, List.filter_cons_of_neg hp]
      rfl

theorem lastFinished_entriesFor (h : ∀ record ∈ log, scenarioOf record = id → Runs (entryOf W record)) (sid : Text) :
    lastFinished (entriesFor W log id) sid = (lastStep log id sid).map finishedOf := by
  unfold lastFinished lastStep
  rw [finished_entriesFor h, List.filter_map, List.getLast?_map]
  rfl

end Ledger

/-! ## Recordings -/

section Recordings

variable {recordings : List Recording} {s s' : Scenario}

theorem runs_bind_pure_iff {α β : Type} {x : Except Raised α} {f : α → β} : Runs (x >>= fun a => pure (f a)) ↔ Runs x := by
  constructor
  · rintro ⟨b, h⟩
    obtain ⟨a, ha, -⟩ := Checks.bind_ok_iff.1 h
    exact ⟨a, ha⟩
  · rintro ⟨a, ha⟩
    exact ⟨f a, Checks.bind_ok_iff.2 ⟨a, ha, rfl⟩⟩

theorem runs_mapM_iff {α β : Type} {l : List α} {f : α → Except Raised β} : Runs (l.mapM f) ↔ ∀ x ∈ l, Runs (f x) := by
  constructor
  · rintro ⟨bs, h⟩ x hx
    obtain ⟨b, -, hb⟩ := exists_of_forall₂ (Checks.mapM_ok_iff.1 h).flip x hx
    exact ⟨b, hb⟩
  · exact Checks.mapM_ok

theorem runs_placeStep_iff {recording : Option Recording} {st : Step} : Runs (placeStep W recording st) ↔
    ∀ r, recording = some r → Runs (_video_placement W st.startedOffsetMs st.endedOffsetMs r) := by
  cases recording with
  | none => exact iff_of_true ⟨_, rfl⟩ fun r h => by cases h
  | some r =>
    refine runs_bind_pure_iff.trans ⟨fun h r' hr' => ?_, fun h => h r rfl⟩
    rw [← Option.some.inj hr']
    exact h

theorem runs_placeScenario_iff : Runs (placeScenario W recordings s) ↔
    ∀ st ∈ s.steps, ∀ r, recordingFor recordings s.target = some r →
      Runs (_video_placement W st.startedOffsetMs st.endedOffsetMs r) :=
  runs_bind_pure_iff.trans (runs_mapM_iff.trans (forall₂_congr fun _ _ => runs_placeStep_iff))

/-- Placing changes nothing but the placements. -/
theorem placeScenario_spec (h : placeScenario W recordings s = .ok s') : s'.id = s.id ∧ s'.status = s.status ∧
    s'.outside = s.outside ∧ List.Forall₂ (fun st st' => ∃ video, st' = { st with video := video }) s.steps s'.steps := by
  unfold placeScenario at h
  obtain ⟨steps, hsteps, h⟩ := Checks.bind_ok_iff.1 h
  obtain rfl := Except.ok.inj h
  refine ⟨rfl, rfl, rfl, (Checks.mapM_ok_iff.1 hsteps).imp fun st st' hst => ?_⟩
  unfold placeStep at hst
  split at hst
  · exact ⟨none, (Except.ok.inj hst).symm⟩
  · obtain ⟨video, -, hst⟩ := Checks.bind_ok_iff.1 hst
    exact ⟨video, (Except.ok.inj hst).symm⟩

end Recordings

/-! ## Subjects -/

section Subjects

variable {item : Fields} {scenarios : List Scenario} {asserts bound : List Fields} {aborted : List Text} {subject_id : Text}

theorem mem_bound {flags : List Bool} (h : asserts.mapM (isBound subject_id) = .ok flags) :
    record ∈ ((asserts.zip flags).filter Prod.snd).map Prod.fst ↔ record ∈ asserts ∧ isBound subject_id record = .ok true := by
  have hall := Checks.mapM_ok_iff.1 h
  clear h
  induction hall with
  | nil => simp
  | @cons r flag asserts flags hr _ ih =>
    rw [List.zip_cons_cons, List.mem_cons, or_and_right]
    cases flag with
    | true =>
      rw [List.filter_cons_of_pos rfl, List.map_cons, List.mem_cons]
      exact or_congr ⟨fun h => ⟨h, h ▸ hr⟩, And.left⟩ ih
    | false =>
      rw [List.filter_cons_of_neg Bool.false_ne_true]
      refine ih.trans ⟨.inr, fun h => h.resolve_left ?_⟩
      rintro ⟨rfl, htrue⟩
      rw [hr] at htrue
      cases htrue

theorem runs_groupOf_iff {s : Scenario} : Runs (groupOf subject_id bound s) ↔ ∀ r ∈ bound, scenarioOf r = s.id → Runs (idOf r) := by
  have hmine : Runs (groupOf subject_id bound s) ↔ Runs ((bound.filter fun r => scenarioOf r = s.id).mapM idOf) := by
    unfold groupOf
    constructor
    · rintro ⟨group, h⟩
      obtain ⟨mine, hmine, -⟩ := Checks.bind_ok_iff.1 h
      exact ⟨mine, hmine⟩
    · rintro ⟨mine, hmine⟩
      by_cases hnone : (mine.isEmpty && !(decide (subject_id ∈ s.covers))) = true
      · exact ⟨_, Checks.bind_ok_iff.2 ⟨mine, hmine, if_pos hnone⟩⟩
      · exact ⟨_, Checks.bind_ok_iff.2 ⟨mine, hmine, if_neg hnone⟩⟩
  rw [hmine, runs_mapM_iff]
  constructor
  · exact fun h r hr hs => h r (List.mem_filter.2 ⟨hr, decide_eq_true hs⟩)
  · intro h r hr
    obtain ⟨hmem, hs⟩ := List.mem_filter.1 hr
    exact h r hmem (of_decide_eq_true hs)

/-- **When a subject is judged.** -/
theorem runs_subject_iff : Runs (_subject item scenarios asserts aborted) ↔
    (∀ r ∈ asserts, Runs (isBound (str (value item "id".toList)) r)) ∧
      ∀ r ∈ asserts, isBound (str (value item "id".toList)) r = .ok true → scenarioOf r ∈ scenarios.map Scenario.id → Runs (idOf r) := by
  unfold _subject
  constructor
  · rintro ⟨subject, h⟩
    obtain ⟨flags, hflags, h⟩ := Checks.bind_ok_iff.1 h
    obtain ⟨groups, hgroups, -⟩ := Checks.bind_ok_iff.1 h
    refine ⟨runs_mapM_iff.1 ⟨flags, hflags⟩, fun r hr htrue hmem => ?_⟩
    obtain ⟨s, hs, hid⟩ := List.mem_map.1 hmem
    exact runs_groupOf_iff.1 (runs_mapM_iff.1 ⟨groups, hgroups⟩ s hs) r ((mem_bound hflags).2 ⟨hr, htrue⟩) hid.symm
  · rintro ⟨hbound, hids⟩
    obtain ⟨flags, hflags⟩ := runs_mapM_iff.2 hbound
    have hgroups : Runs (scenarios.mapM (groupOf (str (value item "id".toList)) (((asserts.zip flags).filter Prod.snd).map Prod.fst))) := by
      refine runs_mapM_iff.2 fun s hs => runs_groupOf_iff.2 fun r hr hid => ?_
      obtain ⟨hmem, htrue⟩ := (mem_bound hflags).1 hr
      exact hids r hmem htrue (hid ▸ List.mem_map_of_mem hs)
    obtain ⟨groups, hgroups⟩ := hgroups
    exact ⟨_, Checks.bind_ok_iff.2 ⟨flags, hflags, Checks.bind_ok_iff.2 ⟨groups, hgroups, rfl⟩⟩⟩

theorem runs_obligationOf_iff {rows : List (Text × Row)} : Runs (obligationOf scenarios asserts aborted rows item) ↔
    Runs (_subject item scenarios asserts aborted) ∧ Runs (declaredCalls item) := by
  unfold obligationOf
  constructor
  · rintro ⟨subject, h⟩
    obtain ⟨subject, hsubject, h⟩ := Checks.bind_ok_iff.1 h
    obtain ⟨declared, hdeclared, -⟩ := Checks.bind_ok_iff.1 h
    exact ⟨⟨subject, hsubject⟩, declared, hdeclared⟩
  · rintro ⟨⟨subject, hsubject⟩, declared, hdeclared⟩
    exact ⟨_, Checks.bind_ok_iff.2 ⟨subject, hsubject, Checks.bind_ok_iff.2 ⟨declared, hdeclared, rfl⟩⟩⟩

end Subjects

/-! ## The whole report -/

section Whole

variable {context : Fields} {evidence : Except Raised (Option (List (Text × Row)))} {ss ss' : List Scenario} {r : Report}

/-- The placement of the last end of each step can be computed. -/
def Placed (W : World) (log : List Fields) : Prop :=
  ∀ start ∈ log, isKind "scenario_start".toList start = true → ∀ sid record, lastStep log (scenarioOf start) sid = some record →
    ∀ recording, recordingFor (recordingsOf log) (textOf start "target".toList) = some recording →
      Runs (_video_placement W (finishedOf record).startedOffsetMs (finishedOf record).endedOffsetMs recording)

theorem runs_place_iff (h : _scenarios W log = .ok ss) : Runs (_place_in_recordings W ss (recordingsOf log)) ↔ Placed W log := by
  obtain ⟨-, -, hentries, hopened⟩ := scenarios_spec h
  have hlast : ∀ start ∈ log, isKind "scenario_start".toList start = true → ∀ sid,
      lastFinished (entriesFor W log (scenarioOf start)) sid = (lastStep log (scenarioOf start) sid).map finishedOf := by
    intro start hmem hstart sid
    refine lastFinished_entriesFor (fun record hrecord hid => hentries record hrecord ?_) sid
    rw [hid]
    exact List.mem_map_of_mem (List.mem_filter.2 ⟨hmem, hstart⟩)
  refine runs_mapM_iff.trans ⟨fun hall start hmem hstart sid record hrecord recording hrecording => ?_, fun hall s hs => ?_⟩
  · obtain ⟨s, hs, s₀, t, -, htarget, hfilled, rfl⟩ := exists_of_forall₂ hopened.flip start (List.mem_filter.2 ⟨hmem, hstart⟩)
    have hsome := hlast start hmem hstart sid
    rw [hrecord] at hsome
    have hfin : finishedOf record ∈ (entriesFor W log (scenarioOf start)).filterMap Entry.finished? :=
      (List.mem_filter.1 (List.mem_of_getLast? hsome)).1
    have hsid : (finishedOf record).id = sid := of_decide_eq_true (List.mem_filter.1 (List.mem_of_getLast? hsome)).2
    obtain ⟨st, hst, hid⟩ := List.mem_map.1 (hfilled.known _ hfin)
    have hends := hfilled.ends st hst
    rw [hid, hsid, hsome] at hends
    obtain ⟨-, -, -, hstarted, hended⟩ := hends
    have hplace := runs_placeScenario_iff.1 (hall _ hs) st.close (List.mem_map_of_mem hst) recording
    have htar : t.finished.target = textOf start "target".toList := hfilled.target.trans htarget
    rw [htar] at hplace
    rw [← hstarted, ← hended]
    exact hplace hrecording
  · obtain ⟨start, hstart, s₀, t, -, htarget, hfilled, rfl⟩ := exists_of_forall₂ hopened s hs
    obtain ⟨hmem, hstart⟩ := List.mem_filter.1 hstart
    refine runs_placeScenario_iff.2 fun st' hst' recording hrecording => ?_
    obtain ⟨st, hst, rfl⟩ := List.mem_map.1 hst'
    have htar : t.finished.target = textOf start "target".toList := hfilled.target.trans htarget
    rw [htar] at hrecording
    have hends := hfilled.ends st hst
    have hsame := hlast start hmem hstart st.id
    cases hrecord : lastStep log (scenarioOf start) st.id with
    | none =>
      rw [hsame, hrecord] at hends
      have hnull : st.close.startedOffsetMs = Json.null := hends.2
      rw [hnull]
      exact ⟨none, rfl⟩
    | some record =>
      rw [hsame, hrecord] at hends
      obtain ⟨-, -, -, hstarted, hended⟩ := hends
      have hplace := hall start hmem hstart st.id record hrecord recording hrecording
      rw [← hstarted, ← hended] at hplace
      exact hplace

/-- A criterion or a required obligation of the context packet. -/
def Owed (context item : Fields) : Prop := ∃ all, entries context "obligations".toList = .ok all ∧ item ∈ all ∧ isRequired item = true

def Reported (context item : Fields) : Prop :=
  (∃ all, entries context "acceptanceCriteria".toList = .ok all ∧ item ∈ all) ∨ Owed context item

/-- **What a ledger must be like**: no scenario is started twice, and what is read of it can be read. -/
structure Fits (W : World) (log : List Fields) (context : Fields) (evidence : Except Raised (Option (List (Text × Row)))) : Prop where
  once : (started log).Nodup
  starts : ∀ record ∈ log, isKind "scenario_start".toList record = true → Runs (items (value record "covers".toList))
  stops : ∀ record ∈ log, scenarioOf record ∈ started log → isKind "scenario_stop".toList record = true →
    Runs (count W record "assertions".toList) ∧ Runs (count W record "failures".toList)
  asserts : ∀ record ∈ log, scenarioOf record ∈ started log → isKind "assert".toList record = true →
    Runs (items (value record "covers".toList))
  placed : Placed W log
  errors : ∀ record ∈ log, isKind "runner_error".toList record = true → Runs (items (value record "problems".toList))
  criteria : Runs (entries context "acceptanceCriteria".toList)
  obligations : Runs (entries context "obligations".toList)
  evidence : (∃ item, Owed context item) → Runs evidence
  declared : ∀ item, Owed context item → Runs (declaredCalls item)
  bound : ∀ item, Reported context item → ∀ record ∈ log, isKind "assert".toList record = true →
    Runs (isBound (str (value item "id".toList)) record)
  ids : ∀ item, Reported context item → ∀ record ∈ log, isKind "assert".toList record = true →
    isBound (str (value item "id".toList)) record = .ok true → scenarioOf record ∈ started log → Runs (idOf record)

/-- **What a report says of the whole ledger.** -/
structure Accounts (W : World) (log : List Fields) (r : Report) : Prop where
  scenarios : r.scenarios.map Scenario.id = started log
  /-- Each assertion of a scenario stands once in its steps and outside of them. -/
  asserts : ∀ s ∈ r.scenarios, ∃ views, (log.filter (belongs "assert".toList s.id)).mapM (_assert_view W) = .ok views ∧ s.asserts.Perm views
  /-- Each step stands there once. -/
  steps : ∀ s ∈ r.scenarios, (s.steps.map Step.id).Nodup
  every : ∀ s ∈ r.scenarios, ∀ record ∈ log, belongs "step".toList s.id record = true → textOf record "id".toList ∈ s.steps.map Step.id
  exits : ∀ s ∈ r.scenarios, ∀ st ∈ s.steps, ∀ record, lastStep log s.id st.id = some record →
    st.exit_code = value record "exit_code".toList ∧ st.unfinished = (value record "unfinished".toList).truthy
  unfinished : ∀ s ∈ r.scenarios, ∀ st ∈ s.steps, lastStep log s.id st.id = none → st.unfinished = true
  counts : r.scenariosPassed + r.scenariosFailed = (started log).dedup.length
  tally : r.passed + r.failed = (log.filter (isKind "assert".toList)).length

theorem ids_of_scenarios (h : _scenarios W log = .ok ss) : ss.map Scenario.id = started log := by
  obtain ⟨-, -, -, hopened⟩ := scenarios_spec h
  refine map_eq_of_forall₂ (hopened.imp fun start s hs => ?_)
  obtain ⟨s₀, t, hid, -, hfilled, rfl⟩ := hs
  exact hfilled.id.trans hid

theorem ids_of_placed {recordings : List Recording} (h : _place_in_recordings W ss recordings = .ok ss') :
    ss'.map Scenario.id = ss.map Scenario.id :=
  map_eq_of_forall₂ ((Checks.mapM_ok_iff.1 h).imp fun _ _ hs => (placeScenario_spec hs).1)

/-- **What the scenarios of a report say of the ledger.** -/
theorem scenarios_account {s' : Scenario} (h : _scenarios W log = .ok ss) {recordings : List Recording}
    (hplace : _place_in_recordings W ss recordings = .ok ss') (hs' : s' ∈ ss') :
    (∃ views, (log.filter (belongs "assert".toList s'.id)).mapM (_assert_view W) = .ok views ∧ s'.asserts.Perm views) ∧
      (s'.steps.map Step.id).Nodup ∧
      (∀ record ∈ log, belongs "step".toList s'.id record = true → textOf record "id".toList ∈ s'.steps.map Step.id) ∧
      ∀ st ∈ s'.steps, (∀ record, lastStep log s'.id st.id = some record →
        st.exit_code = value record "exit_code".toList ∧ st.unfinished = (value record "unfinished".toList).truthy) ∧
        (lastStep log s'.id st.id = none → st.unfinished = true) := by
  obtain ⟨-, -, hentries, hopened⟩ := scenarios_spec h
  obtain ⟨s, hs, hplaced⟩ := exists_of_forall₂ (Checks.mapM_ok_iff.1 hplace) s' hs'
  obtain ⟨start, hstart, s₀, t, hid, -, hfilled, rfl⟩ := exists_of_forall₂ hopened s hs
  obtain ⟨hsame, -, houtside, hsteps⟩ := placeScenario_spec hplaced
  have hid' : s'.id = scenarioOf start := hsame.trans (hfilled.id.trans hid)
  have hruns : ∀ record ∈ log, scenarioOf record = s'.id → Runs (entryOf W record) := by
    intro record hrecord heq
    refine hentries record hrecord ?_
    rw [heq, hid']
    exact List.mem_map_of_mem hstart
  rw [← hid'] at hfilled
  -- the steps of the report are those of the filled scenario, closed and placed
  have hsteps' : List.Forall₂ (fun st st' => ∃ video, st' = { st.close with video := video }) t.steps s'.steps :=
    List.forall₂_map_left_iff.1 hsteps
  have hids : s'.steps.map Step.id = t.steps.map Step.id := by
    refine map_eq_of_forall₂ (hsteps'.imp fun st st' hst => ?_)
    obtain ⟨video, rfl⟩ := hst
    rfl
  have hkept : s'.steps.map (fun st => st.kept.asserts) = t.steps.map fun st => st.kept.asserts := by
    refine map_eq_of_forall₂ (hsteps'.imp fun st st' hst => ?_)
    obtain ⟨video, rfl⟩ := hst
    rfl
  have hasserts : s'.asserts = t.asserts := by
    unfold Scenario.asserts
    rw [List.flatMap_def, List.flatMap_def, hkept, houtside]
    rfl
  refine ⟨⟨_, views_entriesFor hruns, ?_⟩, ?_, fun record hrecord hbelongs => ?_, fun st hst => ?_⟩
  · rw [hasserts]
    exact hfilled.asserts
  · rw [hids]
    exact hfilled.nodup
  · rw [hids]
    have hfin : finishedOf record ∈ (entriesFor W log s'.id).filterMap Entry.finished? := by
      rw [finished_entriesFor hruns]
      exact List.mem_map_of_mem (List.mem_filter.2 ⟨hrecord, hbelongs⟩)
    exact hfilled.known _ hfin
  · obtain ⟨st₀, hst₀, video, rfl⟩ := exists_of_forall₂ hsteps' st hst
    have hends := hfilled.ends st₀ hst₀
    rw [lastFinished_entriesFor hruns] at hends
    constructor
    · intro record hrecord
      have hlast : lastStep log s'.id st₀.id = some record := hrecord
      rw [hlast] at hends
      obtain ⟨hclosed, hexit, hunfinished, -, -⟩ := hends
      have hexit' : st₀.close.exit_code = st₀.exit_code := if_pos hclosed
      have hunfinished' : st₀.close.unfinished = st₀.unfinished := if_pos hclosed
      exact ⟨hexit'.trans hexit, hunfinished'.trans hunfinished⟩
    · intro hnone
      have hlast : lastStep log s'.id st₀.id = none := hnone
      rw [hlast] at hends
      have hclosed : ¬ st₀.closed = true := by
        rw [hends.1]
        exact Bool.false_ne_true
      exact if_neg hclosed

theorem countP_add_countP_not {α : Type} (p : α → Bool) (l : List α) : l.countP p + l.countP (fun a => !p a) = l.length := by
  rw [List.length_eq_countP_add_countP p]
  congr 1
  refine List.countP_congr fun a _ => ?_
  cases p a <;> simp

theorem runs_runnerError_iff : Runs (runnerError record) ↔ Runs (items (value record "problems".toList)) := by
  unfold runnerError
  exact runs_bind_pure_iff

/-- **A report that comes out says that the ledger fits.** -/
theorem fits_of_report (h : build_report W log context evidence = .ok r) : Fits W log context evidence := by
  unfold build_report at h
  obtain ⟨ss, hss, h⟩ := Checks.bind_ok_iff.1 h
  obtain ⟨ss', hplace, h⟩ := Checks.bind_ok_iff.1 h
  obtain ⟨cs, hcs, h⟩ := Checks.bind_ok_iff.1 h
  obtain ⟨os, hos, h⟩ := Checks.bind_ok_iff.1 h
  obtain ⟨criteria, hcriteria, h⟩ := Checks.bind_ok_iff.1 h
  obtain ⟨rows, hrows, h⟩ := Checks.bind_ok_iff.1 h
  obtain ⟨obligations, hobligations, h⟩ := Checks.bind_ok_iff.1 h
  obtain ⟨errors, herrors, -⟩ := Checks.bind_ok_iff.1 h
  obtain ⟨honce, hstarts, hentries, -⟩ := scenarios_spec hss
  have hids : ss'.map Scenario.id = started log := (ids_of_placed hplace).trans (ids_of_scenarios hss)
  -- every subject was judged, and every obligation read
  have hsubjects : ∀ item, Reported context item → Runs (_subject item ss' (log.filter (isKind "assert".toList))
      ((ss'.filter Scenario.aborted).map Scenario.id)) := by
    rintro item (⟨all, hall, hmem⟩ | ⟨all, hall, hmem, hrequired⟩)
    · rw [hcs] at hall
      obtain rfl := Except.ok.inj hall
      exact runs_mapM_iff.1 ⟨criteria, hcriteria⟩ item hmem
    · rw [hos] at hall
      obtain rfl := Except.ok.inj hall
      exact (runs_obligationOf_iff.1 (runs_mapM_iff.1 ⟨obligations, hobligations⟩ item (List.mem_filter.2 ⟨hmem, hrequired⟩))).1
  refine ⟨honce, hstarts, fun record hmem hstarted hstop => ?_, fun record hmem hstarted hassert => ?_, ?_, fun record hmem herror => ?_,
    ⟨cs, hcs⟩, ⟨os, hos⟩, ?_, ?_, fun item hitem record hmem hassert => ?_, fun item hitem record hmem hassert htrue hstarted => ?_⟩
  · exact (runs_entryOf_iff.1 (hentries record hmem hstarted)).1 hstop
  · exact (runs_entryOf_iff.1 (hentries record hmem hstarted)).2 hassert
  · exact (runs_place_iff hss).1 ⟨ss', hplace⟩
  · exact runs_runnerError_iff.1 (runs_mapM_iff.1 ⟨errors, herrors⟩ record (List.mem_filter.2 ⟨hmem, herror⟩))
  · rintro ⟨item, all, hall, hmem, hrequired⟩
    rw [hos] at hall
    obtain rfl := Except.ok.inj hall
    have hsome : ¬ (os.filter isRequired).isEmpty = true := by
      rw [List.isEmpty_iff]
      exact List.ne_nil_of_mem (List.mem_filter.2 ⟨hmem, hrequired⟩)
    rw [rowsOf, if_neg hsome] at hrows
    exact ⟨rows, hrows⟩
  · rintro item ⟨all, hall, hmem, hrequired⟩
    rw [hos] at hall
    obtain rfl := Except.ok.inj hall
    exact (runs_obligationOf_iff.1 (runs_mapM_iff.1 ⟨obligations, hobligations⟩ item (List.mem_filter.2 ⟨hmem, hrequired⟩))).2
  · exact (runs_subject_iff.1 (hsubjects item hitem)).1 record (List.mem_filter.2 ⟨hmem, hassert⟩)
  · refine (runs_subject_iff.1 (hsubjects item hitem)).2 record (List.mem_filter.2 ⟨hmem, hassert⟩) htrue ?_
    rw [hids]
    exact hstarted

/-- **A report comes out of a ledger that fits.** -/
theorem report_of_fits (h : Fits W log context evidence) : Runs (build_report W log context evidence) := by
  have hentries : ∀ record ∈ log, scenarioOf record ∈ started log → Runs (entryOf W record) := fun record hmem hstarted =>
    runs_entryOf_iff.2 ⟨h.stops record hmem hstarted, h.asserts record hmem hstarted⟩
  obtain ⟨ss, hss⟩ := runs_scenarios h.once h.starts hentries
  obtain ⟨ss', hplace⟩ := (runs_place_iff hss).2 h.placed
  obtain ⟨cs, hcs⟩ := h.criteria
  obtain ⟨os, hos⟩ := h.obligations
  have hids : ss'.map Scenario.id = started log := (ids_of_placed hplace).trans (ids_of_scenarios hss)
  have hsubjects : ∀ item, Reported context item → Runs (_subject item ss' (log.filter (isKind "assert".toList))
      ((ss'.filter Scenario.aborted).map Scenario.id)) := by
    intro item hitem
    refine runs_subject_iff.2 ⟨fun record hrecord => ?_, fun record hrecord htrue hmem => ?_⟩
    · obtain ⟨hlog, hassert⟩ := List.mem_filter.1 hrecord
      exact h.bound item hitem record hlog hassert
    · obtain ⟨hlog, hassert⟩ := List.mem_filter.1 hrecord
      rw [hids] at hmem
      exact h.ids item hitem record hlog hassert htrue hmem
  have howed : ∀ item ∈ os.filter isRequired, Owed context item := fun item hitem =>
    ⟨os, hos, (List.mem_filter.1 hitem).1, (List.mem_filter.1 hitem).2⟩
  obtain ⟨criteria, hcriteria⟩ : Runs (cs.mapM fun item => _subject item ss' (log.filter (isKind "assert".toList))
      ((ss'.filter Scenario.aborted).map Scenario.id)) :=
    runs_mapM_iff.2 fun item hitem => hsubjects item (.inl ⟨cs, hcs, hitem⟩)
  obtain ⟨rows, hrows⟩ : Runs (rowsOf (os.filter isRequired) evidence) := by
    unfold rowsOf
    split
    · exact ⟨none, rfl⟩
    · rename_i hsome
      obtain ⟨item, hitem⟩ := List.exists_mem_of_ne_nil _ fun hnil => hsome (List.isEmpty_iff.2 hnil)
      exact h.evidence ⟨item, howed item hitem⟩
  obtain ⟨obligations, hobligations⟩ : Runs ((os.filter isRequired).mapM (obligationOf ss' (log.filter (isKind "assert".toList))
      ((ss'.filter Scenario.aborted).map Scenario.id) (rows.getD []))) :=
    runs_mapM_iff.2 fun item hitem => runs_obligationOf_iff.2
      ⟨hsubjects item (.inr (howed item hitem)), h.declared item (howed item hitem)⟩
  obtain ⟨errors, herrors⟩ : Runs ((log.filter (isKind "runner_error".toList)).mapM runnerError) := by
    refine runs_mapM_iff.2 fun record hrecord => runs_runnerError_iff.2 ?_
    obtain ⟨hlog, herror⟩ := List.mem_filter.1 hrecord
    exact h.errors record hlog herror
  exact ⟨_, Checks.bind_ok_iff.2 ⟨ss, hss, Checks.bind_ok_iff.2 ⟨ss', hplace, Checks.bind_ok_iff.2 ⟨cs, hcs,
    Checks.bind_ok_iff.2 ⟨os, hos, Checks.bind_ok_iff.2 ⟨criteria, hcriteria, Checks.bind_ok_iff.2 ⟨rows, hrows,
      Checks.bind_ok_iff.2 ⟨obligations, hobligations, Checks.bind_ok_iff.2 ⟨errors, herrors, rfl⟩⟩⟩⟩⟩⟩⟩⟩⟩

/-- **A report accounts for the whole ledger.** -/
theorem accounts_of_report (h : build_report W log context evidence = .ok r) : Accounts W log r := by
  have honce := (fits_of_report h).once
  unfold build_report at h
  obtain ⟨ss, hss, h⟩ := Checks.bind_ok_iff.1 h
  obtain ⟨ss', hplace, h⟩ := Checks.bind_ok_iff.1 h
  obtain ⟨cs, -, h⟩ := Checks.bind_ok_iff.1 h
  obtain ⟨os, -, h⟩ := Checks.bind_ok_iff.1 h
  obtain ⟨criteria, -, h⟩ := Checks.bind_ok_iff.1 h
  obtain ⟨rows, -, h⟩ := Checks.bind_ok_iff.1 h
  obtain ⟨obligations, -, h⟩ := Checks.bind_ok_iff.1 h
  obtain ⟨errors, -, h⟩ := Checks.bind_ok_iff.1 h
  obtain rfl := Except.ok.inj h
  have hids : ss'.map Scenario.id = started log := (ids_of_placed hplace).trans (ids_of_scenarios hss)
  have haccount : ∀ s ∈ ss', _ := fun s hs => scenarios_account hss hplace hs
  refine ⟨hids, fun s hs => (haccount s hs).1, fun s hs => (haccount s hs).2.1, fun s hs => (haccount s hs).2.2.1,
    fun s hs st hst => ((haccount s hs).2.2.2 st hst).1, fun s hs st hst => ((haccount s hs).2.2.2 st hst).2, ?_, ?_⟩
  · rw [honce.dedup, ← hids, List.length_map, ← countP_add_countP_not fun s : Scenario => decide (s.status = "passed".toList)]
    congr 1
    refine List.countP_congr fun s _ => ?_
    simp
  · exact countP_add_countP_not (fun record => isStr "PASS".toList (value record "result".toList)) (log.filter (isKind "assert".toList))

/-- **The report accounts for the whole ledger exactly when the ledger fits.** -/
theorem build_report_iff (W : World) (log : List Fields) (context : Fields) (evidence : Except Raised (Option (List (Text × Row)))) :
    (∃ r, build_report W log context evidence = .ok r ∧ Accounts W log r) ↔ Fits W log context evidence := by
  constructor
  · rintro ⟨r, h, -⟩
    exact fits_of_report h
  · intro h
    obtain ⟨r, hr⟩ := report_of_fits h
    exact ⟨r, hr, accounts_of_report hr⟩

/-- A world in which every number reads as zero and nothing can be placed. -/
def plainWorld : World where
  int _ := .ok 0
  name raw := raw
  placed _ _ _ := .ok none

/-- The start of a scenario, and the start of the same one. -/
def twice : List Fields :=
  [[("kind".toList, .str "scenario_start".toList), ("scenario".toList, .str "s".toList)],
    [("kind".toList, .str "scenario_start".toList), ("scenario".toList, .str "s".toList)]]

/-- **A scenario that is started twice** leaves no report. -/
theorem twice_raises : build_report plainWorld twice [] (.ok none) = .error .key_error ∧
    ¬ ∃ r, build_report plainWorld twice [] (.ok none) = .ok r ∧ Accounts plainWorld twice r := by
  have hraise : build_report plainWorld twice [] (.ok none) = .error .key_error := rfl
  refine ⟨hraise, ?_⟩
  rintro ⟨r, h, -⟩
  rw [hraise] at h
  cases h

end Whole

end Stablemate.QaReport
