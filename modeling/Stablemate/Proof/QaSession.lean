import Stablemate.Model.QaSession

/-!
# What the ledger of a QA session shows of secrets

* `not_infix_redactMarked`, `not_infix_redact`: **a secret stands in redacted text only over a `[REDACTED]` that
  was put in**, and not at all if the two lie apart.
* `blank_redact_value`, `strings_redact_value`: redaction changes the strings of a value, and nothing else of it.
* `Sealed`: all records of a session are redacted. `keeps_perform`: each operation keeps that, whether it raises
  or returns.
* `ledger_sealed`: so it is after every sequence of operations.
-/

namespace Stablemate.QaSession

open Json (Fields)
open Scan (replaced startsAt unmarked mark Apart)
open TwoRun (Keeps outcome)

variable {values : List Text} {v text : Text}

/-! ## Redacted text -/

theorem mem_longestFirst : v ∈ longestFirst values ↔ v ∈ values ∧ v ≠ [] := by
  unfold longestFirst
  rw [List.mem_insertionSort, List.mem_filter, decide_eq_true_iff]

theorem redact_eq (values : List Text) (text : Text) :
    _redact values text = replaced REDACTED ((longestFirst values).map startsAt) text := by
  have hne : ∀ v ∈ longestFirst values, v ≠ [] := fun v hv => (mem_longestFirst.1 hv).2
  unfold _redact
  generalize longestFirst values = vs at hne
  induction vs generalizing text with
  | nil => rfl
  | cons v vs ih =>
    have hreplace : Text.replace v REDACTED text = Scan.sub (startsAt v) REDACTED 0 text :=
      if_neg (hne v List.mem_cons_self)
    rw [List.foldl_cons, ih _ fun u hu => hne u (List.mem_cons_of_mem v hu), hreplace]
    rfl

/-- The marks change nothing. -/
theorem map_fst_redactMarked (values : List Text) (text : Text) :
    (redactMarked values text).map Prod.fst = _redact values text := by
  have hmap : (longestFirst values).map (fun value => unmarked (startsAt value)) =
      ((longestFirst values).map startsAt).map unmarked := by
    rw [List.map_map]
    rfl
  rw [redactMarked, hmap, Scan.map_fst_replaced, Scan.map_fst_mark, redact_eq]

/-- **A secret that stands in redacted text stands over a `[REDACTED]`.** -/
theorem not_infix_redactMarked (hv : v ∈ values) (hne : v ≠ []) (text : Text) : ¬ mark false v <:+: redactMarked values text := by
  have hmark : mark false v ≠ [] := fun h => hne (List.map_eq_nil_iff.1 h)
  have hmem : unmarked (startsAt v) ∈ (longestFirst values).map fun value => unmarked (startsAt value) :=
    List.mem_map_of_mem (mem_longestFirst.2 ⟨hv, hne⟩)
  refine Scan.not_infix_replaced (Scan.apart_mark hne (by decide)) hmark hmem (fun y hp => ?_) (mark false text)
  have hread : v <+: y.map Prod.fst := by
    have hmap := hp.map Prod.fst
    rw [Scan.map_fst_mark] at hmap
    exact hmap
  exact Scan.startsAt_ne_zero hne hread

theorem not_infix_redact (hv : v ∈ values) (hne : v ≠ []) (hapart : Apart v REDACTED) (text : Text) :
    ¬ v <:+: _redact values text := by
  rw [redact_eq]
  have hmem : startsAt v ∈ (longestFirst values).map startsAt := List.mem_map_of_mem (mem_longestFirst.2 ⟨hv, hne⟩)
  exact Scan.not_infix_replaced hapart hne hmem (fun y hp => Scan.startsAt_ne_zero hne hp) text

/-- Text without a secret stays as it is. -/
theorem redact_of_none (h : ∀ v ∈ values, v ≠ [] → ¬ v <:+: text) : _redact values text = text := by
  rw [redact_eq]
  have hall : ∀ v ∈ longestFirst values, ¬ v <:+: text := by
    intro v hv
    obtain ⟨hmem, hne⟩ := mem_longestFirst.1 hv
    exact h v hmem hne
  generalize longestFirst values = vs at hall
  induction vs with
  | nil => rfl
  | cons v vs ih =>
    have hrest := ih fun u hu => hall u (List.mem_cons_of_mem v hu)
    unfold replaced at hrest ⊢
    rw [List.map_cons, List.foldl_cons, Scan.sub_startsAt_of_none (hall v List.mem_cons_self), hrest]

/-! ## Redacted values -/

mutual

/-- The strings of a value, at any depth, without the keys. -/
def strings : Json → List Text
  | .word _ => []
  | .str s => [s]
  | .arr xs => stringsList xs
  | .obj kvs => stringsFields kvs

def stringsList : List Json → List Text
  | [] => []
  | x :: xs => strings x ++ stringsList xs

def stringsFields : Fields → List Text
  | [] => []
  | (_, x) :: kvs => strings x ++ stringsFields kvs

end

mutual

/-- A value without its strings: its keys, its lists and everything else. -/
def blank : Json → Json
  | .word w => .word w
  | .str _ => .str []
  | .arr xs => .arr (blankList xs)
  | .obj kvs => .obj (blankFields kvs)

def blankList : List Json → List Json
  | [] => []
  | x :: xs => blank x :: blankList xs

def blankFields : Fields → Fields
  | [] => []
  | (k, x) :: kvs => (k, blank x) :: blankFields kvs

end

mutual

theorem blank_redact_value (values : List Text) : ∀ x : Json, blank (_redact_value values x) = blank x
  | .word _ => rfl
  | .str _ => rfl
  | .arr xs => by
    rw [_redact_value, blank, blank_redactList values xs, blank]
  | .obj kvs => by
    rw [_redact_value, blank, blank_redactFields values kvs, blank]

theorem blank_redactList (values : List Text) : ∀ xs : List Json, blankList (redactList values xs) = blankList xs
  | [] => rfl
  | x :: xs => by
    rw [redactList, blankList, blank_redact_value values x, blank_redactList values xs, blankList]

theorem blank_redactFields (values : List Text) : ∀ kvs : Fields, blankFields (redactFields values kvs) = blankFields kvs
  | [] => rfl
  | (k, x) :: kvs => by
    rw [redactFields, blankFields, blank_redact_value values x, blank_redactFields values kvs, blankFields]

end

mutual

theorem strings_redact_value (values : List Text) : ∀ x : Json, strings (_redact_value values x) = (strings x).map (_redact values)
  | .word _ => rfl
  | .str _ => rfl
  | .arr xs => strings_redactList values xs
  | .obj kvs => strings_redactFields values kvs

theorem strings_redactList (values : List Text) : ∀ xs : List Json,
    stringsList (redactList values xs) = (stringsList xs).map (_redact values)
  | [] => rfl
  | x :: xs => by
    rw [redactList, stringsList, strings_redact_value values x, strings_redactList values xs, stringsList, List.map_append]

theorem strings_redactFields (values : List Text) : ∀ kvs : Fields,
    stringsFields (redactFields values kvs) = (stringsFields kvs).map (_redact values)
  | [] => rfl
  | (k, x) :: kvs => by
    rw [redactFields, stringsFields, strings_redact_value values x, strings_redactFields values kvs, stringsFields,
      List.map_append]

end

/-! ## What every operation keeps -/

/-- The secrets are `values`, and all that the session has written is redacted. -/
structure Sealed (values : List Text) (s : Session) : Prop where
  values_eq : s.values = values
  ledger : ∀ record ∈ s.ledger, ∃ built, record = redactFields values built
  asserts : ∀ file ∈ s.asserts, ∃ built, file.2 = redactFields values built
  outputs : ∀ file ∈ s.outputs, ∃ output, file.2 = _redact values output

theorem Sealed.create (run_id story : Text) (env secret_values : List (Text × Text)) :
    Sealed (secret_values.map Prod.snd) (Session.create run_id story env secret_values) where
  values_eq := rfl
  ledger := fun _ h => absurd h List.not_mem_nil
  asserts := fun _ h => absurd h List.not_mem_nil
  outputs := fun _ h => absurd h List.not_mem_nil

variable (w : World) {α : Type}

theorem keeps_append (record : Fields) : Keeps (Sealed values) (_append w record) := by
  unfold _append
  refine Keeps.read fun s hs => Keeps.bind (Keeps.modify fun t ht => ?_) fun _ => Keeps.pure _
  refine ⟨ht.values_eq, fun line hline => ?_, ht.asserts, ht.outputs⟩
  rcases List.mem_append.1 hline with hold | hnew
  · exact ht.ledger line hold
  · rw [List.mem_singleton.1 hnew, hs.values_eq]
    exact ⟨_, rfl⟩

theorem keeps_register_artifact (found : Except Text Found) (kind scenario target : Text) (metadata : Fields) :
    Keeps (Sealed values) (register_artifact w found kind scenario target metadata) := by
  unfold register_artifact
  refine Keeps.bind (Keeps.lift found) fun found => ?_
  exact Keeps.bind (keeps_append w _) fun _ => Keeps.pure _

/-- A change of what is no record. -/
theorem keeps_modify {f : Session → Session} (hf : ∀ s, (f s).secret_values = s.secret_values ∧ (f s).ledger = s.ledger ∧
    (f s).asserts = s.asserts ∧ (f s).outputs = s.outputs) : Keeps (Sealed values) (modify f : Call Unit) := by
  refine Keeps.modify fun s hs => ?_
  obtain ⟨hsecret, hledger, hasserts, houtputs⟩ := hf s
  refine ⟨?_, ?_, ?_, ?_⟩
  · rw [← hs.values_eq, Session.values, hsecret, Session.values]
  · rw [hledger]
    exact hs.ledger
  · rw [hasserts]
    exact hs.asserts
  · rw [houtputs]
    exact hs.outputs

theorem keeps_start_daemon (name : Text) (argv : List Text) (pid : Except Text ℤ) (ready_check : Json) (ready : Except Text Unit) :
    Keeps (Sealed values) (start_daemon w name argv pid ready_check ready) := by
  unfold start_daemon
  split
  · exact Keeps.raise _
  · refine Keeps.bind (Keeps.lift pid) fun pid => ?_
    refine Keeps.bind (keeps_modify fun s => ⟨rfl, rfl, rfl, rfl⟩) fun _ => Keeps.read fun s _ => ?_
    refine Keeps.bind (keeps_append w _) fun _ => ?_
    exact Keeps.bind (Keeps.lift _) fun _ => Keeps.pure _

theorem keeps_stop_daemon (name reason : Text) : Keeps (Sealed values) (stop_daemon w name reason) := by
  unfold stop_daemon
  refine Keeps.read fun s _ => ?_
  split
  · exact Keeps.raise _
  · refine Keeps.bind (keeps_modify fun s => ⟨rfl, rfl, rfl, rfl⟩) fun _ => ?_
    exact Keeps.bind (keeps_append w _) fun _ => Keeps.pure _

theorem keeps_close (status : Text) : Keeps (Sealed values) (close w status) := by
  unfold close stop_all_daemons
  refine Keeps.bind ?_ fun _ => Keeps.read fun s _ => keeps_append w _
  refine Keeps.read fun s _ => Keeps.bind ?_ fun _ => keeps_modify fun s => ⟨rfl, rfl, rfl, rfl⟩
  exact Keeps.forM (fun d => Keeps.map (keeps_stop_daemon w d.name []) _) s.daemons

theorem keeps_keepOutput {stdout_safe : Text} (hsafe : ∃ output, stdout_safe = _redact values output) (out_kept : Bool)
    (scenario driver : Text) (out : Option OutFile) : Keeps (Sealed values) (keepOutput w stdout_safe out_kept scenario driver out) := by
  cases out with
  | none => exact Keeps.pure _
  | some out =>
    refine Keeps.bind (Keeps.modify fun s hs => ?_) fun _ => ?_
    · refine ⟨hs.values_eq, hs.ledger, hs.asserts, fun file hfile => ?_⟩
      cases out_kept with
      | true => exact hs.outputs file hfile
      | false =>
        rcases Dict.mem_set hfile with rfl | hold
        · exact hsafe
        · exact hs.outputs file hold
    · exact Keeps.bind (keeps_register_artifact w _ _ _ _ _) fun _ => Keeps.pure _

theorem keeps_run_step (step : Step) : Keeps (Sealed values) (run_step w step) := by
  unfold run_step
  split
  · exact Keeps.raise _
  · refine Keeps.read fun s hs => Keeps.bind (Keeps.lift _) fun ran => Keeps.bind (Keeps.lift _) fun out => ?_
    refine Keeps.bind (keeps_keepOutput w ⟨_, by rw [hs.values_eq]⟩ _ _ _ _) fun _ => ?_
    refine Keeps.bind (keeps_modify fun s => ⟨rfl, rfl, rfl, rfl⟩) fun _ => ?_
    refine Keeps.bind (keeps_append w _) fun record => ?_
    split
    · exact Keeps.raise _
    · exact Keeps.pure _

theorem keeps_run_assert (check : Assert) : Keeps (Sealed values) (run_assert w check) := by
  unfold run_assert
  refine Keeps.bind (Keeps.lift _) fun checked => Keeps.bind (Keeps.modify fun s hs => ?_) fun _ => ?_
  · refine ⟨hs.values_eq, hs.ledger, fun file hfile => ?_, hs.outputs⟩
    rcases Dict.mem_set hfile with rfl | hold
    · exact ⟨_, by rw [hs.values_eq]⟩
    · exact hs.asserts file hold
  refine Keeps.bind (keeps_register_artifact w _ _ _ _ _) fun _ => ?_
  refine Keeps.bind (keeps_modify fun s => ⟨rfl, rfl, rfl, rfl⟩) fun _ => ?_
  exact Keeps.bind (keeps_append w _) fun record => Keeps.pure _

/-- **One operation**, whether it raises or returns. -/
theorem keeps_perform (op : Op) : Keeps (Sealed values) (perform w op) := by
  cases op with
  | append record => exact Keeps.map (keeps_append w record) _
  | write_session_start => exact Keeps.map (Keeps.read fun s _ => keeps_append w _) _
  | register_artifact found kind scenario target metadata => exact Keeps.map (keeps_register_artifact w _ _ _ _ _) _
  | start_daemon name argv pid ready_check ready => exact Keeps.map (keeps_start_daemon w _ _ _ _ _) _
  | stop_daemon name reason => exact Keeps.map (keeps_stop_daemon w _ _) _
  | run_step step => exact Keeps.map (keeps_run_step w step) _
  | run_assert check => exact Keeps.map (keeps_run_assert w check) _
  | close status => exact Keeps.map (keeps_close w status) _

/-- **Any operations.** -/
theorem Sealed.run {s : Session} (h : Sealed values s) (ops : List Op) : Sealed values (run w ops s) := by
  unfold QaSession.run
  induction ops generalizing s with
  | nil => exact h
  | cons op ops ih => exact ih (keeps_perform w op s h)

/-! ## What the records show -/

/-- A record that redaction made, and what its strings show of the secrets. -/
structure Shown (values : List Text) (record : Fields) : Prop where
  built : ∃ built, record = redactFields values built
  /-- A secret stands only over what was put in. -/
  covered : ∀ t ∈ stringsFields record, ∃ text, (redactMarked values text).map Prod.fst = t ∧
    ∀ v ∈ values, v ≠ [] → ¬ mark false v <:+: redactMarked values text
  apart : ∀ t ∈ stringsFields record, ∀ v ∈ values, v ≠ [] → Apart v REDACTED → ¬ v <:+: t

theorem shown_redactFields (values : List Text) (built : Fields) : Shown values (redactFields values built) := by
  have hstrings : ∀ t ∈ stringsFields (redactFields values built), ∃ text, _redact values text = t := by
    intro t ht
    rw [strings_redactFields] at ht
    obtain ⟨text, -, heq⟩ := List.mem_map.1 ht
    exact ⟨text, heq⟩
  refine ⟨⟨built, rfl⟩, fun t ht => ?_, fun t ht v hv hne hapart => ?_⟩
  · obtain ⟨text, rfl⟩ := hstrings t ht
    exact ⟨text, map_fst_redactMarked values text, fun v hv hne => not_infix_redactMarked hv hne text⟩
  · obtain ⟨text, rfl⟩ := hstrings t ht
    exact not_infix_redact hv hne hapart text

/-- A world in which nothing is told but the time. -/
def plainWorld : World where
  clock n := ("2026-01-01T00:00:00Z".toList, n)
  qa_path parts := "/".toList.intercalate parts
  digits _ := none
  header_status _ := none
  extract _ _ := none
  kill _ _ := 0

end Stablemate.QaSession
