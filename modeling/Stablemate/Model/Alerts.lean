import Mathlib.Data.Char
import Mathlib.Data.List.Lex
import Mathlib.Data.List.Sort
import Mathlib.Data.Rat.Defs
import Mathlib.Algebra.Order.Field.Rat
import Mathlib.Logic.Function.Basic
import Stablemate.Lib.Run
import Stablemate.Model.Text

/-!
# Alert rules over telemetry (`groom/alerts.py`, `groom/churn.py`)

groom folds the metric points and spans of its runs into one record a run, and pages the
operator when a rule fires. The fold here follows `ingest_metrics`, `ingest_spans` and
`check_time_rules` over all of that record that they read.

Numbers are rationals, and the values of attributes are texts, as the producer sends them.
-/

namespace Stablemate.Alerts

/-! ## Records -/

/-- The attributes of a point or a span, but the events of a span. -/
abbrev Attrs := List (Text × Text)

/-- `str(attrs.get(key) or "")`. -/
def get (key : String) (attrs : Attrs) : Text := (attrs.lookup key.toList).getD []

/-- The identity of an OTel series: the attributes in the order of their keys. -/
abbrev Series := List (Text × Text)

/-- What a point and a span say of the process that they come from. -/
structure Resource where
  run_id : Text
  workflow : Text
  repo : Text
  branch : Text
  run_dir : Text
  workspace : Text
  pid : Option ℤ
  resume_generation : Option ℤ

inductive Metric
  | runHeartbeat
  | turnHeartbeat
  | capWaitHeartbeat
  | gas
  | gasRefuels
  | nodeActive
  | nodeElapsed
  | waitActive
  | waitElapsed
  | turnActive
  | turnElapsed
  | turnIdle
  | other
deriving DecidableEq

/-- `LIVENESS_METRICS`. -/
def Metric.liveness : Metric → Bool
  | .runHeartbeat | .turnHeartbeat | .capWaitHeartbeat => true
  | _ => false

/-- `ELAPSED_GAUGES`. -/
def Metric.elapsedGauge : Metric → Bool
  | .nodeElapsed | .turnElapsed | .turnIdle | .waitElapsed => true
  | _ => false

structure Point extends Resource where
  name : Metric
  ts : ℚ
  value : ℚ
  attrs : Attrs

structure Span extends Resource where
  node : Text
  name : Text
  end_ts : ℚ
  attrs : Attrs
  /-- The names of the events in the attributes. -/
  events : List Text

inductive Rule
  | ended
  | watchdog
  | gaveUp
  | churn
  | blocked
  | stall
  | waiting
  | stuck
deriving DecidableEq

structure Alert where
  run_id : Text
  rule : Rule
  message : Text

/-- The limits that the environment sets. -/
structure Config where
  stall_after_s : ℚ
  stuck_after_s : ℚ
  wait_after_s : ℚ
  giveup_nodes : List Text
  repeats : ℕ

/-- `RunTelemetry`. -/
structure RunTelemetry where
  run_id : Text
  workflow : Text
  repo : Text
  branch : Text
  run_dir : Text
  workspace : Text
  pid : Option ℤ
  activity : Text
  backend : Text
  model : Text
  first_seen_ts : ℚ
  last_span_ts : ℚ
  last_heartbeat_ts : ℚ
  last_beat_ts : ℚ
  current_node : Text
  node_elapsed_s : ℚ
  turn_idle_s : ℚ
  turn_active : Option Bool
  turn_elapsed_s : ℚ
  wait_kind : Text
  wait_elapsed_s : ℚ
  wait_series : Option Series
  closed_wait_series : List Series
  wait_gate_path : Text
  wait_gate_question : Text
  last_telemetry_ts : ℚ
  last_session : Option (ℤ × ℤ)
  gas : Option ℚ
  terminal : Text
  terminal_ts : ℚ
  error_kind : Text
  error_class : Text
  worktree : Text
  node_counts : Text → ℕ
  node_labels : Text → Option Series
  fired : List Rule
  gauge_ts : Metric → Option ℚ

/-- `RunTelemetry(run_id=run_id, first_seen_ts=now)`. -/
def RunTelemetry.fresh (run_id : Text) (now : ℚ) : RunTelemetry where
  run_id := run_id
  workflow := []
  repo := []
  branch := []
  run_dir := []
  workspace := []
  pid := none
  activity := []
  backend := []
  model := []
  first_seen_ts := now
  last_span_ts := 0
  last_heartbeat_ts := 0
  last_beat_ts := 0
  current_node := []
  node_elapsed_s := 0
  turn_idle_s := 0
  turn_active := none
  turn_elapsed_s := 0
  wait_kind := []
  wait_elapsed_s := 0
  wait_series := none
  closed_wait_series := []
  wait_gate_path := []
  wait_gate_question := []
  last_telemetry_ts := 0
  last_session := none
  gas := none
  terminal := []
  terminal_ts := 0
  error_kind := []
  error_class := []
  worktree := []
  node_counts := fun _ => 0
  node_labels := fun _ => none
  fired := []
  gauge_ts := fun _ => none

/-! ## Rules -/

/-- `a or b`. -/
def orElse (a b : Text) : Text := if a = [] then b else a

/-- `f"{run.workflow or 'run'} {run.run_id}"`. -/
def RunTelemetry.label (run : RunTelemetry) : Text := orElse run.workflow "run".toList ++ ' ' :: run.run_id

def within (intro : String) (node : Text) : Text := if node = [] then [] else intro.toList ++ node ++ ['\'']

/-- `fired.discard(rule)`. -/
def RunTelemetry.discard (rule : Rule) (run : RunTelemetry) : RunTelemetry :=
  { run with fired := run.fired.filter (· ≠ rule) }

/-- `_fire`. -/
def fire (rule : Rule) (message : Text) (run : RunTelemetry) : RunTelemetry × List Alert :=
  if rule ∈ run.fired then (run, [])
  else ({ run with fired := rule :: run.fired }, [⟨run.run_id, rule, message⟩])

/-- `_clear_stale_terminal`. -/
def clearStaleTerminal (ts : ℚ) (run : RunTelemetry) : RunTelemetry :=
  if run.last_session = none ∧ run.terminal ≠ [] ∧ run.terminal_ts < ts then
    { run with terminal := [], terminal_ts := 0, error_kind := [], error_class := [], worktree := [], fired := [] }
  else run

/-- `_close_wait`. -/
def closeWait (run : RunTelemetry) : RunTelemetry :=
  let closed := run.wait_series.toList ++ run.closed_wait_series
  let run := { run with
    closed_wait_series := closed, wait_kind := [], wait_series := none, wait_elapsed_s := 0,
    wait_gate_path := [], wait_gate_question := [] }
  (run.discard .blocked).discard .waiting

/-- `_accept_session`: `none` if the record is a delayed one of an older session. -/
def acceptSession (record : Resource) (run : RunTelemetry) : Option RunTelemetry :=
  match record.resume_generation with
  | none => some run
  | some generation =>
    let session := (record.pid.getD 0, generation)
    if run.last_session = some session then some run
    else if run.last_session.any fun last => generation ≤ last.2 then none
    else some { run with
      last_session := some session, current_node := [], activity := [], node_elapsed_s := 0, turn_active := none,
      turn_idle_s := 0, turn_elapsed_s := 0, wait_kind := [], wait_elapsed_s := 0, wait_gate_path := [],
      wait_gate_question := [], wait_series := none, closed_wait_series := [], terminal := [], terminal_ts := 0,
      error_kind := [], error_class := [], worktree := [], last_heartbeat_ts := 0, last_beat_ts := 0,
      gauge_ts := fun _ => none, backend := [], model := [], gas := none, fired := [] }

/-- What both folds do first with a record that is accepted. -/
def identify (record : Resource) (now : ℚ) (run : RunTelemetry) : RunTelemetry :=
  let run := run.discard .stall
  { run with
    workflow := orElse record.workflow run.workflow
    repo := orElse record.repo run.repo
    branch := orElse record.branch run.branch
    run_dir := orElse record.run_dir run.run_dir
    workspace := orElse record.workspace run.workspace
    pid := record.pid.orElse fun _ => run.pid
    last_telemetry_ts := now }

/-- `_activity`. -/
def activityOf (attrs : Attrs) : Text := orElse (get "activity" attrs) (get "wf.activity" attrs)

def noteActivity (attrs : Attrs) (run : RunTelemetry) : RunTelemetry :=
  { run with activity := orElse (activityOf attrs) run.activity }

/-! ## Metric points -/

/-- `_wait_series`. -/
def waitSeries (attrs : Attrs) : Series := attrs.insertionSort fun a b => a.1 ≤ b.1

/-- `_wait_series_node`. -/
def waitSeriesNode (series : Option Series) : Text := series.elim [] (get "node")

/-- The page for an operator wait. -/
def fireBlocked (run : RunTelemetry) : RunTelemetry × List Alert :=
  fire .blocked (run.label ++ ": parked on an operator gate".toList ++ within " in '" run.current_node ++
    " — it will not move until someone answers it".toList) run

/-- A wait of this series is the current one. -/
def enterWait (kind : Text) (attrs : Attrs) (path question : Text) (run : RunTelemetry) :
    RunTelemetry × List Alert :=
  let run := { run with
    wait_series := some (waitSeries attrs), wait_kind := kind, wait_gate_path := path, wait_gate_question := question }
  let run := run.discard .stuck
  if kind = "operator".toList then fireBlocked run else (run, [])

/-- Waits of this kind have a gate. -/
def gated (kind : Text) : Bool := kind = "operator".toList || kind = "machine".toList

/-- `workhorse.wait.active`. -/
def waitActive (value : ℚ) (attrs : Attrs) (run : RunTelemetry) : RunTelemetry × List Alert :=
  if 1 ≤ value then
    let kind := orElse (get "wait_kind" attrs) "unknown".toList
    if gated kind then enterWait kind attrs (get "gate_path" attrs) (get "gate_question" attrs) run
    else enterWait kind attrs [] [] run
  else (closeWait run, [])

/-- `workhorse.wait.elapsed_s`. -/
def waitElapsed (value : ℚ) (attrs : Attrs) (run : RunTelemetry) : RunTelemetry × List Alert :=
  let kind := get "wait_kind" attrs
  let entered :=
    if run.wait_kind = [] ∧ kind ≠ [] then
      if gated kind then enterWait kind attrs (get "gate_path" attrs) (get "gate_question" attrs) run
      else enterWait kind attrs run.wait_gate_path run.wait_gate_question run
    else (run, [])
  (if entered.1.wait_kind = [] then entered.1 else { entered.1 with wait_elapsed_s := value }, entered.2)

/-- `workhorse.node.active`. -/
def nodeActive (value : ℚ) (node : Text) (run : RunTelemetry) : RunTelemetry :=
  if 1 ≤ value then
    let run :=
      if run.current_node ≠ node then
        let run := run.discard .stuck
        let waiting := waitSeriesNode run.wait_series
        if run.wait_kind ≠ [] ∧ waiting ≠ [] ∧ waiting ≠ node then closeWait run else run
      else run
    { run with current_node := node }
  else if run.current_node = node then
    let run := { run with current_node := [], node_elapsed_s := 0 }
    run.discard .stuck
  else run

/-- The point says nothing of the current wait: it is of another series than that, or of one
that is closed. -/
def stale (p : Point) (run : RunTelemetry) : Bool :=
  let named := get "wait_kind" p.attrs ≠ []
  (run.wait_series.any fun series => named && waitSeries p.attrs ≠ series &&
      (p.name = .waitElapsed || p.name = .waitActive && p.value < 1)) ||
    (p.name = .waitActive && 1 ≤ p.value || p.name = .waitElapsed) && named &&
      waitSeries p.attrs ∈ run.closed_wait_series

/-- The rule of the point's metric. -/
def applyMetric (cfg : Config) (now : ℚ) (p : Point) (run : RunTelemetry) : RunTelemetry × List Alert :=
  let node := get "node" p.attrs
  match p.name with
  | .runHeartbeat =>
    let run := { run with last_heartbeat_ts := now, last_beat_ts := max run.last_beat_ts p.ts }
    ({ run with current_node := orElse node run.current_node }, [])
  | .turnHeartbeat | .capWaitHeartbeat =>
    ({ run with last_heartbeat_ts := now, last_beat_ts := max run.last_beat_ts p.ts }, [])
  | .gas => ({ run with gas := some p.value }, [])
  | .gasRefuels =>
    let run := { run with node_counts := fun _ => 0 }
    (run.discard .churn, [])
  | .nodeActive => (nodeActive p.value node run, [])
  | .nodeElapsed =>
    (if run.current_node = [] ∨ run.current_node = node then { run with node_elapsed_s := p.value } else run, [])
  | .waitActive => waitActive p.value p.attrs run
  | .waitElapsed => waitElapsed p.value p.attrs run
  | .turnActive =>
    let run := { run with turn_active := some (1 ≤ p.value) }
    if 1 ≤ p.value then (run, [])
    else
      let run := { run with turn_idle_s := 0, turn_elapsed_s := 0 }
      (run.discard .stuck, [])
  | .turnElapsed => (if run.turn_active = some false then run else { run with turn_elapsed_s := p.value }, [])
  | .turnIdle =>
    if run.turn_active = some false then (run, [])
    else
      let run := { run with turn_idle_s := p.value }
      (if p.value ≤ cfg.stuck_after_s then run.discard .stuck else run, [])
  | .other => (run, [])

/-- The body of the loop of `ingest_metrics`. -/
def ingestPoint (cfg : Config) (now : ℚ) (p : Point) (run : RunTelemetry) : RunTelemetry × List Alert :=
  match acceptSession p.toResource run with
  | none => (run, [])
  | some run =>
    let run := clearStaleTerminal p.ts (identify p.toResource now run)
    if stale p run then (run, [])
    else
      let gauges := if p.name.elapsedGauge then Function.update run.gauge_ts p.name (some now) else run.gauge_ts
      applyMetric cfg now p (noteActivity p.attrs { run with gauge_ts := gauges })

/-! ## Spans -/

/-- `CLEAN_TERMINALS`. -/
def cleanTerminals : List Text := ["terminal".toList, "ended".toList]

/-- `_worktree_line`. -/
def worktreeLine (attrs : Attrs) : Text :=
  let action := get "workhorse.worktree" attrs
  let reason := get "workhorse.worktree_reason" attrs
  if action = [] then []
  else if reason = [] then "worktree ".toList ++ action
  else "worktree ".toList ++ action ++ ": ".toList ++ reason

/-- `_ended_message`. -/
def endedMessage (run : RunTelemetry) (label : Text) (attrs : Attrs) : Text :=
  let worktree := if run.worktree = [] then [] else "; ".toList ++ run.worktree
  if run.terminal ∈ cleanTerminals then
    label ++ ": finished (".toList ++ run.terminal ++ ") — nothing is running for it now".toList ++ worktree
  else
    let detail := get "error.class" attrs
    let kind := get "error.kind" attrs
    let because :=
      if detail = [] ∧ kind = [] then []
      else " [".toList ++ ['/'].intercalate ([kind, detail].filter (· ≠ [])) ++ [']']
    label ++ ": ended '".toList ++ run.terminal ++ ['\''] ++ because ++
      " — the run is over and did not get there on its own terms".toList ++
      (if run.current_node = [] then [] else " (last in '".toList ++ run.current_node ++ "')".toList) ++ worktree

/-- `churn.label_signature`. -/
def labelSignature (attrs : Attrs) : Series :=
  (attrs.filter fun kv => !("workhorse.".toList).isPrefixOf kv.1 && kv.1 ≠ "status_message".toList &&
    kv.1 ≠ "events".toList).insertionSort fun a b => a.1 ≤ b.1

/-- `churn.counts_as_visit`. -/
def countsAsVisit (s : Span) : Bool := s.node ≠ [] && s.name = s.node && get "workhorse.cut" s.attrs = []

/-- `churn.observe`: the tallies, how often the visit repeats, and whether the work moved on. -/
def observe (node : Text) (attrs : Attrs) (run : RunTelemetry) : RunTelemetry × ℕ × Bool :=
  let signature := labelSignature attrs
  if run.node_labels node = some signature then
    let count := run.node_counts node + 1
    ({ run with node_counts := Function.update run.node_counts node count }, count, false)
  else
    ({ run with
        node_labels := Function.update run.node_labels node (some signature)
        node_counts := Function.update run.node_counts node 1 }, 1, true)

/-- A rule that fires if `p` holds, after the alerts so far. -/
def fireIf (p : Prop) [Decidable p] (rule : Rule) (message : Text) (x : RunTelemetry × List Alert) :
    RunTelemetry × List Alert :=
  if p then
    let y := fire rule message x.1
    (y.1, x.2 ++ y.2)
  else x

/-- The visit that the span of a node ends. -/
def visit (cfg : Config) (s : Span) (label : Text) (x : RunTelemetry × List Alert) : RunTelemetry × List Alert :=
  if countsAsVisit s then
    let (run, repeated, moved) := observe s.node s.attrs x.1
    let run := if moved then run.discard .churn else run
    fireIf (cfg.repeats ≤ repeated) .churn (label ++ ": node '".toList ++ s.node ++ "' completed ".toList ++
      (toString repeated).toList ++ "× on the same work — likely a loop whose exit condition never trips".toList)
      (run, x.2)
  else x

/-- The body of the loop of `ingest_spans`. -/
def ingestSpan (cfg : Config) (now : ℚ) (s : Span) (run : RunTelemetry) : RunTelemetry × List Alert :=
  match acceptSession s.toResource run with
  | none => (run, [])
  | some run =>
    let run := { identify s.toResource now run with last_span_ts := now }
    let run := noteActivity s.attrs (clearStaleTerminal s.end_ts run)
    let label := run.label
    let run :=
      if s.name = "agent_turn".toList then
        { run with backend := orElse (get "backend" s.attrs) run.backend
                   model := orElse (get "model" s.attrs) run.model }
      else run
    if ("run:".toList).isPrefixOf s.name then
      let run := { run with
        terminal := orElse (get "workhorse.terminal" s.attrs) "ended".toList
        terminal_ts := if s.end_ts = 0 then now else s.end_ts
        error_kind := get "error.kind" s.attrs
        error_class := get "error.class" s.attrs
        worktree := worktreeLine s.attrs }
      fire .ended (endedMessage run label s.attrs) run
    else
      visit cfg s label
        (fireIf (s.node ∈ cfg.giveup_nodes) .gaveUp
          (label ++ ": gave up at node '".toList ++ s.node ++
            "' — a unit was skipped after exhausting its retries".toList)
          (fireIf ("watchdog_kill".toList ∈ s.events) .watchdog
            (label ++ ": watchdog SIGKILLed a wedged turn at node '".toList ++ s.node ++ ['\'']) (run, [])))

/-! ## The time rules -/

/-- `int(seconds / 60)`. -/
def minutes (seconds : ℚ) : Text :=
  (toString (if seconds < 0 then (seconds / 60).ceil else (seconds / 60).floor)).toList

/-- The body of the loop of `check_time_rules`. -/
def checkRun (cfg : Config) (now : ℚ) (run : RunTelemetry) : RunTelemetry × List Alert :=
  let label := run.label
  let silence := now - max (max run.last_span_ts run.last_heartbeat_ts) run.first_seen_ts
  let node := run.current_node
  if run.terminal ≠ [] then (run, [])
  else if cfg.stall_after_s < silence then
    fire .stall (label ++ ": nothing emitted for ".toList ++ minutes silence ++
      (" min — no span and no heartbeat. A live workhorse beats every few seconds, so the process is gone, " ++
        "not merely busy").toList ++
      (if node = [] then [] else " (last seen in '".toList ++ node ++ "')".toList)) run
  else if run.wait_kind ≠ [] then
    if run.wait_kind = "operator".toList ∧ cfg.wait_after_s < run.wait_elapsed_s then
      fire .waiting (label ++ ": still parked on an operator gate".toList ++ within " in '" node ++
        " after ".toList ++ minutes run.wait_elapsed_s ++
        " min — nothing is running for it, and nothing will until it is answered".toList) run
    else (run, [])
  else if run.turn_active = some true ∧ cfg.stuck_after_s < run.turn_idle_s then
    fire .stuck (label ++ ": agent turn in '".toList ++ node ++ "' has been silent for ".toList ++
      minutes run.turn_idle_s ++ " min while the process keeps heartbeating".toList) run
  else if run.turn_active ≠ some true ∧ node ≠ [] ∧ cfg.stuck_after_s < run.node_elapsed_s then
    fire .stuck (label ++ ": alive (heartbeating) but node '".toList ++ node ++ "' has been open ".toList ++
      minutes run.node_elapsed_s ++ " min — the run is not hung, it is not progressing".toList) run
  else (run, [])

/-! ## All runs -/

/-- `state.RUNS`, in the order in which the runs were first seen. -/
abbrev Runs := List RunTelemetry

def find (id : Text) (runs : Runs) : Option RunTelemetry := runs.find? fun run => run.run_id = id

/-- `f` on the run that `_run` gives. -/
def onRun (id : Text) (now : ℚ) (f : RunTelemetry → RunTelemetry × List Alert) (runs : Runs) : Runs × List Alert :=
  match find id runs with
  | some run => (runs.map fun r => if r.run_id = id then (f run).1 else r, (f run).2)
  | none =>
    let y := f (.fresh id now)
    (runs ++ [y.1], y.2)

/-- A loop over records that appends to `alerts`. -/
def foldAlerts {α : Type} (f : α → Runs → Runs × List Alert) : List α → Runs → Runs × List Alert
  | [], runs => (runs, [])
  | a :: as, runs =>
    let y := f a runs
    let z := foldAlerts f as y.1
    (z.1, y.2 ++ z.2)

/-- `ingest_metrics`. -/
def ingestMetrics (cfg : Config) (points : List Point) (now : ℚ) : Runs → Runs × List Alert :=
  foldAlerts (fun p runs => if p.run_id = [] then (runs, []) else onRun p.run_id now (ingestPoint cfg now p) runs) points

/-- `ingest_spans`. -/
def ingestSpans (cfg : Config) (spans : List Span) (now : ℚ) : Runs → Runs × List Alert :=
  foldAlerts (fun s runs => if s.run_id = [] then (runs, []) else onRun s.run_id now (ingestSpan cfg now s) runs) spans

/-- `check_time_rules`. -/
def checkTimeRules (cfg : Config) (now : ℚ) (runs : Runs) : Runs × List Alert :=
  let checked := runs.map (checkRun cfg now)
  (checked.map Prod.fst, checked.flatMap Prod.snd)

/-- The calls that fold telemetry. -/
inductive Call
  | metrics (points : List Point) (now : ℚ)
  | spans (spans : List Span) (now : ℚ)
  | tick (now : ℚ)

def call (cfg : Config) : Call → Runs → Runs × List Alert
  | .metrics points now => ingestMetrics cfg points now
  | .spans spans now => ingestSpans cfg spans now
  | .tick now => checkTimeRules cfg now

/-- What a sequence of calls does. -/
def calls (cfg : Config) : List Call → Runs → Runs × List Alert := foldAlerts (call cfg)

/-! ## What one run is to show -/

/-- A record of the run, or a tick of the time rules. -/
inductive Event
  | point (now : ℚ) (p : Point)
  | span (now : ℚ) (s : Span)
  | tick (now : ℚ)

def Event.now : Event → ℚ
  | .point now _ | .span now _ | .tick now => now

/-- The record and the ticks that a call has for a run. -/
def eventsOf (id : Text) : Call → List Event
  | .metrics points now => (points.filter fun p => p.run_id = id).map (.point now)
  | .spans spans now => (spans.filter fun s => s.run_id = id).map (.span now)
  | .tick now => [.tick now]

/-- What an event does to the run. -/
def ingest (cfg : Config) : Event → RunTelemetry → RunTelemetry × List Alert
  | .point now p => ingestPoint cfg now p
  | .span now s => ingestSpan cfg now s
  | .tick now => checkRun cfg now

/-- The session of a record, `none` where the producer numbers no sessions. -/
def Resource.session (r : Resource) : Option (ℤ × ℤ) := r.resume_generation.map fun g => (r.pid.getD 0, g)

def Event.resource? : Event → Option Resource
  | .point _ p => some p.toResource
  | .span _ s => some s.toResource
  | .tick _ => none

/-- A record of the session, or a tick. -/
def OfSession (session : Option (ℤ × ℤ)) (e : Event) : Prop := ∀ r, e.resource? = some r → r.session = session

instance (session : Option (ℤ × ℤ)) (e : Event) : Decidable (OfSession session e) :=
  decidable_of_iff (e.resource?.all fun r => r.session = session) (by
    rw [OfSession]
    cases e.resource? <;> simp)

/-- The series of a point of a wait. -/
def Event.series? : Event → Option Series
  | .point _ p => if p.name = .waitActive ∨ p.name = .waitElapsed then some (waitSeries p.attrs) else none
  | _ => none

/-- The series that the point closes. -/
def Event.closes? : Event → Option Series
  | .point _ p => if p.name = .waitActive ∧ p.value < 1 then some (waitSeries p.attrs) else none
  | _ => none

/-- A run and what it has shown: the series that were its wait or were closed, those that were
its wait as an operator wait, and the wait at each of its `BLOCKED` pages. -/
structure Watched where
  run : Option RunTelemetry
  past : List Series
  operators : List Series
  pages : List (Option Series)

/-- No record of the run has come. -/
def unseen : Watched := ⟨none, [], [], []⟩

/-- The run goes on, from a fresh one at its first record. -/
def watch (cfg : Config) (id : Text) (w : Watched) (e : Event) : Watched :=
  if w.run.isNone ∧ e.resource?.isNone then w
  else
    let y := ingest cfg e (w.run.getD (.fresh id e.now))
    { run := some y.1
      past := e.closes?.toList ++ y.1.wait_series.toList ++ w.past
      operators := (if y.1.wait_kind = "operator".toList then y.1.wait_series.toList else []) ++ w.operators
      pages := (y.2.filter fun a => a.rule = .blocked).map (fun _ => y.1.wait_series) ++ w.pages }

def step (cfg : Config) (id : Text) (w : Watched) (e : Event) : Option Watched := some (watch cfg id w e)

/-- **Every operator wait is paged once and does not come back.** -/
structure Sound (cfg : Config) (session : Option (ℤ × ℤ)) (w : Watched) : Prop where
  paged : ∀ series ∈ w.operators, w.pages.count (some series) = 1
  waits : ∀ page ∈ w.pages, ∃ series ∈ w.operators, page = some series
  parked : ∀ run, w.run = some run → .blocked ∈ run.fired ∨ .waiting ∈ run.fired → run.wait_kind = "operator".toList
  stays : ∀ run, w.run = some run → ∀ series ∈ w.past, run.wait_series ≠ some series →
    ∀ e, OfSession session e → e.series? = some series → (ingest cfg e run).1.wait_kind = run.wait_kind

/-- The record clears a terminal, and the rules that have fired with it. -/
def clears (ts : ℚ) (run : RunTelemetry) : Bool := run.last_session = none && run.terminal ≠ [] && run.terminal_ts < ts

/-- A point of a wait names its kind, a wait is opened when no other is current, and closed when
it is the current one, if it was not closed before. -/
def inTurn (p : Point) (run : RunTelemetry) : Bool :=
  let series := waitSeries p.attrs
  (!(p.name = .waitActive || p.name = .waitElapsed) || get "wait_kind" p.attrs ≠ []) &&
    (p.name ≠ .waitActive || series ∈ run.closed_wait_series || run.wait_series = some series ||
      1 ≤ p.value && run.wait_series = none)

/-- The points of waits come in turn, and no record clears a terminal while an operator wait is
current. -/
def meetsRun (run : RunTelemetry) : Event → Bool
  | .point _ p => inTurn p run && !(clears p.ts run && run.wait_kind = "operator".toList)
  | .span _ s => !(clears s.end_ts run && run.wait_kind = "operator".toList)
  | .tick _ => true

def Meets (id : Text) (w : Watched) (e : Event) : Prop := meetsRun (w.run.getD (.fresh id e.now)) e = true

instance (id : Text) (w : Watched) (e : Event) : Decidable (Meets id w e) := inferInstanceAs (Decidable (_ = _))

end Stablemate.Alerts
