import Mathlib.Data.Char
import Mathlib.Data.List.Lex
import Mathlib.Data.List.Sort
import Stablemate.Lib.Sweep
import Stablemate.Model.Trace

/-!
# Where the wall time of a run went (`groom/store.py`)

* `_span_category`: what a span says that the run was doing.
* `_resume_intervals`: the time between two sessions of a run that was resumed.
* `_profile_time_partition`: the sweep over all of them.

A time is rational.
-/

namespace Stablemate.Profile

open Trace (Span)
open Sweep (Interval Piece)

inductive Category
  | resume_gap
  | wait (kind : Text)
  | agent
  | infra
  | deterministic
deriving DecidableEq

def _span_category (span : Span) (parent_keys : List (Text × Text)) : Option Category :=
  if span.span_kind = "wait".toList then
    some (.wait (if span.wait_kind = [] then "unknown".toList else span.wait_kind))
  else if span.isTurn then some .agent
  else if span.span_kind = "infra".toList then some .infra
  else if (span.trace_id, span.span_id) ∉ parent_keys ∧ span.span_kind = [] ∧ ¬ span.isRun then some .deterministic
  else none

/-! ## Sessions -/

/-- What the spans of one trace tell of their session. -/
structure Session where
  trace : Text
  start : ℚ
  stop : ℚ
  generation : Option ℤ

def Session.extend (session : Session) (span : Span) : Session where
  trace := session.trace
  start := min session.start span.start_ts
  stop := max session.stop span.end_ts
  generation := match span.resume_generation with
    | some generation => if generation > 0 then some generation else session.generation
    | none => session.generation

/-- The sessions with one more span, in the order in which their traces came. -/
def note (span : Span) : List Session → List Session
  | [] => [Session.extend ⟨span.trace_id, span.start_ts, span.end_ts, none⟩ span]
  | session :: sessions =>
    if session.trace = span.trace_id then session.extend span :: sessions else session :: note span sessions

def sessions (spans : List Span) : List Session := spans.foldl (fun sessions span => note span sessions) []

/-- The gaps between sessions that follow each other. -/
def gaps : List Session → List (ℚ × ℚ)
  | previous :: current :: rest =>
    if current.start > previous.stop ∧ previous.generation.isSome ∧ current.generation.isSome ∧
        previous.generation ≠ current.generation then
      (previous.stop, current.start) :: gaps (current :: rest)
    else gaps (current :: rest)
  | _ => []

def _resume_intervals (spans : List Span) : List (ℚ × ℚ) :=
  gaps ((sessions spans).insertionSort fun a b => a.start ≤ b.start)

/-! ## The partition -/

/-- What the run can be doing at an instant, highest first. -/
inductive Activity
  | resume_gap
  | wait
  | agent
  | infra
  | deterministic
  | unclassified
deriving DecidableEq

structure Partition where
  wall : ℚ
  agent : ℚ
  deterministic : ℚ
  infra : ℚ
  wait : ℚ
  waits_by_kind : List (Text × ℚ)
  resume_gap : ℚ
  unclassified : ℚ

/-- `parent_keys` -/
def parentKeys (spans : List Span) : List (Text × Text) :=
  (spans.filter fun span => span.parent_id ≠ []).map fun span => (span.trace_id, span.parent_id)

/-- What is swept over: the spans with a category that take time, and the gaps. -/
def intervals (spans : List Span) : List (Interval Category) :=
  (spans.filterMap fun span =>
    (_span_category span (parentKeys spans)).bind fun category =>
      if span.end_ts > span.start_ts then some ⟨span.start_ts, span.end_ts, category⟩ else none) ++
  (_resume_intervals spans).map fun gap => ⟨gap.1, gap.2, .resume_gap⟩

/-- `sorted({start_ts, end_ts, *events})` -/
def points (spans : List Span) (start_ts end_ts : ℚ) : List ℚ :=
  ((start_ts :: end_ts :: (intervals spans).flatMap fun i => [i.start, i.stop]).dedup).insertionSort (· ≤ ·)

/-- The kinds of wait that some span has. -/
def waitKinds (intervals : List (Interval Category)) : List Text :=
  (intervals.filterMap fun i => match i.label with
    | .wait kind => some kind
    | _ => none).dedup

/-- `waits[kind] += duration` -/
def addWait (kind : Text) (duration : ℚ) : List (Text × ℚ) → List (Text × ℚ)
  | [] => [(kind, duration)]
  | (k, amount) :: waits => if k = kind then (k, amount + duration) :: waits else (k, amount) :: addWait kind duration waits

/-- The kinds of wait that are active. -/
def wait_kinds (kinds : List Text) (piece : Piece Category) : List Text :=
  (kinds.filter fun kind => piece.active (.wait kind) > 0).insertionSort (· ≤ ·)

/-- The kind that is waited for, if only one is. -/
def waitKind : List Text → Text
  | [kind] => kind
  | _ => "overlap".toList

/-- The branch of the loop's body that a piece takes. -/
def activityOf (kinds : List Text) (piece : Piece Category) : Activity :=
  if piece.active .resume_gap > 0 then .resume_gap
  else if (wait_kinds kinds piece).length > 0 then .wait
  else if piece.active .agent > 0 then .agent
  else if piece.active .infra > 0 then .infra
  else if piece.active .deterministic > 0 then .deterministic
  else .unclassified

/-- What a branch does. -/
def Partition.add (totals : Partition) (kind : Text) (duration : ℚ) : Activity → Partition
  | .resume_gap => { totals with resume_gap := totals.resume_gap + duration }
  | .wait => { totals with wait := totals.wait + duration, waits_by_kind := addWait kind duration totals.waits_by_kind }
  | .agent => { totals with agent := totals.agent + duration }
  | .infra => { totals with infra := totals.infra + duration }
  | .deterministic => { totals with deterministic := totals.deterministic + duration }
  | .unclassified => { totals with unclassified := totals.unclassified + duration }

def addPiece (kinds : List Text) (totals : Partition) (piece : Piece Category) : Partition :=
  totals.add (waitKind (wait_kinds kinds piece)) (max 0 (piece.right - piece.left)) (activityOf kinds piece)

def _profile_time_partition (spans : List Span) (start_ts end_ts : ℚ) : Partition :=
  let swept := intervals spans
  let totals := (Sweep.pieces (swept.flatMap Interval.changes) (fun _ => 0) (points spans start_ts end_ts)).foldl
    (addPiece (waitKinds swept)) ⟨max 0 (end_ts - start_ts), 0, 0, 0, 0, [], 0, 0⟩
  { totals with waits_by_kind := totals.waits_by_kind.insertionSort fun a b => a.1 ≤ b.1 }

end Stablemate.Profile
