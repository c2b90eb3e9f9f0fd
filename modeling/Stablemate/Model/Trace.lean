import Mathlib.Data.Rat.Defs
import Stablemate.Model.Text

/-!
# Spans (`groom/store.py`)

A span as `_run_spans` gives it, with what the modelled readers look at. An attribute is held as these
read it.
-/

namespace Stablemate.Trace

structure Span where
  span_id : Text
  trace_id : Text
  parent_id : Text
  node : Text
  workflow : Text
  name : Text
  start_ts : ℚ
  end_ts : ℚ
  status : Text := []
  /-- `str(attrs.get("workhorse.span_kind") or "")` -/
  span_kind : Text := []
  /-- `str(attrs.get("workhorse.wait_kind") or "")` -/
  wait_kind : Text := []
  /-- `attrs.get("workhorse.depth")` where that is an `int`. -/
  depth : Option ℤ := none
  /-- `attrs.get("workhorse.flow")` where that is a text. -/
  flow : Option Text := none
  /-- `attrs.get("workhorse.state")` where that is a text. -/
  state : Option Text := none
  /-- `str(attrs.get("work_id") or attrs.get("wf.work_id") or "")` -/
  work : Text := []
  resume_generation : Option ℤ := none
  profile_duration_ms : Option ℚ := none
  profile_cost_usd : Option ℚ := none
  profile_output_tokens : Option ℤ := none
deriving DecidableEq

/-- `span["name"] == "agent_turn"` -/
def Span.isTurn (span : Span) : Bool := span.name = "agent_turn".toList

/-- `span["name"].startswith("run:")` -/
def Span.isRun (span : Span) : Bool := "run:".toList <+: span.name

end Stablemate.Trace
