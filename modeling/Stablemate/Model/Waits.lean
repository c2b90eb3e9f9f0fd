import Mathlib.Algebra.Order.Floor.Semiring
import Mathlib.Data.Rat.Floor
import Stablemate.Model.Control

/-!
# Recovery waits (`control.py`, `runner/caps.py`)

A wait is counted down in slices, and each slice is a `select` on the control channel that a
message ends early. Time is what passes in `select` and `clock.sleep`; reading and answering a
message takes none. A schedule has the messages still to be read, each with the moment its
connection arrives.
-/

namespace Stablemate.Waits

open Control (Request Message STATUS QUESTIONS STOP SWITCH_PROFILE ANSWER ACTION)

abbrev Schedule := List (ℚ × Message)

/-- The messages that `_delivered` answers by itself. -/
def isQuery : Message → Bool
  | .unreadable => false
  | .request r => decide (r.action = STATUS) || decide (r.action = QUESTIONS)

/-- `_delivered`, for the connections that have arrived by `now`. -/
def delivered (now : ℚ) : Schedule → Option Request × Schedule
  | [] => (none, [])
  | (arrival, m) :: schedule =>
    if now < arrival then (none, (arrival, m) :: schedule)
    else match m with
      | .unreadable => (none, schedule)
      | .request r => if isQuery (.request r) then delivered now schedule else (some r, schedule)

/-- What a wait ends with: the request it returns, the moment, and the messages left. -/
structure Waited where
  result : Option Request
  now : ℚ
  schedule : Schedule

/-- One slice of `wait_until`: `select` until a connection is there, then `_delivered`; a channel
without a descriptor sleeps the slice through. -/
def slice (selectable : Bool) (slice_s now : ℚ) (schedule : Schedule) : Waited :=
  match selectable, schedule with
  | true, (arrival, m) :: rest =>
    if arrival ≤ now + slice_s then
      let (request, schedule) := delivered (max arrival now) ((arrival, m) :: rest)
      ⟨request, max arrival now, schedule⟩
    else ⟨none, now + slice_s, schedule⟩
  | _, _ => ⟨none, now + slice_s, schedule⟩

/-- The loop of `wait_until`, with at most `fuel` rounds. -/
def waitFrom (predicate : ℚ → Bool) (selectable : Bool) (tick : ℚ) :
    ℕ → ℚ → ℚ → Schedule → Option Waited
  | 0, _, _, _ => none
  | fuel + 1, remaining, now, schedule =>
    if predicate now then some ⟨none, now, schedule⟩
    else match delivered now schedule with
      | (some request, schedule) => some ⟨some request, now, schedule⟩
      | (none, schedule) =>
        if remaining ≤ 0 then some ⟨none, now, schedule⟩
        else
          let slept := slice selectable (min tick remaining) now schedule
          match slept.result with
          | some request => some ⟨some request, slept.now, slept.schedule⟩
          | none =>
            waitFrom predicate selectable tick fuel (remaining - min tick remaining) slept.now slept.schedule

/-- `wait_until`; each round but the last takes a slice off, so there are no more rounds than this. -/
def wait_until (predicate : ℚ → Bool) (selectable : Bool) (tick timeout now : ℚ) (schedule : Schedule) :
    Option Waited :=
  waitFrom predicate selectable tick (⌈timeout / tick⌉₊ + 1) timeout now schedule

/-- The loop of `sleep_with_notice`, with at most `fuel` rounds. -/
def sleepFrom (honour : Request → Option Request) (selectable : Bool) (cap_tick_s : ℚ) :
    ℕ → ℚ → ℚ → Schedule → Option Waited
  | 0, _, _, _ => none
  | fuel + 1, remaining, now, schedule =>
    if remaining ≤ 0 then some ⟨none, now, schedule⟩
    else
      let chunk := min remaining cap_tick_s
      match wait_until (fun _ => false) selectable chunk chunk now schedule with
      | none => none
      | some waited =>
        match waited.result with
        | some request =>
          match honour request with
          | some honoured => some ⟨some honoured, waited.now, waited.schedule⟩
          | none => sleepFrom honour selectable cap_tick_s fuel remaining waited.now waited.schedule
        | none =>
          sleepFrom honour selectable cap_tick_s fuel (remaining - chunk) waited.now waited.schedule

/-- `sleep_with_notice`; each round but the last takes a chunk off or reads a message. -/
def sleep_with_notice (honour : Request → Option Request) (selectable : Bool) (cap_tick_s total_s now : ℚ)
    (schedule : Schedule) : Option Waited :=
  sleepFrom honour selectable cap_tick_s (⌈total_s / cap_tick_s⌉₊ + schedule.length + 1) total_s now schedule

/-- `reload.cut_by`, as far as a wait can tell: the request it returns. A stop is raised, which
ends the wait as well. -/
def cut_by (request : Request) : Option Request :=
  if request.action = STOP then some request
  else if request.action = SWITCH_PROFILE then none
  else if request.action = ANSWER then none
  else if request.action ≠ ACTION then none
  else if request.atBoundary then none
  else some request

/-- A moment at which a countdown of `remaining` from `now` starts or ends a slice. -/
def OnTick (tick now remaining arrival : ℚ) : Prop := ∃ k : ℕ, arrival = now + min (k * tick) remaining

/-- No message of the schedule is honoured. -/
def Unhonoured (honour : Request → Option Request) (schedule : Schedule) : Prop :=
  ∀ p ∈ schedule, ∃ r, p.2 = .request r ∧ honour r = none

/-- **The condition**: what arrives while the countdown runs is a query, at the end of a slice
unless the channel cannot be selected. -/
def Quiet (selectable : Bool) (tick now remaining : ℚ) (schedule : Schedule) : Prop :=
  ∀ p ∈ schedule, now < p.1 → p.1 ≤ now + remaining →
    isQuery p.2 = true ∧ (selectable = true → OnTick tick now remaining p.1)

end Stablemate.Waits
