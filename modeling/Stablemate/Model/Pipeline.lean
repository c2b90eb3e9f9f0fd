import Stablemate.Lib.Run
import Stablemate.Model.WorkList

/-!
# Draining a work list (`Workflow.pipeline`)

A state with the body `self.pipeline(kind, to=F, n, laps, strict) or <next>`, where `F` is a
flow. The machine takes one step for each write to the list and for each handoff, so that
the process may stop between any two of them; a resumed run enters the state again with the
engine's `resuming` flag set. While a row is handed off, `F` may move that row.
-/

namespace Stablemate.Pipeline

open WorkList

variable {P : Type*}

/-- The arguments of `self.pipeline`, and the scheme of the list. -/
structure Drain where
  scheme : Scheme
  kind : KindFilter
  n : ℤ
  laps : ℤ
  strict : Bool

/-- Where the drain stands. -/
inductive Pc (P : Type*)
  /-- The state is entered; `resuming` is the engine's flag. -/
  | entry (resuming : Bool)
  /-- After the settle on entry, before the claim. -/
  | settled (resuming : Bool)
  /-- Claimed: these rows over the lap cap are still to be marked, those to be dispatched. -/
  | capping (capped dispatched : List (WorkItem P))
  | dispatching (rows : List (WorkItem P))
  /-- `F` runs for the row. -/
  | inHandoff (row : WorkItem P) (rows : List (WorkItem P))
  /-- `F` has returned, and the row is not settled yet. -/
  | returned (row : WorkItem P) (rows : List (WorkItem P))
  /-- `pipeline` returned `None`. -/
  | drained
  /-- No process runs. -/
  | down

/-- The list and the place in the code; then, for each row, whether the drain has claimed it,
whether a handoff of it has returned since, how often it was handed off, and whether `F` has
requeued it. -/
structure State (P : Type*) where
  items : List (WorkItem P)
  pc : Pc P
  claimed : Text → Bool
  back : Text → Bool
  handoffs : Text → ℕ
  requeued : Text → Bool

inductive Event
  /-- The settle on entry. -/
  | visit
  | claim
  /-- One row over the cap is marked, or the dispatch begins. -/
  | cap
  | handoff
  /-- `F` gives its own row another status (`mark`). -/
  | moves (status : Text) (note : Option Text)
  /-- `F` requeues its own row. -/
  | requeues (note : Text)
  | finish
  /-- The settle after a handoff. -/
  | settle
  /-- The workflow comes back to the state after it went on. -/
  | again
  | stop
  | resume

variable (d : Drain)

/-- A function changed at one point. -/
def upd {β : Type*} (f : Text → β) (id : Text) (b : β) : Text → β := fun x => if x = id then b else f x

/-- The settle on entry of a visit that was not resumed. -/
def visit (s : State P) (resuming : Bool) : State P :=
  let held := (ofKind s.items d.kind).filter d.scheme.isActive
  { s with
    pc := .settled resuming
    items := if resuming then s.items else WorkList.settle (held.map (·.id)) DONE d.kind s.items }

/-- The claim, and the split at the lap cap. -/
def claim (s : State P) : State P :=
  match WorkList.claim d.scheme [] d.kind d.strict d.n ACTIVE s.items with
  | ([], _) => { s with pc := .drained }
  | (taken, items) =>
    { s with
      items := items
      pc := .capping (taken.filter fun it => d.laps < it.laps) (taken.filter fun it => it.laps ≤ d.laps)
      claimed := fun id => s.claimed id || (taken.map (·.id)).contains id
      back := fun id => s.back id && !(taken.map (·.id)).contains id }

def step (s : State P) (e : Event) : Option (State P) :=
  match e with
  | .visit =>
    match s.pc with
    | .entry resuming => some (visit d s resuming)
    | _ => none
  | .claim =>
    match s.pc with
    | .settled _ => some (claim d s)
    | _ => none
  | .cap =>
    match s.pc with
    | .capping (row :: capped) dispatched =>
      some { s with items := mark row.id BLOCKED d.kind none s.items, pc := .capping capped dispatched }
    -- with nothing to dispatch the state continues into itself
    | .capping [] [] => some { s with pc := .entry false }
    | .capping [] dispatched => some { s with pc := .dispatching dispatched }
    | _ => none
  | .handoff =>
    match s.pc with
    | .dispatching (row :: rows) =>
      some { s with pc := .inHandoff row rows, handoffs := upd s.handoffs row.id (s.handoffs row.id + 1) }
    | .dispatching [] => some { s with pc := .entry false }
    | _ => none
  | .moves status note =>
    match s.pc with
    | .inHandoff row _ => some { s with items := mark row.id status d.kind note s.items }
    | _ => none
  | .requeues note =>
    match s.pc with
    | .inHandoff row _ =>
      some { s with
        items := requeue [row.id] note d.kind s.items
        requeued := upd s.requeued row.id true }
    | _ => none
  | .finish =>
    match s.pc with
    | .inHandoff row rows => some { s with pc := .returned row rows, back := upd s.back row.id true }
    | _ => none
  | .settle =>
    match s.pc with
    | .returned row rows =>
      let held := (ofKind s.items d.kind).filter fun it => it.id == row.id && d.scheme.isActive it
      some { s with
        items := WorkList.settle (held.map (·.id)) DONE d.kind s.items
        pc := .dispatching rows }
    | _ => none
  | .again =>
    match s.pc with
    | .drained => some { s with pc := .entry false }
    | _ => none
  | .stop =>
    match s.pc with
    | .down => none
    | _ => some { s with pc := .down }
  | .resume =>
    match s.pc with
    | .down => some { s with pc := .entry true }
    | _ => none

/-- The list before the drain has touched it; the first visit may be a resumed one. -/
def init (resuming : Bool) (items : List (WorkItem P)) : State P where
  items := items
  pc := .entry resuming
  claimed := fun _ => false
  back := fun _ => false
  handoffs := fun _ => 0
  requeued := fun _ => false

/-! ## What is claimed -/

/-- The rows of the drain's kind, in working order. -/
def rows (items : List (WorkItem P)) : List (WorkItem P) := ordered (ofKind items d.kind)

/-- The row `y` stands before the row `x` in working order. -/
def Before (items : List (WorkItem P)) (y x : WorkItem P) : Prop :=
  ∃ pre post, rows d items = pre ++ x :: post ∧ y ∈ pre

/-- The row was active before the drain began. -/
def ActiveAtFirst (items : List (WorkItem P)) (id : Text) : Prop :=
  ∃ row ∈ items, row.id = id ∧ d.scheme.isActive row = true

/-- `F` moves its own row, or requeues it. -/
def Event.ofFlow : Event → Prop
  | .moves .. | .requeues .. => True
  | _ => False

/-- The parts of a row that no step touches. -/
def frame (it : WorkItem P) : Text × Text × Option ℚ × P := (it.id, it.kind, it.order, it.content)

end Stablemate.Pipeline
