import Mathlib.Data.Nat.Notation
import Stablemate.Lib.Run
import Stablemate.Model.Text

/-!
# Handing off to a sub-flow (`artifacts.py`, `pyflow/engine.py`, `pyflow/driver.py`)

Every handoff to one flow node uses one scope directory, `<run>/<node>/_flow`. `subscope`
decides whether the directory is kept or emptied, and `_resume_in_place` whether its
checkpoint is continued from. The machine is the parent's process, the directory and the
child that runs in it; the process may die anywhere, also while the directory is emptied.

Every drive of the child has a number, and what it writes carries it.
-/

namespace Stablemate.SubFlow

/-- A `checkpoint.json`, as `parse_checkpoint` finds it. -/
inductive Checkpoint (I : Type*)
  | absent
  | unreadable
  /-- The retired engine's. -/
  | nodeGraph
  /-- A Python state machine's, written by the drive `drive`. -/
  | pyflow (flow : Text) (inputs : I) (state : Text) (drive : ℕ)

/-- A recorded `output.json` and the drive that wrote it. -/
structure Output (O : Type*) where
  value : O
  drive : ℕ

/-- The scope directory: the checkpoint, whether `run.json` names a terminal, and the
recorded output of each node. -/
structure Dir (I O : Type*) where
  checkpoint : Checkpoint I
  terminal : Bool
  outputs : Text → Option (Output O)

/-- Where the process stands. -/
inductive Pc (I : Type*)
  /-- In the parent's state body; `resumePending` is the engine's flag. -/
  | parent (resumePending : Bool)
  /-- In the child: its class and inputs, the number of the drive, and whether it was
  continued from a checkpoint. -/
  | child (flow : Text) (inputs : I) (drive : ℕ) (continued : Bool)
  | down

structure State (I O : Type*) where
  pc : Pc I
  dir : Dir I O
  drives : ℕ

inductive Event (I O : Type*)
  /-- The parent hands off; `stuck` are the outputs that `rmtree` cannot remove. -/
  | handoff (flow : Text) (inputs : I) (stuck : Text → Bool)
  /-- The parent hands off and the process dies while the directory is emptied. -/
  | diesClearing (keeps : Text → Bool) (keepsCheckpoint keepsRun : Bool)
  /-- The child enters a state. -/
  | enter (state : Text)
  /-- The child records a node's output. -/
  | record (node : Text) (value : O)
  /-- The child is done. -/
  | done
  /-- The child raises, and the parent's body goes on. -/
  | raised
  /-- The parent enters its next state. -/
  | next
  | stop
  | resume

variable {I O : Type*} [DecidableEq I]

/-- `exists()` of the checkpoint file. -/
def Checkpoint.present : Checkpoint I → Bool
  | .absent => false
  | _ => true

/-- The test of `subscope`: the directory is kept. -/
def keeps (resume : Bool) (dir : Dir I O) : Bool := resume && dir.checkpoint.present && !dir.terminal

/-- `_clear_stale_run`: the directory is removed. Where `rmtree` raises, outputs stay, but
the checkpoint is unlinked. -/
def clear (stuck : Text → Bool) (dir : Dir I O) : Dir I O where
  checkpoint := .absent
  terminal := false
  outputs := fun node => if stuck node then dir.outputs node else none

/-- `subscope`: the directory the child runs in. Both writers rewrite `run.json`. -/
def subscope (resume : Bool) (stuck : Text → Bool) (dir : Dir I O) : Dir I O :=
  if keeps resume dir then { dir with terminal := false } else clear stuck dir

/-- The test of `_resume_in_place`: the checkpoint names this class and these inputs. -/
def accepts (flow : Text) (inputs : I) : Checkpoint I → Bool
  | .pyflow flow' inputs' _ _ => decide (flow' = flow) && decide (inputs' = inputs)
  | _ => false

/-- `Engine.handoff` down to the child's first state. -/
def handoff (s : State I O) (resumePending : Bool) (flow : Text) (inputs : I) (stuck : Text → Bool) :
    State I O :=
  let dir := subscope resumePending stuck s.dir
  let continued := resumePending && accepts flow inputs dir.checkpoint
  { pc := .child flow inputs s.drives continued, dir := dir, drives := s.drives + 1 }

/-- What is left of a directory when the process dies while it is removed. -/
def partlyCleared (dir : Dir I O) (keeps : Text → Bool) (keepsCheckpoint keepsRun : Bool) :
    Dir I O where
  checkpoint := if keepsCheckpoint then dir.checkpoint else .absent
  terminal := keepsRun && dir.terminal
  outputs := fun node => if keeps node then dir.outputs node else none

/-- One event, if it can happen here. -/
def step (s : State I O) (e : Event I O) : Option (State I O) :=
  match e with
  | .handoff flow inputs stuck =>
    match s.pc with
    | .parent resumePending => some (handoff s resumePending flow inputs stuck)
    | _ => none
  | .diesClearing kept keptCheckpoint keptRun =>
    match s.pc with
    | .parent resumePending =>
      if keeps resumePending s.dir then none
      else some { s with pc := .down, dir := partlyCleared s.dir kept keptCheckpoint keptRun }
    | _ => none
  | .enter state =>
    match s.pc with
    | .child flow inputs drive _ =>
      some { s with dir := { s.dir with checkpoint := .pyflow flow inputs state drive } }
    | _ => none
  | .record node value =>
    match s.pc with
    | .child _ _ drive _ =>
      some { s with dir := { s.dir with
        outputs := fun n => if n = node then some ⟨value, drive⟩ else s.dir.outputs n } }
    | _ => none
  | .done =>
    match s.pc with
    | .child .. => some { s with pc := .parent false, dir := { s.dir with terminal := true } }
    | _ => none
  | .raised =>
    match s.pc with
    | .child .. => some { s with pc := .parent false }
    | _ => none
  | .next =>
    match s.pc with
    | .parent _ => some { s with pc := .parent false }
    | _ => none
  | .stop =>
    match s.pc with
    | .down => none
    | _ => some { s with pc := .down }
  | .resume =>
    match s.pc with
    | .down => some { s with pc := .parent true }
    | _ => none

/-- A run that has not handed off yet; the directory may hold anything. -/
def init (dir : Dir I O) : State I O := ⟨.parent false, dir, 0⟩

/-- `self.output(node)` in the child. -/
def output (s : State I O) (node : Text) : Option (Output O) := s.dir.outputs node

/-- Nothing is recorded in the directory. -/
structure Dir.Empty (dir : Dir I O) : Prop where
  checkpoint : dir.checkpoint = .absent
  outputs : ∀ node, dir.outputs node = none

/-- Everything recorded in the directory was written by the drive `drive`. -/
structure Dir.Own (dir : Dir I O) (drive : ℕ) : Prop where
  outputs : ∀ node o, dir.outputs node = some o → o.drive = drive
  checkpoint : dir.checkpoint.present →
    ∃ flow inputs state, dir.checkpoint = .pyflow flow inputs state drive

/-- The condition on a handoff: what `subscope` keeps `_resume_in_place` accepts, and where
it does not keep, no output is left. -/
def Agrees (s : State I O) (e : Event I O) : Prop :=
  ∀ resumePending flow inputs stuck, s.pc = .parent resumePending → e = .handoff flow inputs stuck →
    (keeps resumePending s.dir → accepts flow inputs s.dir.checkpoint) ∧
    (¬ keeps resumePending s.dir → ∀ node, stuck node → s.dir.outputs node = none)

end Stablemate.SubFlow
