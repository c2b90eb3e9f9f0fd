import Stablemate.Model.Findings

/-!
# Keeping the place of stories and follow-ups (`coder/shared/work.py`)

What a run does to the stories and follow-ups on its list: the launch files stories, follow-ups are
proposed for an item and filed, items are claimed and moved, and a replan files an epic's stories again.
-/

namespace Stablemate.Coder

open Cut (Prog)

/-- One of these. -/
inductive Move where
  /-- `follow_up_items` for an item on the list, filed by a caller. -/
  | follow_up (parent_id : Text) (follow_ups : List FollowUp) (caller : Text)
  | claim (kind : WorkList.KindFilter) (skip : List Text) (strict : Bool) (n : ℤ) (status : Text)
  | standing (ids : List Text) (status kind : Text)
  | amend (epic : Text) (entries : List Entry)

def moving : Move → Cmd Unit
  | .follow_up parent_id follow_ups caller => do
    match ← find parent_id with
    | none => pure ()
    | some parent =>
      let made ← follow_up_items parent follow_ups
      let _ ← file made caller
      pure ()
  | .claim kind skip strict n status => edit false fun rows => (WorkList.claim SCHEME skip kind strict n status rows).2
  | .standing ids status kind => move ids status kind (lit "standing")
  | .amend epic entries => do
    let _ ← amend epic entries
    pure ()

/-- What a program leaves, whether it raises or not. -/
def left {α : Type} (program : Cmd α) (s : State) : State := ((program : Prog State (Except Raised α)).finish s).1

/-- The list after a move. -/
def moved (s : State) (m : Move) : Option State := some (left (moving m) s)

/-- The list that a launch begins with. -/
def launched (entries : List Entry) : State :=
  left (file (story_items entries 0 none) (lit "launch")) ⟨[], []⟩

end Stablemate.Coder
