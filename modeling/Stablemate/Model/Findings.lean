import Stablemate.Lib.Cut
import Stablemate.Model.Digest

/-!
# The work of a coder run (`coder/shared/work.py`)

The stories, follow-ups and findings of a run are on one list, and each kind has those who may file
and those who may move it. Every operation reads and writes the whole list, and a run can be stopped after any write. The
stored digest of an item is that of the item as it is: `add` stamps it, and every read verifies
it. Orders are rationals where the source has floats. What is only logged is left out.
-/

namespace Stablemate.Coder

open Cut (Prog)
open PyJson (Value Key Entries decimal)
open WorkList (WorkItem)

def lit (s : String) : Text := s.toList

/-! ## Items -/

/-- What an item holds; a key that is not there is `none`. -/
structure Payload where
  work_id : Option Text := none
  source : Option Text := none
  round : Option ℤ := none
  target : Option Text := none
  issue : Option Text := none
  repair : Option Text := none
  category : Option Text := none
  score : Option ℤ := none
  same_as : Option Text := none
  escaped_from : Option Text := none
  parent : Option Text := none
  epic : Option Text := none
  story_id : Option Text := none
  title : Option Text := none
  reason : Option Text := none
deriving DecidableEq

abbrev Item := WorkItem Payload

def text (key : String) (value : Option Text) : Entries := (value.map fun t => (Key.str (lit key), Value.str t)).toList

def number (key : String) (value : Option ℤ) : Entries := (value.map fun n => (Key.str (lit key), Value.int n)).toList

def Payload.entries (p : Payload) : Entries :=
  text "work_id" p.work_id ++ text "source" p.source ++ number "round" p.round ++ text "target" p.target ++
    text "issue" p.issue ++ text "repair" p.repair ++ text "category" p.category ++ number "score" p.score ++
    text "same_as" p.same_as ++ text "escaped_from" p.escaped_from ++ text "parent" p.parent ++ text "epic" p.epic ++
    text "story_id" p.story_id ++ text "title" p.title ++ text "reason" p.reason

/-- `payload_digest` -/
def payload_digest (it : Item) : Option Text :=
  Digest.Item.payloadDigest
    { id := some it.id, status := none, kind := some it.kind, order := none, payload := some it.content.entries,
      digest := none, laps := none, note := none, extra := [], extra_names := by simp }

def STORY : Text := lit "story"
def FOLLOW_UP : Text := lit "follow-up"
def FINDING : Text := lit "finding"
def PROGRESS_KINDS : List Text := [STORY, FOLLOW_UP]

def PENDING : Text := lit "pending"
def ACTIVE : Text := lit "active"
def DONE : Text := lit "done"
def OPEN : Text := lit "open"
def SETTLED : Text := lit "settled"
def DECLINED : Text := lit "declined"
def MERGED : Text := lit "merged"

def SCHEME : WorkList.Scheme := ⟨[DONE, SETTLED, DECLINED, MERGED], [ACTIVE], []⟩

def FILERS : List (Text × List Text) :=
  [(STORY, [lit "amendment", lit "launch"]), (FOLLOW_UP, [lit "dev", lit "ownership"]), (FINDING, [lit "qa", lit "review"])]

def MOVERS : List (Text × List Text) :=
  [(STORY, [lit "standing"]), (FOLLOW_UP, [lit "standing"]), (FINDING, [lit "settlement"])]

/-! ## The list -/

/-- The list, and the ids of the findings that were ever put on it. -/
structure State where
  items : List Item
  filed : List Text
deriving DecidableEq

/-- What an operation raises: a `WorkflowFailed`, or a `ValueError`. -/
inductive Raised where
  | failed (message : Text)
  | value (message : Text)
deriving DecidableEq

/-- A part of a state of a flow. -/
abbrev Cmd (α : Type) := ExceptT Raised (Prog State) α

def findingIds (batch : List Item) : List Text := (batch.filter fun it => it.kind = FINDING).map (·.id)

/-- `WorkList.items` -/
def items (kind : WorkList.KindFilter) : Cmd (List Item) :=
  (.read fun s => .done (.ok (WorkList.ofKind s.items kind)) : Prog State (Except Raised (List Item)))

def edit (half : Bool) (f : List Item → List Item) : Cmd Unit :=
  (.write half (fun s => { s with items := f s.items }) (.done (.ok ())) : Prog State (Except Raised Unit))

/-- The first id of a batch that is already there, or comes twice. -/
def repeated : List Text → List Item → Option Text
  | _, [] => none
  | seen, it :: batch => if seen.contains it.id then some it.id else repeated (seen ++ [it.id]) batch

/-- `WorkList.add` -/
def add (batch : List Item) : Cmd (List Item) := do
  let stored ← items none
  match repeated (stored.map (·.id)) batch with
  | some id => throw (.value (lit "work item " ++ Text.repr id ++ lit " is already on the list"))
  | none =>
    (.write false (fun s => ⟨s.items ++ batch, s.filed ++ findingIds batch⟩) (.done (.ok ())) :
      Prog State (Except Raised Unit))
    pure batch

/-- `repr` of a list of texts. -/
def shown (texts : List Text) : Text := '[' :: [',', ' '].intercalate (texts.map Text.repr) ++ [']']

def _check (table : List (Text × List Text)) (kind caller verb : Text) : Except Raised Unit :=
  let allowed := (table.lookup kind).getD []
  if allowed.contains caller then .ok ()
  else .error (.failed (Text.repr caller ++ lit " may not " ++ verb ++ [' '] ++ Text.repr kind ++ lit " items; only " ++
    shown allowed ++ lit " may"))

def lift {α : Type} (r : Except Raised α) : Cmd α := (.done r : Prog State (Except Raised α))

/-- One item of a batch: new, or known with the same content. -/
def freshStep (stored : List Item) (caller : Text) (fresh : List Item) (it : Item) : Except Raised (List Item) := do
  _check FILERS it.kind caller (lit "file")
  match stored.find? fun known => known.id = it.id with
  | none => .ok (fresh ++ [it])
  | some known =>
    if payload_digest known ≠ payload_digest it then
      .error (.failed (lit "work item " ++ Text.repr it.id ++ lit " was filed again with different content"))
    else .ok fresh

/-- The items of a batch that are new. -/
def fresh (stored : List Item) (caller : Text) (batch : List Item) : Except Raised (List Item) :=
  batch.foldlM (freshStep stored caller) []

def file (batch : List Item) (caller : Text) : Cmd (List Item) := do
  let stored ← items none
  let fresh ← lift (fresh stored caller batch)
  add fresh

def move (ids : List Text) (status kind caller : Text) : Cmd Unit := do
  lift (_check MOVERS kind caller (lit "move"))
  edit false (WorkList.settle ids status (some [kind]))

def find (item_id : Text) : Cmd (Option Item) := do
  let stored ← items none
  pure (stored.find? fun it => it.id = item_id)

/-- The item is off the list between the two writes. -/
def replace (item : Item) : Cmd Unit := do
  edit true (WorkList.prune item.id (some [item.kind]))
  let _ ← add [item]
  pure ()

/-! ## Stories and follow-ups -/

/-- What ostler says of a story. -/
structure Entry where
  slug : Text
  epic : Text
  id : Text

def story_items (entries : List Entry) (start : ℚ) (stop : Option ℚ) : List Item :=
  let step := match stop with
    | none => 1
    | some stop => (stop - start) / (entries.length + 1)
  entries.mapIdx fun i entry =>
    { id := entry.slug, status := PENDING, kind := STORY, order := some (start + step * (i + 1)), laps := 0, note := [],
      content := { epic := some entry.epic, story_id := some entry.id } }

def minimum (xs : List ℚ) : Option ℚ := xs.foldl (fun m x => some (m.elim x (min x))) none

def maximum (xs : List ℚ) : Option ℚ := xs.foldl (fun m x => some (m.elim x (max x))) none

def amend (epic : Text) (entries : List Entry) : Cmd (List Item) := do
  let progress ← items (some PROGRESS_KINDS)
  let ours := progress.filter fun it => it.content.epic = some epic
  ours.foldlM (fun _ it =>
    if it.kind = STORY ∧ !SCHEME.isDone it then edit false (WorkList.prune it.id (some [STORY])) else pure ()) ()
  let kept ← items (some [STORY])
  let wanted := entries.filter fun entry => !(kept.map (·.id)).contains entry.slug
  let others := (progress.filter fun it => it.content.epic ≠ some epic).map (·.key)
  let first := minimum (ours.map (·.key))
  let settled := (ours.filter (SCHEME.isDone ·)).map (·.key)
  let before := first.elim [] fun first => others.filter (· < first)
  let start := (maximum settled).getD ((maximum before).getD 0)
  let stop := (minimum (others.filter (start < ·))).getD
    ((maximum (progress.map (·.key))).getD start + wanted.length + 1)
  file (story_items wanted start (some stop)) (lit "amendment")

/-- A proposed follow-up. -/
structure FollowUp where
  title : Text
  reason : Text
  escaped_from : Text := []

def follow_up_id (parent : Item) (entry : FollowUp) : Text :=
  let key := (Sha256.hexdigest (Text.utf8 (Text.strip entry.title ++ ['\n'] ++ Text.strip entry.reason))).take 8
  parent.id ++ lit "/follow-up-" ++ key

def follow_up_items (parent : Item) (follow_ups : List FollowUp) : Cmd (List Item) := do
  let progress ← items (some PROGRESS_KINDS)
  let family := progress.filter fun it => it.id = parent.id ∨ it.content.parent = some parent.id
  let start := (maximum (family.map (·.key))).getD parent.key
  let later := (progress.map (·.key)).filter (start < ·)
  let stop := (minimum later).getD (start + follow_ups.length + 1)
  let step := (stop - start) / (follow_ups.length + 1)
  pure (follow_ups.mapIdx fun i entry =>
    { id := follow_up_id parent entry, status := PENDING, kind := FOLLOW_UP, order := some (start + step * (i + 1)),
      laps := 0, note := [],
      content := {
        parent := some parent.id, epic := some (parent.content.epic.getD []),
        story_id := some (parent.content.story_id.getD []), title := some (Text.strip entry.title),
        reason := some (Text.strip entry.reason),
        escaped_from := if Text.strip entry.escaped_from = [] then none else some (Text.strip entry.escaped_from) } })

/-- `parent or id` -/
def story_of (item : Item) : Text := if item.content.parent.getD [] = [] then item.id else item.content.parent.getD []

/-! ## Findings -/

/-- What a review or QA reports. -/
structure Report where
  target : Text
  issue : Text
  repair : Text
  category : Text
  score : ℤ

def findings_of (work_id : Text) : Cmd (List Item) := do
  let findings ← items (some [FINDING])
  pure (findings.filter fun it => it.content.work_id = some work_id)

def finding_id (work_id source : Text) (number : ℤ) (index : ℕ) : Text :=
  work_id ++ ['/'] ++ source ++ ['-'] ++ decimal number ++ ['.'] ++ decimal (index + 1)

/-- Empty, or the finding that the one at `index` merges into. -/
def same_of (same_as : List Text) (index : ℕ) : Text := same_as.getD index []

def finding_items (work_id source : Text) (number : ℤ) (findings : List Report) (same_as : List Text) : List Item :=
  findings.mapIdx fun i entry =>
    { id := finding_id work_id source number i, status := if same_of same_as i = [] then OPEN else MERGED,
      kind := FINDING, order := none, laps := 0, note := [],
      content := {
        work_id := some work_id, source := some source, round := some number, target := some entry.target,
        issue := some entry.issue, repair := some entry.repair, category := some entry.category,
        score := some entry.score,
        same_as := if same_of same_as i = [] then none else some (same_of same_as i) } }

/-- Of one work item, or with an empty id of the whole run. -/
def open_findings (work_id : Text) : Cmd (List Item) := do
  let findings ← items (some [FINDING])
  pure (findings.filter fun it => !SCHEME.isDone it && (work_id = [] || it.content.work_id = some work_id))

end Stablemate.Coder
