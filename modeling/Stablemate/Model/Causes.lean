import Mathlib.Data.Finset.Dedup
import Stablemate.Model.Findings

/-!
# Which findings describe one defect (`coder/shared/causes.py`, `judge.py`)

Findings of one cause are merged into one of them, and those of finished work are handed to the
follow-up that owns their cause. Which reports describe one cause is for a judge to say: a rule
on their words first, then a reading of what it left.
-/

namespace Stablemate.Coder

open Cut (Prog)

/-! ## Judges -/

structure Question where
  kind : Text
  ask : Text
  subjects : List (Text × Text)
  context : List (Text × Text)
  answers : List Text
  default : Text

/-- A ruling: what is answered about each subject. -/
abbrev Ruling := List (Text × Text)

/-- `accepting`: every subject is one of the question's, every answer one that it allows. -/
def accepting (question : Question) (ruling : Ruling) : Prop :=
  ∀ answer ∈ ruling, answer.1 ∈ question.subjects.map Prod.fst ∧ answer.2 ∈ question.answers

instance (question : Question) (ruling : Ruling) : Decidable (accepting question ruling) :=
  inferInstanceAs (Decidable (∀ answer ∈ ruling, _ ∧ _))

/-- What the context offers may be answered. -/
def Question.Proper (question : Question) : Prop := ∀ known ∈ question.context, known.1 ∈ question.answers

/-- A judge; what it says of a question passes `accepting`. -/
structure Judge where
  rule : Question → Ruling
  accepted : ∀ question, question.Proper → accepting question (rule question)

def answer_of (question : Question) (ruling : Ruling) (subject : Text) : Text :=
  (ruling.lookup subject).getD question.default

def STOP_WORDS : List Text :=
  [lit "a", lit "an", lit "and", lit "the", lit "of", lit "to", lit "for", lit "in", lit "on", lit "when", lit "with", lit "or"]

def NEW : Text := lit "new"

def TITLE_CAP : ℕ := 90

def isWordChar (c : Char) : Bool := ('a' ≤ c && c ≤ 'z') || ('0' ≤ c && c ≤ '9')

/-- A set of words. -/
def words (text : Text) : Finset Text :=
  (((Text.lower text).splitOnP fun c => !isWordChar c).filter fun w => w ≠ [] && !STOP_WORDS.contains w).toFinset

/-- The first context entry with the words of each subject. -/
def cause_rule (question : Question) : Ruling :=
  question.subjects.filterMap fun subject =>
    (question.context.find? fun known => words known.2 = words subject.2).map fun known => (subject.1, known.1)

/-- `RuleJudge({"cause": cause_rule})` -/
def ruled (question : Question) : Ruling := if question.kind = lit "cause" then cause_rule question else []

/-- `ReadingJudge` -/
def ReadingJudge (read : Judge) (question : Question) : Ruling :=
  if question.subjects = [] then [] else read.rule question

/-- `Tiered(RuleJudge({"cause": cause_rule}), ReadingJudge(read))` -/
def tiered (read : Judge) (question : Question) : Ruling :=
  let ruling := ruled question
  let left := question.subjects.filter fun subject => !(ruling.map Prod.fst).contains subject.1
  if left = [] then ruling else ruling ++ ReadingJudge read { question with subjects := left }

theorem ruled_accepted {question : Question} (h : question.Proper) : accepting question (ruled question) := by
  unfold ruled
  split
  · intro answer hanswer
    obtain ⟨subject, hsubject, hfound⟩ := List.mem_filterMap.1 hanswer
    obtain ⟨known, hknown, rfl⟩ := Option.map_eq_some_iff.1 hfound
    have hkey : subject.1 ∈ question.subjects.map Prod.fst := List.mem_map_of_mem hsubject
    have hcause : known.1 ∈ question.answers := h known (List.mem_of_find?_eq_some hknown)
    exact ⟨hkey, hcause⟩
  · exact fun _ h => absurd h List.not_mem_nil

theorem tiered_accepted (read : Judge) {question : Question} (h : question.Proper) :
    accepting question (tiered read question) := by
  unfold tiered
  dsimp only
  split
  · exact ruled_accepted h
  · intro answer hanswer
    rcases List.mem_append.1 hanswer with hrule | hread
    · exact ruled_accepted h answer hrule
    · unfold ReadingJudge at hread
      split at hread
      · exact absurd hread List.not_mem_nil
      · have haccepted := fun hproper => read.accepted _ hproper answer hread
        obtain ⟨hsubject, hallowed⟩ := haccepted h
        obtain ⟨subject, hleft, heq⟩ := List.mem_map.1 hsubject
        have hasked : subject ∈ question.subjects := List.mem_of_mem_filter hleft
        exact ⟨List.mem_map.2 ⟨subject, hasked, heq⟩, hallowed⟩

/-- The judge of the flows: the rule on words first, then a reading. -/
def cause_judge (read : Judge) : Judge := ⟨tiered read, fun _ h => tiered_accepted read h⟩

def cause_question (reports causes : List (Text × Text)) : Question where
  kind := lit "cause"
  ask := lit ("Which known cause does each report describe? A report and a cause are one " ++
    "cause when a person using the app would see the same thing go wrong on the " ++
    "same screen. A different story, criterion number, trigger wording, evidence " ++
    "or proposed fix does not make it a different cause.")
  subjects := reports
  context := causes
  answers := causes.map Prod.fst ++ [NEW]
  default := NEW

/-- The cause that each report describes, or `new`. -/
def same_causes (judge : Judge) (reports causes : List (Text × Text)) : Text → Text :=
  if reports = [] ∨ causes = [] then fun _ => NEW
  else answer_of (cause_question reports causes) (judge.rule (cause_question reports causes))

/-! ## One round of findings -/

def issue (it : Item) : Text := it.content.issue.getD []

def reports (work_id source : Text) (number : ℤ) (findings : List Report) : List (Text × Text) :=
  findings.mapIdx fun i entry => (finding_id work_id source number i, entry.issue)

/-- One report: new, or of a cause that an earlier one has, or the first of the cause of an old finding. -/
def pairStep (same : Text → Text) (acc : List (Text × Text) × List Text) (rid : Text) : List (Text × Text) × List Text :=
  if same rid = NEW then (acc.1, acc.2 ++ [[]])
  else match acc.1.lookup (same rid) with
    | some first => (acc.1, acc.2 ++ [first])
    | none => (acc.1 ++ [(same rid, rid)], acc.2 ++ [[]])

/-- For each old finding the first report of its cause, and what each report merges into. -/
def pairing (same : Text → Text) (rids : List Text) : List (Text × Text) × List Text := rids.foldl (pairStep same) ([], [])

/-- What the judge makes of a round, given the open findings. -/
def judged (judge : Judge) (work_id source : Text) (number : ℤ) (findings : List Report) (opened : List Item) : Text → Text :=
  same_causes judge (reports work_id source number findings) (opened.map fun it => (it.id, issue it))

/-- The items of a round, given what the judge makes of it. -/
def roundItems (same : Text → Text) (work_id source : Text) (number : ℤ) (findings : List Report) : List Item :=
  finding_items work_id source number findings
    (pairing same ((reports work_id source number findings).map Prod.fst)).2

/-- An old finding is merged into one of the round. -/
def mergeOld (merge : Text × Text) : Cmd Unit := do
  match ← find merge.1 with
  | none => pure ()
  | some stale => replace { stale with
      content := { stale.content with same_as := some merge.2 }, status := MERGED }

def file_findings (judge : Judge) (work_id source : Text) (number : ℤ) (findings : List Report) (caller : Text) :
    Cmd (List Item) := do
  let opened ← open_findings work_id
  let same := judged judge work_id source number findings opened
  let filed ← file (roundItems same work_id source number findings) caller
  (pairing same ((reports work_id source number findings).map Prod.fst)).1.foldlM (fun _ merge => mergeOld merge) ()
  pure filed

/-! ## Follow-ups of one cause -/

/-- What the follow-ups of a group share. -/
def causeKey (it : Item) : Text × Finset Text := (it.content.parent.getD [], words (it.content.title.getD []))

/-- The one that is kept: the active one, else the done one, else the first. -/
def keepOf (group : List Item) : Option Item :=
  (group.find? fun it => it.status = ACTIVE).or ((group.find? fun it => it.status = DONE).or group.head?)

def consolidate : Cmd (List Text) := do
  let followUps ← items (some [FOLLOW_UP])
  let rows := (followUps.insertionSort fun a b => a.key ≤ b.key).filter fun it => [PENDING, ACTIVE, DONE].contains it.status
  let groups := (rows.map causeKey).eraseDups.map fun key => rows.filter fun it => causeKey it = key
  groups.foldlM (fun pruned group =>
    match keepOf group with
    | none => pure pruned
    | some keep => group.foldlM (fun pruned it =>
        if it.id = keep.id ∨ it.status = DONE then pure pruned
        else do
          let found ← findings_of it.id
          found.foldlM (fun _ finding => replace { finding with
            content := { finding.content with work_id := some keep.id } }) ()
          edit false (WorkList.prune it.id (some [FOLLOW_UP]))
          pure (pruned ++ [it.id])) pruned) []

/-! ## Findings of finished work -/

/-- The text up to a blank behind the end of a sentence. -/
def upToSentence : Text → Text
  | c :: d :: rest => if ['.', '!', '?'].contains c && Text.isSpace d then [c] else c :: upToSentence (d :: rest)
  | rest => rest

def first_sentence (text : Text) : Text := (upToSentence (Text.strip text)).take TITLE_CAP

/-- A finding of the cause of a leader, or a leader itself. -/
def groupStep (judge : Judge) (groups : List (Text × List Item)) (it : Item) : List (Text × List Item) :=
  let leaders := groups.map fun group => (group.1, (group.2.head?.map issue).getD [])
  let hit := same_causes judge [(it.id, issue it)] leaders it.id
  if hit = NEW then groups ++ [(it.id, [it])]
  else groups.map fun group => if group.1 = hit then (group.1, group.2 ++ [it]) else group

/-- The groups that describe one cause each, by their leaders. -/
def grouped (judge : Judge) (held : List Item) : List (Text × List Item) := held.foldl (groupStep judge) []

def _group_findings (judge : Judge) (held : List Item) : List (List Item) := (grouped judge held).map Prod.snd

/-- The open finding of the target that the group is merged into, or the last of the group. -/
def leaderOf (opened group : List Item) : Text := ((opened.head?.or group.getLast?).map (·.id)).getD []

def _reown (group : List Item) (target : Item) (origins : Item → Text) : Cmd Unit := do
  let opened ← open_findings target.id
  let leader := leaderOf opened group
  group.foldlM (fun _ it =>
    let payload := { it.content with work_id := some target.id, escaped_from := some (origins it) }
    if it.id ≠ leader then replace { it with content := { payload with same_as := some leader }, status := MERGED }
    else replace { it with content := payload }) ()
  if target.content.escaped_from.getD [] = [] then
    replace { target with content := { target.content with escaped_from := (group.head?.map origins) } }
  else pure ()

/-- The work item with an id. -/
def workOf (progress : List Item) (wid : Text) : Option Item := progress.find? fun it => it.id = wid

/-- The work item that a finding belongs to. -/
def ownerOf (progress : List Item) (it : Item) : Option Item := it.content.work_id.bind (workOf progress)

/-- The open findings of the owners. -/
def heldOf (progress : List Item) (owners : List Text) (opened : List Item) : List Item :=
  opened.filter fun it => it.content.work_id.any owners.contains && (ownerOf progress it).isSome

def epicOf (progress : List Item) (it : Item) : Text := ((ownerOf progress it).bind (·.content.epic)).getD []

/-- The story that the findings of an owner come from, or else the owner. -/
def parentOf (progress : List Item) (owner : Item) : Item := (workOf progress (story_of owner)).getD owner

/-- What is proposed for findings that no follow-up owns. -/
def proposal (group : List Item) : FollowUp :=
  let issue := (group.head?.map issue).getD []
  { title := first_sentence issue, reason := issue }

/-- The item with an id, which is filed if it is not there. -/
def targetOf (made : Item) : Cmd (Option Item) := do
  match ← find made.id with
  | some target => pure (some target)
  | none => do
    let _ ← file [made] (lit "ownership")
    find made.id

/-- Hands a group to the follow-up of its text. -/
def handNew (progress : List Item) (owner : Item) (origins : Item → Text) (moved : ℕ) (group : List Item) : Cmd ℕ := do
  match ← follow_up_items (parentOf progress owner) [proposal group] with
  | [] => pure moved
  | made :: _ =>
    match ← targetOf made with
    | none => pure moved
    | some target => do
      _reown group target origins
      pure (moved + group.length)

/-- The findings of one owner, group by group. -/
def handOwner (judge : Judge) (progress unmatched : List Item) (origins : Item → Text) (moved : ℕ) (wid : Text) : Cmd ℕ :=
  match workOf progress wid with
  | none => pure moved
  | some owner => (_group_findings judge (unmatched.filter fun it => it.content.work_id = some wid)).foldlM
      (handNew progress owner origins) moved

/-- The findings that a follow-up owns. -/
def handTo (same : Text → Text) (mine : List Item) (origins : Item → Text) (moved : ℕ) (fu : Item) : Cmd ℕ :=
  let group := mine.filter fun it => same it.id = fu.id
  if group = [] then pure moved
  else do
    _reown group fu origins
    pure (moved + group.length)

/-- The findings of one epic. -/
def ownEpic (judge : Judge) (owners : List Text) (file_new : Bool) (progress held : List Item) (moved : ℕ) (epic : Text) :
    Cmd ℕ := do
  let mine := held.filter fun it => epicOf progress it = epic
  let origins := fun it => ((ownerOf progress it).map story_of).getD []
  let followUps ← items (some [FOLLOW_UP])
  let targets := followUps.filter fun fu =>
    [PENDING, ACTIVE].contains fu.status && !owners.contains fu.id && fu.content.epic.getD [] = epic
  let same := same_causes judge (mine.map fun it => (it.id, issue it)) (targets.map fun fu => (fu.id, fu.content.title.getD []))
  let moved ← targets.foldlM (handTo same mine origins) moved
  if file_new then
    let unmatched := mine.filter fun it => same it.id = NEW
    (unmatched.filterMap (·.content.work_id)).eraseDups.foldlM (handOwner judge progress unmatched origins) moved
  else pure moved

def own (judge : Judge) (owners : Option (List Text)) (file_new : Bool) : Cmd ℕ := do
  let progress ← items (some PROGRESS_KINDS)
  let owners := owners.getD ((progress.filter fun it => it.status = DONE).map (·.id))
  let opened ← open_findings []
  let held := heldOf progress owners opened
  (held.map (epicOf progress)).eraseDups.foldlM (ownEpic judge owners file_new progress held) 0

/-! ## The states of the flows -/

/-- What a flow does to the list. -/
inductive Op where
  /-- `Coder.start` -/
  | launch (entries : List Entry)
  | file_findings (judge : Judge) (work_id source : Text) (number : ℤ) (findings : List Report) (caller : Text)
  /-- A verdict on answers: settled, declined or open again. -/
  | settle (ids : List Text) (status : Text) (h : status ∈ [SETTLED, DECLINED, OPEN])
  | own (judge : Judge) (owners : Option (List Text)) (file_new : Bool)
  | consolidate
  /-- `Coder.route` takes the next item. -/
  | claim
  | standing
  | amend (epic : Text) (entries : List Entry)

/-- `Coder._item` -/
def _item : Cmd Item := do
  let progress ← items (some PROGRESS_KINDS)
  match progress.find? fun it => it.status = ACTIVE with
  | some it => pure it
  | none => throw (.failed (lit "no story or follow-up is active on the worklist"))

def program : Op → Cmd Unit
  | .launch entries => do
    let _ ← file (story_items entries 0 none) (lit "launch")
    pure ()
  | .file_findings judge work_id source number findings caller => do
    let _ ← file_findings judge work_id source number findings caller
    pure ()
  | .settle ids status _ => move ids status FINDING (lit "settlement")
  | .own judge owners file_new => do
    let _ ← own judge owners file_new
    pure ()
  | .consolidate => do
    let _ ← consolidate
    pure ()
  | .claim => edit false fun rows => (WorkList.claim SCHEME [] (some PROGRESS_KINDS) true 1 ACTIVE rows).2
  | .standing => do
    let it ← _item
    move [it.id] DONE it.kind (lit "standing")
  | .amend epic entries => do
    let _ ← amend epic entries
    pure ()

/-- A list with nothing on it. -/
def empty : State := ⟨[], []⟩

/-- The whole program of an operation. -/
def run (op : Op) : Prog State (Except Raised Unit) := (program op).run

end Stablemate.Coder
