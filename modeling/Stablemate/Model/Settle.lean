import Stablemate.Lib.Keyed
import Stablemate.Model.Archive
import Stablemate.Model.Refs

/-!
# Review settlement (`ostler/edit.py`, `ostler/answers.py`)

* `settle_review` reads `review-resolution.json` and what its findings cite, and plans the
  settlement ledger and the story's status.
* `settle_answers` reads the sections of a Markdown answer list and settles the filed finding ids.

The file system, the Markdown parser and `repr` are parameters. A Python exception that leaves a
function is `none`.
-/

namespace Stablemate.Settle

open PyJson (Value Key Entries)
open Archive (truthy)

def STATUS_APPLIED : Text := "Review fixes applied".toList

def STATUS_BLOCKED : Text := "Blocked".toList

def RESOLUTION_FILE : Text := "review-resolution.json".toList

/-! ## Equality of JSON values -/

/-- The number that a number or a truth value is. -/
def number : Value → Option ℚ
  | .bool b => some (if b then 1 else 0)
  | .int i => some i
  | .float (.fin x _) => some x
  | _ => none

/-- `==` of two values that hold no others. -/
def scalarEq (v w : Value) : Bool :=
  match v, w with
  | .none, .none => true
  | .str s, .str t => s = t
  | .float .inf, .float .inf => true
  | .float .negInf, .float .negInf => true
  | v, w =>
    match number v, number w with
    | some x, some y => x = y
    | _, _ => false

mutual

/-- `==`, for what `json.loads` makes. -/
def eqv : Value → Value → Bool
  | .list xs, .list ys => eqvAll xs ys
  | .dict kvs, .dict kws => decide (kvs.length = kws.length) && eqvEntries kvs kws
  | v, w => scalarEq v w

/-- Items that are one object are equal; `json.loads` has one NaN. -/
def eqvItem : Value → Value → Bool
  | .float .nan, .float .nan => true
  | .list xs, .list ys => eqvAll xs ys
  | .dict kvs, .dict kws => decide (kvs.length = kws.length) && eqvEntries kvs kws
  | v, w => scalarEq v w

def eqvAll : List Value → List Value → Bool
  | [], [] => true
  | x :: xs, y :: ys => eqvItem x y && eqvAll xs ys
  | _, _ => false

def eqvEntries : Entries → Entries → Bool
  | [], _ => true
  | (k, v) :: kvs, kws =>
    (match kws.lookup k with
      | some w => eqvItem v w
      | none => false) && eqvEntries kvs kws

end

/-! ## Verifying a finding -/

/-- What lies outside the two functions. -/
structure World where
  /-- `repr` of a JSON value. -/
  repr : Value → Text
  /-- `str.isdigit()` -/
  isdigit : Text → Bool
  /-- `int(text)`; `none` where it raises. -/
  int : Text → Option ℤ
  /-- `(spec_dir / rel).is_file()` -/
  is_file : Text → Bool
  /-- `json.loads((spec_dir / rel).read_text())`, or the text of its `ValueError` or `OSError`. -/
  load : Text → Except Text Value

/-- `d.get(key, default)` -/
def getOr (d : Entries) (key : String) (default : Value) : Value := (d.lookup (.str key.toList)).getD default

section Verify

variable (W : World)

/-- `str(v)` -/
def strOf : Value → Text
  | .str s => s
  | v => W.repr v

/-- `_navigate`: `none` when it raises, `some none` when the pointer is not found. -/
def _navigate (cur : Value) : List Text → Option (Option Value)
  | [] => some (some cur)
  | part :: parts =>
    match cur with
    | .dict kvs =>
      match kvs.lookup (.str part) with
      | some v => _navigate v parts
      | none => some none
    | .list xs =>
      if W.isdigit (part.dropWhile (· = '-')) then
        match W.int part with
        | none => none
        | some idx =>
          if -(xs.length : ℤ) ≤ idx ∧ idx < xs.length then
            _navigate ((xs[(if idx < 0 then idx + xs.length else idx).toNat]?).getD .none) parts
          else some none
      else some none
    | _ => some none

/-- What `for x in v or []` goes through. -/
def iterate (v : Value) : Option (List Value) :=
  if truthy v = false then some []
  else
    match v with
    | .list xs => some xs
    | .str s => some (s.map fun c => .str [c])
    | .dict kvs => kvs.mapM fun kv =>
        match kv.1 with
        | .str k => some (.str k)
        | _ => none
    | _ => none

/-- One cited artifact: the reason why it does not hold, empty when it does. -/
def artifactGap (fid : Value) : Value → Option Text
  | .str rel =>
    if W.is_file rel then some []
    else some (strOf W fid ++ ": cited artifact '".toList ++ rel ++ "' does not exist".toList)
  | _ => none

/-- One assertion. -/
def assertionGap (fid : Value) : Value → Option Text
  | .dict a =>
    match getOr a "file" (.str []) with
    | .str afile =>
      if W.is_file afile = false then
        some (strOf W fid ++ ": assertion file '".toList ++ afile ++ "' does not exist".toList)
      else
        match W.load afile with
        | .error exc =>
          some (strOf W fid ++ ": assertion file '".toList ++ afile ++ "' is not readable JSON (".toList ++ exc ++
            ")".toList)
        | .ok data =>
          match getOr a "pointer" (.str []) with
          | .str pointer =>
            let expected := getOr a "equals" .none
            match _navigate W data (pointer.splitOn '.') with
            | none => none
            | some none =>
              some (strOf W fid ++ ": assertion pointer '".toList ++ pointer ++ "' not found in '".toList ++ afile ++
                "'".toList)
            | some (some actual) =>
              if eqv actual expected = false then
                some (strOf W fid ++ ": assertion '".toList ++ afile ++ ":".toList ++ pointer ++ "' is ".toList ++
                  W.repr actual ++ ", expected exactly ".toList ++ W.repr expected)
              else some []
          | _ => none
    | _ => none
  | a => some (strOf W fid ++ ": assertion must be an object {file, pointer, equals}, got ".toList ++ W.repr a)

/-- The loop over what is cited: the first reason. -/
def firstGap (gap : Value → Option Text) : List Value → Option Text
  | [] => some []
  | x :: xs =>
    match gap x with
    | some [] => firstGap gap xs
    | other => other

def fidOf (finding : Entries) : Value := getOr finding "id" (.str "<unnamed finding>".toList)

/-- The first reason among the things that a field cites. -/
def citedGap (gap : Value → Option Text) (cited : Value) : Option Text :=
  match iterate cited with
  | none => none
  | some xs => firstGap gap xs

def _verify_finding (finding : Entries) : Option Text :=
  match citedGap (artifactGap W (fidOf finding)) (getOr finding "artifacts" (.list [])) with
  | some [] => citedGap (assertionGap W (fidOf finding)) (getOr finding "assertions" (.list []))
  | other => other

/-! ## Settling a review -/

/-- What a finding is counted as. -/
inductive Standing
  | verified
  | opened (reason : Text)
  | blocked
  | declined (reason : Text)
deriving DecidableEq

/-- `str(finding.get("reason") or "").strip()` -/
def reasonOf (finding : Entries) : Text :=
  let reason := getOr finding "reason" .none
  Text.strip (strOf W (if truthy reason then reason else .str []))

/-- One round of the loop; `.error` is the plan's error. -/
def standing (finding : Value) : Option (Except Text (Value × Standing)) :=
  match finding with
  | .dict finding =>
    let fid := fidOf finding
    let disposition := Text.lower (strOf W (getOr finding "disposition" (.str [])))
    if disposition = "addressed".toList then
      match _verify_finding W finding with
      | none => none
      | some [] => some (.ok (fid, .verified))
      | some reason => some (.ok (fid, .opened reason))
    else if disposition = "blocked".toList then some (.ok (fid, .blocked))
    else if disposition = "declined".toList then
      if reasonOf W finding = [] then
        some (.error (strOf W fid ++ ": a declined finding needs a non-empty reason".toList))
      else some (.ok (fid, .declined (reasonOf W finding)))
    else
      some (.error (strOf W fid ++ ": unknown disposition '".toList ++ disposition ++ "'".toList))
  | _ => none

/-- The loop over the findings, up to the first error. -/
def standings : List Value → Option (Except Text (List (Value × Standing)))
  | [] => some (.ok [])
  | finding :: findings =>
    match standing W finding with
    | none => none
    | some (.error message) => some (.error message)
    | some (.ok row) =>
      match standings findings with
      | some (.ok rows) => some (.ok (row :: rows))
      | other => other

/-- The settlement sidecar. -/
structure Ledger where
  verified : List Value
  declined : List (Value × Text)
  open_ : List (Value × Text)
  blocked : List Value
  all_verified : Bool
  all_settled : Bool
  any_blocked : Bool

def isVerified (row : Value × Standing) : Option Value := if row.2 = .verified then some row.1 else none

def isBlocked (row : Value × Standing) : Option Value := if row.2 = .blocked then some row.1 else none

def isDeclined (row : Value × Standing) : Option (Value × Text) :=
  match row.2 with
  | .declined reason => some (row.1, reason)
  | _ => none

def isOpen (row : Value × Standing) : Option (Value × Text) :=
  match row.2 with
  | .opened reason => some (row.1, reason)
  | _ => none

def ledgerOf (verdict : Entries) (rows : List (Value × Standing)) : Ledger :=
  let verified := rows.filterMap isVerified
  let declined := rows.filterMap isDeclined
  let open_ := rows.filterMap isOpen
  let blocked := rows.filterMap isBlocked
  let any_blocked := !blocked.isEmpty || Text.lower (strOf W (getOr verdict "status" (.str []))) = "blocked".toList
  { verified, declined, open_, blocked
    all_verified := open_.isEmpty && !any_blocked && verified.length = rows.length
    all_settled := open_.isEmpty && !any_blocked && verified.length + declined.length = rows.length
    any_blocked }

/-- A planned write: the ledger, or the story's page with the status it is given. -/
inductive FileChange
  | ledger (new : Ledger)
  | story (status old new : Text)

/-- An empty `error` stands for none. -/
structure EditPlan where
  changes : List FileChange := []
  error : Text := []

/-- The story's page and what a status makes of it: `_story_status_change` with `markdown` and `yaml`. -/
structure StoryPage where
  slug : Text
  story_md : Option Text
  restatus : Text → Text → Text

/-- What `graph.find_story` and `graph.no_story` make of a reference. -/
inductive StoryRef (α : Type)
  | found (story : α)
  | ambiguous (ref paths : Text)
  | unknown (ref : Text)
  | isSlug (ref eid : Text)
  | unminted (ref : Text)

def StoryRef.resolve {α : Type} : StoryRef α → Except Text α
  | .found story => .ok story
  | .ambiguous ref paths =>
    .error ("story reference ".toList ++ Text.repr ref ++ " is ambiguous: ".toList ++ paths)
  | .unknown ref => .error ("no story with id '".toList ++ ref ++ "'".toList)
  | .isSlug ref eid =>
    .error ("'".toList ++ ref ++ "' is a story slug, not a story id; ostler commands take the id: ".toList ++ eid)
  | .unminted ref =>
    .error ("'".toList ++ ref ++ "' is a story slug and the story has no id yet; give it an `id:` first ".toList ++
      "(`ostler create story` mints one)".toList)

/-- The old and the new text of the page, or the error of the plan that is returned instead. -/
def _story_status_change (page : StoryPage) (status : Text) : Except Text (Text × Text) :=
  match page.story_md with
  | none => .error ("story '".toList ++ page.slug ++ "' has no story.md".toList)
  | some raw => .ok (raw, page.restatus status raw)

/-- The status that the plan gives the story, if any. -/
def statusOf (status_write : Bool) (ledger : Ledger) : Option Text :=
  if status_write = false then none
  else if ledger.any_blocked then some STATUS_BLOCKED
  else if ledger.all_settled then some STATUS_APPLIED
  else none

/-- The plan for a ledger. -/
def planOf (page : StoryPage) (status_write : Bool) (ledger : Ledger) : EditPlan :=
  match statusOf status_write ledger with
  | none => { changes := [.ledger ledger] }
  | some status =>
    match _story_status_change page status with
    | .error message => { error := message }
    | .ok (old, new) => { changes := .ledger ledger :: if old ≠ new then [.story status old new] else [] }

/-- `settle_review`. The resolution is its JSON, or the message of the reader. -/
def settle_review (spec_dir : Text) (story : StoryRef StoryPage) (resolution : Option (Except Text Value))
    (status_write : Bool) : Option EditPlan :=
  match story.resolve with
  | .error message => some { error := message }
  | .ok page =>
    match resolution with
    | none => some { error := "no ".toList ++ RESOLUTION_FILE ++ " in ".toList ++ spec_dir }
    | some (.error exc) => some { error := RESOLUTION_FILE ++ " is not valid JSON (".toList ++ exc ++ ")".toList }
    | some (.ok (.dict verdict)) =>
      match getOr verdict "findings" (.list []) with
      | .list (finding :: findings) =>
        match standings W (finding :: findings) with
        | none => none
        | some (.error message) => some { error := message }
        | some (.ok rows) => some (planOf page status_write (ledgerOf W verdict rows))
      | _ => some { error := RESOLUTION_FILE ++ " has no findings".toList }
    | some (.ok _) => none

/-- The files that the library call writes. -/
def written (plan : EditPlan) (write : Bool) : List FileChange := if write && plan.error.isEmpty then plan.changes else []

end Verify

/-! ## Answer lists -/

inductive Disposition
  | fixed
  | declined
deriving DecidableEq

structure Answer where
  finding_id : Text
  disposition : Disposition
  commits : List Text := []
  paths : List Text := []
  tests : List Text := []
  reason : Text := []
deriving DecidableEq

/-- A section of the answer list: its heading, the text below it, and the text of each bullet in it
and in its sub-sections, in the order of `walk`. -/
structure Section where
  level : ℕ
  title : Text
  body : Text
  bullets : List Text

/-- `_closing_backtick_run`: how far on the next run of exactly `run_len` backticks is. `run` is the
length of the run that is being read. -/
def closingRun (run_len : ℕ) : ℕ → ℕ → Text → Option ℕ
  | run, i, [] => if run = run_len then some (i - run) else none
  | run, i, c :: text =>
    if c = '`' then closingRun run_len (run + 1) (i + 1) text
    else if run = run_len then some (i - run)
    else closingRun run_len 0 (i + 1) text

/-- The loop of `label_colon_index`, with the characters still to be jumped over. -/
def colonFrom : ℕ → ℕ → Text → Option ℕ
  | _, _, [] => none
  | skip + 1, i, _ :: text => colonFrom skip (i + 1) text
  | 0, i, c :: text =>
    if c = ':' then some i
    else if c = '`' then
      let run_len := (text.takeWhile (· = '`')).length + 1
      match closingRun run_len 0 0 (text.drop (run_len - 1)) with
      | some off => colonFrom (run_len + off + run_len - 1) (i + 1) text
      | none => colonFrom 0 (i + 1) text
    else colonFrom 0 (i + 1) text

def label_colon_index (text : Text) : Option ℕ := colonFrom 0 0 text

/-- `Bullet.label` -/
def labelOf (text : Text) : Text :=
  match label_colon_index text with
  | some idx => Text.lower (Refs.stripOf "*_` ".toList (Text.strip (text.take idx)))
  | none => []

/-- `Bullet.value` -/
def valueOf (text : Text) : Text :=
  match label_colon_index text with
  | some idx => Text.strip (text.drop (idx + 1))
  | none => []

def _unquoted (text : Text) : Text := Text.strip (Refs.stripOf ['`'] (Text.strip text))

/-- What `_collect_evidence` puts under a label. -/
def evidence (label : String) (s : Section) : List Text :=
  s.bullets.filterMap fun bullet =>
    if labelOf bullet = label.toList ∧ _unquoted (valueOf bullet) ≠ [] then some (_unquoted (valueOf bullet)) else none

def _reason_start (line : Text) : Option Text :=
  let stripped := Text.strip line
  match label_colon_index stripped with
  | some idx =>
    if Text.lower (Refs.stripOf "*_ ".toList (Text.strip (stripped.take idx))) = "reason".toList then
      some ((stripped.drop (idx + 1)).dropWhile (List.contains "*_ ".toList))
    else none
  | none => none

/-- The first `Reason:` line and everything after it. -/
def reasonLines : List Text → Option Text
  | [] => none
  | line :: lines =>
    match _reason_start line with
    | some first => some (Text.strip (['\n'].intercalate (first :: lines)))
    | none => reasonLines lines

def _reason (s : Section) : Text :=
  match reasonLines (s.body.splitOn '\n') with
  | some reason => reason
  | none =>
    match s.bullets.find? fun bullet => labelOf bullet = "reason".toList ∧ valueOf bullet ≠ [] with
    | some bullet => valueOf bullet
    | none => []

structure Entry where
  finding_id : Text
  answer : Option Answer
  error : Text

/-- The answer that a section gives. -/
def answerOf (finding_id disposition : Text) (s : Section) : Answer where
  finding_id
  disposition := if disposition = "fixed".toList then .fixed else .declined
  commits := evidence "commit" s
  paths := evidence "path" s
  tests := evidence "test" s
  reason := _reason s

/-- An answer needs evidence for a fix and a reason for a decline. -/
def entryOf (answer : Answer) : Entry :=
  if answer.disposition = .fixed ∧ answer.commits = [] ∧ answer.paths = [] ∧ answer.tests = [] then
    ⟨answer.finding_id, none,
      answer.finding_id ++ ": a fixed answer cites no evidence ('- commit: ', '- path: ' or '- test: ')".toList⟩
  else if answer.disposition = .declined ∧ answer.reason = [] then
    ⟨answer.finding_id, none, answer.finding_id ++ ": a declined answer gives no reason ('Reason: ')".toList⟩
  else ⟨answer.finding_id, some answer, []⟩

def _heading (s : Section) : Entry :=
  let title := Text.strip s.title
  let (before, sep, rest) := Refs.partition [':'] title
  let finding_id := _unquoted before
  let disposition := Text.lower (Text.strip rest)
  if sep = false ∨ finding_id = [] ∨ finding_id.any Text.isSpace ∨ disposition = [] then
    ⟨if sep ∧ finding_id ≠ [] then finding_id else [], none,
      "malformed answer heading '## ".toList ++ title ++
        "': expected '## <finding-id>: fixed' or '## <finding-id>: declined'".toList⟩
  else if disposition ≠ "fixed".toList ∧ disposition ≠ "declined".toList then
    ⟨finding_id, none,
      finding_id ++ ": unknown disposition '".toList ++ disposition ++ "' (expected fixed or declined)".toList⟩
  else entryOf (answerOf finding_id disposition s)

structure AnswerList where
  answers : List Answer := []
  errors : List Text := []

/-- How often an id is answered. -/
def counts (entries : List Entry) (finding_id : Text) : ℕ := entries.countP fun e => e.finding_id = finding_id

/-- The second loop of `parse_answers`, with the ids already reported. -/
def collect (all : List Entry) : List Text → List Entry → AnswerList
  | _, [] => {}
  | reported, entry :: entries =>
    if entry.finding_id ≠ [] ∧ 1 < counts all entry.finding_id then
      if entry.finding_id ∈ reported then collect all reported entries
      else
        let rest := collect all (entry.finding_id :: reported) entries
        { rest with
          errors := (entry.finding_id ++ ": answered ".toList ++ PyJson.decimal (counts all entry.finding_id) ++
            " times; answer each finding once".toList) :: rest.errors }
    else
      let rest := collect all reported entries
      if entry.error ≠ [] then { rest with errors := entry.error :: rest.errors }
      else
        match entry.answer with
        | some answer => { rest with answers := answer :: rest.answers }
        | none => rest

/-- The entries of an answer list, from the sections that `walk_sections` gives. -/
def entriesOf (sections : List Section) : List Entry := (sections.filter (·.level = 2)).map _heading

def parse_answers (sections : List Section) : AnswerList := collect (entriesOf sections) [] (entriesOf sections)

/-- `{answer.finding_id: answer for answer in self.answers}`, known by its keys. -/
def AnswerList.by_id (parsed : AnswerList) : List Answer := parsed.answers.foldl (Keyed.upsert Answer.finding_id) []

structure AnswerLedger where
  fixed : List Text
  declined : List (Text × Text)
  open_ : List Text
  unknown : List Text
  errors : List Text
  answers : List (Text × Answer)
  all_answered : Bool

/-- The story's answer list: no file, the message of an `OSError`, or its sections. -/
abbrev AnswerFile := Option (Except Text (List Section))

/-- `errors` and `by_id`, as far as the list can be read. -/
def readAnswers (story : StoryRef AnswerFile) : List Text × List Answer :=
  match story.resolve with
  | .error message => ([message], [])
  | .ok none => ([], [])
  | .ok (some (.error message)) => ([message], [])
  | .ok (some (.ok sections)) => ((parse_answers sections).errors, (parse_answers sections).by_id)

def settle_answers (story : StoryRef AnswerFile) (filed : List Text) : AnswerLedger :=
  let wanted := filed.eraseDups
  let (errors, by_id) := readAnswers story
  let answered := wanted.filterMap fun fid => (Keyed.get Answer.finding_id by_id fid).map fun a => (fid, a)
  let open_ := wanted.filter fun fid => (Keyed.get Answer.finding_id by_id fid).isNone
  { fixed := (answered.filter fun row => row.2.disposition = .fixed).map Prod.fst
    declined := (answered.filter fun row => row.2.disposition = .declined).map fun row => (row.1, row.2.reason)
    open_
    unknown := (by_id.map Answer.finding_id).filter fun fid => !List.contains wanted fid
    errors
    answers := answered
    all_answered := open_.isEmpty }

end Stablemate.Settle
