import Stablemate.Model.Settle

/-!
# Settling review findings on their evidence (`coder/shared/review.py`)

`settle_findings` takes the answers that `settle_answers` reads, and checks each one: the commits, the
paths and the tests that a fix cites against the story's code repositories, the test or the two reasons
of a decline.

What git and the disk say of a repository is part of the repository. `_git` is false where git cannot
run. What is only logged is left out.
-/

namespace Stablemate.Review

open Settle (Answer AnswerFile AnswerLedger StoryRef settle_answers)

/-- A code repository of the story, as the checks see it. -/
structure CodeRepo where
  path : Text
  is_dir : Bool := true
  /-- `changed_files`, relative to the repository. -/
  changed : List Text
  /-- The text of a file, if it can be read and is UTF-8. -/
  read_text : Text → Option Text
  /-- `git cat-file -e sha^{commit}` -/
  has_commit : Text → Bool
  /-- `git grep -q -F -e test` -/
  greps : Text → Bool

/-- `Path(repo).name`: the last part that is not `.`. -/
def CodeRepo.name (repo : CodeRepo) : Text :=
  ((repo.path.splitOn '/').filter fun part => part ≠ [] ∧ part ≠ ['.']).getLast?.getD []

/-- `str.lstrip(chars)` -/
def lstrip (chars text : Text) : Text := text.dropWhile (List.contains chars)

/-- `wanted in (path, f"{name}/{path}")` for a changed file of a repository. -/
def isChanged (repos : List CodeRepo) (wanted : Text) : Bool :=
  repos.any fun repo => repo.changed.any fun path => wanted = path || wanted = repo.name ++ ['/'] ++ path

def _cites_change (cited : Text) (repos : List CodeRepo) : Bool :=
  isChanged repos (lstrip ['.', '/'] (Text.strip cited))

def _names_test (test : Text) (repos : List CodeRepo) : Bool :=
  repos.any fun repo => repo.changed.any fun path => (repo.read_text path).any fun text => Text.contains test text

/-- `evidence_gap`: what is said of the first citation that does not hold up, or nothing. -/
def evidence_gap (answer : Answer) (repos : List CodeRepo) : Text :=
  match answer.commits.find? fun sha => !repos.any fun repo => repo.has_commit sha with
  | some sha => "commit ".toList ++ sha ++ " is in none of the story's code repos".toList
  | none =>
    match answer.paths.find? fun path => !_cites_change path repos with
    | some path =>
      "path ".toList ++ path ++ " is not among the files this story changed in its code repos".toList
    | none =>
      match answer.tests.find? fun test => !_names_test test repos with
      | some test => "test ".toList ++ test ++ " appears in no file this story changed".toList
      | none => []

def NOT_A_DEFECT : Text := "not a defect".toList

def COINCIDENCE : Text := "coincidence:".toList

def MARKS : Text := " *_\x60\"'".toList

def _not_a_defect (reason : Text) : Bool := NOT_A_DEFECT.isPrefixOf (Text.lower (lstrip MARKS reason))

def decline_gap (answer : Answer) (repos : List CodeRepo) : Text :=
  if !_not_a_defect answer.reason then []
  else if answer.tests = [] then
    "a \"not a defect\" decline cites no test: add a \x60- test:\x60 naming a test that ".toList ++
      "drives this finding's own case and passes, or fix the finding".toList
  else
    match answer.tests.find? fun test => !repos.any fun repo => repo.greps test with
    | some test => "test ".toList ++ test ++ " appears in no tracked file of the story's code repos".toList
    | none => []

def coincidence_gap (answer : Answer) : Text :=
  let reason := lstrip MARKS answer.reason
  let parts := (((reason.drop COINCIDENCE.length).splitOn ';').map fun part => Text.lower (Text.strip part)).filter (· ≠ [])
  if COINCIDENCE.isPrefixOf (Text.lower reason) && 2 ≤ parts.eraseDups.length then []
  else
    "a Reuse finding is declined only as a coincidence: open the reason with \"coincidence:\" ".toList ++
      "and give two different reasons the copies change, separated by \";\", one per copy. ".toList ++
      "Otherwise extract the repeated code to one owner (code-structure rule 2.12)".toList

structure Settlement where
  settled : List Text
  declined : List Text
  open_ : List Text
  /-- What was answered and does not hold up, with the reason. -/
  rejected : List (Text × Text)
  errors : List Text

/-- What `settle_findings` raises. -/
inductive Raised
  | failed (message : Text)
  | value (message : Text)
  /-- Git refuses the commit of the ledger. -/
  | git (message : Text)

/-- The gap of an answered id. -/
def gapOf (ledger : AnswerLedger) (gap : Answer → Text) (fid : Text) : Text :=
  ((ledger.answers.lookup fid).map gap).getD []

/-- The checks of a ledger against the repositories. -/
def check (ledger : AnswerLedger) (repos : List CodeRepo) (reuse : List Text) : Settlement :=
  let fix := gapOf ledger fun answer => evidence_gap answer repos
  let decline (fid : Text) : Text :=
    gapOf ledger (fun answer => if reuse.contains fid then coincidence_gap answer else decline_gap answer repos) fid
  let declined := ledger.declined.map Prod.fst
  let rejected := (ledger.fixed.filter fun fid => fix fid ≠ []).map (fun fid => (fid, fix fid)) ++
    (declined.filter fun fid => decline fid ≠ []).map fun fid => (fid, decline fid)
  { settled := ledger.fixed.filter fun fid => fix fid = []
    declined := declined.filter fun fid => decline fid = []
    open_ := ledger.open_ ++ rejected.map Prod.fst
    rejected
    errors := ledger.errors }

/-- `settle_findings`. The ledger is committed in between; `committed` is the message with which git
refuses that, if it does. -/
def settle_findings (story_id : Text) (story : StoryRef AnswerFile) (filed : List Text) (repos : List CodeRepo)
    (reuse : List Text) (committed : Except Text Unit) : Except Raised Settlement :=
  if story_id = [] then .error (.failed "settle_findings needs the story id".toList)
  else
    let ledger := settle_answers story filed
    match story.resolve with
    | .error message => .error (.value message)
    | .ok _ =>
      match committed with
      | .error message => .error (.git message)
      | .ok () => .ok (check ledger (repos.filter CodeRepo.is_dir) reuse)

end Stablemate.Review
