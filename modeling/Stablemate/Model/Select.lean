import Stablemate.Lib.Dfs
import Stablemate.Lib.Keyed
import Stablemate.Model.PyJson

/-!
# Story selection (`ostler/select.py`)

`dag_order` and `epic_cycle` are depth-first searches over the dependencies between the slugs of
an epic; the first passes over a story that it is still at, the second stops there.
`next_story_report` says which story is next, or why there is none.
-/

namespace Stablemate.Select

/-- The fields of a story that selection reads or reports. -/
structure Story where
  slug : Text
  title : Text := []
  path : Text := []
  seed_items : List Text := []
  dependencies : List Text := []
  eid : Text := []
  /-- Whether there is a `story.md`. -/
  story_md : Bool := false
  status : Text := []
  unwritten_sections : List Text := []
  unwritten_detail : List Text := []
deriving DecidableEq

def Story.authored (story : Story) : Bool := story.story_md && story.unwritten_sections.isEmpty

def Story.aliases (story : Story) : List Text := ([story.eid, story.slug].filter (· ≠ [])).eraseDups

structure Epic where
  name : Text
  stories : List Story
deriving DecidableEq

structure Graph where
  epics : List Epic

def _DONE_STATUSES : List Text :=
  ["qa passed".toList, "passed".toList, "done".toList, "merged".toList, "complete".toList]

def is_done (status : Text) : Bool := List.contains _DONE_STATUSES (Text.lower (Text.strip status))

/-! ## The epic of a name (`registry.epic_seq`, `registry.epic_slug`) -/

section ByName

-- `\d`
variable (isDecimal : Char → Bool)

/-- `EPIC_DIR_RE.match(name.strip())`: the digits and the slug. No text of digits is followed by
another digit, so there is one way to match; `.` reads no line break. -/
def epicDir (name : Text) : Option (Text × Text) :=
  let name := Text.strip name
  let digits := name.takeWhile isDecimal
  match name.drop digits.length with
  | '-' :: slug => if 4 ≤ digits.length ∧ slug ≠ [] ∧ '\n' ∉ slug then some (digits, slug) else none
  | _ => none

def epic_slug (name : Text) : Text := ((epicDir isDecimal name).map Prod.snd).getD (Text.strip name)

def epic_by_name (graph : Graph) (name : Text) : Option Epic :=
  let exact := graph.epics.find? fun e => e.name = name
  if exact.isSome || (epicDir isDecimal name).isSome then exact
  else graph.epics.find? fun e => epic_slug isDecimal e.name = epic_slug isDecimal name

end ByName

/-! ## The two searches -/

/-- `{s.slug: s for s in epic.stories if s.slug}`, at one key: the last story of a slug stands for it. -/
def Epic.by_slug (epic : Epic) (slug : Text) : Option Story :=
  epic.stories.reverse.find? fun s => decide (s.slug ≠ []) && decide (s.slug = slug)

/-- The keys of `by_slug`, in their order. -/
def Epic.slugs (epic : Epic) : List Text := ((epic.stories.map Story.slug).filter (· ≠ [])).eraseDups

/-- The dependencies that a visit follows. -/
def Epic.deps (epic : Epic) (slug : Text) : List Text :=
  match epic.by_slug slug with
  | some story => story.dependencies.filter fun dep => (epic.by_slug dep).isSome
  | none => []

/-- A visit goes no deeper than there are slugs; one more, and no visit runs out. -/
def Epic.depth (epic : Epic) : ℕ := epic.slugs.length + 1

/-- A slug that is in `walking` is passed over. -/
def dag_order (epic : Epic) : Option (List Story) :=
  match Dfs.visitAll epic.deps (fun _ _ => none) epic.depth ((epic.stories.map Story.slug).filter (· ≠ [])) with
  | some (.ok order) => some (order.filterMap epic.by_slug)
  | _ => none

/-- A slug that is in `stack` ends the search. -/
def epic_cycle (epic : Epic) : Option (List Text) :=
  match Dfs.visitAll epic.deps Dfs.cycleOf epic.depth epic.slugs with
  | some (.error cycle) => some cycle
  | some (.ok _) => some []
  | none => none

/-! ## The report -/

inductive ReportState
  | ready
  | blocked
  | done
  | noEpic
  | noStories
deriving DecidableEq

/-- `_story_dict` -/
structure StoryDict where
  slug : Text
  id : Text
  aliases : List Text
  epic : Text
  title : Text
  status : Text
  path : Text
  covers : List Text
  dependsOn : List Text
  authored : Bool
  unwrittenSections : List Text
deriving DecidableEq

structure Report where
  state : ReportState
  story : Option StoryDict := none
  epic : Text
  total : ℕ
  done : ℕ
  remaining : List Text
  skipped : List Text
  waiting_on : List (Text × List Text)
  detail : Text
deriving DecidableEq

def _runnable (story : Story) (done skip : List Text) : Bool :=
  if is_done story.status || List.contains skip story.slug then false
  else story.dependencies.all fun dep => List.contains done dep

def _story_dict (epic : Epic) (story : Story) : StoryDict where
  slug := story.slug
  id := story.eid
  aliases := story.aliases
  epic := epic.name
  title := story.title
  status := story.status
  path := story.path
  covers := story.seed_items
  dependsOn := story.dependencies
  authored := story.authored
  unwrittenSections := story.unwritten_sections

/-- `sep.join(texts)` -/
def join (sep : String) (texts : List Text) : Text := sep.toList.intercalate texts

/-- `str(n)` -/
def count (n : ℕ) : Text := PyJson.decimal n

def _author_report (epic : Epic) (ordered : List Story) (skip : List Text) : Report :=
  let pending := ordered.filter fun s => !s.authored
  let skipped := (pending.filter fun s => List.contains skip s.slug).map Story.slug
  let report (state : ReportState) (story : Option StoryDict) (detail : Text) : Report :=
    { state, story, epic := epic.name, total := ordered.length,
      done := (ordered.filter Story.authored).length, remaining := pending.map Story.slug, skipped,
      waiting_on := [], detail }
  match pending.find? fun s => !List.contains skip s.slug with
  | some story =>
    let empty := join ", " story.unwritten_detail
    let empty := if empty = [] then "no story.md".toList else empty
    report .ready (some (_story_dict epic story))
      (story.slug ++ " is unwritten (".toList ++ empty ++ ")".toList)
  | none =>
    if pending ≠ [] then
      report .blocked none ("all ".toList ++ count pending.length ++ " unauthored stories in '".toList ++ epic.name ++
        "' were parked this run: ".toList ++ join ", " skipped)
    else report .done none ("all ".toList ++ count ordered.length ++ " stories in '".toList ++ epic.name ++
      "' are authored".toList)

/-- `{s.slug for s in epic.stories if is_done(s.status)}` -/
def doneSlugs (epic : Epic) : List Text := ((epic.stories.filter fun s => is_done s.status).map Story.slug).eraseDups

/-- The stories whose slug is not done, in the order of the epic. -/
def unfinished (epic : Epic) : List Story := epic.stories.filter fun s => !List.contains (doneSlugs epic) s.slug

def unmet (epic : Epic) (story : Story) : List Text :=
  story.dependencies.filter fun dep => !List.contains (doneSlugs epic) dep

/-- `report["waiting_on"]`, as the first loop fills it. -/
def waitingOn (epic : Epic) (skip : List Text) : List (Text × List Text) :=
  ((unfinished epic).filter fun s => !List.contains skip s.slug && !(unmet epic s).isEmpty).foldl
    (fun waiting s => Keyed.upsert Prod.fst waiting (s.slug, unmet epic s)) []

/-- `next_story_report` with `need="build"`, for the epic it has found. -/
def build_report (epic : Epic) (skip : List Text) : Report :=
  let done := doneSlugs epic
  let total := epic.stories.length
  let remaining := (unfinished epic).map Story.slug
  let skipped := ((unfinished epic).filter fun s => List.contains skip s.slug).map Story.slug
  let waiting_on := waitingOn epic skip
  let report : Report :=
    { state := .ready, epic := epic.name, total, done := done.length, remaining, skipped, waiting_on, detail := [] }
  if epic.stories = [] then
    { report with
      state := .noStories
      detail := "epic '".toList ++ epic.name ++ "' lists no stories in `## Stories`".toList }
  else
    match epic.stories.find? fun s => _runnable s done skip with
    | some story =>
      { report with
        state := .ready
        story := some (_story_dict epic story)
        detail := story.slug ++ " is runnable".toList }
    | none =>
      if remaining = [] then
        { report with
          state := .done
          detail := "all ".toList ++ count total ++ " stories in '".toList ++ epic.name ++ "' are done".toList }
      else
        let given_up := if skipped ≠ [] then ["given up this run: ".toList ++ join ", " skipped] else []
        let waiting := waiting_on.map fun row => row.1 ++ " needs ".toList ++ join ", " row.2
        let waiting := if waiting_on ≠ [] then ["waiting on unmet dependencies: ".toList ++ join "; " waiting] else []
        let parts := given_up ++ waiting
        { report with
          state := .blocked
          detail := count remaining.length ++ " of ".toList ++ count total ++ " stories in '".toList ++ epic.name ++
            "' are not done and none is runnable".toList ++
            (if parts ≠ [] then " (".toList ++ join "; " parts ++ ")".toList else []) }

/-- An unknown `need` raises. No epic leaves `dag_order` without a list. -/
def next_story_report (isDecimal : Char → Bool) (graph : Graph) (epic_name : Text) (skip : List Text) (need : Text) :
    Except Text Report :=
  match epic_by_name isDecimal graph epic_name with
  | none =>
    .ok { state := .noEpic, epic := epic_name, total := 0, done := 0, remaining := [], skipped := [], waiting_on := [],
          detail := "no epic named '".toList ++ epic_name ++ "' in the graph".toList }
  | some epic =>
    if need ≠ "build".toList ∧ need ≠ "author".toList then
      .error ("unknown need '".toList ++ need ++ "' (expected 'build' or 'author')".toList)
    else if need = "author".toList ∧ epic.stories ≠ [] then
      match dag_order epic with
      | some ordered => .ok (_author_report epic ordered skip)
      | none => .error []
    else .ok (build_report epic skip)

end Stablemate.Select
