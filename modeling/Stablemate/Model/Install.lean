import Stablemate.Lib.Posix
import Stablemate.Model.Text

/-!
# Installing rendered files (`farrier/outputs.py`, `farrier/ownership.py`, `farrier/managed_blocks.py`)

`install_outputs` refuses outputs that stand in the place of a file that farrier did not
generate, deletes its previous output, writes the new one and keeps its blocks in `.gitignore`
and the root `Makefile`. `check_outputs` reports what departs from a complete install.

* A path is a `Place` of the tree that the repository is part of; the keys of an outputs map
  are the places relative to the repository.
* `generated_by` is the `metadata.generated_by` of a text's front matter, as YAML reads it.
* The git hook manager is absent, or `"none"`, which takes farrier's fences out of the files of
  the others.
-/

namespace Stablemate.Install

open Posix

/-! ## Files -/

/-- The bytes of a file, decoded where they are UTF-8. -/
inductive Contents where
  | utf8 (text : Text)
  | other (bytes : List ℕ)
  deriving DecidableEq

structure File where
  contents : Contents
  exec : Bool
  deriving DecidableEq

/-- The place that a relative path spells. -/
def place (path : String) : Place := (path.toList.splitOn '/').reverse

/-- `Path.as_posix` of a relative path. -/
def as_posix (p : Place) : Text := ['/'].intercalate p.reverse

/-- `Path.exists` -/
def present (v : View File) (p : Place) : Bool := (stat v p).isSome

/-- `Path.read_text`, where it does not raise. -/
def read_text (v : View File) (p : Place) : Option Text :=
  match stat v p with
  | some (.file ⟨.utf8 text, _⟩) => some (Text.newlines text)
  | _ => none

/-- `Path.parents` -/
def parents : Place → List Place
  | [] => []
  | _ :: p => p.tails

/-! ## Ownership -/

section Ownership

variable (generated_by : Text → Text)

def TAG : Text := "farrier".toList

def COMMENT_MARKER : Text := "generated by farrier".toList

def COMMENT_SCAN_LINES : ℕ := 12

def BUNDLE_HEADS : List Name := ["SKILL.md".toList, "hook.yml".toList]

def is_tagged (text : Text) : Bool :=
  generated_by text = TAG ||
    Text.contains COMMENT_MARKER (Text.lower (['\n'].intercalate ((text.splitOn '\n').take COMMENT_SCAN_LINES)))

def is_generated (v : View File) (p : Place) : Bool :=
  isFile v p && (read_text v p).any (is_tagged generated_by)

/-- A folder from `parent` up, strictly inside `root`, has a bundle head for which `generated` holds. -/
def bundled (generated : Place → Bool) (root : Place) : Place → Bool
  | [] => false
  | n :: p => decide (Above root (n :: p)) &&
      (BUNDLE_HEADS.any (fun head => generated (head :: n :: p)) || bundled generated root p)

def is_owned (v : View File) (p root : Place) : Bool :=
  is_generated generated_by v p || bundled (is_generated generated_by v) root p.tail

def owned_files (t : FileTree File) (directory : Place) : List Place :=
  if isDir t.view directory then
    (sorted (rglob t directory)).filter fun p => isFile t.view p && is_owned generated_by t.view p directory
  else []

/-- `normpath(path.parent / target)` -/
def link_destination (p : Place) (target : Text) : Place :=
  (parts target).foldl (fun cur part =>
    match part with
    | .up => cur.tail
    | .name n => n :: cur) (base p.tail target)

def is_owned_link (v : View File) (p source_dir : Place) : Bool :=
  match lstat v p with
  | some (.link target) => decide (Above source_dir (link_destination p target))
  | _ => false

/-- A mapping of linked skills directories to the ones they link from. -/
abbrev Links := List (Place × Place)

/-- `links.get(directory)`: a later key replaces an earlier one. -/
def Links.get (links : Links) (directory : Place) : Option Place := links.reverse.lookup directory

def owned_links (t : FileTree File) (directory : Place) (links : Links) : List Place :=
  match links.get directory with
  | none => []
  | some source_dir =>
    if isDir t.view directory then (sorted (iterdir t directory)).filter (is_owned_link t.view · source_dir) else []

/-- The folders below `directory`, those inside others first. -/
def inner_dirs (t : FileTree File) (directory : Place) : List Place :=
  (sorted ((rglob t directory).filter fun p => isDir t.view p && !isLink t.view p)).reverse

def sweep (t : FileTree File) (directory : Place) (links : Links) : FileTree File :=
  if isDir t.view directory then
    let t := (owned_files generated_by t directory).foldl unlink t
    let t := (owned_links t directory links).foldl unlink t
    (inner_dirs t directory).foldl rmdir t
  else t

end Ownership

/-! ## What an install scope owns -/

/-- A pattern of `fnmatch` in which `*` is the only wildcard. -/
def fnmatch : Text → Text → Bool
  | [], name => name.isEmpty
  | c :: pattern, name =>
    if c = '*' then name.tails.any (fnmatch pattern)
    else
      match name with
      | [] => false
      | d :: name => c = d && fnmatch pattern name

/-- The paths below `p` whose names match the segments in turn. -/
def globFrom (t : FileTree File) : List Text → Place → List Place
  | [], p => [p]
  | segment :: segments, p =>
    ((iterdir t p).filter fun q => fnmatch segment (q.headD [])).flatMap (globFrom t segments)

/-- `Path.glob` -/
def glob (t : FileTree File) (repo : Place) (pattern : Text) : List Place := globFrom t (pattern.splitOn '/') repo

def LAUNCHER_AGENTS_MK : Place := place ".agents/agents.mk"

def LAUNCHER_CONTEXT_MANIFEST : Place := place ".agents/agents-context.json"

def LAUNCHER_ROOT_MAKEFILE : Place := place "Makefile"

def GITIGNORE : Place := place ".gitignore"

def LEFTHOOK_INCLUDE : Place := place ".agents/lefthook.farrier.yml"

/-- The directories that an install scope sweeps and the files it names. No directory lies inside
another, and the files that the repository shares with farrier are not among them. -/
structure Managed where
  dirs : List Place
  files : List Place := []
  assumed : List Text := []
  repo_scaffolding : Bool := true
  links : Links := []
  apart : dirs.Pairwise fun d e => ¬ d <:+ e ∧ ¬ e <:+ d
  shared : ∀ p ∈ [GITIGNORE, LAUNCHER_ROOT_MAKEFILE],
    (∀ d ∈ dirs, ¬ d <:+ p) ∧ p ∉ files ∧ ∀ pattern ∈ assumed, fnmatch pattern (as_posix p) = false

def REPO_MANAGED : Managed where
  dirs := [place ".agents/skills", place ".agents/prompts", place ".agents/hooks", place ".claude/skills",
    place ".claude/commands", place ".github/instructions", place ".github/prompts", place ".github/skills",
    place ".github/agents"]
  files := [place ".github/copilot-instructions.md", LAUNCHER_AGENTS_MK, LEFTHOOK_INCLUDE]
  assumed := [".agents/local.compose.yaml".toList, ".agents/agents-context.json".toList,
    ".agents/agents-context.*.json".toList]
  apart := by decide +kernel
  shared := by decide +kernel

/-! ## Outputs -/

structure Rendered where
  text : Text
  executable : Bool := false
  verbatim : Bool := false
  assumed : Bool := false

inductive Output where
  | rendered (content : Rendered)
  | symlink (target : Text)

/-- An outputs map, its paths relative to the repository. -/
structure Outputs where
  items : List (Place × Output)
  keys : (items.map Prod.fst).Nodup

def expected_text (content : Rendered) : Text :=
  if content.verbatim then content.text else Text.rstrip content.text ++ ['\n']

/-- A call that changes the tree; where it raises, the tree that is left. -/
abbrev Change := FileTree File → Except (FileTree File) (FileTree File)

def write_text (p : Place) (content : Rendered) : Change := fun t => do
  let t ← mkdirs t p.tail
  write t p fun old => ⟨.utf8 (expected_text content), content.executable || old.any File.exec⟩

def write_link (p : Place) (target : Text) : Change := fun t => do
  let t ← mkdirs t p.tail
  symlink (if isLink t.view p then unlink t p else t) p target

def write_output (p : Place) : Output → Change
  | .rendered content => write_text p content
  | .symlink target => write_link p target

/-! ## Conflicts -/

section Install

variable (generated_by : Text → Text) (repo : Place) (managed : Managed)

def link_map : Links := managed.links.map fun l => (l.1 ++ repo, l.2 ++ repo)

def is_assumed_owned (rel : Place) : Bool := managed.assumed.any fun pattern => fnmatch pattern (as_posix rel)

def sweeps_clean (t : FileTree File) (p : Place) : Bool :=
  !isLink t.view p && isDir t.view p &&
    (rglob t p).all fun e => isDir t.view e && !isLink t.view e || is_owned generated_by t.view e repo

def holds_link (t : FileTree File) (p : Place) : Bool :=
  (isLink t.view p || present t.view p) &&
    !((link_map repo managed).get p.tail).any (is_owned_link t.view p) && !sweeps_clean generated_by repo t p

def behind_foreign_link (v : View File) (p : Place) : Bool :=
  managed.repo_scaffolding && (parents p).any fun parent =>
    decide (Above repo parent) && isLink v parent && (managed.dirs.map (· ++ repo)).contains parent.tail

def is_held (t : FileTree File) (rel : Place) : Output → Bool
  | .symlink _ => holds_link generated_by repo managed t (rel ++ repo)
  | .rendered content => behind_foreign_link repo managed t.view (rel ++ repo) ||
      present t.view (rel ++ repo) && !content.assumed && !is_assumed_owned managed rel &&
        !is_owned generated_by t.view (rel ++ repo) repo

def conflicts (t : FileTree File) (outputs : Outputs) : List Text :=
  ((outputs.items.filter fun item => is_held generated_by repo managed t item.1 item.2).map
    fun item => as_posix item.1).insertionSort (· ≤ ·)

/-! ## Deleting the previous output -/

/-- A file that the scope names is deleted if farrier owns it. -/
def remove_named (t : FileTree File) (rel : Place) : FileTree File :=
  if isFile t.view (rel ++ repo) && is_owned generated_by t.view (rel ++ repo) repo then unlink t (rel ++ repo) else t

def remove_assumed (t : FileTree File) (pattern : Text) : FileTree File :=
  (sorted (glob t repo pattern)).foldl (fun t p => if isFile t.view p then unlink t p else t) t

def remove_targets (t : FileTree File) : FileTree File :=
  let t := managed.dirs.foldl (fun t rel => sweep generated_by t (rel ++ repo) (link_map repo managed)) t
  let t := managed.files.foldl (remove_named generated_by repo) t
  managed.assumed.foldl (remove_assumed repo) t

/-! ## The blocks in shared files -/

def GATE_SCRIPT : Name := "check_staged_files.py".toList

def QA_GITIGNORE_START : Text := "# >>> farrier: QA evidence (generated) >>>".toList

def QA_GITIGNORE_END : Text := "# <<< farrier: QA evidence <<<".toList

def QA_GITIGNORE_BLOCK : List Text :=
  [QA_GITIGNORE_START, "**/qa/**/steps/".toList, "**/qa/**/asserts/".toList, "**/qa/**/traces/".toList,
    "**/qa/**/videos/".toList, "**/qa/**/screenshots/".toList, "**/qa/qa-run.ndjson".toList,
    "**/qa/run-manifest.json".toList, "**/qa/qa-session.json".toList, QA_GITIGNORE_END]

def AGENTS_GITIGNORE_BLOCK : List Text :=
  [".agents/runs/".toList, ".agents/worktrees/".toList, ".agents/workflows/".toList, ".agents/operator/".toList,
    ".agents/local.compose.yaml".toList, ".agents/agents-context.json".toList,
    ".agents/agents-context.*.json".toList, ".agents/agents.mk".toList]

def SUPERSEDED_GITIGNORE_LINES : List Text :=
  [".agents".toList, ".agents/".toList, "/.agents".toList, "/.agents/*".toList, "!/.agents/agents.mk".toList,
    "!/.agents/flavors/".toList, ".agents/runs".toList, ".agents/skills/".toList, ".agents/prompts/".toList,
    "/.agents/runs/".toList, "/.agents/worktrees/".toList, "/.agents/skills/".toList, "/.agents/prompts/".toList,
    "/.agents/workflows/".toList, "/.agents/operator/".toList, "/.agents/local.compose.yaml".toList,
    "/.agents/agents-context.json".toList, "/.agents/agents-context.*.json".toList]

/-- `"\n".join(lines)` -/
def unlines (lines : List Text) : Text := ['\n'].intercalate lines

/-- `str.rstrip("\n")` -/
def rstripNewlines (text : Text) : Text := (text.reverse.dropWhile (· = '\n')).reverse

/-- What `ensure_qa_gitignore` makes of the text of `.gitignore`. -/
def qa_gitignore (existing : Text) : Text :=
  let lines := Text.splitlines existing
  let both := lines.contains QA_GITIGNORE_START && lines.contains QA_GITIGNORE_END
  let head := if both then lines.take (lines.idxOf QA_GITIGNORE_START) else lines
  let tail := if both then lines.drop (lines.idxOf QA_GITIGNORE_END + 1) else []
  rstripNewlines ((unlines (head ++ QA_GITIGNORE_BLOCK ++ tail)).dropWhile (· = '\n')) ++ ['\n']

/-- What `ensure_agents_gitignore` makes of the text of `.gitignore`. -/
def agents_gitignore (existing : Text) : Text :=
  let kept := (Text.splitlines existing).filter fun line =>
    !(AGENTS_GITIGNORE_BLOCK ++ SUPERSEDED_GITIGNORE_LINES).contains (Text.strip line)
  let body := rstripNewlines (unlines kept)
  (if body = [] then [] else body ++ ['\n', '\n']) ++ unlines AGENTS_GITIGNORE_BLOCK ++ ['\n']

def MAKEFILE_INCLUDE_MARKER : Text := "# >>> farrier: agent launcher include (generated) >>>".toList

def MAKEFILE_INCLUDE_END : Text := "# <<< farrier: agent launcher include <<<".toList

def INCLUDE_LINE : Text := "-include .agents/agents.mk".toList

def MAKEFILE_BLOCK : Text :=
  MAKEFILE_INCLUDE_MARKER ++ ['\n'] ++
    "# Surfaces agent-install / agent-check from the generated\n".toList ++
    "# launcher. Re-created by `farrier install`; remove this block to opt out.\n".toList ++
    INCLUDE_LINE ++ ['\n'] ++ MAKEFILE_INCLUDE_END ++ ['\n']

/-- The position of the end marker after the start marker. -/
def makefile_markers (existing : Text) : Option (ℕ × ℕ) := do
  let start ← Text.find MAKEFILE_INCLUDE_MARKER existing
  let length ← Text.find MAKEFILE_INCLUDE_END (existing.drop start)
  some (start, start + length)

/-- What `ensure_makefile_include` makes of the text of the root `Makefile`. -/
def makefile_include (existing : Text) : Text :=
  match makefile_markers existing with
  | some (start, stop) =>
    let stop := stop + MAKEFILE_INCLUDE_END.length
    let stop := if (existing.drop stop).take 1 = ['\n'] then stop + 1 else stop
    existing.take start ++ MAKEFILE_BLOCK ++ existing.drop stop
  | none =>
    let lines := (Text.splitlines existing).map Text.strip
    if lines.contains INCLUDE_LINE || lines.contains (INCLUDE_LINE.drop 1) then existing
    else
      let ended := if ['\n'].isSuffixOf existing then existing else existing ++ ['\n']
      (if ['\n', '\n'].isSuffixOf ended then ended else ended ++ ['\n']) ++ MAKEFILE_BLOCK

/-- A shared file is read, and written when its text is to change. -/
def ensure (desired : Text → Text) (p : Place) : Change := fun t => do
  let existing ← if present t.view p then
    match read_text t.view p with
    | some text => pure text
    | none => throw t
  else pure []
  if desired existing = existing then pure t
  else write t p fun old => ⟨.utf8 (desired existing), old.any File.exec⟩

def ensure_agents_gitignore : Change := ensure agents_gitignore (GITIGNORE ++ repo)

def ensure_qa_gitignore : Change := ensure qa_gitignore (GITIGNORE ++ repo)

def ensure_makefile_include : Change := fun t =>
  if present t.view (LAUNCHER_ROOT_MAKEFILE ++ repo) then ensure makefile_include (LAUNCHER_ROOT_MAKEFILE ++ repo) t
  else pure t

/-! ## The hook manager `"none"` -/

def FENCE_START : Text := "# >>> farrier: hooks (generated) >>>".toList

def FENCE_END : Text := "# <<< farrier: hooks <<<".toList

def FENCE_FILES : List Place :=
  [place ".pre-commit-config.yaml", place "lefthook.yml", place ".husky/pre-commit", place ".githooks/pre-commit"]

/-- A text has a fence that `unsplice` takes out. -/
def fenced (existing : Text) : Bool :=
  (Text.splitlines existing).contains FENCE_START && (Text.splitlines existing).contains FENCE_END

def unsplice (existing : Text) : Text :=
  let lines := Text.splitlines existing
  if fenced existing then
    let body := rstripNewlines
      (unlines (lines.take (lines.idxOf FENCE_START) ++ lines.drop (lines.idxOf FENCE_END + 1)))
    if body = [] then [] else body ++ ['\n']
  else existing

/-- `install_manager(repo, "none")` for one file. -/
def strip_fence (rel : Place) : Change := fun t =>
  if isFile t.view (rel ++ repo) then ensure unsplice (rel ++ repo) t else pure t

/-! ## Installing and checking -/

/-- Where an install stopped: the paths it refused, none when it raised, and the tree it left. -/
structure Stop where
  held : List Text
  tree : FileTree File

def writes (outputs : Outputs) : List (Place × Output) :=
  outputs.items.insertionSort fun a b => as_posix (a.1 ++ repo) ≤ as_posix (b.1 ++ repo)

/-- A step that an install leaves out unless `c` holds. -/
def optionally (c : Bool) (f : Change) : Change := fun t => if c then f t else pure t

/-- The steps of an install after the refusals, `fences` when the manager is `"none"`. -/
def install_steps (outputs : Outputs) (fences : Bool) : Change := fun t => do
  let names := outputs.items.map Prod.fst
  let t ← (writes repo outputs).foldlM (fun t item => write_output (item.1 ++ repo) item.2 t)
    (remove_targets generated_by repo managed t)
  let t ← optionally (names.contains LAUNCHER_AGENTS_MK) (ensure_agents_gitignore repo) t
  let t ← optionally (managed.repo_scaffolding && names.any (·.head? = some GATE_SCRIPT)) (ensure_qa_gitignore repo) t
  let t ← optionally fences (fun t => FENCE_FILES.foldlM (fun t rel => strip_fence repo rel t) t) t
  optionally (names.contains LAUNCHER_AGENTS_MK) (ensure_makefile_include repo) t

def install_outputs (outputs : Outputs) (fences : Bool) (t : FileTree File) : Except Stop (FileTree File) :=
  let held := conflicts generated_by repo managed t outputs
  if held ≠ [] then .error ⟨held, t⟩
  else
    match install_steps generated_by repo managed outputs fences t with
    | .ok t => .ok t
    | .error t => .error ⟨[], t⟩

/-- What `check_outputs` reports. -/
structure Drift where
  missing : List Text := []
  changed : List Text := []
  extra : List Text := []
  fences : List Text := []
  deriving DecidableEq

/-- The report on one output: it is missing, or changed, or neither. -/
def check_output (v : View File) (rel : Place) : Output → Option (Bool × Bool)
  | .symlink target =>
    if isLink v (rel ++ repo) || present v (rel ++ repo) then
      some (false, lstat v (rel ++ repo) ≠ some (.link target))
    else some (true, false)
  | .rendered content =>
    if present v (rel ++ repo) then
      (read_text v (rel ++ repo)).map fun actual => (false, actual ≠ expected_text content ||
        content.executable && !match stat v (rel ++ repo) with
          | some (.file file) => file.exec
          | _ => false)
    else some (true, false)

/-- The files of `fence_drift(repo, "none")`. -/
def fence_drift (v : View File) : Option (List Text) :=
  (FENCE_FILES.filter fun rel => isFile v (rel ++ repo)).foldlM (fun drift rel =>
    (read_text v (rel ++ repo)).map fun text => if fenced text then drift ++ [as_posix rel] else drift) []

/-- What farrier owns and does not expect. -/
def extras (outputs : Outputs) (t : FileTree File) : List Place :=
  let expected := outputs.items.map fun item => item.1 ++ repo
  let named := managed.files ++ if managed.repo_scaffolding then [LAUNCHER_CONTEXT_MANIFEST] else []
  (managed.dirs.flatMap fun rel =>
    (sorted (owned_files generated_by t (rel ++ repo) ++ owned_links t (rel ++ repo) (link_map repo managed))).filter
      fun p => !expected.contains p) ++
  (named.filter fun rel => !expected.contains (rel ++ repo) && isFile t.view (rel ++ repo) &&
    (is_assumed_owned managed rel || is_owned generated_by t.view (rel ++ repo) repo)).map (· ++ repo)

/-- `check_outputs`, where it does not raise. -/
def check_outputs (outputs : Outputs) (fences : Bool) (t : FileTree File) : Option Drift := do
  let reports ← outputs.items.mapM fun item =>
    (check_output repo t.view item.1 item.2).map fun report => (as_posix item.1, report)
  let fences ← if fences then fence_drift repo t.view else some []
  some {
    missing := (reports.filter (·.2.1)).map Prod.fst
    changed := (reports.filter (·.2.2)).map Prod.fst
    extra := (extras generated_by repo managed outputs t).map fun p => as_posix (p.take (p.length - repo.length))
    fences }

/-! ## All or nothing -/

variable (outputs : Outputs) (fences : Bool)

def Outputs.paths (outputs : Outputs) : List Place := outputs.items.map fun item => item.1 ++ repo

/-- The shared files that an install with these outputs keeps a block in. -/
def blocks : List Place :=
  let names := outputs.items.map Prod.fst
  (if names.contains LAUNCHER_AGENTS_MK || (managed.repo_scaffolding && names.any (·.head? = some GATE_SCRIPT))
    then [GITIGNORE] else []) ++ if names.contains LAUNCHER_AGENTS_MK then [LAUNCHER_ROOT_MAKEFILE] else []

/-- Under a path that names the entry at `q`, farrier owns it: by its mark, by its bundle, or as a
link among the linked skills. -/
def Owned (t : FileTree File) (q : Place) : Prop :=
  ∃ p, spot t.view p = some q ∧
    ((∃ root ∈ repo :: managed.dirs.map (· ++ repo), is_owned generated_by t.view p root = true) ∨
      ∃ source_dir, (link_map repo managed).get p.tail = some source_dir ∧ is_owned_link t.view p source_dir = true)

/-- A path that names the entry at `q` matches an assumed pattern. -/
def Assumed (t : FileTree File) (q : Place) : Prop :=
  ∃ rel, spot t.view (rel ++ repo) = some q ∧ is_assumed_owned managed rel = true

/-- The output path holds its expected text or link. -/
def Holds (v : View File) (p : Place) : Output → Prop
  | .rendered content => ∃ file, stat v p = some (.file file) ∧ file.contents = .utf8 (expected_text content) ∧
      (content.executable = true → file.exec = true)
  | .symlink target => lstat v p = some (.link target)

/-- What a complete install leaves of `t`. -/
structure Installed (t t' : FileTree File) : Prop where
  holds : ∀ item ∈ outputs.items, Holds t'.view (item.1 ++ repo) item.2
  kept : ∀ q x, t.view q = some x → x ≠ .folder → q ∉ outputs.paths repo → ¬ Owned generated_by repo managed t q →
    ¬ Assumed repo managed t q → q ∉ (blocks managed outputs).map (· ++ repo) → t'.view q = some x
  made : ∀ q x, t'.view q = some x → x ≠ .folder → q ∉ outputs.paths repo →
    q ∉ (blocks managed outputs).map (· ++ repo) → t.view q = some x
  check : check_outputs generated_by repo managed outputs fences t' = some {}

/-- **An install is all or nothing**: it stops and leaves the tree as it was, or it is complete. -/
structure AllOrNothing (t : FileTree File) : Prop where
  nothing : ∀ stop, install_outputs generated_by repo managed outputs fences t = .error stop →
    ∀ q, stop.tree.view q = t.view q
  all : ∀ t', install_outputs generated_by repo managed outputs fences t = .ok t' →
    Installed generated_by repo managed outputs fences t t'

/-! ## Where the ground is clear -/

/-- A symlink stands at `p`. -/
def linkAt (v : View File) (p : Place) : Bool :=
  match v p with
  | some (.link _) => true
  | _ => false

/-- A file stands at `p` and carries farrier's mark. -/
def marked (v : View File) (p : Place) : Bool :=
  match v p with
  | some (.file ⟨.utf8 text, _⟩) => is_tagged generated_by (Text.newlines text)
  | _ => false

/-- What the sweep of `directory` takes for certain: a file with the mark, or bundled by one, and
an owned link. -/
def swept (v : View File) (directory q : Place) : Bool :=
  decide (Above directory q) &&
    match v q with
    | some (.file _) => marked generated_by v q || bundled (marked generated_by v) directory q.tail
    | some (.link target) => decide (q.tail = directory) &&
        ((link_map repo managed).get directory).any fun source_dir =>
          decide (Above source_dir (link_destination q target))
    | _ => false

/-- The segments of a pattern match the names of a path in turn. -/
def segmentsMatch : List Text → List Name → Bool
  | [], [] => true
  | segment :: segments, name :: names => fnmatch segment name && segmentsMatch segments names
  | _, _ => false

/-- What `remove_targets` takes for certain. -/
def gone (v : View File) (q : Place) : Bool :=
  (managed.dirs.any fun d => swept generated_by repo managed v (d ++ repo) q) ||
    ((managed.files.map (· ++ repo)).contains q && marked generated_by v q) ||
    managed.assumed.any fun pattern => decide (repo <:+ q) &&
      segmentsMatch (pattern.splitOn '/') (q.take (q.length - repo.length)).reverse &&
      match v q with
      | some (.file _) => true
      | _ => false

/-- A folder below a managed directory in which the sweep leaves nothing. -/
def emptied (t : FileTree File) (q : Place) : Bool :=
  folderAt t.view q && managed.dirs.any fun d => decide (Above (d ++ repo) q) &&
    t.entries.all fun e => !decide (Above q e.1) || folderAt t.view e.1 ||
      swept generated_by repo managed t.view (d ++ repo) e.1

/-- The tree as it would stand: the outputs and their folders in place, what the sweep takes for
certain gone. A shared file that gets a block counts as farrier's. -/
def layout (v : View File) : View File := fun q =>
  match outputs.items.find? fun item => item.1 ++ repo = q with
  | some (_, .rendered content) => some (.file ⟨.utf8 (expected_text content), content.executable⟩)
  | some (_, .symlink target) => some (.link target)
  | none =>
    if outputs.items.any fun item => decide (Above q (item.1 ++ repo)) then some .folder
    else if ((blocks managed outputs).map (· ++ repo)).contains q then some (.file ⟨.utf8 COMMENT_MARKER, false⟩)
    else if gone generated_by repo managed v q then none
    else v q

/-- An output can be put at `q`: nothing stands there that the sweep leaves and writing does not
replace. -/
def Free (t : FileTree File) (q : Place) : Output → Prop
  | .rendered _ => t.view q = none ∨ (∃ file, t.view q = some (.file file)) ∨
      gone generated_by repo managed t.view q = true ∨ emptied generated_by repo managed t q = true
  | .symlink target => target ≠ [] ∧ (t.view q = none ∨ linkAt t.view q = true ∨
      gone generated_by repo managed t.view q = true ∨ emptied generated_by repo managed t q = true)

/-- **The ground is clear for an install.** -/
structure Clear (t : FileTree File) : Prop where
  /-- Only folders, or what the sweep takes, stand on the way to an output. -/
  ways : ∀ p ∈ outputs.paths repo, ∀ q ∈ parents p, t.view q = some .folder ∨ t.view q = none ∨
    gone generated_by repo managed t.view q = true
  spots : ∀ item ∈ outputs.items, Free generated_by repo managed t (item.1 ++ repo) item.2
  /-- No output or shared file stands in the way of another. -/
  apart : ∀ p ∈ outputs.items.map Prod.fst, (∀ q ∈ outputs.items.map Prod.fst ++ blocks managed outputs, ¬ Above q p) ∧
    p ∉ blocks managed outputs
  /-- A text reads back as it was written. -/
  plain : ∀ item ∈ outputs.items, ∀ content, item.2 = .rendered content → '\r' ∉ expected_text content
  shared : ∀ p ∈ blocks managed outputs, t.view (p ++ repo) = none ∨
    ∃ text exec, t.view (p ++ repo) = some (.file ⟨.utf8 text, exec⟩)
  /-- Managed directories are not reached through symlinks. -/
  roots : ∀ d ∈ managed.dirs, (∀ q ∈ (d ++ repo).tails, linkAt t.view q = false) ∧
    ∀ item ∈ outputs.items, ∀ target, item.2 = .symlink target → ¬ item.1 <:+ d
  /-- What the sweep leaves in a managed directory does not become farrier's. -/
  quiet : ∀ d ∈ managed.dirs, ∀ e ∈ t.entries, Above (d ++ repo) e.1 → e.1 ∉ outputs.paths repo →
    gone generated_by repo managed t.view e.1 = false →
      (isFile (layout generated_by repo managed outputs t.view) e.1 &&
        is_owned generated_by (layout generated_by repo managed outputs t.view) e.1 (d ++ repo)) = false
  named : ∀ rel ∈ managed.files ++ (if managed.repo_scaffolding then [LAUNCHER_CONTEXT_MANIFEST] else []),
    rel ++ repo ∉ outputs.paths repo →
      (isFile (layout generated_by repo managed outputs t.view) (rel ++ repo) &&
        (is_assumed_owned managed rel ||
          is_owned generated_by (layout generated_by repo managed outputs t.view) (rel ++ repo) repo)) = false
  hooks : fences = true → ∀ rel ∈ FENCE_FILES, rel ∉ outputs.items.map Prod.fst ∧
    (∀ q ∈ (rel ++ repo).tails, linkAt t.view q = false) ∧
    (∀ item ∈ outputs.items, ∀ target, item.2 = .symlink target → ¬ item.1 <:+ rel) ∧
    ∀ file, t.view (rel ++ repo) = some (.file file) →
      ∃ text exec, file = ⟨.utf8 text, exec⟩ ∧ fenced (Text.newlines text) = false

end Install

end Stablemate.Install
