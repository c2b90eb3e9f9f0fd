import Mathlib.Data.Char
import Mathlib.Data.List.Lex
import Mathlib.Data.List.Sort
import Stablemate.Lib.Dict
import Stablemate.Model.Text

/-!
# What changed since a turn began (`coder/shared/worktree.py`, `coder/shared/story_commit.py`)

* `Checkout`: HEAD, the index and the worktree of a repository.
* `snapshot_code_state`, `code_changed`: whether a product path of a repository has changed.
* `snapshot_worktree_state`: what is dirty before a story begins.
* `check_repos_clean`, `commit_story`, `commit_book_delta`: the paths that a story leaves, or commits.

The digest, where a path resolves to, and what `git diff` writes about two commits are parameters. Every file is a
regular one that can be read.
-/

namespace Stablemate.Changes

/-- The character between the fields of an entry. -/
def NUL : Char := '\x00'

structure File (β : Type) where
  bytes : β
  executable : Bool := false
deriving DecidableEq

abbrev Tree (β : Type) := List (Text × File β)

def names {β : Type} (tree : Tree β) : List Text := tree.map Prod.fst

structure Checkout (β : Type) where
  /-- The commit of HEAD and its tree, if there is a commit. -/
  head : Option (Text × Tree β)
  index : Tree β
  worktree : Tree β
  ignored : Text → Bool
  /-- What a path can be. -/
  spelled : ∀ rel, rel ∈ names index ∨ rel ∈ names worktree → rel ≠ [] ∧ NUL ∉ rel

/-- The bytes of a path, if it is there. -/
def bytesAt {β : Type} (tree : Tree β) (rel : Text) : Option β := (Dict.get tree rel).map (·.bytes)

/-- `sorted(set(paths))` -/
def sortedSet (paths : List Text) : List Text := paths.dedup.insertionSort fun a b => a ≤ b

section Checkout

variable {β : Type} [DecidableEq β] (c : Checkout β)

/-- `repo.index.diff(None)` -/
def unstaged : List Text := (names c.index).filter fun rel => Dict.get c.index rel ≠ Dict.get c.worktree rel

def untracked_files : List Text :=
  (names c.worktree).filter fun rel => (Dict.get c.index rel).isNone ∧ ¬ c.ignored rel

/-- `repo.index.diff("HEAD")`, which nothing is read from before the first commit. -/
def staged : List Text :=
  match c.head with
  | none => []
  | some (_, tree) => (names tree ++ names c.index).filter fun rel => Dict.get tree rel ≠ Dict.get c.index rel

/-- The paths of `_dirty_entries`. -/
def dirty : List Text := sortedSet (unstaged c ++ untracked_files c)

def _uncommitted : List Text := sortedSet (unstaged c ++ untracked_files c ++ staged c)

variable (sha : β → Text)

/-- `digest`, which is empty where there is no file. -/
def digest (rel : Text) : Text := (bytesAt c.worktree rel).elim [] sha

def _dirty_entries (owner : Text) (keep_missing : Bool) : List Text :=
  (dirty c).filterMap fun rel =>
    let sha := digest c sha rel
    if sha ≠ [] ∨ keep_missing then some (rel ++ NUL :: (sha ++ if owner = [] then [] else NUL :: owner)) else none

/-- `text.partition("\0")`, without the separator. -/
def partition (text : Text) : Text × Text := (text.takeWhile (· ≠ NUL), (text.dropWhile (· ≠ NUL)).drop 1)

/-- `untouched_since` of a resolved root. -/
def untouched_since (root : Text) (snapshot : List Text) : List Text :=
  snapshot.filterMap fun entry =>
    let (rel, rest) := partition entry
    let (recorded, owner) := partition rest
    if rel = [] ∨ recorded = [] ∨ (owner ≠ [] ∧ owner ≠ root) then none
    else if digest c sha rel = recorded then some rel
    else none

end Checkout

/-! ## Product paths -/

def TOOL_OUTPUT_DIRS : List Text :=
  ["__screenshots__".toList, "__pycache__".toList, ".pytest_cache".toList, ".nyc_output".toList, "blob-report".toList,
    "playwright-report".toList, "test-results".toList]

/-- `Path(path).parts` of a relative path -/
def parts (path : Text) : List Text := (path.splitOn '/').filter fun part => part ≠ [] ∧ part ≠ ['.']

def is_tool_output (rel : Text) : Bool := (parts rel).dropLast.any TOOL_OUTPUT_DIRS.contains

def is_gate_context (rel : Text) : Bool :=
  let name := (parts rel).getLastD []
  if ".md".toList <:+ name then
    let stem := name.take (name.length - 3)
    stem = "context".toList ∨ "-context".toList <:+ stem.takeWhile (· ≠ '.')
  else false

/-- What the workspace is, and git outside the repository. -/
structure Setting where
  /-- `(repo / rel).resolve().parts` -/
  resolved : Text → Text → List Text
  /-- The parts of the artifacts dir, of the book, and of the docs root's path. -/
  artifacts : List Text
  book : List Text
  docs : Text
  /-- The output of `git diff --name-only`, if it works, by repository and the two commits. -/
  diff : Text → Text → Text → Option Text

section Nodes

variable {β : Type} [DecidableEq β] (setting : Setting) (sha : β → Text)

/-- `absolute.is_relative_to(root)` -/
def Setting.inside (root : List Text) (repo rel : Text) : Bool := root.isPrefixOf (setting.resolved repo rel)

def is_product (excluded : List (List Text)) (repo rel : Text) : Bool :=
  !is_tool_output rel && !excluded.any fun root => setting.inside root repo rel

/-- `not_product_roots` -/
def Setting.not_product_roots (book : Bool) : List (List Text) :=
  if book then [setting.artifacts, setting.book] else [setting.artifacts]

/-! ## Whether the code changed -/

def _product_entries (repo : Text) (c : Checkout β) : List Text :=
  (_dirty_entries c sha [] true).filter fun entry =>
    is_product setting (setting.not_product_roots true) repo (partition entry).1

/-- What is recorded of one repository, where git can answer. -/
def stateOf (git : Text → Option (Checkout β)) (repo : Text) : Option Text :=
  (git repo).bind fun c => c.head.map fun head => ['\n'].intercalate (head.1 :: _product_entries setting sha repo c)

/-- `_code_state` of the workspace's repositories. -/
def _code_state (git : Text → Option (Checkout β)) (repos : List Text) : List (Text × Text) × ℕ :=
  (repos.filterMap fun repo => (stateOf setting sha git repo).map fun state => (repo, state), repos.length)

def snapshot_code_state (git : Text → Option (Checkout β)) (repos : List Text) : List (Text × Text) :=
  (_code_state setting sha git repos).1

def _moved (repo before now : Text) : Bool :=
  let old := before.splitOn '\n'
  let new := now.splitOn '\n'
  if ¬ ((∀ entry ∈ old.tail, entry ∈ new.tail) ∧ ∀ entry ∈ new.tail, entry ∈ old.tail) then true
  else if old.headD [] = new.headD [] then false
  else
    match setting.diff repo (old.headD []) (new.headD []) with
    | none => true
    | some listed => (Text.splitlines listed).any fun rel =>
        rel ≠ [] ∧ is_product setting (setting.not_product_roots true) repo rel

/-- Whether one repository changed since the snapshot. -/
def changedSince (before : List (Text × Text)) (repo state : Text) : Bool :=
  match Dict.get before repo with
  | none => true
  | some held => _moved setting repo held state

def code_changed (before : List (Text × Text)) (git : Text → Option (Checkout β)) (repos : List Text) : Bool :=
  let (now, total) := _code_state setting sha git repos
  if total = 0 ∨ now.length ≠ total then true
  else now.any fun row => changedSince setting before row.1 row.2

/-! ## What a story leaves -/

/-- The checkouts that are snapshotted, and the owner that their entries name. -/
def Setting.snapshotted (roots : Option (List Text)) : List (Text × Text) :=
  roots.elim [(setting.docs, [])] fun roots => roots.map fun root => (root, root)

def snapshot_worktree_state (git : Text → Option (Checkout β)) (roots : Option (List Text)) : List Text :=
  (setting.snapshotted roots).flatMap fun row => (git row.1).elim [] fun c => _dirty_entries c sha row.2 false

/-- The uncommitted paths of a checkout that no entry of a snapshot excuses. -/
def ownPaths (snapshot : List Text) (git : Text → Option (Checkout β)) (repo : Text) : List Text :=
  (git repo).elim [] fun c => (_uncommitted c).filter fun rel => rel ∉ untouched_since c sha repo snapshot

/-- `_leftovers` of the named checkouts. -/
def _leftovers (snapshot : List Text) (git : Text → Option (Checkout β)) (held : List (Text × Text)) :
    List (Text × Text × Text) :=
  held.flatMap fun row => ((ownPaths sha snapshot git row.2).filter fun rel => ¬ is_gate_context rel).map fun rel =>
    (row.1, row.2, rel)

structure WorktreeCleanliness where
  clean : Bool
  dirty : List Text
  repos : List Text

/-- The leftovers that `check_repos_clean` reports. -/
def reported (snapshot : List Text) (git : Text → Option (Checkout β)) (held : List (Text × Text)) (skip_artifacts : Bool) :
    List (Text × Text × Text) :=
  let found := _leftovers sha snapshot git held
  if skip_artifacts then found.filter fun item => ¬ setting.inside setting.artifacts item.2.1 item.2.2 else found

def check_repos_clean (snapshot : List Text) (git : Text → Option (Checkout β)) (held : List (Text × Text))
    (skip_artifacts : Bool) : WorktreeCleanliness :=
  let found := reported setting sha snapshot git held skip_artifacts
  { clean := found.isEmpty, dirty := found.map fun item => item.1 ++ ':' :: item.2.2, repos := held.map (·.1) }

/-- What `commit_story` hands to `commit_paths`, by checkout. -/
def commit_story (snapshot : List Text) (git : Text → Option (Checkout β)) (held : List (Text × Text)) : List (Text × List Text) :=
  held.map fun row => (row.2, (ownPaths sha snapshot git row.2).filter fun rel =>
    is_product setting (setting.not_product_roots false) row.2 rel)

/-- What `commit_book_delta` hands to `commit_paths`, by checkout. -/
def commit_book_delta (snapshot : List Text) (git : Text → Option (Checkout β)) (held : List (Text × Text)) :
    List (Text × List Text) :=
  let held := if held.any (fun row => row.2 = setting.docs) ∨ (git setting.docs).isNone then held
    else held ++ [("".toList, setting.docs)]
  held.map fun row => (row.2, (ownPaths sha snapshot git row.2).filter fun rel => setting.inside setting.book row.2 rel)

end Nodes

end Stablemate.Changes
