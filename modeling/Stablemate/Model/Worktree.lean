import Mathlib.Logic.Relation
import Stablemate.Lib.Dict
import Stablemate.Model.Text

/-!
# Retiring a worktree (`stablemate_core/worktree.py`)

* `Repo`: what a repository holds commits by, and the worktree at a path.
* `assess`: whether its work has landed.
* `retire`: the worktree and its branch, taken away in two steps.

Git is outside the repository. A commit graph comes with `merge-base --is-ancestor`, and a call that fails has
changed nothing.
-/

namespace Stablemate.Worktree

variable {κ : Type}

structure Graph (κ : Type) where
  parents : κ → List κ
  /-- `git merge-base --is-ancestor a b` -/
  is_ancestor : κ → κ → Bool
  spec : ∀ a b, is_ancestor a b = true ↔ Relation.ReflTransGen (fun c p => p ∈ parents c) b a

inductive Head (κ : Type)
  | on (branch : Text)
  | detached (commit : κ)
deriving DecidableEq

/-- What git reads a revision as. -/
inductive Rev (κ : Type)
  | head
  | branch (name : Text)
  | remote (name : Text)
  | commit (commit : κ)
  | missing
deriving DecidableEq

/-- The folder at the path. -/
structure Place (κ : Type) where
  /-- Whether `git status` finds no change, where it works. -/
  clean : Option Bool
  head : Head κ
  /-- It is a linked worktree of the repository, and not locked. -/
  linked : Bool
deriving DecidableEq

structure Repo (κ : Type) where
  branches : List (Text × κ)
  /-- `refs/remotes` -/
  remotes : List (Text × κ)
  /-- The HEAD of the main checkout. -/
  main : Head κ
  /-- The HEADs of the other worktrees. -/
  others : List (Head κ)
  place : Option (Place κ)
  /-- `git rev-parse` of a name. -/
  rev : Text → Rev κ

/-- The two tips that are assessed. -/
inductive Tip
  | head
  | branch
deriving DecidableEq

/-- The calls of git, in the order they are made. -/
inductive Call
  | owning
  | status
  | head
  | branch
  | merged (tip : Tip)
  | pushed (tip : Tip)
  | branchAgain
  | remove
  | mergedAgain
  | delete
deriving DecidableEq

/-- Which calls fail, and what they write. -/
structure Env where
  fails : Call → Bool
  /-- `_stderr(done)` -/
  stderr : Call → Text
  path : Text

structure Assessment where
  keep : Text := []
  landed : Text := []
deriving DecidableEq

inductive Action
  | removed
  | kept
deriving DecidableEq

structure Retirement where
  action : Action
  reason : Text
  branch_deleted : Bool
deriving DecidableEq

variable (graph : Graph κ) (env : Env)

def Head.commit (branches : List (Text × κ)) : Head κ → Option κ
  | .on branch => Dict.get branches branch
  | .detached commit => some commit

def Repo.resolve (repo : Repo κ) (name : Text) : Option κ :=
  match repo.rev name with
  | .head => repo.main.commit repo.branches
  | .branch name => Dict.get repo.branches name
  | .remote name => Dict.get repo.remotes name
  | .commit commit => some commit
  | .missing => none

/-! ## Assessment -/

/-- `_rev(repo, f"refs/heads/{branch}") if branch else None` -/
def branchTip (call : Call) (repo : Repo κ) (branch : Text) : Option κ :=
  if branch = [] ∨ env.fails call then none else Dict.get repo.branches branch

def _merged (call : Call) (repo : Repo κ) (sha : κ) (base : Text) : Bool :=
  !env.fails call && (repo.resolve base).any (graph.is_ancestor sha)

/-- `git for-each-ref --contains sha refs/remotes` -/
def pushedTo (repo : Repo κ) (sha : κ) : Bool := repo.remotes.any fun ref => graph.is_ancestor sha ref.2

def _pushed (call : Call) (repo : Repo κ) (sha : κ) : Bool := !env.fails call && pushedTo graph repo sha

def label (branch : Text) : Tip → Text
  | .head => "the worktree's HEAD".toList
  | .branch => "branch '".toList ++ branch ++ "'".toList

def neither (branch base : Text) (tip : Tip) : Text :=
  label branch tip ++ " is neither merged into '".toList ++ base ++ "' nor pushed to a remote".toList

/-- The loop over the tips: the one that has not landed, or whether one was only pushed. -/
def judge (repo : Repo κ) (base : Text) : List (Tip × κ) → Bool → Except Tip Bool
  | [], pushed => .ok pushed
  | (tip, sha) :: tips, pushed =>
    if _merged graph env (.merged tip) repo sha base then judge repo base tips pushed
    else if _pushed graph env (.pushed tip) repo sha then judge repo base tips true
    else .error tip

def verdict (repo : Repo κ) (branch base : Text) (tips : List (Tip × κ)) : Assessment :=
  match judge graph env repo base tips false with
  | .error tip => { keep := neither branch base tip }
  | .ok pushed =>
    if tips.isEmpty then { landed := "the worktree directory was already gone".toList }
    else if pushed then { landed := "pushed to a remote, not merged into '".toList ++ base ++ "'".toList }
    else { landed := "merged into '".toList ++ base ++ "'".toList }

def branchTips (repo : Repo κ) (branch : Text) : List (Tip × κ) :=
  ((branchTip env .branch repo branch).map fun sha => (Tip.branch, sha)).toList

/-- `base or "HEAD"` -/
def orHead (base : Text) : Text := if base = [] then "HEAD".toList else base

def assess (repo : Repo κ) (branch base : Text) : Assessment :=
  let base := orHead base
  match repo.place with
  | none => verdict graph env repo branch base (branchTips env repo branch)
  | some place =>
    match if env.fails .status then none else place.clean with
    | none => { keep := "git status failed in ".toList ++ env.path ++ ": ".toList ++ env.stderr .status }
    | some false => { keep := "the worktree has uncommitted changes".toList }
    | some true =>
      match if env.fails .head then none else place.head.commit repo.branches with
      | none => { keep := "cannot read the worktree's HEAD in ".toList ++ env.path }
      | some head => verdict graph env repo branch base ((Tip.head, head) :: branchTips env repo branch)

/-! ## Retirement -/

/-- `git worktree remove`: it refuses what is no linked worktree. -/
def worktree_remove (repo : Repo κ) : Option (Repo κ) :=
  if env.fails .remove ∨ ¬ repo.place.any (·.linked) then none else some { repo with place := none }

/-- `git branch -D`: it refuses a branch that some worktree has checked out. -/
def branch_delete [DecidableEq κ] (repo : Repo κ) (branch : Text) : Option (Repo κ) :=
  if env.fails .delete ∨ (Dict.get repo.branches branch).isNone ∨ repo.main = .on branch ∨ .on branch ∈ repo.others ∨
      repo.place.any (fun place => place.linked ∧ place.head = .on branch) then none
  else some { repo with branches := Dict.pop repo.branches branch }

/-- The second step: the branch, after the worktree. -/
def dropBranch [DecidableEq κ] (repo : Repo κ) (branch base landed : Text) (tip : Option κ) : Retirement × Repo κ :=
  match tip with
  | none => (⟨.removed, landed, false⟩, repo)
  | some sha =>
    if _merged graph env .mergedAgain repo sha base then
      match branch_delete env repo branch with
      | some repo => (⟨.removed, landed, true⟩, repo)
      | none => (⟨.removed, landed ++ "; branch '".toList ++ branch ++ "' kept: ".toList ++ env.stderr .delete, false⟩, repo)
    else (⟨.removed, landed ++ "; branch '".toList ++ branch ++ "' kept: not merged into '".toList ++ base ++ "'".toList, false⟩, repo)

/-- `known` is whether `repo_dir` is given; else the repository is read off the worktree. -/
def retire [DecidableEq κ] (repo : Repo κ) (known : Bool) (branch base : Text) : Retirement × Repo κ :=
  if ¬ known ∧ (repo.place.isNone ∨ env.fails .owning) then
    (⟨.kept, "cannot find the repository that owns ".toList ++ env.path, false⟩, repo)
  else
    let base := orHead base
    let assessment := assess graph env repo branch base
    if assessment.keep ≠ [] then (⟨.kept, assessment.keep, false⟩, repo)
    else
      let tip := branchTip env .branchAgain repo branch
      if repo.place.isSome then
        match worktree_remove env repo with
        | none => (⟨.kept, "git worktree remove failed: ".toList ++ env.stderr .remove, false⟩, repo)
        | some repo => dropBranch graph env repo branch base assessment.landed tip
      else dropBranch graph env repo branch base assessment.landed tip

end Stablemate.Worktree
