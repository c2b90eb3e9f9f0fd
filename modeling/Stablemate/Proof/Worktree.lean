import Stablemate.Model.Worktree

/-!
# No commit is lost with a worktree

* `retire_cases`: all that `retire` can do.
* `retire_lossless_iff`: **whatever calls fail, no commit is lost and the branch goes only into another base, exactly if what
  was merged into the base is held without the worktree and the branch**.
-/

namespace Stablemate.Worktree

variable {κ : Type} {graph : Graph κ} {env : Env} {repo : Repo κ} {known : Bool} {branch base : Text} {c t : κ}

/-! ## Ancestors -/

theorem Graph.refl (graph : Graph κ) (c : κ) : graph.is_ancestor c c = true := (graph.spec c c).2 .refl

theorem Graph.trans {a b : κ} (h : graph.is_ancestor a b = true) (h' : graph.is_ancestor b c = true) : graph.is_ancestor a c = true :=
  (graph.spec a c).2 (((graph.spec b c).1 h').trans ((graph.spec a b).1 h))

/-! ## What holds a commit -/

def FromBranch (graph : Graph κ) (repo : Repo κ) (c : κ) : Prop :=
  ∃ name tip, Dict.get repo.branches name = some tip ∧ graph.is_ancestor c tip = true

def FromPlace (graph : Graph κ) (repo : Repo κ) (c : κ) : Prop :=
  ∃ place, repo.place = some place ∧ ∃ head, place.head.commit repo.branches = some head ∧ graph.is_ancestor c head = true

/-- A local branch, a remote-tracking ref or a HEAD that is there reaches the commit. -/
def Held (graph : Graph κ) (repo : Repo κ) (c : κ) : Prop :=
  FromBranch graph repo c ∨ pushedTo graph repo c = true ∨
    (∃ head, repo.main.commit repo.branches = some head ∧ graph.is_ancestor c head = true) ∨ FromPlace graph repo c

theorem pushedTo_trans {b : κ} (h : graph.is_ancestor c b = true) (hb : pushedTo graph repo b = true) :
    pushedTo graph repo c = true := by
  unfold pushedTo at *
  rw [List.any_eq_true] at *
  obtain ⟨ref, href, hanc⟩ := hb
  exact ⟨ref, href, Graph.trans h hanc⟩

/-- What holds a commit holds those it comes from. -/
theorem Held.ancestor {b : κ} (h : graph.is_ancestor c b = true) (hb : Held graph repo b) : Held graph repo c := by
  rcases hb with ⟨name, tip, hget, hanc⟩ | hpushed | ⟨head, hhead, hanc⟩ | ⟨place, hplace, head, hhead, hanc⟩
  · exact .inl ⟨name, tip, hget, Graph.trans h hanc⟩
  · exact .inr (.inl (pushedTo_trans h hpushed))
  · exact .inr (.inr (.inl ⟨head, hhead, Graph.trans h hanc⟩))
  · exact .inr (.inr (.inr ⟨place, hplace, head, hhead, Graph.trans h hanc⟩))

/-- The repository without the worktree. -/
def Repo.unplaced (repo : Repo κ) : Repo κ := { repo with place := none }

/-- The repository without the worktree and the branch. -/
def Repo.without (repo : Repo κ) (branch : Text) : Repo κ := { repo with place := none, branches := Dict.pop repo.branches branch }

/-- What is not held by the branch or the worktree is held without them. -/
theorem Held.without (hmain : repo.main ≠ .on branch) (ht : ∀ t, Dict.get repo.branches branch = some t → Held graph (repo.without branch) t)
    (h : Held graph repo.unplaced c) : Held graph (repo.without branch) c := by
  rcases h with ⟨name, tip, hget, hanc⟩ | hpushed | ⟨head, hhead, hanc⟩ | ⟨place, hplace, -⟩
  · by_cases hname : branch = name
    · subst hname
      exact (ht tip hget).ancestor hanc
    · refine .inl ⟨name, tip, ?_, hanc⟩
      unfold Repo.without
      rw [Dict.get_pop, if_neg hname]
      exact hget
  · exact .inr (.inl hpushed)
  · refine .inr (.inr (.inl ⟨head, ?_, hanc⟩))
    unfold Repo.without Repo.unplaced Head.commit at *
    cases hon : repo.main with
    | detached commit =>
      rw [hon] at hhead
      exact hhead
    | on name =>
      rw [hon] at hhead hmain
      dsimp only at hhead ⊢
      rw [Dict.get_pop, if_neg fun heq => hmain (congrArg Head.on heq.symm)]
      exact hhead
  · cases hplace

/-! ## What can happen -/

/-- The tip is merged into the base. -/
def Merged (graph : Graph κ) (repo : Repo κ) (base : Text) (sha : κ) : Prop :=
  ∃ b, repo.resolve (orHead base) = some b ∧ graph.is_ancestor sha b = true

/-- A worktree that can go: clean, with a HEAD that has landed. -/
structure Removable (graph : Graph κ) (repo : Repo κ) (base : Text) (place : Place κ) : Prop where
  linked : place.linked = true
  clean : place.clean = some true
  landed : ∃ head, place.head.commit repo.branches = some head ∧ (Merged graph repo base head ∨ pushedTo graph repo head = true)

/-- The branch can go too. -/
structure Droppable (graph : Graph κ) (repo : Repo κ) (known : Bool) (branch base : Text) : Prop where
  found : known = true ∨ repo.place ≠ none
  place : ∀ place, repo.place = some place → Removable graph repo base place
  named : branch ≠ []
  main : repo.main ≠ .on branch
  others : .on branch ∉ repo.others

theorem merged_of {call : Call} {sha : κ} (h : _merged graph env call repo sha (orHead base) = true) : Merged graph repo base sha := by
  unfold _merged at h
  exact (Option.any_eq_true _ _).1 (Bool.and_eq_true_iff.1 h).2

theorem pushed_of {call : Call} {sha : κ} (h : _pushed graph env call repo sha = true) : pushedTo graph repo sha = true := by
  unfold _pushed at h
  exact (Bool.and_eq_true_iff.1 h).2

/-- Every tip that passed has landed. -/
theorem landed_of_judge {tips : List (Tip × κ)} {pushed out : Bool} (h : judge graph env repo (orHead base) tips pushed = .ok out) :
    ∀ tip ∈ tips, Merged graph repo base tip.2 ∨ pushedTo graph repo tip.2 = true := by
  induction tips generalizing pushed with
  | nil => intro tip htip; cases htip
  | cons first tips ih =>
    obtain ⟨tip, sha⟩ := first
    unfold judge at h
    intro other hother
    split at h
    · rename_i hmerged
      rcases List.mem_cons.1 hother with rfl | hother
      · exact .inl (merged_of hmerged)
      · exact ih h other hother
    · split at h
      · rename_i hpushed
        rcases List.mem_cons.1 hother with rfl | hother
        · exact .inr (pushed_of hpushed)
        · exact ih h other hother
      · cases h

theorem landed_of_verdict {tips : List (Tip × κ)} (h : (verdict graph env repo branch (orHead base) tips).keep = []) :
    ∀ tip ∈ tips, Merged graph repo base tip.2 ∨ pushedTo graph repo tip.2 = true := by
  unfold verdict at h
  cases hjudge : judge graph env repo (orHead base) tips false with
  | ok out => exact landed_of_judge hjudge
  | error tip =>
    rw [hjudge] at h
    have hne : neither branch (orHead base) tip ≠ [] := by simp [neither]
    exact absurd h hne

theorem orHead_orHead (base : Text) : orHead (orHead base) = orHead base := by
  unfold orHead
  split
  · rfl
  · rfl

/-- What an assessment without an objection says of the worktree. -/
theorem removable_of_assess {place : Place κ} (hplace : repo.place = some place) (hlinked : place.linked = true)
    (h : (assess graph env repo branch (orHead base)).keep = []) : Removable graph repo base place := by
  unfold assess at h
  rw [hplace, orHead_orHead] at h
  dsimp only at h
  split at h
  · simp at h
  · simp at h
  · rename_i hstatus
    split at h
    · simp at h
    · rename_i head hhead
      have hclean : place.clean = some true := by
        split at hstatus
        · cases hstatus
        · exact hstatus
      have hcommit : place.head.commit repo.branches = some head := by
        split at hhead
        · cases hhead
        · exact hhead
      exact ⟨hlinked, hclean, head, hcommit, landed_of_verdict h _ List.mem_cons_self⟩

theorem branchTip_eq_some {call : Call} (h : branchTip env call repo branch = some t) :
    branch ≠ [] ∧ Dict.get repo.branches branch = some t := by
  unfold branchTip at h
  split at h
  · cases h
  · rename_i hno
    exact ⟨fun heq => hno (.inl heq), h⟩

variable [DecidableEq κ]

/-- **What `retire` can do**: nothing; take the worktree away; take the branch away too. -/
inductive Outcome (graph : Graph κ) (repo : Repo κ) (known : Bool) (branch base : Text) (result : Retirement × Repo κ) : Prop
  | kept (action : result.1.action = .kept) (deleted : result.1.branch_deleted = false) (same : result.2 = repo)
  | removed (action : result.1.action = .removed) (deleted : result.1.branch_deleted = false)
      (found : known = true ∨ repo.place ≠ none) (place : ∀ place, repo.place = some place → Removable graph repo base place)
      (after : result.2 = repo.unplaced)
  | dropped (action : result.1.action = .removed) (deleted : result.1.branch_deleted = true)
      (droppable : Droppable graph repo known branch base) (tip : κ) (at_tip : Dict.get repo.branches branch = some tip)
      (merged : Merged graph repo base tip) (after : result.2 = repo.without branch)

/-- The second step, in a repository whose worktree is away. -/
theorem outcome_dropBranch (landed : Text) {call : Call} (hfound : known = true ∨ repo.place ≠ none)
    (hplace : ∀ place, repo.place = some place → Removable graph repo base place) :
    Outcome graph repo known branch base
      (dropBranch graph env repo.unplaced branch (orHead base) landed (branchTip env call repo branch)) := by
  unfold dropBranch
  cases htip : branchTip env call repo branch with
  | none => exact .removed rfl rfl hfound hplace rfl
  | some tip =>
    obtain ⟨hnamed, hget⟩ := branchTip_eq_some htip
    dsimp only
    split
    · rename_i hmerged
      unfold branch_delete
      split
      · rename_i left hleft
        split at hleft
        · cases hleft
        · rename_i hno
          cases hleft
          simp only [not_or] at hno
          obtain ⟨-, -, hmain, hothers, -⟩ := hno
          exact .dropped rfl rfl ⟨hfound, hplace, hnamed, hmain, hothers⟩ tip hget (merged_of hmerged) rfl
      · exact .removed rfl rfl hfound hplace rfl
    · exact .removed rfl rfl hfound hplace rfl

theorem retire_cases (graph : Graph κ) (env : Env) (repo : Repo κ) (known : Bool) (branch base : Text) :
    Outcome graph repo known branch base (retire graph env repo known branch base) := by
  unfold retire
  split
  · exact .kept rfl rfl rfl
  · rename_i hfound
    have hfound : known = true ∨ repo.place ≠ none := by
      by_cases hknown : known = true
      · exact .inl hknown
      · refine .inr fun hnone => hfound ⟨hknown, .inl ?_⟩
        rw [hnone]
        rfl
    dsimp only
    split
    · exact .kept rfl rfl rfl
    · rename_i hkeep
      rw [not_not] at hkeep
      split
      · unfold worktree_remove
        split
        · exact .kept rfl rfl rfl
        · rename_i left hleft
          split at hleft
          · cases hleft
          · rename_i hno
            cases hleft
            rw [not_or, not_not] at hno
            refine outcome_dropBranch _ hfound fun place hplace => removable_of_assess hplace ?_ hkeep
            have hlinked := hno.2
            rw [hplace] at hlinked
            exact hlinked
      · rename_i hgone
        have hnone : repo.place = none := Option.not_isSome_iff_eq_none.1 hgone
        have hsame : repo = repo.unplaced := by
          unfold Repo.unplaced
          rw [← hnone]
        have hplace : ∀ place, repo.place = some place → Removable graph repo base place := by
          intro place hplace
          rw [hnone] at hplace
          cases hplace
        have houtcome (landed : Text) : Outcome graph repo known branch base
            (dropBranch graph env repo.unplaced branch (orHead base) landed (branchTip env .branchAgain repo branch)) :=
          outcome_dropBranch landed hfound hplace
        rw [← hsame] at houtcome
        exact houtcome _

/-! ## What does happen -/

omit [DecidableEq κ] in
theorem judge_ok (hmerged : ∀ tip, env.fails (.merged tip) = false) (hpushed : ∀ tip, env.fails (.pushed tip) = false)
    {tips : List (Tip × κ)} (h : ∀ tip ∈ tips, Merged graph repo base tip.2 ∨ pushedTo graph repo tip.2 = true) (pushed : Bool) :
    ∃ out, judge graph env repo (orHead base) tips pushed = .ok out := by
  induction tips generalizing pushed with
  | nil => exact ⟨pushed, rfl⟩
  | cons first tips ih =>
    obtain ⟨tip, sha⟩ := first
    have hrest := fun pushed => ih (fun other hother => h other (List.mem_cons_of_mem _ hother)) pushed
    unfold judge _merged _pushed
    rw [hmerged, hpushed]
    rcases h _ List.mem_cons_self with ⟨b, hb, hanc⟩ | hto
    · have hany : (repo.resolve (orHead base)).any (graph.is_ancestor sha) = true := by
        rw [hb]
        exact hanc
      rw [hany]
      exact hrest pushed
    · split
      · exact hrest pushed
      · have hto : pushedTo graph repo sha = true := hto
        rw [hto]
        exact hrest true

omit [DecidableEq κ] in
theorem assess_ok (hstatus : env.fails .status = false) (hhead : env.fails .head = false)
    (hmerged : ∀ tip, env.fails (.merged tip) = false) (hpushed : ∀ tip, env.fails (.pushed tip) = false)
    (hplace : ∀ place, repo.place = some place → Removable graph repo base place)
    (hbranch : ∀ t, branchTip env .branch repo branch = some t → Merged graph repo base t) :
    (assess graph env repo branch (orHead base)).keep = [] := by
  have htips : ∀ tip ∈ branchTips env repo branch, Merged graph repo base tip.2 ∨ pushedTo graph repo tip.2 = true := by
    intro tip htip
    obtain ⟨sha, hsha, rfl⟩ := Option.map_eq_some_iff.1 (Option.mem_toList.1 htip)
    exact .inl (hbranch sha hsha)
  have hverdict : ∀ tips : List (Tip × κ), (∀ tip ∈ tips, Merged graph repo base tip.2 ∨ pushedTo graph repo tip.2 = true) →
      (verdict graph env repo branch (orHead base) tips).keep = [] := by
    intro tips hall
    obtain ⟨out, hout⟩ := judge_ok hmerged hpushed hall false
    unfold verdict
    rw [hout]
    dsimp only
    split
    · rfl
    · split <;> rfl
  unfold assess
  rw [orHead_orHead]
  cases hrepo : repo.place with
  | none => exact hverdict _ htips
  | some place =>
    obtain ⟨-, hclean, head, hcommit, hlanded⟩ := hplace place hrepo
    dsimp only
    rw [hstatus, if_neg Bool.false_ne_true, hclean, hhead, if_neg Bool.false_ne_true, hcommit]
    refine hverdict _ fun tip htip => ?_
    rcases List.mem_cons.1 htip with rfl | htip
    · exact hlanded
    · exact htips tip htip

/-- Where no call fails, a branch that can go goes. -/
theorem retire_dropped (hfails : ∀ call, env.fails call = false) (h : Droppable graph repo known branch base)
    (hget : Dict.get repo.branches branch = some t) (hmerged : Merged graph repo base t) :
    (retire graph env repo known branch base).2 = repo.without branch := by
  have htip : ∀ call, branchTip env call repo branch = some t := by
    intro call
    unfold branchTip
    rw [if_neg]
    · exact hget
    · rintro (heq | hcall)
      · exact h.named heq
      · rw [hfails] at hcall
        cases hcall
  have hkeep := assess_ok (hfails _) (hfails _) (fun _ => hfails _) (fun _ => hfails _) h.place fun t' ht' => by
    rw [htip] at ht'
    cases ht'
    exact hmerged
  have hdrop : ∀ landed, (dropBranch graph env repo.unplaced branch (orHead base) landed (branchTip env .branchAgain repo branch)).2 =
      repo.without branch := by
    intro landed
    obtain ⟨b, hb, hanc⟩ := hmerged
    have hagain : _merged graph env .mergedAgain repo.unplaced t (orHead base) = true := by
      unfold _merged
      rw [hfails, show repo.unplaced.resolve (orHead base) = some b from hb]
      exact hanc
    have hdelete : branch_delete env repo.unplaced branch = some (repo.without branch) := by
      unfold branch_delete Repo.unplaced
      rw [if_neg]
      · rfl
      · simp only [hfails, hget, h.main, h.others]
        simp
    unfold dropBranch
    rw [htip]
    dsimp only
    rw [hagain, if_pos rfl, hdelete]
  have hfound : ¬ (¬ known = true ∧ (repo.place.isNone = true ∨ env.fails .owning = true)) := by
    rintro ⟨hno, hnone | hcall⟩
    · exact h.found.elim hno fun hne => hne (Option.isNone_iff_eq_none.1 hnone)
    · rw [hfails] at hcall
      cases hcall
  unfold retire
  rw [if_neg hfound]
  dsimp only
  rw [if_neg (not_not.2 hkeep)]
  cases hrepo : repo.place with
  | none =>
    have hsame : repo = repo.unplaced := by
      unfold Repo.unplaced
      rw [← hrepo]
    rw [if_neg (by simp)]
    rw [← hsame] at hdrop
    exact hdrop _
  | some place =>
    have hremove : worktree_remove env repo = some repo.unplaced := by
      unfold worktree_remove
      rw [if_neg]
      · rfl
      · simp [hfails, hrepo, (h.place place hrepo).linked]
    rw [if_pos Option.isSome_some, hremove]
    exact hdrop _

/-- Where only the branch cannot be read, a worktree that can go goes alone. -/
theorem retire_removed (hfails : ∀ call, env.fails call = decide (call = .branch ∨ call = .branchAgain)) {place : Place κ}
    (hrepo : repo.place = some place) (h : Removable graph repo base place) :
    (retire graph env repo known branch base).2 = repo.unplaced := by
  have htip : branchTip env .branchAgain repo branch = none := by
    unfold branchTip
    rw [if_pos (.inr (by rw [hfails]; rfl))]
  have hkeep : (assess graph env repo branch (orHead base)).keep = [] := by
    refine assess_ok (by rw [hfails]; rfl) (by rw [hfails]; rfl) (fun tip => by rw [hfails]; rfl) (fun tip => by rw [hfails]; rfl)
      (fun place' hplace' => ?_) fun t ht => ?_
    · rw [hrepo] at hplace'
      cases hplace'
      exact h
    · unfold branchTip at ht
      rw [if_pos (.inr (by rw [hfails]; rfl))] at ht
      cases ht
  have hremove : worktree_remove env repo = some repo.unplaced := by
    unfold worktree_remove
    rw [if_neg]
    · rfl
    · simp [hfails, hrepo, h.linked]
  have hfound : ¬ (¬ known = true ∧ (repo.place.isNone = true ∨ env.fails .owning = true)) := by
    simp [hfails, hrepo]
  unfold retire
  rw [if_neg hfound]
  dsimp only
  rw [if_neg (not_not.2 hkeep), hrepo, if_pos Option.isSome_some, hremove, htip]
  rfl

/-! ## The claim -/

/-- What a call is to leave: every commit that the worktree or a branch had, the worktree and the branch where it says
that it kept them, and the branch unless it is merged into a base other than itself. -/
structure Lossless (graph : Graph κ) (before : Repo κ) (branch base : Text) (result : Retirement × Repo κ) : Prop where
  held : ∀ c, FromPlace graph before c ∨ FromBranch graph before c → Held graph result.2 c
  kept : result.1.action = .kept → result.2 = before
  deleted : result.2.branches = before.branches ∨
    before.rev (orHead base) ≠ .branch branch ∧ ∃ tip, Dict.get before.branches branch = some tip ∧ Merged graph before base tip

/-- What was merged into the base is held by what stays. -/
structure Sound (graph : Graph κ) (repo : Repo κ) (known : Bool) (branch base : Text) : Prop where
  /-- A detached HEAD, without the worktree. -/
  head : ∀ place c, repo.place = some place → Removable graph repo base place → place.head = .detached c →
    Held graph repo.unplaced c
  /-- The branch, without the worktree and the branch; and the base is another one. -/
  branch : ∀ tip, Droppable graph repo known branch base → Dict.get repo.branches branch = some tip → Merged graph repo base tip →
    repo.rev (orHead base) ≠ .branch branch ∧ Held graph (repo.without branch) tip

omit [DecidableEq κ] in
/-- What the worktree or a branch had is held without the worktree. -/
theorem Sound.unplaced (h : Sound graph repo known branch base)
    (hplace : ∀ place, repo.place = some place → Removable graph repo base place)
    (hc : FromPlace graph repo c ∨ FromBranch graph repo c) : Held graph repo.unplaced c := by
  rcases hc with ⟨place, hrepo, head, hcommit, hanc⟩ | hbranch
  · cases hhead : place.head with
    | on name =>
      rw [hhead] at hcommit
      exact .inl ⟨name, head, hcommit, hanc⟩
    | detached commit =>
      rw [hhead] at hcommit
      cases hcommit
      exact (h.head place _ hrepo (hplace place hrepo) hhead).ancestor hanc
  · exact .inl hbranch

/-- **No commit is lost exactly if what was merged is held.** Whatever calls of git fail, `retire` loses no commit, keeps
what it says it kept, and deletes the branch only if it is merged into a base other than itself: exactly if a detached
HEAD that can go with its worktree is held by a branch, a remote or the main HEAD, and a merged branch that can go is not
its own base and is held by those other than itself. -/
theorem retire_lossless_iff (graph : Graph κ) (repo : Repo κ) (known : Bool) (branch base : Text) :
    (∀ env, Lossless graph repo branch base (retire graph env repo known branch base)) ↔ Sound graph repo known branch base := by
  constructor
  · intro h
    refine ⟨fun place c hrepo hplace hhead => ?_, fun tip hdrop hget hmerged => ?_⟩
    · let env : Env := ⟨fun call => decide (call = .branch ∨ call = .branchAgain), fun _ => [], []⟩
      have hgone : (retire graph env repo known branch base).2 = repo.unplaced := retire_removed (fun _ => rfl) hrepo hplace
      have hheld := (h env).held c (.inl ⟨place, hrepo, c, by rw [hhead]; rfl, graph.refl c⟩)
      rw [hgone] at hheld
      exact hheld
    · let env : Env := ⟨fun _ => false, fun _ => [], []⟩
      have hgone : (retire graph env repo known branch base).2 = repo.without branch := retire_dropped (fun _ => rfl) hdrop hget hmerged
      have hlossless := h env
      have hheld := hlossless.held tip (.inr ⟨branch, tip, hget, graph.refl tip⟩)
      have hdeleted := hlossless.deleted
      rw [hgone] at hheld hdeleted
      refine ⟨hdeleted.resolve_left (fun hsame => ?_) |>.1, hheld⟩
      have hget' : Dict.get (repo.without branch).branches branch = none := by
        unfold Repo.without
        rw [Dict.get_pop, if_pos rfl]
      rw [hsame, hget] at hget'
      cases hget'
  · intro h env
    cases retire_cases graph env repo known branch base with
    | kept _ _ same =>
      refine ⟨fun c hc => ?_, fun _ => same, .inl (by rw [same])⟩
      rw [same]
      exact hc.elim (fun hp => .inr (.inr (.inr hp))) .inl
    | removed action _ _ place after =>
      refine ⟨fun c hc => ?_, fun hkept => ?_, .inl (by rw [after]; rfl)⟩
      · rw [after]
        exact h.unplaced place hc
      · rw [action] at hkept
        cases hkept
    | dropped action _ droppable tip at_tip merged after =>
      obtain ⟨hother, hheld⟩ := h.branch tip droppable at_tip merged
      refine ⟨fun c hc => ?_, fun hkept => ?_, .inr ⟨hother, tip, at_tip, merged⟩⟩
      · rw [after]
        refine (h.unplaced droppable.place hc).without droppable.main fun t ht => ?_
        rw [at_tip] at ht
        cases ht
        exact hheld
      · rw [action] at hkept
        cases hkept

/-- Commits in a row. -/
def row : Graph ℕ where
  parents c := (List.range c).filter fun p => p + 1 = c
  is_ancestor a b := decide (a ≤ b)
  spec a b := by
    rw [decide_eq_true_eq]
    constructor
    · intro h
      induction b, h using Nat.le_induction with
      | base => exact .refl
      | succ b _ ih => exact .head (List.mem_filter.2 ⟨List.mem_range.2 (Nat.lt_succ_self b), by simp⟩) ih
    · intro h
      induction h with
      | refl => exact le_rfl
      | tail _ hparent ih => exact (List.mem_range.1 (List.mem_filter.1 hparent).1).le.trans ih

/-- A branch with a commit of its own, in a clean worktree, and itself as the base. -/
def onItself : Repo ℕ where
  branches := [("main".toList, 0), ("run/a".toList, 1)]
  remotes := []
  main := .on "main".toList
  others := []
  place := some ⟨some true, .on "run/a".toList, true⟩
  rev := Rev.branch

/-- A branch merged into itself is deleted, and its commit is lost. -/
theorem onItself_lost : ¬ ∀ env, Lossless row onItself "run/a".toList "run/a".toList
    (retire row env onItself true "run/a".toList "run/a".toList) := by
  intro h
  have hheld := (h ⟨fun _ => false, fun _ => [], []⟩).held 1 (.inr ⟨"run/a".toList, 1, by decide, by decide⟩)
  set after := (retire row ⟨fun _ => false, fun _ => [], []⟩ onItself true "run/a".toList "run/a".toList).2 with hafter
  have hbranches : after.branches = [("main".toList, 0)] := by decide
  have hremotes : after.remotes = [] := by decide
  have hmain : after.main = .on "main".toList := by decide
  have hplace : after.place = none := by decide
  rcases hheld with ⟨name, tip, hget, hanc⟩ | hpushed | ⟨head, hhead, hanc⟩ | ⟨place, hrepo, -⟩
  · rw [hbranches] at hget
    have hmem := Dict.mem_of_get hget
    rw [List.mem_singleton] at hmem
    obtain ⟨-, rfl⟩ := Prod.mk.inj hmem
    exact absurd hanc (by decide)
  · unfold pushedTo at hpushed
    rw [hremotes] at hpushed
    cases hpushed
  · rw [hmain, hbranches] at hhead
    have hzero : head = 0 := (Option.some.inj ((by decide : Head.commit [("main".toList, 0)] (.on "main".toList) = some 0).symm.trans hhead)).symm
    rw [hzero] at hanc
    exact absurd hanc (by decide)
  · rw [hplace] at hrepo
    cases hrepo

end Stablemate.Worktree
