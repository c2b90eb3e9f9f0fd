import Mathlib.Data.List.Basic
import Mathlib.Data.List.Nodup
import Mathlib.Data.List.Perm.Subperm
import Mathlib.Logic.Relation
import Stablemate.Lib.Dict

/-!
# Memoised walks

`visit` collects what a node and those that it leads to own. An answer is kept as soon as it is
found, and a node that is still being walked answers with nothing.

* `visit_isSome`: as much fuel as there are nodes, and one more, is enough.
* `SoundFor`: an answer only holds what can be reached.
* `FullFor`: the answer of a node from which no cycle through two nodes can be reached holds all of it.
  On a cycle an answer may be kept that lacks what the nodes above it own.
* `run_spec`: what a run over all nodes keeps.
-/

namespace Stablemate.Memo

variable {α β : Type*} [DecidableEq α] [DecidableEq β] (known : List α) (next : α → List α) (own : α → List β)

/-- The answers that are kept. -/
abbrev Kept (α β : Type*) := List (α × List β)

/-- `xs` with those of `ys` that it does not hold. -/
def merge (xs ys : List β) : List β := ys.foldl (fun xs y => if y ∈ xs then xs else xs ++ [y]) xs

/-- A loop over the nodes that a node leads to. -/
def gather (f : α → Kept α β → Option (List β × Kept α β)) :
    List α → List β → Kept α β → Option (List β × Kept α β)
  | [], vars, cache => some (vars, cache)
  | a :: as, vars, cache => (f a cache).bind fun r => gather f as (merge vars r.1) r.2

/-- What a node answers, and the answers that are kept then; nothing when the fuel runs out. -/
def visit : ℕ → List α → α → Kept α β → Option (List β × Kept α β)
  | 0, _, _, _ => none
  | fuel + 1, walking, a, cache =>
    match Dict.get cache a with
    | some vars => some (vars, cache)
    | none =>
      if a ∉ known ∨ a ∈ walking then some ([], cache)
      else (gather (visit fuel (a :: walking)) (next a) [] cache).map fun r =>
        (merge r.1 (own a), Dict.set r.2 a (merge r.1 (own a)))

/-- One call for each of some nodes. -/
def run (fuel : ℕ) : List α → Kept α β → Option (Kept α β)
  | [], cache => some cache
  | a :: as, cache => (visit known next own fuel [] a cache).bind fun r => run fuel as r.2

/-- A step to a node that is known. -/
def Step (a b : α) : Prop := b ∈ next a ∧ b ∈ known

/-- What a node leads to, itself included. -/
def Reach : α → α → Prop := Relation.ReflTransGen (Step known next)

/-- No cycle through two nodes can be reached. -/
def Tame (a : α) : Prop := ∀ b c, Reach known next a b → Reach known next b c → Reach known next c b → b = c

variable {known next own} {a b : α} {vars : List β} {cache cache' : Kept α β} {walking : List α}

theorem mem_merge {xs ys : List β} {x : β} : x ∈ merge xs ys ↔ x ∈ xs ∨ x ∈ ys := by
  unfold merge
  induction ys generalizing xs with
  | nil => simp
  | cons y ys ih =>
    rw [List.foldl_cons, ih, List.mem_cons]
    by_cases hy : y ∈ xs
    · rw [if_pos hy]
      constructor
      · rintro (h | h)
        · exact .inl h
        · exact .inr (.inr h)
      · rintro (h | rfl | h)
        · exact .inl h
        · exact .inl hy
        · exact .inr h
    · rw [if_neg hy, List.mem_append, List.mem_singleton, or_assoc]

omit [DecidableEq α] in
/-- What a node leads to beyond itself, it leads to through another node. -/
theorem Reach.cases_ne (h : Reach known next a b) : b = a ∨ ∃ c, c ≠ a ∧ Step known next a c ∧ Reach known next c b := by
  induction h with
  | refl => exact .inl rfl
  | @tail b d _ hstep ih =>
    by_cases hd : d = a
    · exact .inl hd
    · right
      rcases ih with rfl | ⟨c, hc, hac, hcb⟩
      · exact ⟨d, hd, hstep, .refl⟩
      · exact ⟨c, hc, hac, hcb.tail hstep⟩

omit [DecidableEq α] in
theorem Tame.of_step (h : Tame known next a) (hab : Step known next a b) : Tame known next b := fun c d hbc =>
  h c d (.head hab hbc)

/-! ## Fuel -/

omit [DecidableEq α] in
theorem gather_isSome {f : α → Kept α β → Option (List β × Kept α β)} (hf : ∀ a cache, (f a cache).isSome) (as : List α)
    (vars : List β) (cache : Kept α β) : (gather f as vars cache).isSome := by
  induction as generalizing vars cache with
  | nil => rfl
  | cons a as ih =>
    obtain ⟨r, hr⟩ := Option.isSome_iff_exists.1 (hf a cache)
    rw [gather, hr]
    exact ih _ _

/-- **A call ends**: the nodes that are being walked are known and distinct. -/
theorem visit_isSome {fuel : ℕ} (hnodup : walking.Nodup) (hsub : walking ⊆ known)
    (hfuel : known.length < fuel + walking.length) :
    (visit known next own fuel walking a cache).isSome := by
  induction fuel generalizing walking a cache with
  | zero =>
    have hle := (hnodup.subperm hsub).length_le
    omega
  | succ fuel ih =>
    rw [visit]
    split
    · rfl
    · split
      · rfl
      · rename_i hnew
        rw [not_or, not_not] at hnew
        rw [Option.isSome_map]
        have hnodup' : (a :: walking).Nodup := List.nodup_cons.2 ⟨hnew.2, hnodup⟩
        refine gather_isSome (fun b cache => ih hnodup' (List.cons_subset.2 ⟨hnew.1, hsub⟩) ?_) _ _ _
        rw [List.length_cons]
        omega

/-! ## What a call keeps -/

/-- An answer of a node only holds what can be reached from it. -/
def SoundFor (known : List α) (next : α → List α) (own : α → List β) (a : α) (vars : List β) : Prop :=
  ∀ v ∈ vars, ∃ b, Reach known next a b ∧ v ∈ own b

/-- An answer of a node holds what can be reached from it. -/
def FullFor (known : List α) (next : α → List α) (own : α → List β) (a : α) (vars : List β) : Prop :=
  ∀ b, Reach known next a b → ∀ v ∈ own b, v ∈ vars

/-- What holds of the answers that are kept. -/
structure Good (known : List α) (next : α → List α) (own : α → List β) (cache : Kept α β) : Prop where
  mem : ∀ a vars, Dict.get cache a = some vars → a ∈ known
  sound : ∀ a vars, Dict.get cache a = some vars → SoundFor known next own a vars
  self : ∀ a vars, Dict.get cache a = some vars → own a ⊆ vars
  full : ∀ a vars, Dict.get cache a = some vars → Tame known next a → FullFor known next own a vars

/-- What a call at `a` with the stack `walking` does. -/
structure Visited (known : List α) (next : α → List α) (own : α → List β) (walking : List α) (a : α) (cache : Kept α β)
    (vars : List β) (cache' : Kept α β) : Prop where
  good : Good known next own cache'
  keeps : ∀ b, (Dict.get cache b).isSome → (Dict.get cache' b).isSome
  sound : a ∈ known → SoundFor known next own a vars
  empty : a ∉ known → vars = []
  done : a ∈ known → a ∉ walking → (Dict.get cache' a).isSome
  full : a ∈ known → a ∉ walking → Tame known next a → FullFor known next own a vars

/-- What a loop over nodes does, when every call does so. -/
theorem gather_spec {f : α → Kept α β → Option (List β × Kept α β)} :
    ∀ (as : List α) (_ : ∀ a ∈ as, ∀ cache vars cache', Good known next own cache → f a cache = some (vars, cache') →
        Visited known next own walking a cache vars cache')
      (vars₀ : List β) (cache : Kept α β) (vars : List β) (cache' : Kept α β), Good known next own cache →
      gather f as vars₀ cache = some (vars, cache') →
      Good known next own cache' ∧ (∀ b, (Dict.get cache b).isSome → (Dict.get cache' b).isSome) ∧
        (∀ v ∈ vars, v ∈ vars₀ ∨ ∃ a ∈ as, a ∈ known ∧ ∃ b, Reach known next a b ∧ v ∈ own b) ∧ vars₀ ⊆ vars ∧
        ∀ a ∈ as, a ∈ known → a ∉ walking → Tame known next a → FullFor known next own a vars := by
  intro as
  induction as with
  | nil =>
    intro _ vars₀ cache vars cache' hgood h
    obtain ⟨rfl, rfl⟩ := Prod.mk.inj (Option.some.inj h)
    exact ⟨hgood, fun b hb => hb, fun v hv => .inl hv, List.Subset.refl _, fun a ha => absurd ha List.not_mem_nil⟩
  | cons a as ih =>
    intro hf vars₀ cache vars cache' hgood h
    obtain ⟨⟨mid, cache₁⟩, hmid, hrest⟩ := Option.bind_eq_some_iff.1 h
    have hvisit := hf a List.mem_cons_self cache mid cache₁ hgood hmid
    obtain ⟨hgood', hkeeps, hsound, hsub, hfull⟩ :=
      ih (fun b hb => hf b (List.mem_cons_of_mem _ hb)) _ _ _ _ hvisit.good hrest
    refine ⟨hgood', fun b hb => hkeeps b (hvisit.keeps b hb), fun v hv => ?_, fun v hv => hsub (mem_merge.2 (.inl hv)),
      fun b hb hknown hwalk htame => ?_⟩
    · rcases hsound v hv with hmem | ⟨b, hb, hreach⟩
      · rcases mem_merge.1 hmem with hmem | hmem
        · exact .inl hmem
        · by_cases hknown : a ∈ known
          · exact .inr ⟨a, List.mem_cons_self, hknown, hvisit.sound hknown v hmem⟩
          · rw [hvisit.empty hknown] at hmem
            exact absurd hmem List.not_mem_nil
      · exact .inr ⟨b, List.mem_cons_of_mem _ hb, hreach⟩
    · rcases List.mem_cons.1 hb with rfl | hb
      · exact fun c hc v hv => hsub (mem_merge.2 (.inr (hvisit.full hknown hwalk htame c hc v hv)))
      · exact hfull b hb hknown hwalk htame

/-- **One call.** The nodes that are being walked lead to the one that is called. -/
theorem visit_spec {fuel : ℕ} (hwalk : a ∈ known → ∀ w ∈ walking, Reach known next w a) (hgood : Good known next own cache)
    (h : visit known next own fuel walking a cache = some (vars, cache')) :
    Visited known next own walking a cache vars cache' := by
  induction fuel generalizing walking a cache vars cache' with
  | zero => cases h
  | succ fuel ih =>
    rw [visit] at h
    split at h
    · rename_i kept hkept
      obtain ⟨rfl, rfl⟩ := Prod.mk.inj (Option.some.inj h)
      have hknown := hgood.mem a _ hkept
      exact ⟨hgood, fun b hb => hb, fun _ => hgood.sound a _ hkept, fun hno => absurd hknown hno,
        fun _ _ => Option.isSome_iff_exists.2 ⟨_, hkept⟩, fun _ _ htame => hgood.full a _ hkept htame⟩
    · rename_i hnone
      split at h
      · rename_i hskip
        obtain ⟨rfl, rfl⟩ := Prod.mk.inj (Option.some.inj h)
        exact ⟨hgood, fun b hb => hb, fun _ v hv => absurd hv List.not_mem_nil, fun _ => rfl,
          fun hknown hno => absurd hskip (not_or.2 ⟨not_not.2 hknown, hno⟩),
          fun hknown hno _ => absurd hskip (not_or.2 ⟨not_not.2 hknown, hno⟩)⟩
      · rename_i hnew
        rw [not_or, not_not] at hnew
        obtain ⟨⟨mid, cache₁⟩, hmid, heq⟩ := Option.map_eq_some_iff.1 h
        obtain ⟨rfl, rfl⟩ := Prod.mk.inj heq
        have hcalls : ∀ p ∈ next a, ∀ cache vars cache', Good known next own cache →
            visit known next own fuel (a :: walking) p cache = some (vars, cache') →
            Visited known next own (a :: walking) p cache vars cache' := by
          intro p hp cache vars cache' hgood hcall
          refine ih (fun hknown w hw => ?_) hgood hcall
          have hstep : Step known next a p := ⟨hp, hknown⟩
          rcases List.mem_cons.1 hw with rfl | hw
          · exact .single hstep
          · exact (hwalk hnew.1 w hw).tail hstep
        obtain ⟨hgood', hkeeps, hsound, -, hfull⟩ := gather_spec (next a) hcalls [] cache mid cache₁ hgood hmid
        have hsound' : SoundFor known next own a (merge mid (own a)) := by
          intro v hv
          rcases mem_merge.1 hv with hv | hv
          · rcases hsound v hv with hmem | ⟨p, hp, hknown, b, hb, hown⟩
            · exact absurd hmem List.not_mem_nil
            · exact ⟨b, .head ⟨hp, hknown⟩ hb, hown⟩
          · exact ⟨a, .refl, hv⟩
        have hfull' : Tame known next a → FullFor known next own a (merge mid (own a)) := by
          intro htame b hb v hv
          rcases hb.cases_ne with rfl | ⟨c, hc, hstep, hcb⟩
          · exact mem_merge.2 (.inr hv)
          · -- a node that is being walked and that this one leads to is on a cycle with it
            have hout : c ∉ a :: walking := by
              intro hmem
              have hwalked := (List.mem_cons.1 hmem).resolve_left hc
              exact hc (htame a c .refl (.single hstep) (hwalk hnew.1 c hwalked)).symm
            exact mem_merge.2 (.inl (hfull c hstep.1 hstep.2 hout (htame.of_step hstep) b hcb v hv))
        have hself : own a ⊆ merge mid (own a) := fun v hv => mem_merge.2 (.inr hv)
        refine ⟨⟨fun b vs hb => ?_, fun b vs hb => ?_, fun b vs hb => ?_, fun b vs hb htame => ?_⟩, fun b hb => ?_,
          fun _ => hsound', fun hno => absurd hnew.1 hno, fun _ _ => ?_, fun _ _ htame => hfull' htame⟩
        · rw [Dict.get_set] at hb
          split at hb
          · rename_i heq
            exact heq ▸ hnew.1
          · exact hgood'.mem b vs hb
        · rw [Dict.get_set] at hb
          split at hb
          · rename_i heq
            obtain rfl := Option.some.inj hb
            exact heq ▸ hsound'
          · exact hgood'.sound b vs hb
        · rw [Dict.get_set] at hb
          split at hb
          · rename_i heq
            obtain rfl := Option.some.inj hb
            exact heq ▸ hself
          · exact hgood'.self b vs hb
        · rw [Dict.get_set] at hb
          split at hb
          · rename_i heq
            obtain rfl := Option.some.inj hb
            subst heq
            exact hfull' htame
          · exact hgood'.full b vs hb htame
        · rw [Dict.get_set]
          split
          · rfl
          · exact hkeeps b hb
        · rw [Dict.get_set, if_pos rfl]
          rfl

/-! ## A run -/

omit [DecidableEq β] in
theorem good_nil : Good known next own ([] : Kept α β) where
  mem a _ h := by cases h
  sound a _ h := by cases h
  self a _ h := by cases h
  full a _ h := by cases h

theorem run_loop {fuel : ℕ} {as : List α} (hfuel : known.length < fuel) (hsub : as ⊆ known) (hgood : Good known next own cache) :
    ∃ cache', run known next own fuel as cache = some cache' ∧ Good known next own cache' ∧
      (∀ b, (Dict.get cache b).isSome → (Dict.get cache' b).isSome) ∧ ∀ a ∈ as, (Dict.get cache' a).isSome := by
  induction as generalizing cache with
  | nil => exact ⟨cache, rfl, hgood, fun b hb => hb, fun a ha => absurd ha List.not_mem_nil⟩
  | cons a as ih =>
    obtain ⟨hknown, hsub⟩ := List.cons_subset.1 hsub
    have hlen : known.length < fuel + ([] : List α).length := hfuel
    have hends : (visit known next own fuel [] a cache).isSome := visit_isSome List.nodup_nil (List.nil_subset _) hlen
    obtain ⟨⟨vars, mid⟩, hmid⟩ := Option.isSome_iff_exists.1 hends
    have hvisit := visit_spec (fun _ w hw => absurd hw List.not_mem_nil) hgood hmid
    obtain ⟨cache', hrun, hgood', hkeeps, hall⟩ := ih hsub hvisit.good
    refine ⟨cache', ?_, hgood', fun b hb => hkeeps b (hvisit.keeps b hb), fun b hb => ?_⟩
    · rw [run, hmid]
      exact hrun
    · rcases List.mem_cons.1 hb with rfl | hb
      · exact hkeeps b (hvisit.done hknown List.not_mem_nil)
      · exact hall b hb

/-- **A run over all nodes** keeps an answer for each. -/
theorem run_spec {fuel : ℕ} {as : List α} (hfuel : known.length < fuel) (hsub : as ⊆ known) :
    ∃ cache, run known next own fuel as [] = some cache ∧ Good known next own cache ∧ ∀ a ∈ as, (Dict.get cache a).isSome := by
  have hgood : Good known next own ([] : Kept α β) := good_nil
  obtain ⟨cache, hrun, hgood, -, hall⟩ := run_loop hfuel hsub hgood
  exact ⟨cache, hrun, hgood, hall⟩

end Stablemate.Memo
