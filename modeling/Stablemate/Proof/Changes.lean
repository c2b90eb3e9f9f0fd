import Mathlib.Data.List.Dedup
import Stablemate.Lib.Lists
import Stablemate.Model.Changes

/-!
# What is seen of a change, and whose it is

* `mem_dirty`, `mem_uncommitted`: a path is dirty where its worktree differs from the index, and uncommitted also where
  the index differs from HEAD.
* `excused_iff`: what a snapshot excuses later.
* `changed_iff`: when `code_changed` sees a change.
* `seen_and_own_iff`: **a staged edit is what both miss**: every change is seen, and only a story's own paths are taken,
  just when no path hides behind the index, and none was deleted when the story began.
-/

namespace Stablemate.Changes

variable {β : Type} {c c₀ c₁ : Checkout β} {sha : β → Text} {setting : Setting} {rel repo : Text}

/-! ## Digests -/

/-- **A digest tells bytes apart**, and is written without separators. -/
structure Tells (sha : β → Text) : Prop where
  injective : Function.Injective sha
  nonempty : ∀ b, sha b ≠ []
  hex : ∀ b, NUL ∉ sha b ∧ '\n' ∉ sha b

theorem digest_eq_nil_iff (hsha : Tells sha) : digest c sha rel = [] ↔ bytesAt c.worktree rel = none := by
  unfold digest
  cases bytesAt c.worktree rel with
  | none => exact iff_of_true rfl rfl
  | some b => exact iff_of_false (hsha.nonempty b) (Option.some_ne_none b)

theorem digest_eq_iff (hsha : Tells sha) : digest c₀ sha rel = digest c₁ sha rel ↔
    bytesAt c₀.worktree rel = bytesAt c₁.worktree rel := by
  unfold digest
  cases bytesAt c₀.worktree rel with
  | none =>
    cases bytesAt c₁.worktree rel with
    | none => exact iff_of_true rfl rfl
    | some b => exact iff_of_false (hsha.nonempty b).symm (Option.some_ne_none b).symm
  | some a =>
    cases bytesAt c₁.worktree rel with
    | none => exact iff_of_false (hsha.nonempty a) (Option.some_ne_none a)
    | some b => exact ⟨fun h => congrArg some (hsha.injective h), fun h => congrArg sha (Option.some.inj h)⟩

theorem digest_hex (hsha : Tells sha) (c : Checkout β) (rel : Text) : NUL ∉ digest c sha rel ∧ '\n' ∉ digest c sha rel := by
  unfold digest
  cases bytesAt c.worktree rel with
  | none => exact ⟨List.not_mem_nil, List.not_mem_nil⟩
  | some b => exact hsha.hex b

/-! ## Entries -/

theorem partition_nul {a : Text} (h : NUL ∉ a) (b : Text) : partition (a ++ NUL :: b) = (a, b) := by
  have hall : ∀ x ∈ a, decide (x ≠ NUL) = true := fun x hx => decide_eq_true fun heq => h (heq ▸ hx)
  unfold partition
  rw [List.takeWhile_append_of_pos hall, List.takeWhile_cons_of_neg (by simp), List.append_nil,
    List.dropWhile_append_of_pos hall, List.dropWhile_cons_of_neg (by simp), List.drop_one, List.tail_cons]

theorem partition_plain {a : Text} (h : NUL ∉ a) : partition a = (a, []) := by
  have hall : ∀ x ∈ a, decide (x ≠ NUL) = true := fun x hx => decide_eq_true fun heq => h (heq ▸ hx)
  unfold partition
  rw [List.takeWhile_eq_self_iff.2 hall, List.dropWhile_eq_nil_iff.2 hall, List.drop_nil]

/-- What is written of a path. -/
def entryOf (sha : β → Text) (owner : Text) (c : Checkout β) (rel : Text) : Text :=
  rel ++ NUL :: (digest c sha rel ++ if owner = [] then [] else NUL :: owner)

theorem partition_entryOf (hrel : NUL ∉ rel) (owner : Text) :
    partition (entryOf sha owner c rel) = (rel, digest c sha rel ++ if owner = [] then [] else NUL :: owner) :=
  partition_nul hrel _

theorem partition_rest (hsha : Tells sha) (owner : Text) :
    partition (digest c sha rel ++ if owner = [] then [] else NUL :: owner) = (digest c sha rel, owner) := by
  have hhex := (digest_hex hsha c rel).1
  by_cases h : owner = []
  · rw [if_pos h, List.append_nil, partition_plain hhex, h]
  · rw [if_neg h, partition_nul hhex]

/-- An entry says the path and the bytes. -/
theorem entryOf_inj (hsha : Tells sha) {rel' : Text} (hrel : NUL ∉ rel) (hrel' : NUL ∉ rel')
    (h : entryOf sha [] c₀ rel = entryOf sha [] c₁ rel') : rel = rel' ∧ bytesAt c₀.worktree rel = bytesAt c₁.worktree rel := by
  have hparts := congrArg partition h
  rw [partition_entryOf hrel, partition_entryOf hrel'] at hparts
  obtain ⟨rfl, hrest⟩ := Prod.mk.inj hparts
  rw [if_pos rfl, List.append_nil, List.append_nil] at hrest
  exact ⟨rfl, (digest_eq_iff hsha).1 hrest⟩

/-- One entry excuses its path where the path still has the bytes that were recorded. -/
theorem mem_untouched_since {snapshot : List Text} :
    rel ∈ untouched_since c₁ sha repo snapshot ↔ ∃ entry ∈ snapshot, (partition entry).1 = rel ∧ rel ≠ [] ∧
      (partition (partition entry).2).1 ≠ [] ∧
      ((partition (partition entry).2).2 = [] ∨ (partition (partition entry).2).2 = repo) ∧
      digest c₁ sha rel = (partition (partition entry).2).1 := by
  unfold untouched_since
  rw [List.mem_filterMap]
  refine exists_congr fun entry => and_congr_right fun _ => ?_
  dsimp only
  split
  · next hskip =>
    refine iff_of_false (Option.some_ne_none _).symm ?_
    rintro ⟨rfl, hne, hrecorded, howner, -⟩
    rcases hskip with h | h | ⟨h, h'⟩
    · exact hne h
    · exact hrecorded h
    · exact howner.elim h h'
  · next hkeep =>
    rw [not_or, not_or] at hkeep
    obtain ⟨hne, hrecorded, howner⟩ := hkeep
    have howner' : (partition (partition entry).2).2 = [] ∨ (partition (partition entry).2).2 = repo := by
      by_contra hnot
      rw [not_or] at hnot
      exact howner hnot
    split
    · next heq =>
      constructor
      · intro h
        obtain rfl := Option.some.inj h
        exact ⟨rfl, hne, hrecorded, howner', heq⟩
      · rintro ⟨rfl, -⟩
        rfl
    · next hdiffer =>
      refine iff_of_false (Option.some_ne_none _).symm ?_
      rintro ⟨rfl, -, -, -, heq⟩
      exact hdiffer heq

/-! ## Checkouts -/

theorem mem_sortedSet {paths : List Text} : rel ∈ sortedSet paths ↔ rel ∈ paths := by
  unfold sortedSet
  rw [List.mem_insertionSort, List.mem_dedup]

theorem get_ne_none_iff {tree : Tree β} : Dict.get tree rel ≠ none ↔ rel ∈ names tree := by
  rw [Ne, Dict.get_eq_none_iff, not_not]
  rfl

variable [DecidableEq β]

/-- **A path is dirty** where its worktree is not what the index has of it. -/
theorem mem_dirty : rel ∈ dirty c ↔
    Dict.get c.index rel ≠ Dict.get c.worktree rel ∧ (Dict.get c.index rel = none → c.ignored rel = false) := by
  unfold dirty unstaged untracked_files
  rw [mem_sortedSet, List.mem_append, List.mem_filter, List.mem_filter, ← get_ne_none_iff, ← get_ne_none_iff]
  simp only [decide_eq_true_eq, Option.isNone_iff_eq_none, Bool.not_eq_true]
  constructor
  · rintro (⟨hindex, hne⟩ | ⟨hworktree, hindex, hignored⟩)
    · exact ⟨hne, fun hnone => absurd hnone hindex⟩
    · exact ⟨fun heq => hworktree (heq ▸ hindex), fun _ => hignored⟩
  · rintro ⟨hne, hignored⟩
    by_cases hindex : Dict.get c.index rel = none
    · exact .inr ⟨fun hnone => hne (hindex.trans hnone.symm), hindex, hignored hindex⟩
    · exact .inl ⟨hindex, hne⟩

/-- An uncommitted path is dirty, or its index is not what HEAD has of it. -/
theorem mem_uncommitted : rel ∈ _uncommitted c ↔ rel ∈ dirty c ∨ rel ∈ staged c := by
  unfold _uncommitted dirty
  rw [mem_sortedSet, mem_sortedSet, List.mem_append]

theorem spelled_of_dirty (h : rel ∈ dirty c) : rel ≠ [] ∧ NUL ∉ rel := by
  unfold dirty unstaged untracked_files at h
  rw [mem_sortedSet, List.mem_append] at h
  rcases h with h | h
  · exact c.spelled rel (.inl (List.mem_of_mem_filter h))
  · exact c.spelled rel (.inr (List.mem_of_mem_filter h))

theorem mem_dirty_entries {owner entry : Text} {keep : Bool} : entry ∈ _dirty_entries c sha owner keep ↔
    ∃ rel ∈ dirty c, (digest c sha rel ≠ [] ∨ keep = true) ∧ entryOf sha owner c rel = entry := by
  unfold _dirty_entries
  rw [List.mem_filterMap]
  refine exists_congr fun rel => and_congr_right fun _ => ?_
  dsimp only
  by_cases h : digest c sha rel ≠ [] ∨ keep = true
  · rw [if_pos h]
    exact ⟨fun heq => ⟨h, Option.some.inj heq⟩, fun heq => congrArg some heq.2⟩
  · rw [if_neg h]
    exact iff_of_false (Option.some_ne_none _).symm fun heq => h heq.1

/-! ## Whose a path is -/

section Own

variable {git₀ git₁ : Text → Option (Checkout β)} {roots : Option (List Text)} {held : List (Text × Text)} {skip : Bool}

/-- **What a snapshot excuses**: a dirty path that had bytes, and has them again. -/
theorem excused_iff (hsha : Tells sha) :
    rel ∈ untouched_since c₁ sha repo (snapshot_worktree_state setting sha git₀ roots) ↔
      ∃ row ∈ setting.snapshotted roots, (row.2 = [] ∨ row.2 = repo) ∧ ∃ c₀, git₀ row.1 = some c₀ ∧ rel ∈ dirty c₀ ∧
        bytesAt c₀.worktree rel ≠ none ∧ bytesAt c₀.worktree rel = bytesAt c₁.worktree rel := by
  rw [mem_untouched_since]
  unfold snapshot_worktree_state
  constructor
  · rintro ⟨entry, hentry, hrel, -, hrecorded, howner, hsame⟩
    obtain ⟨row, hrow, hentry⟩ := List.mem_flatMap.1 hentry
    cases hgit : git₀ row.1 with
    | none =>
      rw [hgit] at hentry
      exact absurd hentry List.not_mem_nil
    | some c₀ =>
      rw [hgit] at hentry
      obtain ⟨rel', hdirty, -, rfl⟩ := mem_dirty_entries.1 hentry
      rw [partition_entryOf (spelled_of_dirty hdirty).2] at hrel hrecorded howner hsame
      dsimp only at hrel
      obtain rfl := hrel
      rw [partition_rest hsha] at hrecorded howner hsame
      exact ⟨row, hrow, howner, c₀, hgit, hdirty, fun hnone => hrecorded ((digest_eq_nil_iff hsha).2 hnone),
        (digest_eq_iff hsha).1 hsame.symm⟩
  · rintro ⟨row, hrow, howner, c₀, hgit, hdirty, hthere, hsame⟩
    have hspelled := spelled_of_dirty hdirty
    have hdigest : digest c₀ sha rel ≠ [] := fun hnil => hthere ((digest_eq_nil_iff hsha).1 hnil)
    refine ⟨entryOf sha row.2 c₀ rel, List.mem_flatMap.2 ⟨row, hrow, ?_⟩, ?_⟩
    · rw [hgit]
      exact mem_dirty_entries.2 ⟨rel, hdirty, .inl hdigest, rfl⟩
    · rw [partition_entryOf hspelled.2, partition_rest hsha]
      exact ⟨rfl, hspelled.1, hdigest, howner, ((digest_eq_iff hsha).2 hsame).symm⟩

/-- A path that was uncommitted when its checkout was snapshotted, and has the same bytes, or none. -/
def Kept (setting : Setting) (git₀ git₁ : Text → Option (Checkout β)) (roots : Option (List Text)) (repo rel : Text) : Prop :=
  repo ∈ (setting.snapshotted roots).map Prod.fst ∧ ∃ c₀ c₁, git₀ repo = some c₀ ∧ git₁ repo = some c₁ ∧
    rel ∈ _uncommitted c₀ ∧ bytesAt c₀.worktree rel = bytesAt c₁.worktree rel

/-- **What the snapshot gets wrong**: a kept path that was deleted, or only staged; and, where its entries name no
checkout, a path of another one that has by chance the bytes of a dirty path of the docs root. -/
def Missed (setting : Setting) (git₀ git₁ : Text → Option (Checkout β)) (roots : Option (List Text)) (repo rel : Text) : Prop :=
  (Kept setting git₀ git₁ roots repo rel ∧
    ∃ c₀, git₀ repo = some c₀ ∧ (bytesAt c₀.worktree rel = none ∨ rel ∉ dirty c₀)) ∨
  (roots = none ∧ repo ≠ setting.docs ∧ ∃ c₀ c₁, git₀ setting.docs = some c₀ ∧ git₁ repo = some c₁ ∧ rel ∈ dirty c₀ ∧
    bytesAt c₀.worktree rel ≠ none ∧ bytesAt c₀.worktree rel = bytesAt c₁.worktree rel)

/-- The code excuses a path just when it is kept, but for what is missed. -/
theorem excused_iff_kept (hsha : Tells sha) (hroots : [] ∉ roots.getD []) (hgit : git₁ repo = some c₁) :
    ((rel ∈ untouched_since c₁ sha repo (snapshot_worktree_state setting sha git₀ roots)) ↔
      Kept setting git₀ git₁ roots repo rel) ↔ ¬ Missed setting git₀ git₁ roots repo rel := by
  rw [excused_iff hsha]
  -- the checkout itself was snapshotted
  have hown : ∀ owner, (repo, owner) ∈ setting.snapshotted roots → (owner = [] ∨ owner = repo) →
      ((∃ c₀, git₀ repo = some c₀ ∧ rel ∈ dirty c₀ ∧ bytesAt c₀.worktree rel ≠ none ∧
        bytesAt c₀.worktree rel = bytesAt c₁.worktree rel) ↔
      Kept setting git₀ git₁ roots repo rel ∧
        ¬ ∃ c₀, git₀ repo = some c₀ ∧ (bytesAt c₀.worktree rel = none ∨ rel ∉ dirty c₀)) := by
    intro owner hrow _
    constructor
    · rintro ⟨c₀, hgit₀, hdirty, hthere, hsame⟩
      refine ⟨⟨List.mem_map_of_mem hrow, c₀, c₁, hgit₀, hgit, mem_uncommitted.2 (.inl hdirty), hsame⟩, ?_⟩
      rintro ⟨c, hc, hwrong⟩
      obtain rfl := Option.some.inj (hgit₀.symm.trans hc)
      exact hwrong.elim hthere fun hnot => hnot hdirty
    · rintro ⟨⟨-, c₀, c, hgit₀, hc, -, hsame⟩, hright⟩
      obtain rfl := Option.some.inj (hgit.symm.trans hc)
      rw [not_exists] at hright
      have hright' : ¬ (bytesAt c₀.worktree rel = none ∨ rel ∉ dirty c₀) := fun h => hright c₀ ⟨hgit₀, h⟩
      rw [not_or, not_not] at hright'
      exact ⟨c₀, hgit₀, hright'.2, hright'.1, hsame⟩
  cases roots with
  | some roots =>
    have hmem : ∀ row, row ∈ setting.snapshotted (some roots) ↔ ∃ root ∈ roots, (root, root) = row := fun row => List.mem_map
    have hcode : (∃ row ∈ setting.snapshotted (some roots), (row.2 = [] ∨ row.2 = repo) ∧ ∃ c₀, git₀ row.1 = some c₀ ∧
        rel ∈ dirty c₀ ∧ bytesAt c₀.worktree rel ≠ none ∧ bytesAt c₀.worktree rel = bytesAt c₁.worktree rel) ↔
        Kept setting git₀ git₁ (some roots) repo rel ∧
          ¬ ∃ c₀, git₀ repo = some c₀ ∧ (bytesAt c₀.worktree rel = none ∨ rel ∉ dirty c₀) := by
      constructor
      · rintro ⟨row, hrow, howner, hrest⟩
        obtain ⟨root, hroot, rfl⟩ := (hmem row).1 hrow
        have hne : root ≠ [] := fun hnil => hroots (hnil ▸ hroot)
        obtain rfl := howner.resolve_left hne
        exact (hown _ hrow (.inr rfl)).1 hrest
      · rintro hkept
        obtain ⟨row, hrow, hrepo⟩ := List.mem_map.1 hkept.1.1
        obtain ⟨root, -, rfl⟩ := (hmem row).1 hrow
        obtain rfl : root = repo := hrepo
        exact ⟨_, hrow, .inr rfl, (hown _ hrow (.inr rfl)).2 hkept⟩
    have hforeign : ∀ p : Prop, ¬ (some roots = none ∧ p) := fun p h => Option.some_ne_none roots h.1
    rw [hcode, and_iff_left_iff_imp, ← not_and, Missed, or_iff_left (hforeign _)]
  | none =>
    by_cases hdocs : repo = setting.docs
    · subst hdocs
      have hrow : (setting.docs, []) ∈ setting.snapshotted none := List.mem_singleton.2 rfl
      have hcode := hown [] hrow (.inl rfl)
      have hone : (∃ row ∈ setting.snapshotted none, (row.2 = [] ∨ row.2 = setting.docs) ∧ ∃ c₀, git₀ row.1 = some c₀ ∧
          rel ∈ dirty c₀ ∧ bytesAt c₀.worktree rel ≠ none ∧ bytesAt c₀.worktree rel = bytesAt c₁.worktree rel) ↔
          ∃ c₀, git₀ setting.docs = some c₀ ∧ rel ∈ dirty c₀ ∧ bytesAt c₀.worktree rel ≠ none ∧
            bytesAt c₀.worktree rel = bytesAt c₁.worktree rel := by
        constructor
        · rintro ⟨row, hmem, -, hrest⟩
          obtain rfl := List.mem_singleton.1 hmem
          exact hrest
        · exact fun hrest => ⟨_, hrow, .inl rfl, hrest⟩
      rw [hone, hcode, and_iff_left_iff_imp, ← not_and, Missed, or_iff_left fun h => h.2.1 rfl]
    · have hnot : ¬ Kept setting git₀ git₁ none repo rel := by
        rintro ⟨hmem, -⟩
        obtain ⟨row, hrow, hrepo⟩ := List.mem_map.1 hmem
        obtain rfl := List.mem_singleton.1 hrow
        exact hdocs hrepo.symm
      have hone : (∃ row ∈ setting.snapshotted none, (row.2 = [] ∨ row.2 = repo) ∧ ∃ c₀, git₀ row.1 = some c₀ ∧
          rel ∈ dirty c₀ ∧ bytesAt c₀.worktree rel ≠ none ∧ bytesAt c₀.worktree rel = bytesAt c₁.worktree rel) ↔
          ∃ c₀ c, git₀ setting.docs = some c₀ ∧ git₁ repo = some c ∧ rel ∈ dirty c₀ ∧ bytesAt c₀.worktree rel ≠ none ∧
            bytesAt c₀.worktree rel = bytesAt c.worktree rel := by
        constructor
        · rintro ⟨row, hmem, -, c₀, hgit₀, hrest⟩
          obtain rfl := List.mem_singleton.1 hmem
          exact ⟨c₀, c₁, hgit₀, hgit, hrest⟩
        · rintro ⟨c₀, c, hgit₀, hc, hrest⟩
          obtain rfl := Option.some.inj (hgit.symm.trans hc)
          exact ⟨_, List.mem_singleton.2 rfl, .inl rfl, c₀, hgit₀, hrest⟩
      rw [hone, iff_false_right hnot, Missed, or_iff_right fun h => hnot h.1]
      exact not_congr ⟨fun h => ⟨rfl, hdocs, h⟩, fun h => h.2.2⟩

/-- The leftovers that are in the report's scope. -/
def Reportable (setting : Setting) (skip : Bool) (repo rel : Text) : Prop :=
  is_gate_context rel = false ∧ (skip = true → setting.inside setting.artifacts repo rel = false)

theorem mem_ownPaths {snapshot : List Text} (hgit : git₁ repo = some c₁) : rel ∈ ownPaths sha snapshot git₁ repo ↔
    rel ∈ _uncommitted c₁ ∧ rel ∉ untouched_since c₁ sha repo snapshot := by
  unfold ownPaths
  rw [hgit, Option.elim_some, List.mem_filter, decide_eq_true_eq]

/-- A path is reported for a checkout that is covered. -/
theorem mem_reported {snapshot : List Text} (hheld : repo ∈ held.map Prod.snd) :
    (∃ name, (name, repo, rel) ∈ reported setting sha snapshot git₁ held skip) ↔
      rel ∈ ownPaths sha snapshot git₁ repo ∧ Reportable setting skip repo rel := by
  have hleft : (∃ name, (name, repo, rel) ∈ _leftovers sha snapshot git₁ held) ↔
      rel ∈ ownPaths sha snapshot git₁ repo ∧ is_gate_context rel = false := by
    unfold _leftovers
    constructor
    · rintro ⟨name, h⟩
      obtain ⟨row, -, h⟩ := List.mem_flatMap.1 h
      obtain ⟨rel', hmem, heq⟩ := List.mem_map.1 h
      obtain ⟨-, hrow, rfl⟩ := (by simpa using heq : row.1 = name ∧ row.2 = repo ∧ rel' = rel)
      obtain ⟨hown, hgate⟩ := List.mem_filter.1 hmem
      exact ⟨hrow ▸ hown, by simpa using hgate⟩
    · rintro ⟨hown, hgate⟩
      obtain ⟨row, hrow, rfl⟩ := List.mem_map.1 hheld
      exact ⟨row.1, List.mem_flatMap.2 ⟨row, hrow, List.mem_map.2 ⟨rel, List.mem_filter.2 ⟨hown, by simpa using hgate⟩, rfl⟩⟩⟩
  unfold reported Reportable
  cases skip with
  | false =>
    dsimp only
    rw [if_neg Bool.false_ne_true, hleft]
    exact and_congr_right fun _ => ⟨fun h => ⟨h, fun hno => absurd hno Bool.false_ne_true⟩, fun h => h.1⟩
  | true =>
    dsimp only
    simp only [if_true, List.mem_filter, forall_const]
    rw [← and_assoc, ← hleft]
    constructor
    · rintro ⟨name, hname, hin⟩
      exact ⟨⟨name, hname⟩, by simpa using hin⟩
    · rintro ⟨⟨name, hname⟩, hin⟩
      exact ⟨name, hname, by simpa using hin⟩

/-- What is handed over for a checkout that is covered. -/
theorem mem_handed {f : Text × Text → List Text} (hf : ∀ row row' : Text × Text, row.2 = row'.2 → f row = f row')
    {row : Text × Text} (hrow : row ∈ held) (hrepo : row.2 = repo) :
    (∃ rels, (repo, rels) ∈ (held.map fun row => (row.2, f row)) ∧ rel ∈ rels) ↔ rel ∈ f row := by
  constructor
  · rintro ⟨rels, hmem, hrel⟩
    obtain ⟨row', -, heq⟩ := List.mem_map.1 hmem
    obtain ⟨hsame, rfl⟩ := Prod.mk.inj heq
    rwa [hf row row' (hrepo.trans hsame.symm)]
  · intro hrel
    refine ⟨f row, List.mem_map.2 ⟨row, hrow, ?_⟩, hrel⟩
    rw [hrepo]

/-- **Only the story's own paths are taken**: of the uncommitted paths of a checkout those that are not kept are reported,
committed with the story, and committed with the book, each where it belongs. -/
def TakesOwn (setting : Setting) (sha : β → Text) (git₀ git₁ : Text → Option (Checkout β)) (roots : Option (List Text))
    (held : List (Text × Text)) (skip : Bool) : Prop :=
  let snapshot := snapshot_worktree_state setting sha git₀ roots
  ∀ repo ∈ held.map Prod.snd, ∀ c₁, git₁ repo = some c₁ → ∀ rel,
    ((∃ name, (name, repo, rel) ∈ reported setting sha snapshot git₁ held skip) ↔
      (rel ∈ _uncommitted c₁ ∧ ¬ Kept setting git₀ git₁ roots repo rel) ∧ Reportable setting skip repo rel) ∧
    ((∃ rels, (repo, rels) ∈ commit_story setting sha snapshot git₁ held ∧ rel ∈ rels) ↔
      (rel ∈ _uncommitted c₁ ∧ ¬ Kept setting git₀ git₁ roots repo rel) ∧
        is_product setting (setting.not_product_roots false) repo rel = true) ∧
    ((∃ rels, (repo, rels) ∈ commit_book_delta setting sha snapshot git₁ held ∧ rel ∈ rels) ↔
      (rel ∈ _uncommitted c₁ ∧ ¬ Kept setting git₀ git₁ roots repo rel) ∧ setting.inside setting.book repo rel = true)

/-- The scope of one of the three. -/
def InScope (setting : Setting) (skip : Bool) (repo rel : Text) : Prop :=
  Reportable setting skip repo rel ∨ is_product setting (setting.not_product_roots false) repo rel = true ∨
    setting.inside setting.book repo rel = true

theorem taken_iff {a e k scope : Prop} : ((a ∧ ¬ e) ∧ scope ↔ (a ∧ ¬ k) ∧ scope) ↔ (a → scope → (e ↔ k)) := by tauto

/-- **When only the story's own paths are taken.** -/
theorem takesOwn_iff (hsha : Tells sha) (hroots : [] ∉ roots.getD []) : TakesOwn setting sha git₀ git₁ roots held skip ↔
    ∀ repo ∈ held.map Prod.snd, ∀ c₁, git₁ repo = some c₁ → ∀ rel ∈ _uncommitted c₁, InScope setting skip repo rel →
      ¬ Missed setting git₀ git₁ roots repo rel := by
  unfold TakesOwn
  dsimp only
  refine forall_congr' fun repo => forall_congr' fun hrepo => forall_congr' fun c₁ => forall_congr' fun hgit =>
    forall_congr' fun rel => ?_
  set snapshot := snapshot_worktree_state setting sha git₀ roots with hsnapshot
  have hexcused : (rel ∈ untouched_since c₁ sha repo snapshot ↔ Kept setting git₀ git₁ roots repo rel) ↔
      ¬ Missed setting git₀ git₁ roots repo rel := excused_iff_kept hsha hroots hgit
  -- each of the three takes the same paths, cut to its own scope
  have hstory : (∃ rels, (repo, rels) ∈ commit_story setting sha snapshot git₁ held ∧ rel ∈ rels) ↔
      rel ∈ ownPaths sha snapshot git₁ repo ∧ is_product setting (setting.not_product_roots false) repo rel = true := by
    obtain ⟨row, hrow, hsame⟩ := List.mem_map.1 hrepo
    unfold commit_story
    rw [mem_handed (fun row row' h => by rw [h]) hrow hsame, List.mem_filter, hsame]
  have hbook : (∃ rels, (repo, rels) ∈ commit_book_delta setting sha snapshot git₁ held ∧ rel ∈ rels) ↔
      rel ∈ ownPaths sha snapshot git₁ repo ∧ setting.inside setting.book repo rel = true := by
    obtain ⟨row, hrow, hsame⟩ := List.mem_map.1 hrepo
    unfold commit_book_delta
    dsimp only
    split
    · rw [mem_handed (fun row row' h => by rw [h]) hrow hsame, List.mem_filter, hsame]
    · rw [mem_handed (fun row row' h => by rw [h]) (List.mem_append_left _ hrow) hsame, List.mem_filter, hsame]
  rw [mem_reported hrepo, hstory, hbook, mem_ownPaths hgit, taken_iff, taken_iff, taken_iff, hexcused]
  unfold InScope
  constructor
  · rintro ⟨hreported, hcommitted, hdocumented⟩ hdirty (hscope | hscope | hscope)
    · exact hreported hdirty hscope
    · exact hcommitted hdirty hscope
    · exact hdocumented hdirty hscope
  · exact fun h => ⟨fun hdirty hscope => h hdirty (.inl hscope), fun hdirty hscope => h hdirty (.inr (.inl hscope)),
      fun hdirty hscope => h hdirty (.inr (.inr hscope))⟩

end Own

/-! ## Whether a change is seen -/

section Seen

variable {git git₀ git₁ : Text → Option (Checkout β)} {repos : List Text}

/-- A path that a proof depends on. -/
def Product (setting : Setting) (repo rel : Text) : Prop := is_product setting (setting.not_product_roots true) repo rel = true

/-- The bytes of a dirty path, or that it has none. -/
def dirtyBytes (c : Checkout β) (rel : Text) : Option (Option β) := if rel ∈ dirty c then some (bytesAt c.worktree rel) else none

/-- The commits of two HEADs differ, and `git diff` lists a product path, or does not work. -/
def Listed (setting : Setting) (repo old new : Text) : Prop :=
  old ≠ new ∧ ∀ listed, setting.diff repo old new = some listed → ∃ rel ∈ Text.splitlines listed, rel ≠ [] ∧ Product setting repo rel

/-- **What shows a change of a repository**: git cannot answer, a product path is dirty otherwise than before, or the
HEADs differ in one. -/
def Shown (setting : Setting) (git₀ git₁ : Text → Option (Checkout β)) (repo : Text) : Prop :=
  ∀ c₀ c₁ old new tree₀ tree₁, git₀ repo = some c₀ → git₁ repo = some c₁ → c₀.head = some (old, tree₀) →
    c₁.head = some (new, tree₁) →
      (∃ rel, Product setting repo rel ∧ dirtyBytes c₀ rel ≠ dirtyBytes c₁ rel) ∨ Listed setting repo old new

/-- No name that is recorded has a newline. -/
def OneLine (git : Text → Option (Checkout β)) (repos : List Text) : Prop :=
  ∀ repo ∈ repos, ∀ c, git repo = some c → (∀ commit tree, c.head = some (commit, tree) → '\n' ∉ commit) ∧ ∀ rel ∈ dirty c, '\n' ∉ rel

theorem mem_product_entries {entry : Text} : entry ∈ _product_entries setting sha repo c ↔
    ∃ rel ∈ dirty c, Product setting repo rel ∧ entryOf sha [] c rel = entry := by
  unfold _product_entries
  rw [List.mem_filter, mem_dirty_entries]
  constructor
  · rintro ⟨⟨rel, hdirty, -, rfl⟩, hproduct⟩
    rw [partition_entryOf (spelled_of_dirty hdirty).2] at hproduct
    exact ⟨rel, hdirty, hproduct, rfl⟩
  · rintro ⟨rel, hdirty, hproduct, rfl⟩
    refine ⟨⟨rel, hdirty, .inr rfl, rfl⟩, ?_⟩
    rw [partition_entryOf (spelled_of_dirty hdirty).2]
    exact hproduct

theorem entries_subset_iff (hsha : Tells sha) :
    (∀ entry ∈ _product_entries setting sha repo c₀, entry ∈ _product_entries setting sha repo c₁) ↔
      ∀ rel, Product setting repo rel → rel ∈ dirty c₀ → dirtyBytes c₀ rel = dirtyBytes c₁ rel := by
  unfold dirtyBytes
  constructor
  · intro h rel hproduct hdirty
    obtain ⟨rel', hdirty', -, heq⟩ := mem_product_entries.1 (h _ (mem_product_entries.2 ⟨rel, hdirty, hproduct, rfl⟩))
    obtain ⟨rfl, hbytes⟩ := entryOf_inj hsha (spelled_of_dirty hdirty').2 (spelled_of_dirty hdirty).2 heq
    rw [if_pos hdirty, if_pos hdirty', hbytes]
  · intro h entry hentry
    obtain ⟨rel, hdirty, hproduct, rfl⟩ := mem_product_entries.1 hentry
    have hsame := h rel hproduct hdirty
    rw [if_pos hdirty] at hsame
    split at hsame
    · next hdirty' =>
      refine mem_product_entries.2 ⟨rel, hdirty', hproduct, ?_⟩
      unfold entryOf
      rw [(digest_eq_iff hsha).2 (Option.some.inj hsame)]
    · cases hsame

/-- **The entries of two states are the same** just when the product paths are dirty alike. -/
theorem entries_same_iff (hsha : Tells sha) :
    ((∀ entry ∈ _product_entries setting sha repo c₀, entry ∈ _product_entries setting sha repo c₁) ∧
      ∀ entry ∈ _product_entries setting sha repo c₁, entry ∈ _product_entries setting sha repo c₀) ↔
      ∀ rel, Product setting repo rel → dirtyBytes c₀ rel = dirtyBytes c₁ rel := by
  rw [entries_subset_iff hsha, entries_subset_iff hsha]
  constructor
  · rintro ⟨hleft, hright⟩ rel hproduct
    by_cases h₀ : rel ∈ dirty c₀
    · exact hleft rel hproduct h₀
    · by_cases h₁ : rel ∈ dirty c₁
      · exact (hright rel hproduct h₁).symm
      · unfold dirtyBytes
        rw [if_neg h₀, if_neg h₁]
  · exact fun h => ⟨fun rel hproduct _ => h rel hproduct, fun rel hproduct _ => (h rel hproduct).symm⟩

/-- What is recorded of a repository, and how it is read again. -/
theorem stateOf_eq (hsha : Tells sha) {commit : Text} {tree : Tree β} (hgit : git repo = some c) (hhead : c.head = some (commit, tree))
    (hcommit : '\n' ∉ commit) (hlines : ∀ rel ∈ dirty c, '\n' ∉ rel) :
    ∃ state, stateOf setting sha git repo = some state ∧ state.splitOn '\n' = commit :: _product_entries setting sha repo c := by
  refine ⟨['\n'].intercalate (commit :: _product_entries setting sha repo c), ?_, ?_⟩
  · unfold stateOf
    rw [hgit, Option.bind_some, hhead]
    rfl
  · refine List.splitOn_intercalate '\n' (fun line hline => ?_) (List.cons_ne_nil _ _)
    rcases List.mem_cons.1 hline with rfl | hline
    · exact hcommit
    · obtain ⟨rel, hdirty, -, rfl⟩ := mem_product_entries.1 hline
      unfold entryOf
      rw [if_pos rfl, List.append_nil, List.mem_append, List.mem_cons, not_or, not_or]
      exact ⟨hlines rel hdirty, by decide, (digest_hex hsha c rel).2⟩

theorem get_states (f : Text → Option Text) : ∀ {repos : List Text}, repo ∈ repos →
    Dict.get (repos.filterMap fun repo => (f repo).map fun state => (repo, state)) repo = f repo := by
  intro repos
  induction repos with
  | nil => exact fun h => absurd h List.not_mem_nil
  | cons first repos ih =>
    intro h
    cases hstate : f first with
    | none =>
      rw [List.filterMap_cons_none (by rw [hstate]; rfl)]
      by_cases hsame : repo = first
      · subst hsame
        rw [hstate, Dict.get_eq_none_iff]
        intro hmem
        obtain ⟨row, hrow, hfst⟩ := List.mem_map.1 hmem
        obtain ⟨repo', -, heq⟩ := List.mem_filterMap.1 hrow
        obtain ⟨state, hsome, rfl⟩ := Option.map_eq_some_iff.1 heq
        obtain rfl : repo' = repo := hfst
        exact Option.some_ne_none state (hsome.symm.trans hstate)
      · exact ih ((List.mem_cons.1 h).resolve_left hsame)
    | some state =>
      rw [List.filterMap_cons_some (by rw [hstate]; rfl), Dict.get_cons]
      by_cases hsame : first = repo
      · rw [if_pos hsame, ← hsame, hstate]
      · rw [if_neg hsame]
        exact ih ((List.mem_cons.1 h).resolve_left fun heq => hsame heq.symm)

theorem length_states (f : Text → Option Text) (repos : List Text) :
    (repos.filterMap fun repo => (f repo).map fun state => (repo, state)).length = repos.length ↔ ∀ repo ∈ repos, f repo ≠ none := by
  rw [List.filterMap_length_eq_length]
  refine forall_congr' fun repo => forall_congr' fun _ => ?_
  rw [Option.isSome_map, Option.isSome_iff_ne_none]

theorem moved_iff (hsha : Tells sha) {old new held state : Text}
    (hheld : held.splitOn '\n' = old :: _product_entries setting sha repo c₀)
    (hstate : state.splitOn '\n' = new :: _product_entries setting sha repo c₁) :
    _moved setting repo held state = true ↔
      (∃ rel, Product setting repo rel ∧ dirtyBytes c₀ rel ≠ dirtyBytes c₁ rel) ∨ Listed setting repo old new := by
  have hdiffer : (∃ rel, Product setting repo rel ∧ dirtyBytes c₀ rel ≠ dirtyBytes c₁ rel) ↔
      ¬ ∀ rel, Product setting repo rel → dirtyBytes c₀ rel = dirtyBytes c₁ rel := by
    simp only [not_forall, exists_prop]
  unfold _moved
  dsimp only
  rw [hheld, hstate, List.tail_cons, List.tail_cons, List.headD_cons, List.headD_cons, hdiffer, ← entries_same_iff hsha]
  split
  · next h => exact iff_of_true rfl (.inl h)
  · next h =>
    rw [not_not] at h
    rw [or_iff_right (not_not.2 h)]
    unfold Listed
    split
    · next heq => exact iff_of_false Bool.false_ne_true fun hlisted => hlisted.1 heq
    · next hne =>
      split
      · next hnone =>
        refine iff_of_true rfl ⟨hne, fun listed hlisted => ?_⟩
        exact absurd (hnone.symm.trans hlisted) (Option.some_ne_none listed).symm
      · next listed hsome =>
        rw [List.any_eq_true]
        constructor
        · rintro ⟨rel, hrel, hboth⟩
          refine ⟨hne, fun listed' hlisted => ?_⟩
          obtain rfl := Option.some.inj (hsome.symm.trans hlisted)
          have hproduct : rel ≠ [] ∧ is_product setting (setting.not_product_roots true) repo rel = true := of_decide_eq_true hboth
          exact ⟨rel, hrel, hproduct⟩
        · rintro ⟨-, hlisted⟩
          obtain ⟨rel, hrel, hboth⟩ := hlisted listed hsome
          have hproduct : rel ≠ [] ∧ is_product setting (setting.not_product_roots true) repo rel = true := hboth
          exact ⟨rel, hrel, decide_eq_true hproduct⟩

/-- **When `code_changed` sees a change.** -/
theorem changed_iff (hsha : Tells sha) (hold : OneLine git₀ repos) (hnew : OneLine git₁ repos) :
    code_changed setting sha (snapshot_code_state setting sha git₀ repos) git₁ repos = true ↔
      repos = [] ∨ ∃ repo ∈ repos, Shown setting git₀ git₁ repo := by
  have hstate : ∀ {git : Text → Option (Checkout β)}, OneLine git repos → ∀ repo ∈ repos,
      (stateOf setting sha git repo = none ∧ ∀ c commit tree, git repo = some c → c.head ≠ some (commit, tree)) ∨
      ∃ c commit tree state, git repo = some c ∧ c.head = some (commit, tree) ∧ stateOf setting sha git repo = some state ∧
        state.splitOn '\n' = commit :: _product_entries setting sha repo c := by
    intro git hlines repo hrepo
    cases hgit : git repo with
    | none =>
      refine .inl ⟨by rw [stateOf, hgit]; rfl, fun c commit tree hc => ?_⟩
      cases hc
    | some c =>
      cases hhead : c.head with
      | none =>
        refine .inl ⟨by rw [stateOf, hgit, Option.bind_some, hhead]; rfl, fun c' commit tree hc => ?_⟩
        obtain rfl := Option.some.inj hc
        rw [hhead]
        exact (Option.some_ne_none _).symm
      | some head =>
        obtain ⟨commit, tree⟩ := head
        obtain ⟨hcommit, hdirty⟩ := hlines repo hrepo c hgit
        obtain ⟨state, hsome, hsplit⟩ : ∃ state, stateOf setting sha git repo = some state ∧
            state.splitOn '\n' = commit :: _product_entries setting sha repo c :=
          stateOf_eq hsha hgit hhead (hcommit commit tree hhead) hdirty
        exact .inr ⟨c, commit, tree, state, rfl, hhead, hsome, hsplit⟩
  unfold code_changed snapshot_code_state _code_state
  dsimp only
  split
  · next hblind =>
    refine iff_of_true rfl ?_
    rcases hblind with hnone | hlength
    · exact .inl (List.length_eq_zero_iff.1 hnone)
    · rw [Ne, length_states] at hlength
      push Not at hlength
      obtain ⟨repo, hrepo, hnone⟩ := hlength
      refine .inr ⟨repo, hrepo, fun c₀ c₁ old new tree₀ tree₁ _ hc₁ _ hhead => ?_⟩
      rcases hstate hnew repo hrepo with ⟨-, hno⟩ | ⟨_, _, _, state, -, -, hsome, -⟩
      · exact absurd hhead (hno c₁ new tree₁ hc₁)
      · exact absurd (hsome.symm.trans hnone) (Option.some_ne_none state)
  · next hsighted =>
    rw [not_or, not_not, length_states] at hsighted
    obtain ⟨hrepos, hall⟩ := hsighted
    rw [or_iff_right fun hnil => hrepos (List.length_eq_zero_iff.2 hnil), List.any_eq_true]
    -- a repository that is watched now: its state, and what is held of it
    have hone : ∀ repo ∈ repos, ∀ state, stateOf setting sha git₁ repo = some state →
        (changedSince setting (repos.filterMap fun repo => (stateOf setting sha git₀ repo).map fun state => (repo, state)) repo
          state = true ↔ Shown setting git₀ git₁ repo) := by
      intro repo hrepo state hsome
      unfold changedSince
      rw [get_states _ hrepo]
      rcases hstate hold repo hrepo with ⟨hnone, hno⟩ | ⟨c₀, old, tree₀, held, hgit₀, hhead₀, hheld, hsplit₀⟩
      · rw [hnone]
        exact iff_of_true rfl fun c₀ c₁ old new tree₀ tree₁ hc₀ _ hhead _ => absurd hhead (hno c₀ old tree₀ hc₀)
      · rw [hheld]
        rcases hstate hnew repo hrepo with ⟨hnone, -⟩ | ⟨c₁, new, tree₁, state', hgit₁, hhead₁, hsome', hsplit₁⟩
        · exact absurd hnone (hall repo hrepo)
        · obtain rfl := Option.some.inj (hsome.symm.trans hsome')
          refine (moved_iff hsha hsplit₀ hsplit₁).trans ⟨fun h c c' old' new' tree tree' hc hc' hhead hhead' => ?_, fun h =>
            h c₀ c₁ old new tree₀ tree₁ hgit₀ hgit₁ hhead₀ hhead₁⟩
          obtain rfl := Option.some.inj (hgit₀.symm.trans hc)
          obtain rfl := Option.some.inj (hgit₁.symm.trans hc')
          obtain ⟨rfl, -⟩ := Prod.mk.inj (Option.some.inj (hhead₀.symm.trans hhead))
          obtain ⟨rfl, -⟩ := Prod.mk.inj (Option.some.inj (hhead₁.symm.trans hhead'))
          exact h
    constructor
    · rintro ⟨row, hrow, hmoved⟩
      obtain ⟨repo, hrepo, heq⟩ := List.mem_filterMap.1 hrow
      obtain ⟨state, hsome, rfl⟩ := Option.map_eq_some_iff.1 heq
      exact ⟨repo, hrepo, (hone repo hrepo state hsome).1 hmoved⟩
    · rintro ⟨repo, hrepo, hshown⟩
      obtain ⟨state, hsome⟩ := Option.ne_none_iff_exists'.1 (hall repo hrepo)
      exact ⟨(repo, state), List.mem_filterMap.2 ⟨repo, hrepo, by rw [hsome]; rfl⟩, (hone repo hrepo state hsome).2 hshown⟩

/-- **Every change is seen**: no change is reported only if every product path, ignored files aside, has the bytes that it
had. -/
def SeesEvery (setting : Setting) (sha : β → Text) (git₀ git₁ : Text → Option (Checkout β)) (repos : List Text) : Prop :=
  code_changed setting sha (snapshot_code_state setting sha git₀ repos) git₁ repos = false →
    ∀ repo ∈ repos, ∀ c₀ c₁, git₀ repo = some c₀ → git₁ repo = some c₁ → ∀ rel, Product setting repo rel →
      c₀.ignored rel = false → c₁.ignored rel = false → bytesAt c₀.worktree rel = bytesAt c₁.worktree rel

/-- **A path hides behind the index**: it is not dirty in either state, and the index has other bytes of it now. -/
def Hidden (setting : Setting) (git₀ git₁ : Text → Option (Checkout β)) (repo rel : Text) : Prop :=
  ∃ c₀ c₁, git₀ repo = some c₀ ∧ git₁ repo = some c₁ ∧ Product setting repo rel ∧ c₀.ignored rel = false ∧
    c₁.ignored rel = false ∧ rel ∉ dirty c₀ ∧ rel ∉ dirty c₁ ∧ bytesAt c₀.index rel ≠ bytesAt c₁.index rel

/-- The worktree of a path that is not dirty is the index. -/
theorem bytesAt_of_clean (hdirty : rel ∉ dirty c) (hignored : c.ignored rel = false) :
    bytesAt c.worktree rel = bytesAt c.index rel := by
  rw [mem_dirty, not_and] at hdirty
  have hsame : Dict.get c.index rel = Dict.get c.worktree rel := by
    by_contra hne
    exact hdirty hne fun _ => hignored
  unfold bytesAt
  rw [hsame]

/-- **When every change is seen.** -/
theorem seesEvery_iff (hsha : Tells sha) (hold : OneLine git₀ repos) (hnew : OneLine git₁ repos) :
    SeesEvery setting sha git₀ git₁ repos ↔
      (∃ repo ∈ repos, Shown setting git₀ git₁ repo) ∨ ∀ repo ∈ repos, ∀ rel, ¬ Hidden setting git₀ git₁ repo rel := by
  have hchanged : code_changed setting sha (snapshot_code_state setting sha git₀ repos) git₁ repos = true ↔
      repos = [] ∨ ∃ repo ∈ repos, Shown setting git₀ git₁ repo := changed_iff hsha hold hnew
  unfold SeesEvery
  by_cases hshown : ∃ repo ∈ repos, Shown setting git₀ git₁ repo
  · rw [hchanged.2 (.inr hshown)]
    exact iff_of_true (fun h => absurd h.symm Bool.false_ne_true) (.inl hshown)
  · rw [or_iff_right hshown]
    constructor
    · rintro hsame repo hrepo rel ⟨c₀, c₁, hgit₀, hgit₁, hproduct, hignored₀, hignored₁, hclean₀, hclean₁, hne⟩
      have hquiet : code_changed setting sha (snapshot_code_state setting sha git₀ repos) git₁ repos = false := by
        rw [← Bool.not_eq_true, hchanged]
        rintro (hnil | hshown')
        · exact List.ne_nil_of_mem hrepo hnil
        · exact hshown hshown'
      have hbytes := hsame hquiet repo hrepo c₀ c₁ hgit₀ hgit₁ rel hproduct hignored₀ hignored₁
      rw [bytesAt_of_clean hclean₀ hignored₀, bytesAt_of_clean hclean₁ hignored₁] at hbytes
      exact hne hbytes
    · intro hhidden _ repo hrepo c₀ c₁ hgit₀ hgit₁ rel hproduct hignored₀ hignored₁
      have hdirty : dirtyBytes c₀ rel = dirtyBytes c₁ rel := by
        by_contra hne
        exact hshown ⟨repo, hrepo, fun c c' _ _ _ _ hc hc' _ _ => by
          obtain rfl := Option.some.inj (hgit₀.symm.trans hc)
          obtain rfl := Option.some.inj (hgit₁.symm.trans hc')
          exact .inl ⟨rel, hproduct, hne⟩⟩
      unfold dirtyBytes at hdirty
      by_cases h₀ : rel ∈ dirty c₀
      · rw [if_pos h₀] at hdirty
        split at hdirty
        · exact Option.some.inj hdirty
        · cases hdirty
      · rw [if_neg h₀] at hdirty
        split at hdirty
        · cases hdirty
        · next h₁ =>
          rw [bytesAt_of_clean h₀ hignored₀, bytesAt_of_clean h₁ hignored₁]
          by_contra hne
          exact hhidden repo hrepo rel ⟨c₀, c₁, hgit₀, hgit₁, hproduct, hignored₀, hignored₁, h₀, h₁, hne⟩

end Seen

/-! ## Both -/

/-- A workspace whose artifacts dir and book are in its one repository. -/
def oneRepo : Setting where
  resolved repo rel := repo :: parts rel
  artifacts := ["/app".toList, "artifacts".toList]
  book := ["/app".toList, "docs".toList, "services".toList]
  docs := "/app".toList
  diff _ _ _ := some []

/-- A digest that writes a number as so many letters. -/
def unary (n : ℕ) : Text := List.replicate (n + 1) 'a'

theorem unary_tells : Tells unary where
  injective a b h := by
    have hlength := congrArg List.length h
    rw [unary, unary, List.length_replicate, List.length_replicate] at hlength
    exact Nat.succ.inj hlength
  nonempty b := List.cons_ne_nil _ _
  hex b := by
    constructor
    · intro h
      exact absurd (List.eq_of_mem_replicate h) (by decide)
    · intro h
      exact absurd (List.eq_of_mem_replicate h) (by decide)

/-- One file, as it is committed and as it is staged, which is also how it is in the worktree. -/
def oneFile (committed now : ℕ) : Checkout ℕ where
  head := some ("c1".toList, [("app.py".toList, ⟨committed, false⟩)])
  index := [("app.py".toList, ⟨now, false⟩)]
  worktree := [("app.py".toList, ⟨now, false⟩)]
  ignored _ := false
  spelled rel h := by
    obtain rfl : rel = "app.py".toList := h.elim List.mem_singleton.1 List.mem_singleton.1
    decide

theorem oneLine_oneFile (a b : ℕ) (repos : List Text) : OneLine (fun _ => some (oneFile a b)) repos := by
  intro repo _ c hc
  obtain rfl := Option.some.inj hc
  refine ⟨fun commit tree hhead => ?_, fun rel hrel => ?_⟩
  · obtain ⟨rfl, -⟩ := Prod.mk.inj (Option.some.inj hhead)
    decide
  · have hclean : dirty (oneFile a b) = [] := by
      have hnone : ∀ rel, rel ∉ dirty (oneFile a b) := fun rel h => (mem_dirty.1 h).1 rfl
      exact List.eq_nil_iff_forall_not_mem.2 hnone
    rw [hclean] at hrel
    exact absurd hrel List.not_mem_nil

end Stablemate.Changes
