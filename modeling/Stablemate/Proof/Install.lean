import Stablemate.Lib.Lists
import Stablemate.Model.Install

/-!
# An install is all or nothing, where the ground is clear

* `is_owned_under`: ownership only grows with what stands in a tree.
* `Less`: `remove_targets` takes nothing but what farrier owns or assumes; `removed_gone` and
  `removed_emptied` say what it takes for certain.
* `Placed`: the writes put each output at its own place and nothing else but folders.
* `all_or_nothing`: **where the outputs are refused, or the ground is clear for them, an install
  stops and leaves the tree as it was, or it is complete.**
-/

namespace Stablemate.Install

open Posix

variable {generated_by : Text → Text} {repo : Place} {managed : Managed} {outputs : Outputs} {fences : Bool}
variable {t t₁ t₂ t' : FileTree File} {v w : View File} {p q root d rel : Place} {x : Node File}

/-! ## Reading marks -/

theorem newlines_eq : ∀ {text : Text}, '\r' ∉ text → Text.newlines text = text
  | [], _ => rfl
  | c :: cs, h => by
    have hc : c ≠ '\r' := fun hc => h (hc ▸ List.mem_cons_self)
    have ih : Text.newlines cs = cs := newlines_eq fun hcs => h (List.mem_cons_of_mem c hcs)
    rw [Text.newlines.eq_4 c cs (fun _ hcr _ => hc hcr) hc, ih]

/-- The file carries farrier's mark. -/
def Marked (generated_by : Text → Text) (file : File) : Prop :=
  match file.contents with
  | .utf8 text => is_tagged generated_by (Text.newlines text) = true
  | .other _ => False

/-- A file that carries the mark is replaced by one that does. -/
def Marks (generated_by : Text → Text) (a b : File) : Prop := Marked generated_by a → Marked generated_by b

theorem is_generated_iff : is_generated generated_by v p = true ↔ ∃ file, stat v p = some (.file file) ∧ Marked generated_by file := by
  unfold is_generated isFile read_text
  cases h : stat v p with
  | none => simp
  | some x =>
    cases x with
    | folder => simp
    | link s => simp
    | file file =>
      obtain ⟨contents, exec⟩ := file
      cases contents with
      | utf8 text => simp [Marked]
      | other bytes => simp [Marked]

theorem marked_iff : marked generated_by v p = true ↔ ∃ file, v p = some (.file file) ∧ Marked generated_by file := by
  unfold marked
  cases h : v p with
  | none => simp
  | some x =>
    cases x with
    | folder => simp
    | link s => simp
    | file file =>
      obtain ⟨contents, exec⟩ := file
      cases contents with
      | utf8 text => simp [Marked]
      | other bytes => simp [Marked]

theorem is_generated_under (h : Under (Marks generated_by) v w) (hg : is_generated generated_by v p = true) :
    is_generated generated_by w p = true := by
  obtain ⟨file, hstat, hmark⟩ := is_generated_iff.1 hg
  obtain ⟨y, hy, hrel⟩ := stat_under h hstat
  obtain ⟨file', rfl, hmarks⟩ := hrel.of_file
  exact is_generated_iff.2 ⟨file', hy, hmarks hmark⟩

theorem bundled_imp {g g' : Place → Bool} (h : ∀ p, g p = true → g' p = true) (root : Place) :
    ∀ p, bundled g root p = true → bundled g' root p = true
  | [], hb => hb
  | n :: p, hb => by
    rw [bundled, Bool.and_eq_true, Bool.or_eq_true] at hb ⊢
    obtain ⟨habove, hhead | hrest⟩ := hb
    · obtain ⟨head, hmem, hg⟩ := List.any_eq_true.1 hhead
      exact ⟨habove, .inl (List.any_eq_true.2 ⟨head, hmem, h _ hg⟩)⟩
    · exact ⟨habove, .inr (bundled_imp h root p hrest)⟩

/-- **Ownership grows with the tree.** -/
theorem is_owned_under (h : Under (Marks generated_by) v w) (ho : is_owned generated_by v p root = true) :
    is_owned generated_by w p root = true := by
  unfold is_owned at ho ⊢
  rw [Bool.or_eq_true] at ho ⊢
  exact ho.imp (is_generated_under h) (bundled_imp (fun _ => is_generated_under h) root _)

theorem isFile_iff : isFile v p = true ↔ ∃ file, stat v p = some (.file file) := by
  unfold isFile
  cases stat v p with
  | none => simp
  | some x => cases x <;> simp

theorem isFile_under {R : File → File → Prop} (h : Under R v w) (hf : isFile v p = true) : isFile w p = true := by
  obtain ⟨file, hstat⟩ := isFile_iff.1 hf
  obtain ⟨y, hy, hrel⟩ := stat_under h hstat
  obtain ⟨file', rfl, -⟩ := hrel.of_file
  exact isFile_iff.2 ⟨file', hy⟩

theorem is_owned_link_iff {source_dir : Place} : is_owned_link v p source_dir = true ↔
    ∃ target, lstat v p = some (.link target) ∧ Above source_dir (link_destination p target) := by
  unfold is_owned_link
  cases lstat v p with
  | none => simp
  | some x => cases x <;> simp

/-! ## What is taken -/

/-- `v` holds nothing that `w` does not. -/
def Within (v w : View File) : Prop := ∀ q x, v q = some x → w q = some x

theorem Within.under {R : File → File → Prop} (hR : ∀ a, R a a) (h : Within v w) : Under R v w := by
  intro q x hx
  refine ⟨x, h q x hx, ?_⟩
  cases x with
  | file a => exact hR a
  | folder => trivial
  | link s => rfl

theorem Within.marks (h : Within v w) : Under (Marks generated_by) v w := h.under fun _ => id

theorem Within.spot (h : Within v w) (hq : spot v p = some q) : spot w p = some q :=
  spot_under (h.under fun (_ : File) => rfl : Under Eq v w) hq

theorem Within.lstat (h : Within v w) (hx : lstat v p = some x) : lstat w p = some x := by
  obtain ⟨q, hq, hv⟩ := Option.bind_eq_some_iff.1 hx
  exact Option.bind_eq_some_iff.2 ⟨q, h.spot hq, h q x hv⟩

theorem Within.absent (h : Within v w) (hq : w q = none) : v q = none := by
  cases hv : v q with
  | none => rfl
  | some x =>
    rw [h q x hv] at hq
    cases hq

theorem Within.trans {u : View File} (h : Within u v) (h' : Within v w) : Within u w := fun q x hx => h' q x (h q x hx)

theorem within_unlink (t : FileTree File) (p : Place) : Within (unlink t p).view t.view := by
  intro q x hx
  rcases unlink_or t p with ⟨r, -, -, hview⟩ | hsame
  · rw [hview] at hx
    split at hx
    · cases hx
    · exact hx
  · rw [hsame] at hx
    exact hx

theorem within_rmdir (t : FileTree File) (p : Place) : Within (rmdir t p).view t.view := by
  intro q x hx
  rcases rmdir_or t p with ⟨r, -, -, hview⟩ | hsame
  · rw [hview] at hx
    split at hx
    · cases hx
    · exact hx
  · rw [hsame] at hx
    exact hx

/-- `t₁` is `t` without entries that farrier owns or assumes, and without some folders. -/
structure Less (generated_by : Text → Text) (repo : Place) (managed : Managed) (t t₁ : FileTree File) : Prop where
  within : Within t₁.view t.view
  taken : ∀ q x, t.view q = some x → x ≠ .folder → t₁.view q = some x ∨ Owned generated_by repo managed t q ∨
    Assumed repo managed t q

theorem Less.refl (t : FileTree File) : Less generated_by repo managed t t := ⟨fun _ _ h => h, fun _ _ h _ => .inl h⟩

theorem Less.rmdir (h : Less generated_by repo managed t t₁) (p : Place) :
    Less generated_by repo managed t (rmdir t₁ p) := by
  refine ⟨(within_rmdir t₁ p).trans h.within, fun q x hx hne => ?_⟩
  rcases h.taken q x hx hne with h₁ | h₁
  · rcases rmdir_or t₁ p with ⟨r, -, hfolder, hview⟩ | hsame
    · refine .inl ((hview q).trans (if_neg ?_ |>.trans h₁))
      rintro rfl
      exact hne (Option.some.inj (h₁.symm.trans hfolder))
    · exact .inl (hsame ▸ h₁)
  · exact .inr h₁

theorem Less.unlink (h : Less generated_by repo managed t t₁)
    (hp : ∀ q, spot t.view p = some q → Owned generated_by repo managed t q ∨ Assumed repo managed t q) :
    Less generated_by repo managed t (unlink t₁ p) := by
  refine ⟨(within_unlink t₁ p).trans h.within, fun q x hx hne => ?_⟩
  rcases h.taken q x hx hne with h₁ | h₁
  · rcases unlink_or t₁ p with ⟨r, hspot, -, hview⟩ | hsame
    · by_cases hq : q = r
      · subst hq
        exact .inr (hp q (h.within.spot hspot))
      · exact .inl ((hview q).trans (if_neg hq |>.trans h₁))
    · exact .inl (hsame.symm ▸ h₁)
  · exact .inr h₁

theorem foldl_keeps {α β : Type} {f : β → α → β} {P : β → Prop} {l : List α} {b : β}
    (h : ∀ b a, a ∈ l → P b → P (f b a)) (hb : P b) : P (l.foldl f b) := by
  induction l generalizing b with
  | nil => exact hb
  | cons a l ih => exact ih (fun b' a' ha' => h b' a' (List.mem_cons_of_mem a ha')) (h b a List.mem_cons_self hb)

theorem mem_owned_files : p ∈ owned_files generated_by t d ↔
    isDir t.view d = true ∧ p ∈ rglob t d ∧ isFile t.view p = true ∧ is_owned generated_by t.view p d = true := by
  unfold owned_files
  split
  · rename_i hdir
    rw [List.mem_filter, mem_sorted, Bool.and_eq_true, hdir]
    simp
  · rename_i hdir
    simp [hdir]

theorem mem_owned_links {links : Links} : p ∈ owned_links t d links ↔ ∃ source_dir, links.get d = some source_dir ∧
    isDir t.view d = true ∧ p ∈ iterdir t d ∧ is_owned_link t.view p source_dir = true := by
  unfold owned_links
  cases hget : links.get d with
  | none => simp
  | some source_dir =>
    simp only [Option.some.injEq, exists_eq_left']
    by_cases hdir : isDir t.view d = true
    · rw [if_pos hdir, List.mem_filter, mem_sorted]
      simp [hdir]
    · simp [hdir]

theorem cons_of_mem_iterdir (h : p ∈ iterdir t d) : ∃ n, p = n :: d := by
  unfold iterdir at h
  split at h
  · obtain ⟨q, hq, rfl⟩ := List.mem_map.1 h
    obtain ⟨hkey, -⟩ := List.mem_filter.1 hq
    cases q with
    | nil =>
      obtain ⟨e, he, hnil⟩ := List.mem_map.1 hkey
      exact absurd hnil (t.closed e he).1
    | cons n q => exact ⟨n, rfl⟩
  · cases h

/-- **A sweep takes what farrier owns.** -/
theorem Less.sweep (h : Less generated_by repo managed t t₁) (hd : d ∈ managed.dirs) :
    Less generated_by repo managed t (sweep generated_by t₁ (d ++ repo) (link_map repo managed)) := by
  unfold Install.sweep
  split
  · have hroot : d ++ repo ∈ repo :: managed.dirs.map (· ++ repo) :=
      List.mem_cons_of_mem _ (List.mem_map.2 ⟨d, hd, rfl⟩)
    have hfiles : Less generated_by repo managed t ((owned_files generated_by t₁ (d ++ repo)).foldl Posix.unlink t₁) := by
      refine foldl_keeps (fun t₂ p hp h₂ => h₂.unlink fun q hq => ?_) h
      obtain ⟨-, -, -, howned⟩ := mem_owned_files.1 hp
      exact .inl ⟨p, hq, .inl ⟨_, hroot, is_owned_under h.within.marks howned⟩⟩
    generalize (owned_files generated_by t₁ (d ++ repo)).foldl Posix.unlink t₁ = t₂ at hfiles ⊢
    refine foldl_keeps (fun t₃ p _ h₃ => h₃.rmdir p) (foldl_keeps (fun t₃ p hp h₃ => h₃.unlink fun q hq => ?_) hfiles)
    obtain ⟨source_dir, hget, -, hmem, hlink⟩ := mem_owned_links.1 hp
    obtain ⟨target, hlstat, habove⟩ := is_owned_link_iff.1 hlink
    refine .inl ⟨p, hq, .inr ⟨source_dir, ?_, is_owned_link_iff.2 ⟨target, hfiles.within.lstat hlstat, habove⟩⟩⟩
    obtain ⟨n, rfl⟩ := cons_of_mem_iterdir hmem
    exact hget
  · exact h

theorem Less.remove_named (h : Less generated_by repo managed t t₁) (rel : Place) :
    Less generated_by repo managed t (remove_named generated_by repo t₁ rel) := by
  unfold Install.remove_named
  split
  · rename_i hboth
    rw [Bool.and_eq_true] at hboth
    refine h.unlink fun q hq => .inl ⟨_, hq, .inl ⟨repo, List.mem_cons_self, ?_⟩⟩
    exact is_owned_under h.within.marks hboth.2
  · exact h

theorem fnmatch_cons (c : Char) (pattern name : Text) : fnmatch (c :: pattern) name =
    if c = '*' then name.tails.any (fnmatch pattern)
    else match name with
      | [] => false
      | d :: name => c = d && fnmatch pattern name := by
  cases name <;> rfl

theorem fnmatch_append : ∀ {a x : Text} {b y : Text}, fnmatch a x = true → fnmatch b y = true →
    fnmatch (a ++ b) (x ++ y) = true
  | [], x, b, y, ha, hb => by
    have hx : x = [] := List.isEmpty_iff.1 ha
    subst hx
    exact hb
  | c :: a, x, b, y, ha, hb => by
    rw [fnmatch_cons] at ha
    rw [List.cons_append, fnmatch_cons]
    split
    · rename_i hc
      rw [if_pos hc] at ha
      obtain ⟨s, hs, hmatch⟩ := List.any_eq_true.1 ha
      refine List.any_eq_true.2 ⟨s ++ y, ?_, fnmatch_append hmatch hb⟩
      obtain ⟨l, rfl⟩ := (List.mem_tails _ _).1 hs
      exact (List.mem_tails _ _).2 ⟨l, by simp⟩
    · rename_i hc
      rw [if_neg hc] at ha
      cases x with
      | nil => cases ha
      | cons e x =>
        simp only [Bool.and_eq_true, decide_eq_true_eq] at ha
        obtain ⟨rfl, hmatch⟩ := ha
        simpa using fnmatch_append hmatch hb

/-- A path matches the pattern whose segments its names match. -/
theorem fnmatch_of_segments : ∀ {segments : List Text} {names : List Name}, segmentsMatch segments names = true →
    fnmatch (['/'].intercalate segments) (['/'].intercalate names) = true
  | [], [], _ => rfl
  | [], _ :: _, h => by cases h
  | _ :: _, [], h => by cases h
  | s :: segments, n :: names, h => by
    rw [segmentsMatch, Bool.and_eq_true] at h
    obtain ⟨hs, hrest⟩ := h
    cases segments with
    | nil =>
      cases names with
      | nil => simpa [List.intercalate] using hs
      | cons m names => cases hrest
    | cons s' segments =>
      cases names with
      | nil => cases hrest
      | cons m names =>
        have ih := fnmatch_of_segments hrest
        have hslash : fnmatch ('/' :: ['/'].intercalate (s' :: segments)) ('/' :: ['/'].intercalate (m :: names)) = true := by
          rw [fnmatch_cons, if_neg (by decide)]
          simpa using ih
        simpa [List.intercalate] using fnmatch_append hs hslash

theorem mem_globFrom : ∀ {segments : List Text} {c : Place}, p ∈ globFrom t segments c →
    ∃ names, p = names.reverse ++ c ∧ segmentsMatch segments names = true
  | [], c, h => ⟨[], List.mem_singleton.1 h, rfl⟩
  | s :: segments, c, h => by
    obtain ⟨q, hq, hp⟩ := List.mem_flatMap.1 h
    obtain ⟨hmem, hs⟩ := List.mem_filter.1 hq
    obtain ⟨n, rfl⟩ := cons_of_mem_iterdir hmem
    obtain ⟨names, rfl, hnames⟩ := mem_globFrom hp
    refine ⟨n :: names, by simp, ?_⟩
    rw [segmentsMatch, hnames, Bool.and_true]
    exact hs

theorem Less.remove_assumed (h : Less generated_by repo managed t t₁) {pattern : Text} (hpat : pattern ∈ managed.assumed) :
    Less generated_by repo managed t (remove_assumed repo t₁ pattern) := by
  refine foldl_keeps (fun t₂ p hp h₂ => ?_) h
  split
  · refine h₂.unlink fun q hq => .inr ?_
    obtain ⟨names, rfl, hnames⟩ := mem_globFrom (mem_sorted.1 hp)
    refine ⟨names.reverse, hq, List.any_eq_true.2 ⟨pattern, hpat, ?_⟩⟩
    have hmatch := fnmatch_of_segments hnames
    rw [List.intercalate_splitOn] at hmatch
    rw [as_posix, List.reverse_reverse]
    exact hmatch
  · exact h₂

/-- The tree after the managed directories are swept. -/
def sweeps (generated_by : Text → Text) (repo : Place) (managed : Managed) (t : FileTree File) : FileTree File :=
  managed.dirs.foldl (fun t rel => sweep generated_by t (rel ++ repo) (link_map repo managed)) t

/-- **Deleting the previous output takes nothing but what farrier owns or assumes.** -/
theorem less_remove_targets (t : FileTree File) :
    Less generated_by repo managed t (remove_targets generated_by repo managed t) := by
  have hdirs : Less generated_by repo managed t (sweeps generated_by repo managed t) :=
    foldl_keeps (fun _ _ hd h => h.sweep hd) (Less.refl t)
  have hfiles : Less generated_by repo managed t
      (managed.files.foldl (remove_named generated_by repo) (sweeps generated_by repo managed t)) :=
    foldl_keeps (fun _ rel _ h => h.remove_named rel) hdirs
  exact foldl_keeps (fun _ _ hpat h => h.remove_assumed hpat) hfiles

theorem within_remove_targets (t : FileTree File) : Within (remove_targets generated_by repo managed t).view t.view :=
  (less_remove_targets t).within

/-! ## What a sweep takes for certain -/

/-- No symlink stands at or above `p`. -/
def Straight (v : View File) (p : Place) : Prop := ∀ q, q <:+ p → linkAt v q = false

theorem linkAt_iff : linkAt v p = false ↔ ∀ s, v p ≠ some (.link s) := by
  unfold linkAt
  cases v p with
  | none => simp
  | some x => cases x <;> simp

theorem Straight.ne_link (h : Straight v p) : ∀ q, q <:+ p → ∀ s, v q ≠ some (.link s) :=
  fun q hq => linkAt_iff.1 (h q hq)

theorem Straight.within (h : Straight w p) (hw : Within v w) : Straight v p :=
  fun q hq => linkAt_iff.2 fun s hs => h.ne_link q hq s (hw q _ hs)

theorem isDir_iff : isDir v p = true ↔ stat v p = some .folder := by
  unfold isDir
  cases stat v p with
  | none => simp
  | some x => cases x <;> simp

theorem isDir_of_view (h : t.view p = some .folder) : isDir t.view p = true :=
  isDir_iff.2 (FileTree.stat_of_view h fun s hs => by cases hs)

theorem Straight.folder (h : Straight v p) (hd : isDir v p = true) : v p = some .folder :=
  stat_eq h.ne_link (isDir_iff.1 hd)

/-- What is listed in a tree is named by its own path, as entries are taken from the tree. -/
theorem spot_listed (hx : t₁.view p ≠ none) (hw : Within t₂.view t₁.view) (hq : spot t₂.view p = some q) : q = p := by
  obtain ⟨x, hx⟩ := Option.ne_none_iff_exists'.1 hx
  refine spot_eq (fun r hr s hs => ?_) hq
  have hfolder := FileTree.way hx r hr
  rw [hw r _ hs] at hfolder
  cases hfolder

theorem foldl_within {α : Type} {f : FileTree File → α → FileTree File} (hf : ∀ t p, Within (f t p).view t.view) (ps : List α)
    (t : FileTree File) : Within (ps.foldl f t).view t.view :=
  foldl_keeps (P := fun t' => Within t'.view t.view) (fun t' p _ h => (hf t' p).trans h) fun _ _ h => h

theorem foldl_unlink_outside {ps : List Place} (hps : ∀ p ∈ ps, ∀ t₂ : FileTree File, Within t₂.view t₁.view →
    ∀ r, spot t₂.view p = some r → r ≠ q) : (ps.foldl unlink t₁).view q = t₁.view q := by
  have hboth : Within (ps.foldl unlink t₁).view t₁.view ∧ (ps.foldl unlink t₁).view q = t₁.view q := by
    refine foldl_keeps (P := fun t₂ : FileTree File => Within t₂.view t₁.view ∧ t₂.view q = t₁.view q) ?_ ⟨fun _ _ h => h, rfl⟩
    rintro t₂ p hp ⟨hw, hq⟩
    refine ⟨(within_unlink t₂ p).trans hw, ?_⟩
    rcases unlink_or t₂ p with ⟨r, hspot, -, hview⟩ | hsame
    · rw [hview, if_neg (hps p hp t₂ hw r hspot).symm, hq]
    · rw [hsame, hq]
  exact hboth.2

theorem foldl_rmdir_outside {ps : List Place} (hps : ∀ p ∈ ps, t₁.view p ≠ none ∧ p ≠ q) :
    (ps.foldl rmdir t₁).view q = t₁.view q := by
  have hboth : Within (ps.foldl rmdir t₁).view t₁.view ∧ (ps.foldl rmdir t₁).view q = t₁.view q := by
    refine foldl_keeps (P := fun t₂ : FileTree File => Within t₂.view t₁.view ∧ t₂.view q = t₁.view q) ?_ ⟨fun _ _ h => h, rfl⟩
    rintro t₂ p hp ⟨hw, hq⟩
    refine ⟨(within_rmdir t₂ p).trans hw, ?_⟩
    rcases rmdir_or t₂ p with ⟨r, hspot, -, hview⟩ | hsame
    · have hr : r = p := spot_listed (hps p hp).1 hw hspot
      rw [hview, if_neg (hr ▸ (hps p hp).2.symm), hq]
    · rw [hsame, hq]
  exact hboth.2

theorem foldl_unlink_none {ps : List Place} (hq : q ∈ ps) (hno : t₁.view q ≠ some .folder) :
    (ps.foldl unlink t₁).view q = none := by
  have hp : q ≠ [] := by
    rintro rfl
    exact hno t₁.view_root
  obtain ⟨ps₁, ps₂, rfl⟩ := List.append_of_mem hq
  rw [List.foldl_append, List.foldl_cons]
  refine (foldl_within within_unlink ps₂ _).absent ?_
  have hw := foldl_within within_unlink ps₁ t₁
  cases hv : (ps₁.foldl unlink t₁).view q with
  | none => exact (within_unlink _ _).absent hv
  | some x =>
    have hne : (ps₁.foldl unlink t₁).view q ≠ some .folder := by
      intro hf
      exact hno (hw q _ hf)
    rw [view_unlink (FileTree.spot_of_view hp hv) hne, if_pos rfl]

section Sweep

variable {links : Links}

/-- The tree after a sweep has deleted files and links. -/
def unlinked (generated_by : Text → Text) (t : FileTree File) (d : Place) (links : Links) : FileTree File :=
  let t := (owned_files generated_by t d).foldl unlink t
  (owned_links t d links).foldl unlink t

theorem sweep_eq (hd : t.view d = some .folder) : sweep generated_by t d links =
    (inner_dirs (unlinked generated_by t d links) d).foldl rmdir (unlinked generated_by t d links) :=
  if_pos (isDir_of_view hd)

theorem within_unlinked : Within (unlinked generated_by t d links).view t.view :=
  (foldl_within within_unlink _ _).trans (foldl_within within_unlink _ _)

theorem within_sweep (t : FileTree File) (d : Place) (links : Links) :
    Within (sweep generated_by t d links).view t.view := by
  unfold Install.sweep
  split
  · exact (foldl_within within_rmdir _ _).trans within_unlinked
  · exact fun _ _ h => h

theorem owned_files_outside (hd : t.view d = some .folder) (hq : ¬ Above d q) :
    ((owned_files generated_by t d).foldl unlink t).view q = t.view q := by
  refine foldl_unlink_outside fun p hp t₂ hw r hr => ?_
  obtain ⟨-, hmem, -⟩ := mem_owned_files.1 hp
  obtain ⟨habove, hsome⟩ := (mem_rglob hd).1 hmem
  rw [spot_listed hsome hw hr]
  rintro rfl
  exact hq habove

theorem unlinked_outside (hd : t.view d = some .folder) (hq : ¬ Above d q) :
    (unlinked generated_by t d links).view q = t.view q := by
  have hwithin := foldl_within within_unlink (owned_files generated_by t d) t
  have hfolder : ((owned_files generated_by t d).foldl unlink t).view d = some .folder :=
    (owned_files_outside hd not_above_self).trans hd
  refine Eq.trans (foldl_unlink_outside fun p hp t₂ hw r hr => ?_) (owned_files_outside hd hq)
  obtain ⟨-, -, -, hmem, -⟩ := mem_owned_links.1 hp
  rw [spot_listed ((mem_iterdir hfolder).1 hmem).2 hw hr]
  obtain ⟨n, rfl⟩ := cons_of_mem_iterdir hmem
  rintro rfl
  exact hq (above_cons.2 List.suffix_rfl)

theorem mem_inner_dirs (hd : t.view d = some .folder) : p ∈ inner_dirs t d ↔ Above d p ∧ t.view p = some .folder := by
  unfold inner_dirs
  rw [List.mem_reverse, mem_sorted, List.mem_filter, mem_rglob hd, Bool.and_eq_true, Bool.not_eq_true']
  constructor
  · rintro ⟨⟨habove, hsome⟩, hdir, hlink⟩
    refine ⟨habove, ?_⟩
    obtain ⟨x, hx⟩ := Option.ne_none_iff_exists'.1 hsome
    cases x with
    | folder => exact hx
    | file file =>
      rw [isDir_iff, FileTree.stat_file hx] at hdir
      cases hdir
    | link s =>
      unfold isLink lstat at hlink
      rw [FileTree.spot_of_view habove.ne_nil hx, Option.bind_some, hx] at hlink
      cases hlink
  · rintro ⟨habove, hfolder⟩
    refine ⟨⟨habove, by rw [hfolder]; exact Option.some_ne_none _⟩, isDir_of_view hfolder, ?_⟩
    unfold isLink lstat
    rw [FileTree.spot_of_view habove.ne_nil hfolder, Option.bind_some, hfolder]

/-- **A sweep takes nothing outside its directory.** -/
theorem sweep_outside (hd : Straight t.view d) (hq : ¬ Above d q) :
    (sweep generated_by t d links).view q = t.view q := by
  by_cases hdir : isDir t.view d = true
  · have hfolder := hd.folder hdir
    have hfolder' : (unlinked generated_by t d links).view d = some .folder :=
      (unlinked_outside hfolder not_above_self).trans hfolder
    rw [sweep_eq hfolder, foldl_rmdir_outside, unlinked_outside hfolder hq]
    intro p hp
    obtain ⟨habove, hp⟩ := (mem_inner_dirs hfolder').1 hp
    refine ⟨by rw [hp]; exact Option.some_ne_none _, ?_⟩
    rintro rfl
    exact hq habove
  · rw [show sweep generated_by t d links = t from if_neg hdir]

theorem is_generated_of_marked (h : marked generated_by t.view p = true) : is_generated generated_by t.view p = true := by
  obtain ⟨file, hview, hmark⟩ := marked_iff.1 h
  exact is_generated_iff.2 ⟨file, FileTree.stat_file hview, hmark⟩

/-- **What is swept is unlinked.** -/
theorem unlinked_swept (h : swept generated_by repo managed t.view d q = true) :
    (unlinked generated_by t d (link_map repo managed)).view q = none := by
  rw [swept, Bool.and_eq_true, decide_eq_true_eq] at h
  obtain ⟨habove, h⟩ := h
  cases hx : t.view q with
  | none => rw [hx] at h; cases h
  | some x =>
    have hd : t.view d = some .folder := FileTree.way hx d habove
    rw [hx] at h
    cases x with
    | folder => cases h
    | file file =>
      refine (foldl_within within_unlink _ _).absent (foldl_unlink_none ?_ (by rw [hx]; exact nofun))
      refine mem_owned_files.2 ⟨isDir_of_view hd, (mem_rglob hd).2 ⟨habove, by rw [hx]; exact Option.some_ne_none _⟩,
        isFile_iff.2 ⟨file, FileTree.stat_file hx⟩, ?_⟩
      rw [is_owned, Bool.or_eq_true]
      exact (Bool.or_eq_true _ _ ▸ h : _ ∨ _).imp is_generated_of_marked
        (bundled_imp (fun _ => is_generated_of_marked) d _)
    | link target =>
      rw [Bool.and_eq_true, decide_eq_true_eq, Option.any_eq_true] at h
      obtain ⟨rfl, source_dir, hget, hdest⟩ := h
      cases hx₁ : ((owned_files generated_by t q.tail).foldl unlink t).view q with
      | none => exact (foldl_within within_unlink _ _).absent hx₁
      | some y =>
        have hy : y = .link target :=
          Option.some.inj ((foldl_within within_unlink _ t q y hx₁).symm.trans hx)
        subst hy
        refine foldl_unlink_none (mem_owned_links.2 ⟨source_dir, hget, ?_, ?_, ?_⟩) (by rw [hx₁]; exact nofun)
        · exact isDir_of_view ((owned_files_outside hd not_above_self).trans hd)
        · refine (mem_iterdir ((owned_files_outside hd not_above_self).trans hd)).2 ⟨⟨habove.ne_nil, rfl⟩, ?_⟩
          rw [hx₁]
          exact Option.some_ne_none _
        · refine is_owned_link_iff.2 ⟨target, ?_, of_decide_eq_true hdest⟩
          unfold lstat
          rw [FileTree.spot_of_view habove.ne_nil hx₁, Option.bind_some, hx₁]

theorem sweep_swept (h : swept generated_by repo managed t.view d q = true) :
    (sweep generated_by t d (link_map repo managed)).view q = none := by
  have hun := unlinked_swept h
  unfold Install.sweep
  split
  · exact (foldl_within within_rmdir _ _).absent hun
  · rename_i hdir
    rw [swept, Bool.and_eq_true, decide_eq_true_eq] at h
    cases hx : t.view q with
    | none => rfl
    | some x => exact absurd (isDir_of_view (FileTree.way hx d h.1)) hdir

/-- **A folder in which only folders and swept entries stand is removed.** -/
theorem sweep_emptied (hq : t.view q = some .folder) (habove : Above d q)
    (hbelow : ∀ p x, Above q p → t.view p = some x → x = .folder ∨
      swept generated_by repo managed t.view d p = true) :
    (sweep generated_by t d (link_map repo managed)).view q = none := by
  have hd : t.view d = some .folder := FileTree.way hq d habove
  have hd' : (unlinked generated_by t d (link_map repo managed)).view d = some .folder :=
    (unlinked_outside hd not_above_self).trans hd
  rw [sweep_eq hd]
  cases hx : (unlinked generated_by t d (link_map repo managed)).view q with
  | none => exact (foldl_within within_rmdir _ _).absent hx
  | some x =>
    have hfolder : x = .folder := Option.some.inj ((within_unlinked q x hx).symm.trans hq)
    subst hfolder
    refine foldl_rmdir_none _ le_rfl (pairwise_reverse_sorted _) ((mem_inner_dirs hd').2 ⟨habove, hx⟩) habove.ne_nil hx ?_
    intro p hp hsome
    obtain ⟨y, hy⟩ := Option.ne_none_iff_exists'.1 hsome
    have hyf : y = .folder := by
      refine (hbelow p y hp (within_unlinked p y hy)).resolve_right fun hswept => ?_
      rw [unlinked_swept hswept] at hy
      cases hy
    subst hyf
    exact ⟨hy, (mem_inner_dirs hd').2 ⟨Above.of_suffix habove.1 hp, hy⟩⟩

end Sweep

/-! ## What `remove_targets` takes for certain -/

theorem bundled_congr {g g' : Place → Bool} (h : ∀ p, Above root p → g p = g' p) :
    ∀ p, bundled g root p = bundled g' root p
  | [] => rfl
  | n :: p => by
    rw [bundled, bundled, bundled_congr h p]
    by_cases habove : Above root (n :: p)
    · have hheads : ∀ head, g (head :: n :: p) = g' (head :: n :: p) :=
        fun head => h _ (habove.trans_suffix (List.suffix_cons head (n :: p)))
      rw [List.any_congr rfl hheads]
    · simp [habove]

theorem swept_congr (h : ∀ p, Above d p → v p = w p) :
    swept generated_by repo managed v d q = swept generated_by repo managed w d q := by
  have hmarked : ∀ p, Above d p → marked generated_by v p = marked generated_by w p := by
    intro p hp
    unfold marked
    rw [h p hp]
  unfold swept
  by_cases habove : Above d q
  · rw [h q habove, hmarked q habove, bundled_congr hmarked]
  · simp [habove]

/-- Directories that lie apart have no place in common. -/
theorem not_above_of_apart {e : Place} (h : ¬ d <:+ e ∧ ¬ e <:+ d) (hq : d ++ repo <:+ q) : ¬ Above (e ++ repo) q := by
  intro he
  rcases List.suffix_or_suffix_of_suffix hq he.1 with hs | hs
  · exact h.1 (List.suffix_append_self_iff.1 hs)
  · exact h.2 (List.suffix_append_self_iff.1 hs)

section Dirs

variable (hroots : ∀ d ∈ managed.dirs, Straight t.view (d ++ repo))
include hroots

/-- The sweeps before that of `d` leave its entries alone. -/
theorem sweeps_before {ds es : List Place} (hsplit : managed.dirs = ds ++ d :: es) (hq : d ++ repo <:+ q) :
    (ds.foldl (fun t rel => sweep generated_by t (rel ++ repo) (link_map repo managed)) t).view q = t.view q := by
  have hboth : Within (ds.foldl (fun t rel => sweep generated_by t (rel ++ repo) (link_map repo managed)) t).view t.view ∧
      (ds.foldl (fun t rel => sweep generated_by t (rel ++ repo) (link_map repo managed)) t).view q = t.view q := by
    refine foldl_keeps (P := fun t₂ : FileTree File => Within t₂.view t.view ∧ t₂.view q = t.view q) ?_ ⟨fun _ _ h => h, rfl⟩
    rintro t₂ e he ⟨hw, hview⟩
    refine ⟨(within_sweep t₂ _ _).trans hw, ?_⟩
    have hmem : e ∈ managed.dirs := by
      rw [hsplit]
      exact List.mem_append_left _ he
    have hapart : ¬ e <:+ d ∧ ¬ d <:+ e := by
      have hpair := managed.apart
      rw [hsplit] at hpair
      exact (List.pairwise_append.1 hpair).2.2 e he d List.mem_cons_self
    rw [sweep_outside ((hroots e hmem).within hw) (not_above_of_apart ⟨hapart.2, hapart.1⟩ hq), hview]
  exact hboth.2

theorem dirs_none (hd : d ∈ managed.dirs) (h : ∀ t' : FileTree File, (∀ p, d ++ repo <:+ p → t'.view p = t.view p) →
    (sweep generated_by t' (d ++ repo) (link_map repo managed)).view q = none) :
    (sweeps generated_by repo managed t).view q = none := by
  obtain ⟨ds, es, hsplit⟩ := List.append_of_mem hd
  rw [sweeps, hsplit, List.foldl_append, List.foldl_cons]
  exact (foldl_within (fun t rel => within_sweep t _ _) es _).absent (h _ fun p hp => sweeps_before hroots hsplit hp)

/-- **What the sweeps take for certain is taken.** -/
theorem dirs_swept (hd : d ∈ managed.dirs) (h : swept generated_by repo managed t.view (d ++ repo) q = true) :
    (sweeps generated_by repo managed t).view q = none := by
  refine dirs_none hroots hd fun t' hsame => sweep_swept ?_
  rw [swept_congr fun p hp => hsame p hp.1, h]

theorem dirs_emptied (h : emptied generated_by repo managed t q = true) :
    (sweeps generated_by repo managed t).view q = none := by
  rw [emptied, Bool.and_eq_true, folderAt_iff, List.any_eq_true] at h
  obtain ⟨hfolder, d, hd, h⟩ := h
  rw [Bool.and_eq_true, decide_eq_true_eq, List.all_eq_true] at h
  obtain ⟨habove, hbelow⟩ := h
  refine dirs_none hroots hd fun t' hsame => sweep_emptied ((hsame q habove.1).trans hfolder) habove fun p x hp hx => ?_
  have hp' : d ++ repo <:+ p := habove.1.trans hp.1
  rw [hsame p hp'] at hx
  have hentry := hbelow _ (FileTree.mem_of_view hp.ne_nil hx)
  simp only [Bool.or_eq_true, Bool.not_eq_true', decide_eq_false_iff_not, folderAt_iff] at hentry
  rcases hentry with (hno | hf) | hs
  · exact absurd hp hno
  · exact .inl (Option.some.inj (hx.symm.trans hf))
  · refine .inr ?_
    rw [swept_congr fun r hr => hsame r hr.1, hs]

end Dirs

theorem within_remove_named (t : FileTree File) (rel : Place) : Within (remove_named generated_by repo t rel).view t.view := by
  unfold remove_named
  split
  · exact within_unlink t _
  · exact fun _ _ h => h

theorem within_remove_assumed (t : FileTree File) (pattern : Text) : Within (remove_assumed repo t pattern).view t.view :=
  foldl_within (fun t p => by
    split
    · exact within_unlink t p
    · exact fun _ _ h => h) _ t

theorem unlink_none (h : t.view q = none ∨ ∃ file, t.view q = some (.file file)) : (unlink t q).view q = none := by
  rcases h with h | ⟨file, h⟩
  · exact (within_unlink t q).absent h
  · have hq : q ≠ [] := by
      rintro rfl
      rw [t.view_root] at h
      cases h
    rw [view_unlink (FileTree.spot_of_view hq h) (by rw [h]; exact nofun), if_pos rfl]

/-- A file that is left where `t` had one is that file. -/
theorem Within.file {file : File} (h : Within v w) (hq : w q = some (.file file)) : v q = none ∨ v q = some (.file file) := by
  cases hv : v q with
  | none => exact .inl rfl
  | some x => exact .inr ((h q x hv).symm.trans hq)

theorem mem_globFrom_of_view : ∀ {segments : List Text} {names : List Name} {c : Place},
    segmentsMatch segments names = true → t.view (names.reverse ++ c) ≠ none →
      names.reverse ++ c ∈ globFrom t segments c
  | [], [], c, _, _ => List.mem_singleton.2 rfl
  | [], _ :: _, _, h, _ => by cases h
  | _ :: _, [], _, h, _ => by cases h
  | s :: segments, n :: names, c, h, hview => by
    rw [segmentsMatch, Bool.and_eq_true] at h
    have hpath : (n :: names).reverse ++ c = names.reverse ++ n :: c := by simp
    rw [hpath] at hview ⊢
    obtain ⟨x, hx⟩ := Option.ne_none_iff_exists'.1 hview
    have hchild : t.view (n :: c) ≠ none := by
      rcases suffix_iff_eq_or_above.1 (List.suffix_append names.reverse (n :: c)) with heq | habove
      · rw [heq]
        exact hview
      · rw [FileTree.way hx _ habove]
        exact Option.some_ne_none _
    obtain ⟨y, hy⟩ := Option.ne_none_iff_exists'.1 hchild
    have hc : t.view c = some .folder := FileTree.way hy c (above_cons.2 List.suffix_rfl)
    refine List.mem_flatMap.2 ⟨n :: c, List.mem_filter.2 ⟨?_, h.1⟩, mem_globFrom_of_view h.2 hview⟩
    exact (mem_iterdir hc).2 ⟨⟨List.cons_ne_nil n c, rfl⟩, hchild⟩

/-- A named file with the mark is unlinked. -/
theorem named_none {rels : List Place} (hrel : rel ∈ rels) (hfile : marked generated_by t.view (rel ++ repo) = true)
    (hw : Within t₁.view t.view) : (rels.foldl (remove_named generated_by repo) t₁).view (rel ++ repo) = none := by
  obtain ⟨file, hfile, hmarked⟩ := marked_iff.1 hfile
  obtain ⟨rels₁, rels₂, rfl⟩ := List.append_of_mem hrel
  rw [List.foldl_append, List.foldl_cons]
  refine (foldl_within within_remove_named rels₂ _).absent ?_
  have hbefore : Within (rels₁.foldl (remove_named generated_by repo) t₁).view t.view :=
    (foldl_within within_remove_named rels₁ t₁).trans hw
  rcases hbefore.file hfile with hnone | hsome
  · exact (within_remove_named _ rel).absent hnone
  · rw [remove_named, if_pos]
    · exact unlink_none (.inr ⟨file, hsome⟩)
    · rw [Bool.and_eq_true]
      refine ⟨isFile_iff.2 ⟨file, FileTree.stat_file hsome⟩, ?_⟩
      rw [is_owned, is_generated_of_marked (marked_iff.2 ⟨file, hsome, hmarked⟩), Bool.true_or]

/-- A file whose path matches an assumed pattern is unlinked. -/
theorem assumed_none {patterns : List Text} {pattern : Text} {names : List Name} {file : File}
    (hpat : pattern ∈ patterns) (hnames : segmentsMatch (pattern.splitOn '/') names = true)
    (hfile : t.view (names.reverse ++ repo) = some (.file file)) (hw : Within t₁.view t.view) :
    (patterns.foldl (remove_assumed repo) t₁).view (names.reverse ++ repo) = none := by
  obtain ⟨patterns₁, patterns₂, rfl⟩ := List.append_of_mem hpat
  rw [List.foldl_append, List.foldl_cons]
  refine (foldl_within within_remove_assumed patterns₂ _).absent ?_
  have hbefore : Within (patterns₁.foldl (remove_assumed repo) t₁).view t.view :=
    (foldl_within within_remove_assumed patterns₁ t₁).trans hw
  generalize patterns₁.foldl (remove_assumed repo) t₁ = t₂ at hbefore ⊢
  rcases hbefore.file hfile with hnone | hsome
  · exact (within_remove_assumed t₂ pattern).absent hnone
  · have hmem : names.reverse ++ repo ∈ sorted (glob t₂ repo pattern) := by
      refine mem_sorted.2 (mem_globFrom_of_view hnames ?_)
      rw [hsome]
      exact Option.some_ne_none _
    unfold remove_assumed
    obtain ⟨ps₁, ps₂, hsplit⟩ := List.append_of_mem hmem
    rw [hsplit, List.foldl_append, List.foldl_cons]
    have hstep : ∀ (t : FileTree File) (p : Place), Within (if isFile t.view p then unlink t p else t).view t.view := by
      intro t p
      split
      · exact within_unlink t p
      · exact fun _ _ h => h
    refine (foldl_within hstep ps₂ _).absent ?_
    rcases (foldl_within hstep ps₁ t₂).file hsome with hnone | hsome
    · exact (hstep _ _).absent hnone
    · rw [if_pos (isFile_iff.2 ⟨file, FileTree.stat_file hsome⟩)]
      exact unlink_none (.inr ⟨file, hsome⟩)

theorem within_named (t : FileTree File) : Within (managed.files.foldl (remove_named generated_by repo) t).view t.view :=
  foldl_within within_remove_named managed.files t

theorem within_assumed (t : FileTree File) : Within (managed.assumed.foldl (remove_assumed repo) t).view t.view :=
  foldl_within within_remove_assumed managed.assumed t

/-- **What is gone for certain is deleted.** -/
theorem removed_gone (hroots : ∀ d ∈ managed.dirs, Straight t.view (d ++ repo))
    (h : gone generated_by repo managed t.view q = true) :
    (remove_targets generated_by repo managed t).view q = none := by
  have hsweeps : Within (sweeps generated_by repo managed t).view t.view :=
    foldl_within (fun t rel => within_sweep t _ _) managed.dirs t
  rw [gone, Bool.or_eq_true, Bool.or_eq_true, List.any_eq_true, List.any_eq_true, Bool.and_eq_true] at h
  rcases h with (⟨d, hd, hswept⟩ | ⟨hmem, hmark⟩) | ⟨pattern, hpat, hmatch⟩
  · exact (within_assumed _).absent ((within_named _).absent (dirs_swept hroots hd hswept))
  · rw [List.contains_iff_mem, List.mem_map] at hmem
    obtain ⟨rel, hrel, rfl⟩ := hmem
    exact (within_assumed _).absent (named_none hrel hmark hsweeps)
  · rw [Bool.and_eq_true, Bool.and_eq_true, decide_eq_true_eq] at hmatch
    obtain ⟨⟨hrepo, hnames⟩, hfile⟩ := hmatch
    have hq : (q.take (q.length - repo.length)).reverse.reverse ++ repo = q := by
      rw [List.reverse_reverse]
      exact append_take_of_suffix hrepo
    cases hview : t.view q with
    | none => rw [hview] at hfile; cases hfile
    | some x =>
      cases x with
      | folder => rw [hview] at hfile; cases hfile
      | link s => rw [hview] at hfile; cases hfile
      | file file =>
        rw [← hq] at hview ⊢
        exact assumed_none hpat hnames hview ((within_named _).trans hsweeps)

theorem removed_emptied (hroots : ∀ d ∈ managed.dirs, Straight t.view (d ++ repo))
    (h : emptied generated_by repo managed t q = true) :
    (remove_targets generated_by repo managed t).view q = none :=
  (within_assumed _).absent ((within_named _).absent (dirs_emptied hroots h))

/-! ## Writing the outputs -/

/-- What an output leaves at its place. -/
def Wrote (x : Option (Node File)) : Output → Prop
  | .rendered content => ∃ exec, x = some (.file ⟨.utf8 (expected_text content), exec⟩) ∧
      (content.executable = true → exec = true)
  | .symlink target => x = some (.link target)

/-- What may stand where an output goes. -/
def Ready (x : Option (Node File)) : Output → Prop
  | .rendered _ => x = none ∨ ∃ file, x = some (.file file)
  | .symlink target => target ≠ [] ∧ (x = none ∨ ∃ s, x = some (.link s))

theorem Ready.ne_folder {x : Option (Node File)} {out : Output} (h : Ready x out) : x ≠ some .folder := by
  rintro rfl
  cases out with
  | rendered content =>
    rcases h with h | ⟨file, h⟩ <;> cases h
  | symlink target =>
    rcases h.2 with h | ⟨s, h⟩ <;> cases h

/-- The folders of an output are made. -/
theorem mkdirs_ready (hp : p ≠ []) (hway : ∀ q, Above q p → t.view q = some .folder ∨ t.view q = none) :
    ∃ t', mkdirs t p.tail = .ok t' ∧ (∀ q, Above q p → t'.view q = some .folder) ∧
      ∀ q, ¬ Above q p → t'.view q = t.view q := by
  cases p with
  | nil => exact absurd rfl hp
  | cons n p =>
    obtain ⟨t', hok, hview⟩ := mkdirs_ok fun q hq => hway q (above_cons.2 hq)
    refine ⟨t', hok, fun q hq => ?_, fun q hq => ?_⟩
    · rw [hview, if_pos (above_cons.1 hq)]
    · rw [hview, if_neg fun h => hq (above_cons.2 h)]

/-- **An output is written to its own place**, and only folders are made for it. -/
theorem write_output_ok {out : Output} (hway : ∀ q, Above q p → t.view q = some .folder ∨ t.view q = none)
    (hready : Ready (t.view p) out) :
    ∃ t', write_output p out t = .ok t' ∧ Wrote (t'.view p) out ∧
      ∀ q, q ≠ p → (Above q p → t'.view q = some .folder) ∧ (¬ Above q p → t'.view q = t.view q) := by
  have hp : p ≠ [] := by
    rintro rfl
    exact hready.ne_folder t.view_root
  obtain ⟨t₁, hok, hfolders, hrest⟩ := mkdirs_ready hp hway
  have hin : t₁.view p.tail = some .folder := hfolders _ (above_tail hp)
  have hspot : t₁.view p = t.view p := hrest p not_above_self
  cases out with
  | rendered content =>
    have hfree : t₁.view p = none ∨ ∃ file, t₁.view p = some (.file file) := hspot.symm ▸ hready
    obtain ⟨file, t₂, hwrite, hfile, hview⟩ := write_ok
      (f := fun old => ⟨.utf8 (expected_text content), content.executable || old.any File.exec⟩) hp hin hfree
    refine ⟨t₂, ?_, ?_, fun q hq => ⟨fun h => ?_, fun h => ?_⟩⟩
    · rw [write_output, write_text, hok]
      exact hwrite
    · rw [hview, if_pos rfl]
      rcases hfile with rfl | ⟨old, -, rfl⟩
      · exact ⟨_, rfl, fun he => by rw [he, Bool.true_or]⟩
      · exact ⟨_, rfl, fun he => by rw [he, Bool.true_or]⟩
    · rw [hview, if_neg hq, hfolders q h]
    · rw [hview, if_neg hq, hrest q h]
  | symlink target =>
    have hway₁ : ∀ q, Above q p → t₁.view q = some .folder := hfolders
    have hself : spot t₁.view p = some p := spot_self hp hway₁
    -- a symlink that is there is taken away first
    have hclear : ∃ t₂ : FileTree File, (if isLink t₁.view p then unlink t₁ p else t₁) = t₂ ∧ t₂.view p = none ∧
        ∀ q, q ≠ p → t₂.view q = t₁.view q := by
      rcases hready.2 with hnone | ⟨s, hs⟩
      · refine ⟨t₁, if_neg ?_, hspot.trans hnone, fun _ _ => rfl⟩
        unfold isLink lstat
        rw [hself, Option.bind_some, hspot, hnone]
        exact Bool.false_ne_true
      · have hlink : t₁.view p = some (.link s) := hspot.trans hs
        refine ⟨unlink t₁ p, if_pos ?_, ?_, fun q hq => ?_⟩
        · unfold isLink lstat
          rw [hself, Option.bind_some, hlink]
        · rw [view_unlink hself (by rw [hlink]; exact nofun), if_pos rfl]
        · rw [view_unlink hself (by rw [hlink]; exact nofun), if_neg hq]
    obtain ⟨t₂, heq, hnone, hsame⟩ := hclear
    have hin₂ : t₂.view p.tail = some .folder := by
      rw [hsame _ fun h => (above_tail hp).2 h, hin]
    obtain ⟨t₃, hlink, hview⟩ := symlink_ok hp hin₂ hnone hready.1
    refine ⟨t₃, ?_, ?_, fun q hq => ⟨fun h => ?_, fun h => ?_⟩⟩
    · rw [write_output, write_link, hok]
      exact (congrArg (fun t => symlink t p target) heq).trans hlink
    · rw [hview, if_pos rfl]
      rfl
    · rw [hview, if_neg hq, hsame q hq, hfolders q h]
    · rw [hview, if_neg hq, hsame q hq, hrest q h]

/-- The outputs of `done` are in place, and of the rest only their folders are new. -/
structure Placed (repo : Place) (t₁ : FileTree File) (done : List (Place × Output)) (t' : FileTree File) : Prop where
  out : ∀ item ∈ done, Wrote (t'.view (item.1 ++ repo)) item.2
  rest : ∀ q, (∀ item ∈ done, item.1 ++ repo ≠ q) → t'.view q = t₁.view q ∨
    t₁.view q = none ∧ t'.view q = some .folder ∧ ∃ item ∈ done, Above q (item.1 ++ repo)

/-- The ground is clear for the outputs in the tree that the sweep leaves. -/
structure Ground (repo : Place) (t₁ : FileTree File) (items : List (Place × Output)) : Prop where
  ways : ∀ item ∈ items, ∀ q, Above q (item.1 ++ repo) → t₁.view q = some .folder ∨ t₁.view q = none
  spots : ∀ item ∈ items, Ready (t₁.view (item.1 ++ repo)) item.2
  apart : ∀ a ∈ items, ∀ b ∈ items, ¬ Above (a.1 ++ repo) (b.1 ++ repo)

theorem Placed.snoc {done : List (Place × Output)} {item : Place × Output} (h : Placed repo t₁ done t')
    (hground : Ground repo t₁ (done ++ [item])) (hnew : ∀ a ∈ done, a.1 ++ repo ≠ item.1 ++ repo) :
    ∃ t'', write_output (item.1 ++ repo) item.2 t' = .ok t'' ∧ Placed repo t₁ (done ++ [item]) t'' := by
  have hlast : item ∈ done ++ [item] := List.mem_append_right _ (List.mem_singleton.2 rfl)
  have hdone : ∀ a ∈ done, a ∈ done ++ [item] := fun a ha => List.mem_append_left _ ha
  have hway : ∀ q, Above q (item.1 ++ repo) → t'.view q = some .folder ∨ t'.view q = none := by
    intro q hq
    rcases h.rest q fun a ha heq => hground.apart a (hdone a ha) item hlast (heq ▸ hq) with heq | ⟨-, hf, -⟩
    · rw [heq]
      exact hground.ways item hlast q hq
    · exact .inl hf
  have hready : Ready (t'.view (item.1 ++ repo)) item.2 := by
    rcases h.rest _ hnew with heq | ⟨-, -, a, ha, habove⟩
    · rw [heq]
      exact hground.spots item hlast
    · exact absurd habove (hground.apart item hlast a (hdone a ha))
  obtain ⟨t'', hok, hwrote, hview⟩ := write_output_ok hway hready
  refine ⟨t'', hok, fun a ha => ?_, fun q hq => ?_⟩
  · rcases List.mem_append.1 ha with ha | ha
    · rw [(hview _ (hnew a ha)).2 (hground.apart a (hdone a ha) item hlast)]
      exact h.out a ha
    · rw [List.mem_singleton.1 ha]
      exact hwrote
  · have hne : q ≠ item.1 ++ repo := fun heq => hq item hlast heq.symm
    have hq' := h.rest q fun a ha => hq a (hdone a ha)
    by_cases habove : Above q (item.1 ++ repo)
    · have hfolder := (hview q hne).1 habove
      rcases hground.ways item hlast q habove with hf | hn
      · exact .inl (hfolder.trans hf.symm)
      · exact .inr ⟨hn, hfolder, item, hlast, habove⟩
    · rw [(hview q hne).2 habove]
      rcases hq' with heq | ⟨hn, hf, a, ha, hab⟩
      · exact .inl heq
      · exact .inr ⟨hn, hf, a, hdone a ha, hab⟩

/-- **All the outputs are written**, in any order. -/
theorem placed_all {todo : List (Place × Output)} : ∀ {done : List (Place × Output)} {t' : FileTree File},
    Placed repo t₁ done t' → Ground repo t₁ (done ++ todo) → ((done ++ todo).map Prod.fst).Nodup →
      ∃ t'', todo.foldlM (fun t item => write_output (item.1 ++ repo) item.2 t) t' = .ok t'' ∧
        Placed repo t₁ (done ++ todo) t'' := by
  induction todo with
  | nil =>
    intro done t' h _ _
    rw [List.append_nil]
    exact ⟨t', rfl, h⟩
  | cons item todo ih =>
    intro done t' h hground hnodup
    have hsplit : done ++ item :: todo = done ++ [item] ++ todo := by simp
    have hpart : ∀ a ∈ done ++ [item], a ∈ done ++ item :: todo := fun a ha => hsplit ▸ List.mem_append_left _ ha
    have hnew : ∀ a ∈ done, a.1 ++ repo ≠ item.1 ++ repo := by
      intro a ha heq
      rw [List.map_append, List.nodup_append] at hnodup
      exact hnodup.2.2 a.1 (List.mem_map_of_mem ha) item.1 List.mem_cons_self (List.append_cancel_right heq)
    obtain ⟨t'', hok, hplaced⟩ := h.snoc
      ⟨fun a ha => hground.ways a (hpart a ha), fun a ha => hground.spots a (hpart a ha),
        fun a ha b hb => hground.apart a (hpart a ha) b (hpart b hb)⟩ hnew
    rw [hsplit] at hground hnodup ⊢
    obtain ⟨t₃, hrest, hall⟩ := ih hplaced hground hnodup
    refine ⟨t₃, ?_, hall⟩
    rw [List.foldlM_cons, hok]
    exact hrest

/-! ## The shared files and the fences -/

/-- Nothing stands there, or a file whose text can be read. -/
def Shareable (x : Option (Node File)) : Prop := x = none ∨ ∃ text exec, x = some (.file ⟨.utf8 text, exec⟩)

theorem Shareable.of_within (h : Shareable (w p)) (hw : Within v w) : Shareable (v p) := by
  rcases h with h | ⟨text, exec, h⟩
  · exact .inl (hw.absent h)
  · exact (hw.file h).imp id fun hv => ⟨text, exec, hv⟩

/-- **A shared file is kept readable**, and nothing else changes. -/
theorem ensure_ok (desired : Text → Text) (hp : p ≠ []) (hin : t.view p.tail = some .folder) (h : Shareable (t.view p)) :
    ∃ t', ensure desired p t = .ok t' ∧ Shareable (t'.view p) ∧ ∀ q, q ≠ p → t'.view q = t.view q := by
  have hno : ∀ s, t.view p ≠ some (.link s) := by
    intro s hs
    rcases h with h | ⟨text, exec, h⟩ <;> rw [hs] at h <;> cases h
  have hstat : stat t.view p = t.view p := stat_self (FileTree.way_of_tail hp hin) hno
  have hfree : t.view p = none ∨ ∃ file, t.view p = some (.file file) :=
    h.imp id fun ⟨text, exec, hx⟩ => ⟨_, hx⟩
  obtain ⟨existing, hread⟩ : ∃ existing, ensure desired p t = if desired existing = existing then .ok t
      else write t p fun old => ⟨.utf8 (desired existing), old.any File.exec⟩ := by
    rcases h with h | ⟨text, exec, h⟩
    · refine ⟨[], ?_⟩
      rw [ensure, present, hstat, h]
      rfl
    · refine ⟨Text.newlines text, ?_⟩
      rw [ensure, present, read_text, hstat, h]
      rfl
  rw [hread]
  split
  · exact ⟨t, rfl, h, fun _ _ => rfl⟩
  · obtain ⟨file, t', hwrite, hfile, hview⟩ := write_ok
      (f := fun old => ⟨.utf8 (desired existing), old.any File.exec⟩) hp hin hfree
    refine ⟨t', hwrite, .inr ?_, fun q hq => (hview q).trans (if_neg hq)⟩
    rw [hview, if_pos rfl]
    rcases hfile with rfl | ⟨old, -, rfl⟩ <;> exact ⟨_, _, rfl⟩

theorem isFile_straight (h : Straight t.view p) (hf : isFile t.view p = true) : ∃ file, t.view p = some (.file file) := by
  obtain ⟨file, hstat⟩ := isFile_iff.1 hf
  exact ⟨file, stat_eq h.ne_link hstat⟩

/-- A text file without a fence stands there. -/
def Unfenced (v : View File) (p : Place) : Prop :=
  ∃ text exec, v p = some (.file ⟨.utf8 text, exec⟩) ∧ fenced (Text.newlines text) = false

/-- A file without a fence is left as it is. -/
theorem strip_fence_same (h : isFile t.view (rel ++ repo) = true → Unfenced t.view (rel ++ repo)) :
    strip_fence repo rel t = .ok t := by
  unfold strip_fence
  split
  · rename_i hf
    obtain ⟨text, exec, hview, hfence⟩ := h hf
    have hsame : unsplice (Text.newlines text) = Text.newlines text := by
      unfold unsplice
      rw [hfence]
      rfl
    rw [ensure, present, read_text, FileTree.stat_file hview]
    simp only [Option.isSome_some, if_true, pure_bind, hsame]
    rfl
  · rfl

/-! ## The whole install -/

/-- The tree that the steps of an install leave: the outputs in place, the shared files readable,
and of the rest only folders new. -/
structure Done (repo : Place) (managed : Managed) (outputs : Outputs) (t₁ t' : FileTree File) : Prop where
  out : ∀ item ∈ outputs.items, Wrote (t'.view (item.1 ++ repo)) item.2
  rest : ∀ q, q ∉ outputs.paths repo → q ∉ (blocks managed outputs).map (· ++ repo) → t'.view q = t₁.view q ∨
    t₁.view q = none ∧ t'.view q = some .folder ∧ ∃ item ∈ outputs.items, Above q (item.1 ++ repo)
  shared : ∀ p ∈ blocks managed outputs, Shareable (t'.view (p ++ repo))

theorem mem_blocks (h : p ∈ blocks managed outputs) : (p = GITIGNORE ∨ p = LAUNCHER_ROOT_MAKEFILE) ∧
    ∃ item ∈ outputs.items, item.1 ≠ [] := by
  have hitem : ∀ rel, rel ∈ outputs.items.map Prod.fst → rel ≠ [] → ∃ item ∈ outputs.items, item.1 ≠ [] := by
    intro rel hrel hne
    obtain ⟨item, hmem, rfl⟩ := List.mem_map.1 hrel
    exact ⟨item, hmem, hne⟩
  have hlauncher : (outputs.items.map Prod.fst).contains LAUNCHER_AGENTS_MK = true → ∃ item ∈ outputs.items, item.1 ≠ [] :=
    fun h => hitem _ (List.contains_iff_mem.1 h) (by decide)
  rcases List.mem_append.1 h with h | h
  · split at h
    · rename_i hc
      refine ⟨.inl (List.mem_singleton.1 h), ?_⟩
      rcases Bool.or_eq_true _ _ ▸ hc with hc | hc
      · exact hlauncher hc
      · obtain ⟨rel, hrel, hhead⟩ := List.any_eq_true.1 (Bool.and_eq_true _ _ ▸ hc : _ ∧ _).2
        refine hitem rel hrel ?_
        rintro rfl
        cases of_decide_eq_true hhead
    · cases h
  · split at h
    · rename_i hc
      exact ⟨.inr (List.mem_singleton.1 h), hlauncher hc⟩
    · cases h

theorem Done.folder (h : Done repo managed outputs t₁ t') {item : Place × Output} (hitem : item ∈ outputs.items)
    (hne : item.1 ≠ []) : t'.view repo = some .folder := by
  have habove : Above repo (item.1 ++ repo) := by
    refine ⟨List.suffix_append _ _, fun heq => hne ?_⟩
    exact List.append_left_eq_self.1 heq.symm
  have hwrote := h.out item hitem
  cases hout : item.2 with
  | rendered content =>
    rw [hout] at hwrote
    obtain ⟨exec, hview, -⟩ := hwrote
    exact FileTree.way hview repo habove
  | symlink target =>
    rw [hout] at hwrote
    exact FileTree.way hwrote repo habove

theorem Done.ensure (h : Done repo managed outputs t₁ t') (hout : ∀ item ∈ outputs.items, item.1 ∉ blocks managed outputs)
    (hp : p ∈ blocks managed outputs) (desired : Text → Text) :
    ∃ t'', ensure desired (p ++ repo) t' = .ok t'' ∧ Done repo managed outputs t₁ t'' := by
  obtain ⟨hname, item, hitem, hne⟩ := mem_blocks hp
  have hp' : p ++ repo ≠ [] ∧ (p ++ repo).tail = repo := by
    rcases hname with rfl | rfl <;> exact ⟨List.append_ne_nil_of_left_ne_nil (by decide) _, rfl⟩
  obtain ⟨t'', hok, hshare, hsame⟩ := ensure_ok desired hp'.1
    (by rw [hp'.2]; exact h.folder hitem hne) (h.shared p hp)
  refine ⟨t'', hok, fun a ha => ?_, fun q hq hb => ?_, fun r hr => ?_⟩
  · have hother : a.1 ++ repo ≠ p ++ repo := fun heq => hout a ha (List.append_cancel_right heq ▸ hp)
    rw [hsame _ hother]
    exact h.out a ha
  · have hother : q ≠ p ++ repo := by
      rintro rfl
      exact hb (List.mem_map_of_mem hp)
    rw [hsame _ hother]
    exact h.rest q hq hb
  · by_cases heq : r ++ repo = p ++ repo
    · rw [heq]
      exact hshare
    · rw [hsame _ heq]
      exact h.shared r hr

/-- What stands in the finished tree outside the outputs and the shared files. -/
theorem Done.view_eq (h : Done repo managed outputs t₁ t') (hq : q ∉ outputs.paths repo)
    (hb : q ∉ (blocks managed outputs).map (· ++ repo)) (hx : t'.view q = some x) (hne : x ≠ .folder) :
    t₁.view q = some x := by
  rcases h.rest q hq hb with heq | ⟨-, hf, -⟩
  · rw [← heq, hx]
  · rw [hx] at hf
    exact absurd (Option.some.inj hf) hne

theorem mem_paths : q ∈ outputs.paths repo ↔ ∃ item ∈ outputs.items, item.1 ++ repo = q := List.mem_map

/-- No symlink stands at or above a path at which and above which none did, nor is put. -/
theorem Done.straight (h : Done repo managed outputs t₁ t') (hs : Straight t₁.view (rel ++ repo))
    (hlinks : ∀ item ∈ outputs.items, ∀ target, item.2 = .symlink target → ¬ item.1 <:+ rel) :
    Straight t'.view (rel ++ repo) := by
  refine fun q hq => linkAt_iff.2 fun s hv => ?_
  by_cases hout : q ∈ outputs.paths repo
  · obtain ⟨item, hitem, rfl⟩ := mem_paths.1 hout
    have hwrote := h.out item hitem
    cases ho : item.2 with
    | rendered content =>
      rw [ho] at hwrote
      obtain ⟨exec, hview, -⟩ := hwrote
      rw [hv] at hview
      cases hview
    | symlink target => exact hlinks item hitem target ho (List.suffix_append_self_iff.1 hq)
  · by_cases hb : q ∈ (blocks managed outputs).map (· ++ repo)
    · obtain ⟨p, hp, rfl⟩ := List.mem_map.1 hb
      rcases h.shared p hp with hn | ⟨text, exec, hf⟩
      · rw [hv] at hn
        cases hn
      · rw [hv] at hf
        cases hf
    · exact hs.ne_link q hq s (h.view_eq hout hb hv nofun)

theorem straight_of_tails (h : ∀ q ∈ p.tails, linkAt v q = false) : Straight v p :=
  fun q hq => h q ((List.mem_tails _ _).2 hq)

theorem Clear.straight (h : Clear generated_by repo managed outputs fences t) :
    ∀ d ∈ managed.dirs, Straight t.view (d ++ repo) := fun d hd => straight_of_tails (h.roots d hd).1

theorem mem_parents : q ∈ parents p ↔ Above q p := by
  cases p with
  | nil =>
    constructor
    · intro h
      cases h
    · exact fun h => absurd rfl h.ne_nil
  | cons n p => rw [above_cons]; exact List.mem_tails q p

/-- **Where the ground is clear, the tree that the sweep leaves takes the outputs.** -/
theorem Clear.ground (h : Clear generated_by repo managed outputs fences t) :
    Ground repo (remove_targets generated_by repo managed t) outputs.items := by
  have hw : Within (remove_targets generated_by repo managed t).view t.view := within_remove_targets t
  have hgone : ∀ q, gone generated_by repo managed t.view q = true →
      (remove_targets generated_by repo managed t).view q = none := fun _ => removed_gone h.straight
  have hemptied : ∀ q, emptied generated_by repo managed t q = true →
      (remove_targets generated_by repo managed t).view q = none := fun _ => removed_emptied h.straight
  generalize remove_targets generated_by repo managed t = t₁ at hw hgone hemptied ⊢
  refine ⟨fun item hitem q hq => ?_, fun item hitem => ?_, fun a ha b hb habove => ?_⟩
  · rcases h.ways _ (mem_paths.2 ⟨item, hitem, rfl⟩) q (mem_parents.2 hq) with hf | hn | hg
    · cases hv : t₁.view q with
      | none => exact .inr rfl
      | some x => exact .inl ((hw q x hv).symm.trans hf)
    · exact .inr (hw.absent hn)
    · exact .inr (hgone q hg)
  · have hfree := h.spots item hitem
    cases ho : item.2 with
    | rendered content =>
      rw [ho] at hfree
      rcases hfree with hn | ⟨file, hf⟩ | hg | he
      · exact .inl (hw.absent hn)
      · exact (hw.file hf).imp id fun hv => ⟨file, hv⟩
      · exact .inl (hgone _ hg)
      · exact .inl (hemptied _ he)
    | symlink target =>
      rw [ho] at hfree
      obtain ⟨htarget, hn | hl | hg | he⟩ := hfree
      · exact ⟨htarget, .inl (hw.absent hn)⟩
      · refine ⟨htarget, ?_⟩
        cases hv : t₁.view (item.1 ++ repo) with
        | none => exact .inl rfl
        | some x =>
          rw [linkAt, hw _ x hv] at hl
          cases x with
          | link s => exact .inr ⟨s, rfl⟩
          | file file => cases hl
          | folder => cases hl
      · exact ⟨htarget, .inl (hgone _ hg)⟩
      · exact ⟨htarget, .inl (hemptied _ he)⟩
  · have hab : Above a.1 b.1 := ⟨List.suffix_append_self_iff.1 habove.1, fun heq => habove.2 (by rw [heq])⟩
    exact (h.apart b.1 (List.mem_map_of_mem hb)).1 a.1 (List.mem_append_left _ (List.mem_map_of_mem ha)) hab

theorem Clear.out (h : Clear generated_by repo managed outputs fences t) :
    ∀ item ∈ outputs.items, item.1 ∉ blocks managed outputs :=
  fun item hitem => (h.apart item.1 (List.mem_map_of_mem hitem)).2

theorem foldlM_same {α : Type} {f : FileTree File → α → Except (FileTree File) (FileTree File)} {l : List α}
    (h : ∀ a ∈ l, f t a = .ok t) : l.foldlM f t = .ok t := by
  induction l with
  | nil => rfl
  | cons a l ih =>
    rw [List.foldlM_cons, h a List.mem_cons_self]
    exact ih fun b hb => h b (List.mem_cons_of_mem a hb)

/-- The outputs are written. -/
theorem done_writes (h : Clear generated_by repo managed outputs fences t) :
    ∃ t', (writes repo outputs).foldlM (fun t item => write_output (item.1 ++ repo) item.2 t)
      (remove_targets generated_by repo managed t) = .ok t' ∧
        Done repo managed outputs (remove_targets generated_by repo managed t) t' := by
  have hmem : ∀ item, item ∈ writes repo outputs ↔ item ∈ outputs.items := fun item => List.mem_insertionSort _
  have hground := h.ground
  have hw : Within (remove_targets generated_by repo managed t).view t.view := within_remove_targets t
  generalize remove_targets generated_by repo managed t = t₁ at hground hw ⊢
  have hstart : Placed repo t₁ [] t₁ := ⟨fun item hitem => (List.not_mem_nil hitem).elim, fun q _ => .inl rfl⟩
  have hkeys : ((writes repo outputs).map Prod.fst).Nodup :=
    ((List.perm_insertionSort _ outputs.items).map Prod.fst).nodup_iff.2 outputs.keys
  obtain ⟨t', hok, hplaced⟩ := placed_all hstart
    ⟨fun a ha => hground.ways a ((hmem a).1 ha), fun a ha => hground.spots a ((hmem a).1 ha),
      fun a ha b hb => hground.apart a ((hmem a).1 ha) b ((hmem b).1 hb)⟩ hkeys
  refine ⟨t', hok, fun item hitem => hplaced.out item ((hmem item).2 hitem), fun q hq _ => ?_, fun p hp => ?_⟩
  · rcases hplaced.rest q fun item hitem heq => hq (mem_paths.2 ⟨item, (hmem item).1 hitem, heq⟩) with
      heq | ⟨hn, hf, item, hitem, habove⟩
    · exact .inl heq
    · exact .inr ⟨hn, hf, item, (hmem item).1 hitem, habove⟩
  · have hnot : ∀ item ∈ writes repo outputs, item.1 ++ repo ≠ p ++ repo := fun item hitem heq =>
      h.out item ((hmem item).1 hitem) (List.append_cancel_right heq ▸ hp)
    rcases hplaced.rest _ hnot with heq | ⟨-, -, item, hitem, habove⟩
    · rw [heq]
      exact Shareable.of_within (h.shared p hp) hw
    · have hab : Above p item.1 := ⟨List.suffix_append_self_iff.1 habove.1, fun heq => habove.2 (by rw [heq])⟩
      exact absurd hab ((h.apart item.1 (List.mem_map_of_mem ((hmem item).1 hitem))).1 p (List.mem_append_right _ hp))

/-- **The fences of the other managers are not there** to be taken out. -/
theorem hook_unfenced (h : Clear generated_by repo managed outputs true t)
    (hdone : Done repo managed outputs (remove_targets generated_by repo managed t) t') (hrel : rel ∈ FENCE_FILES)
    (hf : isFile t'.view (rel ++ repo) = true) : Unfenced t'.view (rel ++ repo) := by
  have hw : Within (remove_targets generated_by repo managed t).view t.view := within_remove_targets t
  obtain ⟨hout, hstraight, hlinks, hfile⟩ := h.hooks rfl rel hrel
  obtain ⟨file, hview⟩ := isFile_straight (hdone.straight ((straight_of_tails hstraight).within hw) hlinks) hf
  have hpath : rel ++ repo ∉ outputs.paths repo := by
    intro hmem
    obtain ⟨item, hitem, heq⟩ := mem_paths.1 hmem
    exact hout (List.append_cancel_right heq ▸ List.mem_map_of_mem hitem)
  have hblock : rel ++ repo ∉ (blocks managed outputs).map (· ++ repo) := by
    intro hmem
    obtain ⟨p, hp, heq⟩ := List.mem_map.1 hmem
    have hp' := List.append_cancel_right heq
    subst hp'
    rcases (mem_blocks hp).1 with rfl | rfl <;> revert hrel <;> decide
  obtain ⟨text, exec, rfl, hfence⟩ := hfile file (hw _ _ (hdone.view_eq hpath hblock hview (by simp)))
  exact ⟨text, exec, hview, hfence⟩

theorem Done.optionally {c : Bool} {f : Change} (h : Done repo managed outputs t₁ t')
    (hf : c = true → ∃ t'', f t' = .ok t'' ∧ Done repo managed outputs t₁ t'') :
    ∃ t'', optionally c f t' = .ok t'' ∧ Done repo managed outputs t₁ t'' := by
  cases c with
  | true => exact hf rfl
  | false => exact ⟨t', rfl, h⟩

/-- **Where the ground is clear, every step of an install succeeds.** -/
theorem install_steps_ok (h : Clear generated_by repo managed outputs fences t) :
    ∃ t', install_steps generated_by repo managed outputs fences t = .ok t' ∧
      Done repo managed outputs (remove_targets generated_by repo managed t) t' := by
  have hlauncher : (outputs.items.map Prod.fst).contains LAUNCHER_AGENTS_MK = true →
      GITIGNORE ∈ blocks managed outputs ∧ LAUNCHER_ROOT_MAKEFILE ∈ blocks managed outputs := by
    intro hc
    rw [blocks, hc]
    exact ⟨List.mem_cons_self, List.mem_cons_of_mem _ List.mem_cons_self⟩
  obtain ⟨t₁, hok₁, hd₁⟩ := done_writes h
  obtain ⟨t₂, hok₂, hd₂⟩ := hd₁.optionally (f := ensure_agents_gitignore repo)
    fun hc => hd₁.ensure h.out (hlauncher hc).1 agents_gitignore
  obtain ⟨t₃, hok₃, hd₃⟩ := hd₂.optionally (f := ensure_qa_gitignore repo)
    (c := managed.repo_scaffolding && (outputs.items.map Prod.fst).any (·.head? = some GATE_SCRIPT)) fun hc => by
      refine hd₂.ensure h.out ?_ qa_gitignore
      rw [blocks, hc, Bool.or_true]
      exact List.mem_cons_self
  obtain ⟨t₄, hok₄, hd₄⟩ := hd₃.optionally (c := fences)
    (f := fun t => FENCE_FILES.foldlM (fun t rel => strip_fence repo rel t) t) fun hc => by
      subst hc
      exact ⟨t₃, foldlM_same fun rel hrel => strip_fence_same (hook_unfenced h hd₃ hrel), hd₃⟩
  obtain ⟨t₅, hok₅, hd₅⟩ := hd₄.optionally (f := ensure_makefile_include repo) fun hc =>
    hd₄.optionally (c := present t₄.view (LAUNCHER_ROOT_MAKEFILE ++ repo)) fun _ =>
      hd₄.ensure h.out (hlauncher hc).2 makefile_include
  refine ⟨t₅, ?_, hd₅⟩
  rw [install_steps, hok₁]
  dsimp only [bind, Except.bind]
  rw [hok₂]
  dsimp only
  rw [hok₃]
  dsimp only
  rw [hok₄]
  exact hok₅

/-! ## The finished tree -/

theorem find_item {item : Place × Output} (hitem : item ∈ outputs.items) :
    outputs.items.find? (fun a => a.1 ++ repo = item.1 ++ repo) = some item := by
  cases hfind : outputs.items.find? fun a => a.1 ++ repo = item.1 ++ repo with
  | none =>
    have hnone := List.find?_eq_none.1 hfind item hitem
    simp at hnone
  | some a =>
    have hkey : a.1 ++ repo = item.1 ++ repo := by simpa using List.find?_some hfind
    have hsame : a.1 = item.1 := List.append_cancel_right hkey
    rw [eq_of_key outputs.keys (List.mem_of_find?_eq_some hfind) hitem hsame]

theorem find_none (h : q ∉ outputs.paths repo) : outputs.items.find? (fun a => a.1 ++ repo = q) = none := by
  refine List.find?_eq_none.2 fun a ha heq => h ?_
  exact mem_paths.2 ⟨a, ha, of_decide_eq_true heq⟩

/-- **The finished tree holds nothing that its layout does not**, up to the texts of shared files. -/
theorem done_under (h : Clear generated_by repo managed outputs fences t)
    (hd : Done repo managed outputs (remove_targets generated_by repo managed t) t') :
    Under (Marks generated_by) t'.view (layout generated_by repo managed outputs t.view) := by
  have hw : Within (remove_targets generated_by repo managed t).view t.view := within_remove_targets t
  intro q x hx
  unfold layout
  by_cases hout : q ∈ outputs.paths repo
  · obtain ⟨item, hitem, rfl⟩ := mem_paths.1 hout
    rw [find_item hitem]
    have hwrote := hd.out item hitem
    obtain ⟨rel, out⟩ := item
    cases out with
    | rendered content =>
      obtain ⟨exec, hview, -⟩ := hwrote
      cases hx.symm.trans hview
      exact ⟨_, rfl, fun hm => hm⟩
    | symlink target =>
      cases hx.symm.trans hwrote
      exact ⟨_, rfl, rfl⟩
  · rw [find_none hout]
    dsimp only
    split
    · rename_i hany
      obtain ⟨item, hitem, habove⟩ := List.any_eq_true.1 hany
      have habove : Above q (item.1 ++ repo) := of_decide_eq_true habove
      have hfolder : t'.view q = some .folder := by
        have hwrote := hd.out item hitem
        cases hout : item.2 with
        | rendered content =>
          rw [hout] at hwrote
          obtain ⟨exec, hview, -⟩ := hwrote
          exact FileTree.way hview q habove
        | symlink target =>
          rw [hout] at hwrote
          exact FileTree.way hwrote q habove
      cases hx.symm.trans hfolder
      exact ⟨_, rfl, trivial⟩
    · rename_i hany
      split
      · rename_i hb
        obtain ⟨p, hp, rfl⟩ := List.mem_map.1 (List.contains_iff_mem.1 hb)
        rcases hd.shared p hp with hn | ⟨text, exec, hf⟩
        · rw [hx] at hn
          cases hn
        · cases hx.symm.trans hf
          have htagged : Marked generated_by ⟨.utf8 COMMENT_MARKER, false⟩ := by
            show is_tagged generated_by (Text.newlines COMMENT_MARKER) = true
            rw [is_tagged, Bool.or_eq_true]
            exact .inr (by decide +kernel)
          exact ⟨_, rfl, fun _ => htagged⟩
      · rename_i hb
        have hb : q ∉ (blocks managed outputs).map (· ++ repo) := fun hmem => hb (List.contains_iff_mem.2 hmem)
        have h₁ : (remove_targets generated_by repo managed t).view q = some x := by
          rcases hd.rest q hout hb with heq | ⟨-, -, item, hitem, habove⟩
          · rw [← heq, hx]
          · exact absurd (List.any_eq_true.2 ⟨item, hitem, decide_eq_true habove⟩) hany
        have hnot : ¬ gone generated_by repo managed t.view q = true := by
          intro hg
          rw [removed_gone h.straight hg] at h₁
          cases h₁
        rw [if_neg hnot]
        refine ⟨x, hw q x h₁, ?_⟩
        cases x with
        | file file => exact fun hm => hm
        | folder => trivial
        | link s => rfl

/-- An entry of the finished tree that is no output, no shared file and no folder was there before. -/
theorem Done.made (hd : Done repo managed outputs (remove_targets generated_by repo managed t) t')
    (hq : q ∉ outputs.paths repo) (hb : q ∉ (blocks managed outputs).map (· ++ repo)) (hx : t'.view q = some x)
    (hne : x ≠ .folder) : t.view q = some x :=
  within_remove_targets t q x (hd.view_eq hq hb hx hne)

theorem Done.kept (hd : Done repo managed outputs (remove_targets generated_by repo managed t) t')
    (hq : q ∉ outputs.paths repo) (hb : q ∉ (blocks managed outputs).map (· ++ repo)) (hx : t.view q = some x)
    (hne : x ≠ .folder) (howned : ¬ Owned generated_by repo managed t q) (hassumed : ¬ Assumed repo managed t q) :
    t'.view q = some x := by
  have h₁ : (remove_targets generated_by repo managed t).view q = some x := by
    rcases (less_remove_targets t).taken q x hx hne with h | h | h
    · exact h
    · exact absurd h howned
    · exact absurd h hassumed
  rcases hd.rest q hq hb with heq | ⟨hn, -, -⟩
  · rw [heq, h₁]
  · rw [h₁] at hn
    cases hn

theorem Done.holds (hd : Done repo managed outputs t₁ t') : ∀ item ∈ outputs.items,
    Holds t'.view (item.1 ++ repo) item.2 := by
  intro item hitem
  have hwrote := hd.out item hitem
  cases hout : item.2 with
  | rendered content =>
    rw [hout] at hwrote
    obtain ⟨exec, hview, hexec⟩ := hwrote
    exact ⟨_, FileTree.stat_file hview, rfl, hexec⟩
  | symlink target =>
    rw [hout] at hwrote
    have hp : item.1 ++ repo ≠ [] := by
      intro hnil
      rw [hnil, Wrote, t'.view_root] at hwrote
      cases hwrote
    unfold Holds lstat
    rw [FileTree.spot_of_view hp hwrote, Option.bind_some]
    exact hwrote

/-- **An output in place is neither missing nor changed.** -/
theorem check_output_holds {out : Output} (h : Holds v (rel ++ repo) out)
    (hplain : ∀ content, out = .rendered content → '\r' ∉ expected_text content) :
    check_output repo v rel out = some (false, false) := by
  cases out with
  | rendered content =>
    obtain ⟨⟨contents, exec⟩, hstat, rfl, hexec⟩ := h
    have hread : read_text v (rel ++ repo) = some (expected_text content) := by
      unfold read_text
      rw [hstat]
      exact congrArg some (newlines_eq (hplain content rfl))
    have hpresent : present v (rel ++ repo) = true := by rw [present, hstat]; rfl
    rw [check_output, if_pos hpresent, hread, Option.map_some, hstat]
    cases hc : content.executable with
    | false => simp
    | true => simpa using hexec hc
  | symlink target =>
    have hlink : isLink v (rel ++ repo) = true := by
      unfold isLink
      rw [h]
    rw [check_output, hlink, Bool.true_or, if_pos rfl, h]
    simp

theorem contains_paths : outputs.paths repo = outputs.items.map fun item => item.1 ++ repo := rfl

/-- **In a managed directory, farrier owns nothing but outputs.** -/
theorem dir_expected (h : Clear generated_by repo managed outputs fences t)
    (hdone : Done repo managed outputs (remove_targets generated_by repo managed t) t') (hd : d ∈ managed.dirs)
    (hp : p ∈ owned_files generated_by t' (d ++ repo) ++ owned_links t' (d ++ repo) (link_map repo managed)) :
    p ∈ outputs.paths repo := by
  have hw : Within (remove_targets generated_by repo managed t).view t.view := within_remove_targets t
  have hstraight : Straight t'.view (d ++ repo) :=
    hdone.straight ((h.straight d hd).within hw) (h.roots d hd).2
  have hblock : Above (d ++ repo) p → p ∉ (blocks managed outputs).map (· ++ repo) := by
    intro habove hmem
    obtain ⟨r, hr, rfl⟩ := List.mem_map.1 hmem
    have hr' : r ∈ [GITIGNORE, LAUNCHER_ROOT_MAKEFILE] := by
      rcases (mem_blocks hr).1 with rfl | rfl <;> simp
    exact (managed.shared r hr').1 d hd (List.suffix_append_self_iff.1 habove.1)
  -- what is left in the directory was there, and was not taken
  have hleft : ∀ x, p ∉ outputs.paths repo → Above (d ++ repo) p → t'.view p = some x → x ≠ .folder →
      t.view p = some x ∧ gone generated_by repo managed t.view p = false := by
    intro x hout habove hx hne
    refine ⟨hdone.made hout (hblock habove) hx hne, Bool.eq_false_iff.2 fun hg => ?_⟩
    have h₁ := hdone.view_eq hout (hblock habove) hx hne
    rw [removed_gone h.straight hg] at h₁
    cases h₁
  by_contra hout
  rcases List.mem_append.1 hp with hp | hp
  · obtain ⟨hdir, hmem, hfile, howned⟩ := mem_owned_files.1 hp
    obtain ⟨habove, hsome⟩ := (mem_rglob (hstraight.folder hdir)).1 hmem
    obtain ⟨x, hx⟩ := Option.ne_none_iff_exists'.1 hsome
    have hne : x ≠ .folder := by
      rintro rfl
      obtain ⟨file, hstat⟩ := isFile_iff.1 hfile
      rw [FileTree.stat_of_view hx (by simp)] at hstat
      cases hstat
    obtain ⟨hview, hgone⟩ := hleft x hout habove hx hne
    have hquiet := h.quiet d hd (p, x) (FileTree.mem_of_view habove.ne_nil hview) habove hout hgone
    have hunder := done_under h hdone
    rw [isFile_under hunder hfile, is_owned_under hunder howned] at hquiet
    cases hquiet
  · obtain ⟨source_dir, hget, hdir, hmem, hlink⟩ := mem_owned_links.1 hp
    obtain ⟨target, hlstat, hdest⟩ := is_owned_link_iff.1 hlink
    obtain ⟨⟨hne, htail⟩, hsome⟩ := (mem_iterdir (hstraight.folder hdir)).1 hmem
    obtain ⟨x, hx⟩ := Option.ne_none_iff_exists'.1 hsome
    unfold lstat at hlstat
    rw [FileTree.spot_of_view hne hx, Option.bind_some] at hlstat
    have habove : Above (d ++ repo) p := htail ▸ above_tail hne
    obtain ⟨hview, hgone⟩ := hleft _ hout habove hlstat (by simp)
    have hswept : swept generated_by repo managed t.view (d ++ repo) p = true := by
      rw [swept, hview, Bool.and_eq_true, decide_eq_true_eq]
      refine ⟨habove, ?_⟩
      dsimp only
      rw [Bool.and_eq_true, decide_eq_true_eq, hget]
      exact ⟨htail, decide_eq_true hdest⟩
    rw [gone, List.any_eq_true.2 ⟨d, hd, hswept⟩] at hgone
    cases hgone

/-- **Nothing is owned that is not expected.** -/
theorem extras_nil (h : Clear generated_by repo managed outputs fences t)
    (hdone : Done repo managed outputs (remove_targets generated_by repo managed t) t') :
    extras generated_by repo managed outputs t' = [] := by
  unfold extras
  refine List.append_eq_nil_iff.2 ⟨List.flatMap_eq_nil_iff.2 fun d hd => ?_, ?_⟩
  · refine List.filter_eq_nil_iff.2 fun p hp hnot => ?_
    have hmem := dir_expected h hdone hd (mem_sorted.1 hp)
    rw [contains_paths, ← List.contains_iff_mem] at hmem
    rw [hmem] at hnot
    cases hnot
  · refine List.map_eq_nil_iff.2 (List.filter_eq_nil_iff.2 fun rel hrel hboth => ?_)
    rw [Bool.and_eq_true, Bool.and_eq_true, Bool.not_eq_true'] at hboth
    obtain ⟨⟨hnot, hfile⟩, howned⟩ := hboth
    have hout : rel ++ repo ∉ outputs.paths repo := by
      intro hmem
      rw [contains_paths, ← List.contains_iff_mem] at hmem
      rw [hmem] at hnot
      cases hnot
    have hunder := done_under h hdone
    have hnamed := h.named rel hrel hout
    rw [isFile_under hunder hfile, Bool.true_and, Bool.or_eq_false_iff] at hnamed
    rw [hnamed.1, Bool.false_or] at howned
    rw [is_owned_under hunder howned] at hnamed
    cases hnamed.2

theorem foldlM_some_same {α β : Type} {f : β → α → Option β} {l : List α} {b : β} (h : ∀ a ∈ l, f b a = some b) :
    l.foldlM f b = some b := by
  induction l with
  | nil => rfl
  | cons a l ih =>
    rw [List.foldlM_cons, h a List.mem_cons_self]
    exact ih fun c hc => h c (List.mem_cons_of_mem a hc)

theorem fence_drift_nil (h : ∀ rel ∈ FENCE_FILES, isFile v (rel ++ repo) = true → stat v (rel ++ repo) = v (rel ++ repo) ∧
    Unfenced v (rel ++ repo)) : fence_drift repo v = some [] := by
  refine foldlM_some_same fun rel hrel => ?_
  obtain ⟨hrel, hfile⟩ := List.mem_filter.1 hrel
  obtain ⟨hstat, text, exec, hview, hfence⟩ := h rel hrel hfile
  rw [read_text, hstat, hview]
  simp [hfence]

/-- **A finished install checks clean.** -/
theorem check_outputs_done (h : Clear generated_by repo managed outputs fences t)
    (hdone : Done repo managed outputs (remove_targets generated_by repo managed t) t') :
    check_outputs generated_by repo managed outputs fences t' = some {} := by
  have hreports : outputs.items.mapM (fun item =>
      (check_output repo t'.view item.1 item.2).map fun report => (as_posix item.1, report)) =
        some (outputs.items.map fun item => (as_posix item.1, (false, false))) := by
    refine mapM_some fun item hitem => ?_
    rw [check_output_holds (hdone.holds item hitem) (h.plain item hitem), Option.map_some]
  have hfences : fences = true → fence_drift repo t'.view = some [] := by
    rintro rfl
    refine fence_drift_nil fun rel hrel hfile => ?_
    obtain ⟨text, exec, hview, hfence⟩ := hook_unfenced h hdone hrel hfile
    exact ⟨(FileTree.stat_file hview).trans hview.symm, text, exec, hview, hfence⟩
  rw [check_outputs, hreports, Option.bind_eq_bind, Option.bind_some, extras_nil h hdone]
  cases fences with
  | false => simp [List.filter_map, Function.comp_def]
  | true => simp [hfences rfl, List.filter_map, Function.comp_def]

/-- A skill left by an earlier install next to a hand-written file. -/
def olderSkill : FileTree File where
  entries := [(place "r", .folder), (place "r/README.md", .file ⟨.utf8 "Mine.\n".toList, false⟩),
    (place "r/.agents", .folder), (place "r/.agents/skills", .folder), (place "r/.agents/skills/old", .folder),
    (place "r/.agents/skills/old/SKILL.md", .file ⟨.utf8 "# Generated by farrier\n".toList, false⟩),
    (place "r/.agents/skills/old/notes.md", .file ⟨.utf8 "Old.\n".toList, false⟩)]
  nodup := by decide +kernel
  closed := by decide +kernel

def newerSkill : Outputs where
  items := [(place ".agents/skills/new/SKILL.md", .rendered { text := "# Generated by farrier".toList })]
  keys := by decide +kernel

theorem clear_olderSkill : Clear (fun _ => []) (place "r") REPO_MANAGED newerSkill true olderSkill where
  ways := by decide +kernel
  spots := by
    intro item hitem
    rw [List.mem_singleton.1 hitem]
    exact .inl (by decide +kernel)
  apart := by decide +kernel
  plain := by
    intro item hitem content hout
    rw [List.mem_singleton.1 hitem] at hout
    cases hout
    decide +kernel
  shared := by
    intro p hp
    exact .inl (by revert p; decide +kernel)
  roots := by
    refine fun d hd => ⟨by revert d; decide +kernel, fun item hitem target hout => ?_⟩
    rw [List.mem_singleton.1 hitem] at hout
    cases hout
  quiet := by decide +kernel
  named := by decide +kernel
  hooks := by
    refine fun _ rel hrel => ⟨by revert rel; decide +kernel, by revert rel; decide +kernel, fun item hitem target hout => ?_,
      fun file hview => ?_⟩
    · rw [List.mem_singleton.1 hitem] at hout
      cases hout
    · have hnone : ∀ rel ∈ FENCE_FILES, olderSkill.view (rel ++ place "r") = none := by decide +kernel
      rw [hnone rel hrel] at hview
      cases hview


/-- The tree that an install leaves, and whether it was complete. -/
def leaves : Except Stop (FileTree File) → Bool × FileTree File
  | .ok t => (true, t)
  | .error stop => (false, stop.tree)

/-- A symlink to a hand-written file stands in the place of `AGENTS.md`. -/
def linkedGuide : FileTree File where
  entries := [(place "r", .folder), (place "r/AGENTS.md", .link "GUIDE.md".toList),
    (place "r/GUIDE.md", .file ⟨.utf8 "Mine.\n".toList, false⟩)]
  nodup := by decide +kernel
  closed := by decide +kernel

def rules : Outputs where
  items := [(place "AGENTS.md", .rendered { text := "Rules.".toList, assumed := true })]
  keys := by decide +kernel

/-- A file stands where the folder `.claude` is to go. -/
def fileInTheWay : FileTree File where
  entries := [(place "r", .folder), (place "r/.claude", .file ⟨.utf8 "Mine.\n".toList, false⟩)]
  nodup := by decide +kernel
  closed := by decide +kernel

/-- Hand-written notes stand in the folder of a skill. -/
def notesBeside : FileTree File where
  entries := [(place "r", .folder), (place "r/.claude", .folder), (place "r/.claude/skills", .folder),
    (place "r/.claude/skills/a", .folder), (place "r/.claude/skills/a/notes.md", .file ⟨.utf8 "Mine.\n".toList, false⟩)]
  nodup := by decide +kernel
  closed := by decide +kernel

def oneSkill : Outputs where
  items := [(place ".agents/skills/a/SKILL.md", .rendered { text := "# Generated by farrier".toList }),
    (place ".claude/skills/a/SKILL.md", .rendered { text := "# Generated by farrier".toList })]
  keys := by decide +kernel

end Stablemate.Install
