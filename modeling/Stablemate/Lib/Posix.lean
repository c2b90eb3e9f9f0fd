import Mathlib.Data.Char
import Mathlib.Data.List.Infix
import Mathlib.Data.List.Lex
import Mathlib.Data.List.Sort
import Stablemate.Lib.Lists

/-!
# Trees of files, folders and symlinks

A place is the list of the names on the way from it up to the root, its own name first, so the
folder of `n :: p` is `p`.

* `View`: what stands at each place. `follow` finds the place that a path leads to, through
  symlinks and `..`; `spot` does so for the path's folder only.
* `follow_under`, `stat_under`: a view with less in it leads nowhere that the fuller one does not.
* `follow_eq`, `stat_eq`: without a symlink on the way, a path leads to itself.
* `FileTree`: a finite tree in which everything stands in a folder; `put` and `drop` keep that.
* `unlink`, `rmdir`, `mkdirs`, `write`, `symlink`: what the calls leave. Permissions are not
  part of a tree.
-/

namespace Stablemate.Posix

/-- The name of an entry of a folder. -/
abbrev Name := List Char

/-- A place in a tree: the names on the way up to the root. -/
abbrev Place := List Name

/-- `p` is a folder on the way to `q`. -/
def Above (p q : Place) : Prop := p <:+ q ∧ p ≠ q

instance (p q : Place) : Decidable (Above p q) := inferInstanceAs (Decidable (_ ∧ _))

/-- What stands at a place. -/
inductive Node (δ : Type) where
  | file (data : δ)
  | folder
  | link (target : List Char)
  deriving DecidableEq

/-- A step of a path. -/
inductive Part where
  | up
  | name (n : Name)

/-- The steps that the text of a path spells. -/
def parts (path : List Char) : List Part :=
  (path.splitOn '/').filterMap fun n =>
    if n = [] ∨ n = ['.'] then none else if n = ['.', '.'] then some .up else some (.name n)

/-- Where the steps of a path start that is met in the folder `cur`. -/
def base (cur : Place) (path : List Char) : Place := if path.head? = some '/' then [] else cur

/-- What stands at each place. -/
abbrev View (δ : Type) := Place → Option (Node δ)

variable {δ ε : Type} {v w : View δ} {p q r cur : Place} {n : Name} {ps : List Part}

/-! ## The way a path leads -/

/-- Where a path leads up to the first symlink on it. -/
inductive Way where
  | here (p : Place)
  | away
  | via (cur : Place) (target : List Char) (rest : List Part)

/-- The steps of a path from the folder `cur`, up to the first symlink. -/
def walk (v : View δ) : Place → List Part → Way
  | cur, [] => .here cur
  | cur, .up :: ps => walk v cur.tail ps
  | cur, .name n :: ps =>
    match v (n :: cur) with
    | some .folder => walk v (n :: cur) ps
    | some (.link target) => .via cur target ps
    | _ => if ps.isEmpty then .here (n :: cur) else .away

/-- The place that a path leads to, through at most `limit` symlinks. The last name of the path
need not be taken. -/
def reach (v : View δ) : ℕ → Place → List Part → Option Place
  | 0, cur, ps =>
    match walk v cur ps with
    | .here p => some p
    | _ => none
  | limit + 1, cur, ps =>
    match walk v cur ps with
    | .here p => some p
    | .away => none
    | .via cur target rest => reach v limit (base cur target) (parts target ++ rest)

/-- The place that a path leads to. -/
def follow (v : View δ) (p : Place) : Option Place := reach v 40 [] (p.reverse.map .name)

/-- The place of the entry that a path names: only the path of its folder is followed. -/
def spot (v : View δ) : Place → Option Place
  | [] => some []
  | n :: p => (follow v p).bind fun q =>
    match v q with
    | some .folder => some (n :: q)
    | _ => none

/-- What a path leads to. -/
def stat (v : View δ) (p : Place) : Option (Node δ) := (follow v p).bind v

/-- The entry that a path names. -/
def lstat (v : View δ) (p : Place) : Option (Node δ) := (spot v p).bind v

/-- `Path.is_symlink` -/
def isLink (v : View δ) (p : Place) : Bool :=
  match lstat v p with
  | some (.link _) => true
  | _ => false

/-- `Path.is_dir` -/
def isDir (v : View δ) (p : Place) : Bool :=
  match stat v p with
  | some .folder => true
  | _ => false

/-- `Path.is_file` -/
def isFile (v : View δ) (p : Place) : Bool :=
  match stat v p with
  | some (.file _) => true
  | _ => false

theorem spot_cons : spot v (n :: p) = some q ↔ ∃ c, follow v p = some c ∧ v c = some .folder ∧ q = n :: c := by
  have hspot : spot v (n :: p) = (follow v p).bind fun c =>
    match v c with
    | some .folder => some (n :: c)
    | _ => none := rfl
  rw [hspot, Option.bind_eq_some_iff]
  refine exists_congr fun c => and_congr_right fun _ => ?_
  cases v c with
  | none => simp
  | some x => cases x <;> simp [eq_comm]

/-- The two stand for the same entry, their data related. -/
def Node.Rel (R : δ → ε → Prop) : Node δ → Node ε → Prop
  | .file a, .file b => R a b
  | .folder, .folder => True
  | .link s, .link t => s = t
  | _, _ => False

/-- What stands in `v` stands in `w` too, with related data. -/
def Under (R : δ → ε → Prop) (v : View δ) (w : View ε) : Prop :=
  ∀ p x, v p = some x → ∃ y, w p = some y ∧ x.Rel R y

section Under

variable {R : δ → ε → Prop} {w : View ε}

theorem Node.Rel.of_folder {y : Node ε} (h : (Node.folder : Node δ).Rel R y) : y = .folder := by
  cases y with
  | file b => exact h.elim
  | folder => rfl
  | link t => exact h.elim

theorem Node.Rel.of_link {s : List Char} {y : Node ε} (h : (Node.link s : Node δ).Rel R y) : y = .link s := by
  cases y with
  | file b => exact h.elim
  | folder => exact h.elim
  | link t => exact congrArg Node.link (Eq.symm h)

theorem Node.Rel.of_file {a : δ} {y : Node ε} (h : (Node.file a).Rel R y) : ∃ b, y = .file b ∧ R a b := by
  cases y with
  | file b => exact ⟨b, rfl, h⟩
  | folder => exact h.elim
  | link t => exact h.elim

/-- **A fuller view leads the same way**, up to a place that is taken or to a symlink. -/
theorem walk_under (h : Under R v w) : ∀ (ps : List Part) (cur : Place),
    (∀ q, walk v cur ps = .here q → v q ≠ none → walk w cur ps = .here q) ∧
      ∀ c s rest, walk v cur ps = .via c s rest → walk w cur ps = .via c s rest
  | [], cur => ⟨fun q hq _ => hq, fun c s rest hv => hv⟩
  | .up :: ps, cur => walk_under h ps cur.tail
  | .name n :: ps, cur => by
    have ih := walk_under h ps (n :: cur)
    unfold walk
    cases hv : v (n :: cur) with
    | none =>
      cases ps with
      | nil =>
        refine ⟨fun q hq hne => ?_, fun c s rest hvia => ?_⟩
        · cases hq
          exact absurd hv hne
        · cases hvia
      | cons a ps =>
        refine ⟨fun q hq _ => ?_, fun c s rest hvia => ?_⟩
        · cases hq
        · cases hvia
    | some x =>
      obtain ⟨y, hy, hrel⟩ := h _ _ hv
      rw [hy]
      cases x with
      | folder =>
        rw [hrel.of_folder]
        exact ih
      | link s =>
        rw [hrel.of_link]
        exact ⟨fun q hq _ => hq, fun c s rest hvia => hvia⟩
      | file a =>
        obtain ⟨b, rfl, -⟩ := hrel.of_file
        exact ⟨fun q hq _ => hq, fun c s rest hvia => hvia⟩

theorem reach_under (h : Under R v w) : ∀ (limit : ℕ) {cur : Place} {ps : List Part} {q : Place},
    reach v limit cur ps = some q → v q ≠ none → reach w limit cur ps = some q := by
  intro limit
  induction limit with
  | zero =>
    intro cur ps q hq hne
    obtain ⟨hhere, -⟩ := walk_under h ps cur
    unfold reach at hq ⊢
    cases hw : walk v cur ps with
    | here p =>
      rw [hw] at hq
      cases hq
      rw [hhere _ hw hne]
    | away => rw [hw] at hq; cases hq
    | via c s rest => rw [hw] at hq; cases hq
  | succ limit ih =>
    intro cur ps q hq hne
    obtain ⟨hhere, hvia⟩ := walk_under h ps cur
    unfold reach at hq ⊢
    cases hw : walk v cur ps with
    | here p =>
      rw [hw] at hq
      cases hq
      rw [hhere _ hw hne]
    | away => rw [hw] at hq; cases hq
    | via c s rest =>
      rw [hw] at hq
      rw [hvia _ _ _ hw]
      exact ih hq hne

theorem follow_under (h : Under R v w) (hq : follow v p = some q) (hne : v q ≠ none) : follow w p = some q :=
  reach_under h _ hq hne

theorem stat_under (h : Under R v w) {x : Node δ} (hx : stat v p = some x) : ∃ y, stat w p = some y ∧ x.Rel R y := by
  unfold stat at hx ⊢
  obtain ⟨q, hq, hv⟩ := Option.bind_eq_some_iff.1 hx
  obtain ⟨y, hy, hrel⟩ := h _ _ hv
  have hne : v q ≠ none := by rw [hv]; exact Option.some_ne_none x
  exact ⟨y, Option.bind_eq_some_iff.2 ⟨q, follow_under h hq hne, hy⟩, hrel⟩

theorem spot_under (h : Under R v w) (hq : spot v p = some q) : spot w p = some q := by
  cases p with
  | nil => exact hq
  | cons n p =>
    obtain ⟨c, hc, hfolder, rfl⟩ := spot_cons.1 hq
    obtain ⟨y, hy, hrel⟩ := h _ _ hfolder
    have hne : v c ≠ none := by rw [hfolder]; exact Option.some_ne_none _
    exact spot_cons.2 ⟨c, follow_under h hc hne, hrel.of_folder ▸ hy, rfl⟩

end Under

/-! ## Paths without a symlink on them -/

theorem above_cons : Above p (n :: q) ↔ p <:+ q := by
  unfold Above
  rw [List.suffix_cons_iff]
  constructor
  · rintro ⟨rfl | h, hne⟩
    · exact absurd rfl hne
    · exact h
  · intro h
    refine ⟨.inr h, ?_⟩
    rintro rfl
    have := h.length_le
    rw [List.length_cons] at this
    omega

theorem Above.trans_suffix (h : Above p q) (hq : q <:+ r) : Above p r := by
  refine ⟨h.1.trans hq, ?_⟩
  rintro rfl
  exact h.2 (h.1.eq_of_length_le hq.length_le)

theorem Above.of_suffix (hp : p <:+ q) (h : Above q r) : Above p r := by
  refine ⟨hp.trans h.1, ?_⟩
  rintro rfl
  exact h.2 (h.1.eq_of_length_le hp.length_le)

theorem not_above_self : ¬ Above p p := fun h => h.2 rfl

theorem Above.ne_nil (h : Above p q) : q ≠ [] := by
  rintro rfl
  exact h.2 (List.eq_nil_of_suffix_nil h.1)

theorem above_tail (h : p ≠ []) : Above p.tail p := by
  cases p with
  | nil => exact absurd rfl h
  | cons n p => exact above_cons.2 List.suffix_rfl

theorem suffix_iff_eq_or_above : p <:+ q ↔ p = q ∨ Above p q := by
  by_cases h : p = q
  · subst h
    simp
  · simp [Above, h]

theorem walk_names (hno : ∀ s, v p ≠ some (.link s)) : ∀ {l : List Name} {cur : Place},
    l.reverse ++ cur = p → (∀ q, Above cur q → Above q p → v q = some .folder) →
      walk v cur (l.map .name) = .here p := by
  intro l
  induction l with
  | nil =>
    intro cur hp _
    subst hp
    rfl
  | cons n l ih =>
    intro cur hp hway
    have hp' : l.reverse ++ n :: cur = p := by simpa using hp
    rw [List.map_cons, walk]
    cases l with
    | nil =>
      have hcur : n :: cur = p := hp'
      subst hcur
      cases hv : v (n :: cur) with
      | none => rfl
      | some x =>
        cases x with
        | file a => rfl
        | folder => rfl
        | link s => exact absurd hv (hno s)
    | cons m l =>
      have hon : Above (n :: cur) p := by
        refine ⟨⟨(m :: l).reverse, hp'⟩, ?_⟩
        intro heq
        have hlen := congrArg List.length hp'
        rw [← heq] at hlen
        simp only [List.length_append, List.length_reverse, List.length_cons] at hlen
        omega
      rw [hway _ (above_cons.2 List.suffix_rfl) hon]
      exact ih hp' fun q hq => hway q (Above.of_suffix (List.suffix_cons n cur) hq)

theorem walk_names_eq : ∀ (l : List Name) (cur : Place), (∀ q, Above cur q → q <:+ l.reverse ++ cur →
    ∀ s, v q ≠ some (.link s)) →
      walk v cur (l.map .name) = .here (l.reverse ++ cur) ∨ walk v cur (l.map .name) = .away := by
  intro l
  induction l with
  | nil => exact fun _ _ => .inl rfl
  | cons n l ih =>
    intro cur hno
    have hp : (n :: l).reverse ++ cur = l.reverse ++ n :: cur := by simp
    rw [hp] at hno ⊢
    have hnext := ih (n :: cur) fun q hq => hno q (Above.of_suffix (List.suffix_cons n cur) hq)
    have hlast : (if (l.map Part.name).isEmpty then Way.here (n :: cur) else .away) = .here (l.reverse ++ n :: cur) ∨
        (if (l.map Part.name).isEmpty then Way.here (n :: cur) else .away) = .away := by
      cases l with
      | nil => exact .inl rfl
      | cons m l => exact .inr rfl
    rw [List.map_cons, walk]
    cases hv : v (n :: cur) with
    | none => exact hlast
    | some x =>
      cases x with
      | file a => exact hlast
      | folder => exact hnext
      | link s => exact absurd hv (hno _ (above_cons.2 List.suffix_rfl) ⟨l.reverse, rfl⟩ s)

/-- **A path through folders leads to itself**, where no symlink stands. -/
theorem follow_self (hway : ∀ q, Above q p → v q = some .folder) (hno : ∀ s, v p ≠ some (.link s)) :
    follow v p = some p := by
  unfold follow reach
  rw [walk_names hno (by rw [List.reverse_reverse, List.append_nil]) fun q _ => hway q]

/-- **A path without a symlink on it leads nowhere else.** -/
theorem follow_eq (hno : ∀ r, r <:+ p → ∀ s, v r ≠ some (.link s)) (hq : follow v p = some q) : q = p := by
  unfold follow reach at hq
  have hnames := walk_names_eq p.reverse [] fun r _ hr => hno r (by simpa using hr)
  rw [List.reverse_reverse, List.append_nil] at hnames
  rcases hnames with h | h
  · rw [h] at hq
    exact (Option.some.inj hq).symm
  · rw [h] at hq
    cases hq

theorem stat_self (hway : ∀ q, Above q p → v q = some .folder) (hno : ∀ s, v p ≠ some (.link s)) :
    stat v p = v p := by
  unfold stat
  rw [follow_self hway hno, Option.bind_some]

theorem stat_eq (hno : ∀ r, r <:+ p → ∀ s, v r ≠ some (.link s)) {x : Node δ} (hx : stat v p = some x) :
    v p = some x := by
  obtain ⟨q, hq, hv⟩ := Option.bind_eq_some_iff.1 hx
  rw [follow_eq hno hq] at hv
  exact hv

theorem spot_self (hp : p ≠ []) (hway : ∀ q, Above q p → v q = some .folder) : spot v p = some p := by
  cases p with
  | nil => exact absurd rfl hp
  | cons n p =>
    have hfolder : v p = some .folder := hway p (above_cons.2 List.suffix_rfl)
    have hself : follow v p = some p := by
      refine follow_self (fun q hq => hway q (hq.trans_suffix (List.suffix_cons n p))) fun s => ?_
      rw [hfolder]
      intro h
      cases h
    exact spot_cons.2 ⟨p, hself, hfolder, rfl⟩

theorem spot_eq (hno : ∀ r, Above r p → ∀ s, v r ≠ some (.link s)) (hq : spot v p = some q) : q = p := by
  cases p with
  | nil => exact (Option.some.inj hq).symm
  | cons n p =>
    obtain ⟨c, hc, -, rfl⟩ := spot_cons.1 hq
    rw [follow_eq (fun r hr => hno r (above_cons.2 hr)) hc]

/-! ## Trees -/

/-- A folder stands at `p`. -/
def folderAt (v : View δ) (p : Place) : Bool :=
  match v p with
  | some .folder => true
  | _ => false

theorem folderAt_iff : folderAt v p = true ↔ v p = some .folder := by
  unfold folderAt
  cases v p with
  | none => simp
  | some x => cases x <;> simp

/-- What a list of entries puts at each place. -/
def look (entries : List (Place × Node δ)) : View δ := fun p =>
  if p = [] then some .folder else entries.lookup p

/-- A tree in which every entry stands in a folder. -/
structure FileTree (δ : Type) where
  entries : List (Place × Node δ)
  nodup : (entries.map Prod.fst).Nodup
  closed : ∀ e ∈ entries, e.1 ≠ [] ∧ folderAt (look entries) e.1.tail

namespace FileTree

variable {t t' : FileTree δ} {x : Node δ}

/-- What stands at each place of a tree. -/
def view (t : FileTree δ) : View δ := look t.entries

theorem view_root (t : FileTree δ) : t.view [] = some .folder := rfl

theorem view_eq_lookup (hp : p ≠ []) : t.view p = t.entries.lookup p := if_neg hp

theorem lookup_filter (es : List (Place × Node δ)) :
    (es.filter fun e => e.1 ≠ p).lookup q = if q = p then none else es.lookup q := by
  have h := lookup_filter_key (fun k => decide (k ≠ p)) q es
  rw [h]
  by_cases hq : q = p <;> simp [hq]

theorem mem_of_view (hp : p ≠ []) (h : t.view p = some x) : (p, x) ∈ t.entries := by
  rw [view_eq_lookup hp, List.lookup_eq_some_iff] at h
  obtain ⟨l₁, l₂, heq, -⟩ := h
  rw [heq]
  simp

theorem mem_keys (hp : p ≠ []) : p ∈ t.entries.map Prod.fst ↔ t.view p ≠ none := by
  rw [view_eq_lookup hp, ← Option.isSome_iff_ne_none, List.lookup_isSome_iff, List.mem_map]
  refine exists_congr fun e => and_congr_right fun _ => ?_
  rw [beq_iff_eq, eq_comm]

/-- **The way to what stands in a tree leads through folders.** -/
theorem way (h : t.view p = some x) : ∀ q, Above q p → t.view q = some .folder := by
  induction p generalizing x with
  | nil =>
    intro q hq
    exact absurd (List.eq_nil_of_suffix_nil hq.1) hq.2
  | cons n p ih =>
    have hfolder : t.view p = some .folder :=
      folderAt_iff.1 (t.closed _ (mem_of_view (List.cons_ne_nil n p) h)).2
    intro q hq
    rcases suffix_iff_eq_or_above.1 (above_cons.1 hq) with rfl | hq
    · exact hfolder
    · exact ih hfolder q hq

theorem way_of_tail (hp : p ≠ []) (hin : t.view p.tail = some .folder) : ∀ q, Above q p → t.view q = some .folder := by
  cases p with
  | nil => exact absurd rfl hp
  | cons n p =>
    intro q hq
    rcases suffix_iff_eq_or_above.1 (above_cons.1 hq) with rfl | hq
    · exact hin
    · exact way hin q hq

theorem stat_of_view (h : t.view p = some x) (hno : ∀ s, x ≠ .link s) : stat t.view p = some x := by
  rw [stat_self (way h) fun s hs => hno s (Option.some.inj (h.symm.trans hs)), h]

theorem stat_file {data : δ} (h : t.view p = some (.file data)) : stat t.view p = some (.file data) :=
  stat_of_view h fun s hs => by cases hs

theorem spot_of_view (hp : p ≠ []) (h : t.view p = some x) : spot t.view p = some p := spot_self hp (way h)

/-- The tree with `x` at `p`, where a folder is there to hold it and none stands in its place. -/
def put (t : FileTree δ) (p : Place) (x : Node δ) : FileTree δ :=
  if h : p ≠ [] ∧ folderAt t.view p.tail = true ∧ folderAt t.view p = false then
    { entries := (p, x) :: t.entries.filter fun e => e.1 ≠ p
      nodup := by
        rw [List.map_cons, List.nodup_cons]
        refine ⟨?_, (List.Nodup.filter _ t.nodup.of_map).map_on ?_⟩
        · intro hmem
          obtain ⟨e, he, rfl⟩ := List.mem_map.1 hmem
          simpa using (List.mem_filter.1 he).2
        · intro a ha b hb hab
          exact List.inj_on_of_nodup_map t.nodup (List.mem_filter.1 ha).1 (List.mem_filter.1 hb).1 hab
      closed := by
        have hkeep : ∀ q, q ≠ p → look ((p, x) :: t.entries.filter fun e => e.1 ≠ p) q = t.view q := by
          intro q hq
          unfold view look
          split
          · rfl
          · rw [List.lookup_cons, beq_false_of_ne hq, lookup_filter, if_neg hq]
        intro e he
        rcases List.mem_cons.1 he with rfl | he
        · refine ⟨h.1, ?_⟩
          rw [folderAt, hkeep _ (above_tail h.1).2]
          exact h.2.1
        · obtain ⟨hmem, -⟩ := List.mem_filter.1 he
          obtain ⟨hne, hfolder⟩ := t.closed e hmem
          have htail : e.1.tail ≠ p := by
            intro heq
            rw [heq] at hfolder
            exact absurd (h.2.2.symm.trans hfolder) Bool.false_ne_true
          refine ⟨hne, ?_⟩
          rw [folderAt, hkeep _ htail]
          exact hfolder }
  else t

/-- The tree without the entry at `p`, where nothing stands in that. -/
def drop (t : FileTree δ) (p : Place) : FileTree δ :=
  if h : ∀ e ∈ t.entries, e.1.tail ≠ p then
    { entries := t.entries.filter fun e => e.1 ≠ p
      nodup := (List.Nodup.filter _ t.nodup.of_map).map_on fun a ha b hb hab =>
        List.inj_on_of_nodup_map t.nodup (List.mem_filter.1 ha).1 (List.mem_filter.1 hb).1 hab
      closed := by
        intro e he
        obtain ⟨hmem, -⟩ := List.mem_filter.1 he
        obtain ⟨hne, hfolder⟩ := t.closed e hmem
        refine ⟨hne, ?_⟩
        have hkeep : look (t.entries.filter fun e => e.1 ≠ p) e.1.tail = t.view e.1.tail := by
          unfold view look
          split
          · rfl
          · rw [lookup_filter, if_neg (h e hmem)]
        rw [folderAt, hkeep]
        exact hfolder }
  else t

theorem view_put (hp : p ≠ []) (hin : t.view p.tail = some .folder) (hfree : t.view p ≠ some .folder) (q : Place) :
    (t.put p x).view q = if q = p then some x else t.view q := by
  have hnot : folderAt t.view p = false := by
    rw [← Bool.not_eq_true, folderAt_iff]
    exact hfree
  unfold put
  rw [dif_pos ⟨hp, folderAt_iff.2 hin, hnot⟩]
  unfold view look
  by_cases hq : q = p
  · subst hq
    rw [if_neg hp, if_pos rfl, List.lookup_cons_self]
  · rw [if_neg hq]
    split
    · rfl
    · rw [List.lookup_cons, beq_false_of_ne hq, lookup_filter, if_neg hq]

/-- Nothing stands in `p`. -/
def Bare (t : FileTree δ) (p : Place) : Prop := ∀ q, q ≠ [] → q.tail = p → t.view q = none

theorem bare_iff : (∀ e ∈ t.entries, e.1.tail ≠ p) ↔ t.Bare p := by
  constructor
  · intro h q hq htail
    cases hv : t.view q with
    | none => rfl
    | some x => exact absurd htail (h _ (mem_of_view hq hv))
  · intro h e he htail
    have hne := (t.closed e he).1
    have hnone := h e.1 hne htail
    rw [view_eq_lookup hne, List.lookup_eq_none_iff] at hnone
    exact absurd (hnone e he) (by simp)

theorem bare_of_not_folder (h : t.view p ≠ some .folder) : t.Bare p := by
  refine bare_iff.1 fun e he htail => h ?_
  rw [← htail]
  exact folderAt_iff.1 (t.closed e he).2

theorem view_drop (hp : p ≠ []) (hbare : t.Bare p) (q : Place) :
    (t.drop p).view q = if q = p then none else t.view q := by
  unfold drop
  rw [dif_pos (bare_iff.2 hbare)]
  unfold view look
  by_cases hq : q = p
  · subst hq
    rw [if_neg hp, if_pos rfl, lookup_filter, if_pos rfl]
  · rw [if_neg hq]
    split
    · rfl
    · rw [lookup_filter, if_neg hq]

theorem view_drop_root (t : FileTree δ) : (t.drop []).view = t.view := by
  unfold drop
  split
  · have hkeep : t.entries.filter (fun e => e.1 ≠ []) = t.entries :=
      List.filter_eq_self.2 fun e he => by simpa using (t.closed e he).1
    exact congrArg look hkeep
  · rfl

theorem drop_of_not_bare (h : ¬ t.Bare p) : t.drop p = t := dif_neg fun hb => h (bare_iff.1 hb)

end FileTree

/-! ## What the calls do -/

/-- `Path.rglob("*")`: every entry below, symlinked folders not entered. -/
def rglob (t : FileTree δ) (p : Place) : List Place :=
  match follow t.view p with
  | some c => ((t.entries.map Prod.fst).filter (Above c ·)).map fun q => q.take (q.length - c.length) ++ p
  | none => []

/-- `Path.iterdir` -/
def iterdir (t : FileTree δ) (p : Place) : List Place :=
  match follow t.view p with
  | some c => ((t.entries.map Prod.fst).filter (·.tail = c)).map fun q => q.take 1 ++ p
  | none => []

/-- `sorted` over paths. -/
def sorted (ps : List Place) : List Place := ps.insertionSort fun p q => p.reverse ≤ q.reverse

/-- `Path.unlink` of a path that may be missing. -/
def unlink (t : FileTree δ) (p : Place) : FileTree δ :=
  match spot t.view p with
  | some q => if folderAt t.view q then t else t.drop q
  | none => t

/-- `Path.rmdir`, a failure suppressed. -/
def rmdir (t : FileTree δ) (p : Place) : FileTree δ :=
  match spot t.view p with
  | some q => if folderAt t.view q then t.drop q else t
  | none => t

/-- `Path.mkdir(parents=True, exist_ok=True)`, with the tree that is left where it fails. -/
def mkdirs (t : FileTree δ) : Place → Except (FileTree δ) (FileTree δ)
  | [] => .ok t
  | n :: p =>
    if isDir t.view (n :: p) then .ok t
    else
      match mkdirs t p with
      | .error t => .error t
      | .ok t =>
        match spot t.view (n :: p) with
        | some q => if (t.view q).isNone then .ok (t.put q .folder) else .error t
        | none => .error t

/-- Opens a file to write it: what it holds then, from what it held. -/
def write (t : FileTree δ) (p : Place) (f : Option δ → δ) : Except (FileTree δ) (FileTree δ) :=
  match follow t.view p with
  | some q =>
    match t.view q with
    | none => .ok (t.put q (.file (f none)))
    | some (.file old) => .ok (t.put q (.file (f (some old))))
    | _ => .error t
  | none => .error t

/-- `os.symlink` -/
def symlink (t : FileTree δ) (p : Place) (target : List Char) : Except (FileTree δ) (FileTree δ) :=
  match spot t.view p with
  | some q => if (t.view q).isNone ∧ target ≠ [] then .ok (t.put q (.link target)) else .error t
  | none => .error t

variable {t t' : FileTree δ} {x : Node δ}

theorem mem_sorted {ps : List Place} : p ∈ sorted ps ↔ p ∈ ps := List.mem_insertionSort _

theorem append_take_of_suffix (h : p <:+ q) : q.take (q.length - p.length) ++ p = q := List.suffix_iff_eq_append.1 h

/-- A folder that a path leads to itself lists what stands below it. -/
theorem mem_rglob (h : t.view p = some .folder) : q ∈ rglob t p ↔ Above p q ∧ t.view q ≠ none := by
  have hself : follow t.view p = some p := follow_self (FileTree.way h) fun s hs => by rw [h] at hs; cases hs
  unfold rglob
  rw [hself]
  constructor
  · intro hmem
    obtain ⟨r, hr, heq⟩ := List.mem_map.1 hmem
    obtain ⟨hr, habove⟩ := List.mem_filter.1 hr
    have habove : Above p r := of_decide_eq_true habove
    rw [append_take_of_suffix habove.1] at heq
    subst heq
    exact ⟨habove, (FileTree.mem_keys habove.ne_nil).1 hr⟩
  · rintro ⟨habove, hsome⟩
    refine List.mem_map.2 ⟨q, List.mem_filter.2 ⟨(FileTree.mem_keys habove.ne_nil).2 hsome, decide_eq_true habove⟩, ?_⟩
    exact append_take_of_suffix habove.1

theorem mem_iterdir (h : t.view p = some .folder) : q ∈ iterdir t p ↔ (q ≠ [] ∧ q.tail = p) ∧ t.view q ≠ none := by
  have hself : follow t.view p = some p := follow_self (FileTree.way h) fun s hs => by rw [h] at hs; cases hs
  unfold iterdir
  rw [hself]
  constructor
  · intro hmem
    obtain ⟨r, hr, heq⟩ := List.mem_map.1 hmem
    obtain ⟨hkey, htail⟩ := List.mem_filter.1 hr
    cases r with
    | nil =>
      obtain ⟨e, he, hnil⟩ := List.mem_map.1 hkey
      exact absurd hnil (t.closed e he).1
    | cons n r =>
      have hr' : r = p := of_decide_eq_true htail
      subst hr'
      have heq : n :: r = q := heq
      subst heq
      exact ⟨⟨List.cons_ne_nil n r, rfl⟩, (FileTree.mem_keys (List.cons_ne_nil n r)).1 hkey⟩
  · rintro ⟨⟨hne, htail⟩, hsome⟩
    refine List.mem_map.2 ⟨q, List.mem_filter.2 ⟨(FileTree.mem_keys hne).2 hsome, decide_eq_true htail⟩, ?_⟩
    cases q with
    | nil => exact absurd rfl hne
    | cons n q => exact congrArg (n :: ·) htail.symm

theorem view_unlink (h : spot t.view p = some q) (hno : t.view q ≠ some .folder) (r : Place) :
    (unlink t p).view r = if r = q then none else t.view r := by
  have hnot : folderAt t.view q = false := by
    rw [← Bool.not_eq_true, folderAt_iff]
    exact hno
  have hq : q ≠ [] := by
    rintro rfl
    exact hno t.view_root
  unfold unlink
  rw [h]
  simp only [hnot, Bool.false_eq_true, if_false]
  exact FileTree.view_drop hq (FileTree.bare_of_not_folder hno) r

theorem unlink_or (t : FileTree δ) (p : Place) :
    (∃ q, spot t.view p = some q ∧ t.view q ≠ some .folder ∧
      ∀ r, (unlink t p).view r = if r = q then none else t.view r) ∨ unlink t p = t := by
  cases h : spot t.view p with
  | none => exact .inr (by unfold unlink; rw [h])
  | some q =>
    by_cases hf : t.view q = some .folder
    · refine .inr ?_
      unfold unlink
      rw [h]
      exact if_pos (folderAt_iff.2 hf)
    · exact .inl ⟨q, rfl, hf, view_unlink h hf⟩

theorem view_rmdir (hp : p ≠ []) (h : t.view p = some .folder) (hbare : t.Bare p) (r : Place) :
    (rmdir t p).view r = if r = p then none else t.view r := by
  unfold rmdir
  rw [FileTree.spot_of_view hp h]
  simp only [folderAt_iff.2 h, if_true]
  exact FileTree.view_drop hp hbare r

theorem rmdir_or (t : FileTree δ) (p : Place) :
    (∃ q, spot t.view p = some q ∧ t.view q = some .folder ∧
      ∀ r, (rmdir t p).view r = if r = q then none else t.view r) ∨ (rmdir t p).view = t.view := by
  cases h : spot t.view p with
  | none => exact .inr (by unfold rmdir; rw [h])
  | some q =>
    by_cases hf : t.view q = some .folder
    · have hdrop : rmdir t p = t.drop q := by
        unfold rmdir
        rw [h]
        exact if_pos (folderAt_iff.2 hf)
      by_cases hbare : t.Bare q
      · by_cases hq : q = []
        · refine .inr ?_
          subst hq
          rw [hdrop]
          exact FileTree.view_drop_root t
        · exact .inl ⟨q, rfl, hf, fun r => hdrop ▸ FileTree.view_drop hq hbare r⟩
      · rw [hdrop, FileTree.drop_of_not_bare hbare]
        exact .inr rfl
    · refine .inr ?_
      have hnot : rmdir t p = t := by
        unfold rmdir
        rw [h]
        exact if_neg fun hfolder => hf (folderAt_iff.1 hfolder)
      rw [hnot]

/-! ## Empty folders are removed from below -/

theorem reverse_lt_of_above (h : Above p q) : p.reverse < q.reverse := by
  obtain ⟨⟨l, rfl⟩, hne⟩ := h
  rw [List.reverse_append]
  have hl : l.reverse ≠ [] := fun hl => hne (by rw [List.reverse_eq_nil_iff.1 hl, List.nil_append])
  obtain ⟨a, as, has⟩ := List.exists_cons_of_ne_nil hl
  rw [has]
  have hlt : p.reverse ++ [] < p.reverse ++ a :: as := List.append_left_lt (List.nil_lt_cons a as)
  rwa [List.append_nil] at hlt

/-- In reverse order, what stands in a folder comes before the folder. -/
theorem pairwise_reverse_sorted (ps : List Place) : (sorted ps).reverse.Pairwise fun p q => ¬ Above p q := by
  rw [List.pairwise_reverse]
  have hsorted := List.pairwise_insertionSort (fun p q : Place => p.reverse ≤ q.reverse) ps
  exact hsorted.imp fun {p q} hle habove => absurd hle (not_le_of_gt (reverse_lt_of_above habove))

theorem foldl_rmdir_or (ps : List Place) (t : FileTree δ) (q : Place) :
    (ps.foldl rmdir t).view q = t.view q ∨ t.view q = some .folder ∧ (ps.foldl rmdir t).view q = none := by
  induction ps generalizing t with
  | nil => exact .inl rfl
  | cons p ps ih =>
    have hstep : (rmdir t p).view q = t.view q ∨ t.view q = some .folder ∧ (rmdir t p).view q = none := by
      rcases rmdir_or t p with ⟨r, -, hfolder, hview⟩ | hsame
      · by_cases hq : q = r
        · subst hq
          exact .inr ⟨hfolder, (hview q).trans (if_pos rfl)⟩
        · exact .inl ((hview q).trans (if_neg hq))
      · exact .inl (congrFun hsame q)
    rw [List.foldl_cons]
    rcases ih (rmdir t p) with h | ⟨h, hnone⟩
    · rw [h]
      exact hstep
    · rcases hstep with hs | ⟨-, hs⟩
      · exact .inr ⟨hs ▸ h, hnone⟩
      · rw [h] at hs
        cases hs

/-- **A folder with nothing but folders below is removed**, once those are listed before it. -/
theorem foldl_rmdir_none (n : ℕ) : ∀ {ps : List Place} {t : FileTree δ} {p : Place}, ps.length ≤ n →
    ps.Pairwise (fun p q => ¬ Above p q) → p ∈ ps → p ≠ [] → t.view p = some .folder →
      (∀ q, Above p q → t.view q ≠ none → t.view q = some .folder ∧ q ∈ ps) →
        (ps.foldl rmdir t).view p = none := by
  induction n with
  | zero =>
    intro ps t p hlen _ hmem
    rw [List.eq_nil_of_length_eq_zero (Nat.le_zero.1 hlen)] at hmem
    cases hmem
  | succ n ih =>
    intro ps t p hlen hpair hmem hp hfolder hbelow
    obtain ⟨ps₁, ps₂, rfl⟩ := List.append_of_mem hmem
    rw [List.foldl_append, List.foldl_cons]
    obtain ⟨hpair₁, hpair₂, -⟩ := List.pairwise_append.1 hpair
    have hbefore : ∀ q, Above p q → t.view q ≠ none → t.view q = some .folder ∧ q ∈ ps₁ := by
      intro q hq hne
      obtain ⟨hqf, hqm⟩ := hbelow q hq hne
      refine ⟨hqf, ?_⟩
      rcases List.mem_append.1 hqm with hqm | hqm
      · exact hqm
      · rcases List.mem_cons.1 hqm with rfl | hqm
        · exact absurd hq not_above_self
        · exact absurd hq ((List.pairwise_cons.1 hpair₂).1 q hqm)
    -- the folders in `p` are gone by the time it is its turn
    have hbare : (ps₁.foldl rmdir t).Bare p := by
      intro q hq htail
      have habove : Above p q := htail ▸ above_tail hq
      by_cases hne : t.view q = none
      · rcases foldl_rmdir_or ps₁ t q with h | ⟨h, -⟩
        · rw [h, hne]
        · rw [hne] at h
          cases h
      · obtain ⟨hqf, hqm⟩ := hbefore q habove hne
        refine ih ?_ hpair₁ hqm hq hqf fun r hr hrne => hbefore r (Above.of_suffix habove.1 hr) hrne
        rw [List.length_append, List.length_cons] at hlen
        omega
    have hturn : (rmdir (ps₁.foldl rmdir t) p).view p = none := by
      rcases foldl_rmdir_or ps₁ t p with h | ⟨-, h⟩
      · rw [view_rmdir hp (h.trans hfolder) hbare, if_pos rfl]
      · rcases rmdir_or (ps₁.foldl rmdir t) p with ⟨r, -, hr, hview⟩ | hsame
        · by_cases hpr : p = r
          · rw [hview, if_pos hpr]
          · rw [hview, if_neg hpr, h]
        · rw [hsame, h]
    rcases foldl_rmdir_or ps₂ (rmdir (ps₁.foldl rmdir t) p) p with h | ⟨h, -⟩
    · rw [h, hturn]
    · rw [hturn] at h
      cases h

/-! ## Calls that succeed -/

/-- **Missing folders are made** where folders or nothing stand on the way. -/
theorem mkdirs_ok (h : ∀ q, q <:+ p → t.view q = some .folder ∨ t.view q = none) :
    ∃ t', mkdirs t p = .ok t' ∧ ∀ q, t'.view q = if q <:+ p then some .folder else t.view q := by
  induction p with
  | nil =>
    refine ⟨t, rfl, fun q => ?_⟩
    split
    · rename_i hq
      rw [List.eq_nil_of_suffix_nil hq, t.view_root]
    · rfl
  | cons n p ih =>
    have hno : ∀ q, q <:+ n :: p → ∀ s, t.view q ≠ some (.link s) := by
      intro q hq s hs
      rcases h q hq with hf | hf <;> rw [hs] at hf <;> cases hf
    obtain ⟨t', hok, hview⟩ := ih fun q hq => h q (hq.trans (List.suffix_cons n p))
    by_cases hdir : t.view (n :: p) = some .folder
    · have hisDir : isDir t.view (n :: p) = true := by
        unfold isDir
        rw [FileTree.stat_of_view hdir fun s hs => by cases hs]
      refine ⟨t, by rw [mkdirs, hisDir]; rfl, fun q => ?_⟩
      split
      · rename_i hq
        rcases suffix_iff_eq_or_above.1 hq with rfl | hq
        · exact hdir
        · exact FileTree.way hdir q hq
      · rfl
    · have hnone : t.view (n :: p) = none := (h _ List.suffix_rfl).resolve_left hdir
      have hisDir : isDir t.view (n :: p) = false := by
        unfold isDir
        cases hs : stat t.view (n :: p) with
        | none => rfl
        | some x =>
          have hx := stat_eq hno hs
          rw [hnone] at hx
          cases hx
      have hnot : ¬ n :: p <:+ p := fun hp => by
        have := hp.length_le
        rw [List.length_cons] at this
        omega
      have hfolder : t'.view p = some .folder := (hview p).trans (if_pos List.suffix_rfl)
      have hfree : t'.view (n :: p) = none := by rw [hview, if_neg hnot, hnone]
      have hspot : spot t'.view (n :: p) = some (n :: p) := by
        refine spot_self (List.cons_ne_nil n p) fun q hq => ?_
        rw [hview, if_pos (above_cons.1 hq)]
      refine ⟨t'.put (n :: p) .folder, ?_, fun q => ?_⟩
      · rw [mkdirs, hisDir, hok]
        simp [hspot, hfree]
      · rw [FileTree.view_put (List.cons_ne_nil n p) hfolder (by rw [hfree]; exact nofun), hview]
        by_cases hq : q = n :: p
        · subst hq
          rw [if_pos rfl, if_pos List.suffix_rfl]
        · rw [if_neg hq]
          refine if_congr ?_ rfl rfl
          rw [List.suffix_cons_iff, or_iff_right hq]

/-- A path through folders is written where a file or nothing stands. -/
theorem write_ok {f : Option δ → δ} (hp : p ≠ []) (hin : t.view p.tail = some .folder)
    (hfree : t.view p = none ∨ ∃ d, t.view p = some (.file d)) :
    ∃ d t', write t p f = .ok t' ∧ (d = f none ∨ ∃ old, t.view p = some (.file old) ∧ d = f (some old)) ∧
      ∀ q, t'.view q = if q = p then some (.file d) else t.view q := by
  have hway := FileTree.way_of_tail hp hin
  have hself : follow t.view p = some p := by
    refine follow_self hway fun s hs => ?_
    rcases hfree with hf | ⟨d, hf⟩ <;> rw [hs] at hf <;> cases hf
  have hnot : t.view p ≠ some .folder := by
    rcases hfree with hf | ⟨d, hf⟩ <;> rw [hf] <;> exact nofun
  rcases hfree with hf | ⟨d, hf⟩
  · refine ⟨f none, t.put p (.file (f none)), ?_, .inl rfl, FileTree.view_put hp hin hnot⟩
    unfold write
    simp [hself, hf]
  · refine ⟨f (some d), t.put p (.file (f (some d))), ?_, .inr ⟨d, hf, rfl⟩, FileTree.view_put hp hin hnot⟩
    unfold write
    simp [hself, hf]

/-- A symlink is made in a folder where nothing stands. -/
theorem symlink_ok {target : List Char} (hp : p ≠ []) (hin : t.view p.tail = some .folder)
    (hfree : t.view p = none) (htarget : target ≠ []) :
    ∃ t', symlink t p target = .ok t' ∧ ∀ q, t'.view q = if q = p then some (.link target) else t.view q := by
  have hway := FileTree.way_of_tail hp hin
  refine ⟨t.put p (.link target), ?_, FileTree.view_put hp hin (by rw [hfree]; exact nofun)⟩
  unfold symlink
  simp [spot_self hp hway, hfree, htarget]

end Stablemate.Posix
