import Mathlib.Data.List.Forall2
import Stablemate.Lib.Lists
import Stablemate.Model.Reground

/-!
# What a regrounding stamps, keeps and files

* `mem_allowed_targets`: a bullet is stamped on the paths that are spared for the nodes of its heading's line.
* `cited_stamped`: a stamp changes the digests of citations and nothing else.
* `mem_stale_files`, `listed_of_stale`: every stale citation is listed in the one group of its key.
* `filed`: the failures are one problem for each node that is named or unread.
* `regrounded_iff`: **a run stamps only what a reading spared just when everything that is cited on the line of a
  spared node, of a path it is spared for, is spared itself**.
-/

namespace Stablemate.Reground

section Run

variable {β : Type} {sources : Sources β} {verdicts : StaleFile → Option RegroundVerdict} {book : Book}
variable {pairs : List (Text × Text)} {page : Page} {node other : Node} {bullet : Bullet} {path : Text} {line : ℕ}

/-! ## Lines -/

theorem range_congr (h : node.line = other.line) : node_line_range page node = node_line_range page other := by
  unfold node_line_range
  rw [h]

theorem range_le (hnode : node ∈ page.nodes) (hlt : other.line < node.line) :
    (node_line_range page other).2 ≤ node.line := by
  have hmem : node.line ∈ (page.nodes.map (·.line)).filter (other.line < ·) :=
    List.mem_filter.2 ⟨List.mem_map_of_mem hnode, decide_eq_true hlt⟩
  unfold node_line_range
  cases hmin : ((page.nodes.map (·.line)).filter (other.line < ·)).min? with
  | none =>
    rw [List.min?_eq_none_iff] at hmin
    rw [hmin] at hmem
    exact absurd hmem List.not_mem_nil
  | some least => exact (List.min?_eq_some_iff.1 hmin).2 node.line hmem

theorem lt_range (hnext : ∀ node ∈ page.nodes, other.line < node.line → line < node.line) (hend : line ≤ page.lines) :
    line < (node_line_range page other).2 := by
  unfold node_line_range
  cases hmin : ((page.nodes.map (·.line)).filter (other.line < ·)).min? with
  | none =>
    rw [Option.getD_none]
    omega
  | some least =>
    obtain ⟨hmem, hlt⟩ := List.mem_filter.1 (List.min?_eq_some_iff.1 hmin).1
    obtain ⟨next, hin, rfl⟩ := List.mem_map.1 hmem
    exact hnext next hin (of_decide_eq_true hlt)

/-- **A line of a node's own text is in the ranges of the nodes on the line of its heading.** -/
theorem range_holds_iff (hnode : node ∈ page.nodes) (hbullet : bullet ∈ node.bullets)
    (hother : other ∈ page.nodes) :
    (node_line_range page other).1 ≤ bullet.line ∧ bullet.line < (node_line_range page other).2 ↔
      other.line = node.line := by
  obtain ⟨hfrom, hend, hnext⟩ := page.own node hnode bullet hbullet
  constructor
  · rintro ⟨hlow, hhigh⟩
    have hlow : other.line ≤ bullet.line := hlow
    have hle : other.line ≤ node.line := by
      by_contra hlt
      have := hnext other hother (by omega)
      omega
    by_contra hne
    have hup := range_le hnode (by omega : other.line < node.line)
    omega
  · intro hline
    refine ⟨?_, lt_range (fun next hin hlt => hnext next hin (by omega)) hend⟩
    show other.line ≤ bullet.line
    omega

/-! ## Stamps -/

theorem find_ui_node_spec {id : Text} {found : Page × Node} (h : find_ui_node book id = some found) :
    found.1 ∈ book.pages ∧ found.2 ∈ found.1.nodes := by
  obtain ⟨page, hpage, hfound⟩ := List.mem_flatMap.1 (List.mem_of_find?_eq_some h)
  obtain ⟨node, hnode, rfl⟩ := List.mem_map.1 hfound
  exact ⟨hpage, hnode⟩

theorem mem_targetsOn (hpage : page ∈ book.pages) {range : ℕ × ℕ} :
    (range, path) ∈ targetsOn book pairs page ↔ ∃ pair ∈ pairs, pair.2 = path ∧
      ∃ other, find_ui_node book pair.1 = some (page, other) ∧ node_line_range page other = range := by
  unfold targetsOn targetsOf
  simp only [List.mem_map, List.mem_filter, List.mem_filterMap, Option.map_eq_some_iff, decide_eq_true_eq]
  constructor
  · rintro ⟨target, ⟨⟨pair, hpair, found, hfound, rfl⟩, hon⟩, heq⟩
    obtain ⟨rfl, rfl⟩ := Prod.mk.inj heq
    -- a path is of one page of the book
    have hsame : found.1 = page := List.inj_on_of_nodup_map book.apart (find_ui_node_spec hfound).1 hpage hon
    refine ⟨pair, hpair, rfl, found.2, ?_, by rw [hsame]⟩
    rw [hfound, ← hsame]
  · rintro ⟨pair, hpair, rfl, other, hfound, rfl⟩
    exact ⟨(page.path, node_line_range page other, pair.2), ⟨⟨pair, hpair, (page, other), hfound, rfl⟩, rfl⟩, rfl⟩

/-- Whether a path is spared for a node on the line of a node. -/
def Targets (book : Book) (pairs : List (Text × Text)) (page : Page) (node : Node) (path : Text) : Prop :=
  ∃ pair ∈ pairs, pair.2 = path ∧ ∃ other, find_ui_node book pair.1 = some (page, other) ∧ other.line = node.line

/-- **A bullet is stamped on the paths that are spared for the nodes of its heading's line.** -/
theorem mem_allowed_targets (hpage : page ∈ book.pages) (hnode : node ∈ page.nodes)
    (hbullet : bullet ∈ node.bullets) :
    path ∈ allowed_targets (targetsOn book pairs page) bullet.line ↔ Targets book pairs page node path := by
  unfold allowed_targets
  cases hfind : ((targetsOn book pairs page).map (·.1)).find? fun range =>
      range.1 ≤ bullet.line ∧ bullet.line < range.2 with
  | none =>
    refine ⟨fun h => absurd h List.not_mem_nil, ?_⟩
    rintro ⟨pair, hpair, hpath, other, hfound, hline⟩
    have hmem := (mem_targetsOn hpage).2 ⟨pair, hpair, hpath, other, hfound, rfl⟩
    have hholds := (range_holds_iff hnode hbullet (find_ui_node_spec hfound).2).2 hline
    exact absurd (decide_eq_true hholds) (List.find?_eq_none.1 hfind _ (List.mem_map_of_mem hmem))
  | some range =>
    obtain ⟨⟨first, path'⟩, hmem, rfl⟩ := List.mem_map.1 (List.mem_of_find?_eq_some hfind)
    obtain ⟨_, _, _, held, hheld, rfl⟩ := (mem_targetsOn hpage).1 hmem
    have hholds := List.find?_some hfind
    have hline : held.line = node.line :=
      (range_holds_iff hnode hbullet (find_ui_node_spec hheld).2).1 (of_decide_eq_true hholds)
    constructor
    · intro h
      obtain ⟨⟨range, path⟩, hin, rfl⟩ := List.mem_map.1 h
      obtain ⟨hin, hrange⟩ := List.mem_filter.1 hin
      obtain ⟨pair, hpair, hpath, other, hfound, hother⟩ := (mem_targetsOn hpage).1 hin
      have hlines : other.line = held.line := congrArg Prod.fst (hother.trans (of_decide_eq_true hrange))
      exact ⟨pair, hpair, hpath, other, hfound, by omega⟩
    · rintro ⟨pair, hpair, hpath, other, hfound, hother⟩
      have hsame : node_line_range page other = node_line_range page held := range_congr (by omega)
      have hin := (mem_targetsOn hpage).2 ⟨pair, hpair, hpath, other, hfound, hsame⟩
      exact List.mem_map.2 ⟨_, List.mem_filter.2 ⟨hin, decide_eq_true rfl⟩, rfl⟩

/-- Whether a citation carries the digest of its file's present text. -/
def Current (sources : Sources β) (cite : Citation) : Prop :=
  ∃ data digest, sources.present cite.repository cite.path = some data ∧ cite.digest = some digest ∧
    citation_is_fresh sources cite.path data cite.symbol digest = true

theorem not_current_of_stale {cite : Citation} (h : isStale sources cite = true) : ¬Current sources cite := by
  rintro ⟨data, digest, hdata, hdigest, hfresh⟩
  rw [isStale, hdata, hdigest] at h
  simp [hfresh] at h

theorem present_of_stale {cite : Citation} (h : isStale sources cite = true) :
    (sources.present cite.repository cite.path).isSome = true := by
  unfold isStale at h
  split at h
  · rename_i hdata _
    rw [hdata]
    rfl
  · cases h

theorem restamp_of_not_mem {targets : List Text} {cite : Citation} (h : cite.path ∉ targets) :
    restamp sources targets cite = cite := by
  unfold restamp
  rw [if_neg (by simpa using h)]

/-- A citation is current after the stamps if it was before, or is of a path that is a target and of a file. -/
theorem current_restamp {targets : List Text} {cite : Citation} :
    Current sources (restamp sources targets cite) ↔ Current sources cite ∨
      cite.path ∈ targets ∧ (sources.present cite.repository cite.path).isSome = true := by
  by_cases hin : cite.path ∈ targets
  · cases hdata : sources.present cite.repository cite.path with
    | none =>
      have hrest : restamp sources targets cite = cite := by
        unfold restamp
        rw [if_pos (by simpa using hin), hdata]
      simp [hrest]
    | some data =>
      have hrest : restamp sources targets cite =
          { cite with digest := some (sources.digest_citation cite.path data cite.symbol) } := by
        unfold restamp
        rw [if_pos (by simpa using hin), hdata]
      rw [hrest]
      refine ⟨fun _ => .inr ⟨hin, rfl⟩, fun _ => ⟨data, _, hdata, rfl, ?_⟩⟩
      exact decide_eq_true (.inl rfl)
  · rw [restamp_of_not_mem hin]
    exact ⟨.inl, fun h => h.resolve_right fun h => hin h.1⟩

/-! ## What is cited -/

theorem mem_cited {row : Cited} : row ∈ cited book ↔
    row.page ∈ book.pages ∧ row.node ∈ row.page.nodes ∧ row.bullet ∈ row.node.bullets ∧ row.cite ∈ row.bullet.cites := by
  unfold cited
  simp only [List.mem_flatMap, List.mem_map]
  constructor
  · rintro ⟨page, hpage, node, hnode, bullet, hbullet, cite, hcite, rfl⟩
    exact ⟨hpage, hnode, hbullet, hcite⟩
  · rintro ⟨hpage, hnode, hbullet, hcite⟩
    exact ⟨row.page, hpage, row.node, hnode, row.bullet, hbullet, row.cite, hcite, rfl⟩

theorem forall₂_flatMap_map {α α' γ γ' : Type} {R : γ → γ' → Prop} {f : α → α'} {g : α → List γ}
    {g' : α' → List γ'} (l : List α) (h : ∀ a, List.Forall₂ R (g a) (g' (f a))) :
    List.Forall₂ R (l.flatMap g) ((l.map f).flatMap g') := by
  induction l with
  | nil => exact .nil
  | cons a l ih => exact List.rel_append (h a) ih

/-- A citation before and after the stamps. -/
structure Stamped (sources : Sources β) (book : Book) (pairs : List (Text × Text)) (before after : Cited) : Prop where
  path : after.page.path = before.page.path
  id : after.node.id = before.node.id
  cite : after.cite =
    restamp sources (allowed_targets (targetsOn book pairs before.page) before.bullet.line) before.cite

/-- **A stamp changes the digests of citations and nothing else.** -/
theorem cited_stamped :
    List.Forall₂ (Stamped sources book pairs) (cited book) (cited (stamp_targets sources book pairs)) := by
  refine forall₂_flatMap_map book.pages fun page => ?_
  refine forall₂_flatMap_map page.nodes fun node => ?_
  refine forall₂_flatMap_map node.bullets fun bullet => ?_
  show List.Forall₂ _ _ ((bullet.cites.map _).map _)
  rw [List.map_map, List.forall₂_map_right_iff, List.forall₂_map_left_iff, List.forall₂_same]
  exact fun cite _ => ⟨rfl, rfl, rfl⟩

/-! ## Stale files -/

def StaleFile.key (stale : StaleFile) : Text × Text × Text := (stale.repository, stale.path, stale.digest)

/-- A citation as a node of a stale file. -/
def Cited.staleNode (row : Cited) : StaleNode :=
  { node := row.node.id, page := row.page.path, symbol := row.cite.symbol }

theorem keys_stale_files :
    ((stale_files sources book).map StaleFile.key).Perm ((Dict.group (findings sources book)).map Prod.fst) := by
  unfold stale_files
  rw [List.map_map]
  exact (List.perm_insertionSort _ _).map Prod.fst

theorem nodup_stale_files : (stale_files sources book).Nodup :=
  List.Nodup.of_map _ (keys_stale_files.nodup_iff.2 (Dict.nodup_group _))

theorem mem_stale_files {stale : StaleFile} : stale ∈ stale_files sources book ↔
    ∃ nodes, (stale.key, nodes) ∈ Dict.group (findings sources book) ∧ stale.nodes = nodes.eraseDups := by
  unfold stale_files
  simp only [List.mem_map, List.mem_insertionSort]
  constructor
  · rintro ⟨⟨key, nodes⟩, hgroup, rfl⟩
    exact ⟨nodes, hgroup, rfl⟩
  · rintro ⟨nodes, hgroup, hnodes⟩
    exact ⟨(stale.key, nodes), hgroup, by rw [← hnodes]; rfl⟩

theorem nodup_nodes {stale : StaleFile} (h : stale ∈ stale_files sources book) : stale.nodes.Nodup := by
  obtain ⟨nodes, -, hnodes⟩ := mem_stale_files.1 h
  rw [hnodes]
  exact nodup_eraseDups nodes

/-- Whether a book's stale files list a citation, in the group of its file, repository and digest. -/
def Listed (sources : Sources β) (book : Book) (row : Cited) : Prop :=
  ∃ stale ∈ stale_files sources book, stale.key = row.cite.key ∧ row.staleNode ∈ stale.nodes

/-- **A stale citation is listed.** -/
theorem listed_of_stale {row : Cited} (hrow : row ∈ cited book) (hstale : isStale sources row.cite = true) :
    Listed sources book row := by
  have hfinding : (row.cite.key, row.staleNode) ∈ findings sources book :=
    List.mem_map.2 ⟨row, List.mem_filter.2 ⟨hrow, hstale⟩, rfl⟩
  have hgroup := Dict.mem_group_of_mem hfinding
  refine ⟨{ repository := row.cite.key.1, path := row.cite.key.2.1, digest := row.cite.key.2.2, nodes := _ },
    mem_stale_files.2 ⟨_, hgroup, rfl⟩, rfl, ?_⟩
  exact List.mem_eraseDups.2 (List.mem_map.2 ⟨_, List.mem_filter.2 ⟨hfinding, decide_eq_true rfl⟩, rfl⟩)

/-! ## Readings -/

/-- The verdict that the reading of a file ended with. -/
def Read (sources : Sources β) (verdicts : StaleFile → Option RegroundVerdict) (stale : StaleFile)
    (verdict : RegroundVerdict) : Prop :=
  sources.readable stale.repository stale.path = true ∧
    (stamped_text sources stale.repository stale.path stale.digest
      ((stale.nodes.head?.map (·.symbol)).getD [])).isSome = true ∧
    verdicts stale = some verdict

/-- Whether no commit holds the stamped version of a file. -/
def Lost (sources : Sources β) (stale : StaleFile) : Prop :=
  sources.readable stale.repository stale.path = true ∧
    stamped_text sources stale.repository stale.path stale.digest ((stale.nodes.head?.map (·.symbol)).getD []) = none

/-- Whether a verdict names a node, by any of its numbers. -/
def Names (verdict : RegroundVerdict) (stale : StaleFile) (id : Text) : Prop :=
  ∃ cited number, (cited, number) ∈ stale.nodes.zipIdx ∧ cited.node = id ∧ (wordOn verdict (number + 1)).isSome = true

/-- A problem that is due, and what is to be said. -/
def Due (sources : Sources β) (verdicts : StaleFile → Option RegroundVerdict) (stale : StaleFile) (cited : StaleNode)
    (told : Text) : Prop :=
  Lost sources stale ∧ cited ∈ stale.nodes ∧ told = [] ∨
    ∃ verdict, Read sources verdicts stale verdict ∧
      ∃ number, (cited, number) ∈ stale.nodes.zipIdx ∧ wordOn verdict (number + 1) = some told

/-- What is said of the nodes of a file. -/
def said (sources : Sources β) (verdicts : StaleFile → Option RegroundVerdict) (stale : StaleFile) :
    List (StaleNode × Text) :=
  if !sources.readable stale.repository stale.path then []
  else
    (stamped_text sources stale.repository stale.path stale.digest ((stale.nodes.head?.map (·.symbol)).getD [])).elim
      (unread stale) fun _ => (verdicts stale).elim [] (affected stale)

/-- What one file adds: nothing, the problems of all its nodes, or what its verdict says. -/
theorem settled_cases (sources : Sources β) (verdicts : StaleFile → Option RegroundVerdict) (stale : StaleFile) :
    (said sources verdicts stale = [] ∧ settled sources verdicts stale = ([], []) ∧
      ¬Lost sources stale ∧ ∀ verdict, ¬Read sources verdicts stale verdict) ∨
    (said sources verdicts stale = unread stale ∧ settled sources verdicts stale = (unread_problems stale, []) ∧
      Lost sources stale ∧ ∀ verdict, ¬Read sources verdicts stale verdict) ∨
    ∃ verdict, said sources verdicts stale = affected stale verdict ∧
      settled sources verdicts stale = (affected_problems stale verdict, spared_pairs stale verdict) ∧
      ¬Lost sources stale ∧ ∀ other, Read sources verdicts stale other ↔ other = verdict := by
  unfold said settled Lost Read
  cases hreadable : sources.readable stale.repository stale.path with
  | false => exact .inl ⟨rfl, rfl, by simp, by simp⟩
  | true =>
    cases stamped_text sources stale.repository stale.path stale.digest ((stale.nodes.head?.map (·.symbol)).getD []) with
    | none => exact .inr (.inl ⟨rfl, rfl, by simp, by simp⟩)
    | some blob =>
      cases verdicts stale with
      | none => exact .inl ⟨rfl, rfl, by simp, by simp⟩
      | some verdict => exact .inr (.inr ⟨verdict, rfl, rfl, by simp, by simp [eq_comm]⟩)

theorem problems_settled (stale : StaleFile) :
    (settled sources verdicts stale).1 = (said sources verdicts stale).map fun row => _problem stale row.1 row.2 := by
  obtain ⟨hsaid, hsettled, -⟩ | ⟨hsaid, hsettled, -⟩ | ⟨verdict, hsaid, hsettled, -⟩ :=
    settled_cases sources verdicts stale
  all_goals
    rw [hsaid, hsettled]
    rfl

theorem mem_affected {stale : StaleFile} {verdict : RegroundVerdict} {cited : StaleNode} {told : Text} :
    (cited, told) ∈ affected stale verdict ↔
      ∃ number, (cited, number) ∈ stale.nodes.zipIdx ∧ wordOn verdict (number + 1) = some told :=
  Dict.mem_choose (d := stale.nodes.zipIdx) (f := fun number => wordOn verdict (number + 1))

theorem mem_said {stale : StaleFile} {cited : StaleNode} {told : Text} :
    (cited, told) ∈ said sources verdicts stale ↔ Due sources verdicts stale cited told := by
  obtain ⟨hsaid, -, hlost, hread⟩ | ⟨hsaid, -, hlost, hread⟩ | ⟨verdict, hsaid, -, hlost, hread⟩ :=
    settled_cases sources verdicts stale
  · rw [hsaid]
    refine ⟨fun h => absurd h List.not_mem_nil, ?_⟩
    rintro (⟨h, -⟩ | ⟨verdict, h, -⟩)
    · exact absurd h hlost
    · exact absurd h (hread verdict)
  · rw [hsaid]
    constructor
    · intro h
      obtain ⟨node, hnode, heq⟩ := List.mem_map.1 h
      obtain ⟨rfl, rfl⟩ := Prod.mk.inj heq
      exact .inl ⟨hlost, hnode, rfl⟩
    · rintro (⟨-, hnode, rfl⟩ | ⟨verdict, h, -⟩)
      · exact List.mem_map.2 ⟨cited, hnode, rfl⟩
      · exact absurd h (hread verdict)
  · rw [hsaid, mem_affected]
    constructor
    · exact fun h => .inr ⟨verdict, (hread verdict).2 rfl, h⟩
    · rintro (⟨h, -⟩ | ⟨other, h, hnamed⟩)
      · exact absurd h hlost
      · rw [← (hread other).1 h]
        exact hnamed

theorem keys_said_sublist (stale : StaleFile) : ((said sources verdicts stale).map Prod.fst).Sublist stale.nodes := by
  obtain ⟨hsaid, -⟩ | ⟨hsaid, -⟩ | ⟨verdict, hsaid, -⟩ :=
    settled_cases sources verdicts stale
  · rw [hsaid]
    exact List.nil_sublist _
  · rw [hsaid, unread, List.map_map]
    show List.Sublist (stale.nodes.map id) stale.nodes
    rw [List.map_id]
  · rw [hsaid]
    refine (Dict.keys_choose_sublist (fun number => wordOn verdict (number + 1)) stale.nodes.zipIdx).trans ?_
    rw [List.zipIdx_map_fst]

theorem mem_spared {stale : StaleFile} {pair : Text × Text} :
    pair ∈ (settled sources verdicts stale).2 ↔ ∃ verdict, Read sources verdicts stale verdict ∧
      ∃ cited number, (cited, number) ∈ stale.nodes.zipIdx ∧ wordOn verdict (number + 1) = none ∧
        pair = (cited.node, stale.path) := by
  obtain ⟨-, hsettled, -, hread⟩ | ⟨-, hsettled, -, hread⟩ | ⟨verdict, -, hsettled, -, hread⟩ :=
    settled_cases sources verdicts stale
  · rw [hsettled]
    exact ⟨fun h => absurd h List.not_mem_nil, fun ⟨verdict, h, _⟩ => absurd h (hread verdict)⟩
  · rw [hsettled]
    exact ⟨fun h => absurd h List.not_mem_nil, fun ⟨verdict, h, _⟩ => absurd h (hread verdict)⟩
  · rw [hsettled]
    constructor
    · intro h
      obtain ⟨⟨cited, number⟩, hnode, heq⟩ := List.mem_filterMap.1 h
      split at heq
      · cases heq
      · rename_i hword
        exact ⟨verdict, (hread verdict).2 rfl, cited, number, hnode, by simpa using hword,
          (Option.some.inj heq).symm⟩
    · rintro ⟨other, h, cited, number, hnode, hword, rfl⟩
      rw [(hread other).1 h] at hword
      exact List.mem_filterMap.2 ⟨(cited, number), hnode, by simp [hword]⟩

/-! ## A run -/

theorem get_with_problems (failures : Failures) (problems : List PageProblem) (page : Text) :
    (Dict.get (with_problems failures problems) page).getD [] =
      (Dict.get failures page).getD [] ++ problems.filter fun problem => problem.page = page := by
  have hgroup := Dict.get_foldl_group (problems.map fun problem => (problem.page, problem)) failures page
  rw [List.foldl_map, List.filter_map, List.map_map] at hgroup
  exact hgroup.trans (congrArg _ (List.map_id _))

theorem with_problems_append (failures : Failures) (problems more : List PageProblem) :
    with_problems failures (problems ++ more) = with_problems (with_problems failures problems) more :=
  List.foldl_append

theorem read_change_eq (files : List StaleFile) : ∀ (failures : Failures) (spared : List (Text × Text)),
    read_change sources verdicts files failures spared =
      (with_problems failures (files.flatMap fun stale => (settled sources verdicts stale).1),
        spared ++ files.flatMap fun stale => (settled sources verdicts stale).2) := by
  induction files with
  | nil =>
    intro failures spared
    rw [List.flatMap_nil, List.flatMap_nil, List.append_nil]
    rfl
  | cons stale files ih =>
    intro failures spared
    rw [List.flatMap_cons, List.flatMap_cons, with_problems_append, ← List.append_assoc]
    exact ih _ _

/-- The pairs that the run spares. -/
def spared (sources : Sources β) (verdicts : StaleFile → Option RegroundVerdict) (book : Book) :
    List (Text × Text) :=
  (stale_files sources book).flatMap fun stale => (settled sources verdicts stale).2

theorem reground_failures : (reground sources verdicts book).failures =
    with_problems [] ((stale_files sources book).flatMap fun stale => (settled sources verdicts stale).1) := by
  unfold reground
  rw [read_change_eq]

theorem reground_book : (reground sources verdicts book).book =
    if spared sources verdicts book = [] then book else stamp_targets sources book (spared sources verdicts book) := by
  unfold reground
  rw [read_change_eq]
  rfl

/-- **A run stamps what it spares.** -/
theorem cited_reground : List.Forall₂ (Stamped sources book (spared sources verdicts book)) (cited book)
    (cited (reground sources verdicts book).book) := by
  rw [reground_book]
  split
  · rename_i hnil
    rw [hnil, List.forall₂_same]
    refine fun row _ => ⟨rfl, rfl, ?_⟩
    rw [restamp_of_not_mem]
    exact List.not_mem_nil
  · exact cited_stamped

/-- Whether a stale citation is of a group whose verdict exists and does not name its node. -/
def Cleared (sources : Sources β) (verdicts : StaleFile → Option RegroundVerdict) (book : Book) (row : Cited) : Prop :=
  isStale sources row.cite = true ∧ ∃ stale ∈ stale_files sources book, stale.key = row.cite.key ∧
    ∃ verdict, Read sources verdicts stale verdict ∧ ¬Names verdict stale row.node.id

/-- Whether a verdict spares a node on the line of a citation's node, of a file with the citation's path. -/
def Touched (sources : Sources β) (verdicts : StaleFile → Option RegroundVerdict) (book : Book) (row : Cited) : Prop :=
  ∃ stale ∈ stale_files sources book, stale.path = row.cite.path ∧ ∃ verdict, Read sources verdicts stale verdict ∧
    ∃ cited number, (cited, number) ∈ stale.nodes.zipIdx ∧ wordOn verdict (number + 1) = none ∧
      ∃ other, find_ui_node book cited.node = some (row.page, other) ∧ other.line = row.node.line

/-- Whether everything that the stamps reach is current or cleared. -/
def Whole (sources : Sources β) (verdicts : StaleFile → Option RegroundVerdict) (book : Book) : Prop :=
  ∀ row ∈ cited book, Touched sources verdicts book row →
    (sources.present row.cite.repository row.cite.path).isSome = true →
      Current sources row.cite ∨ Cleared sources verdicts book row

/-- What a run does. -/
structure Regrounds (sources : Sources β) (verdicts : StaleFile → Option RegroundVerdict) (book : Book) : Prop where
  /-- What is current afterwards was so before, or a reading spared it. -/
  honest : List.Forall₂ (fun before after => Current sources after.cite →
      Current sources before.cite ∨ Cleared sources verdicts book before)
    (cited book) (cited (reground sources verdicts book).book)
  /-- What is stale and no reading spared is listed again. -/
  relisted : List.Forall₂ (fun before after => isStale sources before.cite = true →
      ¬Cleared sources verdicts book before → after.cite = before.cite ∧
        Listed sources (reground sources verdicts book).book after)
    (cited book) (cited (reground sources verdicts book).book)
  /-- The failures are one problem for each node that a verdict names or whose file's version is lost. -/
  filed : ∃ dues : List (StaleFile × StaleNode × Text), (dues.map fun due => (due.1, due.2.1)).Nodup ∧
    (∀ stale cited told, (stale, cited, told) ∈ dues ↔
      stale ∈ stale_files sources book ∧ Due sources verdicts stale cited told) ∧
    ∀ page, (Dict.get (reground sources verdicts book).failures page).getD [] =
      (dues.map fun due => _problem due.1 due.2.1 due.2.2).filter fun problem => problem.page = page

theorem targets_spared_iff {row : Cited} :
    Targets book (spared sources verdicts book) row.page row.node row.cite.path ↔ Touched sources verdicts book row := by
  unfold Targets Touched spared
  constructor
  · rintro ⟨pair, hpair, hpath, other, hfound, hline⟩
    obtain ⟨stale, hstale, hpair⟩ := List.mem_flatMap.1 hpair
    obtain ⟨verdict, hread, cited, number, hnode, hword, rfl⟩ := mem_spared.1 hpair
    exact ⟨stale, hstale, hpath, verdict, hread, cited, number, hnode, hword, other, hfound, hline⟩
  · rintro ⟨stale, hstale, hpath, verdict, hread, cited, number, hnode, hword, other, hfound, hline⟩
    refine ⟨(cited.node, stale.path), List.mem_flatMap.2 ⟨stale, hstale, ?_⟩, hpath, other, hfound, hline⟩
    exact mem_spared.2 ⟨verdict, hread, cited, number, hnode, hword, rfl⟩

/-- A citation of the book is stamped if it is touched. -/
theorem mem_targets_iff {row : Cited} (hrow : row ∈ cited book) :
    row.cite.path ∈ allowed_targets (targetsOn book (spared sources verdicts book) row.page) row.bullet.line ↔
      Touched sources verdicts book row := by
  obtain ⟨hpage, hnode, hbullet, -⟩ := mem_cited.1 hrow
  rw [mem_allowed_targets hpage hnode hbullet, targets_spared_iff]

/-- **What is current after a run was so before or is touched.** -/
theorem current_after_iff {before after : Cited} (hbefore : before ∈ cited book)
    (hstamped : Stamped sources book (spared sources verdicts book) before after) :
    Current sources after.cite ↔ Current sources before.cite ∨ Touched sources verdicts book before ∧
      (sources.present before.cite.repository before.cite.path).isSome = true := by
  rw [hstamped.cite, current_restamp, mem_targets_iff hbefore]

theorem Regrounds.whole (h : Regrounds sources verdicts book) : Whole sources verdicts book := by
  intro row hrow htouched hpresent
  have hstamps : List.Forall₂ (Stamped sources book (spared sources verdicts book)) (cited book)
      (cited (reground sources verdicts book).book) := cited_reground
  have hboth := h.honest.mp (fun _ _ hhonest hstamped => And.intro hstamped hhonest) hstamps
  obtain ⟨after, -, hstamped, hhonest⟩ := exists_of_forall₂ hboth.flip row hrow
  exact hhonest ((current_after_iff hrow hstamped).2 (.inr ⟨htouched, hpresent⟩))

/-- **The failures of a run are one problem for each node that is named or whose file's version is lost.** -/
theorem filed : ∃ dues : List (StaleFile × StaleNode × Text), (dues.map fun due => (due.1, due.2.1)).Nodup ∧
    (∀ stale cited told, (stale, cited, told) ∈ dues ↔
      stale ∈ stale_files sources book ∧ Due sources verdicts stale cited told) ∧
    ∀ page, (Dict.get (reground sources verdicts book).failures page).getD [] =
      (dues.map fun due => _problem due.1 due.2.1 due.2.2).filter fun problem => problem.page = page := by
  refine ⟨(stale_files sources book).flatMap fun stale =>
    (said sources verdicts stale).map fun row => (stale, row.1, row.2), ?_, fun stale cited told => ?_, fun page => ?_⟩
  · rw [List.map_flatMap, List.nodup_flatMap]
    constructor
    · intro stale hstale
      rw [List.map_map]
      have hnodes : ((said sources verdicts stale).map Prod.fst).Nodup :=
        (nodup_nodes hstale).sublist (keys_said_sublist stale)
      rw [show (said sources verdicts stale).map ((fun due : StaleFile × StaleNode × Text => (due.1, due.2.1)) ∘
        fun row => (stale, row.1, row.2)) = ((said sources verdicts stale).map Prod.fst).map (Prod.mk stale) by
          rw [List.map_map]; rfl]
      exact hnodes.map fun _ _ h => (Prod.mk.inj h).2
    · refine nodup_stale_files.imp fun hne => ?_
      intro due hdue hdue'
      obtain ⟨row, hrow, rfl⟩ := List.mem_map.1 hdue
      obtain ⟨row', hrow', heq⟩ := List.mem_map.1 hdue'
      obtain ⟨row, -, rfl⟩ := List.mem_map.1 hrow
      obtain ⟨row', -, rfl⟩ := List.mem_map.1 hrow'
      exact hne (Prod.mk.inj heq).1.symm
  · rw [← mem_said, List.mem_flatMap]
    constructor
    · rintro ⟨file, hfile, hmem⟩
      obtain ⟨row, hrow, heq⟩ := List.mem_map.1 hmem
      obtain ⟨hsame, hdue⟩ := Prod.mk.inj heq
      have hdue : row = (cited, told) := hdue
      rw [← hsame, ← hdue]
      exact ⟨hfile, hrow⟩
    · rintro ⟨hfile, hrow⟩
      exact ⟨stale, hfile, List.mem_map.2 ⟨_, hrow, rfl⟩⟩
  · rw [reground_failures, get_with_problems, Dict.get_nil, Option.getD_none, List.nil_append, List.map_flatMap]
    simp only [problems_settled, List.map_map]
    rfl

/-- **Regrounding stamps only what a reading spared, and lists the rest again, just when whatever is cited on the
line of a spared node, of the path it is spared for, is current or cleared itself.** -/
theorem regrounded_iff : Regrounds sources verdicts book ↔ Whole sources verdicts book := by
  refine ⟨Regrounds.whole, fun hwhole => ⟨?_, ?_, filed⟩⟩
  · refine forall₂_imp_mem cited_reground fun before hbefore after _ hstamped hcurrent => ?_
    rcases (current_after_iff hbefore hstamped).1 hcurrent with hcurrent | ⟨htouched, hpresent⟩
    · exact .inl hcurrent
    · exact hwhole before hbefore htouched hpresent
  · refine forall₂_imp_mem cited_reground fun before hbefore after hafter hstamped hstale hcleared => ?_
    have huntouched : ¬Touched sources verdicts book before := fun htouched =>
      (hwhole before hbefore htouched (present_of_stale hstale)).elim (not_current_of_stale hstale) hcleared
    have hsame : after.cite = before.cite := by
      rw [hstamped.cite, restamp_of_not_mem]
      rwa [mem_targets_iff hbefore]
    exact ⟨hsame, listed_of_stale hafter (by rw [hsame]; exact hstale)⟩

end Run

/-! ## A node that cites two symbols of a file -/

namespace Cart

def file : Text := "src/cart.py".toList

/-- The digest of the file as it was. -/
def stamp : Text := "b039222ef427".toList

/-- The old version and the new one, in which `total` rounds. -/
def sources : Sources ℕ where
  present repository path := if repository = [] ∧ path = file then some 1 else none
  readable repository path := repository = [] ∧ path = file
  log repository path := if repository = [] ∧ path = file then [some 1, some 0] else []
  digest_citation _ version symbol :=
    if symbol = "tax".toList then "dfc161a42e2a".toList
    else if symbol = "total".toList then if version = 0 then "b6e4263ac937".toList else "87fbb4565e24".toList
    else if version = 0 then stamp else "867cb6db0021".toList
  digest_file version := if version = 0 then stamp else "867cb6db0021".toList

def total : Citation := { path := file, symbol := "total".toList, digest := some stamp }

def tax : Citation := { path := file, symbol := "tax".toList, digest := some stamp }

def bullet : Bullet := { line := 11, cites := [total, tax] }

def node : Node := { id := "docs/services/shop/cart.md#checkout".toList, line := 7, bullets := [bullet] }

def page : Page where
  path := "docs/services/shop/cart.md".toList
  nodes := [node]
  lines := 12
  own := by decide

def book : Book where
  pages := [page]
  apart := List.nodup_singleton _

/-- The change bears on `total`, the first number, alone. -/
def verdict : RegroundVerdict := [{ node := 1, instruction := "the total is rounded now".toList }]

def stale : StaleFile where
  path := file
  digest := stamp
  nodes := [{ node := node.id, page := page.path, symbol := "total".toList },
    { node := node.id, page := page.path, symbol := "tax".toList }]

theorem stale_files_eq : stale_files sources book = [stale] := by decide

end Cart

/-- The verdict names the node for one of its two symbols, and both are stamped. -/
theorem two_symbols_stamped : ¬Regrounds Cart.sources (fun _ => some Cart.verdict) Cart.book := by
  intro h
  have hrow : ({ page := Cart.page, node := Cart.node, bullet := Cart.bullet, cite := Cart.total } : Cited) ∈
      cited Cart.book :=
    mem_cited.2 ⟨List.mem_singleton_self _, List.mem_singleton_self _, List.mem_singleton_self _, List.mem_cons_self⟩
  have hread : Read Cart.sources (fun _ => some Cart.verdict) Cart.stale Cart.verdict := ⟨by decide, by decide, rfl⟩
  have hin : Cart.stale ∈ stale_files Cart.sources Cart.book := by
    rw [Cart.stale_files_eq]
    exact List.mem_singleton_self _
  -- the second number is spared, under the same node and path
  have htouched := h.whole _ hrow ⟨Cart.stale, hin, rfl, Cart.verdict, hread,
    { node := Cart.node.id, page := Cart.page.path, symbol := "tax".toList }, 1, by decide, by decide,
    Cart.node, rfl, rfl⟩ rfl
  rcases htouched with hcurrent | ⟨-, stale, hstale, -, verdict, hread, hnames⟩
  · exact not_current_of_stale (by decide) hcurrent
  · rw [Cart.stale_files_eq, List.mem_singleton] at hstale
    obtain rfl : Cart.verdict = verdict := Option.some.inj hread.2.2
    subst hstale
    exact hnames ⟨{ node := Cart.node.id, page := Cart.page.path, symbol := "total".toList }, 0, by decide, rfl,
      by decide⟩

end Stablemate.Reground
