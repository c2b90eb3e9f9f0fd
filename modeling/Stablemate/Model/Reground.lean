import Mathlib.Data.Char
import Mathlib.Data.List.Lex
import Mathlib.Data.List.Sort
import Stablemate.Lib.Dict
import Stablemate.Model.Text

/-!
# Regrounding a book (`okf_book/main/nodes/stale_citations.py`, `reground_book_flow.py`, `ostler/stamp.py`)

* `Book`: pages of nodes, with the citations of their `code:` bullets.
* `stale_files`: the changed files that are cited, by repository, path and stamped digest.
* `stamp_targets`: stamps by page, line range and path.
* `read_change`: one reading for each changed file.

How a page is parsed into nodes and bullets, and written again, is left out: a stamp changes the digests of a bullet's
citations and nothing else. Digests, trees, the history of a path and the verdicts are parameters.
-/

namespace Stablemate.Reground

structure Citation where
  /-- Empty for the book's own. -/
  repository : Text := []
  path : Text
  symbol : Text := []
  digest : Option Text
deriving DecidableEq

/-- A `code:` bullet. -/
structure Bullet where
  line : ℕ
  cites : List Citation
deriving DecidableEq

structure Node where
  id : Text
  /-- The line of its heading. -/
  line : ℕ
  /-- The bullets of its own text. -/
  bullets : List Bullet
deriving DecidableEq

structure Page where
  path : Text
  nodes : List Node
  /-- How many lines it has. -/
  lines : ℕ
  /-- The own text of a node is in front of the next heading. -/
  own : ∀ node ∈ nodes, ∀ bullet ∈ node.bullets, node.line ≤ bullet.line ∧ bullet.line ≤ lines ∧
    ∀ other ∈ nodes, node.line < other.line → bullet.line < other.line

structure Book where
  pages : List Page
  apart : (pages.map (·.path)).Nodup

/-- What is outside of the book. -/
structure Sources (β : Type) where
  /-- The file of a citation, in the tree that `ostler` finds for its repository. -/
  present : Text → Text → Option β
  /-- Whether the file is in the tree of `repository_root`. -/
  readable : Text → Text → Bool
  /-- The file at the commits of `git log` of its path, where `git show` finds it. -/
  log : Text → Text → List (Option β)
  digest_citation : Text → β → Text → Text
  digest_file : β → Text

def HISTORY_DEPTH : ℕ := 200

structure StaleNode where
  node : Text
  page : Text
  symbol : Text := []
deriving DecidableEq

structure StaleFile where
  path : Text
  digest : Text
  repository : Text := []
  nodes : List StaleNode
deriving DecidableEq

structure AffectedNode where
  node : ℤ
  instruction : Text := []

abbrev RegroundVerdict := List AffectedNode

structure PageProblem where
  page : Text
  text : Text
deriving DecidableEq

abbrev Failures := List (Text × List PageProblem)

section Reground

variable {β : Type} (sources : Sources β)

def citation_is_fresh (path : Text) (data : β) (symbol digest : Text) : Bool :=
  digest = sources.digest_citation path data symbol ∨ digest = sources.digest_file data

/-! ## Stale files -/

/-- Whether the doctor finds a citation stale. -/
def isStale (cite : Citation) : Bool :=
  match sources.present cite.repository cite.path, cite.digest with
  | some data, some digest => !citation_is_fresh sources cite.path data cite.symbol digest
  | _, _ => false

/-- A citation, and where it stands. -/
structure Cited where
  page : Page
  node : Node
  bullet : Bullet
  cite : Citation

def cited (book : Book) : List Cited :=
  book.pages.flatMap fun page => page.nodes.flatMap fun node => node.bullets.flatMap fun bullet =>
    bullet.cites.map fun cite => { page, node, bullet, cite }

/-- What a citation is grouped by. -/
def Citation.key (cite : Citation) : Text × Text × Text := (cite.repository, cite.path, cite.digest.getD [])

/-- The stale findings, by their keys. -/
def findings (book : Book) : List ((Text × Text × Text) × StaleNode) :=
  ((cited book).filter fun row => isStale sources row.cite).map fun row =>
    (row.cite.key, { node := row.node.id, page := row.page.path, symbol := row.cite.symbol })

def stale_files (book : Book) : List StaleFile :=
  ((Dict.group (findings sources book)).insertionSort fun a b =>
    [a.1.1, a.1.2.1, a.1.2.2] ≤ [b.1.1, b.1.2.1, b.1.2.2]).map fun group =>
      { repository := group.1.1, path := group.1.2.1, digest := group.1.2.2, nodes := group.2.eraseDups }

def stamped_text (repository path digest symbol : Text) : Option β :=
  (((sources.log repository path).take HISTORY_DEPTH).reduceOption).find? fun blob =>
    citation_is_fresh sources path blob symbol digest

/-! ## Verdicts -/

def _problem (stale : StaleFile) (cited : StaleNode) (instruction : Text) : PageProblem :=
  let told :=
    if instruction = [] then "read the file again and correct what this node claims of it".toList else instruction
  { page := cited.page, text := cited.node ++ ": \x60".toList ++ stale.path ++
      "\x60 changed since this node cited it, and the change bears on the node: ".toList ++ told }

/-- The nodes a problem is said of, and what is said. -/
def unread (stale : StaleFile) : List (StaleNode × Text) := stale.nodes.map fun cited => (cited, [])

/-- The last word of a verdict on a number. -/
def wordOn (verdict : RegroundVerdict) (number : ℕ) : Option Text :=
  (verdict.reverse.find? fun affected => affected.node = (number : ℤ)).map (·.instruction)

/-- The nodes that a verdict names, by their numbers. -/
def affected (stale : StaleFile) (verdict : RegroundVerdict) : List (StaleNode × Text) :=
  stale.nodes.zipIdx.filterMap fun row => (wordOn verdict (row.2 + 1)).map fun instruction => (row.1, instruction)

def unread_problems (stale : StaleFile) : List PageProblem := (unread stale).map fun row => _problem stale row.1 row.2

def affected_problems (stale : StaleFile) (verdict : RegroundVerdict) : List PageProblem :=
  (affected stale verdict).map fun row => _problem stale row.1 row.2

def spared_pairs (stale : StaleFile) (verdict : RegroundVerdict) : List (Text × Text) :=
  stale.nodes.zipIdx.filterMap fun row =>
    if (wordOn verdict (row.2 + 1)).isSome then none else some (row.1.node, stale.path)

def with_problems (failures : Failures) (problems : List PageProblem) : Failures :=
  problems.foldl (fun merged problem =>
    Dict.set merged problem.page ((Dict.get merged problem.page).getD [] ++ [problem])) failures

/-! ## Stamps -/

/-- The next node's line, or the end of the page. -/
def node_line_range (page : Page) (node : Node) : ℕ × ℕ :=
  (node.line, (((page.nodes.map (·.line)).filter (node.line < ·)).min?).getD (page.lines + 1))

/-- `find_ui_node`: the first node with an id, and its page. -/
def find_ui_node (book : Book) (id : Text) : Option (Page × Node) :=
  (book.pages.flatMap fun page => page.nodes.map fun node => (page, node)).find? fun row => row.2.id = id

/-- The pages of some pairs, with the line range and the path of each. -/
def targetsOf (book : Book) (pairs : List (Text × Text)) : List (Text × (ℕ × ℕ) × Text) :=
  pairs.filterMap fun pair => (find_ui_node book pair.1).map fun found =>
    (found.1.path, node_line_range found.1 found.2, pair.2)

/-- `only_targets` of the first of a page's ranges that holds a line; nothing where no range does. -/
def allowed_targets (targets : List ((ℕ × ℕ) × Text)) (line : ℕ) : List Text :=
  ((targets.map (·.1)).find? fun range => range.1 ≤ line ∧ line < range.2).elim [] fun range =>
    (targets.filter fun target => target.1 = range).map (·.2)

/-- `digest_for`: a citation with the digest of its file, if the path is a target and the file is there. -/
def restamp (targets : List Text) (cite : Citation) : Citation :=
  if targets.contains cite.path then
    match sources.present cite.repository cite.path with
    | none => cite
    | some data => { cite with digest := some (sources.digest_citation cite.path data cite.symbol) }
  else cite

def Bullet.stamped (targets : List ((ℕ × ℕ) × Text)) (bullet : Bullet) : Bullet :=
  { bullet with cites := bullet.cites.map (restamp sources (allowed_targets targets bullet.line)) }

def Node.stamped (targets : List ((ℕ × ℕ) × Text)) (node : Node) : Node :=
  { node with bullets := node.bullets.map (Bullet.stamped sources targets) }

def stamp_page (page : Page) (targets : List ((ℕ × ℕ) × Text)) : Page where
  path := page.path
  nodes := page.nodes.map (Node.stamped sources targets)
  lines := page.lines
  own node hnode bullet hbullet := by
    obtain ⟨old, hold, rfl⟩ := List.mem_map.1 hnode
    obtain ⟨b, hb, rfl⟩ := List.mem_map.1 hbullet
    obtain ⟨hfrom, hto, hnext⟩ := page.own old hold b hb
    refine ⟨hfrom, hto, fun other hother => ?_⟩
    obtain ⟨o, ho, rfl⟩ := List.mem_map.1 hother
    exact hnext o ho

/-- The targets on one page. -/
def targetsOn (book : Book) (pairs : List (Text × Text)) (page : Page) : List ((ℕ × ℕ) × Text) :=
  ((targetsOf book pairs).filter fun target => target.1 = page.path).map (·.2)

def stamp_targets (book : Book) (pairs : List (Text × Text)) : Book where
  pages := book.pages.map fun page => stamp_page sources page (targetsOn book pairs page)
  apart := by
    rw [List.map_map]
    exact book.apart

/-! ## The run -/

/-- What one changed file adds to the problems and to the spared pairs. -/
def settled (verdicts : StaleFile → Option RegroundVerdict) (stale : StaleFile) :
    List PageProblem × List (Text × Text) :=
  if !sources.readable stale.repository stale.path then ([], [])
  else
    match stamped_text sources stale.repository stale.path stale.digest ((stale.nodes.head?.map (·.symbol)).getD []) with
    | none => (unread_problems stale, [])
    | some _ =>
      match verdicts stale with
      | none => ([], [])
      | some verdict => (affected_problems stale verdict, spared_pairs stale verdict)

/-- `read_change` of the files from a position on. -/
def read_change (verdicts : StaleFile → Option RegroundVerdict) :
    List StaleFile → Failures → List (Text × Text) → Failures × List (Text × Text)
  | [], failures, spared => (failures, spared)
  | stale :: files, failures, spared =>
    let (problems, pairs) := settled sources verdicts stale
    read_change verdicts files (with_problems failures problems) (spared ++ pairs)

structure Regrounded where
  failures : Failures
  /-- The book with the stamps of what is spared. -/
  book : Book

/-- The run; nothing is stamped where nothing is spared. -/
def reground (verdicts : StaleFile → Option RegroundVerdict) (book : Book) : Regrounded :=
  let (failures, spared) := read_change sources verdicts (stale_files sources book) [] []
  { failures, book := if spared = [] then book else stamp_targets sources book spared }

end Reground

end Stablemate.Reground
