import Mathlib.Data.Char
import Mathlib.Data.List.Dedup
import Mathlib.Data.List.Lex
import Mathlib.Data.List.Sort
import Mathlib.Data.Prod.Lex
import Stablemate.Lib.Dict
import Stablemate.Lib.Memo
import Stablemate.Model.Reach

/-!
# Locators (`ostler/locators.py`)

* `_scopes`: the iteration variables that are in scope at a node.
* `compile_template`, `name_pattern`: a name with holes, and the pattern of the names it stands for.
* `locator_for`: how a node is found.
* `collisions`: the nodes of a screen that cannot be told apart.

`isWord` tells the characters of `\w`. Of a node the fields are kept that these functions read, and
the call that a locator prints is left out. A set is the list of its elements.
-/

namespace Stablemate.Locators

structure Node where
  id : Text
  type : Text
  parent : Text
  bullets : List (Text × List Text)
deriving DecidableEq

structure Edge where
  via : Text
  from_ : Text
  to_ : Text
deriving DecidableEq

/-- A dump, whose nodes have distinct ids. -/
structure Data where
  nodes : List Node
  edges : List Edge
  unique : (nodes.map Node.id).Nodup

/-! ## Bullets -/

def _stated_none (value : Text) : Bool := Text.lower (Text.strip value) ∈ Reach.NONE_TOKENS

def _raw_bullet (node : Node) (key : Text) : Text :=
  match (Dict.get node.bullets key).getD [] with
  | value :: _ => Text.strip value
  | [] => []

/-- One bullet's value, without the marks of a code span around it. -/
def _bullet (node : Node) (key : Text) : Text :=
  let text := _raw_bullet node key
  if 1 < text.length ∧ text.head? = some '\x60' ∧ text.getLast? = some '\x60' then Text.strip (text.drop 1).dropLast else text

/-- The first code span, or what stands before a dash. -/
def _machine (text : Text) : Text :=
  let text := Text.strip text
  let inner := (text.dropWhile (· ≠ '\x60')).drop 1
  let span := inner.takeWhile (· ≠ '\x60')
  if span.length < inner.length then Text.strip span else Text.strip (Refs.partition " — ".toList text).1

/-- `_IDENT_RE` -/
def isIdent (isWord : Char → Bool) : Text → Bool
  | c :: cs => (('A' ≤ c && c ≤ 'Z') || ('a' ≤ c && c ≤ 'z') || c = '_') && cs.all isWord
  | [] => false

/-- `_PATH_RE` -/
def isPath (isWord : Char → Bool) (text : Text) : Bool := (text.splitOn '.').all (isIdent isWord)

/-- The node's own iteration variable, or nothing. -/
def repeat_of (isWord : Char → Bool) (node : Node) : Text :=
  let text := _machine (_raw_bullet node "one-per".toList)
  if isIdent isWord text ∧ ¬ _stated_none text then text else []

/-! ## Scopes -/

/-- The variable of the node with this id, as a list of at most one. -/
def ownOf (isWord : Char → Bool) (nodes : List Node) (id : Text) : List Text :=
  ((nodes.filter fun node => node.id = id).map (repeat_of isWord)).filter (· ≠ [])

/-- Every node's iteration variables, outermost first; nothing when the fuel runs out. -/
def _scopes (isWord : Char → Bool) (nodes : List Node) (parents : Text → List Text) : Option (List (Text × List Text)) :=
  Memo.run (nodes.map Node.id) parents (ownOf isWord nodes) (nodes.length + 1) (nodes.map Node.id) []

/-- The parents of a node: the one it stands under, and those of its `parent` edges. -/
def parentsOf (data : Data) (id : Text) : List Text :=
  (((data.nodes.filter fun node => node.id = id).map Node.parent).filter (· ≠ [])) ++
    ((data.edges.filter fun edge => edge.via = "parent".toList ∧ edge.from_ = id).map Edge.to_)

/-! ## Templates -/

/-- A piece of a name: a text, a path that the scope binds, or an expression. -/
inductive Segment where
  | literal (value : Text)
  | bind (value : Text)
  | other (value : Text)
deriving DecidableEq

def Segment.value : Segment → Text
  | .literal value => value
  | .bind value => value
  | .other value => value

def Segment.isLiteral : Segment → Bool
  | .literal _ => true
  | _ => false

/-- What stands before a closing brace and after it. -/
def closing (text : Text) : Option (Text × Text) :=
  let inside := text.takeWhile fun c => c ≠ '\x7b' ∧ c ≠ '\x7d'
  match text.drop inside.length with
  | '\x7d' :: rest => some (inside, rest)
  | _ => none

/-- A hole at the start of a text: its marks, what is inside, and the rest. -/
def holeAt : Text → Option (Text × Text × Text)
  | '$' :: '\x7b' :: cs => (closing cs).map fun r => ("$\x7b".toList, r.1, r.2)
  | '\x7b' :: cs => (closing cs).map fun r => (['\x7b'], r.1, r.2)
  | _ => none

/-- A literal, or a hole with its marks. -/
inductive Found where
  | text (value : Text)
  | hole (mark inside : Text)
deriving DecidableEq

def flush (lit : Text) : List Found := if lit ≠ [] then [.text lit] else []

theorem length_closing {text inside rest : Text} (h : closing text = some (inside, rest)) : rest.length < text.length := by
  unfold closing at h
  dsimp only at h
  split at h
  · rename_i heq
    obtain ⟨-, rfl⟩ := Prod.mk.inj (Option.some.inj h)
    have hlen := congrArg List.length heq
    rw [List.length_drop, List.length_cons] at hlen
    omega
  · cases h

theorem length_holeAt {text mark inside rest : Text} (h : holeAt text = some (mark, inside, rest)) : rest.length < text.length := by
  unfold holeAt at h
  split at h
  · obtain ⟨⟨inside', rest'⟩, hclose, heq⟩ := Option.map_eq_some_iff.1 h
    obtain ⟨-, -, rfl⟩ := heq
    have hlt := length_closing hclose
    rw [List.length_cons, List.length_cons]
    dsimp only
    omega
  · obtain ⟨⟨inside', rest'⟩, hclose, heq⟩ := Option.map_eq_some_iff.1 h
    obtain ⟨-, -, rfl⟩ := heq
    have hlt := length_closing hclose
    rw [List.length_cons]
    dsimp only
    omega
  · cases h

/-- `_HOLE_RE.finditer`, with the texts between the matches; `lit` is the text that is being read. -/
def scan (lit text : Text) : List Found :=
  match _hhole : holeAt text with
  | some (mark, inside, rest) => flush lit ++ .hole mark inside :: scan [] rest
  | none =>
    match text with
    | [] => flush lit
    | c :: cs => scan (lit ++ [c]) cs
termination_by text.length
decreasing_by
  · exact length_holeAt _hhole
  · exact Nat.lt_succ_self _

structure CompiledName where
  template : Text
  segments : List Segment
  binds : List Text
  malformed : Bool
deriving DecidableEq

def hasBrace (text : Text) : Bool := '\x7b' ∈ text || '\x7d' ∈ text

/-- The segment that a match or a text between two becomes. -/
def segmentOf (isWord : Char → Bool) (scope : List Text) : Found → Segment
  | .text value => .literal value
  | .hole _ inside =>
    let hole := Text.strip inside
    if isPath isWord hole ∧ (hole.splitOn '.').headD [] ∈ scope then .bind hole else .other hole

def Found.isHole : Found → Bool
  | .hole _ _ => true
  | .text _ => false

/-- The segments of a name, or nothing when it has no hole. -/
def compile_template (isWord : Char → Bool) (name : Text) (scope : List Text) : Option CompiledName :=
  let found := scan [] name
  if found.any Found.isHole then
    let segments := found.map (segmentOf isWord scope)
    some
      { template := name
        segments := segments
        binds := segments.filterMap fun s => match s with
          | .bind value => some value
          | _ => none
        malformed := segments.any fun s => s.isLiteral && hasBrace s.value }
  else if hasBrace name then some ⟨name, [.literal name], [], true⟩
  else none

/-- A piece of a pattern: an escaped text, or `.*`. -/
inductive Piece where
  | text (value : Text)
  | any
deriving DecidableEq

def name_pattern (segments : List Segment) : List Piece :=
  segments.map fun s => if s.isLiteral then .text s.value else .any

/-- `re.fullmatch`; a dot matches every character but a newline. -/
def fullmatch : List Piece → Text → Bool
  | [], text => text = []
  | .text value :: ps, text => value.isPrefixOf text && fullmatch ps (text.drop value.length)
  | .any :: ps, text =>
    (List.range (text.length + 1)).any fun n => (text.take n).all (· ≠ '\n') && fullmatch ps (text.drop n)

/-! ## Locators -/

structure RepeatTemplate where
  template : Text
  iterates : Text
  segments : List Segment
deriving DecidableEq

/-- How a node is found. -/
inductive Locator where
  | template (role name : Text) (template : RepeatTemplate) (binds : List Text)
  | role (role name : Text)
  | scheme (scheme value : Text)
  | css (selector : Text)
  | none
deriving DecidableEq

def ARIA_ROLES : List Text :=
  ["alert", "alertdialog", "application", "article", "banner", "blockquote", "button", "caption", "cell", "checkbox", "code",
    "columnheader", "combobox", "complementary", "contentinfo", "definition", "deletion", "dialog", "directory", "document",
    "emphasis", "feed", "figure", "form", "generic", "grid", "gridcell", "group", "heading", "img", "insertion", "link", "list",
    "listbox", "listitem", "log", "main", "marquee", "math", "menu", "menubar", "menuitem", "menuitemcheckbox", "menuitemradio",
    "meter", "navigation", "none", "note", "option", "paragraph", "presentation", "progressbar", "radio", "radiogroup", "region",
    "row", "rowgroup", "rowheader", "scrollbar", "search", "searchbox", "separator", "slider", "spinbutton", "status", "strong",
    "subscript", "superscript", "switch", "tab", "table", "tablist", "tabpanel", "term", "textbox", "time", "timer", "toolbar",
    "tooltip", "tree", "treegrid", "treeitem"].map String.toList

/-- `parse_scheme_selector`, for the one scheme that is known. -/
def parse_scheme_selector (selector : Text) : Option (Text × Text) :=
  let value := selector.drop 7
  if "testID=".toList.isPrefixOf selector ∧ value ≠ [] ∧ '\n' ∉ value then some ("testID".toList, value) else none

/-- A role that is one. -/
def knownRole (node : Node) : Text :=
  let role := _bullet node "role".toList
  if _stated_none role ∨ Text.lower role ∉ ARIA_ROLES then [] else role

def locator_for (isWord : Char → Bool) (node : Node) (scope : List Text) : Locator :=
  let role := knownRole node
  let name := _bullet node "name".toList
  let selector := _bullet node "selector".toList
  if role ≠ [] then
    let compiled := if scope ≠ [] ∧ ¬ _stated_none name then compile_template isWord name scope else none
    match compiled.filter fun c => ¬ c.malformed with
    | some c => .template role name ⟨name, scope.getLastD [], c.segments⟩ c.binds
    | none => .role role (if _stated_none name then [] else name)
  else if selector ≠ [] then
    match parse_scheme_selector selector with
    | some (scheme, value) => .scheme scheme value
    | none => .css selector
  else .none

/-- The identity keys that a node states more than once. -/
def malformed_identity (bullets : List (Text × List Text)) : List Text :=
  ["role".toList, "name".toList].filter fun key => 1 < ((Dict.get bullets key).getD []).length

/-! ## Collisions -/

structure LocatorBook where
  locatables : List (Text × Node)
  scopes : List (Text × List Text)
  exclusive : List (Text × Text)

/-- The screen that a node is on. -/
def screenOf (node : Node) : Text := Reach.fileOf node.id

def LocatorBook.parse (isWord : Char → Bool) (data : Data) : Option LocatorBook :=
  (_scopes isWord data.nodes (parentsOf data)).map fun scopes =>
    { locatables := (data.nodes.filter fun node => node.type = "component".toList ∨ node.type = "interaction".toList).map
        fun node => (screenOf node, node)
      scopes := scopes
      exclusive := (data.edges.filter fun edge => edge.via = "exclusive-with".toList).map fun edge => (edge.from_, edge.to_) }

structure LocatorCollision where
  screen : Text
  role : Text
  name : Text
  nodes : List Text
  template : Text := []
deriving DecidableEq

/-- Whether a template carries literal text. -/
def _constrains (segments : List Segment) : Bool := segments.any fun s => s.isLiteral && Text.strip s.value ≠ []

/-- Screen, role, name and selector. -/
abbrev Key := Text × Text × Text × Text

/-- The locator that a component is compared by. -/
def locatorOf (isWord : Char → Bool) (book : LocatorBook) (node : Node) : Locator :=
  locator_for isWord node ((Dict.get book.scopes node.id).getD [])

/-- The components whose identity is stated once. -/
def compared (book : LocatorBook) : List (Text × Node) :=
  book.locatables.filter fun item => item.2.type = "component".toList ∧ malformed_identity item.2.bullets = []

/-- The group that a component goes to, when its locator is a role. -/
def groupKey (isWord : Char → Bool) (book : LocatorBook) (item : Text × Node) : Option (Key × Node) :=
  match locatorOf isWord book item.2 with
  | .role role name => some ((item.1, role, name, if name ≠ [] then [] else _bullet item.2 "selector".toList), item.2)
  | _ => none

def groups (isWord : Char → Bool) (book : LocatorBook) : List (Key × List Node) :=
  Dict.group ((compared book).filterMap (groupKey isWord book))

/-- The screen and role of a component with a template that carries literal text. -/
def templateKey (isWord : Char → Bool) (book : LocatorBook) (item : Text × Node) :
    Option ((Text × Text) × Node × RepeatTemplate) :=
  match locatorOf isWord book item.2 with
  | .template role _ template _ => if _constrains template.segments then some ((item.1, role), item.2, template) else none
  | _ => none

def templated (isWord : Char → Bool) (book : LocatorBook) : List ((Text × Text) × List (Node × RepeatTemplate)) :=
  Dict.group ((compared book).filterMap (templateKey isWord book))

def isExclusive (exclusive : List (Text × Text)) (a b : Text) : Bool := (a, b) ∈ exclusive || (b, a) ∈ exclusive

/-- `_live`: the ids that are not exclusive with every other one. -/
def _live (exclusive : List (Text × Text)) : List Text → List Text
  | [] => []
  | a :: rest => ((rest.filter fun b => ¬ isExclusive exclusive a b).flatMap fun b => [a, b]) ++ _live exclusive rest

/-- `sorted(_live(ids))` -/
def conflicting (exclusive : List (Text × Text)) (ids : List Text) : List Text :=
  (_live exclusive ids).dedup.insertionSort (· ≤ ·)

/-- `sorted(groups.items())` -/
def sortedGroups (isWord : Char → Bool) (book : LocatorBook) : List (Key × List Node) :=
  (groups isWord book).insertionSort fun a b =>
    toLex (a.1.1, toLex (a.1.2.1, toLex (a.1.2.2.1, a.1.2.2.2))) ≤ toLex (b.1.1, toLex (b.1.2.1, toLex (b.1.2.2.1, b.1.2.2.2)))

/-- The collisions of nodes that share a role and a name. -/
def sameNames (isWord : Char → Bool) (book : LocatorBook) : List LocatorCollision :=
  (sortedGroups isWord book).filterMap fun g =>
    let ids := conflicting book.exclusive (g.2.map Node.id)
    if g.2.length < 2 ∨ ids.length < 2 then none else some { screen := g.1.1, role := g.1.2.1, name := g.1.2.2.1, nodes := ids }

/-- The collision of a template with a group of names, if there is one. -/
def templateCollision (exclusive : List (Text × Text)) (key : Text × Text) (item : Node × RepeatTemplate) (g : Key × List Node) :
    Option LocatorCollision :=
  if (g.1.1, g.1.2.1) ≠ key ∨ g.1.2.2.1 = [] ∨ ¬ fullmatch (name_pattern item.2.segments) g.1.2.2.1 then none
  else
    let ids := conflicting exclusive (item.1.id :: g.2.map Node.id)
    if ids.length < 2 ∨ item.1.id ∉ ids then none
    else some { screen := key.1, role := key.2, name := g.1.2.2.1, nodes := ids, template := item.2.template }

/-- The collisions of a template with the names it matches. -/
def templateNames (isWord : Char → Bool) (book : LocatorBook) : List LocatorCollision :=
  ((templated isWord book).insertionSort fun a b => toLex a.1 ≤ toLex b.1).flatMap fun entry =>
    entry.2.flatMap fun item => (sortedGroups isWord book).filterMap (templateCollision book.exclusive entry.1 item)

/-- Nodes sharing a screen, a role and an accessible name. -/
def collisions (isWord : Char → Bool) (book : LocatorBook) : List LocatorCollision :=
  sameNames isWord book ++ templateNames isWord book

end Stablemate.Locators
