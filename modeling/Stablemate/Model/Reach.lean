import Mathlib.Data.Char
import Mathlib.Data.List.Lex
import Mathlib.Data.List.MinMax
import Mathlib.Data.List.Sort
import Mathlib.Data.Prod.Lex
import Stablemate.Lib.Bfs
import Stablemate.Lib.Dict
import Stablemate.Model.Refs

/-!
# Reaching a screen (`ostler/reach.py`)

* `navigation_edges`: the transitions between screens that a dump documents.
* `route`, `reachable_from`: a shortest click-path, and all that clicks lead to.
* `literal_entries`, `_through_a_door`: the screens a browser can open, and the best one to start from.
* `reachability_in`: a route for each screen of a surface.

The links of a text are a parameter, for they come from a Markdown parser, and so is what
`surface_root` and `root_path` say about a surface. Of a node the fields are kept that these functions
read; a set is the list of its elements.
-/

namespace Stablemate.Reach

/-- A bullet's value: one text, or a list of them. -/
inductive Value where
  | one (text : Text)
  | many (texts : List Text)
deriving DecidableEq

structure NodeEdge where
  via : Text
  to_ : Text
  text : Text
deriving DecidableEq

structure Node where
  id : Text
  type : Text
  kind : Text
  title : Text
  parent : Text
  bullets : List (Text × Value)
  edges : List NodeEdge
deriving DecidableEq

abbrev Nodes := List (Text × Node)

/-- `{n["id"]: n for n in data["nodes"]}` -/
def byId (nodes : List Node) : Nodes := nodes.foldl (fun d n => Dict.set d n.id n) []

/-! ## Bullets -/

/-- `_values` -/
def _values : Value → List Text
  | .many texts => texts
  | .one text => if Text.strip text ≠ [] then [text] else []

def NONE_TOKENS : List Text :=
  ["none".toList, "n/a".toList, "n.a.".toList, "na".toList, "-".toList, "—".toList, "–".toList, []]

def _is_none (raw : Text) : Bool :=
  Text.lower (Text.strip ((Text.strip raw).takeWhile fun c => c ∉ ['—', ':', '('])) ∈ NONE_TOKENS

/-- Where the next run of exactly `run_len` backticks stands. -/
def _closing_backtick_run (run_len pos : ℕ) (text : Text) : Option ℕ :=
  match text with
  | [] => none
  | c :: cs =>
    if c = '\x60' then
      let run := (cs.takeWhile (· = '\x60')).length + 1
      if run = run_len then some pos
      else _closing_backtick_run run_len (pos + run) (cs.dropWhile (· = '\x60'))
    else _closing_backtick_run run_len (pos + 1) cs
termination_by text.length
decreasing_by
  all_goals first
    | exact Nat.lt_succ_of_le (List.dropWhile_sublist _).length_le
    | exact Nat.lt_succ_self _

/-- Where the first colon outside every code span stands. -/
def label_colon_index (pos : ℕ) (text : Text) : Option ℕ :=
  match text with
  | [] => none
  | c :: cs =>
    if c = ':' then some pos
    else if c = '\x60' then
      let run := (cs.takeWhile (· = '\x60')).length + 1
      let rest := cs.dropWhile (· = '\x60')
      match _closing_backtick_run run 0 rest with
      | some close => label_colon_index (pos + run + close + run) (rest.drop (close + run))
      | none => label_colon_index (pos + 1) cs
    else label_colon_index (pos + 1) cs
termination_by text.length
decreasing_by
  all_goals first
    | exact Nat.lt_succ_of_le (((List.drop_sublist _ _).trans (List.dropWhile_sublist _)).length_le)
    | exact Nat.lt_succ_self _

structure Guard where
  text : Text
  node : Text
deriving DecidableEq

structure Param where
  name : Text
  text : Text
  from_ : Text
deriving DecidableEq

structure Preconditions where
  declared : Bool
  guards : List Guard
  params : List Param
deriving DecidableEq

/-- The first link's target. `links` is `extract_refs(…).links`. -/
def firstHref (links : Text → List (Text × Text)) (text : Text) : Text := ((links text).head?.map Prod.snd).getD []

def Guard.read (links : Text → List (Text × Text)) (raw : Text) : Guard := ⟨Text.strip raw, firstHref links raw⟩

def Param.read (links : Text → List (Text × Text)) (raw : Text) : Param :=
  let (name, source) := match label_colon_index 0 raw with
    | some idx => (raw.take idx, raw.drop (idx + 1))
    | none => (raw, [])
  ⟨Text.strip name, Text.strip source, firstHref links source⟩

/-- What is stated under `key` that asks for something. -/
def stated (meta_ : List (Text × Value)) (key : Text) : List Text :=
  (_values ((Dict.get meta_ key).getD (.one []))).filter fun raw => ¬ _is_none raw

/-- What a caller must satisfy before a screen with these bullets can render. -/
def preconditions (links : Text → List (Text × Text)) (meta_ : List (Text × Value)) : Preconditions where
  declared := (Dict.get meta_ "requires".toList).isSome && (Dict.get meta_ "params".toList).isSome
  guards := (stated meta_ "requires".toList).map (Guard.read links)
  params := (stated meta_ "params".toList).map (Param.read links)

/-! ## Edges -/

inductive EdgeKind where
  | leadsTo
  | flowStep
deriving DecidableEq

structure Edge where
  from_ : Text
  to_ : Text
  kind : EdgeKind
  action : Text
  node : Text
  label : Text
  flow : Option Text := none
deriving DecidableEq

/-- `id.split("#", 1)[0]` -/
def fileOf (id : Text) : Text := id.takeWhile (· ≠ '#')

/-- The loop of `_screen_of`: a node that was passed is no longer in `left`. -/
def climb (left : Nodes) (cur : Text) : Text :=
  if '#' ∈ cur then
    match _hget : Dict.get left cur with
    | some node => climb (Dict.pop left cur) (if node.parent ≠ [] then node.parent else fileOf cur)
    | none => cur
  else cur
termination_by left.length
decreasing_by exact Dict.length_pop_lt _hget

/-- The screen a node lives on. -/
def _screen_of (node_id : Text) (by_id : Nodes) : Option Text :=
  let file_id := fileOf (climb by_id node_id)
  (Dict.get by_id file_id).bind fun node => if node.type = "screen".toList then some file_id else none

/-- The `leads-to` edges of a node. -/
def leadsToEdges (by_id : Nodes) (node : Node) : List Edge :=
  match _screen_of node.id by_id with
  | none => []
  | some src => (node.edges.filter fun edge => edge.via = "leads-to".toList).filterMap fun edge =>
    (_screen_of edge.to_ by_id).bind fun dst =>
      if dst = src then none
      else some { from_ := src, to_ := dst, kind := .leadsTo, action := "activate".toList, node := node.id, label := node.title }

/-- The steps of a flow from one screen to the next, `prev` being the last step and its screen. -/
def flowEdges (by_id : Nodes) (flow : Text) : Option (Text × NodeEdge) → List NodeEdge → List Edge
  | _, [] => []
  | prev, edge :: edges =>
    match _screen_of edge.to_ by_id with
    | none => flowEdges by_id flow prev edges
    | some screen =>
      let hop := match prev with
        | some (prev_screen, prev_step) =>
          if prev_screen ≠ screen then
            [{ from_ := prev_screen, to_ := screen, kind := .flowStep, action := "interact".toList, node := prev_step.to_,
               label := prev_step.text, flow := some flow }]
          else []
        | none => []
      hop ++ flowEdges by_id flow (some (screen, edge)) edges

/-- Every documented transition from screen to screen. -/
def navigation_edges (nodes : List Node) : List Edge :=
  nodes.flatMap (leadsToEdges (byId nodes)) ++
    (nodes.filter fun node => node.type = "flow".toList).flatMap fun node =>
      flowEdges (byId nodes) node.id none (node.edges.filter fun edge => edge.via = "steps".toList)

/-! ## Routes -/

/-- `_index(edges).get(node, [])` -/
def _index (edges : List Edge) (node : Text) : List Edge := edges.filter fun edge => edge.from_ = node

/-- An edge of a route, with what its screen asks for when that was looked up. -/
structure Hop where
  edge : Edge
  preconditions : Option Preconditions
deriving DecidableEq

/-- `_hop` -/
def Hop.of (links : Text → List (Text × Text)) (by_id : Option Nodes) (edge : Edge) : Hop where
  edge := edge
  preconditions := by_id.map fun by_id => Reach.preconditions links (((Dict.get by_id edge.to_).map (·.bullets)).getD [])

/-- `sorted(…, key=lambda e: e["kind"] != "leads-to")` -/
def outgoing (edges : List Edge) (node : Text) : List Edge :=
  (_index edges node).insertionSort fun e e' => e.kind = .leadsTo ∨ e'.kind ≠ .leadsTo

/-- The loop of `route`, over edges; nothing when the fuel runs out. -/
def route.loop (edges : List Edge) (start target : Text) : Option (Option (List Edge)) :=
  Bfs.search (outgoing edges) Edge.to_ target (edges.length + 2) [(start, [])] [start]

/-- The shortest documented click-path. -/
def route (links : Text → List (Text × Text)) (edges : List Edge) (start target : Text) (by_id : Option Nodes) :
    Option (List Hop) :=
  if start = target then some []
  else ((route.loop edges start target).join).map (List.map (Hop.of links by_id))

/-- The loop of `reachable_from`; nothing when the fuel runs out. -/
def reachable_from.loop (edges : List Edge) (starts : List Text) : Option (List Text) :=
  Bfs.spread (_index edges) Edge.to_ (starts.length + edges.length + 1) starts starts

/-- Every screen reachable by clicking from any of the starts. -/
def reachable_from (edges : List Edge) (starts : List Text) : List Text := (reachable_from.loop edges starts).getD []

/-! ## Doors -/

/-- `bullet_text`: a code span at the start, or the first line. -/
def bullet_text (text : Text) : Text :=
  let text := Text.strip text
  match text with
  | '\x60' :: cs =>
    let span := cs.takeWhile (· ≠ '\x60')
    if span ≠ [] ∧ span.length < cs.length then Text.strip span else Text.strip (text.takeWhile (· ≠ '\n'))
  | _ => Text.strip (text.takeWhile (· ≠ '\n'))

/-- One bullet's value; a repeated bullet keeps its first value. -/
def bullet_value (meta_ : List (Text × Value)) (key : Text) : Text :=
  match Dict.get meta_ key with
  | some (.one text) => bullet_text text
  | some (.many texts) => bullet_text (texts.headD [])
  | none => bullet_text []

/-- The path a browser's URL must equal for a route, or nothing when the route is a pattern. -/
def literal_route (route : Text) : Text :=
  let text := Text.strip route
  if text.head? ≠ some '/' ∨ '\x7b' ∈ text ∨ '*' ∈ text ∨ '?' ∈ text then []
  else if (text.splitOn '/').any fun segment => segment.head? = some ':' then []
  else
    let path := (text.reverse.dropWhile (· = '/')).reverse
    if path ≠ [] then path else ['/']

/-- The split of a text at the first `?` that starts a query. -/
def queryAt : Text → Text × Text
  | [] => ([], [])
  | [c] => ([c], [])
  | c :: c' :: cs => if c = '?' ∧ c' ≠ '/' then ([], c :: c' :: cs) else (c :: (queryAt (c' :: cs)).1, (queryAt (c' :: cs)).2)

/-- The address a browser opens for an `entry:`, or nothing when the path is a pattern. -/
def entry_address (entry : Text) : Text :=
  let (path, rest) := queryAt (Text.strip entry)
  let literal := literal_route path
  if literal ≠ [] then literal ++ rest else []

/-- The first word of `text.split()`. -/
def firstWord (text : Text) : Text := (text.dropWhile Text.isSpace).takeWhile fun c => ¬ Text.isSpace c

def Node.isScreen (node : Node) : Bool := node.type = "screen".toList ∧ node.kind = "file".toList

def screens_of (nodes : List Node) : List Text := (nodes.filter (·.isScreen)).map (·.id)

/-- Where a screen's `entry:` can be opened as written. -/
def Node.address (node : Node) : Text :=
  let word := firstWord (bullet_value node.bullets "entry".toList)
  if word ≠ [] then entry_address (Refs.stripOf ['\x60'] word) else []

/-- Each screen whose `entry:` is a path a browser can open as written, with that path. -/
def literal_entries (nodes : List Node) : List (Text × Text) :=
  ((nodes.filter (·.isScreen)).filter fun node => node.address ≠ []).foldl (fun d node => Dict.set d node.id node.address) []

/-- A door that leads to a screen: its path and the clicks from there. -/
structure Found where
  door : Text
  path : Text
  hops : List Hop

/-- The entry path to open and the clicks from there, the fewest clicks first. -/
def _through_a_door (links : Text → List (Text × Text)) (edges : List Edge) (doors : List (Text × Text)) (target : Text)
    (by_id : Nodes) : Option (Text × List Hop) :=
  let found := doors.filterMap fun item =>
    (route links edges item.1 target (some by_id)).map fun hops => Found.mk item.1 item.2 hops
  (found.argmin fun entry => toLex (entry.hops.length, entry.door)).map fun entry => (entry.path, entry.hops)

/-! ## A surface -/

/-- The grammar of `routes.is_path_addressed`. -/
def is_path_addressed (driver : Option Text) : Bool :=
  driver.getD [] ∉ ["mobile".toList, "grpc".toList, "iac".toList, "cli".toList, "artifact".toList, "none".toList]

/-- What `surface_root` and `root_path` say: the start screen, or why there is none, and the path it is looked for at. -/
structure Root where
  root : Option Text
  reason : Text
  detail : Option Text
  path : Option Text

inductive StartError where
  | noScreens (text : Text)
  | unknownStart (text : Text)

/-- How a format string writes a value that may be `None`. -/
def shown (text : Option Text) : Text := text.getD "None".toList

def namedSurface (driver : Option Text) : Text :=
  if driver.getD [] ≠ [] then "a \x60".toList ++ shown driver ++ "\x60 surface".toList else "this surface".toList

/-- The start as a screen's id, or the surface's root when none was given. -/
def resolve_start (nodes : List Node) (start driver : Option Text) (root : Root) : Except StartError Text :=
  match start with
  | none =>
    if screens_of nodes = [] then
      .error (.noScreens (namedSurface driver ++ " declares no screens; there is nothing to start from".toList))
    else match root.root with
      | some root => .ok root
      | none => .error (.unknownStart (
        if root.reason = "no-path-root".toList then
          "no screen's \x60route:\x60 is the root path ".toList ++ shown root.path ++ "; pass --from".toList
        else if root.reason = "launch-screen-not-screen".toList then
          namedSurface driver ++ " states \x60launch-screen:\x60 ".toList ++ shown root.detail ++
            ", which is not a screen on this surface; pass --from".toList
        else if root.reason = "no-launch-screen".toList then
          namedSurface driver ++
            " states no \x60launch-screen:\x60 on its runbook and no root path to start from; pass --from".toList
        else namedSurface driver ++ " states no root path to start from; pass --from".toList))
  | some start =>
    if start ∈ screens_of nodes then .ok start
    else
      let hint := (screens_of nodes).find? fun sid => (['/'] ++ start ++ ".md".toList).isSuffixOf sid
      .error (.unknownStart (start ++ " is not a screen on this surface".toList ++
        (match hint with
          | some hint => if hint ≠ [] then " — did you mean ".toList ++ hint ++ "?".toList else []
          | none => [])))

structure Counts where
  screens : ℕ
  reachable : ℕ
  unreachable : ℕ
  undeclared : ℕ
  nav_edges : ℕ
deriving DecidableEq

structure Reachability where
  start : Text
  surface : Text
  counts : Counts
  routes : List (Text × List Hop)
  opens : List (Text × Text)
  doors : List (Text × Text)
  unreachable : List Text
  undeclared : List Text

/-- What the loop over screens fills. -/
structure Routing where
  routed : List (Text × List Hop) := []
  opens : List (Text × Text) := []
  unreachable : List Text := []
  undeclared : List Text := []

/-- The doors a driver can open. -/
def doorsOf (nodes : List Node) (driver : Option Text) : List (Text × Text) :=
  if is_path_addressed driver then literal_entries nodes else []

/-- Whether the screen says what it asks for. -/
def reachability_in.declare (links : Text → List (Text × Text)) (by_id : Nodes) (r : Routing) (screen : Text) : Routing :=
  if (preconditions links (((Dict.get by_id screen).map (·.bullets)).getD [])).declared then r
  else { r with undeclared := r.undeclared ++ [screen] }

/-- The body of the loop over screens. -/
def reachability_in.place (links : Text → List (Text × Text)) (by_id : Nodes) (edges : List Edge) (start : Text)
    (doors : List (Text × Text)) (r : Routing) (screen : Text) : Routing :=
  let r := reachability_in.declare links by_id r screen
  match route links edges start screen (some by_id) with
  | some path => { r with routed := Dict.set r.routed screen path }
  | none =>
    match _through_a_door links edges doors screen by_id with
    | none => { r with unreachable := r.unreachable ++ [screen] }
    | some (path, hops) => { r with opens := Dict.set r.opens screen path, routed := Dict.set r.routed screen hops }

/-- A route for every documented screen, and the screens that have none. -/
def reachability_in (links : Text → List (Text × Text)) (nodes : List Node) (surface start driver : Option Text) (root : Root) :
    Except StartError Reachability :=
  (resolve_start nodes start driver root).map fun start =>
    let edges := navigation_edges nodes
    let doors := doorsOf nodes driver
    let r := (screens_of nodes).foldl (reachability_in.place links (byId nodes) edges start doors) {}
    { start := start
      surface := surface.getD []
      counts := ⟨(screens_of nodes).length, r.routed.length, r.unreachable.length, r.undeclared.length, edges.length⟩
      routes := r.routed
      opens := r.opens
      doors := doors
      unreachable := r.unreachable.insertionSort (· ≤ ·)
      undeclared := r.undeclared.insertionSort (· ≤ ·) }

end Stablemate.Reach
