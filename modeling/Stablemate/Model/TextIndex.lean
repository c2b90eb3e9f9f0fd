import Mathlib.Data.Char
import Mathlib.Data.List.Lex
import Mathlib.Data.List.Sort
import Mathlib.Data.Rat.Defs
import Stablemate.Lib.Keyed
import Stablemate.Model.Text

/-!
# The search index (`ostler/textindex.py`)

* `Disk`: what the loader and the file system say at one moment.
* `documents`, `rows_for`: the pages of all document roots, and a row for each of a page's sections.
* `TextIndex.refresh`: the two tables are brought up to date, inside one transaction.
* `TextIndex.search`: the hits of a query.
* `World`, `World.step`: the index file, a connection and the disk over time.

The Markdown parser, the digest and the full-text engine are parameters (`Env`). A path is the list
of its parts below `/`; a set is the list of its elements.
-/

namespace Stablemate.TextIndex

/-- An absolute path. -/
structure Path where
  parts : List Text
  plain : ∀ part ∈ parts, part ≠ [] ∧ '/' ∉ part

instance : DecidableEq Path := fun p q =>
  decidable_of_iff (p.parts = q.parts) ⟨fun h => by cases p; cases q; cases h; rfl, fun h => h ▸ rfl⟩

/-- `path.name` -/
def Path.name (path : Path) : Text := path.parts.getLastD []

/-- `path.parent.name` -/
def Path.folder (path : Path) : Text := path.parts.dropLast.getLastD []

/-- `path.stem`: a name without its last suffix. -/
def Path.stem (path : Path) : Text :=
  let suffix := path.name.reverse.takeWhile (· ≠ '.')
  if suffix = [] ∨ path.name.length ≤ suffix.length + 1 then path.name else path.name.take (path.name.length - suffix.length - 1)

/-- What the loader and the file system say at one moment. -/
structure Disk where
  root : Path
  doc_roots : List (Text × Path)
  is_dir : Path → Bool
  glob : Path → Text → List Path
  resolve : Path → Path
  is_file : Path → Bool
  /-- The size and the `mtime` in nanoseconds. -/
  stat : Path → ℕ × ℕ
  read_bytes : Path → List ℕ

structure Section where
  level : ℕ
  title : Text
  line_start : ℕ
  line_end : ℕ
  children : List Section

/-- What `read_doc` and `document_anchors` give for a page. A value of the front matter stands as `str(value or "")`. -/
structure Doc where
  frontmatter : List (Text × Text)
  body : Text
  body_lines : List Text
  sections : List Section
  anchors : List (ℕ × Text)

structure Row where
  root : Text
  type : Text
  node : Text
  path : Text
  anchor : Text
  heading : Text
  title : Text
  slug : Text
  body : Text
deriving DecidableEq

/-- The code that is not the index's own: the parser, which may raise, the digest of a file's bytes, the letters of
`\w`, and the rows that match an expression with their rank and a snippet, or the error's text. -/
structure Env where
  parse : List ℕ → Option Doc
  content_sha : List ℕ → Text
  isWord : Char → Bool
  fts : Text → List Row → Except Text (List (Row × ℚ × Text))

/-! ## Documents -/

/-- The specs root holds its documents where the format puts a spec. -/
def _markdown_under (disk : Disk) (key : Text) (base : Path) : List Path :=
  if key = "specs".toList then disk.glob base "*/*.md".toList else disk.glob base "**/*.md".toList

/-- The body of the loop of `documents` over one root's files. -/
def documents.look (disk : Disk) (key : Text) (state : List Path × List (Text × Path)) (path : Path) :
    List Path × List (Text × Path) :=
  if disk.resolve path ∈ state.1 ∨ ¬ disk.is_file path then state
  else (disk.resolve path :: state.1, state.2 ++ [(key, path)])

/-- One root of `documents`. -/
def documents.under (disk : Disk) (state : List Path × List (Text × Path)) (root : Text × Path) :
    List Path × List (Text × Path) :=
  if disk.is_dir root.2 then
    ((_markdown_under disk root.1 root.2).insertionSort fun p q => p.parts ≤ q.parts).foldl (documents.look disk root.1) state
  else state

/-- Every page once, with the root it is found under first. -/
def documents (disk : Disk) : List (Text × Path) := (disk.doc_roots.foldl (documents.under disk) ([], [])).2

/-- The path that names a page in the index: of the file itself, below the repository when it is there. -/
def relOf (disk : Disk) (path : Path) : Text :=
  let real := disk.resolve path
  if disk.root.parts <+: real.parts then ['/'].intercalate (real.parts.drop disk.root.parts.length)
  else '/' :: ['/'].intercalate real.parts

/-- `rel.removesuffix(".md")` -/
def withoutSuffix (rel : Text) : Text := if ".md".toList.isSuffixOf rel then rel.take (rel.length - 3) else rel

def _locate (disk : Disk) (path : Path) : Text × Text := (withoutSuffix (relOf disk path), relOf disk path)

/-! ## Rows -/

/-- How far a line is indented. -/
def indentOf (line : Text) : ℕ := line.length - (line.dropWhile Text.isSpace).length

/-- `_CHECK_BULLET_RE` -/
def isCheck (line : Text) : Bool :=
  ["- verify:".toList, "- run:".toList, "- fixture:".toList].any fun head => head.isPrefixOf (line.dropWhile Text.isSpace)

/-- The lines without check bullets and what is indented below them, `bullet_indent` being that of an open bullet. -/
def _without_checks (bullet_indent : Option ℕ) : List Text → List Text
  | [] => []
  | line :: lines =>
    if Text.strip line ≠ [] ∧ bullet_indent.any (· < indentOf line) then _without_checks bullet_indent lines
    else if isCheck line then _without_checks (some (indentOf line)) lines
    else line :: _without_checks none lines

/-- The words of a text. -/
def words (text : Text) : List Text := (text.splitOnP Text.isSpace).filter (· ≠ [])

/-- A section's own text: its words with one blank between them, which is what white space comes to. -/
def _text (body_lines : List Text) (sec : Section) : Text :=
  let start := sec.line_start + if sec.level ≠ 0 then 1 else 0
  let stop := match sec.children with
    | child :: _ => child.line_start
    | [] => sec.line_end
  [' '].intercalate (words ([' '].intercalate (_without_checks none ((body_lines.take stop).drop start))))

mutual

/-- A section and those below it, each with the titles that lead to it. -/
def _walk.one (trail : List Text) : Section → List (Section × List Text)
  | ⟨level, title, line_start, line_end, children⟩ =>
    let here := trail ++ if level ≠ 0 then [Text.strip title] else []
    (⟨level, title, line_start, line_end, children⟩, here) :: _walk here children

def _walk (trail : List Text) : List Section → List (Section × List Text)
  | [] => []
  | sec :: secs => _walk.one trail sec ++ _walk trail secs

end

/-- `_H1_RE` on one line. -/
def h1Of : Text → Option Text
  | '#' :: ' ' :: rest =>
    let text := rest.dropWhile (· = ' ')
    if text ≠ [] then some (if Text.rstrip text ≠ [] then Text.rstrip text else text.take 1)
    else if rest ≠ [] then some [' '] else none
  | _ => none

/-- The first of some texts that is not empty. -/
def firstOf (texts : List Text) : Text := (texts.find? (· ≠ [])).getD []

/-- The name that a page's slug falls back on. -/
def folderOf (root_key : Text) (path : Path) : Text :=
  if root_key = "decisions".toList then path.folder else path.stem

def rows_for (root_key folder rel : Text) (doc : Doc) : List Row :=
  let value := fun key => ((doc.frontmatter.find? fun item => item.1 = key).map Prod.snd).getD []
  let decided := root_key = "decisions".toList
  let summary := if decided then value "summary".toList else []
  let h1 := (((doc.body.splitOn '\n').filterMap h1Of).head?).getD []
  let title := firstOf [value "title".toList, h1, summary]
  let slug := firstOf [value "slug".toList, value "id".toList, folder]
  let etype := firstOf [value "type".toList, if decided then "decision".toList else []]
  (if summary ≠ [] then
    [{ root := root_key, type := etype, node := withoutSuffix rel, path := rel, anchor := [], heading := [], title := title,
       slug := slug, body := summary }]
  else []) ++
    ((_walk [] doc.sections).filter fun item => _text doc.body_lines item.1 ≠ []).map fun item =>
      { root := root_key
        type := etype
        node := withoutSuffix rel
        path := rel
        anchor := if item.1.level ≠ 0 then ((doc.anchors.find? fun a => a.1 = item.1.line_start).map Prod.snd).getD [] else []
        heading := " > ".toList.intercalate item.2
        title := title
        slug := slug
        body := _text doc.body_lines item.1 }

/-- The rows of a page as it stands, nothing when it cannot be read. -/
def rowsOf (env : Env) (disk : Disk) (item : Text × Path) : Option (List Row) :=
  (env.parse (disk.read_bytes item.2)).map (rows_for item.1 (folderOf item.1 item.2) (_locate disk item.2).2)

/-! ## Tables -/

structure FileRow where
  path : Text
  sha : Text
  stamp : ℕ × ℕ
deriving DecidableEq

structure Tables where
  files : List FileRow := []
  sections : List Row := []
deriving DecidableEq

structure Report where
  files : ℕ
  sections : ℕ
  indexed : ℕ
  removed : ℕ

/-- `UPDATE files SET size = ?, mtime_ns = ? WHERE path = ?` -/
def Tables.restamp (tables : Tables) (rel : Text) (stamp : ℕ × ℕ) : Tables :=
  { tables with files := tables.files.map fun row => if row.path = rel then { row with stamp := stamp } else row }

/-- The rows of a path that is known are deleted, the new ones inserted, and the row of `files` is put in. -/
def Tables.reindex (tables : Tables) (known : Bool) (row : FileRow) (rows : List Row) : Tables where
  files := Keyed.upsert FileRow.path tables.files row
  sections := (if known then tables.sections.filter fun r => r.path ≠ row.path else tables.sections) ++ rows

/-- What is done with the rows of the paths that are gone. -/
def Tables.drop (tables : Tables) (gone : List Text) : Tables where
  files := tables.files.filter fun row => row.path ∉ gone
  sections := tables.sections.filter fun row => row.path ∉ gone

/-- A refresh while it runs. -/
structure Refreshing where
  tables : Tables
  present : List Text := []
  indexed : ℕ := 0

/-- What `refresh` does with one page: it is left, stamped again, or indexed; nothing when it cannot be read. -/
def refresh.page (env : Env) (disk : Disk) (known : List FileRow) (r : Refreshing) (item : Text × Path) : Option Refreshing :=
  let rel := (_locate disk item.2).2
  let stamp := disk.stat item.2
  let sha := env.content_sha (disk.read_bytes item.2)
  let old := Keyed.get FileRow.path known rel
  let r := { r with present := rel :: r.present }
  if old.any fun row => row.stamp = stamp then some r
  else if old.any fun row => row.sha = sha then some { r with tables := r.tables.restamp rel stamp }
  else (rowsOf env disk item).map fun rows =>
    { r with tables := r.tables.reindex old.isSome ⟨rel, sha, stamp⟩ rows, indexed := r.indexed + 1 }

/-- The tables are brought up to date; nothing when a page cannot be read, and the transaction is undone. -/
def refresh (env : Env) (disk : Disk) (tables : Tables) : Option (Tables × Report) :=
  ((documents disk).foldlM (refresh.page env disk tables.files) { tables := tables }).map fun r =>
    let gone := (tables.files.map (·.path)).filter fun path => path ∉ r.present
    let after := r.tables.drop gone
    (after, ⟨(documents disk).length, after.sections.length, r.indexed, gone.length⟩)

/-! ## Search -/

structure Hit where
  row : Row
  rank : ℚ
  snippet : Text

/-- The runs of word letters of a text. -/
def terms (env : Env) (q : Text) : List Text := (q.splitOnP fun c => ¬ env.isWord c).filter (· ≠ [])

def _match_expression (env : Env) (q : Text) : Text :=
  " OR ".toList.intercalate ((terms env q).map fun term => ['"'] ++ term ++ "\"*".toList)

def _RECORD_ROOTS : List Text := ["epics".toList, "milestones".toList, "specs".toList, "register".toList]

/-- The `WHERE` of a search, beyond the match. -/
def isWanted (etype root : Option Text) (row : Row) : Bool :=
  (match etype with
    | some etype => row.type = etype
    | none => root = some "all".toList || row.type ≠ "fixture".toList) &&
  match root with
  | none => etype.isSome || row.root ∉ _RECORD_ROOTS
  | some root => root = "all".toList || row.root = root

/-- The loop over the rows that match: at most two hits of a page, and no more once there are `limit` of them. -/
def search.pick (limit : ℤ) (hits : List Hit) : List Hit → List Hit
  | [] => hits
  | r :: rs =>
    if (hits.length : ℤ) = limit then hits
    else if hits.countP (fun h => h.row.path = r.row.path) = 2 then search.pick limit hits rs
    else search.pick limit (hits ++ [r]) rs

/-- The hits of a query, best first, or the engine's error. -/
def search (env : Env) (tables : Tables) (q : Text) (etype root : Option Text) (limit : ℤ) (raw : Bool) :
    Except Text (List Hit) :=
  let expression := if raw then q else _match_expression env q
  if Text.strip expression = [] then .ok []
  else (env.fts expression tables.sections).map fun found =>
    search.pick limit [] (((found.filter fun r => isWanted etype root r.1).map fun r => Hit.mk r.1 r.2.1 r.2.2).insertionSort
      fun a b => a.rank ≤ b.rank)

/-! ## Over time -/

/-- The tables of a database, and the disk they were made from at the last refresh that came to its end. -/
structure Base where
  epoch : Text := []
  tables : Tables := {}
  made : Option Disk := none

/-- The disk, the database file when there is one, and the open connection, with whether it is to the file. -/
structure World where
  disk : Disk
  file : Option Base := none
  conn : Option (Bool × Base) := none

inductive Event where
  /-- Pages are edited, made, deleted, renamed or moved. -/
  | edit (disk : Disk)
  /-- `TextIndex.open` with a store, or in memory. -/
  | open_ (persistent : Bool) (epoch : Text)
  | refresh
  /-- The connection is closed, or the process stops at any point inside a refresh: what was not committed is gone. -/
  | stop

/-- The database that is opened: the tables of another epoch are emptied. -/
def World.baseAt (w : World) (epoch : Text) : Base :=
  match w.file with
  | some base => if base.epoch = epoch then base else { epoch := epoch }
  | none => { epoch := epoch }

/-- `TextIndex.open` -/
def World.open_ (w : World) (persistent : Bool) (epoch : Text) : World :=
  if persistent then { w with file := some (w.baseAt epoch), conn := some (true, w.baseAt epoch) }
  else { w with conn := some (false, { epoch := epoch }) }

/-- A refresh through the open connection. A page that cannot be read undoes it. -/
def World.refresh (env : Env) (w : World) : World :=
  match w.conn with
  | none => w
  | some (persistent, base) =>
    match TextIndex.refresh env w.disk base.tables with
    | none => w
    | some (tables, _) =>
      let base := { base with tables := tables, made := some w.disk }
      { w with file := if persistent then some base else w.file, conn := some (persistent, base) }

def World.step (env : Env) (w : World) : Event → World
  | .edit disk => { w with disk := disk }
  | .open_ persistent epoch => w.open_ persistent epoch
  | .refresh => w.refresh env
  | .stop => { w with conn := none }

end Stablemate.TextIndex
