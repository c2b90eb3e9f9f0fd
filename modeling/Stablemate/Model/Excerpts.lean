import Stablemate.Model.Audit

/-!
# Excerpts of sources and of book pages (`ostler/behavior.py`, `markdown.py`, `model.py`)

A support file is excerpted whole, and a node of the book from its heading to the next one. Lines are
counted by `str.splitlines`, by the newlines that the validator of an excerpt counts, and by the Markdown
parser.

The block parser is a parameter. A node comes with its citations, which `extract_book` hands on.
-/

namespace Stablemate.Behavior

/-- `text.splitlines(keepends=True)` -/
def keptLines (text : Text) : List Text := keptLinesFrom [] text

/-- `_bounds_match_text` -/
def FileExcerpt.Spans (e : FileExcerpt) : Prop := (e.end_line : ℤ) - e.start_line + 1 = max 1 (lineCount e.text)

instance decidableSpans (e : FileExcerpt) : Decidable e.Spans := inferInstanceAs (Decidable (_ = _))

/-- The support excerpt of a file, which may be empty. -/
def supportExcerpt (relative source source_digest : Text) : Except Refusal SourceExcerpt :=
  let excerpt : SourceExcerpt :=
    { path := relative, start_line := 1, end_line := max 1 (Text.splitlines source).length, text := source, source_digest }
  if excerpt.Spans then pure excerpt else throw .validation

/-! ## Pages -/

/-- A heading token. -/
structure Heading where
  level : ℕ
  line_start : ℕ
deriving DecidableEq

/-- What the block parser finds in a text. -/
structure Blocks where
  /-- The content of a front matter token, and the end of its span. -/
  front_matter : Text → Option (Text × ℕ)
  headings : Text → List Heading
  /-- The first lines of the top-level list items. -/
  bullets : Text → List ℕ

def _normalize (text : Text) : Text := Text.replace ['\r'] ['\n'] (Text.replace ['\r', '\n'] ['\n'] text)

/-- What the fence encloses, if there is one, and what is below it. -/
structure MarkdownDoc where
  raw_frontmatter : Option Text
  body : Text

structure Section where
  level : ℕ
  line_start : ℕ
  line_end : ℕ
deriving DecidableEq

section Page

variable (md : Blocks)

/-- `markdown.split` -/
def split (text : Text) : MarkdownDoc :=
  let text := _normalize text
  match md.front_matter text with
  | none => { raw_frontmatter := none, body := text }
  | some (content, stop) =>
    { raw_frontmatter := some (if content = [] then [] else content ++ ['\n'])
      body := ['\n'].intercalate ((text.splitOn '\n').drop stop) }

def MarkdownDoc.body_offset (doc : MarkdownDoc) : ℕ := doc.raw_frontmatter.elim 0 fun raw => raw.count '\n' + 2

/-- The sections of some headings, each up to the next one that is not below it. -/
def headed (total : ℕ) : List Heading → List Section
  | [] => []
  | sec :: rest =>
    { level := sec.level, line_start := sec.line_start
      line_end := (rest.find? fun nxt => nxt.level ≤ sec.level).elim total (·.line_start) } :: headed total rest

/-- Each section with the one it is put below. -/
def nested (stack : List Section) : List Section → List (Option Section × Section)
  | [] => []
  | sec :: rest =>
    let stack := stack.dropWhile fun top => sec.level ≤ top.level
    (stack.head?, sec) :: nested (sec :: stack) rest

/-- The sections of the headings of a body. -/
def headingSections (body : Text) : List Section := headed (body.splitOn '\n').length (md.headings body)

/-- `_build_sections`, in the order of `walk_sections`: what is before the first heading is a section. -/
def sectionsOf (body : Text) : List Section :=
  let headings := headingSections md body
  let first_start := (headings.head?).elim (body.splitOn '\n').length (·.line_start)
  if 0 < first_start then { level := 0, line_start := 0, line_end := first_start } :: headings else headings

/-- `section.children` -/
def childrenOf (body : Text) (sec : Section) : List Section :=
  ((nested [] (headingSections md body)).filter fun row => row.1 = some sec).map (·.2)

/-- Where a section's own text ends. -/
def ownEnd (body : Text) (sec : Section) : ℕ := (((childrenOf md body sec).map (·.line_start)).min?).getD sec.line_end

/-- The section that begins later, the first of two that begin together. -/
def later : Option Section → Section → Option Section
  | none, s => some s
  | some best, s => if best.line_start < s.line_start then some s else some best

/-- `_container`: of the sections around a line, the one that begins last. -/
def container (sections : List Section) (line : ℕ) : Option Section :=
  (sections.filter fun s => s.line_start ≤ line ∧ line < s.line_end).foldl later none

/-- `section.bullets` -/
def bulletsOf (body : Text) (sec : Section) : List ℕ :=
  (md.bullets body).filter fun line => (container (sectionsOf md body) line).or (sectionsOf md body).head? = some sec

end Page

/-! ## The book -/

/-- A node of the book. -/
structure UINode where
  id : Text
  /-- Relative to the root. -/
  path : Text
  title : Text
  line : ℕ
  /-- Key, value and bullet of each pair. -/
  bullet_order : List (Text × Text × ℕ)
  bullet_lines : List (ℕ × ℕ)
  /-- The citations of the node, or of the nearest owner on its page that has any. -/
  citations : List Text
  /-- `normative_keys` of its type. -/
  normative_keys : List Text

section Book

variable (md : Blocks)

/-- The section that a node's line is the heading of. -/
def sectionAt (doc : MarkdownDoc) (line : ℕ) : Option Section :=
  (sectionsOf md doc.body).find? fun sec => doc.body_offset + sec.line_start + 1 = line

/-- The excerpt of a node's own text. -/
def bookContext (doc : MarkdownDoc) (source_digest : Text) (node : UINode) : Except Refusal BookContext :=
  match sectionAt md doc node.line with
  | none =>
    throw (.value ("Cannot locate book context for ".toList ++ node.id ++ "; reload the graph from current documents".toList))
  | some sec =>
    let text := (((keptLines doc.body).take (ownEnd md doc.body sec)).drop sec.line_start).flatten
    let excerpt : FileExcerpt :=
      { path := node.path, start_line := node.line, end_line := node.line + max 1 (Text.splitlines text).length - 1, text
        source_digest }
    if h : excerpt.Bounded then pure { excerpt with node := node.id, bounded := h } else throw .validation

def isNormative (node : UINode) (bullet : Text × Text × ℕ) : Bool := node.normative_keys.contains bullet.1

/-- `key.replace(" ", "-")` -/
def kindOf (key : Text) : Text := Text.replace [' '] ['-'] key

/-- The claims of a node's normative bullets, numbered for each key. -/
def bookClaims (node : UINode) (context : BookContext) (counts : List Text) : List (Text × Text × ℕ) → List BookClaim
  | [] => []
  | (key, text, position) :: rest =>
    if node.normative_keys.contains key then
      { id := "okf:".toList ++ node.id ++ [':'] ++ kindOf key ++ [':'] ++ Nat.toDigits 10 (counts.count key + 1)
        node := node.id, path := node.path, line := max 1 ((node.bullet_lines.lookup position).getD node.line)
        kind := kindOf key, text, citations := node.citations, title := node.title, context := [context] } ::
        bookClaims node context (key :: counts) rest
    else bookClaims node context counts rest

/-- One node; `pages` gives a page's text and digest. -/
def claimsOfNode (pages : Text → Text × Text) (node : UINode) : Except Refusal (List BookClaim) :=
  if !node.bullet_order.any (isNormative node) then pure []
  else do
    let context ← bookContext md (split md (pages node.path).1) (pages node.path).2 node
    pure (bookClaims node context [] node.bullet_order)

/-- The claims of `extract_book`. -/
def extract_book (pages : Text → Text × Text) (ui_nodes : List UINode) (scope : Text) : Except Refusal (List BookClaim) := do
  let nodes := (ui_nodes.insertionSort fun a b => a.id ≤ b.id).filter fun node => scope.isPrefixOf node.path
  let claims ← nodes.mapM (claimsOfNode md pages)
  pure claims.flatten

end Book

end Stablemate.Behavior
