import Mathlib.Data.List.Basic
import Stablemate.Model.Text

/-!
# Code references (`ostler/refs.py`)

The grammar of what a `code:` bullet cites. `leading_code_spans` is a parameter, for what it falls
back on is a Markdown parser.
-/

namespace Stablemate.Refs

/-- `text.strip(chars)` -/
def stripOf (chars text : Text) : Text :=
  ((text.dropWhile (List.contains chars)).reverse.dropWhile (List.contains chars)).reverse

/-- `text.partition(sep)`, with whether the separator was found. -/
def partition (sep text : Text) : Text × Bool × Text :=
  match Text.find sep text with
  | some i => (text.take i, true, text.drop (i + sep.length))
  | none => (text, false, [])

/-- `[0-9a-f]` -/
def isHex (c : Char) : Bool := ('0' ≤ c && c ≤ '9') || ('a' ≤ c && c ≤ 'f')

structure CodeRef where
  repository : Text
  path : Text
  symbol : Text := []
  digest : Option Text := none
deriving DecidableEq

/-- What stands before an `@` and twelve digits that end the text, and the digits. -/
def digestAtEnd (text : Text) : Option (Text × Text) :=
  match text.drop (text.length - 13) with
  | '@' :: digest => if digest.length = 12 ∧ digest.all isHex then some (text.take (text.length - 13), digest) else none
  | _ => none

/-- `_DIGEST_SUFFIX.search(value)`: the `$` of a pattern also stands before a last newline. -/
def digestSuffix (value : Text) : Option (Text × Text) :=
  digestAtEnd (if value.getLast? = some '\n' then value.dropLast else value)

/-- `path.replace("\\", "/")` -/
def slashed (path : Text) : Text := path.map fun c => if c = '\\' then '/' else c

def parse_code_ref (value : Text) : Except Text CodeRef :=
  let (value, digest) := ((digestSuffix value).map fun found => (found.1, some found.2)).getD (value, none)
  let (target, _, symbol) := partition "::".toList value
  if ("repo://".toList).isPrefixOf target then
    let (repository, slash, path) := partition ['/'] (target.drop "repo://".length)
    if !slash || repository.isEmpty || path.isEmpty then
      throw ("malformed repository-qualified code ref: ".toList ++ Text.repr value)
    else pure ⟨repository, slashed path, symbol, digest⟩
  else pure ⟨[], slashed target, symbol, digest⟩

def render_code_ref (ref : CodeRef) : Except Text Text :=
  let path := slashed ref.path
  let rest := (if ref.symbol = [] then [] else "::".toList ++ ref.symbol) ++ (ref.digest.map ('@' :: ·)).getD []
  if ref.repository = [] then pure (path ++ rest)
  else if path = [] then throw "malformed repository-qualified code ref: path must not be empty".toList
  else pure ("repo://".toList ++ ref.repository ++ ['/'] ++ path ++ rest)

def normalize_ref (value : Text) : Text := Text.strip (stripOf ['`', ',', ' '] (Text.strip value))

def bare_targets (value : Text) : List Text := value.splitOn ','

/-- One target of a bullet, in its canonical form if it has one. -/
def canonical (part : Text) : Text :=
  match parse_code_ref (normalize_ref part) >>= render_code_ref with
  | .ok rendered => rendered
  | .error _ => normalize_ref part

/-- `code_refs` of a list of texts. -/
def code_refs (leading_code_spans : Text → List Text) (value : List Text) : List Text :=
  let parts := value.flatMap fun item =>
    let spans := leading_code_spans item
    if spans = [] then bare_targets item else spans
  ((parts.filter fun part => normalize_ref part ≠ []).map canonical).eraseDups

/-! ## `posixpath.normpath` -/

/-- One component, after those that are kept (the last one first). -/
def normStep (rooted : Bool) (kept : List Text) (comp : Text) : List Text :=
  if comp = [] ∨ comp = ['.'] then kept
  else if comp ≠ ['.', '.'] ∨ (rooted = false ∧ kept = []) ∨ kept.head? = some ['.', '.'] then comp :: kept
  else kept.tail

def normpath (path : Text) : Text :=
  let slashes := if (['/', '/'] : Text).isPrefixOf path && !(['/', '/', '/'] : Text).isPrefixOf path then 2
    else if path.head? = some '/' then 1 else 0
  let joined := List.replicate slashes '/' ++
    ['/'].intercalate ((path.splitOn '/').foldl (normStep (slashes != 0)) []).reverse
  if joined = [] then ['.'] else joined

end Stablemate.Refs
