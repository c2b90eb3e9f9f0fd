import Stablemate.Model.Gates
import Stablemate.Model.Refs

/-!
# Leading code spans (`ostler/markdown.py`)

A citation list opens with code spans. One reader finds them by a pattern, the other one among the
inline tokens of markdown-it.

* `Child`, `CommonMark`: an inline token, and what is relied on of the parser.
* `_plain_leading_code_spans`, `_parsed_leading_code_spans`, `leading_code_spans`: the readers.
-/

namespace Stablemate.Spans

open Refs (isHex)

/-- `[ \t,]` -/
def GAP : List Char := [' ', '\t', ',']

/-- `[ \t]` -/
def isBlank (c : Char) : Bool := c == ' ' || c == '\t'

/-- White space that `white` knows, an `@` and twelve digits: what they are and what follows. -/
def digestAfter (white : Char → Bool) (text : Text) : Option (Text × Text) :=
  match text.dropWhile white with
  | '@' :: rest =>
    if (rest.take 12).length = 12 ∧ (rest.take 12).all isHex then
      some (text.takeWhile white ++ '@' :: rest.take 12, rest.drop 12)
    else none
  | _ => none

/-! ## The pattern -/

/-- Neither a backtick nor the end of a line. -/
def inSpan (c : Char) : Bool := c != '\x60' && c != '\n'

/-- The two groups of a match and what follows it. -/
def spanEnd (body rest : Text) : Text × Text × Text :=
  match digestAfter isBlank rest with
  | some (group, rest) => (body, group, rest)
  | none => (body, [], rest)

/-- `_PLAIN_SPAN.match(text)` -/
def _PLAIN_SPAN (text : Text) : Option (Text × Text × Text) :=
  match text.dropWhile GAP.contains with
  | '\x60' :: text =>
    match text.dropWhile inSpan with
    | '\x60' :: rest =>
      if text.takeWhile inSpan ≠ [] ∧ (text.takeWhile inSpan).head? ≠ some ' ' ∧
          (text.takeWhile inSpan).getLast? ≠ some ' ' ∧ rest.head? ≠ some '\x60' then
        some (spanEnd (text.takeWhile inSpan) rest)
      else none
    | _ => none
  | _ => none

/-- What cannot be the first character of prose. -/
def NOT_PROSE : List Char := ['\\', '\x60', '*', '_', '~', '[', '!', '<', '&', '\r', '\n', ' ', '\t', ',']

/-- `_PROSE_OR_END.match(text)`: the `$` of a pattern also stands before a last newline. -/
def _PROSE_OR_END (text : Text) : Bool :=
  match text.dropWhile GAP.contains with
  | [] => true
  | ['\n'] => true
  | c :: _ => !NOT_PROSE.contains c

theorem length_digestAfter {white : Char → Bool} {text group rest : Text} (h : digestAfter white text = some (group, rest)) :
    rest.length ≤ text.length := by
  unfold digestAfter at h
  have hle := (List.dropWhile_sublist white (l := text)).length_le
  split at h
  · rename_i rest' heq
    rw [heq, List.length_cons] at hle
    split at h
    · obtain ⟨-, rfl⟩ := Prod.mk.inj (Option.some.inj h)
      rw [List.length_drop]
      omega
    · cases h
  · cases h

/-- A match takes something of the text. -/
theorem length_PLAIN_SPAN {text body group rest : Text} (h : _PLAIN_SPAN text = some (body, group, rest)) :
    rest.length < text.length := by
  unfold _PLAIN_SPAN at h
  have hle := (List.dropWhile_sublist GAP.contains (l := text)).length_le
  split at h
  · rename_i inner heq
    have hle' := (List.dropWhile_sublist inSpan (l := inner)).length_le
    rw [heq, List.length_cons] at hle
    split at h
    · rename_i after heq'
      rw [heq', List.length_cons] at hle'
      split at h
      · unfold spanEnd at h
        split at h
        · rename_i hdigest
          obtain ⟨-, -, rfl⟩ := Prod.mk.inj (Option.some.inj h) |>.imp_right Prod.mk.inj
          have := length_digestAfter hdigest
          omega
        · obtain ⟨-, -, rfl⟩ := Prod.mk.inj (Option.some.inj h) |>.imp_right Prod.mk.inj
          omega
      · cases h
    · cases h
  · cases h

/-- The loop of `_plain_leading_code_spans`: the groups of its matches, and what it leaves. -/
def openings (text : Text) : List (Text × Text) × Text :=
  match _h : _PLAIN_SPAN text with
  | some (body, group, rest) => ((body, group) :: (openings rest).1, (openings rest).2)
  | none => ([], text)
termination_by text.length
decreasing_by all_goals exact length_PLAIN_SPAN _h

def _plain_leading_code_spans (text : Text) : Option (List Text) :=
  if _PROSE_OR_END (openings text).2 then some ((openings text).1.map fun found => found.1 ++ Text.strip found.2) else none

/-! ## The tokens -/

/-- An inline token. `other` stands for the kinds at which the reader stops. -/
inductive Child
  | code_inline (content : Text)
  | text (content : Text)
  | softbreak
  | hardbreak
  | other (type : Text)
deriving DecidableEq

/-- `_TRAILING_DIGEST.match(content)` -/
def _TRAILING_DIGEST (content : Text) : Option (Text × Text) := digestAfter Text.isSpace content

/-- A digest at the start of a text goes to the last span; what is left of the text. -/
def attached (spans : List Text) (content : Text) : List Text × Text :=
  match spans.getLast?, _TRAILING_DIGEST content with
  | some last, some (digest, content) => (spans.dropLast ++ [last ++ Text.strip digest], content)
  | _, _ => (spans, content)

/-- The loop of `_parsed_leading_code_spans`. -/
def spansOf : List Text → List Child → List Text
  | spans, [] => spans
  | spans, .code_inline content :: children => spansOf (spans ++ [content]) children
  | spans, .text content :: children =>
    if Refs.stripOf GAP (attached spans content).2 = [] then spansOf (attached spans content).1 children
    else (attached spans content).1
  | spans, .softbreak :: children => spansOf spans children
  | spans, .hardbreak :: children => spansOf spans children
  | spans, .other _ :: _ => spans

/-- `_normalize` -/
def _normalize (text : Text) : Text := Gates.universalNewlines text

section

variable (inline : Text → List Child)

/-- `_MD.parseInline(_normalize(text))[0].children` -/
def _inline_children (text : Text) : List Child := inline (_normalize text)

def _parsed_leading_code_spans (text : Text) : List Text := spansOf [] (_inline_children inline text)

def leading_code_spans (text : Text) : List Text :=
  (_plain_leading_code_spans text).getD (_parsed_leading_code_spans inline text)

end

/-! ## What the parser does -/

/-- The characters at which something else than text can begin, or a line ends. -/
def SPECIAL : List Char := ['\\', '\x60', '*', '_', '~', '[', '!', '<', '&', '\n', '\r']

def PUNCTUATION : List Char := "!\"#$%&'()*+,-./:;<=>?@[\\]^_\x60\x7b|\x7d~".toList

/-- U+0000 is shown as the replacement character. -/
def shown (c : Char) : Char := if c = '\x00' then '\uFFFD' else c

/-- What a text begins with, as far as it is surely text, once `skip` characters are passed, and
what it leaves: plain characters, escapes, and the character references that `reference` knows,
which gives what a reference stands for and how many characters it has after its `&`. -/
def readFrom (reference : Text → Option (Text × ℕ)) : ℕ → Text → Text × Text
  | _, [] => ([], [])
  | skip + 1, _ :: rest => readFrom reference skip rest
  | 0, c :: rest =>
    if c ∉ SPECIAL then (shown c :: (readFrom reference 0 rest).1, (readFrom reference 0 rest).2)
    else if c = '\\' ∧ ∃ d ∈ rest.head?, d ∈ PUNCTUATION then
      (rest.take 1 ++ (readFrom reference 1 rest).1, (readFrom reference 1 rest).2)
    else if c = '&' then
      match reference rest with
      | some (decoded, n) => (decoded ++ (readFrom reference n rest).1, (readFrom reference n rest).2)
      | none => ([], c :: rest)
    else ([], c :: rest)

def readText (reference : Text → Option (Text × ℕ)) (text : Text) : Text × Text := readFrom reference 0 text

/-- The text, maybe without some spaces at its end. -/
def Trimmed (text kept : Text) : Prop := ∃ spaces, text = kept ++ spaces ∧ ∀ c ∈ spaces, c = ' '

/-- The content of a code span: line ends are spaces, and a space at either end is taken away
unless all are. -/
def codeContent (body : Text) : Text :=
  let content := body.map fun c => if c = '\n' then ' ' else shown c
  if content.head? = some ' ' ∧ content.getLast? = some ' ' ∧ ∃ c ∈ content, c ≠ ' ' then content.tail.dropLast
  else content

/-- The tokens of a piece of text. -/
def textOf (text : Text) : List Child := if text = [] then [] else [.text text]

/-- A text token holds what is read as text at its place. What stops the reading begins another
token, or is text itself and so are some characters after it. -/
def Holds (read : Text × Text) (content : Text) : Prop :=
  (read.2.head? = some '\n' ∧ Trimmed read.1 content) ∨
    (read.2.head? ≠ some '\n' ∧ ∃ more, content = read.1 ++ more ∧ ∀ c ∈ more.head?, c ∈ SPECIAL ∧ c ≠ '\n' ∧ c ≠ '\r')

/-- How `read` reads a text, where `after` is how what follows a code span is read. -/
structure Reads (reference : Text → Option (Text × ℕ)) (read after : Text → List Child) : Prop where
  code : ∀ plain body rest, (∀ c ∈ plain, c ∉ SPECIAL) → body ≠ [] → '\x60' ∉ body → rest.head? ≠ some '\x60' →
    read (plain ++ '\x60' :: (body ++ '\x60' :: rest)) = textOf (plain.map shown) ++ .code_inline (codeContent body) :: after rest
  text : ∀ text, (∃ c ∈ (readText reference text).1, c ≠ ' ') →
    ∃ content children, read text = .text content :: children ∧ Holds (readText reference text) content
  last : ∀ plain, (∀ c ∈ plain, c ∉ SPECIAL) → read plain = textOf (plain.map shown)
  line : ∀ plain, (∀ c ∈ plain, c ∉ SPECIAL) → ∃ kept breaks, Trimmed (plain.map shown) kept ∧
    (∀ b ∈ breaks, b = .softbreak ∨ b = .hardbreak) ∧ read (plain ++ ['\n']) = textOf kept ++ breaks

/-- **Inline CommonMark**, as far as the readers meet it: code spans of one backtick, plain text and
line ends, each read the same after a code span. -/
structure CommonMark (reference : Text → Option (Text × ℕ)) (inline after : Text → List Child) : Prop where
  first : Reads reference inline after
  next : Reads reference after after

end Stablemate.Spans
