import Stablemate.Model.Text

/-!
# Gate files (`gates.py`)

The file an `Await` waits on. Its first `STATUS:` line says whether the run still waits.
-/

namespace Stablemate.Gates

/-- `Path.read_text`: a line may end in `\r\n`, `\r` or `\n`. -/
def universalNewlines : Text → Text
  | '\r' :: '\n' :: cs => '\n' :: universalNewlines cs
  | '\r' :: cs => '\n' :: universalNewlines cs
  | c :: cs => c :: universalNewlines cs
  | [] => []

/-- `_STATUS_RE` at the front of a line: the token and what follows it. -/
def statusAt (line : Text) : Option (Text × Text) :=
  if "STATUS:".toList <+: line then
    let rest := (line.drop 7).dropWhile fun c => c == ' ' || c == '\t'
    let token := rest.takeWhile fun c => !Text.isSpace c
    if token = [] then none else some (token, rest.drop token.length)
  else none

/-- `_STATUS_RE.search`: what stands before the first match, its token, and what follows. -/
def searchStatus : Bool → Text → Option (Text × Text × Text)
  | _, [] => none
  | lineStart, c :: cs =>
    match if lineStart then statusAt (c :: cs) else none with
    | some (token, rest) => some ([], token, rest)
    | none => (searchStatus (c == '\n') cs).map fun (before, token, rest) => (c :: before, token, rest)

/-- `status_of`: the `STATUS:` token in upper case, empty when there is no such line. -/
def statusOf (text : Text) : Text :=
  match searchStatus true text with
  | some (_, token, _) => Text.upper token
  | none => []

def AWAITING_OPERATOR : Text := "AWAITING_OPERATOR".toList

def ANSWERED : Text := "ANSWERED".toList

/-- `set_status`. -/
def setStatus (text status : Text) : Text :=
  match searchStatus true text with
  | some (before, _, rest) => before ++ "STATUS: ".toList ++ status ++ rest
  | none => "STATUS: ".toList ++ status ++ "\n\n".toList ++ text

/-- `format_operator_gate`; `hasQuestionHeading` is `_has_question_heading`. -/
def formatOperatorGate (hasQuestionHeading : Text → Bool) (questions : Text) : Text :=
  let body := Text.strip questions
  if statusOf body ≠ [] ∨ hasQuestionHeading body then
    Text.rstrip (setStatus body AWAITING_OPERATOR) ++ ['\n']
  else
    "STATUS: AWAITING_OPERATOR\n\n## Questions from the agent\n\n".toList ++ body ++ ['\n']

/-- `apply_answer`: the text with its status flipped and the answer below. -/
def applyAnswer (text answer : Text) : Text :=
  let answered := setStatus text ANSWERED
  let answer := Text.strip answer
  if answer = [] then answered else Text.rstrip answered ++ "\n\n".toList ++ answer ++ ['\n']

/-- `append_operator_gate`: an existing gate armed again, with the questions appended. -/
def appendOperatorGate (hasQuestionHeading : Text → Bool) (existing questions : Text) : Text :=
  let formatted := formatOperatorGate hasQuestionHeading questions
  let block := match searchStatus true formatted with
    | some (before, _, rest) => Text.strip (before ++ rest)
    | none => Text.strip formatted
  Text.rstrip (setStatus existing AWAITING_OPERATOR) ++ "\n\n".toList ++ block ++ ['\n']

/-- A file on disk: its text, or `none` where reading it raises `OSError`. -/
abbrev File := Option Text

/-- `path.read_text()`. -/
def readText (file : File) : Option Text := file.map universalNewlines

/-- `answered` of `park.py`: the gate has been answered. -/
def answered (file : File) : Bool :=
  match readText file with
  | some text => decide (statusOf text ≠ AWAITING_OPERATOR)
  | none => false

/-! ## The newest question -/

/-- A heading of a Markdown text as the parser reports it: its level, the text of its title,
and the lines it spans, `first` inclusive and `last` exclusive. -/
structure Heading where
  level : ℕ
  title : Text
  first : ℕ
  last : ℕ
deriving DecidableEq, Repr

/-- One character of `str.casefold()`. The characters listed are those outside ASCII that fold
to ASCII letters. -/
def foldChar (c : Char) : Text :=
  if 'A' ≤ c ∧ c ≤ 'Z' then [Char.ofNat (c.toNat + 32)]
  else if c.toNat = 0x212A then ['k']
  else if c.toNat = 0x17F then ['s']
  else if c.toNat = 0xDF ∨ c.toNat = 0x1E9E then ['s', 's']
  else if c.toNat = 0xFB00 then ['f', 'f']
  else if c.toNat = 0xFB01 then ['f', 'i']
  else if c.toNat = 0xFB02 then ['f', 'l']
  else if c.toNat = 0xFB03 then ['f', 'f', 'i']
  else if c.toNat = 0xFB04 then ['f', 'f', 'l']
  else if c.toNat = 0xFB05 ∨ c.toNat = 0xFB06 then ['s', 't']
  else [c]

/-- `str.casefold()`, up to letters whose folding is not ASCII. -/
def casefold (text : Text) : Text := text.flatMap foldChar

/-- `" ".join(title.split())`. -/
def squeezed (title : Text) : Text :=
  [' '].intercalate ((title.splitOnP Text.isSpace).filter (· ≠ []))

def _QUESTION_HEADINGS : List Text :=
  ["question from the agent".toList, "questions from the agent".toList]

/-- A second-level heading with one of the titles of a question. -/
def Heading.opensQuestion (h : Heading) : Bool :=
  h.level == 2 && _QUESTION_HEADINGS.contains (casefold (squeezed h.title))

/-- `_has_question_heading`; `headings` is what the Markdown parser makes of a text. -/
def hasQuestionHeading (headings : Text → List Heading) (text : Text) : Bool :=
  (headings text).any Heading.opensQuestion

def _QUESTION_LIMIT : ℕ := 8000

def TRUNCATION_NOTE : Text := "\n\n[truncated; read the gate file for the rest]".toList

/-- The lines that `latest_question` will return, and whether a question has been found. -/
structure Span where
  start : ℕ
  stop : ℕ
  selected : Bool
deriving DecidableEq, Repr

/-- One heading in the loop of `latest_question`, over a text of `lines` lines. -/
def Span.see (lines : ℕ) (span : Span) (h : Heading) : Span :=
  if h.opensQuestion then { start := h.last, stop := lines, selected := true }
  else if span.selected && (h.level == 1 || h.level == 2) then
    { span with stop := min span.stop h.first }
  else span

/-- `_STATUS_RE.sub("", text, count=1)`. -/
def dropStatus (text : Text) : Text :=
  match searchStatus true text with
  | some (before, _, rest) => before ++ rest
  | none => text

/-- What `latest_question` returns of the question it has found. -/
def capped (limit : ℕ) (question : Text) : Text :=
  if question.length ≤ limit then question
  else Text.rstrip (question.take limit) ++ TRUNCATION_NOTE

/-- `latest_question`. -/
def latest_question (headings : Text → List Heading) (text : Text) (limit : ℕ) : Text :=
  let lines := Text.splitlines text
  let span := (headings text).foldl (Span.see lines.length) ⟨0, lines.length, false⟩
  let selected := (lines.take span.stop).drop span.start
  capped limit (Text.strip (dropStatus (['\n'].intercalate selected)))

end Stablemate.Gates
