import Mathlib.Data.List.Sort
import Stablemate.Lib.Reader
import Stablemate.Model.PyJson
import Stablemate.Model.Refs

/-!
# Declared checks (`ostler/checks.py`, `ostler/keys.py`)

A `verify:` bullet declares a check by a call with literal arguments. `parse_check` reads one,
`bind` types its arguments, and `CheckCall.text` is the spelling that every other part exchanges.

Python's own parser is given in part: `readCall` reads the calls that are spelled as `CheckCall.text`
spells them, and `elsewhere` is what the parser makes of any other text. `floatOf` is what it makes
of the numeral of a float, `re_error` what `re.compile` raises and `foreign` the name of the type of
a value that no literal is; `isWord` is a table of Unicode.
-/

namespace Stablemate.Verify

open PyJson (Value PyFloat Key)

/-! ## The vocabulary -/

inductive ParamType where
  | str | int | bool | scalar | strList | strDict
deriving DecidableEq

def ParamType.text : ParamType → Text
  | str => "str".toList
  | int => "int".toList
  | bool => "bool".toList
  | scalar => "scalar".toList
  | strList => "str[]".toList
  | strDict => "str\x7b\x7d".toList

structure CheckParam where
  name : Text
  type : ParamType
  required : Bool := false
  path : Bool := false
  locator : Bool := false
  pattern : Bool := false
  key : Bool := false
  event : Bool := false
  nonempty : Bool := false
  hidden : Bool := false
deriving DecidableEq

structure CheckSpec where
  name : Text
  params : List CheckParam
  excludes : Text
  observes : Text
  one_of : List Text := []
deriving DecidableEq

def CheckSpec.param (spec : CheckSpec) (name : Text) : Option CheckParam := spec.params.find? fun p => p.name = name

def CheckSpec.signature (spec : CheckSpec) : Text :=
  let parts := (spec.params.filter fun p => !p.hidden).map fun p =>
    p.name ++ (if p.required then ['*'] else []) ++ "=<".toList ++ p.type.text ++ ['>'] ++
      (if p.path then " (path)".toList else []) ++ if p.locator then " (locator)".toList else []
  spec.name ++ ['('] ++ commaList parts ++ [')'] ++
    if spec.one_of = [] then [] else " — one of ".toList ++ commaList spec.one_of

def _DECLARED : List CheckSpec := [
  { name := "http_status".toList
    params :=
      [{ name := "code".toList, type := .int, required := true },
       { name := "title".toList, type := .str },
       { name := "method".toList, type := .str },
       { name := "path".toList, type := .str }]
    excludes := ("a branch that returns the right shape under the wrong status, and an error response " ++
      "distinguished from its siblings only by a body nobody read").toList
    observes := "response".toList },
  { name := "grpc_status".toList
    params :=
      [{ name := "code".toList, type := .str, required := true }]
    excludes := ("an rpc that answers with the right message under the wrong gRPC status, and a refusal told " ++
      "apart from its siblings only by a message nobody read").toList
    observes := "response".toList },
  { name := "message_count".toList
    params :=
      [{ name := "equals".toList, type := .int },
       { name := "at_least".toList, type := .int },
       { name := "path".toList, type := .str, path := true }]
    excludes := ("a stream that delivers the expected message and also extras or duplicates nobody counted, and a " ++
      "stream that delivered nothing judged only by its status").toList
    observes := "response".toList
    one_of := ["equals".toList, "at_least".toList] },
  { name := "response_header".toList
    params :=
      [{ name := "name".toList, type := .str, required := true },
       { name := "equals".toList, type := .str },
       { name := "matches".toList, type := .str, pattern := true }]
    excludes := ("a route that answers the right status with the wrong content type or disposition, which a " ++
      "client then misreads or saves under the wrong name").toList
    observes := "response".toList
    one_of := ["equals".toList, "matches".toList] },
  { name := "json_path".toList
    params :=
      [{ name := "path".toList, type := .str, required := true, path := true },
       { name := "equals".toList, type := .scalar },
       { name := "matches".toList, type := .str, pattern := true },
       { name := "absent".toList, type := .bool },
       { name := "file".toList, type := .str }]
    excludes := ("a field asserted by presence rather than value, which passes on the default the defect also " ++
      "produces").toList
    observes := "body".toList
    one_of := ["equals".toList, "matches".toList, "absent".toList] },
  { name := "unchanged".toList
    params :=
      [{ name := "subject".toList, type := .str, required := true },
       { name := "except_fields".toList, type := .strList }]
    excludes := ("collateral damage outside the field under test — the defect a diff that masks the whole object " ++
      "before comparing cannot see").toList
    observes := "subject-pair".toList },
  { name := "keys_unchanged".toList
    params :=
      [{ name := "subject".toList, type := .str, required := true }]
    excludes := ("a move implemented as a copy: every object compared individually matches, and only the key " ++
      "inventory shows the old one is still there").toList
    observes := "subject-pair".toList },
  { name := "count".toList
    params :=
      [{ name := "subject".toList, type := .str, required := true },
       { name := "equals".toList, type := .int, required := true },
       { name := "file".toList, type := .str }]
    excludes := "an operation that produced the expected item *and* extras nobody counted".toList
    observes := "subject".toList },
  { name := "absent".toList
    params :=
      [{ name := "subject".toList, type := .str, required := true }]
    excludes := "a delete that hid the thing from one surface and left it readable on another".toList
    observes := "subject".toList },
  { name := "created".toList
    params :=
      [{ name := "subject".toList, type := .str, required := true }]
    excludes := ("a thing that was already there reported as created — a presence check run only afterwards " ++
      "passes identically on a no-op, so the absence before the action is part of the observation " ++
      "rather than an assumption about it").toList
    observes := "subject-pair".toList },
  { name := "removed".toList
    params :=
      [{ name := "subject".toList, type := .str, required := true }]
    excludes := ("a delete asserted only by absence afterwards, which passes identically when the subject was " ++
      "never there — the presence before the action is what makes the disappearance attributable to it").toList
    observes := "subject-pair".toList },
  { name := "visible".toList
    params :=
      [{ name := "locator".toList, type := .str, required := true, locator := true },
       { name := "text".toList, type := .str },
       { name := "count".toList, type := .int }]
    excludes := ("an element present in the tree but not on the screen, the right widget showing the wrong " ++
      "content, and one panel drawn where the book promises three").toList
    observes := "page".toList },
  { name := "actionable".toList
    params :=
      [{ name := "locator".toList, type := .str, required := true, locator := true }]
    excludes := ("a control the book says the user can use and the product has disabled — which `visible` passes, " ++
      "because a greyed-out button is on the screen and reads the right label").toList
    observes := "page".toList },
  { name := "inert".toList
    params :=
      [{ name := "locator".toList, type := .str, required := true, locator := true }]
    excludes := ("a control the product leaves usable after the state that should have closed it, which no " ++
      "assertion about what is on the screen can see: the defect is that the element still accepts the " ++
      "action, not that it is still drawn").toList
    observes := "page".toList },
  { name := "hidden".toList
    params :=
      [{ name := "locator".toList, type := .str, required := true, locator := true }]
    excludes := ("a control the book says is gone, such as a dialog that closed or an option withdrawn, that the " ++
      "product still draws. `inert` passes a leftover that is disabled, and `visible` can only claim " ++
      "the opposite").toList
    observes := "page".toList },
  { name := "focusable".toList
    params :=
      [{ name := "locator".toList, type := .str, required := true, locator := true },
       { name := "activates".toList, type := .str, key := true }]
    excludes := ("a control reachable only by pointer, which `visible`/`actionable` both pass because it is on " ++
      "the screen and enabled — and, when `activates` is given, a control that receives focus but does " ++
      "not fire on the key the book names, which no assertion about what is drawn can see: the defect " ++
      "is in what the keypress does, not in what is on the screen").toList
    observes := "keyboard".toList },
  { name := "attribute".toList
    params :=
      [{ name := "locator".toList, type := .str, required := true, locator := true },
       { name := "name".toList, type := .str, required := true },
       { name := "equals".toList, type := .str },
       { name := "matches".toList, type := .str, pattern := true }]
    excludes := ("markup the user never sees drawn and still depends on, such as the page language a screen " ++
      "reader speaks in, an alternate-language link a search engine follows or a state a control " ++
      "announces, which no assertion about what is on the screen can see").toList
    observes := "dom".toList
    one_of := ["equals".toList, "matches".toList] },
  { name := "value".toList
    params :=
      [{ name := "locator".toList, type := .str, required := true, locator := true },
       { name := "equals".toList, type := .str },
       { name := "matches".toList, type := .str, pattern := true }]
    excludes := ("a field that holds the wrong text, such as a slug the product derived or overwrote, which " ++
      "`visible` cannot read because what a field holds is not its text and `attribute` reads only the " ++
      "value the markup started with").toList
    observes := "dom".toList
    one_of := ["equals".toList, "matches".toList] },
  { name := "focused".toList
    params :=
      [{ name := "locator".toList, type := .str, required := true, locator := true }]
    excludes := ("keyboard focus that escapes an open dialog or lands nowhere after it closes, which `focusable` " ++
      "passes, because it moves focus itself and reads only whether the control can take it").toList
    observes := "dom".toList },
  { name := "title".toList
    params :=
      [{ name := "equals".toList, type := .str },
       { name := "matches".toList, type := .str, pattern := true }]
    excludes := ("a screen that draws the right content under the wrong document title, which the browser tab, " ++
      "the history list and a screen reader announce and no assertion about an element on the page can " ++
      "see").toList
    observes := "title".toList
    one_of := ["equals".toList, "matches".toList] },
  { name := "console".toList
    params :=
      [{ name := "level".toList, type := .str },
       { name := "text".toList, type := .str },
       { name := "matches".toList, type := .str, pattern := true },
       { name := "count".toList, type := .int }]
    excludes := ("an action whose only trace is what the page logs, such as a warning the book says the app " ++
      "raises or a log line it says the app never writes, which no assertion about what is drawn can " ++
      "see").toList
    observes := "console".toList
    one_of := ["text".toList, "matches".toList] },
  { name := "url".toList
    params :=
      [{ name := "equals".toList, type := .str },
       { name := "matches".toList, type := .str, pattern := true }]
    excludes := ("a screen that draws the right content at the wrong address, such as a link that drops its query " ++
      "or fragment, or a redirect the book says never happens, which a bookmark, a shared link and the " ++
      "back button see and no assertion about an element on the page can").toList
    observes := "url".toList
    one_of := ["equals".toList, "matches".toList] },
  { name := "stored".toList
    params :=
      [{ name := "key".toList, type := .str },
       { name := "records".toList, type := .str },
       { name := "text".toList, type := .str },
       { name := "matches".toList, type := .str, pattern := true },
       { name := "count".toList, type := .int }]
    excludes := ("a write the page keeps in the browser and never draws, such as a draft in IndexedDB or a " ++
      "preference in localStorage, which no assertion about what is on the screen can see until a " ++
      "reload that also discards the evidence").toList
    observes := "stored".toList
    one_of := ["key".toList, "records".toList] },
  { name := "clipboard".toList
    params :=
      [{ name := "text".toList, type := .str },
       { name := "matches".toList, type := .str, pattern := true }]
    excludes := ("a copy action that confirms on the screen and puts the wrong text, or nothing, on the " ++
      "clipboard, which no assertion about what is drawn can see").toList
    observes := "clipboard".toList
    one_of := ["text".toList, "matches".toList] },
  { name := "downloaded".toList
    params :=
      [{ name := "name".toList, type := .str },
       { name := "text".toList, type := .str },
       { name := "matches".toList, type := .str, pattern := true },
       { name := "count".toList, type := .int }]
    excludes := ("an export that confirms on the screen and hands the user the wrong file, an empty one or none, " ++
      "which no assertion about what is drawn can see").toList
    observes := "download".toList
    one_of := ["name".toList, "text".toList, "matches".toList] },
  { name := "persists".toList
    params :=
      [{ name := "subject".toList, type := .str, required := true }]
    excludes := ("a write observed only through the same session that made it, which cannot tell a commit from a " ++
      "cache").toList
    observes := "subject-pair".toList },
  { name := "emitted".toList
    params :=
      [{ name := "event".toList, type := .str, required := true },
       { name := "count".toList, type := .int }]
    excludes := ("an effect asserted at its source instead of at its subscriber, and an at-most-once effect fired " ++
      "twice").toList
    observes := "subject".toList },
  { name := "omits".toList
    params :=
      [{ name := "subject".toList, type := .str, required := true, path := true },
       { name := "text".toList, type := .str },
       { name := "matches".toList, type := .str, pattern := true }]
    excludes := ("a value the response was never supposed to carry — a refusal quoting the credential it " ++
      "rejected, an error echoing an internal path — which every other check in this vocabulary passes " ++
      "over, because they all assert what the subject does hold and a book's clause about what it may " ++
      "*not* hold has no positive form").toList
    observes := "response".toList
    one_of := ["text".toList, "matches".toList] },
  { name := "exit_status".toList
    params :=
      [{ name := "code".toList, type := .int, required := true }]
    excludes := ("a command that failed, or succeeded for the wrong reason, and the plan only read its output — a " ++
      "tool result asserted by what it printed passes identically when the process printed it on the " ++
      "way to a non-zero exit").toList
    observes := "subject".toList },
  { name := "stdout".toList
    params :=
      [{ name := "text".toList, type := .str },
       { name := "matches".toList, type := .str, pattern := true }]
    excludes := ("a command that exits with the right code and prints the wrong thing — the wrong total, the " ++
      "wrong row, a report the book says it writes and the process never did — which `exit_status` " ++
      "passes, because it reads how the process ended and not what it said").toList
    observes := "subject".toList
    one_of := ["text".toList, "matches".toList] },
  { name := "stderr".toList
    params :=
      [{ name := "text".toList, type := .str },
       { name := "matches".toList, type := .str, pattern := true }]
    excludes := ("a refusal that names no reason, or the wrong one — a command that exits non-zero for a missing " ++
      "ledger and tells the user the file is malformed — which `exit_status` passes, because every " ++
      "refusal ends with the same code").toList
    observes := "subject".toList
    one_of := ["text".toList, "matches".toList] },
  { name := "contents".toList
    params :=
      [{ name := "subject".toList, type := .str, required := true },
       { name := "text".toList, type := .str },
       { name := "matches".toList, type := .str, pattern := true }]
    excludes := ("a command that exits right and prints the right thing but writes the wrong thing to disk, such " ++
      "as the wrong row in an export or a ledger saved without the entry. `created` passes it, because " ++
      "it sees the file appear and not what it holds").toList
    observes := "subject".toList
    one_of := ["text".toList, "matches".toList] },
  { name := "conflict_on_stale".toList
    params :=
      [{ name := "subject".toList, type := .str, required := true },
       { name := "token".toList, type := .str }]
    excludes := ("an unconditional overwrite standing in for compare-and-swap — a write followed by a read cannot " ++
      "tell them apart, only a stale write refused can").toList
    observes := "response".toList }]

def INTERCEPTS : List CheckSpec := [
  { name := "rewrite".toList
    params :=
      [{ name := "event".toList, type := .str, required := true, event := true },
       { name := "find".toList, type := .str, required := true, nonempty := true },
       { name := "replace".toList, type := .str, required := true, nonempty := true }]
    excludes := ("a screen that takes its figures from the server's answer to one request instead of computing " ++
      "them itself").toList
    observes := "response".toList },
  { name := "hold".toList
    params :=
      [{ name := "event".toList, type := .str, required := true, event := true }]
    excludes := ("a screen that shows its in-progress state only once the server has answered, or that stays " ++
      "usable while the answer is outstanding").toList
    observes := "response".toList }]

def WITHIN : CheckParam := { name := "within".toList, type := .int, hidden := true }

def CHECKS : List CheckSpec := _DECLARED.map fun spec =>
  if spec.observes = "subject".toList ∨ spec.observes = "subject-pair".toList then
    { spec with params := spec.params ++ [WITHIN] }
  else spec

/-- `CHECK_BY_NAME` and `INTERCEPT_BY_NAME` -/
inductive Table where
  | checks | intercepts
deriving DecidableEq

def Table.specs : Table → List CheckSpec
  | checks => CHECKS
  | intercepts => INTERCEPTS

def Table.spec (table : Table) (name : Text) : Option CheckSpec := table.specs.find? fun spec => spec.name = name

/-! ## Values and their spelling -/

/-- A value that `_typed` lets through. -/
inductive CheckValue where
  | str (s : Text)
  | int (i : ℤ)
  | float (x : PyFloat)
  | bool (b : Bool)
  | list (items : List Text)
  | dict (items : List (Text × Text))
deriving DecidableEq

/-- The value, as any other. -/
def CheckValue.value : CheckValue → Value
  | str s => .str s
  | int i => .int i
  | float x => .float x
  | bool b => .bool b
  | list items => .list (items.map .str)
  | dict items => .dict (items.map fun kv => (.str kv.1, .str kv.2))

/-- `repr` of a float. -/
def floatRepr : PyFloat → Text
  | .fin _ repr => repr
  | .inf => "inf".toList
  | .negInf => "-inf".toList
  | .nan => "nan".toList

/-- `str(i)`, which is refused beyond 4300 digits. -/
def intText (i : ℤ) : Except Text Text :=
  if (Nat.toDigits 10 i.natAbs).length ≤ 4300 then pure (PyJson.decimal i)
  else throw ("Exceeds the limit (4300 digits) for integer string conversion; " ++
    "use sys.set_int_max_str_digits() to increase the limit").toList

/-- One character between the quotes. -/
def quoteChar (c : Char) : Text := if c = '"' then ['\\', '"'] else [c]

def quoted (s : Text) : Text := '"' :: s.flatMap quoteChar ++ ['"']

def literal : CheckValue → Except Text Text
  | .bool b => pure (if b then "true".toList else "false".toList)
  | .list items => pure (['['] ++ commaList (items.map quoted) ++ [']'])
  | .dict items => pure (['\x7b'] ++ commaList (items.map fun kv => quoted kv.1 ++ ": ".toList ++ quoted kv.2) ++ ['\x7d'])
  | .int i => intText i
  | .float x => pure (floatRepr x)
  | .str s => pure (quoted s)

def _spelled (value : CheckValue) (param : CheckParam) : Except Text Text :=
  if param.path ∧ value = .str [] then pure "\"$\"".toList else literal value

def _rooted : CheckValue → CheckValue
  | .str ('$' :: rest) => .str (rest.dropWhile fun c => c = '.')
  | value => value

structure CheckCall where
  name : Text
  args : List (Text × CheckValue)

/-- `self.args.get(name)` -/
def CheckCall.arg (call : CheckCall) (name : Text) : Option CheckValue := call.args.lookup name

/-- One argument as `text` spells it, if it is bound. -/
def CheckCall.part (call : CheckCall) (p : CheckParam) : Option (Except Text Text) :=
  (call.arg p.name).map fun value => do
    let spelled ← _spelled value p
    pure (p.name ++ ['='] ++ spelled)

def CheckCall.text (call : CheckCall) : Except Text Text := do
  let spec ← (Table.checks.spec call.name).elim (throw (Text.repr call.name)) pure
  let parts ← (spec.params.filterMap call.part).mapM id
  pure (call.name ++ ['('] ++ commaList parts ++ [')'])

/-! ## Literals, as Python reads them -/

/-- What `_value` makes of an argument; `none` is one that is no literal. -/
abbrev Node := Option Value

/-- A call expression of a name. -/
structure Expr where
  name : Text
  args : List Node
  keywords : List (Option Text × Node)

/-- The escape sequences of one character; `none` is one that goes on, or that a line ends. -/
def escape (c : Char) : Option Text :=
  if c = '\\' ∨ c = '"' ∨ c = Char.ofNat 39 then some [c]
  else if c = 'a' then some [Char.ofNat 7]
  else if c = 'b' then some [Char.ofNat 8]
  else if c = 'f' then some [Char.ofNat 12]
  else if c = 'n' then some ['\n']
  else if c = 'r' then some ['\r']
  else if c = 't' then some ['\t']
  else if c = 'v' then some [Char.ofNat 11]
  else if ('0' ≤ c ∧ c ≤ '7') ∨ c = 'x' ∨ c = 'N' ∨ c = 'u' ∨ c = 'U' ∨ c = '\n' ∨ c = '\r' ∨ c.toNat = 0 then none
  -- an escape that Python does not know keeps its backslash
  else some ['\\', c]

/-- A string after its opening quote, up to the closing one. -/
def readString : Text → Option (Text × Text)
  | [] => none
  | '"' :: rest => some ([], rest)
  | ['\\'] => none
  | '\\' :: c :: rest => do
    let chars ← escape c
    let (s, rest) ← readString rest
    pure (chars ++ s, rest)
  | c :: rest =>
    if c = '\n' ∨ c = '\r' ∨ c.toNat = 0 then none else (readString rest).map fun found => (c :: found.1, found.2)

/-- `[0-9]+` without a leading zero. -/
def isNatural (text : Text) : Bool := text ≠ [] && text.all Char.isDigit && (text = ['0'] || text.head? ≠ some '0')

/-- `[0-9]+[.][0-9]+`, `[0-9]+([.][0-9]+)?e[+-][0-9]+` -/
def isFloatText (text : Text) : Bool :=
  let whole := text.takeWhile Char.isDigit
  let rest := text.drop whole.length
  let fraction := if rest.head? = some '.' then rest.tail.takeWhile Char.isDigit else []
  let rest' := if rest.head? = some '.' then rest.tail.drop fraction.length else rest
  let exponent := match rest' with
    | 'e' :: sign :: digits => (sign = '+' || sign = '-') && digits ≠ [] && digits.all Char.isDigit
    | _ => false
  whole ≠ [] && ((rest.head? = some '.' && fraction ≠ [] && (rest' = [] || exponent)) || (rest = rest' && exponent))

def isNumeral (c : Char) : Bool := Char.isDigit c || c = '.' || c = 'e' || c = '+' || c = '-'

/-- The digits of a numeral, without its sign. -/
def unsigned (text : Text) : Text := if text.head? = some '-' then text.tail else text

def isIdent (c : Char) : Bool := ('a' ≤ c && c ≤ 'z') || c = '_'

/-- The keywords of Python that are spelled like the name of a check. -/
def PYTHON_KEYWORDS : List Text := ["and", "as", "assert", "async", "await", "break", "class", "continue", "def", "del", "elif",
  "else", "except", "finally", "for", "from", "global", "if", "import", "in", "is", "lambda", "nonlocal", "not", "or", "pass",
  "raise", "return", "try", "while", "with", "yield"].map String.toList

section Reading

variable (floatOf : Text → PyFloat)

/-- A numeral or a word. -/
def readWord (text : Text) : Option (Value × Text) :=
  let word := text.takeWhile isIdent
  if word = "true".toList then some (.bool true, text.drop 4)
  else if word = "false".toList then some (.bool false, text.drop 5)
  else
    let numeral := text.takeWhile isNumeral
    let rest := text.drop numeral.length
    if isNatural (unsigned numeral) ∧ (unsigned numeral).length ≤ 4300 then
      some (.int (if numeral.head? = some '-' then -(Nat.ofDigitChars 10 numeral.tail 0 : ℤ)
        else Nat.ofDigitChars 10 numeral 0), rest)
    else if isFloatText (unsigned numeral) then some (.float (floatOf numeral), rest)
    else none

/-- A quoted text. -/
def readText : Text → Option (Text × Text)
  | '"' :: rest => readString rest
  | _ => none

def readValue : Text → Option (Value × Text)
  | '"' :: rest => (readString rest).map fun found => (.str found.1, found.2)
  | '[' :: ']' :: rest => some (.list [], rest)
  | '[' :: rest => (readItems readText ']' rest.length rest).map fun found => (.list (found.1.map .str), found.2)
  | text => readWord floatOf text

def readKeyword (text : Text) : Option ((Text × Value) × Text) :=
  let key := text.takeWhile isIdent
  if key ≠ [] ∧ key ∉ PYTHON_KEYWORDS then
    match text.drop key.length with
    | '=' :: rest => (readValue floatOf rest).map fun found => ((key, found.1), found.2)
    | _ => none
  else none

def readKeywords (text : Text) : Option (List (Text × Value)) :=
  if text = [')'] then some []
  else match readItems (readKeyword floatOf) ')' text.length text with
  | some (keywords, []) => some keywords
  | _ => none

/-- A call that is spelled as `CheckCall.text` spells it. -/
def readCall (text : Text) : Option Expr :=
  let name := text.takeWhile isIdent
  if name ≠ [] ∧ name ∉ PYTHON_KEYWORDS then
    match text.drop name.length with
    | '(' :: rest => (readKeywords floatOf rest).map fun keywords =>
        ⟨name, [], keywords.map fun kv => (some kv.1, some kv.2)⟩
    | _ => none
  else none

end Reading

/-! ## `_unwrap` -/

/-- `[ \t]` -/
def isBlank (c : Char) : Bool := c = ' ' || c = '\t'

/-- `_SOFT_BREAK.sub(fold, value)`: `blank` is the reversed text of the blanks that a break may take,
and `after` says that a break has just been taken, with the blanks behind it. -/
def softBreaks (fold : Text) : Bool → Text → Text → Text
  | _, blank, [] => blank.reverse
  | after, blank, c :: cs =>
    if c = '\n' then fold ++ softBreaks fold true [] cs
    else if isBlank c then (if after then softBreaks fold true [] cs else softBreaks fold false (c :: blank) cs)
    else blank.reverse ++ c :: softBreaks fold false [] cs

/-- The text between `k` back-ticks on both sides, in which no `k` back-ticks begin. -/
def codeSpan (text : Text) (k : ℕ) : Option Text :=
  let ticks := List.replicate k '`'
  if 2 * k ≤ text.length ∧ ticks.isPrefixOf text ∧ ticks.isSuffixOf text ∧
      (List.range (text.length - 2 * k)).all fun i => !ticks.isPrefixOf (text.drop (k + i)) then
    some ((text.drop k).take (text.length - 2 * k))
  else none

/-- `_CODE_SPAN.sub(r"\2", text)`: the longest run of back-ticks that opens and closes the text. -/
def openSpan (text : Text) : Text :=
  let ticks := (text.takeWhile fun c => c = '`').length
  (((List.range ticks).reverse.map (· + 1)).findSome? (codeSpan text)).getD text

def _unwrap (value fold : Text) : Text := Text.strip (openSpan (Text.strip (softBreaks fold false [] value)))

/-! ## Refusals -/

structure Refusal where
  kind : Text
  message : Text
  form : Text
  relocates_to : Text := []
deriving DecidableEq

def tick (text : Text) : Text := '`' :: text ++ ['`']

def bad_arguments (spec : CheckSpec) (message : Text) : Refusal := ⟨"bad-arguments".toList, message, spec.signature, []⟩

def no_such_argument (spec : CheckSpec) (name key : Text) : Refusal :=
  bad_arguments spec (tick name ++ " has no argument ".toList ++ tick key ++ " — it takes: ".toList ++
    commaList (spec.params.map (·.name)))

def _vocabulary (table : Table) : Text := " | ".toList.intercalate (table.specs.map CheckSpec.signature)

def _unknown_check (name : Text) (table : Table) : Refusal :=
  let known := commaList ((table.specs.map (·.name)).insertionSort (· ≤ ·))
  let noun := if table = .checks then "check".toList else "intercept effect".toList
  ⟨"unknown-check".toList, tick name ++ " is not a known ".toList ++ noun ++ " — the vocabulary is: ".toList ++ known,
    _vocabulary table, []⟩

/-! ## Keys and events -/

def NAMED_KEYS : List Text := [
    "Alt", "AltGraph", "AltLeft", "AltRight", "ArrowDown", "ArrowLeft", "ArrowRight", "ArrowUp",
    "AudioVolumeDown", "AudioVolumeMute", "AudioVolumeUp", "Backquote", "Backslash", "Backspace",
    "BracketLeft", "BracketRight", "CapsLock", "Clear", "Comma", "ContextMenu", "Control",
    "ControlLeft", "ControlOrMeta", "ControlRight", "Delete", "End", "Enter", "Equal", "Escape",
    "Home", "Insert", "MediaPlayPause", "MediaTrackNext", "MediaTrackPrevious", "Meta", "MetaLeft",
    "MetaRight", "Minus", "NumLock", "NumpadAdd", "NumpadDecimal", "NumpadDivide", "NumpadEnter",
    "NumpadMultiply", "NumpadSubtract", "PageDown", "PageUp", "Pause", "Period", "PrintScreen",
    "Quote", "ScrollLock", "Semicolon", "Shift", "ShiftLeft", "ShiftRight", "Slash", "Space", "Tab"].map String.toList

/-- `_NUMBERED.fullmatch(part)` -/
def isNumberedKey (part : Text) : Bool :=
  match part with
  | ['K', 'e', 'y', c] => 'A' ≤ c && c ≤ 'Z'
  | ['D', 'i', 'g', 'i', 't', c] => Char.isDigit c
  | ['N', 'u', 'm', 'p', 'a', 'd', c] => Char.isDigit c
  | ['F', c] => '1' ≤ c && c ≤ '9'
  | ['F', '1', c] => '0' ≤ c && c ≤ '2'
  | _ => false

def _key (part : Text) : Bool :=
  List.contains NAMED_KEYS part || isNumberedKey part || (match part with
    | [c] => ' ' ≤ c && c ≤ '~'
    | _ => false)

/-- `_CHORD.split(text)`: a `+` that ends the text, or stands before its last newline, joins nothing. -/
def chordParts (part : Text) : Text → List Text
  | [] => [part.reverse]
  | c :: cs => if c = '+' ∧ cs ≠ [] ∧ cs ≠ ['\n'] then part.reverse :: chordParts [] cs else chordParts (c :: part) cs

def pressable (text : Text) : Bool := text ≠ [] && (chordParts [] text).all _key

/-- `REQUEST_EVENT.fullmatch(text)` -/
def isRequestEvent (text : Text) : Bool :=
  let method := text.takeWhile fun c => c ≠ ' '
  let path := (text.drop method.length).dropWhile fun c => c = ' '
  (["get", "post", "put", "patch", "delete", "head", "options"].map String.toList).contains (Text.lower method) &&
    path.head? = some '/' && path.tail.all fun c => !(Text.isSpace c || c = '?' || c = '#')

/-! ## `bind` -/

/-- A value that is a `str`. -/
def asText : Value → Option Text
  | .str s => some s
  | _ => none

def asEntry (kv : Key × Value) : Option (Text × Text) :=
  match kv.1 with
  | .str k => (asText kv.2).map fun s => (k, s)
  | _ => none

/-- `_typed`: the value, when it is of the declared type. -/
def _typed (value : Value) (declared : ParamType) : Option CheckValue :=
  match declared, value with
  | .str, .str s => some (.str s)
  | .int, .int i => some (.int i)
  | .bool, .bool b => some (.bool b)
  | .scalar, .str s => some (.str s)
  | .scalar, .int i => some (.int i)
  | .scalar, .float x => some (.float x)
  | .scalar, .bool b => some (.bool b)
  | .strList, .list items => (items.mapM asText).map .list
  | .strDict, .dict items => (items.mapM asEntry).map .dict
  | _, _ => none

section Binding

variable (foreign : Value → Text) (re_error : Text → Option Text)

/-- `type(value).__name__` -/
def typeName : Value → Text
  | .none => "NoneType".toList
  | .bool _ => "bool".toList
  | .int _ => "int".toList
  | .float _ => "float".toList
  | .str _ => "str".toList
  | .list _ => "list".toList
  | .tuple _ => "tuple".toList
  | .dict _ => "dict".toList
  | value => foreign value

/-- `str(value)` and `not value`, of a value that is a text wherever they are asked for. -/
def CheckValue.textOf : CheckValue → Text
  | .str s => s
  | _ => []

/-- `if c: return refusal` -/
def refuseWhen (c : Prop) [Decidable c] (refusal : Refusal) : Except Refusal Unit := if c then throw refusal else pure ()

/-- One turn of the loop of `bind`. -/
def bindOne (name : Text) (spec : CheckSpec) (key : Text) (value : Value) : Except Refusal (Text × CheckValue) := do
  let param ← (spec.param key).elim (throw (no_such_argument spec name key)) pure
  let typed ← (_typed value param.type).elim (throw (bad_arguments spec
    (tick name ++ ": ".toList ++ tick key ++ " is ".toList ++ param.type.text ++ ", got ".toList ++ typeName foreign value))) pure
  let text := typed.textOf
  (if param.pattern then re_error text else none).elim (pure ()) fun exc => throw (bad_arguments spec
    (tick name ++ ": ".toList ++ tick key ++ " is not a valid regular expression — ".toList ++ exc))
  refuseWhen (param.nonempty ∧ text = []) (bad_arguments spec
    (tick name ++ ": ".toList ++ tick key ++ " must not be empty".toList))
  refuseWhen (param.event ∧ ¬ isRequestEvent (Text.strip text)) (bad_arguments spec
    (tick name ++ ": ".toList ++ tick key ++ " is ".toList ++ tick text ++ (", and a request event is spelled " ++
      "`\"METHOD /path\"`, with each `\x7bname\x7d` standing for one path segment").toList))
  refuseWhen (param.key ∧ ¬ pressable text) (bad_arguments spec
    (tick name ++ ": ".toList ++ tick key ++ " names ".toList ++ tick text ++ (", and no browser can press that key. " ++
      "Name one key or chord such as `Enter`, `Shift+Tab` or `ControlOrMeta+z`").toList))
  pure (key, if param.path then _rooted typed else typed)

def bind (name : Text) (args : List (Text × Value)) (table : Table) : Except Refusal CheckCall := do
  let spec ← (table.spec name).elim (throw (_unknown_check name table)) pure
  let bound ← args.mapM fun kv => bindOne foreign re_error name spec kv.1 kv.2
  spec.params.forM fun param => refuseWhen (param.required ∧ param.name ∉ bound.map (·.1)) (bad_arguments spec
    (tick name ++ " requires ".toList ++ tick (param.name ++ ": ".toList ++ param.type.text)))
  refuseWhen (spec.one_of ≠ [] ∧ ∀ key ∈ spec.one_of, key ∉ bound.map (·.1)) (bad_arguments spec
    (tick name ++ " needs one of ".toList ++ commaList (spec.one_of.map tick) ++
      (" — without a comparison it asserts only that " ++ "the path resolved, and ").toList ++ spec.excludes))
  pure ⟨name, bound⟩

end Binding

/-! ## `parse_check` -/

/-- `Call` and `Malformed` -/
inductive Parsed where
  | call (name : Text) (positional : List Value) (keywords : List (Text × Value))
  | malformed (name problem : Text)

section Parsing

variable (floatOf : Text → PyFloat) (elsewhere : Text → Option Expr)

def parse_expression (text : Text) : Option Expr := (readCall floatOf text).or (elsewhere text)

/-- `_value`, and the test of a leading NUL on what it returns. -/
def boundValue (node : Node) : Except Text Value :=
  match node.getD (.str (Char.ofNat 0 :: "arguments must be literals — no names, no expressions".toList)) with
  | .str (c :: problem) => if c.toNat = 0 then throw problem else pure (.str (c :: problem))
  | value => pure value

/-- One keyword of `parse_call`. -/
def takeKeyword (keywords : List (Text × Value)) (keyword : Option Text × Node) : Except Text (List (Text × Value)) :=
  match keyword.1 with
  | none => throw "`**` is not an argument".toList
  | some arg =>
    if arg ∈ keywords.map (·.1) then throw (tick arg ++ " given twice".toList)
    else do
      let value ← boundValue keyword.2
      pure (keywords ++ [(arg, value)])

/-- The arguments of a call, or why one of them is none. -/
def takeArguments (e : Expr) : Except Text (List Value × List (Text × Value)) := do
  let positional ← e.args.mapM boundValue
  let keywords ← e.keywords.foldlM takeKeyword []
  pure (positional, keywords)

/-- A call expression, with its arguments as values. -/
def Expr.parsed (e : Expr) : Parsed :=
  match takeArguments e with
  | .ok (positional, keywords) => .call e.name positional keywords
  | .error problem => .malformed e.name problem

def parse_call (value : Text) : Option Parsed :=
  let text := _unwrap value [' ']
  if text = [] then none else (parse_expression floatOf elsewhere text).map Expr.parsed

/-- One keyword of `spread_call`. -/
def spreadOne (spec : CheckSpec) (name : Text) (args : List (Text × Value)) (kv : Text × Value) :
    Except Refusal (List (Text × Value)) :=
  match spec.param kv.1 with
  | none => throw (no_such_argument spec name kv.1)
  | some param =>
    if param.name ∈ args.map (·.1) then
      throw (bad_arguments spec (tick name ++ ": ".toList ++ tick param.name ++ " given twice".toList))
    else pure (args ++ [(param.name, kv.2)])

def spread_call (spec : CheckSpec) (name : Text) (positional : List Value) (keywords : List (Text × Value)) :
    Except Refusal (List (Text × Value)) :=
  if positional.length > spec.params.length then
    throw (bad_arguments spec (tick name ++ " takes at most ".toList ++ Nat.toDigits 10 spec.params.length ++ " arguments".toList))
  else keywords.foldlM (spreadOne spec name) ((spec.params.map (·.name)).zip positional)

/-- The arguments of a call, in order. -/
def Parsed.values : Parsed → List Value
  | call _ positional keywords => positional ++ keywords.map (·.2)
  | malformed _ _ => []

/-- `_string_edge_broken_by_soft_break` -/
def brokenEdge (value : Text) (folded : Parsed) : Option Text :=
  if '\n' ∉ value then none
  else match parse_call floatOf elsewhere (_unwrap value [' ', ' ']) with
  | some (.call name positional keywords) =>
    (folded.values.zip (Parsed.call name positional keywords).values).findSome? fun pair =>
      (asText pair.1).bind fun text => if asText pair.2 ≠ some text ∧ text ≠ Text.strip text then some text else none
  | _ => none

variable (leading_code_spans : Text → List Text) (isWord : Char → Bool)

/-- `bool(Path(path).suffix)` -/
def hasSuffix (path : Text) : Bool :=
  let name := (((path.splitOn '/').filter fun part => part ≠ [] && part ≠ ['.']).getLast?).getD []
  let last := name.reverse.takeWhile fun c => c ≠ '.'
  last ≠ [] && last.length + 1 < name.length

/-- `refs.ref_path` -/
def refPath (ref : Text) : Text :=
  match Refs.parse_code_ref ref with
  | .ok parsed => parsed.path
  | .error _ => (Refs.partition "::".toList ref).1

def relocatable_to_tests (value : Text) : Bool :=
  let spans := leading_code_spans value
  let cited := (spans.map Refs.normalize_ref).filter fun ref => ref ≠ []
  (parse_call floatOf elsewhere (_unwrap value [' '])).isNone && spans ≠ [] &&
    (spans.all fun span => (parse_call floatOf elsewhere (_unwrap span [' '])).isNone) &&
    cited ≠ [] && cited.all fun ref => hasSuffix (refPath ref)

def _TEST_REF_SUFFIXES : List Text := ["py", "ts", "tsx", "js", "jsx", "go", "rs", "php", "dart", "java", "kt"].map String.toList

/-- `_CALL_HEAD.match(text)`: the name before an opening bracket. -/
def callHead (text : Text) : Option Text :=
  let name := text.takeWhile isWord
  if (name.head?.any fun c => ('A' ≤ c && c ≤ 'Z') || ('a' ≤ c && c ≤ 'z') || c = '_') &&
      ((text.drop name.length).dropWhile Text.isSpace).head? = some '(' then some name
  else none

def _not_a_call (text : Text) : Refusal :=
  match (callHead isWord text).bind Table.checks.spec with
  | some spec => ⟨"bad-arguments".toList, tick text ++ ": ".toList ++ tick spec.name ++
      (" is a known check, but its arguments did not " ++ "parse — they are written `name=value`").toList, spec.signature, []⟩
  | none =>
    if Text.contains "::".toList text ∨ List.contains _TEST_REF_SUFFIXES ((text.reverse.takeWhile fun c => c ≠ '.').reverse) ∨
        relocatable_to_tests floatOf elsewhere leading_code_spans text then
      ⟨"misfiled-test-ref".toList, tick text ++ (" is a code/test reference, not a check — a test id says which code " ++
        "ran, not what was observed. Declare the observation here as a call, e.g. " ++
        "`visible(locator=…)`; `ostler checks` lists the vocabulary").toList, text, "tests".toList⟩
    else
      ⟨"not-a-call".toList, tick text ++ (" is not a check call — expected `name(arg=…)`; see " ++ "`ostler checks`").toList,
        _vocabulary .checks, []⟩

variable (foreign : Value → Text) (re_error : Text → Option Text)

def _parse (value : Text) (table : Table) : Except Refusal CheckCall :=
  let text := _unwrap value [' ']
  if text = [] then throw ⟨"empty".toList, "empty".toList, _vocabulary table, []⟩
  else match parse_call floatOf elsewhere text with
  | none =>
    if table = .checks then throw (_not_a_call floatOf elsewhere leading_code_spans isWord text)
    else throw ⟨"not-a-call".toList, tick text ++ " is not a call — expected `name(arg=…)`".toList, _vocabulary table, []⟩
  | some (.malformed name problem) =>
    match table.spec name with
    | none => throw (_unknown_check name table)
    | some spec => throw (bad_arguments spec (tick name ++ ": ".toList ++ problem))
  | some (.call name positional keywords) =>
    match table.spec name with
    | none => throw (_unknown_check name table)
    | some spec =>
      match brokenEdge floatOf elsewhere value (.call name positional keywords) with
      | some broken => throw (bad_arguments spec (tick name ++ ": a line break opens or closes the string ".toList ++
          Text.repr broken ++ (", and markdown " ++
          "folds it to a space; write `\\n` for a newline, or keep the string on one line").toList))
      | none => do
        let args ← spread_call spec name positional keywords
        bind foreign re_error name args table

def parse_check (value : Text) : Except Refusal CheckCall :=
  _parse floatOf elsewhere leading_code_spans isWord foreign re_error value .checks

end Parsing

end Stablemate.Verify
