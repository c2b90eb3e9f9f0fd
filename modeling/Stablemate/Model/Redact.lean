import Mathlib.Data.List.Dedup
import Mathlib.Data.List.Sort
import Stablemate.Model.Text

/-!
# The secret redactor (`runner/redact.py`)

`SecretRedactor` rewrites every known spelling of a secret, and recognisable secret
shapes, to `••••` in a text fed to it in chunks. It holds back a tail of the text: `feed`
cuts the buffer `tailLen` characters before its end, rewrites what comes before the cut
and keeps the rest.

`stream` is everything the redactor returns for a sequence of chunks, `pieces` the
sections of the text it hands to `rewrite`, and `struck` the characters of one such
section that rewriting replaces.
-/

namespace Stablemate.Redact

/-- The bullet of `REDACTED`. -/
def bullet : Char := '•'

def REDACTED : Text := List.replicate 4 bullet

/-- The margin for the heuristic patterns, `_HEURISTIC_MARGIN`. -/
def HEURISTIC_MARGIN : ℕ := 64

/-- A pattern of `_PREFIX_PATTERNS`: `lead`, then `least` or more characters of `body`. -/
structure PrefixPattern where
  lead : Text
  body : Char → Bool
  least : ℕ

/-- How far the pattern matches at the front of the text; the repetition is greedy. -/
def PrefixPattern.matchLen (p : PrefixPattern) (text : Text) : ℕ :=
  if p.lead <+: text then
    let run := ((text.drop p.lead.length).takeWhile p.body).length
    if p.least ≤ run then p.lead.length + run else 0
  else 0

def isUpper (c : Char) : Bool := 'A' ≤ c && c ≤ 'Z'
def isLower (c : Char) : Bool := 'a' ≤ c && c ≤ 'z'
def isDigit (c : Char) : Bool := '0' ≤ c && c ≤ '9'
def isAlnum (c : Char) : Bool := isUpper c || isLower c || isDigit c

def PREFIX_PATTERNS : List PrefixPattern :=
  [⟨"sk-".toList, fun c => isAlnum c || c == '_' || c == '-', 10⟩,
   ⟨"ghp_".toList, isAlnum, 20⟩,
   ⟨"github_pat_".toList, fun c => isAlnum c || c == '_', 20⟩,
   ⟨"hvs.".toList, isAlnum, 20⟩,
   ⟨"AKIA".toList, fun c => isUpper c || isDigit c, 12⟩]

/-! ## The spellings of a secret -/

/-- The alphabet of base64. -/
def base64Alphabet : Text :=
  "ABCDEFGHIJKLMNOPQRSTUVWXYZabcdefghijklmnopqrstuvwxyz0123456789+/".toList

def base64Digit (d : ℕ) : Char := base64Alphabet.getD d 'A'

/-- `base64.b64encode`. -/
def b64encode : List ℕ → Text
  | [] => []
  | [a] => [base64Digit (a / 4), base64Digit (a % 4 * 16), '=', '=']
  | [a, b] => [base64Digit (a / 4), base64Digit (a % 4 * 16 + b / 16), base64Digit (b % 16 * 4), '=']
  | a :: b :: c :: rest =>
    base64Digit (a / 4) :: base64Digit (a % 4 * 16 + b / 16) :: base64Digit (b % 16 * 4 + c / 64) ::
      base64Digit (c % 64) :: b64encode rest

/-- One byte of `urllib.parse.quote(value, safe="")`. -/
def quoteByte (b : ℕ) : Text :=
  let c := Char.ofNat b
  if b < 128 ∧ (isAlnum c || c == '_' || c == '.' || c == '-' || c == '~') then [c]
  else ['%', Text.hexDigit true (b / 16 % 16), Text.hexDigit true (b % 16)]

/-- `urllib.parse.quote(value, safe="")`. -/
def quote (value : Text) : Text := (Text.utf8 value).flatMap quoteByte

/-- Every literal spelling of `value` that might appear in a CLI's output. -/
def derivedForms (value : Text) : List Text :=
  [value, b64encode (Text.utf8 value), quote value, Text.jsonEscaped value]

/-! ## The redactor -/

/-- What `__init__` builds from `secrets`: the spellings of the non-empty ones, each once,
longest first. Spellings of one length stand in the order the `set` gave them. -/
structure SecretRedactor (secrets : List Text) where
  needles : List Text
  mem_needles : ∀ n, n ∈ needles ↔ ∃ s ∈ secrets, s ≠ [] ∧ n ∈ derivedForms s
  nodup : needles.Nodup
  longest_first : needles.Pairwise fun a b => b.length ≤ a.length

/-- The redactor of `secrets`, ties broken by first appearance. -/
def SecretRedactor.init (secrets : List Text) : SecretRedactor secrets where
  needles := (((secrets.filter (· ≠ [])).flatMap derivedForms).dedup).insertionSort
    fun a b => b.length ≤ a.length
  mem_needles n := by simp [and_assoc]
  nodup := (List.perm_insertionSort _ _).nodup_iff.2 (List.nodup_dedup _)
  longest_first := by
    have : Std.Total fun a b : Text => b.length ≤ a.length := ⟨fun a b => le_total b.length a.length⟩
    have : IsTrans Text fun a b => b.length ≤ a.length := ⟨fun _ _ _ h h' => le_trans h' h⟩
    exact List.pairwise_insertionSort _ _

namespace SecretRedactor

variable {secrets : List Text} (R : SecretRedactor secrets)

/-- `_tail_len`. -/
def tailLen : ℕ := (R.needles.map fun n => n.length - 1).foldr max 0 + HEURISTIC_MARGIN

/-- `_rewrite`. -/
def rewrite (text : Text) : Text :=
  PREFIX_PATTERNS.foldl (fun t p => Scan.sub p.matchLen REDACTED 0 t)
    (R.needles.foldl (fun t n => Text.replace n REDACTED t) text)

/-- `feed`: what it returns, and the new buffer. -/
def feed (buffer chunk : Text) : Text × Text :=
  let buffer := buffer ++ chunk
  if buffer.length ≤ R.tailLen then ([], buffer)
  else (R.rewrite (buffer.take (buffer.length - R.tailLen)), buffer.drop (buffer.length - R.tailLen))

/-- `flush`: what it returns, and the new buffer. -/
def flush (buffer : Text) : Text × Text := (R.rewrite buffer, [])

/-- `redact`: one complete unit in a single call. -/
def redact (buffer text : Text) : Text × Text :=
  let (emitted, buffer) := R.feed buffer text
  let (rest, buffer) := R.flush buffer
  (emitted ++ rest, buffer)

/-- Every `feed` result for the chunks in order, then `flush()`. -/
def stream : Text → List Text → Text
  | buffer, [] => (R.flush buffer).1
  | buffer, chunk :: chunks =>
    let (emitted, buffer) := R.feed buffer chunk
    emitted ++ stream buffer chunks

/-! ## Where the text is cut, and what rewriting replaces -/

/-- The sections of the fed text that are rewritten each on its own. -/
def pieces : Text → List Text → List Text
  | buffer, [] => [buffer]
  | buffer, chunk :: chunks =>
    let buffer := buffer ++ chunk
    if buffer.length ≤ R.tailLen then pieces buffer chunks
    else buffer.take (buffer.length - R.tailLen) ::
      pieces (buffer.drop (buffer.length - R.tailLen)) chunks

/-- A section with a bullet for each character that rewriting replaces. -/
def blot (text : Text) : Text :=
  PREFIX_PATTERNS.foldl (fun t p => Scan.strike p.matchLen bullet 0 t)
    (R.needles.foldl (fun t n => Scan.strike (Scan.startsAt n) bullet 0 t) text)

/-- Which characters of a section rewriting replaces. -/
def struck (text : Text) : List Bool := List.zipWith (fun c d => c != d) text (R.blot text)

/-- A position where one section ends and the next begins. -/
def CutAt (ps : List Text) (c : ℕ) : Prop := ∃ k < ps.length, c = (ps.take k).flatten.length

/-- **A torn needle**: some needle stands in the text over a cut, and rewriting the
sections replaces none of its characters. -/
def Torn (ps : List Text) : Prop :=
  ∃ n ∈ R.needles, ∃ p c, n <+: ps.flatten.drop p ∧ CutAt ps c ∧ p < c ∧ c < p + n.length ∧
    ∀ i, p ≤ i → i < p + n.length → (ps.map R.struck).flatten[i]? = some false

end SecretRedactor

end Stablemate.Redact
