import Mathlib.Tactic.IntervalCases
import Stablemate.Lib.Scan

/-!
# Python text

A `str` is the list of its code points. The functions here are the methods of `str` that
the modelled code calls, with what they do outside ASCII where the code can tell.
-/

namespace Stablemate

/-- A Python `str`. -/
abbrev Text := List Char

instance : LawfulBEq Text := inferInstance

/-- A bounded statement about a text is decided on its characters, not on all there are. -/
instance (priority := high) (text : Text) (p : Char → Prop) [DecidablePred p] : Decidable (∀ c ∈ text, p c) :=
  List.decidableBAll p text

instance (priority := high) decidableExistsMem (text : Text) (p : Char → Prop) [DecidablePred p] :
    Decidable (∃ c ∈ text, p c) :=
  List.decidableBEx p text

instance (priority := high) decidableExistsMemOption (c? : Option Char) (p : Char → Prop) [DecidablePred p] :
    Decidable (∃ c ∈ c?, p c) :=
  Option.decidableExistsMem c?

namespace Text

/-- `str.replace(old, new)`. An empty `old` is found before every character and at the end. -/
def replace (old new text : Text) : Text :=
  if old = [] then new ++ text.flatMap fun c => c :: new
  else Scan.sub (Scan.startsAt old) new 0 text

/-- `needle in text`. -/
def contains (needle text : Text) : Bool := decide (needle <:+: text)

/-- One character of `str.lower()`. The Kelvin sign and the dotted capital I are the two
characters outside ASCII whose lower case has an ASCII letter. -/
def lowerChar (c : Char) : Text :=
  if 'A' ≤ c ∧ c ≤ 'Z' then [Char.ofNat (c.toNat + 32)]
  else if c.toNat = 0x212A then ['k']
  else if c.toNat = 0x130 then ['i', Char.ofNat 0x307]
  else [c]

/-- `str.lower()`, up to letters whose lower case is not ASCII. -/
def lower (text : Text) : Text := text.flatMap lowerChar

/-- One character of `str.upper()`: the characters outside ASCII whose upper case is ASCII. -/
def upperChar (c : Char) : Text :=
  if 'a' ≤ c ∧ c ≤ 'z' then [Char.ofNat (c.toNat - 32)]
  else if c.toNat = 0x131 then ['I']
  else if c.toNat = 0x17F then ['S']
  else if c.toNat = 0xDF then ['S', 'S']
  else if c.toNat = 0xFB00 then ['F', 'F']
  else if c.toNat = 0xFB01 then ['F', 'I']
  else if c.toNat = 0xFB02 then ['F', 'L']
  else if c.toNat = 0xFB03 then ['F', 'F', 'I']
  else if c.toNat = 0xFB04 then ['F', 'F', 'L']
  else if c.toNat = 0xFB05 ∨ c.toNat = 0xFB06 then ['S', 'T']
  else [c]

/-- `str.upper()`, up to letters whose upper case is not ASCII. -/
def upper (text : Text) : Text := text.flatMap upperChar

/-- The code points of `str.isspace()` and of `\s` in a pattern. -/
def isSpace (c : Char) : Bool :=
  let n := c.toNat
  (9 ≤ n && n ≤ 13) || (28 ≤ n && n ≤ 32) || n == 0x85 || n == 0xA0 || n == 0x1680 ||
    (0x2000 ≤ n && n ≤ 0x200A) || n == 0x2028 || n == 0x2029 || n == 0x202F || n == 0x205F ||
    n == 0x3000

/-- `str.rstrip()`. -/
def rstrip (text : Text) : Text := (text.reverse.dropWhile isSpace).reverse

/-- `str.strip()`. -/
def strip (text : Text) : Text := rstrip (text.dropWhile isSpace)

/-- The line boundaries of `str.splitlines()`. -/
def isBreak (c : Char) : Bool :=
  let n := c.toNat
  (10 ≤ n && n ≤ 13) || (28 ≤ n && n ≤ 30) || n == 0x85 || n == 0x2028 || n == 0x2029

/-- `str.splitlines()`, `line` being the reversed text of the line that is read. -/
def linesFrom (line : Text) : Text → List Text
  | [] => if line = [] then [] else [line.reverse]
  | '\r' :: '\n' :: cs => line.reverse :: linesFrom [] cs
  | c :: cs => if isBreak c then line.reverse :: linesFrom [] cs else linesFrom (c :: line) cs

/-- A boundary ends the line that is read. -/
theorem linesFrom_break {c : Char} {line cs : Text} (hc : isBreak c = true)
    (hpair : ∀ rest, c = '\r' → cs ≠ '\n' :: rest) :
    linesFrom line (c :: cs) = line.reverse :: linesFrom [] cs := by
  rw [linesFrom.eq_3 line c cs fun rest h h' => hpair rest h h', if_pos hc]

/-- Any other character belongs to it. -/
theorem linesFrom_plain {c : Char} {line cs : Text} (hc : isBreak c = false) :
    linesFrom line (c :: cs) = linesFrom (c :: line) cs := by
  have hne : c ≠ '\r' := by
    rintro rfl
    exact absurd hc (by decide)
  rw [linesFrom.eq_3 line c cs fun rest h _ => hne h, if_neg (by simp [hc])]

theorem linesFrom_ne_nil {line text : Text} (h : line ≠ [] ∨ text ≠ []) : linesFrom line text ≠ [] := by
  induction line, text using linesFrom.induct with
  | case1 => simp at h
  | case2 line hne => simp [linesFrom, hne]
  | case3 line cs ih => simp [linesFrom]
  | case4 line c cs hne hc ih =>
    rw [linesFrom_break hc fun rest h h' => hne rest h h']
    simp
  | case5 line c cs hne hc ih =>
    rw [linesFrom_plain (by simpa using hc)]
    exact ih (.inl (by simp))

/-- `str.splitlines()` -/
def splitlines (text : Text) : List Text := linesFrom [] text

/-- `str.find(needle)` -/
def find (needle : Text) : Text → Option ℕ
  | [] => if needle = [] then some 0 else none
  | c :: cs => if needle.isPrefixOf (c :: cs) then some 0 else (find needle cs).map (· + 1)

/-- What reading a file as text makes of its line ends. -/
def newlines : Text → Text
  | [] => []
  | '\r' :: '\n' :: cs => '\n' :: newlines cs
  | '\r' :: cs => '\n' :: newlines cs
  | c :: cs => c :: newlines cs

/-- The UTF-8 bytes of a code point. -/
def utf8Char (c : Char) : List ℕ :=
  let n := c.toNat
  if n < 0x80 then [n]
  else if n < 0x800 then [0xC0 + n / 64, 0x80 + n % 64]
  else if n < 0x10000 then [0xE0 + n / 4096, 0x80 + n / 64 % 64, 0x80 + n % 64]
  else [0xF0 + n / 262144, 0x80 + n / 4096 % 64, 0x80 + n / 64 % 64, 0x80 + n % 64]

/-- `str.encode("utf-8")`. -/
def utf8 (text : Text) : List ℕ := text.flatMap utf8Char

/-- A digit of a hexadecimal numeral. -/
def hexDigit (upper : Bool) (d : ℕ) : Char :=
  if d < 10 then Char.ofNat (48 + d) else Char.ofNat ((if upper then 55 else 87) + d)

/-- A four-digit `\u` escape, in lower case as `json` writes it. -/
def unicodeEscape (n : ℕ) : Text :=
  ['\\', 'u', hexDigit false (n / 4096 % 16), hexDigit false (n / 256 % 16),
    hexDigit false (n / 16 % 16), hexDigit false (n % 16)]

/-- One character inside a JSON string, as `json.dumps` writes it with `ensure_ascii`. -/
def jsonChar (c : Char) : Text :=
  let n := c.toNat
  if c = '"' then ['\\', '"']
  else if c = '\\' then ['\\', '\\']
  else if n = 10 then ['\\', 'n']
  else if n = 13 then ['\\', 'r']
  else if n = 9 then ['\\', 't']
  else if n = 12 then ['\\', 'f']
  else if n = 8 then ['\\', 'b']
  else if 32 ≤ n ∧ n ≤ 126 then [c]
  else if n < 0x10000 then unicodeEscape n
  -- a code point past the basic plane is written as its two surrogates
  else unicodeEscape (0xD800 + (n - 0x10000) / 1024) ++ unicodeEscape (0xDC00 + (n - 0x10000) % 1024)

/-- `json.dumps(text)[1:-1]`. -/
def jsonEscaped (text : Text) : Text := text.flatMap jsonChar

/-- `repr` of a text, characters outside ASCII taken for printable. -/
def repr (text : Text) : Text :=
  let single := Char.ofNat 39
  let quote := if List.contains text single && !List.contains text '"' then '"' else single
  let escaped := text.flatMap fun c =>
    if c = '\\' || c = quote then ['\\', c]
    else if c = '\n' then ['\\', 'n']
    else if c = '\r' then ['\\', 'r']
    else if c = '\t' then ['\\', 't']
    else if c.toNat < 32 || c.toNat = 127 then
      ['\\', 'x', hexDigit false (c.toNat / 16), hexDigit false (c.toNat % 16)]
    else [c]
  quote :: escaped ++ [quote]

/-! ## What these functions write is ASCII -/

/-- Every character is ASCII. -/
def Ascii (text : Text) : Prop := ∀ c ∈ text, c.toNat < 128

theorem Ascii.of_all {t : Text} (h : (t.all fun c => c.toNat < 128) = true) : Ascii t :=
  fun c hc => of_decide_eq_true (List.all_eq_true.1 h c hc)

theorem Ascii.append {s t : Text} (hs : Ascii s) (ht : Ascii t) : Ascii (s ++ t) :=
  fun c hc => (List.mem_append.1 hc).elim (hs c) (ht c)

theorem Ascii.flatMap {α : Type} {l : List α} {f : α → Text} (h : ∀ a ∈ l, Ascii (f a)) :
    Ascii (l.flatMap f) := by
  intro c hc
  obtain ⟨a, ha, hc⟩ := List.mem_flatMap.1 hc
  exact h a ha c hc

theorem hexDigit_ascii (upper : Bool) {d : ℕ} (hd : d < 16) : (hexDigit upper d).toNat < 128 := by
  interval_cases d <;> cases upper <;> decide

theorem unicodeEscape_ascii (n : ℕ) : Ascii (unicodeEscape n) := by
  intro c hc
  have hd : ∀ k, (hexDigit false (k % 16)).toNat < 128 :=
    fun k => hexDigit_ascii false (Nat.mod_lt _ (by decide))
  simp only [unicodeEscape, List.mem_cons, List.not_mem_nil, or_false] at hc
  rcases hc with rfl | rfl | rfl | rfl | rfl | rfl
  · decide
  · decide
  all_goals exact hd _

theorem jsonChar_ascii (c : Char) : Ascii (jsonChar c) := by
  unfold jsonChar
  dsimp only
  split_ifs with _ _ _ _ _ _ _ h
  iterate 7 exact Ascii.of_all (by decide)
  · intro d hd
    obtain rfl := List.mem_singleton.1 hd
    omega
  · exact unicodeEscape_ascii _
  · exact (unicodeEscape_ascii _).append (unicodeEscape_ascii _)

theorem jsonEscaped_ascii (text : Text) : Ascii (jsonEscaped text) :=
  Ascii.flatMap fun c _ => jsonChar_ascii c

theorem jsonChar_ne_nil (c : Char) : jsonChar c ≠ [] := by
  unfold jsonChar unicodeEscape
  dsimp only
  split_ifs <;> simp

theorem utf8Char_ne_nil (c : Char) : utf8Char c ≠ [] := by
  unfold utf8Char
  dsimp only
  split_ifs <;> simp

theorem utf8_ne_nil {text : Text} (h : text ≠ []) : utf8 text ≠ [] := by
  obtain ⟨c, text, rfl⟩ := List.exists_cons_of_ne_nil h
  exact List.append_ne_nil_of_left_ne_nil (utf8Char_ne_nil c) _

end Text

end Stablemate
