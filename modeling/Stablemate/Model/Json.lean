import Stablemate.Model.PyJson

/-!
# What `json.loads` gives and `json.dumps` writes

* `Json`: the value of a JSON text.
* `dumps`: its text with the separators `", "` and `": "`.
* `strict`: the value is without NaN and infinities, which are no JSON.
-/

namespace Stablemate

namespace Json

/-- What is after one digit or more. -/
def digits (t : Text) : Option Text := if t.head?.any Char.isDigit then some (t.dropWhile Char.isDigit) else none

def isExponent : Text → Bool
  | c :: '+' :: t | c :: '-' :: t | c :: t => c ∈ "eE".toList && digits t = some []
  | [] => true

/-- A number that is no integer, as `repr` writes a `float`. -/
def isFloat (token : Text) : Bool :=
  token.all (fun c => c.isDigit || c ∈ "+-.eE".toList) && token.any (fun c => c ∈ ".eE".toList) &&
    match digits (if token.head? = some '-' then token.tail else token) with
    | some ('.' :: t) => (digits t).any isExponent
    | some t => isExponent t
    | none => false

end Json

/-- What is written without quotes and brackets. -/
inductive Word
  | null
  | bool (b : Bool)
  | int (i : ℤ)
  | float (token : {t : Text // Json.isFloat t = true})
  | nan
  | infinity
  | negInfinity
deriving DecidableEq

def Word.text : Word → Text
  | null => "null".toList
  | bool b => if b then "true".toList else "false".toList
  | int i => PyJson.decimal i
  | float token => token.val
  | nan => "NaN".toList
  | infinity => "Infinity".toList
  | negInfinity => "-Infinity".toList

def Word.strict : Word → Bool
  | nan | infinity | negInfinity => false
  | _ => true

inductive Json
  | word (w : Word)
  | str (s : Text)
  | arr (xs : List Json)
  | obj (kvs : List (Text × Json))

namespace Json

/-- The entries of an object. -/
abbrev Fields := List (Text × Json)

def null : Json := .word .null

def ofNat (n : ℕ) : Json := .word (.int n)

/-- A value that may be missing, which is `None` then. -/
def ofOption {α : Type} (f : α → Json) : Option α → Json
  | some a => f a
  | none => null

/-- `d.get(key)`, where `None` stands for a missing key. -/
def get (kvs : Fields) (key : Text) : Json := (kvs.lookup key).getD null

/-- `bool(x)` -/
def truthy : Json → Bool
  | .word .null => false
  | .word (.bool b) => b
  | .word (.int i) => i ≠ 0
  | .word (.float token) => (token.val.takeWhile fun c => c ∉ "eE".toList).any fun c => c.isDigit && c ≠ '0'
  | .word _ => true
  | .str s => s ≠ []
  | .arr xs => !xs.isEmpty
  | .obj kvs => !kvs.isEmpty

/-! ## Writing -/

def commas (ts : List Text) : Text := ", ".toList.intercalate ts

mutual

/-- `json.dumps(v)` -/
def dumps : Json → Text
  | .word w => w.text
  | .str s => PyJson.quoted s
  | .arr xs => '[' :: commas (dumpsList xs) ++ [']']
  | .obj kvs => '{' :: commas (dumpsFields kvs) ++ ['}']

def dumpsList : List Json → List Text
  | [] => []
  | x :: xs => dumps x :: dumpsList xs

def dumpsFields : Fields → List Text
  | [] => []
  | (k, x) :: kvs => (PyJson.quoted k ++ ": ".toList ++ dumps x) :: dumpsFields kvs

end

mutual

/-- Nothing in it is NaN or infinite. -/
def strict : Json → Bool
  | .word w => w.strict
  | .str _ => true
  | .arr xs => strictList xs
  | .obj kvs => strictFields kvs

def strictList : List Json → Bool
  | [] => true
  | x :: xs => strict x && strictList xs

def strictFields : Fields → Bool
  | [] => true
  | (_, x) :: kvs => strict x && strictFields kvs

end

example : dumps (.obj [("a".toList, .arr [.word (.int (-3)), null]), ("b".toList, .str "x".toList)]) =
    "\x7b\"a\": [-3, null], \"b\": \"x\"\x7d".toList := by decide

end Json

end Stablemate
