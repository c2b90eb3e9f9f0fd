import Mathlib.Algebra.Order.Ring.Rat
import Mathlib.Data.Char
import Mathlib.Data.List.Lex
import Mathlib.Data.List.Sort
import Stablemate.Model.Text

/-!
# Python values and `json`

The values that a pydantic field of type `Any` can hold, as far as `json` tells them apart,
and what `json.dumps`, `json.loads` and `model_dump` make of them.
-/

namespace Stablemate.PyJson

/-- A `float`; a finite one comes with its `repr`. -/
inductive PyFloat
  | fin (value : ℚ) (repr : Text)
  | inf
  | negInf
  | nan
deriving DecidableEq

/-- The key of a `dict`; `other` is one that `json` refuses. -/
inductive Key
  | str (s : Text)
  | int (i : ℤ)
  | bool (b : Bool)
  | float (x : PyFloat)
  | none
  | other
deriving DecidableEq

/-- A value. `model` is an instance of a pydantic model or a dataclass, with its `str` and the
fields that `model_dump` writes; `other` is a value that `json` cannot write, with its `str`. -/
inductive Value
  | none
  | bool (b : Bool)
  | int (i : ℤ)
  | float (x : PyFloat)
  | str (s : Text)
  | list (xs : List Value)
  | tuple (xs : List Value)
  | dict (kvs : List (Key × Value))
  | model (shown : Text) (fields : List (Key × Value))
  | other (shown : Text)

/-- The entries of a `dict`. -/
abbrev Entries := List (Key × Value)

/-! ## Keys -/

/-- `str(i)`. -/
def decimal (i : ℤ) : Text :=
  if i < 0 then '-' :: (Nat.toDigits 10 i.natAbs) else Nat.toDigits 10 i.natAbs

/-- A `float` as `json` writes it. -/
def PyFloat.text : PyFloat → Text
  | fin _ repr => repr
  | inf => "Infinity".toList
  | negInf => "-Infinity".toList
  | nan => "NaN".toList

/-- `<` of two floats. -/
def PyFloat.lt : PyFloat → PyFloat → Bool
  | nan, _ => false
  | _, nan => false
  | negInf, negInf => false
  | negInf, _ => true
  | _, negInf => false
  | inf, _ => false
  | fin _ _, inf => true
  | fin x _, fin y _ => decide (x < y)

/-- A key as `json` writes it, before the quotes. -/
def Key.text : Key → Text
  | str s => s
  | int i => decimal i
  | bool b => if b then "true".toList else "false".toList
  | float x => x.text
  | none => "null".toList
  | other => []

/-- A key that is a number, as a number. -/
def Key.num : Key → Option PyFloat
  | int i => some (.fin i [])
  | bool b => some (.fin (if b then 1 else 0) [])
  | float x => some x
  | _ => Option.none

def Key.isStr : Key → Bool
  | str _ => true
  | _ => false

/-- `<` of two keys that can be compared. -/
def Key.lt (k l : Key) : Bool :=
  match k, l with
  | str s, str t => decide (s < t)
  | k, l =>
    match k.num, l.num with
    | some x, some y => x.lt y
    | _, _ => false

/-- `sorted` does not raise: the keys are all text, all numbers, or there is only one. -/
def sortable (keys : List Key) : Bool :=
  keys.all Key.isStr || keys.all (fun k => k.num.isSome) || keys.length ≤ 1

/-- `sorted(dct.items())`. With a NaN among three or more keys the order is that of this
insertion sort. -/
def sortItems {α : Type*} (kvs : List (Key × α)) : List (Key × α) :=
  kvs.insertionSort fun a b => Key.lt b.1 a.1 = false

/-! ## The digest's text -/

/-- A quoted string. -/
def quoted (s : Text) : Text := '"' :: Text.jsonEscaped s ++ ['"']

/-- A list of texts with commas between. -/
def commas (ts : List Text) : Text := [','].intercalate ts

/-- An object whose values are written. -/
def objectText (kts : List (Key × Text)) : Option Text :=
  if sortable (kts.map (·.1)) && kts.all (fun kt => kt.1 ≠ .other) then
    some ('{' :: commas ((sortItems kts).map fun kt => quoted kt.1.text ++ ':' :: kt.2) ++ ['}'])
  else none

mutual

/-- `json.dumps(v, sort_keys=True, separators=(",", ":"), default=str)`. -/
def canonical : Value → Option Text
  | .none => some "null".toList
  | .bool b => some (Key.bool b).text
  | .int i => some (decimal i)
  | .float x => some x.text
  | .str s => some (quoted s)
  | .list xs | .tuple xs => (canonicalList xs).map fun ts => '[' :: commas ts ++ [']']
  | .dict kvs => (canonicalEntries kvs).bind objectText
  | .model shown _ | .other shown => some (quoted shown)

def canonicalList : List Value → Option (List Text)
  | [] => some []
  | x :: xs => (canonical x).bind fun t => (canonicalList xs).map (t :: ·)

def canonicalEntries : Entries → Option (List (Key × Text))
  | [] => some []
  | (k, x) :: kvs => (canonical x).bind fun t => (canonicalEntries kvs).map ((k, t) :: ·)

end

/-! ## Writing and reading back -/

/-- `d[k] = x`: in its place, or at the end. -/
def setItem (k : Key) (x : Value) : Entries → Entries
  | [] => [(k, x)]
  | (k', x') :: kvs => if k' = k then (k', x) :: kvs else (k', x') :: setItem k x kvs

/-- `dict(pairs)`. -/
def ofPairs (kvs : Entries) : Entries := kvs.foldl (fun d kx => setItem kx.1 kx.2 d) []

mutual

/-- `json.loads(json.dumps(v))`, or `none` where `dumps` raises. -/
def json : Value → Option Value
  | .none => some .none
  | .bool b => some (.bool b)
  | .int i => some (.int i)
  | .float x => some (.float x)
  | .str s => some (.str s)
  | .list xs | .tuple xs => (jsonList xs).map .list
  | .dict kvs => (jsonEntries kvs).map fun kvs => .dict (ofPairs kvs)
  | .model .. | .other _ => none

def jsonList : List Value → Option (List Value)
  | [] => some []
  | x :: xs => (json x).bind fun y => (jsonList xs).map (y :: ·)

def jsonEntries : Entries → Option Entries
  | [] => some []
  | (k, x) :: kvs =>
    if k = .other then none
    else (json x).bind fun y => (jsonEntries kvs).map ((.str k.text, y) :: ·)

end

mutual

/-- What `model_dump` makes of a value in a field of type `Any`. -/
def dump : Value → Value
  | .list xs => .list (dumpList xs)
  | .tuple xs => .tuple (dumpList xs)
  | .dict kvs => .dict (dumpEntries kvs)
  | .model _ fields => .dict (dumpEntries fields)
  | x => x

def dumpList : List Value → List Value
  | [] => []
  | x :: xs => dump x :: dumpList xs

def dumpEntries : Entries → Entries
  | [] => []
  | (k, x) :: kvs => (k, dump x) :: dumpEntries kvs

end

mutual

/-- What `model_dump_json` writes: `null` for NaN and the infinities. -/
def nulled : Value → Value
  | .float (.fin value repr) => .float (.fin value repr)
  | .float _ => .none
  | .list xs => .list (nulledList xs)
  | .tuple xs => .tuple (nulledList xs)
  | .dict kvs => .dict (nulledEntries kvs)
  | x => x

def nulledList : List Value → List Value
  | [] => []
  | x :: xs => nulled x :: nulledList xs

def nulledEntries : Entries → Entries
  | [] => []
  | (k, x) :: kvs => (k, nulled x) :: nulledEntries kvs

end

/-! ## Values that a round trip keeps -/

mutual

/-- A value that `json.loads` can give. -/
def Plain : Value → Prop
  | .list xs => PlainList xs
  | .dict kvs => ((∀ kx ∈ kvs, kx.1.isStr = true) ∧ (kvs.map (·.1)).Nodup) ∧ PlainEntries kvs
  | .tuple _ | .model .. | .other _ => False
  | _ => True

def PlainList : List Value → Prop
  | [] => True
  | x :: xs => Plain x ∧ PlainList xs

def PlainEntries : Entries → Prop
  | [] => True
  | (_, x) :: kvs => Plain x ∧ PlainEntries kvs

end

mutual

/-- No NaN and no infinity. -/
def finite : Value → Bool
  | .float (.fin ..) => true
  | .float _ => false
  | .list xs | .tuple xs => finiteList xs
  | .dict kvs => finiteEntries kvs
  | _ => true

def finiteList : List Value → Bool
  | [] => true
  | x :: xs => finite x && finiteList xs

def finiteEntries : Entries → Bool
  | [] => true
  | (_, x) :: kvs => finite x && finiteEntries kvs

end

/-- Put in order and written as text, the keys are in the order of their texts. -/
def stableKeys (keys : List Key) : Bool :=
  decide (((keys.insertionSort fun k l => Key.lt l k = false).map Key.text).Pairwise (· < ·))

mutual

/-- No model, and every `dict` has keys whose order is that of their texts. -/
def stable : Value → Bool
  | .list xs | .tuple xs => stableList xs
  | .dict kvs => stableKeys (kvs.map (·.1)) && stableEntries kvs
  | .model .. => false
  | _ => true

def stableList : List Value → Bool
  | [] => true
  | x :: xs => stable x && stableList xs

def stableEntries : Entries → Bool
  | [] => true
  | (_, x) :: kvs => stable x && stableEntries kvs

end

/-- The `dict` with the keys 2 and 10: the order of numbers is not the order of texts. -/
example : stable (.dict [(.int 2, .none), (.int 10, .none)]) = false := by decide +kernel

end Stablemate.PyJson
