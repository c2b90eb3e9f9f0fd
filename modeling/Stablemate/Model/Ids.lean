import Stablemate.Lib.Radix
import Stablemate.Model.PyJson

/-!
# Minted ids and their handles (`ostler/ids.py`)

* `new_ulid` reads the clock and the system's random bytes; both are given with the call.
* `abbreviate`, `expand`, `table` take the hash of a ULID as a parameter, and `shorten` the
  characters of `\w`.
-/

namespace Stablemate.Ids

open PyJson (Value)

def _CROCKFORD : Text := "0123456789ABCDEFGHJKMNPQRSTVWXYZ".toList

def _TIME_LEN : ℕ := 10

def _RAND_LEN : ℕ := 16

def ULID_LEN : ℕ := _TIME_LEN + _RAND_LEN

def HANDLE_MIN : ℤ := 6

/-! ## Minting -/

/-- `_CROCKFORD[rem]` -/
def digit (rem : ℤ) : Char := _CROCKFORD.getD rem.toNat '0'

/-- The remainder of `divmod(value, 32)` is never negative, also where `value` is. -/
def _b32 (value : ℤ) (length : ℕ) : Text := Radix.numeral 32 digit length value

/-- `int.from_bytes(raw, "big")` -/
def from_bytes (raw : List UInt8) : ℕ := raw.foldl (fun value byte => 256 * value + byte.toNat) 0

/-- What a call finds outside: `int(time.time() * 1000)` and `os.urandom(10)`. -/
structure Call where
  ms : ℤ
  urandom : List UInt8
  ten : urandom.length = 10

/-- The module's `_last_ms` and `_last_rand`; the lock lets one call at a time at them. -/
structure Mono where
  last_ms : ℤ := -1
  last_rand : ℕ := 0
deriving DecidableEq

def Mono.next (call : Call) (mono : Mono) : Mono :=
  if mono.last_ms < call.ms then ⟨call.ms, from_bytes call.urandom⟩
  else if (mono.last_rand + 1) >>> (_RAND_LEN * 5) ≠ 0 then ⟨mono.last_ms + 1, from_bytes call.urandom⟩
  else ⟨mono.last_ms, mono.last_rand + 1⟩

def Mono.ulid (mono : Mono) : Text := _b32 mono.last_ms _TIME_LEN ++ _b32 mono.last_rand _RAND_LEN

def new_ulid (call : Call) (mono : Mono) : Text × Mono := ((mono.next call).ulid, mono.next call)

/-- What a sequence of calls returns. -/
def minted : Mono → List Call → List Text
  | _, [] => []
  | mono, call :: calls => (new_ulid call mono).1 :: minted (new_ulid call mono).2 calls

/-! ## Handles -/

/-- `identifier.partition("-")`, without the separator. -/
def partition (identifier : Text) : Text × Text :=
  (identifier.takeWhile (· ≠ '-'), (identifier.dropWhile (· ≠ '-')).drop 1)

/-- The prefix and the ULID of an id. -/
def _split (identifier : Text) : Text × Text :=
  let (before, rest) := partition identifier
  if rest ≠ [] then (before, rest) else ([], identifier)

def _FP_LEN : ℕ := 16

/-- `f"{prefix}-{slice_}" if prefix else slice_` -/
def handleOf (before slice_ : Text) : Text := if before ≠ [] then before ++ '-' :: slice_ else slice_

/-- `range(max(min_len, 1), _FP_LEN + 1)` -/
def lengths (min_len : ℤ) : List ℕ :=
  List.range' (max min_len 1).toNat (_FP_LEN + 1 - (max min_len 1).toNat)

section Handles

-- the ten bytes of `hashlib.blake2b(ulid.encode(), digest_size=10)`, read as a number
variable (blake2b : Text → Fin (2 ^ 80))

def _fingerprint (identifier : Text) : Text :=
  let ulid := (_split identifier).2
  if ulid.length ≠ ULID_LEN then [] else _b32 (blake2b ulid).val _FP_LEN

/-- The loop of `abbreviate` and `table`: the first slice that no other fingerprint starts with. -/
def shortest (fp : Text) (others : List Text) (min_len : ℤ) : Option Text :=
  ((lengths min_len).map fp.take).find? fun slice_ => !others.any fun o => slice_.isPrefixOf o

def abbreviate (identifier : Text) (existing : List Text) (min_len : ℤ) : Text :=
  let fp := _fingerprint blake2b identifier
  if fp = [] then identifier
  else
    let others := ((existing.filter (· ≠ identifier)).map (_fingerprint blake2b)).filter (· ≠ [])
    match shortest fp others min_len with
    | some slice_ => handleOf (_split identifier).1 slice_
    | none => identifier

/-- Whether an id is one that `prefix-slice_` may mean. -/
def means (before slice_ identifier : Text) : Bool :=
  decide ((_split identifier).1 = before) && slice_.isPrefixOf (_fingerprint blake2b identifier) &&
    decide (_fingerprint blake2b identifier ≠ [])

def expand (handle : Text) (existing : List Text) : Option Text :=
  if handle ∈ existing then some handle
  else
    let (before, slice_) := partition handle
    if slice_ = [] then none
    else match existing.filter (means blake2b before slice_) with
      | [identifier] => some identifier
      | _ => none

/-- `{i: _fingerprint(i) for i in ids}` -/
def fingerprints (ids : List Text) : List (Text × Text) := ids.eraseDups.map fun i => (i, _fingerprint blake2b i)

/-- The row of one id in `table`. -/
def row (fps : List (Text × Text)) (min_len : ℤ) (entry : Text × Text) : Text × Text :=
  let (identifier, fp) := entry
  if fp = [] then (identifier, identifier)
  else
    let others := (fps.filter fun other => decide (other.1 ≠ identifier) && decide (other.2 ≠ [])).map Prod.snd
    match shortest fp others min_len with
    | some slice_ => (identifier, handleOf (_split identifier).1 slice_)
    | none => (identifier, identifier)

/-- The dict by its items. An id met again is set again to what it has. -/
def table (existing : List Text) (min_len : ℤ) : List (Text × Text) :=
  let fps := fingerprints blake2b (existing.filter (· ≠ []))
  fps.map (row fps min_len)

end Handles

/-! ## Shortening -/

/-- `[A-Za-z]` -/
def isLetter (c : Char) : Bool := ('a' ≤ c && c ≤ 'z') || ('A' ≤ c && c ≤ 'Z')

/-- `[A-Za-z0-9_]` -/
def isNameChar (c : Char) : Bool := isLetter c || ('0' ≤ c && c ≤ '9') || c = '_'

/-- How much `_PREFIX`, a dash and a ULID read at the front of a text; `0` when they do not match.
The class of the prefix has no dash in it, so there is one way to match. -/
def idLength : Text → ℕ
  | [] => 0
  | c :: text =>
    let name := text.takeWhile isNameChar
    let ulid := (text.drop (name.length + 1)).take ULID_LEN
    if isLetter c ∧ name.length ≤ 15 ∧ text[name.length]? = some '-' ∧
        ulid.length = ULID_LEN ∧ ulid.all (List.contains _CROCKFORD) then name.length + 2 + ULID_LEN
    else 0

section Shorten

-- `\w`
variable (isWord : Char → Bool)

/-- `\b` between two characters, where `none` is an end of the text. -/
def boundary (before after : Option Char) : Bool := before.any isWord != after.any isWord

/-- `[/\\]` -/
def isSlash (c : Char) : Bool := c = '/' || c = '\\'

/-- `\.\w` at the front. -/
def dotted : Text → Bool
  | '.' :: c :: _ => isWord c
  | _ => false

/-- How much `_ID_TOKEN` reads after the character `before`. -/
def tokenLength (before : Option Char) (text : Text) : ℕ :=
  let length := idLength text
  let rest := text.drop length
  if before.any isSlash || !boundary isWord before text.head? ||
      !boundary isWord (text.take length).getLast? rest.head? || rest.head?.any isSlash || dotted isWord rest then 0
  else length

/-- `_ID_TOKEN.sub`, with the characters of the current match still to be dropped. -/
def subTokens (replacement : Text → Text) : Option Char → ℕ → Text → Text
  | _, _, [] => []
  | _, skip + 1, c :: text => subTokens replacement (some c) skip text
  | before, 0, c :: text =>
    match tokenLength isWord before (c :: text) with
    | 0 => c :: subTokens replacement (some c) 0 text
    | length + 1 => replacement ((c :: text).take (length + 1)) ++ subTokens replacement (some c) length text

/-- `_ID_TOKEN.sub(lambda m: handles.get(m.group(0), m.group(0)), data)` -/
def shortenText (handles : List (Text × Text)) : Text → Text :=
  subTokens isWord (fun token => (handles.lookup token).getD token) none 0

mutual

/-- A tuple comes back as a list. -/
def shorten (handles : List (Text × Text)) : Value → Value
  | .str s => .str (shortenText isWord handles s)
  | .dict kvs => .dict (shortenEntries handles kvs)
  | .list xs => .list (shortenItems handles xs)
  | .tuple xs => .list (shortenItems handles xs)
  | .none => .none
  | .bool b => .bool b
  | .int i => .int i
  | .float x => .float x
  | .model shown fields => .model shown fields
  | .other shown => .other shown

def shortenItems (handles : List (Text × Text)) : List Value → List Value
  | [] => []
  | x :: xs => shorten handles x :: shortenItems handles xs

def shortenEntries (handles : List (Text × Text)) : PyJson.Entries → PyJson.Entries
  | [] => []
  | (k, v) :: kvs => (k, shorten handles v) :: shortenEntries handles kvs

end

end Shorten

end Stablemate.Ids
