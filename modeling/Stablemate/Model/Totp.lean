import Mathlib.Algebra.Order.Floor.Ring
import Mathlib.Data.Rat.Floor
import Stablemate.Lib.Hmac
import Stablemate.Model.Shelf

/-!
# Typed one-time codes (`saddlebag/totp.py`, `Verbs._typable`)

* `code` and `seconds_remaining`, for a reading of the clock;
* `_typable`: it waits for the next code if the current one is about to go, and the clock moves only
  by what it sleeps;
* `Rfc.totp`: the code that RFC 6238 gives with SHA-1, six digits and steps of thirty seconds.

A reading of the clock is a rational where the source has a float.
-/

namespace Stablemate.Totp

open PyJson (Value decimal)
open Saddlebag (lit)
open Sha256 (toBytes ofBytes pieces)

def PERIOD_SECONDS : ℕ := 30
def DIGITS : ℕ := 6

/-! ## The seed -/

def BASE32 : Text := lit "ABCDEFGHIJKLMNOPQRSTUVWXYZ234567"

/-- The bytes of the quanta of a base32 text, of which the last may lack `padchars` digits. -/
def quanta (values : List ℕ) (padchars : ℕ) : List ℕ :=
  let accs := (pieces 8 ((values.length + 7) / 8) values).map fun quantum => quantum.foldl (fun acc v => acc * 32 + v) 0
  match accs.getLast? with
  | none => []
  | some acc =>
    if padchars = 0 then accs.flatMap (toBytes 5)
    else accs.dropLast.flatMap (toBytes 5) ++ (toBytes 5 (acc * 32 ^ padchars)).take ((43 - 5 * padchars) / 8)

/-- `base64.b32decode(s, casefold=True)`, or the message of its error. -/
def b32decode (s : Text) : Except Text (List ℕ) :=
  if !s.all fun c => c.toNat < 128 then .error (lit "string argument should contain only ASCII characters")
  else if s.length % 8 ≠ 0 then .error (lit "Incorrect padding")
  else
    let digits := (s.reverse.dropWhile (· = '=')).reverse
    let padchars := s.length - digits.length
    match digits.mapM fun c => BASE32.idxOf? c with
    | none => .error (lit "Non-base32 digit found")
    | some values =>
      if [0, 1, 3, 4, 6].contains padchars then .ok (quanta values padchars) else .error (lit "Incorrect padding")

/-- `decode_seed`, or the message of its `SeedError`. -/
def decode_seed (seed : Text) : Except Text (List ℕ) :=
  let normalised := Text.upper (Text.replace ['-'] [] (Text.replace [' '] [] (Text.strip seed)))
  if normalised = [] then .error (lit "the stored seed is empty")
  else
    match b32decode (normalised ++ List.replicate ((8 - normalised.length % 8) % 8) '=') with
    | .ok key => .ok key
    | .error exc => .error (lit "the stored seed is not valid base32: " ++ exc)

/-! ## The code -/

/-- What is raised: a `SeedError`, a `RequestError`, or the `struct.error` of a counter past eight bytes. -/
inductive Raised
  | seed (message : Text)
  | request (message : Text)
  | struct
deriving DecidableEq

/-- `str(n).zfill(width)` -/
def zfill (width n : ℕ) : Text := List.replicate (width - (decimal n).length) '0' ++ decimal n

/-- The digits that a keyed hash is truncated to. -/
def truncated (digest : List ℕ) : Text :=
  let offset := (digest.getLastD 0) &&& 0x0F
  zfill DIGITS ((ofBytes ((digest.drop offset).take 4) &&& 0x7FFFFFFF) % 10 ^ DIGITS)

/-- `code` -/
def code (seed : Text) (now : ℚ) : Except Raised Text :=
  let counter := ⌊now / PERIOD_SECONDS⌋
  match decode_seed seed with
  | .error message => .error (.seed message)
  | .ok key =>
    if 0 ≤ counter ∧ counter < 2 ^ 64 then .ok (truncated (Hmac.sha1 key (toBytes 8 counter.toNat))) else .error .struct

/-- `moment % period` -/
def modulo (moment : ℚ) (period : ℕ) : ℚ := moment - period * ⌊moment / period⌋

/-- `seconds_remaining`; what `int` cuts off is never negative. -/
def seconds_remaining (now : ℚ) : ℤ := ⌊PERIOD_SECONDS - modulo now PERIOD_SECONDS⌋

/-! ## Typing it -/

/-- `store.value`, or the error that says what to store. -/
def _value (name field : Text) (value : Option Text) : Except Raised Text :=
  match value with
  | some value => .ok value
  | none =>
    let hint :=
      if Saddlebag.VALUE_FIELDS.contains field then
        lit " Store one with: saddlebag secret set " ++ name ++ lit " --field " ++ field
      else if Saddlebag.META_PREFIX.isPrefixOf field then
        lit " Set one with: saddlebag secret meta " ++ name ++ [' '] ++ field.drop Saddlebag.META_PREFIX.length ++ lit "=..."
      else []
    .error (.request (name ++ lit " has no " ++ field ++ ['.'] ++ hint))

/-- `args.get("min_seconds", 5)`, if it is an `int`. -/
def minimumOf : Option Value → Option ℤ
  | none => some 5
  | some (.int n) => some n
  | some (.bool b) => some b.toNat
  | some _ => none

/-- The code and the seconds that it is said to be valid for, at a reading of the clock. -/
def typed (name value : Text) (now : ℚ) : Except Raised (Text × Option ℤ) :=
  match code value now with
  | .ok code => .ok (code, some (seconds_remaining now))
  | .error (.seed exc) => .error (.request (name ++ lit ": " ++ exc))
  | .error raised => .error raised

/-- `Verbs._typable` of the secret `name`, and where it leaves the clock. -/
def _typable (name field : Text) (stored : Option Text) (min_seconds : Option Value) (now : ℚ) :
    Except Raised (Text × Option ℤ) × ℚ :=
  match _value name field stored with
  | .error raised => (.error raised, now)
  | .ok value =>
    if field ≠ lit "totp" then (.ok (value, none), now)
    else
      match minimumOf min_seconds with
      | none => (.error (.request (lit "argument 'min_seconds' must be an integer")), now)
      | some minimum =>
        let later := if seconds_remaining now < minimum then now + seconds_remaining now else now
        (typed name value later, later)

/-! ## RFC 6238 -/

namespace Rfc

/-- The time step of a reading of the clock. -/
def step (t : ℚ) : ℕ := ⌊t / 30⌋.toNat

/-- How long the code of a reading is still valid: up to the next time step. -/
def validity (t : ℚ) : ℚ := 30 * (⌊t / 30⌋ + 1) - t

/-- The moving factor, as eight bytes of which the first is the highest. -/
def moving (counter : ℕ) : List ℕ := (List.range 8).map fun i => counter / 256 ^ (7 - i) % 256

/-- The dynamic truncation: four bytes from the offset that the last byte gives, less the sign bit. -/
def truncate (hs : List ℕ) : ℕ :=
  let offset := hs.getD 19 0 % 16
  hs.getD offset 0 % 128 * 2 ^ 24 + hs.getD (offset + 1) 0 * 2 ^ 16 + hs.getD (offset + 2) 0 * 2 ^ 8 +
    hs.getD (offset + 3) 0

/-- A number as six decimal digits. -/
def digits (n : ℕ) : Text := (List.range 6).map fun i => Char.ofNat (48 + n / 10 ^ (5 - i) % 10)

def totp (key : List ℕ) (t : ℚ) : Text := digits (truncate (Hmac.sha1 key (moving (step t))) % 10 ^ 6)

end Rfc

end Stablemate.Totp
