import Stablemate.Lib.Sha256

/-!
# SHA-1 and HMAC

* `Sha1.digest`: the hash of FIPS 180-4 over lists of bytes, padded as SHA-256 is.
* `Hmac.sha1`: the keyed hash of RFC 2104 over SHA-1.
-/

namespace Stablemate.Sha1

open Sha256 (add ofBytes pieces pad toBytes)

def rotl (n x : ℕ) : ℕ := (x <<< n) % 2 ^ 32 ||| x >>> (32 - n)

/-- The five words of the hash. -/
structure Words where
  a : ℕ
  b : ℕ
  c : ℕ
  d : ℕ
  e : ℕ

def Words.add (x y : Words) : Words where
  a := Sha256.add x.a y.a
  b := Sha256.add x.b y.b
  c := Sha256.add x.c y.c
  d := Sha256.add x.d y.d
  e := Sha256.add x.e y.e

def Words.toList (w : Words) : List ℕ := [w.a, w.b, w.c, w.d, w.e]

/-- The initial hash. -/
def initial : Words := ⟨0x67452301, 0xefcdab89, 0x98badcfe, 0x10325476, 0xc3d2e1f0⟩

/-- The function and the constant of round `t`. -/
def mix (t : ℕ) (b c d : ℕ) : ℕ × ℕ :=
  if t < 20 then ((b &&& c) ^^^ ((2 ^ 32 - 1 - b) &&& d), 0x5a827999)
  else if t < 40 then (b ^^^ c ^^^ d, 0x6ed9eba1)
  else if t < 60 then ((b &&& c) ^^^ (b &&& d) ^^^ (c &&& d), 0x8f1bbcdc)
  else (b ^^^ c ^^^ d, 0xca62c1d6)

/-- `k` more words of the schedule; `recent` has the last 16, the newest first. -/
def extend : ℕ → List ℕ → List ℕ
  | 0, _ => []
  | k + 1, recent =>
    let w := rotl 1 (recent.getD 2 0 ^^^ recent.getD 7 0 ^^^ recent.getD 13 0 ^^^ recent.getD 15 0)
    w :: extend k (w :: recent.take 15)

/-- The message schedule of a block. -/
def schedule (block : List ℕ) : List ℕ :=
  let words := (pieces 4 16 block).map ofBytes
  words ++ extend 64 words.reverse

/-- One round. -/
def round (s : Words) (tw : ℕ × ℕ) : Words :=
  let (f, k) := mix tw.1 s.b s.c s.d
  { a := add (add (add (rotl 5 s.a) f) (add s.e k)) tw.2, b := s.a, c := rotl 30 s.b, d := s.c, e := s.d }

def compress (s : Words) (block : List ℕ) : Words :=
  s.add (((List.range 80).zip (schedule block)).foldl round s)

/-- The twenty bytes of the hash. -/
def digest (bytes : List ℕ) : List ℕ :=
  ((pieces 64 ((pad bytes).length / 64) (pad bytes)).foldl compress initial).toList.flatMap (toBytes 4)

end Stablemate.Sha1

namespace Stablemate.Hmac

/-- A key as one block: hashed if it is longer. -/
def block (key : List ℕ) : List ℕ :=
  let key := if 64 < key.length then Sha1.digest key else key
  key ++ List.replicate (64 - key.length) 0

def sha1 (key message : List ℕ) : List ℕ :=
  let key := block key
  Sha1.digest (key.map (· ^^^ 0x5c) ++ Sha1.digest (key.map (· ^^^ 0x36) ++ message))

end Stablemate.Hmac
