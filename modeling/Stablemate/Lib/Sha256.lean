import Mathlib.Algebra.Group.Nat.Defs

/-!
# SHA-256

The hash of FIPS 180-4 over lists of bytes. A word is a natural number below `2 ^ 32`, and
`hexdigest` gives the digest as 64 lower-case hexadecimal digits.
-/

namespace Stablemate.Sha256

def add (x y : ℕ) : ℕ := (x + y) % 2 ^ 32

def rotr (n x : ℕ) : ℕ := x >>> n ||| (x <<< (32 - n)) % 2 ^ 32

def ch (x y z : ℕ) : ℕ := (x &&& y) ^^^ ((2 ^ 32 - 1 - x) &&& z)
def maj (x y z : ℕ) : ℕ := (x &&& y) ^^^ (x &&& z) ^^^ (y &&& z)
def bigSigma0 (x : ℕ) : ℕ := rotr 2 x ^^^ rotr 13 x ^^^ rotr 22 x
def bigSigma1 (x : ℕ) : ℕ := rotr 6 x ^^^ rotr 11 x ^^^ rotr 25 x
def smallSigma0 (x : ℕ) : ℕ := rotr 7 x ^^^ rotr 18 x ^^^ x >>> 3
def smallSigma1 (x : ℕ) : ℕ := rotr 17 x ^^^ rotr 19 x ^^^ x >>> 10

/-- The round constants. -/
def K : List ℕ :=
  [0x428a2f98, 0x71374491, 0xb5c0fbcf, 0xe9b5dba5, 0x3956c25b, 0x59f111f1, 0x923f82a4, 0xab1c5ed5,
    0xd807aa98, 0x12835b01, 0x243185be, 0x550c7dc3, 0x72be5d74, 0x80deb1fe, 0x9bdc06a7, 0xc19bf174,
    0xe49b69c1, 0xefbe4786, 0x0fc19dc6, 0x240ca1cc, 0x2de92c6f, 0x4a7484aa, 0x5cb0a9dc, 0x76f988da,
    0x983e5152, 0xa831c66d, 0xb00327c8, 0xbf597fc7, 0xc6e00bf3, 0xd5a79147, 0x06ca6351, 0x14292967,
    0x27b70a85, 0x2e1b2138, 0x4d2c6dfc, 0x53380d13, 0x650a7354, 0x766a0abb, 0x81c2c92e, 0x92722c85,
    0xa2bfe8a1, 0xa81a664b, 0xc24b8b70, 0xc76c51a3, 0xd192e819, 0xd6990624, 0xf40e3585, 0x106aa070,
    0x19a4c116, 0x1e376c08, 0x2748774c, 0x34b0bcb5, 0x391c0cb3, 0x4ed8aa4a, 0x5b9cca4f, 0x682e6ff3,
    0x748f82ee, 0x78a5636f, 0x84c87814, 0x8cc70208, 0x90befffa, 0xa4506ceb, 0xbef9a3f7, 0xc67178f2]

/-- The eight words of the hash. -/
structure Words where
  a : ℕ
  b : ℕ
  c : ℕ
  d : ℕ
  e : ℕ
  f : ℕ
  g : ℕ
  h : ℕ

def Words.add (x y : Words) : Words where
  a := Sha256.add x.a y.a
  b := Sha256.add x.b y.b
  c := Sha256.add x.c y.c
  d := Sha256.add x.d y.d
  e := Sha256.add x.e y.e
  f := Sha256.add x.f y.f
  g := Sha256.add x.g y.g
  h := Sha256.add x.h y.h

def Words.toList (w : Words) : List ℕ := [w.a, w.b, w.c, w.d, w.e, w.f, w.g, w.h]

/-- The initial hash. -/
def initial : Words where
  a := 0x6a09e667
  b := 0xbb67ae85
  c := 0x3c6ef372
  d := 0xa54ff53a
  e := 0x510e527f
  f := 0x9b05688c
  g := 0x1f83d9ab
  h := 0x5be0cd19

/-- The big-endian bytes of `x`, `n` of them. -/
def toBytes : ℕ → ℕ → List ℕ
  | 0, _ => []
  | n + 1, x => toBytes n (x / 256) ++ [x % 256]

def ofBytes (bytes : List ℕ) : ℕ := bytes.foldl (fun x b => x * 256 + b) 0

/-- The padded message: a whole number of blocks of 64 bytes. -/
def pad (bytes : List ℕ) : List ℕ :=
  bytes ++ [0x80] ++ List.replicate ((119 - bytes.length % 64) % 64) 0 ++ toBytes 8 (bytes.length * 8)

/-- A list cut into pieces of `n`, the first `k` of them. -/
def pieces (n : ℕ) : ℕ → List ℕ → List (List ℕ)
  | 0, _ => []
  | k + 1, l => l.take n :: pieces n k (l.drop n)

/-- `k` more words of the schedule; `recent` has the last 16, the newest first. -/
def extend : ℕ → List ℕ → List ℕ
  | 0, _ => []
  | k + 1, recent =>
    let w := add (add (smallSigma1 (recent.getD 1 0)) (recent.getD 6 0))
      (add (smallSigma0 (recent.getD 14 0)) (recent.getD 15 0))
    w :: extend k (w :: recent.take 15)

/-- The message schedule of a block. -/
def schedule (block : List ℕ) : List ℕ :=
  let words := (pieces 4 16 block).map ofBytes
  words ++ extend 48 words.reverse

/-- One round. -/
def round (s : Words) (kw : ℕ × ℕ) : Words :=
  let t₁ := add (add (add s.h (bigSigma1 s.e)) (add (ch s.e s.f s.g) kw.1)) kw.2
  let t₂ := add (bigSigma0 s.a) (maj s.a s.b s.c)
  { a := add t₁ t₂, b := s.a, c := s.b, d := s.c, e := add s.d t₁, f := s.e, g := s.f, h := s.g }

def compress (s : Words) (block : List ℕ) : Words :=
  s.add ((K.zip (schedule block)).foldl round s)

def digest (bytes : List ℕ) : Words :=
  (pieces 64 ((pad bytes).length / 64) (pad bytes)).foldl compress initial

/-- The last `n` hexadecimal digits of `x`, in lower case. -/
def toHex : ℕ → ℕ → List Char
  | 0, _ => []
  | n + 1, x => toHex n (x / 16) ++ ["0123456789abcdef".toList.getD (x % 16) '0']

def hexdigest (bytes : List ℕ) : List Char := (digest bytes).toList.flatMap (toHex 8)

/-- The digest of `abc`. -/
example : hexdigest [97, 98, 99] =
    "ba7816bf8f01cfea414140de5dae2223b00361a396177a9cb410ff61f20015ad".toList := by decide +kernel

end Stablemate.Sha256
