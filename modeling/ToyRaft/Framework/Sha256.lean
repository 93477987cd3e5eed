import Mathlib.Algebra.Group.Nat.Defs

/-!
# SHA-256

The hash of a text of bytes, block by block, from the constants of the standard.
-/

namespace ToyRaft

namespace Sha256

def roundConstants : List UInt32 :=
  [0x428a2f98, 0x71374491, 0xb5c0fbcf, 0xe9b5dba5, 0x3956c25b, 0x59f111f1, 0x923f82a4, 0xab1c5ed5,
   0xd807aa98, 0x12835b01, 0x243185be, 0x550c7dc3, 0x72be5d74, 0x80deb1fe, 0x9bdc06a7, 0xc19bf174,
   0xe49b69c1, 0xefbe4786, 0x0fc19dc6, 0x240ca1cc, 0x2de92c6f, 0x4a7484aa, 0x5cb0a9dc, 0x76f988da,
   0x983e5152, 0xa831c66d, 0xb00327c8, 0xbf597fc7, 0xc6e00bf3, 0xd5a79147, 0x06ca6351, 0x14292967,
   0x27b70a85, 0x2e1b2138, 0x4d2c6dfc, 0x53380d13, 0x650a7354, 0x766a0abb, 0x81c2c92e, 0x92722c85,
   0xa2bfe8a1, 0xa81a664b, 0xc24b8b70, 0xc76c51a3, 0xd192e819, 0xd6990624, 0xf40e3585, 0x106aa070,
   0x19a4c116, 0x1e376c08, 0x2748774c, 0x34b0bcb5, 0x391c0cb3, 0x4ed8aa4a, 0x5b9cca4f, 0x682e6ff3,
   0x748f82ee, 0x78a5636f, 0x84c87814, 0x8cc70208, 0x90befffa, 0xa4506ceb, 0xbef9a3f7, 0xc67178f2]

/-- The eight working words. -/
structure Words where
  a : UInt32
  b : UInt32
  c : UInt32
  d : UInt32
  e : UInt32
  f : UInt32
  g : UInt32
  h : UInt32

def initial : Words where
  a := 0x6a09e667
  b := 0xbb67ae85
  c := 0x3c6ef372
  d := 0xa54ff53a
  e := 0x510e527f
  f := 0x9b05688c
  g := 0x1f83d9ab
  h := 0x5be0cd19

def rotr (x : UInt32) (n : UInt32) : UInt32 := (x >>> n) ||| (x <<< (32 - n))

/-- One round, with its constant and its word of the schedule. -/
def round (s : Words) (kw : UInt32 × UInt32) : Words :=
  let s₁ := rotr s.e 6 ^^^ rotr s.e 11 ^^^ rotr s.e 25
  let ch := (s.e &&& s.f) ^^^ ((~~~ s.e) &&& s.g)
  let t₁ := s.h + s₁ + ch + kw.1 + kw.2
  let s₀ := rotr s.a 2 ^^^ rotr s.a 13 ^^^ rotr s.a 22
  let maj := (s.a &&& s.b) ^^^ (s.a &&& s.c) ^^^ (s.b &&& s.c)
  { a := t₁ + (s₀ + maj), b := s.a, c := s.b, d := s.c,
    e := s.d + t₁, f := s.e, g := s.f, h := s.g }

/-- `n` more words of the schedule, in front of the last sixteen; the newest is first. -/
def extend : ℕ → List UInt32 → List UInt32
  | 0, ws => ws
  | n + 1, ws =>
      let x := ws.getD 14 0
      let y := ws.getD 1 0
      let s₀ := rotr x 7 ^^^ rotr x 18 ^^^ (x >>> 3)
      let s₁ := rotr y 17 ^^^ rotr y 19 ^^^ (y >>> 10)
      extend n ((ws.getD 15 0 + s₀ + ws.getD 6 0 + s₁) :: ws)

/-- Words of four bytes each, the most significant first. -/
def wordsOf : List UInt8 → List UInt32
  | b₃ :: b₂ :: b₁ :: b₀ :: bs =>
      ((b₃.toUInt32 <<< 24) ||| (b₂.toUInt32 <<< 16) ||| (b₁.toUInt32 <<< 8) ||| b₀.toUInt32) ::
        wordsOf bs
  | _ => []

def bytesOf (w : UInt32) : List UInt8 :=
  [(w >>> 24).toUInt8, (w >>> 16).toUInt8, (w >>> 8).toUInt8, w.toUInt8]

/-- One block of sixty-four bytes. -/
def compress (s : Words) (block : List UInt8) : Words :=
  let t := (roundConstants.zip (extend 48 (wordsOf block).reverse).reverse).foldl round s
  { a := s.a + t.a, b := s.b + t.b, c := s.c + t.c, d := s.d + t.d,
    e := s.e + t.e, f := s.f + t.f, g := s.g + t.g, h := s.h + t.h }

/-- The text with its padding: a one bit, zeros, and its length in bits. -/
def pad (bs : List UInt8) : List UInt8 :=
  let bits := 8 * bs.length
  bs ++ 0x80 :: List.replicate ((119 - bs.length % 64) % 64) 0 ++
    (List.range 8).map fun i => (bits / 2 ^ (8 * (7 - i))).toUInt8

def blocks (s : Words) : ℕ → List UInt8 → Words
  | 0, _ => s
  | n + 1, bs => blocks (compress s (bs.take 64)) n (bs.drop 64)

def sum (bs : List UInt8) : List UInt8 :=
  let padded := pad bs
  let s := blocks initial (padded.length / 64) padded
  [s.a, s.b, s.c, s.d, s.e, s.f, s.g, s.h].flatMap bytesOf

/-- The hash of `abc` starts with `ba7816bf`. -/
example : (sum [0x61, 0x62, 0x63]).take 4 = [0xba, 0x78, 0x16, 0xbf] := by decide +kernel

end Sha256

end ToyRaft
