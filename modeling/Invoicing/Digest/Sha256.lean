import Invoicing.Text.Quoted

/-!
# SHA-256

`Sha256.hex` is the digest of a text's UTF-8 bytes in hexadecimal. The bytes are padded to blocks of
64; each block goes through 64 rounds, which use its 16 words and the words that `nextWord` makes of
the 16 before.
-/

namespace Invoicing.Sha256

/-- The chaining value. -/
structure State where
  a : UInt32
  b : UInt32
  c : UInt32
  d : UInt32
  e : UInt32
  f : UInt32
  g : UInt32
  h : UInt32
  deriving DecidableEq

/-- Fractional parts of the square roots of the first eight primes. -/
def initial : State :=
  ⟨0x6a09e667, 0xbb67ae85, 0x3c6ef372, 0xa54ff53a, 0x510e527f, 0x9b05688c, 0x1f83d9ab, 0x5be0cd19⟩

/-- Fractional parts of the cube roots of the first 64 primes. -/
def constants : List UInt32 :=
  [0x428a2f98, 0x71374491, 0xb5c0fbcf, 0xe9b5dba5, 0x3956c25b, 0x59f111f1, 0x923f82a4, 0xab1c5ed5,
   0xd807aa98, 0x12835b01, 0x243185be, 0x550c7dc3, 0x72be5d74, 0x80deb1fe, 0x9bdc06a7, 0xc19bf174,
   0xe49b69c1, 0xefbe4786, 0x0fc19dc6, 0x240ca1cc, 0x2de92c6f, 0x4a7484aa, 0x5cb0a9dc, 0x76f988da,
   0x983e5152, 0xa831c66d, 0xb00327c8, 0xbf597fc7, 0xc6e00bf3, 0xd5a79147, 0x06ca6351, 0x14292967,
   0x27b70a85, 0x2e1b2138, 0x4d2c6dfc, 0x53380d13, 0x650a7354, 0x766a0abb, 0x81c2c92e, 0x92722c85,
   0xa2bfe8a1, 0xa81a664b, 0xc24b8b70, 0xc76c51a3, 0xd192e819, 0xd6990624, 0xf40e3585, 0x106aa070,
   0x19a4c116, 0x1e376c08, 0x2748774c, 0x34b0bcb5, 0x391c0cb3, 0x4ed8aa4a, 0x5b9cca4f, 0x682e6ff3,
   0x748f82ee, 0x78a5636f, 0x84c87814, 0x8cc70208, 0x90befffa, 0xa4506ceb, 0xbef9a3f7, 0xc67178f2]

/-- The word turned right by `n` bits, `n` from 1 to 31. -/
def rotate (x n : UInt32) : UInt32 := (x >>> n) ||| (x <<< (32 - n))

def schedule0 (x : UInt32) : UInt32 := rotate x 7 ^^^ rotate x 18 ^^^ (x >>> 3)

def schedule1 (x : UInt32) : UInt32 := rotate x 17 ^^^ rotate x 19 ^^^ (x >>> 10)

def nextWord (window : List UInt32) : UInt32 :=
  schedule1 (window.getD 14 0) + window.getD 9 0 + schedule0 (window.getD 1 0) + window.getD 0 0

/-- One round, with its constant and its word. -/
def round (s : State) (constant word : UInt32) : State :=
  let sum1 := rotate s.e 6 ^^^ rotate s.e 11 ^^^ rotate s.e 25
  let choice := (s.e &&& s.f) ^^^ (~~~s.e &&& s.g)
  let t1 := s.h + sum1 + choice + constant + word
  let sum0 := rotate s.a 2 ^^^ rotate s.a 13 ^^^ rotate s.a 22
  let majority := (s.a &&& s.b) ^^^ (s.a &&& s.c) ^^^ (s.b &&& s.c)
  ⟨t1 + (sum0 + majority), s.a, s.b, s.c, s.d + t1, s.e, s.f, s.g⟩

/-- A round for each constant; the window moves on by a word after each. -/
def rounds (s : State) (window : List UInt32) : List UInt32 → State
  | [] => s
  | k :: rest =>
    rounds (round s k (window.getD 0 0)) (window.drop 1 ++ [nextWord window]) rest

/-- Four bytes as a word, the first byte the highest. -/
def words : List UInt8 → List UInt32
  | a :: b :: c :: d :: rest =>
    ((a.toUInt32 <<< 24) ||| (b.toUInt32 <<< 16) ||| (c.toUInt32 <<< 8) ||| d.toUInt32) :: words rest
  | _ => []

def compress (s : State) (block : List UInt8) : State :=
  let t := rounds s (words block) constants
  ⟨s.a + t.a, s.b + t.b, s.c + t.c, s.d + t.d, s.e + t.e, s.f + t.f, s.g + t.g, s.h + t.h⟩

/-- A bit that is set, zeros, and the number of bits in the last eight bytes of the last block. -/
def padded (bytes : List UInt8) : List UInt8 :=
  let n := bytes.length
  let zeros := List.replicate ((119 - n % 64) % 64) (0 : UInt8)
  let size := (List.range 8).map fun i => UInt8.ofNat (8 * n / Nat.pow 256 (7 - i))
  bytes ++ 0x80 :: zeros ++ size

def compressAll (s : State) (bytes : List UInt8) : Nat → State
  | 0 => s
  | count + 1 => compressAll (compress s (bytes.take 64)) (bytes.drop 64) count

def digest (bytes : List UInt8) : State :=
  let all := padded bytes
  compressAll initial all (all.length / 64)

/-- The digest of a text, 64 hexadecimal digits. -/
def hex (s : String) : String :=
  let d := digest s.toUTF8.toList
  String.join ([d.a, d.b, d.c, d.d, d.e, d.f, d.g, d.h].map fun w => Text.hexPadded 8 w.toNat)

end Invoicing.Sha256
