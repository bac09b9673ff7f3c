/-!
# SHA-256

The digest of a list of bytes: the message is padded to blocks of sixteen words, and each block is
mixed into a state of eight words in sixty-four rounds. Words are taken with their first byte as the
highest, and sums wrap at 32 bits.
-/

namespace RowScope.Digest

/-- The word turned right by some places, less than 32 and not none. -/
def rotateRight (x places : UInt32) : UInt32 := (x >>> places) ||| (x <<< (32 - places))

/-- The state of eight words. -/
structure Sha256State where
  /-- The first word. -/
  a : UInt32
  /-- The second word. -/
  b : UInt32
  /-- The third word. -/
  c : UInt32
  /-- The fourth word. -/
  d : UInt32
  /-- The fifth word. -/
  e : UInt32
  /-- The sixth word. -/
  f : UInt32
  /-- The seventh word. -/
  g : UInt32
  /-- The eighth word. -/
  h : UInt32
deriving DecidableEq, Repr

namespace Sha256State

/-- The first bits behind the point of the square roots of the first eight primes. -/
def initial : Sha256State where
  a := 0x6a09e667
  b := 0xbb67ae85
  c := 0x3c6ef372
  d := 0xa54ff53a
  e := 0x510e527f
  f := 0x9b05688c
  g := 0x1f83d9ab
  h := 0x5be0cd19

/-- The sums of the words of two states. -/
def add (s t : Sha256State) : Sha256State :=
  ⟨s.a + t.a, s.b + t.b, s.c + t.c, s.d + t.d, s.e + t.e, s.f + t.f, s.g + t.g, s.h + t.h⟩

/-- The words in their order. -/
def words (s : Sha256State) : List UInt32 := [s.a, s.b, s.c, s.d, s.e, s.f, s.g, s.h]

/-- One round with the sum of a round constant and a word of the schedule. -/
def round (s : Sha256State) (addend : UInt32) : Sha256State :=
  let choice := (s.e &&& s.f) ^^^ (~~~s.e &&& s.g)
  let majority := (s.a &&& s.b) ^^^ (s.a &&& s.c) ^^^ (s.b &&& s.c)
  let high := rotateRight s.e 6 ^^^ rotateRight s.e 11 ^^^ rotateRight s.e 25
  let low := rotateRight s.a 2 ^^^ rotateRight s.a 13 ^^^ rotateRight s.a 22
  let first := s.h + high + choice + addend
  ⟨first + low + majority, s.a, s.b, s.c, s.d + first, s.e, s.f, s.g⟩

end Sha256State

/-- The first bits behind the point of the cube roots of the first sixty-four primes. -/
def roundConstants : List UInt32 :=
  [0x428a2f98, 0x71374491, 0xb5c0fbcf, 0xe9b5dba5, 0x3956c25b, 0x59f111f1, 0x923f82a4, 0xab1c5ed5,
    0xd807aa98, 0x12835b01, 0x243185be, 0x550c7dc3, 0x72be5d74, 0x80deb1fe, 0x9bdc06a7, 0xc19bf174,
    0xe49b69c1, 0xefbe4786, 0x0fc19dc6, 0x240ca1cc, 0x2de92c6f, 0x4a7484aa, 0x5cb0a9dc, 0x76f988da,
    0x983e5152, 0xa831c66d, 0xb00327c8, 0xbf597fc7, 0xc6e00bf3, 0xd5a79147, 0x06ca6351, 0x14292967,
    0x27b70a85, 0x2e1b2138, 0x4d2c6dfc, 0x53380d13, 0x650a7354, 0x766a0abb, 0x81c2c92e, 0x92722c85,
    0xa2bfe8a1, 0xa81a664b, 0xc24b8b70, 0xc76c51a3, 0xd192e819, 0xd6990624, 0xf40e3585, 0x106aa070,
    0x19a4c116, 0x1e376c08, 0x2748774c, 0x34b0bcb5, 0x391c0cb3, 0x4ed8aa4a, 0x5b9cca4f, 0x682e6ff3,
    0x748f82ee, 0x78a5636f, 0x84c87814, 0x8cc70208, 0x90befffa, 0xa4506ceb, 0xbef9a3f7, 0xc67178f2]

/-! ## The schedule of a block -/

/-- The word that follows some words, the last of which stands first. -/
def nextWord (latest : List UInt32) : UInt32 :=
  let w2 := latest.getD 1 0
  let w15 := latest.getD 14 0
  (rotateRight w2 17 ^^^ rotateRight w2 19 ^^^ (w2 >>> 10)) + latest.getD 6 0 +
    (rotateRight w15 7 ^^^ rotateRight w15 18 ^^^ (w15 >>> 3)) + latest.getD 15 0

/-- The words with so many more, the last of which stands first. -/
def extendSchedule : Nat → List UInt32 → List UInt32
  | 0, latest => latest
  | more + 1, latest => extendSchedule more (nextWord latest :: latest)

/-- The sixty-four words of a block of sixteen. -/
def schedule (block : List UInt32) : List UInt32 := (extendSchedule 48 block.reverse).reverse

/-- Mixes a block into a state. -/
def compress (s : Sha256State) (block : List UInt32) : Sha256State :=
  s.add ((roundConstants.zipWith (· + ·) (schedule block)).foldl Sha256State.round s)

/-! ## The message -/

/-- Some bytes of a number, the highest first. -/
def bigEndian : Nat → Nat → List UInt8
  | 0, _ => []
  | count + 1, n => UInt8.ofNat (n >>> (8 * count)) :: bigEndian count n

/-- What follows a message of so many bytes: a single bit, zeros up to the last eight bytes of a
block, and the number of bits. -/
def padding (size : Nat) : List UInt8 :=
  0x80 :: List.replicate ((119 - size % 64) % 64) 0 ++ bigEndian 8 (8 * size)

/-- The words of some bytes; at most three bytes at the end are left over. -/
def bytesToWords : List UInt8 → List UInt32
  | a :: b :: c :: d :: rest =>
    ((a.toUInt32 <<< 24) ||| (b.toUInt32 <<< 16) ||| (c.toUInt32 <<< 8) ||| d.toUInt32) ::
      bytesToWords rest
  | _ => []

/-- Mixes so many blocks of some words into a state. -/
def compressBlocks : Nat → Sha256State → List UInt32 → Sha256State
  | 0, s, _ => s
  | count + 1, s, words => compressBlocks count (compress s (words.take 16)) (words.drop 16)

/-- The digest of some bytes. -/
def sha256 (message : List UInt8) : List UInt8 :=
  let words := bytesToWords (message ++ padding message.length)
  (compressBlocks (words.length / 16) .initial words).words.flatMap fun w => bigEndian 4 w.toNat

/-- Some bytes in hexadecimal digits, two for each. -/
def hexText (bytes : List UInt8) : String :=
  String.ofList (bytes.flatMap fun b =>
    [Nat.digitChar (b.toNat / 16), Nat.digitChar (b.toNat % 16)])

end RowScope.Digest
