import TimelockAuction.Bytes.Endian

/-!
# SHA-256

A message is padded to whole blocks of 64 bytes, and each block is mixed into a state of eight 32-bit
words. The words of the last state, most significant byte first, are the digest.
-/

namespace TimelockAuction.Sha256

/-- The round constants: the first 32 bits of the fractional parts of the cube roots of the first 64
primes. -/
def roundConstants : List UInt32 := [
  0x428a2f98, 0x71374491, 0xb5c0fbcf, 0xe9b5dba5, 0x3956c25b, 0x59f111f1, 0x923f82a4, 0xab1c5ed5,
  0xd807aa98, 0x12835b01, 0x243185be, 0x550c7dc3, 0x72be5d74, 0x80deb1fe, 0x9bdc06a7, 0xc19bf174,
  0xe49b69c1, 0xefbe4786, 0x0fc19dc6, 0x240ca1cc, 0x2de92c6f, 0x4a7484aa, 0x5cb0a9dc, 0x76f988da,
  0x983e5152, 0xa831c66d, 0xb00327c8, 0xbf597fc7, 0xc6e00bf3, 0xd5a79147, 0x06ca6351, 0x14292967,
  0x27b70a85, 0x2e1b2138, 0x4d2c6dfc, 0x53380d13, 0x650a7354, 0x766a0abb, 0x81c2c92e, 0x92722c85,
  0xa2bfe8a1, 0xa81a664b, 0xc24b8b70, 0xc76c51a3, 0xd192e819, 0xd6990624, 0xf40e3585, 0x106aa070,
  0x19a4c116, 0x1e376c08, 0x2748774c, 0x34b0bcb5, 0x391c0cb3, 0x4ed8aa4a, 0x5b9cca4f, 0x682e6ff3,
  0x748f82ee, 0x78a5636f, 0x84c87814, 0x8cc70208, 0x90befffa, 0xa4506ceb, 0xbef9a3f7, 0xc67178f2]

/-- The eight words that blocks are mixed into. -/
structure State where
  a : UInt32
  b : UInt32
  c : UInt32
  d : UInt32
  e : UInt32
  f : UInt32
  g : UInt32
  h : UInt32
deriving DecidableEq, Repr

/-- The first state: the first 32 bits of the fractional parts of the square roots of the first eight
primes. -/
def initial : State :=
  ⟨0x6a09e667, 0xbb67ae85, 0x3c6ef372, 0xa54ff53a, 0x510e527f, 0x9b05688c, 0x1f83d9ab, 0x5be0cd19⟩

def rotateRight (x : UInt32) (n : UInt32) : UInt32 :=
  (x >>> n) ||| (x <<< (32 - n))

/-! ## Padding -/

/-- The message, a one bit, zeros up to eight bytes short of a whole block, and the length in bits. -/
def pad (message : Bytes) : Bytes :=
  message ++ 0x80 :: List.replicate ((119 - message.length % 64) % 64) 0 ++
    (BigEndian.encodeFixed 8 (8 * message.length)).toList

/-! ## Mixing a block -/

def nextWord (schedule : Array UInt32) : UInt32 :=
  let back (n : Nat) : UInt32 := schedule.getD (schedule.size - n) 0
  let x := back 15
  let y := back 2
  back 16 + (rotateRight x 7 ^^^ rotateRight x 18 ^^^ (x >>> 3)) + back 7 +
    (rotateRight y 17 ^^^ rotateRight y 19 ^^^ (y >>> 10))

def extend : Nat → Array UInt32 → Array UInt32
  | 0, schedule => schedule
  | n + 1, schedule => extend n (schedule.push (nextWord schedule))

/-- One round, with its constant and schedule word added up. -/
def State.round (s : State) (key : UInt32) : State :=
  let mix := s.h + (rotateRight s.e 6 ^^^ rotateRight s.e 11 ^^^ rotateRight s.e 25) +
    ((s.e &&& s.f) ^^^ (~~~s.e &&& s.g)) + key
  let spread := (rotateRight s.a 2 ^^^ rotateRight s.a 13 ^^^ rotateRight s.a 22) +
    ((s.a &&& s.b) ^^^ (s.a &&& s.c) ^^^ (s.b &&& s.c))
  ⟨mix + spread, s.a, s.b, s.c, s.d + mix, s.e, s.f, s.g⟩

/-- Sixty-four rounds over the schedule of a block, added to the state before them. -/
def State.compress (s : State) (block : Bytes) : State :=
  let schedule := extend 48 (BigEndian.words block).toArray
  let t := (roundConstants.zipWith (· + ·) schedule.toList).foldl State.round s
  ⟨s.a + t.a, s.b + t.b, s.c + t.c, s.d + t.d, s.e + t.e, s.f + t.f, s.g + t.g, s.h + t.h⟩

/-- Mixes the first `n` blocks of a byte string in. -/
def State.absorb (s : State) : Nat → Bytes → State
  | 0, _ => s
  | n + 1, bytes => (s.compress (bytes.take 64)).absorb n (bytes.drop 64)

/-! ## Digest -/

def State.bytes (s : State) : Vector UInt8 32 :=
  Bytes.toVector ([s.a, s.b, s.c, s.d, s.e, s.f, s.g, s.h].flatMap BigEndian.encodeWord32) (by
    simp [BigEndian.encodeWord32])

def digest (message : Bytes) : Vector UInt8 32 :=
  let padded := pad message
  (initial.absorb (padded.length / 64) padded).bytes

end TimelockAuction.Sha256
