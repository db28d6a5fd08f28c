import TimelockAuction.Number.Primality
import TimelockAuction.Puzzle.Key
import TimelockAuction.Wire.Reader

/-!
# The squaring puzzle

The puzzle is a modulus, a base and a number of squarings; its solution is the base squared that often
modulo the modulus. Who knows the two prime factors of the modulus can shorten the exponent modulo
`(p - 1) * (q - 1)` and so make a puzzle quickly; who does not has to square one time after the other.
-/

namespace TimelockAuction

structure SquaringPuzzle where
  modulus : Nat
  base : Nat
  squarings : UInt64
deriving DecidableEq

namespace SquaringPuzzle

def domain : Bytes := "sealbid:rsw:v1:".toUTF8.toList

/-- The key that a residue hides. -/
def keyOf (residue : Nat) : Key :=
  Key.derive domain (BigEndian.encode residue)

/-! ## Solving -/

def squareTimes (n : Nat) : (count : Nat) → (x : Nat) → Nat
  | 0, x => x
  | count + 1, x => squareTimes n count (x * x % n)

/-- The residue that a puzzle asks for. -/
def solution (puzzle : SquaringPuzzle) : Nat :=
  squareTimes puzzle.modulus puzzle.squarings.toNat (puzzle.base % puzzle.modulus)

/-- The key a puzzle hides, found by squaring. -/
def solveKey (puzzle : SquaringPuzzle) : Except Error Key :=
  if puzzle.modulus ≤ 1 then throw (.puzzleSolve .modulusTooSmall)
  else return keyOf puzzle.solution

/-! ## Making -/

/-- The secret of a puzzle: the two factors of its modulus. -/
structure Trapdoor where
  p : Nat
  q : Nat
deriving DecidableEq

namespace Trapdoor

def modulus (trapdoor : Trapdoor) : Nat :=
  trapdoor.p * trapdoor.q

/-- The exponent modulo which powers repeat, if both factors are prime. -/
def order (trapdoor : Trapdoor) : Nat :=
  (trapdoor.p - 1) * (trapdoor.q - 1)

/-- The residue of a base squared `squarings` times, through the shortened exponent. -/
def shortcut (trapdoor : Trapdoor) (base : Nat) (squarings : UInt64) : Nat :=
  powMod base (powMod 2 squarings.toNat trapdoor.order) trapdoor.modulus

/-- Two different probable primes whose product has `modulusBits` binary digits. -/
def draw (modulusBits : Nat) : Draw Trapdoor := do
  let p ← drawPrime (modulusBits / 2)
  let q ← Draw.untilSome do
    let q ← drawPrime (modulusBits - modulusBits / 2)
    return if q = p then none else some q
  return ⟨p, q⟩

end Trapdoor

/-- A base without a factor in common with the modulus. -/
def drawBase (modulus : Nat) : Draw Nat :=
  Draw.untilSome do
    let candidate ← Draw.range 2 modulus
    return if candidate.gcd modulus = 1 then some candidate else none

def minModulusBits : UInt64 := 16

/-- A new puzzle of `squarings` squarings and the key it hides. -/
def generate (squarings modulusBits : UInt64) : ExceptT Error Draw (SquaringPuzzle × Key) := do
  if modulusBits < minModulusBits then throw (.puzzleCreate (.modulusTooSmall modulusBits))
  else
    let trapdoor ← ExceptT.lift (Trapdoor.draw modulusBits.toNat)
    let base ← ExceptT.lift (drawBase trapdoor.modulus)
    return (⟨trapdoor.modulus, base, squarings⟩, keyOf (trapdoor.shortcut base squarings))

/-! ## Encoding -/

def encode (puzzle : SquaringPuzzle) : Bytes :=
  frame (BigEndian.encode puzzle.modulus) ++ frame (BigEndian.encode puzzle.base) ++
    LittleEndian.encodeWord puzzle.squarings

def decoder : Decoder SquaringPuzzle := do
  let modulus ← Decoder.framed
  let base ← Decoder.framed
  let squarings ← Decoder.word
  return ⟨BigEndian.toNat modulus, BigEndian.toNat base, squarings⟩

end SquaringPuzzle

end TimelockAuction
