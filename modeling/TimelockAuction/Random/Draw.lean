import TimelockAuction.Bytes.Endian

/-!
# Drawing from a supply of random bytes

Randomness is a supply: a byte string from which every draw takes the next bytes, skipping none. A
draw has no result where the supply runs out, so what is said of a draw holds for every supply that
lasts.

Numbers below a bound are drawn by rejection: a draw is repeated until it is accepted. Each attempt
takes bytes, so the length of the supply bounds their number.
-/

namespace TimelockAuction

/-- A result drawn from a supply of random bytes, and what is left of the supply. -/
abbrev Draw (α : Type) := StateT Bytes Option α

namespace Draw

def bytes (n : Nat) : Draw (Vector UInt8 n) := fun supply =>
  let taken := supply.take n
  if h : taken.length = n then some (Bytes.toVector taken h, supply.drop n) else none

/-- At most `attempts` attempts at a draw, up to the first that is accepted. -/
def retry {α : Type} (attempt : Draw (Option α)) : (attempts : Nat) → Draw α
  | 0 => failure
  | attempts + 1 => do
    match ← attempt with
    | some value => return value
    | none => retry attempt attempts

/-- Repeats a draw that takes at least one byte until it is accepted. -/
def untilSome {α : Type} (attempt : Draw (Option α)) : Draw α := fun supply =>
  retry attempt (supply.length + 1) supply

/-- The number of binary digits of a natural; zero has none. -/
def bitLength (n : Nat) : Nat :=
  if n = 0 then 0 else n.log2 + 1

/-- A natural of at most `bits` binary digits. Whole 32-bit words are taken, the least significant
first, and the surplus low bits of the last are dropped. -/
def natural (bits : Nat) : Draw Nat := do
  let taken ← bytes (4 * ((bits + 31) / 32))
  let n := LittleEndian.toNat taken.toList
  if bits % 32 = 0 then return n
  else
    let low := 32 * (bits / 32)
    return n % (1 <<< low) + (n >>> low >>> (32 - bits % 32)) <<< low

/-- A natural from `low` up to, but not including, `high`. -/
def range (low high : Nat) : Draw Nat := do
  let width := high - low
  let offset ← untilSome do
    let n ← natural (bitLength width)
    return if n < width then some n else none
  return low + offset

end Draw

end TimelockAuction
