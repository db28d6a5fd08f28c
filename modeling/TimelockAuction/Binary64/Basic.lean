/-!
# Binary64 numbers

A binary64 number is its 64 bits: a sign and a 63-bit code. Codes grow with the magnitude. A code
below `infinityCode` is finite, that code is infinity, and every code above it is not a number.

A finite magnitude is a whole number of `2 ^ -1074`, the least positive number of the format, so
every finite value is exact in `Nat`: `units code` counts those units. One is `unitsOfOne` of them.
-/

namespace TimelockAuction

/-- A number in the IEEE 754 binary64 format, kept as its bits. -/
structure Binary64 where
  bits : UInt64
deriving DecidableEq, Repr

namespace Binary64

def signWeight : Nat := 1 <<< 63

/-- How many fractions share an exponent. -/
def fractionCount : Nat := 1 <<< 52

/-- The code of infinity: an exponent field of ones over a fraction of zeros. -/
def infinityCode : Nat := 2047 * fractionCount

/-- How many units make one. -/
def unitsOfOne : Nat := 1 <<< 1074

/-- The bits below the sign. -/
def code (x : Binary64) : Nat :=
  x.bits.toNat % signWeight

def isNegative (x : Binary64) : Bool :=
  decide (signWeight ≤ x.bits.toNat)

/-- The number with a given sign and code. -/
def ofCode (negative : Bool) (code : Nat) : Binary64 :=
  ⟨UInt64.ofNat ((if negative then signWeight else 0) + code)⟩

def isFinite (x : Binary64) : Bool :=
  decide (x.code < infinityCode)

def isInfinite (x : Binary64) : Bool :=
  decide (x.code = infinityCode)

def isNaN (x : Binary64) : Bool :=
  decide (infinityCode < x.code)

def isZero (x : Binary64) : Bool :=
  decide (x.code = 0)

def zero : Binary64 := ofCode false 0

/-- The quiet not-a-number with an empty payload. -/
def nan : Binary64 := ofCode false (infinityCode + fractionCount / 2)

def infinity (negative : Bool) : Binary64 := ofCode negative infinityCode

/-- The magnitude of a finite code in units of `2 ^ -1074`. Up to twice the least normal number the
code counts the units itself; above, each step of the exponent field doubles them. -/
def units (code : Nat) : Nat :=
  if code < fractionCount then code
  else (fractionCount + code % fractionCount) <<< (code / fractionCount - 1)

/-- Equality of values: zeros of either sign are equal, and a NaN differs from itself. -/
def equals (x y : Binary64) : Bool :=
  !x.isNaN && !y.isNaN && (x == y || x.isZero && y.isZero)

end Binary64

end TimelockAuction
