import TimelockAuction.Binary64.Basic

/-!
# Binary64 arithmetic

Each operation computes its exact result as a quotient of naturals and rounds it once, to the
nearest number and on a tie to the one with an even code.
-/

namespace TimelockAuction.Binary64

/-- The natural nearest to `num / den`, the even one on a tie. -/
def divNearestEven (num den : Nat) : Nat :=
  let quotient := num / den
  let twice := 2 * (num % den)
  if twice < den ∨ twice = den ∧ quotient % 2 = 0 then quotient else quotient + 1

/-- The code nearest to a magnitude of `num / den` units. The significand is cut to 53 bits; one
that rounds up to `2 ^ 53` carries into the exponent, and above the greatest finite code the result
is infinity. -/
def nearestCode (num den : Nat) : Nat :=
  let shift := (num / den).log2 - 52
  min infinityCode (shift * fractionCount + divNearestEven num (den <<< shift))

def ofNat (n : Nat) : Binary64 :=
  ofCode false (nearestCode (n * unitsOfOne) 1)

def powerOfTen (exponent : Nat) : Binary64 :=
  ofNat (Nat.pow 10 exponent)

def mul (x y : Binary64) : Binary64 :=
  let negative := x.isNegative ^^ y.isNegative
  if x.isNaN || y.isNaN then nan
  else if x.isInfinite || y.isInfinite then
    if x.isZero || y.isZero then nan else infinity negative
  else ofCode negative (nearestCode (units x.code * units y.code) unitsOfOne)

def div (x y : Binary64) : Binary64 :=
  let negative := x.isNegative ^^ y.isNegative
  if x.isNaN || y.isNaN then nan
  else if x.isInfinite then
    if y.isInfinite then nan else infinity negative
  else if y.isInfinite then ofCode negative 0
  else if y.isZero then
    if x.isZero then nan else infinity negative
  else ofCode negative (nearestCode (units x.code * unitsOfOne) (units y.code))

/-- The integer nearest to the magnitude of a finite number, away from zero on a tie. -/
def roundHalfAway (x : Binary64) : Nat :=
  (2 * units x.code + unitsOfOne) / (2 * unitsOfOne)

end TimelockAuction.Binary64
