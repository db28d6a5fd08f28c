import TimelockAuction.Binary64.Basic

/-!
# Shortest decimal digits

Between two neighbouring binary64 numbers lies a midpoint. The reals that round to a number reach
from the midpoint below it to the midpoint above it, and include them when its code is even. Of all
decimals in that interval the shortest is the one with the coarsest last place; where a place has
several, the nearest to the number is taken.

All comparisons are exact: the interval is kept in half units, scaled by the power of ten of the
place under test.
-/

namespace TimelockAuction.Binary64

/-- Which of two decimals at the same distance is taken. -/
inductive Tie
  /-- The greater one. -/
  | up
  /-- The one whose last digit is even. -/
  | even
deriving DecidableEq, Repr

/-- The decimal number `coefficient * 10 ^ exponent`. -/
structure Decimal where
  coefficient : Nat
  exponent : Int
deriving DecidableEq, Repr

/-- The lower end of the rounding interval of a positive code, in half units. -/
def lowerEnd (code : Nat) : Nat :=
  units (code - 1) + units code

/-- The upper end of the rounding interval of a code, in half units. -/
def upperEnd (code : Nat) : Nat :=
  units code + units (code + 1)

/-- Whether `num / den` half units round to the code. -/
def inInterval (code num den : Nat) : Bool :=
  if code % 2 = 0 then decide (lowerEnd code * den ≤ num ∧ num ≤ upperEnd code * den)
  else decide (lowerEnd code * den < num ∧ num < upperEnd code * den)

/-- The decimal nearest to the magnitude of a code among those that round to it and whose last place
is `10 ^ exponent`, if there is one. -/
def atPlace? (tie : Tie) (code : Nat) (exponent : Int) : Option Decimal :=
  let step := Nat.pow 10 exponent.toNat * (2 * unitsOfOne)
  let den := Nat.pow 10 (-exponent).toNat
  let exact := 2 * units code * den
  let below := exact / step
  let above := below + 1
  let takeBelow := inInterval code (below * step) den
  let takeAbove := inInterval code (above * step) den
  let toBelow := exact - below * step
  let toAbove := above * step - exact
  let preferBelow := decide (toBelow < toAbove) ||
    (decide (toBelow = toAbove) && tie == .even && decide (below % 2 = 0))
  if takeBelow && (!takeAbove || preferBelow) then some ⟨below, exponent⟩
  else if takeAbove then some ⟨above, exponent⟩
  else none

/-- The first place from `exponent` downwards at which a decimal rounds to the code. -/
def searchPlace (tie : Tie) (code : Nat) : Nat → Int → Decimal
  | 0, exponent => ⟨0, exponent⟩
  | fuel + 1, exponent =>
    match atPlace? tie code exponent with
    | some decimal => decimal
    | none => searchPlace tie code fuel (exponent - 1)

/-- The shortest decimal that rounds to a positive finite code. The search starts above the greatest
finite number; at the place `10 ^ -1074` every magnitude is itself a decimal. -/
def shortest (tie : Tie) (code : Nat) : Decimal :=
  searchPlace tie code 1400 309

end TimelockAuction.Binary64
