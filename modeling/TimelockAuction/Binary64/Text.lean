import TimelockAuction.Binary64.Shortest

/-!
# Positional text of binary64 numbers

The shortest digits that read back, written without an exponent however many zeros that takes. A
whole number has no point, a decimal half way between two numbers' digits goes up, zero keeps its
sign, and a NaN has none.
-/

namespace TimelockAuction.Binary64

/-- The digits of `coefficient * 10 ^ exponent`, positionally: the whole part and the places after
the point. -/
def Decimal.positional (d : Decimal) : List Char × List Char :=
  let digits := Nat.toDigits 10 d.coefficient
  let places := (-d.exponent).toNat
  let padded := List.replicate (places + 1 - digits.length) '0' ++ digits ++
    List.replicate d.exponent.toNat '0'
  padded.splitAt (padded.length - places)

/-- The text of a number in a message. -/
def text (x : Binary64) : String :=
  let sign := if x.isNegative then "-" else ""
  if x.isNaN then "NaN"
  else if x.isInfinite then sign ++ "inf"
  else if x.isZero then sign ++ "0"
  else
    let (whole, places) := (shortest .up x.code).positional
    sign ++ String.ofList (if places.isEmpty then whole else whole ++ '.' :: places)

end TimelockAuction.Binary64
