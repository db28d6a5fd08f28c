import TimelockAuction.Binary64.Text
import TimelockAuction.Json.Basic

/-!
# Binary64 numbers in JSON

The shortest digits that read back, the even ones of two at the same distance. From `10 ^ -5` up to, but
not including, `10 ^ 16` they are written around a point, with at least one digit behind it; beyond, with
an exponent. Infinities and NaN have no spelling and are written as `null`.
-/

namespace TimelockAuction

/-- The number that spells a decimal with an exponent: one digit, the others behind the point. -/
def Binary64.Decimal.scientific (d : Binary64.Decimal) (negative : Bool) : Json.Number :=
  let digits := Nat.toDigits 10 d.coefficient
  let exponent := d.exponent + digits.length - 1
  { negative
    whole := digits.take 1
    fraction := digits.drop 1
    exponent := some ⟨decide (exponent < 0), Nat.toDigits 10 exponent.natAbs⟩ }

/-- The number that spells a decimal around a point. -/
def Binary64.Decimal.pointed (d : Binary64.Decimal) (negative : Bool) : Json.Number :=
  let (whole, places) := d.positional
  { negative
    whole
    fraction := if places.isEmpty then ['0'] else places
    exponent := none }

/-- The number that spells a finite binary64 number. -/
def Json.Number.ofBinary64? (x : Binary64) : Option Json.Number :=
  if !x.isFinite then none
  else if x.isZero then some ⟨x.isNegative, ['0'], ['0'], none⟩
  else
    let d := Binary64.shortest .even x.code
    let magnitude := d.exponent + (Nat.toDigits 10 d.coefficient).length - 1
    if -5 ≤ magnitude ∧ magnitude < 16 then some (d.pointed x.isNegative)
    else some (d.scientific x.isNegative)

def Json.binary64 (x : Binary64) : Json :=
  match Json.Number.ofBinary64? x with
  | some n => .scalar (.number n)
  | none => .null

end TimelockAuction
