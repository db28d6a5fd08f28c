import TimelockAuction.Json.Basic
import TimelockAuction.Binary64.Arithmetic

/-!
# Typed values in JSON

Readers for the kinds of values that orders and configurations are made of. A reader gives nothing
where the value has another kind or lies out of range.

An integer is spelled without sign, point and exponent. A binary64 number may be any number that does
not overflow. It is read quickly rather than exactly: digits that no longer fit in a 64-bit significand
are dropped, and the significand is then scaled by a power of ten, each step rounding once.
-/

namespace TimelockAuction.Json

/-! ## Integers -/

/-- The natural that a number without sign, point and exponent spells. -/
def Number.nat? (n : Number) : Option Nat :=
  if n.negative ∨ n.fraction ≠ [] ∨ n.exponent ≠ none then none
  else some (Nat.ofDigitChars 10 n.whole 0)

def word? : Json → Option UInt64
  | .scalar (.number n) => do
    let value ← n.nat?
    if value < UInt64.size then some (UInt64.ofNat value) else none
  | _ => none

def byte? : Json → Option UInt8
  | .scalar (.number n) => do
    let value ← n.nat?
    if value < UInt8.size then some (UInt8.ofNat value) else none
  | _ => none

/-! ## Binary64 numbers -/

/-- A significand below `2 ^ 64` and a power of ten. -/
structure Scaled where
  significand : Nat
  exponent : Int
deriving DecidableEq, Repr

namespace Scaled

/-- The significand with one more digit, if it still fits in 64 bits. -/
def extend? (significand : Nat) (digit : Char) : Option Nat :=
  let next := significand * 10 + (digit.toNat - 48)
  if next < UInt64.size then some next else none

/-- Reads the digits before the point. From the first that does not fit on, each only counts. -/
def ofWhole (significand : Nat) : List Char → Scaled
  | [] => ⟨significand, 0⟩
  | digit :: rest =>
    match extend? significand digit with
    | some next => ofWhole next rest
    | none => ⟨significand, rest.length + 1⟩

/-- Reads the digits behind the point, up to the first that does not fit. -/
def readFraction (s : Scaled) : List Char → Scaled
  | [] => s
  | digit :: rest =>
    match extend? s.significand digit with
    | some next => readFraction ⟨next, s.exponent - 1⟩ rest
    | none => s

/-- Divides by `10 ^ exponent`, at most `10 ^ 308` at a time. -/
def scaleDown (x : Binary64) (exponent : Nat) : Nat → Binary64
  | 0 => x
  | fuel + 1 =>
    if exponent ≤ 308 then x.div (.powerOfTen exponent)
    else if x.isZero then x
    else scaleDown (x.div (.powerOfTen 308)) (exponent - 308) fuel

/-- The magnitude of a scaled significand, unless it overflows. Three divisions by `10 ^ 308` take
every significand to zero. -/
def magnitude? (s : Scaled) : Option Binary64 :=
  let x := Binary64.ofNat s.significand
  if s.exponent < 0 then some (scaleDown x s.exponent.natAbs 4)
  else if s.exponent ≤ 308 then
    let y := x.mul (.powerOfTen s.exponent.natAbs)
    if y.isInfinite then none else some y
  else if x.isZero then some x
  else none

end Scaled

/-- The greatest exponent that is read as such; a greater one overflows or leaves zero. -/
def maxExponent : Nat := (1 <<< 31) - 1

def Number.magnitude? (n : Number) : Option Binary64 :=
  let digits := (Scaled.ofWhole 0 n.whole).readFraction n.fraction
  match n.exponent with
  | none => digits.magnitude?
  | some e =>
    let value := Nat.ofDigitChars 10 e.digits 0
    if maxExponent < value then
      if digits.significand = 0 ∨ e.negative then some .zero else none
    else
      let shift : Int := if e.negative then -value else value
      Scaled.magnitude? ⟨digits.significand, digits.exponent + shift⟩

/-- The binary64 number that a number is read as, unless it overflows. -/
def Number.binary64? (n : Number) : Option Binary64 :=
  n.magnitude?.map fun x => .ofCode n.negative x.code

def binary64? : Json → Option Binary64
  | .scalar (.number n) => n.binary64?
  | _ => none

/-! ## Texts and lists -/

def string? : Json → Option String
  | .scalar (.text t) => t.string?
  | _ => none

def items? : Json → Option (List Json)
  | .array items => some items
  | _ => none

def bytes? (v : Json) : Option (List UInt8) := do
  let items ← v.items?
  items.mapM byte?

/-! ## Fields -/

/-- The values of the fields of an object, in the order of the wanted names: `none` for a field that is
missing. Members of other names are passed over. There is no result if a member's name is no string, or
if a wanted name occurs twice. -/
def fields? (names : List String) (members : List (Text × Json)) :
    Option (List (Option Json)) := do
  let members ← members.mapM fun (name, v) => do
    let name ← name.string?
    return (name, v)
  names.mapM fun wanted =>
    match members.filter (·.1 == wanted) with
    | [] => some none
    | [(_, v)] => some (some v)
    | _ => none

/-- The fields of a record that is written as an object or as an array of its fields in order. A
shorter array leaves the last fields out, and a longer one is no record. -/
def record? (names : List String) : Json → Option (List (Option Json))
  | .object members => fields? names members
  | .array items =>
    if items.length ≤ names.length then
      some (items.map some ++ List.replicate (names.length - items.length) none)
    else none
  | .scalar _ => none

end TimelockAuction.Json
