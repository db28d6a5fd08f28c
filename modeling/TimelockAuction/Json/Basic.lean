/-!
# JSON values

A value is a scalar, an array or an object. Nothing of the text is lost that a reader may ask about: a
number keeps its digits, a text may hold surrogates that no character stands for, and an object keeps
its members in order, repeated names included.
-/

namespace TimelockAuction

namespace Json

/-- The power of ten behind a number. -/
structure Exponent where
  negative : Bool
  digits : List Char
deriving DecidableEq, Repr

/-- A number as it is spelled: digits before the point, digits after it (none if there is no point),
and an exponent. -/
structure Number where
  negative : Bool
  whole : List Char
  fraction : List Char
  exponent : Option Exponent
deriving DecidableEq, Repr

/-- One unit of a text: a character, or a surrogate that is no half of one. -/
inductive TextUnit
  | char (c : Char)
  | surrogate (code : Nat)
deriving DecidableEq, Repr

/-- The units of a text in order. -/
abbrev Text := List TextUnit

inductive Scalar
  | null
  | bool (b : Bool)
  | number (n : Number)
  | text (t : Text)
deriving DecidableEq, Repr

end Json

inductive Json
  | scalar (s : Json.Scalar)
  | array (items : List Json)
  | object (members : List (Json.Text × Json))

namespace Json

def Text.ofString (s : String) : Text :=
  s.toList.map .char

/-- The characters of a text; a pair of surrogates is one character, and a surrogate without its other
half is none. -/
def Text.chars? : Text → Option (List Char)
  | [] => some []
  | .char c :: rest => (chars? rest).map (c :: ·)
  | .surrogate high :: .surrogate low :: rest =>
    if high < 0xdc00 ∧ 0xdc00 ≤ low then
      (chars? rest).map (Char.ofNat (0x10000 + (high - 0xd800) * 0x400 + (low - 0xdc00)) :: ·)
    else none
  | .surrogate _ :: _ => none

/-- The string of a text whose surrogates are all paired. -/
def Text.string? (t : Text) : Option String :=
  (Text.chars? t).map String.ofList

def Number.ofNat (n : Nat) : Number := ⟨false, Nat.toDigits 10 n, [], none⟩

def null : Json := .scalar .null

def nat (n : Nat) : Json := .scalar (.number (.ofNat n))

def string (s : String) : Json := .scalar (.text (.ofString s))

def ofFields (fields : List (String × Json)) : Json :=
  .object (fields.map fun (name, value) => (Text.ofString name, value))

end Json

end TimelockAuction
