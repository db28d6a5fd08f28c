import TimelockAuction.Bytes.Basic

/-!
# Reading bytes as UTF-8

Well-formed UTF-8 is read as the text it encodes. Where it is broken, each longest run of bytes that
could have begun a character, or else the single byte at fault, becomes one replacement character.
-/

namespace TimelockAuction.Utf8

/-- What stands for bytes that encode no character. -/
def replacement : Char := '\ufffd'

/-- The range of the second byte of a character and the number of further bytes after it, for a first
byte that starts a character of several bytes. Narrower ranges exclude overlong forms, surrogates and
numbers above the greatest code point. -/
def lead? (first : UInt8) : Option (UInt8 × UInt8 × Nat) :=
  if 0xc2 ≤ first ∧ first ≤ 0xdf then some (0x80, 0xbf, 0)
  else if first = 0xe0 then some (0xa0, 0xbf, 1)
  else if first = 0xed then some (0x80, 0x9f, 1)
  else if 0xe1 ≤ first ∧ first ≤ 0xef then some (0x80, 0xbf, 1)
  else if first = 0xf0 then some (0x90, 0xbf, 2)
  else if 0xf1 ≤ first ∧ first ≤ 0xf3 then some (0x80, 0xbf, 2)
  else if first = 0xf4 then some (0x80, 0x8f, 2)
  else none

/-- What is known of a character whose first bytes have been read: its code point so far, the range of
the next byte, and how many bytes follow that one. -/
structure Pending where
  codePoint : Nat
  low : UInt8
  high : UInt8
  left : Nat
deriving Repr

/-- Starts a character: the characters it completes at once, and what it leaves open. -/
def start (b : UInt8) : List Char × Option Pending :=
  if b < 0x80 then ([Char.ofNat b.toNat], none)
  else match lead? b with
    | some (low, high, left) => ([], some ⟨b.toNat % (1 <<< (5 - left)), low, high, left⟩)
    | none => ([replacement], none)

/-- Reads one byte: the characters it completes, and what it leaves open. -/
def step (state : Option Pending) (b : UInt8) : List Char × Option Pending :=
  match state with
  | none => start b
  | some p =>
    if p.low ≤ b ∧ b ≤ p.high then
      let codePoint := p.codePoint * 64 + b.toNat % 64
      match p.left with
      | 0 => ([Char.ofNat codePoint], none)
      | left + 1 => ([], some ⟨codePoint, 0x80, 0xbf, left⟩)
    else
      let (chars, next) := start b
      (replacement :: chars, next)

def decodeFrom (state : Option Pending) : Bytes → List Char
  | [] => if state.isSome then [replacement] else []
  | b :: rest =>
    let (chars, next) := step state b
    chars ++ decodeFrom next rest

/-- The text of a byte string, with replacement characters where it is not UTF-8. -/
def decodeLossy (bytes : Bytes) : String :=
  String.ofList (decodeFrom none bytes)

end TimelockAuction.Utf8
