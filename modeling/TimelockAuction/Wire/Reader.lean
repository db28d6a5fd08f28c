import TimelockAuction.Error

/-!
# Reading and framing bytes

A `Reader` is a place in a byte string. A `Decoder` reads a value from that place onwards: on success
it leaves the reader behind the value, and on failure at the field that could not be read.

A field of variable length is framed by its length as eight bytes, least significant first.
-/

namespace TimelockAuction

/-- The bytes still to be read and the number of those that have been. -/
structure Reader where
  rest : Bytes
  consumed : Nat
deriving DecidableEq

def Reader.ofBytes (bytes : Bytes) : Reader := ⟨bytes, 0⟩

/-- The greatest length that can be asked for. -/
def maxLength : Nat := UInt64.size - 1

/-- Reads a value and moves the reader, or fails and leaves it where the failing field starts. -/
abbrev Decoder (α : Type) := ExceptT Error (StateM Reader) α

namespace Decoder

/-- The next `n` bytes. If fewer are left, none is consumed, and the error counts from the start of
the input. -/
def take (n : Nat) : Decoder (Vector UInt8 n) :=
  ExceptT.mk fun r =>
    if h : n ≤ r.rest.length then
      (.ok (Bytes.toVector (r.rest.take n) (by simp [h])), ⟨r.rest.drop n, r.consumed + n⟩)
    else
      (.error (.tooShort (min (r.consumed + n) maxLength) (r.consumed + r.rest.length)), r)

def byte : Decoder UInt8 := do
  let bytes ← take 1
  return bytes[0]

/-- A 64-bit number, least significant byte first. -/
def word : Decoder UInt64 := do
  let bytes ← take 8
  return LittleEndian.toWord bytes

/-- A byte string behind its length. -/
def framed : Decoder Bytes := do
  let length ← word
  let bytes ← take length.toNat
  return bytes.toList

def finish : Decoder Unit :=
  ExceptT.mk fun r =>
    if r.rest.isEmpty then (.ok (), r) else (.error (.trailingBytes r.rest.length), r)

/-- What a decoder makes of a reader: its result, and the reader it leaves behind. -/
def runOn {α : Type} (decoder : Decoder α) (r : Reader) : Except Error α × Reader :=
  ExceptT.run decoder r

def decodeAll {α : Type} (decoder : Decoder α) (bytes : Bytes) : Except Error α :=
  (runOn (do let value ← decoder; finish; return value) (Reader.ofBytes bytes)).1

end Decoder

/-- A byte string behind its length. -/
def frame (bytes : Bytes) : Bytes :=
  LittleEndian.encodeWord (UInt64.ofNat bytes.length) ++ bytes

end TimelockAuction
