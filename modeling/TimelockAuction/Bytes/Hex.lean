import TimelockAuction.Bytes.Basic

/-!
# Hexadecimal text

Two digits a byte, the high half first. Writing uses the small letters; reading takes digits of
either case.

* `decodeChars?_encodeChars`: reading undoes writing.
-/

namespace TimelockAuction.Hex

def encodeByte (b : UInt8) : List Char :=
  [Nat.digitChar (b.toNat / 16), Nat.digitChar (b.toNat % 16)]

def encodeChars (bytes : Bytes) : List Char :=
  bytes.flatMap encodeByte

def encode (bytes : Bytes) : String :=
  String.ofList (encodeChars bytes)

/-- The value of a hexadecimal digit of either case. -/
def digitValue? (c : Char) : Option Nat :=
  if '0' ≤ c ∧ c ≤ '9' then some (c.toNat - 48)
  else if 'a' ≤ c ∧ c ≤ 'f' then some (c.toNat - 87)
  else if 'A' ≤ c ∧ c ≤ 'F' then some (c.toNat - 55)
  else none

def decodeChars? : List Char → Option Bytes
  | [] => some []
  | [_] => none
  | high :: low :: rest => do
    let h ← digitValue? high
    let l ← digitValue? low
    let bytes ← decodeChars? rest
    return UInt8.ofNat (16 * h + l) :: bytes

def decode? (text : String) : Option Bytes :=
  decodeChars? text.toList

theorem digitValue?_digitChar {n : Nat} (h : n < 16) : digitValue? (Nat.digitChar n) = some n := by
  revert n
  decide

theorem decodeChars?_encodeChars (bytes : Bytes) :
    decodeChars? (encodeChars bytes) = some bytes := by
  induction bytes with
  | nil => rfl
  | cons b bytes ih =>
    have hb := b.toNat_lt
    have hbyte : UInt8.ofNat (16 * (b.toNat / 16) + b.toNat % 16) = b := by
      rw [Nat.div_add_mod, UInt8.ofNat_toNat]
    rw [encodeChars] at ih
    simp [encodeChars, encodeByte, decodeChars?,
      digitValue?_digitChar (show b.toNat / 16 < 16 by omega),
      digitValue?_digitChar (show b.toNat % 16 < 16 by omega), hbyte, ih, -UInt8.ofNat_add]

theorem decode?_encode (bytes : Bytes) : decode? (encode bytes) = some bytes := by
  simp [decode?, encode, decodeChars?_encodeChars]

end TimelockAuction.Hex
