import TimelockAuction.Bytes.Basic

/-!
# Numbers as bytes

Fixed-width counters are written least significant byte first; numbers of unbounded size most
significant byte first, in as few bytes as possible.

* `LittleEndian.encode_toNat`: every byte string is the encoding of the number it stands for.
-/

namespace TimelockAuction

namespace LittleEndian

/-- The lowest `width` bytes of `n`, least significant first. -/
def encode : (width : Nat) → (n : Nat) → Bytes
  | 0, _ => []
  | width + 1, n => UInt8.ofNat (n % 256) :: encode width (n / 256)

/-- The number a byte string stands for, least significant byte first. -/
def toNat : Bytes → Nat
  | [] => 0
  | b :: rest => b.toNat + 256 * toNat rest

@[simp] theorem length_encode (width n : Nat) : (encode width n).length = width := by
  induction width generalizing n with
  | zero => rfl
  | succ width ih => simp [encode, ih]

theorem encode_toNat (bytes : Bytes) : encode bytes.length (toNat bytes) = bytes := by
  induction bytes with
  | nil => rfl
  | cons b rest ih =>
    have hb := b.toNat_lt
    have hlow : (b.toNat + 256 * toNat rest) % 256 = b.toNat := by omega
    have hhigh : (b.toNat + 256 * toNat rest) / 256 = toNat rest := by omega
    simp [toNat, encode, hlow, hhigh, ih]

/-- A 64-bit counter as eight bytes. -/
def encodeWord (x : UInt64) : Bytes :=
  encode 8 x.toNat

/-- The 64-bit counter that eight bytes stand for. -/
def toWord (bytes : Vector UInt8 8) : UInt64 :=
  UInt64.ofNat (toNat bytes.toList)

@[simp] theorem length_encodeWord (x : UInt64) : (encodeWord x).length = 8 :=
  length_encode ..

end LittleEndian

namespace BigEndian

/-- The number a byte string stands for, most significant byte first; the empty string is zero. -/
def toNat (bytes : Bytes) : Nat :=
  LittleEndian.toNat bytes.reverse

/-- The lowest `width` bytes of `n`, most significant first. -/
def encodeFixed (width n : Nat) : Vector UInt8 width :=
  Bytes.toVector (LittleEndian.encode width n).reverse (by simp)

/-- The 32-bit words of a byte string, most significant byte first. Bytes behind the last whole word
are left out. -/
def words : Bytes → List UInt32
  | a :: b :: c :: d :: rest =>
    (a.toUInt32 <<< 24 ||| b.toUInt32 <<< 16 ||| c.toUInt32 <<< 8 ||| d.toUInt32) :: words rest
  | _ => []

/-- The four bytes of a word, most significant first. -/
def encodeWord32 (w : UInt32) : Bytes :=
  [(w >>> 24).toUInt8, (w >>> 16).toUInt8, (w >>> 8).toUInt8, w.toUInt8]

/-- The shortest byte string that stands for `n`, most significant byte first. Zero has one byte. -/
def encode (n : Nat) : Bytes :=
  (LittleEndian.encode (n.log2 / 8 + 1) n).reverse

end BigEndian

end TimelockAuction
