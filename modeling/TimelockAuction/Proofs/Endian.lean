import Mathlib
import TimelockAuction.Bytes.Endian

/-!
# Numbers read back from their bytes

* `LittleEndian.toNat_encode`: reading a fixed-width number undoes writing it, up to the width.
* `LittleEndian.encodeWord_toWord`, `LittleEndian.toWord_encodeWord`: eight bytes and a counter are the
  same.
* `BigEndian.toNat_encode`: reading an unbounded number undoes writing it.
* `BigEndian.length_encode_le`: a number of so many binary digits fits in as many bits, and one byte.
* `BigEndian.length_encode_toNat_le`: no byte string but the empty one is shorter than the encoding of
  the number it stands for.
* `BigEndian.encode_toNat_eq_iff`: the encodings of numbers are the byte strings without leading zeros.
-/

namespace TimelockAuction

namespace LittleEndian

theorem toNat_encode (width n : Nat) : toNat (encode width n) = n % 256 ^ width := by
  induction width generalizing n with
  | zero => simp [encode, toNat, Nat.mod_one]
  | succ width ih =>
    have hbyte : n % 256 % 2 ^ 8 = n % 256 := Nat.mod_eq_of_lt (Nat.mod_lt _ (by decide))
    rw [encode, toNat, ih, UInt8.toNat_ofNat', hbyte, Nat.pow_succ', Nat.mod_mul]

theorem toNat_lt (bytes : Bytes) : toNat bytes < 256 ^ bytes.length := by
  induction bytes with
  | nil => simp [toNat]
  | cons b rest ih =>
    have hb := b.toNat_lt
    rw [toNat, List.length_cons, Nat.pow_succ]
    omega

theorem toNat_append (x y : Bytes) : toNat (x ++ y) = toNat x + 256 ^ x.length * toNat y := by
  induction x with
  | nil => simp [toNat]
  | cons b x ih =>
    rw [List.cons_append, toNat, toNat, ih, List.length_cons, Nat.pow_succ']
    ring

theorem toNat_lt_size (bytes : Vector UInt8 8) : toNat bytes.toList < UInt64.size := by
  have h := toNat_lt bytes.toList
  rw [Vector.length_toList] at h
  exact h

theorem encodeWord_toWord (bytes : Vector UInt8 8) : encodeWord (toWord bytes) = bytes.toList := by
  have h := encode_toNat bytes.toList
  rw [Vector.length_toList] at h
  rw [encodeWord, toWord, UInt64.toNat_ofNat_of_lt' (toNat_lt_size bytes), h]

theorem toWord_encodeWord (x : UInt64) :
    toWord (Bytes.toVector (encodeWord x) (length_encodeWord x)) = x := by
  have h : x.toNat % 256 ^ 8 = x.toNat := Nat.mod_eq_of_lt x.toNat_lt
  rw [toWord, Bytes.toList_toVector, encodeWord, toNat_encode, h, UInt64.ofNat_toNat]

end LittleEndian

namespace BigEndian

theorem toNat_encode (n : Nat) : toNat (encode n) = n := by
  rw [toNat, encode, List.reverse_reverse, LittleEndian.toNat_encode]
  apply Nat.mod_eq_of_lt
  calc n < 2 ^ (n.log2 + 1) := Nat.lt_log2_self
    _ ≤ 2 ^ (8 * (n.log2 / 8 + 1)) := Nat.pow_le_pow_right (by decide) (by omega)
    _ = 256 ^ (n.log2 / 8 + 1) := by rw [Nat.pow_mul]

theorem length_encode_le {n bits : Nat} (h : n < 2 ^ bits) :
    (encode n).length ≤ bits / 8 + 1 := by
  have hlog : n.log2 ≤ bits := by
    by_cases hn : n = 0
    · simp [hn]
    · exact Nat.le_of_lt ((Nat.log2_lt hn).mpr h)
  rw [encode, List.length_reverse, LittleEndian.length_encode]
  exact Nat.succ_le_succ (Nat.div_le_div_right hlog)

theorem toNat_lt (bytes : Bytes) : toNat bytes < 2 ^ (8 * bytes.length) := by
  have h := LittleEndian.toNat_lt bytes.reverse
  rw [List.length_reverse] at h
  rwa [toNat, Nat.pow_mul]

theorem length_encode_toNat_le (bytes : Bytes) :
    (encode (toNat bytes)).length ≤ max bytes.length 1 := by
  rw [encode, List.length_reverse, LittleEndian.length_encode]
  by_cases hzero : toNat bytes = 0
  · rw [hzero, Nat.log2_zero]
    omega
  · have hlog : (toNat bytes).log2 < 8 * bytes.length := (Nat.log2_lt hzero).mpr (toNat_lt bytes)
    omega

theorem toNat_cons (b : UInt8) (rest : Bytes) :
    toNat (b :: rest) = b.toNat * 256 ^ rest.length + toNat rest := by
  rw [toNat, List.reverse_cons, LittleEndian.toNat_append, List.length_reverse, toNat]
  simp only [LittleEndian.toNat]
  ring

/-- A number written without leading zeros. Zero is written as one zero byte. -/
def IsMinimal (bytes : Bytes) : Prop :=
  bytes ≠ [] ∧ (bytes.head? = some 0 → bytes = [0])

instance (bytes : Bytes) : Decidable (IsMinimal bytes) :=
  inferInstanceAs (Decidable (_ ∧ _))

/-- Every byte string of the right length is the encoding of the number it stands for. -/
theorem encode_toNat_of_length {bytes : Bytes} (h : (toNat bytes).log2 / 8 + 1 = bytes.length) :
    encode (toNat bytes) = bytes := by
  have hreverse := LittleEndian.encode_toNat bytes.reverse
  rw [List.length_reverse] at hreverse
  rw [encode, h, toNat, hreverse, List.reverse_reverse]

theorem isMinimal_of_encode_toNat {bytes : Bytes} (h : encode (toNat bytes) = bytes) :
    IsMinimal bytes := by
  cases bytes with
  | nil => cases congrArg List.length h
  | cons b rest =>
    refine ⟨List.cons_ne_nil b rest, ?_⟩
    intro hzero
    obtain rfl : b = 0 := Option.some.inj hzero
    have hvalue : toNat (0 :: rest) = toNat rest := by
      rw [toNat_cons, UInt8.toNat_zero, Nat.zero_mul, Nat.zero_add]
    have hlength := length_encode_toNat_le rest
    rw [← hvalue, h, List.length_cons] at hlength
    have hrest : rest = [] := List.length_eq_zero_iff.mp (by omega)
    rw [hrest]

/-- A leading byte that is not zero makes the number as long as its spelling. -/
theorem encode_toNat_of_isMinimal {bytes : Bytes} (h : IsMinimal bytes) :
    encode (toNat bytes) = bytes := by
  obtain ⟨hne, hzero⟩ := h
  cases bytes with
  | nil => exact absurd rfl hne
  | cons b rest =>
    by_cases hb : b = 0
    · rw [hzero (congrArg some hb)]
      decide
    · apply encode_toNat_of_length
      have hlead : 0 < b.toNat := Nat.pos_of_ne_zero fun h0 => hb (UInt8.toNat_inj.mp h0)
      have hlow : 2 ^ (8 * rest.length) ≤ toNat (b :: rest) := by
        rw [toNat_cons, Nat.pow_mul]
        exact (Nat.le_mul_of_pos_left _ hlead).trans (Nat.le_add_right _ _)
      have hpos : toNat (b :: rest) ≠ 0 := ((Nat.two_pow_pos _).trans_le hlow).ne'
      have hge : 8 * rest.length ≤ (toNat (b :: rest)).log2 := (Nat.le_log2 hpos).mpr hlow
      have hlt : (toNat (b :: rest)).log2 < 8 * (b :: rest).length :=
        (Nat.log2_lt hpos).mpr (toNat_lt _)
      rw [List.length_cons] at hlt ⊢
      omega

theorem encode_toNat_eq_iff {bytes : Bytes} : encode (toNat bytes) = bytes ↔ IsMinimal bytes :=
  ⟨isMinimal_of_encode_toNat, encode_toNat_of_isMinimal⟩

end BigEndian

end TimelockAuction
