import Mathlib
import TimelockAuction.Proofs.Wire.Grammar

/-!
# Reading from a place in an input

A reader of an input stands at a place in it, and what it makes of the next field shows in the input alone:
the bytes from that place on, or how many bytes there would have to be. No count can wrap. Only what is
reported as needed is capped, and the comparison before it is not.

* `Decoder.runOn_take_of_le`, `Decoder.runOn_word_of_le`, `Decoder.runOn_framed_of_le`: fields that are there.
* `Decoder.runOn_take_of_lt`, `Decoder.runOn_framed_of_no_length`, `Decoder.runOn_framed_of_lt`: fields that
  the input ends before.
-/

namespace TimelockAuction

namespace Bytes

/-- The next `n` bytes from a place on, or as many of them as there are. -/
def slice (bytes : Bytes) (place n : Nat) : Bytes := (bytes.drop place).take n

/-- The number that the eight bytes from a place on stand for, least significant byte first. -/
def wordAt (bytes : Bytes) (place : Nat) : Nat := LittleEndian.toNat (bytes.slice place 8)

theorem length_slice {bytes : Bytes} {place n : Nat} (h : place + n ≤ bytes.length) :
    (bytes.slice place n).length = n := by
  rw [slice, List.length_take, List.length_drop]
  omega

theorem wordAt_lt (bytes : Bytes) (place : Nat) : bytes.wordAt place < UInt64.size := by
  have hlength : (bytes.slice place 8).length ≤ 8 := List.length_take_le 8 _
  calc LittleEndian.toNat (bytes.slice place 8) < 256 ^ (bytes.slice place 8).length :=
        LittleEndian.toNat_lt _
    _ ≤ 256 ^ 8 := Nat.pow_le_pow_right (by decide) hlength

end Bytes

/-- The reader that stands at a place in an input. -/
def Reader.atPlace (bytes : Bytes) (place : Nat) : Reader := ⟨bytes.drop place, place⟩

theorem Reader.ofBytes_eq (bytes : Bytes) : ofBytes bytes = atPlace bytes 0 := rfl

namespace Decoder

variable {bytes : Bytes} {place n : Nat}

/-! ## Bytes -/

theorem runOn_take_of_le (h : place + n ≤ bytes.length) :
    runOn (take n) (.atPlace bytes place) =
      (.ok (Bytes.toVector (bytes.slice place n) (Bytes.length_slice h)),
        .atPlace bytes (place + n)) := by
  have hn : n ≤ (Reader.atPlace bytes place).rest.length := by
    rw [Reader.atPlace, List.length_drop]
    omega
  rw [runOn_take, dif_pos hn]
  simp only [Reader.atPlace, Bytes.slice, List.drop_drop]

theorem runOn_take_of_lt (hplace : place ≤ bytes.length) (h : bytes.length < place + n) :
    (runOn (take n) (.atPlace bytes place)).1 =
      .error (.tooShort (min (place + n) maxLength) bytes.length) := by
  have hn : ¬ n ≤ (Reader.atPlace bytes place).rest.length := by
    rw [Reader.atPlace, List.length_drop]
    omega
  have hlength : place + (bytes.length - place) = bytes.length := by omega
  rw [runOn_take, dif_neg hn]
  simp only [Reader.atPlace, List.length_drop, hlength]

/-! ## Numbers -/

theorem runOn_word_of_le (h : place + 8 ≤ bytes.length) :
    runOn word (.atPlace bytes place) =
      (.ok (UInt64.ofNat (bytes.wordAt place)), .atPlace bytes (place + 8)) := by
  rw [word, runOn_bind_of_ok (runOn_take_of_le h), runOn_pure, LittleEndian.toWord,
    Bytes.toList_toVector, Bytes.wordAt]

theorem runOn_word_of_lt (hplace : place ≤ bytes.length) (h : bytes.length < place + 8) :
    (runOn word (.atPlace bytes place)).1 =
      .error (.tooShort (min (place + 8) maxLength) bytes.length) :=
  runOn_bind_of_error (runOn_take_of_lt hplace h)

/-! ## Frames -/

theorem runOn_framed_of_le (h : place + 8 + bytes.wordAt place ≤ bytes.length) :
    runOn framed (.atPlace bytes place) =
      (.ok (bytes.slice (place + 8) (bytes.wordAt place)),
        .atPlace bytes (place + 8 + bytes.wordAt place)) := by
  have hlength : (UInt64.ofNat (bytes.wordAt place)).toNat = bytes.wordAt place :=
    UInt64.toNat_ofNat_of_lt' (bytes.wordAt_lt place)
  rw [framed, runOn_bind_of_ok (runOn_word_of_le (by omega)), hlength,
    runOn_bind_of_ok (runOn_take_of_le h), runOn_pure, Bytes.toList_toVector]

/-- The input ends within the length of the frame. -/
theorem runOn_framed_of_no_length (hplace : place ≤ bytes.length) (h : bytes.length < place + 8) :
    (runOn framed (.atPlace bytes place)).1 =
      .error (.tooShort (min (place + 8) maxLength) bytes.length) :=
  runOn_bind_of_error (runOn_word_of_lt hplace h)

/-- The input ends behind the length of the frame, within what is framed. -/
theorem runOn_framed_of_lt (hplace : place + 8 ≤ bytes.length)
    (h : bytes.length < place + 8 + bytes.wordAt place) :
    (runOn framed (.atPlace bytes place)).1 =
      .error (.tooShort (min (place + 8 + bytes.wordAt place) maxLength) bytes.length) := by
  have hlength : (UInt64.ofNat (bytes.wordAt place)).toNat = bytes.wordAt place :=
    UInt64.toNat_ofNat_of_lt' (bytes.wordAt_lt place)
  rw [framed, runOn_bind_of_ok (runOn_word_of_le hplace), hlength]
  exact runOn_bind_of_error (runOn_take_of_lt hplace h)

end Decoder

end TimelockAuction
