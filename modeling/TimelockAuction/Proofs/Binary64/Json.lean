import Mathlib
import TimelockAuction.Binary64.Json
import TimelockAuction.Json.Reading
import TimelockAuction.Proofs.Binary64.Shortest
import TimelockAuction.Proofs.Json.Reading

/-!
# Every finite number is read without overflow

Numbers are read quickly rather than exactly: the significand is rounded, the power of ten is rounded,
and so is their product. The greatest numbers come close to where that overflows. The decimals of all
but the greatest lie below the midpoint under it, which is so far from infinity that no power of ten
carries them there; the greatest number itself is read as it is spelled.

* `Scaled.exists_magnitude?_of_le`: what does not overflow.
* `Scaled.ofWhole_of_lt`, `Scaled.exists_readFraction`: what is read of digits is at most what they spell.
* `isSpelled_scientific`, `exists_magnitude?_scientific`: decimals with an exponent.
* `isSpelled_pointed`, `length_pointed_whole_le`: decimals around a point.
* `Number.exists_ofBinary64?`: every finite number.
-/

namespace TimelockAuction

open Binary64

/-! ## Powers of ten -/

namespace Json.Scaled

theorem powerOfTen_isFinite {exponent : Nat} (h : exponent ≤ 308) :
    (powerOfTen exponent).isFinite = true := by
  have hmax : (powerOfTen 308).isFinite = true := by decide +kernel
  exact isFinite_of_code_le (code_powerOfTen_mono h) hmax

/-- Up to `10 ^ 288` no significand of 64 bits overflows. -/
theorem mul_powerOfTen_isFinite_of_le {n exponent : Nat} (hn : n < UInt64.size)
    (hexponent : exponent ≤ 288) : ((ofNat n).mul (powerOfTen exponent)).isFinite = true := by
  have hmax : ((ofNat (UInt64.size - 1)).mul (powerOfTen 288)).isFinite = true := by decide +kernel
  refine isFinite_of_code_le (code_mul_mono ?_ ?_ ?_ ?_) hmax
  · exact ofNat_isFinite (by decide)
  · exact powerOfTen_isFinite (by decide)
  · exact code_ofNat_mono (Nat.le_sub_one_of_lt hn)
  · exact code_powerOfTen_mono hexponent

/-- The greatest significand whose product with `10 ^ exponent` is no greater than the midpoint under
the greatest finite number. -/
def maxSignificand (exponent : Nat) : Nat :=
  upperEnd (infinityCode - 2) / (10 ^ exponent * (2 * unitsOfOne))

/-- From there on it takes a significand beyond that midpoint. -/
theorem mul_powerOfTen_isFinite_of_table : ∀ k < 20,
    (ofNat (maxSignificand (289 + k))).isFinite = true ∧
      ((ofNat (maxSignificand (289 + k))).mul (powerOfTen (289 + k))).isFinite = true := by
  decide +kernel

theorem mul_powerOfTen_isFinite {n exponent : Nat} (hn : n < UInt64.size) (hexponent : exponent ≤ 308)
    (hmax : n ≤ maxSignificand exponent) :
    ((ofNat n).mul (powerOfTen exponent)).isFinite = true := by
  by_cases hsmall : exponent ≤ 288
  · exact mul_powerOfTen_isFinite_of_le hn hsmall
  · obtain ⟨k, rfl⟩ := Nat.exists_eq_add_of_le (show 289 ≤ exponent by omega)
    obtain ⟨hfactor, hproduct⟩ := mul_powerOfTen_isFinite_of_table k (by omega)
    exact isFinite_of_code_le
      (code_mul_mono hfactor (powerOfTen_isFinite hexponent) (code_ofNat_mono hmax) le_rfl) hproduct

/-- The worth of a place, in half units. -/
theorem place_pos (places : Nat) : 0 < 10 ^ places * (2 * unitsOfOne) :=
  Nat.mul_pos (Nat.pow_pos (by decide)) (Nat.mul_pos (by decide) unitsOfOne_pos)

theorem place_mono {a b : Nat} (h : a ≤ b) :
    10 ^ a * (2 * unitsOfOne) ≤ 10 ^ b * (2 * unitsOfOne) :=
  Nat.mul_le_mul_right _ (Nat.pow_le_pow_right (by decide) h)

theorem upperEnd_lt_place : upperEnd (infinityCode - 1) < 10 ^ 309 * (2 * unitsOfOne) := by
  decide +kernel

theorem upperEnd_mono {a b : Nat} (h : a ≤ b) : upperEnd a ≤ upperEnd b :=
  Nat.add_le_add (units_strictMono.monotone h) (units_strictMono.monotone (Nat.succ_le_succ h))

/-- A scaled significand is read without overflow if it is no greater than the midpoint under the
greatest finite number. -/
theorem exists_magnitude?_of_le {s : Scaled} (hsignificand : s.significand < UInt64.size)
    (h : 0 ≤ s.exponent → s.significand * (10 ^ s.exponent.toNat * (2 * unitsOfOne)) ≤
      upperEnd (infinityCode - 2)) : ∃ x, s.magnitude? = some x := by
  unfold magnitude?
  dsimp only
  by_cases hnegative : s.exponent < 0
  · exact ⟨_, if_pos hnegative⟩
  have hbound := h (Int.not_lt.mp hnegative)
  rw [if_neg hnegative]
  by_cases hsmall : s.exponent ≤ 308
  · have hplaces : s.exponent.natAbs = s.exponent.toNat := by omega
    have hmax : s.significand ≤ maxSignificand s.exponent.toNat :=
      (Nat.le_div_iff_mul_le (place_pos _)).mpr hbound
    have hproduct := mul_powerOfTen_isFinite hsignificand (by omega) hmax
    have hinfinite : ((ofNat s.significand).mul (powerOfTen s.exponent.toNat)).isInfinite = false :=
      decide_eq_false (decide_eq_true_iff.mp hproduct).ne
    rw [if_pos hsmall, hplaces, hinfinite]
    exact ⟨_, rfl⟩
  · -- Only zero has so great an exponent.
    have hzero : s.significand = 0 := by
      by_contra hne
      have hplace := place_mono (show 309 ≤ s.exponent.toNat by omega)
      have hone := Nat.le_mul_of_pos_left (10 ^ s.exponent.toNat * (2 * unitsOfOne))
        (Nat.pos_of_ne_zero hne)
      have hend := upperEnd_mono (show infinityCode - 2 ≤ infinityCode - 1 by decide)
      exact absurd upperEnd_lt_place (Nat.not_lt.mpr (hplace.trans (hone.trans (hbound.trans hend))))
    rw [if_neg hsmall, hzero]
    exact ⟨_, rfl⟩

/-! ## Digits -/

theorem extend?_eq (significand : Nat) (digit : Char) :
    extend? significand digit =
      if 10 * significand + (digit.toNat - '0'.toNat) < UInt64.size then
        some (10 * significand + (digit.toNat - '0'.toNat))
      else none := by
  rw [extend?, Nat.mul_comm significand]
  rfl

theorem extend?_eq_some {significand next : Nat} {digit : Char}
    (h : extend? significand digit = some next) :
    next = 10 * significand + (digit.toNat - '0'.toNat) ∧ next < UInt64.size := by
  rw [extend?_eq] at h
  split at h
  · rename_i hlt
    cases h
    exact ⟨rfl, hlt⟩
  · cases h

theorem ofWhole_cons (significand : Nat) (digit : Char) (digits : List Char) :
    ofWhole significand (digit :: digits) =
      match extend? significand digit with
      | some next => ofWhole next digits
      | none => ⟨significand, digits.length + 1⟩ := by
  rfl

theorem readFraction_nil (s : Scaled) : s.readFraction [] = s := rfl

theorem readFraction_cons (s : Scaled) (digit : Char) (digits : List Char) :
    s.readFraction (digit :: digits) =
      match extend? s.significand digit with
      | some next => readFraction ⟨next, s.exponent - 1⟩ digits
      | none => s := by
  rfl

theorem le_ofDigitChars (digits : List Char) (significand : Nat) :
    significand * 10 ^ digits.length ≤ Nat.ofDigitChars 10 digits significand := by
  rw [Nat.ofDigitChars_eq_ofDigitChars_zero, Nat.mul_comm]
  exact Nat.le_add_right _ _

/-- Digits are read to their end if they spell a number of 64 bits. -/
theorem ofWhole_of_lt {digits : List Char} {significand : Nat}
    (h : Nat.ofDigitChars 10 digits significand < UInt64.size) :
    ofWhole significand digits = ⟨Nat.ofDigitChars 10 digits significand, 0⟩ := by
  induction digits generalizing significand with
  | nil =>
    rw [Nat.ofDigitChars_nil]
    rfl
  | cons digit digits ih =>
    rw [Nat.ofDigitChars_cons] at h ⊢
    have hnext : extend? significand digit =
        some (10 * significand + (digit.toNat - '0'.toNat)) := by
      have hle := le_ofDigitChars digits (10 * significand + (digit.toNat - '0'.toNat))
      have hpow : 0 < 10 ^ digits.length := Nat.pow_pos (by decide)
      have hlt := (Nat.le_mul_of_pos_right _ hpow).trans_lt (hle.trans_lt h)
      rw [extend?_eq, if_pos hlt]
    rw [ofWhole_cons, hnext]
    exact ih h

/-- Digits behind the point are read up to one that does not fit. What has been read then is at most
what all of them spell. -/
theorem exists_readFraction (digits : List Char) {s : Scaled} (h : s.significand < UInt64.size) :
    ∃ count ≤ digits.length, (s.readFraction digits).exponent = s.exponent - count ∧
      (s.readFraction digits).significand < UInt64.size ∧
      (s.readFraction digits).significand * 10 ^ (digits.length - count) ≤
        Nat.ofDigitChars 10 digits s.significand := by
  induction digits generalizing s with
  | nil =>
    rw [readFraction_nil]
    refine ⟨0, Nat.le_refl _, ?_, h, ?_⟩
    · rw [Int.natCast_zero, Int.sub_zero]
    · exact le_ofDigitChars [] s.significand
  | cons digit digits ih =>
    cases hextend : extend? s.significand digit with
    | some next =>
      obtain ⟨hnext, hlt⟩ := extend?_eq_some hextend
      obtain ⟨count, hcount, hexponent, hsignificand, hle⟩ :=
        ih (s := ⟨next, s.exponent - 1⟩) hlt
      have hread : s.readFraction (digit :: digits) =
          readFraction ⟨next, s.exponent - 1⟩ digits := by rw [readFraction_cons, hextend]
      rw [hread]
      refine ⟨count + 1, Nat.succ_le_succ hcount, ?_, hsignificand, ?_⟩
      · rw [hexponent, Int.natCast_add, Int.sub_sub, Int.add_comm 1]
        rfl
      · rw [List.length_cons, Nat.add_sub_add_right, Nat.ofDigitChars_cons, ← hnext]
        exact hle
    | none =>
      have hread : s.readFraction (digit :: digits) = s := by rw [readFraction_cons, hextend]
      rw [hread]
      refine ⟨0, Nat.zero_le _, ?_, h, ?_⟩
      · rw [Int.natCast_zero, Int.sub_zero]
      · exact le_ofDigitChars (digit :: digits) s.significand

/-- A number of few digits is below a power of ten. -/
theorem ofDigitChars_lt {digits : List Char} (h : ∀ c ∈ digits, c.isDigit = true) (start : Nat) :
    Nat.ofDigitChars 10 digits start < 10 ^ digits.length * (start + 1) := by
  induction digits generalizing start with
  | nil => simp
  | cons digit digits ih =>
    have hdigit := (Char.isDigit_iff_toNat.mp (h digit List.mem_cons_self)).2
    have hlast : digit.toNat - '0'.toNat ≤ 9 := Nat.sub_le_sub_right hdigit _
    have hrest := ih (fun c hc => h c (List.mem_cons_of_mem _ hc))
      (10 * start + (digit.toNat - '0'.toNat))
    rw [Nat.ofDigitChars_cons]
    calc Nat.ofDigitChars 10 digits (10 * start + (digit.toNat - '0'.toNat))
        < 10 ^ digits.length * (10 * start + (digit.toNat - '0'.toNat) + 1) := hrest
      _ ≤ 10 ^ digits.length * (10 * (start + 1)) := Nat.mul_le_mul_left _ (by omega)
      _ = 10 ^ (digit :: digits).length * (start + 1) := by
        rw [List.length_cons, Nat.pow_succ, Nat.mul_assoc]

end Json.Scaled

/-! ## Numbers of few digits before the point -/

namespace Json.Number

variable {n : Number}

/-- What is read of digits of which few stand before the point. -/
theorem IsSpelled.exists_digits (h : n.IsSpelled) (hwhole : n.whole.length ≤ 16) :
    ∃ count ≤ n.fraction.length,
      ((Scaled.ofWhole 0 n.whole).readFraction n.fraction).exponent = -count ∧
      ((Scaled.ofWhole 0 n.whole).readFraction n.fraction).significand < UInt64.size ∧
      ((Scaled.ofWhole 0 n.whole).readFraction n.fraction).significand *
          10 ^ (n.fraction.length - count) ≤
        Nat.ofDigitChars 10 (n.whole ++ n.fraction) 0 := by
  have hfits : Nat.ofDigitChars 10 n.whole 0 < UInt64.size := by
    have hlt := Scaled.ofDigitChars_lt h.isDigit_whole 0
    have hpow : 10 ^ n.whole.length ≤ 10 ^ 16 := Nat.pow_le_pow_right (by decide) hwhole
    have hsize : 10 ^ 16 ≤ UInt64.size := by decide
    omega
  rw [Scaled.ofWhole_of_lt hfits]
  obtain ⟨count, hcount, hexponent, hsignificand, hle⟩ := Scaled.exists_readFraction n.fraction
    (s := ⟨Nat.ofDigitChars 10 n.whole 0, 0⟩) hfits
  refine ⟨count, hcount, ?_, hsignificand, ?_⟩
  · rw [hexponent, Int.zero_sub]
  · rw [Nat.ofDigitChars_append]
    exact hle

/-- Without an exponent they are read without overflow. -/
theorem IsSpelled.exists_magnitude? (h : n.IsSpelled) (hwhole : n.whole.length ≤ 16)
    (hexponent : n.exponent = none) : ∃ x, n.magnitude? = some x := by
  obtain ⟨count, -, hcount, hsignificand, -⟩ := h.exists_digits hwhole
  unfold magnitude?
  rw [hexponent]
  apply Scaled.exists_magnitude?_of_le hsignificand
  intro hnonneg
  have hplaces : ((Scaled.ofWhole 0 n.whole).readFraction n.fraction).exponent.toNat = 0 := by
    omega
  have hone : UInt64.size * (10 ^ 0 * (2 * unitsOfOne)) ≤ upperEnd (infinityCode - 2) := by
    decide +kernel
  rw [hplaces]
  exact (Nat.mul_le_mul_right _ hsignificand.le).trans hone

/-- With an exponent in range a number is its digits, shifted. -/
theorem magnitude?_of_exponent (shift : Int)
    (hexponent : n.exponent = some ⟨decide (shift < 0), Nat.toDigits 10 shift.natAbs⟩)
    (hrange : shift.natAbs ≤ maxExponent) :
    n.magnitude? =
      Scaled.magnitude? ⟨((Scaled.ofWhole 0 n.whole).readFraction n.fraction).significand,
        ((Scaled.ofWhole 0 n.whole).readFraction n.fraction).exponent + shift⟩ := by
  have hshift : (if decide (shift < 0) = true then -(shift.natAbs : Int) else shift.natAbs) =
      shift := by
    by_cases hnegative : shift < 0
    · rw [if_pos (decide_eq_true hnegative)]
      omega
    · rw [if_neg (by simpa using hnegative)]
      omega
  unfold magnitude?
  rw [hexponent]
  dsimp only
  rw [Nat.ofDigitChars_ten_toDigits, if_neg (Nat.not_lt.mpr hrange), hshift]

end Json.Number

open Json Json.Number Json.Scaled

namespace Binary64.Decimal

variable {d : Decimal} {halfUnits : Nat}

/-! ## Decimals with an exponent -/

/-- The decimal is no greater than a number of half units. -/
def IsAtMost (d : Decimal) (halfUnits : Nat) : Prop :=
  d.coefficient * (10 ^ d.exponent.toNat * (2 * unitsOfOne)) ≤
    halfUnits * 10 ^ (-d.exponent).toNat

/-- How many digits the coefficient has. -/
def width (d : Decimal) : Nat := (Nat.toDigits 10 d.coefficient).length

theorem width_pos (d : Decimal) : 0 < d.width := Nat.length_toDigits_pos

theorem isSpelled_scientific (d : Decimal) (negative : Bool) : (d.scientific negative).IsSpelled where
  whole_ne_nil := by
    rw [scientific]
    dsimp only
    rw [Ne, List.take_eq_nil_iff]
    simp [Nat.toDigits_ne_nil]
  isDigit_whole := fun _ hc => isDigit_toDigits _ (List.mem_of_mem_take hc)
  no_leading_zero := by
    intro _
    rw [scientific]
    dsimp only
    rw [List.length_take]
    exact min_eq_left d.width_pos
  isDigit_fraction := fun _ hc => isDigit_toDigits _ (List.mem_of_mem_drop hc)
  exponent_ne_nil := by
    rintro _ ⟨⟩
    exact Nat.toDigits_ne_nil
  isDigit_exponent := by
    rintro _ ⟨⟩
    exact isDigit_toDigits

/-- The first digit of a positive decimal stands at a place that is no greater than the decimal. -/
theorem IsAtMost.exponent_add_width_le (h : d.IsAtMost halfUnits) (hpos : 0 < d.coefficient)
    {places : Nat} (hlt : halfUnits < 10 ^ places * (2 * unitsOfOne)) :
    d.exponent + d.width ≤ places := by
  have hwidth := d.width_pos
  have hdigits : 10 ^ (d.width - 1) ≤ d.coefficient := by
    by_cases hone : d.width = 1
    · rw [hone]
      exact hpos
    · by_contra hlt
      have hshort := (Nat.length_toDigits_le_iff (by decide) (by omega)).mpr (Nat.not_le.mp hlt)
      have hle : d.width ≤ d.width - 1 := hshort
      omega
  have hunits : 0 < 2 * unitsOfOne := Nat.mul_pos (by decide) unitsOfOne_pos
  have hscale : 0 < 10 ^ (-d.exponent).toNat := Nat.pow_pos (by decide)
  have hdecimal : d.coefficient * 10 ^ d.exponent.toNat < 10 ^ places * 10 ^ (-d.exponent).toNat := by
    apply Nat.lt_of_mul_lt_mul_right (a := 2 * unitsOfOne)
    calc d.coefficient * 10 ^ d.exponent.toNat * (2 * unitsOfOne)
        = d.coefficient * (10 ^ d.exponent.toNat * (2 * unitsOfOne)) := Nat.mul_assoc ..
      _ ≤ halfUnits * 10 ^ (-d.exponent).toNat := h
      _ < 10 ^ places * (2 * unitsOfOne) * 10 ^ (-d.exponent).toNat :=
        Nat.mul_lt_mul_of_pos_right hlt hscale
      _ = 10 ^ places * 10 ^ (-d.exponent).toNat * (2 * unitsOfOne) := Nat.mul_right_comm ..
  have hpow := (Nat.mul_le_mul_right (10 ^ d.exponent.toNat) hdigits).trans_lt hdecimal
  rw [← Nat.pow_add, ← Nat.pow_add, Nat.pow_lt_pow_iff_right (by decide)] at hpow
  omega

/-- The decimal without some of its last digits is no greater either. -/
theorem IsAtMost.mul_place_le (h : d.IsAtMost halfUnits) {significand dropped exponent : Nat}
    (hle : significand * 10 ^ dropped ≤ d.coefficient) (hexponent : (exponent : Int) = d.exponent + dropped) :
    significand * (10 ^ exponent * (2 * unitsOfOne)) ≤ halfUnits := by
  have hscale : 0 < 10 ^ (-d.exponent).toNat := Nat.pow_pos (by decide)
  have hplaces : exponent + (-d.exponent).toNat = dropped + d.exponent.toNat := by omega
  apply Nat.le_of_mul_le_mul_right _ hscale
  calc significand * (10 ^ exponent * (2 * unitsOfOne)) * 10 ^ (-d.exponent).toNat
      = significand * 10 ^ (exponent + (-d.exponent).toNat) * (2 * unitsOfOne) := by
        rw [Nat.pow_add]
        ring
    _ = significand * 10 ^ dropped * (10 ^ d.exponent.toNat * (2 * unitsOfOne)) := by
        rw [hplaces, Nat.pow_add]
        ring
    _ ≤ d.coefficient * (10 ^ d.exponent.toNat * (2 * unitsOfOne)) := Nat.mul_le_mul_right _ hle
    _ ≤ halfUnits * 10 ^ (-d.exponent).toNat := h

/-- A decimal that lies below the midpoint under the greatest finite number is read without overflow
from its digits and an exponent. -/
theorem exists_magnitude?_scientific (hpos : 0 < d.coefficient) (hlow : -1074 ≤ d.exponent)
    (h : d.IsAtMost (upperEnd (infinityCode - 2))) (negative : Bool) :
    ∃ x, (d.scientific negative).magnitude? = some x := by
  have hend := upperEnd_mono (show infinityCode - 2 ≤ infinityCode - 1 by decide)
  have hhigh := h.exponent_add_width_le hpos (hend.trans_lt upperEnd_lt_place)
  have hwidth := d.width_pos
  have hdigits : (d.scientific negative).whole ++ (d.scientific negative).fraction =
      Nat.toDigits 10 d.coefficient := List.take_append_drop 1 _
  have hwhole : (d.scientific negative).whole.length ≤ 16 :=
    (List.length_take_le 1 _).trans (by decide)
  have hfraction : (d.scientific negative).fraction.length = d.width - 1 := List.length_drop
  obtain ⟨count, hcount, hexponent, hsignificand, hle⟩ :=
    (d.isSpelled_scientific negative).exists_digits hwhole
  rw [hdigits, Nat.ofDigitChars_ten_toDigits, hfraction] at hle
  rw [hfraction] at hcount
  have hrange : (d.exponent + d.width - 1).natAbs ≤ maxExponent := by
    have hmax : 1074 ≤ maxExponent := by decide
    omega
  rw [magnitude?_of_exponent (d.exponent + d.width - 1) rfl hrange, hexponent]
  refine exists_magnitude?_of_le ?_ fun hnonneg => ?_
  · exact hsignificand
  · dsimp only at hnonneg ⊢
    exact h.mul_place_le hle (by omega)

/-! ## Decimals around a point -/

/-- The digits with the zeros that reach to the point, and one before it. -/
def padded (d : Decimal) : List Char :=
  List.replicate ((-d.exponent).toNat + 1 - d.width) '0' ++ Nat.toDigits 10 d.coefficient ++
    List.replicate d.exponent.toNat '0'

theorem positional_eq (d : Decimal) :
    d.positional = (d.padded.take (d.padded.length - (-d.exponent).toNat),
      d.padded.drop (d.padded.length - (-d.exponent).toNat)) :=
  List.splitAt_eq

theorem length_padded (d : Decimal) :
    d.padded.length = (-d.exponent).toNat + 1 - d.width + d.width + d.exponent.toNat := by
  rw [padded, List.length_append, List.length_append, List.length_replicate, List.length_replicate]
  rfl

theorem isDigit_padded (d : Decimal) : ∀ c ∈ d.padded, c.isDigit = true := by
  have hzero : ∀ count, ∀ c ∈ List.replicate count '0', c.isDigit = true := by
    intro count c hc
    rw [List.eq_of_mem_replicate hc]
    rfl
  intro c hc
  rcases List.mem_append.mp hc with hc | hc
  · rcases List.mem_append.mp hc with hc | hc
    · exact hzero _ c hc
    · exact isDigit_toDigits c hc
  · exact hzero _ c hc

theorem pointed_whole (d : Decimal) (negative : Bool) :
    (d.pointed negative).whole = d.padded.take (d.padded.length - (-d.exponent).toNat) := by
  rw [pointed, positional_eq]

theorem length_pointed_whole (d : Decimal) (negative : Bool) :
    (d.pointed negative).whole.length = d.padded.length - (-d.exponent).toNat := by
  rw [pointed_whole, List.length_take]
  exact min_eq_left (Nat.sub_le _ _)

theorem isSpelled_pointed (hpos : 0 < d.coefficient) (negative : Bool) :
    (d.pointed negative).IsSpelled where
  whole_ne_nil := by
    have hlength := d.length_pointed_whole negative
    have hpadded := d.length_padded
    intro hnil
    rw [hnil, List.length_nil] at hlength
    omega
  isDigit_whole := by
    intro c hc
    rw [pointed_whole] at hc
    exact isDigit_padded d c (List.mem_of_mem_take hc)
  no_leading_zero := by
    intro hhead
    have hlength := d.length_pointed_whole negative
    have hpadded := d.length_padded
    have hwidth := d.width_pos
    by_cases hpad : d.width ≤ (-d.exponent).toNat
    · omega
    · -- Without zeros in front the first digit is that of the coefficient.
      have hfront : (-d.exponent).toNat + 1 - d.width = 0 := by omega
      rw [pointed_whole, List.head?_take, if_neg (by omega), padded, hfront, List.replicate_zero,
        List.nil_append, List.head?_append_of_ne_nil _ Nat.toDigits_ne_nil] at hhead
      exact absurd hhead (head?_toDigits hpos.ne')
  isDigit_fraction := by
    rw [pointed, positional_eq]
    dsimp only
    split
    · exact List.forall_mem_singleton.mpr rfl
    · exact fun c hc => isDigit_padded d c (List.mem_of_mem_drop hc)
  exponent_ne_nil := nofun
  isDigit_exponent := nofun

/-- Below `10 ^ 16` at most 16 digits stand before the point. -/
theorem length_pointed_whole_le (h : d.exponent + d.width - 1 < 16) (negative : Bool) :
    (d.pointed negative).whole.length ≤ 16 := by
  have hlength := d.length_pointed_whole negative
  have hpadded := d.length_padded
  have hwidth := d.width_pos
  omega

end Binary64.Decimal

/-! ## Binary64 numbers -/

namespace Json.Number

open Binary64.Decimal

/-- Below the greatest finite number the shortest decimal of a number is below the midpoint under it. -/
theorem shortest_isAtMost {code : Nat} (hcode : 0 < code) (h : code ≤ infinityCode - 2) :
    (shortest .even code).IsAtMost (upperEnd (infinityCode - 2)) :=
  (shortest_roundsTo .even hcode).1.le_upperEnd.trans (Nat.mul_le_mul_right _ (upperEnd_mono h))

/-- The greatest finite number is read without overflow from its seventeen digits. -/
theorem isSome_magnitude?_greatest (negative : Bool) :
    ((shortest .even (infinityCode - 1)).scientific negative).magnitude?.isSome = true := by
  cases negative <;> decide +kernel

theorem exists_magnitude?_scientific_shortest {code : Nat} (hcode : 0 < code) (h : code < infinityCode)
    (negative : Bool) : ∃ x, ((shortest .even code).scientific negative).magnitude? = some x := by
  obtain ⟨hrounds, hlow⟩ := shortest_roundsTo .even hcode
  rcases Nat.lt_or_eq_of_le (Nat.le_sub_one_of_lt h) with hbelow | rfl
  · have hmost := shortest_isAtMost hcode (Nat.le_sub_one_of_lt hbelow)
    exact exists_magnitude?_scientific (hrounds.coefficient_pos hcode) hlow hmost negative
  · exact Option.isSome_iff_exists.mp (isSome_magnitude?_greatest negative)

theorem isSpelled_zero (negative : Bool) : IsSpelled ⟨negative, ['0'], ['0'], none⟩ where
  whole_ne_nil := nofun
  isDigit_whole := List.forall_mem_singleton.mpr rfl
  no_leading_zero := fun _ => rfl
  isDigit_fraction := List.forall_mem_singleton.mpr rfl
  exponent_ne_nil := nofun
  isDigit_exponent := nofun

/-- Every finite number is spelled, and read from its spelling without overflow. -/
theorem exists_ofBinary64? {x : Binary64} (h : x.isFinite = true) :
    ∃ n, ofBinary64? x = some n ∧ n.IsSpelled ∧ ∃ y, n.binary64? = some y := by
  have hfinite : x.code < infinityCode := decide_eq_true_iff.mp h
  suffices hsuffices : ∃ n, ofBinary64? x = some n ∧ n.IsSpelled ∧ ∃ y, n.magnitude? = some y by
    obtain ⟨n, hn, hspelled, y, hy⟩ := hsuffices
    exact ⟨n, hn, hspelled, _, by rw [binary64?, hy, Option.map_some]⟩
  unfold ofBinary64?
  rw [h, if_neg (by decide)]
  by_cases hzero : x.isZero = true
  · rw [if_pos hzero]
    have hspelled := isSpelled_zero x.isNegative
    exact ⟨_, rfl, hspelled, hspelled.exists_magnitude? (show 1 ≤ 16 by decide) rfl⟩
  rw [if_neg hzero]
  have hcode : 0 < x.code := Nat.pos_of_ne_zero fun hcode => hzero (decide_eq_true hcode)
  have hpos := (shortest_roundsTo .even hcode).1.coefficient_pos hcode
  dsimp only
  by_cases hplain : -5 ≤ (shortest .even x.code).exponent + (shortest .even x.code).width - 1 ∧
      (shortest .even x.code).exponent + (shortest .even x.code).width - 1 < 16
  · have hspelled := isSpelled_pointed hpos x.isNegative
    have hlength := length_pointed_whole_le hplain.2 x.isNegative
    exact ⟨_, if_pos hplain, hspelled, hspelled.exists_magnitude? hlength rfl⟩
  · have hread := exists_magnitude?_scientific_shortest hcode hfinite x.isNegative
    exact ⟨_, if_neg hplain, isSpelled_scientific _ _, hread⟩

/-- Infinities and NaN have no spelling. -/
theorem ofBinary64?_eq_none {x : Binary64} (h : x.isFinite = false) : ofBinary64? x = none := by
  rw [ofBinary64?, h, if_pos (by decide)]

end Json.Number

end TimelockAuction
