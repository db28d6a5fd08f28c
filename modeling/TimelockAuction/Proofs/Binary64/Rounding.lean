import Mathlib
import TimelockAuction.Binary64.Arithmetic

/-!
# Rounding keeps the order

A greater magnitude has a code that is at least as great. Within one exponent that is the order of the
quotients; between two exponents stands a power of two, which both sides round towards at most.

* `divNearestEven_mono`, `divNearestEven_spec`, `divNearestEven_even`: quotients.
* `nearestCode_mono`: codes.
* `units_strictMono`, `units_mul_add`: back from codes to magnitudes.
* `mul_of_isFinite`, `div_of_isFinite`: operations on finite numbers.
* `code_ofNat_mono`, `code_mul_mono`: naturals and products.
-/

namespace TimelockAuction.Binary64

/-! ## Quotients -/

section Quotients

variable {a b k den : Nat}

theorem le_divNearestEven (a den : Nat) : a / den ≤ divNearestEven a den := by
  unfold divNearestEven
  dsimp only
  split_ifs <;> omega

theorem divNearestEven_le_succ (a den : Nat) : divNearestEven a den ≤ a / den + 1 := by
  unfold divNearestEven
  dsimp only
  split_ifs <;> omega

/-- What is at least a whole number does not round below it. -/
theorem le_divNearestEven_of_mul_le (hden : 0 < den) (h : k * den ≤ a) :
    k ≤ divNearestEven a den :=
  ((Nat.le_div_iff_mul_le hden).mpr h).trans (le_divNearestEven a den)

/-- What is below a whole number does not round above it. -/
theorem divNearestEven_le_of_lt_mul (hden : 0 < den) (h : a < k * den) : divNearestEven a den ≤ k :=
  (divNearestEven_le_succ a den).trans ((Nat.div_lt_iff_lt_mul hden).mpr h)

/-- Between the same two whole numbers the one with the greater remainder rounds up first. -/
theorem divNearestEven_mono (h : a ≤ b) : divNearestEven a den ≤ divNearestEven b den := by
  rcases Nat.lt_or_eq_of_le (Nat.div_le_div_right (c := den) h) with hlt | heq
  · exact (divNearestEven_le_succ a den).trans (Nat.succ_le_of_lt hlt |>.trans (le_divNearestEven b den))
  · have hrem : a % den ≤ b % den := by
      have ha := Nat.div_add_mod a den
      have hb := Nat.div_add_mod b den
      rw [heq] at ha
      omega
    unfold divNearestEven
    dsimp only
    rw [heq]
    split_ifs <;> omega

/-- The quotient is rounded by at most a half. -/
theorem divNearestEven_spec (hden : 0 < den) :
    2 * (divNearestEven a den * den) ≤ 2 * a + den ∧ 2 * a ≤ 2 * (divNearestEven a den * den) + den := by
  have hdiv := Nat.div_add_mod' a den
  have hmod := Nat.mod_lt a hden
  unfold divNearestEven
  dsimp only
  split_ifs
  · omega
  · have hsucc := Nat.add_one_mul (a / den) den
    omega

/-- A quotient half way between two whole numbers is rounded to the even one. -/
theorem divNearestEven_even (hden : 0 < den)
    (h : 2 * (divNearestEven a den * den) = 2 * a + den ∨
      2 * a = 2 * (divNearestEven a den * den) + den) : divNearestEven a den % 2 = 0 := by
  have hdiv := Nat.div_add_mod' a den
  have hmod := Nat.mod_lt a hden
  unfold divNearestEven at h ⊢
  dsimp only at h ⊢
  split_ifs at h ⊢
  · omega
  · have hsucc := Nat.add_one_mul (a / den) den
    omega

end Quotients

/-! ## Codes -/

theorem fractionCount_eq : fractionCount = 2 ^ 52 := by decide

theorem fractionCount_pos : 0 < fractionCount := by decide

theorem nearestCode_le (num den : Nat) : nearestCode num den ≤ infinityCode :=
  min_le_left ..

/-- How many binary digits of a magnitude do not fit in a significand. -/
def surplus (num den : Nat) : Nat := (num / den).log2 - 52

theorem nearestCode_eq (num den : Nat) :
    nearestCode num den = min infinityCode (surplus num den * fractionCount +
      divNearestEven num (den * 2 ^ surplus num den)) := by
  rw [← Nat.shiftLeft_eq]
  rfl

section Codes

variable {a b den : Nat}

theorem surplus_mono (h : a ≤ b) : surplus a den ≤ surplus b den := by
  unfold surplus
  rw [Nat.log2_eq_log_two, Nat.log2_eq_log_two]
  exact Nat.sub_le_sub_right (Nat.log_mono_right (Nat.div_le_div_right h)) 52

/-- A significand is less than `2 ^ 53`, before it is rounded. -/
theorem lt_of_surplus (hden : 0 < den) (num : Nat) :
    num < 2 * fractionCount * (den * 2 ^ surplus num den) := by
  have hlog : num / den < 2 ^ ((num / den).log2 + 1) := Nat.lt_log2_self
  have hle : (num / den).log2 + 1 ≤ 53 + surplus num den := by
    unfold surplus
    omega
  have hpow := hlog.trans_le (Nat.pow_le_pow_right (by decide) hle)
  rw [Nat.div_lt_iff_lt_mul hden, Nat.pow_add] at hpow
  calc num < 2 ^ 53 * 2 ^ surplus num den * den := hpow
    _ = 2 * fractionCount * (den * 2 ^ surplus num den) := by
      have hcount : 2 ^ 53 = 2 * fractionCount := by decide
      rw [hcount, Nat.mul_assoc, Nat.mul_comm den]

/-- The significand of a magnitude that is cut is at least `2 ^ 52`. -/
theorem le_of_surplus_pos (hden : 0 < den) {num : Nat} (h : 0 < surplus num den) :
    fractionCount * (den * 2 ^ surplus num den) ≤ num := by
  have hlog : (num / den).log2 = 52 + surplus num den := by
    unfold surplus at h ⊢
    omega
  have hne : num / den ≠ 0 := by
    intro hzero
    rw [surplus, hzero] at h
    simp at h
  have hpow := Nat.log2_self_le hne
  rw [hlog, Nat.le_div_iff_mul_le hden, Nat.pow_add] at hpow
  calc fractionCount * (den * 2 ^ surplus num den) = 2 ^ 52 * 2 ^ surplus num den * den := by
        rw [fractionCount_eq, Nat.mul_assoc, Nat.mul_comm den]
    _ ≤ num := hpow

theorem nearestCode_mono (hden : 0 < den) (h : a ≤ b) : nearestCode a den ≤ nearestCode b den := by
  have hwidth : ∀ s, 0 < den * 2 ^ s := fun s => Nat.mul_pos hden (Nat.two_pow_pos s)
  rw [nearestCode_eq, nearestCode_eq]
  apply min_le_min_left
  have hsurplus : surplus a den ≤ surplus b den := surplus_mono h
  rcases Nat.lt_or_eq_of_le hsurplus with hlt | heq
  · -- The codes of the smaller exponent end where those of the next begin.
    have ha : divNearestEven a (den * 2 ^ surplus a den) ≤ 2 * fractionCount :=
      divNearestEven_le_of_lt_mul (hwidth _) (lt_of_surplus hden a)
    have hb : fractionCount ≤ divNearestEven b (den * 2 ^ surplus b den) :=
      le_divNearestEven_of_mul_le (hwidth _) (le_of_surplus_pos hden (by omega))
    have hcodes : (surplus a den + 1) * fractionCount ≤ surplus b den * fractionCount :=
      Nat.mul_le_mul_right _ hlt
    rw [Nat.succ_mul] at hcodes
    omega
  · rw [heq]
    exact Nat.add_le_add_left (divNearestEven_mono h) _

end Codes

/-! ## Units -/

/-- The next code has one more in the last place of the significand. -/
theorem units_succ (code : Nat) :
    units (code + 1) = units code + 2 ^ (code / fractionCount - 1) := by
  have hcount := fractionCount_pos
  by_cases hsmall : code + 1 < fractionCount
  · have hdiv : code / fractionCount = 0 := Nat.div_eq_of_lt (by omega)
    rw [units, units, if_pos hsmall, if_pos (by omega), hdiv]
    rfl
  by_cases hsub : code < fractionCount
  · have hcode : code + 1 = fractionCount := by omega
    rw [units, units, if_pos hsub, if_neg hsmall, hcode, Nat.mod_self, Nat.div_self hcount,
      Nat.div_eq_of_lt hsub]
    simp only [Nat.add_zero, Nat.sub_self, Nat.shiftLeft_zero, Nat.zero_sub, Nat.pow_zero]
    omega
  rw [units, units, if_neg hsub, if_neg hsmall, Nat.shiftLeft_eq, Nat.shiftLeft_eq]
  have hdiv := Nat.mod_add_div code fractionCount
  have hmod := Nat.mod_lt code hcount
  have hexponent := Nat.div_pos (Nat.not_lt.mp hsub) hcount
  by_cases hcarry : code % fractionCount + 1 < fractionCount
  · obtain ⟨hquotient, hremainder⟩ :
        (code + 1) / fractionCount = code / fractionCount ∧
          (code + 1) % fractionCount = code % fractionCount + 1 :=
      (Nat.div_mod_unique hcount).mpr ⟨by omega, hcarry⟩
    rw [hquotient, hremainder, ← Nat.add_assoc, Nat.succ_mul]
  · -- The significand carries, and the units double.
    obtain ⟨hquotient, hremainder⟩ :
        (code + 1) / fractionCount = code / fractionCount + 1 ∧ (code + 1) % fractionCount = 0 := by
      refine (Nat.div_mod_unique hcount).mpr ⟨?_, hcount⟩
      rw [Nat.mul_add, Nat.mul_one]
      omega
    obtain ⟨exponent, hexponent⟩ := Nat.exists_eq_add_of_le' hexponent
    have hfull : code % fractionCount + 1 = fractionCount := by omega
    rw [hquotient, hremainder, hexponent, Nat.add_sub_cancel, Nat.add_sub_cancel, Nat.pow_succ,
      Nat.add_zero, ← Nat.succ_mul, Nat.succ_eq_add_one, Nat.add_assoc, hfull]
    ring

theorem units_lt_units_succ (code : Nat) : units code < units (code + 1) := by
  rw [units_succ]
  exact Nat.lt_add_of_pos_right (Nat.two_pow_pos _)

theorem units_strictMono : StrictMono units := strictMono_nat_of_lt_succ units_lt_units_succ

/-- A significand and its exponent in one code. -/
theorem units_mul_add {exponent significand : Nat} (h : exponent = 0 ∨ fractionCount ≤ significand)
    (hle : significand ≤ 2 * fractionCount) :
    units (exponent * fractionCount + significand) = significand * 2 ^ exponent := by
  have hcount := fractionCount_pos
  by_cases hsub : significand < fractionCount
  · obtain rfl : exponent = 0 := h.resolve_right (Nat.not_le.mpr hsub)
    rw [Nat.zero_mul, Nat.zero_add, units, if_pos hsub, Nat.pow_zero, Nat.mul_one]
  have hcode : ¬ exponent * fractionCount + significand < fractionCount := by omega
  rw [units, if_neg hcode, Nat.shiftLeft_eq]
  rcases Nat.lt_or_eq_of_le hle with hlt | rfl
  · obtain ⟨hquotient, hremainder⟩ :
        (exponent * fractionCount + significand) / fractionCount = exponent + 1 ∧
          (exponent * fractionCount + significand) % fractionCount = significand - fractionCount := by
      refine (Nat.div_mod_unique hcount).mpr ⟨?_, by omega⟩
      rw [Nat.mul_add, Nat.mul_one, Nat.mul_comm]
      omega
    rw [hquotient, hremainder, Nat.add_sub_cancel, Nat.add_sub_cancel' (Nat.not_lt.mp hsub)]
  · -- The significand is one too long, and carries into the exponent.
    obtain ⟨hquotient, hremainder⟩ :
        (exponent * fractionCount + 2 * fractionCount) / fractionCount = exponent + 2 ∧
          (exponent * fractionCount + 2 * fractionCount) % fractionCount = 0 := by
      refine (Nat.div_mod_unique hcount).mpr ⟨?_, hcount⟩
      ring
    rw [hquotient, hremainder, Nat.add_zero, Nat.add_sub_cancel_right (n := exponent + 1) (m := 1),
      Nat.pow_succ]
    ring

/-! ## Operations -/

section Operations

variable {x y x' y' : Binary64}

theorem signWeight_eq : signWeight = 2 ^ 63 := by decide

theorem bits_ofCode {negative : Bool} {code : Nat} (h : code < signWeight) :
    (ofCode negative code).bits.toNat = (if negative then signWeight else 0) + code := by
  have hlt : (if negative then signWeight else 0) + code < 2 ^ 64 := by
    rw [signWeight_eq] at h ⊢
    split <;> omega
  exact UInt64.toNat_ofNat_of_lt' hlt

theorem code_ofCode {negative : Bool} {code : Nat} (h : code < signWeight) :
    (ofCode negative code).code = code := by
  rw [Binary64.code, bits_ofCode h]
  cases negative with
  | true => rw [if_pos rfl, Nat.add_mod_left, Nat.mod_eq_of_lt h]
  | false => rw [if_neg Bool.false_ne_true, Nat.zero_add, Nat.mod_eq_of_lt h]

theorem isNegative_ofCode {negative : Bool} {code : Nat} (h : code < signWeight) :
    (ofCode negative code).isNegative = negative := by
  rw [isNegative, bits_ofCode h]
  cases negative with
  | true => simp
  | false => simpa using h

/-- The sign and the code are all there is to a number. -/
theorem ofCode_isNegative_code (x : Binary64) : ofCode x.isNegative x.code = x := by
  have hlt := x.bits.toNat_lt
  have hsum : (if x.isNegative then signWeight else 0) + x.code = x.bits.toNat := by
    unfold isNegative code
    rw [signWeight_eq]
    split_ifs with hnegative
    · have hnegative := of_decide_eq_true hnegative
      omega
    · have hpositive := of_decide_eq_false (Bool.not_eq_true _ ▸ hnegative)
      omega
  rw [ofCode, hsum, UInt64.ofNat_toNat]

theorem nearestCode_lt_signWeight (num den : Nat) : nearestCode num den < signWeight :=
  (nearestCode_le num den).trans_lt (by decide)

theorem code_ofNat (n : Nat) : (ofNat n).code = nearestCode (n * unitsOfOne) 1 :=
  code_ofCode (nearestCode_lt_signWeight ..)

theorem code_ofNat_mono {m n : Nat} (h : m ≤ n) : (ofNat m).code ≤ (ofNat n).code := by
  rw [code_ofNat, code_ofNat]
  exact nearestCode_mono Nat.one_pos (Nat.mul_le_mul_right _ h)

theorem code_powerOfTen_mono {m n : Nat} (h : m ≤ n) :
    (powerOfTen m).code ≤ (powerOfTen n).code :=
  code_ofNat_mono (Nat.pow_le_pow_right (by decide) h)

theorem isFinite_of_code_le (h : x.code ≤ y.code) (hy : y.isFinite = true) : x.isFinite = true := by
  unfold isFinite at hy ⊢
  exact decide_eq_true (h.trans_lt (decide_eq_true_iff.mp hy))

theorem ofNat_isFinite {n : Nat} (h : n < UInt64.size) : (ofNat n).isFinite = true := by
  have hmax : (ofNat (UInt64.size - 1)).isFinite = true := by decide +kernel
  exact isFinite_of_code_le (code_ofNat_mono (Nat.le_sub_one_of_lt h)) hmax

theorem not_isNaN_of_isFinite (hx : x.isFinite = true) : x.isNaN = false := by
  have hlt := decide_eq_true_iff.mp hx
  exact decide_eq_false hlt.le.not_gt

theorem not_isInfinite_of_isFinite (hx : x.isFinite = true) : x.isInfinite = false := by
  have hlt := decide_eq_true_iff.mp hx
  exact decide_eq_false hlt.ne

theorem mul_of_isFinite (hx : x.isFinite = true) (hy : y.isFinite = true) :
    x.mul y = ofCode (x.isNegative ^^ y.isNegative)
      (nearestCode (units x.code * units y.code) unitsOfOne) := by
  simp [mul, not_isNaN_of_isFinite, not_isInfinite_of_isFinite, hx, hy]

theorem div_of_isFinite (hx : x.isFinite = true) (hy : y.isFinite = true)
    (hzero : y.isZero = false) :
    x.div y = ofCode (x.isNegative ^^ y.isNegative)
      (nearestCode (units x.code * unitsOfOne) (units y.code)) := by
  simp [div, not_isNaN_of_isFinite, not_isInfinite_of_isFinite, hx, hy, hzero]

theorem code_mul (hx : x.isFinite = true) (hy : y.isFinite = true) :
    (x.mul y).code = nearestCode (units x.code * units y.code) unitsOfOne := by
  rw [mul_of_isFinite hx hy]
  exact code_ofCode (nearestCode_lt_signWeight ..)

theorem unitsOfOne_pos : 0 < unitsOfOne := by decide +kernel

/-- A product of finite magnitudes grows with both. -/
theorem code_mul_mono (hx : x'.isFinite = true) (hy : y'.isFinite = true) (hxx : x.code ≤ x'.code)
    (hyy : y.code ≤ y'.code) : (x.mul y).code ≤ (x'.mul y').code := by
  rw [code_mul hx hy, code_mul (isFinite_of_code_le hxx hx) (isFinite_of_code_le hyy hy)]
  exact nearestCode_mono unitsOfOne_pos
    (Nat.mul_le_mul (units_strictMono.monotone hxx) (units_strictMono.monotone hyy))

end Operations

end TimelockAuction.Binary64
