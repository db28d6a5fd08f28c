import Mathlib
import TimelockAuction.Proofs.Binary64.Nearest

/-!
# Rounding keeps ratios

Two numbers above zero are within a factor of each other if neither is more than that many times the
other. Such factors multiply along a chain of numbers, in products and in quotients, so that the errors of
several operations are put together without looking at any of them again.

Between `2 ^ -1022` and `2 ^ 1022` a number and what it is rounded to are within `1 + 2 ^ -53`. Naturals of
at most 53 binary digits are not rounded at all.

* `WithinFactor.trans`, `WithinFactor.mul`, `WithinFactor.div`: factors multiply.
* `magnitude_succ_le`: how far two neighbouring numbers are apart.
* `IsNearest.withinFactor`, `IsRounded.withinFactor`: the error of one rounding.
* `value_ofNat`: naturals that are numbers of the format.
-/

namespace TimelockAuction

/-! ## Factors -/

/-- Two numbers above zero, neither of them more than `factor` times the other. -/
structure WithinFactor (factor q r : ℚ) : Prop where
  left_pos : 0 < q
  right_pos : 0 < r
  left_le : q ≤ factor * r
  right_le : r ≤ factor * q

namespace WithinFactor

variable {factor other q r s q' r' : ℚ}

theorem factor_pos (h : WithinFactor factor q r) : 0 < factor :=
  pos_of_mul_pos_left (h.left_pos.trans_le h.left_le) h.right_pos.le

theorem refl (h : 0 < q) : WithinFactor 1 q q :=
  ⟨h, h, (one_mul q).ge, (one_mul q).ge⟩

theorem mono (h : WithinFactor factor q r) (hle : factor ≤ other) : WithinFactor other q r where
  left_pos := h.left_pos
  right_pos := h.right_pos
  left_le := h.left_le.trans (mul_le_mul_of_nonneg_right hle h.right_pos.le)
  right_le := h.right_le.trans (mul_le_mul_of_nonneg_right hle h.left_pos.le)

theorem trans (h : WithinFactor factor q r) (hother : WithinFactor other r s) :
    WithinFactor (factor * other) q s where
  left_pos := h.left_pos
  right_pos := hother.right_pos
  left_le := by
    rw [mul_assoc]
    exact h.left_le.trans (mul_le_mul_of_nonneg_left hother.left_le h.factor_pos.le)
  right_le := by
    rw [mul_comm factor, mul_assoc]
    exact hother.right_le.trans (mul_le_mul_of_nonneg_left h.right_le hother.factor_pos.le)

theorem mul (h : WithinFactor factor q r) (hother : WithinFactor other q' r') :
    WithinFactor (factor * other) (q * q') (r * r') where
  left_pos := mul_pos h.left_pos hother.left_pos
  right_pos := mul_pos h.right_pos hother.right_pos
  left_le := by
    rw [mul_mul_mul_comm]
    exact mul_le_mul h.left_le hother.left_le hother.left_pos.le (h.left_pos.le.trans h.left_le)
  right_le := by
    rw [mul_mul_mul_comm]
    exact mul_le_mul h.right_le hother.right_le hother.right_pos.le (h.right_pos.le.trans h.right_le)

theorem inv (h : WithinFactor factor q r) : WithinFactor factor q⁻¹ r⁻¹ where
  left_pos := inv_pos.mpr h.left_pos
  right_pos := inv_pos.mpr h.right_pos
  left_le := by
    rw [← div_eq_mul_inv, le_div_iff₀ h.right_pos, inv_mul_le_iff₀ h.left_pos, mul_comm]
    exact h.right_le
  right_le := by
    rw [← div_eq_mul_inv, le_div_iff₀ h.left_pos, inv_mul_le_iff₀ h.right_pos, mul_comm]
    exact h.left_le

theorem div (h : WithinFactor factor q r) (hother : WithinFactor other q' r') :
    WithinFactor (factor * other) (q / q') (r / r') := by
  rw [div_eq_mul_inv, div_eq_mul_inv]
  exact h.mul hother.inv

end WithinFactor

namespace Binary64

variable {q : ℚ} {x : Binary64} {code : Nat}

/-! ## The error of one rounding -/

/-- A number is its own nearest. -/
theorem isNearest_magnitude (h : code ≤ infinityCode) : IsNearest (magnitude code) code where
  le_infinityCode := h
  nearest other _ := by
    rw [sub_self, abs_zero]
    exact abs_nonneg _
  even_of_tie other _ hne htie := by
    rw [sub_self, abs_zero, abs_eq_zero, sub_eq_zero] at htie
    exact absurd (magnitude_strictMono.injective htie) hne

/-- With a full significand two neighbours differ by at most one part in `2 ^ 52`. -/
theorem magnitude_succ_le (h : fractionCount ≤ code) :
    magnitude (code + 1) ≤ magnitude code + magnitude code / 2 ^ 52 := by
  have hgap : fractionCount * 2 ^ (code / fractionCount - 1) ≤ units code := by
    rw [units, if_neg (Nat.not_lt.mpr h), Nat.shiftLeft_eq]
    exact Nat.mul_le_mul_right _ (Nat.le_add_right _ _)
  have hcast : (2 : ℚ) ^ 52 * 2 ^ (code / fractionCount - 1) ≤ units code := by
    rw [← fractionCount_cast]
    exact_mod_cast hgap
  rw [← le_div_iff₀' (by positivity)] at hcast
  rw [magnitude, magnitude, units_succ, Nat.cast_add, Nat.cast_pow, Nat.cast_ofNat,
    div_right_comm, ← add_div]
  exact div_le_div_of_nonneg_right (by gcongr) unitsOfOne_cast_pos.le

/-- How far a number can be from what it is rounded to, as a factor. -/
def roundingFactor : ℚ := 1 + 1 / 2 ^ 53

/-- The number is neither so small that its significand is cut short nor so great that it overflows. -/
def IsNormal (q : ℚ) : Prop := WithinFactor (2 ^ 1022) 1 q

theorem IsNormal.of_withinFactor {factor : ℚ} {k : Nat} (h : WithinFactor factor 1 q)
    (hfactor : factor ≤ 2 ^ k) (hk : k ≤ 1022) : IsNormal q :=
  h.mono (hfactor.trans (pow_le_pow_right₀ one_le_two hk))

theorem IsNormal.magnitude_le (h : IsNormal q) : magnitude fractionCount ≤ q := by
  have hcode : magnitude fractionCount = fractionCount / 2 ^ 1074 := by
    have hunits : units fractionCount = fractionCount := by decide
    rw [magnitude, hunits, unitsOfOne_cast]
  have hone := h.left_le
  rw [hcode, fractionCount_cast, div_le_iff₀ (by positivity)]
  calc (2 : ℚ) ^ 52 = 2 ^ 52 * 1 := (mul_one _).symm
    _ ≤ 2 ^ 52 * (2 ^ 1022 * q) := mul_le_mul_of_nonneg_left hone (by positivity)
    _ = q * 2 ^ 1074 := by
      rw [← mul_assoc, ← pow_add, mul_comm]

theorem IsNormal.not_overflow (h : IsNormal q) : ¬ 2 ^ 1024 - 2 ^ 970 ≤ q := by
  have hle := h.right_le
  have htop : (2 : ℚ) ^ 1024 = 4 * 2 ^ 1022 := by
    rw [show 1024 = 1022 + 2 from rfl, pow_add, mul_comm]
    norm_num only
  have hhalf : (2 : ℚ) ^ 970 ≤ 2 ^ 1022 := pow_le_pow_right₀ one_le_two (by decide)
  have hpos : (0 : ℚ) < 2 ^ 1022 := by positivity
  rw [htop]
  -- As variables, so that linear arithmetic does not evaluate these powers.
  generalize (2 : ℚ) ^ 1022 = bound at hle hhalf hpos ⊢
  generalize (2 : ℚ) ^ 970 = half at hhalf ⊢
  linarith

theorem IsNearest.lt_infinityCode (h : IsNearest q code) (hq : IsNormal q) : code < infinityCode := by
  apply Nat.lt_of_le_of_ne h.le_infinityCode
  rintro rfl
  exact hq.not_overflow (isNearest_infinityCode_iff.mp h)

/-- The error is at most half a gap, and the gap is measured by the smaller of the two. -/
theorem IsNearest.withinFactor (h : IsNearest q code) (hq : IsNormal q) :
    WithinFactor roundingFactor q (magnitude code) := by
  have hcode : fractionCount ≤ code := (isNearest_magnitude (by decide)).mono h hq.magnitude_le
  have hpos : 0 < magnitude code := by
    rw [← magnitude_zero]
    exact magnitude_strictMono (fractionCount_pos.trans_le hcode)
  have hqpos : 0 < q := hq.right_pos
  unfold roundingFactor
  rcases le_or_gt (magnitude code) q with hle | hlt
  · have hmid := (smaller_nearer_iff (magnitude_lt_succ code)).mp
      (h.nearest (code + 1) (h.lt_infinityCode hq))
    have hgap := magnitude_succ_le hcode
    exact ⟨hqpos, hpos, by linarith, by linarith⟩
  · -- What is rounded up lies above the midpoint to the next smaller code, which is still a normal one.
    obtain ⟨below, rfl⟩ : ∃ below, code = below + 1 :=
      Nat.exists_eq_add_one.mpr (fractionCount_pos.trans_le hcode)
    have hbelow : fractionCount ≤ below := by
      apply Nat.le_of_lt_succ
      exact magnitude_strictMono.lt_iff_lt.mp (hq.magnitude_le.trans_lt hlt)
    have hstep := magnitude_lt_succ below
    have hmid := (greater_nearer_iff hstep).mp
      (h.nearest below ((Nat.le_succ below).trans h.le_infinityCode))
    have hgap := magnitude_succ_le hbelow
    exact ⟨hqpos, hpos, by linarith, by linarith⟩

theorem IsRounded.isFinite (h : IsRounded q x) (hq : IsNormal q) : x.isFinite = true :=
  decide_eq_true (h.isNearest.lt_infinityCode hq)

theorem IsRounded.withinFactor (h : IsRounded q x) (hq : IsNormal q) :
    WithinFactor roundingFactor q x.value := by
  rw [value_of_not_isNegative h.isNegative_eq]
  exact h.isNearest.withinFactor hq

/-! ## Exact naturals -/

/-- A natural with at most 53 binary digits is a significand, once it is shifted to full width. -/
theorem exists_magnitude_eq {n : Nat} (hpos : 0 < n) (h : n < 2 ^ 53) :
    ∃ code ≤ infinityCode, magnitude code = n := by
  have hlog : n.log2 < 53 := (Nat.log2_lt hpos.ne').mpr h
  have hsplit : 52 = n.log2 + (52 - n.log2) := by omega
  have hlow : fractionCount ≤ n * 2 ^ (52 - n.log2) := by
    calc fractionCount = 2 ^ n.log2 * 2 ^ (52 - n.log2) := by
          rw [fractionCount_eq, ← pow_add, ← hsplit]
      _ ≤ n * 2 ^ (52 - n.log2) := Nat.mul_le_mul_right _ (Nat.log2_self_le hpos.ne')
  have hhigh : n * 2 ^ (52 - n.log2) ≤ 2 * fractionCount := by
    calc n * 2 ^ (52 - n.log2) ≤ 2 ^ (n.log2 + 1) * 2 ^ (52 - n.log2) :=
          Nat.mul_le_mul_right _ Nat.lt_log2_self.le
      _ = 2 * fractionCount := by rw [fractionCount_eq, pow_succ', mul_assoc, ← pow_add, ← hsplit]
  refine ⟨(1022 + n.log2) * fractionCount + n * 2 ^ (52 - n.log2), ?_, ?_⟩
  · have hexponent : (1022 + n.log2) * fractionCount ≤ 1074 * fractionCount :=
      Nat.mul_le_mul_right _ (by omega)
    unfold infinityCode
    omega
  · rw [magnitude_mul_add (.inr hlow) hhigh, Nat.cast_mul, Nat.cast_pow, Nat.cast_ofNat, mul_assoc,
      ← pow_add, mul_div_assoc, show 52 - n.log2 + (1022 + n.log2) = 1074 by omega,
      div_self (by positivity), mul_one]

theorem value_ofNat {n : Nat} (hpos : 0 < n) (h : n < 2 ^ 53) : (ofNat n).value = n := by
  obtain ⟨code, hle, hcode⟩ := exists_magnitude_eq hpos h
  have hrounded := isRounded_ofNat n
  have hnearest := isNearest_magnitude hle
  rw [hcode] at hnearest
  rw [value_of_not_isNegative hrounded.isNegative_eq, hrounded.isNearest.unique hnearest, hcode]

end Binary64

end TimelockAuction
