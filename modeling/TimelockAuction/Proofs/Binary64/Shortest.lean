import Mathlib
import TimelockAuction.Binary64.Shortest
import TimelockAuction.Proofs.Binary64.Rounding

/-!
# The shortest decimal rounds to its number

A decimal that is found at some place lies in the rounding interval, so it is what the number is read
from. One is always found: at the place `10 ^ -1074` the magnitude itself is a decimal.

* `atPlace?_eq_some`: what is found at a place.
* `exists_atPlace?_of_dvd`, `searchPlace_eq`: where something is found.
* `shortest_roundsTo`: the search as a whole.
* `Decimal.RoundsTo.le_upperEnd`, `Decimal.RoundsTo.coefficient_pos`: how great it is.
-/

namespace TimelockAuction.Binary64

variable {tie : Tie} {code : Nat} {exponent : Int} {d : Decimal}

/-- The decimal lies in the rounding interval of the code. -/
def Decimal.RoundsTo (d : Decimal) (code : Nat) : Prop :=
  inInterval code (d.coefficient * (10 ^ d.exponent.toNat * (2 * unitsOfOne)))
    (10 ^ (-d.exponent).toNat) = true

/-! ## The rounding interval -/

theorem le_upperEnd_of_inInterval {num den : Nat} (h : inInterval code num den = true) :
    num ≤ upperEnd code * den := by
  unfold inInterval at h
  split at h
  · exact (decide_eq_true_iff.mp h).2
  · exact (decide_eq_true_iff.mp h).2.le

theorem lowerEnd_le_of_inInterval {num den : Nat} (h : inInterval code num den = true) :
    lowerEnd code * den ≤ num := by
  unfold inInterval at h
  split at h
  · exact (decide_eq_true_iff.mp h).1
  · exact (decide_eq_true_iff.mp h).1.le

theorem Decimal.RoundsTo.le_upperEnd (h : d.RoundsTo code) :
    d.coefficient * (10 ^ d.exponent.toNat * (2 * unitsOfOne)) ≤
      upperEnd code * 10 ^ (-d.exponent).toNat :=
  le_upperEnd_of_inInterval h

theorem lowerEnd_pos (h : 0 < code) : 0 < lowerEnd code := by
  have hunits := units_strictMono h
  unfold lowerEnd
  omega

theorem Decimal.RoundsTo.coefficient_pos (h : d.RoundsTo code) (hcode : 0 < code) :
    0 < d.coefficient := by
  have hlow := lowerEnd_le_of_inInterval h
  have hpos : 0 < lowerEnd code * 10 ^ (-d.exponent).toNat :=
    Nat.mul_pos (lowerEnd_pos hcode) (by positivity)
  exact Nat.pos_of_mul_pos_right (hpos.trans_le hlow)

/-- A number lies in its own interval. -/
theorem inInterval_self (h : 0 < code) {den : Nat} (hden : 0 < den) :
    inInterval code (2 * units code * den) den = true := by
  have hbelow : lowerEnd code < 2 * units code := by
    have hunits : units (code - 1) < units code := units_strictMono (by omega)
    unfold lowerEnd
    omega
  have habove : 2 * units code < upperEnd code := by
    have hunits := units_lt_units_succ code
    unfold upperEnd
    omega
  have hlow := Nat.mul_lt_mul_of_pos_right hbelow hden
  have hhigh := Nat.mul_lt_mul_of_pos_right habove hden
  unfold inInterval
  split
  · exact decide_eq_true ⟨hlow.le, hhigh.le⟩
  · exact decide_eq_true ⟨hlow, hhigh⟩

/-! ## Places -/

/-- What is found at a place has its last digit there, and rounds to the code. -/
theorem atPlace?_eq_some (h : atPlace? tie code exponent = some d) :
    d.exponent = exponent ∧ d.RoundsTo code := by
  unfold atPlace? at h
  simp only [Nat.pow_eq] at h
  split_ifs at h with hbelow habove
  · cases h
    exact ⟨rfl, (Bool.and_eq_true_iff.mp hbelow).1⟩
  · cases h
    exact ⟨rfl, habove⟩

/-- Something is found at a place where the magnitude itself is a decimal. -/
theorem exists_atPlace?_of_dvd (tie : Tie) (hcode : 0 < code) (hexponent : exponent ≤ 0)
    (hdvd : 2 * unitsOfOne ∣ 2 * units code * 10 ^ (-exponent).toNat) :
    ∃ d, atPlace? tie code exponent = some d := by
  have hden : 0 < 10 ^ (-exponent).toNat := by positivity
  have hself := inInterval_self hcode hden
  rw [← Nat.div_mul_cancel hdvd] at hself
  unfold atPlace?
  simp only [Nat.pow_eq, Int.toNat_of_nonpos hexponent, pow_zero, Nat.one_mul, hself, Bool.true_and]
  split_ifs with hbelow habove
  · exact ⟨_, rfl⟩
  · exact ⟨_, rfl⟩
  · simp [habove] at hbelow

/-- The search ends at the latest where something is found. -/
theorem searchPlace_eq {place : Int} {fuel : Nat} (hfound : ∃ d, atPlace? tie code place = some d)
    (hplace : place ≤ exponent) (hfuel : exponent - place < fuel) :
    ∃ last, place ≤ last ∧ last ≤ exponent ∧
      atPlace? tie code last = some (searchPlace tie code fuel exponent) := by
  induction fuel generalizing exponent with
  | zero => omega
  | succ fuel ih =>
    unfold searchPlace
    cases hhere : atPlace? tie code exponent with
    | some d => exact ⟨exponent, hplace, Int.le_refl _, hhere⟩
    | none =>
      have hne : place ≠ exponent := by
        rintro rfl
        obtain ⟨d, hd⟩ := hfound
        cases hhere.symm.trans hd
      obtain ⟨last, hlow, hhigh, hlast⟩ := ih (show place ≤ exponent - 1 by omega) (by omega)
      exact ⟨last, hlow, by omega, hlast⟩

theorem one_shiftLeft_dvd_ten_pow {k places : Nat} (h : k ≤ places) : 1 <<< k ∣ 10 ^ places := by
  rw [Nat.one_shiftLeft]
  exact (pow_dvd_pow 2 h).trans (pow_dvd_pow_of_dvd (by decide) places)

/-- The shortest decimal of a positive code rounds to it. -/
theorem shortest_roundsTo (tie : Tie) (hcode : 0 < code) :
    (shortest tie code).RoundsTo code ∧ -1074 ≤ (shortest tie code).exponent := by
  have hfound : ∃ d, atPlace? tie code (-1074) = some d := by
    have hunits : unitsOfOne ∣ 10 ^ (-(-1074 : Int)).toNat := one_shiftLeft_dvd_ten_pow (by decide)
    apply exists_atPlace?_of_dvd tie hcode (by decide)
    rw [Nat.mul_assoc]
    exact Nat.mul_dvd_mul_left 2 (hunits.mul_left _)
  have hsearch : ∃ last : Int, -1074 ≤ last ∧ last ≤ 309 ∧
      atPlace? tie code last = some (shortest tie code) :=
    searchPlace_eq hfound (by decide) (by decide)
  obtain ⟨last, hlow, -, hlast⟩ := hsearch
  obtain ⟨hexponent, hrounds⟩ := atPlace?_eq_some hlast
  exact ⟨hrounds, hexponent ▸ hlow⟩

end TimelockAuction.Binary64
