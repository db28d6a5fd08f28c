import Mathlib
import TimelockAuction.Proofs.Binary64.Rounding

/-!
# Every operation rounds correctly

The exact value of a finite number is rational. An exact result that is no number of the format becomes
the nearest one, and of two that are equally near the one with an even code. Infinity takes part in this
with the power of two behind the greatest finite number, so that exactly the results from half way there
on overflow.

* `IsNearest.mono`, `IsNearest.unique`: what is nearest is determined, and grows with what is rounded.
* `isNearest_infinityCode_iff`: what overflows.
* `isNearest_nearestCode`: codes are chosen so.
* `isRounded_ofNat`, `isRounded_mul`, `isRounded_div`: numbers of the operations.
-/

namespace TimelockAuction.Binary64

/-! ## Exact values -/

/-- The exact magnitude of a finite code. Infinity has the power of two behind the greatest of them. -/
def magnitude (code : Nat) : ℚ := units code / unitsOfOne

/-- The exact value of a finite number. -/
def value (x : Binary64) : ℚ :=
  if x.isNegative then -magnitude x.code else magnitude x.code

/-- The code that a magnitude is correctly rounded to: no other is nearer, and if another is as near,
this one is even. -/
structure IsNearest (q : ℚ) (code : Nat) : Prop where
  le_infinityCode : code ≤ infinityCode
  nearest : ∀ other ≤ infinityCode, |magnitude code - q| ≤ |magnitude other - q|
  even_of_tie : ∀ other ≤ infinityCode, other ≠ code →
    |magnitude other - q| = |magnitude code - q| → code % 2 = 0

/-- The number that an exact result, not below zero, is correctly rounded to. -/
structure IsRounded (q : ℚ) (x : Binary64) : Prop where
  isNegative_eq : x.isNegative = false
  isNearest : IsNearest q x.code

theorem unitsOfOne_cast_pos : (0 : ℚ) < unitsOfOne := Nat.cast_pos.mpr unitsOfOne_pos

theorem magnitude_strictMono : StrictMono magnitude := by
  intro code other h
  exact div_lt_div_of_pos_right (Nat.cast_lt.mpr (units_strictMono h)) unitsOfOne_cast_pos

theorem magnitude_lt_succ (code : Nat) : magnitude code < magnitude (code + 1) :=
  magnitude_strictMono (Nat.lt_succ_self code)

theorem magnitude_nonneg (code : Nat) : 0 ≤ magnitude code :=
  div_nonneg (Nat.cast_nonneg _) (Nat.cast_nonneg _)

theorem magnitude_zero : magnitude 0 = 0 := by
  have hunits : units 0 = 0 := by decide
  rw [magnitude, hunits, Nat.cast_zero, zero_div]

/-! ## Nearest magnitudes -/

section Distances

variable {a b q : ℚ}

/-- Of two magnitudes the greater one is the nearer one from the midpoint on. -/
theorem greater_nearer_iff (h : a < b) : |b - q| ≤ |a - q| ↔ a + b ≤ 2 * q := by
  rw [← sq_le_sq]
  constructor
  · intro hsq
    by_contra hlt
    nlinarith
  · intro hmid
    nlinarith

theorem smaller_nearer_iff (h : a < b) : |a - q| ≤ |b - q| ↔ 2 * q ≤ a + b := by
  rw [← sq_le_sq]
  constructor
  · intro hsq
    by_contra hlt
    nlinarith
  · intro hmid
    nlinarith

theorem tie_iff (h : a < b) : |a - q| = |b - q| ↔ 2 * q = a + b := by
  rw [le_antisymm_iff, le_antisymm_iff, smaller_nearer_iff h, greater_nearer_iff h]

end Distances

namespace IsNearest

variable {q r : ℚ} {code other : Nat}

/-- If the smaller of two results had the greater code, both results would be half way between the codes.
Then both codes are even, so there is another one between them, which is nearer. -/
theorem mono (h : IsNearest q code) (hother : IsNearest r other) (hqr : q ≤ r) : code ≤ other := by
  by_contra hlt
  have hlt : other < code := Nat.not_le.mp hlt
  have hmagnitude := magnitude_strictMono hlt
  have hlow : magnitude other + magnitude code ≤ 2 * q :=
    (greater_nearer_iff hmagnitude).mp (h.nearest other hother.le_infinityCode)
  have hhigh : 2 * r ≤ magnitude other + magnitude code :=
    (smaller_nearer_iff hmagnitude).mp (hother.nearest code h.le_infinityCode)
  obtain rfl : q = r := by linarith
  have htie : |magnitude other - q| = |magnitude code - q| :=
    (tie_iff hmagnitude).mpr (le_antisymm hhigh hlow)
  have heven := h.even_of_tie other hother.le_infinityCode hlt.ne htie
  have hothereven := hother.even_of_tie code h.le_infinityCode hlt.ne' htie.symm
  have hbetween := magnitude_lt_succ other
  have hgap : other + 1 < code := by omega
  have hmid := (greater_nearer_iff (magnitude_strictMono hgap)).mp
    (h.nearest (other + 1) (hgap.le.trans h.le_infinityCode))
  linarith

theorem unique (h : IsNearest q code) (hother : IsNearest q other) : code = other :=
  Nat.le_antisymm (h.mono hother le_rfl) (hother.mono h le_rfl)

/-- A code is nearest if the midpoints towards all others lie beyond. -/
theorem of_midpoints (hle : code ≤ infinityCode)
    (hlow : ∀ below < code, magnitude below + magnitude code ≤ 2 * q)
    (hhigh : ∀ above, code < above → above ≤ infinityCode →
      2 * q ≤ magnitude code + magnitude above)
    (heven : ∀ other ≤ infinityCode, 2 * q = magnitude other + magnitude code → other ≠ code →
      code % 2 = 0) : IsNearest q code where
  le_infinityCode := hle
  nearest other hother := by
    rcases Nat.lt_trichotomy other code with hlt | rfl | hlt
    · exact (greater_nearer_iff (magnitude_strictMono hlt)).mpr (hlow other hlt)
    · exact le_rfl
    · exact (smaller_nearer_iff (magnitude_strictMono hlt)).mpr (hhigh other hlt hother)
  even_of_tie other hother hne htie := by
    apply heven other hother _ hne
    rcases Nat.lt_or_gt_of_ne hne with hlt | hlt
    · exact (tie_iff (magnitude_strictMono hlt)).mp htie
    · rw [add_comm]
      exact (tie_iff (magnitude_strictMono hlt)).mp htie.symm

end IsNearest

/-! ## Overflow -/

theorem unitsOfOne_cast : (unitsOfOne : ℚ) = 2 ^ 1074 := by
  have hcast (n : Nat) : ((1 <<< n : Nat) : ℚ) = 2 ^ n := by
    rw [Nat.one_shiftLeft, Nat.cast_pow, Nat.cast_ofNat]
  exact hcast 1074

theorem fractionCount_cast : (fractionCount : ℚ) = 2 ^ 52 := by
  exact_mod_cast fractionCount_eq

/-- The magnitude of a significand and its exponent. -/
theorem magnitude_mul_add {exponent significand : Nat}
    (h : exponent = 0 ∨ fractionCount ≤ significand) (hle : significand ≤ 2 * fractionCount) :
    magnitude (exponent * fractionCount + significand) = significand * 2 ^ exponent / 2 ^ 1074 := by
  rw [magnitude, units_mul_add h hle, unitsOfOne_cast, Nat.cast_mul, Nat.cast_pow, Nat.cast_ofNat]

theorem magnitude_infinityCode : magnitude infinityCode = 2 ^ 1024 := by
  have hcode : infinityCode = 2046 * fractionCount + fractionCount := by decide
  rw [hcode, magnitude_mul_add (.inr le_rfl) (by decide), fractionCount_cast,
    div_eq_iff (pow_ne_zero _ two_ne_zero), ← pow_add, ← pow_add]

/-- The greatest finite number has a significand of ones. -/
theorem magnitude_greatest : magnitude (infinityCode - 1) = 2 ^ 1024 - 2 ^ 971 := by
  have hexponent : (infinityCode - 1) / fractionCount - 1 = 971 + 1074 := by decide
  have hgap := units_succ (infinityCode - 1)
  rw [Nat.sub_add_cancel (by decide), hexponent] at hgap
  have hcast : (units infinityCode : ℚ) = units (infinityCode - 1) + 2 ^ 971 * 2 ^ 1074 := by
    rw [hgap, Nat.cast_add, Nat.cast_pow, Nat.cast_ofNat, pow_add]
  rw [eq_sub_iff_add_eq, ← magnitude_infinityCode, magnitude, magnitude, hcast, unitsOfOne_cast,
    add_div, mul_div_cancel_right₀ _ (pow_ne_zero _ two_ne_zero)]

/-- A magnitude overflows from half way between the greatest finite number and the power of two behind
it. -/
theorem isNearest_infinityCode_iff {q : ℚ} : IsNearest q infinityCode ↔ 2 ^ 1024 - 2 ^ 970 ≤ q := by
  have hhalf : (2 : ℚ) ^ 971 = 2 * 2 ^ 970 := pow_succ' 2 970
  have hinfinity := magnitude_infinityCode
  have hgreatest := magnitude_greatest
  -- As variables, so that linear arithmetic does not evaluate these powers.
  generalize (2 : ℚ) ^ 1024 = top at hinfinity hgreatest ⊢
  generalize (2 : ℚ) ^ 971 = gap at hhalf hgreatest
  generalize (2 : ℚ) ^ 970 = half at hhalf ⊢
  have hlast : infinityCode - 1 < infinityCode := by decide
  constructor
  · intro h
    have hmid := (greater_nearer_iff (magnitude_strictMono hlast)).mp (h.nearest _ hlast.le)
    linarith
  · intro hq
    apply IsNearest.of_midpoints le_rfl
    · intro below hbelow
      have hle : magnitude below ≤ magnitude (infinityCode - 1) :=
        magnitude_strictMono.monotone (Nat.le_sub_one_of_lt hbelow)
      linarith
    · intro above hlt habove
      omega
    · intro _ _ _ _
      decide

/-! ## Codes are nearest -/

/-- The significand that a magnitude is rounded to. -/
def significand (num den : Nat) : Nat := divNearestEven num (den * 2 ^ surplus num den)

/-- The code that a magnitude is rounded to, however great it is. -/
def uncappedCode (num den : Nat) : Nat := surplus num den * fractionCount + significand num den

section Uncapped

variable {num den other : Nat}

theorem significand_le (hden : 0 < den) (num : Nat) : significand num den ≤ 2 * fractionCount :=
  divNearestEven_le_of_lt_mul (Nat.mul_pos hden (Nat.two_pow_pos _)) (lt_of_surplus hden num)

theorem le_significand (hden : 0 < den) (num : Nat) :
    surplus num den = 0 ∨ fractionCount ≤ significand num den := by
  rcases Nat.eq_zero_or_pos (surplus num den) with hzero | hpos
  · exact .inl hzero
  · exact .inr (le_divNearestEven_of_mul_le (Nat.mul_pos hden (Nat.two_pow_pos _))
      (le_of_surplus_pos hden hpos))

theorem units_uncappedCode (hden : 0 < den) (num : Nat) :
    units (uncappedCode num den) = significand num den * 2 ^ surplus num den :=
  units_mul_add (le_significand hden num) (significand_le hden num)

theorem uncappedCode_mod_two (num den : Nat) :
    uncappedCode num den % 2 = significand num den % 2 := by
  have hcount : fractionCount = 2 * 2 ^ 51 := by decide
  rw [uncappedCode, hcount]
  omega

theorem significand_pos (hden : 0 < den) (h : 0 < uncappedCode num den) :
    0 < significand num den := by
  rcases le_significand hden num with hzero | hle
  · rw [uncappedCode, hzero] at h
    omega
  · exact fractionCount_pos.trans_le hle

/-- Below a significand that is not the least of its exponent lies the next smaller one. -/
theorem units_uncappedCode_sub_one (hden : 0 < den) (hpos : 0 < significand num den)
    (h : surplus num den = 0 ∨ fractionCount < significand num den) :
    units (uncappedCode num den - 1) = (significand num den - 1) * 2 ^ surplus num den := by
  rw [uncappedCode, Nat.add_sub_assoc hpos]
  exact units_mul_add (h.imp_right Nat.le_sub_one_of_lt)
    ((Nat.sub_le _ _).trans (significand_le hden num))

/-- Above a significand no other one is nearer than the next greater one of its exponent. -/
theorem units_uncappedCode_add_le (hden : 0 < den) :
    units (uncappedCode num den) + 2 ^ surplus num den ≤ units (uncappedCode num den + 1) := by
  rw [units_succ]
  apply Nat.add_le_add_left
  apply Nat.pow_le_pow_right Nat.two_pos
  rcases le_significand hden num with hzero | hle
  · rw [hzero]
    exact Nat.zero_le _
  · apply Nat.le_sub_one_of_lt
    apply (Nat.le_div_iff_mul_le (by decide)).mpr
    rw [uncappedCode, Nat.succ_mul]
    exact Nat.add_le_add_left hle _

/-- A magnitude lies above the midpoint towards each smaller code, or on it, and then its own code is
even. -/
theorem midpoint_below (hden : 0 < den) (h : other < uncappedCode num den) :
    (units other + units (uncappedCode num den)) * den ≤ 2 * num ∧
      ((units other + units (uncappedCode num den)) * den = 2 * num →
        uncappedCode num den % 2 = 0) := by
  have hunits := units_uncappedCode hden num
  have hwidth : 0 < den * 2 ^ surplus num den := Nat.mul_pos hden (Nat.two_pow_pos _)
  by_cases hprev : surplus num den = 0 ∨ fractionCount < significand num den
  · have hspec := (divNearestEven_spec (a := num) hwidth).1
    have heven := divNearestEven_even (a := num) hwidth
    rw [← significand] at hspec heven
    have hpos := significand_pos hden ((Nat.zero_le _).trans_lt h)
    have hle : units other ≤ units (uncappedCode num den - 1) :=
      units_strictMono.monotone (Nat.le_sub_one_of_lt h)
    rw [units_uncappedCode_sub_one hden hpos hprev] at hle
    obtain ⟨prev, hsignificand⟩ : ∃ prev, significand num den = prev + 1 :=
      Nat.exists_eq_add_one.mpr hpos
    rw [uncappedCode_mod_two, hunits]
    rw [hsignificand] at hspec heven hle ⊢
    rw [Nat.add_sub_cancel] at hle
    have hsum : (prev * 2 ^ surplus num den + (prev + 1) * 2 ^ surplus num den) * den +
        den * 2 ^ surplus num den = 2 * ((prev + 1) * (den * 2 ^ surplus num den)) := by ring
    have hbound := Nat.mul_le_mul_right den
      (Nat.add_le_add_right hle ((prev + 1) * 2 ^ surplus num den))
    refine ⟨by omega, fun heq => heven (.inl ?_)⟩
    omega
  · -- The code is the first of its exponent, and the magnitude is not below it.
    obtain ⟨hpos, hleast⟩ := not_or.mp hprev
    have hlow : units (uncappedCode num den) * den ≤ num :=
      calc units (uncappedCode num den) * den
          = significand num den * (den * 2 ^ surplus num den) := by
            rw [hunits]
            ring
        _ ≤ fractionCount * (den * 2 ^ surplus num den) :=
            Nat.mul_le_mul_right _ (Nat.not_lt.mp hleast)
        _ ≤ num := le_of_surplus_pos hden (Nat.pos_of_ne_zero hpos)
    have hstrict : (units other + units (uncappedCode num den)) * den < 2 * num := by
      have hother := Nat.mul_lt_mul_of_pos_right (units_strictMono h) hden
      rw [Nat.add_mul]
      omega
    exact ⟨hstrict.le, fun heq => absurd heq hstrict.ne⟩

/-- A magnitude lies below the midpoint towards each greater code, or on it, and then its own code is
even. -/
theorem midpoint_above (hden : 0 < den) (h : uncappedCode num den < other) :
    2 * num ≤ (units (uncappedCode num den) + units other) * den ∧
      (2 * num = (units (uncappedCode num den) + units other) * den →
        uncappedCode num den % 2 = 0) := by
  have hwidth : 0 < den * 2 ^ surplus num den := Nat.mul_pos hden (Nat.two_pow_pos _)
  have hspec := (divNearestEven_spec (a := num) hwidth).2
  have heven := divNearestEven_even (a := num) hwidth
  rw [← significand] at hspec heven
  have hnext : units (uncappedCode num den) + 2 ^ surplus num den ≤ units other :=
    (units_uncappedCode_add_le hden).trans (units_strictMono.monotone h)
  rw [uncappedCode_mod_two]
  rw [units_uncappedCode hden num] at hnext ⊢
  have hsum : (significand num den * 2 ^ surplus num den +
      (significand num den * 2 ^ surplus num den + 2 ^ surplus num den)) * den =
        2 * (significand num den * (den * 2 ^ surplus num den)) + den * 2 ^ surplus num den := by ring
  have hbound := Nat.mul_le_mul_right den
    (Nat.add_le_add_left hnext (significand num den * 2 ^ surplus num den))
  refine ⟨by omega, fun heq => heven (.inr ?_)⟩
  omega

end Uncapped

section Nearest

variable {num den code other : Nat}

theorem magnitude_add_le_iff (hden : 0 < den) :
    magnitude code + magnitude other ≤ 2 * (num / (den * unitsOfOne) : ℚ) ↔
      (units code + units other) * den ≤ 2 * num := by
  have hden : (0 : ℚ) < den := Nat.cast_pos.mpr hden
  rw [magnitude, magnitude, ← add_div, ← mul_div_assoc,
    div_le_div_iff₀ unitsOfOne_cast_pos (mul_pos hden unitsOfOne_cast_pos), ← mul_assoc,
    mul_le_mul_iff_left₀ unitsOfOne_cast_pos]
  exact_mod_cast Iff.rfl

theorem le_magnitude_add_iff (hden : 0 < den) :
    2 * (num / (den * unitsOfOne) : ℚ) ≤ magnitude code + magnitude other ↔
      2 * num ≤ (units code + units other) * den := by
  have hden : (0 : ℚ) < den := Nat.cast_pos.mpr hden
  rw [magnitude, magnitude, ← add_div, ← mul_div_assoc,
    div_le_div_iff₀ (mul_pos hden unitsOfOne_cast_pos) unitsOfOne_cast_pos, ← mul_assoc,
    mul_le_mul_iff_left₀ unitsOfOne_cast_pos]
  exact_mod_cast Iff.rfl

theorem magnitude_add_eq_iff (hden : 0 < den) :
    2 * (num / (den * unitsOfOne) : ℚ) = magnitude code + magnitude other ↔
      2 * num = (units code + units other) * den := by
  rw [le_antisymm_iff, le_antisymm_iff, magnitude_add_le_iff hden, le_magnitude_add_iff hden]

/-- The code that is nearest among all is nearest up to infinity, or infinity is. -/
theorem isNearest_nearestCode (hden : 0 < den) (num : Nat) :
    IsNearest (num / (den * unitsOfOne)) (nearestCode num den) := by
  have hcode : nearestCode num den = min infinityCode (uncappedCode num den) := nearestCode_eq num den
  rcases Nat.lt_or_ge infinityCode (uncappedCode num den) with hover | hle
  · rw [hcode, min_eq_left hover.le]
    have hgreater := units_strictMono hover
    apply IsNearest.of_midpoints le_rfl
    · intro below hbelow
      rw [magnitude_add_le_iff hden]
      have hmid := (midpoint_below hden (hbelow.trans hover)).1
      exact (Nat.mul_le_mul_right den (Nat.add_le_add_left hgreater.le _)).trans hmid
    · intro above hlt habove
      omega
    · intro _ _ _ _
      decide
  · rw [hcode, min_eq_right hle]
    apply IsNearest.of_midpoints hle
    · intro below hbelow
      exact (magnitude_add_le_iff hden).mpr (midpoint_below hden hbelow).1
    · intro above hlt _
      exact (le_magnitude_add_iff hden).mpr (midpoint_above hden hlt).1
    · intro other _ htie hne
      rw [magnitude_add_eq_iff hden] at htie
      rcases Nat.lt_or_gt_of_ne hne with hlt | hlt
      · exact (midpoint_below hden hlt).2 htie.symm
      · rw [Nat.add_comm] at htie
        exact (midpoint_above hden hlt).2 htie

end Nearest

/-! ## Operations are rounded -/

section Operations

variable {x y : Binary64} {q r : ℚ}

namespace IsRounded

theorem code_le (hx : IsRounded q x) (hy : IsRounded r y) (h : q ≤ r) : x.code ≤ y.code :=
  hx.isNearest.mono hy.isNearest h

theorem unique (hx : IsRounded q x) (hy : IsRounded q y) : x = y := by
  rw [← ofCode_isNegative_code x, ← ofCode_isNegative_code y, hx.isNegative_eq, hy.isNegative_eq,
    hx.isNearest.unique hy.isNearest]

theorem iff_eq (hy : IsRounded q y) : IsRounded q x ↔ x = y := by
  constructor
  · intro hx
    exact hx.unique hy
  · rintro rfl
    exact hy

end IsRounded

theorem value_of_not_isNegative (hx : x.isNegative = false) : x.value = magnitude x.code := by
  rw [value, hx, if_neg Bool.false_ne_true]

theorem isRounded_nearestCode {num den : Nat} (hden : 0 < den) (h : q = num / (den * unitsOfOne)) :
    IsRounded q (ofCode false (nearestCode num den)) where
  isNegative_eq := isNegative_ofCode (nearestCode_lt_signWeight num den)
  isNearest := by
    rw [code_ofCode (nearestCode_lt_signWeight num den), h]
    exact isNearest_nearestCode hden num

theorem isRounded_ofNat (n : Nat) : IsRounded n (ofNat n) := by
  apply isRounded_nearestCode Nat.one_pos
  rw [Nat.cast_mul, Nat.cast_one, one_mul, mul_div_cancel_right₀ _ unitsOfOne_cast_pos.ne']

theorem isRounded_mul (hx : x.isFinite = true) (hy : y.isFinite = true) (hxsign : x.isNegative = false)
    (hysign : y.isNegative = false) : IsRounded (x.value * y.value) (x.mul y) := by
  rw [mul_of_isFinite hx hy, hxsign, hysign]
  apply isRounded_nearestCode unitsOfOne_pos
  rw [value_of_not_isNegative hxsign, value_of_not_isNegative hysign, magnitude, magnitude,
    div_mul_div_comm, Nat.cast_mul]

theorem isRounded_div (hx : x.isFinite = true) (hy : y.isFinite = true) (hxsign : x.isNegative = false)
    (hysign : y.isNegative = false) (hzero : y.isZero = false) :
    IsRounded (x.value / y.value) (x.div y) := by
  have hunits : 0 < units y.code := by
    have hcode := of_decide_eq_false hzero
    exact (Nat.zero_le _).trans_lt (units_strictMono (Nat.pos_of_ne_zero hcode))
  rw [div_of_isFinite hx hy hzero, hxsign, hysign]
  apply isRounded_nearestCode hunits
  rw [value_of_not_isNegative hxsign, value_of_not_isNegative hysign, magnitude, magnitude,
    div_div_div_cancel_right₀ unitsOfOne_cast_pos.ne', Nat.cast_mul,
    mul_div_mul_right _ _ unitsOfOne_cast_pos.ne']

/-- A number is above zero if neither its sign nor a code of zero stands against it. -/
theorem value_pos_iff : 0 < x.value ↔ x.isZero = false ∧ x.isNegative = false := by
  have hpos : 0 < magnitude x.code ↔ x.isZero = false := by
    rw [isZero, decide_eq_false_iff_not, ← magnitude_zero, magnitude_strictMono.lt_iff_lt,
      Nat.pos_iff_ne_zero]
  rw [value]
  cases x.isNegative with
  | true => simp [magnitude_nonneg]
  | false => simp [hpos]

/-- A finite number that is not below zero is rounded to an integer exactly. -/
theorem roundHalfAway_eq (hx : x.isNegative = false) : x.roundHalfAway = ⌊x.value + 1 / 2⌋₊ := by
  have hvalue : x.value + 1 / 2 =
      ((2 * units x.code + unitsOfOne : Nat) : ℚ) / ((2 * unitsOfOne : Nat) : ℚ) := by
    have hone := unitsOfOne_cast_pos.ne'
    rw [value_of_not_isNegative hx, magnitude]
    push_cast
    field_simp
  rw [hvalue, Nat.floor_div_eq_div]
  rfl

theorem roundHalfAway_mono (h : x.code ≤ y.code) : x.roundHalfAway ≤ y.roundHalfAway := by
  have hunits := units_strictMono.monotone h
  exact Nat.div_le_div_right (by omega)

end Operations

end TimelockAuction.Binary64
