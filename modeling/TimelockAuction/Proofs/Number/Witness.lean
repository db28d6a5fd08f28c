import Mathlib
import TimelockAuction.Number.Primality
import TimelockAuction.Proofs.PowMod

/-!
# Strong witnesses

A prime passes as a strong probable prime to every number that it does not divide: modulo a prime, a square
root of one is one or minus one. A composite odd number does not: it has a witness against it. If it is a
product of two coprime factors, a number that is minus one modulo the first and one modulo the second has an
odd power that is neither; if the square of a prime `p` divides it, one more than its `p`-th part already
fails Fermat's test.

* `passesWitness_iff`: what the test of one witness decides.
* `IsStrongProbablePrime.of_prime`: no witness speaks against a prime.
* `exists_not_isStrongProbablePrime`: some witness speaks against every other odd number.
-/

namespace TimelockAuction

/-- Where `n - 1 = 2 ^ s * d` with `d` odd, `a ^ d` is one modulo `n` or becomes minus one by fewer than `s`
squarings. -/
def IsStrongProbablePrime (n a : Nat) : Prop :=
  ∃ s d : Nat, n - 1 = 2 ^ s * d ∧ Odd d ∧
    ((a : ZMod n) ^ d = 1 ∨ ∃ r < s, (a : ZMod n) ^ (2 ^ r * d) = -1)

variable {n a : Nat}

/-! ## The test of one witness -/

/-- Induction on the fuel. It lasts because a number has fewer factors two than binary digits. -/
theorem halvings_spec {fuel m : Nat} (hpos : 0 < m) (hfuel : m < 2 ^ (fuel + 1)) :
    m = 2 ^ (halvings fuel m).1 * (halvings fuel m).2 ∧ Odd (halvings fuel m).2 := by
  induction fuel generalizing m with
  | zero =>
    obtain rfl : m = 1 := by omega
    exact ⟨rfl, odd_one⟩
  | succ fuel ih =>
    rw [halvings]
    split
    · rename_i heven
      rw [pow_succ] at hfuel
      obtain ⟨hhalf, hodd⟩ := ih (m := m / 2) (by omega) (by omega)
      refine ⟨?_, hodd⟩
      show m = 2 ^ ((halvings fuel (m / 2)).1 + 1) * (halvings fuel (m / 2)).2
      rw [pow_succ, mul_right_comm, ← hhalf]
      omega
    · rename_i hodd
      exact ⟨by simp, Nat.odd_iff.mpr (by omega)⟩

theorem twoAndOdd_spec {m : Nat} (hpos : 0 < m) :
    m = 2 ^ (twoAndOdd m).1 * (twoAndOdd m).2 ∧ Odd (twoAndOdd m).2 :=
  halvings_spec hpos Nat.lt_log2_self

/-- A number has one power of two and one odd part. -/
theorem two_pow_mul_odd_inj {s t d e : Nat} (hd : Odd d) (he : Odd e) (h : 2 ^ s * d = 2 ^ t * e) :
    s = t ∧ d = e := by
  induction s generalizing t with
  | zero =>
    cases t with
    | zero => simpa using h
    | succ t =>
      rw [pow_zero, pow_succ', mul_assoc] at h
      obtain ⟨k, rfl⟩ := hd
      omega
  | succ s ih =>
    rw [pow_succ', mul_assoc] at h
    cases t with
    | zero =>
      rw [pow_zero] at h
      obtain ⟨k, rfl⟩ := he
      omega
    | succ t =>
      rw [pow_succ', mul_assoc] at h
      obtain ⟨hst, hde⟩ := ih (Nat.eq_of_mul_eq_mul_left two_pos h)
      exact ⟨congrArg Nat.succ hst, hde⟩

/-- The search squares as it goes, so that its `r`-th number is the `2 ^ r`-th power of the first. -/
theorem reachesMinusOne_iff {count x : Nat} :
    reachesMinusOne n count (x % n) = true ↔ ∃ r < count, x ^ 2 ^ r % n = n - 1 := by
  induction count generalizing x with
  | zero => simp [reachesMinusOne]
  | succ count ih =>
    have hsquare : ∀ r, (x * x) ^ 2 ^ r = x ^ 2 ^ (r + 1) := by
      intro r
      rw [← pow_two, ← pow_mul, ← pow_succ']
    rw [reachesMinusOne, ← Nat.mul_mod, Bool.or_eq_true, ih, beq_iff_eq]
    simp only [hsquare]
    rw [Nat.exists_lt_succ_left, pow_zero, pow_one]

theorem mod_eq_one_iff (h : 1 < n) (x : Nat) : x % n = 1 ↔ (x : ZMod n) = 1 := by
  rw [← Nat.cast_one (R := ZMod n), ZMod.natCast_eq_natCast_iff', Nat.mod_eq_of_lt h]

theorem cast_pred (h : 1 < n) : ((n - 1 : Nat) : ZMod n) = -1 := by
  rw [Nat.cast_sub h.le, ZMod.natCast_self, Nat.cast_one, zero_sub]

theorem mod_eq_pred_iff (h : 1 < n) (x : Nat) : x % n = n - 1 ↔ (x : ZMod n) = -1 := by
  rw [← cast_pred h, ZMod.natCast_eq_natCast_iff', Nat.mod_eq_of_lt (show n - 1 < n by omega)]

theorem passesWitness_eq (n a : Nat) :
    passesWitness n a =
      (powMod a (twoAndOdd (n - 1)).2 n == 1 ||
        reachesMinusOne n (twoAndOdd (n - 1)).1 (powMod a (twoAndOdd (n - 1)).2 n)) := rfl

theorem passesWitness_iff (h : 1 < n) : passesWitness n a = true ↔ IsStrongProbablePrime n a := by
  obtain ⟨hsplit, hodd⟩ := twoAndOdd_spec (show 0 < n - 1 by omega)
  rw [passesWitness_eq]
  generalize twoAndOdd (n - 1) = parts at hsplit hodd
  obtain ⟨s, d⟩ := parts
  have hpasses : (powMod a d n == 1 || reachesMinusOne n s (powMod a d n)) = true ↔
      (a : ZMod n) ^ d = 1 ∨ ∃ r < s, (a : ZMod n) ^ (2 ^ r * d) = -1 := by
    have hpow : ∀ r, (a ^ d) ^ 2 ^ r = a ^ (2 ^ r * d) := by
      intro r
      rw [← pow_mul, mul_comm]
    rw [powMod_eq, Bool.or_eq_true, reachesMinusOne_iff, beq_iff_eq, mod_eq_one_iff h]
    simp only [hpow, mod_eq_pred_iff h, Nat.cast_pow]
  rw [hpasses]
  constructor
  · intro hstrong
    exact ⟨s, d, hsplit, hodd, hstrong⟩
  · rintro ⟨t, e, hsplit', hodd', hstrong⟩
    obtain ⟨rfl, rfl⟩ := two_pow_mul_odd_inj hodd hodd' (hsplit.symm.trans hsplit')
    exact hstrong

/-! ## Primes pass -/

/-- Where one has no square roots but one and minus one, repeated squaring reaches one through minus one,
unless it starts there. Induction on the number of squarings, the last of which leads to one. -/
theorem eq_one_or_exists_eq_neg_one {R : Type} [CommRing R] [NoZeroDivisors R] {x : R} {s : Nat}
    (h : x ^ 2 ^ s = 1) : x = 1 ∨ ∃ r < s, x ^ 2 ^ r = -1 := by
  induction s with
  | zero => exact .inl (by simpa using h)
  | succ s ih =>
    rw [pow_succ, pow_mul, pow_two] at h
    rcases mul_self_eq_one_iff.mp h with hone | hminus
    · rcases ih hone with hx | ⟨r, hr, hx⟩
      · exact .inl hx
      · exact .inr ⟨r, by omega, hx⟩
    · exact .inr ⟨s, by omega, hminus⟩

namespace IsStrongProbablePrime

theorem of_prime (hn : n.Prime) (ha : ¬ n ∣ a) : IsStrongProbablePrime n a := by
  have : Fact n.Prime := ⟨hn⟩
  have hcast : (a : ZMod n) ≠ 0 := (ZMod.natCast_eq_zero_iff a n).not.mpr ha
  obtain ⟨s, d, hd, hsplit⟩ := Nat.exists_eq_two_pow_mul_odd (n := n - 1) (by have := hn.two_le; omega)
  refine ⟨s, d, hsplit, hd, ?_⟩
  have hfermat : ((a : ZMod n) ^ d) ^ 2 ^ s = 1 := by
    rw [← pow_mul, mul_comm, ← hsplit, ZMod.pow_card_sub_one_eq_one hcast]
  rcases eq_one_or_exists_eq_neg_one hfermat with hone | ⟨r, hr, hminus⟩
  · exact .inl hone
  · refine .inr ⟨r, hr, ?_⟩
    rw [mul_comm, pow_mul, hminus]

/-- A strong probable prime passes Fermat's test, to which the squarings of the test lead. -/
theorem pow_pred_eq_one (h : IsStrongProbablePrime n a) : (a : ZMod n) ^ (n - 1) = 1 := by
  obtain ⟨s, d, hsplit, -, hone | ⟨r, hr, hminus⟩⟩ := h
  · rw [hsplit, mul_comm, pow_mul, hone, one_pow]
  · have hrest : n - 1 = 2 ^ r * d * (2 * 2 ^ (s - r - 1)) := by
      rw [hsplit, mul_right_comm, ← pow_succ', ← pow_add]
      congr 2
      omega
    rw [hrest, pow_mul, hminus, pow_mul, neg_one_sq, one_pow]

end IsStrongProbablePrime

/-! ## A witness against every other odd number -/

/-- Only zero, one and minus one are out of the range of witnesses. -/
theorem mem_range_of_ne (h : 1 < n) (hlt : a < n) (hzero : (a : ZMod n) ≠ 0) (hone : (a : ZMod n) ≠ 1)
    (hminus : (a : ZMod n) ≠ -1) : 2 ≤ a ∧ a ≤ n - 2 := by
  have h0 : a ≠ 0 := by
    rintro rfl
    exact hzero Nat.cast_zero
  have h1 : a ≠ 1 := by
    rintro rfl
    exact hone Nat.cast_one
  have h2 : a ≠ n - 1 := by
    rintro rfl
    exact hminus (cast_pred h)
  omega

/-- The witness is minus one modulo the first factor and one modulo the second, and all its odd powers are
like it. -/
theorem exists_not_isStrongProbablePrime_of_coprime {u v : Nat} (hu : 2 < u) (hv : 2 < v)
    (huv : u.Coprime v) : ∃ a, 2 ≤ a ∧ a ≤ u * v - 2 ∧ ¬ IsStrongProbablePrime (u * v) a := by
  have : Fact (2 < u) := ⟨hu⟩
  have : Fact (2 < v) := ⟨hv⟩
  have : Fact (1 < v) := ⟨by omega⟩
  have hlt := Nat.chineseRemainder_lt_mul huv (u - 1) 1 (by omega) (by omega)
  obtain ⟨hau, hav⟩ := (Nat.chineseRemainder huv (u - 1) 1).property
  generalize (Nat.chineseRemainder huv (u - 1) 1).val = a at hlt hau hav
  have hminus : (a : ZMod u) = -1 := by
    rw [← cast_pred (by omega), ZMod.natCast_eq_natCast_iff]
    exact hau
  have hone : (a : ZMod v) = 1 := by
    rw [← Nat.cast_one, ZMod.natCast_eq_natCast_iff]
    exact hav
  let first : ZMod (u * v) →+* ZMod u := ZMod.castHom (Nat.dvd_mul_right u v) (ZMod u)
  let second : ZMod (u * v) →+* ZMod v := ZMod.castHom (Nat.dvd_mul_left v u) (ZMod v)
  have hfirst : first a = -1 := (map_natCast first a).trans hminus
  have hsecond : second a = 1 := (map_natCast second a).trans hone
  have hrange : 2 ≤ a ∧ a ≤ u * v - 2 := by
    apply mem_range_of_ne (by nlinarith) hlt
    · intro h
      rw [h, map_zero] at hsecond
      exact zero_ne_one hsecond
    · intro h
      rw [h, map_one] at hfirst
      exact ZMod.neg_one_ne_one hfirst.symm
    · intro h
      rw [h, map_neg, map_one] at hsecond
      exact ZMod.neg_one_ne_one hsecond
  refine ⟨a, hrange.1, hrange.2, ?_⟩
  rintro ⟨s, d, -, hodd, h | ⟨r, -, h⟩⟩
  · have hpow := congrArg first h
    rw [map_pow, hfirst, map_one, hodd.neg_one_pow] at hpow
    exact ZMod.neg_one_ne_one hpow
  · have hpow := congrArg second h
    rw [map_pow, hsecond, one_pow, map_neg, map_one] at hpow
    exact ZMod.neg_one_ne_one hpow.symm

/-- Powers of one more than a number whose square is zero. -/
theorem one_add_pow_of_mul_self {R : Type} [CommRing R] {x : R} (h : x * x = 0) (k : Nat) :
    (1 + x) ^ k = 1 + k * x := by
  induction k with
  | zero => simp
  | succ k ih =>
    rw [pow_succ, ih]
    push_cast
    linear_combination (k : R) * h

/-- The witness is one more than the `p`-th part of the number. That part has the square zero, so the power
in Fermat's test is one less it. -/
theorem exists_not_isStrongProbablePrime_of_sq_dvd {p m : Nat} (hp : 2 < p) (hm : 0 < m) (hpm : p ∣ m) :
    ∃ a, 2 ≤ a ∧ a ≤ p * m - 2 ∧ ¬ IsStrongProbablePrime (p * m) a := by
  have hle : p ≤ m := Nat.le_of_dvd hm hpm
  have hlt : 3 * m ≤ p * m := Nat.mul_le_mul_right m hp
  refine ⟨1 + m, by omega, by omega, fun hstrong => ?_⟩
  have hsquare : (m : ZMod (p * m)) * m = 0 := by
    rw [← Nat.cast_mul, ZMod.natCast_eq_zero_iff]
    exact Nat.mul_dvd_mul_right hpm m
  have hfermat := hstrong.pow_pred_eq_one
  rw [Nat.cast_add, Nat.cast_one, one_add_pow_of_mul_self hsquare, cast_pred (by omega)] at hfermat
  have hzero : (m : ZMod (p * m)) = 0 := by linear_combination -hfermat
  rw [ZMod.natCast_eq_zero_iff] at hzero
  exact absurd (Nat.le_of_dvd hm hzero) (by omega)

/-- The least prime factor divides the rest of the number, or has no factor in common with it. -/
theorem exists_not_isStrongProbablePrime (hodd : Odd n) (h : 1 < n) (hcomposite : ¬ n.Prime) :
    ∃ a, 2 ≤ a ∧ a ≤ n - 2 ∧ ¬ IsStrongProbablePrime n a := by
  have hp : n.minFac.Prime := Nat.minFac_prime (by omega)
  obtain ⟨m, hm⟩ := Nat.minFac_dvd n
  have hfactors : Odd n.minFac ∧ Odd m := Nat.odd_mul.mp (hm ▸ hodd)
  have hm1 : m ≠ 1 := by
    rintro rfl
    rw [mul_one] at hm
    exact hcomposite (hm ▸ hp)
  generalize n.minFac = p at hp hm hfactors
  subst hm
  obtain ⟨⟨i, rfl⟩, ⟨k, rfl⟩⟩ := hfactors
  have hp1 := hp.one_lt
  by_cases hdvd : 2 * i + 1 ∣ 2 * k + 1
  · exact exists_not_isStrongProbablePrime_of_sq_dvd (by omega) (by omega) hdvd
  · exact exists_not_isStrongProbablePrime_of_coprime (by omega) (by omega)
      ((Nat.Prime.coprime_iff_not_dvd hp).mpr hdvd)

end TimelockAuction
