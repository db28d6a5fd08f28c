import Mathlib
import TimelockAuction.Number.PowMod

/-!
# Powers of residues are remainders of powers

* `powMod_eq`: repeated squaring gives the remainder of the power.
-/

namespace TimelockAuction

theorem powModLoop_eq (n digits base exponent result : Nat) (h : exponent < 2 ^ digits)
    (hr : result % n = result) :
    powModLoop n digits base exponent result = result * base ^ exponent % n := by
  induction digits generalizing base exponent result with
  | zero =>
    have : exponent = 0 := by simpa using h
    simp [powModLoop, this, hr]
  | succ digits ih =>
    have hhalf : exponent / 2 < 2 ^ digits := by rw [Nat.pow_succ] at h; omega
    have hsquare : (base * base % n) ^ (exponent / 2) % n = base ^ (2 * (exponent / 2)) % n := by
      rw [← Nat.pow_mod, Nat.pow_mul, Nat.pow_two]
    rw [powModLoop]
    split
    · rename_i hodd
      rw [ih _ _ _ hhalf (Nat.mod_mod ..), Nat.mul_mod, hsquare, Nat.mod_mod, ← Nat.mul_mod,
        Nat.mul_assoc, ← Nat.pow_succ']
      congr 3
      omega
    · rename_i heven
      rw [ih _ _ _ hhalf hr, Nat.mul_mod, hsquare, ← Nat.mul_mod]
      congr 3
      omega

theorem powMod_eq (base exponent n : Nat) : powMod base exponent n = base ^ exponent % n := by
  rw [powMod, powModLoop_eq _ _ _ _ _ Nat.lt_log2_self (Nat.mod_mod ..), Nat.mul_mod,
    ← Nat.pow_mod, Nat.mod_mod, ← Nat.mul_mod, Nat.one_mul]

end TimelockAuction
