/-!
# Powers of residues

Powers modulo a number by repeated squaring.
-/

namespace TimelockAuction

/-- Multiplies `result` by `base ^ exponent` modulo `n`, one binary digit of the exponent at a time. -/
def powModLoop (n : Nat) : (digits : Nat) → (base exponent result : Nat) → Nat
  | 0, _, _, result => result
  | digits + 1, base, exponent, result =>
    powModLoop n digits (base * base % n) (exponent / 2)
      (if exponent % 2 = 1 then result * base % n else result)

def powMod (base exponent n : Nat) : Nat :=
  powModLoop n (exponent.log2 + 1) (base % n) exponent (1 % n)

end TimelockAuction
