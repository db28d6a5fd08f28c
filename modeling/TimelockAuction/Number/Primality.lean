import TimelockAuction.Number.PowMod
import TimelockAuction.Random.Draw

/-!
# Probable primes

A number is first divided by the primes below one hundred, and then tested by strong witnesses: where
`n - 1 = 2 ^ s * d` with `d` odd, a prime `n` has `a ^ d = 1` or `a ^ (2 ^ r * d) = -1` modulo `n` for
some `r < s`, whatever the witness `a`.

Where witnesses come from is left open: the test runs in any monad that yields them.
-/

namespace TimelockAuction

def smallPrimes : List Nat :=
  [2, 3, 5, 7, 11, 13, 17, 19, 23, 29, 31, 37, 41, 43, 47, 53, 59, 61, 67, 71, 73, 79, 83, 89, 97]

/-- How many witnesses a number has to pass. -/
def witnessRounds : Nat := 20

/-- Halves a number as long as it is even, at most `fuel` times: how often, and what is left. -/
def halvings : (fuel : Nat) → Nat → Nat × Nat
  | 0, m => (0, m)
  | fuel + 1, m =>
    if m % 2 = 0 then
      let (s, d) := halvings fuel (m / 2)
      (s + 1, d)
    else (0, m)

/-- The power of two in a positive number and its odd part. -/
def twoAndOdd (m : Nat) : Nat × Nat :=
  halvings m.log2 m

/-- Whether one of `x, x ^ 2, x ^ 4, …` modulo `n`, of which `count` are looked at, is `-1`. -/
def reachesMinusOne (n : Nat) : (count : Nat) → (x : Nat) → Bool
  | 0, _ => false
  | count + 1, x => x == n - 1 || reachesMinusOne n count (x * x % n)

/-- Whether `n` looks prime to the witness `a`. -/
def passesWitness (n a : Nat) : Bool :=
  let (s, d) := twoAndOdd (n - 1)
  let x := powMod a d n
  x == 1 || reachesMinusOne n s x

/-- Tests `n` with up to `rounds` witnesses, stopping at the first it does not pass. -/
def passesRounds {m : Type → Type} [Monad m] (witness : m Nat) (n : Nat) : (rounds : Nat) → m Bool
  | 0 => return true
  | rounds + 1 => do
    let a ← witness
    if passesWitness n a then passesRounds witness n rounds else return false

/-- What division by small primes says: whether `n` is prime, or nothing. -/
def trialDivision (n : Nat) : Option Bool :=
  if n < 2 then some false
  else (smallPrimes.find? fun p => n % p == 0).map fun p => n == p

/-- Whether `n` is taken for a prime, with witnesses as they come. -/
def isProbablePrime {m : Type → Type} [Monad m] (witness : m Nat) (n : Nat) : m Bool :=
  match trialDivision n with
  | some answer => return answer
  | none => passesRounds witness n witnessRounds

/-- A witness against `n` drawn from `2` to `n - 2`. -/
def drawWitness (n : Nat) : Draw Nat :=
  Draw.range 2 (n - 1)

/-- A probable prime of exactly `bits` binary digits, of which the two highest are set, so that a
product of two has its full width. -/
def drawPrime (bits : Nat) : Draw Nat :=
  Draw.untilSome do
    let n ← Draw.natural bits
    let candidate := n ||| 1 <<< (bits - 1) ||| 1 <<< (bits - 2) ||| 1
    let accepted ← isProbablePrime (drawWitness candidate) candidate
    return if accepted then some candidate else none

end TimelockAuction
