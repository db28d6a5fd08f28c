import Mathlib
import TimelockAuction.Puzzle.Basic
import TimelockAuction.Proofs.Puzzle.HashChain

/-!
# How much work a puzzle is

Each solver is written a second time, with a count of the squarings or hash rounds that it does. A puzzle
that is given up before the first of them is no work, whatever it asks for.

* `SquaringPuzzle.solveKeyCounted_eq`, `HashChainPuzzle.solveKeyCounted_eq`: the count of each
  construction.
* `Puzzle.solveKeyCounted_eq`: counting finds the same key, and the exact count.
* `Puzzle.work_squaring_le`, `Puzzle.work_hashChain_le`, `Puzzle.work_hashChain_lt`: bounds on the count.
-/

namespace TimelockAuction

/-! ## Squarings -/

namespace SquaringPuzzle

/-- Repeated squaring, with the number of squarings. -/
def squareTimesCounted (n : Nat) : (count : Nat) → (x : Nat) → Nat × Nat
  | 0, x => (x, 0)
  | count + 1, x =>
    let (residue, work) := squareTimesCounted n count (x * x % n)
    (residue, work + 1)

/-- Solving, with the number of squarings. -/
def solveKeyCounted (puzzle : SquaringPuzzle) : Except Error Key × Nat :=
  if puzzle.modulus ≤ 1 then (throw (.puzzleSolve .modulusTooSmall), 0)
  else
    let (residue, work) := squareTimesCounted puzzle.modulus puzzle.squarings.toNat
      (puzzle.base % puzzle.modulus)
    (return keyOf residue, work)

theorem squareTimesCounted_eq (n count x : Nat) :
    squareTimesCounted n count x = (squareTimes n count x, count) := by
  induction count generalizing x with
  | zero => rfl
  | succ count ih => rw [squareTimesCounted, squareTimes, ih]

theorem solveKeyCounted_eq (puzzle : SquaringPuzzle) :
    puzzle.solveKeyCounted =
      (puzzle.solveKey, if puzzle.modulus ≤ 1 then 0 else puzzle.squarings.toNat) := by
  unfold solveKeyCounted solveKey
  by_cases h : puzzle.modulus ≤ 1
  · simp only [if_pos h]
  · simp only [if_neg h, squareTimesCounted_eq, solution]

end SquaringPuzzle

/-! ## Hash rounds -/

namespace HashChainPuzzle

/-- Repeated hashing, with the number of rounds. -/
def hashTimesCounted : (count : Nat) → Vector UInt8 32 → Vector UInt8 32 × Nat
  | 0, state => (state, 0)
  | count + 1, state =>
    let (last, work) := hashTimesCounted count (Sha256.digest state.toList)
    (last, work + 1)

/-- Solving, with the number of hash rounds. -/
def solveKeyCounted (puzzle : HashChainPuzzle) : Except Error Key × Nat :=
  match puzzle.rounds? with
  | some rounds =>
    let (last, work) := hashTimesCounted rounds.toNat puzzle.seed
    (return keyOf last, work)
  | none => (throw (.puzzleSolve (.roundsOverflow puzzle.steps puzzle.roundsPerStep)), 0)

theorem hashTimesCounted_eq (count : Nat) (state : Vector UInt8 32) :
    hashTimesCounted count state = (hashTimes count state, count) := by
  induction count generalizing state with
  | zero => rfl
  | succ count ih => rw [hashTimesCounted, hashTimes, ih]

theorem elim_rounds? (puzzle : HashChainPuzzle) :
    puzzle.rounds?.elim 0 UInt64.toNat =
      if puzzle.steps.toNat * puzzle.roundsPerStep.toNat < 2 ^ 64 then
        puzzle.steps.toNat * puzzle.roundsPerStep.toNat
      else 0 := by
  by_cases h : Overflows puzzle.steps puzzle.roundsPerStep
  · rw [rounds?_eq_none_iff.mpr h, if_neg (Nat.not_lt.mpr h), Option.elim_none]
  · obtain ⟨rounds, hrounds, hcount⟩ := rounds?_of_not_overflows h
    rw [hrounds, if_pos (Nat.not_le.mp h), Option.elim_some, hcount]

theorem solveKeyCounted_eq (puzzle : HashChainPuzzle) :
    puzzle.solveKeyCounted = (puzzle.solveKey, puzzle.rounds?.elim 0 UInt64.toNat) := by
  unfold solveKeyCounted solveKey
  cases puzzle.rounds? with
  | some rounds => simp only [hashTimesCounted_eq, chain, Option.elim_some]
  | none => rfl

end HashChainPuzzle

/-! ## Both constructions -/

namespace Puzzle

/-- Solving, with the number of squarings or hash rounds. -/
def solveKeyCounted : Puzzle → Except Error Key × Nat
  | squaring puzzle => puzzle.solveKeyCounted
  | hashChain puzzle => puzzle.solveKeyCounted

/-- How many squarings or hash rounds it takes to solve a puzzle. A modulus that hides nothing and a number
of rounds that 64 bits do not hold are given up at once. -/
def work : Puzzle → Nat
  | squaring puzzle => if puzzle.modulus ≤ 1 then 0 else puzzle.squarings.toNat
  | hashChain puzzle =>
    if puzzle.steps.toNat * puzzle.roundsPerStep.toNat < 2 ^ 64 then
      puzzle.steps.toNat * puzzle.roundsPerStep.toNat
    else 0

theorem solveKeyCounted_eq (puzzle : Puzzle) :
    puzzle.solveKeyCounted = (puzzle.solveKey, puzzle.work) := by
  cases puzzle with
  | squaring puzzle => rw [solveKeyCounted, solveKey, puzzle.solveKeyCounted_eq, work]
  | hashChain puzzle =>
    rw [solveKeyCounted, solveKey, puzzle.solveKeyCounted_eq, puzzle.elim_rounds?, work]

theorem work_squaring_le (puzzle : SquaringPuzzle) :
    (squaring puzzle).work ≤ puzzle.squarings.toNat := by
  rw [work]
  split
  · exact Nat.zero_le _
  · exact Nat.le_refl _

theorem work_hashChain_lt (puzzle : HashChainPuzzle) : (hashChain puzzle).work < 2 ^ 64 := by
  rw [work]
  split
  · assumption
  · exact Nat.two_pow_pos 64

theorem work_hashChain_le (puzzle : HashChainPuzzle) :
    (hashChain puzzle).work ≤ puzzle.steps.toNat * puzzle.roundsPerStep.toNat := by
  rw [work]
  split
  · exact Nat.le_refl _
  · exact Nat.zero_le _

end Puzzle

end TimelockAuction
