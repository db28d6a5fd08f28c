import Mathlib
import TimelockAuction.Puzzle.HashChain
import TimelockAuction.Proofs.Random.Draw

/-!
# A hash chain is refused for its number of rounds alone

Maker and solver of a hash chain do the same work, and both refuse a chain whose rounds cannot be counted
in 64 bits. The maker finds that out once it has drawn the seed, which plays no part in it.

* `HashChainPuzzle.rounds?_eq_none_iff`: when the rounds cannot be counted.
* `HashChainPuzzle.solveKey_eq_error_iff`, `HashChainPuzzle.solveKey_eq_ok_iff`: when solving fails, and
  which key it finds otherwise.
* `HashChainPuzzle.generate_eq_some_iff`, `HashChainPuzzle.generate_of_overflow`: when making succeeds, and
  when it fails.
-/

namespace TimelockAuction.HashChainPuzzle

variable {puzzle : HashChainPuzzle} {key : Key} {steps roundsPerStep : UInt64} {supply rest : Bytes}

/-! ## Rounds -/

/-- The number of rounds does not fit in 64 bits. -/
def Overflows (steps roundsPerStep : UInt64) : Prop :=
  2 ^ 64 ≤ steps.toNat * roundsPerStep.toNat

theorem rounds?_eq_none_iff :
    puzzle.rounds? = none ↔ Overflows puzzle.steps puzzle.roundsPerStep := by
  unfold rounds? Overflows
  by_cases h : puzzle.steps.toNat * puzzle.roundsPerStep.toNat < UInt64.size
  · rw [if_pos h]
    exact iff_of_false (by simp) (Nat.not_le.mpr h)
  · rw [if_neg h]
    exact iff_of_true rfl (Nat.not_lt.mp h)

theorem rounds?_of_not_overflows (h : ¬ Overflows puzzle.steps puzzle.roundsPerStep) :
    ∃ rounds, puzzle.rounds? = some rounds ∧
      rounds.toNat = puzzle.steps.toNat * puzzle.roundsPerStep.toNat := by
  have hlt : puzzle.steps.toNat * puzzle.roundsPerStep.toNat < UInt64.size := Nat.not_le.mp h
  exact ⟨_, if_pos hlt, UInt64.toNat_ofNat_of_lt' hlt⟩

/-! ## Solving -/

theorem solveKey_eq_error_iff {error : Error} :
    puzzle.solveKey = .error error ↔
      Overflows puzzle.steps puzzle.roundsPerStep ∧
        error = .puzzleSolve (.roundsOverflow puzzle.steps puzzle.roundsPerStep) := by
  rw [← rounds?_eq_none_iff]
  unfold solveKey
  cases puzzle.rounds? with
  | some rounds => exact iff_of_false (fun h => nomatch h) (fun h => nomatch h.1)
  | none =>
    constructor
    · intro h
      cases h
      exact ⟨rfl, rfl⟩
    · rintro ⟨-, rfl⟩
      rfl

/-- The key is found behind as many rounds as there are steps, each of its rounds. -/
theorem solveKey_eq_ok_iff :
    puzzle.solveKey = .ok key ↔
      ¬ Overflows puzzle.steps puzzle.roundsPerStep ∧
        keyOf (hashTimes (puzzle.steps.toNat * puzzle.roundsPerStep.toNat) puzzle.seed) = key := by
  by_cases h : Overflows puzzle.steps puzzle.roundsPerStep
  · rw [solveKey_eq_error_iff.mpr ⟨h, rfl⟩]
    exact iff_of_false (fun hok => nomatch hok) (fun hall => hall.1 h)
  · obtain ⟨rounds, hrounds, hcount⟩ := rounds?_of_not_overflows h
    have hsolve : puzzle.solveKey = .ok (keyOf (puzzle.chain rounds)) := by
      rw [solveKey, hrounds]
      rfl
    rw [hsolve, Except.ok.injEq, and_iff_right h, chain, hcount]

theorem exists_solveKey (h : ¬ Overflows puzzle.steps puzzle.roundsPerStep) :
    ∃ key, puzzle.solveKey = .ok key :=
  ⟨_, solveKey_eq_ok_iff.mpr ⟨h, rfl⟩⟩

/-! ## Making -/

/-- A hash chain that is made: its seed is drawn, and its maker hashes as its solver will. -/
theorem generate_eq_some_iff :
    (generate steps roundsPerStep).run supply = some (.ok (puzzle, key), rest) ↔
      ∃ seed, Draw.bytes seedLength supply = some (seed, rest) ∧
        puzzle = ⟨seed, steps, roundsPerStep⟩ ∧ puzzle.solveKey = .ok key := by
  unfold generate
  rw [Draw.run_bind_eq_some_iff]
  constructor
  · rintro ⟨seed, left, hseed, hrun⟩
    rw [Draw.run_lift_eq_some_iff] at hseed
    unfold solveKey
    cases hrounds : rounds? ⟨seed, steps, roundsPerStep⟩ with
    | none =>
      simp only [hrounds] at hrun
      cases hrun
    | some rounds =>
      simp only [hrounds] at hrun
      obtain ⟨hok, rfl⟩ := Draw.pure_eq_some_iff.mp hrun
      cases hok
      refine ⟨seed, hseed, rfl, ?_⟩
      rw [hrounds]
      rfl
  · rintro ⟨seed, hseed, rfl, hkey⟩
    refine ⟨seed, rest, Draw.run_lift_eq_some_iff.mpr hseed, ?_⟩
    unfold solveKey at hkey
    cases hrounds : rounds? ⟨seed, steps, roundsPerStep⟩ with
    | none =>
      rw [hrounds] at hkey
      cases hkey
    | some rounds =>
      rw [hrounds] at hkey
      cases hkey
      simp only [hrounds]
      rfl

theorem exists_generate (h : ¬ Overflows steps roundsPerStep)
    (hsupply : seedLength ≤ supply.length) :
    ∃ puzzle key, (generate steps roundsPerStep).run supply =
      some (.ok (puzzle, key), supply.drop seedLength) := by
  obtain ⟨seed, hseed⟩ := Draw.exists_bytes hsupply
  have hsolve : ∃ key, solveKey ⟨seed, steps, roundsPerStep⟩ = .ok key := exists_solveKey h
  obtain ⟨key, hkey⟩ := hsolve
  exact ⟨_, key, generate_eq_some_iff.mpr ⟨seed, hseed, rfl, hkey⟩⟩

theorem generate_of_overflow (h : Overflows steps roundsPerStep)
    (hsupply : seedLength ≤ supply.length) :
    (generate steps roundsPerStep).run supply =
      some (.error (.puzzleCreate (.roundsOverflow steps roundsPerStep)),
        supply.drop seedLength) := by
  obtain ⟨seed, hseed⟩ := Draw.exists_bytes hsupply
  have hrounds : rounds? ⟨seed, steps, roundsPerStep⟩ = none := rounds?_eq_none_iff.mpr h
  rw [generate, Draw.run_bind_of_ok (Draw.run_lift_eq_some_iff.mpr hseed)]
  simp only [hrounds]
  rfl

end TimelockAuction.HashChainPuzzle
