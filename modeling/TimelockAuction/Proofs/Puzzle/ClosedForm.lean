import Mathlib
import TimelockAuction.Proofs.Endian
import TimelockAuction.Proofs.Puzzle.HashChain
import TimelockAuction.Proofs.Puzzle.Squaring

/-!
# Sequential work in closed form

A puzzle that is received has not to be one that its maker would make: the base may be zero, share a factor
with the modulus or be greater than it, and the rounds may be split into steps in any way. What the solver
computes is the same expression all the same, a power of the base or so many hashes of the seed, and work
can be stopped at any step and taken up again from there.

* `squareTimes_add`, `hashTimes_add`: work in two parts.
* `hashTimes_eq_iterate`: the chain in closed form; for squarings it is `squareTimes_mod`.
* `SquaringPuzzle.solveKey_add`, `HashChainPuzzle.chain_chain`: both puzzles, taken up again.
* `solveKeys_in_closed_form`: all keys of both constructions.
-/

namespace TimelockAuction

theorem toNat_add_of_lt {first second : UInt64} (h : first.toNat + second.toNat < 2 ^ 64) :
    (first + second).toNat = first.toNat + second.toNat := by
  rw [UInt64.toNat_add, Nat.mod_eq_of_lt h]

/-! ## Squarings -/

namespace SquaringPuzzle

variable {modulus base other : Nat} {squarings first second : UInt64}

/-- Induction on the first part, which is done first. -/
theorem squareTimes_add (n first second x : Nat) :
    squareTimes n (first + second) x = squareTimes n second (squareTimes n first x) := by
  induction first generalizing x with
  | zero => rw [Nat.zero_add, squareTimes]
  | succ first ih => rw [Nat.succ_add, squareTimes, ih, squareTimes]

theorem solveKey_congr (h : base ≡ other [MOD modulus]) :
    solveKey ⟨modulus, base, squarings⟩ = solveKey ⟨modulus, other, squarings⟩ := by
  have hsolution : solution ⟨modulus, base, squarings⟩ = solution ⟨modulus, other, squarings⟩ :=
    congrArg (squareTimes modulus squarings.toNat) h
  rw [solveKey, solveKey, hsolution]

/-- The residue of the first part is the base of the second. -/
theorem solveKey_add (h : first.toNat + second.toNat < 2 ^ 64) :
    solveKey ⟨modulus, base, first + second⟩ =
      solveKey ⟨modulus, base ^ 2 ^ first.toNat % modulus, second⟩ := by
  have hsolution : solution ⟨modulus, base, first + second⟩ =
      solution ⟨modulus, base ^ 2 ^ first.toNat % modulus, second⟩ := by
    simp only [solution]
    rw [toNat_add_of_lt h, squareTimes_add, squareTimes_mod, Nat.mod_mod]
  rw [solveKey, solveKey, hsolution]

theorem exists_minimal_solveKey {puzzle : SquaringPuzzle} (h : 1 < puzzle.modulus) :
    ∃ bytes, BigEndian.IsMinimal bytes ∧
      BigEndian.toNat bytes = puzzle.base ^ 2 ^ puzzle.squarings.toNat % puzzle.modulus ∧
      puzzle.solveKey = .ok (Key.derive domain bytes) := by
  have hread := BigEndian.toNat_encode (puzzle.base ^ 2 ^ puzzle.squarings.toNat % puzzle.modulus)
  have hminimal := BigEndian.isMinimal_of_encode_toNat (congrArg BigEndian.encode hread)
  exact ⟨_, hminimal, hread, solveKey_eq_ok_iff.mpr ⟨h, rfl⟩⟩

end SquaringPuzzle

/-! ## Hash chains -/

namespace HashChainPuzzle

variable {seed : Vector UInt8 32} {steps roundsPerStep steps' roundsPerStep' first second : UInt64}

theorem hashTimes_eq_iterate (count : Nat) (state : Vector UInt8 32) :
    hashTimes count state = (fun state => Sha256.digest state.toList)^[count] state := by
  induction count generalizing state with
  | zero => rfl
  | succ count ih => rw [hashTimes, ih, Function.iterate_succ_apply]

theorem hashTimes_add (first second : Nat) (state : Vector UInt8 32) :
    hashTimes (first + second) state = hashTimes second (hashTimes first state) := by
  simp only [hashTimes_eq_iterate]
  rw [Nat.add_comm, Function.iterate_add_apply]

/-- The state behind the first part is the seed of the second. -/
theorem chain_chain (puzzle : HashChainPuzzle) (h : first.toNat + second.toNat < 2 ^ 64) :
    chain { puzzle with seed := puzzle.chain first } second = puzzle.chain (first + second) := by
  simp only [chain]
  rw [toNat_add_of_lt h, hashTimes_add]

theorem solveKey_eq_iterate {puzzle : HashChainPuzzle}
    (h : puzzle.steps.toNat * puzzle.roundsPerStep.toNat < 2 ^ 64) :
    puzzle.solveKey = .ok (Key.derive domain
      ((fun state => Sha256.digest state.toList)^[puzzle.steps.toNat * puzzle.roundsPerStep.toNat]
        puzzle.seed).toList) := by
  rw [← hashTimes_eq_iterate]
  exact solveKey_eq_ok_iff.mpr ⟨Nat.not_le.mpr h, rfl⟩

/-- The rounds count, and not how they are split into steps. -/
theorem solveKey_eq_of_rounds_eq (h : steps.toNat * roundsPerStep.toNat < 2 ^ 64)
    (heq : steps'.toNat * roundsPerStep'.toNat = steps.toNat * roundsPerStep.toNat) :
    solveKey ⟨seed, steps', roundsPerStep'⟩ = solveKey ⟨seed, steps, roundsPerStep⟩ := by
  have h' : steps'.toNat * roundsPerStep'.toNat < 2 ^ 64 := heq ▸ h
  rw [solveKey_eq_iterate h', solveKey_eq_iterate h]
  simp only [heq]

end HashChainPuzzle

/-! ## Both constructions -/

/-- **The work of every puzzle has a closed form**, also of one that no maker would make. A squaring puzzle
with a modulus above one hides the residue of its base to the power `2 ^ t`, in as few bytes as possible;
so only the residue of the base matters, and what is left to do after some squarings is a puzzle with the
residue that they lead to. A modulus of zero or one is always refused. A hash chain whose rounds fit in 64
bits hides its seed hashed that often; so how the rounds are split into steps does not matter, and a chain
can be run in two parts. -/
theorem solveKeys_in_closed_form :
    (∀ puzzle : SquaringPuzzle, 1 < puzzle.modulus → ∃ bytes, BigEndian.IsMinimal bytes ∧
      BigEndian.toNat bytes = puzzle.base ^ 2 ^ puzzle.squarings.toNat % puzzle.modulus ∧
      puzzle.solveKey = .ok (Key.derive SquaringPuzzle.domain bytes)) ∧
    (∀ (modulus base other : Nat) (squarings : UInt64), base ≡ other [MOD modulus] →
      SquaringPuzzle.solveKey ⟨modulus, base, squarings⟩ =
        SquaringPuzzle.solveKey ⟨modulus, other, squarings⟩) ∧
    (∀ (modulus base : Nat) (first second : UInt64), first.toNat + second.toNat < 2 ^ 64 →
      SquaringPuzzle.solveKey ⟨modulus, base, first + second⟩ =
        SquaringPuzzle.solveKey ⟨modulus, base ^ 2 ^ first.toNat % modulus, second⟩) ∧
    (∀ puzzle : SquaringPuzzle, puzzle.modulus ≤ 1 →
      puzzle.solveKey = .error (.puzzleSolve .modulusTooSmall)) ∧
    (∀ puzzle : HashChainPuzzle, puzzle.steps.toNat * puzzle.roundsPerStep.toNat < 2 ^ 64 →
      puzzle.solveKey = .ok (Key.derive HashChainPuzzle.domain
        ((fun state => Sha256.digest state.toList)^[puzzle.steps.toNat * puzzle.roundsPerStep.toNat]
          puzzle.seed).toList)) ∧
    (∀ (seed : Vector UInt8 32) (steps roundsPerStep steps' roundsPerStep' : UInt64),
      steps.toNat * roundsPerStep.toNat < 2 ^ 64 →
      steps'.toNat * roundsPerStep'.toNat = steps.toNat * roundsPerStep.toNat →
        HashChainPuzzle.solveKey ⟨seed, steps', roundsPerStep'⟩ =
          HashChainPuzzle.solveKey ⟨seed, steps, roundsPerStep⟩) ∧
    ∀ (puzzle : HashChainPuzzle) (first second : UInt64), first.toNat + second.toNat < 2 ^ 64 →
      HashChainPuzzle.chain { puzzle with seed := puzzle.chain first } second =
        puzzle.chain (first + second) := by
  refine ⟨?_, ?_, ?_, ?_, ?_, ?_, ?_⟩
  · intro puzzle hmodulus
    exact SquaringPuzzle.exists_minimal_solveKey hmodulus
  · intro modulus base other squarings hbase
    exact SquaringPuzzle.solveKey_congr hbase
  · intro modulus base first second hcount
    exact SquaringPuzzle.solveKey_add hcount
  · intro puzzle hmodulus
    exact SquaringPuzzle.solveKey_eq_error_iff.mpr ⟨hmodulus, rfl⟩
  · intro puzzle hrounds
    exact HashChainPuzzle.solveKey_eq_iterate hrounds
  · intro seed steps roundsPerStep steps' roundsPerStep' hrounds heq
    exact HashChainPuzzle.solveKey_eq_of_rounds_eq hrounds heq
  · intro puzzle first second hcount
    exact puzzle.chain_chain hcount

/-- A base that is greater than the modulus and shares a factor with it, a modulus of one, and chains of
twelve rounds. -/
theorem solveKeys_in_closed_form_at_edges :
    (∃ bytes, BigEndian.IsMinimal bytes ∧ BigEndian.toNat bytes = 40 ^ 2 ^ 3 % 15 ∧
      SquaringPuzzle.solveKey ⟨15, 40, 3⟩ = .ok (Key.derive SquaringPuzzle.domain bytes)) ∧
    SquaringPuzzle.solveKey ⟨15, 40, 3⟩ = SquaringPuzzle.solveKey ⟨15, 10, 3⟩ ∧
    SquaringPuzzle.solveKey ⟨15, 40, 1 + 2⟩ = SquaringPuzzle.solveKey ⟨15, 40 ^ 2 ^ 1 % 15, 2⟩ ∧
    SquaringPuzzle.solveKey ⟨1, 40, 3⟩ = .error (.puzzleSolve .modulusTooSmall) ∧
    HashChainPuzzle.solveKey ⟨.replicate 32 1, 6, 2⟩ = .ok (Key.derive HashChainPuzzle.domain
      ((fun state => Sha256.digest state.toList)^[6 * 2] (.replicate 32 1)).toList) ∧
    HashChainPuzzle.solveKey ⟨.replicate 32 1, 6, 2⟩ =
      HashChainPuzzle.solveKey ⟨.replicate 32 1, 4, 3⟩ ∧
    HashChainPuzzle.chain ⟨HashChainPuzzle.chain ⟨.replicate 32 1, 6, 2⟩ 5, 6, 2⟩ 7 =
      HashChainPuzzle.chain ⟨.replicate 32 1, 6, 2⟩ (5 + 7) := by
  obtain ⟨hkey, hresidue, hparts, hdegenerate, hchain, hsplit, hresumed⟩ := solveKeys_in_closed_form
  exact ⟨hkey ⟨15, 40, 3⟩ (by decide), hresidue 15 40 10 3 rfl, hparts 15 40 1 2 (by decide),
    hdegenerate ⟨1, 40, 3⟩ le_rfl, hchain ⟨.replicate 32 1, 6, 2⟩ (by decide),
    hsplit (.replicate 32 1) 4 3 6 2 (by decide) rfl,
    hresumed ⟨.replicate 32 1, 6, 2⟩ 5 7 (by decide)⟩

end TimelockAuction
