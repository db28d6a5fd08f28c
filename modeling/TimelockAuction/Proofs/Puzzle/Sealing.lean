import Mathlib
import TimelockAuction.Proofs.Puzzle.Creator

/-!
# Sealing and solving are inverse

What a creator seals comes back to whoever solves its puzzle. On the way it is 28 bytes longer, for a nonce
and a tag. A creator of hash chains seals whatever the cipher takes, up to the number of rounds that can be
counted in 64 bits, and the solver draws the line at the same number.

* `PuzzleCreator.create_hashChain_of_overflow`, `PuzzleCreator.exists_create_hashChain`: when a creator of
  hash chains refuses to seal, and when it seals.
* `PuzzleCreator.solve_inverts_create`: both directions, for both constructions.
-/

namespace TimelockAuction.PuzzleCreator

open HashChainPuzzle (seedLength Overflows)
open Sealed (nonceLength tagLength)

/-! ## Whether a hash chain is sealed -/

section

variable {steps roundsPerStep : UInt64} {payload supply : Bytes}

/-- The refusal comes before the payload is looked at, and before the nonce is drawn. -/
theorem create_hashChain_of_overflow (h : Overflows steps roundsPerStep)
    (hsupply : seedLength ≤ supply.length) :
    ((hashChain roundsPerStep).create steps payload).run supply =
      some (.error (.puzzleCreate (.roundsOverflow steps roundsPerStep)),
        supply.drop seedLength) := by
  have hgenerate : ((hashChain roundsPerStep).generate steps).run supply = some (.error _, _) :=
    Draw.run_bind_of_error (HashChainPuzzle.generate_of_overflow h hsupply)
  exact Draw.run_bind_of_error hgenerate

theorem exists_create_hashChain (h : ¬ Overflows steps roundsPerStep)
    (hpayload : payload.length ≤ Gcm.maxPayload)
    (hsupply : seedLength + nonceLength ≤ supply.length) :
    ∃ ciphertext puzzle rest, ((hashChain roundsPerStep).create steps payload).run supply =
      some (.ok (ciphertext, puzzle), rest) := by
  have hseed : seedLength ≤ supply.length := by omega
  have hnonce : nonceLength ≤ (supply.drop seedLength).length := by
    rw [List.length_drop]
    omega
  obtain ⟨puzzle, key, hpuzzle⟩ := HashChainPuzzle.exists_generate h hseed
  obtain ⟨ciphertext, hlock⟩ := Sealed.exists_lock key hpayload hnonce
  have hgenerate : ((hashChain roundsPerStep).generate steps).run supply =
      some (.ok (.hashChain puzzle, key), supply.drop seedLength) :=
    Draw.run_bind_of_ok hpuzzle
  exact ⟨ciphertext, .hashChain puzzle, _, create_eq_some_iff.mpr ⟨key, _, hgenerate, hlock⟩⟩

theorem create_hashChain_fails_iff (steps roundsPerStep : UInt64)
    (hpayload : payload.length ≤ Gcm.maxPayload)
    (hsupply : seedLength + nonceLength ≤ supply.length) :
    (∃ error rest, ((hashChain roundsPerStep).create steps payload).run supply =
      some (.error error, rest)) ↔ Overflows steps roundsPerStep := by
  constructor
  · rintro ⟨error, rest, hfails⟩
    by_contra h
    obtain ⟨ciphertext, puzzle, left, hseals⟩ := exists_create_hashChain h hpayload hsupply
    cases hfails.symm.trans hseals
  · intro h
    have hseed : seedLength ≤ supply.length := by omega
    exact ⟨_, _, create_hashChain_of_overflow h hseed⟩

end

/-! ## Both directions -/

/-- A sealed payload is longer by a nonce and a tag, and its puzzle has the wanted work. -/
theorem length_and_steps_of_create {creator : PuzzleCreator} {steps : UInt64}
    {payload ciphertext supply rest : Bytes} {puzzle : Puzzle} (hprimes : creator.DrawsPrimes supply)
    (hrun : (creator.create steps payload).run supply = some (.ok (ciphertext, puzzle), rest)) :
    ciphertext.length = payload.length + (nonceLength + tagLength) ∧ puzzle.steps = steps := by
  obtain ⟨key, left, hgenerate, hlock⟩ := create_eq_some_iff.mp hrun
  exact ⟨(Sealed.length_of_lock hlock).2, (isMade_of_generate hprimes hgenerate).steps_eq⟩

/-- **Sealing and solving are inverse.** Whatever a creator seals, from whatever supply, its puzzle opens,
if the factors that it drew are prime. A creator of hash chains fails, on a payload that the cipher takes
and with a supply that has a seed and a nonce, exactly if its rounds cannot be counted in 64 bits, and
otherwise seals; solving a chain of these numbers fails in the same case, whatever its seed. -/
theorem solve_inverts_create (payload : Bytes) (steps : UInt64) :
    (∀ (creator : PuzzleCreator) (supply ciphertext : Bytes) (puzzle : Puzzle) (rest : Bytes),
      creator.DrawsPrimes supply →
      (creator.create steps payload).run supply = some (.ok (ciphertext, puzzle), rest) →
        puzzle.solve ciphertext = .ok payload ∧ ciphertext.length = payload.length + 28 ∧
          puzzle.steps = steps) ∧
    ∀ roundsPerStep : UInt64,
      (∀ supply : Bytes, payload.length ≤ 2 ^ 36 → 32 + 12 ≤ supply.length →
        ((∃ error rest, ((hashChain roundsPerStep).create steps payload).run supply =
            some (.error error, rest)) ↔ 2 ^ 64 ≤ steps.toNat * roundsPerStep.toNat) ∧
        ((∃ ciphertext puzzle rest, ((hashChain roundsPerStep).create steps payload).run supply =
            some (.ok (ciphertext, puzzle), rest)) ↔
          steps.toNat * roundsPerStep.toNat < 2 ^ 64)) ∧
      ∀ seed : Vector UInt8 32,
        (∃ fault, HashChainPuzzle.solveKey ⟨seed, steps, roundsPerStep⟩ =
            .error (.puzzleSolve fault)) ↔
          2 ^ 64 ≤ steps.toNat * roundsPerStep.toNat := by
  refine ⟨?_, fun roundsPerStep => ⟨?_, ?_⟩⟩
  · intro creator supply ciphertext puzzle rest hprimes hrun
    exact ⟨solve_of_create hprimes hrun, length_and_steps_of_create hprimes hrun⟩
  · intro supply hpayload hsupply
    have hfails := create_hashChain_fails_iff steps roundsPerStep hpayload hsupply
    refine ⟨hfails, ?_⟩
    constructor
    · rintro ⟨ciphertext, puzzle, rest, hseals⟩
      by_contra h
      obtain ⟨error, left, herror⟩ := hfails.mpr (Nat.not_lt.mp h)
      cases hseals.symm.trans herror
    · intro h
      exact exists_create_hashChain (Nat.not_le.mpr h) hpayload hsupply
  · intro seed
    constructor
    · rintro ⟨fault, hfault⟩
      exact (HashChainPuzzle.solveKey_eq_error_iff.mp hfault).1
    · intro h
      exact ⟨_, HashChainPuzzle.solveKey_eq_error_iff.mpr ⟨h, rfl⟩⟩

/-- A supply that leads to the factors 193 and 197, the base 7 and a nonce of zeros. -/
def sealingSupply : Bytes :=
  SquaringPuzzle.smallSupply ++ List.replicate 12 0

theorem draw_sealingSupply :
    SquaringPuzzle.Trapdoor.draw 16 sealingSupply =
      some (⟨193, 197⟩, [0, 0, 5, 0] ++ List.replicate 12 0) := by
  decide +kernel

theorem drawsPrimes_sealingSupply : (squaring 16).DrawsPrimes sealingSupply := by
  intro trapdoor rest hdraw
  cases hdraw.symm.trans draw_sealingSupply
  exact ⟨by norm_num, by norm_num⟩

theorem exists_create_sealingSupply (steps : UInt64) :
    ∃ ciphertext puzzle rest, ((squaring 16).create steps [1, 2, 3]).run sealingSupply =
      some (.ok (ciphertext, puzzle), rest) := by
  have hbase : SquaringPuzzle.drawBase 38021 ([0, 0, 5, 0] ++ List.replicate 12 0) =
      some (7, List.replicate 12 0) := by decide +kernel
  have hpuzzle : (SquaringPuzzle.generate steps 16).run sealingSupply = some (.ok (_, _), _) :=
    SquaringPuzzle.generate_eq_some_iff.mpr
      ⟨by decide, _, _, 7, draw_sealingSupply, hbase, rfl, rfl⟩
  have hgenerate : ((squaring 16).generate steps).run sealingSupply = some (.ok (_, _), _) :=
    Draw.run_bind_of_ok hpuzzle
  have hpayload : ([1, 2, 3] : Bytes).length ≤ Gcm.maxPayload := by decide
  have hnonce : nonceLength ≤ (List.replicate 12 0 : Bytes).length := by decide
  obtain ⟨ciphertext, hlock⟩ := Sealed.exists_lock _ hpayload hnonce
  exact ⟨ciphertext, _, _, create_eq_some_iff.mpr ⟨_, _, hgenerate, hlock⟩⟩

/-- A squaring puzzle of a thousand steps, a hash chain of one round too many, and one of as many rounds
as can be. -/
theorem solve_inverts_create_at_edges :
    (∃ ciphertext puzzle rest, ((squaring 16).create 1000 [1, 2, 3]).run sealingSupply =
        some (.ok (ciphertext, puzzle), rest) ∧
      puzzle.solve ciphertext = .ok [1, 2, 3] ∧ ciphertext.length = 31 ∧ puzzle.steps = 1000) ∧
    (∃ error rest, ((hashChain 0x100000000).create 0x100000000 [1, 2, 3]).run
      (List.replicate 44 0) = some (.error error, rest)) ∧
    (∃ ciphertext puzzle rest, ((hashChain 1).create 0xffffffffffffffff [1, 2, 3]).run
      (List.replicate 44 0) = some (.ok (ciphertext, puzzle), rest)) := by
  obtain ⟨ciphertext, puzzle, rest, hrun⟩ := exists_create_sealingSupply 1000
  have hsquaring := (solve_inverts_create [1, 2, 3] 1000).1 (squaring 16) sealingSupply ciphertext
    puzzle rest drawsPrimes_sealingSupply hrun
  have hbeyond := ((solve_inverts_create [1, 2, 3] 0x100000000).2 0x100000000).1
    (List.replicate 44 0) (by decide) (by decide)
  have hwithin := ((solve_inverts_create [1, 2, 3] 0xffffffffffffffff).2 1).1
    (List.replicate 44 0) (by decide) (by decide)
  exact ⟨⟨ciphertext, puzzle, rest, hrun, hsquaring⟩, hbeyond.1.mpr (by decide),
    hwithin.2.mpr (by decide)⟩

end TimelockAuction.PuzzleCreator
