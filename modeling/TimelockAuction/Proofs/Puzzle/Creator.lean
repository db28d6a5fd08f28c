import Mathlib
import TimelockAuction.Puzzle.Creator
import TimelockAuction.Proofs.Puzzle.Key
import TimelockAuction.Proofs.Puzzle.HashChain
import TimelockAuction.Proofs.Puzzle.Squaring
import TimelockAuction.Proofs.Puzzle.Wire

/-!
# What a creator seals, its puzzle opens

A creator knows the key of its puzzle before anyone has solved it: a squaring puzzle by its trapdoor, a
hash chain by doing the work. The trapdoor is right only if the two factors that were drawn are prime,
which the tests they passed do not prove; `PuzzleCreator.DrawsPrimes` says that they are.

* `PuzzleCreator.isMade_of_generate`: a made puzzle has the wanted work, fits its encoding and is solved
  to the key that the creator was given.
* `PuzzleCreator.create_eq_some_iff`: sealing makes a puzzle and locks the payload under its key.
* `PuzzleCreator.solve_of_create`: who solves the puzzle gets the payload back.
-/

namespace TimelockAuction

/-! ## Squaring puzzles -/

/-- The numbers of a puzzle fit their frames if its modulus has fewer than `2 ^ 64` binary digits. -/
theorem SquaringPuzzle.fits_of_lt {puzzle : SquaringPuzzle} {bits : Nat}
    (hbits : bits < UInt64.size) (hmodulus : puzzle.modulus < 2 ^ bits)
    (hbase : puzzle.base < puzzle.modulus) : puzzle.Fits := by
  have hsize : bits / 8 + 1 < UInt64.size := by
    unfold UInt64.size at hbits ⊢
    omega
  exact ⟨(BigEndian.length_encode_le hmodulus).trans_lt hsize,
    (BigEndian.length_encode_le (hbase.trans hmodulus)).trans_lt hsize⟩

namespace PuzzleCreator

variable {creator : PuzzleCreator} {steps : UInt64} {payload ciphertext supply rest : Bytes}
  {puzzle : Puzzle} {key : Key}

/-! ## Making -/

/-- How many hash rounds the creator puts in a step, where steps are made of rounds. -/
def roundsPerStep? : PuzzleCreator → Option UInt64
  | squaring _ => none
  | hashChain roundsPerStep => some roundsPerStep

/-- The two factors that the creator draws from the supply are prime, if it draws any. -/
def DrawsPrimes (creator : PuzzleCreator) (supply : Bytes) : Prop :=
  match creator with
  | squaring modulusBits => ∀ trapdoor rest,
      SquaringPuzzle.Trapdoor.draw modulusBits.toNat supply = some (trapdoor, rest) →
        trapdoor.p.Prime ∧ trapdoor.q.Prime
  | hashChain _ => True

/-- A puzzle as the creator should make it, with the key it hides. -/
structure IsMade (creator : PuzzleCreator) (steps : UInt64) (puzzle : Puzzle) (key : Key) :
    Prop where
  steps_eq : puzzle.steps = steps
  roundsPerStep?_eq : puzzle.roundsPerStep? = creator.roundsPerStep?
  fits : puzzle.Fits
  solveKey_eq : puzzle.solveKey = .ok key

theorem isMade_of_generate_squaring {modulusBits : UInt64} {made : SquaringPuzzle}
    (hprimes : (squaring modulusBits).DrawsPrimes supply)
    (hrun : (SquaringPuzzle.generate steps modulusBits).run supply = some (.ok (made, key), rest)) :
    (squaring modulusBits).IsMade steps (.squaring made) key := by
  obtain ⟨hmin, trapdoor, left, base, htrapdoor, hbase, rfl, rfl⟩ :=
    SquaringPuzzle.generate_eq_some_iff.mp hrun
  obtain ⟨hp, hq⟩ := hprimes trapdoor left htrapdoor
  obtain ⟨hne, hmodulus⟩ := SquaringPuzzle.Trapdoor.yields_draw
    (SquaringPuzzle.two_le_of_minModulusBits_le hmin) _ _ _ htrapdoor
  obtain ⟨hcoprime, -, hlt⟩ := SquaringPuzzle.yields_drawBase _ _ _ _ hbase
  exact ⟨rfl, rfl, SquaringPuzzle.fits_of_lt modulusBits.toNat_lt hmodulus hlt,
    SquaringPuzzle.solveKey_eq_keyOf_shortcut hp hq hne hcoprime steps⟩

theorem isMade_of_generate_hashChain {roundsPerStep : UInt64} {made : HashChainPuzzle}
    (hrun : (HashChainPuzzle.generate steps roundsPerStep).run supply =
      some (.ok (made, key), rest)) :
    (hashChain roundsPerStep).IsMade steps (.hashChain made) key := by
  obtain ⟨seed, -, rfl, hkey⟩ := HashChainPuzzle.generate_eq_some_iff.mp hrun
  exact ⟨rfl, rfl, trivial, hkey⟩

/-- Whatever a creator makes is solved to its key, if the factors that were drawn are prime. -/
theorem isMade_of_generate (hprimes : creator.DrawsPrimes supply)
    (hrun : (creator.generate steps).run supply = some (.ok (puzzle, key), rest)) :
    creator.IsMade steps puzzle key := by
  cases creator with
  | squaring modulusBits =>
    obtain ⟨⟨made, made'⟩, left, hmade, hpure⟩ := Draw.run_bind_eq_some_iff.mp hrun
    obtain ⟨hok, rfl⟩ := Draw.pure_eq_some_iff.mp hpure
    cases hok
    exact isMade_of_generate_squaring hprimes hmade
  | hashChain roundsPerStep =>
    obtain ⟨⟨made, made'⟩, left, hmade, hpure⟩ := Draw.run_bind_eq_some_iff.mp hrun
    obtain ⟨hok, rfl⟩ := Draw.pure_eq_some_iff.mp hpure
    cases hok
    exact isMade_of_generate_hashChain hmade

/-! ## Sealing -/

/-- Sealing makes a puzzle, and locks the payload under its key with what is left of the supply. -/
theorem create_eq_some_iff :
    (creator.create steps payload).run supply = some (.ok (ciphertext, puzzle), rest) ↔
      ∃ key left, (creator.generate steps).run supply = some (.ok (puzzle, key), left) ∧
        (Sealed.lock key payload).run left = some (.ok ciphertext, rest) := by
  unfold create
  rw [Draw.run_bind_eq_some_iff]
  constructor
  · rintro ⟨⟨made, key⟩, left, hgenerate, hrun⟩
    obtain ⟨locked, left', hlock, hpure⟩ := Draw.run_bind_eq_some_iff.mp hrun
    obtain ⟨hok, rfl⟩ := Draw.pure_eq_some_iff.mp hpure
    cases hok
    exact ⟨key, left, hgenerate, hlock⟩
  · rintro ⟨key, left, hgenerate, hlock⟩
    exact ⟨(puzzle, key), left, hgenerate,
      Draw.run_bind_eq_some_iff.mpr ⟨ciphertext, rest, hlock, rfl⟩⟩

/-- What was sealed is recovered by solving the puzzle. -/
theorem solve_of_create (hprimes : creator.DrawsPrimes supply)
    (hrun : (creator.create steps payload).run supply = some (.ok (ciphertext, puzzle), rest)) :
    puzzle.solve ciphertext = .ok payload := by
  obtain ⟨key, left, hgenerate, hlock⟩ := create_eq_some_iff.mp hrun
  rw [Puzzle.solve, (isMade_of_generate hprimes hgenerate).solveKey_eq]
  exact Sealed.unlock_of_lock hlock

end PuzzleCreator

end TimelockAuction
