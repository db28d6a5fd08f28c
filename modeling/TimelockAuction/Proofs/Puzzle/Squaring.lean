import Mathlib
import TimelockAuction.Puzzle.Squaring
import TimelockAuction.Proofs.PowMod
import TimelockAuction.Proofs.Random.Draw

/-!
# The trapdoor and the squarings lead to the same residue

The maker of a squaring puzzle shortens the exponent `2 ^ t` modulo `(p - 1) * (q - 1)`; the solver
squares `t` times. Both compute `base ^ 2 ^ t` modulo `p * q` if `p` and `q` are different primes and the
base has no factor in common with their product. What is drawn meets the last two conditions by
rejection, so all that is left to assume is that the factors are prime.

* `squareTimes_mod`: repeated squaring in closed form.
* `solveKey_eq_error_iff`, `solveKey_eq_ok_iff`: when solving fails, and which key it finds otherwise.
* `Trapdoor.shortcut_eq`: the shortcut in the same form, by Euler's theorem.
* `shortcut_eq_solution_of_generate`: the key that the maker gets is the key that the solver finds.
-/

namespace TimelockAuction

namespace SquaringPuzzle

/-! ## Closed forms -/

/-- Induction on the number of squarings; the exponent doubles because the first squaring is done on the
base. -/
theorem squareTimes_mod (n count x : Nat) :
    squareTimes n count (x % n) = x ^ 2 ^ count % n := by
  induction count generalizing x with
  | zero => rw [squareTimes, pow_zero, pow_one]
  | succ count ih =>
    rw [squareTimes, ← Nat.mul_mod, ih, ← pow_two, ← pow_mul, ← pow_succ']

theorem solution_eq (puzzle : SquaringPuzzle) :
    puzzle.solution = puzzle.base ^ 2 ^ puzzle.squarings.toNat % puzzle.modulus :=
  squareTimes_mod ..

/-! ## Solving -/

theorem solveKey_eq_error_iff {puzzle : SquaringPuzzle} {error : Error} :
    puzzle.solveKey = .error error ↔
      puzzle.modulus ≤ 1 ∧ error = .puzzleSolve .modulusTooSmall := by
  unfold solveKey
  by_cases h : puzzle.modulus ≤ 1
  · rw [if_pos h, and_iff_right h]
    constructor
    · intro herror
      cases herror
      rfl
    · intro herror
      rw [herror]
      rfl
  · rw [if_neg h]
    exact iff_of_false (fun herror => nomatch herror) (fun hall => h hall.1)

theorem solveKey_eq_ok_iff {puzzle : SquaringPuzzle} {key : Key} :
    puzzle.solveKey = .ok key ↔
      1 < puzzle.modulus ∧
        keyOf (puzzle.base ^ 2 ^ puzzle.squarings.toNat % puzzle.modulus) = key := by
  by_cases h : puzzle.modulus ≤ 1
  · rw [solveKey_eq_error_iff.mpr ⟨h, rfl⟩]
    exact iff_of_false (fun hok => nomatch hok) (fun hall => Nat.not_lt.mpr h hall.1)
  · have hsolve : puzzle.solveKey = .ok (keyOf puzzle.solution) := if_neg h
    rw [hsolve, Except.ok.injEq, and_iff_right (Nat.not_le.mp h), solution_eq]

namespace Trapdoor

/-- The number of residues without a factor in common with the modulus. -/
theorem totient_modulus {trapdoor : Trapdoor} (hp : trapdoor.p.Prime) (hq : trapdoor.q.Prime)
    (hne : trapdoor.p ≠ trapdoor.q) : trapdoor.modulus.totient = trapdoor.order := by
  rw [modulus, order, Nat.totient_mul ((Nat.coprime_primes hp hq).mpr hne),
    Nat.totient_prime hp, Nat.totient_prime hq]

theorem one_lt_modulus {trapdoor : Trapdoor} (hp : trapdoor.p.Prime) (hq : trapdoor.q.Prime) :
    1 < trapdoor.modulus :=
  Nat.one_lt_mul_iff.mpr ⟨hp.pos, hq.pos, Or.inl hp.one_lt⟩

/-- The shortened exponent gives the residue of the full one. -/
theorem shortcut_eq {trapdoor : Trapdoor} (hp : trapdoor.p.Prime) (hq : trapdoor.q.Prime)
    (hne : trapdoor.p ≠ trapdoor.q) {base : Nat} (hbase : base.Coprime trapdoor.modulus)
    (squarings : UInt64) :
    trapdoor.shortcut base squarings = base ^ 2 ^ squarings.toNat % trapdoor.modulus := by
  rw [shortcut, powMod_eq, powMod_eq, ← totient_modulus hp hq hne,
    ← Nat.pow_totient_mod (one_lt_modulus hp hq) hbase]

/-! ## What is drawn -/

/-- A drawn factor is a drawn number with three bits set. -/
theorem yields_drawPrime_of {bits : Nat} {P : Nat → Prop}
    (h : ∀ n < 2 ^ bits, P (n ||| 1 <<< (bits - 1) ||| 1 <<< (bits - 2) ||| 1)) :
    Draw.Yields (drawPrime bits) P := by
  refine Draw.Yields.untilSome ((Draw.yields_natural bits).bind fun n hn =>
    (Draw.yields_true _).bind fun accepted _ => Draw.yields_pure ?_)
  intro value hvalue
  split at hvalue
  · cases hvalue
    exact h n hn
  · cases hvalue

/-- A drawn factor has at most the wanted number of binary digits. -/
theorem yields_drawPrime {bits : Nat} (h : 0 < bits) : Draw.Yields (drawPrime bits) (· < 2 ^ bits) := by
  apply yields_drawPrime_of
  intro n hn
  have hhigh : 1 <<< (bits - 1) < 2 ^ bits := by
    rw [Nat.one_shiftLeft]
    exact Nat.pow_lt_pow_right (by decide) (by omega)
  have hnext : 1 <<< (bits - 2) < 2 ^ bits := by
    rw [Nat.one_shiftLeft]
    exact Nat.pow_lt_pow_right (by decide) (by omega)
  have hodd : 1 < 2 ^ bits := Nat.one_lt_two_pow (by omega)
  exact Nat.or_lt_two_pow (Nat.or_lt_two_pow (Nat.or_lt_two_pow hn hhigh) hnext) hodd

/-- The second factor is redrawn until it differs from the first. -/
theorem yields_draw_of {modulusBits : Nat} {P Q : Nat → Prop}
    (hp : Draw.Yields (drawPrime (modulusBits / 2)) P)
    (hq : Draw.Yields (drawPrime (modulusBits - modulusBits / 2)) Q) :
    Draw.Yields (draw modulusBits)
      (fun trapdoor => trapdoor.p ≠ trapdoor.q ∧ P trapdoor.p ∧ Q trapdoor.q) := by
  refine hp.bind fun p hp => ?_
  refine Draw.Yields.bind (Q := fun q => q ≠ p ∧ Q q) ?_
    fun q hq => Draw.yields_pure ⟨hq.1.symm, hp, hq.2⟩
  refine Draw.Yields.untilSome (hq.bind fun q hq => Draw.yields_pure ?_)
  intro value hvalue
  split at hvalue
  · cases hvalue
  · rename_i hne
    cases hvalue
    exact ⟨hne, hq⟩

/-- The product of the two factors has at most the wanted number of binary digits. -/
theorem yields_draw {modulusBits : Nat} (h : 2 ≤ modulusBits) :
    Draw.Yields (draw modulusBits)
      (fun trapdoor => trapdoor.p ≠ trapdoor.q ∧ trapdoor.modulus < 2 ^ modulusBits) := by
  intro supply trapdoor rest hdraw
  obtain ⟨hne, hp, hq⟩ :=
    yields_draw_of (yields_drawPrime (by omega)) (yields_drawPrime (by omega)) _ _ _ hdraw
  have hbits : modulusBits / 2 + (modulusBits - modulusBits / 2) = modulusBits := by omega
  refine ⟨hne, ?_⟩
  calc trapdoor.p * trapdoor.q < 2 ^ (modulusBits / 2) * 2 ^ (modulusBits - modulusBits / 2) :=
        Nat.mul_lt_mul'' hp hq
    _ = 2 ^ modulusBits := by rw [← Nat.pow_add, hbits]

end Trapdoor

/-- A base is redrawn until it has no factor in common with the modulus. -/
theorem yields_drawBase (modulus : Nat) :
    Draw.Yields (drawBase modulus)
      (fun base => base.Coprime modulus ∧ 2 ≤ base ∧ base < modulus) := by
  refine Draw.Yields.untilSome ((Draw.yields_range 2 modulus).bind fun base hrange =>
    Draw.yields_pure ?_)
  intro value hvalue
  split at hvalue
  · rename_i hgcd
    cases hvalue
    exact ⟨hgcd, hrange⟩
  · cases hvalue

theorem two_le_of_minModulusBits_le {modulusBits : UInt64} (h : minModulusBits ≤ modulusBits) :
    2 ≤ modulusBits.toNat :=
  le_trans (by decide) (UInt64.le_iff_toNat_le.mp h)

/-- A puzzle that is made: the factors are drawn first, then the base. -/
theorem generate_eq_some_iff {squarings modulusBits : UInt64} {supply rest : Bytes}
    {puzzle : SquaringPuzzle} {key : Key} :
    (generate squarings modulusBits).run supply = some (.ok (puzzle, key), rest) ↔
      minModulusBits ≤ modulusBits ∧ ∃ trapdoor left base,
        Trapdoor.draw modulusBits.toNat supply = some (trapdoor, left) ∧
        drawBase trapdoor.modulus left = some (base, rest) ∧
        puzzle = ⟨trapdoor.modulus, base, squarings⟩ ∧
        key = keyOf (trapdoor.shortcut base squarings) := by
  unfold generate
  by_cases hbits : modulusBits < minModulusBits
  · rw [if_pos hbits]
    constructor
    · intro h
      cases h
    · rintro ⟨hle, -⟩
      exact absurd hle (UInt64.not_le.mpr hbits)
  · rw [if_neg hbits]
    constructor
    · intro h
      obtain ⟨trapdoor, left, htrapdoor, h⟩ := Draw.run_bind_eq_some_iff.mp h
      obtain ⟨base, left', hbase, h⟩ := Draw.run_bind_eq_some_iff.mp h
      obtain ⟨hok, rfl⟩ := Draw.pure_eq_some_iff.mp h
      cases hok
      exact ⟨UInt64.not_lt.mp hbits, trapdoor, left, base, Draw.run_lift_eq_some_iff.mp htrapdoor,
        Draw.run_lift_eq_some_iff.mp hbase, rfl, rfl⟩
    · rintro ⟨-, trapdoor, left, base, htrapdoor, hbase, rfl, rfl⟩
      exact Draw.run_bind_eq_some_iff.mpr ⟨trapdoor, left, Draw.run_lift_eq_some_iff.mpr htrapdoor,
        Draw.run_bind_eq_some_iff.mpr ⟨base, rest, Draw.run_lift_eq_some_iff.mpr hbase, rfl⟩⟩

/-! ## Agreement -/

/-- A puzzle over different primes is solved to the key that the shortcut gives. -/
theorem solveKey_eq_keyOf_shortcut {trapdoor : Trapdoor} (hp : trapdoor.p.Prime)
    (hq : trapdoor.q.Prime) (hne : trapdoor.p ≠ trapdoor.q) {base : Nat}
    (hbase : base.Coprime trapdoor.modulus) (squarings : UInt64) :
    solveKey ⟨trapdoor.modulus, base, squarings⟩ =
      .ok (keyOf (trapdoor.shortcut base squarings)) := by
  rw [Trapdoor.shortcut_eq hp hq hne hbase]
  exact solveKey_eq_ok_iff.mpr ⟨Trapdoor.one_lt_modulus hp hq, rfl⟩

/-- **The shortcut agrees with the squarings.** Whenever a puzzle is made, from whatever supply, its
modulus is the product of the two factors that were drawn and its key comes from the shortcut through
them; if these factors are prime, the shortcut gives the residue that squaring one time after the other
gives, and solving the puzzle yields the key. -/
theorem shortcut_eq_solution_of_generate {squarings modulusBits : UInt64} {supply rest : Bytes}
    {puzzle : SquaringPuzzle} {key : Key}
    (hrun : (generate squarings modulusBits).run supply = some (.ok (puzzle, key), rest)) :
    ∃ trapdoor left, Trapdoor.draw modulusBits.toNat supply = some (trapdoor, left) ∧
      puzzle.modulus = trapdoor.p * trapdoor.q ∧ puzzle.squarings = squarings ∧
      key = keyOf (trapdoor.shortcut puzzle.base squarings) ∧
      (trapdoor.p.Prime → trapdoor.q.Prime →
        trapdoor.shortcut puzzle.base squarings = puzzle.solution ∧ puzzle.solveKey = .ok key) := by
  obtain ⟨hmin, trapdoor, left, base, htrapdoor, hbase, rfl, rfl⟩ := generate_eq_some_iff.mp hrun
  refine ⟨trapdoor, left, htrapdoor, rfl, rfl, rfl, fun hp hq => ?_⟩
  obtain ⟨hne, -⟩ := Trapdoor.yields_draw (two_le_of_minModulusBits_le hmin) _ _ _ htrapdoor
  have hcoprime := (yields_drawBase _ _ _ _ hbase).1
  constructor
  · rw [Trapdoor.shortcut_eq hp hq hne hcoprime, solution_eq]
  · exact solveKey_eq_keyOf_shortcut hp hq hne hcoprime squarings

/-- A supply that leads to the factors 193 and 197 and to the base 7. -/
def smallSupply : Bytes :=
  [0, 0, 0, 193] ++ (List.replicate 20 [0, 0, 0, 5]).flatten ++
    [0, 0, 0, 197] ++ (List.replicate 20 [0, 0, 0, 9]).flatten ++ [0, 0, 5, 0]

theorem draw_smallSupply : Trapdoor.draw 16 smallSupply = some (⟨193, 197⟩, [0, 0, 5, 0]) := by
  decide +kernel

theorem generate_smallSupply (squarings : UInt64) :
    (generate squarings 16).run smallSupply =
      some (.ok (⟨38021, 7, squarings⟩, keyOf (Trapdoor.shortcut ⟨193, 197⟩ 7 squarings)), []) := by
  have hbase : drawBase 38021 [0, 0, 5, 0] = some (7, []) := by decide +kernel
  exact generate_eq_some_iff.mpr ⟨by decide, _, _, 7, draw_smallSupply, hbase, rfl, rfl⟩

theorem shortcut_eq_solution_of_smallSupply :
    Trapdoor.shortcut ⟨193, 197⟩ 7 1000 = solution ⟨38021, 7, 1000⟩ ∧
      solveKey ⟨38021, 7, 1000⟩ = .ok (keyOf (Trapdoor.shortcut ⟨193, 197⟩ 7 1000)) := by
  obtain ⟨trapdoor, left, hdraw, -, -, -, hagree⟩ :=
    shortcut_eq_solution_of_generate (generate_smallSupply 1000)
  have htrapdoor : some (trapdoor, left) = some (⟨193, 197⟩, [0, 0, 5, 0]) :=
    hdraw.symm.trans draw_smallSupply
  cases htrapdoor
  exact hagree (by norm_num) (by norm_num)

end SquaringPuzzle

end TimelockAuction
