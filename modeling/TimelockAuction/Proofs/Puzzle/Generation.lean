import Mathlib
import TimelockAuction.Proofs.Puzzle.Squaring

/-!
# A made squaring puzzle is well formed whatever is drawn

Three bits of each factor are set and not drawn: the lowest, which makes it odd, and the two highest, which
make it at least three quarters of the least number that is too wide. As nine sixteenths are more than a half,
the product of two factors has all the binary digits that the two have together. The rest is by rejection. That
the factors are prime plays no part in it.

* `IsFullWidth.size_mul`: the width of a product.
* `SquaringPuzzle.IsWellFormed.exists_solveKey`: a well-formed puzzle can be solved.
* `SquaringPuzzle.isWellFormed_of_generate`: whatever is made is well formed.
-/

namespace TimelockAuction

/-! ## Factors -/

/-- An odd number of `bits` binary digits, of which the two highest are set. -/
structure IsFullWidth (bits n : Nat) : Prop where
  odd : Odd n
  three_mul_le : 3 * 2 ^ (bits - 2) ≤ n
  lt : n < 2 ^ bits

theorem odd_or_one (n : Nat) : Odd (n ||| 1) := by
  rw [Nat.odd_iff, Nat.mod_two_eq_one_iff_testBit_zero, Nat.testBit_or, Nat.testBit_one_zero,
    Bool.or_true]

/-- The two highest of `bits` binary digits. -/
theorem three_mul_two_pow_eq {bits : Nat} (h : 2 ≤ bits) :
    3 * 2 ^ (bits - 2) = 1 <<< (bits - 1) ||| 1 <<< (bits - 2) := by
  obtain ⟨k, rfl⟩ := Nat.exists_eq_add_of_le' h
  have hlt : 2 ^ k < 2 ^ (k + 1) := Nat.pow_lt_pow_right (by decide) (by omega)
  have hor := Nat.two_pow_add_eq_or_of_lt hlt 1
  rw [Nat.mul_one] at hor
  show 3 * 2 ^ k = 1 <<< (k + 1) ||| 1 <<< k
  rw [Nat.one_shiftLeft, Nat.one_shiftLeft, ← hor, pow_succ]
  omega

theorem yields_drawPrime_isFullWidth {bits : Nat} (h : 2 ≤ bits) :
    Draw.Yields (drawPrime bits) (IsFullWidth bits) := by
  intro supply p rest hdraw
  have hset : Draw.Yields (drawPrime bits) (fun p => Odd p ∧ 3 * 2 ^ (bits - 2) ≤ p) := by
    apply SquaringPuzzle.Trapdoor.yields_drawPrime_of
    intro n _
    refine ⟨odd_or_one _, ?_⟩
    rw [three_mul_two_pow_eq h, Nat.or_assoc n]
    exact Nat.right_le_or.trans Nat.left_le_or
  obtain ⟨hodd, hle⟩ := hset _ _ _ hdraw
  exact ⟨hodd, hle, SquaringPuzzle.Trapdoor.yields_drawPrime (by omega) _ _ _ hdraw⟩

/-- A number between two powers of two has as many binary digits as the greater has behind its first. -/
theorem size_eq_of_two_pow_le {n k : Nat} (hle : 2 ^ k ≤ n) (hlt : n < 2 ^ (k + 1)) :
    n.size = k + 1 :=
  Nat.le_antisymm (Nat.size_le.mpr hlt) (Nat.lt_size.mpr hle)

namespace IsFullWidth

variable {b c x y : Nat}

theorem size_eq (hb : 2 ≤ b) (hx : IsFullWidth b x) : x.size = b := by
  obtain ⟨k, rfl⟩ := Nat.exists_eq_add_of_le' hb
  have hle : 3 * 2 ^ k ≤ x := hx.three_mul_le
  apply size_eq_of_two_pow_le _ hx.lt
  rw [pow_succ]
  omega

/-- Three quarters of three quarters are more than a half. -/
theorem size_mul (hb : 2 ≤ b) (hc : 2 ≤ c) (hx : IsFullWidth b x) (hy : IsFullWidth c y) :
    (x * y).size = b + c := by
  obtain ⟨k, rfl⟩ := Nat.exists_eq_add_of_le' hb
  obtain ⟨l, rfl⟩ := Nat.exists_eq_add_of_le' hc
  have hxle : 3 * 2 ^ k ≤ x := hx.three_mul_le
  have hyle : 3 * 2 ^ l ≤ y := hy.three_mul_le
  have hwidth : k + 2 + (l + 2) = k + l + 3 + 1 := by omega
  rw [hwidth]
  apply size_eq_of_two_pow_le
  · calc 2 ^ (k + l + 3) = 8 * 2 ^ (k + l) := by rw [pow_add, mul_comm]; rfl
      _ ≤ 9 * 2 ^ (k + l) := Nat.mul_le_mul_right _ (by decide)
      _ = 3 * 2 ^ k * (3 * 2 ^ l) := by rw [pow_add]; ring
      _ ≤ x * y := Nat.mul_le_mul hxle hyle
  · rw [← hwidth, pow_add]
    exact Nat.mul_lt_mul'' hx.lt hy.lt

end IsFullWidth

/-! ## Puzzles -/

namespace SquaringPuzzle

variable {squarings modulusBits : UInt64} {supply rest : Bytes} {puzzle : SquaringPuzzle} {key : Key}

/-- The modulus has the wanted width and is the product of two different odd numbers, each of half the
width, and the base is a residue without a factor in common with it. -/
structure IsWellFormed (modulusBits : Nat) (puzzle : SquaringPuzzle) : Prop where
  size_modulus : puzzle.modulus.size = modulusBits
  odd_modulus : Odd puzzle.modulus
  exists_factors : ∃ p q, puzzle.modulus = p * q ∧ p ≠ q ∧ Odd p ∧ Odd q ∧
    p.size = modulusBits / 2 ∧ q.size = modulusBits - modulusBits / 2
  two_le_base : 2 ≤ puzzle.base
  base_lt : puzzle.base < puzzle.modulus
  coprime : puzzle.base.gcd puzzle.modulus = 1

/-- A modulus above a base is not refused. -/
theorem IsWellFormed.exists_solveKey {bits : Nat} (h : puzzle.IsWellFormed bits) :
    ∃ found, puzzle.solveKey = .ok found := by
  have hlow : 1 < puzzle.base := h.two_le_base
  have hmodulus : 1 < puzzle.modulus := hlow.trans h.base_lt
  exact ⟨_, solveKey_eq_ok_iff.mpr ⟨hmodulus, rfl⟩⟩

theorem Trapdoor.yields_draw_isFullWidth {bits : Nat} (h : 4 ≤ bits) :
    Draw.Yields (draw bits) (fun trapdoor => trapdoor.p ≠ trapdoor.q ∧
      IsFullWidth (bits / 2) trapdoor.p ∧ IsFullWidth (bits - bits / 2) trapdoor.q) :=
  yields_draw_of (yields_drawPrime_isFullWidth (by omega)) (yields_drawPrime_isFullWidth (by omega))

/-- **A made puzzle is well formed whatever is drawn.** Whenever a puzzle is made, its modulus has exactly the
wanted number of binary digits, even or odd, and is the product of two different odd numbers of half the width;
its base is a residue from two on without a factor in common with it; and it has the wanted number of
squarings. So solving it never fails. Nothing is assumed of the supply, and the two factors need not be
prime. -/
theorem isWellFormed_of_generate
    (hrun : (generate squarings modulusBits).run supply = some (.ok (puzzle, key), rest)) :
    puzzle.IsWellFormed modulusBits.toNat ∧ puzzle.squarings = squarings ∧
      ∃ found, puzzle.solveKey = .ok found := by
  obtain ⟨hmin, trapdoor, left, base, hdraw, hbase, rfl, rfl⟩ := generate_eq_some_iff.mp hrun
  have hbits : 16 ≤ modulusBits.toNat := UInt64.le_iff_toNat_le.mp hmin
  obtain ⟨hne, hp, hq⟩ := Trapdoor.yields_draw_isFullWidth (by omega) _ _ _ hdraw
  obtain ⟨hcoprime, hlow, hhigh⟩ := yields_drawBase _ _ _ _ hbase
  have hwidth : modulusBits.toNat / 2 + (modulusBits.toNat - modulusBits.toNat / 2) =
      modulusBits.toNat := by omega
  have hsize : trapdoor.modulus.size = modulusBits.toNat := by
    rw [Trapdoor.modulus, hp.size_mul (by omega) (by omega) hq, hwidth]
  have hfactors : ∃ p q, trapdoor.modulus = p * q ∧ p ≠ q ∧ Odd p ∧ Odd q ∧
      p.size = modulusBits.toNat / 2 ∧ q.size = modulusBits.toNat - modulusBits.toNat / 2 :=
    ⟨trapdoor.p, trapdoor.q, rfl, hne, hp.odd, hq.odd, hp.size_eq (by omega), hq.size_eq (by omega)⟩
  have hformed : IsWellFormed modulusBits.toNat ⟨trapdoor.modulus, base, squarings⟩ :=
    ⟨hsize, hp.odd.mul hq.odd, hfactors, hlow, hhigh, hcoprime⟩
  exact ⟨hformed, rfl, hformed.exists_solveKey⟩

/-- A supply that leads to the factors 193 and 389 and to the base 7. -/
def oddSupply : Bytes :=
  [0, 0, 0, 193] ++ (List.replicate 20 [0, 0, 0, 5]).flatten ++
    [0, 0, 0x80, 0xc2] ++ (List.replicate 20 [0, 0, 0x80, 4]).flatten ++ [0, 0x80, 2, 0]

theorem generate_oddSupply (squarings : UInt64) :
    (generate squarings 17).run oddSupply =
      some (.ok (⟨75077, 7, squarings⟩, keyOf (Trapdoor.shortcut ⟨193, 389⟩ 7 squarings)), []) := by
  have hdraw : Trapdoor.draw 17 oddSupply = some (⟨193, 389⟩, [0, 0x80, 2, 0]) := by decide +kernel
  have hbase : drawBase 75077 [0, 0x80, 2, 0] = some (7, []) := by decide +kernel
  exact generate_eq_some_iff.mpr ⟨by decide, _, _, 7, hdraw, hbase, rfl, rfl⟩

/-- A modulus of seventeen binary digits, eight of one factor and nine of the other. -/
theorem isWellFormed_of_oddSupply :
    (generate 1000 17).run oddSupply =
      some (.ok (⟨75077, 7, 1000⟩, keyOf (Trapdoor.shortcut ⟨193, 389⟩ 7 1000)), []) ∧
    IsWellFormed 17 ⟨75077, 7, 1000⟩ ∧ ∃ found, solveKey ⟨75077, 7, 1000⟩ = .ok found := by
  have hrun := generate_oddSupply 1000
  obtain ⟨hformed, -, hfound⟩ := isWellFormed_of_generate hrun
  exact ⟨hrun, hformed, hfound⟩

end SquaringPuzzle

end TimelockAuction
