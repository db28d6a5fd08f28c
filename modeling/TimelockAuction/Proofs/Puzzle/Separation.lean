import Mathlib
import TimelockAuction.Proofs.Wire.SelfDelimiting
import TimelockAuction.Proofs.Envelope.Outcome

/-!
# No two solutions are hashed alike

The key of a puzzle is the digest of the name of its construction, the length of its solution and the
solution. The name has no length in front of it, so the names have to tell themselves apart: none of them
may go on where another one ends. Behind the name the solution is framed, and the frame gives it back.

* `Key.preimage_eq_iff`: what is hashed shows the name and the solution.
* `Puzzle.solveKey_eq_digest`: the key of a puzzle is the digest of what is hashed for it.
* `Puzzle.preimage_squaring_ne_hashChain`: the two constructions are apart.
* `Puzzle.preimages_are_separated`: names, constructions and solutions together.
-/

namespace TimelockAuction

/-! ## Names and solutions -/

/-- The second byte string begins with the first one and goes on. -/
def Bytes.IsProperPrefix (x y : Bytes) : Prop := x <+: y ∧ x ≠ y

instance (x y : Bytes) : Decidable (x.IsProperPrefix y) :=
  inferInstanceAs (Decidable (_ ∧ _))

/-- Of two beginnings of the same bytes one goes on where the other ends, or they are the same. -/
theorem Bytes.eq_of_prefix_of_prefix {x y bytes : Bytes} (hx : x <+: bytes) (hy : y <+: bytes)
    (hxy : ¬ x.IsProperPrefix y) (hyx : ¬ y.IsProperPrefix x) : x = y := by
  by_contra hne
  rcases List.prefix_or_prefix_of_prefix hx hy with h | h
  · exact hxy ⟨h, hne⟩
  · exact hyx ⟨h, Ne.symm hne⟩

namespace Key

theorem preimage_eq (domain material : Bytes) : preimage domain material = domain ++ frame material :=
  List.append_assoc ..

theorem preimage_eq_iff {domain other material content : Bytes}
    (h : ¬ domain.IsProperPrefix other) (hother : ¬ other.IsProperPrefix domain) :
    preimage domain material = preimage other content ↔ domain = other ∧ material = content := by
  rw [preimage_eq, preimage_eq]
  constructor
  · intro heq
    have hfront : other <+: domain ++ frame material := heq ▸ List.prefix_append other _
    obtain rfl := Bytes.eq_of_prefix_of_prefix (List.prefix_append domain _) hfront h hother
    exact ⟨rfl, frame_injective (List.append_cancel_left heq)⟩
  · rintro ⟨rfl, rfl⟩
    rfl

/-- A name that goes on where another one ends can pass for a length, so the condition is needed. -/
example : preimage [] (List.replicate 8 0) = preimage [8, 0, 0, 0, 0, 0, 0, 0] [] := by decide

/-- Under one name the solutions alone differ. -/
theorem preimage_inj {domain material content : Bytes} :
    preimage domain material = preimage domain content ↔ material = content := by
  have hself : ¬ domain.IsProperPrefix domain := fun h => h.2 rfl
  rw [preimage_eq_iff hself hself, and_iff_right rfl]

end Key

/-! ## Puzzles -/

namespace Puzzle

/-- The byte string whose digest is the key that a puzzle hides. -/
def preimage : Puzzle → Bytes
  | squaring puzzle => Key.preimage SquaringPuzzle.domain (BigEndian.encode puzzle.solution)
  | hashChain puzzle =>
    Key.preimage HashChainPuzzle.domain
      (HashChainPuzzle.hashTimes (puzzle.steps.toNat * puzzle.roundsPerStep.toNat) puzzle.seed).toList

/-- A puzzle that does not fail is solved by hashing its preimage. -/
theorem solveKey_eq_digest {puzzle : Puzzle} (h : ∀ fault, ¬ puzzle.Fails fault) :
    puzzle.solveKey = .ok (Sha256.digest puzzle.preimage) := by
  rw [solveKey_of_not_fails h]
  cases puzzle with
  | squaring puzzle =>
    rw [preimage, SquaringPuzzle.solution_eq]
    rfl
  | hashChain puzzle => rfl

theorem preimage_squaring_ne_hashChain (residues : SquaringPuzzle) (chain : HashChainPuzzle) :
    preimage (squaring residues) ≠ preimage (hashChain chain) := by
  have hsquaring : ¬ Bytes.IsProperPrefix SquaringPuzzle.domain HashChainPuzzle.domain := by
    decide +kernel
  have hchain : ¬ Bytes.IsProperPrefix HashChainPuzzle.domain SquaringPuzzle.domain := by
    decide +kernel
  have hdomain : SquaringPuzzle.domain ≠ HashChainPuzzle.domain := by decide +kernel
  intro heq
  exact hdomain ((Key.preimage_eq_iff hsquaring hchain).mp heq).1

theorem preimage_squaring_eq_iff {puzzle other : SquaringPuzzle} :
    preimage (squaring puzzle) = preimage (squaring other) ↔
      puzzle.base ^ 2 ^ puzzle.squarings.toNat % puzzle.modulus =
        other.base ^ 2 ^ other.squarings.toNat % other.modulus := by
  have hencode : Function.Injective BigEndian.encode :=
    Function.LeftInverse.injective BigEndian.toNat_encode
  rw [preimage, preimage, Key.preimage_inj, hencode.eq_iff, SquaringPuzzle.solution_eq,
    SquaringPuzzle.solution_eq]

theorem preimage_hashChain_eq_iff {puzzle other : HashChainPuzzle} :
    preimage (hashChain puzzle) = preimage (hashChain other) ↔
      HashChainPuzzle.hashTimes (puzzle.steps.toNat * puzzle.roundsPerStep.toNat) puzzle.seed =
        HashChainPuzzle.hashTimes (other.steps.toNat * other.roundsPerStep.toNat) other.seed := by
  rw [preimage, preimage, Key.preimage_inj, Vector.toList_inj]

/-- **Keys are hashed apart.** If neither of two names goes on where the other ends, the same bytes are
hashed only for the same name and the same solution. So no bytes are hashed for puzzles of different
constructions; for two squaring puzzles they are the same exactly if the residues are, and for two hash
chains exactly if the chains end in the same state. -/
theorem preimages_are_separated :
    (∀ domain other material content : Bytes,
      ¬ (domain <+: other ∧ domain ≠ other) → ¬ (other <+: domain ∧ other ≠ domain) →
        (Key.preimage domain material = Key.preimage other content ↔
          domain = other ∧ material = content)) ∧
    (∀ puzzle : Puzzle, (∀ fault, ¬ puzzle.Fails fault) →
      puzzle.solveKey = .ok (Sha256.digest puzzle.preimage)) ∧
    (∀ residues chain, preimage (squaring residues) ≠ preimage (hashChain chain)) ∧
    (∀ puzzle other : SquaringPuzzle,
      preimage (squaring puzzle) = preimage (squaring other) ↔
        puzzle.base ^ 2 ^ puzzle.squarings.toNat % puzzle.modulus =
          other.base ^ 2 ^ other.squarings.toNat % other.modulus) ∧
    ∀ puzzle other : HashChainPuzzle,
      preimage (hashChain puzzle) = preimage (hashChain other) ↔
        HashChainPuzzle.hashTimes (puzzle.steps.toNat * puzzle.roundsPerStep.toNat) puzzle.seed =
          HashChainPuzzle.hashTimes (other.steps.toNat * other.roundsPerStep.toNat) other.seed := by
  refine ⟨?_, fun _ => solveKey_eq_digest, preimage_squaring_ne_hashChain, ?_, ?_⟩
  · intro domain other material content h hother
    exact Key.preimage_eq_iff h hother
  · intro puzzle other
    exact preimage_squaring_eq_iff
  · intro puzzle other
    exact preimage_hashChain_eq_iff

end Puzzle

end TimelockAuction
