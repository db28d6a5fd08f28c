import Mathlib
import TimelockAuction.Puzzle.Basic
import TimelockAuction.Proofs.Wire.Grammar

/-!
# Spellings of puzzles

A hash chain has one spelling. A squaring puzzle has many, since its two numbers may be written with
leading zeros; its encoding writes them without. The tag in front says which construction follows.

* `Puzzle.accepts_decoder`: the decoder of puzzles takes spellings and nothing else.
* `Puzzle.spells_encode_iff`: the encoding of a puzzle is a spelling of it exactly if its numbers fit their
  frames.
-/

namespace TimelockAuction

/-! ## Squaring puzzles -/

namespace SquaringPuzzle

/-- The bytes spell the puzzle: the numbers are framed, with any leading zeros. -/
def Spells (puzzle : SquaringPuzzle) (bytes : Bytes) : Prop :=
  ∃ modulus base : Bytes, modulus.length < UInt64.size ∧ base.length < UInt64.size ∧
    BigEndian.toNat modulus = puzzle.modulus ∧ BigEndian.toNat base = puzzle.base ∧
    bytes = frame modulus ++ frame base ++ LittleEndian.encodeWord puzzle.squarings

theorem accepts_decoder : Decoder.Accepts decoder Spells := by
  refine (Decoder.accepts_framed.bind fun modulus => Decoder.accepts_framed.bind fun base =>
    Decoder.accepts_word.bind fun squarings => Decoder.accepts_pure _).congr fun puzzle bytes => ?_
  constructor
  · rintro ⟨modulus, _, _, ⟨hmodulus, rfl⟩, ⟨base, _, _, ⟨hbase, rfl⟩, ⟨squarings, _, _, rfl,
      ⟨rfl, rfl⟩, rfl⟩, rfl⟩, rfl⟩
    exact ⟨modulus, base, hmodulus, hbase, rfl, rfl, by simp⟩
  · rintro ⟨modulus, base, hmodulus, hbase, hm, hb, rfl⟩
    refine ⟨modulus, _, _, ⟨hmodulus, rfl⟩, ⟨base, _, _, ⟨hbase, rfl⟩, ⟨puzzle.squarings, _, _, rfl,
      ⟨?_, rfl⟩, rfl⟩, rfl⟩, ?_⟩
    · rw [hm, hb]
    · simp

/-- The shortest spellings of both numbers fit their frames. -/
def Fits (puzzle : SquaringPuzzle) : Prop :=
  (BigEndian.encode puzzle.modulus).length < UInt64.size ∧
    (BigEndian.encode puzzle.base).length < UInt64.size

theorem spells_encode {puzzle : SquaringPuzzle} (h : puzzle.Fits) : puzzle.Spells puzzle.encode :=
  ⟨_, _, h.1, h.2, BigEndian.toNat_encode _, BigEndian.toNat_encode _, rfl⟩

/-- A puzzle that can be spelled at all has numbers that fit, since nothing shorter stands for them. -/
theorem fits_of_spells {puzzle : SquaringPuzzle} {bytes : Bytes} (h : puzzle.Spells bytes) :
    puzzle.Fits := by
  obtain ⟨modulus, base, hmodulus, hbase, hm, hb, -⟩ := h
  have hone : 1 < UInt64.size := by decide
  constructor
  · have hle := BigEndian.length_encode_toNat_le modulus
    rw [hm] at hle
    omega
  · have hle := BigEndian.length_encode_toNat_le base
    rw [hb] at hle
    omega

end SquaringPuzzle

/-! ## Hash chains -/

namespace HashChainPuzzle

theorem accepts_decoder :
    Decoder.Accepts decoder (fun puzzle bytes => bytes = puzzle.encode) := by
  refine ((Decoder.accepts_take seedLength).bind fun seed => Decoder.accepts_word.bind fun steps =>
    Decoder.accepts_word.bind fun roundsPerStep => Decoder.accepts_pure _).congr
    fun puzzle bytes => ?_
  constructor
  · rintro ⟨seed, _, _, rfl, ⟨steps, _, _, rfl, ⟨roundsPerStep, _, _, rfl, ⟨rfl, rfl⟩, rfl⟩, rfl⟩,
      rfl⟩
    simp only [encode, List.append_nil, List.append_assoc]
    rfl
  · rintro rfl
    refine ⟨puzzle.seed, _, _, rfl, ⟨puzzle.steps, _, _, rfl, ⟨puzzle.roundsPerStep, _, _, rfl,
      ⟨rfl, rfl⟩, rfl⟩, rfl⟩, ?_⟩
    simp only [encode, List.append_nil, List.append_assoc]
    rfl

end HashChainPuzzle

/-! ## Tags -/

theorem PuzzleTag.ofCode?_eq_some_iff {code : UInt8} {tag : PuzzleTag} :
    ofCode? code = some tag ↔ tag.code = code := by
  constructor
  · intro h
    unfold ofCode? at h
    have hfound := List.find?_some h
    exact beq_iff_eq.mp hfound
  · rintro rfl
    cases tag <;> rfl

namespace Puzzle

/-- The bytes spell the puzzle behind its tag. -/
def SpellsPayload : Puzzle → Bytes → Prop
  | squaring puzzle, bytes => puzzle.Spells bytes
  | hashChain puzzle, bytes => bytes = puzzle.encode

/-- The bytes spell the puzzle: its tag, and then the puzzle in its construction. -/
def Spells (puzzle : Puzzle) (bytes : Bytes) : Prop :=
  ∃ payload, puzzle.SpellsPayload payload ∧ bytes = puzzle.tag.code :: payload

theorem accepts_payloadDecoder (tag : PuzzleTag) :
    Decoder.Accepts (payloadDecoder tag)
      (fun puzzle bytes => puzzle.tag = tag ∧ puzzle.SpellsPayload bytes) := by
  cases tag with
  | squaring =>
    refine (SquaringPuzzle.accepts_decoder.map squaring).congr fun puzzle bytes => ?_
    constructor
    · rintro ⟨puzzle, h, rfl⟩
      exact ⟨rfl, h⟩
    · rintro ⟨htag, h⟩
      cases puzzle with
      | squaring puzzle => exact ⟨puzzle, h, rfl⟩
      | hashChain puzzle => cases htag
  | hashChain =>
    refine (HashChainPuzzle.accepts_decoder.map hashChain).congr fun puzzle bytes => ?_
    constructor
    · rintro ⟨puzzle, h, rfl⟩
      exact ⟨rfl, h⟩
    · rintro ⟨htag, h⟩
      cases puzzle with
      | squaring puzzle => cases htag
      | hashChain puzzle => exact ⟨puzzle, h, rfl⟩

theorem accepts_decoder : Decoder.Accepts decoder Spells := by
  unfold decoder
  refine Decoder.Accepts.congr (Decoder.accepts_byte.bind fun code =>
    (?_ : Decoder.Accepts _
      fun puzzle bytes => puzzle.tag.code = code ∧ puzzle.SpellsPayload bytes)) ?_
  · cases htag : PuzzleTag.ofCode? code with
    | some tag =>
      refine (accepts_payloadDecoder tag).congr fun puzzle bytes => and_congr_left fun _ => ?_
      rw [← PuzzleTag.ofCode?_eq_some_iff, htag, Option.some.injEq, eq_comm]
    | none =>
      refine (Decoder.accepts_throw _).congr fun puzzle bytes => ⟨False.elim, ?_⟩
      rintro ⟨hcode, -⟩
      rw [PuzzleTag.ofCode?_eq_some_iff.mpr hcode] at htag
      cases htag
  · intro puzzle bytes
    constructor
    · rintro ⟨code, _, payload, rfl, ⟨rfl, hspells⟩, rfl⟩
      exact ⟨payload, hspells, rfl⟩
    · rintro ⟨payload, hspells, rfl⟩
      exact ⟨puzzle.tag.code, _, payload, rfl, ⟨rfl, hspells⟩, rfl⟩

/-- The numbers of a puzzle fit their frames. -/
def Fits : Puzzle → Prop
  | squaring puzzle => puzzle.Fits
  | hashChain _ => True

theorem spells_encode {puzzle : Puzzle} (h : puzzle.Fits) : puzzle.Spells puzzle.encode := by
  refine ⟨puzzle.payload, ?_, rfl⟩
  cases puzzle with
  | squaring puzzle => exact SquaringPuzzle.spells_encode h
  | hashChain puzzle => rfl

theorem fits_of_spells {puzzle : Puzzle} {bytes : Bytes} (h : puzzle.Spells bytes) :
    puzzle.Fits := by
  obtain ⟨payload, hpayload, -⟩ := h
  cases puzzle with
  | squaring puzzle => exact SquaringPuzzle.fits_of_spells hpayload
  | hashChain puzzle => trivial

theorem spells_encode_iff {puzzle : Puzzle} : puzzle.Spells puzzle.encode ↔ puzzle.Fits :=
  ⟨fits_of_spells, spells_encode⟩

end Puzzle

end TimelockAuction
