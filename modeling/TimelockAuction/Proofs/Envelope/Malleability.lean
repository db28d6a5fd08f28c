import Mathlib
import TimelockAuction.Proofs.Envelope
import TimelockAuction.Proofs.Wire.SelfDelimiting

/-!
# How a received envelope can be respelled

The fields of an envelope stand on the wire one after the other, and they can be read off in one way only.
Only the two numbers of a squaring puzzle can be written in more than one way, since they may begin with
zeros. So an envelope with a hash chain is encoded as it was received, and one with a squaring puzzle if
both of its numbers were written as the encoding writes them.

* `EnvelopeFields.eq_of_standIn`: the fields that stand in a byte string.
* `Envelope.decode_eq_ok_iff_fields`: an envelope is decoded from its fields.
* `EnvelopeFields.envelope_eq_iff`: which fields make the same envelope.
* `EnvelopeFields.encode_envelope_eq_iff`: when the fields are those that the encoding writes.
* `Envelope.encode_of_decode`: the encoding of a received envelope, and what else decodes to it.
-/

namespace TimelockAuction

/-! ## Fields of a puzzle -/

/-- A puzzle as it stands on the wire, with its numbers still byte strings. -/
inductive PuzzleFields
  | squaring (modulus base : Bytes) (squarings : UInt64)
  | hashChain (seed : Vector UInt8 32) (steps roundsPerStep : UInt64)
deriving DecidableEq

namespace PuzzleFields

/-- The puzzle that the fields stand for. -/
def puzzle : PuzzleFields → Puzzle
  | squaring modulus base squarings =>
    .squaring ⟨BigEndian.toNat modulus, BigEndian.toNat base, squarings⟩
  | hashChain seed steps roundsPerStep => .hashChain ⟨seed, steps, roundsPerStep⟩

/-- The tag and the fields behind it. -/
def bytes : PuzzleFields → Bytes
  | squaring modulus base squarings =>
    PuzzleTag.squaring.code ::
      (frame modulus ++ frame base ++ LittleEndian.encodeWord squarings)
  | hashChain seed steps roundsPerStep =>
    PuzzleTag.hashChain.code ::
      (seed.toList ++ LittleEndian.encodeWord steps ++ LittleEndian.encodeWord roundsPerStep)

/-- The numbers fit their frames. -/
def Fits : PuzzleFields → Prop
  | squaring modulus base _ => modulus.length < UInt64.size ∧ base.length < UInt64.size
  | hashChain .. => True

instance : (fields : PuzzleFields) → Decidable fields.Fits
  | squaring .. => inferInstanceAs (Decidable (_ ∧ _))
  | hashChain .. => inferInstanceAs (Decidable True)

/-- The numbers are written without leading zeros. -/
def IsMinimal : PuzzleFields → Prop
  | squaring modulus base _ => BigEndian.IsMinimal modulus ∧ BigEndian.IsMinimal base
  | hashChain .. => True

/-- The fields are the same, up to the way in which the numbers are written. -/
inductive Agree : PuzzleFields → PuzzleFields → Prop
  | squaring {modulus modulus' base base' : Bytes} (squarings : UInt64) :
      BigEndian.toNat modulus = BigEndian.toNat modulus' →
      BigEndian.toNat base = BigEndian.toNat base' →
      Agree (squaring modulus base squarings) (squaring modulus' base' squarings)
  | hashChain (seed : Vector UInt8 32) (steps roundsPerStep : UInt64) :
      Agree (hashChain seed steps roundsPerStep) (hashChain seed steps roundsPerStep)

/-- The fields with the numbers as they are encoded. -/
def rewritten : PuzzleFields → PuzzleFields
  | squaring modulus base squarings =>
    squaring (BigEndian.encode (BigEndian.toNat modulus)) (BigEndian.encode (BigEndian.toNat base))
      squarings
  | hashChain seed steps roundsPerStep => hashChain seed steps roundsPerStep

variable {x y fields : PuzzleFields} {rest others : Bytes}

theorem bytes_append_inj (hx : x.Fits) (hy : y.Fits) :
    x.bytes ++ rest = y.bytes ++ others ↔ x = y ∧ rest = others := by
  constructor
  · intro h
    cases x with
    | squaring modulus base squarings =>
      cases y with
      | squaring modulus' base' squarings' =>
        simp only [bytes, List.cons_append, List.append_assoc, List.cons.injEq, true_and] at h
        obtain ⟨hmodulus, h⟩ := (frame_append_inj hx.1 hy.1).mp h
        obtain ⟨hbase, h⟩ := (frame_append_inj hx.2 hy.2).mp h
        obtain ⟨hsquarings, hrest⟩ := LittleEndian.encodeWord_append_inj.mp h
        rw [hmodulus, hbase, hsquarings]
        exact ⟨rfl, hrest⟩
      | hashChain seed steps roundsPerStep =>
        have htag : PuzzleTag.squaring.code = PuzzleTag.hashChain.code := (List.cons.inj h).1
        exact absurd htag (by decide)
    | hashChain seed steps roundsPerStep =>
      cases y with
      | squaring modulus base squarings =>
        have htag : PuzzleTag.hashChain.code = PuzzleTag.squaring.code := (List.cons.inj h).1
        exact absurd htag (by decide)
      | hashChain seed' steps' roundsPerStep' =>
        simp only [bytes, List.cons_append, List.append_assoc, List.cons.injEq, true_and] at h
        obtain ⟨hseed, h⟩ := Bytes.toList_append_inj.mp h
        obtain ⟨hsteps, h⟩ := LittleEndian.encodeWord_append_inj.mp h
        obtain ⟨hrounds, hrest⟩ := LittleEndian.encodeWord_append_inj.mp h
        rw [hseed, hsteps, hrounds]
        exact ⟨rfl, hrest⟩
  · rintro ⟨rfl, rfl⟩
    rfl

theorem spells_iff {puzzle : Puzzle} {bytes : Bytes} :
    puzzle.Spells bytes ↔ ∃ fields : PuzzleFields, fields.Fits ∧ bytes = fields.bytes ∧
      fields.puzzle = puzzle := by
  constructor
  · rintro ⟨payload, hpayload, rfl⟩
    cases puzzle with
    | squaring puzzle =>
      obtain ⟨modulus, base, hmodulus, hbase, hm, hb, rfl⟩ := hpayload
      refine ⟨squaring modulus base puzzle.squarings, ⟨hmodulus, hbase⟩, rfl, ?_⟩
      rw [PuzzleFields.puzzle, hm, hb]
    | hashChain puzzle =>
      cases hpayload
      exact ⟨hashChain puzzle.seed puzzle.steps puzzle.roundsPerStep, trivial, rfl, rfl⟩
  · rintro ⟨fields, hfits, rfl, rfl⟩
    cases fields with
    | squaring modulus base squarings =>
      exact ⟨_, ⟨modulus, base, hfits.1, hfits.2, rfl, rfl, rfl⟩, rfl⟩
    | hashChain seed steps roundsPerStep => exact ⟨_, rfl, rfl⟩

theorem puzzle_eq_iff : x.puzzle = y.puzzle ↔ x.Agree y := by
  constructor
  · intro h
    cases x with
    | squaring modulus base squarings =>
      cases y with
      | squaring modulus' base' squarings' =>
        simp only [puzzle, Puzzle.squaring.injEq, SquaringPuzzle.mk.injEq] at h
        obtain ⟨hmodulus, hbase, rfl⟩ := h
        exact .squaring squarings hmodulus hbase
      | hashChain seed steps roundsPerStep => cases h
    | hashChain seed steps roundsPerStep =>
      cases y with
      | squaring modulus base squarings => cases h
      | hashChain seed' steps' roundsPerStep' =>
        cases h
        exact .hashChain seed steps roundsPerStep
  · intro h
    cases h with
    | squaring squarings hmodulus hbase => rw [puzzle, puzzle, hmodulus, hbase]
    | hashChain => rfl

/-! ### Numbers as they are encoded -/

theorem bytes_rewritten (fields : PuzzleFields) : fields.rewritten.bytes = fields.puzzle.encode := by
  cases fields <;> rfl

/-- The encoding of a number is no longer than what was read, unless nothing was. -/
theorem Fits.rewritten (h : fields.Fits) : fields.rewritten.Fits := by
  cases fields with
  | squaring modulus base squarings =>
    obtain ⟨hmodulus, hbase⟩ := h
    have hone : 1 < UInt64.size := by decide
    exact ⟨(BigEndian.length_encode_toNat_le modulus).trans_lt (max_lt hmodulus hone),
      (BigEndian.length_encode_toNat_le base).trans_lt (max_lt hbase hone)⟩
  | hashChain => trivial

theorem rewritten_eq_iff : fields.rewritten = fields ↔ fields.IsMinimal := by
  cases fields with
  | squaring modulus base squarings =>
    simp only [rewritten, squaring.injEq, and_true, BigEndian.encode_toNat_eq_iff]
    rfl
  | hashChain => exact iff_of_true rfl trivial

end PuzzleFields

/-! ## Fields of an envelope -/

/-- An envelope as it stands on the wire. -/
@[ext] structure EnvelopeFields where
  ciphertext : Bytes
  puzzle : PuzzleFields
  auction : AuctionId
deriving DecidableEq

namespace EnvelopeFields

/-- The envelope that the fields stand for. -/
def envelope (fields : EnvelopeFields) : Envelope :=
  ⟨fields.ciphertext, fields.puzzle.puzzle, fields.auction⟩

def bytes (fields : EnvelopeFields) : Bytes :=
  frame fields.ciphertext ++ fields.puzzle.bytes ++ fields.auction.bytes.toList

/-- The byte string is made of these fields, each of which fits its frame. -/
structure StandIn (fields : EnvelopeFields) (bytes : Bytes) : Prop where
  ciphertext_fits : fields.ciphertext.length < UInt64.size
  puzzle_fits : fields.puzzle.Fits
  bytes_eq : bytes = fields.bytes

/-- The fields are the same, up to the way in which the numbers of the puzzle are written. -/
structure Agree (x y : EnvelopeFields) : Prop where
  ciphertext : x.ciphertext = y.ciphertext
  puzzle : x.puzzle.Agree y.puzzle
  auction : x.auction = y.auction

variable {x y fields : EnvelopeFields} {bytes : Bytes}

/-- A byte string is made of one set of fields. -/
theorem eq_of_standIn (hx : x.StandIn bytes) (hy : y.StandIn bytes) : x = y := by
  have h : x.bytes = y.bytes := hx.bytes_eq.symm.trans hy.bytes_eq
  simp only [EnvelopeFields.bytes, List.append_assoc] at h
  obtain ⟨hciphertext, h⟩ := (frame_append_inj hx.ciphertext_fits hy.ciphertext_fits).mp h
  obtain ⟨hpuzzle, h⟩ := (PuzzleFields.bytes_append_inj hx.puzzle_fits hy.puzzle_fits).mp h
  have hauction : x.auction = y.auction := congrArg AuctionId.mk (Vector.toList_inj.mp h)
  exact EnvelopeFields.ext hciphertext hpuzzle hauction

theorem envelope_eq_iff : x.envelope = y.envelope ↔ x.Agree y := by
  rw [envelope, envelope, Envelope.mk.injEq, PuzzleFields.puzzle_eq_iff]
  exact ⟨fun ⟨hciphertext, hpuzzle, hauction⟩ => ⟨hciphertext, hpuzzle, hauction⟩,
    fun h => ⟨h.ciphertext, h.puzzle, h.auction⟩⟩

/-- The encoding writes the same fields, with the numbers as they are encoded. -/
theorem standIn_encode (h : fields.StandIn bytes) :
    ({ fields with puzzle := fields.puzzle.rewritten } : EnvelopeFields).StandIn
      fields.envelope.encode where
  ciphertext_fits := h.ciphertext_fits
  puzzle_fits := h.puzzle_fits.rewritten
  bytes_eq := by
    rw [EnvelopeFields.bytes, PuzzleFields.bytes_rewritten]
    rfl

theorem encode_envelope_eq_iff (h : fields.StandIn bytes) :
    fields.envelope.encode = bytes ↔ fields.puzzle.IsMinimal := by
  rw [← PuzzleFields.rewritten_eq_iff]
  have hencode := standIn_encode h
  constructor
  · intro heq
    rw [heq] at hencode
    exact congrArg EnvelopeFields.puzzle (eq_of_standIn hencode h)
  · intro heq
    rw [heq] at hencode
    exact hencode.bytes_eq.trans h.bytes_eq.symm

end EnvelopeFields

namespace Envelope

variable {bytes : Bytes} {envelope : Envelope}

theorem decode_eq_ok_iff_fields :
    decode bytes = .ok envelope ↔
      ∃ fields : EnvelopeFields, fields.StandIn bytes ∧ fields.envelope = envelope := by
  rw [decode_eq_ok_iff_spells]
  constructor
  · rintro ⟨spelling, hlength, hspelling, rfl⟩
    obtain ⟨puzzle, hfits, rfl, hpuzzle⟩ := PuzzleFields.spells_iff.mp hspelling
    refine ⟨⟨envelope.ciphertext, puzzle, envelope.auction⟩, ⟨hlength, hfits, rfl⟩, ?_⟩
    rw [EnvelopeFields.envelope, hpuzzle]
  · rintro ⟨fields, hstand, rfl⟩
    exact ⟨fields.puzzle.bytes, hstand.ciphertext_fits,
      PuzzleFields.spells_iff.mpr ⟨fields.puzzle, hstand.puzzle_fits, rfl, rfl⟩, hstand.bytes_eq⟩

/-- **How a received envelope can be respelled.** A byte string that decodes to an envelope is made of one
set of fields. With a hash chain in it, the envelope is encoded to the very bytes. With a squaring puzzle it
is so exactly if both numbers are written in at least one byte and without leading zeros. The byte strings
that decode to the same envelope are those with the same fields, up to the way in which these two numbers
are written. -/
theorem encode_of_decode (h : decode bytes = .ok envelope) :
    ∃ fields : EnvelopeFields, fields.StandIn bytes ∧
      (∀ others : EnvelopeFields, others.StandIn bytes → others = fields) ∧
      (∀ chain, envelope.puzzle = .hashChain chain → envelope.encode = bytes) ∧
      (∀ puzzle, envelope.puzzle = .squaring puzzle → ∃ modulus base squarings,
        fields.puzzle = .squaring modulus base squarings ∧
          (envelope.encode = bytes ↔ BigEndian.IsMinimal modulus ∧ BigEndian.IsMinimal base)) ∧
      ∀ other : Bytes, decode other = .ok envelope ↔
        ∃ others : EnvelopeFields, others.StandIn other ∧ fields.Agree others := by
  obtain ⟨fields, hstand, rfl⟩ := decode_eq_ok_iff_fields.mp h
  have hencode := EnvelopeFields.encode_envelope_eq_iff hstand
  refine ⟨fields, hstand, fun others hothers => EnvelopeFields.eq_of_standIn hothers hstand,
    ?_, ?_, ?_⟩
  · intro chain hchain
    rw [hencode]
    cases hfields : fields.puzzle with
    | squaring modulus base squarings =>
      rw [EnvelopeFields.envelope, hfields] at hchain
      cases hchain
    | hashChain seed steps roundsPerStep => trivial
  · intro puzzle hpuzzle
    rw [hencode]
    cases hfields : fields.puzzle with
    | squaring modulus base squarings => exact ⟨modulus, base, squarings, rfl, Iff.rfl⟩
    | hashChain seed steps roundsPerStep =>
      rw [EnvelopeFields.envelope, hfields] at hpuzzle
      cases hpuzzle
  · intro other
    rw [decode_eq_ok_iff_fields]
    refine exists_congr fun others => and_congr_right fun _ => ?_
    rw [eq_comm, EnvelopeFields.envelope_eq_iff]

/-- A squaring puzzle modulo 35 whose modulus begins with a zero byte and whose base is empty. -/
def paddedFields : EnvelopeFields :=
  ⟨[1, 2, 3], .squaring [0, 35] [] 4, ⟨Vector.replicate 32 9⟩⟩

theorem decode_paddedFields : decode paddedFields.bytes = .ok paddedFields.envelope :=
  decode_eq_ok_iff_fields.mpr ⟨paddedFields, ⟨by decide, by decide, rfl⟩, rfl⟩

/-- The envelope is not encoded to what was received, and both byte strings decode to it. -/
theorem paddedFields_respelled :
    decode paddedFields.bytes = .ok paddedFields.envelope ∧
    paddedFields.envelope.encode ≠ paddedFields.bytes ∧
    decode paddedFields.envelope.encode = .ok paddedFields.envelope := by
  obtain ⟨fields, hstand, hunique, -, hencode, hother⟩ := encode_of_decode decode_paddedFields
  obtain rfl : paddedFields = fields := hunique _ ⟨by decide, by decide, rfl⟩
  refine ⟨decode_paddedFields, ?_, ?_⟩
  · obtain ⟨modulus, base, squarings, hfields, hiff⟩ := hencode _ rfl
    cases hfields
    rw [Ne, hiff]
    decide
  · exact (hother _).mpr ⟨_, EnvelopeFields.standIn_encode hstand,
      ⟨rfl, .squaring 4 (by decide) (by decide), rfl⟩⟩

end Envelope

end TimelockAuction
