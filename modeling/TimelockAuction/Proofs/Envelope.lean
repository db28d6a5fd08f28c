import Mathlib
import TimelockAuction.Envelope
import TimelockAuction.Proofs.Order.Canonical
import TimelockAuction.Proofs.Puzzle.Creator

/-!
# Envelopes on the wire and solved

* `Envelope.decode_eq_ok_iff_spells`: a byte string decodes to the envelopes that it spells.
* `Envelope.decode_encode_iff`: the encoding of an envelope decodes to it, exactly if what is framed in it
  fits its frames.
* `Envelope.decode_encode_by_construction`: what this asks of each construction.
* `Envelope.solveOrder_eq_ok_iff`: an order is recovered from an envelope exactly if its encoding is the
  payload.
* `Envelope.decode_encode_of_enclose`, `Envelope.solveOrder_of_enclose`: a sealed order travels, and is
  recovered without its price.
-/

namespace TimelockAuction.Envelope

/-! ## Spellings -/

/-- The bytes spell the envelope: its framed ciphertext, a spelling of its puzzle, its auction. -/
def Spells (envelope : Envelope) (bytes : Bytes) : Prop :=
  ∃ puzzle : Bytes, envelope.ciphertext.length < UInt64.size ∧ envelope.puzzle.Spells puzzle ∧
    bytes = frame envelope.ciphertext ++ puzzle ++ envelope.auction.bytes.toList

theorem accepts_decoder : Decoder.Accepts decoder Spells := by
  refine (Decoder.accepts_framed.bind fun ciphertext => Puzzle.accepts_decoder.bind fun puzzle =>
    (Decoder.accepts_take AuctionOrder.auctionWidth).bind fun auction => Decoder.accepts_pure _).congr
    fun envelope bytes => ?_
  constructor
  · rintro ⟨ciphertext, _, _, ⟨hlength, rfl⟩, ⟨puzzle, spelling, _, hspelling, ⟨auction, _, _, rfl,
      ⟨rfl, rfl⟩, rfl⟩, rfl⟩, rfl⟩
    exact ⟨spelling, hlength, hspelling, by simp⟩
  · rintro ⟨spelling, hlength, hspelling, rfl⟩
    exact ⟨envelope.ciphertext, _, _, ⟨hlength, rfl⟩, ⟨envelope.puzzle, spelling, _, hspelling,
      ⟨envelope.auction.bytes, _, _, rfl, ⟨rfl, rfl⟩, rfl⟩, rfl⟩, by simp⟩

theorem decode_eq_ok_iff_spells {bytes : Bytes} {envelope : Envelope} :
    decode bytes = .ok envelope ↔ envelope.Spells bytes :=
  accepts_decoder.decodeAll_eq_ok_iff

theorem decode_encode_iff {envelope : Envelope} :
    decode envelope.encode = .ok envelope ↔
      envelope.ciphertext.length < UInt64.size ∧ envelope.puzzle.Fits := by
  rw [decode_eq_ok_iff_spells]
  constructor
  · rintro ⟨_, hlength, hspells, -⟩
    exact ⟨hlength, Puzzle.fits_of_spells hspells⟩
  · rintro ⟨hlength, hfits⟩
    exact ⟨_, hlength, Puzzle.spells_encode hfits, rfl⟩

theorem decode_encode {envelope : Envelope} (hlength : envelope.ciphertext.length < UInt64.size)
    (hpuzzle : envelope.puzzle.Fits) : decode envelope.encode = .ok envelope :=
  decode_encode_iff.mpr ⟨hlength, hpuzzle⟩

/-- **Envelopes come back as they were sent**, with the construction of their puzzle. An envelope with a
hash chain asks only that its ciphertext fits its frame. One with a squaring puzzle asks the same of its
two numbers, whichever they are: neither has to be a residue of the other, and both may be zero. -/
theorem decode_encode_by_construction (ciphertext : Bytes) (auction : AuctionId) :
    (∀ (modulus base : Nat) (squarings : UInt64),
      decode (encode ⟨ciphertext, .squaring ⟨modulus, base, squarings⟩, auction⟩) =
          .ok ⟨ciphertext, .squaring ⟨modulus, base, squarings⟩, auction⟩ ↔
        ciphertext.length < 2 ^ 64 ∧ (BigEndian.encode modulus).length < 2 ^ 64 ∧
          (BigEndian.encode base).length < 2 ^ 64) ∧
    ∀ (seed : Vector UInt8 32) (steps roundsPerStep : UInt64),
      decode (encode ⟨ciphertext, .hashChain ⟨seed, steps, roundsPerStep⟩, auction⟩) =
          .ok ⟨ciphertext, .hashChain ⟨seed, steps, roundsPerStep⟩, auction⟩ ↔
        ciphertext.length < 2 ^ 64 := by
  constructor
  · intro modulus base squarings
    exact decode_encode_iff
  · intro seed steps roundsPerStep
    exact decode_encode_iff.trans (and_iff_left trivial)

/-! ## Recovered orders -/

theorem solveOrder_eq_ok_iff {envelope : Envelope} {order : AuctionOrder} :
    envelope.solveOrder = .ok order ↔
      envelope.solveBytes = .ok order.encode ∧ order.orderbookPrice = .zero ∧
        order.signature.length < UInt64.size := by
  unfold solveOrder
  cases hsolve : envelope.solveBytes with
  | error error =>
    constructor
    · intro h
      cases h
    · rintro ⟨h, -⟩
      cases h
  | ok payload =>
    change (AuctionOrder.decode payload).mapError Error.decodeAfterSolve = .ok order ↔ _
    have hmap : (AuctionOrder.decode payload).mapError Error.decodeAfterSolve = .ok order ↔
        AuctionOrder.decode payload = .ok order := by
      cases AuctionOrder.decode payload <;> simp [Except.mapError]
    rw [hmap, AuctionOrder.decode_eq_ok_iff_encode, Except.ok.injEq]

/-! ## Sealed orders -/

section Sealed

variable {order : AuctionOrder} {steps : UInt64} {creator : PuzzleCreator} {supply rest : Bytes}
  {envelope : Envelope}

/-- Sealing makes a puzzle, locks the encoding of the order and names its auction outside. -/
theorem enclose_eq_some_iff :
    (enclose order steps creator).run supply = some (.ok envelope, rest) ↔
      (creator.create steps order.encode).run supply =
        some (.ok (envelope.ciphertext, envelope.puzzle), rest) ∧
      envelope.auction = order.auction := by
  unfold enclose
  rw [Draw.run_bind_eq_some_iff]
  constructor
  · rintro ⟨⟨ciphertext, puzzle⟩, left, hcreate, hpure⟩
    obtain ⟨hok, rfl⟩ := Draw.pure_eq_some_iff.mp hpure
    cases hok
    exact ⟨hcreate, rfl⟩
  · rintro ⟨hcreate, hauction⟩
    refine ⟨_, rest, hcreate, ?_⟩
    rw [← hauction]
    rfl

/-- An order that was sealed is short enough for every length field. -/
theorem length_of_enclose (h : (enclose order steps creator).run supply = some (.ok envelope, rest)) :
    order.signature.length < UInt64.size ∧ envelope.ciphertext.length < UInt64.size := by
  obtain ⟨hcreate, -⟩ := enclose_eq_some_iff.mp h
  obtain ⟨key, left, -, hlock⟩ := PuzzleCreator.create_eq_some_iff.mp hcreate
  obtain ⟨hmax, hlength⟩ := Sealed.length_of_lock hlock
  have hsignature : order.signature.length ≤ order.encode.length := by
    simp only [AuctionOrder.encode, frame, List.length_append]
    omega
  simp only [Gcm.maxPayload, Sealed.nonceLength, Sealed.tagLength] at hmax hlength
  unfold UInt64.size
  omega

/-- The puzzle of a sealed order is as its creator should make it. -/
theorem isMade_of_enclose (hprimes : creator.DrawsPrimes supply)
    (h : (enclose order steps creator).run supply = some (.ok envelope, rest)) :
    ∃ key, creator.IsMade steps envelope.puzzle key := by
  obtain ⟨hcreate, -⟩ := enclose_eq_some_iff.mp h
  obtain ⟨key, left, hgenerate, -⟩ := PuzzleCreator.create_eq_some_iff.mp hcreate
  exact ⟨key, PuzzleCreator.isMade_of_generate hprimes hgenerate⟩

/-- A sealed order arrives as it was sent. -/
theorem decode_encode_of_enclose (hprimes : creator.DrawsPrimes supply)
    (h : (enclose order steps creator).run supply = some (.ok envelope, rest)) :
    decode envelope.encode = .ok envelope := by
  obtain ⟨key, hmade⟩ := isMade_of_enclose hprimes h
  exact decode_encode (length_of_enclose h).2 hmade.fits

/-- A sealed order is recovered, without its price. -/
theorem solveOrder_of_enclose (hprimes : creator.DrawsPrimes supply)
    (h : (enclose order steps creator).run supply = some (.ok envelope, rest)) :
    envelope.solveOrder = .ok order.unpriced := by
  obtain ⟨hcreate, -⟩ := enclose_eq_some_iff.mp h
  have hsolve := PuzzleCreator.solve_of_create hprimes hcreate
  exact solveOrder_eq_ok_iff.mpr ⟨hsolve, rfl, (length_of_enclose h).1⟩

end Sealed

end TimelockAuction.Envelope
