import Mathlib
import TimelockAuction.Envelope
import TimelockAuction.Proofs.Wire.Extension
import TimelockAuction.Proofs.Order.Canonical

/-!
# Orders and envelopes are prefix-free

Neither format needs a mark of its end: the decoders of orders and of envelopes obey the extension law,
so that an accepted byte string is neither the front of another nor has one as its front. Of the bytes
they have read, the one refuses a side and the other a tag.

* `AuctionOrder.incremental_decoder`, `Envelope.incremental_decoder`: both read field after field.
* `AuctionOrder.extensionLaw`: the least length that is checked first does not break the law.
* `decoders_obey_extensionLaw`: both formats.
-/

namespace TimelockAuction

theorem Decoder.incremental_ofResult {α : Type} {refuses : Error → Prop} {result : Except Error α}
    (h : ∀ error, result = .error error → refuses error) :
    Decoder.Incremental (.ofResult result) refuses := by
  cases result with
  | ok value => exact Decoder.incremental_pure value
  | error error => exact Decoder.incremental_throw (h error rfl)

/-! ## Orders -/

/-- What the decoder of orders refuses: bytes that spell no side. -/
def Error.IsOfSide (error : Error) : Prop := ∃ text, error = .invalidSide text

theorem Error.refusesContent_isOfSide : RefusesContent Error.IsOfSide where
  not_trailing _ := fun ⟨_, h⟩ => nomatch h
  not_tooShort _ _ := fun ⟨_, h⟩ => nomatch h

theorem OrderSide.isOfSide_of_ofBytes {bytes : Bytes} {error : Error}
    (h : ofBytes bytes = .error error) : error.IsOfSide := by
  unfold ofBytes at h
  split at h
  · cases h
  · split at h
    · cases h
    · cases h
      exact ⟨_, rfl⟩

namespace AuctionOrder

theorem incremental_decoder : Decoder.Incremental decoder Error.IsOfSide :=
  (Decoder.incremental_take pubkeyWidth).bind fun _ =>
    (Decoder.incremental_take pairWidth).bind fun _ =>
    Decoder.incremental_word.bind fun _ => Decoder.incremental_word.bind fun _ =>
    Decoder.incremental_framed.bind fun _ =>
    (Decoder.incremental_ofResult fun _ => OrderSide.isOfSide_of_ofBytes).bind fun _ =>
    (Decoder.incremental_take auctionWidth).bind fun _ =>
    (Decoder.incremental_take nonceWidth).bind fun _ =>
    Decoder.incremental_framed.bind fun _ => Decoder.incremental_pure _

theorem decode_of_short {bytes : Bytes} (h : bytes.length < minLength) :
    decode bytes = .error (.tooShort minLength bytes.length) :=
  if_pos h

theorem decode_of_not_short {bytes : Bytes} (h : ¬ bytes.length < minLength) :
    decode bytes = Decoder.decodeAll decoder bytes :=
  if_neg h

/-- An input below the least length asks for that length until it has it. Any other goes to the decoder
of the fields, and so does what it goes on as. -/
theorem extensionLaw {bytes more : Bytes} (hmore : more ≠ []) (hlength : bytes.length < maxLength) :
    ExtensionLaw decode Error.IsOfSide bytes more := by
  by_cases hshort : bytes.length < minLength
  · refine .of_tooShort Error.refusesContent_isOfSide (decode_of_short hshort) hshort fun hstill => ?_
    rw [← List.length_append] at hstill ⊢
    exact decode_of_short hstill
  · have hlonger : ¬ (bytes ++ more).length < minLength := by
      rw [List.length_append]
      omega
    have law := incremental_decoder.extensionLaw Error.refusesContent_isOfSide hmore hlength
    exact law.congr (decode_of_not_short hshort) (decode_of_not_short hlonger)

end AuctionOrder

/-! ## Envelopes -/

/-- What the decoder of envelopes refuses: a tag that stands for no construction. -/
def Error.IsOfTag (error : Error) : Prop := ∃ tag, error = .unknownVariant tag

theorem Error.refusesContent_isOfTag : RefusesContent Error.IsOfTag where
  not_trailing _ := fun ⟨_, h⟩ => nomatch h
  not_tooShort _ _ := fun ⟨_, h⟩ => nomatch h

section

variable {refuses : Error → Prop}

theorem SquaringPuzzle.incremental_decoder : Decoder.Incremental decoder refuses :=
  Decoder.incremental_framed.bind fun _ => Decoder.incremental_framed.bind fun _ =>
    Decoder.incremental_word.bind fun _ => Decoder.incremental_pure _

theorem HashChainPuzzle.incremental_decoder : Decoder.Incremental decoder refuses :=
  (Decoder.incremental_take seedLength).bind fun _ => Decoder.incremental_word.bind fun _ =>
    Decoder.incremental_word.bind fun _ => Decoder.incremental_pure _

theorem Puzzle.incremental_payloadDecoder (tag : PuzzleTag) :
    Decoder.Incremental (payloadDecoder tag) refuses := by
  cases tag with
  | squaring => exact SquaringPuzzle.incremental_decoder.map squaring
  | hashChain => exact HashChainPuzzle.incremental_decoder.map hashChain

end

theorem Puzzle.incremental_decoder : Decoder.Incremental decoder Error.IsOfTag := by
  refine Decoder.incremental_byte.bind fun code => ?_
  cases PuzzleTag.ofCode? code with
  | some tag => exact incremental_payloadDecoder tag
  | none => exact Decoder.incremental_throw ⟨code, rfl⟩

namespace Envelope

theorem incremental_decoder : Decoder.Incremental decoder Error.IsOfTag :=
  Decoder.incremental_framed.bind fun _ => Puzzle.incremental_decoder.bind fun _ =>
    (Decoder.incremental_take AuctionOrder.auctionWidth).bind fun _ => Decoder.incremental_pure _

theorem extensionLaw {bytes more : Bytes} (hmore : more ≠ []) (hlength : bytes.length < maxLength) :
    ExtensionLaw decode Error.IsOfTag bytes more :=
  incremental_decoder.extensionLaw Error.refusesContent_isOfTag hmore hlength

end Envelope

/-! ## Both formats -/

/-- **Both decoders obey the extension law**, and so neither format has an accepted byte string in front
of another: what ends earlier is too short, and is not told to be longer than the accepted one. -/
theorem decoders_obey_extensionLaw (bytes more : Bytes) (hmore : more ≠ [])
    (hlength : bytes.length + more.length < 2 ^ 63) :
    ExtensionLaw AuctionOrder.decode (fun error => ∃ text, error = .invalidSide text) bytes more ∧
    ExtensionLaw Envelope.decode (fun error => ∃ tag, error = .unknownVariant tag) bytes more ∧
    (∀ order, AuctionOrder.decode (bytes ++ more) = .ok order →
      ∃ needed, AuctionOrder.decode bytes = .error (.tooShort needed bytes.length) ∧
        needed ≤ (bytes ++ more).length) ∧
    ∀ envelope, Envelope.decode (bytes ++ more) = .ok envelope →
      ∃ needed, Envelope.decode bytes = .error (.tooShort needed bytes.length) ∧
        needed ≤ (bytes ++ more).length := by
  have hfront : bytes.length < maxLength := by
    unfold maxLength UInt64.size
    omega
  have horder := AuctionOrder.extensionLaw hmore hfront
  have henvelope := Envelope.extensionLaw hmore hfront
  rw [List.length_append]
  exact ⟨horder, henvelope, fun _ h => horder.exists_tooShort h, fun _ h => henvelope.exists_tooShort h⟩

/-- An order to sell, with a signature of three bytes. -/
def soldOrder : AuctionOrder :=
  ⟨.zero, .sell, ⟨⟨1⟩, ⟨2⟩⟩, 5, 7, .zero, ⟨Vector.replicate 32 9⟩, .ofNumber 0, [1, 2, 3]⟩

/-- What is signed of an order is too short to be one. With a byte behind its end, the order as a whole
has one too many. -/
theorem soldOrder_obeys_extensionLaw :
    frame soldOrder.signature ≠ [] ∧
    soldOrder.signable.length + (frame soldOrder.signature).length < 2 ^ 63 ∧
    (∃ needed, AuctionOrder.decode soldOrder.signable = .error (.tooShort needed 97) ∧
      needed ≤ 108) ∧
    AuctionOrder.decode (soldOrder.encode ++ [0]) = .error (.trailingBytes 1) := by
  have haccepted : AuctionOrder.decode soldOrder.encode = .ok soldOrder :=
    AuctionOrder.decode_encode (by decide)
  have hmore : frame soldOrder.signature ≠ [] := by decide
  have hlength : soldOrder.signable.length + (frame soldOrder.signature).length < 2 ^ 63 := by decide
  obtain ⟨-, -, hshort, -⟩ :=
    decoders_obey_extensionLaw soldOrder.signable (frame soldOrder.signature) hmore hlength
  obtain ⟨hlaw, -⟩ := decoders_obey_extensionLaw soldOrder.encode [0] (by decide) (by decide)
  exact ⟨hmore, hlength, hshort soldOrder haccepted, hlaw.accepted soldOrder haccepted⟩

end TimelockAuction
