import TimelockAuction.Order.Codec
import TimelockAuction.Proofs.Wire.Grammar

/-!
# The one encoding of an order

Every field of an order is spelled in one way, so an order has one encoding and a byte string encodes at
most one order.

* `AuctionOrder.accepts_decoder`: the decoder of orders takes encodings and nothing else.
* `AuctionOrder.decode_eq_ok_iff_encode`: the byte strings that decode to an order are its encoding, if
  the order is unpriced and its signature fits its frame.
-/

namespace TimelockAuction

theorem Decoder.accepts_ofResult {α : Type} (result : Except Error α) :
    Decoder.Accepts (.ofResult result) (fun v bytes => result = .ok v ∧ bytes = []) := by
  intro r v next
  change ((result, r) = (.ok v, next)) ↔ _
  constructor
  · intro h
    cases h
    exact ⟨[], ⟨rfl, rfl⟩, Reader.passes_nil_iff.mpr rfl⟩
  · rintro ⟨_, ⟨rfl, rfl⟩, h⟩
    rw [Reader.passes_nil_iff.mp h]

/-! ## Spellings of the fields -/

theorem OrderSide.ofBytes_eq_ok_iff {bytes : Bytes} {side : OrderSide} :
    OrderSide.ofBytes bytes = .ok side ↔ bytes = side.wireBytes := by
  unfold OrderSide.ofBytes
  by_cases hbuy : bytes = wireBytes buy
  · rw [if_pos hbuy, hbuy]
    cases side <;> decide
  · rw [if_neg hbuy]
    by_cases hsell : bytes = wireBytes sell
    · rw [if_pos hsell, hsell]
      cases side <;> decide
    · rw [if_neg hsell]
      constructor
      · intro h
        cases h
      · intro h
        cases side with
        | buy => exact absurd h hbuy
        | sell => exact absurd h hsell

theorem OrderSide.length_wireBytes_lt (side : OrderSide) :
    side.wireBytes.length < UInt64.size := by
  cases side <;> decide

namespace TradingPair

theorem toBytes_ofBytes (bytes : Vector UInt8 2) : (ofBytes bytes).toBytes = bytes.toList := by
  have hlength : bytes.toList.length = 2 := Vector.length_toList
  obtain ⟨x, y, hxy⟩ := List.length_eq_two.mp hlength
  have h₀ : bytes[0] = x := by rw [← Vector.getElem_toList (by simp)]; simp [hxy]
  have h₁ : bytes[1] = y := by rw [← Vector.getElem_toList (by simp)]; simp [hxy]
  rw [toBytes, ofBytes, h₀, h₁, hxy]

theorem length_toBytes (pair : TradingPair) : pair.toBytes.length = 2 := rfl

theorem ofBytes_toBytes (pair : TradingPair) :
    ofBytes (Bytes.toVector pair.toBytes pair.length_toBytes) = pair := rfl

end TradingPair

namespace AuctionOrder

@[simp] theorem length_signable (order : AuctionOrder) :
    order.signable.length = 93 + order.side.wireBytes.length := by
  simp [signable, frame, TradingPair.toBytes]
  omega

theorem minLength_le_length_encode (order : AuctionOrder) :
    minLength ≤ order.encode.length := by
  simp only [minLength, pubkeyWidth, pairWidth, wordWidth, auctionWidth, nonceWidth, encode, frame,
    List.length_append, length_signable, LittleEndian.length_encodeWord]
  omega

/-! ## Decoding -/

/-- The decoder of orders takes the encodings of unpriced orders and nothing else. -/
theorem accepts_decoder :
    Decoder.Accepts decoder (fun order bytes =>
      bytes = order.encode ∧ order.orderbookPrice = .zero ∧
        order.signature.length < UInt64.size) := by
  refine ((Decoder.accepts_take pubkeyWidth).bind fun pubkey =>
    (Decoder.accepts_take pairWidth).bind fun pair =>
    Decoder.accepts_word.bind fun amountHave => Decoder.accepts_word.bind fun amountWant =>
    Decoder.accepts_framed.bind fun sideBytes =>
    (Decoder.accepts_ofResult (OrderSide.ofBytes sideBytes)).bind fun side =>
    (Decoder.accepts_take auctionWidth).bind fun auction =>
    (Decoder.accepts_take nonceWidth).bind fun nonce =>
    Decoder.accepts_framed.bind fun signature => Decoder.accepts_pure _).congr fun order bytes => ?_
  constructor
  · rintro ⟨pubkey, _, _, rfl, ⟨pair, _, _, rfl, ⟨amountHave, _, _, rfl, ⟨amountWant, _, _, rfl,
      ⟨sideBytes, _, _, ⟨-, rfl⟩, ⟨side, _, _, ⟨hside, rfl⟩, ⟨auction, _, _, rfl,
      ⟨nonce, _, _, rfl, ⟨signature, _, _, ⟨hsignature, rfl⟩, ⟨rfl, rfl⟩, rfl⟩, rfl⟩, rfl⟩, rfl⟩,
      rfl⟩, rfl⟩, rfl⟩, rfl⟩, rfl⟩
    refine ⟨?_, rfl, hsignature⟩
    rw [OrderSide.ofBytes_eq_ok_iff] at hside
    simp [encode, signable, hside, TradingPair.toBytes_ofBytes]
  · rintro ⟨rfl, hprice, hsignature⟩
    refine ⟨order.pubkey.bytes, _, _, rfl,
      ⟨Bytes.toVector order.pair.toBytes order.pair.length_toBytes, _, _, rfl,
      ⟨order.amountHave, _, _, rfl, ⟨order.amountWant, _, _, rfl,
      ⟨order.side.wireBytes, _, _, ⟨order.side.length_wireBytes_lt, rfl⟩,
      ⟨order.side, _, _, ⟨OrderSide.ofBytes_eq_ok_iff.mpr rfl, rfl⟩,
      ⟨order.auction.bytes, _, _, rfl, ⟨order.nonce.bytes, _, _, rfl,
      ⟨order.signature, _, _, ⟨hsignature, rfl⟩, ⟨?_, rfl⟩, rfl⟩, rfl⟩, rfl⟩, rfl⟩, rfl⟩, rfl⟩, rfl⟩,
      rfl⟩, ?_⟩
    · rw [← hprice, TradingPair.ofBytes_toBytes]
    · simp [encode, signable]

theorem decode_eq_ok_iff_encode {bytes : Bytes} {order : AuctionOrder} :
    decode bytes = .ok order ↔
      bytes = order.encode ∧ order.orderbookPrice = .zero ∧
        order.signature.length < UInt64.size := by
  unfold decode
  by_cases hshort : bytes.length < minLength
  · rw [if_pos hshort]
    constructor
    · intro h
      cases h
    · rintro ⟨rfl, -, -⟩
      exact absurd hshort (Nat.not_lt.mpr order.minLength_le_length_encode)
  · rw [if_neg hshort]
    exact accepts_decoder.decodeAll_eq_ok_iff

theorem encode_unpriced (order : AuctionOrder) : order.unpriced.encode = order.encode := rfl

theorem decode_encode {order : AuctionOrder} (h : order.signature.length < UInt64.size) :
    decode order.encode = .ok order.unpriced :=
  decode_eq_ok_iff_encode.mpr ⟨order.encode_unpriced, rfl, h⟩

/-- **The format of orders is canonical.** A byte string decodes to an order exactly if it is the
encoding of that order, the order is unpriced and its signature is shorter than `2 ^ 64` bytes. So
decoding undoes encoding up to the price, nothing but encodings is accepted, and no order has two
accepted encodings. -/
theorem decode_canonical (bytes : Bytes) (order : AuctionOrder) :
    (decode bytes = .ok order ↔
      bytes = order.encode ∧ order.orderbookPrice = .zero ∧ order.signature.length < 2 ^ 64) ∧
    (decode order.encode = .ok order.unpriced ↔ order.signature.length < 2 ^ 64) ∧
    ((∃ decoded, decode bytes = .ok decoded) ↔
      bytes ∈ encode '' {sealed | sealed.signature.length < 2 ^ 64}) ∧
    {accepted | decode accepted = .ok order}.Subsingleton := by
  refine ⟨decode_eq_ok_iff_encode, ⟨?_, decode_encode⟩, ⟨?_, ?_⟩, ?_⟩
  · intro h
    exact (decode_eq_ok_iff_encode.mp h).2.2
  · rintro ⟨decoded, h⟩
    obtain ⟨rfl, -, hlength⟩ := decode_eq_ok_iff_encode.mp h
    exact ⟨decoded, hlength, rfl⟩
  · rintro ⟨sealed, hlength, rfl⟩
    exact ⟨sealed.unpriced, decode_encode hlength⟩
  · intro x hx y hy
    rw [(decode_eq_ok_iff_encode.mp hx).1, (decode_eq_ok_iff_encode.mp hy).1]

end AuctionOrder

end TimelockAuction
