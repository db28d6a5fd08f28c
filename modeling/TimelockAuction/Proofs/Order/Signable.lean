import Mathlib
import TimelockAuction.Proofs.Order.Canonical
import TimelockAuction.Proofs.Round
import TimelockAuction.Proofs.Wire.PrefixFree
import TimelockAuction.Proofs.Wire.SelfDelimiting

/-!
# A signature binds the bid and nothing else

The signed bytes are the terms of a bid one after the other. All fields but the side have a fixed width,
and the side stands in a frame, so the terms can be read off again and no bid has signed bytes that begin
those of another. The signature itself and the price are left out.

* `AuctionOrder.signable_append_inj`: the terms are read off whatever follows them.
* `AuctionOrder.signable_prefix_iff`, `AuctionOrder.encode_eq_iff_sameBid`: which orders share what is
  signed, and which share all that is encoded.
* `AuctionOrder.signable_eq_take`: what is signed is found in the bytes that were decoded.
* `AuctionOrder.signature_binds_bid`: all of it.
-/

namespace TimelockAuction

/-! ## Fields of a bid -/

theorem OrderSide.wireBytes_injective : Function.Injective wireBytes := by
  intro x y h
  have hx : ofBytes y.wireBytes = .ok x := ofBytes_eq_ok_iff.mpr h.symm
  have hy : ofBytes y.wireBytes = .ok y := ofBytes_eq_ok_iff.mpr rfl
  exact Except.ok.inj (hx.symm.trans hy)

theorem OrderSide.frame_append_inj {x y : OrderSide} {rest others : Bytes} :
    frame x.wireBytes ++ rest = frame y.wireBytes ++ others ↔ x = y ∧ rest = others := by
  rw [TimelockAuction.frame_append_inj x.length_wireBytes_lt y.length_wireBytes_lt,
    wireBytes_injective.eq_iff]

theorem TradingPair.toBytes_injective : Function.Injective toBytes := by
  rintro ⟨⟨want⟩, ⟨give⟩⟩ ⟨⟨want'⟩, ⟨give'⟩⟩ h
  simp only [toBytes, List.cons.injEq, and_true] at h
  obtain ⟨rfl, rfl⟩ := h
  rfl

theorem TradingPair.toBytes_append_inj {x y : TradingPair} {rest others : Bytes} :
    x.toBytes ++ rest = y.toBytes ++ others ↔ x = y ∧ rest = others := by
  constructor
  · intro h
    obtain ⟨hbytes, hrest⟩ := List.append_inj h rfl
    exact ⟨toBytes_injective hbytes, hrest⟩
  · rintro ⟨rfl, rfl⟩
    rfl

namespace AuctionOrder

variable {x y order : AuctionOrder} {rest others bytes : Bytes}

/-- Two orders agree on the terms of their bids, which is all but the price and the signature. -/
structure SameTerms (x y : AuctionOrder) : Prop where
  pubkey : x.pubkey = y.pubkey
  side : x.side = y.side
  pair : x.pair = y.pair
  amountHave : x.amountHave = y.amountHave
  amountWant : x.amountWant = y.amountWant
  auction : x.auction = y.auction
  nonce : x.nonce = y.nonce

theorem SameTerms.signable_eq (h : SameTerms x y) : x.signable = y.signable := by
  rw [signable, signable, h.pubkey, h.side, h.pair, h.amountHave, h.amountWant, h.auction, h.nonce]

theorem sameBid_iff : x.sameBid y = true ↔ SameTerms x y ∧ x.signature = y.signature := by
  rw [sameBid, decide_eq_true_iff]
  constructor
  · intro h
    simp only [unpriced, mk.injEq, true_and] at h
    obtain ⟨hpubkey, hside, hpair, hhave, hwant, hauction, hnonce, hsignature⟩ := h
    exact ⟨⟨hpubkey, hside, hpair, hhave, hwant, hauction, hnonce⟩, hsignature⟩
  · rintro ⟨hterms, hsignature⟩
    rw [unpriced, unpriced, hterms.pubkey, hterms.side, hterms.pair, hterms.amountHave,
      hterms.amountWant, hterms.auction, hterms.nonce, hsignature]

/-! ## What is signed -/

/-- The fields are taken off from the left, one by one. -/
theorem signable_append_inj :
    x.signable ++ rest = y.signable ++ others ↔ SameTerms x y ∧ rest = others := by
  constructor
  · intro h
    simp only [signable, List.append_assoc] at h
    obtain ⟨hpubkey, h⟩ := Bytes.toList_append_inj.mp h
    obtain ⟨hpair, h⟩ := TradingPair.toBytes_append_inj.mp h
    obtain ⟨hhave, h⟩ := LittleEndian.encodeWord_append_inj.mp h
    obtain ⟨hwant, h⟩ := LittleEndian.encodeWord_append_inj.mp h
    obtain ⟨hside, h⟩ := OrderSide.frame_append_inj.mp h
    obtain ⟨hauction, h⟩ := Bytes.toList_append_inj.mp h
    obtain ⟨hnonce, hrest⟩ := Bytes.toList_append_inj.mp h
    have hterms : SameTerms x y := ⟨congrArg PubKey.mk hpubkey, hside, hpair, hhave, hwant,
      congrArg AuctionId.mk hauction, congrArg OrderNonce.mk hnonce⟩
    exact ⟨hterms, hrest⟩
  · rintro ⟨hterms, rfl⟩
    rw [hterms.signable_eq]

theorem signable_prefix_iff : x.signable <+: y.signable ↔ SameTerms x y := by
  constructor
  · rintro ⟨rest, h⟩
    have hall : x.signable ++ rest = y.signable ++ [] := by rw [h, List.append_nil]
    exact (signable_append_inj.mp hall).1
  · intro h
    rw [h.signable_eq]

/-- Encodings are equal exactly for orders that are equal up to the price. Even signatures that do not
fit their frame make no exception. -/
theorem encode_eq_iff_sameBid : x.encode = y.encode ↔ x.sameBid y = true := by
  rw [encode, encode, signable_append_inj, frame_injective.eq_iff, sameBid_iff]

/-! ## Where it is found -/

/-- The bytes that are signed stand in front of the framed signature. -/
theorem signable_eq_take (h : decode bytes = .ok order) :
    8 + order.signature.length ≤ bytes.length ∧
      order.signable = bytes.take (bytes.length - (8 + order.signature.length)) := by
  obtain ⟨rfl, -, -⟩ := decode_eq_ok_iff_encode.mp h
  have hframe : (frame order.signature).length = 8 + order.signature.length := by
    rw [frame, List.length_append, LittleEndian.length_encodeWord]
  have hlength : order.encode.length = order.signable.length + (8 + order.signature.length) := by
    rw [encode, List.length_append, hframe]
  constructor
  · omega
  · rw [hlength, Nat.add_sub_cancel, encode, List.take_left]

/-- **A signature binds exactly the bid.** What is signed of one order begins what is signed of another
only if they agree on all terms, and then it is the same; price and signature play no part in it. Whole
encodings are equal exactly if the orders are the same bid with the same signature. Of a byte string that
decodes to an order, what is signed is all but the framed signature at its end, so a verifier is given the
very bytes that were sealed. -/
theorem signature_binds_bid (x y : AuctionOrder) :
    (x.signable <+: y.signable ↔ SameTerms x y) ∧
    (x.signable = y.signable ↔ SameTerms x y) ∧
    (x.encode = y.encode ↔ x.sameBid y = true) ∧
    (x.sameBid y = true ↔ SameTerms x y ∧ x.signature = y.signature) ∧
    ∀ bytes : Bytes, decode bytes = .ok x →
      8 + x.signature.length ≤ bytes.length ∧
      x.signable = bytes.take (bytes.length - (8 + x.signature.length)) ∧
      ∀ (round : AuctionRound) (verifier : OrderVerifier),
        (round.withVerifier verifier).verify x = .ok () ↔
          verifier x.pubkey (bytes.take (bytes.length - (8 + x.signature.length))) x.signature =
            true := by
  refine ⟨signable_prefix_iff, ⟨?_, SameTerms.signable_eq⟩, encode_eq_iff_sameBid, sameBid_iff, ?_⟩
  · intro h
    exact signable_prefix_iff.mp (h ▸ List.prefix_rfl)
  · intro bytes hdecode
    obtain ⟨hlength, hsigned⟩ := signable_eq_take hdecode
    refine ⟨hlength, hsigned, fun round verifier => ?_⟩
    rw [← hsigned]
    exact AuctionRound.verify_withVerifier_eq_ok_iff

/-- Of an order of 108 bytes with a signature of three, the first 97 bytes are signed. -/
theorem soldOrder_signs_front :
    decode soldOrder.encode = .ok soldOrder ∧ soldOrder.signable = soldOrder.encode.take 97 ∧
    ((AuctionRound.ofParams ⟨soldOrder.auction, 1⟩).withVerifier
      fun _ message _ => message == soldOrder.encode.take 97).verify soldOrder = .ok () ∧
    ¬ soldOrder.signable <+: ({ soldOrder with side := .buy } : AuctionOrder).signable := by
  have hdecode : decode soldOrder.encode = .ok soldOrder := decode_encode (by decide)
  obtain ⟨hfront, -, -, -, hdecoded⟩ :=
    signature_binds_bid soldOrder { soldOrder with side := .buy }
  obtain ⟨-, hsigned, hverify⟩ := hdecoded soldOrder.encode hdecode
  have hlength : soldOrder.encode.length - (8 + soldOrder.signature.length) = 97 := by decide
  rw [hlength] at hsigned hverify
  refine ⟨hdecode, hsigned, (hverify _ _).mpr (beq_self_eq_true _), ?_⟩
  rw [hfront]
  intro hterms
  exact nomatch hterms.side

end AuctionOrder

end TimelockAuction
