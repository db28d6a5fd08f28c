import Mathlib
import TimelockAuction.Order.Json
import TimelockAuction.Proofs.Binary64.Json
import TimelockAuction.Proofs.Json.Reading

/-!
# Orders survive their JSON text if their price is finite

Every field of a bid is read back from the text as it was. The price is not part of the bid and may come
back rounded, so the order that is read is the same bid. A price that is not finite has no spelling: it is
written as `null`, and `null` is refused where a number is wanted.

* `Json.vector?_ofBytes`: identifiers.
* `PubKey.ofJson?_toJson`, `TradingPair.ofJson?_toJson`, `OrderSide.ofJson?_toJson`: other parts.
* `AuctionOrder.ofText?_text`: an order, up to its price.
* `AuctionOrder.text_survives_iff_isFinite`: which prices are read back.
-/

namespace TimelockAuction

/-! ## Byte strings -/

namespace Json

theorem bytes?_ofBytes (bytes : Bytes) : (ofBytes bytes).bytes? = some bytes := by
  change List.mapM byte? (bytes.map fun b => nat b.toNat) = some bytes
  rw [List.mapM_map, mapM_eq_some (g := id), List.map_id]
  exact fun b _ => byte?_nat b

theorem vector?_ofBytes {n : Nat} (v : Vector UInt8 n) : (ofBytes v.toList).vector? n = some v := by
  rw [vector?, bytes?_ofBytes]
  exact Bytes.toVector?_toList v

theorem isSpelled_ofBytes (bytes : Bytes) : (ofBytes bytes).IsSpelled := by
  refine .array fun item hitem => ?_
  obtain ⟨b, -, rfl⟩ := List.mem_map.mp hitem
  exact isSpelled_nat b.toNat

end Json

/-! ## Parts of an order -/

theorem AuctionId.ofJson?_toJson (id : AuctionId) : ofJson? id.toJson = some id := by
  rw [ofJson?, toJson, Json.vector?_ofBytes]
  rfl

theorem OrderNonce.ofJson?_toJson (nonce : OrderNonce) : ofJson? nonce.toJson = some nonce := by
  rw [ofJson?, toJson, Json.vector?_ofBytes]
  rfl

theorem PubKey.ofText?_text (key : PubKey) : ofText? key.text = some key := by
  rw [ofText?, text, Hex.decode?_encode, Option.bind_eq_bind, Option.bind_some,
    Bytes.toVector?_toList]
  rfl

theorem PubKey.ofJson?_toJson (key : PubKey) : ofJson? key.toJson = some key := by
  rw [ofJson?, toJson, Json.string?_string, Option.bind_eq_bind, Option.bind_some, ofText?_text]

theorem Asset.ofJson?_toJson (asset : Asset) : ofJson? asset.toJson = some asset := by
  rw [ofJson?, toJson, Json.byte?_nat]
  rfl

theorem TradingPair.ofJson?_toJson (pair : TradingPair) : ofJson? pair.toJson = some pair := by
  have hrecord : pair.toJson.record? ["asset_want", "asset_have"] =
      some [some pair.assetWant.toJson, some pair.assetHave.toJson] :=
    Json.record?_ofFields (show ["asset_want", "asset_have"].Nodup by decide)
  rw [ofJson?, hrecord]
  simp [Asset.ofJson?_toJson]

theorem OrderSide.named?_wireText (side : OrderSide) : named? side.wireText = some side := by
  cases side with
  | buy => rfl
  | sell => rfl

theorem OrderSide.ofJson?_toJson (side : OrderSide) : ofJson? side.toJson = some side := by
  have hread : ofJson? side.toJson = (Json.string side.wireText).string?.bind named? := rfl
  rw [hread, Json.string?_string]
  exact named?_wireText side

theorem TradingPair.isSpelled_toJson (pair : TradingPair) : pair.toJson.IsSpelled := by
  apply Json.isSpelled_ofFields
  simp [Asset.toJson, Json.isSpelled_nat]

/-! ## Orders -/

namespace Json

/-- A price is read back from what it is written as, if it is finite. -/
theorem isSome_binary64? (x : Binary64) : (binary64 x).binary64?.isSome = x.isFinite := by
  cases h : x.isFinite with
  | true =>
    obtain ⟨n, hn, -, y, hy⟩ := Number.exists_ofBinary64? h
    rw [binary64, hn]
    exact Option.isSome_iff_exists.mpr ⟨y, hy⟩
  | false =>
    rw [binary64, Number.ofBinary64?_eq_none h]
    rfl

theorem isSpelled_binary64 (x : Binary64) : (binary64 x).IsSpelled := by
  cases h : x.isFinite with
  | true =>
    obtain ⟨n, hn, hspelled, -⟩ := Number.exists_ofBinary64? h
    rw [binary64, hn]
    exact .scalar hspelled
  | false =>
    rw [binary64, Number.ofBinary64?_eq_none h]
    exact .scalar trivial

end Json

namespace AuctionOrder

theorem isSpelled_toJson (order : AuctionOrder) : order.toJson.IsSpelled := by
  apply Json.isSpelled_ofFields
  simp [fieldNames, PubKey.toJson, OrderSide.toJson, AuctionId.toJson, OrderNonce.toJson,
    TradingPair.isSpelled_toJson, Json.isSpelled_string, Json.isSpelled_nat, Json.isSpelled_ofBytes,
    Json.isSpelled_binary64]

/-- An order is read back from its value up to its price. -/
theorem ofJson?_toJson (order : AuctionOrder) :
    ofJson? order.toJson = (Json.binary64 order.orderbookPrice).binary64?.map fun price =>
      { order with orderbookPrice := price } := by
  have hrecord : order.toJson.record? fieldNames = some [some order.pubkey.toJson,
      some order.side.toJson, some order.pair.toJson, some (Json.nat order.amountHave.toNat),
      some (Json.nat order.amountWant.toNat), some (Json.binary64 order.orderbookPrice),
      some order.auction.toJson, some order.nonce.toJson, some (Json.ofBytes order.signature)] :=
    Json.record?_ofFields (show fieldNames.Nodup by decide)
  rw [ofJson?, hrecord]
  simp only [Option.bind_eq_bind, Option.bind_some, PubKey.ofJson?_toJson, OrderSide.ofJson?_toJson,
    TradingPair.ofJson?_toJson, Json.word?_nat, AuctionId.ofJson?_toJson, OrderNonce.ofJson?_toJson,
    Json.bytes?_ofBytes]
  exact (Option.map_eq_bind ..).symm

/-- An order is read back from its text up to its price, if that is read. -/
theorem ofText?_text (order : AuctionOrder) :
    ofText? order.text = (Json.binary64 order.orderbookPrice).binary64?.map fun price =>
      { order with orderbookPrice := price } := by
  rw [ofText?, text, Json.parse?_render order.isSpelled_toJson, Option.bind_eq_bind,
    Option.bind_some, ofJson?_toJson]

/-- The text of an order is read as an order if and only if the price is finite, and then as the same
bid: nothing but the price may differ. -/
theorem text_survives_iff_isFinite (order : AuctionOrder) :
    ((ofText? order.text).isSome = true ↔ order.orderbookPrice.isFinite = true) ∧
      ∀ back, ofText? order.text = some back →
        back.sameBid order = true ∧ back = { order with orderbookPrice := back.orderbookPrice } := by
  rw [ofText?_text]
  constructor
  · rw [Option.isSome_map, Json.isSome_binary64?]
  · intro back hback
    obtain ⟨price, -, rfl⟩ := Option.map_eq_some_iff.mp hback
    exact ⟨decide_eq_true rfl, rfl⟩

end AuctionOrder

end TimelockAuction
