import TimelockAuction.Order.Basic
import TimelockAuction.Binary64.Json
import TimelockAuction.Json.Parser
import TimelockAuction.Json.Printer
import TimelockAuction.Json.Reading

/-!
# Orders in JSON

Identifiers and the signature are arrays of numbers, the public key is hexadecimal text, and a side is
its name. Reading also takes a record as the array of its fields in order, and a side as an object whose
only member has its name and the value `null`.
-/

namespace TimelockAuction

namespace Json

def ofBytes (bytes : Bytes) : Json :=
  .array (bytes.map fun b => nat b.toNat)

/-- A byte string of a given width. -/
def vector? (n : Nat) (v : Json) : Option (Vector UInt8 n) := do
  let bytes ← v.bytes?
  Bytes.toVector? n bytes

end Json

/-! ## Parts of an order -/

def AuctionId.toJson (id : AuctionId) : Json := Json.ofBytes id.bytes.toList

def AuctionId.ofJson? (v : Json) : Option AuctionId := do
  let bytes ← v.vector? 32
  return ⟨bytes⟩

def PubKey.toJson (key : PubKey) : Json := Json.string key.text

def PubKey.ofJson? (v : Json) : Option PubKey := do
  let text ← v.string?
  PubKey.ofText? text

def OrderNonce.toJson (nonce : OrderNonce) : Json := Json.ofBytes nonce.bytes.toList

def OrderNonce.ofJson? (v : Json) : Option OrderNonce := do
  let bytes ← v.vector? 2
  return ⟨bytes⟩

def Asset.toJson (asset : Asset) : Json := Json.nat asset.code.toNat

def Asset.ofJson? (v : Json) : Option Asset := do
  let code ← v.byte?
  return ⟨code⟩

def TradingPair.toJson (pair : TradingPair) : Json :=
  Json.ofFields [("asset_want", pair.assetWant.toJson), ("asset_have", pair.assetHave.toJson)]

def TradingPair.ofJson? (v : Json) : Option TradingPair := do
  match ← v.record? ["asset_want", "asset_have"] with
  | [some want, some have_] =>
    let assetWant ← Asset.ofJson? want
    let assetHave ← Asset.ofJson? have_
    return ⟨assetWant, assetHave⟩
  | _ => none

def OrderSide.toJson (side : OrderSide) : Json := Json.string side.wireText

def OrderSide.named? (name : String) : Option OrderSide :=
  (OrderSide.ofText name).toOption

def OrderSide.ofJson? : Json → Option OrderSide
  | .object [(name, .scalar .null)] => do OrderSide.named? (← name.string?)
  | v => do OrderSide.named? (← v.string?)

/-! ## Orders -/

namespace AuctionOrder

def fieldNames : List String :=
  ["pubkey", "side", "pair", "amount_have", "amount_want", "orderbook_price", "auction_id", "nonce",
    "signature"]

def toJson (order : AuctionOrder) : Json :=
  Json.ofFields (fieldNames.zip [
    order.pubkey.toJson,
    order.side.toJson,
    order.pair.toJson,
    Json.nat order.amountHave.toNat,
    Json.nat order.amountWant.toNat,
    Json.binary64 order.orderbookPrice,
    order.auction.toJson,
    order.nonce.toJson,
    Json.ofBytes order.signature])

/-- The order that a value describes. A missing price is zero; every other field has to be there. -/
def ofJson? (v : Json) : Option AuctionOrder := do
  match ← v.record? fieldNames with
  | [some pubkey, some side, some pair, some amountHave, some amountWant, price, some auction,
      some nonce, some signature] =>
    let pubkey ← PubKey.ofJson? pubkey
    let side ← OrderSide.ofJson? side
    let pair ← TradingPair.ofJson? pair
    let amountHave ← amountHave.word?
    let amountWant ← amountWant.word?
    let orderbookPrice ← match price with
      | some price => price.binary64?
      | none => some .zero
    let auction ← AuctionId.ofJson? auction
    let nonce ← OrderNonce.ofJson? nonce
    let signature ← signature.bytes?
    return { pubkey, side, pair, amountHave, amountWant, orderbookPrice, auction, nonce, signature }
  | _ => none

def text (order : AuctionOrder) : String :=
  order.toJson.render

def ofText? (text : String) : Option AuctionOrder := do
  let v ← Json.parse? text
  ofJson? v

end AuctionOrder

end TimelockAuction
