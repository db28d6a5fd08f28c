import TimelockAuction.Order.Basic
import TimelockAuction.Wire.Reader

/-!
# Orders on the wire

What bidders sign and what is recovered from a solved puzzle has to agree byte for byte, so an order has
one encoding: fields of fixed width in a fixed order, the side and the signature behind their lengths.
The part that is signed ends before the signature. The price is not encoded and reads back as zero.
-/

namespace TimelockAuction

/-- A decoder that consumes nothing and has a known result. -/
def Decoder.ofResult {α : Type} (result : Except Error α) : Decoder α :=
  ExceptT.mk fun r => (result, r)

namespace AuctionOrder

/-! ## Widths of the fields -/

abbrev pubkeyWidth : Nat := 33

abbrev pairWidth : Nat := 2

/-- The width of an amount and of a length. -/
abbrev wordWidth : Nat := 8

abbrev auctionWidth : Nat := 32

abbrev nonceWidth : Nat := 2

/-- The length of the fields of fixed width and of the two lengths. -/
def minLength : Nat :=
  pubkeyWidth + pairWidth + 2 * wordWidth + wordWidth + auctionWidth + nonceWidth + wordWidth

/-! ## Encoding -/

/-- The bytes that are signed. -/
def signable (order : AuctionOrder) : Bytes :=
  order.pubkey.bytes.toList ++ order.pair.toBytes ++
    LittleEndian.encodeWord order.amountHave ++ LittleEndian.encodeWord order.amountWant ++
    frame order.side.wireBytes ++ order.auction.bytes.toList ++ order.nonce.bytes.toList

def encode (order : AuctionOrder) : Bytes :=
  order.signable ++ frame order.signature

def decoder : Decoder AuctionOrder := do
  let pubkey ← Decoder.take pubkeyWidth
  let pair ← Decoder.take pairWidth
  let amountHave ← Decoder.word
  let amountWant ← Decoder.word
  let sideBytes ← Decoder.framed
  let side ← Decoder.ofResult (OrderSide.ofBytes sideBytes)
  let auction ← Decoder.take auctionWidth
  let nonce ← Decoder.take nonceWidth
  let signature ← Decoder.framed
  return {
    pubkey := ⟨pubkey⟩
    side
    pair := .ofBytes pair
    amountHave
    amountWant
    orderbookPrice := .zero
    auction := ⟨auction⟩
    nonce := ⟨nonce⟩
    signature }

def decode (bytes : Bytes) : Except Error AuctionOrder :=
  if bytes.length < minLength then throw (.tooShort minLength bytes.length)
  else Decoder.decodeAll decoder bytes

end AuctionOrder

end TimelockAuction
