import TimelockAuction.Order.Side

/-!
# Orders

A bidder offers an amount of one asset for an amount of another, in one auction. The signature covers
everything but itself and the price, which is only set on orders that go back to bidders after matching.
-/

namespace TimelockAuction

/-- A signed bid. -/
structure AuctionOrder where
  pubkey : PubKey
  side : OrderSide
  pair : TradingPair
  /-- How much of the asset it has the bidder gives up. -/
  amountHave : UInt64
  /-- How much of the asset it wants the bidder asks for in return. -/
  amountWant : UInt64
  /-- The price the order was ranked at. Not part of the bid. -/
  orderbookPrice : Binary64
  auction : AuctionId
  nonce : OrderNonce
  signature : Bytes
deriving DecidableEq

namespace AuctionOrder

def isBuy (order : AuctionOrder) : Bool := order.side == .buy

def isSell (order : AuctionOrder) : Bool := order.side == .sell

def unpriced (order : AuctionOrder) : AuctionOrder :=
  { order with orderbookPrice := .zero }

/-- Whether two orders are the same bid with the same signature, whatever their prices. -/
def sameBid (x y : AuctionOrder) : Bool :=
  decide (x.unpriced = y.unpriced)

end AuctionOrder

end TimelockAuction
