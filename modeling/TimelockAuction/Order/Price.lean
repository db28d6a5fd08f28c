import TimelockAuction.Order.Basic
import TimelockAuction.Binary64.Arithmetic

/-!
# Prices

The price of an order is the quotient of its amounts, as a binary64 number; a purchase is priced by what
it asks for, a sale by what it gives up. Conversely a price and the amount given up set the amount asked
for, rounded to the nearest unit.
-/

namespace TimelockAuction.AuctionOrder

/-- The price an order is ranked at. A purchase that gives up nothing is priced at infinity. -/
def price (order : AuctionOrder) : Except Error Binary64 :=
  if order.amountWant = 0 then throw .divideByZero
  else
    let given := Binary64.ofNat order.amountHave.toNat
    let wanted := Binary64.ofNat order.amountWant.toNat
    match order.side with
    | .buy => return wanted.div given
    | .sell => return given.div wanted

/-- Whether a number can be a price: it is finite and above zero. -/
def isPrice (x : Binary64) : Bool :=
  x.isFinite && !x.isZero && !x.isNegative

/-- What an order asks for at a price, before that is rounded to a unit. -/
def wantedAt (order : AuctionOrder) (price : Binary64) : Binary64 :=
  let given := Binary64.ofNat order.amountHave.toNat
  match order.side with
  | .buy => given.mul price
  | .sell => given.div price

/-- Asks for the amount that a price leads to, in place. -/
def setAmountWant (price : Binary64) : ExceptT Error (StateM AuctionOrder) Unit := do
  if !isPrice price then throw (.invalidPrice price)
  let order ← get
  let wanted := order.wantedAt price
  if !wanted.isFinite || decide (UInt64.size ≤ wanted.roundHalfAway) then
    throw (.amountOutOfRange price)
  set { order with amountWant := UInt64.ofNat wanted.roundHalfAway }

end TimelockAuction.AuctionOrder
