import TimelockAuction.Error
import TimelockAuction.Text.Utf8

/-!
# Sides

An order buys or sells. On the wire and in JSON a side is spelled in small letters, in messages in
capitals.
-/

namespace TimelockAuction

inductive OrderSide
  | buy
  | sell
deriving DecidableEq, Ord, Repr

namespace OrderSide

/-- The spelling on the wire and in JSON. -/
def wireText : OrderSide → String
  | buy => "buy"
  | sell => "sell"

/-- The bytes of the spelling on the wire. -/
def wireBytes : OrderSide → Bytes
  | buy => [0x62, 0x75, 0x79]
  | sell => [0x73, 0x65, 0x6c, 0x6c]

/-- The spelling in messages. -/
def text : OrderSide → String
  | buy => "BUY"
  | sell => "SELL"

def opposite : OrderSide → OrderSide
  | buy => sell
  | sell => buy

def ofText (text : String) : Except Error OrderSide :=
  if text = wireText buy then return buy
  else if text = wireText sell then return sell
  else throw (.invalidSide text)

/-- The side that bytes from the wire spell. Bytes that are no text are reported as one. -/
def ofBytes (bytes : Bytes) : Except Error OrderSide :=
  if bytes = wireBytes buy then return buy
  else if bytes = wireBytes sell then return sell
  else throw (.invalidSide (Utf8.decodeLossy bytes))

end OrderSide

end TimelockAuction
