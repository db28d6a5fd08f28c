import TimelockAuction.Bytes.Hex
import TimelockAuction.Bytes.Endian

/-!
# Identifiers in an order

An order names its bidder, its assets and its auction by byte strings of fixed width. They are compared
byte by byte from the left.
-/

namespace TimelockAuction

/-- Identifies one auction round. Orders and envelopes are bound to it. -/
structure AuctionId where
  bytes : Vector UInt8 32
deriving DecidableEq, Ord

namespace AuctionId

/-- The first four bytes in hexadecimal. -/
def short (id : AuctionId) : String :=
  Hex.encode (id.bytes.toList.take 4)

/-- The name of an auction in messages: its first eight bytes. -/
def text (id : AuctionId) : String :=
  "auction:" ++ Hex.encode (id.bytes.toList.take 8)

end AuctionId

/-- The compressed public key of a bidder. -/
structure PubKey where
  bytes : Vector UInt8 33
deriving DecidableEq, Ord

namespace PubKey

def text (key : PubKey) : String :=
  Hex.encode key.bytes.toList

/-- The key of an order that has none yet. -/
def zero : PubKey := ⟨Vector.replicate 33 0⟩

/-- The key a hexadecimal text stands for. -/
def ofText? (text : String) : Option PubKey := do
  let bytes ← Hex.decode? text
  let bytes ← Bytes.toVector? 33 bytes
  return ⟨bytes⟩

end PubKey

/-- Tells apart orders of one key in one round that are otherwise alike. -/
structure OrderNonce where
  bytes : Vector UInt8 2
deriving DecidableEq, Ord

namespace OrderNonce

/-- The nonce with a given number, low byte first. -/
def ofNumber (n : UInt16) : OrderNonce :=
  ⟨Bytes.toVector (LittleEndian.encode 2 n.toNat) (LittleEndian.length_encode ..)⟩

def text (nonce : OrderNonce) : String :=
  Hex.encode nonce.bytes.toList

end OrderNonce

structure Asset where
  code : UInt8
deriving DecidableEq, Ord

/-- The asset a bidder asks for and the asset it gives up. -/
structure TradingPair where
  assetWant : Asset
  assetHave : Asset
deriving DecidableEq, Ord

namespace TradingPair

/-- The two codes, the wanted asset first. -/
def toBytes (pair : TradingPair) : Bytes :=
  [pair.assetWant.code, pair.assetHave.code]

/-- The pair that two codes stand for. -/
def ofBytes (bytes : Vector UInt8 2) : TradingPair :=
  ⟨⟨bytes[0]⟩, ⟨bytes[1]⟩⟩

def text (pair : TradingPair) : String :=
  toString pair.assetWant.code.toNat ++ "/" ++ toString pair.assetHave.code.toNat

end TradingPair

end TimelockAuction
