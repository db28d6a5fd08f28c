import TimelockAuction.Order.Codec
import TimelockAuction.Puzzle.Creator

/-!
# Envelopes

What a bidder submits during a round: an order sealed behind a puzzle, and the auction it is bound to.
The auction stands outside the seal, so that an envelope for another round can be turned away unsolved.
-/

namespace TimelockAuction

structure Envelope where
  ciphertext : Bytes
  puzzle : Puzzle
  /-- The auction the sealed order is for. -/
  auction : AuctionId
deriving DecidableEq

namespace Envelope

/-- An order sealed behind a fresh puzzle and bound to its auction. -/
def enclose (order : AuctionOrder) (steps : UInt64) (creator : PuzzleCreator) :
    ExceptT Error Draw Envelope := do
  let (ciphertext, puzzle) ← creator.create steps order.encode
  return ⟨ciphertext, puzzle, order.auction⟩

/-- An order sealed behind a squaring puzzle over a modulus of the default size. -/
def encloseByDefault (order : AuctionOrder) (steps : UInt64) : ExceptT Error Draw Envelope :=
  enclose order steps .defaultSquaring

/-! ## Solving -/

def solveBytes (envelope : Envelope) : Except Error Bytes :=
  envelope.puzzle.solve envelope.ciphertext

/-- The order in an envelope. A payload that is no order is an error of its own. -/
def solveOrder (envelope : Envelope) : Except Error AuctionOrder := do
  let payload ← envelope.solveBytes
  (AuctionOrder.decode payload).mapError .decodeAfterSolve

/-! ## Encoding -/

def encode (envelope : Envelope) : Bytes :=
  frame envelope.ciphertext ++ envelope.puzzle.encode ++ envelope.auction.bytes.toList

def decoder : Decoder Envelope := do
  let ciphertext ← Decoder.framed
  let puzzle ← Puzzle.decoder
  let auction ← Decoder.take AuctionOrder.auctionWidth
  return ⟨ciphertext, puzzle, ⟨auction⟩⟩

def decode (bytes : Bytes) : Except Error Envelope :=
  Decoder.decodeAll decoder bytes

end Envelope

end TimelockAuction
