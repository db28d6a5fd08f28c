import TimelockAuction.Config
import TimelockAuction.Event
import TimelockAuction.Puzzle.Basic

/-!
# Making puzzles

A creator makes a fresh puzzle of a wanted number of steps and seals a payload under the key it hides.
-/

namespace TimelockAuction

inductive PuzzleCreator
  /-- Squaring puzzles over moduli of `modulusBits` binary digits. -/
  | squaring (modulusBits : UInt64)
  /-- Hash chains of `roundsPerStep` rounds a step. -/
  | hashChain (roundsPerStep : UInt64)
deriving DecidableEq

namespace PuzzleCreator

/-- The creator of squaring puzzles that nothing else is said of. -/
def defaultSquaring : PuzzleCreator := squaring AuctionConfig.default.modulusBits

/-- The creator of hash chains that nothing else is said of. -/
def defaultHashChain : PuzzleCreator := hashChain AuctionConfig.default.roundsPerStep

/-- The creator of squaring puzzles for a server's rounds. -/
def squaringOf (config : AuctionConfig) : PuzzleCreator := squaring config.modulusBits

/-- The creator of hash chains for a server's rounds. -/
def hashChainOf (config : AuctionConfig) : PuzzleCreator := hashChain config.roundsPerStep

def generate (creator : PuzzleCreator) (steps : UInt64) : ExceptT Error Draw (Puzzle × Key) :=
  match creator with
  | squaring modulusBits => do
    let (puzzle, key) ← SquaringPuzzle.generate steps modulusBits
    return (.squaring puzzle, key)
  | hashChain roundsPerStep => do
    let (puzzle, key) ← HashChainPuzzle.generate steps roundsPerStep
    return (.hashChain puzzle, key)

/-- A payload sealed behind a fresh puzzle. The puzzle is drawn before the nonce. -/
def create (creator : PuzzleCreator) (steps : UInt64) (payload : Bytes) :
    ExceptT Error Draw (Bytes × Puzzle) := do
  let (puzzle, key) ← creator.generate steps
  let ciphertext ← Sealed.lock key payload
  return (ciphertext, puzzle)

def createdEvent (creator : PuzzleCreator) (steps : UInt64) (ciphertext : Bytes) : Event :=
  let number (n : UInt64) : String := toString n.toNat
  match creator with
  | squaring modulusBits =>
    ⟨.debug, "RSW puzzle created",
      [("t", number steps), ("modulus_bits", number modulusBits),
        ("len", toString ciphertext.length)]⟩
  | hashChain roundsPerStep =>
    ⟨.debug, "Hash-chain puzzle created",
      [("t", number steps), ("rounds_per_step", number roundsPerStep),
        ("len", toString ciphertext.length)]⟩

end PuzzleCreator

end TimelockAuction
