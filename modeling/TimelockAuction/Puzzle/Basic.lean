import TimelockAuction.Puzzle.Squaring
import TimelockAuction.Puzzle.HashChain

/-!
# Puzzles

A puzzle is one of a closed set of constructions. Its encoding is a tag of one byte and the encoding of
the construction.
-/

namespace TimelockAuction

/-- Tells constructions apart. -/
inductive PuzzleTag
  | squaring
  | hashChain
deriving DecidableEq, Repr

namespace PuzzleTag

/-- The byte that stands for a construction. -/
def code : PuzzleTag → UInt8
  | squaring => 1
  | hashChain => 2

/-- The name of a construction in messages. -/
def text : PuzzleTag → String
  | squaring => "RSW"
  | hashChain => "HASH_CHAIN"

/-- All constructions, in the order of their bytes. -/
def all : List PuzzleTag := [squaring, hashChain]

def ofCode? (code : UInt8) : Option PuzzleTag :=
  all.find? (·.code == code)

end PuzzleTag

inductive Puzzle
  | squaring (puzzle : SquaringPuzzle)
  | hashChain (puzzle : HashChainPuzzle)
deriving DecidableEq

namespace Puzzle

def tag : Puzzle → PuzzleTag
  | squaring _ => .squaring
  | hashChain _ => .hashChain

/-- How many steps of work a puzzle takes. One limit applies to all constructions. -/
def steps : Puzzle → UInt64
  | squaring puzzle => puzzle.squarings
  | hashChain puzzle => puzzle.steps

def withSteps (steps : UInt64) : Puzzle → Puzzle
  | squaring puzzle => .squaring { puzzle with squarings := steps }
  | hashChain puzzle => .hashChain { puzzle with steps }

/-- How many hash rounds make a step, where steps are made of rounds. -/
def roundsPerStep? : Puzzle → Option UInt64
  | squaring _ => none
  | hashChain puzzle => some puzzle.roundsPerStep

/-! ## Solving -/

def solveKey : Puzzle → Except Error Key
  | squaring puzzle => puzzle.solveKey
  | hashChain puzzle => puzzle.solveKey

/-- Solves a puzzle and unlocks what its key sealed. -/
def solve (puzzle : Puzzle) (ciphertext : Bytes) : Except Error Bytes := do
  let key ← puzzle.solveKey
  Sealed.unlock key ciphertext

/-! ## Encoding -/

def payload : Puzzle → Bytes
  | squaring puzzle => puzzle.encode
  | hashChain puzzle => puzzle.encode

def encode (puzzle : Puzzle) : Bytes :=
  puzzle.tag.code :: puzzle.payload

def payloadDecoder : PuzzleTag → Decoder Puzzle
  | .squaring => squaring <$> SquaringPuzzle.decoder
  | .hashChain => hashChain <$> HashChainPuzzle.decoder

def decoder : Decoder Puzzle := do
  let code ← Decoder.byte
  match PuzzleTag.ofCode? code with
  | some tag => payloadDecoder tag
  | none => throw (.unknownVariant code)

end Puzzle

end TimelockAuction
