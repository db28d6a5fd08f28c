import TimelockAuction.Puzzle.Key
import TimelockAuction.Wire.Reader

/-!
# The hash-chain puzzle

The puzzle is a seed and a number of rounds; its solution is the seed hashed that often. Maker and
solver do the same work. The rounds are counted in steps of a fixed number each, so that the steps
compare with those of other constructions.
-/

namespace TimelockAuction

structure HashChainPuzzle where
  seed : Vector UInt8 32
  steps : UInt64
  roundsPerStep : UInt64
deriving DecidableEq

namespace HashChainPuzzle

def seedLength : Nat := 32

def domain : Bytes := "sealbid:hashchain:v1:".toUTF8.toList

/-- The key that a state of the chain hides. -/
def keyOf (state : Vector UInt8 32) : Key :=
  Key.derive domain state.toList

def hashTimes : (count : Nat) → Vector UInt8 32 → Vector UInt8 32
  | 0, state => state
  | count + 1, state => hashTimes count (Sha256.digest state.toList)

/-- The number of rounds, if it fits in 64 bits. -/
def rounds? (puzzle : HashChainPuzzle) : Option UInt64 :=
  let rounds := puzzle.steps.toNat * puzzle.roundsPerStep.toNat
  if rounds < UInt64.size then some (UInt64.ofNat rounds) else none

/-- The state at the end of a chain of `rounds` rounds. -/
def chain (puzzle : HashChainPuzzle) (rounds : UInt64) : Vector UInt8 32 :=
  hashTimes rounds.toNat puzzle.seed

/-- The key a puzzle hides, found by hashing. -/
def solveKey (puzzle : HashChainPuzzle) : Except Error Key :=
  match puzzle.rounds? with
  | some rounds => return keyOf (puzzle.chain rounds)
  | none => throw (.puzzleSolve (.roundsOverflow puzzle.steps puzzle.roundsPerStep))

/-- A new puzzle of `steps` steps and the key it hides. -/
def generate (steps roundsPerStep : UInt64) : ExceptT Error Draw (HashChainPuzzle × Key) := do
  let seed ← ExceptT.lift (Draw.bytes seedLength)
  let puzzle : HashChainPuzzle := ⟨seed, steps, roundsPerStep⟩
  match puzzle.rounds? with
  | some rounds => return (puzzle, keyOf (puzzle.chain rounds))
  | none => throw (.puzzleCreate (.roundsOverflow steps roundsPerStep))

/-! ## Encoding -/

def encode (puzzle : HashChainPuzzle) : Bytes :=
  puzzle.seed.toList ++ LittleEndian.encodeWord puzzle.steps ++
    LittleEndian.encodeWord puzzle.roundsPerStep

def decoder : Decoder HashChainPuzzle := do
  let seed ← Decoder.take seedLength
  let steps ← Decoder.word
  let roundsPerStep ← Decoder.word
  return ⟨seed, steps, roundsPerStep⟩

end HashChainPuzzle

end TimelockAuction
