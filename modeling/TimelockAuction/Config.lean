import TimelockAuction.Order.Json

/-!
# Configuration

How an auction server runs its rounds, and what it tells bidders of a round. A configuration is read
from JSON text: what the text leaves out has its default, and the result is checked as a whole.
-/

namespace TimelockAuction

/-- The settings of an auction server. -/
structure AuctionConfig where
  /-- How many steps of work the puzzles of a round take. -/
  auctionTime : UInt64
  /-- How many puzzles are solved at a time; zero means one for each processor core. -/
  solverWorkers : UInt64
  /-- How many binary digits the modulus of a squaring puzzle has. -/
  modulusBits : UInt64
  /-- How many rounds of a hash chain make a step. -/
  roundsPerStep : UInt64
deriving DecidableEq, Repr

namespace AuctionConfig

/-- The configuration that a text without any settings leads to. -/
def default : AuctionConfig := ⟨30000, 0, 2048, 1⟩

/-- The least number of binary digits that a server may ask of a modulus. -/
def minModulusBits : UInt64 := 128

/-- Succeeds on a configuration that a server can run with. -/
def validate (config : AuctionConfig) : Except Error Unit :=
  if config.auctionTime = 0 then throw (.configuration .zeroAuctionTime)
  else if config.modulusBits < minModulusBits then
    throw (.configuration (.modulusTooSmall minModulusBits))
  else if config.roundsPerStep = 0 then throw (.configuration .zeroRoundsPerStep)
  else return ()

/-- How many puzzles are solved at a time on a machine with `cores` processor cores. -/
def workersOn (config : AuctionConfig) (cores : Nat) : Nat :=
  if config.solverWorkers = 0 then max cores 1 else config.solverWorkers.toNat

def fieldNames : List String :=
  ["auction_time", "solver_workers", "rsw_modulus_bits", "hash_chain_rounds_per_step"]

def toJson (config : AuctionConfig) : Json :=
  Json.ofFields (fieldNames.zip [
    Json.nat config.auctionTime.toNat,
    Json.nat config.solverWorkers.toNat,
    Json.nat config.modulusBits.toNat,
    Json.nat config.roundsPerStep.toNat])

def setting? (fallback : UInt64) : Option Json → Option UInt64
  | some v => v.word?
  | none => some fallback

/-- The configuration that a value describes, whether or not it is valid. -/
def ofJson? (v : Json) : Option AuctionConfig := do
  match ← v.record? fieldNames with
  | [auctionTime, solverWorkers, modulusBits, roundsPerStep] =>
    let auctionTime ← setting? default.auctionTime auctionTime
    let solverWorkers ← setting? default.solverWorkers solverWorkers
    let modulusBits ← setting? default.modulusBits modulusBits
    let roundsPerStep ← setting? default.roundsPerStep roundsPerStep
    return { auctionTime, solverWorkers, modulusBits, roundsPerStep }
  | _ => none

/-- The valid configuration that a JSON text describes. -/
def ofText (text : String) : Except Error AuctionConfig :=
  match (Json.parse? text).bind ofJson? with
  | none => throw (.configuration .unreadable)
  | some config => do
    config.validate
    return config

end AuctionConfig

/-- What a bidder has to know to seal an order for a round. -/
structure PublicParameters where
  auction : AuctionId
  /-- How many steps of work the puzzle takes. -/
  auctionTime : UInt64
deriving DecidableEq

namespace PublicParameters

def fieldNames : List String := ["auction_id", "auction_time"]

def toJson (params : PublicParameters) : Json :=
  Json.ofFields (fieldNames.zip [params.auction.toJson, Json.nat params.auctionTime.toNat])

def ofJson? (v : Json) : Option PublicParameters := do
  match ← v.record? fieldNames with
  | [some auction, some auctionTime] =>
    let auction ← AuctionId.ofJson? auction
    let auctionTime ← auctionTime.word?
    return ⟨auction, auctionTime⟩
  | _ => none

end PublicParameters

end TimelockAuction
