import TimelockAuction.Round
import TimelockAuction.Batch.Run
import TimelockAuction.Order.Price
import TimelockAuction.Proofs.Endian
import TimelockAuction.Proofs.PowMod
import TimelockAuction.Proofs.Wire.Grammar
import TimelockAuction.Proofs.Order.Canonical
import TimelockAuction.Proofs.Puzzle.HashChain
import TimelockAuction.Proofs.Puzzle.Squaring
import TimelockAuction.Proofs.Batch.Run
import TimelockAuction.Proofs.Puzzle.Wire
import TimelockAuction.Proofs.Envelope
import TimelockAuction.Proofs.Round
import TimelockAuction.Proofs.Crypto.Gcm
import TimelockAuction.Proofs.Puzzle.Key
import TimelockAuction.Proofs.Puzzle.Creator
import TimelockAuction.Proofs.Round.Honest
import TimelockAuction.Proofs.Round.Origin
import TimelockAuction.Proofs.Wire.Extension
import TimelockAuction.Proofs.Wire.PrefixFree
import TimelockAuction.Proofs.Wire.SelfDelimiting
import TimelockAuction.Proofs.Puzzle.Sealing
import TimelockAuction.Proofs.Batch.Interleaving
import TimelockAuction.Proofs.Round.Partition
import TimelockAuction.Proofs.Order.Signable
import TimelockAuction.Proofs.Envelope.Malleability
import TimelockAuction.Proofs.Round.Arrival
import TimelockAuction.Proofs.Number.Primality
import TimelockAuction.Proofs.Puzzle.Generation
import TimelockAuction.Proofs.Envelope.Outcome
import TimelockAuction.Proofs.Round.Replay
import TimelockAuction.Proofs.Wire.Place
import TimelockAuction.Proofs.Order.Diagnosis
import TimelockAuction.Proofs.Puzzle.Authenticity
import TimelockAuction.Proofs.Puzzle.Work
import TimelockAuction.Proofs.Batch.History
import TimelockAuction.Proofs.Batch.Limits
import TimelockAuction.Proofs.Json.Token
import TimelockAuction.Proofs.Json.RoundTrip
import TimelockAuction.Proofs.Json.Reading
import TimelockAuction.Proofs.Binary64.Rounding
import TimelockAuction.Proofs.Binary64.Shortest
import TimelockAuction.Proofs.Binary64.Json
import TimelockAuction.Proofs.Order.Json
import TimelockAuction.Proofs.Wire.Accounting
import TimelockAuction.Proofs.Puzzle.Separation
import TimelockAuction.Proofs.Config
import TimelockAuction.Proofs.Binary64.Nearest
import TimelockAuction.Proofs.Order.Price
import TimelockAuction.Proofs.Binary64.Precision
import TimelockAuction.Proofs.Order.Ranking
import TimelockAuction.Proofs.Order.PriceInverse
import TimelockAuction.Proofs.Puzzle.ClosedForm
import TimelockAuction.Proofs.Wire.Context
