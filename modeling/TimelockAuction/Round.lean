import TimelockAuction.Batch.Pipeline

/-!
# Rounds

A round has an identifier, and bidders seal their orders for it. When the puzzles are solved, the round
divides the reports: an order is matchable if it was recovered, is bound to this round inside and outside
its envelope, and carries a signature that verifies. Every other report is a failure with one cause. A
round fails as a whole only if it got reports and every one of them failed.
-/

namespace TimelockAuction

/-- Whether a signature on a message is that of a key. -/
abbrev OrderVerifier := PubKey → Bytes → Bytes → Bool

structure FailedOrder where
  submission : Submission
  error : Error

structure RoundOutcome where
  auction : AuctionId
  orders : List AuctionOrder
  failures : List FailedOrder

/-- How many reports an outcome accounts for. -/
def RoundOutcome.total (outcome : RoundOutcome) : Nat :=
  outcome.orders.length + outcome.failures.length

structure AuctionRound where
  params : PublicParameters
  /-- The check of signatures, if there is one. -/
  verifier : Option OrderVerifier

namespace AuctionRound

/-- A round that accepts every signature. -/
def ofParams (params : PublicParameters) : AuctionRound := ⟨params, none⟩

/-- A round with a drawn identifier. -/
def start (config : AuctionConfig) : Draw AuctionRound := do
  let id ← Draw.bytes 32
  return ofParams ⟨⟨id⟩, config.auctionTime⟩

def withVerifier (round : AuctionRound) (verifier : OrderVerifier) : AuctionRound :=
  { round with verifier := some verifier }

def auction (round : AuctionRound) : AuctionId := round.params.auction

/-- Succeeds on an envelope that is bound to the round. -/
def checkEnvelope (round : AuctionRound) (envelope : Envelope) : Except Error Unit :=
  if envelope.auction = round.auction then return ()
  else throw (.auctionMismatch round.auction envelope.auction)

/-- Succeeds on an order whose signature verifies. -/
def verify (round : AuctionRound) (order : AuctionOrder) : Except Error Unit :=
  match round.verifier with
  | none => return ()
  | some verifier =>
    if verifier order.pubkey order.signable order.signature then return ()
    else throw .signatureInvalid

/-- Succeeds on an order from an envelope if both are bound to the round and the signature verifies. -/
def checkOrder (round : AuctionRound) (envelope : Envelope) (order : AuctionOrder) :
    Except Error Unit := do
  round.checkEnvelope envelope
  if order.auction = envelope.auction then round.verify order
  else throw (.auctionMismatch envelope.auction order.auction)

/-- The matchable order of a report, or why there is none. -/
def settle (round : AuctionRound) (report : Report) : Except Error AuctionOrder := do
  let order ← report.outcome
  round.checkOrder report.submission.envelope order
  return order

def matchable (round : AuctionRound) (reports : List Report) : List AuctionOrder :=
  reports.filterMap fun report => (round.settle report).toOption

def excluded (round : AuctionRound) (reports : List Report) : List FailedOrder :=
  reports.filterMap fun report =>
    match round.settle report with
    | .ok _ => none
    | .error error => some ⟨report.submission, error⟩

/-- Divides reports into matchable orders and failures. -/
def aggregate (round : AuctionRound) (reports : List Report) : Except Error RoundOutcome :=
  let orders := round.matchable reports
  let failures := round.excluded reports
  if orders.isEmpty && !failures.isEmpty then throw (.allOrdersFailed failures.length)
  else return ⟨round.auction, orders, failures⟩

/-! ## Log -/

/-- The name of the matching engine that rounds are handed to. -/
def engineName : String := "SealBid"

/-- The version of the rules of a round. -/
def version : String := "0.1.0"

def excludedEvent (round : AuctionRound) (failure : FailedOrder) : Event :=
  ⟨.warn, "Order excluded from round",
    [("auction", round.auction.text), ("category", failure.error.category.text),
      ("error", failure.error.message)]⟩

def aggregatedEvent (outcome : RoundOutcome) : Event :=
  ⟨.info, "Round aggregated",
    [("engine", engineName), ("version", version), ("auction", outcome.auction.text),
      ("matchable", toString outcome.orders.length),
      ("excluded", toString outcome.failures.length)]⟩

/-- What is logged when reports are divided: each failure, and the result if there is one. -/
def aggregateEvents (round : AuctionRound) (reports : List Report) : List Event :=
  (round.excluded reports).map round.excludedEvent ++
    match round.aggregate reports with
    | .ok outcome => [aggregatedEvent outcome]
    | .error _ => []

end AuctionRound

end TimelockAuction
