import TimelockAuction.Envelope

/-!
# Solving a batch

A pipeline solves the envelopes of a round, at most as many at a time as it has workers, and reports on
each. It refuses puzzles that ask for more work than the round allows, since a bidder could otherwise
submit one that never ends. One bad envelope does not touch the others.

Reports come in any order. Each carries the submission it is about.

A worker holds a permit while it solves. A pipeline that asks for more permits than can be given out fails
before it has looked at its batch.
-/

namespace TimelockAuction

/-- An envelope as it was submitted. Its ticket tells it apart from an equal envelope that was submitted
another time. -/
structure Submission where
  ticket : Nat
  envelope : Envelope
deriving DecidableEq

structure Report where
  submission : Submission
  outcome : Except Error AuctionOrder

namespace Report

def isFor (report : Report) (submission : Submission) : Bool :=
  report.submission.ticket == submission.ticket

def isSolved (report : Report) : Bool :=
  report.outcome.isOk

def event (report : Report) : Event :=
  let auction := report.submission.envelope.auction.text
  match report.outcome with
  | .ok order =>
    ⟨.debug, "Order puzzle solved",
      [("auction", auction), ("pubkey", order.pubkey.text), ("side", order.side.text)]⟩
  | .error error =>
    ⟨.warn, "Order puzzle failed",
      [("auction", auction), ("puzzle", report.submission.envelope.puzzle.tag.text),
        ("error", error.message)]⟩

end Report

def Submission.solve (submission : Submission) : Report :=
  ⟨submission, submission.envelope.solveOrder⟩

structure Pipeline where
  /-- How many puzzles are solved at a time. -/
  workers : Nat
  /-- The greatest number of steps that is solved, if there is one. -/
  maxSteps : Option UInt64
  /-- The greatest number of hash rounds a step that is solved, if there is one. -/
  maxRoundsPerStep : Option UInt64
  workers_pos : 0 < workers

namespace Pipeline

/-- A pipeline without limits, of at least one worker. -/
def ofWorkers (workers : Nat) : Pipeline :=
  ⟨max workers 1, none, none, by omega⟩

def withMaxSteps (pipeline : Pipeline) (limit : UInt64) : Pipeline :=
  { pipeline with maxSteps := some limit }

def withMaxRoundsPerStep (pipeline : Pipeline) (limit : UInt64) : Pipeline :=
  { pipeline with maxRoundsPerStep := some limit }

/-- The pipeline of a server's rounds on a machine with `cores` processor cores. -/
def ofConfig (config : AuctionConfig) (cores : Nat) : Pipeline :=
  ((ofWorkers (config.workersOn cores)).withMaxSteps config.auctionTime).withMaxRoundsPerStep
    config.roundsPerStep

/-- Why a puzzle is refused unsolved, if it is. A puzzle without hash rounds counts as having none. -/
def refusal? (pipeline : Pipeline) (puzzle : Puzzle) : Option SolvingFault :=
  let tooLong := pipeline.maxSteps.bind fun limit =>
    if limit < puzzle.steps then some (.stepsBeyondLimit puzzle.steps limit) else none
  let tooHeavy := pipeline.maxRoundsPerStep.bind fun limit =>
    let roundsPerStep := puzzle.roundsPerStep?.getD 0
    if limit < roundsPerStep then some (.roundsBeyondLimit roundsPerStep limit) else none
  tooLong <|> tooHeavy

/-- Solves a submission, unless its puzzle is refused. -/
def solve (pipeline : Pipeline) (submission : Submission) : Report :=
  match pipeline.refusal? submission.envelope.puzzle with
  | some fault => ⟨submission, .error (.puzzleSolve fault)⟩
  | none => submission.solve

/-- Whether a batch can be started where no more than `maxPermits` permits can be given out: there is one
for each worker. An empty batch needs none. -/
def Starts (pipeline : Pipeline) (maxPermits : Nat) (batch : List Submission) : Prop :=
  batch = [] ∨ pipeline.workers ≤ maxPermits

instance (pipeline : Pipeline) (maxPermits : Nat) (batch : List Submission) :
    Decidable (pipeline.Starts maxPermits batch) :=
  inferInstanceAs (Decidable (_ ∨ _))

/-- The reports on a batch, in its order. -/
def reportsOn (pipeline : Pipeline) (batch : List Submission) : List Report :=
  batch.map pipeline.solve

/-- Solves a batch, or fails as a whole if the batch cannot be started. -/
def solveBatch? (pipeline : Pipeline) (maxPermits : Nat) (batch : List Submission) :
    Option (List Report) :=
  if pipeline.Starts maxPermits batch then some (pipeline.reportsOn batch) else none

/-- What is logged of a batch, for the order in which its reports came. -/
def batchEvents (pipeline : Pipeline) (reports : List Report) : List Event :=
  if reports.isEmpty then []
  else
    let solved := reports.countP Report.isSolved
    reports.map Report.event ++ [
      ⟨.info, "Puzzle batch complete",
        [("total", toString reports.length), ("solved", toString solved),
          ("failed", toString (reports.length - solved)),
          ("workers", toString pipeline.workers)]⟩]

end Pipeline

end TimelockAuction
