import TimelockAuction.Batch.Channel

/-!
# Running a batch

How a batch is solved on several workers at once, as steps between states. A dispatcher visits the
submissions in order: it reports a refused one itself and makes a task of any other. A task takes one of
as many permits as there are workers, solves, sends its report and gives the permit back. When all
submissions have been visited, the reports are received one by one. Tasks step in any order.

The permits are made before the dispatcher starts. If there are to be more of them than can be given out,
there is no run.

The channel of a run has room for one report on every submission, since the dispatcher sends before
anyone receives.
-/

namespace TimelockAuction

/-- Where a run stands. -/
structure BatchState where
  /-- The submissions that the dispatcher has not visited. -/
  unvisited : List Submission
  /-- The tasks without a permit. -/
  waiting : List Submission
  /-- The tasks that are solving. -/
  solving : List Submission
  /-- The reports of tasks that have solved and not sent. -/
  sending : List Report
  /-- How many tasks have sent and still hold a permit. -/
  releasing : Nat
  channel : Channel Report
  /-- The reports that have been received, in order. -/
  received : List Report

namespace BatchState

def initial (batch : List Submission) : BatchState :=
  ⟨batch, [], [], [], 0, Channel.ofCapacity batch.length, []⟩

/-- How many hold a sender of the channel: the dispatcher until its last visit, and every task until it has
ended. -/
def senders (state : BatchState) : Nat :=
  (if state.unvisited = [] then 0 else 1) + state.waiting.length + state.solving.length +
    state.sending.length + state.releasing

def permitsTaken (state : BatchState) : Nat :=
  state.solving.length + state.sending.length + state.releasing

/-- Whether every task has ended and every report has been received. -/
def IsFinished (state : BatchState) : Prop :=
  state.unvisited = [] ∧ state.waiting = [] ∧ state.solving = [] ∧ state.sending = [] ∧
    state.releasing = 0 ∧ state.channel.queue = []

/-- One step of a run. -/
inductive Step (pipeline : Pipeline) : BatchState → BatchState → Prop
  /-- The dispatcher reports a refused submission. -/
  | refuse {state : BatchState} {submission : Submission} {rest : List Submission}
      {fault : SolvingFault} {channel : Channel Report} :
      state.unvisited = submission :: rest →
      pipeline.refusal? submission.envelope.puzzle = some fault →
      state.channel.send? ⟨submission, .error (.puzzleSolve fault)⟩ = some channel →
      Step pipeline state { state with unvisited := rest, channel }
  /-- The dispatcher makes a task. -/
  | dispatch {state : BatchState} {submission : Submission} {rest : List Submission} :
      state.unvisited = submission :: rest →
      pipeline.refusal? submission.envelope.puzzle = none →
      Step pipeline state
        { state with unvisited := rest, waiting := state.waiting ++ [submission] }
  | acquire {state : BatchState} {submission : Submission} {before after : List Submission} :
      state.waiting = before ++ submission :: after →
      state.permitsTaken < pipeline.workers →
      Step pipeline state
        { state with waiting := before ++ after, solving := submission :: state.solving }
  | solve {state : BatchState} {submission : Submission} {before after : List Submission} :
      state.solving = before ++ submission :: after →
      Step pipeline state
        { state with solving := before ++ after, sending := submission.solve :: state.sending }
  | send {state : BatchState} {report : Report} {before after : List Report}
      {channel : Channel Report} :
      state.sending = before ++ report :: after →
      state.channel.send? report = some channel →
      Step pipeline state
        { state with sending := before ++ after, releasing := state.releasing + 1, channel }
  | release {state : BatchState} {left : Nat} :
      state.releasing = left + 1 →
      Step pipeline state { state with releasing := left }
  | receive {state : BatchState} {report : Report} {channel : Channel Report} :
      state.unvisited = [] →
      state.channel.receive? = some (report, channel) →
      Step pipeline state { state with channel, received := state.received ++ [report] }

/-- The states that a run of a batch can come to. -/
inductive Reachable (maxPermits : Nat) (pipeline : Pipeline) (batch : List Submission) :
    BatchState → Prop
  | start : pipeline.Starts maxPermits batch → Reachable maxPermits pipeline batch (initial batch)
  | step {state next : BatchState} :
      Reachable maxPermits pipeline batch state → Step pipeline state next →
      Reachable maxPermits pipeline batch next

end BatchState

end TimelockAuction
