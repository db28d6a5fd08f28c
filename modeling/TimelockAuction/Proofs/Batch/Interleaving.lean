import Mathlib
import TimelockAuction.Proofs.Batch.Run

/-!
# Every interleaving of a run

The dispatcher, the tasks and the receiver of a run may take their steps in any order. Whatever the
order: no more tasks hold a permit than there are workers, the channel has room whenever somebody sends,
a run goes on until it is finished and then stops, and it leaves one report for each place of the batch.

* `BatchState.Reachable.queue_lt_capacity`: no send has to wait.
* `BatchState.isFinished_iff_senders`: a run is finished when the receiver finds that nobody sends.
* `BatchState.Reachable.isFinished_iff`: a run stops where it is finished and nowhere else.
* `BatchState.Reachable.exists_not_step`: there is a bound on the number of steps.
* `BatchState.Reachable.exists_place`: each report has a place of its own in the batch.
* `BatchState.reports_of_every_interleaving`: all of it, for a pipeline of any number of workers.
-/

namespace TimelockAuction

/-- A pipeline that is asked for any number of workers, none included, with any limits. -/
def Pipeline.limited (workers : Nat) (maxSteps maxRoundsPerStep : Option UInt64) : Pipeline :=
  { ofWorkers workers with maxSteps, maxRoundsPerStep }

theorem Pipeline.solve_cases (pipeline : Pipeline) (submission : Submission) :
    (∃ fault, pipeline.refusal? submission.envelope.puzzle = some fault ∧
        (pipeline.solve submission).outcome = .error (.puzzleSolve fault)) ∨
      (pipeline.refusal? submission.envelope.puzzle = none ∧
        (pipeline.solve submission).outcome = submission.envelope.solveOrder) := by
  cases hrefusal : pipeline.refusal? submission.envelope.puzzle with
  | some fault =>
    rw [solve_of_refusal hrefusal]
    exact .inl ⟨fault, rfl, rfl⟩
  | none =>
    rw [solve_of_no_refusal hrefusal]
    exact .inr ⟨rfl, rfl⟩

namespace BatchState

variable {maxPermits : Nat} {pipeline : Pipeline} {batch : List Submission} {state next : BatchState}
  {report : Report}

/-! ## Sends -/

/-- Somebody is about to send the report: a task that has solved, or the dispatcher on the submission
that it visits next. -/
inductive Sends (pipeline : Pipeline) (state : BatchState) : Report → Prop
  | task {report : Report} : report ∈ state.sending → Sends pipeline state report
  | dispatcher {submission : Submission} {rest : List Submission} {fault : SolvingFault} :
      state.unvisited = submission :: rest →
      pipeline.refusal? submission.envelope.puzzle = some fault →
      Sends pipeline state ⟨submission, .error (.puzzleSolve fault)⟩

/-- A sender has a submission of its own that is not in the channel. -/
theorem Reachable.queue_lt_capacity (h : Reachable maxPermits pipeline batch state)
    (hsends : Sends pipeline state report) : state.channel.queue.length < state.channel.capacity := by
  have hroom := h.invariant.room
  cases hsends with
  | task hmem =>
    have hpos := List.length_pos_of_mem hmem
    omega
  | dispatcher hunvisited _ =>
    rw [hunvisited, List.length_cons] at hroom
    omega

theorem Reachable.send?_eq_some (h : Reachable maxPermits pipeline batch state)
    (hsends : Sends pipeline state report) :
    state.channel.send? report =
      some { state.channel with queue := state.channel.queue ++ [report] } :=
  Channel.send?_of_lt report h.invariant.hasReceiver (h.queue_lt_capacity hsends)

/-! ## The end of a run -/

/-- A run is finished exactly if neither the dispatcher nor any task has a sender left and the channel is
empty. -/
theorem isFinished_iff_senders :
    state.IsFinished ↔ state.senders = 0 ∧ state.channel.queue = [] := by
  have hvisited : (if state.unvisited = [] then 0 else 1) = 0 ↔ state.unvisited = [] := by simp
  simp only [IsFinished, senders, Nat.add_eq_zero_iff, hvisited, List.length_eq_zero_iff, and_assoc]

theorem IsFinished.not_step (h : state.IsFinished) : ¬ Step pipeline state next := by
  obtain ⟨hunvisited, hwaiting, hsolving, hsending, hreleasing, hqueue⟩ := h
  intro hstep
  cases hstep with
  | refuse hsome | dispatch hsome => exact nomatch hunvisited.symm.trans hsome
  | acquire hsome => exact List.append_ne_nil_of_right_ne_nil _ (by simp) (hsome.symm.trans hwaiting)
  | solve hsome => exact List.append_ne_nil_of_right_ne_nil _ (by simp) (hsome.symm.trans hsolving)
  | send hsome => exact List.append_ne_nil_of_right_ne_nil _ (by simp) (hsome.symm.trans hsending)
  | release hsome => exact nomatch hreleasing.symm.trans hsome
  | receive _ hreceive =>
    rw [Channel.receive?_eq_some hreceive] at hqueue
    cases hqueue

/-- A run stops where it is finished and nowhere else. -/
theorem Reachable.isFinished_iff (h : Reachable maxPermits pipeline batch state) :
    state.IsFinished ↔ ∀ next, ¬ Step pipeline state next :=
  ⟨fun hend _ => hend.not_step, h.invariant.isFinished_of_stuck⟩

theorem Reachable.remaining_le (h : Reachable maxPermits pipeline batch state) :
    state.remaining ≤ 6 * batch.length := by
  induction h with
  | start => simp [remaining, BatchState.initial, Channel.ofCapacity]
  | step hreachable hstep ih =>
    have hlt := hstep.remaining_lt hreachable.invariant.hasReceiver
    omega

/-- No sequence of states goes on as a run for more than six steps a submission. -/
theorem Reachable.exists_not_step (h : Reachable maxPermits pipeline batch state) (run : Nat → BatchState)
    (hstart : run 0 = state) : ∃ n ≤ 6 * batch.length, ¬ Step pipeline (run n) (run (n + 1)) := by
  by_contra hsteps
  push Not at hsteps
  -- Each step leaves one less to take, and there were no more than the bound at the start.
  have hruns : ∀ n ≤ 6 * batch.length + 1,
      Reachable maxPermits pipeline batch (run n) ∧ (run n).remaining + n ≤ 6 * batch.length := by
    intro n
    induction n with
    | zero =>
      intro _
      rw [hstart]
      exact ⟨h, h.remaining_le⟩
    | succ n ih =>
      intro hn
      obtain ⟨hreachable, hremaining⟩ := ih (by omega)
      have hstep := hsteps n (by omega)
      have hlt := hstep.remaining_lt hreachable.invariant.hasReceiver
      exact ⟨hreachable.step hstep, by omega⟩
  have hlast := (hruns _ (Nat.le_refl _)).2
  omega

/-- The reports of a finished run have the places of the batch, each one place and each place one. -/
theorem Reachable.exists_place (h : Reachable maxPermits pipeline batch state) (hend : state.IsFinished) :
    ∃ place : Fin state.received.length ≃ Fin batch.length,
      ∀ i : Fin state.received.length, state.received[i] = pipeline.solve batch[place i] := by
  obtain ⟨submissions, hbatch, hreceived⟩ :=
    Pipeline.exists_submissions_of_perm (h.received_perm hend)
  have hlength : state.received.length = submissions.length := by rw [hreceived, List.length_map]
  obtain ⟨shuffle, hget⟩ := exists_equiv_of_perm hbatch
  have hshuffle : ∀ n : Fin submissions.length, batch[shuffle n] = submissions[n] := hget
  refine ⟨(finCongr hlength).trans shuffle, fun i => ?_⟩
  simp only [Equiv.trans_apply, hshuffle]
  simp [hreceived]

/-! ## Any number of workers -/

/-- **Every interleaving reports on the whole batch.** Let a pipeline be asked for any number of workers,
with any limits. In every state that a run of a batch can come to, at most as many tasks hold a permit as
there are workers, at least one, and whoever sends finds room in the channel. A run stops exactly where
it is finished, after at most six steps a submission. Then each report has a place of its own in the
batch, is on the submission there, and says that it was refused or what solving it gave; and another run
of the batch, with as many workers as it likes, ends with the same reports in some order. -/
theorem reports_of_every_interleaving {workers : Nat} {maxSteps maxRoundsPerStep : Option UInt64}
    (hpipeline : pipeline = .limited workers maxSteps maxRoundsPerStep)
    (h : Reachable maxPermits pipeline batch state) :
    state.solving.length + state.sending.length + state.releasing ≤ max workers 1 ∧
    (∀ report, Sends pipeline state report →
      state.channel.queue.length < batch.length ∧
        state.channel.send? report =
          some { state.channel with queue := state.channel.queue ++ [report] }) ∧
    (state.IsFinished ↔ ∀ next, ¬ Step pipeline state next) ∧
    (∀ run : Nat → BatchState, run 0 = state →
      ∃ n ≤ 6 * batch.length, ¬ Step pipeline (run n) (run (n + 1))) ∧
    (state.IsFinished →
      (∃ place : Fin state.received.length ≃ Fin batch.length,
        ∀ i : Fin state.received.length, state.received[i].submission = batch[place i] ∧
          ((∃ fault, pipeline.refusal? batch[place i].envelope.puzzle = some fault ∧
              state.received[i].outcome = .error (.puzzleSolve fault)) ∨
            (pipeline.refusal? batch[place i].envelope.puzzle = none ∧
              state.received[i].outcome = batch[place i].envelope.solveOrder))) ∧
      ∀ (others : Nat) (other : BatchState),
        Reachable maxPermits (.limited others maxSteps maxRoundsPerStep) batch other → other.IsFinished →
          other.received.Perm state.received) := by
  have hworkers : pipeline.workers = max workers 1 := by rw [hpipeline]; rfl
  refine ⟨hworkers ▸ h.permitsTaken_le, fun report hsends => ?_, h.isFinished_iff, h.exists_not_step,
    fun hend => ⟨?_, ?_⟩⟩
  · have hroom := h.queue_lt_capacity hsends
    rw [h.invariant.capacity_eq] at hroom
    exact ⟨hroom, h.send?_eq_some hsends⟩
  · obtain ⟨place, hplace⟩ := h.exists_place hend
    refine ⟨place, fun i => ?_⟩
    rw [hplace i]
    exact ⟨pipeline.submission_solve _, pipeline.solve_cases _⟩
  · intro others other hother hotherEnd
    subst hpipeline
    exact (hother.received_perm hotherEnd).trans (h.received_perm hend).symm

/-! ## A small batch -/

/-- A submission whose puzzle has eleven steps. -/
def elevenSteps : Submission :=
  ⟨0, [], .hashChain ⟨Vector.replicate 32 0, 11, 1⟩, ⟨Vector.replicate 32 9⟩⟩

/-- A submission whose puzzle hides nothing. -/
def zeroModulus : Submission := ⟨1, [], .squaring ⟨0, 2, 3⟩, ⟨Vector.replicate 32 9⟩⟩

def smallBatch : List Submission := [elevenSteps, zeroModulus, zeroModulus]

/-- A pipeline that is asked for no worker, with a limit of ten steps. -/
def smallPipeline : Pipeline := .limited 0 (some 10) none

/-- The dispatcher has refused one submission and made two tasks of the other, of which one solves. -/
def smallRun : BatchState :=
  ⟨[], [zeroModulus], [zeroModulus], [], 0,
    ⟨3, [⟨elevenSteps, .error (.puzzleSolve (.stepsBeyondLimit 11 10))⟩], true⟩, []⟩

theorem reachable_smallRun : Reachable 1 smallPipeline smallBatch smallRun := by
  have hrefused : Reachable 1 smallPipeline smallBatch
      ⟨[zeroModulus, zeroModulus], [], [], [], 0, smallRun.channel, []⟩ :=
    .step (.start (.inr (Nat.le_refl 1))) (.refuse rfl rfl rfl)
  have hfirst : Reachable 1 smallPipeline smallBatch
      ⟨[zeroModulus], [zeroModulus], [], [], 0, smallRun.channel, []⟩ :=
    .step hrefused (.dispatch rfl rfl)
  have hsecond : Reachable 1 smallPipeline smallBatch
      ⟨[], [zeroModulus, zeroModulus], [], [], 0, smallRun.channel, []⟩ :=
    .step hfirst (.dispatch rfl rfl)
  exact .step hsecond (@Step.acquire _ _ zeroModulus [] [zeroModulus] rfl smallPipeline.workers_pos)

/-- Although no worker was asked for, the run goes on from there. It ends with three reports, on a puzzle
that was refused and on one that hides nothing. -/
theorem reports_of_smallRun :
    Reachable 1 smallPipeline smallBatch smallRun ∧ (∃ next, Step smallPipeline smallRun next) ∧
    ∃ final : BatchState, Reachable 1 smallPipeline smallBatch final ∧ final.IsFinished ∧
      final.received.length = 3 ∧
      ∀ i : Fin final.received.length,
        final.received[i].outcome = .error (.puzzleSolve (.stepsBeyondLimit 11 10)) ∨
          final.received[i].outcome = .error (.puzzleSolve .modulusTooSmall) := by
  have hrun := reachable_smallRun
  obtain ⟨final, hend, hsteps⟩ := hrun.exists_end
  have hfinal := hrun.of_steps hsteps
  obtain ⟨-, -, hstops, -⟩ := reports_of_every_interleaving rfl hrun
  obtain ⟨-, -, -, -, hreports⟩ := reports_of_every_interleaving rfl hfinal
  obtain ⟨⟨place, hplace⟩, -⟩ := hreports hend
  refine ⟨hrun, ?_, final, hfinal, hend, Fin.equiv_iff_eq.mp ⟨place⟩, fun i => ?_⟩
  · by_contra hstuck
    have hwaiting : smallRun.waiting = [] := (hstops.mpr (not_exists.mp hstuck)).2.1
    cases hwaiting
  · obtain ⟨-, houtcome⟩ := hplace i
    have hmem : smallBatch[place i] ∈ smallBatch := List.getElem_mem _
    generalize smallBatch[place i] = submission at houtcome hmem
    have hsubmission : submission = elevenSteps ∨ submission = zeroModulus := by
      simpa [smallBatch] using hmem
    rcases hsubmission with rfl | rfl
    · rcases houtcome with ⟨fault, hfault, h⟩ | ⟨hnone, -⟩
      · cases hfault
        exact .inl h
      · cases hnone
    · rcases houtcome with ⟨fault, hfault, -⟩ | ⟨-, h⟩
      · cases hfault
      · exact .inr h

end BatchState

end TimelockAuction
