import Mathlib
import TimelockAuction.Batch.Run

/-!
# No run of a batch loses a report

However the steps of a run fall, each submission is at one place at any time: not visited, in a task, in
the channel or received. `BatchState.accounted` collects the reports that have been made and those that
are still owed; no step changes this collection.

* `BatchState.exists_reachable_iff`: which runs start.
* `BatchState.Step.accounted_eq`: one step.
* `BatchState.Reachable.received_perm`: at the end of a run, the reports on the batch have been received,
  in some order.
* `BatchState.Reachable.permitsTaken_le`: at no time are more permits taken than there are workers.
* `BatchState.Step.remaining_lt`, `BatchState.Reachable.exists_end`: no run goes on for ever, and
  none gets stuck before its end.
* `BatchState.solveBatch?_eq_none_iff`: a batch is not solved exactly if none of its runs starts.
-/

namespace TimelockAuction

/-- Two lists with the same entries in some order have the same places in some order. -/
theorem exists_equiv_of_perm {α : Type} [DecidableEq α] {xs ys : List α} (h : xs.Perm ys) :
    ∃ place : Fin xs.length ≃ Fin ys.length, ∀ i : Fin xs.length, ys.get (place i) = xs.get i :=
  ⟨⟨h.idxBij, h.symm.idxBij, h.idxBij_rightInverse_idxBij_symm, h.idxBij_leftInverse_idxBij_symm⟩,
    h.getElem_idxBij_eq_getElem⟩

/-! ## Reports of a pipeline -/

namespace Pipeline

variable {pipeline : Pipeline} {submission : Submission}

theorem solve_of_refusal {fault : SolvingFault}
    (h : pipeline.refusal? submission.envelope.puzzle = some fault) :
    pipeline.solve submission = ⟨submission, .error (.puzzleSolve fault)⟩ := by
  rw [solve, h]

theorem solve_of_no_refusal (h : pipeline.refusal? submission.envelope.puzzle = none) :
    pipeline.solve submission = submission.solve := by
  rw [solve, h]

/-- A puzzle is refused exactly if it is beyond a limit that the pipeline has. -/
theorem refusal?_eq_none_iff {puzzle : Puzzle} :
    pipeline.refusal? puzzle = none ↔
      (∀ limit, pipeline.maxSteps = some limit → puzzle.steps ≤ limit) ∧
      ∀ limit, pipeline.maxRoundsPerStep = some limit → puzzle.roundsPerStep?.getD 0 ≤ limit := by
  unfold refusal?
  rw [Option.orElse_eq_orElse, Option.orElse_eq_or, Option.or_eq_none_iff]
  apply and_congr
  · cases pipeline.maxSteps with
    | none => simp
    | some limit => simp
  · cases pipeline.maxRoundsPerStep with
    | none => simp
    | some limit => simp

theorem solveBatch?_of_starts {maxPermits : Nat} {batch : List Submission}
    (h : pipeline.Starts maxPermits batch) :
    pipeline.solveBatch? maxPermits batch = some (pipeline.reportsOn batch) :=
  if_pos h

theorem submission_solve (pipeline : Pipeline) (submission : Submission) :
    (pipeline.solve submission).submission = submission := by
  unfold solve
  split <;> rfl

/-- A report is determined by its submission, so reports on a batch in any order are those on the
submissions in some order. -/
theorem exists_submissions_of_perm {reports : List Report} {batch : List Submission}
    (h : reports.Perm (pipeline.reportsOn batch)) :
    ∃ submissions : List Submission, submissions.Perm batch ∧
      reports = submissions.map pipeline.solve := by
  have hreports : ∀ report ∈ reports, pipeline.solve report.submission = report := by
    intro report hreport
    obtain ⟨submission, -, rfl⟩ := List.mem_map.mp (h.mem_iff.mp hreport)
    rw [submission_solve]
  refine ⟨reports.map Report.submission, ?_, ?_⟩
  · have hmap := h.map Report.submission
    rw [reportsOn, List.map_map] at hmap
    have hid : (Report.submission ∘ pipeline.solve) = id := funext fun submission => submission_solve _ _
    rwa [hid, List.map_id] at hmap
  · rw [List.map_map]
    exact (List.map_id' reports).symm.trans
      (List.map_congr_left fun report hreport => (hreports report hreport).symm)

end Pipeline

/-! ## Channels -/

namespace Channel

variable {α : Type}

theorem send?_eq_some {channel next : Channel α} {value : α} (hreceiver : channel.hasReceiver = true)
    (h : channel.send? value = some next) :
    next = { channel with queue := channel.queue ++ [value] } := by
  unfold send? at h
  rw [hreceiver] at h
  by_cases hroom : channel.queue.length < channel.capacity
  · simp only [hroom, Bool.not_true, Bool.false_eq_true, if_true, if_false] at h
    cases h
    rw [← hreceiver]
  · simp [hroom] at h

theorem send?_of_lt {channel : Channel α} (value : α) (hreceiver : channel.hasReceiver = true)
    (hroom : channel.queue.length < channel.capacity) :
    channel.send? value = some { channel with queue := channel.queue ++ [value] } := by
  unfold send?
  rw [hreceiver, if_pos hroom]
  rfl

theorem receive?_eq_some {channel next : Channel α} {value : α}
    (h : channel.receive? = some (value, next)) :
    channel = { next with queue := value :: next.queue } := by
  obtain ⟨capacity, queue, hasReceiver⟩ := channel
  cases queue with
  | nil => cases h
  | cons _ _ =>
    cases h
    rfl

end Channel

namespace BatchState

variable {maxPermits : Nat} {pipeline : Pipeline} {batch : List Submission} {state next : BatchState}

/-! ## Starts -/

theorem Reachable.starts (h : Reachable maxPermits pipeline batch state) :
    pipeline.Starts maxPermits batch := by
  induction h with
  | start hstarts => exact hstarts
  | step _ _ ih => exact ih

/-- A run comes to states exactly if it can start. -/
theorem exists_reachable_iff :
    (∃ state, Reachable maxPermits pipeline batch state) ↔ pipeline.Starts maxPermits batch :=
  ⟨fun ⟨_, h⟩ => h.starts, fun h => ⟨_, .start h⟩⟩

/-! ## What a run accounts for -/

/-- The reports that a state has or owes, without an order: a task owes the report of its solution, and
the dispatcher that of the pipeline. -/
def accounted (pipeline : Pipeline) (state : BatchState) : Multiset Report :=
  (state.received : Multiset Report) + state.channel.queue + state.sending +
    state.solving.map Submission.solve + state.waiting.map Submission.solve +
    state.unvisited.map pipeline.solve

/-- What holds of every state of a run of `batch`. -/
structure Invariant (pipeline : Pipeline) (batch : List Submission) (state : BatchState) : Prop where
  accounted_eq : state.accounted pipeline = (pipeline.reportsOn batch : Multiset Report)
  hasReceiver : state.channel.hasReceiver = true
  capacity_eq : state.channel.capacity = batch.length

theorem invariant_initial (pipeline : Pipeline) (batch : List Submission) :
    Invariant pipeline batch (initial batch) := by
  refine ⟨?_, rfl, rfl⟩
  simp [accounted, initial, Channel.ofCapacity, Pipeline.reportsOn]

/-- A step moves a submission or its report from one place to the next. -/
theorem Step.accounted_eq (h : Step pipeline state next)
    (hreceiver : state.channel.hasReceiver = true) :
    next.accounted pipeline = state.accounted pipeline := by
  cases h with
  | refuse hunvisited hrefusal hsend =>
    have hsolve := Pipeline.solve_of_refusal hrefusal
    rw [Channel.send?_eq_some hreceiver hsend]
    simp only [accounted, hunvisited, List.map_cons, hsolve, ← Multiset.coe_add,
      ← Multiset.cons_coe, ← Multiset.singleton_add, Multiset.coe_nil]
    abel
  | dispatch hunvisited hrefusal =>
    have hsolve := Pipeline.solve_of_no_refusal hrefusal
    simp only [accounted, hunvisited, List.map_cons, List.map_append, List.map_nil, hsolve,
      ← Multiset.coe_add, ← Multiset.cons_coe, ← Multiset.singleton_add, Multiset.coe_nil]
    abel
  | acquire hwaiting hpermits =>
    simp only [accounted, hwaiting, List.map_cons, List.map_append, ← Multiset.coe_add,
      ← Multiset.cons_coe, ← Multiset.singleton_add]
    abel
  | solve hsolving =>
    simp only [accounted, hsolving, List.map_cons, List.map_append, ← Multiset.coe_add,
      ← Multiset.cons_coe, ← Multiset.singleton_add]
    abel
  | send hsending hsend =>
    rw [Channel.send?_eq_some hreceiver hsend]
    simp only [accounted, hsending, ← Multiset.coe_add, ← Multiset.cons_coe,
      ← Multiset.singleton_add, Multiset.coe_nil]
    abel
  | release hreleasing => rfl
  | receive hunvisited hreceive =>
    simp only [accounted, Channel.receive?_eq_some hreceive, ← Multiset.coe_add,
      ← Multiset.cons_coe, ← Multiset.singleton_add, Multiset.coe_nil]
    abel

/-- A step leaves the receiver and the capacity of the channel alone. -/
theorem Step.channel_eq (h : Step pipeline state next) (hreceiver : state.channel.hasReceiver = true) :
    next.channel.hasReceiver = true ∧ next.channel.capacity = state.channel.capacity := by
  cases h with
  | refuse _ _ hsend =>
    rw [Channel.send?_eq_some hreceiver hsend]
    exact ⟨hreceiver, rfl⟩
  | dispatch | acquire | solve | release => exact ⟨hreceiver, rfl⟩
  | send _ hsend =>
    rw [Channel.send?_eq_some hreceiver hsend]
    exact ⟨hreceiver, rfl⟩
  | receive _ hreceive =>
    rw [Channel.receive?_eq_some hreceive] at hreceiver ⊢
    exact ⟨hreceiver, rfl⟩

/-- Only a task that acquires takes one more permit, and it finds one free. -/
theorem Step.permitsTaken_le (h : Step pipeline state next)
    (hle : state.permitsTaken ≤ pipeline.workers) : next.permitsTaken ≤ pipeline.workers := by
  unfold permitsTaken at *
  cases h with
  | refuse | dispatch | receive => exact hle
  | acquire _ hfree =>
    rw [permitsTaken] at hfree
    simp only [List.length_cons]
    omega
  | solve hsolving =>
    simp only [hsolving, List.length_append, List.length_cons] at hle ⊢
    omega
  | send hsending _ =>
    simp only [hsending, List.length_append, List.length_cons] at hle ⊢
    omega
  | release hreleasing =>
    simp only [hreleasing] at hle ⊢
    omega

/-! ## Whole runs -/

theorem Reachable.permitsTaken_le (h : Reachable maxPermits pipeline batch state) :
    state.permitsTaken ≤ pipeline.workers := by
  induction h with
  | start => exact Nat.zero_le _
  | step _ hstep ih => exact hstep.permitsTaken_le ih

theorem Reachable.invariant (h : Reachable maxPermits pipeline batch state) :
    Invariant pipeline batch state := by
  induction h with
  | start => exact invariant_initial pipeline batch
  | step _ hstep ih =>
    obtain ⟨hreceiver, hcapacity⟩ := hstep.channel_eq ih.hasReceiver
    exact ⟨(hstep.accounted_eq ih.hasReceiver).trans ih.accounted_eq, hreceiver,
      hcapacity.trans ih.capacity_eq⟩

theorem IsFinished.accounted_eq (h : state.IsFinished) :
    state.accounted pipeline = (state.received : Multiset Report) := by
  obtain ⟨hunvisited, hwaiting, hsolving, hsending, -, hqueue⟩ := h
  simp [accounted, hunvisited, hwaiting, hsolving, hsending, hqueue]

/-- At the end of a run the reports on the batch have been received, each once, in some order. -/
theorem Reachable.received_perm (h : Reachable maxPermits pipeline batch state) (hend : state.IsFinished) :
    state.received.Perm (pipeline.reportsOn batch) := by
  rw [← Multiset.coe_eq_coe, ← hend.accounted_eq, h.invariant.accounted_eq]

theorem Reachable.solve_mem_received (h : Reachable maxPermits pipeline batch state) (hend : state.IsFinished)
    {submission : Submission} (hmem : submission ∈ batch) :
    pipeline.solve submission ∈ state.received := by
  rw [(h.received_perm hend).mem_iff]
  exact List.mem_map_of_mem hmem

/-! ## Runs that end -/

/-- How many steps a run can still take: every submission passes through the same places. -/
def remaining (state : BatchState) : Nat :=
  6 * state.unvisited.length + 5 * state.waiting.length + 4 * state.solving.length +
    3 * state.sending.length + state.releasing + state.channel.queue.length

theorem Step.remaining_lt (h : Step pipeline state next)
    (hreceiver : state.channel.hasReceiver = true) : next.remaining < state.remaining := by
  cases h with
  | refuse hunvisited _ hsend =>
    rw [Channel.send?_eq_some hreceiver hsend]
    simp only [remaining, hunvisited, List.length_append, List.length_cons, List.length_nil]
    omega
  | dispatch hunvisited _ =>
    simp only [remaining, hunvisited, List.length_append, List.length_cons, List.length_nil]
    omega
  | acquire hwaiting _ =>
    simp only [remaining, hwaiting, List.length_append, List.length_cons]
    omega
  | solve hsolving =>
    simp only [remaining, hsolving, List.length_append, List.length_cons]
    omega
  | send hsending hsend =>
    rw [Channel.send?_eq_some hreceiver hsend]
    simp only [remaining, hsending, List.length_append, List.length_cons, List.length_nil]
    omega
  | release hreleasing =>
    simp only [remaining, hreleasing]
    omega
  | receive _ hreceive =>
    simp only [remaining, Channel.receive?_eq_some hreceive, List.length_cons]
    omega

/-- What is on its way and what is in the channel fit in the channel. -/
theorem Invariant.room (h : Invariant pipeline batch state) :
    state.channel.queue.length + state.sending.length + state.unvisited.length ≤
      state.channel.capacity := by
  have hcard := congrArg Multiset.card h.accounted_eq
  simp only [accounted, Multiset.card_add, Multiset.coe_card, List.length_map,
    Pipeline.reportsOn] at hcard
  rw [h.capacity_eq]
  omega

/-- A run that is stuck has ended. The places are emptied from the sending tasks outwards: there is room
to send, a task can solve at any time, and once no permit is taken one can be acquired. -/
theorem Invariant.isFinished_of_stuck (h : Invariant pipeline batch state)
    (hstuck : ∀ next, ¬ Step pipeline state next) : state.IsFinished := by
  have hroom := h.room
  have hsending : state.sending = [] := by
    cases hsending : state.sending with
    | nil => rfl
    | cons report rest =>
      rw [hsending, List.length_cons] at hroom
      have hsend := Channel.send?_of_lt report h.hasReceiver (by omega)
      exact absurd (.send (show state.sending = [] ++ report :: rest from hsending) hsend) (hstuck _)
  have hsolving : state.solving = [] := by
    cases hsolving : state.solving with
    | nil => rfl
    | cons submission rest =>
      exact absurd (.solve (show state.solving = [] ++ submission :: rest from hsolving)) (hstuck _)
  have hreleasing : state.releasing = 0 := by
    cases hreleasing : state.releasing with
    | zero => rfl
    | succ left => exact absurd (.release hreleasing) (hstuck _)
  have hwaiting : state.waiting = [] := by
    cases hwaiting : state.waiting with
    | nil => rfl
    | cons submission rest =>
      have hpermit : state.permitsTaken < pipeline.workers := by
        rw [permitsTaken, hsolving, hsending, hreleasing]
        exact pipeline.workers_pos
      exact absurd (.acquire (show state.waiting = [] ++ submission :: rest from hwaiting) hpermit)
        (hstuck _)
  have hunvisited : state.unvisited = [] := by
    cases hunvisited : state.unvisited with
    | nil => rfl
    | cons submission rest =>
      cases hrefusal : pipeline.refusal? submission.envelope.puzzle with
      | none => exact absurd (.dispatch hunvisited hrefusal) (hstuck _)
      | some fault =>
        rw [hunvisited, List.length_cons] at hroom
        have hsend := Channel.send?_of_lt ⟨submission, .error (.puzzleSolve fault)⟩ h.hasReceiver
          (by omega)
        exact absurd (.refuse hunvisited hrefusal hsend) (hstuck _)
  have hqueue : state.channel.queue = [] := by
    cases hqueue : state.channel.queue with
    | nil => rfl
    | cons report rest =>
      have hreceive : state.channel.receive? =
          some (report, { state.channel with queue := rest }) := by
        rw [Channel.receive?, hqueue]
      exact absurd (.receive hunvisited hreceive) (hstuck _)
  exact ⟨hunvisited, hwaiting, hsolving, hsending, hreleasing, hqueue⟩

theorem Reachable.of_steps (h : Reachable maxPermits pipeline batch state)
    (hsteps : Relation.ReflTransGen (Step pipeline) state next) : Reachable maxPermits pipeline batch next := by
  induction hsteps with
  | refl => exact h
  | tail _ hstep ih => exact ih.step hstep

/-- From wherever a run stands it can be brought to its end. -/
theorem Reachable.exists_end (h : Reachable maxPermits pipeline batch state) :
    ∃ final, final.IsFinished ∧ Relation.ReflTransGen (Step pipeline) state final := by
  induction hremaining : state.remaining using Nat.strong_induction_on generalizing state with
  | _ n ih =>
    by_cases hstep : ∃ next, Step pipeline state next
    · obtain ⟨next, hstep⟩ := hstep
      have hlt := hstep.remaining_lt h.invariant.hasReceiver
      obtain ⟨final, hend, hsteps⟩ := ih _ (hremaining ▸ hlt) (h.step hstep) rfl
      exact ⟨final, hend, hsteps.head hstep⟩
    · exact ⟨state, h.invariant.isFinished_of_stuck (not_exists.mp hstep), .refl⟩

/-- Every batch that can be started has a run that ends. -/
theorem exists_finished (h : pipeline.Starts maxPermits batch) :
    ∃ state, Reachable maxPermits pipeline batch state ∧ state.IsFinished := by
  have hinitial : Reachable maxPermits pipeline batch (initial batch) := .start h
  obtain ⟨final, hend, hsteps⟩ := hinitial.exists_end
  exact ⟨final, hinitial.of_steps hsteps, hend⟩

/-- A batch is not solved exactly if none of its runs starts. -/
theorem solveBatch?_eq_none_iff :
    pipeline.solveBatch? maxPermits batch = none ↔
      ∀ state, ¬ Reachable maxPermits pipeline batch state := by
  rw [← not_exists, exists_reachable_iff, Pipeline.solveBatch?]
  exact ite_eq_right_iff.trans (by simp)

end BatchState

end TimelockAuction
