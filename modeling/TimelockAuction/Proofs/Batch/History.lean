import Mathlib
import TimelockAuction.Proofs.Batch.Run

/-!
# Which submissions a run has solved

A state shows which tasks are solving, and not which have solved. A history of a run keeps the states
that the run has left, so that one can look there. It shows that only what is not refused is ever solved,
and that whatever is not refused has been solved by the time its report is there.

* `BatchState.Step.mem_tasks`, `BatchState.Step.mem_reports`: where one step finds its tasks and reports.
* `BatchState.Reachable.exists_history`: every state that a run can come to has a history.
* `BatchState.Reachable.refusal?_of_task`, `BatchState.History.wasSolving_of_report`: a whole run.
* `BatchState.History.wasSolving_iff`: what a finished run has solved.
-/

namespace TimelockAuction.BatchState

variable {maxPermits : Nat} {pipeline : Pipeline} {batch : List Submission} {past : List BatchState}
  {state next : BatchState} {submission : Submission} {report : Report}

/-- The submissions that the dispatcher has made tasks of, up to when they are solved. -/
def tasks (state : BatchState) : List Submission :=
  state.waiting ++ state.solving

/-- The reports that have been made. -/
def reports (state : BatchState) : List Report :=
  state.received ++ state.channel.queue ++ state.sending

/-! ## One step -/

/-- Only the dispatcher makes tasks, and of no submission that is refused. -/
theorem Step.mem_tasks (h : Step pipeline state next) (hmem : submission ∈ next.tasks) :
    submission ∈ state.tasks ∨ pipeline.refusal? submission.envelope.puzzle = none := by
  unfold tasks at *
  cases h with
  | refuse | send | release | receive => exact .inl hmem
  | dispatch hunvisited hrefusal =>
    rw [List.append_assoc, List.mem_append, List.mem_append, List.mem_singleton] at hmem
    rcases hmem with hwaiting | rfl | hsolving
    · exact .inl (List.mem_append_left _ hwaiting)
    · exact .inr hrefusal
    · exact .inl (List.mem_append_right _ hsolving)
  | acquire hwaiting _ =>
    left
    rw [hwaiting]
    simp only [List.mem_append, List.mem_cons] at hmem ⊢
    tauto
  | solve hsolving =>
    left
    rw [hsolving]
    simp only [List.mem_append, List.mem_cons] at hmem ⊢
    tauto

/-- A report is made of a submission that was being solved or is refused. -/
theorem Step.mem_reports (h : Step pipeline state next)
    (hreceiver : state.channel.hasReceiver = true) (hmem : report ∈ next.reports) :
    report ∈ state.reports ∨ report.submission ∈ state.solving ∨
      pipeline.refusal? report.submission.envelope.puzzle ≠ none := by
  unfold reports at *
  cases h with
  | dispatch | acquire | release => exact .inl hmem
  | refuse _ hrefusal hsend =>
    rw [Channel.send?_eq_some hreceiver hsend] at hmem
    simp only [List.mem_append, List.mem_singleton] at hmem ⊢
    rcases hmem with (hreceived | hqueue | rfl) | hsending
    · exact .inl (.inl (.inl hreceived))
    · exact .inl (.inl (.inr hqueue))
    · exact .inr (.inr (hrefusal ▸ Option.some_ne_none _))
    · exact .inl (.inr hsending)
  | solve hsolving =>
    simp only [List.mem_append, List.mem_cons] at hmem ⊢
    rcases hmem with hearlier | rfl | hsending
    · exact .inl (.inl hearlier)
    · exact .inr (.inl (hsolving ▸ List.mem_append_right _ List.mem_cons_self))
    · exact .inl (.inr hsending)
  | send hsending hsend =>
    left
    rw [Channel.send?_eq_some hreceiver hsend] at hmem
    rw [hsending]
    simp only [List.mem_append, List.mem_cons, List.not_mem_nil, or_false] at hmem ⊢
    tauto
  | receive _ hreceive =>
    left
    rw [Channel.receive?_eq_some hreceive]
    simp only [List.mem_append, List.mem_cons, List.not_mem_nil, or_false] at hmem ⊢
    tauto

/-! ## Histories -/

/-- A run of a batch up to a state, with the states that it has left, the latest first. -/
inductive History (maxPermits : Nat) (pipeline : Pipeline) (batch : List Submission) :
    List BatchState → BatchState → Prop
  | start : pipeline.Starts maxPermits batch → History maxPermits pipeline batch [] (initial batch)
  | step {past : List BatchState} {state next : BatchState} :
      History maxPermits pipeline batch past state → Step pipeline state next →
      History maxPermits pipeline batch (state :: past) next

theorem History.reachable (h : History maxPermits pipeline batch past state) :
    Reachable maxPermits pipeline batch state := by
  induction h with
  | start hstarts => exact .start hstarts
  | step _ hstep ih => exact ih.step hstep

theorem Reachable.exists_history (h : Reachable maxPermits pipeline batch state) :
    ∃ past, History maxPermits pipeline batch past state := by
  induction h with
  | start hstarts => exact ⟨[], .start hstarts⟩
  | step _ hstep ih =>
    obtain ⟨past, hpast⟩ := ih
    exact ⟨_ :: past, hpast.step hstep⟩

/-- The states that a run has left are states of runs. -/
theorem History.reachable_of_mem (h : History maxPermits pipeline batch past state) {earlier : BatchState}
    (hmem : earlier ∈ past) : Reachable maxPermits pipeline batch earlier := by
  induction h with
  | start => cases hmem
  | step hpast _ ih =>
    rcases List.mem_cons.mp hmem with rfl | hmem
    · exact hpast.reachable
    · exact ih hmem

/-- In one of the states the submission was being solved. -/
def WasSolving (past : List BatchState) (submission : Submission) : Prop :=
  ∃ earlier ∈ past, submission ∈ earlier.solving

theorem Reachable.refusal?_of_task (h : Reachable maxPermits pipeline batch state)
    (hmem : submission ∈ state.tasks) :
    pipeline.refusal? submission.envelope.puzzle = none := by
  induction h with
  | start => cases hmem
  | step _ hstep ih =>
    rcases hstep.mem_tasks hmem with hmem | hrefusal
    · exact ih hmem
    · exact hrefusal

/-- The report on a submission that is not refused follows on a solve. -/
theorem History.wasSolving_of_report (h : History maxPermits pipeline batch past state)
    (hmem : report ∈ state.reports)
    (hrefusal : pipeline.refusal? report.submission.envelope.puzzle = none) :
    WasSolving past report.submission := by
  induction h with
  | start => cases hmem
  | step hpast hstep ih =>
    rcases hstep.mem_reports hpast.reachable.invariant.hasReceiver hmem with
      hearlier | hsolving | hrefused
    · obtain ⟨earlier, hmem, hsolving⟩ := ih hearlier
      exact ⟨earlier, List.mem_cons_of_mem _ hmem, hsolving⟩
    · exact ⟨_, List.mem_cons_self, hsolving⟩
    · exact absurd hrefusal hrefused

/-- Of its batch a finished run has solved what is not refused, and nothing else. -/
theorem History.wasSolving_iff (h : History maxPermits pipeline batch past state) (hend : state.IsFinished)
    (hmem : submission ∈ batch) :
    WasSolving past submission ↔ pipeline.refusal? submission.envelope.puzzle = none := by
  constructor
  · rintro ⟨earlier, hearlier, hsolving⟩
    exact (h.reachable_of_mem hearlier).refusal?_of_task (List.mem_append_right _ hsolving)
  · intro hrefusal
    have hreceived := h.reachable.solve_mem_received hend hmem
    have hreport : pipeline.solve submission ∈ state.reports :=
      List.mem_append_left _ (List.mem_append_left _ hreceived)
    rw [← pipeline.submission_solve submission] at hrefusal ⊢
    exact h.wasSolving_of_report hreport hrefusal

end TimelockAuction.BatchState
