import Mathlib
import TimelockAuction.Proofs.Round.Honest

/-!
# The order of arrival does not matter

Reports come in the order in which puzzles happen to be solved. A round settles each of them on its own, so
another order of arrival rearranges what it keeps and what it excludes, and nothing more; and a report that
joins the others takes nothing away from them.

* `AuctionRound.matchable_perm`, `AuctionRound.excluded_perm`, `AuctionRound.matchable_sublist`,
  `AuctionRound.excluded_sublist`: both halves follow the reports.
* `AuctionRound.sameAnswer_of_perm`: the answer to rearranged reports.
* `AuctionRound.exists_aggregate_of_sublist`: the answer to more reports.
* `AuctionRound.sameAnswer_of_run`: the answer at the end of a run.
* `AuctionRound.aggregate_ignores_arrival`: all three.
-/

namespace TimelockAuction

/-- Two outcomes of a round have the same orders and the same failures, whatever their places. -/
structure RoundOutcome.Rearranges (x y : RoundOutcome) : Prop where
  auction : x.auction = y.auction
  orders : x.orders.Perm y.orders
  failures : x.failures.Perm y.failures

namespace AuctionRound

/-- Two answers of a round are the same, whatever the places of orders and failures: it fails for the same
number of reports, or it succeeds with rearranged outcomes. -/
inductive SameAnswer : Except Error RoundOutcome → Except Error RoundOutcome → Prop
  | failed (count : Nat) :
      SameAnswer (.error (.allOrdersFailed count)) (.error (.allOrdersFailed count))
  | succeeded {x y : RoundOutcome} : x.Rearranges y → SameAnswer (.ok x) (.ok y)

/-- Only a failure is the same answer as a failure. -/
theorem SameAnswer.eq_error {answer : Except Error RoundOutcome} {count : Nat}
    (h : SameAnswer answer (.error (.allOrdersFailed count))) :
    answer = .error (.allOrdersFailed count) := by
  cases h with
  | failed => rfl

variable {round : AuctionRound} {reports others : List Report} {outcome other : RoundOutcome}

/-! ## Both halves follow the reports -/

theorem matchable_perm (h : reports.Perm others) :
    (round.matchable reports).Perm (round.matchable others) :=
  h.filterMap _

theorem excluded_perm (h : reports.Perm others) :
    (round.excluded reports).Perm (round.excluded others) :=
  h.filterMap _

theorem matchable_sublist (h : reports.Sublist others) :
    (round.matchable reports).Sublist (round.matchable others) :=
  h.filterMap _

theorem excluded_sublist (h : reports.Sublist others) :
    (round.excluded reports).Sublist (round.excluded others) :=
  h.filterMap _

/-! ## Rearranged reports -/

/-- Whether a round fails depends on which halves are empty, and permutations leave both as long as they
are. -/
theorem sameAnswer_of_perm (round : AuctionRound) (h : reports.Perm others) :
    SameAnswer (round.aggregate reports) (round.aggregate others) := by
  have hmatchable : (round.matchable reports).Perm (round.matchable others) := matchable_perm h
  have hexcluded : (round.excluded reports).Perm (round.excluded others) := excluded_perm h
  have hnone : round.matchable reports = [] ↔ round.matchable others = [] := by
    rw [← List.length_eq_zero_iff, hmatchable.length_eq, List.length_eq_zero_iff]
  have hall : round.excluded reports = [] ↔ round.excluded others = [] := by
    rw [← List.length_eq_zero_iff, hexcluded.length_eq, List.length_eq_zero_iff]
  cases haggregate : round.aggregate reports with
  | error error =>
    obtain ⟨hempty, hsome, rfl⟩ := aggregate_eq_error_iff.mp haggregate
    have hother : round.aggregate others =
        .error (.allOrdersFailed (round.excluded reports).length) :=
      aggregate_eq_error_iff.mpr
        ⟨hnone.mp hempty, mt hall.mpr hsome, by rw [hexcluded.length_eq]⟩
    rw [hother]
    exact .failed _
  | ok outcome =>
    obtain ⟨hcondition, rfl⟩ := aggregate_eq_ok_iff.mp haggregate
    have hother : round.aggregate others =
        .ok ⟨round.auction, round.matchable others, round.excluded others⟩ :=
      aggregate_eq_ok_iff.mpr ⟨fun hempty => hall.mp (hcondition (hnone.mpr hempty)), rfl⟩
    rw [hother]
    exact .succeeded ⟨rfl, hmatchable, hexcluded⟩

/-- A run ends with the reports in some order, and gets the answer that they get in the order of the
batch. -/
theorem sameAnswer_of_run {maxPermits : Nat} {pipeline : Pipeline} {batch : List Submission}
    {state : BatchState} (round : AuctionRound)
    (hreachable : BatchState.Reachable maxPermits pipeline batch state) (hend : state.IsFinished) :
    SameAnswer (round.aggregate state.received) (round.aggregate (pipeline.reportsOn batch)) :=
  sameAnswer_of_perm round (hreachable.received_perm hend)

/-! ## More reports -/

/-- An outcome that is not empty has an order, which is enough for the round to succeed on more reports. -/
theorem exists_aggregate_of_sublist (h : reports.Sublist others)
    (haggregate : round.aggregate reports = .ok outcome) (htotal : 0 < outcome.total) :
    ∃ other, round.aggregate others = .ok other := by
  obtain ⟨hcondition, rfl⟩ := aggregate_eq_ok_iff.mp haggregate
  have hsome : round.matchable reports ≠ [] := by
    intro hnone
    rw [RoundOutcome.total, hnone, hcondition hnone] at htotal
    exact Nat.lt_irrefl 0 htotal
  have hmore : round.matchable others ≠ [] := by
    intro hnone
    have hsublist : (round.matchable reports).Sublist (round.matchable others) :=
      matchable_sublist h
    rw [hnone] at hsublist
    exact hsome (List.sublist_nil.mp hsublist)
  exact ⟨_, aggregate_eq_ok_iff.mpr ⟨fun hnone => absurd hnone hmore, rfl⟩⟩

theorem sublist_of_aggregate (h : reports.Sublist others)
    (haggregate : round.aggregate reports = .ok outcome)
    (hother : round.aggregate others = .ok other) :
    outcome.orders.Sublist other.orders ∧ outcome.failures.Sublist other.failures := by
  obtain ⟨-, rfl⟩ := aggregate_eq_ok_iff.mp haggregate
  obtain ⟨-, rfl⟩ := aggregate_eq_ok_iff.mp hother
  exact ⟨matchable_sublist h, excluded_sublist h⟩

/-- **The order of arrival does not matter.** On rearranged reports a round gives the same answer, up to the
places of orders and failures; so it does at the end of every run of a batch. Reports that are put in among
others, wherever it be, do not make a round fail whose outcome was not empty, and remove neither an order
from its outcome nor a failure. -/
theorem aggregate_ignores_arrival (round : AuctionRound) :
    (∀ reports others : List Report, reports.Perm others →
      SameAnswer (round.aggregate reports) (round.aggregate others)) ∧
    (∀ (maxPermits : Nat) (pipeline : Pipeline) (batch : List Submission) (state : BatchState),
      BatchState.Reachable maxPermits pipeline batch state → state.IsFinished →
        SameAnswer (round.aggregate state.received)
          (round.aggregate (pipeline.reportsOn batch))) ∧
    ∀ (reports others : List Report) (outcome : RoundOutcome), reports.Sublist others →
      round.aggregate reports = .ok outcome →
        (0 < outcome.total → ∃ other, round.aggregate others = .ok other) ∧
        ∀ other, round.aggregate others = .ok other →
          outcome.orders.Sublist other.orders ∧ outcome.failures.Sublist other.failures := by
  refine ⟨?_, ?_, ?_⟩
  · intro reports others hperm
    exact sameAnswer_of_perm round hperm
  · intro maxPermits pipeline batch state hreachable hend
    exact sameAnswer_of_run round hreachable hend
  · intro reports others outcome hsublist haggregate
    exact ⟨exists_aggregate_of_sublist hsublist haggregate,
      fun other hother => sublist_of_aggregate hsublist haggregate hother⟩

/-- A report on the small order. -/
def smallReport : Report :=
  ⟨⟨1, hostileSubmission.envelope⟩, .ok smallOrder⟩

/-- A report on a submission that was refused. -/
def refusedReport : Report :=
  ⟨hostileSubmission, .error (.puzzleSolve (.stepsBeyondLimit (UInt64.ofNat maxLength) 30000))⟩

/-- The refused submission, reported first or last, leaves the small order in the round; alone in its batch
it makes the round fail. -/
theorem smallReport_in_any_place :
    SameAnswer ((ofParams ⟨smallOrder.auction, 30000⟩).aggregate [smallReport, refusedReport])
      ((ofParams ⟨smallOrder.auction, 30000⟩).aggregate [refusedReport, smallReport]) ∧
    (∃ state, BatchState.Reachable 4 (Pipeline.ofConfig .default 4) [hostileSubmission] state ∧
      state.IsFinished ∧ (ofParams ⟨smallOrder.auction, 30000⟩).aggregate state.received =
        .error (.allOrdersFailed 1)) ∧
    ∃ other, (ofParams ⟨smallOrder.auction, 30000⟩).aggregate [refusedReport, smallReport] =
        .ok other ∧ [smallOrder].Sublist other.orders := by
  obtain ⟨hperm, hrun, hmore⟩ := aggregate_ignores_arrival (ofParams ⟨smallOrder.auction, 30000⟩)
  have haggregate : (ofParams ⟨smallOrder.auction, 30000⟩).aggregate [smallReport] =
      .ok ⟨smallOrder.auction, [smallOrder], []⟩ := rfl
  obtain ⟨hsucceeds, hkeeps⟩ := hmore [smallReport] [refusedReport, smallReport] _
    (.cons _ (.refl _)) haggregate
  obtain ⟨other, hother⟩ := hsucceeds (by decide)
  have hstarts : (Pipeline.ofConfig .default 4).Starts 4 [hostileSubmission] :=
    AuctionConfig.starts_of_workersOn_le (by decide) _
  obtain ⟨state, hreachable, hend⟩ := BatchState.exists_finished hstarts
  have hbatch : (ofParams ⟨smallOrder.auction, 30000⟩).aggregate
      ((Pipeline.ofConfig .default 4).reportsOn [hostileSubmission]) =
        .error (.allOrdersFailed 1) := rfl
  have hfails : (ofParams ⟨smallOrder.auction, 30000⟩).aggregate state.received =
      .error (.allOrdersFailed 1) :=
    SameAnswer.eq_error (hbatch ▸ hrun _ _ _ state hreachable hend)
  exact ⟨hperm _ _ (.swap _ _ _), ⟨state, hreachable, hend, hfails⟩, other, hother,
    (hkeeps other hother).1⟩

end AuctionRound

end TimelockAuction
