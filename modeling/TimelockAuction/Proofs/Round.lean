import Mathlib
import TimelockAuction.Round
import TimelockAuction.Proofs.Batch.Run
import TimelockAuction.Proofs.Envelope

/-!
# What a round makes of its reports

Each report is settled on its own: it gives a matchable order or a failure with its cause. A round keeps
both, in the order of the reports.

* `AuctionRound.settle_eq_ok_iff`: what makes an order matchable.
* `AuctionRound.forall₂_matchable`, `AuctionRound.forall₂_excluded`: the two halves of the division.
* `AuctionRound.aggregate_eq_ok_iff`, `AuctionRound.aggregate_eq_error_iff`,
  `AuctionRound.aggregate_of_mem`: when a round fails, and when it does not.
-/

namespace TimelockAuction

namespace AuctionRound

variable {round : AuctionRound} {outcome : RoundOutcome}

/-! ## Checks -/

theorem checkEnvelope_eq_ok_iff {envelope : Envelope} :
    round.checkEnvelope envelope = .ok () ↔ envelope.auction = round.auction := by
  unfold checkEnvelope
  split
  · rename_i h
    exact ⟨fun _ => h, fun _ => rfl⟩
  · rename_i h
    exact ⟨fun hok => (by cases hok), fun heq => absurd heq h⟩

/-- The round has no verifier, or it accepts the signature on the bytes that are signed. -/
def Verifies (round : AuctionRound) (order : AuctionOrder) : Prop :=
  ∀ verifier, round.verifier = some verifier →
    verifier order.pubkey order.signable order.signature = true

theorem verify_eq_ok_iff {order : AuctionOrder} :
    round.verify order = .ok () ↔ round.Verifies order := by
  unfold verify Verifies
  cases round.verifier with
  | none => exact ⟨fun _ verifier h => (by cases h), fun _ => rfl⟩
  | some verifier =>
    constructor
    · intro h _ heq
      cases heq
      by_contra hreject
      simp only [if_neg hreject] at h
      cases h
    · intro h
      exact if_pos (h verifier rfl)

theorem verify_withVerifier_eq_ok_iff {verifier : OrderVerifier} {order : AuctionOrder} :
    (round.withVerifier verifier).verify order = .ok () ↔
      verifier order.pubkey order.signable order.signature = true := by
  rw [verify_eq_ok_iff]
  constructor
  · intro h
    exact h verifier rfl
  · rintro h _ ⟨⟩
    exact h

theorem checkOrder_eq_ok_iff {envelope : Envelope} {order : AuctionOrder} :
    round.checkOrder envelope order = .ok () ↔
      envelope.auction = round.auction ∧ order.auction = envelope.auction ∧
        round.Verifies order := by
  unfold checkOrder
  rw [← checkEnvelope_eq_ok_iff]
  cases round.checkEnvelope envelope with
  | error error => exact ⟨fun h => (by cases h), fun h => (by cases h.1)⟩
  | ok =>
    change (if order.auction = envelope.auction then _ else _) = _ ↔ _
    by_cases hauction : order.auction = envelope.auction
    · rw [if_pos hauction, verify_eq_ok_iff]
      exact ⟨fun h => ⟨rfl, hauction, h⟩, fun h => h.2.2⟩
    · rw [if_neg hauction]
      exact ⟨fun h => (by cases h), fun h => absurd h.2.1 hauction⟩

/-- A report gives a matchable order if it was recovered and passes every check. -/
theorem settle_eq_ok_iff {report : Report} {order : AuctionOrder} :
    round.settle report = .ok order ↔
      report.outcome = .ok order ∧ report.submission.envelope.auction = round.auction ∧
        order.auction = report.submission.envelope.auction ∧ round.Verifies order := by
  unfold settle
  rw [← checkOrder_eq_ok_iff]
  cases report.outcome with
  | error error => exact ⟨fun h => (by cases h), fun h => (by cases h.1)⟩
  | ok recovered =>
    change (round.checkOrder report.submission.envelope recovered >>= fun _ => pure recovered) =
      .ok order ↔ _
    constructor
    · intro h
      cases hcheck : round.checkOrder report.submission.envelope recovered with
      | error error =>
        rw [hcheck] at h
        cases h
      | ok =>
        rw [hcheck] at h
        cases h
        exact ⟨rfl, hcheck⟩
    · rintro ⟨hok, hcheck⟩
      cases hok
      rw [hcheck]
      rfl

/-! ## The division -/

/-- The matchable orders are those of the reports that settle well, in their order. -/
theorem forall₂_matchable (round : AuctionRound) (reports : List Report) :
    List.Forall₂ (fun order report => round.settle report = .ok order) (round.matchable reports)
      (reports.filter fun report => (round.settle report).isOk) := by
  induction reports with
  | nil => exact .nil
  | cons report rest ih =>
    unfold matchable at ih ⊢
    cases hsettle : round.settle report with
    | ok order =>
      simp only [List.filterMap_cons, List.filter_cons, hsettle, Except.toOption, Except.isOk,
        Except.toBool, if_true]
      exact .cons hsettle ih
    | error error =>
      simp only [List.filterMap_cons, List.filter_cons, hsettle, Except.toOption, Except.isOk,
        Except.toBool, Bool.false_eq_true, if_false]
      exact ih

/-- The failures are those of the other reports, in their order. -/
theorem forall₂_excluded (round : AuctionRound) (reports : List Report) :
    List.Forall₂
      (fun failure report =>
        failure.submission = report.submission ∧ round.settle report = .error failure.error)
      (round.excluded reports)
      (reports.filter fun report => !(round.settle report).isOk) := by
  induction reports with
  | nil => exact .nil
  | cons report rest ih =>
    unfold excluded at ih ⊢
    cases hsettle : round.settle report with
    | ok order =>
      simp only [List.filterMap_cons, List.filter_cons, hsettle, Except.isOk, Except.toBool,
        Bool.not_true, Bool.false_eq_true, if_false]
      exact ih
    | error error =>
      simp only [List.filterMap_cons, List.filter_cons, hsettle, Except.isOk, Except.toBool,
        Bool.not_false, if_true]
      exact .cons ⟨rfl, hsettle⟩ ih

theorem mem_matchable_iff {reports : List Report} {order : AuctionOrder} :
    order ∈ round.matchable reports ↔ ∃ report ∈ reports, round.settle report = .ok order := by
  unfold matchable
  rw [List.mem_filterMap]
  refine exists_congr fun report => and_congr_right fun _ => ?_
  cases round.settle report <;> simp [Except.toOption]

/-- A round that does not fail keeps both halves of the division. -/
theorem aggregate_eq_ok_iff {reports : List Report} :
    round.aggregate reports = .ok outcome ↔
      (round.matchable reports = [] → round.excluded reports = []) ∧
        outcome = ⟨round.auction, round.matchable reports, round.excluded reports⟩ := by
  unfold aggregate
  simp only [Bool.and_eq_true, Bool.not_eq_true', List.isEmpty_iff, List.isEmpty_eq_false_iff]
  split
  · rename_i h
    exact ⟨fun hok => (by cases hok), fun hok => absurd (hok.1 h.1) h.2⟩
  · rename_i h
    rw [not_and, not_not] at h
    constructor
    · intro hok
      cases hok
      exact ⟨h, rfl⟩
    · rintro ⟨-, rfl⟩
      rfl

/-- A round fails if there are failures only, and says how many. -/
theorem aggregate_eq_error_iff {reports : List Report} {error : Error} :
    round.aggregate reports = .error error ↔
      round.matchable reports = [] ∧ round.excluded reports ≠ [] ∧
        error = .allOrdersFailed (round.excluded reports).length := by
  unfold aggregate
  simp only [Bool.and_eq_true, Bool.not_eq_true', List.isEmpty_iff, List.isEmpty_eq_false_iff]
  split
  · rename_i h
    constructor
    · intro herror
      cases herror
      exact ⟨h.1, h.2, rfl⟩
    · rintro ⟨-, -, rfl⟩
      rfl
  · rename_i h
    exact ⟨fun herror => (by cases herror), fun herror => absurd ⟨herror.1, herror.2.1⟩ h⟩

/-- One report that settles well is enough for the round not to fail. -/
theorem aggregate_of_mem {reports : List Report} {report : Report} {order : AuctionOrder}
    (hmem : report ∈ reports) (hsettle : round.settle report = .ok order) :
    ∃ outcome, round.aggregate reports = .ok outcome ∧ order ∈ outcome.orders := by
  have horder : order ∈ round.matchable reports := mem_matchable_iff.mpr ⟨report, hmem, hsettle⟩
  have hsome : round.matchable reports ≠ [] := List.ne_nil_of_mem horder
  exact ⟨_, aggregate_eq_ok_iff.mpr ⟨fun hnone => absurd hnone hsome, rfl⟩, horder⟩

end AuctionRound

end TimelockAuction
