import Mathlib
import TimelockAuction.Proofs.Round

/-!
# A round divides its reports exactly

Every report either brings a matchable order or is excluded for one cause, the first of four that
applies. A round keeps both parts in the order in which the reports came, logs each exclusion, and fails
only if there is something to exclude and nothing to keep.

* `AuctionRound.settle_eq_error_iff`: the cause for which a report is excluded.
* `AuctionRound.divides`: what is kept and what is excluded.
* `AuctionRound.aggregate_of_none_good`, `AuctionRound.aggregate_of_good`: when a round fails.
* `AuctionRound.orders_disjoint`: no order is in the outcomes of two rounds.
* `AuctionRound.aggregate_divides_exactly`: all of it, with the log.
-/

namespace TimelockAuction.AuctionRound

variable {round : AuctionRound} {report : Report} {order : AuctionOrder} {error : Error}
  {reports : List Report}

/-! ## Good reports -/

/-- The report is on an order that is bound to the round inside and outside its envelope, and whose
signature verifies. -/
structure Brings (round : AuctionRound) (report : Report) (order : AuctionOrder) : Prop where
  recovered : report.outcome = .ok order
  envelope_bound : report.submission.envelope.auction = round.auction
  order_bound : order.auction = round.auction
  verifies : round.Verifies order

def IsGood (round : AuctionRound) (report : Report) : Prop :=
  ∃ order, round.Brings report order

theorem settle_eq_ok_iff_brings : round.settle report = .ok order ↔ round.Brings report order := by
  rw [settle_eq_ok_iff]
  constructor
  · rintro ⟨hrecovered, henvelope, horder, hverifies⟩
    exact ⟨hrecovered, henvelope, horder.trans henvelope, hverifies⟩
  · rintro ⟨hrecovered, henvelope, horder, hverifies⟩
    exact ⟨hrecovered, henvelope, horder.trans henvelope.symm, hverifies⟩

theorem isOk_settle_iff : (round.settle report).isOk = true ↔ round.IsGood report := by
  unfold IsGood
  simp only [← settle_eq_ok_iff_brings]
  cases round.settle report <;> simp [Except.isOk, Except.toBool]

instance : DecidablePred round.IsGood := fun _ => decidable_of_iff _ isOk_settle_iff

theorem isOk_settle_eq : (round.settle report).isOk = decide (round.IsGood report) := by
  rw [Bool.eq_iff_iff, isOk_settle_iff, decide_eq_true_iff]

/-! ## Causes of exclusion -/

/-- Why a report is excluded. The causes are tried in this order. -/
inductive Excludes (round : AuctionRound) (report : Report) : Error → Prop
  /-- Nothing was recovered, and the report says why. -/
  | unsolved {error : Error} : report.outcome = .error error → Excludes round report error
  /-- The envelope is for another round. -/
  | foreign {order : AuctionOrder} : report.outcome = .ok order →
      report.submission.envelope.auction ≠ round.auction →
      Excludes round report (.auctionMismatch round.auction report.submission.envelope.auction)
  /-- The order inside is for another round than the envelope. -/
  | misplaced {order : AuctionOrder} : report.outcome = .ok order →
      report.submission.envelope.auction = round.auction →
      order.auction ≠ report.submission.envelope.auction →
      Excludes round report (.auctionMismatch report.submission.envelope.auction order.auction)
  | unsigned {order : AuctionOrder} : report.outcome = .ok order →
      report.submission.envelope.auction = round.auction →
      order.auction = report.submission.envelope.auction → ¬ round.Verifies order →
      Excludes round report .signatureInvalid

theorem isGood_or_excludes (round : AuctionRound) (report : Report) :
    round.IsGood report ∨ ∃ error, round.Excludes report error := by
  cases houtcome : report.outcome with
  | error error => exact .inr ⟨error, .unsolved houtcome⟩
  | ok order =>
    by_cases henvelope : report.submission.envelope.auction = round.auction
    · by_cases horder : order.auction = report.submission.envelope.auction
      · by_cases hverifies : round.Verifies order
        · exact .inl ⟨order, houtcome, henvelope, horder.trans henvelope, hverifies⟩
        · exact .inr ⟨_, .unsigned houtcome henvelope horder hverifies⟩
      · exact .inr ⟨_, .misplaced houtcome henvelope horder⟩
    · exact .inr ⟨_, .foreign houtcome henvelope⟩

theorem verify_of_not_verifies (h : ¬ round.Verifies order) :
    round.verify order = .error .signatureInvalid := by
  unfold Verifies at h
  push Not at h
  obtain ⟨verifier, hverifier, hreject⟩ := h
  unfold verify
  rw [hverifier]
  exact if_neg hreject

theorem settle_of_checkOrder (houtcome : report.outcome = .ok order)
    (hcheck : round.checkOrder report.submission.envelope order = .error error) :
    round.settle report = .error error := by
  unfold settle
  rw [houtcome]
  change (round.checkOrder report.submission.envelope order >>= _) = _
  rw [hcheck]
  rfl

theorem settle_of_excludes (h : round.Excludes report error) : round.settle report = .error error := by
  cases h with
  | unsolved houtcome =>
    unfold settle
    rw [houtcome]
    rfl
  | foreign houtcome henvelope =>
    apply settle_of_checkOrder houtcome
    have hcheck : round.checkEnvelope report.submission.envelope = .error _ := if_neg henvelope
    rw [checkOrder, hcheck]
    rfl
  | misplaced houtcome henvelope horder =>
    apply settle_of_checkOrder houtcome
    rw [checkOrder, checkEnvelope_eq_ok_iff.mpr henvelope]
    exact if_neg horder
  | unsigned houtcome henvelope horder hverifies =>
    apply settle_of_checkOrder houtcome
    rw [checkOrder, checkEnvelope_eq_ok_iff.mpr henvelope]
    exact (if_pos horder).trans (verify_of_not_verifies hverifies)

theorem settle_eq_error_iff : round.settle report = .error error ↔ round.Excludes report error := by
  constructor
  · intro h
    rcases isGood_or_excludes round report with ⟨order, hgood⟩ | ⟨cause, hcause⟩
    · exact nomatch (settle_eq_ok_iff_brings.mpr hgood).symm.trans h
    · cases (settle_of_excludes hcause).symm.trans h
      exact hcause
  · exact settle_of_excludes

/-! ## The division -/

/-- The orders are those that the good reports bring, and the failures are those of the other reports,
each with its cause; both in the order of the reports. -/
structure Divides (round : AuctionRound) (reports : List Report) (orders : List AuctionOrder)
    (failures : List FailedOrder) : Prop where
  orders : List.Forall₂ (fun order report => round.Brings report order) orders
    (reports.filter fun report => round.IsGood report)
  failures : List.Forall₂
    (fun failure report =>
      failure.submission = report.submission ∧ round.Excludes report failure.error)
    failures (reports.filter fun report => ¬ round.IsGood report)

theorem divides (round : AuctionRound) (reports : List Report) :
    round.Divides reports (round.matchable reports) (round.excluded reports) := by
  have hmatchable := forall₂_matchable round reports
  have hexcluded := forall₂_excluded round reports
  simp only [isOk_settle_eq, settle_eq_ok_iff_brings] at hmatchable
  simp only [isOk_settle_eq, settle_eq_error_iff, ← decide_not] at hexcluded
  exact ⟨hmatchable, hexcluded⟩

namespace Divides

variable {orders : List AuctionOrder} {failures : List FailedOrder}

theorem length_failures (h : round.Divides reports orders failures)
    (hnone : ∀ report ∈ reports, ¬ round.IsGood report) : failures.length = reports.length := by
  rw [h.failures.length_eq, List.filter_eq_self.mpr]
  intro report hmem
  exact decide_eq_true (hnone report hmem)

theorem orders_eq_nil_iff (h : round.Divides reports orders failures) :
    orders = [] ↔ ∀ report ∈ reports, ¬ round.IsGood report := by
  rw [← List.length_eq_zero_iff, h.orders.length_eq, List.length_eq_zero_iff, List.filter_eq_nil_iff]
  simp only [decide_eq_true_eq]

end Divides

theorem aggregate_of_none_good (hsome : reports ≠ [])
    (hnone : ∀ report ∈ reports, ¬ round.IsGood report) :
    round.aggregate reports = .error (.allOrdersFailed reports.length) := by
  have horders := (divides round reports).orders_eq_nil_iff.mpr hnone
  have hlength := (divides round reports).length_failures hnone
  have hfailures : round.excluded reports ≠ [] := by
    rw [← List.length_pos_iff, hlength]
    exact List.length_pos_iff.mpr hsome
  have hfails : ((round.matchable reports).isEmpty && !(round.excluded reports).isEmpty) = true := by
    simp [horders, hfailures]
  rw [← hlength]
  exact if_pos hfails

theorem aggregate_of_good (h : reports = [] ∨ ∃ report ∈ reports, round.IsGood report) :
    round.aggregate reports =
      .ok ⟨round.auction, round.matchable reports, round.excluded reports⟩ := by
  refine aggregate_eq_ok_iff.mpr ⟨fun hnone => ?_, rfl⟩
  rcases h with rfl | ⟨report, hmem, hgood⟩
  · rfl
  · exact absurd hgood ((divides round reports).orders_eq_nil_iff.mp hnone report hmem)

theorem auction_of_mem_orders {outcome : RoundOutcome} (h : round.aggregate reports = .ok outcome)
    (hmem : order ∈ outcome.orders) : order.auction = round.auction := by
  obtain ⟨-, rfl⟩ := aggregate_eq_ok_iff.mp h
  obtain ⟨report, -, hsettle⟩ := mem_matchable_iff.mp hmem
  exact (settle_eq_ok_iff_brings.mp hsettle).order_bound

theorem orders_disjoint {other : AuctionRound} {others : List Report}
    {outcome otherOutcome : RoundOutcome} (hne : round.auction ≠ other.auction)
    (h : round.aggregate reports = .ok outcome) (hother : other.aggregate others = .ok otherOutcome) :
    outcome.orders.Disjoint otherOutcome.orders := by
  intro order hmem hmemOther
  exact hne ((auction_of_mem_orders h hmem).symm.trans (auction_of_mem_orders hother hmemOther))

/-- **A round divides its reports exactly.** Whatever the reports are on, each gives an order or a failure
with its cause, in the order of the reports, and each failure is logged. If there are reports and none of
them is good the round fails with their number. Otherwise it succeeds with the orders and the failures,
and their numbers are logged. An order of its outcome is in no outcome of a round with another
identifier. -/
theorem aggregate_divides_exactly (round : AuctionRound) (reports : List Report) :
    ∃ (orders : List AuctionOrder) (failures : List FailedOrder) (warnings : List Event),
      round.Divides reports orders failures ∧
      warnings = failures.map (fun failure =>
        ⟨.warn, "Order excluded from round",
          [("auction", round.auction.text), ("category", failure.error.category.text),
            ("error", failure.error.message)]⟩) ∧
      (reports ≠ [] ∧ (∀ report ∈ reports, ¬ round.IsGood report) →
        round.aggregate reports = .error (.allOrdersFailed reports.length) ∧
        round.aggregateEvents reports = warnings) ∧
      (reports = [] ∨ (∃ report ∈ reports, round.IsGood report) →
        round.aggregate reports = .ok ⟨round.auction, orders, failures⟩ ∧
        round.aggregateEvents reports = warnings ++
          [⟨.info, "Round aggregated",
            [("engine", engineName), ("version", version), ("auction", round.auction.text),
              ("matchable", toString orders.length), ("excluded", toString failures.length)]⟩]) ∧
      ∀ (other : AuctionRound) (others : List Report) (outcome otherOutcome : RoundOutcome),
        round.auction ≠ other.auction → round.aggregate reports = .ok outcome →
          other.aggregate others = .ok otherOutcome → outcome.orders.Disjoint otherOutcome.orders := by
  refine ⟨round.matchable reports, round.excluded reports, _, divides round reports, rfl, ?_, ?_,
    fun _ _ _ _ => orders_disjoint⟩
  · rintro ⟨hsome, hnone⟩
    have haggregate := aggregate_of_none_good hsome hnone
    refine ⟨haggregate, ?_⟩
    unfold aggregateEvents
    rw [haggregate, List.append_nil]
    rfl
  · intro hgood
    have haggregate := aggregate_of_good hgood
    refine ⟨haggregate, ?_⟩
    unfold aggregateEvents
    rw [haggregate]
    rfl

/-- A round that nobody took part in does not fail. -/
example (round : AuctionRound) : round.aggregate [] = .ok ⟨round.auction, [], []⟩ := rfl

end TimelockAuction.AuctionRound
