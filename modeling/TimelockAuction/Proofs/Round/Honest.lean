import Mathlib
import TimelockAuction.Proofs.Batch.Limits
import TimelockAuction.Proofs.Round

/-!
# An honest order is not lost

An order is sealed for a round by a creator of the server's configuration, for no more steps than the
round takes. Its envelope travels as bytes, and is solved among envelopes that anyone may have submitted.

* `Pipeline.solve_of_enclose`: the pipeline recovers the order, unpriced.
* `AuctionRound.order_mem_orders_of_enclose`: the order is matchable at the end of every run that starts.
* `AuctionRound.overstaffed_loses_smallOrder`: no run starts where there are more workers than permits.
-/

namespace TimelockAuction

variable {config : AuctionConfig} {creator : PuzzleCreator} {order : AuctionOrder} {steps : UInt64}
  {supply rest : Bytes} {envelope : Envelope}

/-! ## Solving -/

theorem Pipeline.solve_of_enclose (cores ticket : Nat)
    (hcreator : creator = .squaringOf config ∨ creator = .hashChainOf config)
    (hsteps : steps ≤ config.auctionTime) (hprimes : creator.DrawsPrimes supply)
    (hseal : (Envelope.enclose order steps creator).run supply = some (.ok envelope, rest)) :
    (ofConfig config cores).solve ⟨ticket, envelope⟩ =
      ⟨⟨ticket, envelope⟩, .ok order.unpriced⟩ := by
  have hadmits := AuctionConfig.admits_of_enclose hcreator hsteps hseal
  have hrefusal := (AuctionConfig.refusal?_ofConfig_eq_none_iff cores).mpr hadmits
  rw [solve_of_no_refusal hrefusal, Submission.solve, Envelope.solveOrder_of_enclose hprimes hseal]

/-! ## Rounds -/

namespace AuctionRound

variable {round : AuctionRound}

/-- The price does not matter to the checks of a round. -/
theorem settle_unpriced {submission : Submission}
    (henvelope : submission.envelope.auction = order.auction) (hround : round.auction = order.auction)
    (hverifies : round.Verifies order) :
    round.settle ⟨submission, .ok order.unpriced⟩ = .ok order.unpriced :=
  settle_eq_ok_iff.mpr ⟨rfl, henvelope.trans hround.symm, henvelope.symm, hverifies⟩

/-- **An honest order is not lost.** Whatever is submitted with it, wherever it stands in the batch and
however the steps of the run fall: the envelope arrives as it was sent, the round lets it in, and the run
starts exactly if there are permits for all workers. It can always be brought to its end, and there every
report on the envelope is the order without its price and the round as a whole succeeds with this order. -/
theorem order_mem_orders_of_enclose
    (hcreator : creator = .squaringOf config ∨ creator = .hashChainOf config)
    (hsteps : steps ≤ config.auctionTime) (hprimes : creator.DrawsPrimes supply)
    (hseal : (Envelope.enclose order steps creator).run supply = some (.ok envelope, rest)) :
    ∃ sent, Envelope.decode envelope.encode = .ok sent ∧
      ∀ round : AuctionRound, round.auction = order.auction → round.Verifies order →
        round.checkEnvelope sent = .ok () ∧
        ∀ (maxPermits cores ticket : Nat) (before after : List Submission),
          ((∃ state, BatchState.Reachable maxPermits (Pipeline.ofConfig config cores)
            (before ++ ⟨ticket, sent⟩ :: after) state) ↔ config.workersOn cores ≤ maxPermits) ∧
          ∀ state, BatchState.Reachable maxPermits (Pipeline.ofConfig config cores)
            (before ++ ⟨ticket, sent⟩ :: after) state →
          (∃ final, final.IsFinished ∧
            Relation.ReflTransGen (BatchState.Step (Pipeline.ofConfig config cores)) state final) ∧
          (state.IsFinished →
            ⟨⟨ticket, sent⟩, .ok order.unpriced⟩ ∈ state.received ∧
            (∀ report ∈ state.received, report.submission.envelope = sent →
              report.outcome = .ok order.unpriced) ∧
            ∃ outcome, round.aggregate state.received = .ok outcome ∧
              order.unpriced ∈ outcome.orders) := by
  have hauction := (Envelope.enclose_eq_some_iff.mp hseal).2
  refine ⟨envelope, Envelope.decode_encode_of_enclose hprimes hseal, ?_⟩
  intro round hround hverifies
  refine ⟨checkEnvelope_eq_ok_iff.mpr (hauction.trans hround.symm), ?_⟩
  intro maxPermits cores ticket before after
  have hsome : before ++ ⟨ticket, envelope⟩ :: after ≠ [] :=
    List.append_ne_nil_of_right_ne_nil before (List.cons_ne_nil _ after)
  refine ⟨AuctionConfig.exists_reachable_ofConfig_iff hsome, ?_⟩
  intro state hreachable
  refine ⟨hreachable.exists_end, fun hend => ?_⟩
  have hsolve := fun ticket => Pipeline.solve_of_enclose cores ticket hcreator hsteps hprimes hseal
  have hmem : ⟨⟨ticket, envelope⟩, .ok order.unpriced⟩ ∈ state.received := by
    rw [← hsolve ticket]
    exact hreachable.solve_mem_received hend (List.mem_append_right _ List.mem_cons_self)
  refine ⟨hmem, ?_, aggregate_of_mem hmem (settle_unpriced hauction hround hverifies)⟩
  intro report hreport henvelope
  have hperm := hreachable.received_perm hend
  obtain ⟨⟨ticket', envelope'⟩, -, rfl⟩ := List.mem_map.mp (hperm.mem_iff.mp hreport)
  rw [Pipeline.submission_solve] at henvelope
  cases henvelope
  rw [hsolve ticket']

/-! ## A small round -/

/-- An unsigned order of five units for seven. -/
def smallOrder : AuctionOrder :=
  ⟨.zero, .buy, ⟨⟨1⟩, ⟨2⟩⟩, 5, 7, .zero, ⟨Vector.replicate 32 9⟩, .ofNumber 0, []⟩

/-- The order seals with a supply that is enough for a seed and a nonce. -/
theorem exists_enclose_smallOrder :
    ∃ envelope rest, (Envelope.enclose smallOrder 3 (.hashChainOf .default)).run
      (List.replicate 44 0) = some (.ok envelope, rest) :=
  ⟨_, _, rfl⟩

/-- A submission whose puzzle asks for more steps than any round takes. -/
def hostileSubmission : Submission :=
  ⟨0, [], .hashChain ⟨Vector.replicate 32 0, UInt64.ofNat maxLength, 1⟩, ⟨Vector.replicate 32 9⟩⟩

theorem smallOrder_mem_orders :
    ∃ (sent : Envelope) (state : BatchState) (outcome : RoundOutcome),
      BatchState.Reachable 4 (Pipeline.ofConfig .default 4) [hostileSubmission, ⟨0, sent⟩] state ∧
      state.IsFinished ∧
      (ofParams ⟨smallOrder.auction, 30000⟩).aggregate state.received = .ok outcome ∧
      smallOrder.unpriced ∈ outcome.orders := by
  obtain ⟨envelope, rest, hseal⟩ := exists_enclose_smallOrder
  have hcreator : PuzzleCreator.hashChainOf .default = .squaringOf .default ∨
      PuzzleCreator.hashChainOf .default = .hashChainOf .default := Or.inr rfl
  obtain ⟨sent, -, hround⟩ := order_mem_orders_of_enclose hcreator (by decide) trivial hseal
  obtain ⟨-, hruns⟩ := hround (ofParams ⟨smallOrder.auction, 30000⟩) rfl
    (fun verifier h => (by cases h))
  obtain ⟨hstarts, hstates⟩ := hruns 4 4 0 [hostileSubmission] []
  obtain ⟨state, hreachable⟩ := hstarts.mpr (by decide)
  obtain ⟨⟨final, hend, hsteps⟩, -⟩ := hstates state hreachable
  have hfinal := hreachable.of_steps hsteps
  obtain ⟨-, -, outcome, haggregate, hmem⟩ := (hstates final hfinal).2 hend
  exact ⟨sent, final, outcome, hfinal, hend, haggregate, hmem⟩

/-- With `2 ^ 61` workers the same order is sealed, arrives and is let in, and is lost where one permit less
can be given out. -/
theorem overstaffed_loses_smallOrder :
    AuctionConfig.overstaffed.validate = .ok () ∧
    ∃ envelope rest, (Envelope.enclose smallOrder 3 (.hashChainOf .overstaffed)).run
        (List.replicate 44 0) = some (.ok envelope, rest) ∧
      Envelope.decode envelope.encode = .ok envelope ∧
      (ofParams ⟨smallOrder.auction, 30000⟩).checkEnvelope envelope = .ok () ∧
      (Pipeline.ofConfig .overstaffed 4).solveBatch? (2 ^ 61 - 1) [⟨0, envelope⟩] = none ∧
      ∀ state, ¬ BatchState.Reachable (2 ^ 61 - 1) (Pipeline.ofConfig .overstaffed 4)
        [⟨0, envelope⟩] state := by
  obtain ⟨envelope, rest, hseal⟩ := exists_enclose_smallOrder
  have hauction := (Envelope.enclose_eq_some_iff.mp hseal).2
  have hprimes : (PuzzleCreator.hashChainOf .default).DrawsPrimes (List.replicate 44 0) := trivial
  have hidle := AuctionConfig.not_reachable_overstaffed 4 (List.cons_ne_nil ⟨0, envelope⟩ [])
  exact ⟨by decide, envelope, rest, hseal, Envelope.decode_encode_of_enclose hprimes hseal,
    checkEnvelope_eq_ok_iff.mpr hauction, BatchState.solveBatch?_eq_none_iff.mpr hidle, hidle⟩

end AuctionRound

end TimelockAuction
