import Mathlib
import TimelockAuction.Proofs.Round.Honest

/-!
# Nothing is invented in a round

Every entry of a round's outcome, matchable or not, has a place of its own in the batch, and the places
are all taken. What is matchable was sealed at its place, bit for bit, and its verifier saw the front of
the plaintext that was recovered there.

* `exists_places`: places for two lists that divide a third.
* `AuctionRound.sealedIn_of_settle`: where a matchable order comes from.
* `AuctionRound.exists_places_of_perm`: the places for reports in any order.
* `AuctionRound.orders_are_sealed_in_batch`: the places at the end of any run.
-/

namespace TimelockAuction

/-! ## Places -/

/-- If two lists follow the two parts of a division, their entries have the places of the division. -/
theorem exists_places {α β γ : Type} [DecidableEq γ] {R : α → γ → Prop} {S : β → γ → Prop}
    {xs : List α} {ys : List β} {good bad all : List γ} (hxs : List.Forall₂ R xs good)
    (hys : List.Forall₂ S ys bad) (hall : (good ++ bad).Perm all) :
    ∃ place : Fin xs.length ⊕ Fin ys.length ≃ Fin all.length,
      (∀ i : Fin xs.length, R xs[i] all[place (.inl i)]) ∧
        ∀ k : Fin ys.length, S ys[k] all[place (.inr k)] := by
  have hlength : xs.length + ys.length = (good ++ bad).length := by
    rw [List.length_append, hxs.length_eq, hys.length_eq]
  obtain ⟨shuffle, hget⟩ := exists_equiv_of_perm hall
  have hshuffle : ∀ n : Fin (good ++ bad).length, all[shuffle n] = (good ++ bad)[n] := hget
  refine ⟨(finSumFinEquiv.trans (finCongr hlength)).trans shuffle, ?_, ?_⟩
  · intro i
    have hi : i.val < good.length := hxs.length_eq ▸ i.isLt
    have hplace : (good ++ bad)[finCongr hlength (finSumFinEquiv (.inl i))] = good.get ⟨i, hi⟩ :=
      List.getElem_append_left hi
    simp only [Equiv.trans_apply, hshuffle, hplace]
    exact hxs.get i.isLt hi
  · intro k
    have hk : k.val < bad.length := hys.length_eq ▸ k.isLt
    have hplace : (good ++ bad)[finCongr hlength (finSumFinEquiv (.inr k))] = bad.get ⟨k, hk⟩ := by
      simp [hxs.length_eq]
    simp only [Equiv.trans_apply, hshuffle, hplace]
    exact hys.get k.isLt hk

/-! ## What is matchable was sealed -/

/-- The envelope passes the limits of the pipeline, it seals the order for the round, and the verifier of
the round accepts what stands in the plaintext in front of the signature. -/
structure SealedIn (pipeline : Pipeline) (round : AuctionRound) (order : AuctionOrder)
    (envelope : Envelope) : Prop where
  steps_le : ∀ limit, pipeline.maxSteps = some limit → envelope.puzzle.steps ≤ limit
  rounds_le : ∀ limit, pipeline.maxRoundsPerStep = some limit →
    envelope.puzzle.roundsPerStep?.getD 0 ≤ limit
  solveBytes_eq : envelope.solveBytes = .ok order.encode
  order_auction : order.auction = envelope.auction
  envelope_auction : envelope.auction = round.auction
  verified : ∀ verifier, round.verifier = some verifier →
    ∃ message, order.encode = message ++ frame order.signature ∧
      verifier order.pubkey message order.signature = true

namespace AuctionRound

variable {pipeline : Pipeline} {round : AuctionRound} {batch : List Submission}
  {reports : List Report} {outcome : RoundOutcome}

theorem sealedIn_of_settle {submission : Submission} {order : AuctionOrder}
    (h : round.settle (pipeline.solve submission) = .ok order) :
    SealedIn pipeline round order submission.envelope := by
  obtain ⟨hsolved, henvelope, horder, hverifies⟩ := settle_eq_ok_iff.mp h
  rw [Pipeline.submission_solve] at henvelope horder
  cases hrefusal : pipeline.refusal? submission.envelope.puzzle with
  | some fault =>
    rw [Pipeline.solve_of_refusal hrefusal] at hsolved
    cases hsolved
  | none =>
    rw [Pipeline.solve_of_no_refusal hrefusal] at hsolved
    obtain ⟨hsteps, hrounds⟩ := Pipeline.refusal?_eq_none_iff.mp hrefusal
    obtain ⟨hbytes, -, -⟩ := Envelope.solveOrder_eq_ok_iff.mp hsolved
    exact ⟨hsteps, hrounds, hbytes, horder, henvelope,
      fun verifier hverifier => ⟨order.signable, rfl, hverifies verifier hverifier⟩⟩

/-- Both halves of a division follow the submissions that its reports are about. -/
theorem exists_places_of_perm (round : AuctionRound)
    (hperm : reports.Perm (pipeline.reportsOn batch)) :
    ∃ place : Fin (round.matchable reports).length ⊕ Fin (round.excluded reports).length ≃
        Fin batch.length,
      (∀ i : Fin (round.matchable reports).length,
        SealedIn pipeline round (round.matchable reports)[i] batch[place (.inl i)].envelope) ∧
      ∀ k : Fin (round.excluded reports).length,
        (round.excluded reports)[k].submission = batch[place (.inr k)] ∧
        round.settle (pipeline.solve batch[place (.inr k)]) =
          .error (round.excluded reports)[k].error := by
  obtain ⟨submissions, hbatch, rfl⟩ := Pipeline.exists_submissions_of_perm hperm
  have hgood := forall₂_matchable round (submissions.map pipeline.solve)
  have hbad := forall₂_excluded round (submissions.map pipeline.solve)
  rw [List.filter_map, List.forall₂_map_right_iff] at hgood hbad
  have hdivide := (List.filter_append_perm
    ((fun report => (round.settle report).isOk) ∘ pipeline.solve) submissions).trans hbatch
  obtain ⟨place, hmatchable, hexcluded⟩ := exists_places hgood hbad hdivide
  refine ⟨place, fun i => sealedIn_of_settle (hmatchable i), fun k => ?_⟩
  obtain ⟨hsubmission, hsettle⟩ := hexcluded k
  exact ⟨hsubmission.trans (Pipeline.submission_solve _ _), hsettle⟩

/-- **Nothing is invented in a round.** However the steps of a run fall, if the round succeeds on what
was received, then each matchable order has a place of its own in the batch at which it was sealed for
the round, the failures are those of all other places, and the outcome accounts for the whole batch. -/
theorem orders_are_sealed_in_batch {maxPermits : Nat} {state : BatchState}
    (hreachable : BatchState.Reachable maxPermits pipeline batch state) (hend : state.IsFinished)
    (haggregate : round.aggregate state.received = .ok outcome) :
    outcome.total = batch.length ∧
    ∃ place : Fin outcome.orders.length ⊕ Fin outcome.failures.length ≃ Fin batch.length,
      (∀ i : Fin outcome.orders.length,
        SealedIn pipeline round outcome.orders[i] batch[place (.inl i)].envelope) ∧
      ∀ k : Fin outcome.failures.length,
        outcome.failures[k].submission = batch[place (.inr k)] ∧
        round.settle (pipeline.solve batch[place (.inr k)]) = .error outcome.failures[k].error := by
  obtain ⟨-, rfl⟩ := aggregate_eq_ok_iff.mp haggregate
  obtain ⟨place, hplace⟩ := exists_places_of_perm round (hreachable.received_perm hend)
  refine ⟨?_, place, hplace⟩
  have hcard := Fintype.card_congr place
  rw [Fintype.card_sum, Fintype.card_fin, Fintype.card_fin, Fintype.card_fin] at hcard
  exact hcard

theorem smallOrder_is_sealed_in_batch :
    ∃ (sent : Envelope) (state : BatchState) (outcome : RoundOutcome),
      BatchState.Reachable 4 (Pipeline.ofConfig .default 4) [hostileSubmission, ⟨0, sent⟩] state ∧
      state.IsFinished ∧
      (ofParams ⟨smallOrder.auction, 30000⟩).aggregate state.received = .ok outcome ∧
      smallOrder.unpriced ∈ outcome.orders ∧ outcome.total = 2 ∧
      ∀ i : Fin outcome.orders.length, ∃ submission ∈ [hostileSubmission, ⟨0, sent⟩],
        SealedIn (Pipeline.ofConfig .default 4) (ofParams ⟨smallOrder.auction, 30000⟩)
          outcome.orders[i] submission.envelope := by
  obtain ⟨sent, rest, hseal⟩ := exists_enclose_smallOrder
  have hcreator : PuzzleCreator.hashChainOf .default = .squaringOf .default ∨
      PuzzleCreator.hashChainOf .default = .hashChainOf .default := Or.inr rfl
  have hsolve := Pipeline.solve_of_enclose 4 0 hcreator (by decide) trivial hseal
  have hstarts : (Pipeline.ofConfig .default 4).Starts 4 [hostileSubmission, ⟨0, sent⟩] :=
    AuctionConfig.starts_of_workersOn_le (by decide) _
  obtain ⟨state, hreachable, hend⟩ := BatchState.exists_finished hstarts
  have hreport : ⟨⟨0, sent⟩, .ok smallOrder.unpriced⟩ ∈ state.received := by
    rw [← hsolve]
    exact hreachable.solve_mem_received hend (List.mem_cons_of_mem _ List.mem_cons_self)
  have hauction := (Envelope.enclose_eq_some_iff.mp hseal).2
  have hsettle : (ofParams ⟨smallOrder.auction, 30000⟩).settle
      ⟨⟨0, sent⟩, .ok smallOrder.unpriced⟩ = .ok smallOrder.unpriced :=
    settle_unpriced hauction rfl fun verifier h => (by cases h)
  obtain ⟨outcome, haggregate, hmem⟩ := aggregate_of_mem hreport hsettle
  obtain ⟨htotal, place, hsealed, -⟩ := orders_are_sealed_in_batch hreachable hend haggregate
  refine ⟨sent, state, outcome, hreachable, hend, haggregate, hmem, htotal, fun i => ?_⟩
  exact ⟨_, List.getElem_mem _, hsealed i⟩

end AuctionRound

end TimelockAuction
