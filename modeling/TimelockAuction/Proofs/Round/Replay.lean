import Mathlib
import TimelockAuction.Proofs.Order.Signable
import TimelockAuction.Proofs.Round.Honest
import TimelockAuction.Proofs.Round.Partition

/-!
# A bid is matchable as often as it is submitted

A round settles each report on its own and does not compare the orders that it keeps. So a bid whose envelope is
submitted again, or that is sealed again in another envelope, is kept again. The nonce of an order limits how
many different bids of a key there are that are otherwise alike; it does not limit how many of them are kept.

* `AuctionRound.countP_signable`: how often a round keeps what was signed.
* `AuctionRound.nodup_signable_iff`: when it keeps nothing twice.
* `AuctionOrder.card_lookAlikes_le`: how many different bids a nonce tells apart.
* `AuctionRound.aggregate_of_sealed`: what a round makes of one bid in many envelopes.
* `AuctionRound.orders_repeat_as_submitted`: all of it.
-/

namespace TimelockAuction

/-! ## Bids that are alike -/

/-- The nonce is one of the `2 ^ 16` that have a number. -/
theorem OrderNonce.exists_number (nonce : OrderNonce) :
    ∃ n < 65536, nonce = .ofNumber (UInt16.ofNat n) := by
  have hlt : LittleEndian.toNat nonce.bytes.toList < 65536 := by
    have h := LittleEndian.toNat_lt nonce.bytes.toList
    rwa [Vector.length_toList] at h
  have hbytes : LittleEndian.encode 2 (LittleEndian.toNat nonce.bytes.toList) = nonce.bytes.toList := by
    have h := LittleEndian.encode_toNat nonce.bytes.toList
    rwa [Vector.length_toList] at h
  refine ⟨_, hlt, congrArg OrderNonce.mk (Vector.toList_inj.mp ?_)⟩
  rw [Bytes.toList_toVector, UInt16.toNat_ofNat_of_lt' hlt, hbytes]

namespace AuctionOrder

/-- The two orders are of one key and bid the same. -/
structure LookAlike (x y : AuctionOrder) : Prop where
  pubkey : x.pubkey = y.pubkey
  side : x.side = y.side
  pair : x.pair = y.pair
  amountHave : x.amountHave = y.amountHave
  amountWant : x.amountWant = y.amountWant

instance (x y : AuctionOrder) : Decidable (x.LookAlike y) :=
  decidable_of_iff
    (x.pubkey = y.pubkey ∧ x.side = y.side ∧ x.pair = y.pair ∧ x.amountHave = y.amountHave ∧
      x.amountWant = y.amountWant)
    ⟨fun ⟨hpubkey, hside, hpair, hhave, hwant⟩ => ⟨hpubkey, hside, hpair, hhave, hwant⟩,
      fun h => ⟨h.pubkey, h.side, h.pair, h.amountHave, h.amountWant⟩⟩

/-- The same bid in an auction under the nonce of a given number. -/
def numbered (order : AuctionOrder) (auction : AuctionId) (n : Nat) : AuctionOrder :=
  { order with auction, nonce := .ofNumber (UInt16.ofNat n) }

/-- The auction and the number of the nonce are all in which two look-alikes can differ. -/
theorem LookAlike.exists_numbered {x y : AuctionOrder} (h : x.LookAlike y) :
    ∃ n < 65536, SameTerms (x.numbered y.auction n) y := by
  obtain ⟨n, hn, hnonce⟩ := y.nonce.exists_number
  exact ⟨n, hn, ⟨h.pubkey, h.side, h.pair, h.amountHave, h.amountWant, rfl, hnonce.symm⟩⟩

/-- Among the orders for one auction that look like a given one, a nonce tells at most `2 ^ 16` apart. -/
theorem card_lookAlikes_le {orders : List AuctionOrder} {auction : AuctionId}
    (hauction : ∀ order ∈ orders, order.auction = auction) (order : AuctionOrder) :
    ((orders.filter order.LookAlike).map signable).toFinset.card ≤ 65536 := by
  have hsubset : ((orders.filter order.LookAlike).map signable).toFinset ⊆
      (Finset.range 65536).image fun n => (order.numbered auction n).signable := by
    intro message hmem
    simp only [List.mem_toFinset, List.mem_map, List.mem_filter, decide_eq_true_eq] at hmem
    obtain ⟨other, ⟨hother, halike⟩, rfl⟩ := hmem
    obtain ⟨n, hn, hterms⟩ := halike.exists_numbered
    rw [hauction other hother] at hterms
    exact Finset.mem_image.mpr ⟨n, Finset.mem_range.mpr hn, hterms.signable_eq⟩
  calc ((orders.filter order.LookAlike).map signable).toFinset.card
      ≤ ((Finset.range 65536).image fun n => (order.numbered auction n).signable).card :=
        Finset.card_le_card hsubset
    _ ≤ (Finset.range 65536).card := Finset.card_image_le
    _ = 65536 := Finset.card_range 65536

end AuctionOrder

/-! ## Envelopes of one order -/

/-- The envelope was made of the order in a way that the configuration of the server asks for. -/
def Envelope.IsSealOf (config : AuctionConfig) (order : AuctionOrder) (envelope : Envelope) : Prop :=
  ∃ creator steps supply rest,
    (creator = .squaringOf config ∨ creator = .hashChainOf config) ∧ steps ≤ config.auctionTime ∧
      creator.DrawsPrimes supply ∧
      (enclose order steps creator).run supply = some (.ok envelope, rest)

namespace AuctionRound

variable {round : AuctionRound} {report : Report} {reports : List Report} {order : AuctionOrder}
  {outcome : RoundOutcome} {message : Bytes}

/-! ## Repeated reports -/

theorem toOption_settle_eq_some_iff :
    (round.settle report).toOption = some order ↔ round.Brings report order := by
  rw [← settle_eq_ok_iff_brings]
  cases round.settle report <;> simp [Except.toOption]

/-- The report brings an order whose signed bytes are the message. -/
def BringsSigned (round : AuctionRound) (message : Bytes) (report : Report) : Prop :=
  ∃ order, round.Brings report order ∧ order.signable = message

theorem map_signable_settle_iff :
    ((round.settle report).toOption.map fun order => decide (order.signable = message)).getD false =
      true ↔ round.BringsSigned message report := by
  unfold BringsSigned
  simp only [← toOption_settle_eq_some_iff]
  cases (round.settle report).toOption <;> simp

instance (message : Bytes) : DecidablePred (round.BringsSigned message) :=
  fun _ => decidable_of_iff _ map_signable_settle_iff

/-- Nothing is dropped and nothing is added on the way from the reports to the orders. -/
theorem countP_signable (h : round.aggregate reports = .ok outcome) (message : Bytes) :
    (outcome.orders.countP fun order => order.signable = message) =
      reports.countP fun report => round.BringsSigned message report := by
  obtain ⟨-, rfl⟩ := aggregate_eq_ok_iff.mp h
  rw [matchable, List.countP_filterMap]
  refine List.countP_congr fun report _ => ?_
  rw [decide_eq_true_iff]
  exact map_signable_settle_iff

theorem nodup_signable_iff (h : round.aggregate reports = .ok outcome) :
    (outcome.orders.map AuctionOrder.signable).Nodup ↔
      reports.Pairwise fun x y =>
        ∀ message, round.BringsSigned message x → ¬ round.BringsSigned message y := by
  obtain ⟨-, rfl⟩ := aggregate_eq_ok_iff.mp h
  rw [matchable, List.Nodup, List.pairwise_map, List.pairwise_filterMap]
  simp only [toOption_settle_eq_some_iff]
  refine List.Pairwise.iff fun x y => ?_
  constructor
  · rintro hdiffer message ⟨order, hx, rfl⟩ ⟨other, hy, hsame⟩
    exact hdiffer order hx other hy hsame.symm
  · intro hnever order hx other hy hsame
    exact hnever _ ⟨order, hx, rfl⟩ ⟨other, hy, hsame.symm⟩

theorem matchable_of_forall_brings (h : ∀ report ∈ reports, round.Brings report order) :
    round.matchable reports = List.replicate reports.length order := by
  have hsettle : ∀ report ∈ reports, (round.settle report).toOption = some order :=
    fun report hmem => toOption_settle_eq_some_iff.mpr (h report hmem)
  rw [matchable, List.filterMap_congr hsettle, List.filterMap_eq_map', List.map_const']

theorem excluded_of_forall_brings (h : ∀ report ∈ reports, round.Brings report order) :
    round.excluded reports = [] := by
  apply List.filterMap_eq_nil_iff.mpr
  intro report hmem
  rw [settle_eq_ok_iff_brings.mpr (h report hmem)]

/-- Reports that all bring one order are all kept. -/
theorem aggregate_of_forall_brings (hsome : reports ≠ [])
    (hbrings : ∀ report ∈ reports, round.Brings report order) :
    round.aggregate reports =
      .ok ⟨round.auction, List.replicate reports.length order, []⟩ := by
  obtain ⟨report, hmem⟩ := List.exists_mem_of_ne_nil reports hsome
  have hgood : ∃ report ∈ reports, round.IsGood report := ⟨report, hmem, order, hbrings report hmem⟩
  rw [aggregate_of_good (.inr hgood), matchable_of_forall_brings hbrings,
    excluded_of_forall_brings hbrings]

/-! ## Repeated submissions -/

section Sealed

variable {config : AuctionConfig} {submission : Submission} {submissions : List Submission}

theorem brings_of_isSealOf (cores : Nat) (hround : round.auction = order.auction)
    (hverifies : round.Verifies order) (hseal : submission.envelope.IsSealOf config order) :
    round.Brings ((Pipeline.ofConfig config cores).solve submission) order.unpriced := by
  obtain ⟨creator, steps, supply, rest, hcreator, hsteps, hprimes, hrun⟩ := hseal
  have hauction := (Envelope.enclose_eq_some_iff.mp hrun).2
  have hsolve := Pipeline.solve_of_enclose cores submission.ticket hcreator hsteps hprimes hrun
  rw [← settle_eq_ok_iff_brings]
  exact hsolve ▸ settle_unpriced hauction hround hverifies

/-- One bid in many envelopes, some of which may be equal, is kept as often as there are envelopes. -/
theorem aggregate_of_sealed (cores : Nat) (hround : round.auction = order.auction)
    (hverifies : round.Verifies order) (hsome : submissions ≠ [])
    (hseals : ∀ submission ∈ submissions, submission.envelope.IsSealOf config order) :
    round.aggregate ((Pipeline.ofConfig config cores).reportsOn submissions) =
      .ok ⟨round.auction, List.replicate submissions.length order.unpriced, []⟩ := by
  have hreports : (Pipeline.ofConfig config cores).reportsOn submissions ≠ [] :=
    fun hnone => hsome (List.map_eq_nil_iff.mp hnone)
  have hbrings : ∀ report ∈ (Pipeline.ofConfig config cores).reportsOn submissions,
      round.Brings report order.unpriced := by
    intro report hmem
    obtain ⟨submission, hsubmission, rfl⟩ := List.mem_map.mp hmem
    exact brings_of_isSealOf cores hround hverifies (hseals submission hsubmission)
  rw [aggregate_of_forall_brings hreports hbrings, Pipeline.reportsOn, List.length_map]

end Sealed

/-- **A bid is matchable as often as it is submitted.** Of what was signed, a round that succeeds keeps as many
copies as its reports bring; so nothing is kept twice exactly if no two reports bring the same. Among the kept
orders that look like a given one there are at most `2 ^ 16` different bids, but no limit is set to the copies
of one bid: if an order for the round verifies and is sealed in several envelopes, or one envelope is submitted
several times, and there are permits for all workers, then the batch is solved and the round succeeds with a copy
of the order for every submission. -/
theorem orders_repeat_as_submitted (round : AuctionRound) :
    (∀ (reports : List Report) (outcome : RoundOutcome), round.aggregate reports = .ok outcome →
      (∀ message, (outcome.orders.countP fun order => order.signable = message) =
        reports.countP fun report => round.BringsSigned message report) ∧
      ((outcome.orders.map AuctionOrder.signable).Nodup ↔
        reports.Pairwise fun x y =>
          ∀ message, round.BringsSigned message x → ¬ round.BringsSigned message y) ∧
      ∀ order : AuctionOrder,
        ((outcome.orders.filter order.LookAlike).map AuctionOrder.signable).toFinset.card ≤ 65536) ∧
    ∀ (config : AuctionConfig) (maxPermits cores : Nat) (order : AuctionOrder)
      (submissions : List Submission), round.auction = order.auction → round.Verifies order →
        submissions ≠ [] → (∀ submission ∈ submissions, submission.envelope.IsSealOf config order) →
          config.workersOn cores ≤ maxPermits →
            ∃ reports, (Pipeline.ofConfig config cores).solveBatch? maxPermits submissions = some reports ∧
              round.aggregate reports =
                .ok ⟨round.auction, List.replicate submissions.length order.unpriced, []⟩ := by
  constructor
  · intro reports outcome h
    have hauction : ∀ order ∈ outcome.orders, order.auction = round.auction :=
      fun order hmem => auction_of_mem_orders h hmem
    exact ⟨countP_signable h, nodup_signable_iff h, AuctionOrder.card_lookAlikes_le hauction⟩
  · intro config maxPermits cores order submissions hround hverifies hsome hseals hpermits
    have hstarts := AuctionConfig.starts_of_workersOn_le hpermits submissions
    exact ⟨_, Pipeline.solveBatch?_of_starts hstarts,
      aggregate_of_sealed cores hround hverifies hsome hseals⟩

/-! ## A small bid in many envelopes -/

/-- The round that the small order is for. -/
def smallRound : AuctionRound := ofParams ⟨smallOrder.auction, 30000⟩

theorem verifies_smallRound (order : AuctionOrder) : smallRound.Verifies order :=
  fun _ h => nomatch h

theorem exists_isSealOf_smallOrder : ∃ envelope : Envelope, envelope.IsSealOf .default smallOrder := by
  obtain ⟨envelope, rest, hrun⟩ := exists_enclose_smallOrder
  exact ⟨envelope, .hashChainOf .default, 3, _, rest, Or.inr rfl, by decide, trivial, hrun⟩

/-- A round keeps the small order twice that is submitted twice, as it reports. -/
theorem smallOrder_repeats :
    ∃ (envelope : Envelope) (reports : List Report) (outcome : RoundOutcome),
      envelope.IsSealOf .default smallOrder ∧
      (Pipeline.ofConfig .default 4).solveBatch? 4 [⟨0, envelope⟩, ⟨1, envelope⟩] = some reports ∧
      smallRound.aggregate reports = .ok outcome ∧ outcome.orders = [smallOrder, smallOrder] ∧
      ((outcome.orders.filter smallOrder.LookAlike).map AuctionOrder.signable).toFinset.card ≤ 65536 ∧
      (reports.countP fun report => smallRound.BringsSigned smallOrder.signable report) = 2 := by
  obtain ⟨envelope, hseal⟩ := exists_isSealOf_smallOrder
  obtain ⟨hcounts, hcopies⟩ := orders_repeat_as_submitted smallRound
  obtain ⟨reports, hsolve, haggregate⟩ := hcopies .default 4 4 smallOrder [⟨0, envelope⟩, ⟨1, envelope⟩]
    rfl (verifies_smallRound smallOrder) (by simp) (by simp [hseal]) (by decide)
  obtain ⟨hcount, -, hcard⟩ := hcounts _ _ haggregate
  refine ⟨envelope, reports, _, hseal, hsolve, haggregate, rfl, hcard smallOrder, ?_⟩
  rw [← hcount]
  show ([smallOrder, smallOrder].countP fun order => order.signable = smallOrder.signable) = 2
  decide

theorem solve_smallOrder_copies {envelope : Envelope} (hseal : envelope.IsSealOf .default smallOrder)
    {tickets : List Nat} (hsome : tickets ≠ []) :
    ∃ reports, (Pipeline.ofConfig .default 4).solveBatch? 4
        (tickets.map fun ticket => ⟨ticket, envelope⟩) = some reports ∧
      smallRound.aggregate reports =
        .ok ⟨smallOrder.auction, List.replicate tickets.length smallOrder, []⟩ := by
  have hsubmissions : (tickets.map fun ticket => (⟨ticket, envelope⟩ : Submission)) ≠ [] :=
    fun hnone => hsome (List.map_eq_nil_iff.mp hnone)
  have hseals : ∀ submission ∈ tickets.map fun ticket => (⟨ticket, envelope⟩ : Submission),
      submission.envelope.IsSealOf .default smallOrder := by
    intro submission hmem
    obtain ⟨ticket, -, rfl⟩ := List.mem_map.mp hmem
    exact hseal
  have hround : smallRound.auction = smallOrder.auction := rfl
  have haggregate :=
    aggregate_of_sealed 4 hround (verifies_smallRound smallOrder) hsubmissions hseals
  rw [List.length_map] at haggregate
  have hpermits : AuctionConfig.default.workersOn 4 ≤ 4 := by decide
  have hstarts := AuctionConfig.starts_of_workersOn_le hpermits
  exact ⟨_, Pipeline.solveBatch?_of_starts (hstarts _), haggregate⟩

/-- The small order, submitted twice in one envelope, is matchable twice; submitted `2 ^ 16 + 1` times, it is
matchable more often than there are nonces. -/
theorem smallOrder_outnumbers_nonces :
    ∃ envelope : Envelope, envelope.IsSealOf .default smallOrder ∧
      (∃ reports outcome, (Pipeline.ofConfig .default 4).solveBatch? 4
          [⟨0, envelope⟩, ⟨1, envelope⟩] = some reports ∧ smallRound.aggregate reports = .ok outcome ∧
        ¬ (outcome.orders.map AuctionOrder.signable).Nodup) ∧
      ∃ reports outcome, (Pipeline.ofConfig .default 4).solveBatch? 4
          ((List.range 65537).map fun ticket => ⟨ticket, envelope⟩) = some reports ∧
        smallRound.aggregate reports = .ok outcome ∧
        65536 < outcome.orders.countP smallOrder.LookAlike := by
  obtain ⟨envelope, hseal⟩ := exists_isSealOf_smallOrder
  have hmany : List.range 65537 ≠ [] := List.ne_nil_of_mem (List.mem_range.mpr (Nat.succ_pos 65536))
  obtain ⟨twice, htwice, hpair⟩ := solve_smallOrder_copies hseal (List.cons_ne_nil 0 [1])
  obtain ⟨often, hoften, hcopies⟩ := solve_smallOrder_copies hseal hmany
  refine ⟨envelope, hseal, ⟨twice, _, htwice, hpair, ?_⟩, often, _, hoften, hcopies, ?_⟩
  · decide
  · have halike : smallOrder.LookAlike smallOrder := ⟨rfl, rfl, rfl, rfl, rfl⟩
    rw [List.countP_replicate, if_pos (decide_eq_true halike), List.length_range]
    omega

end AuctionRound

end TimelockAuction
