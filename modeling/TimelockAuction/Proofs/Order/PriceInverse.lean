import Mathlib
import TimelockAuction.Proofs.Order.Ranking

/-!
# The price of an order leads back to it

An order is priced by its two amounts, and its price sets the amount that it asks for. What it gives up is
rounded the same way both times, so that error goes out again; what it asks for is below `2 ^ 51`, and a
number of the format. That leaves the rounding of the price and the one of the product or quotient with it.
Together they are off by less than one part in `2 ^ 52` and a little, which below `2 ^ 51` is less than one
half, and the last rounding gives the amount back.

* `exactWanted_exactQuote`: without rounding, a price and the amount that it sets are inverse.
* `wantedAt_withinFactor`: two roundings on the way.
* `floor_eq_of_withinFactor`: two roundings are undone by the last one.
* `outcome_eq_self`: when setting the amount changes nothing.
* `setAmountWant_of_price`: for every order.
-/

namespace TimelockAuction.AuctionOrder

open Binary64

/-! ## Without rounding -/

theorem exactWanted_exactQuote (side : OrderSide) {given : ℚ} (hgiven : 0 < given) (wanted : ℚ) :
    exactWanted side given (exactQuote side given wanted) = wanted := by
  cases side with
  | buy => exact mul_div_cancel₀ wanted hgiven.ne'
  | sell => exact div_div_cancel₀ hgiven.ne'

theorem exactWanted_withinFactor (side : OrderSide) {factor given price price' : ℚ} (hgiven : 0 < given)
    (h : WithinFactor factor price price') :
    WithinFactor factor (exactWanted side given price) (exactWanted side given price') := by
  have hself := WithinFactor.refl hgiven
  rw [← one_mul factor]
  cases side with
  | buy => exact hself.mul h
  | sell => exact hself.div h

/-! ## Two roundings -/

variable {order : AuctionOrder} {price : Binary64}

theorem isPrice_of_withinFactor {factor q : ℚ} (hfinite : price.isFinite = true)
    (h : WithinFactor factor q price.value) : isPrice price = true := by
  obtain ⟨hzero, hsign⟩ := value_pos_iff.mp h.right_pos
  rw [isPrice, hfinite, hzero, hsign]
  rfl

/-- What an order asks for at its own price is off by two roundings. -/
theorem wantedAt_withinFactor (hhave : 0 < order.amountHave) (hwant : 0 < order.amountWant)
    (hsmall : order.amountWant.toNat < 2 ^ 53) (hprice : order.price = .ok price) :
    isPrice price = true ∧ (order.wantedAt price).isFinite = true ∧
      WithinFactor (roundingFactor * roundingFactor) order.amountWant.toNat
        (order.wantedAt price).value := by
  obtain ⟨_, hquoted, hrounded⟩ := exists_price hhave hwant
  cases hprice.symm.trans hquoted
  have hnormal := exactQuote_isNormal hhave hwant
  have hisPrice := isPrice_of_withinFactor (hrounded.isFinite hnormal) (hrounded.withinFactor hnormal)
  have hgiven := (amount_withinFactor hhave).right_pos
  have hexact := exactWanted_withinFactor order.side hgiven (hrounded.withinFactor hnormal)
  rw [value_ofNat (UInt64.lt_iff_toNat_lt.mp hwant) hsmall,
    exactWanted_exactQuote order.side hgiven] at hexact
  have hrange : IsNormal (exactWanted order.side (ofNat order.amountHave.toNat).value price.value) := by
    refine .of_withinFactor (k := 65) ((amount_withinFactor_one hwant).trans hexact) ?_ (by decide)
    unfold roundingFactor
    norm_num
  have hwantedAt := isRounded_wantedAt order hisPrice
  exact ⟨hisPrice, hwantedAt.isFinite hrange, hexact.trans (hwantedAt.withinFactor hrange)⟩

/-- Below `2 ^ 51` two roundings are less than a half. -/
theorem floor_eq_of_withinFactor {n : Nat} {q : ℚ} (hn : n < 2 ^ 51)
    (h : WithinFactor (roundingFactor * roundingFactor) n q) : ⌊q + 1 / 2⌋₊ = n := by
  have hmax : (n : ℚ) ≤ 2 ^ 51 - 1 := by
    rw [le_sub_iff_add_le]
    exact_mod_cast hn
  obtain ⟨-, hpos, hlow, hhigh⟩ := h
  unfold roundingFactor at hlow hhigh
  rw [Nat.floor_eq_iff (by linarith)]
  constructor
  · linarith
  · linarith

/-! ## Back to the order -/

/-- An amount that rounds to the one that is asked for already is in range, and changes nothing. -/
theorem outcome_eq_self (hprice : isPrice price = true)
    (hfinite : (order.wantedAt price).isFinite = true)
    (hfloor : ⌊(order.wantedAt price).value + 1 / 2⌋₊ = order.amountWant.toNat) :
    order.outcome price = (.ok (), order) := by
  have hrange : ¬ OutOfRange (order.wantedAt price) := by
    rintro (hinfinite | hsize)
    · rw [not_isInfinite_of_isFinite hfinite] at hinfinite
      cases hinfinite
    · rw [hfloor] at hsize
      exact absurd hsize (Nat.not_le.mpr order.amountWant.toNat_lt)
  rcases order.outcome_cases price with ⟨hnone, -⟩ | ⟨-, hout, -⟩ | ⟨-, -, amount, hamount, hrun⟩
  · exact absurd hnone (isPrice_eq_true_iff.mp hprice)
  · exact absurd hout hrange
  · rw [hrun, UInt64.toNat_inj.mp (hamount.trans hfloor)]

/-- **The price of an order sets the amount that it came from.** Every order that gives something up, on
either side, and asks for less than `2 ^ 51` is priced; asking for the amount that its price leads to
succeeds, and changes nothing. -/
theorem setAmountWant_of_price (order : AuctionOrder) (hhave : 0 < order.amountHave)
    (hwant : 0 < order.amountWant) (hsmall : order.amountWant.toNat < 2 ^ 51) :
    ∃ price, order.price = .ok price ∧ order.outcome price = (.ok (), order) := by
  obtain ⟨price, hprice, -⟩ := exists_price hhave hwant
  obtain ⟨hisPrice, hfinite, hwanted⟩ :=
    wantedAt_withinFactor hhave hwant (hsmall.trans (by decide)) hprice
  have hfloor := floor_eq_of_withinFactor hsmall hwanted
  exact ⟨price, hprice, outcome_eq_self hisPrice hfinite hfloor⟩

/-- A sale and a purchase of the greatest amounts. -/
theorem setAmountWant_of_price_at_edges :
    (∃ price, (offer .sell 0xffffffffffffffff 0x7ffffffffffff).price = .ok price ∧
      (offer .sell 0xffffffffffffffff 0x7ffffffffffff).outcome price =
        (.ok (), offer .sell 0xffffffffffffffff 0x7ffffffffffff)) ∧
    ∃ price, (offer .buy 0xffffffffffffffff 0x7ffffffffffff).price = .ok price ∧
      (offer .buy 0xffffffffffffffff 0x7ffffffffffff).outcome price =
        (.ok (), offer .buy 0xffffffffffffffff 0x7ffffffffffff) :=
  ⟨setAmountWant_of_price _ (by decide) (by decide) (by decide),
    setAmountWant_of_price _ (by decide) (by decide) (by decide)⟩

/-- Not far above `2 ^ 51` an amount can come back as the next one. -/
example : (offer .buy 268680946 2254992303121211).price.toOption.map
    (fun price => ((offer .buy 268680946 2254992303121211).outcome price).2.amountWant) =
      some 2254992303121212 := by
  decide +kernel

end TimelockAuction.AuctionOrder
