import Mathlib
import TimelockAuction.Proofs.Binary64.Precision
import TimelockAuction.Proofs.Order.Price

/-!
# Prices rank orders

A price is rounded three times: each of the two amounts becomes a number of the format, and their quotient
another one. The amounts lie between one and `2 ^ 64`, so nothing on the way comes near the ends of the
format, and the price is within the third power of one rounding of the exact one. Two orders whose exact
prices are further apart than two such errors are ranked as the exact prices rank them.

* `exactQuote_withinFactor`: errors of the amounts go into the quotient.
* `exists_price`: the one quotient that is rounded to the price.
* `price_withinFactor`: the error of the price.
* `price_lt_of_exactPrice`: which orders are not misranked.
-/

namespace TimelockAuction.AuctionOrder

open Binary64

variable {order : AuctionOrder}

/-! ## Exact prices -/

/-- The exact price of one amount in return for another one. -/
def exactQuote : OrderSide → ℚ → ℚ → ℚ
  | .buy, given, wanted => wanted / given
  | .sell, given, wanted => given / wanted

/-- The price that an order would be ranked at without any rounding. -/
def exactPrice (order : AuctionOrder) : ℚ :=
  exactQuote order.side order.amountHave.toNat order.amountWant.toNat

theorem exactQuote_withinFactor (side : OrderSide) {factor other given given' wanted wanted' : ℚ}
    (hgiven : WithinFactor factor given given') (hwanted : WithinFactor other wanted wanted') :
    WithinFactor (factor * other) (exactQuote side given wanted) (exactQuote side given' wanted') := by
  cases side with
  | buy =>
    rw [mul_comm]
    exact hwanted.div hgiven
  | sell => exact hgiven.div hwanted

/-! ## Amounts -/

section Amounts

variable {amount : UInt64}

theorem amount_withinFactor_one (h : 0 < amount) : WithinFactor (2 ^ 64) 1 amount.toNat := by
  have hpos : 1 ≤ amount.toNat := UInt64.lt_iff_toNat_lt.mp h
  have hone : (1 : ℚ) ≤ amount.toNat := by exact_mod_cast hpos
  have hmax : (amount.toNat : ℚ) ≤ 2 ^ 64 := by exact_mod_cast amount.toNat_lt.le
  exact ⟨one_pos, by linarith, by linarith, by linarith⟩

theorem amount_isNormal (h : 0 < amount) : IsNormal amount.toNat :=
  .of_withinFactor (amount_withinFactor_one h) le_rfl (by decide)

theorem amount_withinFactor (h : 0 < amount) :
    WithinFactor roundingFactor amount.toNat (ofNat amount.toNat).value :=
  (isRounded_ofNat _).withinFactor (amount_isNormal h)

end Amounts

/-! ## Prices -/

theorem exists_price (hhave : 0 < order.amountHave) (hwant : 0 < order.amountWant) :
    ∃ price, order.price = .ok price ∧
      IsRounded (exactQuote order.side (ofNat order.amountHave.toNat).value
        (ofNat order.amountWant.toNat).value) price := by
  have hne : order.amountWant ≠ 0 := UInt64.pos_iff_ne_zero.mp hwant
  have hgiven := value_pos_iff.mp (amount_withinFactor hhave).right_pos
  have hwanted := value_pos_iff.mp (amount_withinFactor hwant).right_pos
  have hgivenFinite := ofNat_isFinite order.amountHave.toNat_lt
  have hwantedFinite := ofNat_isFinite order.amountWant.toNat_lt
  unfold price
  rw [if_neg hne]
  cases order.side with
  | buy => exact ⟨_, rfl, isRounded_div hwantedFinite hgivenFinite hwanted.2 hgiven.2 hgiven.1⟩
  | sell => exact ⟨_, rfl, isRounded_div hgivenFinite hwantedFinite hgiven.2 hwanted.2 hwanted.1⟩

theorem exactQuote_isNormal (hhave : 0 < order.amountHave) (hwant : 0 < order.amountWant) :
    IsNormal (exactQuote order.side (ofNat order.amountHave.toNat).value
      (ofNat order.amountWant.toNat).value) := by
  have hgiven := (amount_withinFactor_one hhave).trans (amount_withinFactor hhave)
  have hwanted := (amount_withinFactor_one hwant).trans (amount_withinFactor hwant)
  have hquote := exactQuote_withinFactor order.side hgiven hwanted
  have hone : exactQuote order.side 1 1 = 1 := by
    cases order.side <;> exact div_one 1
  rw [hone] at hquote
  refine .of_withinFactor (k := 130) hquote ?_ (by decide)
  unfold roundingFactor
  norm_num

theorem price_withinFactor (hhave : 0 < order.amountHave) (hwant : 0 < order.amountWant) :
    ∃ price, order.price = .ok price ∧ price.isFinite = true ∧
      WithinFactor (roundingFactor * roundingFactor * roundingFactor) order.exactPrice
        price.value := by
  obtain ⟨price, hprice, hrounded⟩ := exists_price hhave hwant
  have hnormal := exactQuote_isNormal hhave hwant
  have hquote := exactQuote_withinFactor order.side (amount_withinFactor hhave)
    (amount_withinFactor hwant)
  exact ⟨price, hprice, hrounded.isFinite hnormal, hquote.trans (hrounded.withinFactor hnormal)⟩

/-- **Prices do not misrank orders that can be told apart.** Of two orders whose exact prices differ by at
least one part in `2 ^ 50`, both have a price that is finite and above zero, and the one with the smaller
exact price has the smaller price. For this it does not matter which sides they are on. -/
theorem price_lt_of_exactPrice {first second : AuctionOrder}
    (hfirstHave : 0 < first.amountHave) (hfirstWant : 0 < first.amountWant)
    (hsecondHave : 0 < second.amountHave) (hsecondWant : 0 < second.amountWant)
    (h : first.exactPrice * (1 + 1 / 2 ^ 50) ≤ second.exactPrice) :
    ∃ low high, first.price = .ok low ∧ second.price = .ok high ∧
      low.isFinite = true ∧ high.isFinite = true ∧ 0 < low.value ∧ low.value < high.value := by
  obtain ⟨low, hlowPrice, hlowFinite, hlow⟩ := price_withinFactor hfirstHave hfirstWant
  obtain ⟨high, hhighPrice, hhighFinite, hhigh⟩ := price_withinFactor hsecondHave hsecondWant
  refine ⟨low, high, hlowPrice, hhighPrice, hlowFinite, hhighFinite, hlow.right_pos, ?_⟩
  have herror := hhigh.factor_pos
  have hsix : (roundingFactor * roundingFactor * roundingFactor) *
      (roundingFactor * roundingFactor * roundingFactor) < 1 + 1 / 2 ^ 50 := by
    unfold roundingFactor
    norm_num
  generalize roundingFactor * roundingFactor * roundingFactor = error at hlow hhigh herror hsix
  apply lt_of_mul_lt_mul_of_nonneg_right _ (show (0 : ℚ) ≤ 1 + 1 / 2 ^ 50 by positivity)
  calc low.value * (1 + 1 / 2 ^ 50)
      ≤ error * first.exactPrice * (1 + 1 / 2 ^ 50) :=
        mul_le_mul_of_nonneg_right hlow.right_le (by positivity)
    _ = error * (first.exactPrice * (1 + 1 / 2 ^ 50)) := mul_assoc ..
    _ ≤ error * second.exactPrice := mul_le_mul_of_nonneg_left h herror.le
    _ ≤ error * (error * high.value) := mul_le_mul_of_nonneg_left hhigh.left_le herror.le
    _ = high.value * (error * error) := by ring
    _ < high.value * (1 + 1 / 2 ^ 50) := mul_lt_mul_of_pos_left hsix hhigh.right_pos

/-- An order that offers one amount for another. -/
def offer (side : OrderSide) (amountHave amountWant : UInt64) : AuctionOrder :=
  ⟨.zero, side, ⟨⟨1⟩, ⟨2⟩⟩, amountHave, amountWant, .zero, ⟨Vector.replicate 32 9⟩, .ofNumber 0, []⟩

/-- Two purchases with amounts that are not numbers of the format, as close as they may be. -/
theorem price_lt_of_closePurchases :
    ∃ low high, (offer .buy 0xffffffffffffffff 0x8000000000000001).price = .ok low ∧
      (offer .buy 0xffffffffffffffff 0x8000000000002002).price = .ok high ∧
      low.isFinite = true ∧ high.isFinite = true ∧ 0 < low.value ∧ low.value < high.value := by
  have hhave : (0xffffffffffffffff : UInt64).toNat = 2 ^ 64 - 1 := by decide
  have hlow : (0x8000000000000001 : UInt64).toNat = 2 ^ 63 + 1 := by decide
  have hhigh : (0x8000000000002002 : UInt64).toNat = 2 ^ 63 + 2 ^ 13 + 2 := by decide
  apply price_lt_of_exactPrice (by decide) (by decide) (by decide) (by decide)
  simp only [exactPrice, exactQuote, offer, hhave, hlow, hhigh]
  norm_num

/-- Closer purchases can have one price. -/
example : (offer .buy 0xffffffffffffffff 0x8000000000000001).price =
    (offer .buy 0xffffffffffffffff 0x8000000000000002).price := by
  decide +kernel

end TimelockAuction.AuctionOrder
