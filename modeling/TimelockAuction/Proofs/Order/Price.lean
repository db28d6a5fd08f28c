import Mathlib
import TimelockAuction.Order.Price
import TimelockAuction.Proofs.Binary64.Nearest

/-!
# A price sets the nearest amount, or nothing

An amount is set in three roundings: what is given up becomes a number of the format, the product or
quotient with the price another one, and that becomes an integer. Each is the nearest there is, and each
keeps the order of what it rounds. If the integer does not fit in a word, nothing is set.

* `isPrice_eq_true_iff`: what can be a price.
* `isRounded_wantedAt`: the first two roundings.
* `outcome_cases`: all that a price can do.
* `amountWant_mono`: how amounts follow prices.
* `setAmountWant_nearest_or_unchanged`: which of it happens when.
-/

namespace TimelockAuction.AuctionOrder

open Binary64

variable {order : AuctionOrder} {price low high : Binary64}

/-! ## Prices -/

/-- The number is no price: it is not a number, or infinite, or not above zero. -/
def NoPrice (price : Binary64) : Prop :=
  price.isNaN = true ∨ price.isInfinite = true ∨ price.value ≤ 0

theorem isPrice_eq_true_iff : isPrice price = true ↔ ¬ NoPrice price := by
  have hfinite : price.isFinite = true ↔ ¬ price.isNaN = true ∧ ¬ price.isInfinite = true := by
    simp only [isFinite, isNaN, isInfinite, decide_eq_true_eq]
    omega
  have hpos : (!price.isZero && !price.isNegative) = true ↔ ¬ price.value ≤ 0 := by
    rw [not_le, value_pos_iff]
    simp
  rw [isPrice, Bool.and_assoc, Bool.and_eq_true, hfinite, hpos, NoPrice]
  tauto

/-- What is known of a number that can be a price. -/
theorem of_isPrice (h : isPrice price = true) :
    price.isFinite = true ∧ price.isZero = false ∧ price.isNegative = false := by
  simpa [isPrice, and_assoc] using h

/-! ## Amounts -/

/-- The exact amount that is asked for in return for another one. -/
def exactWanted : OrderSide → ℚ → ℚ → ℚ
  | .buy, given, price => given * price
  | .sell, given, price => given / price

/-- The two numbers on the way from a price to an amount: what the order gives up, and what it asks for
in return. -/
structure Quotation (order : AuctionOrder) (price given wanted : Binary64) : Prop where
  given_isFinite : given.isFinite = true
  given_iff (x : Binary64) : IsRounded order.amountHave.toNat x ↔ x = given
  wanted_iff (x : Binary64) :
    IsRounded (exactWanted order.side given.value price.value) x ↔ x = wanted

theorem isRounded_wantedAt (order : AuctionOrder) (h : isPrice price = true) :
    IsRounded (exactWanted order.side (ofNat order.amountHave.toNat).value price.value)
      (order.wantedAt price) := by
  obtain ⟨hfinite, hzero, hsign⟩ := of_isPrice h
  have hgiven := ofNat_isFinite order.amountHave.toNat_lt
  have hgivenSign := (isRounded_ofNat order.amountHave.toNat).isNegative_eq
  unfold exactWanted wantedAt
  cases order.side with
  | buy => exact isRounded_mul hgiven hfinite hgivenSign hsign
  | sell => exact isRounded_div hgiven hfinite hgivenSign hsign hzero

theorem quotation_wantedAt (order : AuctionOrder) (h : isPrice price = true) :
    order.Quotation price (ofNat order.amountHave.toNat) (order.wantedAt price) where
  given_isFinite := ofNat_isFinite order.amountHave.toNat_lt
  given_iff _ := (isRounded_ofNat _).iff_eq
  wanted_iff _ := (isRounded_wantedAt order h).iff_eq

/-- The amount asked for does not fit in a word. -/
def OutOfRange (wanted : Binary64) : Prop :=
  wanted.isInfinite = true ∨ 2 ^ 64 ≤ ⌊wanted.value + 1 / 2⌋₊

theorem outOfRange_wantedAt_iff (order : AuctionOrder) (h : isPrice price = true) :
    (!(order.wantedAt price).isFinite ||
      decide (UInt64.size ≤ (order.wantedAt price).roundHalfAway)) = true ↔
        OutOfRange (order.wantedAt price) := by
  have hrounded := isRounded_wantedAt order h
  have hinfinite : (!(order.wantedAt price).isFinite) = (order.wantedAt price).isInfinite := by
    have hle := hrounded.isNearest.le_infinityCode
    simp only [isFinite, isInfinite, ← decide_not]
    exact decide_eq_decide.mpr ⟨by omega, by omega⟩
  rw [hinfinite, Bool.or_eq_true, decide_eq_true_eq, roundHalfAway_eq hrounded.isNegative_eq]
  rfl

/-! ## Outcomes -/

/-- The answer to a price, and the order after it. -/
def outcome (order : AuctionOrder) (price : Binary64) : Except Error Unit × AuctionOrder :=
  (setAmountWant price).run order

theorem outcome_of_not_isPrice (h : ¬ isPrice price = true) :
    order.outcome price = (.error (.invalidPrice price), order) := by
  have h : isPrice price = false := Bool.eq_false_of_not_eq_true h
  unfold outcome setAmountWant
  rw [h]
  rfl

/-- A state is read before a guard and written behind it. -/
theorem run_guarded_set {ε σ : Type} (s : σ) (refused : σ → Bool) (e : ε) (update : σ → σ) :
    (do
      let x ← get
      if refused x then throw e
      set (update x) : ExceptT ε (StateM σ) Unit).run s =
        if refused s then (.error e, s) else (.ok (), update s) := by
  change (if refused s then throw e else set (update s) : ExceptT ε (StateM σ) Unit).run s = _
  split <;> rfl

theorem outcome_of_isPrice (h : isPrice price = true) :
    order.outcome price =
      if !(order.wantedAt price).isFinite ||
          decide (UInt64.size ≤ (order.wantedAt price).roundHalfAway) then
        (.error (.amountOutOfRange price), order)
      else (.ok (), { order with amountWant := UInt64.ofNat (order.wantedAt price).roundHalfAway }) := by
  unfold outcome setAmountWant
  rw [h]
  exact run_guarded_set order
    (fun order => !(order.wantedAt price).isFinite ||
      decide (UInt64.size ≤ (order.wantedAt price).roundHalfAway))
    (Error.amountOutOfRange price)
    (fun order => { order with amountWant := UInt64.ofNat (order.wantedAt price).roundHalfAway })

/-- All that a price can do. -/
theorem outcome_cases (order : AuctionOrder) (price : Binary64) :
    (NoPrice price ∧ order.outcome price = (.error (.invalidPrice price), order)) ∨
    (¬ NoPrice price ∧ OutOfRange (order.wantedAt price) ∧
      order.outcome price = (.error (.amountOutOfRange price), order)) ∨
    (¬ NoPrice price ∧ ¬ OutOfRange (order.wantedAt price) ∧ ∃ amount : UInt64,
      amount.toNat = ⌊(order.wantedAt price).value + 1 / 2⌋₊ ∧
        order.outcome price = (.ok (), { order with amountWant := amount })) := by
  by_cases h : NoPrice price
  · exact .inl ⟨h, outcome_of_not_isPrice (mt isPrice_eq_true_iff.mp (not_not.mpr h))⟩
  have hprice := isPrice_eq_true_iff.mpr h
  have hguard := outOfRange_wantedAt_iff order hprice
  rw [outcome_of_isPrice hprice]
  by_cases hout : OutOfRange (order.wantedAt price)
  · exact .inr (.inl ⟨h, hout, if_pos (hguard.mpr hout)⟩)
  · have hamount := roundHalfAway_eq (isRounded_wantedAt order hprice).isNegative_eq
    have hsize : (order.wantedAt price).roundHalfAway < UInt64.size := by
      rw [hamount]
      exact Nat.not_le.mp (not_or.mp hout).2
    refine .inr (.inr ⟨h, hout, _, ?_, if_neg (mt hguard.mp hout)⟩)
    exact (UInt64.toNat_ofNat_of_lt' hsize).trans hamount

/-- What is accepted is a price, and the amount that is asked for has been rounded from a number of the
format. -/
theorem of_outcome_fst_eq_ok (h : (order.outcome price).1 = .ok ()) :
    isPrice price = true ∧
      (order.outcome price).2.amountWant.toNat = (order.wantedAt price).roundHalfAway := by
  rcases order.outcome_cases price with ⟨-, hrun⟩ | ⟨-, -, hrun⟩ | ⟨hprice, -, amount, hamount, hrun⟩
  · rw [hrun] at h
    cases h
  · rw [hrun] at h
    cases h
  · have hprice := isPrice_eq_true_iff.mpr hprice
    rw [hrun, roundHalfAway_eq (isRounded_wantedAt order hprice).isNegative_eq]
    exact ⟨hprice, hamount⟩

/-! ## Amounts follow prices -/

theorem wantedAt_mono (order : AuctionOrder) (hlow : isPrice low = true) (hhigh : isPrice high = true)
    (h : low.value ≤ high.value) :
    match order.side with
    | .buy => (order.wantedAt low).code ≤ (order.wantedAt high).code
    | .sell => (order.wantedAt high).code ≤ (order.wantedAt low).code := by
  have hroundedLow := isRounded_wantedAt order hlow
  have hroundedHigh := isRounded_wantedAt order hhigh
  have hgiven : 0 ≤ (ofNat order.amountHave.toNat).value := by
    rw [value_of_not_isNegative (isRounded_ofNat _).isNegative_eq]
    exact magnitude_nonneg _
  have hpos : 0 < low.value := value_pos_iff.mpr (of_isPrice hlow).2
  cases hside : order.side with
  | buy =>
    rw [hside] at hroundedLow hroundedHigh
    exact hroundedLow.code_le hroundedHigh (mul_le_mul_of_nonneg_left h hgiven)
  | sell =>
    rw [hside] at hroundedLow hroundedHigh
    exact hroundedHigh.code_le hroundedLow (div_le_div_of_nonneg_left hgiven hpos h)

theorem amountWant_mono (hlow : (order.outcome low).1 = .ok ()) (hhigh : (order.outcome high).1 = .ok ())
    (h : low.value ≤ high.value) :
    match order.side with
    | .buy => (order.outcome low).2.amountWant ≤ (order.outcome high).2.amountWant
    | .sell => (order.outcome high).2.amountWant ≤ (order.outcome low).2.amountWant := by
  obtain ⟨hlowPrice, hlowAmount⟩ := of_outcome_fst_eq_ok hlow
  obtain ⟨hhighPrice, hhighAmount⟩ := of_outcome_fst_eq_ok hhigh
  have hcodes := wantedAt_mono order hlowPrice hhighPrice h
  rw [UInt64.le_iff_toNat_le, UInt64.le_iff_toNat_le, hlowAmount, hhighAmount]
  cases hside : order.side with
  | buy =>
    rw [hside] at hcodes
    exact roundHalfAway_mono hcodes
  | sell =>
    rw [hside] at hcodes
    exact roundHalfAway_mono hcodes

/-- A number that is no price is refused. Any other one leads to an amount that is rounded to the format
and to an integer, and it is refused if and only if that does not fit in a word; otherwise it is what is
asked for, to the unit. What is refused changes nothing, and what is accepted nothing else. A higher
price never lowers what a purchase asks for, and never raises what a sale asks for. -/
theorem setAmountWant_nearest_or_unchanged (order : AuctionOrder) :
    (∀ price, (order.outcome price).1 = .error (.invalidPrice price) ↔ NoPrice price) ∧
    (∀ price, ¬ NoPrice price → ∃ given wanted, order.Quotation price given wanted ∧
      ((order.outcome price).1 = .error (.amountOutOfRange price) ↔ OutOfRange wanted) ∧
      (¬ OutOfRange wanted → ∃ amount : UInt64, amount.toNat = ⌊wanted.value + 1 / 2⌋₊ ∧
        order.outcome price = (.ok (), { order with amountWant := amount }))) ∧
    (∀ price error, (order.outcome price).1 = .error error → (order.outcome price).2 = order) ∧
    (∀ low high, low.value ≤ high.value →
      (order.outcome low).1 = .ok () → (order.outcome high).1 = .ok () →
        match order.side with
        | .buy => (order.outcome low).2.amountWant ≤ (order.outcome high).2.amountWant
        | .sell => (order.outcome high).2.amountWant ≤ (order.outcome low).2.amountWant) := by
  refine ⟨fun price => ?invalid, fun price hprice => ?amount, fun price error herror => ?unchanged,
    fun low high h hlow hhigh => amountWant_mono hlow hhigh h⟩
  case invalid =>
    rcases order.outcome_cases price with ⟨h, hrun⟩ | ⟨h, -, hrun⟩ | ⟨h, -, amount, -, hrun⟩
    all_goals simp [hrun, h]
  case amount =>
    refine ⟨_, _, quotation_wantedAt order (isPrice_eq_true_iff.mpr hprice), ?_, fun hfits => ?_⟩
    · rcases order.outcome_cases price with ⟨h, -⟩ | ⟨-, h, hrun⟩ | ⟨-, h, amount, -, hrun⟩
      · exact absurd h hprice
      · simp [hrun, h]
      · simp [hrun, h]
    · rcases order.outcome_cases price with ⟨h, -⟩ | ⟨-, h, -⟩ | ⟨-, -, h⟩
      · exact absurd h hprice
      · exact absurd h hfits
      · exact h
  case unchanged =>
    rcases order.outcome_cases price with ⟨-, hrun⟩ | ⟨-, -, hrun⟩ | ⟨-, -, amount, -, hrun⟩
    · rw [hrun]
    · rw [hrun]
    · rw [hrun] at herror
      cases herror

end TimelockAuction.AuctionOrder
