import Mathlib
import TimelockAuction.Batch.Pipeline
import TimelockAuction.Proofs.Envelope
import TimelockAuction.Proofs.Wire.PrefixFree

/-!
# Every outcome of a solve has one cause

Solving an envelope ends with an order, with a fault of its puzzle or with a payload that is no order. Which of
the three it is can be read off the envelope, however it was made: a puzzle fails for its numbers alone, then
the ciphertext for its length, then for its tag, and only a payload that was recovered is decoded.

* `Puzzle.solveKey_of_fails`, `Puzzle.solveKey_of_not_fails`: why a puzzle has no key, and its key otherwise.
* `Envelope.withholds_or_yields`, `Envelope.exists_withholds_iff`: the same for a payload.
* `AuctionOrder.cases_of_decode_eq_error`: the three ways in which a payload is no order.
* `Envelope.solveOrder_eq_iff`: what solving ends with, by its cause.
* `Submission.solve_classified`: all outcomes with their causes.
-/

namespace TimelockAuction

open HashChainPuzzle (Overflows)

/-! ## Keys -/

namespace Puzzle

/-- Why a puzzle has no key. -/
inductive Fails : Puzzle → SolvingFault → Prop
  | degenerate {puzzle : SquaringPuzzle} : puzzle.modulus ≤ 1 →
      Fails (squaring puzzle) .modulusTooSmall
  | endless {puzzle : HashChainPuzzle} : Overflows puzzle.steps puzzle.roundsPerStep →
      Fails (hashChain puzzle) (.roundsOverflow puzzle.steps puzzle.roundsPerStep)

/-- The key that a puzzle hides, unless it fails. -/
def hiddenKey : Puzzle → Key
  | squaring puzzle =>
    SquaringPuzzle.keyOf (puzzle.base ^ 2 ^ puzzle.squarings.toNat % puzzle.modulus)
  | hashChain puzzle =>
    HashChainPuzzle.keyOf
      (HashChainPuzzle.hashTimes (puzzle.steps.toNat * puzzle.roundsPerStep.toNat) puzzle.seed)

variable {puzzle : Puzzle} {fault : SolvingFault}

theorem solveKey_of_fails (h : puzzle.Fails fault) : puzzle.solveKey = .error (.puzzleSolve fault) := by
  cases h with
  | degenerate hmodulus => exact SquaringPuzzle.solveKey_eq_error_iff.mpr ⟨hmodulus, rfl⟩
  | endless hrounds => exact HashChainPuzzle.solveKey_eq_error_iff.mpr ⟨hrounds, rfl⟩

theorem solveKey_of_not_fails (h : ∀ fault, ¬ puzzle.Fails fault) :
    puzzle.solveKey = .ok puzzle.hiddenKey := by
  cases puzzle with
  | squaring puzzle =>
    have hmodulus : 1 < puzzle.modulus := Nat.not_le.mp fun hle => h _ (.degenerate hle)
    exact SquaringPuzzle.solveKey_eq_ok_iff.mpr ⟨hmodulus, rfl⟩
  | hashChain puzzle =>
    exact HashChainPuzzle.solveKey_eq_ok_iff.mpr ⟨fun hrounds => h _ (.endless hrounds), rfl⟩

theorem fails_iff :
    (∃ fault, puzzle.Fails fault) ↔
      (∃ made, puzzle = squaring made ∧ made.modulus ≤ 1) ∨
      ∃ made, puzzle = hashChain made ∧ Overflows made.steps made.roundsPerStep := by
  constructor
  · rintro ⟨fault, hfails⟩
    cases hfails with
    | degenerate hmodulus => exact .inl ⟨_, rfl, hmodulus⟩
    | endless hrounds => exact .inr ⟨_, rfl, hrounds⟩
  · rintro (⟨made, rfl, hmodulus⟩ | ⟨made, rfl, hrounds⟩)
    · exact ⟨_, .degenerate hmodulus⟩
    · exact ⟨_, .endless hrounds⟩

end Puzzle

/-! ## Payloads -/

namespace Envelope

/-- Why an envelope has no payload. The causes are tried in this order. -/
inductive Withholds (envelope : Envelope) : SolvingFault → Prop
  /-- The puzzle has no key. -/
  | unsolvable {fault : SolvingFault} : envelope.puzzle.Fails fault → Withholds envelope fault
  /-- The ciphertext has no room for a nonce and a tag. -/
  | truncated : (∀ fault, ¬ envelope.puzzle.Fails fault) → envelope.ciphertext.length < 28 →
      Withholds envelope (.ciphertextTooShort envelope.ciphertext.length)
  /-- The ciphertext was not sealed under the key of the puzzle. -/
  | forged : (∀ fault, ¬ envelope.puzzle.Fails fault) → 28 ≤ envelope.ciphertext.length →
      ¬ Sealed.IsAuthentic envelope.puzzle.hiddenKey envelope.ciphertext →
      Withholds envelope .notAuthentic

variable {envelope : Envelope} {fault : SolvingFault} {payload : Bytes}

theorem solveBytes_of_not_fails (h : ∀ fault, ¬ envelope.puzzle.Fails fault) :
    envelope.solveBytes = Sealed.unlock envelope.puzzle.hiddenKey envelope.ciphertext := by
  rw [solveBytes, Puzzle.solve, Puzzle.solveKey_of_not_fails h]
  rfl

theorem solveBytes_of_withholds (h : envelope.Withholds fault) :
    envelope.solveBytes = .error (.puzzleSolve fault) := by
  cases h with
  | unsolvable hfails =>
    rw [solveBytes, Puzzle.solve, Puzzle.solveKey_of_fails hfails]
    rfl
  | truncated hsolvable hshort =>
    rw [solveBytes_of_not_fails hsolvable, Sealed.unlock_eq_error_iff]
    exact .inl ⟨hshort, rfl⟩
  | forged hsolvable hlength hauthentic =>
    rw [solveBytes_of_not_fails hsolvable, Sealed.unlock_eq_error_iff]
    exact .inr ⟨hlength, hauthentic, rfl⟩

/-- The puzzle has a key, and the ciphertext opens under it to the payload. -/
def Yields (envelope : Envelope) (payload : Bytes) : Prop :=
  (∀ fault, ¬ envelope.puzzle.Fails fault) ∧
    Sealed.Opens envelope.puzzle.hiddenKey envelope.ciphertext payload

theorem solveBytes_of_yields (h : envelope.Yields payload) : envelope.solveBytes = .ok payload := by
  rw [solveBytes_of_not_fails h.1, Sealed.unlock_eq_ok_iff.mpr h.2]

/-- An envelope has a payload or a cause to have none. -/
theorem withholds_or_yields (envelope : Envelope) :
    (∃ fault, envelope.Withholds fault) ∨ ∃ payload, envelope.Yields payload := by
  by_cases hsolvable : ∀ fault, ¬ envelope.puzzle.Fails fault
  · cases hunlock : Sealed.unlock envelope.puzzle.hiddenKey envelope.ciphertext with
    | ok payload => exact .inr ⟨payload, hsolvable, Sealed.unlock_eq_ok_iff.mp hunlock⟩
    | error error =>
      rcases Sealed.unlock_eq_error_iff.mp hunlock with ⟨hshort, -⟩ | ⟨hlength, hauthentic, -⟩
      · exact .inl ⟨_, .truncated hsolvable hshort⟩
      · exact .inl ⟨_, .forged hsolvable hlength hauthentic⟩
  · push Not at hsolvable
    obtain ⟨fault, hfails⟩ := hsolvable
    exact .inl ⟨fault, .unsolvable hfails⟩

theorem solveBytes_eq_ok_iff : envelope.solveBytes = .ok payload ↔ envelope.Yields payload := by
  constructor
  · intro h
    rcases withholds_or_yields envelope with ⟨fault, hwithholds⟩ | ⟨found, hyields⟩
    · exact nomatch (solveBytes_of_withholds hwithholds).symm.trans h
    · cases (solveBytes_of_yields hyields).symm.trans h
      exact hyields
  · exact solveBytes_of_yields

/-- The four causes as they show in the envelope, without their order: an authentic ciphertext is long enough
for a nonce and a tag. -/
theorem exists_withholds_iff :
    (∃ fault, envelope.Withholds fault) ↔
      (∃ made, envelope.puzzle = .squaring made ∧ made.modulus ≤ 1) ∨
      (∃ made, envelope.puzzle = .hashChain made ∧ Overflows made.steps made.roundsPerStep) ∨
      envelope.ciphertext.length < 28 ∨
      ¬ Sealed.IsAuthentic envelope.puzzle.hiddenKey envelope.ciphertext := by
  rw [← or_assoc, ← Puzzle.fails_iff]
  constructor
  · rintro ⟨fault, hwithholds⟩
    cases hwithholds with
    | unsolvable hfails => exact .inl ⟨fault, hfails⟩
    | truncated _ hshort => exact .inr (.inl hshort)
    | forged _ _ hauthentic => exact .inr (.inr hauthentic)
  · intro hcause
    rcases withholds_or_yields envelope with hwithholds | ⟨payload, hsolvable, hopens⟩
    · exact hwithholds
    · have hauthentic : Sealed.IsAuthentic envelope.puzzle.hiddenKey envelope.ciphertext :=
        ⟨payload, hopens⟩
      rcases hcause with ⟨fault, hfails⟩ | hshort | hforged
      · exact absurd hfails (hsolvable fault)
      · exact absurd hauthentic.le_length (Nat.not_le.mpr hshort)
      · exact absurd hauthentic hforged

end Envelope

/-! ## Orders -/

/-- A byte string that is no order is too short for one, goes on behind one, or names no side in one. -/
theorem AuctionOrder.cases_of_decode_eq_error {bytes : Bytes} {error : Error}
    (hlength : bytes.length < maxLength) (h : decode bytes = .error error) :
    (∃ needed actual, error = .tooShort needed actual) ∨ (∃ count, error = .trailingBytes count) ∨
      ∃ text, error = .invalidSide text := by
  have hmore : ([0] : Bytes) ≠ [] := by simp
  rcases (extensionLaw hmore hlength).error_cases error h with hside | htrailing | hshort
  · exact .inr (.inr hside)
  · exact .inr (.inl htrailing)
  · exact .inl hshort

namespace Envelope

variable {envelope : Envelope} {payload : Bytes}

/-- The length of a payload is bounded by what the cipher takes. -/
theorem Yields.length_lt (h : envelope.Yields payload) : payload.length < maxLength := by
  have hlength := h.2.length_le
  simp only [Gcm.maxPayload] at hlength
  unfold maxLength UInt64.size
  omega

/-- What solving ends with, by its cause. -/
inductive SolvesTo (envelope : Envelope) : Except Error AuctionOrder → Prop
  | withheld {fault : SolvingFault} : envelope.Withholds fault →
      SolvesTo envelope (.error (.puzzleSolve fault))
  | undecodable {payload : Bytes} {cause : Error} : envelope.Yields payload →
      AuctionOrder.decode payload = .error cause →
      SolvesTo envelope (.error (.decodeAfterSolve cause))
  | recovered {order : AuctionOrder} : envelope.Yields order.encode → order.orderbookPrice = .zero →
      SolvesTo envelope (.ok order)

theorem solvesTo_solveOrder (envelope : Envelope) : envelope.SolvesTo envelope.solveOrder := by
  unfold solveOrder
  rcases withholds_or_yields envelope with ⟨fault, hwithholds⟩ | ⟨payload, hyields⟩
  · rw [solveBytes_of_withholds hwithholds]
    exact .withheld hwithholds
  · rw [solveBytes_of_yields hyields]
    show envelope.SolvesTo ((AuctionOrder.decode payload).mapError .decodeAfterSolve)
    cases hdecode : AuctionOrder.decode payload with
    | error cause => exact .undecodable hyields hdecode
    | ok order =>
      obtain ⟨rfl, hprice, -⟩ := AuctionOrder.decode_eq_ok_iff_encode.mp hdecode
      exact .recovered hyields hprice

/-- The signature of an order that was recovered is part of a payload, and so not too long to be read. -/
theorem decode_of_yields {order : AuctionOrder} (h : envelope.Yields order.encode)
    (hprice : order.orderbookPrice = .zero) : AuctionOrder.decode order.encode = .ok order := by
  refine AuctionOrder.decode_eq_ok_iff_encode.mpr ⟨rfl, hprice, ?_⟩
  have hlength : order.encode.length < UInt64.size := h.length_lt.trans (by decide)
  simp only [AuctionOrder.encode, frame, List.length_append] at hlength
  omega

theorem solveOrder_of_solvesTo {outcome : Except Error AuctionOrder} (h : envelope.SolvesTo outcome) :
    envelope.solveOrder = outcome := by
  unfold solveOrder
  cases h with
  | withheld hwithholds =>
    rw [solveBytes_of_withholds hwithholds]
    rfl
  | undecodable hyields hdecode =>
    rw [solveBytes_of_yields hyields]
    show (AuctionOrder.decode _).mapError _ = _
    rw [hdecode]
    rfl
  | recovered hyields hprice =>
    rw [solveBytes_of_yields hyields]
    show (AuctionOrder.decode _).mapError _ = _
    rw [decode_of_yields hyields hprice]
    rfl

theorem solveOrder_eq_iff {outcome : Except Error AuctionOrder} :
    envelope.solveOrder = outcome ↔ envelope.SolvesTo outcome := by
  constructor
  · intro h
    rw [← h]
    exact solvesTo_solveOrder envelope
  · exact solveOrder_of_solvesTo

theorem solveOrder_eq_puzzleSolve_iff {fault : SolvingFault} :
    envelope.solveOrder = .error (.puzzleSolve fault) ↔ envelope.Withholds fault := by
  rw [solveOrder_eq_iff]
  constructor
  · intro h
    cases h with
    | withheld hwithholds => exact hwithholds
  · exact .withheld

/-- The order is unpriced, and its signature needs no bound of its own. -/
theorem solveOrder_eq_ok_iff_unpriced {order : AuctionOrder} :
    envelope.solveOrder = .ok order ↔
      envelope.solveBytes = .ok order.encode ∧ order.orderbookPrice = .zero := by
  rw [solveOrder_eq_iff, solveBytes_eq_ok_iff]
  constructor
  · intro h
    cases h with
    | recovered hyields hprice => exact ⟨hyields, hprice⟩
  · intro h
    exact .recovered h.1 h.2

theorem solveOrder_eq_decodeAfterSolve_iff {cause : Error} :
    envelope.solveOrder = .error (.decodeAfterSolve cause) ↔
      ∃ payload, envelope.solveBytes = .ok payload ∧ AuctionOrder.decode payload = .error cause := by
  simp only [solveOrder_eq_iff, solveBytes_eq_ok_iff]
  constructor
  · intro h
    cases h with
    | undecodable hyields hdecode => exact ⟨_, hyields, hdecode⟩
  · intro h
    obtain ⟨payload, hyields, hdecode⟩ := h
    exact .undecodable hyields hdecode

/-- There is no third kind of error, and none is wrapped twice. -/
theorem cases_of_solveOrder_eq_error {error : Error} (h : envelope.solveOrder = .error error) :
    (∃ fault, error = .puzzleSolve fault) ∨
      ∃ cause, error = .decodeAfterSolve cause ∧
        ((∃ needed actual, cause = .tooShort needed actual) ∨ (∃ count, cause = .trailingBytes count) ∨
          ∃ text, cause = .invalidSide text) := by
  rw [solveOrder_eq_iff] at h
  cases h with
  | withheld => exact .inl ⟨_, rfl⟩
  | undecodable hyields hdecode =>
    exact .inr ⟨_, rfl, AuctionOrder.cases_of_decode_eq_error hyields.length_lt hdecode⟩

end Envelope

/-! ## Reports -/

namespace Submission

/-- **Every outcome of a solve has one cause.** Whatever is submitted, the report is about it. It gives a fault of
the puzzle exactly for the first of the causes for which an envelope has no payload, and some such fault exactly
if the modulus of a squaring puzzle is at most one, the rounds of a hash chain cannot be counted in 64 bits, or
the ciphertext is shorter than 28 bytes or not authentic under the key of the puzzle. It gives an order exactly
if the payload is the encoding of this order and the order is unpriced. Otherwise it gives the error with which
the payload is not decoded, which is of one of three kinds. -/
theorem solve_classified (submission : Submission) :
    submission.solve.submission = submission ∧
    (∀ fault, submission.solve.outcome = .error (.puzzleSolve fault) ↔
      submission.envelope.Withholds fault) ∧
    ((∃ fault, submission.solve.outcome = .error (.puzzleSolve fault)) ↔
      (∃ puzzle, submission.envelope.puzzle = .squaring puzzle ∧ puzzle.modulus ≤ 1) ∨
      (∃ puzzle, submission.envelope.puzzle = .hashChain puzzle ∧
        2 ^ 64 ≤ puzzle.steps.toNat * puzzle.roundsPerStep.toNat) ∨
      submission.envelope.ciphertext.length < 28 ∨
      ¬ Sealed.IsAuthentic submission.envelope.puzzle.hiddenKey submission.envelope.ciphertext) ∧
    (∀ payload, submission.envelope.solveBytes = .ok payload ↔ submission.envelope.Yields payload) ∧
    (∀ order, submission.solve.outcome = .ok order ↔
      submission.envelope.solveBytes = .ok order.encode ∧ order.orderbookPrice = .zero) ∧
    (∀ cause, submission.solve.outcome = .error (.decodeAfterSolve cause) ↔
      ∃ payload, submission.envelope.solveBytes = .ok payload ∧
        AuctionOrder.decode payload = .error cause) ∧
    ∀ error, submission.solve.outcome = .error error →
      (∃ fault, error = .puzzleSolve fault) ∨
      ∃ cause, error = .decodeAfterSolve cause ∧
        ((∃ needed actual, cause = .tooShort needed actual) ∨ (∃ count, cause = .trailingBytes count) ∨
          ∃ text, cause = .invalidSide text) := by
  have hfault : ∀ fault, submission.solve.outcome = .error (.puzzleSolve fault) ↔
      submission.envelope.Withholds fault :=
    fun fault => Envelope.solveOrder_eq_puzzleSolve_iff
  refine ⟨rfl, hfault, ?_, fun payload => Envelope.solveBytes_eq_ok_iff,
    fun order => Envelope.solveOrder_eq_ok_iff_unpriced,
    fun cause => Envelope.solveOrder_eq_decodeAfterSolve_iff,
    fun error => Envelope.cases_of_solveOrder_eq_error⟩
  rw [exists_congr hfault]
  exact Envelope.exists_withholds_iff

/-- Of an envelope without a single good part, the puzzle is reported. -/
example (ticket : Nat) (auction : AuctionId) :
    (solve ⟨ticket, [], .squaring ⟨0, 5, 1⟩, auction⟩).outcome =
      .error (.puzzleSolve .modulusTooSmall) := rfl

end Submission

end TimelockAuction
