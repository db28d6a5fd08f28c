import Mathlib
import TimelockAuction.Proofs.Number.Witness
import TimelockAuction.Proofs.Random.Draw

/-!
# The primality test errs on one side only

A number that is divided by no small prime is put to witnesses, one after the other, until one of them speaks
against it or twenty have not. So an answer depends on the numbers that were drawn, and is known from them: a
prime is accepted whatever is drawn, and every other number is rejected for some draws.

The draws of a test are followed on a list of witnesses. A supply of random bytes has no other effect on the
test than such a list.

* `trialDivision_eq_some_true_iff`, `trialDivision_eq_none_iff`: what division by small primes says.
* `passesRounds_eq_true_iff`, `exists_not_passesWitness`: which witnesses lead to which answer.
* `exists_draws_iff`: the answers of the test on supplies are its answers on lists of witnesses.
* `isProbablePrime_one_sided`: the answers of the test.
-/

namespace TimelockAuction

variable {n rounds : Nat} {draws rest : List Nat}

/-! ## Division by small primes -/

theorem trialDivision_eq_some_true_iff : trialDivision n = some true ↔ n ∈ smallPrimes := by
  constructor
  · intro h
    unfold trialDivision at h
    split at h
    · cases h
    · obtain ⟨p, hfind, hp⟩ := Option.map_eq_some_iff.mp h
      rw [beq_iff_eq.mp hp]
      exact List.mem_of_find?_eq_some hfind
  · intro h
    revert n
    decide

/-- A number that may still be a prime is beyond the small primes, since each number up to them has one of
them as a factor. -/
theorem trialDivision_eq_none_iff :
    trialDivision n = none ↔ 97 < n ∧ ∀ p ∈ smallPrimes, ¬ p ∣ n := by
  have hsmall : ∀ m < 98, 2 ≤ m → ∃ p ∈ smallPrimes, p ∣ m := by decide
  unfold trialDivision
  by_cases htwo : n < 2
  · rw [if_pos htwo]
    exact iff_of_false (by simp) (by omega)
  · rw [if_neg htwo, Option.map_eq_none_iff, List.find?_eq_none]
    simp only [beq_iff_eq, ← Nat.dvd_iff_mod_eq_zero]
    constructor
    · intro h
      refine ⟨?_, h⟩
      by_contra hle
      obtain ⟨p, hp, hdvd⟩ := hsmall n (by omega) (by omega)
      exact h p hp hdvd
    · intro h
      exact h.2

theorem not_prime_of_trialDivision (h : trialDivision n = some false) : ¬ n.Prime := by
  intro hn
  unfold trialDivision at h
  split at h
  · have := hn.two_le
    omega
  · obtain ⟨p, hfind, hne⟩ := Option.map_eq_some_iff.mp h
    have hdvd : p ∣ n := Nat.dvd_of_mod_eq_zero (by simpa using List.find?_some hfind)
    have hp : p ≠ 1 := by
      rintro rfl
      exact absurd (List.mem_of_find?_eq_some hfind) (by decide)
    exact (beq_eq_false_iff_ne.mp hne) ((hn.eq_one_or_self_of_dvd p hdvd).resolve_left hp).symm

/-! ## Witnesses from a list -/

/-- The next witness of a list, as long as there is one. -/
def nextWitness : StateT (List Nat) Option Nat
  | [] => none
  | a :: rest => some (a, rest)

theorem passesRounds_nil : passesRounds nextWitness n (rounds + 1) [] = none := rfl

theorem passesRounds_cons (a : Nat) :
    passesRounds nextWitness n (rounds + 1) (a :: rest) =
      if passesWitness n a then passesRounds nextWitness n rounds rest else some (false, rest) := by
  show (if passesWitness n a = true then passesRounds nextWitness n rounds else pure false) rest = _
  split <;> rfl

/-- A number is accepted if none of the witnesses speaks against it. Induction on the rounds, each of which
takes one witness off the list. -/
theorem passesRounds_eq_true_iff :
    passesRounds nextWitness n rounds draws = some (true, rest) ↔
      ∃ used, used.length = rounds ∧ draws = used ++ rest ∧
        ∀ a ∈ used, passesWitness n a = true := by
  induction rounds generalizing draws with
  | zero =>
    constructor
    · intro h
      cases h
      exact ⟨[], rfl, rfl, by simp⟩
    · rintro ⟨used, hlength, rfl, -⟩
      rw [List.length_eq_zero_iff.mp hlength]
      rfl
  | succ rounds ih =>
    cases draws with
    | nil =>
      rw [passesRounds_nil]
      refine iff_of_false (by simp) ?_
      rintro ⟨used, hlength, hnil, -⟩
      rw [(List.append_eq_nil_iff.mp hnil.symm).1] at hlength
      cases hlength
    | cons a more =>
      rw [passesRounds_cons]
      by_cases ha : passesWitness n a = true
      · rw [if_pos ha, ih]
        constructor
        · rintro ⟨used, rfl, rfl, hpasses⟩
          exact ⟨a :: used, rfl, rfl, List.forall_mem_cons.mpr ⟨ha, hpasses⟩⟩
        · rintro ⟨used, hlength, hdraws, hpasses⟩
          obtain ⟨b, used, rfl⟩ := List.exists_cons_of_length_eq_add_one hlength
          cases hdraws
          exact ⟨used, Nat.succ.inj hlength, rfl, (List.forall_mem_cons.mp hpasses).2⟩
      · rw [if_neg ha]
        refine iff_of_false (by simp) ?_
        rintro ⟨used, hlength, hdraws, hpasses⟩
        obtain ⟨b, used, rfl⟩ := List.exists_cons_of_length_eq_add_one hlength
        cases hdraws
        exact ha (hpasses a List.mem_cons_self)

/-- A list that is long enough leads to an answer. -/
theorem exists_passesRounds (h : rounds ≤ draws.length) :
    ∃ answer rest, passesRounds nextWitness n rounds draws = some (answer, rest) := by
  induction rounds generalizing draws with
  | zero => exact ⟨true, draws, rfl⟩
  | succ rounds ih =>
    cases draws with
    | nil => simp at h
    | cons a more =>
      rw [passesRounds_cons]
      split
      · exact ih (Nat.le_of_succ_le_succ h)
      · exact ⟨false, more, rfl⟩

/-- A number is rejected for a witness that was drawn. -/
theorem exists_not_passesWitness (h : passesRounds nextWitness n rounds draws = some (false, rest)) :
    ∃ a ∈ draws, ¬ passesWitness n a = true := by
  induction rounds generalizing draws with
  | zero => cases h
  | succ rounds ih =>
    cases draws with
    | nil => cases h
    | cons a more =>
      by_cases ha : passesWitness n a = true
      · rw [passesRounds_cons, if_pos ha] at h
        obtain ⟨b, hb, hnot⟩ := ih h
        exact ⟨b, List.mem_cons_of_mem a hb, hnot⟩
      · exact ⟨a, List.mem_cons_self, ha⟩

/-- A number that does not pass is rejected at once. -/
theorem passesRounds_of_not_passesWitness {a : Nat} (h : ¬ passesWitness n a = true) :
    passesRounds nextWitness n (rounds + 1) (a :: rest) = some (false, rest) := by
  rw [passesRounds_cons, if_neg h]

/-! ## Witnesses from a supply of bytes -/

/-- The numbers that are drawn as witnesses against `n`. -/
def AreWitnesses (n : Nat) (draws : List Nat) : Prop :=
  ∀ a ∈ draws, 2 ≤ a ∧ a ≤ n - 2

theorem passesRounds_drawWitness_of_some {supply left : Bytes} {a : Nat}
    (h : drawWitness n supply = some (a, left)) :
    passesRounds (drawWitness n) n (rounds + 1) supply =
      if passesWitness n a then passesRounds (drawWitness n) n rounds left
      else some (false, left) := by
  show (drawWitness n supply).bind (fun drawn =>
    (if passesWitness n drawn.1 = true then passesRounds (drawWitness n) n rounds else pure false)
      drawn.2) = _
  rw [h, Option.bind_some]
  split <;> rfl

/-- What a supply leads to, the witnesses that it yields lead to. -/
theorem exists_draws_of_supply {supply left : Bytes} {answer : Bool}
    (h : passesRounds (drawWitness n) n rounds supply = some (answer, left)) :
    ∃ draws, AreWitnesses n draws ∧ passesRounds nextWitness n rounds draws = some (answer, []) := by
  induction rounds generalizing supply with
  | zero =>
    cases h
    exact ⟨[], by simp [AreWitnesses], rfl⟩
  | succ rounds ih =>
    obtain ⟨a, mid, hdraw, -⟩ := Draw.bind_eq_some_iff.mp h
    have hrange := Draw.yields_range _ _ _ _ _ hdraw
    have ha : 2 ≤ a ∧ a ≤ n - 2 := by omega
    rw [passesRounds_drawWitness_of_some hdraw] at h
    by_cases hpasses : passesWitness n a = true
    · rw [if_pos hpasses] at h
      obtain ⟨draws, hdraws, hanswer⟩ := ih h
      refine ⟨a :: draws, List.forall_mem_cons.mpr ⟨ha, hdraws⟩, ?_⟩
      rw [passesRounds_cons, if_pos hpasses, hanswer]
    · rw [if_neg hpasses] at h
      cases h
      exact ⟨[a], by simpa [AreWitnesses] using ha, passesRounds_of_not_passesWitness hpasses⟩

/-- Every list of witnesses is drawn from some supply. -/
theorem exists_supply_of_draws {answer : Bool} (hdraws : AreWitnesses n draws)
    (h : passesRounds nextWitness n rounds draws = some (answer, [])) :
    ∃ supply, passesRounds (drawWitness n) n rounds supply = some (answer, []) := by
  induction rounds generalizing draws with
  | zero =>
    cases h
    exact ⟨[], rfl⟩
  | succ rounds ih =>
    cases draws with
    | nil => cases h
    | cons a more =>
      obtain ⟨ha, hmore⟩ := List.forall_mem_cons.mp hdraws
      obtain ⟨front, hfront⟩ : ∃ front, ∀ rest, drawWitness n (front ++ rest) = some (a, rest) :=
        Draw.exists_range ha.1 (by omega)
      rw [passesRounds_cons] at h
      by_cases hpasses : passesWitness n a = true
      · rw [if_pos hpasses] at h
        obtain ⟨supply, hsupply⟩ := ih hmore h
        refine ⟨front ++ supply, ?_⟩
        rw [passesRounds_drawWitness_of_some (hfront supply), if_pos hpasses, hsupply]
      · rw [if_neg hpasses] at h
        cases h
        refine ⟨front ++ [], ?_⟩
        rw [passesRounds_drawWitness_of_some (hfront []), if_neg hpasses]

/-! ## The test -/

section

variable {m : Type → Type} [Monad m] {witness : m Nat}

theorem isProbablePrime_of_some {answer : Bool} (h : trialDivision n = some answer) :
    isProbablePrime witness n = pure answer := by
  rw [isProbablePrime, h]

theorem isProbablePrime_of_none (h : trialDivision n = none) :
    isProbablePrime witness n = passesRounds witness n witnessRounds := by
  rw [isProbablePrime, h]

end

theorem prime_of_mem_smallPrimes (h : n ∈ smallPrimes) : n.Prime := by
  have hall : ∀ p ∈ smallPrimes, p.Prime := by norm_num [smallPrimes]
  exact hall n h

theorem isProbablePrime_eq_true_iff :
    isProbablePrime nextWitness n draws = some (true, rest) ↔
      n ∈ smallPrimes ∧ rest = draws ∨
      97 < n ∧ (∀ p ∈ smallPrimes, ¬ p ∣ n) ∧
        ∃ used, used.length = witnessRounds ∧ draws = used ++ rest ∧
          ∀ a ∈ used, IsStrongProbablePrime n a := by
  cases htrial : trialDivision n with
  | none =>
    obtain ⟨hlarge, hdvd⟩ := trialDivision_eq_none_iff.mp htrial
    have hsmall : n ∉ smallPrimes := fun h => hdvd n h dvd_rfl
    rw [isProbablePrime_of_none htrial, passesRounds_eq_true_iff]
    simp only [passesWitness_iff (show 1 < n by omega)]
    exact ⟨fun h => .inr ⟨hlarge, hdvd, h⟩, fun h => (h.resolve_left fun hleft => hsmall hleft.1).2.2⟩
  | some answer =>
    have hnot : ¬ (97 < n ∧ ∀ p ∈ smallPrimes, ¬ p ∣ n) := by
      rw [← trialDivision_eq_none_iff, htrial]
      simp
    have hanswer : answer = true ↔ n ∈ smallPrimes := by
      rw [← trialDivision_eq_some_true_iff, htrial, Option.some.injEq]
    rw [isProbablePrime_of_some htrial, ← and_assoc, ← hanswer]
    show some (answer, draws) = some (true, rest) ↔ _
    rw [Option.some.injEq, Prod.mk.injEq, eq_comm (a := draws)]
    exact ⟨.inl, fun h => h.resolve_right fun hright => hnot hright.1⟩

/-- A test that is not answered by division is answered by as many witnesses as it has rounds. -/
theorem exists_isProbablePrime
    (h : 97 < n → (∀ p ∈ smallPrimes, ¬ p ∣ n) → witnessRounds ≤ draws.length) :
    ∃ answer rest, isProbablePrime nextWitness n draws = some (answer, rest) := by
  cases htrial : trialDivision n with
  | none =>
    obtain ⟨hlarge, hdvd⟩ := trialDivision_eq_none_iff.mp htrial
    rw [isProbablePrime_of_none htrial]
    exact exists_passesRounds (h hlarge hdvd)
  | some answer =>
    rw [isProbablePrime_of_some htrial]
    exact ⟨answer, draws, rfl⟩

/-- A prime is never rejected: it is a small prime, or passes as a strong probable prime to what is drawn. -/
theorem isProbablePrime_ne_false (hn : n.Prime) (hdraws : AreWitnesses n draws) :
    isProbablePrime nextWitness n draws ≠ some (false, rest) := by
  intro h
  cases htrial : trialDivision n with
  | none =>
    rw [isProbablePrime_of_none htrial] at h
    obtain ⟨a, ha, hnot⟩ := exists_not_passesWitness h
    obtain ⟨hlow, hhigh⟩ := hdraws a ha
    have hdvd : ¬ n ∣ a := Nat.not_dvd_of_pos_of_lt (by omega) (by omega)
    exact hnot ((passesWitness_iff hn.one_lt).mpr (.of_prime hn hdvd))
  | some answer =>
    rw [isProbablePrime_of_some htrial] at h
    cases h
    exact not_prime_of_trialDivision htrial hn

theorem exists_isProbablePrime_eq_false (hn : ¬ n.Prime) :
    ∃ draws, AreWitnesses n draws ∧ isProbablePrime nextWitness n draws = some (false, []) := by
  cases htrial : trialDivision n with
  | none =>
    obtain ⟨hlarge, hdvd⟩ := trialDivision_eq_none_iff.mp htrial
    have hodd : Odd n := by
      rw [← Nat.not_even_iff_odd, even_iff_two_dvd]
      exact hdvd 2 (by decide)
    obtain ⟨a, hlow, hhigh, hnot⟩ := exists_not_isStrongProbablePrime hodd (by omega) hn
    refine ⟨[a], by simpa [AreWitnesses] using ⟨hlow, hhigh⟩, ?_⟩
    rw [isProbablePrime_of_none htrial]
    exact passesRounds_of_not_passesWitness (mt (passesWitness_iff (by omega)).mp hnot)
  | some answer =>
    refine ⟨[], by simp [AreWitnesses], ?_⟩
    rw [isProbablePrime_of_some htrial]
    cases answer with
    | false => rfl
    | true => exact absurd (prime_of_mem_smallPrimes (trialDivision_eq_some_true_iff.mp htrial)) hn

/-- On supplies of random bytes the test gives the answers that it gives on lists of witnesses. -/
theorem exists_draws_iff {answer : Bool} :
    (∃ supply left, isProbablePrime (drawWitness n) n supply = some (answer, left)) ↔
      ∃ draws, AreWitnesses n draws ∧
        isProbablePrime nextWitness n draws = some (answer, []) := by
  cases htrial : trialDivision n with
  | none =>
    rw [isProbablePrime_of_none htrial, isProbablePrime_of_none htrial]
    constructor
    · rintro ⟨supply, left, h⟩
      exact exists_draws_of_supply h
    · rintro ⟨draws, hdraws, h⟩
      obtain ⟨supply, hsupply⟩ := exists_supply_of_draws hdraws h
      exact ⟨supply, [], hsupply⟩
  | some decided =>
    rw [isProbablePrime_of_some htrial, isProbablePrime_of_some htrial]
    constructor
    · rintro ⟨supply, left, h⟩
      cases h
      exact ⟨[], by simp [AreWitnesses], rfl⟩
    · rintro ⟨draws, -, h⟩
      cases h
      exact ⟨[], [], rfl⟩

/-- **The primality test errs on one side only.** A number is accepted exactly if it is a small prime, or is
beyond them, has none of them as a factor and is a strong probable prime to each of twenty witnesses, which
are then used up. So a prime is accepted whatever is drawn, as long as the draws last, and every other number
is rejected for some draws. What holds of lists of witnesses holds of supplies of random bytes, as these yield
the same answers. -/
theorem isProbablePrime_one_sided (n : Nat) :
    (∀ draws rest : List Nat, isProbablePrime nextWitness n draws = some (true, rest) ↔
      n ∈ smallPrimes ∧ rest = draws ∨
      97 < n ∧ (∀ p ∈ smallPrimes, ¬ p ∣ n) ∧
        ∃ used, used.length = 20 ∧ draws = used ++ rest ∧ ∀ a ∈ used, IsStrongProbablePrime n a) ∧
    (∀ draws : List Nat, (97 < n → (∀ p ∈ smallPrimes, ¬ p ∣ n) → 20 ≤ draws.length) →
      ∃ answer rest, isProbablePrime nextWitness n draws = some (answer, rest)) ∧
    (n.Prime → ∀ draws : List Nat, (∀ a ∈ draws, 2 ≤ a ∧ a ≤ n - 2) →
      (97 < n → 20 ≤ draws.length) →
        ∃ rest, isProbablePrime nextWitness n draws = some (true, rest)) ∧
    (¬ n.Prime → ∃ draws : List Nat, (∀ a ∈ draws, 2 ≤ a ∧ a ≤ n - 2) ∧
      isProbablePrime nextWitness n draws = some (false, [])) ∧
    ∀ answer, (∃ supply left, isProbablePrime (drawWitness n) n supply = some (answer, left)) ↔
      ∃ draws : List Nat, (∀ a ∈ draws, 2 ≤ a ∧ a ≤ n - 2) ∧
        isProbablePrime nextWitness n draws = some (answer, []) := by
  refine ⟨fun _ _ => isProbablePrime_eq_true_iff, fun _ h => exists_isProbablePrime h, ?_,
    exists_isProbablePrime_eq_false, fun _ => exists_draws_iff⟩
  intro hn draws hdraws hlength
  obtain ⟨answer, rest, hanswer⟩ : ∃ answer rest, isProbablePrime nextWitness n draws =
      some (answer, rest) := exists_isProbablePrime fun hlarge _ => hlength hlarge
  cases answer with
  | true => exact ⟨rest, hanswer⟩
  | false => exact absurd hanswer (isProbablePrime_ne_false hn hdraws)

/-- The primes 101 and 103 are beyond division by small primes, and so is their product. No supply rejects
one of the two, and some supply rejects the product. -/
theorem isProbablePrime_of_twinPrimes :
    (∀ draws : List Nat, (∀ a ∈ draws, 2 ≤ a ∧ a ≤ 101 - 2) → (97 < 101 → 20 ≤ draws.length) →
      ∃ rest, isProbablePrime nextWitness 101 draws = some (true, rest)) ∧
    (¬ ∃ supply left, isProbablePrime (drawWitness 103) 103 supply = some (false, left)) ∧
    ∃ supply left, isProbablePrime (drawWitness 10403) 10403 supply = some (false, left) := by
  obtain ⟨-, -, hprime, -, -⟩ := isProbablePrime_one_sided 101
  obtain ⟨-, -, -, -, hsupplies⟩ := isProbablePrime_one_sided 103
  obtain ⟨-, -, -, hcomposite, hdraws⟩ := isProbablePrime_one_sided 10403
  refine ⟨hprime (by norm_num), ?_, (hdraws false).mpr (hcomposite (by norm_num))⟩
  rw [hsupplies]
  rintro ⟨draws, hwitnesses, hrejected⟩
  exact isProbablePrime_ne_false (by norm_num) hwitnesses hrejected

end TimelockAuction
