import Mathlib
import TimelockAuction.Random.Draw
import TimelockAuction.Proofs.Endian

/-!
# What a draw can yield

Nothing is assumed of a supply, so what is said of a draw is a property of every value that it yields.

* `Draw.bind_eq_some_iff`, `Draw.run_bind_eq_some_iff`: a sequence of draws yields a value if its parts
  do, each from the supply that the one before left.
* `Draw.run_bind_of_ok`, `Draw.run_bind_of_error`: how a sequence goes on behind its first draw.
* `Draw.exists_bytes`: a supply that is long enough yields bytes.
* `Draw.exists_range`: every number within the bounds is drawn from some supply.
* `Draw.Yields.untilSome`: what a repeated draw yields was accepted by one attempt.
* `Draw.yields_natural`, `Draw.yields_range`: drawn numbers stay within their bounds.
-/

namespace TimelockAuction.Draw

variable {α β ε : Type}

/-! ## Sequences of draws -/

theorem pure_eq_some_iff {a b : α} {supply rest : Bytes} :
    (pure a : Draw α) supply = some (b, rest) ↔ b = a ∧ rest = supply := by
  change some (a, supply) = some (b, rest) ↔ _
  rw [Option.some.injEq, Prod.mk.injEq]
  exact and_congr eq_comm eq_comm

theorem bind_eq_some_iff {draw : Draw α} {f : α → Draw β} {supply rest : Bytes} {b : β} :
    (draw >>= f) supply = some (b, rest) ↔
      ∃ a left, draw supply = some (a, left) ∧ f a left = some (b, rest) := by
  change (draw supply).bind (fun p => f p.1 p.2) = some (b, rest) ↔ _
  rw [Option.bind_eq_some_iff]
  constructor
  · rintro ⟨⟨a, left⟩, ha, hb⟩
    exact ⟨a, left, ha, hb⟩
  · rintro ⟨a, left, ha, hb⟩
    exact ⟨(a, left), ha, hb⟩

/-- The same for draws that can fail: a sequence succeeds if its parts do. -/
theorem run_bind_eq_some_iff {draw : ExceptT ε Draw α} {f : α → ExceptT ε Draw β}
    {supply rest : Bytes} {b : β} :
    (draw >>= f).run supply = some (.ok b, rest) ↔
      ∃ a left, draw.run supply = some (.ok a, left) ∧ (f a).run left = some (.ok b, rest) := by
  rw [ExceptT.run_bind, bind_eq_some_iff]
  constructor
  · rintro ⟨_ | a, left, ha, hb⟩
    · cases (pure_eq_some_iff.mp hb).1
    · exact ⟨a, left, ha, hb⟩
  · rintro ⟨a, left, ha, hb⟩
    exact ⟨.ok a, left, ha, hb⟩

theorem run_lift_eq_some_iff {draw : Draw α} {supply rest : Bytes} {a : α} :
    (ExceptT.lift draw : ExceptT ε Draw α).run supply = some (.ok a, rest) ↔
      draw supply = some (a, rest) := by
  rw [ExceptT.run_lift, ← bind_pure_comp, bind_eq_some_iff]
  constructor
  · rintro ⟨b, left, hb, hpure⟩
    obtain ⟨hok, rfl⟩ := pure_eq_some_iff.mp hpure
    cases hok
    exact hb
  · intro h
    exact ⟨a, rest, h, rfl⟩

theorem run_bind_of_ok {draw : ExceptT ε Draw α} {f : α → ExceptT ε Draw β} {supply left : Bytes}
    {a : α} (h : draw.run supply = some (.ok a, left)) :
    (draw >>= f).run supply = (f a).run left := by
  rw [ExceptT.run_bind]
  change (draw.run supply).bind _ = _
  rw [h]
  rfl

/-- A failure ends a sequence of draws. -/
theorem run_bind_of_error {draw : ExceptT ε Draw α} {f : α → ExceptT ε Draw β}
    {supply rest : Bytes} {error : ε} (h : draw.run supply = some (.error error, rest)) :
    (draw >>= f).run supply = some (.error error, rest) := by
  rw [ExceptT.run_bind, bind_eq_some_iff]
  exact ⟨.error error, rest, h, rfl⟩

/-- A supply that is long enough yields bytes. -/
theorem exists_bytes {n : Nat} {supply : Bytes} (h : n ≤ supply.length) :
    ∃ drawn, bytes n supply = some (drawn, supply.drop n) := by
  have htaken : (supply.take n).length = n := List.length_take_of_le h
  exact ⟨_, dif_pos htaken⟩

/-! ## Properties of drawn values -/

/-- Every value that a draw yields satisfies `P`, whatever the supply. -/
def Yields (draw : Draw α) (P : α → Prop) : Prop :=
  ∀ (supply : Bytes) (value : α) (rest : Bytes), draw supply = some (value, rest) → P value

theorem yields_pure {P : α → Prop} {a : α} (h : P a) : Yields (pure a) P := by
  intro supply value rest hrun
  rw [(pure_eq_some_iff.mp hrun).1]
  exact h

theorem Yields.bind {draw : Draw α} {f : α → Draw β} {Q : α → Prop} {P : β → Prop}
    (hd : Yields draw Q) (hf : ∀ a, Q a → Yields (f a) P) : Yields (draw >>= f) P := by
  intro supply value rest hrun
  obtain ⟨a, left, ha, hb⟩ := bind_eq_some_iff.mp hrun
  exact hf a (hd supply a left ha) left value rest hb

theorem yields_true (draw : Draw α) : Yields draw (fun _ => True) := fun _ _ _ _ => trivial

theorem Yields.retry {attempt : Draw (Option α)} {P : α → Prop}
    (h : Yields attempt (fun result => ∀ value, result = some value → P value)) (attempts : Nat) :
    Yields (retry attempt attempts) P := by
  induction attempts with
  | zero =>
    intro supply value rest hrun
    cases hrun
  | succ attempts ih =>
    refine h.bind fun result hresult => ?_
    cases result with
    | none => exact ih
    | some value => exact yields_pure (hresult value rfl)

theorem Yields.untilSome {attempt : Draw (Option α)} {P : α → Prop}
    (h : Yields attempt (fun result => ∀ value, result = some value → P value)) :
    Yields (untilSome attempt) P :=
  fun supply => h.retry (supply.length + 1) supply

/-! ## Drawn numbers -/

/-- Dropping the surplus low bits of the last word leaves `bits` binary digits. -/
theorem add_shiftLeft_lt {n low surplus kept : Nat} (h : n < 2 ^ (low + surplus + kept)) :
    n % (1 <<< low) + (n >>> low >>> surplus) <<< low < 2 ^ (low + kept) := by
  simp only [Nat.shiftLeft_eq, Nat.shiftRight_eq_div_pow, Nat.one_mul, Nat.div_div_eq_div_mul,
    ← Nat.pow_add]
  have hlow : n % 2 ^ low < 2 ^ low := Nat.mod_lt _ (Nat.two_pow_pos low)
  have hhigh : n / 2 ^ (low + surplus) < 2 ^ kept := by
    rw [Nat.div_lt_iff_lt_mul (Nat.two_pow_pos _), ← Nat.pow_add, Nat.add_comm kept]
    exact h
  calc n % 2 ^ low + n / 2 ^ (low + surplus) * 2 ^ low
      < 2 ^ low + n / 2 ^ (low + surplus) * 2 ^ low := Nat.add_lt_add_right hlow _
    _ = (n / 2 ^ (low + surplus) + 1) * 2 ^ low := by rw [Nat.add_mul, Nat.one_mul, Nat.add_comm]
    _ ≤ 2 ^ kept * 2 ^ low := Nat.mul_le_mul_right _ hhigh
    _ = 2 ^ (low + kept) := by rw [← Nat.pow_add, Nat.add_comm kept]

/-- The words of a drawn number have as many bits as its binary digits and the surplus ones. -/
theorem pow_words_eq (bits : Nat) :
    (256 : Nat) ^ (4 * ((bits + 31) / 32)) = 2 ^ (32 * ((bits + 31) / 32)) := by
  rw [show (256 : Nat) = 2 ^ 8 from rfl, ← pow_mul]
  congr 1
  omega

theorem yields_natural (bits : Nat) : Yields (natural bits) (· < 2 ^ bits) := by
  refine (yields_true _).bind fun taken _ => ?_
  have hlt := LittleEndian.toNat_lt taken.toList
  rw [Vector.length_toList] at hlt
  generalize LittleEndian.toNat taken.toList = n at hlt ⊢
  rw [pow_words_eq] at hlt
  by_cases hwhole : bits % 32 = 0
  · rw [if_pos hwhole]
    refine yields_pure ?_
    have hbits : 32 * ((bits + 31) / 32) = bits := by omega
    rwa [hbits] at hlt
  · rw [if_neg hwhole]
    refine yields_pure ?_
    have hbits : 32 * (bits / 32) + bits % 32 = bits := Nat.div_add_mod bits 32
    have hwords : 32 * (bits / 32) + (32 - bits % 32) + bits % 32 = 32 * ((bits + 31) / 32) := by
      omega
    rw [← hwords] at hlt
    have hsum := add_shiftLeft_lt hlt
    rwa [hbits] at hsum

theorem yields_range (low high : Nat) :
    Yields (range low high) (fun n => low ≤ n ∧ n < high) := by
  refine Yields.bind (Q := (· < high - low)) ?_ fun offset hlt => yields_pure ?_
  · refine Yields.untilSome ((yields_true _).bind fun n _ => yields_pure ?_)
    intro value hvalue
    split at hvalue
    · rename_i hn
      cases hvalue
      exact hn
    · cases hvalue
  · omega

/-! ## Supplies that yield a number -/

theorem bytes_append {n : Nat} (drawn : Vector UInt8 n) (rest : Bytes) :
    bytes n (drawn.toList ++ rest) = some (drawn, rest) := by
  have hlength : drawn.toList.length = n := Vector.length_toList
  unfold bytes
  simp only [List.take_left' hlength, List.drop_left' hlength, Bytes.toVector_toList]
  exact dif_pos hlength

/-- A draw that is accepted at once is not repeated. -/
theorem untilSome_of_some {attempt : Draw (Option α)} {supply rest : Bytes} {value : α}
    (h : attempt supply = some (some value, rest)) :
    untilSome attempt supply = some (value, rest) :=
  bind_eq_some_iff.mpr ⟨some value, rest, h, rfl⟩

/-- The digits that are kept go around the surplus low bits of the last word, which may be zero. -/
theorem exists_add_shiftLeft_eq {low kept k : Nat} (surplus : Nat) (h : k < 2 ^ (low + kept)) :
    ∃ n < 2 ^ (low + surplus + kept),
      n % (1 <<< low) + (n >>> low >>> surplus) <<< low = k := by
  have hlow : k % 2 ^ low < 2 ^ (low + surplus) :=
    (Nat.mod_lt k (Nat.two_pow_pos low)).trans_le (Nat.pow_le_pow_right two_pos (by omega))
  have hhigh : k / 2 ^ low < 2 ^ kept := by
    rw [Nat.div_lt_iff_lt_mul (Nat.two_pow_pos low), ← Nat.pow_add, Nat.add_comm kept]
    exact h
  refine ⟨k % 2 ^ low + k / 2 ^ low * 2 ^ (low + surplus), ?_, ?_⟩
  · calc k % 2 ^ low + k / 2 ^ low * 2 ^ (low + surplus)
        < 2 ^ (low + surplus) + k / 2 ^ low * 2 ^ (low + surplus) := Nat.add_lt_add_right hlow _
      _ = (k / 2 ^ low + 1) * 2 ^ (low + surplus) := by rw [Nat.add_mul, Nat.one_mul, Nat.add_comm]
      _ ≤ 2 ^ kept * 2 ^ (low + surplus) := Nat.mul_le_mul_right _ hhigh
      _ = 2 ^ (low + surplus + kept) := by rw [← Nat.pow_add, Nat.add_comm kept]
  · have hmod : (k % 2 ^ low + k / 2 ^ low * 2 ^ (low + surplus)) % 2 ^ low = k % 2 ^ low := by
      rw [Nat.pow_add, Nat.mul_left_comm, Nat.add_mul_mod_self_left, Nat.mod_mod]
    simp only [Nat.shiftLeft_eq, Nat.shiftRight_eq_div_pow, Nat.one_mul, Nat.div_div_eq_div_mul,
      ← Nat.pow_add, hmod]
    rw [Nat.add_mul_div_right _ _ (Nat.two_pow_pos _), Nat.div_eq_of_lt hlow, Nat.zero_add,
      Nat.mod_add_div']

theorem exists_natural {bits k : Nat} (h : k < 2 ^ bits) :
    ∃ front, ∀ rest, natural bits (front ++ rest) = some (k, rest) := by
  -- Some words `n` are read as `k`, and the bytes of these words are the front of the supply.
  have hwords : ∃ n < 2 ^ (32 * ((bits + 31) / 32)),
      (if bits % 32 = 0 then n
        else n % (1 <<< (32 * (bits / 32))) +
          (n >>> (32 * (bits / 32)) >>> (32 - bits % 32)) <<< (32 * (bits / 32))) = k := by
    by_cases hwhole : bits % 32 = 0
    · refine ⟨k, ?_, if_pos hwhole⟩
      rwa [show 32 * ((bits + 31) / 32) = bits by omega]
    · rw [← Nat.div_add_mod bits 32] at h
      obtain ⟨n, hn, hread⟩ := exists_add_shiftLeft_eq (32 - bits % 32) h
      refine ⟨n, ?_, (if_neg hwhole).trans hread⟩
      rwa [show 32 * ((bits + 31) / 32) = 32 * (bits / 32) + (32 - bits % 32) + bits % 32 by omega]
  obtain ⟨n, hn, hread⟩ := hwords
  let drawn : Vector UInt8 (4 * ((bits + 31) / 32)) :=
    Bytes.toVector (LittleEndian.encode _ n) (LittleEndian.length_encode _ n)
  have hvalue : LittleEndian.toNat drawn.toList = n := by
    rw [Bytes.toList_toVector, LittleEndian.toNat_encode, pow_words_eq, Nat.mod_eq_of_lt hn]
  refine ⟨drawn.toList, fun rest => bind_eq_some_iff.mpr ⟨drawn, rest, bytes_append drawn rest, ?_⟩⟩
  simp only [hvalue]
  split at hread
  · rename_i hwhole
    rw [if_pos hwhole, hread]
    rfl
  · rename_i hwhole
    rw [if_neg hwhole, hread]
    rfl

theorem lt_two_pow_bitLength (n : Nat) : n < 2 ^ bitLength n := by
  unfold bitLength
  split
  · rename_i hzero
    rw [hzero]
    exact Nat.two_pow_pos 0
  · exact Nat.lt_log2_self

/-- Every number within the bounds can be drawn, and at the first attempt. -/
theorem exists_range {low high k : Nat} (hlow : low ≤ k) (hhigh : k < high) :
    ∃ front, ∀ rest, range low high (front ++ rest) = some (k, rest) := by
  have hoffset : k - low < high - low := by omega
  obtain ⟨front, hnatural⟩ := exists_natural (hoffset.trans (lt_two_pow_bitLength (high - low)))
  refine ⟨front, fun rest => bind_eq_some_iff.mpr ⟨k - low, rest, ?_, ?_⟩⟩
  · apply untilSome_of_some
    refine bind_eq_some_iff.mpr ⟨k - low, rest, hnatural rest, ?_⟩
    rw [if_pos hoffset]
    rfl
  · rw [Nat.add_sub_cancel' hlow]
    rfl

end TimelockAuction.Draw
