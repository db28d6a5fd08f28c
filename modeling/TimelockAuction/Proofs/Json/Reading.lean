import Mathlib
import TimelockAuction.Json.Reading
import TimelockAuction.Proofs.Json.RoundTrip

/-!
# Typed values come back

Each reader gives back what was written for it: an integer of any size, a string of any characters, and
the fields of a record whose names differ. All of it has a spelling.

* `word?_nat`, `byte?_nat`, `string?_string`: scalars.
* `record?_ofFields_of_nodup`, `record?_ofFields`: records, under any names and under their own.
* `isSpelled_nat`, `isSpelled_string`, `isSpelled_ofFields`: their spellings.
-/

namespace TimelockAuction.Json

/-! ## Digits -/

/-- The digits of a positive natural do not begin with zero. -/
theorem head?_toDigits {n : Nat} (h : n ≠ 0) : (Nat.toDigits 10 n).head? ≠ some '0' := by
  have hdigit : ∀ d < 10, d ≠ 0 → Nat.digitChar d ≠ '0' := by decide
  induction n using Nat.strong_induction_on with
  | _ n ih =>
    by_cases hsmall : n < 10
    · rw [Nat.toDigits_of_lt_base hsmall]
      simpa using hdigit n hsmall h
    · rw [Nat.toDigits_of_base_le (by decide) (by omega), List.head?_append_of_ne_nil _ Nat.toDigits_ne_nil]
      exact ih (n / 10) (by omega) (by omega)

theorem isDigit_toDigits {n : Nat} : ∀ c ∈ Nat.toDigits 10 n, c.isDigit = true :=
  fun _ hc => Nat.isDigit_of_mem_toDigits (by decide) (by decide) hc

/-- Only zero itself begins with zero. -/
theorem length_toDigits_of_head? {n : Nat} (h : (Nat.toDigits 10 n).head? = some '0') :
    (Nat.toDigits 10 n).length = 1 := by
  by_cases hn : n = 0
  · rw [hn, Nat.toDigits_zero]
    rfl
  · exact absurd h (head?_toDigits hn)

theorem Number.isSpelled_ofNat (n : Nat) : (Number.ofNat n).IsSpelled where
  whole_ne_nil := Nat.toDigits_ne_nil
  isDigit_whole := isDigit_toDigits
  no_leading_zero := length_toDigits_of_head?
  isDigit_fraction := nofun
  exponent_ne_nil := nofun
  isDigit_exponent := nofun

theorem Number.nat?_ofNat (n : Nat) : (Number.ofNat n).nat? = some n := by
  simp [Number.nat?, Number.ofNat, Nat.ofDigitChars_ten_toDigits]

/-! ## Scalars -/

theorem isSpelled_nat (n : Nat) : (nat n).IsSpelled :=
  .scalar (s := .number (.ofNat n)) (Number.isSpelled_ofNat n)

theorem word?_nat (n : UInt64) : (nat n.toNat).word? = some n := by
  have hlt : n.toNat < UInt64.size := n.toNat_lt
  simp [nat, word?, Number.nat?_ofNat, hlt]

theorem byte?_nat (b : UInt8) : (nat b.toNat).byte? = some b := by
  have hlt : b.toNat < UInt8.size := b.toNat_lt
  simp [nat, byte?, Number.nat?_ofNat, hlt]

theorem isSpelled_text_ofString (s : String) : (Scalar.text (.ofString s)).IsSpelled := by
  intro code hcode
  obtain ⟨c, -, hc⟩ := List.mem_map.mp hcode
  cases hc

theorem isSpelled_string (s : String) : (string s).IsSpelled :=
  .scalar (isSpelled_text_ofString s)

theorem chars?_map_char (chars : List Char) :
    Text.chars? (chars.map .char) = some chars := by
  induction chars with
  | nil => rfl
  | cons c chars ih => rw [List.map_cons, Text.chars?, ih, Option.map_some]

theorem text_string?_ofString (s : String) : Text.string? (.ofString s) = some s := by
  rw [Text.string?, Text.ofString, chars?_map_char, Option.map_some, String.ofList_toList]

theorem string?_string (s : String) : (string s).string? = some s :=
  text_string?_ofString s

/-! ## Records -/

theorem mapM_eq_some {α β : Type} {f : α → Option β} {g : α → β} {xs : List α}
    (h : ∀ a ∈ xs, f a = some (g a)) : xs.mapM f = some (xs.map g) := by
  induction xs with
  | nil => rfl
  | cons a xs ih =>
    rw [List.mapM_cons, h a List.mem_cons_self, ih fun b hb => h b (List.mem_cons_of_mem _ hb)]
    rfl

variable {fields : List (String × Json)}

/-- The first field of a name is the only one. -/
theorem filter_name_of_nodup (h : (fields.map Prod.fst).Nodup) (name : String) :
    fields.filter (·.1 == name) = ((fields.lookup name).map (name, ·)).toList := by
  induction fields with
  | nil => rfl
  | cons field fields ih =>
    obtain ⟨first, v⟩ := field
    rw [List.map_cons, List.nodup_cons] at h
    have hlater := ih h.2
    by_cases hname : first = name
    · subst hname
      have hnone : fields.lookup first = none := by
        apply List.lookup_eq_none_iff.mpr
        intro other hother
        simp only [bne_iff_ne]
        exact fun heq => h.1 (List.mem_map.mpr ⟨other, hother, heq.symm⟩)
      rw [hnone] at hlater
      rw [List.filter_cons_of_pos (by simp), hlater, List.lookup_cons_self]
      rfl
    · have hbeq : (name == first) = false := by simpa using Ne.symm hname
      rw [List.filter_cons_of_neg (by simpa using hname), hlater, List.lookup_cons, hbeq]

/-- Whichever names are asked for, each finds its field, if the fields have different names. -/
theorem record?_ofFields_of_nodup (h : (fields.map Prod.fst).Nodup) (names : List String) :
    (ofFields fields).record? names = some (names.map fun name => fields.lookup name) := by
  have hmembers : (fields.map fun field => (Text.ofString field.1, field.2)).mapM
      (fun member => member.1.string?.bind fun name => some (name, member.2)) = some fields := by
    rw [List.mapM_map, mapM_eq_some (g := id), List.map_id]
    intro field _
    simp [text_string?_ofString]
  refine (congrArg (Option.bind · _) hmembers).trans ?_
  rw [Option.bind_some]
  apply mapM_eq_some
  intro name _
  rw [filter_name_of_nodup h name]
  cases fields.lookup name <;> rfl

theorem lookup_of_mem (h : (fields.map Prod.fst).Nodup) {name : String} {v : Json}
    (hmem : (name, v) ∈ fields) : fields.lookup name = some v := by
  have hfilter : (name, v) ∈ fields.filter (·.1 == name) := List.mem_filter.mpr ⟨hmem, by simp⟩
  rw [filter_name_of_nodup h name] at hfilter
  simpa using hfilter

/-- The fields of a record are found under their names, if these differ. -/
theorem record?_ofFields (h : (fields.map Prod.fst).Nodup) :
    (ofFields fields).record? (fields.map Prod.fst) =
      some (fields.map fun field => some field.2) := by
  rw [record?_ofFields_of_nodup h, List.map_map]
  congr 1
  apply List.map_congr_left
  intro field hfield
  exact lookup_of_mem h hfield

theorem isSpelled_ofFields (h : ∀ field ∈ fields, field.2.IsSpelled) : (ofFields fields).IsSpelled := by
  refine .object ?_ ?_
  · intro member hmember
    obtain ⟨field, -, rfl⟩ := List.mem_map.mp hmember
    exact isSpelled_text_ofString field.1
  · intro member hmember
    obtain ⟨field, hfield, rfl⟩ := List.mem_map.mp hmember
    exact h field hfield

end TimelockAuction.Json
