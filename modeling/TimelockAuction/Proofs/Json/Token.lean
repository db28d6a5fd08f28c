import Mathlib
import TimelockAuction.Json.Token

/-!
# Cutting undoes spelling

Brackets, separators and texts say themselves where they end. A word does not: it ends where the text
does or where something stands that is no part of a word, so it is read back only in front of such a
place. `Delimits` says that a text is one.

* `Number.ofChars?_chars`: a number is read from its spelling.
* `Scalar.ofWord?_spelling`: so is any scalar that is written as a word.
* `cut_textSpelling`: inside quotes, a unit at a time.
* `cut_scalar`: a scalar of any kind.
-/

namespace TimelockAuction.Json

/-! ## Numbers -/

namespace Number

/-- A number of digits as the grammar of JSON has them. -/
structure IsSpelled (n : Number) : Prop where
  whole_ne_nil : n.whole ≠ []
  isDigit_whole : ∀ c ∈ n.whole, c.isDigit = true
  no_leading_zero : n.whole.head? = some '0' → n.whole.length = 1
  isDigit_fraction : ∀ c ∈ n.fraction, c.isDigit = true
  exponent_ne_nil : ∀ e, n.exponent = some e → e.digits ≠ []
  isDigit_exponent : ∀ e, n.exponent = some e → ∀ c ∈ e.digits, c.isDigit = true

/-- A run of digits ends where no digit follows. -/
theorem span_digits {digits rest : List Char} (hdigits : ∀ c ∈ digits, c.isDigit = true)
    (hrest : ∀ c ∈ rest.head?, c.isDigit = false) :
    (digits ++ rest).span Char.isDigit = (digits, rest) := by
  rw [List.span_eq_takeWhile_dropWhile, List.takeWhile_append_of_pos hdigits,
    List.dropWhile_append_of_pos hdigits]
  cases rest with
  | nil => simp
  | cons c rest =>
    have hc := hrest c rfl
    simp [hc]

/-- The spelling of an exponent. -/
def exponentChars : Option Exponent → List Char
  | none => []
  | some e => 'e' :: (if e.negative then '-' else '+') :: e.digits

theorem chars_eq (n : Number) :
    n.chars = (if n.negative then ['-'] else []) ++ (n.whole ++
      ((if n.fraction = [] then [] else '.' :: n.fraction) ++ exponentChars n.exponent)) := by
  obtain ⟨negative, whole, fraction, exponent⟩ := n
  cases exponent <;> simp [chars, exponentChars]

theorem head?_exponentChars {e : Option Exponent} {c : Char} (h : c ∈ (exponentChars e).head?) :
    c = 'e' := by
  cases e with
  | none => cases h
  | some e =>
    cases h
    rfl

theorem cutExponent?_exponentChars {e : Option Exponent} (hne : ∀ x, e = some x → x.digits ≠ [])
    (hdigits : ∀ x, e = some x → ∀ c ∈ x.digits, c.isDigit = true) :
    cutExponent? (exponentChars e) = some e := by
  cases e with
  | none => rfl
  | some e =>
    obtain ⟨negative, digits⟩ := e
    have hne := hne _ rfl
    have hall := List.all_eq_true.mpr (hdigits _ rfl)
    cases negative with
    | true => simp [exponentChars, cutExponent?, hne, hall]
    | false => simp [exponentChars, cutExponent?, hne, hall]

theorem cutFraction?_append {fraction rest : List Char}
    (hdigits : ∀ c ∈ fraction, c.isDigit = true) (hrest : ∀ c ∈ rest.head?, c = 'e') :
    cutFraction? ((if fraction = [] then [] else '.' :: fraction) ++ rest) =
      some (fraction, rest) := by
  by_cases hnil : fraction = []
  · subst hnil
    cases rest with
    | nil => rfl
    | cons c rest =>
      rw [hrest c rfl]
      rfl
  · have hstop : ∀ c ∈ rest.head?, c.isDigit = false := by
      intro c hc
      rw [hrest c hc]
      rfl
    rw [if_neg hnil, List.cons_append, cutFraction?, span_digits hdigits hstop]
    simp [hnil]

/-- Behind the whole part stands a point, an exponent or nothing. -/
theorem isDigit_head_tail {fraction : List Char} {e : Option Exponent} {c : Char}
    (h : c ∈ ((if fraction = [] then [] else '.' :: fraction) ++ exponentChars e).head?) :
    c.isDigit = false := by
  by_cases hnil : fraction = []
  · rw [if_pos hnil] at h
    rw [head?_exponentChars h]
    rfl
  · rw [if_neg hnil] at h
    cases h
    rfl

/-- A number is read from its spelling, whatever its parts. -/
theorem ofChars?_chars {n : Number} (h : n.IsSpelled) : ofChars? n.chars = some n := by
  obtain ⟨negative, whole, fraction, exponent⟩ := n
  have hexponent := cutExponent?_exponentChars h.exponent_ne_nil h.isDigit_exponent
  have hmark : ∀ c ∈ (exponentChars exponent).head?, c = 'e' := fun c hc => head?_exponentChars hc
  have htail := cutFraction?_append h.isDigit_fraction hmark
  have hspan : (whole ++ ((if fraction = [] then [] else '.' :: fraction) ++
      exponentChars exponent)).span Char.isDigit = (whole, _) :=
    span_digits h.isDigit_whole fun _ hc => isDigit_head_tail hc
  have hzero : ¬ (whole = [] ∨ whole.head? = some '0' ∧ whole.length ≠ 1) := by
    rintro (hnil | ⟨hhead, hlength⟩)
    · exact h.whole_ne_nil hnil
    · exact hlength (h.no_leading_zero hhead)
  rw [chars_eq]
  cases negative with
  | true =>
    simp only [ofChars?, if_true, List.cons_append, List.nil_append, hspan, if_neg hzero, htail,
      Option.bind_eq_bind, Option.bind_some, hexponent]
    rfl
  | false =>
    -- The first digit is no sign.
    cases whole with
    | nil => exact absurd rfl h.whole_ne_nil
    | cons first whole =>
      have hfirst : first ≠ '-' := by
        rintro rfl
        exact absurd (h.isDigit_whole '-' List.mem_cons_self) (by decide)
      rw [if_neg Bool.false_ne_true, List.nil_append]
      unfold ofChars?
      split
      rename_i negative unsigned hmatch
      split at hmatch
      · rename_i heq
        exact absurd (List.cons.inj heq).1 hfirst
      · cases hmatch
        simp only [hspan, if_neg hzero, htail, Option.bind_eq_bind, Option.bind_some, hexponent]
        rfl

end Number

/-! ## Words -/

/-- A scalar that JSON has a spelling for. -/
def Scalar.IsSpelled : Scalar → Prop
  | .number n => n.IsSpelled
  | .text units => ∀ code, .surrogate code ∈ units → 0xd800 ≤ code ∧ code ≤ 0xdfff
  | _ => True

/-- A character that goes on with a word, and starts one between tokens. -/
def IsWordChar (c : Char) : Prop := Mode.open c = ([], .word [c])

/-- A text that does not go on with a word. -/
def Delimits (rest : List Char) : Prop :=
  ∀ c ∈ rest.head?, ∀ seen, (Mode.open c).2 ≠ .word seen

theorem isWordChar_of_isDigit {c : Char} (h : c.isDigit = true) : IsWordChar c := by
  have hne : ∀ d : Char, d.isDigit = false → c ≠ d := by
    rintro d hd rfl
    rw [h] at hd
    cases hd
  unfold IsWordChar Mode.open isBlank
  simp [hne]

theorem Number.isWordChar_of_mem_exponentChars {e : Option Exponent}
    (h : ∀ x, e = some x → ∀ c ∈ x.digits, c.isDigit = true) {c : Char}
    (hc : c ∈ exponentChars e) : IsWordChar c := by
  cases e with
  | none => cases hc
  | some e =>
    rcases List.mem_cons.mp hc with rfl | hc
    · rfl
    rcases List.mem_cons.mp hc with rfl | hc
    · cases e.negative with
      | true => rfl
      | false => rfl
    · exact isWordChar_of_isDigit (h e rfl c hc)

theorem Number.isWordChar_of_mem_chars {n : Number} (h : n.IsSpelled) {c : Char}
    (hc : c ∈ n.chars) : IsWordChar c := by
  rw [chars_eq] at hc
  rcases List.mem_append.mp hc with hsign | hc
  · cases hnegative : n.negative with
    | true =>
      rw [if_pos hnegative] at hsign
      rw [List.mem_singleton.mp hsign]
      rfl
    | false => simp [hnegative] at hsign
  rcases List.mem_append.mp hc with hwhole | hc
  · exact isWordChar_of_isDigit (h.isDigit_whole c hwhole)
  rcases List.mem_append.mp hc with hfraction | hexponent
  · by_cases hnil : n.fraction = []
    · simp [hnil] at hfraction
    · rw [if_neg hnil] at hfraction
      rcases List.mem_cons.mp hfraction with rfl | hfraction
      · rfl
      · exact isWordChar_of_isDigit (h.isDigit_fraction c hfraction)
  · exact isWordChar_of_mem_exponentChars h.isDigit_exponent hexponent

namespace Scalar

/-- Texts are quoted; any other scalar is a word. -/
def IsWord : Scalar → Prop
  | .text _ => False
  | _ => True

theorem ofWord?_spelling {s : Scalar} (h : s.IsSpelled) (hword : s.IsWord) :
    ofWord? s.spelling = some s := by
  cases s with
  | null => rfl
  | bool b =>
    cases b with
    | true => rfl
    | false => rfl
  | number n =>
    have hread := Number.ofChars?_chars h
    -- None of the three names is a number.
    have hname : ∀ name, Number.ofChars? name = none → n.chars ≠ name := by
      rintro name hname rfl
      rw [hread] at hname
      cases hname
    rw [spelling, ofWord?, if_neg (hname _ rfl), if_neg (hname _ rfl), if_neg (hname _ rfl), hread,
      Option.map_some]
  | text t => cases hword

theorem isWordChar_of_mem_spelling {s : Scalar} (h : s.IsSpelled) (hword : s.IsWord) {c : Char}
    (hc : c ∈ s.spelling) : IsWordChar c := by
  cases s with
  | null =>
    simp only [spelling, List.mem_cons, List.not_mem_nil, or_false] at hc
    rcases hc with rfl | rfl | rfl | rfl <;> rfl
  | bool b =>
    cases b with
    | true =>
      simp only [spelling, List.mem_cons, List.not_mem_nil, or_false] at hc
      rcases hc with rfl | rfl | rfl | rfl <;> rfl
    | false =>
      simp only [spelling, List.mem_cons, List.not_mem_nil, or_false] at hc
      rcases hc with rfl | rfl | rfl | rfl | rfl <;> rfl
  | number n => exact Number.isWordChar_of_mem_chars h hc
  | text t => cases hword

theorem spelling_ne_nil {s : Scalar} (h : s.IsSpelled) : s.spelling ≠ [] := by
  cases s with
  | null => simp [spelling]
  | bool b =>
    cases b with
    | true => simp [spelling]
    | false => simp [spelling]
  | number n =>
    rw [spelling, Number.chars_eq]
    have hwhole := h.whole_ne_nil
    simp [hwhole]
  | text t => simp [spelling]

end Scalar

/-! ## Cutting -/

section Cutting

variable {mode next : Mode} {c : Char} {rest : List Char} {completed : List Token} {s : Scalar}

theorem cut_of_step (h : mode.step c = some (completed, next)) :
    cut mode (c :: rest) = (cut next rest).map (completed ++ ·) := by
  rw [cut, h]
  cases hlater : cut next rest with
  | none => simp [hlater]
  | some later => simp [hlater]

/-- A character that completes no token. -/
theorem cut_of_silent_step (h : mode.step c = some ([], next)) :
    cut mode (c :: rest) = cut next rest := by
  rw [cut_of_step h]
  simp

/-! ### Words -/

theorem cut_wordChars {word : List Char} (h : ∀ c ∈ word, IsWordChar c) (seen : List Char) :
    cut (.word seen) (word ++ rest) = cut (.word (word.reverse ++ seen)) rest := by
  induction word generalizing seen with
  | nil => rfl
  | cons c word ih =>
    have hc : Mode.open c = ([], .word [c]) := h c List.mem_cons_self
    have hstep : (Mode.word seen).step c = some ([], .word (c :: seen)) := by
      simp only [Mode.step, hc]
    rw [List.cons_append, cut_of_silent_step hstep, ih (fun d hd => h d (List.mem_cons_of_mem _ hd))]
    simp

/-- A word is complete where a text does not go on with it. -/
theorem cut_word_end {seen : List Char} (hword : Scalar.ofWord? seen.reverse = some s)
    (hrest : Delimits rest) :
    cut (.word seen) rest = (cut .between rest).map (.scalar s :: ·) := by
  cases rest with
  | nil => simp [cut, Mode.finish, hword]
  | cons c rest =>
    have hopen := hrest c rfl
    cases hnext : Mode.open c with
    | mk completed next =>
      rw [hnext] at hopen
      have hbetween : Mode.between.step c = some (completed, next) := congrArg some hnext
      have hstep : (Mode.word seen).step c = some (.scalar s :: completed, next) := by
        cases next with
        | word started => exact absurd rfl (hopen started)
        | between | text | escape | code => simp [Mode.step, hnext, hword]
      rw [cut_of_step hstep, cut_of_step hbetween, Option.map_map]
      rfl

theorem cut_word (h : s.IsSpelled) (hword : s.IsWord) (hrest : Delimits rest) :
    cut .between (s.spelling ++ rest) = (cut .between rest).map (.scalar s :: ·) := by
  have hchars := fun c => Scalar.isWordChar_of_mem_spelling (c := c) h hword
  have hread := Scalar.ofWord?_spelling h hword
  cases hspelling : s.spelling with
  | nil => exact absurd hspelling (Scalar.spelling_ne_nil h)
  | cons c word =>
    rw [hspelling] at hchars hread
    have hstep : Mode.between.step c = some ([], .word [c]) :=
      congrArg some (hchars c List.mem_cons_self)
    rw [List.cons_append, cut_of_silent_step hstep,
      cut_wordChars (fun d hd => hchars d (List.mem_cons_of_mem _ hd)), cut_word_end _ hrest]
    simpa using hread

/-! ### Texts -/

/-- A unit that is spelled by its code, four digits of it. -/
theorem cut_code {d₁ d₂ d₃ d₄ : Nat} (h₁ : d₁ < 16) (h₂ : d₂ < 16) (h₃ : d₃ < 16) (h₄ : d₄ < 16)
    (seen : Text) :
    cut (.text seen) ('\\' :: 'u' :: Nat.digitChar d₁ :: Nat.digitChar d₂ :: Nat.digitChar d₃ ::
        Nat.digitChar d₄ :: rest) =
      cut (.text (.ofCode (16 * (16 * (16 * d₁ + d₂) + d₃) + d₄) :: seen)) rest := by
  have hstep : ∀ (digit left value : Nat), digit < 16 →
      (Mode.code seen left value).step (Nat.digitChar digit) =
        some ([], if left ≤ 1 then .text (.ofCode (16 * value + digit) :: seen)
          else .code seen (left - 1) (16 * value + digit)) := by
    intro digit left value hdigit
    simp [Mode.step, Hex.digitValue?_digitChar hdigit]
  have hescape : (Mode.text seen).step '\\' = some ([], .escape seen) := rfl
  have hu : (Mode.escape seen).step 'u' = some ([], .code seen 4 0) := rfl
  rw [cut_of_silent_step hescape, cut_of_silent_step hu, cut_of_silent_step (hstep _ _ _ h₁),
    if_neg (by decide), cut_of_silent_step (hstep _ _ _ h₂), if_neg (by decide),
    cut_of_silent_step (hstep _ _ _ h₃), if_neg (by decide), cut_of_silent_step (hstep _ _ _ h₄),
    if_pos (by decide), Nat.mul_zero, Nat.zero_add]

theorem cut_escape {c e : Char} (hescaped : escaped? e = some c) (hu : e ≠ 'u') (seen : Text) :
    cut (.text seen) ('\\' :: e :: rest) = cut (.text (.char c :: seen)) rest := by
  have hescape : (Mode.text seen).step '\\' = some ([], .escape seen) := rfl
  have hchar : (Mode.escape seen).step e = some ([], .text (.char c :: seen)) := by
    simp [Mode.step, hu, hescaped]
  rw [cut_of_silent_step hescape, cut_of_silent_step hchar]

theorem cut_charSpelling (c : Char) (seen : Text) :
    cut (.text seen) (charSpelling c ++ rest) = cut (.text (.char c :: seen)) rest := by
  unfold charSpelling
  by_cases hquote : c = '"'
  · subst hquote
    exact cut_escape rfl (by decide) seen
  by_cases hbackslash : c = '\\'
  · subst hbackslash
    exact cut_escape rfl (by decide) seen
  rw [if_neg hquote, if_neg hbackslash]
  split_ifs with hbackspace hfeed hline hreturn htab hcontrol
  · subst hbackspace
    exact cut_escape rfl (by decide) seen
  · subst hfeed
    exact cut_escape rfl (by decide) seen
  · subst hline
    exact cut_escape rfl (by decide) seen
  · subst hreturn
    exact cut_escape rfl (by decide) seen
  · subst htab
    exact cut_escape rfl (by decide) seen
  · have hvalue : 16 * (16 * (16 * 0 + 0) + c.toNat / 16) + c.toNat % 16 = c.toNat := by omega
    have hunit : TextUnit.ofCode c.toNat = .char c := by
      rw [TextUnit.ofCode, if_neg (by omega), Char.ofNat_toNat]
    refine (cut_code (show 0 < 16 by decide) (show 0 < 16 by decide)
      (show c.toNat / 16 < 16 by omega) (show c.toNat % 16 < 16 by omega) seen).trans ?_
    rw [hvalue, hunit]
    rfl
  · have hstep : (Mode.text seen).step c = some ([], .text (.char c :: seen)) := by
      simp [Mode.step, hquote, hbackslash, hcontrol]
    exact cut_of_silent_step hstep

theorem cut_unitSpelling {unit : TextUnit}
    (h : ∀ code, unit = .surrogate code → 0xd800 ≤ code ∧ code ≤ 0xdfff) (seen : Text) :
    cut (.text seen) (unit.spelling ++ rest) = cut (.text (unit :: seen)) rest := by
  cases unit with
  | char c => exact cut_charSpelling c seen
  | surrogate code =>
    obtain ⟨hlow, hhigh⟩ := h code rfl
    have hvalue : 16 * (16 * (16 * (code / 4096) + code / 256 % 16) + code / 16 % 16) + code % 16 =
        code := by omega
    have hunit : TextUnit.ofCode code = .surrogate code := if_pos ⟨hlow, hhigh⟩
    refine (cut_code (show code / 4096 < 16 by omega) (show code / 256 % 16 < 16 by omega)
      (show code / 16 % 16 < 16 by omega) (show code % 16 < 16 by omega) seen).trans ?_
    rw [hvalue, hunit]
    rfl

theorem cut_textSpelling {units : Text} (h : (Scalar.text units).IsSpelled) (seen : Text) :
    cut (.text seen) (units.flatMap TextUnit.spelling ++ rest) =
      cut (.text (units.reverse ++ seen)) rest := by
  induction units generalizing seen with
  | nil => rfl
  | cons unit units ih =>
    have hunit : ∀ code, unit = .surrogate code → 0xd800 ≤ code ∧ code ≤ 0xdfff := by
      rintro code rfl
      exact h code List.mem_cons_self
    have hunits : (Scalar.text units).IsSpelled := fun code hcode => h code (List.mem_cons_of_mem _ hcode)
    rw [List.flatMap_cons, List.append_assoc, cut_unitSpelling hunit, ih hunits]
    simp

/-! ### Tokens -/

/-- A token is cut off in front of what does not go on with it. -/
theorem cut_scalar (h : s.IsSpelled) (hrest : s.IsWord → Delimits rest) :
    cut .between (s.spelling ++ rest) = (cut .between rest).map (.scalar s :: ·) := by
  by_cases hword : s.IsWord
  · exact cut_word h hword (hrest hword)
  · cases s with
    | null | bool | number => exact absurd trivial hword
    | text units =>
      have hopen : Mode.between.step '"' = some ([], .text []) := rfl
      have hclose : (Mode.text (units.reverse ++ [])).step '"' =
          some ([.scalar (.text units)], .between) := by
        simp [Mode.step]
      have hspelling : (Scalar.text units).spelling ++ rest =
          '"' :: (units.flatMap TextUnit.spelling ++ '"' :: rest) := by
        simp [Scalar.spelling]
      rw [hspelling, cut_of_silent_step hopen, cut_textSpelling h, cut_of_step hclose]
      rfl

end Cutting

end TimelockAuction.Json
