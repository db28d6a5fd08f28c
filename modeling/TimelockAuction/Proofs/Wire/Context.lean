import Mathlib
import TimelockAuction.Proofs.Wire.Place
import TimelockAuction.Proofs.Wire.SelfDelimiting
import TimelockAuction.Proofs.Puzzle.Wire

/-!
# Spellings in the middle of an input

An envelope puts its auction right behind its puzzle, without a length in between. So a decoder has to take
neither a byte too few nor a byte too many, whatever stands in front of what it reads and behind it. For the
decoder of a grammar this comes with the grammar, also if it reads many values one behind the other.

* `Decoder.Accepts.readsInContext_iff`: what is read in every context is what is spelled.
* `Decoder.Accepts.times`: values in a row are spelled in a row.
* `flatMap_frame_append_inj`: so many frames in a row show what is framed, and where they end.
* `framing_delimits_itself`: puzzles of both constructions, and frames.
-/

namespace TimelockAuction

/-! ## Any context -/

theorem Reader.atPlace_length (front rest : Bytes) :
    atPlace (front ++ rest) front.length = ⟨rest, front.length⟩ := by
  rw [atPlace, List.drop_left]

namespace Decoder

variable {α : Type}

/-- Wherever the bytes stand in an input, the decoder takes them for the value, and leaves what stands
behind them. -/
def ReadsInContext (decoder : Decoder α) (value : α) (bytes : Bytes) : Prop :=
  ∀ front suffix : Bytes,
    runOn decoder (.atPlace (front ++ bytes ++ suffix) front.length) =
      (.ok value, ⟨suffix, (front ++ bytes).length⟩)

theorem Accepts.readsInContext_iff {decoder : Decoder α} {grammar : α → Bytes → Prop}
    (h : Accepts decoder grammar) {value : α} {bytes : Bytes} :
    ReadsInContext decoder value bytes ↔ grammar value bytes := by
  constructor
  · intro hreads
    obtain ⟨spelling, hspelling, hrest, -⟩ := (h _ _ _).mp (hreads [] [])
    have hall : bytes = spelling := by simpa [Reader.atPlace] using hrest
    rwa [hall]
  · intro hspelling front suffix
    rw [List.append_assoc, Reader.atPlace_length]
    exact (h _ _ _).mpr ⟨bytes, hspelling, rfl, List.length_append⟩

/-! ## Values in a row -/

/-- Reads so many values, one behind the other. -/
def times (decoder : Decoder α) : Nat → Decoder (List α)
  | 0 => pure []
  | n + 1 => do
    let value ← decoder
    let values ← times decoder n
    return value :: values

/-- Induction on the number of values; the first one and the rest are read in sequence. -/
theorem Accepts.times {decoder : Decoder α} {grammar : α → Bytes → Prop} (h : Accepts decoder grammar)
    (n : Nat) :
    Accepts (decoder.times n) (fun values bytes => values.length = n ∧
      ∃ spellings, List.Forall₂ grammar values spellings ∧ bytes = spellings.flatten) := by
  induction n with
  | zero =>
    refine (accepts_pure []).congr fun values bytes => ?_
    constructor
    · rintro ⟨rfl, rfl⟩
      exact ⟨rfl, [], .nil, rfl⟩
    · rintro ⟨hlength, spellings, hspellings, rfl⟩
      obtain rfl := List.eq_nil_of_length_eq_zero hlength
      cases hspellings
      exact ⟨rfl, rfl⟩
  | succ n ih =>
    refine (h.bind fun value => ih.bind fun values => accepts_pure (value :: values)).congr
      fun values bytes => ?_
    constructor
    · rintro ⟨value, x, _, hx, ⟨values, _, _, ⟨rfl, spellings, hspellings, rfl⟩, ⟨rfl, rfl⟩, rfl⟩,
        rfl⟩
      exact ⟨rfl, x :: spellings, .cons hx hspellings, by simp⟩
    · rintro ⟨hlength, spellings, hspellings, rfl⟩
      cases hspellings with
      | nil => cases hlength
      | @cons value x values spellings hx hspellings =>
        exact ⟨value, x, _, hx, ⟨values, _, [], ⟨Nat.succ.inj hlength, spellings, hspellings, rfl⟩,
          ⟨rfl, rfl⟩, rfl⟩, by simp⟩

/-- Frames in a row spell what is framed in them. -/
theorem accepts_times_framed (n : Nat) :
    Accepts (framed.times n) (fun parts bytes => parts.length = n ∧
      (∀ part ∈ parts, part.length < UInt64.size) ∧ bytes = parts.flatMap frame) := by
  refine (accepts_framed.times n).congr fun parts bytes => and_congr_right fun _ => ?_
  simp only [List.forall₂_and_left, eq_comm (b := frame _), ← List.forall₂_map_left_iff,
    List.forall₂_eq_eq_eq]
  constructor
  · rintro ⟨spellings, ⟨hshort, rfl⟩, rfl⟩
    exact ⟨hshort, rfl⟩
  · rintro ⟨hshort, rfl⟩
    exact ⟨_, ⟨hshort, rfl⟩, rfl⟩

end Decoder

theorem flatMap_frame_append_inj {parts others : List Bytes} {rest rest' : Bytes}
    (hlength : parts.length = others.length) (h : ∀ part ∈ parts, part.length < UInt64.size)
    (hothers : ∀ part ∈ others, part.length < UInt64.size) :
    parts.flatMap frame ++ rest = others.flatMap frame ++ rest' ↔ parts = others ∧ rest = rest' :=
  (Decoder.accepts_times_framed parts.length).append_inj (List.flatMap frame) ⟨rfl, h, rfl⟩
    ⟨hlength.symm, hothers, rfl⟩

/-! ## Puzzles and frames -/

theorem Puzzle.readsInContext_encode_iff {puzzle : Puzzle} :
    Decoder.ReadsInContext decoder puzzle puzzle.encode ↔ puzzle.Fits :=
  accepts_decoder.readsInContext_iff.trans spells_encode_iff

/-- **The framing delimits itself in any context.** Whatever stands in front of a puzzle and behind it, its
encoding is read back as this puzzle and nothing behind it is touched: a hash chain always, and a squaring
puzzle with any numbers whose bytes can be counted in 64 bits. In the same way byte strings that were framed
one behind the other are read back by as many reads, so that no two lists of equally many of them are framed
alike, not even in front of different rests. -/
theorem framing_delimits_itself :
    (∀ (modulus base : Nat) (squarings : UInt64),
      Decoder.ReadsInContext Puzzle.decoder (.squaring ⟨modulus, base, squarings⟩)
          (Puzzle.encode (.squaring ⟨modulus, base, squarings⟩)) ↔
        (BigEndian.encode modulus).length < 2 ^ 64 ∧ (BigEndian.encode base).length < 2 ^ 64) ∧
    (∀ (seed : Vector UInt8 32) (steps roundsPerStep : UInt64),
      Decoder.ReadsInContext Puzzle.decoder (.hashChain ⟨seed, steps, roundsPerStep⟩)
        (Puzzle.encode (.hashChain ⟨seed, steps, roundsPerStep⟩))) ∧
    (∀ parts : List Bytes, (∀ part ∈ parts, part.length < 2 ^ 64) →
      Decoder.ReadsInContext (Decoder.framed.times parts.length) parts (parts.flatMap frame)) ∧
    ∀ (parts others : List Bytes) (rest rest' : Bytes), parts.length = others.length →
      (∀ part ∈ parts, part.length < 2 ^ 64) → (∀ part ∈ others, part.length < 2 ^ 64) →
        (parts.flatMap frame ++ rest = others.flatMap frame ++ rest' ↔
          parts = others ∧ rest = rest') := by
  refine ⟨?_, ?_, ?_, ?_⟩
  · intro modulus base squarings
    exact Puzzle.readsInContext_encode_iff
  · intro seed steps roundsPerStep
    exact Puzzle.readsInContext_encode_iff.mpr trivial
  · intro parts hparts
    exact (Decoder.accepts_times_framed parts.length).readsInContext_iff.mpr ⟨rfl, hparts, rfl⟩
  · intro parts others rest rest' hlength hparts hothers
    exact flatMap_frame_append_inj hlength hparts hothers

/-- Two lists whose frames have the same bytes but for the place of one zero. -/
theorem framing_delimits_smallParts :
    (∀ front suffix : Bytes,
      Decoder.runOn (Decoder.framed.times 3)
          (.atPlace (front ++ [[], [0], [1, 2]].flatMap frame ++ suffix) front.length) =
        (.ok [[], [0], [1, 2]], ⟨suffix, (front ++ [[], [0], [1, 2]].flatMap frame).length⟩)) ∧
    [[], [0]].flatMap frame ++ [7] ≠ [[0], []].flatMap frame ++ [7] := by
  refine ⟨framing_delimits_itself.2.2.1 [[], [0], [1, 2]] (by decide), ?_⟩
  intro heq
  have hparts := (framing_delimits_itself.2.2.2 [[], [0]] [[0], []] [7] [7] rfl (by decide)
    (by decide)).mp heq
  exact absurd hparts.1 (by decide)

end TimelockAuction
