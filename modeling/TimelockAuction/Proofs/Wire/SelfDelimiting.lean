import Mathlib
import TimelockAuction.Proofs.Wire.Grammar

/-!
# Spellings show where they end

A decoder is not told where a spelling ends, and what follows the spelling plays no part in its answer.
So where two inputs begin with spellings of one grammar and go on as they like, they are equal only if the
spellings are the same, and the rests too. Formats that are put together of such parts can be taken apart
field by field.

* `Decoder.Accepts.eq_of_append_eq`: this for every grammar that a decoder accepts.
* `Bytes.toList_append_inj`, `LittleEndian.encodeWord_append_inj`, `frame_append_inj`: the fields.
* `frame_injective`: frames at the end of an input.
-/

namespace TimelockAuction

variable {rest others : Bytes}

namespace Decoder.Accepts

variable {α : Type} {decoder : Decoder α} {grammar : α → Bytes → Prop} {a b : α} {x y : Bytes}

/-- The decoder reads one input only, so it meets one value and stops at one place. -/
theorem eq_of_append_eq (h : Accepts decoder grammar) (hx : grammar a x) (hy : grammar b y)
    (heq : x ++ rest = y ++ others) : a = b ∧ x = y ∧ rest = others := by
  have hfirst : runOn decoder ⟨x ++ rest, 0⟩ = (.ok a, ⟨rest, x.length⟩) :=
    (h _ _ _).mpr ⟨x, hx, rfl, (Nat.zero_add _).symm⟩
  have hsecond : runOn decoder ⟨y ++ others, 0⟩ = (.ok b, ⟨others, y.length⟩) :=
    (h _ _ _).mpr ⟨y, hy, rfl, (Nat.zero_add _).symm⟩
  rw [heq, hsecond] at hfirst
  simp only [Prod.mk.injEq, Except.ok.injEq, Reader.mk.injEq] at hfirst
  obtain ⟨rfl, rfl, -⟩ := hfirst
  exact ⟨rfl, List.append_cancel_right heq, rfl⟩

/-- The same for values with one spelling each. -/
theorem append_inj (h : Accepts decoder grammar) (spell : α → Bytes) (ha : grammar a (spell a))
    (hb : grammar b (spell b)) : spell a ++ rest = spell b ++ others ↔ a = b ∧ rest = others := by
  constructor
  · intro heq
    obtain ⟨hvalue, -, hrest⟩ := h.eq_of_append_eq ha hb heq
    exact ⟨hvalue, hrest⟩
  · rintro ⟨rfl, rfl⟩
    rfl

end Decoder.Accepts

/-! ## Fields -/

@[simp] theorem Bytes.toList_append_inj {n : Nat} {v w : Vector UInt8 n} :
    v.toList ++ rest = w.toList ++ others ↔ v = w ∧ rest = others :=
  (Decoder.accepts_take n).append_inj Vector.toList rfl rfl

@[simp] theorem LittleEndian.encodeWord_append_inj {x y : UInt64} :
    encodeWord x ++ rest = encodeWord y ++ others ↔ x = y ∧ rest = others :=
  Decoder.accepts_word.append_inj encodeWord rfl rfl

theorem frame_append_inj {content other : Bytes} (h : content.length < UInt64.size)
    (hother : other.length < UInt64.size) :
    frame content ++ rest = frame other ++ others ↔ content = other ∧ rest = others :=
  Decoder.accepts_framed.append_inj frame ⟨h, rfl⟩ ⟨hother, rfl⟩

/-- With nothing behind them, frames tell even contents apart whose length they cannot hold. -/
theorem frame_injective : Function.Injective frame := by
  intro content other h
  have hwidth : (LittleEndian.encodeWord (UInt64.ofNat content.length)).length =
      (LittleEndian.encodeWord (UInt64.ofNat other.length)).length := by
    rw [LittleEndian.length_encodeWord, LittleEndian.length_encodeWord]
  exact (List.append_inj h hwidth).2

end TimelockAuction
