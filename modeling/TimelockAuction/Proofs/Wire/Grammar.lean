import Mathlib
import TimelockAuction.Wire.Reader
import TimelockAuction.Proofs.Endian

/-!
# Which bytes a decoder takes for which value

A grammar relates values to the byte strings that spell them. A decoder accepts a grammar if it
succeeds exactly where the input goes on with a spelling, yields the value that is spelled, and leaves
the reader right behind it. What follows the spelling and what was read before play no part.

* `Decoder.Accepts.bind`: in sequence, decoders accept the spellings put one behind the other.
* `Decoder.accepts_take`, `Decoder.accepts_word`, `Decoder.accepts_framed`: the grammars of the fields.
* `Decoder.decodeAll_of_ok`: what a decoder of whole inputs makes of the bytes that are left.
* `Decoder.Accepts.decodeAll_eq_ok_iff`: as a decoder of whole inputs, the decoder of a grammar takes
  nothing but spellings.
-/

namespace TimelockAuction

/-! ## Readers -/

/-- The reader `next` stands behind `bytes`, which `r` was about to read. -/
structure Reader.Passes (r : Reader) (bytes : Bytes) (next : Reader) : Prop where
  rest : r.rest = bytes ++ next.rest
  consumed : next.consumed = r.consumed + bytes.length

namespace Reader

theorem passes_nil_iff {r next : Reader} : r.Passes [] next ↔ next = r := by
  constructor
  · rintro ⟨hrest, hconsumed⟩
    cases r
    cases next
    simp_all
  · rintro rfl
    exact ⟨rfl, rfl⟩

theorem passes_append_iff {r next : Reader} {x y : Bytes} :
    r.Passes (x ++ y) next ↔ ∃ mid : Reader, r.Passes x mid ∧ mid.Passes y next := by
  constructor
  · rintro ⟨hrest, hconsumed⟩
    refine ⟨⟨y ++ next.rest, r.consumed + x.length⟩, ⟨by rw [hrest, List.append_assoc], rfl⟩,
      ⟨rfl, ?_⟩⟩
    rw [hconsumed, List.length_append, Nat.add_assoc]
  · rintro ⟨mid, hx, hy⟩
    refine ⟨by rw [hx.rest, hy.rest, List.append_assoc], ?_⟩
    rw [hy.consumed, hx.consumed, List.length_append, Nat.add_assoc]

end Reader

namespace Decoder

variable {α β : Type}

/-! ## Runs of composed decoders -/

theorem runOn_pure (value : α) (r : Reader) : runOn (pure value) r = (.ok value, r) := rfl

theorem runOn_throw (error : Error) (r : Reader) :
    runOn (throw error : Decoder α) r = (.error error, r) := rfl

theorem runOn_bind (decoder : Decoder α) (f : α → Decoder β) (r : Reader) :
    runOn (decoder >>= f) r =
      match runOn decoder r with
      | (.ok value, next) => runOn (f value) next
      | (.error error, next) => (.error error, next) := by
  simp only [runOn, ExceptT.run, bind, ExceptT.bind, ExceptT.mk, StateT.bind, ExceptT.bindCont]
  rcases decoder r with ⟨_ | _, next⟩ <;> rfl

theorem runOn_bind_ok_iff {decoder : Decoder α} {f : α → Decoder β} {r last : Reader} {b : β} :
    runOn (decoder >>= f) r = (.ok b, last) ↔
      ∃ a next, runOn decoder r = (.ok a, next) ∧ runOn (f a) next = (.ok b, last) := by
  rw [runOn_bind]
  rcases runOn decoder r with ⟨_ | a, next⟩ <;> simp

theorem runOn_bind_of_error {decoder : Decoder α} {f : α → Decoder β} {r : Reader} {error : Error}
    (h : (runOn decoder r).1 = .error error) : (runOn (decoder >>= f) r).1 = .error error := by
  rw [runOn_bind]
  rcases hrun : runOn decoder r with ⟨_ | value, next⟩
  · rw [hrun] at h
    exact congrArg _ (Except.error.inj h)
  · rw [hrun] at h
    cases h

theorem runOn_bind_of_ok {decoder : Decoder α} {f : α → Decoder β} {r next : Reader} {value : α}
    (h : runOn decoder r = (.ok value, next)) : runOn (decoder >>= f) r = runOn (f value) next := by
  rw [runOn_bind, h]

theorem runOn_take (n : Nat) (r : Reader) :
    runOn (take n) r =
      if h : n ≤ r.rest.length then
        (.ok (Bytes.toVector (r.rest.take n) (by simp [h])), ⟨r.rest.drop n, r.consumed + n⟩)
      else (.error (.tooShort (min (r.consumed + n) maxLength) (r.consumed + r.rest.length)), r) := by
  change (if h : n ≤ r.rest.length then _ else _) = _
  split <;> rfl

/-! ## Accepted grammars -/

/-- A decoder accepts a grammar: it takes a spelling of a value off the input and yields the value, and
it succeeds on nothing else. -/
def Accepts (decoder : Decoder α) (grammar : α → Bytes → Prop) : Prop :=
  ∀ (r : Reader) (value : α) (next : Reader),
    runOn decoder r = (.ok value, next) ↔ ∃ bytes, grammar value bytes ∧ r.Passes bytes next

theorem Accepts.congr {decoder : Decoder α} {grammar other : α → Bytes → Prop}
    (h : Accepts decoder grammar) (hiff : ∀ value bytes, grammar value bytes ↔ other value bytes) :
    Accepts decoder other := by
  intro r value next
  rw [h r value next]
  simp only [hiff]

theorem accepts_pure (value : α) :
    Accepts (pure value) (fun v bytes => v = value ∧ bytes = []) := by
  intro r v next
  rw [runOn_pure]
  constructor
  · intro h
    cases h
    exact ⟨[], ⟨rfl, rfl⟩, Reader.passes_nil_iff.mpr rfl⟩
  · rintro ⟨_, ⟨rfl, rfl⟩, h⟩
    rw [Reader.passes_nil_iff.mp h]

theorem accepts_throw (error : Error) : Accepts (throw error : Decoder α) (fun _ _ => False) := by
  intro r value next
  simp [runOn_throw]

/-- The spellings of a sequence: one of the first part, then one of the second, which may depend on the
value of the first. -/
theorem Accepts.bind {decoder : Decoder α} {f : α → Decoder β} {first : α → Bytes → Prop}
    {second : α → β → Bytes → Prop} (hd : Accepts decoder first)
    (hf : ∀ a, Accepts (f a) (second a)) :
    Accepts (decoder >>= f)
      (fun b bytes => ∃ a x y, first a x ∧ second a b y ∧ bytes = x ++ y) := by
  intro r b last
  rw [runOn_bind_ok_iff]
  constructor
  · rintro ⟨a, mid, hrun, hrest⟩
    obtain ⟨x, hx, hpx⟩ := (hd r a mid).mp hrun
    obtain ⟨y, hy, hpy⟩ := (hf a mid b last).mp hrest
    exact ⟨x ++ y, ⟨a, x, y, hx, hy, rfl⟩, Reader.passes_append_iff.mpr ⟨mid, hpx, hpy⟩⟩
  · rintro ⟨_, ⟨a, x, y, hx, hy, rfl⟩, hp⟩
    obtain ⟨mid, hpx, hpy⟩ := Reader.passes_append_iff.mp hp
    exact ⟨a, mid, (hd r a mid).mpr ⟨x, hx, hpx⟩, (hf a mid b last).mpr ⟨y, hy, hpy⟩⟩

theorem Accepts.map {decoder : Decoder α} {grammar : α → Bytes → Prop}
    (h : Accepts decoder grammar) (f : α → β) :
    Accepts (f <$> decoder) (fun b bytes => ∃ a, grammar a bytes ∧ b = f a) := by
  have hbind : f <$> decoder = decoder >>= fun a => pure (f a) := (bind_pure_comp f decoder).symm
  rw [hbind]
  refine (h.bind fun a => accepts_pure (f a)).congr fun b bytes => ?_
  constructor
  · rintro ⟨a, x, _, hx, ⟨rfl, rfl⟩, rfl⟩
    exact ⟨a, by rwa [List.append_nil], rfl⟩
  · rintro ⟨a, ha, rfl⟩
    exact ⟨a, bytes, [], ha, ⟨rfl, rfl⟩, (List.append_nil _).symm⟩

/-! ## Fields -/

theorem accepts_take (n : Nat) : Accepts (take n) (fun v bytes => bytes = v.toList) := by
  intro r v next
  rw [runOn_take]
  constructor
  · intro h
    split at h
    · rename_i hn
      cases h
      refine ⟨_, rfl, ?_, ?_⟩
      · rw [Bytes.toList_toVector, List.take_append_drop]
      · simp [hn]
    · cases h
  · rintro ⟨_, rfl, hrest, hconsumed⟩
    cases r
    cases next
    simp only at hrest hconsumed
    subst hrest hconsumed
    simp

theorem accepts_byte : Accepts byte (fun b bytes => bytes = [b]) := by
  refine ((accepts_take 1).bind fun v => accepts_pure v[0]).congr fun b bytes => ?_
  constructor
  · rintro ⟨v, _, _, rfl, ⟨rfl, rfl⟩, rfl⟩
    have hlength : v.toList.length = 1 := Vector.length_toList
    obtain ⟨b, hb⟩ := List.length_eq_one_iff.mp hlength
    have hv : v[0] = b := by
      rw [← Vector.getElem_toList (by simp)]
      simp [hb]
    rw [hb, hv]
    rfl
  · rintro rfl
    exact ⟨#v[b], _, _, rfl, ⟨rfl, rfl⟩, rfl⟩

theorem accepts_word : Accepts word (fun x bytes => bytes = LittleEndian.encodeWord x) := by
  refine ((accepts_take 8).bind fun v => accepts_pure (LittleEndian.toWord v)).congr
    fun x bytes => ?_
  constructor
  · rintro ⟨v, _, _, rfl, ⟨rfl, rfl⟩, rfl⟩
    rw [LittleEndian.encodeWord_toWord, List.append_nil]
  · rintro rfl
    refine ⟨Bytes.toVector (LittleEndian.encodeWord x) (LittleEndian.length_encodeWord x), _, _,
      rfl, ⟨?_, rfl⟩, ?_⟩
    · rw [LittleEndian.toWord_encodeWord]
    · rw [Bytes.toList_toVector, List.append_nil]

/-- A framed byte string is spelled by its frame, if its length fits the frame. -/
theorem accepts_framed :
    Accepts framed (fun content bytes => content.length < UInt64.size ∧ bytes = frame content) := by
  refine (accepts_word.bind fun length => (accepts_take length.toNat).bind fun v =>
    accepts_pure v.toList).congr fun content bytes => ?_
  constructor
  · rintro ⟨length, _, _, rfl, ⟨v, _, _, rfl, ⟨rfl, rfl⟩, rfl⟩, rfl⟩
    have hlength : v.toList.length = length.toNat := Vector.length_toList
    refine ⟨by rw [hlength]; exact length.toNat_lt, ?_⟩
    rw [frame, hlength, UInt64.ofNat_toNat, List.append_nil]
  · rintro ⟨hlt, rfl⟩
    have hlength : content.length = (UInt64.ofNat content.length).toNat :=
      (UInt64.toNat_ofNat_of_lt' hlt).symm
    refine ⟨UInt64.ofNat content.length, _, _, rfl,
      ⟨Bytes.toVector content hlength, _, _, rfl, ⟨?_, rfl⟩, rfl⟩, ?_⟩
    · rw [Bytes.toList_toVector]
    · rw [Bytes.toList_toVector, List.append_nil, frame]

/-! ## Whole inputs -/

theorem runOn_finish (r : Reader) :
    runOn finish r =
      if r.rest = [] then (.ok (), r) else (.error (.trailingBytes r.rest.length), r) := by
  change (if r.rest.isEmpty then _ else _) = _
  simp only [List.isEmpty_iff]

section

variable {decoder : Decoder α} {bytes : Bytes}

theorem decodeAll_of_error {error : Error}
    (h : (runOn decoder (Reader.ofBytes bytes)).1 = .error error) :
    decodeAll decoder bytes = .error error := by
  rw [decodeAll, runOn_bind_of_error h]

/-- What is left behind the value counts as trailing. -/
theorem decodeAll_of_ok {value : α} {next : Reader}
    (h : runOn decoder (Reader.ofBytes bytes) = (.ok value, next)) :
    decodeAll decoder bytes =
      if next.rest = [] then .ok value else .error (.trailingBytes next.rest.length) := by
  rw [decodeAll, runOn_bind_of_ok h, runOn_bind, runOn_finish]
  by_cases hrest : next.rest = []
  · rw [if_pos hrest, if_pos hrest]
    rfl
  · rw [if_neg hrest, if_neg hrest]

/-- The byte strings that are decoded as a whole are the spellings. -/
theorem Accepts.decodeAll_eq_ok_iff {grammar : α → Bytes → Prop} (h : Accepts decoder grammar)
    {value : α} : decodeAll decoder bytes = .ok value ↔ grammar value bytes := by
  constructor
  · intro hdecode
    rcases hrun : runOn decoder (Reader.ofBytes bytes) with ⟨error | v, next⟩
    · rw [decodeAll_of_error (congrArg Prod.fst hrun)] at hdecode
      cases hdecode
    · rw [decodeAll_of_ok hrun] at hdecode
      by_cases hrest : next.rest = []
      · rw [if_pos hrest] at hdecode
        cases hdecode
        obtain ⟨spelling, hg, hp⟩ := (h _ _ _).mp hrun
        have hall : bytes = spelling := by simpa [Reader.ofBytes, hrest] using hp.rest
        rwa [hall]
      · rw [if_neg hrest] at hdecode
        cases hdecode
  · intro hg
    have hp : (Reader.ofBytes bytes).Passes bytes ⟨[], bytes.length⟩ :=
      ⟨by simp [Reader.ofBytes], by simp [Reader.ofBytes]⟩
    rw [decodeAll_of_ok ((h _ _ _).mpr ⟨bytes, hg, hp⟩), if_pos rfl]

end

end Decoder

end TimelockAuction
