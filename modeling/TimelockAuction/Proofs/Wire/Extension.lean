import Mathlib
import TimelockAuction.Proofs.Wire.Grammar

/-!
# What a decoder makes of an input that goes on

An incremental decoder treats an input and a longer one alike up to the point where the shorter one
ends. What it has read it reads again, and what it has refused it refuses again. Only an input that was
too short can fare differently, and it does not as long as what is needed has not come.

* `Decoder.Incremental.bind`: decoders that read one field after the other are incremental.
* `Decoder.incremental_take`, `Decoder.incremental_word`, `Decoder.incremental_framed`: fields are.
* `Decoder.Incremental.extensionLaw`: as a decoder of whole inputs, an incremental decoder obeys the
  extension law.
* `ExtensionLaw.exists_tooShort`: under this law no accepted input is the front of another.
-/

namespace TimelockAuction

/-! ## Readers of longer inputs -/

namespace Reader

/-- The length of the whole input, read or not. -/
def size (r : Reader) : Nat := r.consumed + r.rest.length

/-- The same place in an input that goes on with `more`. -/
def extend (r : Reader) (more : Bytes) : Reader := ⟨r.rest ++ more, r.consumed⟩

@[simp] theorem size_ofBytes (bytes : Bytes) : (ofBytes bytes).size = bytes.length := by
  simp [size, ofBytes]

end Reader

namespace Decoder

variable {α β : Type} {refuses : Error → Prop}

/-! ## Incremental decoders -/

/-- A decoder that gives the same answer when its input goes on, unless the input was too short.
`refuses` holds of the errors that it reports of bytes it has read. -/
structure Incremental (decoder : Decoder α) (refuses : Error → Prop) : Prop where
  ok : ∀ {r next : Reader} {value : α}, runOn decoder r = (.ok value, next) →
    next.size = r.size ∧
      ∀ more : Bytes, runOn decoder (r.extend more) = (.ok value, next.extend more)
  error : ∀ {r next : Reader} {error : Error}, runOn decoder r = (.error error, next) →
    r.size < maxLength →
      (refuses error ∧ ∀ more : Bytes, (runOn decoder (r.extend more)).1 = .error error) ∨
      ∃ needed, error = .tooShort needed r.size ∧ r.size < needed ∧
        ∀ more : Bytes, r.size + more.length < needed →
          (runOn decoder (r.extend more)).1 = .error (.tooShort needed (r.size + more.length))

theorem incremental_pure (value : α) : Incremental (pure value) refuses := by
  constructor
  · intro r next v h
    cases h
    exact ⟨rfl, fun _ => rfl⟩
  · intro r next error h
    cases h

theorem incremental_throw {error : Error} (herror : refuses error) :
    Incremental (throw error : Decoder α) refuses := by
  constructor
  · intro r next value h
    cases h
  · intro r next e h _
    cases h
    exact .inl ⟨herror, fun _ => rfl⟩

/-- In sequence, the second decoder starts where the first one stops, in the longer input as in the
shorter one. -/
theorem Incremental.bind {decoder : Decoder α} {f : α → Decoder β} (hd : Incremental decoder refuses)
    (hf : ∀ a, Incremental (f a) refuses) : Incremental (decoder >>= f) refuses := by
  constructor
  · intro r last b h
    obtain ⟨a, mid, hrun, hrest⟩ := runOn_bind_ok_iff.mp h
    obtain ⟨hmid, hd⟩ := hd.ok hrun
    obtain ⟨hlast, hf⟩ := (hf a).ok hrest
    refine ⟨hlast.trans hmid, fun more => ?_⟩
    rw [runOn_bind_of_ok (hd more), hf more]
  · intro r last error h hsize
    rcases hrun : runOn decoder r with ⟨_ | a, mid⟩
    · -- The first decoder fails, and the second one is not run.
      rw [runOn_bind, hrun] at h
      cases h
      rcases hd.error hrun hsize with ⟨hrefuses, hagain⟩ | ⟨needed, herror, hneeded, hagain⟩
      · exact .inl ⟨hrefuses, fun more => runOn_bind_of_error (hagain more)⟩
      · exact .inr ⟨needed, herror, hneeded, fun more hmore => runOn_bind_of_error (hagain more hmore)⟩
    · rw [runOn_bind_of_ok hrun] at h
      obtain ⟨hmid, hd⟩ := hd.ok hrun
      have hafter : ∀ more : Bytes,
          runOn (decoder >>= f) (r.extend more) = runOn (f a) (mid.extend more) :=
        fun more => runOn_bind_of_ok (hd more)
      simp only [hafter]
      rw [← hmid] at hsize ⊢
      exact (hf a).error h hsize

theorem Incremental.map {decoder : Decoder α} (h : Incremental decoder refuses) (f : α → β) :
    Incremental (f <$> decoder) refuses := by
  have hbind : f <$> decoder = decoder >>= fun a => pure (f a) := (bind_pure_comp f decoder).symm
  rw [hbind]
  exact h.bind fun a => incremental_pure (f a)

/-! ## Fields -/

theorem incremental_take (n : Nat) : Incremental (take n) refuses := by
  constructor
  · intro r next v h
    rw [runOn_take] at h
    by_cases hn : n ≤ r.rest.length
    · rw [dif_pos hn] at h
      cases h
      refine ⟨?_, fun more => ?_⟩
      · simp only [Reader.size, List.length_drop]
        omega
      · have hlonger : n ≤ (r.extend more).rest.length := by
          rw [Reader.extend, List.length_append]
          omega
        rw [runOn_take, dif_pos hlonger]
        simp [Reader.extend, List.take_append_of_le_length hn, List.drop_append_of_le_length hn]
    · rw [dif_neg hn] at h
      cases h
  · intro r next error h hsize
    rw [runOn_take] at h
    by_cases hn : n ≤ r.rest.length
    · rw [dif_pos hn] at h
      cases h
    · rw [dif_neg hn] at h
      cases h
      -- What is needed may be capped. The input is shorter than the cap, so that it still falls short.
      refine .inr ⟨_, rfl, ?_, fun more hmore => ?_⟩
      · simp only [Reader.size] at hsize ⊢
        omega
      · have hshort : ¬ n ≤ (r.extend more).rest.length := by
          simp only [Reader.size, Reader.extend, List.length_append] at hmore ⊢
          omega
        rw [runOn_take, dif_neg hshort]
        simp only [Reader.extend, Reader.size, List.length_append, Nat.add_assoc]

theorem incremental_byte : Incremental byte refuses :=
  (incremental_take 1).bind fun _ => incremental_pure _

theorem incremental_word : Incremental word refuses :=
  (incremental_take 8).bind fun _ => incremental_pure _

theorem incremental_framed : Incremental framed refuses :=
  incremental_word.bind fun _ => (incremental_take _).bind fun _ => incremental_pure _

end Decoder

/-! ## The extension law -/

/-- What a decoder refuses is not the end of the input, neither that it comes too early nor that it
comes too late. -/
structure RefusesContent (refuses : Error → Prop) : Prop where
  not_trailing : ∀ count, ¬ refuses (.trailingBytes count)
  not_tooShort : ∀ needed actual, ¬ refuses (.tooShort needed actual)

/-- How the answer of a decoder of whole inputs to `bytes` bears on its answer to `bytes ++ more`.
`refuses` holds of the errors that the decoder reports of bytes it has read. -/
structure ExtensionLaw {α : Type} (decode : Bytes → Except Error α) (refuses : Error → Prop)
    (bytes more : Bytes) : Prop where
  accepted : ∀ value, decode bytes = .ok value →
    decode (bytes ++ more) = .error (.trailingBytes more.length)
  trailing : ∀ count, decode bytes = .error (.trailingBytes count) →
    decode (bytes ++ more) = .error (.trailingBytes (count + more.length))
  refused : ∀ error, refuses error → decode bytes = .error error →
    decode (bytes ++ more) = .error error
  tooShort : ∀ needed actual, decode bytes = .error (.tooShort needed actual) →
    actual = bytes.length ∧ bytes.length < needed ∧
      (bytes.length + more.length < needed →
        decode (bytes ++ more) = .error (.tooShort needed (bytes.length + more.length)))
  /-- No other error is possible. -/
  error_cases : ∀ error, decode bytes = .error error →
    refuses error ∨ (∃ count, error = .trailingBytes count) ∨
      ∃ needed actual, error = .tooShort needed actual

namespace ExtensionLaw

variable {α : Type} {decode : Bytes → Except Error α} {refuses : Error → Prop} {bytes more : Bytes}

theorem of_ok {value : α} (hfront : decode bytes = .ok value)
    (hlonger : decode (bytes ++ more) = .error (.trailingBytes more.length)) :
    ExtensionLaw decode refuses bytes more where
  accepted _ _ := hlonger
  trailing _ h := nomatch hfront.symm.trans h
  refused _ _ h := nomatch hfront.symm.trans h
  tooShort _ _ h := nomatch hfront.symm.trans h
  error_cases _ h := nomatch hfront.symm.trans h

theorem of_trailing (hcontent : RefusesContent refuses) {count : Nat}
    (hfront : decode bytes = .error (.trailingBytes count))
    (hlonger : decode (bytes ++ more) = .error (.trailingBytes (count + more.length))) :
    ExtensionLaw decode refuses bytes more where
  accepted _ h := nomatch hfront.symm.trans h
  trailing _ h := by
    cases hfront.symm.trans h
    exact hlonger
  refused _ hrefuses h := by
    cases hfront.symm.trans h
    exact absurd hrefuses (hcontent.not_trailing count)
  tooShort _ _ h := nomatch hfront.symm.trans h
  error_cases _ h := by
    cases hfront.symm.trans h
    exact .inr (.inl ⟨count, rfl⟩)

theorem of_refused (hcontent : RefusesContent refuses) {error : Error} (herror : refuses error)
    (hfront : decode bytes = .error error) (hlonger : decode (bytes ++ more) = .error error) :
    ExtensionLaw decode refuses bytes more where
  accepted _ h := nomatch hfront.symm.trans h
  trailing count h := by
    cases hfront.symm.trans h
    exact absurd herror (hcontent.not_trailing count)
  refused _ _ h := by
    cases hfront.symm.trans h
    exact hlonger
  tooShort needed actual h := by
    cases hfront.symm.trans h
    exact absurd herror (hcontent.not_tooShort needed actual)
  error_cases _ h := by
    cases hfront.symm.trans h
    exact .inl herror

theorem of_tooShort (hcontent : RefusesContent refuses) {needed : Nat}
    (hfront : decode bytes = .error (.tooShort needed bytes.length)) (hneeded : bytes.length < needed)
    (hlonger : bytes.length + more.length < needed →
      decode (bytes ++ more) = .error (.tooShort needed (bytes.length + more.length))) :
    ExtensionLaw decode refuses bytes more where
  accepted _ h := nomatch hfront.symm.trans h
  trailing _ h := nomatch hfront.symm.trans h
  refused _ hrefuses h := by
    cases hfront.symm.trans h
    exact absurd hrefuses (hcontent.not_tooShort needed bytes.length)
  tooShort _ _ h := by
    cases hfront.symm.trans h
    exact ⟨rfl, hneeded, hlonger⟩
  error_cases _ h := by
    cases hfront.symm.trans h
    exact .inr (.inr ⟨needed, bytes.length, rfl⟩)

/-- The law is about two answers only. -/
theorem congr {other : Bytes → Except Error α} (law : ExtensionLaw decode refuses bytes more)
    (hfront : other bytes = decode bytes) (hlonger : other (bytes ++ more) = decode (bytes ++ more)) :
    ExtensionLaw other refuses bytes more := by
  obtain ⟨haccepted, htrailing, hrefused, htooShort, hcases⟩ := law
  rw [← hfront] at haccepted htrailing hrefused htooShort hcases
  rw [← hlonger] at haccepted htrailing hrefused htooShort
  exact ⟨haccepted, htrailing, hrefused, htooShort, hcases⟩

/-- Whatever ends before an accepted input does is too short, and does not ask for more than the
accepted input has. -/
theorem exists_tooShort (law : ExtensionLaw decode refuses bytes more) {value : α}
    (h : decode (bytes ++ more) = .ok value) :
    ∃ needed, decode bytes = .error (.tooShort needed bytes.length) ∧
      needed ≤ bytes.length + more.length := by
  cases hfront : decode bytes with
  | ok front => exact nomatch (law.accepted front hfront).symm.trans h
  | error error =>
    rcases law.error_cases error hfront with hrefuses | ⟨count, rfl⟩ | ⟨needed, actual, rfl⟩
    · exact nomatch (law.refused error hrefuses hfront).symm.trans h
    · exact nomatch (law.trailing count hfront).symm.trans h
    · obtain ⟨rfl, -, hstill⟩ := law.tooShort needed actual hfront
      refine ⟨needed, rfl, ?_⟩
      by_contra hmore
      exact nomatch (hstill (by omega)).symm.trans h

end ExtensionLaw

namespace Decoder

variable {α : Type} {decoder : Decoder α} {refuses : Error → Prop} {bytes more : Bytes}

/-- **The extension law.** As a decoder of whole inputs, an incremental decoder answers a longer input
as its answer to the front demands. -/
theorem Incremental.extensionLaw (h : Incremental decoder refuses)
    (hcontent : RefusesContent refuses) (hmore : more ≠ []) (hlength : bytes.length < maxLength) :
    ExtensionLaw (decodeAll decoder) refuses bytes more := by
  rcases hrun : runOn decoder (Reader.ofBytes bytes) with ⟨error | value, next⟩
  · have hfront : decodeAll decoder bytes = .error error :=
      decodeAll_of_error (congrArg Prod.fst hrun)
    have herror := h.error hrun (by rwa [Reader.size_ofBytes])
    rw [Reader.size_ofBytes] at herror
    rcases herror with ⟨hrefuses, hagain⟩ | ⟨needed, rfl, hneeded, hagain⟩
    · exact .of_refused hcontent hrefuses hfront (decodeAll_of_error (hagain more))
    · exact .of_tooShort hcontent hfront hneeded fun hstill =>
        decodeAll_of_error (hagain more hstill)
  · -- The value is read again, and what follows it has become longer.
    have hfront := decodeAll_of_ok hrun
    have hagain : runOn decoder (Reader.ofBytes (bytes ++ more)) = (.ok value, next.extend more) :=
      (h.ok hrun).2 more
    have hrest : (next.extend more).rest ≠ [] := List.append_ne_nil_of_right_ne_nil _ hmore
    have hlonger : decodeAll decoder (bytes ++ more) =
        .error (.trailingBytes (next.rest.length + more.length)) := by
      rw [decodeAll_of_ok hagain, if_neg hrest, Reader.extend, List.length_append]
    by_cases hall : next.rest = []
    · rw [if_pos hall] at hfront
      rw [hall, List.length_nil, Nat.zero_add] at hlonger
      exact .of_ok hfront hlonger
    · rw [if_neg hall] at hfront
      exact .of_trailing hcontent hfront hlonger

end Decoder

end TimelockAuction
