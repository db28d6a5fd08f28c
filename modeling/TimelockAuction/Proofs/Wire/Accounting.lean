import Mathlib
import TimelockAuction.Proofs.Wire.Extension

/-!
# Readers account for their input

A reader is used for one read after the other, and a read that fails does not end its use. Whatever the
reads are and whichever of them fail, the bytes that were read over and the bytes that are left make up
the input, so that each error can tell how long the whole input is.

* `Read.runOn_eq_ok_iff`: a read succeeds exactly on a spelling of what it asks for.
* `Read.of_runOn_eq_error`: a read that fails says that the input is too short, and stays where it is
  unless it has read a length.
* `Read.exists_passes`: one read moves over bytes of the input, or over none.
* `Reader.passes_after`: so does a sequence of reads.
* `Reader.accountsFor_after`: all that holds at every point of such a sequence.
-/

namespace TimelockAuction

/-! ## Reads -/

/-- A read that can be asked of a reader. -/
inductive Read
  /-- So many bytes, whether a format fixes their number or the caller has computed it. -/
  | bytes (n : Nat)
  | byte
  | word
  | framed
deriving DecidableEq

/-- What a read finds. -/
inductive Item
  | bytes (content : Bytes)
  | byte (b : UInt8)
  | word (x : UInt64)
  | framed (content : Bytes)
deriving DecidableEq

/-- The bytes that an item takes up in an input. -/
def Item.spelling : Item → Bytes
  | bytes content => content
  | byte b => [b]
  | word x => LittleEndian.encodeWord x
  | framed content => frame content

/-- The item is of the kind that the read asks for. -/
inductive Item.Answers : Item → Read → Prop
  | bytes {content : Bytes} {n : Nat} : content.length = n → Answers (bytes content) (.bytes n)
  | byte {b : UInt8} : Answers (byte b) .byte
  | word {x : UInt64} : Answers (word x) .word
  | framed {content : Bytes} : content.length < UInt64.size → Answers (framed content) .framed

def Read.decoder : Read → Decoder Item
  | bytes n => (fun v => .bytes v.toList) <$> Decoder.take n
  | byte => .byte <$> Decoder.byte
  | word => .word <$> Decoder.word
  | framed => .framed <$> Decoder.framed

/-- The error says that an input of so many bytes ends too early. -/
def Error.IsShortOf (error : Error) (length : Nat) : Prop :=
  ∃ needed, error = .tooShort needed length ∧ length < needed

namespace Decoder

variable {α β : Type} {r next : Reader} {error : Error}

theorem runOn_map_eq_error_iff {decoder : Decoder α} {f : α → β} :
    runOn (f <$> decoder) r = (.error error, next) ↔ runOn decoder r = (.error error, next) := by
  rw [← bind_pure_comp, runOn_bind]
  rcases runOn decoder r with ⟨_ | value, mid⟩ <;> simp [runOn_pure]

/-- Only what is reported as needed is capped, and no input is as long as the cap. -/
theorem of_runOn_take_eq_error {n : Nat} (hsize : r.size < maxLength)
    (h : runOn (take n) r = (.error error, next)) :
    r.rest.length < n ∧ error.IsShortOf r.size ∧ next = r := by
  rw [runOn_take] at h
  by_cases hn : n ≤ r.rest.length
  · simp [hn] at h
  · simp only [hn, dif_neg, not_false_iff, Prod.mk.injEq, Except.error.injEq] at h
    obtain ⟨rfl, rfl⟩ := h
    refine ⟨Nat.not_le.mp hn, ⟨_, rfl, ?_⟩, rfl⟩
    simp only [Reader.size] at hsize ⊢
    omega

theorem of_runOn_byte_eq_error (hsize : r.size < maxLength)
    (h : runOn byte r = (.error error, next)) : error.IsShortOf r.size ∧ next = r :=
  (of_runOn_take_eq_error hsize (runOn_map_eq_error_iff.mp h)).2

theorem of_runOn_word_eq_error (hsize : r.size < maxLength)
    (h : runOn word r = (.error error, next)) :
    r.rest.length < 8 ∧ error.IsShortOf r.size ∧ next = r :=
  of_runOn_take_eq_error hsize (runOn_map_eq_error_iff.mp h)

end Decoder

/-! ## One read -/

namespace Read

variable {read : Read} {r next : Reader}

theorem accepts_decoder (read : Read) :
    Decoder.Accepts read.decoder (fun item bytes => item.Answers read ∧ bytes = item.spelling) := by
  cases read with
  | bytes n =>
    refine ((Decoder.accepts_take n).map _).congr fun item bytes => ?_
    constructor
    · rintro ⟨v, rfl, rfl⟩
      exact ⟨.bytes Vector.length_toList, rfl⟩
    · rintro ⟨hanswers, rfl⟩
      cases hanswers with
      | bytes hlength => exact ⟨Bytes.toVector _ hlength, by simp [Item.spelling]⟩
  | byte =>
    refine (Decoder.accepts_byte.map _).congr fun item bytes => ?_
    constructor
    · rintro ⟨b, rfl, rfl⟩
      exact ⟨.byte, rfl⟩
    · rintro ⟨⟨⟩, rfl⟩
      exact ⟨_, rfl, rfl⟩
  | word =>
    refine (Decoder.accepts_word.map _).congr fun item bytes => ?_
    constructor
    · rintro ⟨x, rfl, rfl⟩
      exact ⟨.word, rfl⟩
    · rintro ⟨⟨⟩, rfl⟩
      exact ⟨_, rfl, rfl⟩
  | framed =>
    refine (Decoder.accepts_framed.map _).congr fun item bytes => ?_
    constructor
    · rintro ⟨content, ⟨hlength, rfl⟩, rfl⟩
      exact ⟨.framed hlength, rfl⟩
    · rintro ⟨hanswers, rfl⟩
      cases hanswers with
      | framed hlength => exact ⟨_, ⟨hlength, rfl⟩, rfl⟩

/-- A read succeeds exactly if the rest of the input begins with an item that it asks for. -/
theorem runOn_eq_ok_iff {item : Item} :
    Decoder.runOn read.decoder r = (.ok item, next) ↔
      item.Answers read ∧ r.Passes item.spelling next := by
  rw [read.accepts_decoder r item next]
  constructor
  · rintro ⟨_, ⟨hanswers, rfl⟩, hpasses⟩
    exact ⟨hanswers, hpasses⟩
  · rintro ⟨hanswers, hpasses⟩
    exact ⟨_, ⟨hanswers, rfl⟩, hpasses⟩

/-- Where a read leaves the reader if it fails. Of a frame that is cut off the length has been read. -/
def stop (read : Read) (r : Reader) : Reader :=
  if read = framed ∧ 8 ≤ r.rest.length then ⟨r.rest.drop 8, r.consumed + 8⟩ else r

/-- The length of a frame is there or not; if it is, what is framed is not. -/
theorem of_runOn_framed_eq_error {error : Error} (hsize : r.size < maxLength)
    (h : Decoder.runOn Decoder.framed r = (.error error, next)) :
    error.IsShortOf r.size ∧ next = framed.stop r := by
  unfold Decoder.framed at h
  rw [Decoder.runOn_bind] at h
  rcases hword : Decoder.runOn Decoder.word r with ⟨_ | length, mid⟩
  · simp only [hword, Prod.mk.injEq, Except.error.injEq] at h
    obtain ⟨rfl, rfl⟩ := h
    obtain ⟨hshort, herror, rfl⟩ := Decoder.of_runOn_word_eq_error hsize hword
    exact ⟨herror, (if_neg fun hlong => Nat.not_lt.mpr hlong.2 hshort).symm⟩
  · simp only [hword] at h
    rw [bind_pure_comp, Decoder.runOn_map_eq_error_iff] at h
    obtain ⟨_, rfl, hrest, hconsumed⟩ := (Decoder.accepts_word r length mid).mp hword
    have hmid : mid.size = r.size := by
      simp [Reader.size, hrest, hconsumed, Nat.add_assoc]
    have hstop : framed.stop r = mid := by
      rw [LittleEndian.length_encodeWord] at hconsumed
      simp [stop, hrest, ← hconsumed]
    rw [← hmid] at hsize ⊢
    rw [hstop]
    exact (Decoder.of_runOn_take_eq_error hsize h).2

/-- A read that fails tells that the input is too short. -/
theorem of_runOn_eq_error {error : Error} (hsize : r.size < maxLength)
    (h : Decoder.runOn read.decoder r = (.error error, next)) :
    error.IsShortOf r.size ∧ next = read.stop r := by
  cases read with
  | bytes n => exact (Decoder.of_runOn_take_eq_error hsize (Decoder.runOn_map_eq_error_iff.mp h)).2
  | byte => exact Decoder.of_runOn_byte_eq_error hsize (Decoder.runOn_map_eq_error_iff.mp h)
  | word => exact (Decoder.of_runOn_word_eq_error hsize (Decoder.runOn_map_eq_error_iff.mp h)).2
  | framed => exact of_runOn_framed_eq_error hsize (Decoder.runOn_map_eq_error_iff.mp h)

/-- Whatever a read comes to, the reader moves over bytes of the input. -/
theorem exists_passes (read : Read) (hsize : r.size < maxLength) :
    ∃ bytes, r.Passes bytes (Decoder.runOn read.decoder r).2 := by
  rcases hrun : Decoder.runOn read.decoder r with ⟨error | item, next⟩
  · obtain ⟨-, rfl⟩ := of_runOn_eq_error hsize hrun
    unfold stop
    split
    · rename_i hlength
      exact ⟨r.rest.take 8, by simp, by simp [hlength.2]⟩
    · exact ⟨[], Reader.passes_nil_iff.mpr rfl⟩
  · exact ⟨_, (runOn_eq_ok_iff.mp hrun).2⟩

end Read

/-! ## Sequences of reads -/

namespace Reader

variable {r next : Reader}

/-- The bytes between the places of two readers of the same input. -/
def upTo (r next : Reader) : Bytes :=
  r.rest.take (next.consumed - r.consumed)

theorem Passes.upTo_eq {bytes : Bytes} (h : r.Passes bytes next) : r.upTo next = bytes := by
  simp [upTo, h.rest, h.consumed]

theorem Passes.size_eq {bytes : Bytes} (h : r.Passes bytes next) : next.size = r.size := by
  simp [size, h.rest, h.consumed, Nat.add_assoc]

/-- The reader behind a sequence of reads, whichever of them fail. -/
def after (r : Reader) : List Read → Reader
  | [] => r
  | read :: reads => (Decoder.runOn read.decoder r).2.after reads

/-- The bytes that the reads of a sequence move over, one read after the other. -/
def readOver (r : Reader) : List Read → Bytes
  | [] => []
  | read :: reads =>
    let next := (Decoder.runOn read.decoder r).2
    r.upTo next ++ next.readOver reads

/-- Induction on the reads; each starts where the one before has left the reader. -/
theorem passes_after (hsize : r.size < maxLength) (reads : List Read) :
    r.Passes (r.readOver reads) (r.after reads) := by
  induction reads generalizing r with
  | nil => exact passes_nil_iff.mpr rfl
  | cons read reads ih =>
    obtain ⟨bytes, hread⟩ := read.exists_passes hsize
    have hreads := ih (hread.size_eq ▸ hsize)
    rw [readOver, hread.upTo_eq]
    exact passes_append_iff.mpr ⟨_, hread, hreads⟩

/-- A reader stands in an input behind `front`, and answers for the whole of it. -/
structure AccountsFor (input front : Bytes) (r : Reader) : Prop where
  front_append_rest : front ++ r.rest = input
  length_front : front.length = r.consumed
  consumed_add_length_rest : r.consumed + r.rest.length = input.length
  /-- The next read succeeds exactly if the rest begins with an item that it asks for. -/
  read_ok : ∀ (read : Read) (item : Item) (next : Reader),
    Decoder.runOn read.decoder r = (.ok item, next) ↔
      item.Answers read ∧ r.Passes item.spelling next
  /-- Otherwise it reports the length of the whole input, and stays where it is. Only the length of a
  frame may have been read, if the frame is cut off behind it. -/
  read_error : ∀ (read : Read) (error : Error) (next : Reader),
    Decoder.runOn read.decoder r = (.error error, next) →
      (∃ needed, error = .tooShort needed input.length ∧ input.length < needed) ∧
      next = if read = .framed ∧ 8 ≤ r.rest.length then ⟨r.rest.drop 8, r.consumed + 8⟩ else r
  finish_eq : Decoder.runOn Decoder.finish r =
    (if r.consumed = input.length then .ok () else .error (.trailingBytes r.rest.length), r)

/-- **A reader accounts for its input** at every point of a sequence of reads, whichever of them have
failed: the bytes that the reads moved over are the front of the input, and what is left is its rest. -/
theorem accountsFor_after {input : Bytes} (hinput : input.length < 2 ^ 63) (reads : List Read) :
    AccountsFor input ((ofBytes input).readOver reads) ((ofBytes input).after reads) := by
  have hlength : (ofBytes input).size < maxLength := by
    rw [size_ofBytes, maxLength, UInt64.size]
    omega
  have hpasses := passes_after hlength reads
  have hsize : ((ofBytes input).after reads).size = input.length := by
    rw [hpasses.size_eq, size_ofBytes]
  refine ⟨hpasses.rest.symm, ?_, hsize, fun _ _ _ => Read.runOn_eq_ok_iff, ?_, ?_⟩
  · simpa [ofBytes] using hpasses.consumed.symm
  · intro read error next herror
    rw [← hsize]
    exact Read.of_runOn_eq_error (hpasses.size_eq ▸ hlength) herror
  · have hall : ((ofBytes input).after reads).rest = [] ↔
        ((ofBytes input).after reads).consumed = input.length := by
      rw [← List.length_eq_zero_iff, ← hsize, size]
      omega
    rw [Decoder.runOn_finish]
    simp only [hall]
    split <;> rfl

/-- A frame of one byte that claims to have the greatest length there is. -/
def hugeFrame : Bytes := List.replicate 8 255 ++ [5]

/-- The claimed length is read, and what it asks for is refused without any overflow. The reader goes on
behind it, and refuses as many bytes once more. -/
theorem accountsFor_hugeFrame :
    hugeFrame.length < 2 ^ 63 ∧
    (ofBytes hugeFrame).after [.framed, .bytes maxLength] = ⟨[5], 8⟩ ∧
    (Decoder.runOn Decoder.framed (ofBytes hugeFrame)).1 = .error (.tooShort maxLength 9) ∧
    AccountsFor hugeFrame (List.replicate 8 255) ⟨[5], 8⟩ := by
  have hlength : hugeFrame.length < 2 ^ 63 := by decide
  have hall := accountsFor_after hlength [.framed, .bytes maxLength]
  have hafter : (ofBytes hugeFrame).after [.framed, .bytes maxLength] = ⟨[5], 8⟩ := by
    decide +kernel
  have hfront : (ofBytes hugeFrame).readOver [.framed, .bytes maxLength] = List.replicate 8 255 := by
    decide +kernel
  rw [hafter, hfront] at hall
  exact ⟨hlength, hafter, by decide +kernel, hall⟩

end Reader

end TimelockAuction
