import Mathlib
import TimelockAuction.Proofs.Wire.Place
import TimelockAuction.Proofs.Wire.PrefixFree

/-!
# Why a byte string is no order

The answer of the decoder of orders shows in the length of its input, in the side that is spelled there, and
in the two lengths there, whatever they claim: that of the side stands behind 51 bytes, and that of the
signature behind 93 bytes and the side. The first of these that does not fit is reported.

A side that is spelled rightly has three or four bytes. So in an input of the least length, which is checked
first, the auction and the nonce are never cut off, and of all fixed fields only the length of the signature
can be.

* `AuctionOrder.diagnosis?`: what is wrong with a byte string, said without reading it field by field.
* `AuctionOrder.exists_runOn_decoder`, `AuctionOrder.exists_runOn_tailDecoder`: the fields that are there.
* `AuctionOrder.HasSide.decode_of_length_cut_off`, `AuctionOrder.HasSide.decode_of_signature_cut_off`,
  `AuctionOrder.HasSide.exists_decode_of_whole`: what can be wrong behind the side.
* `AuctionOrder.answersAs_diagnosis`, `AuctionOrder.decode_reports_diagnosis`: each answer of the decoder,
  with its diagnosis.
-/

namespace TimelockAuction.AuctionOrder

variable {bytes : Bytes}

/-! ## Diagnosis -/

/-- The length that the side claims to have. -/
def sideLength (bytes : Bytes) : Nat := bytes.wordAt 51

/-- The bytes that spell the side. -/
def sideBytes (bytes : Bytes) : Bytes := bytes.slice 59 (sideLength bytes)

/-- The length that the signature claims to have. -/
def signatureLength (bytes : Bytes) : Nat := bytes.wordAt (93 + sideLength bytes)

/-- Why a byte string is no order, unless it is one. -/
def diagnosis? (bytes : Bytes) : Option Error :=
  let whole := 101 + sideLength bytes + signatureLength bytes
  if bytes.length < 101 then some (.tooShort 101 bytes.length)
  else if bytes.length < 59 + sideLength bytes then
    some (.tooShort (min (59 + sideLength bytes) (2 ^ 64 - 1)) bytes.length)
  else if sideBytes bytes ≠ OrderSide.buy.wireBytes ∧ sideBytes bytes ≠ OrderSide.sell.wireBytes then
    some (.invalidSide (Utf8.decodeLossy (sideBytes bytes)))
  else if bytes.length < 101 + sideLength bytes then
    some (.tooShort (101 + sideLength bytes) bytes.length)
  else if bytes.length < whole then some (.tooShort (min whole (2 ^ 64 - 1)) bytes.length)
  else if whole < bytes.length then some (.trailingBytes (bytes.length - whole))
  else none

/-! ## Fields that are there -/

/-- The fields behind the side, for an order whose other fields have been read. -/
def tailDecoder (build : AuctionId → OrderNonce → Bytes → AuctionOrder) : Decoder AuctionOrder := do
  let auction ← Decoder.take auctionWidth
  let nonce ← Decoder.take nonceWidth
  let signature ← Decoder.framed
  return build ⟨auction⟩ ⟨nonce⟩ signature

/-- The fields from the side on, for an order whose other fields have been read. -/
def sideDecoder (build : OrderSide → AuctionId → OrderNonce → Bytes → AuctionOrder) :
    Decoder AuctionOrder := do
  let spelling ← Decoder.framed
  let side ← Decoder.ofResult (OrderSide.ofBytes spelling)
  tailDecoder (build side)

theorem exists_runOn_decoder (h : 51 ≤ bytes.length) :
    ∃ build : OrderSide → AuctionId → OrderNonce → Bytes → AuctionOrder,
      Decoder.runOn decoder (.ofBytes bytes) =
        Decoder.runOn (sideDecoder build) (.atPlace bytes 51) := by
  have hpubkey : 0 + 33 ≤ bytes.length := by omega
  have hpair : 33 + 2 ≤ bytes.length := by omega
  have hhave : 35 + 8 ≤ bytes.length := by omega
  let pubkey : PubKey := ⟨Bytes.toVector (bytes.slice 0 33) (Bytes.length_slice hpubkey)⟩
  let pair : TradingPair :=
    .ofBytes (Bytes.toVector (bytes.slice 33 2) (Bytes.length_slice hpair))
  refine ⟨fun side auction nonce signature =>
    ⟨pubkey, side, pair, .ofNat (bytes.wordAt 35), .ofNat (bytes.wordAt 43), .zero, auction, nonce,
      signature⟩, ?_⟩
  rw [Reader.ofBytes_eq, decoder, Decoder.runOn_bind_of_ok (Decoder.runOn_take_of_le hpubkey),
    Decoder.runOn_bind_of_ok (Decoder.runOn_take_of_le hpair),
    Decoder.runOn_bind_of_ok (Decoder.runOn_word_of_le hhave),
    Decoder.runOn_bind_of_ok (Decoder.runOn_word_of_le h)]
  rfl

theorem exists_runOn_tailDecoder {place : Nat} (h : place + 34 ≤ bytes.length)
    (build : AuctionId → OrderNonce → Bytes → AuctionOrder) :
    ∃ complete : Bytes → AuctionOrder,
      Decoder.runOn (tailDecoder build) (.atPlace bytes place) =
        Decoder.runOn (complete <$> Decoder.framed) (.atPlace bytes (place + 34)) := by
  have hauction : place + 32 ≤ bytes.length := by omega
  have hnonce : place + 32 + 2 ≤ bytes.length := h
  refine ⟨build ⟨Bytes.toVector (bytes.slice place 32) (Bytes.length_slice hauction)⟩
    ⟨Bytes.toVector (bytes.slice (place + 32) 2) (Bytes.length_slice hnonce)⟩, ?_⟩
  rw [tailDecoder, Decoder.runOn_bind_of_ok (Decoder.runOn_take_of_le hauction),
    Decoder.runOn_bind_of_ok (Decoder.runOn_take_of_le hnonce), bind_pure_comp]

/-! ## The side -/

theorem decode_of_run_error {error : Error} (hlength : 101 ≤ bytes.length)
    (h : (Decoder.runOn decoder (.ofBytes bytes)).1 = .error error) : decode bytes = .error error :=
  (decode_of_not_short (Nat.not_lt.mpr hlength)).trans (Decoder.decodeAll_of_error h)

theorem decode_of_side_cut_off (hlength : 101 ≤ bytes.length)
    (h : bytes.length < 59 + sideLength bytes) :
    decode bytes = .error (.tooShort (min (59 + sideLength bytes) maxLength) bytes.length) := by
  have hfront : 51 ≤ bytes.length := by omega
  have hframe : 51 + 8 ≤ bytes.length := by omega
  obtain ⟨build, hrun⟩ := exists_runOn_decoder hfront
  apply decode_of_run_error hlength
  rw [hrun]
  exact Decoder.runOn_bind_of_error (Decoder.runOn_framed_of_lt hframe h)

/-- A whole side is read, whatever it spells. -/
theorem exists_runOn_of_whole_side (h : 59 + sideLength bytes ≤ bytes.length) :
    ∃ build : OrderSide → AuctionId → OrderNonce → Bytes → AuctionOrder,
      Decoder.runOn decoder (.ofBytes bytes) = Decoder.runOn (do
        let side ← Decoder.ofResult (OrderSide.ofBytes (sideBytes bytes))
        tailDecoder (build side)) (.atPlace bytes (59 + sideLength bytes)) := by
  have hfront : 51 ≤ bytes.length := by omega
  have hframed : Decoder.runOn Decoder.framed (.atPlace bytes 51) =
      (.ok (sideBytes bytes), .atPlace bytes (59 + sideLength bytes)) :=
    Decoder.runOn_framed_of_le h
  obtain ⟨build, hrun⟩ := exists_runOn_decoder hfront
  exact ⟨build, by rw [hrun, sideDecoder, Decoder.runOn_bind_of_ok hframed]⟩

theorem decode_of_unknown_side (hlength : 101 ≤ bytes.length)
    (h : 59 + sideLength bytes ≤ bytes.length)
    (hside : sideBytes bytes ≠ OrderSide.buy.wireBytes ∧
      sideBytes bytes ≠ OrderSide.sell.wireBytes) :
    decode bytes = .error (.invalidSide (Utf8.decodeLossy (sideBytes bytes))) := by
  have hrefused : OrderSide.ofBytes (sideBytes bytes) =
      .error (.invalidSide (Utf8.decodeLossy (sideBytes bytes))) := by
    rw [OrderSide.ofBytes, if_neg hside.1, if_neg hside.2]
    rfl
  obtain ⟨build, hrun⟩ := exists_runOn_of_whole_side h
  apply decode_of_run_error hlength
  rw [hrun, hrefused]
  rfl

/-! ## Behind the side -/

/-- The input has the least length, and a side is spelled in it. -/
structure HasSide (bytes : Bytes) (side : OrderSide) : Prop where
  le_length : 101 ≤ bytes.length
  fits : 59 + sideLength bytes ≤ bytes.length
  sideBytes_eq : sideBytes bytes = side.wireBytes

namespace HasSide

variable {side : OrderSide}

theorem sideLength_le (h : HasSide bytes side) : sideLength bytes ≤ 4 := by
  have hlength : (sideBytes bytes).length = sideLength bytes := Bytes.length_slice h.fits
  rw [← hlength, h.sideBytes_eq]
  cases side <;> decide

/-- The auction and the nonce are there, and only the signature is still to be read. -/
theorem exists_runOn (h : HasSide bytes side) :
    ∃ complete : Bytes → AuctionOrder, Decoder.runOn decoder (.ofBytes bytes) =
      Decoder.runOn (complete <$> Decoder.framed) (.atPlace bytes (93 + sideLength bytes)) := by
  have hside : OrderSide.ofBytes (sideBytes bytes) = .ok side :=
    OrderSide.ofBytes_eq_ok_iff.mpr h.sideBytes_eq
  have hplace : 59 + sideLength bytes + 34 = 93 + sideLength bytes := by omega
  have htailFits : 59 + sideLength bytes + 34 ≤ bytes.length := by
    have := h.le_length
    have := h.sideLength_le
    omega
  obtain ⟨build, hrun⟩ := exists_runOn_of_whole_side h.fits
  obtain ⟨complete, htail⟩ := exists_runOn_tailDecoder htailFits (build side)
  refine ⟨complete, ?_⟩
  rw [hrun, hside, ← hplace, ← htail]
  rfl

theorem decode_of_length_cut_off (h : HasSide bytes side)
    (hcut : bytes.length < 101 + sideLength bytes) :
    decode bytes = .error (.tooShort (101 + sideLength bytes) bytes.length) := by
  have hshort := h.sideLength_le
  have hplace : 93 + sideLength bytes ≤ bytes.length := by
    have := h.le_length
    omega
  have hend : 93 + sideLength bytes + 8 = 101 + sideLength bytes := by omega
  have hcap : min (101 + sideLength bytes) maxLength = 101 + sideLength bytes := by
    unfold maxLength UInt64.size
    omega
  obtain ⟨complete, hrun⟩ := h.exists_runOn
  apply decode_of_run_error h.le_length
  rw [hrun, ← bind_pure_comp, ← hcap, ← hend]
  rw [← hend] at hcut
  exact Decoder.runOn_bind_of_error (Decoder.runOn_framed_of_no_length hplace hcut)

theorem decode_of_signature_cut_off (h : HasSide bytes side)
    (hfits : 101 + sideLength bytes ≤ bytes.length)
    (hcut : bytes.length < 101 + sideLength bytes + signatureLength bytes) :
    decode bytes = .error (.tooShort
      (min (101 + sideLength bytes + signatureLength bytes) maxLength) bytes.length) := by
  have hend : 93 + sideLength bytes + 8 = 101 + sideLength bytes := by omega
  obtain ⟨complete, hrun⟩ := h.exists_runOn
  apply decode_of_run_error h.le_length
  rw [hrun, ← bind_pure_comp, ← hend]
  rw [← hend] at hfits hcut
  exact Decoder.runOn_bind_of_error (Decoder.runOn_framed_of_lt hfits hcut)

theorem exists_decode_of_whole (h : HasSide bytes side)
    (hfits : 101 + sideLength bytes + signatureLength bytes ≤ bytes.length) :
    ∃ order, decode bytes =
      if bytes.length = 101 + sideLength bytes + signatureLength bytes then .ok order
      else .error
        (.trailingBytes (bytes.length - (101 + sideLength bytes + signatureLength bytes))) := by
  have hend : 93 + sideLength bytes + 8 = 101 + sideLength bytes := by omega
  obtain ⟨complete, hrun⟩ := h.exists_runOn
  have hframed : Decoder.runOn Decoder.framed (.atPlace bytes (93 + sideLength bytes)) =
      (.ok (bytes.slice (101 + sideLength bytes) (signatureLength bytes)),
        .atPlace bytes (101 + sideLength bytes + signatureLength bytes)) := by
    rw [← hend] at hfits ⊢
    exact Decoder.runOn_framed_of_le hfits
  rw [← bind_pure_comp, Decoder.runOn_bind_of_ok hframed] at hrun
  refine ⟨complete (bytes.slice (101 + sideLength bytes) (signatureLength bytes)), ?_⟩
  rw [decode_of_not_short (Nat.not_lt.mpr h.le_length), Decoder.decodeAll_of_ok hrun]
  simp only [Reader.atPlace, List.drop_eq_nil_iff, List.length_drop]
  exact if_congr ⟨fun hle => le_antisymm hle hfits, fun heq => heq.le⟩ rfl rfl

end HasSide

/-! ## Every answer -/

/-- The decoder answers the byte string as it is diagnosed. -/
def AnswersAs (bytes : Bytes) : Option Error → Prop
  | some error => decode bytes = .error error
  | none => ∃ order, decode bytes = .ok order

/-- The cases are those of the diagnosis, each with the lemma on the field that it is about. -/
theorem answersAs_diagnosis (bytes : Bytes) : AnswersAs bytes (diagnosis? bytes) := by
  unfold diagnosis?
  dsimp only
  by_cases hleast : bytes.length < 101
  · rw [if_pos hleast]
    exact decode_of_short hleast
  rw [if_neg hleast]
  have hlength := Nat.not_lt.mp hleast
  by_cases hcut : bytes.length < 59 + sideLength bytes
  · rw [if_pos hcut]
    exact decode_of_side_cut_off hlength hcut
  rw [if_neg hcut]
  have hfits := Nat.not_lt.mp hcut
  by_cases hunknown : sideBytes bytes ≠ OrderSide.buy.wireBytes ∧
      sideBytes bytes ≠ OrderSide.sell.wireBytes
  · rw [if_pos hunknown]
    exact decode_of_unknown_side hlength hfits hunknown
  rw [if_neg hunknown]
  have hside : ∃ side, HasSide bytes side := by
    by_cases hbuy : sideBytes bytes = OrderSide.buy.wireBytes
    · exact ⟨.buy, hlength, hfits, hbuy⟩
    · exact ⟨.sell, hlength, hfits, not_not.mp fun hsell => hunknown ⟨hbuy, hsell⟩⟩
  obtain ⟨side, hside⟩ := hside
  by_cases hnoLength : bytes.length < 101 + sideLength bytes
  · rw [if_pos hnoLength]
    exact hside.decode_of_length_cut_off hnoLength
  rw [if_neg hnoLength]
  by_cases hcutOff : bytes.length < 101 + sideLength bytes + signatureLength bytes
  · rw [if_pos hcutOff]
    exact hside.decode_of_signature_cut_off (Nat.not_lt.mp hnoLength) hcutOff
  rw [if_neg hcutOff]
  obtain ⟨order, horder⟩ := hside.exists_decode_of_whole (Nat.not_lt.mp hcutOff)
  by_cases htrailing : 101 + sideLength bytes + signatureLength bytes < bytes.length
  · rw [if_pos htrailing]
    rwa [if_neg htrailing.ne'] at horder
  · rw [if_neg htrailing]
    rw [if_pos (le_antisymm (Nat.not_lt.mp htrailing) (Nat.not_lt.mp hcutOff))] at horder
    exact ⟨order, horder⟩

theorem lengthOverflow_ne_diagnosis (bytes : Bytes) (length : UInt64) :
    diagnosis? bytes ≠ some (.lengthOverflow length) := by
  unfold diagnosis?
  dsimp only
  split_ifs <;> simp

/-- **The decoder reports what is wrong with a byte string**, and nothing else. It fails exactly with the
diagnosis, and succeeds exactly on byte strings that have none. The sums in the diagnosis are naturals, so
that no length wraps that a byte string claims, and no length is refused for being too great to be one. -/
theorem decode_reports_diagnosis (bytes : Bytes) :
    (∀ error, decode bytes = .error error ↔ diagnosis? bytes = some error) ∧
    ((∃ order, decode bytes = .ok order) ↔ diagnosis? bytes = none) ∧
    ∀ length, decode bytes ≠ .error (.lengthOverflow length) := by
  have herror : ∀ error, decode bytes = .error error ↔ diagnosis? bytes = some error := by
    intro error
    have hanswer := answersAs_diagnosis bytes
    cases hdiagnosis : diagnosis? bytes with
    | some found =>
      rw [hdiagnosis] at hanswer
      rw [show decode bytes = .error found from hanswer, Except.error.injEq, Option.some.injEq]
    | none =>
      rw [hdiagnosis] at hanswer
      obtain ⟨order, horder⟩ := hanswer
      simp [horder]
  refine ⟨herror, ?_, fun length h => lengthOverflow_ne_diagnosis bytes length ((herror _).mp h)⟩
  rw [Option.eq_none_iff_forall_ne_some]
  constructor
  · rintro ⟨order, horder⟩ error hdiagnosis
    exact nomatch horder.symm.trans ((herror error).mpr hdiagnosis)
  · intro hnone
    cases hdecode : decode bytes with
    | ok order => exact ⟨order, rfl⟩
    | error error => exact absurd ((herror error).mp hdecode) (hnone error)

/-- In the window of inputs that have the least length but are too short for any order. -/
example : diagnosis? (List.replicate 51 0 ++ [3, 0, 0, 0, 0, 0, 0, 0, 0x62, 0x75, 0x79] ++
    List.replicate 40 0) = some (.tooShort 104 102) := by decide

end TimelockAuction.AuctionOrder
