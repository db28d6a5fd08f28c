import Mathlib
import TimelockAuction.Crypto.Gcm

/-!
# Decryption undoes encryption

The key stream depends on the key, the nonce and the length of the payload only, and it is added bit by
bit, so adding it twice changes nothing.

* `Gcm.addKeyStream_addKeyStream`: a key stream cancels itself.
* `Gcm.decrypt?_of_encrypt?`: what was encrypted is decrypted to the payload.
* `Gcm.decrypt?_eq_some_iff`, `Gcm.decrypt?_eq_none_iff`: what is decrypted at all.
-/

namespace TimelockAuction.Gcm

/-! ## Key stream -/

theorem length_keyStream (keys : List Aes.Block) (nonce : Nonce) (n count : Nat) :
    (keyStream keys nonce n count).length = 16 * count := by
  induction count generalizing n with
  | zero => rfl
  | succ count ih =>
    rw [keyStream, List.length_append, ih, Vector.length_toList]
    omega

theorem length_addKeyStream (keys : List Aes.Block) (nonce : Nonce) (bytes : Bytes) :
    (addKeyStream keys nonce bytes).length = bytes.length := by
  rw [addKeyStream, List.length_zipWith, length_keyStream]
  omega

theorem zipWith_xor_cancel {bytes stream : Bytes} (h : bytes.length ≤ stream.length) :
    (bytes.zipWith (· ^^^ ·) stream).zipWith (· ^^^ ·) stream = bytes := by
  induction bytes generalizing stream with
  | nil => rfl
  | cons b bytes ih =>
    cases stream with
    | nil => cases h
    | cons s stream =>
      have htail := ih (Nat.le_of_succ_le_succ h)
      rw [List.zipWith_cons_cons, List.zipWith_cons_cons, htail, UInt8.xor_assoc, UInt8.xor_self,
        UInt8.xor_zero]

theorem addKeyStream_addKeyStream (keys : List Aes.Block) (nonce : Nonce) (bytes : Bytes) :
    addKeyStream keys nonce (addKeyStream keys nonce bytes) = bytes := by
  have hlength := length_addKeyStream keys nonce bytes
  unfold addKeyStream at hlength ⊢
  rw [hlength]
  apply zipWith_xor_cancel
  rw [length_keyStream]
  omega

/-! ## Encryption -/

theorem encrypt?_eq_some_iff {key : Key} {nonce : Nonce} {payload body : Bytes} {t : Tag} :
    encrypt? key nonce payload = some (body, t) ↔
      payload.length ≤ maxPayload ∧ body = addKeyStream (Aes.roundKeys key) nonce payload ∧
        t = tag (Aes.roundKeys key) nonce body := by
  unfold encrypt?
  split
  · rename_i h
    constructor
    · intro hsome
      cases hsome
      exact ⟨h, rfl, rfl⟩
    · rintro ⟨-, rfl, rfl⟩
      rfl
  · rename_i h
    exact ⟨fun hsome => (by cases hsome), fun hall => absurd hall.1 h⟩

theorem exists_encrypt? (key : Key) (nonce : Nonce) {payload : Bytes}
    (h : payload.length ≤ maxPayload) : ∃ body t, encrypt? key nonce payload = some (body, t) :=
  ⟨_, _, encrypt?_eq_some_iff.mpr ⟨h, rfl, rfl⟩⟩

theorem decrypt?_of_encrypt? {key : Key} {nonce : Nonce} {payload body : Bytes} {t : Tag}
    (h : encrypt? key nonce payload = some (body, t)) :
    decrypt? key nonce body t = some payload := by
  obtain ⟨hlength, rfl, rfl⟩ := encrypt?_eq_some_iff.mp h
  have hbody : (addKeyStream (Aes.roundKeys key) nonce payload).length ≤ maxPayload + 16 := by
    rw [length_addKeyStream]
    omega
  rw [decrypt?, if_pos hbody]
  exact (if_pos rfl).trans (congrArg some (addKeyStream_addKeyStream _ nonce payload))

/-! ## Decryption -/

/-- The tag is the one of the body under the key and the nonce, and the body is not too long to be
checked. -/
def Authenticates (key : Key) (nonce : Nonce) (body : Bytes) (t : Tag) : Prop :=
  body.length ≤ maxPayload + 16 ∧ tag (Aes.roundKeys key) nonce body = t

theorem decrypt?_of_authenticates {key : Key} {nonce : Nonce} {body : Bytes} {t : Tag}
    (h : Authenticates key nonce body t) :
    decrypt? key nonce body t = some (addKeyStream (Aes.roundKeys key) nonce body) := by
  obtain ⟨hlength, htag⟩ := h
  rw [decrypt?, if_pos hlength]
  exact if_pos htag

theorem decrypt?_eq_none_iff {key : Key} {nonce : Nonce} {body : Bytes} {t : Tag} :
    decrypt? key nonce body t = none ↔ ¬ Authenticates key nonce body t := by
  constructor
  · intro hnone h
    rw [decrypt?_of_authenticates h] at hnone
    cases hnone
  · intro h
    unfold decrypt?
    by_cases hlength : body.length ≤ maxPayload + 16
    · rw [if_pos hlength]
      exact if_neg fun htag => h ⟨hlength, htag⟩
    · rw [if_neg hlength]

theorem decrypt?_eq_some_iff {key : Key} {nonce : Nonce} {body payload : Bytes} {t : Tag} :
    decrypt? key nonce body t = some payload ↔
      Authenticates key nonce body t ∧ payload = addKeyStream (Aes.roundKeys key) nonce body := by
  by_cases h : Authenticates key nonce body t
  · rw [decrypt?_of_authenticates h, Option.some.injEq, eq_comm, and_iff_right h]
  · rw [decrypt?_eq_none_iff.mpr h]
    exact iff_of_false (by simp) (fun hall => h hall.1)

end TimelockAuction.Gcm
