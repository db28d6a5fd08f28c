import Mathlib
import TimelockAuction.Proofs.Puzzle.Key

/-!
# A ciphertext unlocks exactly if it was locked

Unlocking a ciphertext checks its tag, and locking its payload again, with the nonce that it starts with, puts
the same bytes together. So nothing is unlocked that locking cannot make. What was locked may be no longer than
the cipher encrypts; the cipher would decrypt sixteen bytes more than that.

* `Sealed.Opens.lock_eq`: a ciphertext that opens is made again from its payload and its nonce.
* `Sealed.exists_opens_iff`: of all tags behind a nonce and a body, one opens.
* `Sealed.unlock_of_other_tag`: a ciphertext that opens does not with another tag.
* `Sealed.unlock_inverts_lock`: all of it, for every key.
-/

namespace TimelockAuction.Sealed

variable {key : Key} {ciphertext payload : Bytes}

/-! ## Locking again -/

theorem Opens.length_eq (h : Opens key ciphertext payload) :
    ciphertext.length = payload.length + (nonceLength + tagLength) := by
  obtain ⟨nonce, body, tag, rfl, -, rfl⟩ := h
  simp only [List.length_append, Vector.length_toList, Gcm.length_addKeyStream, nonceLength,
    tagLength]
  omega

/-- The key stream that was taken off the body is put on again, and the tag is the one of the body. -/
theorem Opens.lock_eq (h : Opens key ciphertext payload) (hpayload : payload.length ≤ Gcm.maxPayload)
    (rest : Bytes) :
    (lock key payload).run (ciphertext.take nonceLength ++ rest) = some (.ok ciphertext, rest) := by
  obtain ⟨nonce, body, tag, rfl, ⟨-, htag⟩, rfl⟩ := h
  have hnonce : (nonce.toList ++ body ++ tag.toList).take nonceLength = nonce.toList := by
    rw [List.append_assoc]
    exact List.take_left' Vector.length_toList
  rw [hnonce, lock_eq_some_iff]
  refine ⟨nonce, body, tag, Draw.bytes_append nonce rest, ?_, rfl⟩
  rw [Gcm.encrypt?_eq_some_iff, Gcm.addKeyStream_addKeyStream]
  exact ⟨hpayload, rfl, htag.symm⟩

/-! ## Tags -/

theorem exists_opens_iff {nonce : Gcm.Nonce} {body : Bytes} {tag : Gcm.Tag} :
    (∃ payload, Opens key (nonce.toList ++ body ++ tag.toList) payload) ↔
      Gcm.Authenticates key nonce body tag := by
  constructor
  · rintro ⟨payload, nonce', body', tag', heq, hauthentic, -⟩
    have hlength : body.length = body'.length := by
      have := congrArg List.length heq
      simp only [List.length_append, Vector.length_toList] at this
      omega
    obtain ⟨hfront, htag⟩ := List.append_inj heq (by simp [hlength])
    obtain ⟨hnonce, hbody⟩ := List.append_inj hfront (by simp)
    rw [Vector.toList_inj.mp hnonce, hbody, Vector.toList_inj.mp htag]
    exact hauthentic
  · intro h
    exact ⟨_, nonce, body, tag, rfl, h, rfl⟩

/-- A body that is not too long has one tag. -/
theorem existsUnique_tag (key : Key) (nonce : Gcm.Nonce) {body : Bytes}
    (hbody : body.length ≤ Gcm.maxPayload) :
    ∃! tag : Gcm.Tag, ∃ payload, unlock key (nonce.toList ++ body ++ tag.toList) = .ok payload := by
  simp only [unlock_eq_ok_iff, exists_opens_iff]
  refine ⟨Gcm.tag (Aes.roundKeys key) nonce body, ⟨hbody.trans (Nat.le_add_right _ _), rfl⟩, ?_⟩
  rintro tag ⟨-, rfl⟩
  rfl

/-- What agrees with a ciphertext but for the tag has its nonce and its body. -/
theorem exists_tag_of_take_eq {nonce : Gcm.Nonce} {body changed : Bytes} {tag : Gcm.Tag}
    (hlength : changed.length = (nonce.toList ++ body ++ tag.toList).length)
    (htake : changed.take (changed.length - tagLength) =
      (nonce.toList ++ body ++ tag.toList).take (changed.length - tagLength)) :
    ∃ other : Gcm.Tag, changed = nonce.toList ++ body ++ other.toList := by
  have hfront : changed.length - tagLength = (nonce.toList ++ body).length := by
    rw [hlength, List.length_append, Vector.length_toList]
    exact Nat.add_sub_cancel _ _
  have hback : (changed.drop (changed.length - tagLength)).length = 16 := by
    rw [List.length_drop, hfront, hlength, List.length_append, Vector.length_toList]
    omega
  refine ⟨Bytes.toVector _ hback, ?_⟩
  rw [Bytes.toList_toVector]
  calc changed = changed.take (changed.length - tagLength) ++
        changed.drop (changed.length - tagLength) := (List.take_append_drop _ _).symm
    _ = nonce.toList ++ body ++ changed.drop (changed.length - tagLength) := by
      rw [htake, hfront, List.take_left]

theorem unlock_of_other_tag {changed : Bytes} (h : unlock key ciphertext = .ok payload)
    (hlength : changed.length = ciphertext.length) (hne : changed ≠ ciphertext)
    (htake : changed.take (changed.length - tagLength) =
      ciphertext.take (changed.length - tagLength)) :
    unlock key changed = .error (.puzzleSolve .notAuthentic) := by
  obtain ⟨nonce, body, tag, rfl, ⟨-, htag⟩, -⟩ := unlock_eq_ok_iff.mp h
  obtain ⟨other, rfl⟩ := exists_tag_of_take_eq hlength htake
  have hforged : ¬ Gcm.Authenticates key nonce body other := by
    rintro ⟨-, rfl⟩
    exact hne (by rw [htag])
  rw [unlock_append, Gcm.decrypt?_eq_none_iff.mpr hforged]

/-! ## Both directions -/

/-- **Unlocking accepts exactly what locking makes.** A ciphertext whose body is not too long to be encrypted
unlocks to a payload exactly if it has room for a nonce and a tag and locking the payload makes it again, with
any supply that starts with its nonce. So a payload is 28 bytes shorter than its ciphertext, and whatever was
locked, from whatever supply, unlocks. Of all tags behind a nonce and a body, one is accepted; so a ciphertext
that unlocks is refused as soon as its last sixteen bytes are changed. -/
theorem unlock_inverts_lock (key : Key) :
    (∀ ciphertext payload : Bytes, ciphertext.length ≤ 12 + 2 ^ 36 + 16 →
      (unlock key ciphertext = .ok payload ↔
        28 ≤ ciphertext.length ∧ ∀ rest : Bytes,
          (lock key payload).run (ciphertext.take 12 ++ rest) = some (.ok ciphertext, rest))) ∧
    (∀ ciphertext payload : Bytes, unlock key ciphertext = .ok payload →
      payload.length = ciphertext.length - 28) ∧
    (∀ payload supply ciphertext rest : Bytes,
      (lock key payload).run supply = some (.ok ciphertext, rest) →
        unlock key ciphertext = .ok payload) ∧
    (∀ (nonce : Gcm.Nonce) (body : Bytes), body.length ≤ 2 ^ 36 →
      ∃! tag : Gcm.Tag, ∃ payload, unlock key (nonce.toList ++ body ++ tag.toList) = .ok payload) ∧
    ∀ ciphertext payload changed : Bytes, unlock key ciphertext = .ok payload →
      changed.length = ciphertext.length → changed ≠ ciphertext →
      changed.take (changed.length - 16) = ciphertext.take (changed.length - 16) →
        unlock key changed = .error (.puzzleSolve .notAuthentic) := by
  refine ⟨?_, ?_, fun _ _ _ _ h => unlock_of_lock h, fun nonce body h => existsUnique_tag key nonce h,
    fun _ _ _ h hlength hne htake => unlock_of_other_tag h hlength hne htake⟩
  · intro ciphertext payload hbody
    constructor
    · intro h
      have hopens := unlock_eq_ok_iff.mp h
      have hlength := hopens.length_eq
      unfold nonceLength tagLength at hlength
      have hpayload : payload.length ≤ Gcm.maxPayload := by
        show payload.length ≤ 2 ^ 36
        omega
      exact ⟨by omega, hopens.lock_eq hpayload⟩
    · rintro ⟨-, hlock⟩
      exact unlock_of_lock (hlock [])
  · intro ciphertext payload h
    have hlength := (unlock_eq_ok_iff.mp h).length_eq
    unfold nonceLength tagLength at hlength
    omega

end TimelockAuction.Sealed
