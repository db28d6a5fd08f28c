import Mathlib
import TimelockAuction.Puzzle.Key
import TimelockAuction.Proofs.Crypto.Gcm
import TimelockAuction.Proofs.Random.Draw

/-!
# A locked payload unlocks

* `Sealed.lock_eq_some_iff`: what locking draws and puts together.
* `Sealed.unlock_append`: how unlocking takes it apart.
* `Sealed.unlock_of_lock`: under the same key the payload comes back.
* `Sealed.exists_lock`: a payload that fits the cipher is locked.
* `Sealed.unlock_eq_ok_iff`, `Sealed.unlock_eq_error_iff`: what any ciphertext unlocks to, and why it does
  not unlock.
-/

namespace TimelockAuction.Sealed

/-! ## What was locked -/

/-- Locking draws a nonce, and puts the body and the tag of the payload behind it. -/
theorem lock_eq_some_iff {key : Key} {payload ciphertext supply rest : Bytes} :
    (lock key payload).run supply = some (.ok ciphertext, rest) ↔
      ∃ (nonce : Gcm.Nonce) (body : Bytes) (tag : Gcm.Tag),
        Draw.bytes nonceLength supply = some (nonce, rest) ∧
        Gcm.encrypt? key nonce payload = some (body, tag) ∧
        ciphertext = nonce.toList ++ body ++ tag.toList := by
  unfold lock
  rw [Draw.run_bind_eq_some_iff]
  constructor
  · rintro ⟨nonce, left, hnonce, hrun⟩
    rw [Draw.run_lift_eq_some_iff] at hnonce
    cases hencrypt : Gcm.encrypt? key nonce payload with
    | none =>
      simp only [hencrypt] at hrun
      cases hrun
    | some sealed =>
      simp only [hencrypt] at hrun
      obtain ⟨hok, rfl⟩ := Draw.pure_eq_some_iff.mp hrun
      cases hok
      exact ⟨nonce, sealed.1, sealed.2, hnonce, hencrypt, rfl⟩
  · rintro ⟨nonce, body, tag, hnonce, hencrypt, rfl⟩
    refine ⟨nonce, rest, Draw.run_lift_eq_some_iff.mpr hnonce, ?_⟩
    simp only [hencrypt]
    rfl

/-- A ciphertext of a nonce, a body and a tag is unlocked by decrypting the body. -/
theorem unlock_append (key : Key) (nonce : Gcm.Nonce) (body : Bytes) (tag : Gcm.Tag) :
    unlock key (nonce.toList ++ body ++ tag.toList) =
      match Gcm.decrypt? key nonce body tag with
      | some payload => .ok payload
      | none => .error (.puzzleSolve .notAuthentic) := by
  have hlength : (nonce.toList ++ body ++ tag.toList).length = 12 + 16 + body.length := by
    simp
    omega
  have hlong : ¬ (nonce.toList ++ body ++ tag.toList).length < 12 + 16 := by omega
  have hbodyLength : (nonce.toList ++ body ++ tag.toList).length - (12 + 16) = body.length := by
    omega
  have hnonce : nonce.toList.length = 12 := Vector.length_toList
  have htake : (nonce.toList ++ body ++ tag.toList).take 12 = nonce.toList := by
    rw [List.append_assoc, List.take_left' hnonce]
  have hbody : ((nonce.toList ++ body ++ tag.toList).drop 12).take body.length = body := by
    rw [List.append_assoc, List.drop_left' hnonce, List.take_left]
  have htag : (nonce.toList ++ body ++ tag.toList).drop (12 + body.length) = tag.toList := by
    apply List.drop_left'
    rw [List.length_append, hnonce]
  unfold unlock nonceLength tagLength
  rw [dif_neg hlong]
  simp only [hbodyLength, htake, hbody, htag, Bytes.toVector_toList]
  cases Gcm.decrypt? key nonce body tag <;> rfl

/-- Unlocking undoes locking. -/
theorem unlock_of_lock {key : Key} {payload ciphertext supply rest : Bytes}
    (h : (lock key payload).run supply = some (.ok ciphertext, rest)) :
    unlock key ciphertext = .ok payload := by
  obtain ⟨nonce, body, tag, -, hencrypt, rfl⟩ := lock_eq_some_iff.mp h
  rw [unlock_append, Gcm.decrypt?_of_encrypt? hencrypt]

/-- A payload that is locked fits the cipher, and is 28 bytes longer for it. -/
theorem length_of_lock {key : Key} {payload ciphertext supply rest : Bytes}
    (h : (lock key payload).run supply = some (.ok ciphertext, rest)) :
    payload.length ≤ Gcm.maxPayload ∧
      ciphertext.length = payload.length + (nonceLength + tagLength) := by
  obtain ⟨nonce, body, tag, -, hencrypt, rfl⟩ := lock_eq_some_iff.mp h
  obtain ⟨hlength, rfl, -⟩ := Gcm.encrypt?_eq_some_iff.mp hencrypt
  refine ⟨hlength, ?_⟩
  simp only [List.length_append, Vector.length_toList, Gcm.length_addKeyStream, nonceLength,
    tagLength]
  omega

/-- A payload that fits the cipher is locked as soon as the supply has a nonce. -/
theorem exists_lock (key : Key) {payload supply : Bytes}
    (hpayload : payload.length ≤ Gcm.maxPayload) (hsupply : nonceLength ≤ supply.length) :
    ∃ ciphertext, (lock key payload).run supply =
      some (.ok ciphertext, supply.drop nonceLength) := by
  obtain ⟨nonce, hnonce⟩ := Draw.exists_bytes hsupply
  obtain ⟨body, tag, hencrypt⟩ := Gcm.exists_encrypt? key nonce hpayload
  exact ⟨_, lock_eq_some_iff.mpr ⟨nonce, body, tag, hnonce, hencrypt, rfl⟩⟩

/-! ## Any ciphertext -/

variable {key : Key} {ciphertext payload : Bytes}

/-- The ciphertext is a nonce, a body and a tag that authenticates the body under the key, and the payload
is the body without the key stream. -/
def Opens (key : Key) (ciphertext payload : Bytes) : Prop :=
  ∃ (nonce : Gcm.Nonce) (body : Bytes) (tag : Gcm.Tag),
    ciphertext = nonce.toList ++ body ++ tag.toList ∧ Gcm.Authenticates key nonce body tag ∧
      payload = Gcm.addKeyStream (Aes.roundKeys key) nonce body

/-- The ciphertext passes the check of its tag. -/
def IsAuthentic (key : Key) (ciphertext : Bytes) : Prop :=
  ∃ payload, Opens key ciphertext payload

theorem Opens.length_le (h : Opens key ciphertext payload) :
    payload.length ≤ Gcm.maxPayload + 16 := by
  obtain ⟨nonce, body, tag, -, ⟨hlength, -⟩, rfl⟩ := h
  rwa [Gcm.length_addKeyStream]

theorem IsAuthentic.le_length (h : IsAuthentic key ciphertext) :
    nonceLength + tagLength ≤ ciphertext.length := by
  obtain ⟨payload, nonce, body, tag, rfl, -⟩ := h
  simp only [List.length_append, Vector.length_toList, nonceLength, tagLength]
  omega

/-- A ciphertext with room for a nonce and a tag has both. -/
theorem exists_parts (h : nonceLength + tagLength ≤ ciphertext.length) :
    ∃ (nonce : Gcm.Nonce) (body : Bytes) (tag : Gcm.Tag),
      ciphertext = nonce.toList ++ body ++ tag.toList := by
  unfold nonceLength tagLength at h
  have hnonce : (ciphertext.take 12).length = 12 := by
    rw [List.length_take]
    omega
  have htag : (ciphertext.drop (ciphertext.length - 16)).length = 16 := by
    rw [List.length_drop]
    omega
  refine ⟨Bytes.toVector _ hnonce, (ciphertext.drop 12).take (ciphertext.length - 28),
    Bytes.toVector _ htag, ?_⟩
  have hplace : ciphertext.drop (ciphertext.length - 16) =
      (ciphertext.drop 12).drop (ciphertext.length - 28) := by
    rw [List.drop_drop]
    congr 1
    omega
  rw [Bytes.toList_toVector, Bytes.toList_toVector, List.append_assoc, hplace,
    List.take_append_drop, List.take_append_drop]

theorem unlock_of_opens (h : Opens key ciphertext payload) : unlock key ciphertext = .ok payload := by
  obtain ⟨nonce, body, tag, rfl, hpayload⟩ := h
  rw [unlock_append, Gcm.decrypt?_eq_some_iff.mpr hpayload]

theorem unlock_of_short (h : ciphertext.length < nonceLength + tagLength) :
    unlock key ciphertext = .error (.puzzleSolve (.ciphertextTooShort ciphertext.length)) :=
  dif_pos h

theorem unlock_of_not_isAuthentic (hlength : nonceLength + tagLength ≤ ciphertext.length)
    (h : ¬ IsAuthentic key ciphertext) :
    unlock key ciphertext = .error (.puzzleSolve .notAuthentic) := by
  obtain ⟨nonce, body, tag, rfl⟩ := exists_parts hlength
  have hbody : ¬ Gcm.Authenticates key nonce body tag := by
    intro htag
    exact h ⟨_, nonce, body, tag, rfl, htag, rfl⟩
  rw [unlock_append, Gcm.decrypt?_eq_none_iff.mpr hbody]

theorem unlock_eq_ok_iff : unlock key ciphertext = .ok payload ↔ Opens key ciphertext payload := by
  constructor
  · intro h
    by_cases hshort : ciphertext.length < nonceLength + tagLength
    · exact nomatch (unlock_of_short hshort).symm.trans h
    · by_cases hauthentic : IsAuthentic key ciphertext
      · obtain ⟨found, hopens⟩ := hauthentic
        cases (unlock_of_opens hopens).symm.trans h
        exact hopens
      · exact nomatch (unlock_of_not_isAuthentic (Nat.not_lt.mp hshort) hauthentic).symm.trans h
  · exact unlock_of_opens

/-- The length comes first: a ciphertext without room for its parts is not checked for its tag. -/
theorem unlock_eq_error_iff {error : Error} :
    unlock key ciphertext = .error error ↔
      (ciphertext.length < nonceLength + tagLength ∧
        error = .puzzleSolve (.ciphertextTooShort ciphertext.length)) ∨
      (nonceLength + tagLength ≤ ciphertext.length ∧ ¬ IsAuthentic key ciphertext ∧
        error = .puzzleSolve .notAuthentic) := by
  constructor
  · intro h
    by_cases hshort : ciphertext.length < nonceLength + tagLength
    · cases (unlock_of_short hshort).symm.trans h
      exact .inl ⟨hshort, rfl⟩
    · by_cases hauthentic : IsAuthentic key ciphertext
      · obtain ⟨found, hopens⟩ := hauthentic
        exact nomatch (unlock_of_opens hopens).symm.trans h
      · have hlength := Nat.not_lt.mp hshort
        cases (unlock_of_not_isAuthentic hlength hauthentic).symm.trans h
        exact .inr ⟨hlength, hauthentic, rfl⟩
  · rintro (⟨hshort, rfl⟩ | ⟨hlength, hauthentic, rfl⟩)
    · exact unlock_of_short hshort
    · exact unlock_of_not_isAuthentic hlength hauthentic

end TimelockAuction.Sealed
