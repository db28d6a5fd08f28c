import TimelockAuction.Crypto.Sha256
import TimelockAuction.Crypto.Gcm
import TimelockAuction.Random.Draw
import TimelockAuction.Error

/-!
# Keys and sealed payloads

A puzzle hides a key, and the key seals a payload. The key is the digest of the puzzle's solution behind
the name of its construction and the solution's length. A sealed payload is a nonce of twelve bytes, the
encrypted payload, and a tag of sixteen bytes.
-/

namespace TimelockAuction

abbrev Key := Vector UInt8 32

/-- The byte string whose digest is a key. -/
def Key.preimage (domain material : Bytes) : Bytes :=
  domain ++ LittleEndian.encodeWord (UInt64.ofNat material.length) ++ material

/-- The key derived from the solution of a puzzle, apart for each construction. -/
def Key.derive (domain material : Bytes) : Key :=
  Sha256.digest (Key.preimage domain material)

namespace Sealed

def nonceLength : Nat := 12

def tagLength : Nat := 16

/-- Locks a payload under a key, with a drawn nonce. -/
def lock (key : Key) (payload : Bytes) : ExceptT Error Draw Bytes := do
  let nonce ← ExceptT.lift (Draw.bytes nonceLength)
  match Gcm.encrypt? key nonce payload with
  | some (body, tag) => return nonce.toList ++ body ++ tag.toList
  | none => throw (.puzzleCreate .payloadTooLong)

def unlock (key : Key) (ciphertext : Bytes) : Except Error Bytes :=
  if h : ciphertext.length < nonceLength + tagLength then
    throw (.puzzleSolve (.ciphertextTooShort ciphertext.length))
  else
    let bodyLength := ciphertext.length - (nonceLength + tagLength)
    let nonce := Bytes.toVector (ciphertext.take nonceLength) (n := nonceLength) (by
      rw [List.length_take]; omega)
    let body := (ciphertext.drop nonceLength).take bodyLength
    let tag := Bytes.toVector (ciphertext.drop (nonceLength + bodyLength)) (n := tagLength) (by
      rw [List.length_drop]; omega)
    match Gcm.decrypt? key nonce body tag with
    | some payload => return payload
    | none => throw (.puzzleSolve .notAuthentic)

end Sealed

end TimelockAuction
