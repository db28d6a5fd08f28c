import TimelockAuction.Crypto.Aes
import TimelockAuction.Bytes.Endian

/-!
# Galois counter mode

Authenticated encryption with AES-256, a nonce of twelve bytes and no associated data. The cipher runs
over a counter to give a key stream, which is added to the payload; a polynomial over the field of
`2 ^ 128` elements, evaluated at a secret point, gives the tag.
-/

namespace TimelockAuction.Gcm

abbrev Key := Vector UInt8 32

abbrev Nonce := Vector UInt8 12

abbrev Tag := Vector UInt8 16

/-- The longest payload, in bytes: the counter has 32 bits. -/
def maxPayload : Nat := 1 <<< 36

/-! ## Key stream -/

/-- The block that is encrypted for counter value `n`. -/
def counterBlock (nonce : Nonce) (n : Nat) : Aes.Block :=
  nonce ++ BigEndian.encodeFixed 4 n

/-- `count` blocks of key stream, from counter value `n` on. -/
def keyStream (keys : List Aes.Block) (nonce : Nonce) (n : Nat) : (count : Nat) → Bytes
  | 0 => []
  | count + 1 =>
    (Aes.encryptBlock keys (counterBlock nonce n)).toList ++ keyStream keys nonce (n + 1) count

/-- Adds the key stream to a payload. Counter value one is kept for the tag. -/
def addKeyStream (keys : List Aes.Block) (nonce : Nonce) (bytes : Bytes) : Bytes :=
  bytes.zipWith (· ^^^ ·) (keyStream keys nonce 2 ((bytes.length + 15) / 16))

/-! ## Tag -/

/-- An element of the field; the coefficient of `x ^ i` is the `i`-th bit from the left. -/
abbrev Element := BitVec 128

/-- The element whose bytes, from the left, are given. -/
def elementOfBytes (bytes : Bytes) : Element :=
  BitVec.ofNat 128 (BigEndian.toNat bytes)

def timesX (a : Element) : Element :=
  if a.getLsbD 0 then (a >>> 1) ^^^ (0xe1#128 <<< 120) else a >>> 1

/-- Adds to `sum` the product of `b` and the polynomial of the `n` leftmost bits of `a`. -/
def multiplyBits : (n : Nat) → (a b sum : Element) → Element
  | 0, _, _, sum => sum
  | n + 1, a, b, sum => multiplyBits n (a <<< 1) (timesX b) (if a.msb then sum ^^^ b else sum)

def multiply (a b : Element) : Element :=
  multiplyBits 128 a b 0

/-- Evaluates the polynomial whose coefficients are the next `n` blocks of a byte string. The last
block is filled up with zeros. -/
def hashBlocks (point : Element) : (n : Nat) → Bytes → Element → Element
  | 0, _, sum => sum
  | n + 1, bytes, sum =>
    let block := bytes.take 16
    let filled := block ++ List.replicate (16 - block.length) 0
    hashBlocks point n (bytes.drop 16) (multiply (sum ^^^ elementOfBytes filled) point)

def tag (keys : List Aes.Block) (nonce : Nonce) (body : Bytes) : Tag :=
  let point := elementOfBytes (Aes.encryptBlock keys (Vector.replicate 16 0)).toList
  let sum := hashBlocks point ((body.length + 15) / 16) body 0
  let hash := multiply (sum ^^^ BitVec.ofNat 128 (8 * body.length)) point
  let mask := Aes.encryptBlock keys (counterBlock nonce 1)
  Aes.addBlocks (BigEndian.encodeFixed 16 hash.toNat) mask

/-! ## Encryption -/

/-- The body and the tag of a payload, unless it is too long. -/
def encrypt? (key : Key) (nonce : Nonce) (payload : Bytes) : Option (Bytes × Tag) :=
  if payload.length ≤ maxPayload then
    let keys := Aes.roundKeys key
    let body := addKeyStream keys nonce payload
    some (body, tag keys nonce body)
  else none

/-- The payload of a body, if its tag is right. -/
def decrypt? (key : Key) (nonce : Nonce) (body : Bytes) (expected : Tag) : Option Bytes :=
  if body.length ≤ maxPayload + 16 then
    let keys := Aes.roundKeys key
    if tag keys nonce body = expected then some (addKeyStream keys nonce body) else none
  else none

end TimelockAuction.Gcm
