/-!
# Byte strings

Everything this library encodes, hashes or encrypts is a byte string: a list of bytes where the
length varies, a vector where a format fixes it.
-/

namespace TimelockAuction

abbrev Bytes := List UInt8

namespace Bytes

/-- A byte string of known length as a vector. -/
def toVector {n : Nat} (bytes : Bytes) (h : bytes.length = n) : Vector UInt8 n :=
  ⟨bytes.toArray, by simpa using h⟩

/-- A byte string as a vector of a wanted width, if it has that width. -/
def toVector? (n : Nat) (bytes : Bytes) : Option (Vector UInt8 n) :=
  if h : bytes.length = n then some (bytes.toVector h) else none

@[simp] theorem toList_toVector {n : Nat} (bytes : Bytes) (h : bytes.length = n) :
    (bytes.toVector h).toList = bytes := by
  simp [toVector, Vector.toList]

@[simp] theorem toVector_toList {n : Nat} (v : Vector UInt8 n) (h : v.toList.length = n) :
    Bytes.toVector v.toList h = v := by
  apply Vector.toList_inj.mp
  simp

@[simp] theorem toVector?_toList {n : Nat} (v : Vector UInt8 n) :
    Bytes.toVector? n v.toList = some v := by
  simp [toVector?]

end Bytes

end TimelockAuction
