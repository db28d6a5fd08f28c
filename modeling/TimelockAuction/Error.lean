import TimelockAuction.Binary64.Text
import TimelockAuction.Identifier
import TimelockAuction.Text.Quoted

/-!
# Errors

Every operation that can fail says why by one `Error`. Each error has a message, which opens with a
number grouped by subject, and a category, under which excluded orders are reported.
-/

namespace TimelockAuction

inductive ErrorCategory
  | structural
  | domain
  | puzzleSolve
  | decodeAfterSolve
  | unknownVariant
  | round
  | internal
deriving DecidableEq, Repr

def ErrorCategory.text : ErrorCategory → String
  | structural => "STRUCTURAL"
  | domain => "DOMAIN"
  | puzzleSolve => "PUZZLE_SOLVE"
  | decodeAfterSolve => "DECODE_AFTER_SOLVE"
  | unknownVariant => "UNKNOWN_VARIANT"
  | round => "ROUND"
  | internal => "INTERNAL"

/-- What is said of a hash chain whose number of rounds does not fit in 64 bits. -/
def roundsOverflowText (steps roundsPerStep : UInt64) : String :=
  toString steps.toNat ++ " x " ++ toString roundsPerStep.toNat ++ " hash rounds overflows"

/-- Why a puzzle could not be made. -/
inductive CreationFault
  /-- The modulus asked for has fewer than sixteen bits. -/
  | modulusTooSmall (bits : UInt64)
  /-- The chain asked for has `2 ^ 64` rounds or more. -/
  | roundsOverflow (steps roundsPerStep : UInt64)
  /-- The payload is longer than the cipher can encrypt under one nonce. -/
  | payloadTooLong
  /-- A fault that is only known by its wording. -/
  | other (reason : String)
deriving DecidableEq

def CreationFault.reason : CreationFault → String
  | modulusTooSmall bits => "modulus of " ++ toString bits.toNat ++ " bits is too small"
  | roundsOverflow steps roundsPerStep => roundsOverflowText steps roundsPerStep
  | payloadTooLong => "encryption failed: payload too long"
  | other reason => reason

/-- Why a puzzle yields no payload. -/
inductive SolvingFault
  /-- Residues modulo zero or one hide nothing. -/
  | modulusTooSmall
  /-- The chain has `2 ^ 64` rounds or more. -/
  | roundsOverflow (steps roundsPerStep : UInt64)
  /-- The ciphertext has no room for a nonce and a tag. -/
  | ciphertextTooShort (length : Nat)
  /-- The tag is not the one of this key, nonce and body. -/
  | notAuthentic
  | stepsBeyondLimit (steps limit : UInt64)
  | roundsBeyondLimit (roundsPerStep limit : UInt64)
  /-- A fault that is only known by its wording. -/
  | other (reason : String)
deriving DecidableEq

def SolvingFault.reason : SolvingFault → String
  | modulusTooSmall => "RSW modulus must be greater than 1"
  | roundsOverflow steps roundsPerStep => roundsOverflowText steps roundsPerStep
  | ciphertextTooShort length =>
    "ciphertext is " ++ toString length ++ " bytes, need at least 28"
  | notAuthentic => "ciphertext failed authentication"
  | stepsBeyondLimit steps limit =>
    "time parameter " ++ toString steps.toNat ++ " exceeds round limit " ++ toString limit.toNat
  | roundsBeyondLimit roundsPerStep limit =>
    toString roundsPerStep.toNat ++ " hash rounds per step exceeds round limit " ++
      toString limit.toNat
  | other reason => reason

/-- What is wrong with a configuration. -/
inductive ConfigFault
  /-- The text is not a configuration at all. -/
  | unreadable
  | zeroAuctionTime
  | modulusTooSmall (least : UInt64)
  | zeroRoundsPerStep
  /-- A fault that is only known by its wording. -/
  | other (reason : String)
deriving DecidableEq

def ConfigFault.reason : ConfigFault → String
  | unreadable => "the text is not a configuration"
  | zeroAuctionTime => "auction_time must be greater than 0"
  | modulusTooSmall least => "rsw_modulus_bits must be at least " ++ toString least.toNat
  | zeroRoundsPerStep => "hash_chain_rounds_per_step must be greater than 0"
  | other reason => reason

/-- Why an operation failed. -/
inductive Error
  /-- The bytes end before a field does: at least `needed` were wanted and there are `actual`. -/
  | tooShort (needed actual : Nat)
  | trailingBytes (count : Nat)
  /-- A length is beyond what a byte string can have. -/
  | lengthOverflow (length : UInt64)
  | invalidSide (text : String)
  /-- An order that asks for nothing has no price. -/
  | divideByZero
  /-- A price is not a finite number above zero. -/
  | invalidPrice (price : Binary64)
  /-- The amount that a price leads to does not fit in 64 bits. -/
  | amountOutOfRange (price : Binary64)
  | puzzleCreate (fault : CreationFault)
  | puzzleSolve (fault : SolvingFault)
  /-- A puzzle was solved and its payload is not an order. -/
  | decodeAfterSolve (cause : Error)
  | unknownVariant (tag : UInt8)
  | auctionMismatch (expected actual : AuctionId)
  | signatureInvalid
  | allOrdersFailed (count : Nat)
  | internal (text : String)
  | configuration (fault : ConfigFault)
  | serialization (text : String)
deriving DecidableEq

namespace Error

def message : Error → String
  | tooShort needed actual =>
    "SB_ERR_100: Encoding too short: need at least " ++ toString needed ++ " bytes, got " ++
      toString actual
  | trailingBytes count => "SB_ERR_101: " ++ toString count ++ " trailing bytes after decoding"
  | lengthOverflow length => "SB_ERR_102: Length prefix " ++ toString length.toNat ++ " overflows"
  | invalidSide text =>
    "SB_ERR_200: Invalid side " ++ Quoted.encode text ++ ", must be buy or sell"
  | divideByZero => "SB_ERR_201: Amount wanted is 0, no price can be calculated"
  | invalidPrice price =>
    "SB_ERR_202: Invalid price " ++ price.text ++ ", must be greater than 0"
  | amountOutOfRange price =>
    "SB_ERR_203: Amount derived from price " ++ price.text ++ " is out of range"
  | puzzleCreate fault => "SB_ERR_300: Puzzle creation failed: " ++ fault.reason
  | puzzleSolve fault => "SB_ERR_301: Puzzle solve failed: " ++ fault.reason
  | decodeAfterSolve cause =>
    "SB_ERR_400: Solved bytes are not a valid auction order: " ++ cause.message
  | unknownVariant tag => "SB_ERR_500: Unknown puzzle variant tag " ++ toString tag.toNat
  | auctionMismatch expected actual =>
    "SB_ERR_600: Auction mismatch: expected " ++ expected.text ++ ", got " ++ actual.text
  | signatureInvalid => "SB_ERR_601: Order signature verification failed"
  | allOrdersFailed count => "SB_ERR_602: All " ++ toString count ++ " orders in the round failed"
  | internal text => "SB_ERR_900: Internal error: " ++ text
  | configuration fault => "SB_ERR_901: Configuration error: " ++ fault.reason
  | serialization text => "SB_ERR_902: Serialization error: " ++ text

def category : Error → ErrorCategory
  | tooShort .. | trailingBytes _ | lengthOverflow _ => .structural
  | invalidSide _ | divideByZero | invalidPrice _ | amountOutOfRange _ => .domain
  | puzzleCreate _ | puzzleSolve _ => .puzzleSolve
  | decodeAfterSolve _ => .decodeAfterSolve
  | unknownVariant _ => .unknownVariant
  | auctionMismatch .. | signatureInvalid | allOrdersFailed _ => .round
  | internal _ | configuration _ | serialization _ => .internal

/-- Whether two errors say the same. Prices are compared as numbers, so an error about a NaN differs
from itself; faults are compared by their wording. -/
def sameAs : Error → Error → Bool
  | invalidPrice x, invalidPrice y => x.equals y
  | amountOutOfRange x, amountOutOfRange y => x.equals y
  | puzzleCreate f, puzzleCreate g => f.reason == g.reason
  | puzzleSolve f, puzzleSolve g => f.reason == g.reason
  | configuration f, configuration g => f.reason == g.reason
  | decodeAfterSolve x, decodeAfterSolve y => x.sameAs y
  | x, y => decide (x = y)

end Error

end TimelockAuction
