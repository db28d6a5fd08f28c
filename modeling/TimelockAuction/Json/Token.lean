import TimelockAuction.Bytes.Hex
import TimelockAuction.Json.Basic

/-!
# JSON tokens

A text is cut into brackets, separators and scalars. Between them stand blanks: space, tab, line feed
and carriage return. A run of other characters outside quotes is a word, and a word has to be `null`,
`true`, `false` or a number.

The cutter moves through the text one character at a time. Its `Mode` says what it is in the middle of.
-/

namespace TimelockAuction.Json

inductive Token
  | openArray
  | closeArray
  | openObject
  | closeObject
  | comma
  | colon
  | scalar (s : Scalar)
deriving DecidableEq, Repr

/-! ## Numbers -/

namespace Number

/-- Cuts an exponent, mark included, off the end of a number. -/
def cutExponent? : List Char → Option (Option Exponent)
  | [] => some none
  | mark :: rest =>
    if mark = 'e' ∨ mark = 'E' then
      let (negative, digits) := match rest with
        | '-' :: digits => (true, digits)
        | '+' :: digits => (false, digits)
        | digits => (false, digits)
      if digits ≠ [] ∧ digits.all Char.isDigit then some (some ⟨negative, digits⟩) else none
    else none

/-- Cuts the point and the digits behind it off the front. A point has digits behind it. -/
def cutFraction? : List Char → Option (List Char × List Char)
  | '.' :: rest =>
    let (digits, rest) := rest.span Char.isDigit
    if digits = [] then none else some (digits, rest)
  | rest => some ([], rest)

/-- The number a word spells. The whole part has digits, and no zero before others. -/
def ofChars? (word : List Char) : Option Number := do
  let (negative, unsigned) := match word with
    | '-' :: rest => (true, rest)
    | rest => (false, rest)
  let (whole, rest) := unsigned.span Char.isDigit
  if whole = [] ∨ (whole.head? = some '0' ∧ whole.length ≠ 1) then none
  else
    let (fraction, rest) ← cutFraction? rest
    let exponent ← cutExponent? rest
    return ⟨negative, whole, fraction, exponent⟩

/-- The spelling of a number, with the sign of its exponent always written. -/
def chars (n : Number) : List Char :=
  (if n.negative then ['-'] else []) ++ n.whole ++
    (if n.fraction = [] then [] else '.' :: n.fraction) ++
    match n.exponent with
    | none => []
    | some e => 'e' :: (if e.negative then '-' else '+') :: e.digits

end Number

/-! ## Cutting -/

def Scalar.ofWord? (word : List Char) : Option Scalar :=
  if word = ['n', 'u', 'l', 'l'] then some .null
  else if word = ['t', 'r', 'u', 'e'] then some (.bool true)
  else if word = ['f', 'a', 'l', 's', 'e'] then some (.bool false)
  else (Number.ofChars? word).map .number

def isBlank (c : Char) : Bool :=
  c == ' ' || c == '\t' || c == '\n' || c == '\r'

/-- What the cutter is in the middle of. What has been seen of a token is kept last first. -/
inductive Mode
  /-- Between tokens. -/
  | between
  /-- In a word. -/
  | word (seen : List Char)
  /-- Inside quotes. -/
  | text (seen : Text)
  /-- Behind a backslash. -/
  | escape (seen : Text)
  /-- In the hexadecimal code of a unit: how many digits are still to come, and the value so far. -/
  | code (seen : Text) (left value : Nat)
deriving DecidableEq, Repr

/-- The token or the mode that a character opens between tokens. -/
def Mode.open (c : Char) : List Token × Mode :=
  if isBlank c then ([], .between)
  else if c = '[' then ([.openArray], .between)
  else if c = ']' then ([.closeArray], .between)
  else if c = '\x7b' then ([.openObject], .between)
  else if c = '\x7d' then ([.closeObject], .between)
  else if c = ',' then ([.comma], .between)
  else if c = ':' then ([.colon], .between)
  else if c = '"' then ([], .text [])
  else ([], .word [c])

/-- The unit that a character behind a backslash stands for. -/
def escaped? (c : Char) : Option Char :=
  if c = '"' ∨ c = '\\' ∨ c = '/' then some c
  else if c = 'b' then some '\x08'
  else if c = 'f' then some '\x0c'
  else if c = 'n' then some '\n'
  else if c = 'r' then some '\r'
  else if c = 't' then some '\t'
  else none

/-- The unit with a given code of sixteen bits. -/
def TextUnit.ofCode (code : Nat) : TextUnit :=
  if 0xd800 ≤ code ∧ code ≤ 0xdfff then .surrogate code else .char (Char.ofNat code)

/-- Reads one character: the tokens it completes and the mode behind it. -/
def Mode.step (mode : Mode) (c : Char) : Option (List Token × Mode) :=
  match mode with
  | between => some (Mode.open c)
  | word seen =>
    let (tokens, next) := Mode.open c
    match next with
    | .word _ => some ([], .word (c :: seen))
    | _ => (Scalar.ofWord? seen.reverse).map fun s => (.scalar s :: tokens, next)
  | text seen =>
    if c = '"' then some ([.scalar (.text seen.reverse)], .between)
    else if c = '\\' then some ([], .escape seen)
    else if c.toNat < 0x20 then none
    else some ([], .text (.char c :: seen))
  | escape seen =>
    if c = 'u' then some ([], .code seen 4 0)
    else (escaped? c).map fun e => ([], .text (.char e :: seen))
  | code seen left value =>
    (Hex.digitValue? c).map fun digit =>
      let value := 16 * value + digit
      ([], if left ≤ 1 then .text (.ofCode value :: seen) else .code seen (left - 1) value)

/-- The tokens that the end of the text completes. -/
def Mode.finish : Mode → Option (List Token)
  | between => some []
  | word seen => (Scalar.ofWord? seen.reverse).map fun s => [.scalar s]
  | _ => none

def cut (mode : Mode) : List Char → Option (List Token)
  | [] => mode.finish
  | c :: rest => do
    let (tokens, next) ← mode.step c
    let later ← cut next rest
    return tokens ++ later

/-! ## Spelling -/

def charSpelling (c : Char) : List Char :=
  if c = '"' then ['\\', '"']
  else if c = '\\' then ['\\', '\\']
  else if c = '\x08' then ['\\', 'b']
  else if c = '\x0c' then ['\\', 'f']
  else if c = '\n' then ['\\', 'n']
  else if c = '\r' then ['\\', 'r']
  else if c = '\t' then ['\\', 't']
  else if c.toNat < 0x20 then
    ['\\', 'u', '0', '0', Nat.digitChar (c.toNat / 16), Nat.digitChar (c.toNat % 16)]
  else [c]

def TextUnit.spelling : TextUnit → List Char
  | char c => charSpelling c
  | surrogate code =>
    ['\\', 'u', Nat.digitChar (code / 4096), Nat.digitChar (code / 256 % 16),
      Nat.digitChar (code / 16 % 16), Nat.digitChar (code % 16)]

def Scalar.spelling : Scalar → List Char
  | null => ['n', 'u', 'l', 'l']
  | bool true => ['t', 'r', 'u', 'e']
  | bool false => ['f', 'a', 'l', 's', 'e']
  | number n => n.chars
  | text t => '"' :: t.flatMap TextUnit.spelling ++ ['"']

def Token.spelling : Token → List Char
  | openArray => ['[']
  | closeArray => [']']
  | openObject => ['\x7b']
  | closeObject => ['\x7d']
  | comma => [',']
  | colon => [':']
  | scalar s => s.spelling

end TimelockAuction.Json
