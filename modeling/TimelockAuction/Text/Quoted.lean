import TimelockAuction.Text.Printable

/-!
# Quoted text

Text that comes from outside is quoted in messages, so that it shows where it starts and ends and what
it holds. A double quote, a backslash and four controls are written with a backslash; every other
character that is not printable is written as its code point.
-/

namespace TimelockAuction.Quoted

def encodeChar (c : Char) : List Char :=
  if c = '"' then ['\\', '"']
  else if c = '\\' then ['\\', '\\']
  else if c = '\n' then ['\\', 'n']
  else if c = '\r' then ['\\', 'r']
  else if c = '\t' then ['\\', 't']
  else if c = '\x00' then ['\\', '0']
  else if Printable.isPrintable c then [c]
  else ['\\', 'u', '\x7b'] ++ Nat.toDigits 16 c.toNat ++ ['\x7d']

def encode (text : String) : String :=
  String.ofList ('"' :: text.toList.flatMap encodeChar ++ ['"'])

end TimelockAuction.Quoted
