import PowLedger.Text.Unprintable

/-!
# Quoted texts

A text inside a message stands between double quotes, and a single character between single ones.
The quote in use, the backslash and the usual control characters have short escapes; any other
character without a shape of its own is written as its code point in lower-case hexadecimal between
braces. The quote that is not in use is left as it is.
-/

namespace PowLedger

namespace Quoted

/-- The escape of a character by its code point. -/
def codePoint (c : Char) : List Char :=
  ['\\', 'u', Char.ofNat 0x7b] ++ Nat.toDigits 16 c.toNat ++ [Char.ofNat 0x7d]

/-- A character as it stands between two of the given quotes. -/
def escape (quote c : Char) : List Char :=
  if c = quote then ['\\', quote]
  else if c = '\\' then ['\\', '\\']
  else if c = '\n' then ['\\', 'n']
  else if c = '\r' then ['\\', 'r']
  else if c = '\t' then ['\\', 't']
  else if c.toNat = 0 then ['\\', '0']
  else if c.toNat < 0x20 || c.toNat = 0x7f then codePoint c
  else if c.toNat < 0x80 then [c]
  else if isUnprintable c.toNat then codePoint c
  else [c]

end Quoted

/-- The quoted form of a text. -/
def quoted (s : String) : String :=
  String.ofList ('"' :: s.toList.flatMap (Quoted.escape '"') ++ ['"'])

/-- The quoted form of a character. -/
def quotedChar (c : Char) : String :=
  String.ofList ('\'' :: Quoted.escape '\'' c ++ ['\''])

end PowLedger
