import PowLedger.Document.Basic

/-!
# Writing JSON

A document as indented JSON: two blanks for each level, one item a line, a blank behind the colon of
a field, and nothing between the brackets of an empty list or record.
-/

namespace PowLedger.Json

/-- A hexadecimal digit of a number below sixteen. -/
def hexDigit (n : Nat) : Char :=
  if n < 10 then Char.ofNat (48 + n) else Char.ofNat (87 + n)

/-- A character as it stands between quotes. -/
def escape (c : Char) : List Char :=
  if c = '"' then ['\\', '"']
  else if c = '\\' then ['\\', '\\']
  else if c.toNat = 8 then ['\\', 'b']
  else if c.toNat = 12 then ['\\', 'f']
  else if c = '\n' then ['\\', 'n']
  else if c = '\r' then ['\\', 'r']
  else if c = '\t' then ['\\', 't']
  else if c.toNat < 0x20 then
    ['\\', 'u', '0', '0', hexDigit (c.toNat / 16), hexDigit (c.toNat % 16)]
  else [c]

/-- A text between quotes. -/
def quote (s : String) : List Char :=
  '"' :: s.toList.flatMap escape ++ ['"']

/-- The beginning of a line at a level. -/
def newLine (level : Nat) : List Char :=
  '\n' :: List.replicate (2 * level) ' '

mutual

/-- The indented text of a document at a level. What has no value is written as nothing. -/
def indented (level : Nat) : Document → List Char
  | .null => "null".toList
  | .flag b => (if b then "true" else "false").toList
  | .integer n => (toString n).toList
  | .number => "null".toList
  | .moment => "null".toList
  | .text s => quote (s.getD "")
  | .list [] => ['[', ']']
  | .list (d :: ds) =>
    '[' :: newLine (level + 1) ++ indented (level + 1) d ++ moreItems level ds ++ newLine level
      ++ [']']
  | .record [] => ['\x7b', '\x7d']
  | .record ((name, d) :: fs) =>
    '\x7b' :: newLine (level + 1) ++ quote (name.getD "") ++ [':', ' '] ++ indented (level + 1) d ++
      moreFields level fs ++ newLine level ++ ['\x7d']

/-- The items of a list behind the first one. -/
def moreItems (level : Nat) : List Document → List Char
  | [] => []
  | d :: ds => ',' :: newLine (level + 1) ++ indented (level + 1) d ++ moreItems level ds

/-- The fields of a record behind the first one. -/
def moreFields (level : Nat) : List (Option String × Document) → List Char
  | [] => []
  | (name, d) :: fs =>
    ',' :: newLine (level + 1) ++ quote (name.getD "") ++ [':', ' '] ++ indented (level + 1) d ++
      moreFields level fs

end

/-- The indented text of a document. -/
def render (d : Document) : String :=
  String.ofList (indented 0 d)

end PowLedger.Json
