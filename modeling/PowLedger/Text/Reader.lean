/-!
# Readers of text

A reader takes a value off the front of a list of characters and leaves the rest, or fails. Where
two readings are possible the first one that succeeds is taken.
-/

namespace PowLedger

/-- A reader of one value from the front of a text. -/
abbrev Reader (α : Type) := StateT (List Char) Option α

namespace Reader

/-- The next character, which stays in the text; nothing at its end. -/
def peek : Reader (Option Char) := fun cs => some (cs.head?, cs)

/-- Takes the next character. -/
def next : Reader Char
  | [] => none
  | c :: cs => some (c, cs)

/-- Takes the next character, which must be of the given kind. -/
def satisfying (p : Char → Bool) : Reader Char := do
  let c ← next
  if p c then return c else failure

/-- Takes the next character, which must be the given one. -/
def char (c : Char) : Reader Unit := do
  let _ ← satisfying (· == c)

/-- Takes the given characters. -/
def chars : List Char → Reader Unit
  | [] => return ()
  | c :: cs => do
    char c
    chars cs

/-- Takes the longest run of characters of the given kind. -/
def span (p : Char → Bool) : Reader (List Char) := fun cs => some (cs.takeWhile p, cs.dropWhile p)

/-- Takes the longest run of characters of the given kind, which must not be empty. -/
def span₁ (p : Char → Bool) : Reader (List Char) := do
  match ← span p with
  | [] => failure
  | cs => return cs

/-- Takes the next character if it is the given one, and says whether it was. -/
def accept (c : Char) : Reader Bool := do
  if (← peek) = some c then
    let _ ← next
    return true
  else return false

/-- The value of a reader that takes a whole text. -/
def whole {α : Type} (r : Reader α) (text : List Char) : Option α :=
  match StateT.run r text with
  | some (a, []) => some a
  | _ => none

end Reader

/-- The value of a digit in a base up to sixteen, letters of either case. -/
def digitValue (c : Char) : Nat :=
  if c.toNat < 58 then c.toNat - 48
  else if c.toNat < 97 then c.toNat - 55
  else c.toNat - 87

/-- The number that digits of a base up to sixteen spell. -/
def digitsValue (base : Nat) (ds : List Char) : Nat :=
  ds.foldl (fun n c => base * n + digitValue c) 0

/-- A decimal digit. -/
def isDecimal (c : Char) : Bool :=
  '0' ≤ c && c ≤ '9'

/-- A hexadecimal digit of either case. -/
def isHexadecimal (c : Char) : Bool :=
  isDecimal c || ('a' ≤ c && c ≤ 'f') || ('A' ≤ c && c ≤ 'F')

end PowLedger
