import PowLedger.Document.Basic
import PowLedger.Text.Reader

/-!
# JSON

Reading a text as JSON. Only blanks may follow the value. A number without fraction and exponent is
an integer if it fits into sixty-four bits, with a sign or without; a zero with a minus sign is not.
-/

namespace PowLedger.Json

open Reader

/-- The characters that may stand between the parts of a text. -/
def isBlank (c : Char) : Bool :=
  c == ' ' || c == '\n' || c == '\t' || c == '\r'

/-- Takes blanks. -/
def blanks : Reader Unit := do
  let _ ← span isBlank

/-! ### Texts -/

/-- A piece of a text: a character, or half of one or a whole one by its number. -/
inductive Piece where
  | char (c : Char)
  | unit (n : Nat)

/-- What a short escape stands for. -/
def shortEscape : Char → Option Char
  | '"' => some '"'
  | '\\' => some '\\'
  | '/' => some '/'
  | 'b' => some (Char.ofNat 8)
  | 'f' => some (Char.ofNat 12)
  | 'n' => some '\n'
  | 'r' => some '\r'
  | 't' => some '\t'
  | _ => none

/-- The pieces of a text up to its closing quote, and what follows. -/
def pieces : List Char → Option (List Piece × List Char)
  | [] => none
  | '"' :: rest => some ([], rest)
  | '\\' :: 'u' :: a :: b :: c :: d :: rest =>
    if [a, b, c, d].all isHexadecimal then
      match pieces rest with
      | some (ps, rest) => some (.unit (digitsValue 16 [a, b, c, d]) :: ps, rest)
      | none => none
    else none
  | '\\' :: e :: rest =>
    match shortEscape e, pieces rest with
    | some c, some (ps, rest) => some (.char c :: ps, rest)
    | _, _ => none
  | c :: rest =>
    if c.toNat < 0x20 then none
    else
      match pieces rest with
      | some (ps, rest) => some (.char c :: ps, rest)
      | none => none

/-- Whether a number is the first half of a character. -/
def isFirstHalf (n : Nat) : Bool :=
  0xD800 ≤ n && n < 0xDC00

/-- Whether a number is the second half of a character. -/
def isSecondHalf (n : Nat) : Bool :=
  0xDC00 ≤ n && n < 0xE000

/-- The characters that pieces make up; there are none if a half is left alone. -/
def join : List Piece → Option (List Char)
  | [] => some []
  | .char c :: rest => (join rest).map (c :: ·)
  | .unit h :: .unit l :: rest =>
    if isFirstHalf h && isSecondHalf l then
      (join rest).map (Char.ofNat (0x10000 + (h - 0xD800) * 0x400 + (l - 0xDC00)) :: ·)
    else if isFirstHalf h || isSecondHalf h then none
    else (join (.unit l :: rest)).map (Char.ofNat h :: ·)
  | .unit n :: rest =>
    if isFirstHalf n || isSecondHalf n then none else (join rest).map (Char.ofNat n :: ·)

/-- Takes a text whose opening quote has been taken. -/
def textBody : Reader (Option String) := fun cs =>
  (pieces cs).map fun (ps, rest) => ((join ps).map String.ofList, rest)

/-! ### Numbers -/

/-- Takes the digits in front of the point: a single zero, or digits that do not begin with one. -/
def wholeDigits : Reader (List Char) := do
  if ← accept '0' then return ['0'] else span₁ isDecimal

/-- Takes the fraction of a number, and says whether there is one. -/
def fraction : Reader Bool := do
  if ← accept '.' then
    let _ ← span₁ isDecimal
    return true
  else return false

/-- Takes the exponent of a number, and says whether there is one. -/
def exponent : Reader Bool := do
  match ← peek with
  | some 'e' | some 'E' =>
    let _ ← next
    if !(← accept '+') then
      let _ ← accept '-'
    let _ ← span₁ isDecimal
    return true
  | _ => return false

/-- The document of an integer in digits. -/
def integer (negative : Bool) (digits : List Char) : Document :=
  let n := digitsValue 10 digits
  if negative then
    if 0 < n ∧ Int64.minValue.toInt ≤ -(n : Int) then .integer (-n) else .number
  else if n < UInt64.size then .integer n else .number

/-- Takes a number. -/
def number : Reader Document := do
  let negative ← accept '-'
  let digits ← wholeDigits
  let hasFraction ← fraction
  let hasExponent ← exponent
  return if hasFraction || hasExponent then .number else integer negative digits

/-! ### Values -/

mutual

/-- Takes a value in which fewer than `depth` values and items are begun within each other. -/
def value : (depth : Nat) → Reader Document
  | 0 => failure
  | depth + 1 => do
    blanks
    match ← peek with
    | some '"' => do
      char '"'
      return .text (← textBody)
    | some '[' => do
      char '['
      blanks
      if ← accept ']' then return .list [] else return .list (← items depth)
    | some '\x7b' => do
      char '\x7b'
      blanks
      if ← accept '\x7d' then return .record [] else return .record (← members depth)
    | some 't' => do
      chars "true".toList
      return .flag true
    | some 'f' => do
      chars "false".toList
      return .flag false
    | some 'n' => do
      chars "null".toList
      return .null
    | _ => number

/-- Takes the items of a list up to its end. -/
def items : (depth : Nat) → Reader (List Document)
  | 0 => failure
  | depth + 1 => do
    let item ← value depth
    blanks
    if ← accept ',' then return item :: (← items depth)
    else
      char ']'
      return [item]

/-- Takes the members of a record up to its end. -/
def members : (depth : Nat) → Reader (List (Option String × Document))
  | 0 => failure
  | depth + 1 => do
    blanks
    char '"'
    let name ← textBody
    blanks
    char ':'
    let d ← value depth
    blanks
    if ← accept ',' then return (name, d) :: (← members depth)
    else
      char '\x7d'
      return [(name, d)]

end

/-- The document that a text is. Every value and every item begins with a character of its own, so
twice the length of the text is deep enough. -/
def read (text : String) : Option Document :=
  let cs := text.toList
  (do
    let d ← value (2 * cs.length + 2)
    blanks
    return d : Reader Document).whole cs

end PowLedger.Json
