import PowLedger.Document.Basic
import PowLedger.Text.Reader

/-!
# Scalars of TOML

Texts in their four forms, integers in four bases, other numbers, and moments in time. Underscores
may stand between digits. An integer must fit into sixty-four bits with a sign, another number must
be finite when written in digits, and a date must exist.
-/

namespace PowLedger.Toml

open Reader

/-- The blanks within a line. -/
def isBlank (c : Char) : Bool :=
  c == ' ' || c == '\t'

/-- A character that may stand in a comment and, quotes and backslashes apart, in a text. -/
def isPlain (c : Char) : Bool :=
  c == '\t' || (0x20 ≤ c.toNat && c.toNat ≠ 0x7f)

/-- Takes an end of line. -/
def lineEnd : Reader Unit := do
  if ← accept '\r' then char '\n' else char '\n'

/-! ### Texts -/

/-- What a short escape stands for. -/
def shortEscape : Char → Option Char
  | '"' => some '"'
  | '\\' => some '\\'
  | 'b' => some (Char.ofNat 8)
  | 'f' => some (Char.ofNat 12)
  | 'n' => some '\n'
  | 'r' => some '\r'
  | 't' => some '\t'
  | _ => none

/-- The character of a number in hexadecimal digits. -/
def numbered (ds : List Char) : Option Char :=
  if ds.all isHexadecimal then
    let n := digitsValue 16 ds
    if n.isValidChar then some (Char.ofNat n) else none
  else none

/-- The character of an escape behind its backslash, and what follows. -/
def escaped : List Char → Option (Char × List Char)
  | 'u' :: a :: b :: c :: d :: rest => (numbered [a, b, c, d]).map (·, rest)
  | 'U' :: a :: b :: c :: d :: e :: f :: g :: h :: rest =>
    (numbered [a, b, c, d, e, f, g, h]).map (·, rest)
  | e :: rest => (shortEscape e).map (·, rest)
  | [] => none

/-- The characters of a text of one line up to its closing quote, and what follows. Escapes are
known between double quotes only. -/
def lineText (quote : Char) : (length : Nat) → List Char → Option (List Char × List Char)
  | 0, _ => none
  | _ + 1, [] => none
  | length + 1, c :: rest =>
    if c = quote then some ([], rest)
    else if c = '\\' ∧ quote = '"' then
      match escaped rest with
      | none => none
      | some (e, rest) => (lineText quote length rest).map fun (cs, rest) => (e :: cs, rest)
    else if isPlain c then
      (lineText quote length rest).map fun (cs, rest) => (c :: cs, rest)
    else none

/-- What follows an end of line behind a backslash: the next character that is no blank and no end
of line. There is nothing if more than blanks stands before the end of line. -/
def skipLines (rest : List Char) : Option (List Char) :=
  let isEnd (cs : List Char) : Bool :=
    match cs with
    | '\n' :: _ => true
    | '\r' :: '\n' :: _ => true
    | _ => false
  if isEnd (rest.dropWhile isBlank) then go rest else none
where
  /-- Drops blanks and ends of line. -/
  go : List Char → Option (List Char)
    | '\r' :: '\n' :: rest => go rest
    | '\n' :: rest => go rest
    | c :: rest => if isBlank c then go rest else some (c :: rest)
    | [] => some []

/-- The characters of a text of several lines up to its three closing quotes, in front of which two
more may stand at most, and what follows. -/
def blockText (quote : Char) : (length : Nat) → List Char → Option (List Char × List Char)
  | 0, _ => none
  | _ + 1, [] => none
  | length + 1, c :: rest =>
    let go (e : Char) (rest : List Char) :=
      (blockText quote length rest).map fun (cs, rest) => (e :: cs, rest)
    if c = quote then
      let quotes := (c :: rest).takeWhile (· == quote)
      if 6 ≤ quotes.length then none
      else if 3 ≤ quotes.length then some (quotes.drop 3, (c :: rest).drop quotes.length)
      else go c rest
    else if c = '\\' ∧ quote = '"' then
      match skipLines rest with
      | some rest => blockText quote length rest
      | none =>
        match escaped rest with
        | none => none
        | some (e, rest) => go e rest
    else if c = '\n' then go '\n' rest
    else if c = '\r' then
      match rest with
      | '\n' :: rest => go '\n' rest
      | _ => none
    else if isPlain c then go c rest
    else none

/-- What follows an end of line at the beginning of a text of several lines. -/
def withoutFirstLineEnd : List Char → List Char
  | '\n' :: rest => rest
  | '\r' :: '\n' :: rest => rest
  | cs => cs

/-- Takes a text of one line. -/
def quotedLine : Reader String := fun cs =>
  match cs with
  | c :: rest =>
    if c = '"' ∨ c = '\'' then
      (lineText c cs.length rest).map fun (s, rest) => (String.ofList s, rest)
    else none
  | [] => none

/-- Takes a text of several lines. -/
def quotedBlock : Reader String := fun cs =>
  match cs with
  | a :: b :: c :: rest =>
    if (a = '"' ∨ a = '\'') ∧ b = a ∧ c = a then
      (blockText a cs.length (withoutFirstLineEnd rest)).map fun (s, rest) =>
        (String.ofList s, rest)
    else none
  | _ => none

/-! ### Numbers -/

/-- The digits of a run in which single underscores may stand between digits. -/
def separated (p : Char → Bool) : List Char → Option (List Char)
  | [] => none
  | [c] => if p c then some [c] else none
  | c :: '_' :: d :: rest =>
    if p c && p d then (separated p (d :: rest)).map (c :: ·) else none
  | c :: rest => if p c then (separated p rest).map (c :: ·) else none

/-- Takes digits with underscores between them. -/
def digits (p : Char → Bool) : Reader (List Char) := do
  let cs ← span fun c => p c || c == '_'
  match separated p cs with
  | some ds => return ds
  | none => failure

/-- The document of an integer, if it fits. -/
def integer (n : Int) : Reader Document :=
  if Int64.minValue.toInt ≤ n ∧ n ≤ Int64.maxValue.toInt then return .integer n else failure

/-- Takes an integer behind the mark of its base. -/
def basedInteger : Reader Document := do
  char '0'
  let based (base : Nat) (p : Char → Bool) : Reader Document := do
    let ds ← digits p
    integer (digitsValue base ds)
  match ← next with
  | 'x' => based 16 isHexadecimal
  | 'o' => based 8 fun c => '0' ≤ c && c ≤ '7'
  | 'b' => based 2 fun c => c == '0' || c == '1'
  | _ => failure

/-- Takes a sign, and says whether it is a minus. -/
def sign : Reader Bool := do
  if ← accept '-' then return true
  else
    let _ ← accept '+'
    return false

/-- Takes the digits of a whole number: a single zero, or digits that do not begin with one. -/
def wholeDigits : Reader (List Char) := do
  if ← accept '0' then return ['0'] else digits isDecimal

/-- Takes an integer in decimal digits. -/
def decimalInteger : Reader Document := do
  let negative ← sign
  let n := digitsValue 10 (← wholeDigits)
  integer (if negative then -(n : Int) else n)

/-- Whether `m * 10 ^ e` is rounded to a number of double precision, and not to infinity. -/
def isFinite (m : Nat) (e : Int) : Bool :=
  let bound := (1 <<< 1024) - (1 <<< 970)
  let size := (Nat.toDigits 10 m).length + e
  if m = 0 ∨ size < 300 then true
  else if 320 < size then false
  else if 0 ≤ e then m * Nat.pow 10 e.toNat < bound
  else m < bound * Nat.pow 10 (-e).toNat

/-- Takes the fraction of a number. -/
def fraction : Reader (List Char) := do
  char '.'
  digits isDecimal

/-- Takes the exponent of a number. -/
def exponent : Reader Int := do
  let c ← next
  if c = 'e' ∨ c = 'E' then
    let negative ← sign
    let n := digitsValue 10 (← digits isDecimal)
    return if negative then -(n : Int) else n
  else failure

/-- Takes a number with a fraction or an exponent. -/
def realNumber : Reader Document := do
  let negative ← sign
  let whole ← wholeDigits
  let (part, e) ←
    (do return ([], ← exponent)) <|>
    (do
      let part ← fraction
      let e ← exponent <|> pure 0
      return (part, e))
  let finite := isFinite (digitsValue 10 (whole ++ part)) (e - part.length)
  if finite || negative then return .number else failure

/-- Takes a number that is infinite or none. -/
def strangeNumber : Reader Document := do
  let _ ← sign
  chars "inf".toList <|> chars "nan".toList
  return .number

/-! ### Moments -/

/-- Takes a number of exactly `count` decimal digits within bounds. -/
def field (count least most : Nat) : Reader Nat := do
  let rec go : Nat → Reader (List Char)
    | 0 => return []
    | n + 1 => do
      let c ← satisfying isDecimal
      return c :: (← go n)
  let n := digitsValue 10 (← go count)
  if least ≤ n ∧ n ≤ most then return n else failure

/-- The number of days of a month. -/
def daysOf (year month : Nat) : Nat :=
  if month = 2 then
    if year % 4 = 0 ∧ (year % 100 ≠ 0 ∨ year % 400 = 0) then 29 else 28
  else if month = 4 ∨ month = 6 ∨ month = 9 ∨ month = 11 then 30
  else 31

/-- Takes a date. -/
def date : Reader Unit := do
  let year ← field 4 0 9999
  char '-'
  let month ← field 2 1 12
  char '-'
  let _ ← field 2 1 (daysOf year month)

/-- Takes a time of day. -/
def time : Reader Unit := do
  let _ ← field 2 0 23
  char ':'
  let _ ← field 2 0 59
  char ':'
  let _ ← field 2 0 60
  if ← accept '.' then
    let _ ← span₁ isDecimal

/-- Takes the distance from world time. -/
def zone : Reader Unit := do
  match ← next with
  | 'Z' | 'z' => return ()
  | '+' | '-' =>
    let _ ← field 2 0 23
    char ':'
    let _ ← field 2 0 59
  | _ => failure

/-- Takes a time of day behind a date. -/
def timeBehind : Reader Unit := do
  match ← next with
  | 'T' | 't' | ' ' =>
    time
    let _ ← optional zone
  | _ => failure

/-- Takes a date, a time of day, or both. -/
def moment : Reader Document := do
  (do
    date
    let _ ← optional timeBehind) <|> time
  return .moment

/-- Takes a scalar. -/
def scalar : Reader Document :=
  (return .ofString (← quotedBlock)) <|>
  (return .ofString (← quotedLine)) <|>
  (do
    chars "true".toList
    return .flag true) <|>
  (do
    chars "false".toList
    return .flag false) <|>
  moment <|> realNumber <|> strangeNumber <|> basedInteger <|> decimalInteger

end PowLedger.Toml
