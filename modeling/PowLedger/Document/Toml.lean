import PowLedger.Document.Toml.Scalar
import PowLedger.Document.Toml.Tree

/-!
# TOML

Reading a text as TOML: lines of keys with values, and headers of tables. Lists and tables in braces
may be nested less than eighty deep, and a key may have less than eighty parts.
-/

namespace PowLedger.Toml

open Reader

/-- Takes blanks within a line. -/
def blanks : Reader Unit := do
  let _ ← span isBlank

/-! ### Keys -/

/-- A character that may stand in a key without quotes. -/
def isKeyChar (c : Char) : Bool :=
  isDecimal c || ('a' ≤ c && c ≤ 'z') || ('A' ≤ c && c ≤ 'Z') || c == '_' || c == '-'

/-- Takes one part of a key. -/
def keyPart : Reader String := do
  blanks
  let part ← quotedLine <|> (String.ofList <$> span₁ isKeyChar)
  blanks
  return part

/-- The number of parts of a key, and of lists and tables within each other, from which on a text is
refused. -/
def depthLimit : Nat := 80

/-- Takes a key of at most `parts` parts. -/
def keyParts : (parts : Nat) → Reader (List String)
  | 0 => failure
  | parts + 1 => do
    let part ← keyPart
    if ← accept '.' then return part :: (← keyParts parts) else return [part]

/-- Takes a key. -/
def key : Reader (List String) :=
  keyParts (depthLimit - 1)

/-! ### Values -/

/-- Takes a comment, without the end of its line. -/
def comment : Reader Unit := do
  char '#'
  let _ ← span isPlain

/-- Takes blanks, ends of line and comments, at most `count` of them. -/
def gap : (count : Nat) → Reader Unit
  | 0 => return ()
  | count + 1 => do
    match ← peek with
    | some ' ' | some '\t' =>
      blanks
      gap count
    | some '\n' | some '\r' =>
      lineEnd
      gap count
    | some '#' =>
      comment
      lineEnd
      gap count
    | _ => return ()

/-- The characters that are left. -/
def left : Reader Nat := fun cs => some (cs.length, cs)

/-- The table in braces with the given entries. -/
def inlineTable (pairs : List (List String × Document)) : Option Document :=
  (pairs.foldlM (fun es p => Entries.addAt p.1 p.2 es) ([] : Entries)).map fun es =>
    .record (documents es)

mutual

/-- Takes a value in lists and tables of which `depth` may still be begun within each other; it
begins at most `length` values and items. -/
def value : (length depth : Nat) → Reader Document
  | 0, _ => failure
  | length + 1, depth => do
    match ← peek with
    | some '[' => do
      if depth = 0 then failure
      char '['
      gap (← left)
      if ← accept ']' then return .list []
      else return .list (← items length (depth - 1))
    | some '\x7b' => do
      if depth = 0 then failure
      char '\x7b'
      blanks
      let pairs ← if ← accept '\x7d' then pure [] else entries length (depth - 1)
      match inlineTable pairs with
      | some d => return d
      | none => failure
    | _ => scalar

/-- Takes the items of a list up to its end; a comma may stand behind the last one. -/
def items : (length depth : Nat) → Reader (List Document)
  | 0, _ => failure
  | length + 1, depth => do
    let item ← value length depth
    gap (← left)
    if ← accept ',' then
      gap (← left)
      if ← accept ']' then return [item] else return item :: (← items length depth)
    else
      char ']'
      return [item]

/-- Takes the entries of a table in braces up to its end. -/
def entries : (length depth : Nat) → Reader (List (List String × Document))
  | 0, _ => failure
  | length + 1, depth => do
    let k ← key
    char '='
    blanks
    let d ← value length depth
    blanks
    if ← accept ',' then return (k, d) :: (← entries length depth)
    else
      char '\x7d'
      return [(k, d)]

end

/-! ### Lines -/

/-- What a line says. -/
inductive Line where
  | blank
  | entry (key : List String) (d : Document)
  | header (repeated : Bool) (key : List String)

/-- Takes what a line says. -/
def line : Reader Line := do
  blanks
  match ← peek with
  | none | some '\n' | some '\r' | some '#' => return .blank
  | some '[' => do
    char '['
    let repeated ← accept '['
    let k ← key
    char ']'
    if repeated then char ']'
    return .header repeated k
  | _ => do
    let k ← key
    char '='
    blanks
    return .entry k (← value (2 * (← left) + 2) (depthLimit - 1))

/-- Takes the rest of a line: a comment perhaps, and the end of the line or of the text. -/
def lineRest : Reader Unit := do
  blanks
  if (← peek) = some '#' then comment
  if (← peek) = none then return () else lineEnd

/-- The lines of a text, at most `count` of them. -/
def lines : (count : Nat) → Reader (List Line)
  | 0 => return []
  | count + 1 => do
    if (← peek) = none then return []
    let l ← line
    lineRest
    return l :: (← lines count)

/-- The tables of a text as far as it has been read, and the path of the latest header. -/
structure Progress where
  root : Entries
  path : List String

/-- Puts an entry into the table of the latest header. -/
def Progress.add (p : Progress) (k : List String) (d : Document) : Option Progress :=
  (Entries.descend false (fun _ => Entries.addAt k d) .defined p.path p.root).map fun root =>
    { p with root := root }

/-- The effect of a line. -/
def Progress.read (p : Progress) : Line → Option Progress
  | .blank => some p
  | .entry k d => p.add k d
  | .header repeated k => (p.root.header repeated k).map fun root => ⟨root, k⟩

/-- The document that a text is; a byte order mark may stand in front. -/
def read (text : String) : Option Document :=
  let cs := if text.toList.head? = some '\ufeff' then text.toList.drop 1 else text.toList
  match (lines (cs.length + 1)).whole cs with
  | none => none
  | some ls => (ls.foldlM Progress.read ⟨[], []⟩).map fun p => .record (documents p.root)

end PowLedger.Toml
