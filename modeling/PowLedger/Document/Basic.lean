/-!
# Data documents

A document is what a text of data says before one knows what it is about: numbers, texts, lists and
records of named fields. A record keeps its fields as written, repeated ones included, so that
whoever reads it can judge them. Of numbers that are no integers and of moments in time the ledger
has no use, so a document only says that one stands there.
-/

namespace PowLedger

/-- Data of any shape. -/
inductive Document where
  | null
  | flag (b : Bool)
  | integer (n : Int)
  /-- A number that is no integer, or none of sixty-four bits. -/
  | number
  /-- A date or a time. -/
  | moment
  /-- A text; it has no value if half a character is written in it. -/
  | text (s : Option String)
  | list (items : List Document)
  /-- Fields under their names, which are texts. -/
  | record (fields : List (Option String × Document))

namespace Document

/-- A document that is a text. -/
def ofString (s : String) : Document :=
  .text (some s)

/-- A document that is a natural number. -/
def ofNat (n : Nat) : Document :=
  .integer n

/-- A document that is a record. -/
def ofFields (fields : List (String × Document)) : Document :=
  .record (fields.map fun (name, d) => (some name, d))

end Document

end PowLedger
