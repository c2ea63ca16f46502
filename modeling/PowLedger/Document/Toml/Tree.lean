import PowLedger.Document.Basic

/-!
# Tables of TOML

While a text of TOML is read, its tables grow. A table is one of three kinds: defined by a header
or by braces, implied by a longer header, or begun by a dotted key. The kind decides who may still
add to it: a dotted key may not reach into a defined table and may not add directly to an implied
one, a header may define only a table that has been implied so far, and no key is given twice.
-/

namespace PowLedger.Toml

/-- How a table came to be. -/
inductive Origin where
  | defined
  | implied
  | dotted
  deriving DecidableEq

/-- What stands under a key. -/
inductive Node where
  | value (d : Document)
  | table (origin : Origin) (entries : List (String × Node))
  /-- The tables of a repeated header, the latest first; each is a list of entries. -/
  | tables (list : List (List (String × Node)))

/-- What stands under the keys of a table. -/
abbrev Entries := List (String × Node)

namespace Entries

/-- What stands under a key. -/
def get? (key : String) (es : Entries) : Option Node :=
  (es.find? fun e => e.1 == key).map Prod.snd

/-- Puts something under a key, in place or at the end. -/
def put (key : String) (n : Node) : Entries → Entries
  | [] => [(key, n)]
  | e :: rest => if e.1 = key then (key, n) :: rest else e :: put key n rest

/-- Changes the table at the end of a path. A header passes through every table; a dotted key passes
only through tables that are not defined. Both pass through the latest of repeated tables. What is
missing on the way comes to be. The kind of the table is known to the change. -/
def descend (byKey : Bool) (change : Origin → Entries → Option Entries) (origin : Origin) :
    (path : List String) → Entries → Option Entries
  | [], es => change origin es
  | key :: path, es =>
    let fresh : Origin := if byKey then .dotted else .implied
    match es.get? key with
    | none =>
      (descend byKey change fresh path []).map fun inner => es.put key (.table fresh inner)
    | some (.value _) => none
    | some (.tables []) => none
    | some (.tables (latest :: older)) =>
      (descend byKey change .defined path latest).map fun latest =>
        es.put key (.tables (latest :: older))
    | some (.table origin inner) =>
      if byKey ∧ origin = .defined then none
      else
        (descend byKey change origin path inner).map fun inner => es.put key (.table origin inner)

/-- Puts a value under a new key. A dotted key must end in a table begun by dotted keys. -/
def add (dotted : Bool) (key : String) (d : Document) (origin : Origin) (es : Entries) :
    Option Entries :=
  if dotted ∧ origin ≠ .dotted then none
  else
    match es.get? key with
    | some _ => none
    | none => some (es.put key (.value d))

/-- Puts a value under a dotted key, seen from a table. -/
def addAt (keys : List String) (d : Document) (es : Entries) : Option Entries :=
  match keys.getLast? with
  | none => none
  | some key => descend true (add (keys.length ≠ 1) key d) .defined keys.dropLast es

/-- Defines the table of a header, which may have been implied before. -/
def define (key : String) (_origin : Origin) (es : Entries) : Option Entries :=
  match es.get? key with
  | none => some (es.put key (.table .defined []))
  | some (.table .implied inner) => some (es.put key (.table .defined inner))
  | some _ => none

/-- Adds one more table of a repeated header. -/
def append (key : String) (_origin : Origin) (es : Entries) : Option Entries :=
  match es.get? key with
  | none => some (es.put key (.tables [[]]))
  | some (.tables list) => some (es.put key (.tables ([] :: list)))
  | some _ => none

/-- Defines or repeats the table at the end of a path. -/
def header (repeated : Bool) (keys : List String) (es : Entries) : Option Entries :=
  match keys.getLast? with
  | none => none
  | some key =>
    descend false (if repeated then append key else define key) .defined keys.dropLast es

end Entries

mutual

/-- The document that stands under a key. -/
def Node.document : Node → Document
  | .value d => d
  | .table _ es => .record (documents es)
  | .tables list => .list (records list).reverse

/-- The fields of a table. -/
def documents : List (String × Node) → List (Option String × Document)
  | [] => []
  | (key, n) :: rest => (some key, n.document) :: documents rest

/-- The documents of repeated tables. -/
def records : List (List (String × Node)) → List Document
  | [] => []
  | es :: rest => .record (documents es) :: records rest

end

end PowLedger.Toml
