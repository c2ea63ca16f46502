import PowLedger.Document.Basic
import PowLedger.Bytes

/-!
# Forms

A form says what a document must look like to be a value of a certain type. Integers must be in the
range of their type; nothing else stands for an integer. A record gives its fields in any order and
may have fields of other names; a field must not be repeated. A list may stand for a record: its
items are then the fields in their order, and the last ones may be missing.
-/

namespace PowLedger

namespace Document

/-- An integer from zero on and below a bound. -/
def natBelow (bound : Nat) : Document → Option Nat
  | .integer n => if 0 ≤ n ∧ n < bound then some n.toNat else none
  | _ => none

/-- A 32-bit word. -/
def word32 (d : Document) : Option UInt32 :=
  (d.natBelow UInt32.size).map UInt32.ofNat

/-- A 64-bit word. -/
def word64 (d : Document) : Option UInt64 :=
  (d.natBelow UInt64.size).map UInt64.ofNat

/-- A signed 64-bit word. -/
def signed64 : Document → Option Int64
  | .integer n =>
    if Int64.minValue.toInt ≤ n ∧ n ≤ Int64.maxValue.toInt then some (Int64.ofInt n) else none
  | _ => none

/-- A flag. -/
def flag? : Document → Option Bool
  | .flag b => some b
  | _ => none

/-- A text. -/
def text? : Document → Option String
  | .text s => s
  | _ => none

/-- A text, or nothing. -/
def optionalText : Document → Option (Option String)
  | .null => some none
  | .text (some s) => some (some s)
  | _ => none

/-- A list of values of one form. -/
def listOf {α : Type} (form : Document → Option α) : Document → Option (List α)
  | .list items => items.mapM form
  | _ => none

/-- A byte string, written as the list of its bytes. -/
def bytes (d : Document) : Option Bytes :=
  d.listOf fun item => (item.natBelow 256).map UInt8.ofNat

/-- The field of a name, if it is there; nothing if it is repeated. -/
def field (fields : List (Option String × Document)) (name : String) : Option (Option Document) :=
  match fields.filter fun f => f.1 == some name with
  | [] => some none
  | [(_, d)] => some (some d)
  | _ => none

/-- The fields of the given names, in this order; `surplus` says whether a list that stands for the
record may have more items than there are names. A moment has none of the fields. -/
def fields (surplus : Bool) (names : List String) : Document → Option (List (Option Document))
  | .record fs =>
    if fs.all fun f => f.1.isSome then names.mapM (field fs) else none
  | .list items =>
    if items.length ≤ names.length ∨ surplus then
      some (names.zipIdx.map fun (_, i) => items[i]?)
    else none
  | .moment => if surplus then some (names.map fun _ => none) else none
  | _ => none

/-- The value of a field, or a default one if the field is missing. -/
def valueOr {α : Type} (default : α) (form : Document → Option α) : Option Document → Option α
  | none => some default
  | some d => form d

end Document

end PowLedger
