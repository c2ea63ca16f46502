import PowLedger.Text.Utf8

/-!
# Decoders

A decoder takes a value off the front of a byte string and leaves the rest. It fails when a single
read needs more bytes than are left, when a number has an unknown form, or when a text is not UTF-8.
-/

namespace PowLedger

/-- A kind of numbers that are read. -/
inductive NumberKind where
  | word32
  | word64
  /-- A word of the machine, which has 64 bits. -/
  | index
  | signed64
  deriving DecidableEq

/-- The number of bytes of the widest form that a number of the kind has. -/
def NumberKind.width : NumberKind → Nat
  | .word32 => 4
  | .word64 | .index | .signed64 => 8

/-- The name of a kind of numbers. -/
def NumberKind.name : NumberKind → String
  | .word32 => "U32"
  | .word64 => "U64"
  | .index => "Usize"
  | .signed64 => "I64"

/-- The name of what is found behind a mark that no number of the kind can have. -/
def NumberKind.found (k : NumberKind) : (mark : Nat) → String
  | 253 => "U64"
  | 254 => if k = .signed64 then "I128" else "U128"
  | _ => "Reserved"

/-- Why stored bytes are not the value they should be. -/
inductive DecodeFault where
  /-- A read needs `additional` more bytes than are left. -/
  | unexpectedEnd (additional : Nat)
  /-- The mark is that of a number too wide for the kind to be read, or of none at all. -/
  | invalidIntegerType (expected : NumberKind) (mark : Nat)
  /-- A text is not UTF-8. -/
  | badText (fault : Utf8Fault)
  deriving DecidableEq

/-- The fault in words. -/
def DecodeFault.message : DecodeFault → String
  | .unexpectedEnd n => s!"UnexpectedEnd \x7b additional: {n} \x7d"
  | .invalidIntegerType k mark =>
    s!"InvalidIntegerType \x7b expected: {k.name}, found: {k.found mark} \x7d"
  | .badText f =>
    let broken := match f.brokenLength with
      | none => "None"
      | some n => s!"Some({n})"
    s!"Utf8 \x7b inner: Utf8Error \x7b valid_up_to: {f.validUpTo}, error_len: {broken} \x7d \x7d"

/-- A reader of one value from the front of a byte string. -/
abbrev Decoder (α : Type) := StateT Bytes (Except DecodeFault) α

namespace Decoder

/-- The first `n` bytes and the rest, or the number of bytes that are missing. -/
def split : (n : Nat) → Bytes → Except Nat (Bytes × Bytes)
  | 0, bs => .ok ([], bs)
  | n + 1, [] => .error (n + 1)
  | n + 1, b :: bs =>
    match split n bs with
    | .ok (front, rest) => .ok (b :: front, rest)
    | .error missing => .error missing

/-- Reads exactly `n` bytes. -/
def take (n : Nat) : Decoder Bytes := fun bs =>
  match split n bs with
  | .ok (front, rest) => .ok (front, rest)
  | .error missing => .error (.unexpectedEnd missing)

/-- Reads `n` values of one kind. -/
def many {α : Type} (d : Decoder α) : (n : Nat) → Decoder (List α)
  | 0 => pure []
  | n + 1 => do
    let a ← d
    let rest ← many d n
    return a :: rest

/-- The value at the front of a byte string; what follows it is not looked at. -/
def value {α : Type} (d : Decoder α) (bs : Bytes) : Except DecodeFault α :=
  match d.run bs with
  | .ok (a, _) => .ok a
  | .error f => .error f

end Decoder

end PowLedger
