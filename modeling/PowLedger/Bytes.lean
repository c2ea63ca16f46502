import PowLedger.Text.Quoted

/-!
# Byte strings

Everything the ledger hashes, stores or sends is a list of bytes. This file fixes that type, the
big-endian form of a number in a given width, the number a byte string spells, and the two
hexadecimal forms: writing (always lower case) and reading (either case, with a precise cause of
failure).
-/

namespace PowLedger

/-- A byte string. -/
abbrev Bytes := List UInt8

/-- The `width` low-order bytes of `n`, least significant byte first. -/
def littleEndian : (width : Nat) → (n : Nat) → Bytes
  | 0, _ => []
  | width + 1, n => UInt8.ofNat n :: littleEndian width (n / 256)

@[simp] theorem length_littleEndian (width n : Nat) : (littleEndian width n).length = width := by
  induction width generalizing n with
  | zero => rfl
  | succ width ih => simp [littleEndian, ih]

/-- The `width` low-order bytes of `n`, most significant byte first. -/
def bigEndian (width n : Nat) : Bytes :=
  (littleEndian width n).reverse

@[simp] theorem length_bigEndian (width n : Nat) : (bigEndian width n).length = width := by
  simp [bigEndian]

namespace Bytes

/-- The number a byte string spells, most significant byte first. -/
def toNat (bs : Bytes) : Nat :=
  bs.foldl (fun acc b => 256 * acc + b.toNat) 0

/-- The number a byte string spells, least significant byte first. -/
def toNatLittle : Bytes → Nat
  | [] => 0
  | b :: bs => b.toNat + 256 * toNatLittle bs

/-- Byte strings in lexicographic order, a proper beginning first. -/
def precedes : Bytes → Bytes → Bool
  | [], [] => false
  | [], _ :: _ => true
  | _ :: _, [] => false
  | a :: as, b :: bs => if a < b then true else if b < a then false else precedes as bs

/-- The lower-case digit of a number below sixteen. -/
def hexDigit (n : Nat) : Char :=
  if n < 10 then Char.ofNat (48 + n) else Char.ofNat (87 + n)

/-- The two lower-case digits of a byte. -/
def hexPair (b : UInt8) : List Char :=
  [hexDigit (b.toNat / 16), hexDigit (b.toNat % 16)]

/-- The lower-case hexadecimal text of a byte string. -/
def hex (bs : Bytes) : String :=
  String.ofList (bs.flatMap hexPair)

end Bytes

/-- Why a text is not a hexadecimal byte string. -/
inductive HexFault where
  /-- The text has an odd number of bytes. -/
  | oddLength
  /-- The byte at `position` is no digit. -/
  | badDigit (byte : UInt8) (position : Nat)
  deriving DecidableEq

/-- A hexadecimal fault in words; the offending byte is shown as the character of that code. -/
def HexFault.message : HexFault → String
  | .oddLength => "Odd number of digits"
  | .badDigit byte position =>
    s!"Invalid character {quotedChar (Char.ofNat byte.toNat)} at position {position}"

namespace Bytes

/-- The value of a hexadecimal digit of either case. -/
def hexValue (b : UInt8) : Option Nat :=
  let n := b.toNat
  if 48 ≤ n ∧ n ≤ 57 then some (n - 48)
  else if 97 ≤ n ∧ n ≤ 102 then some (n - 87)
  else if 65 ≤ n ∧ n ≤ 70 then some (n - 55)
  else none

/-- Reads digit pairs, the first of them at `position`. -/
def ofHexPairs (position : Nat) : Bytes → Except HexFault Bytes
  | [] => .ok []
  | [_] => .error .oddLength
  | high :: low :: rest =>
    match hexValue high with
    | none => .error (.badDigit high position)
    | some h =>
      match hexValue low with
      | none => .error (.badDigit low (position + 1))
      | some l =>
        match ofHexPairs (position + 2) rest with
        | .error e => .error e
        | .ok bs => .ok (UInt8.ofNat (16 * h + l) :: bs)

/-- Reads the hexadecimal digits of a text given by its bytes; the length is judged first. -/
def ofHex (text : Bytes) : Except HexFault Bytes :=
  if text.length % 2 = 1 then .error .oddLength else ofHexPairs 0 text

end Bytes

end PowLedger
