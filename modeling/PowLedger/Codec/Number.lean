import PowLedger.Codec.Decoder

/-!
# Numbers of varying length

A number up to 250 is one byte. A greater one is a mark (251, 252 or 253) and then two, four or
eight bytes, least significant first; writing takes the shortest form and reading takes any. A
signed number is folded onto the natural numbers first, so that small ones of either sign stay
short.
-/

namespace PowLedger.Codec

/-- The shortest form of a number below `2 ^ 64`. -/
def encodeNumber (n : Nat) : Bytes :=
  if n ≤ 250 then [UInt8.ofNat n]
  else if n < UInt16.size then 251 :: littleEndian 2 n
  else if n < UInt32.size then 252 :: littleEndian 4 n
  else 253 :: littleEndian 8 n

/-- Reads a number of a kind, in any form that is not too wide for it. -/
def decodeNumber (k : NumberKind) : Decoder Nat := do
  let front ← Decoder.take 1
  let mark := front.toNatLittle
  let wide (n : Nat) : Decoder Nat :=
    if n ≤ k.width then Bytes.toNatLittle <$> Decoder.take n
    else throw (.invalidIntegerType k mark)
  if mark ≤ 250 then return mark
  else if mark = 251 then wide 2
  else if mark = 252 then wide 4
  else if mark = 253 then wide 8
  else throw (.invalidIntegerType k mark)

/-- A signed number folded onto the natural numbers: 0, -1, 1, -2, 2, … -/
def fold (n : Int) : Nat :=
  if 0 ≤ n then (2 * n).toNat else (-2 * n - 1).toNat

/-- The signed number that is folded onto `n`. -/
def unfold (n : Nat) : Int :=
  if n % 2 = 0 then (n / 2 : Nat) else -((n / 2 : Nat) : Int) - 1

/-- Reads a 32-bit word. -/
def decodeWord32 : Decoder UInt32 :=
  UInt32.ofNat <$> decodeNumber .word32

/-- Reads a 64-bit word. -/
def decodeWord64 : Decoder UInt64 :=
  UInt64.ofNat <$> decodeNumber .word64

/-- Reads the index of an output. -/
def decodeIndex : Decoder UInt64 :=
  UInt64.ofNat <$> decodeNumber .index

/-- Reads a signed 64-bit word. -/
def decodeSigned64 : Decoder Int64 :=
  (fun n => Int64.ofInt (unfold n)) <$> decodeNumber .signed64

end PowLedger.Codec
