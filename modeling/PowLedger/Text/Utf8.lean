import PowLedger.Bytes

/-!
# UTF-8

Texts are written as UTF-8 and read back by a strict reader. The reader refuses overlong forms,
surrogates and numbers above the last code point, and a refusal says how many bytes before it were
sound and how long the broken sequence is.
-/

namespace PowLedger

/-- Where a byte string stops being UTF-8. -/
structure Utf8Fault where
  /-- The number of bytes in front that are sound. -/
  validUpTo : Nat
  /-- The length of the broken sequence, or nothing when the text ends inside a character. -/
  brokenLength : Option Nat
  deriving DecidableEq

/-- The fault in words. -/
def Utf8Fault.message (f : Utf8Fault) : String :=
  match f.brokenLength with
  | some n => s!"invalid utf-8 sequence of {n} bytes from index {f.validUpTo}"
  | none => s!"incomplete utf-8 byte sequence from index {f.validUpTo}"

namespace Utf8

/-- The bytes of one character. -/
def encodeChar (c : Char) : Bytes :=
  let n := c.toNat
  if n < 0x80 then [UInt8.ofNat n]
  else if n < 0x800 then [UInt8.ofNat (0xC0 + n / 64), UInt8.ofNat (0x80 + n % 64)]
  else if n < 0x10000 then
    [UInt8.ofNat (0xE0 + n / 4096), UInt8.ofNat (0x80 + n / 64 % 64), UInt8.ofNat (0x80 + n % 64)]
  else
    [UInt8.ofNat (0xF0 + n / 262144), UInt8.ofNat (0x80 + n / 4096 % 64),
      UInt8.ofNat (0x80 + n / 64 % 64), UInt8.ofNat (0x80 + n % 64)]

/-- The bytes of a text. -/
def encode (s : String) : Bytes :=
  s.toList.flatMap encodeChar

/-- A byte that continues a character. -/
def isTail (b : UInt8) : Bool :=
  0x80 ≤ b.toNat && b.toNat ≤ 0xBF

/-- The second bytes that may follow the first byte `lead` of a three-byte character. -/
def secondOfThree (lead b : UInt8) : Bool :=
  if lead.toNat = 0xE0 then 0xA0 ≤ b.toNat && b.toNat ≤ 0xBF
  else if lead.toNat = 0xED then 0x80 ≤ b.toNat && b.toNat ≤ 0x9F
  else isTail b

/-- The second bytes that may follow the first byte `lead` of a four-byte character. -/
def secondOfFour (lead b : UInt8) : Bool :=
  if lead.toNat = 0xF0 then 0x90 ≤ b.toNat && b.toNat ≤ 0xBF
  else if lead.toNat = 0xF4 then 0x80 ≤ b.toNat && b.toNat ≤ 0x8F
  else isTail b

/-- The low six bits that a continuing byte carries. -/
def payload (b : UInt8) : Nat :=
  b.toNat % 64

/-- Reads the characters of a byte string whose first byte stands at `position`. -/
def decodeFrom (position : Nat) : Bytes → Except Utf8Fault (List Char)
  | [] => .ok []
  | b :: rest =>
    if b.toNat < 0x80 then
      (decodeFrom (position + 1) rest).map (Char.ofNat b.toNat :: ·)
    else if 0xC2 ≤ b.toNat ∧ b.toNat ≤ 0xDF then
      match rest with
      | [] => .error ⟨position, none⟩
      | b₁ :: rest =>
        if isTail b₁ then
          (decodeFrom (position + 2) rest).map
            (Char.ofNat ((b.toNat - 0xC0) * 64 + payload b₁) :: ·)
        else .error ⟨position, some 1⟩
    else if 0xE0 ≤ b.toNat ∧ b.toNat ≤ 0xEF then
      match rest with
      | [] => .error ⟨position, none⟩
      | b₁ :: rest =>
        if secondOfThree b b₁ then
          match rest with
          | [] => .error ⟨position, none⟩
          | b₂ :: rest =>
            if isTail b₂ then
              (decodeFrom (position + 3) rest).map
                (Char.ofNat ((b.toNat - 0xE0) * 4096 + payload b₁ * 64 + payload b₂) :: ·)
            else .error ⟨position, some 2⟩
        else .error ⟨position, some 1⟩
    else if 0xF0 ≤ b.toNat ∧ b.toNat ≤ 0xF4 then
      match rest with
      | [] => .error ⟨position, none⟩
      | b₁ :: rest =>
        if secondOfFour b b₁ then
          match rest with
          | [] => .error ⟨position, none⟩
          | b₂ :: rest =>
            if isTail b₂ then
              match rest with
              | [] => .error ⟨position, none⟩
              | b₃ :: rest =>
                if isTail b₃ then
                  (decodeFrom (position + 4) rest).map
                    (Char.ofNat ((b.toNat - 0xF0) * 262144 + payload b₁ * 4096 + payload b₂ * 64
                      + payload b₃) :: ·)
                else .error ⟨position, some 3⟩
            else .error ⟨position, some 2⟩
        else .error ⟨position, some 1⟩
    else .error ⟨position, some 1⟩

/-- Reads a text. -/
def decode (bs : Bytes) : Except Utf8Fault String :=
  (decodeFrom 0 bs).map String.ofList

end Utf8

end PowLedger
