import Mathlib.Algebra.Order.Ring.Nat
import Mathlib.Data.List.Basic
import Mathlib.Tactic.Common
import PowLedger.Bytes

/-!
# Numbers and digits as byte strings

A number below `256 ^ width` can be read back from its bytes in either order, so the fixed-width
forms of numbers are injective. So is the hexadecimal text of a byte string; it has two characters
for each byte and is empty for the empty byte string only.
-/

namespace PowLedger

/-! ### Fixed-width numbers -/

/-- The low-order bytes of a number spell its remainder. -/
theorem toNatLittle_littleEndian (width n : Nat) :
    (littleEndian width n).toNatLittle = n % 256 ^ width := by
  induction width generalizing n with
  | zero => simp [littleEndian, Bytes.toNatLittle, Nat.mod_one]
  | succ width ih =>
    have hbyte : (UInt8.ofNat n).toNat = n % 256 := by simp
    rw [littleEndian, Bytes.toNatLittle, ih, hbyte, Nat.pow_succ', Nat.mod_mul]

/-- Two numbers that fit have the same low-order bytes only if they are equal. -/
theorem littleEndian_inj {width m n : Nat} (hm : m < 256 ^ width) (hn : n < 256 ^ width)
    (h : littleEndian width m = littleEndian width n) : m = n := by
  have hval := congrArg Bytes.toNatLittle h
  rwa [toNatLittle_littleEndian, toNatLittle_littleEndian, Nat.mod_eq_of_lt hm,
    Nat.mod_eq_of_lt hn] at hval

/-- Two numbers that fit have the same big-endian form only if they are equal. -/
theorem bigEndian_inj {width m n : Nat} (hm : m < 256 ^ width) (hn : n < 256 ^ width)
    (h : bigEndian width m = bigEndian width n) : m = n :=
  littleEndian_inj hm hn (List.reverse_injective h)

/-- The eight bytes of a 64-bit word determine it. -/
theorem bigEndian_word64_inj {a b : UInt64} (h : bigEndian 8 a.toNat = bigEndian 8 b.toNat) :
    a = b :=
  UInt64.toNat_inj.mp (bigEndian_inj a.toNat_lt b.toNat_lt h)

/-- The four bytes of a 32-bit word determine it. -/
theorem bigEndian_word32_inj {a b : UInt32} (h : bigEndian 4 a.toNat = bigEndian 4 b.toNat) :
    a = b :=
  UInt32.toNat_inj.mp (bigEndian_inj a.toNat_lt b.toNat_lt h)

/-! ### Hexadecimal texts -/

namespace Bytes

/-- The sixteen digits are different characters. -/
theorem hexDigit_inj {m n : Nat} (hm : m < 16) (hn : n < 16) (h : hexDigit m = hexDigit n) :
    m = n := by
  have hall : ∀ i j : Fin 16, hexDigit i = hexDigit j → i = j := by decide
  exact Fin.mk.inj (hall ⟨m, hm⟩ ⟨n, hn⟩ h)

/-- A byte is determined by its two digits. -/
theorem hexPair_injective : Function.Injective hexPair := by
  intro a b h
  obtain ⟨hhigh, hlow⟩ : hexDigit (a.toNat / 16) = hexDigit (b.toNat / 16) ∧
      hexDigit (a.toNat % 16) = hexDigit (b.toNat % 16) := by simpa [hexPair] using h
  have ha := a.toNat_lt
  have hb := b.toNat_lt
  have hdiv := hexDigit_inj (by omega) (by omega) hhigh
  have hmod := hexDigit_inj (by omega) (by omega) hlow
  exact UInt8.toNat_inj.mp (by omega)

/-- The digits of a byte string determine it, one pair at a time. -/
theorem flatMap_hexPair_injective :
    Function.Injective fun bs : Bytes => bs.flatMap hexPair := by
  intro as bs h
  induction as generalizing bs with
  | nil =>
    cases bs with
    | nil => rfl
    | cons b bs => simp [hexPair] at h
  | cons a as ih =>
    cases bs with
    | nil => simp [hexPair] at h
    | cons b bs =>
      obtain ⟨hpair, hrest⟩ : hexPair a = hexPair b ∧ as.flatMap hexPair = bs.flatMap hexPair :=
        List.append_inj (by simpa using h) rfl
      rw [hexPair_injective hpair, ih hrest]

/-- A byte string can be told from its hexadecimal text. -/
theorem hex_injective : Function.Injective hex := by
  intro as bs h
  exact flatMap_hexPair_injective (String.ofList_injective h)

@[simp] theorem toList_hex (bs : Bytes) : bs.hex.toList = bs.flatMap hexPair := by
  simp [hex]

/-- A byte string with at least one byte has a text that is not empty. -/
theorem hex_ne_empty {bs : Bytes} (h : bs ≠ []) : bs.hex ≠ "" := by
  intro hempty
  exact h (hex_injective (hempty.trans (show "" = hex [] from rfl)))

end Bytes

end PowLedger
