import Mathlib.Data.List.Basic
import Mathlib.Tactic.Common
import Mathlib.Tactic.Lemma
import PowLedger.Proofs.Bytes
import PowLedger.Transaction.Basic

/-!
# The text of an outpoint

An outpoint is reported as a text, the digits of the id and the position with a dash in between. The
dash is no digit of either, so the text tells the outpoint (`Outpoint.text_injective`).
-/

namespace PowLedger

/-- The dash is no hexadecimal digit. -/
lemma Bytes.dash_notMem_hex (bs : Bytes) : '-' ∉ bs.hex.toList := by
  have hdigit : ∀ n : Fin 16, hexDigit n ≠ '-' := by decide
  simp only [Bytes.toList_hex, List.mem_flatMap, not_exists, not_and]
  intro b _ hmem
  simp only [hexPair, List.mem_cons, List.not_mem_nil, or_false] at hmem
  have hb := b.toNat_lt
  rcases hmem with hhigh | hlow
  · exact hdigit ⟨b.toNat / 16, by omega⟩ hhigh.symm
  · exact hdigit ⟨b.toNat % 16, by omega⟩ hlow.symm

/-- The dash is no decimal digit. -/
lemma dash_notMem_toDigits (n : Nat) : '-' ∉ Nat.toDigits 10 n := by
  intro hmem
  exact absurd (Nat.isDigit_of_mem_toDigits (by decide) (by decide) hmem) (by decide)

namespace Outpoint

/-- The characters of the text of an outpoint. -/
lemma toList_text (txid : Bytes) (index : UInt64) :
    (text ⟨txid, index⟩).toList = txid.hex.toList ++ '-' :: Nat.toDigits 10 index.toNat := by
  simp [text]

/-- Different outpoints have different texts. -/
theorem text_injective : Function.Injective text := by
  rintro ⟨txid, index⟩ ⟨txid', index'⟩ h
  have hlists := congrArg String.toList h
  rw [toList_text, toList_text] at hlists
  obtain ⟨hid, -, hdigits⟩ := (List.append_cons_inj_of_notMem (Bytes.dash_notMem_hex txid)
    (dash_notMem_toDigits index.toNat)).mp hlists
  have hindex : index.toNat = index'.toNat :=
    calc
      index.toNat = Nat.ofDigitChars 10 (Nat.toDigits 10 index.toNat) 0 :=
        Nat.ofDigitChars_ten_toDigits.symm
      _ = Nat.ofDigitChars 10 (Nat.toDigits 10 index'.toNat) 0 := by rw [hdigits]
      _ = index'.toNat := Nat.ofDigitChars_ten_toDigits
  rw [Bytes.hex_injective (String.toList_injective hid), UInt64.toNat_inj.mp hindex]

end Outpoint

end PowLedger
