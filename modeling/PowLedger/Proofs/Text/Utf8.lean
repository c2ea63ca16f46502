import Mathlib.Data.List.Basic
import Mathlib.Tactic.Common
import PowLedger.Text.Utf8

/-!
# UTF-8 round trip

The strict reader reads back every text that was written, `Utf8.decode_encode`. So a text can be
told from its bytes, and what a text begins with from what its bytes begin with.
-/

namespace PowLedger

namespace Utf8

/-! ### One character -/

/-- A character below `0x80` is its own code. -/
theorem decodeFrom_one {c : Char} (h : c.toNat < 0x80) (position : Nat) (rest : Bytes) :
    decodeFrom position (encodeChar c ++ rest) =
      (decodeFrom (position + 1) rest).map (c :: ·) := by
  have hb : (UInt8.ofNat c.toNat).toNat = c.toNat := by simp; omega
  rw [encodeChar, if_pos h, List.singleton_append, decodeFrom.eq_def]
  simp only [hb, h, if_true, Char.ofNat_toNat]

/-- A character from `0x80` to `0x7FF` is read back from its two bytes. -/
theorem decodeFrom_two {c : Char} (hlow : 0x80 ≤ c.toNat) (hhigh : c.toNat < 0x800)
    (position : Nat) (rest : Bytes) :
    decodeFrom position (encodeChar c ++ rest) =
      (decodeFrom (position + 2) rest).map (c :: ·) := by
  have h0 : (UInt8.ofNat (0xC0 + c.toNat / 64)).toNat = 0xC0 + c.toNat / 64 := by simp; omega
  have h1 : (UInt8.ofNat (0x80 + c.toNat % 64)).toNat = 0x80 + c.toNat % 64 := by simp; omega
  have htail : isTail (UInt8.ofNat (0x80 + c.toNat % 64)) = true := by
    simp only [isTail, h1, Bool.and_eq_true, decide_eq_true_eq]; omega
  have hcode : (0xC0 + c.toNat / 64 - 0xC0) * 64 + (0x80 + c.toNat % 64) % 64 = c.toNat := by omega
  rw [encodeChar, if_neg (by omega), if_pos hhigh, List.cons_append, List.singleton_append,
    decodeFrom.eq_def]
  simp only [htail, payload, h0, h1, hcode, if_true, Char.ofNat_toNat]
  rw [if_neg (by omega), if_pos (by omega)]

/-- The second byte of a three-byte character is one that its first byte allows: a character is
neither below `0x800` here nor a surrogate. -/
theorem secondOfThree_encode {n : Nat} (hlow : 0x800 ≤ n) (hhigh : n < 0x10000)
    (hvalid : n < 0xD800 ∨ 0xDFFF < n) :
    secondOfThree (UInt8.ofNat (0xE0 + n / 4096)) (UInt8.ofNat (0x80 + n / 64 % 64)) = true := by
  have h0 : (UInt8.ofNat (0xE0 + n / 4096)).toNat = 0xE0 + n / 4096 := by simp; omega
  have h1 : (UInt8.ofNat (0x80 + n / 64 % 64)).toNat = 0x80 + n / 64 % 64 := by simp; omega
  simp only [secondOfThree, isTail, h0, h1]
  split
  · simp only [Bool.and_eq_true, decide_eq_true_eq]; omega
  · split <;> simp only [Bool.and_eq_true, decide_eq_true_eq] <;> omega

/-- A character from `0x800` to `0xFFFF` is read back from its three bytes. -/
theorem decodeFrom_three {c : Char} (hlow : 0x800 ≤ c.toNat) (hhigh : c.toNat < 0x10000)
    (position : Nat) (rest : Bytes) :
    decodeFrom position (encodeChar c ++ rest) =
      (decodeFrom (position + 3) rest).map (c :: ·) := by
  have hvalid : c.toNat < 0xD800 ∨ 0xDFFF < c.toNat :=
    c.valid.imp (fun h => h) (fun h => h.1)
  have h0 : (UInt8.ofNat (0xE0 + c.toNat / 4096)).toNat = 0xE0 + c.toNat / 4096 := by
    simp; omega
  have h1 : (UInt8.ofNat (0x80 + c.toNat / 64 % 64)).toNat = 0x80 + c.toNat / 64 % 64 := by
    simp; omega
  have h2 : (UInt8.ofNat (0x80 + c.toNat % 64)).toNat = 0x80 + c.toNat % 64 := by simp; omega
  have htail : isTail (UInt8.ofNat (0x80 + c.toNat % 64)) = true := by
    simp only [isTail, h2, Bool.and_eq_true, decide_eq_true_eq]; omega
  have hcode : (0xE0 + c.toNat / 4096 - 0xE0) * 4096 + (0x80 + c.toNat / 64 % 64) % 64 * 64 +
      (0x80 + c.toNat % 64) % 64 = c.toNat := by omega
  rw [encodeChar, if_neg (by omega), if_neg (by omega), if_pos hhigh, List.cons_append,
    List.cons_append, List.singleton_append, decodeFrom.eq_def]
  simp only [secondOfThree_encode hlow hhigh hvalid, htail, payload, h0, h1, h2, hcode, if_true,
    Char.ofNat_toNat]
  rw [if_neg (by omega), if_neg (by omega), if_pos (by omega)]

/-- The second byte of a four-byte character is one that its first byte allows. -/
theorem secondOfFour_encode {n : Nat} (hlow : 0x10000 ≤ n) (hhigh : n < 0x110000) :
    secondOfFour (UInt8.ofNat (0xF0 + n / 262144)) (UInt8.ofNat (0x80 + n / 4096 % 64)) = true := by
  have h0 : (UInt8.ofNat (0xF0 + n / 262144)).toNat = 0xF0 + n / 262144 := by simp; omega
  have h1 : (UInt8.ofNat (0x80 + n / 4096 % 64)).toNat = 0x80 + n / 4096 % 64 := by simp; omega
  simp only [secondOfFour, isTail, h0, h1]
  split
  · simp only [Bool.and_eq_true, decide_eq_true_eq]; omega
  · split <;> simp only [Bool.and_eq_true, decide_eq_true_eq] <;> omega

/-- A character from `0x10000` on is read back from its four bytes. -/
theorem decodeFrom_four {c : Char} (hlow : 0x10000 ≤ c.toNat) (position : Nat) (rest : Bytes) :
    decodeFrom position (encodeChar c ++ rest) =
      (decodeFrom (position + 4) rest).map (c :: ·) := by
  have hhigh : c.toNat < 0x110000 := by
    rcases c.valid with h | h
    · exact Nat.lt_trans h (by decide)
    · exact h.2
  have h0 : (UInt8.ofNat (0xF0 + c.toNat / 262144)).toNat = 0xF0 + c.toNat / 262144 := by
    simp; omega
  have h1 : (UInt8.ofNat (0x80 + c.toNat / 4096 % 64)).toNat = 0x80 + c.toNat / 4096 % 64 := by
    simp; omega
  have h2 : (UInt8.ofNat (0x80 + c.toNat / 64 % 64)).toNat = 0x80 + c.toNat / 64 % 64 := by
    simp; omega
  have h3 : (UInt8.ofNat (0x80 + c.toNat % 64)).toNat = 0x80 + c.toNat % 64 := by simp; omega
  have htail₂ : isTail (UInt8.ofNat (0x80 + c.toNat / 64 % 64)) = true := by
    simp only [isTail, h2, Bool.and_eq_true, decide_eq_true_eq]; omega
  have htail₃ : isTail (UInt8.ofNat (0x80 + c.toNat % 64)) = true := by
    simp only [isTail, h3, Bool.and_eq_true, decide_eq_true_eq]; omega
  have hcode : (0xF0 + c.toNat / 262144 - 0xF0) * 262144 + (0x80 + c.toNat / 4096 % 64) % 64 * 4096
      + (0x80 + c.toNat / 64 % 64) % 64 * 64 + (0x80 + c.toNat % 64) % 64 = c.toNat := by omega
  rw [encodeChar, if_neg (by omega), if_neg (by omega), if_neg (by omega), List.cons_append,
    List.cons_append, List.cons_append, List.singleton_append, decodeFrom.eq_def]
  simp only [secondOfFour_encode hlow hhigh, htail₂, htail₃, payload, h0, h1, h2, h3, hcode,
    if_true, Char.ofNat_toNat]
  rw [if_neg (by omega), if_neg (by omega), if_neg (by omega), if_pos (by omega)]

/-- Every character is read back from its bytes, and the reader goes on behind them. -/
theorem decodeFrom_encodeChar (c : Char) (position : Nat) (rest : Bytes) :
    ∃ next, decodeFrom position (encodeChar c ++ rest) =
      (decodeFrom next rest).map (c :: ·) := by
  by_cases h1 : c.toNat < 0x80
  · exact ⟨_, decodeFrom_one h1 position rest⟩
  by_cases h2 : c.toNat < 0x800
  · exact ⟨_, decodeFrom_two (by omega) h2 position rest⟩
  by_cases h3 : c.toNat < 0x10000
  · exact ⟨_, decodeFrom_three (by omega) h3 position rest⟩
  · exact ⟨_, decodeFrom_four (by omega) position rest⟩

/-! ### Texts -/

/-- The characters of a text are read back from its bytes. -/
theorem decodeFrom_flatMap_encodeChar (cs : List Char) (position : Nat) :
    decodeFrom position (cs.flatMap encodeChar) = .ok cs := by
  induction cs generalizing position with
  | nil => simp [decodeFrom]
  | cons c cs ih =>
    obtain ⟨next, hnext⟩ := decodeFrom_encodeChar c position (cs.flatMap encodeChar)
    rw [List.flatMap_cons, hnext, ih]
    rfl

/-- Every text is read back from its bytes. -/
theorem decode_encode (s : String) : decode (encode s) = .ok s := by
  rw [decode, encode, decodeFrom_flatMap_encodeChar]
  simp [Except.map]

/-- A text can be told from its bytes. -/
theorem encode_injective : Function.Injective encode := by
  intro s t h
  have hread := decode_encode s
  rw [h, decode_encode] at hread
  exact (Except.ok.inj hread).symm

@[simp] theorem encode_append (s t : String) : encode (s ++ t) = encode s ++ encode t := by
  simp [encode]

/-- Bytes that are those of some characters and then others, and those of a list of characters, are
those of a list that begins with these characters. -/
theorem exists_append_of_flatMap_encodeChar {cs ds : List Char} {rest : Bytes}
    (h : cs.flatMap encodeChar ++ rest = ds.flatMap encodeChar) : ∃ es, ds = cs ++ es := by
  induction cs generalizing ds with
  | nil => exact ⟨ds, rfl⟩
  | cons c cs ih =>
    rw [List.flatMap_cons, List.append_assoc] at h
    -- The reader finds the first character in front of both.
    obtain ⟨next, hnext⟩ := decodeFrom_encodeChar c 0 (cs.flatMap encodeChar ++ rest)
    rw [h, decodeFrom_flatMap_encodeChar] at hnext
    obtain ⟨ds, rfl⟩ : ∃ ds', ds = c :: ds' := by
      cases hread : decodeFrom next (cs.flatMap encodeChar ++ rest) with
      | error f => simp [hread, Except.map] at hnext
      | ok ds' => exact ⟨ds', by simpa [hread, Except.map] using hnext⟩
    rw [List.flatMap_cons] at h
    obtain ⟨es, rfl⟩ := ih (List.append_cancel_left h)
    exact ⟨es, rfl⟩

/-- If the bytes of one text are followed by others to those of another text, then the other text
begins with the one, and the others are the bytes of its rest. -/
theorem exists_text_of_append {s t : String} {rest : Bytes} (h : encode s ++ rest = encode t) :
    ∃ u, t = s ++ u ∧ rest = encode u := by
  obtain ⟨es, hes⟩ := exists_append_of_flatMap_encodeChar h
  have ht : t = s ++ String.ofList es := by
    rw [← String.toList_inj, hes, String.toList_append, String.toList_ofList]
  refine ⟨String.ofList es, ht, ?_⟩
  rw [ht, encode_append] at h
  exact List.append_cancel_left h

end Utf8

end PowLedger
