import Mathlib.Tactic.Common
import Mathlib.Tactic.Lemma
import Mathlib.Tactic.Ring
import PowLedger.Proofs.Mining.Sweep

/-!
# What a target asks of a digest

A digest is compared with a threshold as a number. Seen bit by bit the comparison counts zeros: a
digest of 32 bytes is below the threshold of a target exactly if as many of its first bits are zero
(`target_counts_leading_zeros`). A header has work exactly if its digest begins so
(`Header.hasWork_iff_leading_zeros`).

Two facts carry this. The bits of a byte string, byte by byte, are a binary numeral of the number
that it spells (`Bytes.ofBits_bits`); after that nothing depends on where a byte ends. A numeral is
below a power of two exactly if all its digits from there up are zero (`ofBits_lt_two_pow_sub_iff`).
-/

namespace PowLedger

/-! ### Binary numerals -/

/-- The `width` low-order bits of `n`, most significant bit first. -/
def lowBits : (width : Nat) → (n : Nat) → List Bool
  | 0, _ => []
  | width + 1, n => n.testBit width :: lowBits width n

/-- The number that a list of bits spells, most significant bit first. -/
def ofBits : List Bool → Nat
  | [] => 0
  | bit :: bits => 2 ^ bits.length * bit.toNat + ofBits bits

@[simp] lemma length_lowBits (width n : Nat) : (lowBits width n).length = width := by
  induction width with
  | zero => rfl
  | succ width ih => rw [lowBits, List.length_cons, ih]

/-- The low-order bits of a number spell its remainder. -/
lemma ofBits_lowBits (width n : Nat) : ofBits (lowBits width n) = n % 2 ^ width := by
  induction width with
  | zero => exact (Nat.mod_one n).symm
  | succ width ih =>
    rw [lowBits, ofBits, length_lowBits, ih, Nat.toNat_testBit, Nat.mod_pow_succ, Nat.add_comm]

lemma ofBits_append (high low : List Bool) :
    ofBits (high ++ low) = 2 ^ low.length * ofBits high + ofBits low := by
  induction high with
  | nil => simp [ofBits]
  | cons bit high ih =>
    rw [List.cons_append, ofBits, ofBits, ih, List.length_append, pow_add]
    ring

lemma ofBits_lt (bits : List Bool) : ofBits bits < 2 ^ bits.length := by
  induction bits with
  | nil => exact Nat.one_pos
  | cons bit bits ih =>
    have hdigit : 2 ^ bits.length * bit.toNat ≤ 2 ^ bits.length * 1 :=
      Nat.mul_le_mul_left _ bit.toNat_le
    rw [ofBits, List.length_cons, pow_succ]
    omega

/-- A numeral is below the power of two at one of its places exactly if the digits before that place
are zero. -/
lemma ofBits_lt_two_pow_sub_iff {bits : List Bool} {zeros : Nat} (h : zeros ≤ bits.length) :
    ofBits bits < 2 ^ (bits.length - zeros) ↔
      bits.take zeros = List.replicate zeros false := by
  induction zeros generalizing bits with
  | zero => simpa using ofBits_lt bits
  | succ zeros ih =>
    obtain ⟨bit, bits, rfl⟩ := List.exists_cons_of_length_pos (by omega : 0 < bits.length)
    rw [List.length_cons] at h
    rw [List.length_cons, Nat.add_sub_add_right, List.take_succ_cons, List.replicate_succ, ofBits]
    cases bit with
    | false => simpa using ih (Nat.le_of_succ_le_succ h)
    | true =>
      -- A digit 1 in front is worth more than all places that the power leaves.
      have hpow : 2 ^ (bits.length - zeros) ≤ 2 ^ bits.length :=
        Nat.pow_le_pow_right (by omega) (Nat.sub_le _ _)
      simp
      omega

/-! ### The bits of a byte string -/

namespace Bytes

/-- The bits of a byte string, byte by byte, the most significant bit of each byte first. -/
def bits (bs : Bytes) : List Bool :=
  bs.flatMap fun b => lowBits 8 b.toNat

@[simp] lemma length_bits (bs : Bytes) : bs.bits.length = 8 * bs.length := by
  induction bs with
  | nil => rfl
  | cons b bs ih =>
    rw [bits, List.flatMap_cons, List.length_append, length_lowBits, ← bits, ih, List.length_cons]
    omega

/-- What is read before a byte string counts for as much as there are bytes in it. -/
lemma foldl_eq_add_toNat (bs : Bytes) (acc : Nat) :
    bs.foldl (fun acc b => 256 * acc + b.toNat) acc = 256 ^ bs.length * acc + bs.toNat := by
  induction bs generalizing acc with
  | nil => simp [toNat]
  | cons b bs ih =>
    rw [toNat, List.foldl_cons, List.foldl_cons, ih, ih, List.length_cons, pow_succ]
    ring

lemma toNat_cons (b : UInt8) (bs : Bytes) :
    toNat (b :: bs) = 256 ^ bs.length * b.toNat + toNat bs := by
  rw [toNat, List.foldl_cons, foldl_eq_add_toNat, Nat.mul_zero, Nat.zero_add]

/-- The bits of a byte string are a numeral of the number that it spells. -/
lemma ofBits_bits (bs : Bytes) : ofBits bs.bits = bs.toNat := by
  induction bs with
  | nil => rfl
  | cons b bs ih =>
    have hbyte : b.toNat % 2 ^ 8 = b.toNat := Nat.mod_eq_of_lt b.toNat_lt
    have hworth : 2 ^ (8 * bs.length) = 256 ^ bs.length := pow_mul 2 8 bs.length
    rw [bits, List.flatMap_cons, ofBits_append, ofBits_lowBits, hbyte, ← bits, ih, length_bits,
      hworth, toNat_cons]

/-- Only a byte string of zeros spells zero. -/
lemma toNat_eq_zero_iff {bs : Bytes} : bs.toNat = 0 ↔ bs = List.replicate bs.length 0 := by
  induction bs with
  | nil => simp [toNat]
  | cons b bs ih =>
    have hworth : 256 ^ bs.length ≠ 0 := (Nat.pow_pos (by omega)).ne'
    rw [toNat_cons, Nat.add_eq_zero_iff, Nat.mul_eq_zero, or_iff_right hworth, ih,
      List.length_cons, List.replicate_succ, List.cons.injEq, ← UInt8.toNat_inj]
    rfl

end Bytes

/-! ### Targets -/

/-- The digest is below the threshold of the target. -/
def MeetsTarget (hash : Bytes) (target : UInt32) : Prop :=
  ∃ bound, threshold target = .ok bound ∧ meets hash bound = true

variable {hash : Bytes} {target : UInt32}

/-- No digest meets a target without a threshold. -/
lemma MeetsTarget.target_le (h : MeetsTarget hash target) : target.toNat ≤ 256 := by
  obtain ⟨bound, hbound, -⟩ := h
  by_contra hnot
  rw [threshold_of_lt (Nat.not_le.mp hnot)] at hbound
  cases hbound

/-- A digest of 32 bytes is below a threshold exactly if it begins with zeros. -/
lemma meets_threshold_iff (hsize : hash.length = 32) {zeros : Nat} (hzeros : zeros ≤ 256) :
    meets hash (2 ^ (256 - zeros)) = true ↔
      hash.bits.take zeros = List.replicate zeros false := by
  have hbits : hash.bits.length = 256 := by rw [Bytes.length_bits, hsize]
  rw [meets, decide_eq_true_iff, ← Bytes.ofBits_bits, ← hbits]
  exact ofBits_lt_two_pow_sub_iff (hbits ▸ hzeros)

/-- A digest of 32 bytes meets a target exactly if as many of its first bits are zero. -/
lemma meetsTarget_iff (hsize : hash.length = 32) : MeetsTarget hash target ↔
    target.toNat ≤ 256 ∧
      hash.bits.take target.toNat = List.replicate target.toNat false := by
  constructor
  · intro h
    have htarget := h.target_le
    obtain ⟨bound, hbound, hmeets⟩ := h
    cases hbound.symm.trans (threshold_of_le htarget)
    exact ⟨htarget, (meets_threshold_iff hsize htarget).mp hmeets⟩
  · rintro ⟨htarget, hzeros⟩
    exact ⟨_, threshold_of_le htarget, (meets_threshold_iff hsize htarget).mpr hzeros⟩

/-- A header has work exactly if its digest meets its target. -/
lemma Header.hasWork_iff_meetsTarget {digest : Hasher} {h : Header} :
    h.hasWork digest = true ↔ MeetsTarget (digest h.assemble) h.target := by
  rw [hasWork, MeetsTarget]
  cases threshold h.target <;> simp

/-- A header has work exactly if its target is one of at most 256 bits and the digest of its bytes
begins with as many zeros. -/
theorem Header.hasWork_iff_leading_zeros {digest : Hasher} {h : Header}
    (hsize : ∀ m, (digest m).length = 32) : h.hasWork digest = true ↔
    h.target.toNat ≤ 256 ∧ (digest h.assemble).bits.take h.target.toNat =
      List.replicate h.target.toNat false := by
  rw [hasWork_iff_meetsTarget, meetsTarget_iff (hsize _)]

/-- What begins with zeros begins with fewer zeros. -/
lemma take_eq_replicate_of_le {bits : List Bool} {few many : Nat} (hle : few ≤ many)
    (h : bits.take many = List.replicate many false) :
    bits.take few = List.replicate few false := by
  rw [← Nat.min_eq_left hle, ← List.take_take, h, List.take_replicate, Nat.min_eq_left hle]

/-- For a digest of 32 bytes to be below the threshold of a target is for as many of its first bits
to be zero. So it meets every easier target too; all digests meet the target 0, and only zero itself
meets 256. -/
theorem target_counts_leading_zeros (hsize : hash.length = 32) :
    (∀ target : UInt32, target.toNat ≤ 256 →
      threshold target = .ok (2 ^ (256 - target.toNat)) ∧
      (meets hash (2 ^ (256 - target.toNat)) = true ↔
        hash.bits.take target.toNat = List.replicate target.toNat false)) ∧
    (∀ target easier : UInt32, easier ≤ target →
      MeetsTarget hash target → MeetsTarget hash easier) ∧
    MeetsTarget hash 0 ∧
    (MeetsTarget hash 256 ↔ hash = List.replicate 32 0) := by
  refine ⟨fun target htarget => ?_, fun target easier hle hmeets => ?_, ?_, ?_⟩
  · exact ⟨threshold_of_le htarget, meets_threshold_iff hsize htarget⟩
  · have hle : easier.toNat ≤ target.toNat := UInt32.le_iff_toNat_le.mp hle
    obtain ⟨htarget, hzeros⟩ := (meetsTarget_iff hsize).mp hmeets
    exact (meetsTarget_iff hsize).mpr ⟨hle.trans htarget, take_eq_replicate_of_le hle hzeros⟩
  · exact (meetsTarget_iff hsize).mpr ⟨by decide, rfl⟩
  · have hbound : threshold 256 = .ok 1 := threshold_of_le (by decide)
    have hone : MeetsTarget hash 256 ↔ hash.toNat = 0 := by
      rw [MeetsTarget, hbound]
      simp [meets]
    rw [hone, Bytes.toNat_eq_zero_iff, hsize]

namespace Sample

/-- A digest that begins with two zero bytes and three more zero bits. -/
def lowDigest : Bytes := [0, 0, 31] ++ List.replicate 29 255

end Sample

open Sample in
/-- A digest that begins with 19 zero bits meets the target 19, which ends inside its third byte,
and misses the target 20. -/
theorem target_counts_leading_zeros_of_nineteen : lowDigest.length = 32 ∧
    MeetsTarget lowDigest 19 ∧ MeetsTarget lowDigest 7 ∧ ¬MeetsTarget lowDigest 20 := by
  have hsize : lowDigest.length = 32 := by decide
  obtain ⟨hbits, heasier, -, -⟩ := target_counts_leading_zeros hsize
  have hmeets : MeetsTarget lowDigest 19 :=
    ⟨_, (hbits 19 (by decide)).1, (hbits 19 (by decide)).2.mpr (by decide)⟩
  refine ⟨hsize, hmeets, heasier 19 7 (by decide) hmeets, ?_⟩
  rintro ⟨bound, hbound, hbelow⟩
  cases hbound.symm.trans (hbits 20 (by decide)).1
  exact absurd ((hbits 20 (by decide)).2.mp hbelow) (by decide)

end PowLedger
