import Mathlib.Algebra.BigOperators.Intervals
import Mathlib.Algebra.BigOperators.Ring.Finset
import Mathlib.Algebra.Order.BigOperators.Group.Finset
import Mathlib.Tactic.Common
import Mathlib.Tactic.Lemma
import Mathlib.Tactic.Ring
import PowLedger.Proofs.Ledger.Supply

/-!
# The emission cap

The heights of a chain fall into eras, `halvingInterval` blocks long, and all blocks of an era have
one reward. There is nothing to mint any more once the last era is over, whichever of its two ends
comes first: the number of halvings that the schedule allows, or the width of an amount. So what a
chain mints is bounded by a sum over the eras (`RewardSchedule.cap`), which it reaches exactly, and
the floors in this sum keep it below twice the value of the first era.

The sum over heights is turned into one over eras at the ends of the eras, where no era is cut
(`RewardSchedule.minted_mul`); any other height lies between two such ends.
-/

namespace PowLedger

open Finset

namespace RewardSchedule

variable (s : RewardSchedule)

/-- The number of eras with a reward. -/
def eras : Nat := min s.maxHalvings.toNat 64

/-- The reward of each block of an era. -/
def eraReward (k : Nat) : Nat :=
  if k < s.eras then s.initialReward.toNat / 2 ^ k else 0

/-- What all blocks together can mint. -/
def cap : Nat :=
  s.halvingInterval.toNat * ∑ k ∈ range s.eras, s.initialReward.toNat / 2 ^ k

/-! ### The reward at a height -/

/-- As long as there is a reward, it is the first one shifted by less than its width. -/
lemma reward_of_lt {height : Nat} (h : s.halvings height < s.eras) :
    s.halvings height < 64 ∧
      s.reward height = s.initialReward >>> UInt64.ofNat (s.halvings height) := by
  obtain ⟨hmax, hwidth⟩ := Nat.lt_min.mp h
  refine ⟨hwidth, ?_⟩
  unfold reward
  exact if_neg (not_or.mpr ⟨Nat.not_le.mpr hmax, Nat.not_le.mpr hwidth⟩)

/-- After the last era there is no reward. -/
lemma reward_of_le {height : Nat} (h : s.eras ≤ s.halvings height) : s.reward height = 0 := by
  unfold reward
  exact if_pos (min_le_iff.mp h)

/-- The reward at a height is that of its era. -/
lemma toNat_reward (height : Nat) :
    (s.reward height).toNat = s.eraReward (s.halvings height) := by
  unfold eraReward
  split
  · next h =>
    obtain ⟨hwidth, hreward⟩ := s.reward_of_lt h
    have hshift : (UInt64.ofNat (s.halvings height)).toNat % 64 = s.halvings height := by
      rw [UInt64.toNat_ofNat_of_lt' (hwidth.trans (by decide)), Nat.mod_eq_of_lt hwidth]
    rw [hreward, UInt64.toNat_shiftRight, hshift, Nat.shiftRight_eq_div_pow]
  · next h => rw [s.reward_of_le (Nat.not_lt.mp h), UInt64.toNat_zero]

/-- Later eras have no greater rewards. -/
lemma eraReward_antitone : Antitone s.eraReward := by
  intro k l hkl
  unfold eraReward
  by_cases hl : l < s.eras
  · rw [if_pos hl, if_pos (hkl.trans_lt hl)]
    exact Nat.div_le_div_left (Nat.pow_le_pow_right Nat.two_pos hkl) (Nat.two_pow_pos k)
  · rw [if_neg hl]
    exact Nat.zero_le _

/-- Higher blocks have been through no fewer halvings. -/
lemma halvings_mono : Monotone s.halvings := by
  intro a b hab
  unfold halvings
  split
  · exact Nat.le_refl 0
  · exact Nat.div_le_div_right hab

/-- The reward never rises. -/
lemma reward_le_of_le {low high : Nat} (h : low ≤ high) : s.reward high ≤ s.reward low := by
  rw [UInt64.le_iff_toNat_le, toNat_reward, toNat_reward]
  exact s.eraReward_antitone (s.halvings_mono h)

/-! ### Sums over eras -/

/-- From the last era on, more eras add nothing. -/
lemma sum_eraReward {m : Nat} (h : s.eras ≤ m) :
    ∑ k ∈ range m, s.eraReward k = ∑ k ∈ range s.eras, s.initialReward.toNat / 2 ^ k := by
  have hpaid : ∑ k ∈ range s.eras, s.eraReward k =
      ∑ k ∈ range s.eras, s.initialReward.toNat / 2 ^ k := by
    refine sum_congr rfl fun k hk => ?_
    unfold eraReward
    exact if_pos (mem_range.mp hk)
  rw [← hpaid]
  symm
  refine sum_subset (range_subset_range.mpr h) fun k _ hk => ?_
  unfold eraReward
  exact if_neg (fun hlt => hk (mem_range.mpr hlt))

/-- Halves that are rounded down fall short of the whole geometric sum by twice the first summand,
scaled up. -/
lemma two_pow_mul_sum_halves (a m : Nat) :
    2 ^ m * (∑ k ∈ range m, a / 2 ^ k) + 2 * a ≤ 2 ^ m * (2 * a) := by
  induction m with
  | zero => simp
  | succ m ih =>
    have hfloor : 2 ^ m * (a / 2 ^ m) ≤ a := Nat.mul_div_le a (2 ^ m)
    rw [sum_range_succ]
    calc 2 ^ (m + 1) * (∑ k ∈ range m, a / 2 ^ k + a / 2 ^ m) + 2 * a
        = 2 * (2 ^ m * ∑ k ∈ range m, a / 2 ^ k) + 2 * (2 ^ m * (a / 2 ^ m)) + 2 * a := by ring
      _ ≤ 2 * (2 ^ m * ∑ k ∈ range m, a / 2 ^ k) + 2 * a + 2 * a := by omega
      _ = 2 * (2 ^ m * (∑ k ∈ range m, a / 2 ^ k) + 2 * a) := by ring
      _ ≤ 2 * (2 ^ m * (2 * a)) := Nat.mul_le_mul_left 2 ih
      _ = 2 ^ (m + 1) * (2 * a) := by ring

/-- Halves that are rounded down stay below twice the first one. -/
lemma sum_halves_lt {a : Nat} (ha : 0 < a) (m : Nat) : ∑ k ∈ range m, a / 2 ^ k < 2 * a := by
  have hscaled : 2 ^ m * (∑ k ∈ range m, a / 2 ^ k) < 2 ^ m * (2 * a) := by
    have h := two_pow_mul_sum_halves a m
    omega
  exact Nat.lt_of_mul_lt_mul_left hscaled

/-- The cap is below twice the value of the first era, unless that is nothing. -/
lemma cap_lt (hinterval : 0 < s.halvingInterval) (hreward : 0 < s.initialReward) :
    s.cap < 2 * s.halvingInterval.toNat * s.initialReward.toNat := by
  have hsum := sum_halves_lt (UInt64.lt_iff_toNat_lt.mp hreward) s.eras
  calc s.cap < s.halvingInterval.toNat * (2 * s.initialReward.toNat) :=
        Nat.mul_lt_mul_of_pos_left hsum (UInt64.lt_iff_toNat_lt.mp hinterval)
    _ = 2 * s.halvingInterval.toNat * s.initialReward.toNat := by ring

/-- The cap is at most twice the value of the first era. -/
lemma cap_le (hinterval : 0 < s.halvingInterval) :
    s.cap ≤ 2 * s.halvingInterval.toNat * s.initialReward.toNat := by
  by_cases hreward : 0 < s.initialReward
  · exact (s.cap_lt hinterval hreward).le
  · have hzero : s.initialReward.toNat = 0 := by
      rw [UInt64.lt_iff_toNat_lt] at hreward
      exact Nat.eq_zero_of_not_pos hreward
    simp [cap, hzero]

/-! ### Sums over heights -/

variable {s}

/-- The blocks of an era all mint its reward. -/
lemma minted_add (hinterval : 0 < s.halvingInterval) (m : Nat) {r : Nat}
    (hr : r ≤ s.halvingInterval.toNat) :
    Ledger.minted s (s.halvingInterval.toNat * m + r) =
      Ledger.minted s (s.halvingInterval.toNat * m) + r * s.eraReward m := by
  have hnonzero : s.halvingInterval ≠ 0 := fun h => absurd (h ▸ hinterval) (by decide)
  induction r with
  | zero => simp
  | succ r ih =>
    have hera : s.halvings (s.halvingInterval.toNat * m + r) = m := by
      unfold halvings
      rw [if_neg hnonzero, Nat.mul_add_div (by omega), Nat.div_eq_of_lt hr, Nat.add_zero]
    rw [← Nat.add_assoc, Ledger.minted_succ, ih (Nat.le_of_succ_le hr), toNat_reward, hera]
    ring

/-- What is minted by the end of an era, as a sum over the eras. -/
lemma minted_mul (hinterval : 0 < s.halvingInterval) (m : Nat) :
    Ledger.minted s (s.halvingInterval.toNat * m) =
      s.halvingInterval.toNat * ∑ k ∈ range m, s.eraReward k := by
  induction m with
  | zero => rfl
  | succ m ih =>
    rw [Nat.mul_succ, minted_add hinterval m (Nat.le_refl _), ih, sum_range_succ, Nat.mul_add]

/-- By the end of the last era or a later one the cap has been minted. -/
lemma minted_mul_of_eras_le (hinterval : 0 < s.halvingInterval) {m : Nat} (h : s.eras ≤ m) :
    Ledger.minted s (s.halvingInterval.toNat * m) = s.cap := by
  rw [minted_mul hinterval, s.sum_eraReward h, cap]

/-- More blocks mint no less. -/
lemma minted_mono (s : RewardSchedule) : Monotone (Ledger.minted s) := by
  refine monotone_nat_of_le_succ fun n => ?_
  rw [Ledger.minted_succ]
  exact Nat.le_add_right _ _

/-- No number of blocks mints more than the cap. -/
lemma minted_le_cap (hinterval : 0 < s.halvingInterval) (n : Nat) : Ledger.minted s n ≤ s.cap := by
  have hpos : 0 < s.halvingInterval.toNat := UInt64.lt_iff_toNat_lt.mp hinterval
  have hend : n ≤ s.halvingInterval.toNat * max s.eras n :=
    (Nat.le_max_right _ _).trans (Nat.le_mul_of_pos_left _ hpos)
  calc Ledger.minted s n ≤ Ledger.minted s (s.halvingInterval.toNat * max s.eras n) :=
        minted_mono s hend
    _ = s.cap := minted_mul_of_eras_le hinterval (Nat.le_max_left _ _)

/-- Once the last era is over, the whole cap has been minted. -/
lemma minted_eq_cap (hinterval : 0 < s.halvingInterval) {n : Nat}
    (h : s.halvingInterval.toNat * s.eras ≤ n) : Ledger.minted s n = s.cap := by
  refine (minted_le_cap hinterval n).antisymm ?_
  rw [← minted_mul_of_eras_le hinterval (Nat.le_refl s.eras)]
  exact minted_mono s h

/-- The emission of any schedule. As long as there is a reward at a height it is the first reward,
shifted by less than 64, and afterwards there is none; it never rises. If there are halvings, then
any number of blocks mints at most the interval times the sum of the halved rewards, exactly this
once the last era is over, and so less than twice the value of the first era, if that is worth
anything. -/
theorem emission_capped (s : RewardSchedule) :
    (∀ height, s.halvings height < min s.maxHalvings.toNat 64 → s.halvings height < 64 ∧
      s.reward height = s.initialReward >>> UInt64.ofNat (s.halvings height) ∧
      (s.reward height).toNat = s.initialReward.toNat / 2 ^ s.halvings height) ∧
    (∀ height, min s.maxHalvings.toNat 64 ≤ s.halvings height → s.reward height = 0) ∧
    (∀ low high, low ≤ high → s.reward high ≤ s.reward low) ∧
    (0 < s.halvingInterval → ∀ n,
      let capped := s.halvingInterval.toNat *
        ∑ k ∈ range (min s.maxHalvings.toNat 64), s.initialReward.toNat / 2 ^ k
      Ledger.minted s n ≤ capped ∧
      (s.halvingInterval.toNat * min s.maxHalvings.toNat 64 ≤ n → Ledger.minted s n = capped) ∧
      Ledger.minted s n ≤ 2 * s.halvingInterval.toNat * s.initialReward.toNat ∧
      (0 < s.initialReward →
        Ledger.minted s n < 2 * s.halvingInterval.toNat * s.initialReward.toNat)) := by
  refine ⟨fun height h => ?_, fun height h => s.reward_of_le h,
    fun low high h => s.reward_le_of_le h, fun hinterval n => ?_⟩
  · obtain ⟨hwidth, hshift⟩ := s.reward_of_lt h
    refine ⟨hwidth, hshift, ?_⟩
    rw [s.toNat_reward]
    unfold eraReward
    exact if_pos h
  · have hle := minted_le_cap hinterval n
    exact ⟨hle, minted_eq_cap hinterval, hle.trans (s.cap_le hinterval),
      fun hreward => hle.trans_lt (s.cap_lt hinterval hreward)⟩

/-- The standard schedule mints a little less than twenty-one million coins in all, and that by the
height of 13440000. -/
theorem emission_capped_standard :
    0 < standard.halvingInterval ∧ Ledger.minted standard 13440000 = 2099999997690000 ∧
      ∀ n, Ledger.minted standard n ≤ 2099999997690000 := by
  have hinterval : 0 < standard.halvingInterval := by decide
  have hcap : standard.halvingInterval.toNat *
      ∑ k ∈ range (min standard.maxHalvings.toNat 64), standard.initialReward.toNat / 2 ^ k =
        2099999997690000 := by decide +kernel
  obtain ⟨-, -, -, hemission⟩ := emission_capped standard
  refine ⟨hinterval, ?_, fun n => ?_⟩
  · rw [← hcap]
    exact (hemission hinterval 13440000).2.1 (by decide)
  · rw [← hcap]
    exact (hemission hinterval n).1

end RewardSchedule

/-- The unspent outputs of an accepted chain are never worth more than the cap. -/
theorem Ledger.Accepted.totalValue_le_cap {j : Judge} {blocks : List Block} (h : Accepted j blocks)
    (hinterval : 0 < j.rewards.halvingInterval) : (utxos blocks).totalValue ≤ j.rewards.cap :=
  h.totalValue_le.trans (RewardSchedule.minted_le_cap hinterval blocks.length)

end PowLedger
