import PowLedger.Amount

/-!
# The reward schedule

The coinbase of a block may mint a reward that depends on the block's height. It halves, rounding
down, each time `halvingInterval` more blocks have gone by, and is zero once the number of halvings
reaches `maxHalvings` or the width of an amount. With an interval of zero it never halves.
-/

namespace PowLedger

/-- How the reward falls with the height. -/
structure RewardSchedule where
  initialReward : Amount
  halvingInterval : UInt64
  maxHalvings : UInt64
  deriving DecidableEq

namespace RewardSchedule

/-- Fifty coins of a hundred million units, halved every 210000 blocks. -/
def standard : RewardSchedule :=
  ⟨5000000000, 210000, 64⟩

/-- How often the reward has been halved at `height`. -/
def halvings (s : RewardSchedule) (height : Nat) : Nat :=
  if s.halvingInterval = 0 then 0 else height / s.halvingInterval.toNat

/-- The reward at `height`. -/
def reward (s : RewardSchedule) (height : Nat) : Amount :=
  let n := s.halvings height
  if s.maxHalvings.toNat ≤ n ∨ 64 ≤ n then 0 else s.initialReward >>> UInt64.ofNat n

end RewardSchedule

end PowLedger
