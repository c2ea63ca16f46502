import PowLedger.Fault
import PowLedger.Reward
import PowLedger.Work

/-!
# Settings

What a node is run with: the parameters that all nodes of a network share, what a miner does, the
limits of a sync, and where the data lie. Every setting has a default.
-/

namespace PowLedger

/-- What the nodes of a network share. -/
structure ChainParams where
  /-- The leading zero bits that a block hash must have. -/
  targetBits : UInt32 := 16
  initialReward : Amount := 5000000000
  halvingInterval : UInt64 := 210000
  maxHalvings : UInt64 := 64
  blockVersion : UInt32 := 1
  deriving DecidableEq

/-- The reward schedule of a network. -/
def ChainParams.rewards (p : ChainParams) : RewardSchedule :=
  ⟨p.initialReward, p.halvingInterval, p.maxHalvings⟩

/-- What a miner does. -/
structure MinerSettings where
  /-- The number of pooled transactions in a block. -/
  maxTransactions : UInt64 := 100
  /-- The hash of the key that the coinbase pays, in hexadecimal; there is no mining without. -/
  rewardKey : Option String := none
  /-- The last nonce that is tried before the time is set anew. -/
  maxNonce : UInt64 := 4294967295
  deriving DecidableEq

/-- The limits of a sync, in milliseconds. -/
structure SyncSettings where
  /-- How long a peer may take for an answer. -/
  peerTimeout : UInt64 := 5000
  /-- How long a session waits at the gate. -/
  gateDeadline : UInt64 := 10000
  /-- How many sessions may be past the gate. -/
  capacity : UInt64 := 1
  deriving DecidableEq

/-- What a node is run with. -/
structure NodeSettings where
  dataDir : String := "data/ledger"
  chain : ChainParams := {}
  miner : MinerSettings := {}
  sync : SyncSettings := {}
  deriving DecidableEq

/-- The environment variable that sets the data directory. -/
def dataDirVariable : String := "LEDGER_DATA_DIR"

/-- The environment variable that sets the target. -/
def targetBitsVariable : String := "LEDGER_TARGET_BITS"

/-- The environment variable that sets the mining key. -/
def miningKeyVariable : String := "LEDGER_MINING_KEY"

/-- The hash of the key that a miner's coinbase pays. -/
def MinerSettings.rewardLock (m : MinerSettings) : Except Fault Bytes :=
  match m.rewardKey with
  | none => .error (.config (.noMiningKey miningKeyVariable))
  | some text =>
    match Bytes.ofHex (Utf8.encode text) with
    | .ok lock => .ok lock
    | .error f => .error (.config (.badMiningKey text f))

end PowLedger
