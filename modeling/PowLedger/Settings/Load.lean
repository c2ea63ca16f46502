import PowLedger.Document.Ledger
import PowLedger.Document.Toml

/-!
# Loading settings

Settings begin as the defaults or as what a file says; then three environment variables override
single settings; then the result is checked.
-/

namespace PowLedger

/-- The environment variables that override settings, as far as they are set. -/
structure Environment where
  dataDir : Option String := none
  targetBits : Option String := none
  miningKey : Option String := none

namespace NodeSettings

/-- The settings that the text of a file says. -/
def ofToml (text : String) : Except Fault NodeSettings :=
  match (Toml.read text).bind (ofDocument true) with
  | some s => .ok s
  | none => .error (.config .malformed)

/-- The settings of a file, given by its text or by the reason why there is none; the defaults if
there is no file at all. -/
def ofSource (file : Option (Except ConfigFault String)) : Except Fault NodeSettings :=
  match file with
  | none => .ok {}
  | some (.error f) => .error (.config f)
  | some (.ok text) => ofToml text

/-- The target bits that a variable says. -/
def readTargetBits (text : String) : Except Fault UInt32 :=
  match Numeral.read UInt32.size text with
  | .ok n => .ok (UInt32.ofNat n)
  | .error f => .error (.config (.badNumber targetBitsVariable text f))

/-- The settings with those overridden that variables are set for. -/
def override (s : NodeSettings) (env : Environment) : Except Fault NodeSettings := do
  let targetBits ←
    match env.targetBits with
    | none => .ok s.chain.targetBits
    | some text => readTargetBits text
  return { s with
    dataDir := env.dataDir.getD s.dataDir
    chain := { s.chain with targetBits := targetBits }
    miner := { s.miner with rewardKey := env.miningKey <|> s.miner.rewardKey } }

/-- The target must be reachable, and at least one sync session possible. -/
def check (s : NodeSettings) : Except Fault Unit :=
  if maxTargetBits < s.chain.targetBits.toNat then
    .error (.config (.targetTooHigh s.chain.targetBits.toNat maxTargetBits))
  else if s.sync.capacity = 0 then .error (.config .noSyncCapacity)
  else .ok ()

/-- Loads settings from a file, if any, and the environment. -/
def load (file : Option (Except ConfigFault String)) (env : Environment) :
    Except Fault NodeSettings := do
  let s ← ofSource file
  let s ← s.override env
  s.check
  return s

end NodeSettings

end PowLedger
