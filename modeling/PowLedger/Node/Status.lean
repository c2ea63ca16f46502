/-!
# The status of a node

A node is uninitialized until its state has been rebuilt from its store, reconstructing meanwhile,
and then ready; while any sync session is under way it is syncing. Blocks and transactions are
taken only when it is ready or syncing.
-/

namespace PowLedger

/-- What a node is doing. -/
inductive Status where
  | uninitialized
  | reconstructing
  | ready
  | syncing
  deriving DecidableEq

namespace Status

/-- The name of a status. -/
def name : Status → String
  | .uninitialized => "Uninitialized"
  | .reconstructing => "Reconstructing"
  | .ready => "Ready"
  | .syncing => "Syncing"

/-- Whether blocks and transactions are taken. -/
def admits : Status → Bool
  | .ready | .syncing => true
  | .uninitialized | .reconstructing => false

end Status

end PowLedger
