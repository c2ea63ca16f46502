import PowLedger.Transaction.Basic
import PowLedger.Text.Quoted

/-!
# Broken rules

Each constructor is one consensus rule, with what is needed to say how it was broken.
-/

namespace PowLedger

/-- The rule that a transaction, header or block breaks. -/
inductive Breach where
  | noInputs
  | noOutputs
  | duplicateInput (source : Outpoint)
  | unknownInput (source : Outpoint)
  | ownershipMismatch (source : Outpoint)
  | badSignature (source : Outpoint)
  | duplicateTransaction (txid : Bytes)
  | negativeFee (inputs outputs : Amount)
  | txIdMismatch (declared computed : Bytes)
  | prevHashMismatch (expected found : String)
  | heightMismatch (expected found : Nat)
  | targetMismatch (expected found : UInt32)
  | insufficientWork (hash : String)
  | hashMismatch (declared computed : String)
  | merkleRootMismatch
  | emptyBlock
  | missingCoinbase
  | coinbaseHeightMismatch (height : Nat)
  | misplacedCoinbase (index : Nat)
  | doubleSpend (source : Outpoint)
  | excessiveCoinbase (claimed allowed : Amount)
  deriving DecidableEq

namespace Breach

/-- The name of a rule. -/
def name : Breach → String
  | .noInputs => "NoInputs"
  | .noOutputs => "NoOutputs"
  | .duplicateInput _ => "DuplicateInput"
  | .unknownInput _ => "UnknownInput"
  | .ownershipMismatch _ => "OwnershipMismatch"
  | .badSignature _ => "BadSignature"
  | .duplicateTransaction _ => "DuplicateTransaction"
  | .negativeFee _ _ => "NegativeFee"
  | .txIdMismatch _ _ => "TxIdMismatch"
  | .prevHashMismatch _ _ => "PrevHashMismatch"
  | .heightMismatch _ _ => "HeightMismatch"
  | .targetMismatch _ _ => "TargetMismatch"
  | .insufficientWork _ => "InsufficientWork"
  | .hashMismatch _ _ => "HashMismatch"
  | .merkleRootMismatch => "MerkleRootMismatch"
  | .emptyBlock => "EmptyBlock"
  | .missingCoinbase => "MissingCoinbase"
  | .coinbaseHeightMismatch _ => "CoinbaseHeightMismatch"
  | .misplacedCoinbase _ => "MisplacedCoinbase"
  | .doubleSpend _ => "DoubleSpend"
  | .excessiveCoinbase _ _ => "ExcessiveCoinbase"

/-- How a rule was broken, in words. -/
def message : Breach → String
  | .noInputs => "transaction has no inputs and is not a coinbase"
  | .noOutputs => "transaction must have at least one output"
  | .duplicateInput o => s!"input {o.text} is spent twice by the same transaction"
  | .unknownInput o => s!"input {o.text} does not reference an unspent output"
  | .ownershipMismatch o =>
    s!"public key of input {o.text} does not hash to the output's locking hash"
  | .badSignature o => s!"signature of input {o.text} does not verify"
  | .duplicateTransaction txid => s!"transaction {txid.hex} is already in the pool"
  | .negativeFee inputs outputs =>
    s!"outputs ({outputs.toNat}) exceed inputs ({inputs.toNat})"
  | .txIdMismatch declared computed =>
    s!"declared transaction id {declared.hex} does not match {computed.hex}"
  | .prevHashMismatch expected found =>
    s!"previous hash {quoted found} does not link to tip {quoted expected}"
  | .heightMismatch expected found => s!"height {found} does not follow chain height {expected}"
  | .targetMismatch expected found =>
    s!"target {found.toNat} differs from chain target {expected.toNat}"
  | .insufficientWork hash => s!"block {hash} does not satisfy its proof-of-work target"
  | .hashMismatch declared computed =>
    s!"declared block hash {declared} does not match {computed}"
  | .merkleRootMismatch => "merkle root does not match the block's transactions"
  | .emptyBlock => "block has no transactions"
  | .missingCoinbase => "first transaction is not a coinbase"
  | .coinbaseHeightMismatch height => s!"coinbase does not commit to block height {height}"
  | .misplacedCoinbase index => s!"coinbase found at position {index}"
  | .doubleSpend o => s!"output {o.text} is spent twice within the block"
  | .excessiveCoinbase claimed allowed =>
    s!"coinbase claims {claimed.toNat}, at most {allowed.toNat} allowed"

end Breach

end PowLedger
