import PowLedger.Bytes
import PowLedger.Amount

/-!
# Transactions

A transaction consumes outputs of earlier transactions and creates new ones. An output is found by
its outpoint: the id of the transaction that made it and its position there. A transaction without
inputs is a coinbase; it mints the reward of a block and carries the block's height as data.
-/

namespace PowLedger

/-- The place of an output: the transaction that made it and the position in its output list. -/
structure Outpoint where
  txid : Bytes
  index : UInt64
  deriving DecidableEq

/-- The text under which an outpoint is reported. -/
def Outpoint.text (o : Outpoint) : String :=
  o.txid.hex ++ "-" ++ toString o.index.toNat

/-- Outpoints ordered by id, then by position. -/
def Outpoint.precedes (a b : Outpoint) : Bool :=
  if a.txid = b.txid then a.index < b.index else Bytes.precedes a.txid b.txid

/-- The output that a transaction consumes, and the proof that its owner agrees. -/
structure TxInput where
  source : Outpoint
  signature : Bytes
  publicKey : Bytes
  deriving DecidableEq

/-- An amount and the hash of the key that may spend it. -/
structure TxOutput where
  value : Amount
  lock : Bytes
  deriving DecidableEq

/-- A transfer of value from consumed outputs to new ones. -/
structure Transaction where
  id : Bytes
  inputs : List TxInput
  outputs : List TxOutput
  /-- The block height in a coinbase, empty in any other transaction. -/
  coinbaseData : Bytes
  deriving DecidableEq

namespace TxInput

/-- An input that consumes `source` and is not signed yet. -/
def unsigned (source : Outpoint) : TxInput :=
  ⟨source, [], []⟩

end TxInput

namespace Transaction

/-- A transaction without inputs mints value. -/
def isCoinbase (tx : Transaction) : Bool :=
  tx.inputs.isEmpty

/-- The outpoints that a transaction consumes, in order. -/
def sources (tx : Transaction) : List Outpoint :=
  tx.inputs.map TxInput.source

/-- The outpoint of the output at `index`. -/
def outpoint (tx : Transaction) (index : Nat) : Outpoint :=
  ⟨tx.id, UInt64.ofNat index⟩

/-- The outputs with their outpoints, in order. -/
def created (tx : Transaction) : List (Outpoint × TxOutput) :=
  tx.outputs.zipIdx.map fun (out, index) => (tx.outpoint index, out)

/-- The exact sum of the outputs, if it is an amount. -/
def outputValue? (tx : Transaction) : Option Amount :=
  Amount.sum? (tx.outputs.map TxOutput.value)

/-- A transaction that consumes `sources` and makes `outputs`, without signatures and id. -/
def unsigned (sources : List Outpoint) (outputs : List TxOutput) : Transaction :=
  ⟨[], sources.map TxInput.unsigned, outputs, []⟩

/-- The transaction with its id left out. -/
def withoutId (tx : Transaction) : Transaction :=
  { tx with id := [] }

/-- The transaction with its id, signatures and keys left out. -/
def stripped (tx : Transaction) : Transaction :=
  ⟨[], tx.inputs.map fun i => TxInput.unsigned i.source, tx.outputs, tx.coinbaseData⟩

end Transaction

end PowLedger
