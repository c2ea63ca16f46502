import PowLedger.Merkle
import PowLedger.Reward
import PowLedger.Transaction.Identity
import PowLedger.Utxo
import PowLedger.Work

/-!
# The consensus rules

A judge holds what a chain is bound to: its digest and signature scheme, its target and its reward
schedule. It accepts a transaction over a set of unspent outputs, a header on a tip, and a block on
a tip over such a set; otherwise it names the first broken rule, in a fixed order. What it returns
on acceptance is the fee, or the sum of the fees of a block.
-/

namespace PowLedger

/-- Where the next block must attach. -/
structure Tip where
  /-- The hash of the last block, empty for an empty chain. -/
  hash : String
  /-- The number of blocks, which is the height of the next one. -/
  height : Nat
  deriving DecidableEq

/-- What the blocks of a chain are judged by. -/
structure Judge where
  primitives : Primitives
  target : UInt32
  rewards : RewardSchedule

/-- The first outpoint that occurs among the `seen` ones or before itself in the list. -/
def firstRepeated (seen : List Outpoint) : List Outpoint → Option Outpoint
  | [] => none
  | o :: rest => if o ∈ seen then some o else firstRepeated (o :: seen) rest

/-- What a transaction must satisfy whatever the chain: it has an output and no repeated input. -/
def Transaction.checkShape (tx : Transaction) : Except Breach Unit :=
  if tx.outputs.isEmpty then .error .noOutputs
  else
    match firstRepeated [] tx.sources with
    | some o => .error (.duplicateInput o)
    | none => .ok ()

namespace Judge

/-- The digest of the chain. -/
def digest (j : Judge) : Hasher :=
  j.primitives.digest

/-- The shape of a transaction, its breach as a fault. -/
def checkShape (tx : Transaction) : Except Fault Unit :=
  match tx.checkShape with
  | .ok _ => .ok ()
  | .error rule => .error (.validation rule)

/-- The id of a transaction must be the computed one. -/
def checkId (j : Judge) (tx : Transaction) : Except Fault Unit :=
  let computed := tx.computedId j.digest
  if computed = tx.id then .ok () else .error (.validation (.txIdMismatch tx.id computed))

/-- An input must spend a live output, with the key it is locked to and a signature of `message`. -/
def checkInput (j : Judge) (utxos : UtxoSet) (message : Bytes) (i : TxInput) : Except Fault Unit :=
  match utxos.get? i.source with
  | none => .error (.validation (.unknownInput i.source))
  | some out =>
    if lockingHash i.publicKey ≠ out.lock then .error (.validation (.ownershipMismatch i.source))
    else if j.primitives.verify i.publicKey i.signature message then .ok ()
    else .error (.validation (.badSignature i.source))

/-- All inputs in order. -/
def checkInputs (j : Judge) (utxos : UtxoSet) (message : Bytes) : List TxInput → Except Fault Unit
  | [] => .ok ()
  | i :: rest =>
    match j.checkInput utxos message i with
    | .error f => .error f
    | .ok _ => j.checkInputs utxos message rest

/-- What the inputs of a transaction leave over its outputs. -/
def fee (utxos : UtxoSet) (tx : Transaction) : Except Fault Amount := do
  let inputs ← utxos.balance tx.sources
  let outputs ← tx.outputValue
  if inputs < outputs then .error (.validation (.negativeFee inputs outputs))
  else .ok (inputs - outputs)

/-- Judges a spending transaction; it returns the fee. -/
def checkTransaction (j : Judge) (tx : Transaction) (utxos : UtxoSet) : Except Fault Amount := do
  checkShape tx
  if tx.isCoinbase then .error (.validation .noInputs)
  j.checkId tx
  j.checkInputs utxos (tx.signingDigest j.digest) tx.inputs
  fee utxos tx

/-- Judges a header on a tip: linkage, height, target and proof of work. -/
def checkHeader (j : Judge) (h : Header) (tip : Tip) : Except Fault Unit :=
  if h.previous ≠ tip.hash then .error (.validation (.prevHashMismatch tip.hash h.previous))
  else if h.height.toNat ≠ tip.height then
    .error (.validation (.heightMismatch tip.height h.height.toNat))
  else if h.target ≠ j.target then .error (.validation (.targetMismatch j.target h.target))
  else if h.hasWork j.digest then .ok ()
  else .error (.validation (.insufficientWork (h.hash j.digest)))

/-- The declared hash of a block must be that of its header. -/
def checkHash (j : Judge) (b : Block) : Except Fault Unit :=
  let computed := b.header.hash j.digest
  if computed = b.hash then .ok () else .error (.validation (.hashMismatch b.hash computed))

/-- The root in the header must be that of the transactions. -/
def checkRoot (j : Judge) (b : Block) : Except Fault Unit :=
  match b.rootMatches j.digest with
  | .error f => .error f
  | .ok true => .ok ()
  | .ok false => .error (.validation .merkleRootMismatch)

/-- The first transaction, and it alone, is a coinbase, and it states the height of the block. -/
def checkCoinbasePlace (b : Block) (coinbase : Transaction) (others : List Transaction) :
    Except Fault Unit :=
  if !coinbase.isCoinbase then .error (.validation .missingCoinbase)
  else
    match others.findIdx? Transaction.isCoinbase with
    | some i => .error (.validation (.misplacedCoinbase (i + 1)))
    | none =>
      if coinbase.coinbaseData = bigEndian 8 b.height then .ok ()
      else .error (.validation (.coinbaseHeightMismatch b.height))

/-- No output is spent by two inputs of the transactions. -/
def checkDisjoint (others : List Transaction) : Except Fault Unit :=
  match firstRepeated [] (others.flatMap Transaction.sources) with
  | some o => .error (.validation (.doubleSpend o))
  | none => .ok ()

/-- Judges transactions in order over one set; it returns the capped sum of their fees on top of
`acc`. -/
def checkTransactions (j : Judge) (utxos : UtxoSet) (acc : Amount) :
    List Transaction → Except Fault Amount
  | [] => .ok acc
  | tx :: rest =>
    match j.checkTransaction tx utxos with
    | .error f => .error f
    | .ok fee => j.checkTransactions utxos (Amount.addCapped acc fee) rest

/-- The coinbase is well formed and pays at most the reward and the fees. -/
def checkCoinbase (j : Judge) (height : Nat) (coinbase : Transaction) (fees : Amount) :
    Except Fault Unit := do
  checkShape coinbase
  j.checkId coinbase
  let allowed := Amount.addCapped (j.rewards.reward height) fees
  let claimed ← coinbase.outputValue
  if allowed < claimed then .error (.validation (.excessiveCoinbase claimed allowed))

/-- Judges a block on a tip over the unspent outputs; it returns the sum of the fees. -/
def checkBlock (j : Judge) (b : Block) (tip : Tip) (utxos : UtxoSet) : Except Fault Amount := do
  j.checkHeader b.header tip
  j.checkHash b
  match b.transactions with
  | [] => .error (.validation .emptyBlock)
  | coinbase :: others =>
    j.checkRoot b
    checkCoinbasePlace b coinbase others
    checkDisjoint others
    let fees ← j.checkTransactions utxos 0 others
    j.checkCoinbase b.height coinbase fees
    return fees

end Judge

end PowLedger
