import PowLedger.Fault
import PowLedger.Block
import PowLedger.Table

/-!
# The set of unspent outputs

The set maps the outpoint of every spendable output to the output. Only confirmed blocks change it.
A block is applied in two passes: the first follows its transactions in order and refuses the block
if an input is not there to be spent or an output would take an occupied place; the second takes
the spent outputs out and puts the new ones in. A refused block changes nothing.
-/

namespace PowLedger

/-- The spendable outputs by their outpoints. -/
structure UtxoSet where
  table : Table Outpoint TxOutput

namespace UtxoSet

/-- The set without outputs. -/
def empty : UtxoSet := ⟨Table.empty⟩

instance : Inhabited UtxoSet := ⟨empty⟩

/-- The unspent output at an outpoint. -/
def get? (s : UtxoSet) (o : Outpoint) : Option TxOutput :=
  s.table.get? o

/-- Whether there is an unspent output at an outpoint. -/
def isLive (s : UtxoSet) (o : Outpoint) : Bool :=
  s.table.contains o

/-- The number of unspent outputs. -/
def size (s : UtxoSet) : Nat :=
  s.table.size

/-- The unspent outputs with their outpoints. -/
def entries (s : UtxoSet) : List (Outpoint × TxOutput) :=
  s.table.entries

/-- The exact sum of the unspent amounts. -/
def totalValue (s : UtxoSet) : Nat :=
  Amount.total (s.table.values.map TxOutput.value)

/-- The unspent outputs locked with `lock`. -/
def lockedWith (s : UtxoSet) (lock : Bytes) : List (Outpoint × TxOutput) :=
  s.entries.filter fun e => e.2.lock == lock

/-- The exact sum, added to `acc`, of the outputs at the given outpoints. -/
def balanceFrom (s : UtxoSet) (acc : Amount) : List Outpoint → Except Fault Amount
  | [] => .ok acc
  | o :: rest =>
    match s.get? o with
    | none => .error (.notFound (.utxo o))
    | some out =>
      match Amount.add? acc out.value with
      | none => .error (.consistency .inputOverflow)
      | some acc => s.balanceFrom acc rest

/-- The exact sum of the outputs at the given outpoints. -/
def balance (s : UtxoSet) (sources : List Outpoint) : Except Fault Amount :=
  s.balanceFrom 0 sources

/-! ### Applying a block -/

/-- What the transactions read so far spend and create. -/
structure Effects where
  spent : List Outpoint
  created : List Outpoint

/-- Why a block cannot be applied. -/
inductive Conflict where
  /-- The output to be spent is not there, or already spent by the block. -/
  | missing (o : Outpoint)
  /-- The place of a new output is taken. -/
  | occupied (o : Outpoint)
  deriving DecidableEq

/-- Marks outpoints as spent; each must be live and not spent yet. -/
def spendAll (s : UtxoSet) (e : Effects) : List Outpoint → Except Conflict Effects
  | [] => .ok e
  | o :: rest =>
    if s.isLive o ∧ o ∉ e.spent then s.spendAll { e with spent := o :: e.spent } rest
    else .error (.missing o)

/-- Marks outpoints as created; a live one must be spent by now, and none is created twice. -/
def createAll (s : UtxoSet) (e : Effects) : List Outpoint → Except Conflict Effects
  | [] => .ok e
  | o :: rest =>
    if (s.isLive o ∧ o ∉ e.spent) ∨ o ∈ e.created then .error (.occupied o)
    else s.createAll { e with created := o :: e.created } rest

/-- The effects of transactions in order, on top of `e`. -/
def effectsFrom (s : UtxoSet) (e : Effects) : List Transaction → Except Conflict Effects
  | [] => .ok e
  | tx :: rest =>
    match s.spendAll e tx.sources with
    | .error c => .error c
    | .ok e =>
      match s.createAll e (tx.created.map Prod.fst) with
      | .error c => .error c
      | .ok e => s.effectsFrom e rest

/-- The set without the given outpoints. -/
def without (s : UtxoSet) (spent : List Outpoint) : UtxoSet :=
  ⟨spent.foldl Table.erase s.table⟩

/-- The set with the given outputs put in. -/
def withCreated (s : UtxoSet) (created : List (Outpoint × TxOutput)) : UtxoSet :=
  ⟨created.foldl (fun t e => t.insert e.1 e.2) s.table⟩

/-- The conflict of a block, as a fault. -/
def Conflict.fault (b : Block) : Conflict → Fault
  | .missing o => .consistency (.missingUtxo o b.hash b.height)
  | .occupied o => .consistency (.occupiedUtxo o b.hash b.height)

/-- The set after a confirmed block. -/
def apply (s : UtxoSet) (b : Block) : Except Fault UtxoSet :=
  match s.effectsFrom ⟨[], []⟩ b.transactions with
  | .error c => .error (c.fault b)
  | .ok e => .ok ((s.without e.spent).withCreated (b.transactions.flatMap Transaction.created))

end UtxoSet

end PowLedger
