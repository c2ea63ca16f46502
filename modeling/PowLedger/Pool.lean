import PowLedger.Block
import PowLedger.Table

/-!
# The pool of unconfirmed transactions

The pool keeps its transactions by falling fee, among equal fees in the order of their arrival.
Transactions that spend the same output may lie in it together: a selection for a block takes at
most one of them, and a confirmed block evicts all that spend what it spends. An index from each
outpoint to the ids of the pooled transactions that spend it makes eviction direct.
-/

namespace PowLedger

/-- A pooled transaction, its fee and the number of arrivals before it. -/
structure PoolEntry where
  transaction : Transaction
  fee : Amount
  arrival : Nat

/-- The unconfirmed transactions by rank, and who spends what. -/
structure Pool where
  entries : List PoolEntry
  /-- The ids of the pooled transactions that spend an outpoint. -/
  spenders : Table Outpoint (List Bytes)
  /-- The number of transactions that ever arrived. -/
  arrivals : Nat

namespace Pool

/-- The pool without transactions. -/
def empty : Pool := ⟨[], Table.empty, 0⟩

instance : Inhabited Pool := ⟨empty⟩

/-- The number of pooled transactions. -/
def size (p : Pool) : Nat :=
  p.entries.length

/-- The entry of the transaction with a given id. -/
def get? (p : Pool) (txid : Bytes) : Option PoolEntry :=
  p.entries.find? fun e => e.transaction.id == txid

/-- Whether the transaction with a given id is pooled. -/
def contains (p : Pool) (txid : Bytes) : Bool :=
  (p.get? txid).isSome

/-- Puts a new entry behind all that pay at least as much. -/
def rank (e : PoolEntry) : List PoolEntry → List PoolEntry
  | [] => [e]
  | x :: rest => if x.fee < e.fee then e :: x :: rest else x :: rank e rest

/-- The index with `txid` noted as a spender of each of `sources`. -/
def noteSpender (txid : Bytes) (index : Table Outpoint (List Bytes)) (sources : List Outpoint) :
    Table Outpoint (List Bytes) :=
  sources.foldl (fun t o => t.insert o ((t.get? o).getD [] ++ [txid])) index

/-- Pools a transaction with its fee; one whose id is pooled already is refused. -/
def append (p : Pool) (tx : Transaction) (fee : Amount) : Pool × Bool :=
  if p.contains tx.id then (p, false)
  else
    ({ entries := rank ⟨tx, fee, p.arrivals⟩ p.entries
       spenders := noteSpender tx.id p.spenders tx.sources
       arrivals := p.arrivals + 1 }, true)

/-! ### Selection -/

/-- Goes down the ranks and takes up to `count` transactions that spend nothing consumed so far. -/
def selectFrom (consumed : List Outpoint) : (count : Nat) → List PoolEntry → List PoolEntry
  | 0, _ => []
  | _ + 1, [] => []
  | count + 1, e :: rest =>
    if e.transaction.sources.any (consumed.contains ·) then selectFrom consumed (count + 1) rest
    else e :: selectFrom (consumed ++ e.transaction.sources) count rest

/-- The entries chosen for a block of at most `count` pooled transactions. -/
def select (p : Pool) (count : Nat) : List PoolEntry :=
  selectFrom [] count p.entries

/-- The sum of the fees of some entries, capped. -/
def fees (es : List PoolEntry) : Amount :=
  es.foldl (fun acc e => Amount.addCapped acc e.fee) 0

/-! ### Eviction -/

/-- The index with `txid` struck from the spenders of each of `sources`. -/
def strikeSpender (txid : Bytes) (index : Table Outpoint (List Bytes)) (sources : List Outpoint) :
    Table Outpoint (List Bytes) :=
  sources.foldl (fun t o =>
    match t.get? o with
    | none => t
    | some ids =>
      match ids.filter (· != txid) with
      | [] => t.erase o
      | left => t.insert o left) index

/-- Takes the transaction with a given id out of the pool; the flag says whether it was there. -/
def remove (p : Pool) (txid : Bytes) : Pool × Bool :=
  match p.get? txid with
  | none => (p, false)
  | some e =>
    ({ p with
       entries := p.entries.eraseP fun x => x.transaction.id == txid
       spenders := strikeSpender txid p.spenders e.transaction.sources }, true)

/-- Takes out the transactions with the given ids; `count` others have gone before them. -/
def removeAll (p : Pool) (count : Nat) : List Bytes → Pool × Nat
  | [] => (p, count)
  | txid :: rest =>
    match p.remove txid with
    | (p, true) => p.removeAll (count + 1) rest
    | (p, false) => p.removeAll count rest

/-- Evicts every transaction that spends one of the outpoints; `count` have gone before them. -/
def evictFrom (p : Pool) (count : Nat) : List Outpoint → Pool × Nat
  | [] => (p, count)
  | o :: rest =>
    match p.spenders.get? o with
    | none => p.evictFrom count rest
    | some ids =>
      let (p, count) := { p with spenders := p.spenders.erase o }.removeAll count ids
      p.evictFrom count rest

/-- Evicts what a confirmed block makes unspendable; the number of evicted transactions comes with
the pool. -/
def evict (p : Pool) (b : Block) : Pool × Nat :=
  p.evictFrom 0 (b.transactions.flatMap Transaction.sources)

/-- The number of inputs of pooled transactions that spend the outpoint of this text. -/
def spenderCount (p : Pool) (text : String) : Nat :=
  match p.spenders.entries.find? fun e => e.1.text == text with
  | some (_, ids) => ids.length
  | none => 0

end Pool

end PowLedger
