import PowLedger.Event
import PowLedger.Mining.Watch
import PowLedger.Pool
import PowLedger.Rules.Judge
import PowLedger.Settings.Basic
import PowLedger.Store.Basic
import PowLedger.Sync.Gate

/-!
# Nodes

A node holds the tip of its chain, the headers it has accepted, the unspent outputs, the pool, its
store and its observers. Three observers come with every node, in this order: the set of unspent
outputs, the pool, and the writer of block bodies. Others are watches of miners and observers from
outside, which can take an event in any way and subscribe more observers, but do not reach into the
node. What an observer from outside is told is put down in a journal together with the scene it
could see at that moment.
-/

namespace PowLedger

/-- An observer from outside, by how it behaves when told of an event. -/
class Observer (ω : Type) where
  /-- How it takes the event. -/
  receive : ω → Event → Reception
  /-- The observers it subscribes meanwhile. -/
  enlist : ω → Event → List (Topic × ω)

/-- An observer of a node. -/
inductive Subscriber (ω : Type) where
  | utxoSet
  | pool
  | bodyWriter
  /-- The watch of the miner with this number. -/
  | watch (miner : Nat)
  | outside (observer : ω)

/-- The name of an observer that belongs to the node itself. -/
def Subscriber.ownName {ω : Type} : Subscriber ω → Option String
  | .utxoSet => some "utxo-set"
  | .pool => some "mempool"
  | .bodyWriter => some "block-body-writer"
  | .watch _ => some "miner"
  | .outside _ => none

/-- What can be seen of a node while an event is delivered. -/
structure Scene (σ : Type) where
  utxos : UtxoSet
  pool : Pool
  store : σ
  watches : List Watch

/-- An event that an observer from outside was told of, and the scene at that moment. -/
structure Delivery (σ ω : Type) where
  observer : ω
  event : Event
  scene : Scene σ

/-- The state of a node over a store. -/
structure Node (σ ω : Type) where
  params : ChainParams
  limits : SyncSettings
  primitives : Primitives
  store : σ
  /-- The hash of the last block, empty for an empty chain. -/
  tipHash : String
  /-- The number of accepted blocks. -/
  height : Nat
  /-- The accepted headers by their hashes. -/
  headers : Table String Header
  status : Status
  /-- The number of sync sessions that hold the node in the syncing status. -/
  sessions : Nat
  utxos : UtxoSet
  pool : Pool
  bus : Bus (Subscriber ω)
  /-- The watches of the node's miners. -/
  watches : List Watch
  gate : Gate
  /-- What observers from outside have been told, oldest first. -/
  journal : List (Delivery σ ω)

namespace Node

variable {σ ω : Type}

/-- A node that has not read its store yet. -/
def blank (primitives : Primitives) (params : ChainParams) (limits : SyncSettings) (store : σ) :
    Node σ ω where
  params := params
  limits := limits
  primitives := primitives
  store := store
  tipHash := ""
  height := 0
  headers := Table.empty
  status := .uninitialized
  sessions := 0
  utxos := UtxoSet.empty
  pool := Pool.empty
  bus := ⟨[.utxoSet, .pool, .bodyWriter], []⟩
  watches := []
  gate := Gate.ofCapacity limits.capacity.toNat
  journal := []

/-- What the node judges blocks and transactions by. -/
def judge (n : Node σ ω) : Judge :=
  ⟨n.primitives, n.params.targetBits, n.params.rewards⟩

/-- The digest of the node's chain. -/
def digest (n : Node σ ω) : Hasher :=
  n.primitives.digest

/-- Where the next block must attach. -/
def tip (n : Node σ ω) : Tip :=
  ⟨n.tipHash, n.height⟩

/-- The hash of the last block, if there is one. -/
def lastBlockHash (n : Node σ ω) : Option String :=
  if n.tipHash = "" then none else some n.tipHash

/-- The accepted header under a hash. -/
def header? (n : Node σ ω) (hash : String) : Option Header :=
  n.headers.get? hash

/-- The accepted headers by their heights. -/
def headerList (n : Node σ ω) : List Header :=
  n.headers.values.mergeSort fun a b => a.height ≤ b.height

/-- The header of the last block. -/
def lastHeader (n : Node σ ω) : Except Fault Header :=
  match n.lastBlockHash with
  | none => .error (.notFound .tipHeader)
  | some hash =>
    match n.header? hash with
    | some h => .ok h
    | none => .error (.notFound (.header hash))

/-- The body of an accepted block. -/
def block [Storage σ] (n : Node σ ω) (hash : String) : Except Fault Block :=
  match n.header? hash with
  | none => .error (.notFound (.block hash))
  | some _ => Storage.block n.store hash

/-- The pooled transaction with an id. -/
def pooled? (n : Node σ ω) (txid : Bytes) : Option Transaction :=
  (n.pool.get? txid).map PoolEntry.transaction

/-- Adds an observer from outside. -/
def subscribe (n : Node σ ω) (topic : Topic) (observer : ω) : Node σ ω :=
  { n with bus := n.bus.subscribe topic (.outside observer) }

/-- Adds the watch of a new miner; its number is the number of watches before it. -/
def addWatch (n : Node σ ω) : Node σ ω :=
  { n with
    watches := n.watches ++ [Watch.idle]
    bus := n.bus.subscribe .blocks (.watch n.watches.length) }

/-- The watch of a miner. -/
def watch (n : Node σ ω) (miner : Nat) : Watch :=
  n.watches.getD miner Watch.idle

/-- Changes the watch of a miner. -/
def updateWatch (n : Node σ ω) (miner : Nat) (f : Watch → Watch) : Node σ ω :=
  { n with watches := n.watches.modify miner f }

/-! ### Sessions and the status -/

/-- A session starts to hold the node in the syncing status. -/
def enterSync (n : Node σ ω) : Node σ ω :=
  { n with sessions := n.sessions + 1, status := .syncing }

/-- A session lets go of the status; after the last one a syncing node is ready again. -/
def leaveSync (n : Node σ ω) : Node σ ω :=
  let left := n.sessions - 1
  { n with
    sessions := left
    status := if left = 0 ∧ n.status = .syncing then .ready else n.status }

/-! ### Telling the observers -/

/-- What can be seen of the node now. -/
def scene (n : Node σ ω) : Scene σ :=
  ⟨n.utxos, n.pool, n.store, n.watches⟩

/-- Tells one observer of an event. -/
def deliver [Storage σ] [Observer ω] (e : Event) (s : Subscriber ω) (n : Node σ ω) :
    Node σ ω × Reception :=
  match s, e with
  | .utxoSet, .blockAdded b =>
    match n.utxos.apply b with
    | .ok utxos => ({ n with utxos := utxos }, .done)
    | .error f => (n, .failed f)
  | .pool, .blockAdded b => ({ n with pool := (n.pool.evict b).1 }, .done)
  | .bodyWriter, .blockAdded b =>
    match Storage.persistBlock n.store b with
    | .ok store => ({ n with store := store }, .done)
    | .error f => (n, .failed f)
  | .watch miner, .blockAdded b => (n.updateWatch miner fun w => w.learn b.height, .done)
  | .outside o, e =>
    let bus := (Observer.enlist o e).foldl (fun bus (topic, o) => bus.subscribe topic (.outside o))
      n.bus
    ({ n with bus := bus, journal := n.journal ++ [⟨o, e, n.scene⟩] }, Observer.receive o e)
  | _, .transactionAdded _ => (n, .done)

/-- Tells all subscribers of an event; the number of those that failed comes with the node. -/
def publish [Storage σ] [Observer ω] (n : Node σ ω) (e : Event) : Node σ ω × Nat :=
  deliverAll (deliver e) n 0 (n.bus.subscribers e.topic)

end Node

end PowLedger
