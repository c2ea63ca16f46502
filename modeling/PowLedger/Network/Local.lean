import PowLedger.Network.Log
import PowLedger.Node.Reconstruction
import PowLedger.Store.Backend
import PowLedger.Sync.Peer

/-!
# Local networks

Several nodes in one process, with their stores, miners and peers, all under names. Stores outlive
nodes, and several nodes may be run over one store: a node sees at each visit what the others have
written. A node that is opened anew takes the name over, while the miners and peers that were made
for the old one stay with it; so a node lives at a place, and its name is that of the latest place.
What the watchers of all nodes note comes into one log.
-/

namespace PowLedger

/-- A store that several nodes may be run over, and that can be made to fail. -/
abbrev SharedStore := Faulty Backend

/-- A node of a local network. -/
abbrev LocalNode := Node SharedStore Watcher

/-- A node and the name of its store. -/
structure Resident where
  storeName : String
  node : LocalNode

/-- A peer of a local network. -/
inductive LocalPeer where
  /-- The node at this place. -/
  | node (place : Nat)
  | scripted (script : PeerScript)

/-- Nodes, stores, miners and peers under names. -/
structure LocalNetwork where
  /-- The clock of every attempt: one reading for the candidate, one for each further sweep. -/
  clock : Nat → Int64
  /-- The number of sweeps that an attempt is followed for. -/
  sweeps : Nat
  stores : Table String SharedStore
  /-- Every node ever opened, by its place. -/
  residents : List Resident
  /-- The latest place under each name of a node. -/
  places : Table String Nat
  miners : Table String LocalMiner
  peers : Table String LocalPeer
  log : Log
  /-- The hashes of the blocks that the miners have mined, oldest first. -/
  mined : List String
  /-- The number of lines of announcements; only the latest one is listened to. -/
  lines : Nat

/-- Something that a local network has not got. -/
inductive Unknown where
  | node (name : String)
  | miner (name : String)
  | peer (name : String)
  deriving DecidableEq

/-- What is not there, in words. -/
def Unknown.message : Unknown → String
  | .node name => s!"node {name}"
  | .miner name => s!"miner {name}"
  | .peer name => s!"peer {name}"

namespace LocalNetwork

/-- The network without anything. -/
def empty (clock : Nat → Int64) (sweeps : Nat) : LocalNetwork where
  clock := clock
  sweeps := sweeps
  stores := Table.empty
  residents := []
  places := Table.empty
  miners := Table.empty
  peers := Table.empty
  log := Log.empty
  mined := []
  lines := 0

/-! ### Stores and nodes -/

/-- The network with a store under a name, a new one if there is none yet. -/
def withStore (w : LocalNetwork) (name : String) (fresh : Backend) : LocalNetwork × SharedStore :=
  match w.stores.get? name with
  | some s => (w, s)
  | none =>
    let s := Faulty.sound fresh
    ({ w with stores := w.stores.insert name s }, s)

/-- Changes a store under a name, which is there after it anyway; the result of the change comes
with the network. -/
def onStore {α : Type} (w : LocalNetwork) (name : String) (fresh : Backend)
    (f : SharedStore → SharedStore × α) : LocalNetwork × α :=
  let (w, s) := w.withStore name fresh
  let (s, a) := f s
  ({ w with stores := w.stores.insert name s }, a)

/-- The place of a node. -/
def place (w : LocalNetwork) (name : String) : Except Unknown Nat :=
  match w.places.get? name with
  | some p => .ok p
  | none => .error (.node name)

/-- The node at a place, over its store as it is now. -/
def nodeAt? (w : LocalNetwork) (place : Nat) : Option LocalNode :=
  w.residents[place]?.map fun r =>
    { r.node with store := (w.stores.get? r.storeName).getD r.node.store }

/-- The node under a name. -/
def node (w : LocalNetwork) (name : String) : Except Unknown LocalNode :=
  match (w.places.get? name).bind w.nodeAt? with
  | some n => .ok n
  | none => .error (.node name)

/-- Puts a node back at its place, with an empty journal: its store is written. -/
def replaceNode (w : LocalNetwork) (place : Nat) (n : LocalNode) : LocalNetwork :=
  match w.residents[place]? with
  | none => w
  | some r =>
    { w with
      stores := w.stores.insert r.storeName n.store
      residents := w.residents.set place { r with node := { n with journal := [] } } }

/-- Opens a node under a name over a store. The node under this name before, if any, gives way
unless the opening fails; nothing comes of it if the walk over the headers never ends. -/
def openNode (w : LocalNetwork) (primitives : Primitives) (name storeName : String)
    (fresh : Backend) (params : ChainParams) (limits : SyncSettings) :
    LocalNetwork × Option (Except Fault Unit) :=
  let (w, store) := w.withStore storeName fresh
  match Node.open? primitives params limits store with
  | none => (w, none)
  | some (.error f) => (w, some (.error f))
  | some (.ok n) =>
    ({ w with
       residents := w.residents ++ [⟨storeName, n⟩]
       places := w.places.insert name w.residents.length }, some (.ok ()))

/-- The miner under a name. -/
def miner (w : LocalNetwork) (name : String) : Except Unknown LocalMiner :=
  match w.miners.get? name with
  | some m => .ok m
  | none => .error (.miner name)

/-- The peer under a name. -/
def peer (w : LocalNetwork) (name : String) : Except Unknown LocalPeer :=
  match w.peers.get? name with
  | some p => .ok p
  | none => .error (.peer name)

/-- Adds a peer, or gives a name to another one. -/
def addPeer (w : LocalNetwork) (name : String) (p : LocalPeer) : LocalNetwork :=
  { w with peers := w.peers.insert name p }

/-- Adds a note to the log. -/
def note (w : LocalNetwork) (n : Note) : LocalNetwork :=
  { w with log := w.log.add n }

end LocalNetwork

end PowLedger
