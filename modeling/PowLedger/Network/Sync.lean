import PowLedger.Network.Delivery
import PowLedger.Sync.Announced
import PowLedger.Sync.Timeline

/-!
# Sync in local networks

The peers of a local network are its own nodes, which answer at once with what they have, and
scripted ones. Sync sessions of a node run against them, and a node hears of headers and
transactions from them.
-/

namespace PowLedger

namespace LocalNetwork

/-! ### Peers -/

/-- A peer is asked by a node of the given status. -/
def ask (w : LocalNetwork) (status : Status) (name : String) (r : Request) :
    LocalNetwork × PeerAnswer :=
  match w.peers.get? name with
  | some (.scripted s) =>
    let s := s.note r status
    (w.addPeer name (.scripted s), ⟨s.delay r, s.reply r, s.callsOff⟩)
  | some (.node place) =>
    match w.nodeAt? place with
    | some n => (w, ⟨0, (Answers.ofNode n).reply r, false⟩)
    | none => (w, ⟨0, .failure (.notFound (.reported name)) r, false⟩)
  | none => (w, ⟨0, .failure (.notFound (.reported name)) r, false⟩)

/-! ### Sync -/

/-- A network with one of its nodes taken out to be worked on. -/
structure Visit where
  network : LocalNetwork
  place : Nat
  node : LocalNode

/-- The node that is worked on goes back to its place at every change, where its peers see it. Its
store may have been changed from there. -/
def Visit.put (v : Visit) (n : LocalNode) : Visit :=
  let w := v.network.putNode v.place n
  ⟨w, v.place, (w.nodeAt? v.place).getD n⟩

/-- The surroundings of the sync sessions of one node. -/
def surroundings : Surroundings Visit SharedStore Watcher where
  node := Visit.node
  setNode := Visit.put
  ask v name r :=
    let (w, answer) := v.network.ask v.node.status name r
    ({ v with network := w }, answer)

/-- How many steps a run of sessions is followed for. -/
def syncFuel : Nat := 10000000

/-- Runs sync sessions of the node under a name, all started at once. -/
def sync (w : LocalNetwork) (name : String) (standing : Standing)
    (sessions : List Timeline.Start) :
    Except Unknown (LocalNetwork × List (Option (Except Fault Nat))) := do
  let place ← w.place name
  let n ← w.node name
  let _ ← sessions.mapM fun s => w.peer s.peer
  let t := Timeline.run surroundings syncFuel (Timeline.start ⟨w, place, n⟩ standing sessions)
  return (t.surroundings.network, t.results)

/-! ### Announcements -/

/-- A peer announces a header to the node under a name; the flag says whether the block was
taken. -/
def hearHeader (w : LocalNetwork) (name peer : String) (h : Header) :
    Except Unknown (LocalNetwork × Except Fault Bool) := do
  let n ← w.node name
  let _ ← w.peer peer
  match n.headerAnnounced h with
  | .error f => return (w, .error f)
  | .ok none => return (w, .ok false)
  | .ok (some hash) =>
    let request := Request.block hash
    let (w, answer) := w.ask n.status peer request
    let served : Except Fault Block :=
      match answer.reply with
      | .block r => r
      | _ => .error (.notFound (.block hash))
    let limit := n.limits.peerTimeout.toNat
    let (r, _) := Answer.within peer request.what limit ⟨answer.delay, served⟩
    w.visit name fun n => n.announcedBody peer hash r

/-- A peer announces a transaction to the node under a name; the flag says whether it was taken. -/
def hearTransaction (w : LocalNetwork) (name peer : String) (txid : Bytes) :
    Except Unknown (LocalNetwork × Except Fault Bool) := do
  let n ← w.node name
  let _ ← w.peer peer
  if n.wantsTransaction txid then
    let request := Request.transaction txid
    let (w, answer) := w.ask n.status peer request
    let served : Except Fault Transaction :=
      match answer.reply with
      | .transaction r => r
      | _ => .error (.notFound (.transaction txid))
    let limit := n.limits.peerTimeout.toNat
    let (r, _) := Answer.within peer request.what limit ⟨answer.delay, served⟩
    w.visit name fun n => n.announcedTransaction peer txid r
  else return (w, .ok false)

end LocalNetwork

end PowLedger
