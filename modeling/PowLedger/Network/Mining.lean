import PowLedger.Network.Delivery

/-!
# Mining in local networks

The miners of a local network make attempts one at a time, each on the node at its home. An attempt
can be called off from the start, or be raced by a rival block that reaches the node meanwhile.
-/

namespace PowLedger

/-- An attempt during which another block is brought to the node: if the node takes it, the attempt
is called off. -/
def Mining.rivalled (m : Miner) (rival : Block) (n : LocalNode) : LocalNode × MineOutcome :=
  let n := n.updateWatch m.watch fun w => w.begin n.height false
  let n := (n.addBlock rival).1
  (n.updateWatch m.watch Watch.finish, .cancelled)

namespace LocalNetwork

/-- Adds a miner for the node under a name. -/
def addMiner (w : LocalNetwork) (name nodeName : String) (maxTransactions : Nat)
    (maxNonce : UInt64) (lock : Bytes) : Except Unknown LocalNetwork := do
  let place ← w.place nodeName
  let (w, watch) ← w.visit nodeName fun n => (n.addWatch, n.watches.length)
  let m : LocalMiner := ⟨place, ⟨watch, maxTransactions, maxNonce, lock⟩⟩
  return { w with miners := w.miners.insert name m }

/-- One attempt of a miner, called off from the start perhaps. -/
def attempt (w : LocalNetwork) (m : LocalMiner) (calledOff : Bool) :
    LocalNetwork × Option (Except Fault MineOutcome) :=
  attemptWithin calledOff w.depth [] m w

/-- One attempt of a miner against a rival block. -/
def attemptAgainst (w : LocalNetwork) (m : LocalMiner) (rival : Block) :
    LocalNetwork × Option (Except Fault MineOutcome) :=
  match w.visitAt m.home (Mining.rivalled m.miner rival) with
  | some (w, outcome) => (w, some (.ok outcome))
  | none => (w, none)

/-- One attempt of the miner under a name. The height that it still builds afterwards comes with the
result. -/
def mineOnce (w : LocalNetwork) (name : String) (calledOff : Bool) (rival : Option Block) :
    Except Unknown (LocalNetwork × Option (Except Fault MineOutcome) × Option Nat) := do
  let m ← w.miner name
  let (w, r) :=
    match rival with
    | some b => w.attemptAgainst m b
    | none => w.attempt m calledOff
  return (w, r, (w.watch [] m).attemptHeight)

/-- Calls off the attempt that a miner is at. -/
def callOff (w : LocalNetwork) (name : String) : Except Unknown LocalNetwork := do
  let m ← w.miner name
  match w.visitAt m.home fun n => (n.updateWatch m.miner.watch Watch.callOff, ()) with
  | some (w, _) => return w
  | none => throw (.miner name)

/-- Lets a miner mine until it has found enough blocks or the shutdown is requested. -/
def mine (w : LocalNetwork) (name : String) (shutdown : Bool) (limit : Option Nat)
    (attempts : Nat) : Except Unknown (LocalNetwork × Option (Except Fault Nat)) := do
  let m ← w.miner name
  return Mining.repeatAttempts (·.attempt m false) shutdown limit 0 attempts w

end LocalNetwork

end PowLedger
