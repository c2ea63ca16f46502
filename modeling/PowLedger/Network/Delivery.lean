import PowLedger.Network.Local

/-!
# What watchers do

A watcher may make an attempt with the miner of another node while its own node is telling it of an
event. So nodes can be at work one inside the other: each waits, in the middle of a delivery, for
the next. A node that is at work takes no block before it is done. An attempt on such a node can
come to nothing but a refusal, be it that the miner is at an attempt already or that no hash can
reach the target; any other attempt would wait for a node that waits for it.

What a watcher sees is the scene of its delivery for the nodes at work, and the present state for
all others.
-/

namespace PowLedger

/-- The nodes at work by their places, each with the scene of its delivery, the innermost first. -/
abbrev AtWork := List (Nat × Scene SharedStore)

/-- What an attempt comes to on a node that is at work itself, if it ends at all. -/
def Scene.refusal {σ : Type} (s : Scene σ) (target : UInt32) (m : Miner) : Option Fault :=
  if (s.watches.getD m.watch Watch.idle).current.isSome then some (.mining .attemptRunning)
  else
    match threshold target with
    | .error f => some f
    | .ok _ => none

namespace LocalNetwork

/-- The watch of a miner, as it is seen while some nodes are at work. -/
def watch (w : LocalNetwork) (atWork : AtWork) (m : LocalMiner) : Watch :=
  match atWork.lookup m.home, w.residents[m.home]? with
  | some scene, _ => scene.watches.getD m.miner.watch Watch.idle
  | none, some r => r.node.watch m.miner.watch
  | none, none => Watch.idle

/-- Notes the hash of the block that an attempt has mined. -/
def noteMined (w : LocalNetwork) : Option (Except Fault MineOutcome) → LocalNetwork
  | some (.ok (.mined b)) => { w with mined := w.mined ++ [b.hash] }
  | _ => w

/-- How an attempt of a miner is made while some nodes are at work. -/
abbrev Attempter :=
  AtWork → LocalMiner → LocalNetwork → LocalNetwork × Option (Except Fault MineOutcome)

/-- A watcher does what it does about an event; the first of the nodes at work tells it. -/
def attend (attempt : Attempter) (atWork : AtWork) (o : Watcher) (e : Event) (w : LocalNetwork) :
    LocalNetwork :=
  match o.manner with
  | .record | .fail | .panic | .recruit => w.note (.told o.name e)
  | .reportAttempt m =>
    (w.note (.told o.name e)).note (.attemptSeen o.name (w.watch atWork m).attemptHeight)
  | .restartAttempt m =>
    match attempt atWork m (w.note (.told o.name e)) with
    | (w, some r) => w.note (.attemptMade o.name r)
    | (w, none) => w
  | .announce line =>
    if line + 1 = w.lines then { w with log := w.log.addAnnouncement (.ofEvent e) } else w
  | .announceClosed => w

/-- The watchers do what they do about the deliveries of a node. -/
def settle (attempt : Attempter) (atWork : AtWork) (place : Nat)
    (journal : List (Delivery SharedStore Watcher)) (w : LocalNetwork) : LocalNetwork :=
  journal.foldl
    (fun w d => attend attempt ((place, d.scene) :: atWork) d.observer d.event w) w

/-- One attempt of a miner while some nodes are at work; `depth` bounds how many more nodes can
come to work inside it. -/
def attemptWithin (calledOff : Bool) : (depth : Nat) → Attempter
  | 0, _, _, w => (w, none)
  | depth + 1, atWork, m, w =>
    match w.nodeAt? m.home, atWork.lookup m.home with
    | none, _ => (w, none)
    | some n, some scene => (w, (scene.refusal n.params.targetBits m.miner).map .error)
    | some n, none =>
      let (n, r) := Mining.attempt n m.miner calledOff w.clock w.sweeps
      let w := settle (attemptWithin false depth) atWork m.home n.journal (w.replaceNode m.home n)
      (w.noteMined r, r)

/-- How deep attempts can be inside one another: every node comes to work once at most, and one
more attempt may be refused. -/
def depth (w : LocalNetwork) : Nat :=
  w.residents.length + 1

/-- Puts a node back at its place; its watchers do what they do about its deliveries. -/
def putNode (w : LocalNetwork) (place : Nat) (n : LocalNode) : LocalNetwork :=
  settle (attemptWithin false w.depth) [] place n.journal (w.replaceNode place n)

/-- Lets something happen to the node at a place. -/
def visitAt {α : Type} (w : LocalNetwork) (place : Nat) (f : LocalNode → LocalNode × α) :
    Option (LocalNetwork × α) :=
  (w.nodeAt? place).map fun n =>
    let (n, a) := f n
    (w.putNode place n, a)

/-- Lets something happen to the node under a name. -/
def visit {α : Type} (w : LocalNetwork) (name : String) (f : LocalNode → LocalNode × α) :
    Except Unknown (LocalNetwork × α) :=
  match (w.places.get? name).bind fun place => w.visitAt place f with
  | some r => .ok r
  | none => .error (.node name)

/-- Subscribes a watcher to topics of the node under a name. -/
def subscribe (w : LocalNetwork) (name : String) (topics : List Topic) (o : Watcher) :
    Except Unknown LocalNetwork :=
  (w.visit name fun n => (topics.foldl (fun n t => n.subscribe t o) n, ())).map Prod.fst

/-- Passes events of the node under a name on as announcements: in a new line, which is listened to
in place of the older ones, or in one that has shut down. -/
def announce (w : LocalNetwork) (name : String) (topics : List Topic) (closed : Bool) :
    Except Unknown LocalNetwork :=
  let announcer (m : Manner) : Watcher := ⟨"announcer", m⟩
  if closed then w.subscribe name topics (announcer .announceClosed)
  else
    let log := { w.log with announcements := [] }
    let listening := { w with lines := w.lines + 1, log := log }
    listening.subscribe name topics (announcer (.announce w.lines))

end LocalNetwork

end PowLedger
