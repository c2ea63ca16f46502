import PowLedger.Mining.Attempt
import PowLedger.Sync.Announced

/-!
# Watchers

Observers to watch a node with. A watcher has a name, by which its deliveries are told apart, and a
manner: it may only look on, fail, panic, bring in another watcher, look at the attempt of a miner,
make one itself, or pass the event on as an announcement.
-/

namespace PowLedger

/-- A miner among several nodes: the place of its node, and its data. -/
structure LocalMiner where
  home : Nat
  miner : Miner
  deriving DecidableEq

/-- How a watcher takes an event. -/
inductive Manner where
  /-- Looks on. -/
  | record
  | fail
  | panic
  /-- Brings in a watcher that looks on, for the topic of the event. -/
  | recruit
  /-- Looks at the attempt of a miner, of this node or another one. -/
  | reportAttempt (miner : LocalMiner)
  /-- Makes an attempt with a miner, of this node or another one, that may be at work already. -/
  | restartAttempt (miner : LocalMiner)
  /-- Passes the event on as an announcement, in the line with this number. -/
  | announce (line : Nat)
  /-- Passes the event on to a line that has shut down. -/
  | announceClosed
  deriving DecidableEq

/-- An observer to watch a node with. -/
structure Watcher where
  name : String
  manner : Manner
  deriving DecidableEq

namespace Watcher

/-- How a watcher takes an event. -/
def receive (w : Watcher) : Reception :=
  match w.manner with
  | .fail => .failed (.mining (.reported "the watcher fails"))
  | .panic => .panicked
  | .announceClosed => .failed (.network .relayClosed)
  | .record | .recruit | .reportAttempt _ | .restartAttempt _ | .announce _ => .done

/-- The watcher that another one brings in. -/
def recruit (w : Watcher) : Watcher :=
  ⟨w.name ++ "+", .record⟩

instance : Observer Watcher where
  receive w _ := w.receive
  enlist w e := if w.manner = .recruit then [(e.topic, w.recruit)] else []

end Watcher

/-- A bus of watchers by itself, with what they have been told, oldest first. -/
structure WatchedBus where
  bus : Bus Watcher
  told : List (Watcher × Event)

namespace WatchedBus

/-- The bus without watchers. -/
def empty : WatchedBus := ⟨Bus.empty, []⟩

/-- Adds a watcher at the end of a topic. -/
def subscribe (b : WatchedBus) (topic : Topic) (w : Watcher) : WatchedBus :=
  { b with bus := b.bus.subscribe topic w }

/-- Tells one watcher of an event. -/
def deliver (e : Event) (w : Watcher) (b : WatchedBus) : WatchedBus × Reception :=
  let bus := (Observer.enlist w e).foldl (fun bus s => bus.subscribe s.1 s.2) b.bus
  (⟨bus, b.told ++ [(w, e)]⟩, Observer.receive w e)

/-- Tells all watchers of its topic of an event; the number of those that failed comes with the
bus. -/
def publish (b : WatchedBus) (e : Event) : WatchedBus × Nat :=
  deliverAll (deliver e) b 0 (b.bus.subscribers e.topic)

end WatchedBus

end PowLedger
