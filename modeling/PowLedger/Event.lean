import PowLedger.Block
import PowLedger.Fault

/-!
# Events and observers

A node tells its observers of every block and transaction it has taken. An observer subscribes to a
topic and is told in the order of subscription; one that subscribed twice is told twice. Delivery
goes to those subscribed when it starts, whatever they do meanwhile, and an observer that fails or
panics is counted and does not keep the others from being told.
-/

namespace PowLedger

/-- What observers can ask to be told of. -/
inductive Topic where
  | blocks
  | transactions
  deriving DecidableEq

/-- Something a node has taken. -/
inductive Event where
  | blockAdded (b : Block)
  | transactionAdded (tx : Transaction)
  deriving DecidableEq

/-- The topic of an event. -/
def Event.topic : Event → Topic
  | .blockAdded _ => .blocks
  | .transactionAdded _ => .transactions

/-- How an observer took an event. -/
inductive Reception where
  | done
  | failed (fault : Fault)
  | panicked
  deriving DecidableEq

/-- Whether the observer took the event without failing. -/
def Reception.isDone : Reception → Bool
  | .done => true
  | .failed _ | .panicked => false

/-- The subscribers of each topic in the order of subscription. -/
structure Bus (ω : Type) where
  blocks : List ω
  transactions : List ω

namespace Bus

variable {ω : Type}

/-- The bus without subscribers. -/
def empty : Bus ω := ⟨[], []⟩

/-- The subscribers of a topic. -/
def subscribers (bus : Bus ω) : Topic → List ω
  | .blocks => bus.blocks
  | .transactions => bus.transactions

/-- The bus with one more subscriber at the end. -/
def subscribe (bus : Bus ω) (topic : Topic) (observer : ω) : Bus ω :=
  match topic with
  | .blocks => { bus with blocks := bus.blocks ++ [observer] }
  | .transactions => { bus with transactions := bus.transactions ++ [observer] }

end Bus

/-- Tells the observers of a list one after the other, each changing the state in its way; the
number of those that failed comes with the state, on top of `failures`. -/
def deliverAll {ω S : Type} (deliver : ω → S → S × Reception) (state : S) (failures : Nat) :
    List ω → S × Nat
  | [] => (state, failures)
  | o :: rest =>
    let (state, reception) := deliver o state
    deliverAll deliver state (if reception.isDone then failures else failures + 1) rest

end PowLedger
