/-!
# The sync gate

The gate lets a limited number of sessions through at a time. A session comes with a ticket. It
gets a permit at once if one is free and nobody waits; else it queues. A permit that is given back
goes to the first ticket of the queue. A ticket may withdraw at any time; if it holds a permit by
then, the permit is given back.
-/

namespace PowLedger

/-- The permits of a gate, who holds them and who waits for one. -/
structure Gate where
  /-- The permits that nobody holds. -/
  free : Nat
  /-- The tickets that hold a permit. -/
  held : List Nat
  /-- The tickets that wait, first come first. -/
  queue : List Nat
  deriving DecidableEq

namespace Gate

/-- A gate with `capacity` permits, all free. -/
def ofCapacity (capacity : Nat) : Gate := ⟨capacity, [], []⟩

/-- Whether a ticket holds a permit. -/
def holds (g : Gate) (ticket : Nat) : Bool :=
  g.held.contains ticket

/-- A ticket asks for a permit: it gets one or queues. -/
def ask (g : Gate) (ticket : Nat) : Gate :=
  match g.free, g.queue with
  | free + 1, [] => { g with free := free, held := ticket :: g.held }
  | _, _ => { g with queue := g.queue ++ [ticket] }

/-- A ticket that holds a permit gives it back; the first of the queue gets it. -/
def release (g : Gate) (ticket : Nat) : Gate :=
  match g.queue with
  | [] => { g with free := g.free + 1, held := g.held.erase ticket }
  | next :: queue => { g with held := next :: g.held.erase ticket, queue := queue }

/-- A ticket leaves the gate, whether it waits or holds a permit. -/
def leave (g : Gate) (ticket : Nat) : Gate :=
  if g.holds ticket then g.release ticket else { g with queue := g.queue.erase ticket }

end Gate

end PowLedger
