import PowLedger.Fault
import PowLedger.Sync.Gate
import PowLedger.Table

/-!
# A gate with named holders

A book over a gate keeps its permits under names, on a clock of milliseconds that moves only while
somebody waits. Permits that are to be given back later are kept with the moment they are due. One
who waits goes away at the deadline, before anything else of that moment happens. At any earlier
moment everything that is due happens first, and then the one who waits looks around: called off, it
goes away without a permit, even one it has just been handed; else it takes what it was handed.
-/

namespace PowLedger

/-- A gate, the names its permits are kept under, and the permits to be given back later. -/
structure GateBook where
  gate : Gate
  /-- How long one waits for a permit. -/
  patience : Nat
  now : Nat
  holders : Table String Nat
  /-- The tickets to be given back, each with its moment, in the order of promising. -/
  promised : List (Nat × Nat)
  nextTicket : Nat

namespace GateBook

/-- A book over an unused gate. -/
def ofCapacity (capacity patience : Nat) : GateBook :=
  ⟨Gate.ofCapacity capacity, patience, 0, Table.empty, [], 0⟩

/-- The number of free permits. -/
def available (b : GateBook) : Nat :=
  b.gate.free

/-- The permit of a name is given back; the flag says whether there was one. -/
def release (b : GateBook) (name : String) : GateBook × Bool :=
  match b.holders.get? name with
  | none => (b, false)
  | some ticket =>
    ({ b with holders := b.holders.erase name, gate := b.gate.release ticket }, true)

/-- The permit of a name leaves it, to be given back after a delay. -/
def promise (b : GateBook) (name : String) (delay : Nat) : GateBook :=
  match b.holders.get? name with
  | none => b
  | some ticket =>
    { b with
      holders := b.holders.erase name
      promised := b.promised ++ [(b.now + delay, ticket)] }

/-- Gives back the promised permits that are due at a moment. -/
def keepPromises (b : GateBook) (moment : Nat) : GateBook :=
  let (present, later) := b.promised.partition fun p => p.1 ≤ moment
  { b with
    promised := later
    gate := present.foldl (fun g p => g.release p.2) b.gate }

/-- Keeps a permit under a name; an older one of that name is given back. -/
def hold (b : GateBook) (name : String) (ticket : Nat) : GateBook :=
  let b := (b.release name).1
  { b with holders := b.holders.insert name ticket }

/-- One who waits with a ticket goes away at a moment, without a permit. -/
def giveUp (b : GateBook) (ticket moment : Nat) : GateBook :=
  { b with gate := b.gate.leave ticket, now := moment }

/-- The next moment at which something happens: a promised permit is given back, or the one who
waits is called off. -/
def nextMoment (b : GateBook) (callOffAt : Option Nat) : Option Nat :=
  (callOffAt.toList ++ b.promised.map fun p => max b.now p.1).min?

/-- Waits for a permit under a name with a ticket that has asked in vain. -/
def await (b : GateBook) (name : String) (ticket : Nat) (callOffAt : Option Nat) :
    GateBook × Except Fault Unit :=
  let deadline := b.now + b.patience
  match (b.nextMoment callOffAt).filter (· < deadline) with
  | none => (b.giveUp ticket deadline, .error (.timeout (.gate b.patience)))
  | some moment =>
    let b := b.keepPromises moment
    if callOffAt.any (· ≤ moment) then (b.giveUp ticket moment, .error (.cancelled .gate))
    else (({ b with now := moment } : GateBook).hold name ticket, .ok ())

/-- Asks for a permit to be kept under a name; `calledOff` says that the wait is called off before
it begins, `callOffAfter` when it will be. The time waited comes with the result. -/
def acquire (b : GateBook) (name : String) (calledOff : Bool) (callOffAfter : Option Nat) :
    GateBook × Except Fault Unit × Nat :=
  if calledOff then (b, .error (.cancelled .gate), 0)
  else
    let ticket := b.nextTicket
    let asked := { b with gate := b.gate.ask ticket, nextTicket := ticket + 1 }
    if asked.gate.holds ticket then (asked.hold name ticket, .ok (), 0)
    else
      let (after, r) := asked.await name ticket (callOffAfter.map (b.now + ·))
      (after, r, after.now - b.now)

end GateBook

end PowLedger
