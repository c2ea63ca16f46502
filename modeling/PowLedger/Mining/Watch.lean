/-!
# Watching a mining attempt

A miner has one watch. While an attempt is under way, the watch holds the height that the attempt
builds and whether it has been called off. Told of a block that reaches this height, the watch
calls the attempt off.
-/

namespace PowLedger

/-- The attempt of a miner, if one is under way. -/
structure Watch where
  /-- The height that the latest attempt builds. -/
  target : Nat
  /-- Whether the attempt under way has been called off. -/
  current : Option Bool
  deriving DecidableEq

namespace Watch

/-- The watch before the first attempt. -/
def idle : Watch := ⟨0, none⟩

/-- The watch once an attempt at `height` has begun; `calledOff` if it was so from the start. -/
def begin (_w : Watch) (height : Nat) (calledOff : Bool) : Watch :=
  ⟨height, some calledOff⟩

/-- The watch once the attempt is over. -/
def finish (w : Watch) : Watch :=
  { w with current := none }

/-- The height that the attempt under way builds. -/
def attemptHeight (w : Watch) : Option Nat :=
  w.current.map fun _ => w.target

/-- Calls off the attempt under way, if there is one. -/
def callOff (w : Watch) : Watch :=
  { w with current := w.current.map fun _ => true }

/-- Whether the attempt under way has been called off. -/
def isCalledOff (w : Watch) : Bool :=
  w.current == some true

/-- Learns that the chain has got a block of the given height. -/
def learn (w : Watch) (height : Nat) : Watch :=
  if w.target ≤ height then w.callOff else w

end Watch

end PowLedger
