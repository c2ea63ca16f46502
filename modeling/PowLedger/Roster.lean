/-!
# The roster of peers

The peers a node knows, in the order in which it met them, no two with one name.
-/

namespace PowLedger

/-- Peers of a kind `π` under their names. -/
structure Roster (π : Type) where
  peers : List (String × π)

namespace Roster

variable {π : Type}

/-- The roster without peers. -/
def empty : Roster π := ⟨[]⟩

/-- The peer of a name. -/
def get? (r : Roster π) (name : String) : Option π :=
  (r.peers.find? fun p => p.1 == name).map Prod.snd

/-- Adds a peer unless its name is known; the flag says whether it was added. -/
def add (r : Roster π) (name : String) (peer : π) : Roster π × Bool :=
  if r.peers.any fun p => p.1 == name then (r, false)
  else (⟨r.peers ++ [(name, peer)]⟩, true)

/-- Forgets the peer of a name. -/
def evict (r : Roster π) (name : String) : Roster π :=
  ⟨r.peers.eraseP fun p => p.1 == name⟩

/-- The number of peers. -/
def size (r : Roster π) : Nat :=
  r.peers.length

end Roster

end PowLedger
