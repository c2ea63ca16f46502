import PowLedger.Store.Durable
import PowLedger.Store.Volatile

/-!
# Backends, and stores that fail

A node is given one of the two kinds of store. To watch how it meets a failing store, any store can
be wrapped: each operation that a node uses can be made to fail with a given fault, and works again
once the fault is lifted. A failing operation leaves the wrapped store as it is.
-/

namespace PowLedger

/-- A store of either kind. -/
inductive Backend where
  | volatile (s : VolatileStore)
  | durable (s : DurableStore)

instance : Storage Backend where
  persistHeader
    | .volatile s, hash, h => .volatile <$> Storage.persistHeader s hash h
    | .durable s, hash, h => .durable <$> Storage.persistHeader s hash h
  persistBlock
    | .volatile s, b => .volatile <$> Storage.persistBlock s b
    | .durable s, b => .durable <$> Storage.persistBlock s b
  lastHeader
    | .volatile s => Storage.lastHeader s
    | .durable s => Storage.lastHeader s
  lastBlock
    | .volatile s => Storage.lastBlock s
    | .durable s => Storage.lastBlock s
  genesisHeader
    | .volatile s => Storage.genesisHeader s
    | .durable s => Storage.genesisHeader s
  genesisBlock
    | .volatile s => Storage.genesisBlock s
    | .durable s => Storage.genesisBlock s
  header
    | .volatile s, hash => Storage.header s hash
    | .durable s, hash => Storage.header s hash
  block
    | .volatile s, hash => Storage.block s hash
    | .durable s, hash => Storage.block s hash
  lastBlockHash
    | .volatile s => Storage.lastBlockHash s
    | .durable s => Storage.lastBlockHash s
  headerBound
    | .volatile s => Storage.headerBound s
    | .durable s => Storage.headerBound s

/-- An operation that can be made to fail. -/
inductive StoreCall where
  | persistHeader
  | persistBlock
  | header
  | block
  | lastBlockHash
  deriving DecidableEq

/-- A store some of whose operations fail. -/
structure Faulty (σ : Type) where
  store : σ
  /-- The fault of an operation, if it fails. -/
  faults : StoreCall → Option Fault

namespace Faulty

variable {σ : Type}

/-- A store that works. -/
def sound (s : σ) : Faulty σ :=
  ⟨s, fun _ => none⟩

/-- Makes an operation fail from now on, or work again. -/
def setFault (s : Faulty σ) (call : StoreCall) (fault : Option Fault) : Faulty σ :=
  { s with faults := fun c => if c = call then fault else s.faults c }

/-- The result of an operation unless it is made to fail. -/
def guarded {α : Type} (s : Faulty σ) (call : StoreCall) (result : Except Fault α) :
    Except Fault α :=
  match s.faults call with
  | some f => .error f
  | none => result

/-- A new state of the wrapped store under the same faults. -/
def rewrap (s : Faulty σ) (result : Except Fault σ) : Except Fault (Faulty σ) :=
  match result with
  | .ok t => .ok { s with store := t }
  | .error f => .error f

instance [Storage σ] : Storage (Faulty σ) where
  persistHeader s hash h :=
    s.guarded .persistHeader (s.rewrap (Storage.persistHeader s.store hash h))
  persistBlock s b := s.guarded .persistBlock (s.rewrap (Storage.persistBlock s.store b))
  lastHeader s := Storage.lastHeader s.store
  lastBlock s := Storage.lastBlock s.store
  genesisHeader s := Storage.genesisHeader s.store
  genesisBlock s := Storage.genesisBlock s.store
  header s hash := s.guarded .header (Storage.header s.store hash)
  block s hash := s.guarded .block (Storage.block s.store hash)
  lastBlockHash s := s.guarded .lastBlockHash (Storage.lastBlockHash s.store)
  headerBound s := Storage.headerBound s.store

end Faulty

end PowLedger
