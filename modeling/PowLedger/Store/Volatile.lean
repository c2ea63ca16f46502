import PowLedger.Store.Basic
import PowLedger.Table

/-!
# The volatile store

A store that lives as long as the process: two tables, and the pointers beside them.
-/

namespace PowLedger

/-- Headers, bodies and pointers in memory. -/
structure VolatileStore where
  headers : Table String Header
  blocks : Table String Block
  lastHeader : Option String
  firstHeader : Option String
  lastBlock : Option String
  firstBlock : Option String

namespace VolatileStore

/-- The store that nothing was written to. -/
def empty : VolatileStore :=
  ⟨Table.empty, Table.empty, none, none, none, none⟩

/-- Where a pointer points. -/
def follow (p : Pointer) : Option String → Except Fault String
  | some hash => .ok hash
  | none => .error (.notFound (.pointer p))

/-- The header under a hash. -/
def header (s : VolatileStore) (hash : String) : Except Fault Header :=
  match s.headers.get? hash with
  | some h => .ok h
  | none => .error (.notFound (.header hash))

/-- The body under a hash. -/
def block (s : VolatileStore) (hash : String) : Except Fault Block :=
  match s.blocks.get? hash with
  | some b => .ok b
  | none => .error (.notFound (.block hash))

/-- Keeps a header. -/
def persistHeader (s : VolatileStore) (hash : String) (h : Header) : VolatileStore :=
  { s with
    headers := s.headers.insert hash h
    lastHeader := some hash
    firstHeader := if h.isGenesis then some hash else s.firstHeader }

/-- Keeps a body. -/
def persistBlock (s : VolatileStore) (b : Block) : VolatileStore :=
  { s with
    blocks := s.blocks.insert b.hash b
    lastBlock := some b.hash
    firstBlock := if b.isGenesis then some b.hash else s.firstBlock }

instance : Storage VolatileStore where
  persistHeader s hash h := .ok (s.persistHeader hash h)
  persistBlock s b := .ok (s.persistBlock b)
  lastHeader s := follow .lastBlockHash s.lastHeader >>= s.header
  lastBlock s := follow .lastBlock s.lastBlock >>= s.block
  genesisHeader s := follow .firstHeader s.firstHeader >>= s.header
  genesisBlock s := follow .firstBlock s.firstBlock >>= s.block
  header := header
  block := block
  lastBlockHash s := follow .lastBlockHash s.lastHeader
  headerBound s := s.headers.size

end VolatileStore

end PowLedger
