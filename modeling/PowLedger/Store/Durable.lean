import PowLedger.Store.Basic
import PowLedger.Table

/-!
# The durable store

A store of two trees from byte strings to byte strings, one for headers and one for bodies, which
survives a restart. Entries lie under their hashes in stored form. The pointers lie in the same
trees under names of their own, so an entry whose hash is such a name and the pointer overwrite
each other; the entry is written first.
-/

namespace PowLedger

/-- A map between byte strings. -/
abbrev ByteTree := Table Bytes Bytes

/-- The two trees of a durable store. -/
structure DurableStore where
  headers : ByteTree
  blocks : ByteTree

namespace DurableStore

/-- The store that nothing was written to. -/
def empty : DurableStore :=
  ⟨Table.empty, Table.empty⟩

/-- The key of a pointer. -/
def pointerKey (p : Pointer) : Bytes :=
  Utf8.encode p.name

/-- The hash that a pointer of a tree holds. -/
def follow (t : ByteTree) (p : Pointer) : Except Fault String :=
  match t.get? (pointerKey p) with
  | none => .error (.notFound (.pointer p))
  | some bs =>
    match Utf8.decode bs with
    | .ok hash => .ok hash
    | .error f => .error (.database (.badPointer p f))

/-- A stored value read with a decoder. -/
def read {α : Type} (d : Decoder α) (bs : Bytes) : Except Fault α :=
  match d.value bs with
  | .ok a => .ok a
  | .error f => .error (.serialization (.unreadable f))

/-- The header under a hash. -/
def header (s : DurableStore) (hash : String) : Except Fault Header :=
  match s.headers.get? (Utf8.encode hash) with
  | none => .error (.notFound (.header hash))
  | some bs => read Codec.decodeHeader bs

/-- The body under a hash. -/
def block (s : DurableStore) (hash : String) : Except Fault Block :=
  match s.blocks.get? (Utf8.encode hash) with
  | none => .error (.notFound (.block hash))
  | some bs => read Codec.decodeBlock bs

/-- A tree with an entry and then the pointers to it. -/
def writeEntry (t : ByteTree) (hash : String) (value : Bytes) (pointers : List Pointer) :
    ByteTree :=
  let key := Utf8.encode hash
  pointers.foldl (fun t p => t.insert (pointerKey p) key) (t.insert key value)

/-- Keeps a header. -/
def persistHeader (s : DurableStore) (hash : String) (h : Header) : DurableStore :=
  let pointers : List Pointer :=
    if h.isGenesis then [.lastHeader, .lastBlockHash, .firstHeader]
    else [.lastHeader, .lastBlockHash]
  { s with headers := writeEntry s.headers hash (Codec.encodeHeader h) pointers }

/-- Keeps a body. -/
def persistBlock (s : DurableStore) (b : Block) : DurableStore :=
  let pointers : List Pointer := if b.isGenesis then [.lastBlock, .firstBlock] else [.lastBlock]
  { s with blocks := writeEntry s.blocks b.hash (Codec.encodeBlock b) pointers }

instance : Storage DurableStore where
  persistHeader s hash h := .ok (s.persistHeader hash h)
  persistBlock s b := .ok (s.persistBlock b)
  lastHeader s := follow s.headers .lastHeader >>= s.header
  lastBlock s := follow s.blocks .lastBlock >>= s.block
  genesisHeader s := follow s.headers .firstHeader >>= s.header
  genesisBlock s := follow s.blocks .firstBlock >>= s.block
  header := header
  block := block
  lastBlockHash s := follow s.headers .lastBlockHash
  headerBound s := s.headers.size

/-- The stored form of a tree. -/
def encodeTree (t : ByteTree) : Bytes :=
  Codec.encodeList (fun e => Codec.encodeBytes e.1 ++ Codec.encodeBytes e.2) t.entries

/-- Reads a tree. -/
def decodeTree : Decoder ByteTree := do
  let pairs ← Codec.decodeList do
    let key ← Codec.decodeBytes
    let value ← Codec.decodeBytes
    return (key, value)
  return pairs.foldl (fun t e => t.insert e.1 e.2) Table.empty

/-- The stored form of a whole store. -/
def toBytes (s : DurableStore) : Bytes :=
  encodeTree s.headers ++ encodeTree s.blocks

/-- Reads a whole store. -/
def ofBytes (bs : Bytes) : Except Fault DurableStore :=
  read (do
    let headers ← decodeTree
    let blocks ← decodeTree
    return ⟨headers, blocks⟩) bs

end DurableStore

end PowLedger
