import PowLedger.Codec.Record
import PowLedger.Fault

/-!
# Stores

A store keeps headers and block bodies under their hashes, and pointers to the first and the last
of each. Writing a header is the commit point of a block: it moves the pointer that a restart
begins at. The body follows separately and may be lost. A store operation either fails and leaves
the store as it is, or gives the store after it.
-/

namespace PowLedger

/-- A place that headers and bodies are kept in. -/
class Storage (σ : Type) where
  /-- Keeps a header under a hash and makes it the last one. -/
  persistHeader : σ → (hash : String) → Header → Except Fault σ
  /-- Keeps a body under its own hash and makes it the last one. -/
  persistBlock : σ → Block → Except Fault σ
  lastHeader : σ → Except Fault Header
  lastBlock : σ → Except Fault Block
  genesisHeader : σ → Except Fault Header
  genesisBlock : σ → Except Fault Block
  /-- The header under a hash. -/
  header : σ → (hash : String) → Except Fault Header
  /-- The body under a hash. -/
  block : σ → (hash : String) → Except Fault Block
  /-- The hash of the header written last. -/
  lastBlockHash : σ → Except Fault String
  /-- No more headers than this are kept. -/
  headerBound : σ → Nat

end PowLedger
