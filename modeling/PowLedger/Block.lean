import PowLedger.Transaction.Basic
import PowLedger.Text.Utf8

/-!
# Headers and blocks

A header names the block before it by the text of its hash and commits to the transactions through
their Merkle root. Its hash is the digest of its assembled bytes: seven fields side by side, the
numbers in big-endian form of fixed width, the previous hash and the root as they are. The first
header of a chain names no block.
-/

namespace PowLedger

/-- A function from messages to digests. -/
abbrev Hasher := Bytes → Bytes

/-- What a block commits to and what its proof of work is made for. -/
structure Header where
  version : UInt32
  /-- The hash of the block before, empty in the first block. -/
  previous : String
  merkleRoot : Bytes
  height : UInt64
  /-- Milliseconds since the epoch. -/
  timestamp : Int64
  /-- The leading zero bits that the hash must have. -/
  target : UInt32
  nonce : UInt64
  deriving DecidableEq

/-- A header, its transactions, and the hash that the block declares for itself. -/
structure Block where
  header : Header
  transactions : List Transaction
  hash : String
  deriving DecidableEq

namespace Header

/-- The first header of a chain names no block before it. -/
def isGenesis (h : Header) : Bool :=
  h.previous == ""

/-- The assembled bytes in front of the nonce. -/
def assembleFront (h : Header) : Bytes :=
  bigEndian 4 h.version.toNat ++ Utf8.encode h.previous ++ h.merkleRoot ++
    bigEndian 8 h.height.toNat ++ bigEndian 8 h.timestamp.toUInt64.toNat ++
    bigEndian 4 h.target.toNat

/-- The assembled bytes with another nonce in place of the header's own. -/
def assembleWith (h : Header) (nonce : UInt64) : Bytes :=
  h.assembleFront ++ bigEndian 8 nonce.toNat

/-- The bytes that the hash of a header is taken of. -/
def assemble (h : Header) : Bytes :=
  h.assembleWith h.nonce

/-- The hash of a header, in lower-case hexadecimal. -/
def hash (digest : Hasher) (h : Header) : String :=
  (digest h.assemble).hex

end Header

namespace Block

/-- A block that declares the hash of its header. -/
def ofHeader (digest : Hasher) (header : Header) (transactions : List Transaction) : Block :=
  ⟨header, transactions, header.hash digest⟩

/-- The height that the header states. -/
def height (b : Block) : Nat :=
  b.header.height.toNat

/-- The first block of a chain. -/
def isGenesis (b : Block) : Bool :=
  b.header.isGenesis

/-- The ids of the transactions, in order. -/
def ids (b : Block) : List Bytes :=
  b.transactions.map Transaction.id

end Block

end PowLedger
