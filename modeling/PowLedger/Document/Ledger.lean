import PowLedger.Document.Form
import PowLedger.Merkle
import PowLedger.Settings.Basic

/-!
# Ledger data as documents

The forms of transactions, headers, blocks, Merkle proofs and settings, and the documents they are
written as. Byte strings are lists of bytes. Every field must be there, except in settings, where a
missing one has its default.
-/

namespace PowLedger

namespace Document

/-- The document of a byte string. -/
def ofBytes (bs : Bytes) : Document :=
  .list (bs.map fun b => ofNat b.toNat)

/-- The fields of a record all of whose fields must be there. -/
def allFields (names : List String) (d : Document) : Option (List Document) :=
  (d.fields false names).bind fun ds => ds.mapM id

end Document

namespace TxInput

/-- The document of an input. -/
def toDocument (i : TxInput) : Document :=
  .ofFields [("txid", .ofBytes i.source.txid), ("vout", .ofNat i.source.index.toNat),
    ("signature", .ofBytes i.signature), ("pub_key", .ofBytes i.publicKey)]

/-- The input that a document is. -/
def ofDocument (d : Document) : Option TxInput := do
  match ← d.allFields ["txid", "vout", "signature", "pub_key"] with
  | [txid, index, signature, publicKey] =>
    return ⟨⟨← txid.bytes, ← index.word64⟩, ← signature.bytes, ← publicKey.bytes⟩
  | _ => none

end TxInput

namespace TxOutput

/-- The document of an output. -/
def toDocument (o : TxOutput) : Document :=
  .ofFields [("value", .ofNat o.value.toNat), ("pub_key_hash", .ofBytes o.lock)]

/-- The output that a document is. -/
def ofDocument (d : Document) : Option TxOutput := do
  match ← d.allFields ["value", "pub_key_hash"] with
  | [value, lock] => return ⟨← value.word64, ← lock.bytes⟩
  | _ => none

end TxOutput

namespace Transaction

/-- The document of a transaction. -/
def toDocument (tx : Transaction) : Document :=
  .ofFields [("id", .ofBytes tx.id), ("vin", .list (tx.inputs.map TxInput.toDocument)),
    ("vout", .list (tx.outputs.map TxOutput.toDocument)),
    ("coinbase_data", .ofBytes tx.coinbaseData)]

/-- The transaction that a document is. -/
def ofDocument (d : Document) : Option Transaction := do
  match ← d.allFields ["id", "vin", "vout", "coinbase_data"] with
  | [id, inputs, outputs, coinbaseData] =>
    return ⟨← id.bytes, ← inputs.listOf TxInput.ofDocument, ← outputs.listOf TxOutput.ofDocument,
      ← coinbaseData.bytes⟩
  | _ => none

end Transaction

namespace Header

/-- The fields of a header with their names. -/
def documentFields (h : Header) : List (String × Document) :=
  [("version", .ofNat h.version.toNat), ("pre_block_hash", .ofString h.previous),
    ("merkle_root", .ofBytes h.merkleRoot), ("height", .ofNat h.height.toNat),
    ("timestamp", .integer h.timestamp.toInt), ("target", .ofNat h.target.toNat),
    ("nonce", .ofNat h.nonce.toNat)]

/-- The document of a header. -/
def toDocument (h : Header) : Document :=
  .ofFields h.documentFields

/-- The header that a document is. -/
def ofDocument (d : Document) : Option Header := do
  match ← d.allFields ["version", "pre_block_hash", "merkle_root", "height", "timestamp", "target",
      "nonce"] with
  | [version, previous, merkleRoot, height, timestamp, target, nonce] =>
    return ⟨← version.word32, ← previous.text?, ← merkleRoot.bytes, ← height.word64,
      ← timestamp.signed64, ← target.word32, ← nonce.word64⟩
  | _ => none

end Header

namespace Block

/-- The document of a block. -/
def toDocument (b : Block) : Document :=
  .ofFields [("header", b.header.toDocument),
    ("transactions", .list (b.transactions.map Transaction.toDocument)), ("hash", .ofString b.hash)]

/-- The block that a document is. -/
def ofDocument (d : Document) : Option Block := do
  match ← d.allFields ["header", "transactions", "hash"] with
  | [header, transactions, hash] =>
    return ⟨← Header.ofDocument header, ← transactions.listOf Transaction.ofDocument, ← hash.text?⟩
  | _ => none

end Block

namespace ProofStep

/-- The document of a step. -/
def toDocument (s : ProofStep) : Document :=
  .ofFields [("hash", .ofBytes s.hash), ("is_right", .flag s.isRight)]

/-- The step that a document is. -/
def ofDocument (d : Document) : Option ProofStep := do
  match ← d.allFields ["hash", "is_right"] with
  | [hash, isRight] => return ⟨← hash.bytes, ← isRight.flag?⟩
  | _ => none

end ProofStep

namespace MerkleProof

/-- The document of a proof. -/
def toDocument (p : MerkleProof) : Document :=
  .ofFields [("transaction_hash", .ofBytes p.leaf), ("merkle_root", .ofBytes p.root),
    ("proof_path", .list (p.path.map ProofStep.toDocument)), ("transaction_index", .ofNat p.index)]

/-- The proof that a document is. -/
def ofDocument (d : Document) : Option MerkleProof := do
  match ← d.allFields ["transaction_hash", "merkle_root", "proof_path", "transaction_index"] with
  | [leaf, root, path, index] =>
    return ⟨← leaf.bytes, ← root.bytes, ← path.listOf ProofStep.ofDocument,
      ← index.natBelow UInt64.size⟩
  | _ => none

end MerkleProof

namespace ChainParams

/-- The document of chain parameters. -/
def toDocument (p : ChainParams) : Document :=
  .ofFields [("target_bits", .ofNat p.targetBits.toNat),
    ("initial_reward", .ofNat p.initialReward.toNat),
    ("halving_interval", .ofNat p.halvingInterval.toNat),
    ("max_halvings", .ofNat p.maxHalvings.toNat), ("block_version", .ofNat p.blockVersion.toNat)]

/-- The chain parameters that a document is. -/
def ofDocument (surplus : Bool) (d : Document) : Option ChainParams := do
  let p : ChainParams := {}
  match ← d.fields surplus ["target_bits", "initial_reward", "halving_interval", "max_halvings",
      "block_version"] with
  | [targetBits, initialReward, halvingInterval, maxHalvings, blockVersion] =>
    return {
      targetBits := ← Document.valueOr p.targetBits Document.word32 targetBits
      initialReward := ← Document.valueOr p.initialReward Document.word64 initialReward
      halvingInterval := ← Document.valueOr p.halvingInterval Document.word64 halvingInterval
      maxHalvings := ← Document.valueOr p.maxHalvings Document.word64 maxHalvings
      blockVersion := ← Document.valueOr p.blockVersion Document.word32 blockVersion }
  | _ => none

end ChainParams

namespace MinerSettings

/-- The document of miner settings. -/
def toDocument (m : MinerSettings) : Document :=
  .ofFields [("max_transactions", .ofNat m.maxTransactions.toNat),
    ("reward_pub_key_hash", (m.rewardKey.map Document.ofString).getD .null),
    ("max_nonce", .ofNat m.maxNonce.toNat)]

/-- The miner settings that a document is. -/
def ofDocument (surplus : Bool) (d : Document) : Option MinerSettings := do
  let m : MinerSettings := {}
  match ← d.fields surplus ["max_transactions", "reward_pub_key_hash", "max_nonce"] with
  | [maxTransactions, rewardKey, maxNonce] =>
    return {
      maxTransactions := ← Document.valueOr m.maxTransactions Document.word64 maxTransactions
      rewardKey := ← Document.valueOr m.rewardKey Document.optionalText rewardKey
      maxNonce := ← Document.valueOr m.maxNonce Document.word64 maxNonce }
  | _ => none

end MinerSettings

namespace SyncSettings

/-- The document of sync settings. -/
def toDocument (s : SyncSettings) : Document :=
  .ofFields [("peer_timeout_ms", .ofNat s.peerTimeout.toNat),
    ("sync_lock_deadline_ms", .ofNat s.gateDeadline.toNat),
    ("sync_capacity", .ofNat s.capacity.toNat)]

/-- The sync settings that a document is. -/
def ofDocument (surplus : Bool) (d : Document) : Option SyncSettings := do
  let s : SyncSettings := {}
  match ← d.fields surplus ["peer_timeout_ms", "sync_lock_deadline_ms", "sync_capacity"] with
  | [peerTimeout, gateDeadline, capacity] =>
    return {
      peerTimeout := ← Document.valueOr s.peerTimeout Document.word64 peerTimeout
      gateDeadline := ← Document.valueOr s.gateDeadline Document.word64 gateDeadline
      capacity := ← Document.valueOr s.capacity Document.word64 capacity }
  | _ => none

end SyncSettings

namespace NodeSettings

/-- The document of settings. -/
def toDocument (s : NodeSettings) : Document :=
  .ofFields [("data_dir", .ofString s.dataDir), ("chain", s.chain.toDocument),
    ("miner", s.miner.toDocument), ("sync", s.sync.toDocument)]

/-- The settings that a document is; `surplus` says whether lists that stand for records may have
more items than there are fields. -/
def ofDocument (surplus : Bool) (d : Document) : Option NodeSettings := do
  let s : NodeSettings := {}
  match ← d.fields surplus ["data_dir", "chain", "miner", "sync"] with
  | [dataDir, chain, miner, sync] =>
    return {
      dataDir := ← Document.valueOr s.dataDir Document.text? dataDir
      chain := ← Document.valueOr s.chain (ChainParams.ofDocument surplus) chain
      miner := ← Document.valueOr s.miner (MinerSettings.ofDocument surplus) miner
      sync := ← Document.valueOr s.sync (SyncSettings.ofDocument surplus) sync }
  | _ => none

end NodeSettings

end PowLedger
