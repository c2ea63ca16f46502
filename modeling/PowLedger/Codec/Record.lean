import PowLedger.Codec.Number
import PowLedger.Block

/-!
# The stored form of transactions, headers and blocks

Fields stand one after the other in a fixed order. Byte strings, texts and lists are led by their
number of items. What follows a value is not looked at, so a stored value may have any tail.
-/

namespace PowLedger.Codec

/-- A byte string led by its length. -/
def encodeBytes (bs : Bytes) : Bytes :=
  encodeNumber bs.length ++ bs

/-- A text led by its length in bytes. -/
def encodeText (s : String) : Bytes :=
  encodeBytes (Utf8.encode s)

/-- A list led by its number of items. -/
def encodeList {α : Type} (encode : α → Bytes) (l : List α) : Bytes :=
  encodeNumber l.length ++ l.flatMap encode

/-- The stored form of an input. -/
def encodeInput (i : TxInput) : Bytes :=
  encodeBytes i.source.txid ++ encodeNumber i.source.index.toNat ++ encodeBytes i.signature ++
    encodeBytes i.publicKey

/-- The stored form of an output. -/
def encodeOutput (o : TxOutput) : Bytes :=
  encodeNumber o.value.toNat ++ encodeBytes o.lock

/-- The stored form of a transaction. -/
def encodeTransaction (tx : Transaction) : Bytes :=
  encodeBytes tx.id ++ encodeList encodeInput tx.inputs ++ encodeList encodeOutput tx.outputs ++
    encodeBytes tx.coinbaseData

/-- The stored form of a header. -/
def encodeHeader (h : Header) : Bytes :=
  encodeNumber h.version.toNat ++ encodeText h.previous ++ encodeBytes h.merkleRoot ++
    encodeNumber h.height.toNat ++ encodeNumber (fold h.timestamp.toInt) ++
    encodeNumber h.target.toNat ++ encodeNumber h.nonce.toNat

/-- The stored form of a block. -/
def encodeBlock (b : Block) : Bytes :=
  encodeHeader b.header ++ encodeList encodeTransaction b.transactions ++ encodeText b.hash

/-- Reads a byte string. -/
def decodeBytes : Decoder Bytes := do
  Decoder.take (← decodeNumber .word64)

/-- Reads a text. -/
def decodeText : Decoder String := do
  match Utf8.decode (← decodeBytes) with
  | .ok s => return s
  | .error f => throw (.badText f)

/-- Reads a list. -/
def decodeList {α : Type} (d : Decoder α) : Decoder (List α) := do
  Decoder.many d (← decodeNumber .word64)

/-- Reads an input. -/
def decodeInput : Decoder TxInput := do
  let txid ← decodeBytes
  let index ← decodeIndex
  let signature ← decodeBytes
  let publicKey ← decodeBytes
  return ⟨⟨txid, index⟩, signature, publicKey⟩

/-- Reads an output. -/
def decodeOutput : Decoder TxOutput := do
  let value ← decodeWord64
  let lock ← decodeBytes
  return ⟨value, lock⟩

/-- Reads a transaction. -/
def decodeTransaction : Decoder Transaction := do
  let id ← decodeBytes
  let inputs ← decodeList decodeInput
  let outputs ← decodeList decodeOutput
  let coinbaseData ← decodeBytes
  return ⟨id, inputs, outputs, coinbaseData⟩

/-- Reads a header. -/
def decodeHeader : Decoder Header := do
  let version ← decodeWord32
  let previous ← decodeText
  let merkleRoot ← decodeBytes
  let height ← decodeWord64
  let timestamp ← decodeSigned64
  let target ← decodeWord32
  let nonce ← decodeWord64
  return ⟨version, previous, merkleRoot, height, timestamp, target, nonce⟩

/-- Reads a block. -/
def decodeBlock : Decoder Block := do
  let header ← decodeHeader
  let transactions ← decodeList decodeTransaction
  let hash ← decodeText
  return ⟨header, transactions, hash⟩

end PowLedger.Codec
