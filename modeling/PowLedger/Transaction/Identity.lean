import PowLedger.Codec.Record
import PowLedger.Fault

/-!
# Ids and signatures of transactions

The id of a transaction is the digest of its stored form without the id. Signatures commit to less:
to the stored form without id, signatures and keys, so that signing does not change what is signed.
A wallet signs all inputs of a transaction with one key and then sets the id.
-/

namespace PowLedger

/-- What a ledger is built over: a digest, and a check of signatures. -/
structure Primitives where
  digest : Hasher
  /-- Whether a signature of a message verifies under a public key. -/
  verify : (publicKey signature message : Bytes) → Bool

/-- SHA-256 and ECDSA over P-256. -/
def Primitives.standard : Primitives :=
  ⟨sha256, Ecdsa.verify⟩

/-- What a wallet signs with. -/
structure Signer where
  /-- The public key of a key document. -/
  publicKey : (key : Bytes) → Except Fault Bytes
  /-- A signature of a message by a key document. -/
  sign : (key message : Bytes) → Except Fault Bytes

/-- Reads a key document. -/
def readKey (key : Bytes) : Except Fault PrivateKey :=
  match PrivateKey.ofBytes key with
  | .ok k => .ok k
  | .error f => .error (.crypto (.badKey f))

/-- Signing with ECDSA over P-256. -/
def Signer.standard : Signer where
  publicKey key := (readKey key).map PrivateKey.publicKey
  sign key message :=
    match readKey key with
    | .error f => .error f
    | .ok k =>
      match Ecdsa.sign k.secret message with
      | some signature => .ok signature
      | none => .error (.crypto (.reported "Failed to sign message"))

namespace Transaction

/-- The bytes that the id of a transaction is the digest of. -/
def idBytes (tx : Transaction) : Bytes :=
  Codec.encodeTransaction tx.withoutId

/-- The bytes that the signing digest of a transaction is the digest of. -/
def signingBytes (tx : Transaction) : Bytes :=
  Codec.encodeTransaction tx.stripped

/-- The id that a transaction should have. -/
def computedId (digest : Hasher) (tx : Transaction) : Bytes :=
  digest tx.idBytes

/-- The digest that the signatures of a transaction sign. -/
def signingDigest (digest : Hasher) (tx : Transaction) : Bytes :=
  digest tx.signingBytes

/-- The transaction with the id that it should have. -/
def identified (digest : Hasher) (tx : Transaction) : Transaction :=
  { tx with id := tx.computedId digest }

/-- The coinbase of the block at `height` that pays `amount` to `lock`. -/
def coinbase (digest : Hasher) (height : Nat) (amount : Amount) (lock : Bytes) : Transaction :=
  identified digest ⟨[], [], [⟨amount, lock⟩], bigEndian 8 height⟩

/-- The transaction with one key and signature in every input. -/
def withProof (tx : Transaction) (publicKey signature : Bytes) : Transaction :=
  { tx with inputs := tx.inputs.map fun i => ⟨i.source, signature, publicKey⟩ }

/-- Signs every input with one key and sets the id. -/
def sign (signer : Signer) (digest : Hasher) (key : Bytes) (tx : Transaction) :
    Except Fault Transaction :=
  match signer.publicKey key with
  | .error f => .error f
  | .ok publicKey =>
    match signer.sign key (tx.signingDigest digest) with
    | .error f => .error f
    | .ok signature => .ok ((tx.withProof publicKey signature).identified digest)

/-- The exact sum of the outputs. -/
def outputValue (tx : Transaction) : Except Fault Amount :=
  match tx.outputValue? with
  | some v => .ok v
  | none => .error (.consistency .outputOverflow)

end Transaction

end PowLedger
