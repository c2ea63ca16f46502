import PowLedger.Curve.Ecdsa
import PowLedger.Digest.Ripemd160

/-!
# Private keys

A private key travels in a document: an outer sequence of a version, an algorithm and an octet
string, which holds an inner sequence of a version, the private number, optionally the curve, and
the public point. The reader takes only the shortest length forms and refuses anything left over.
A key is accepted when its number is in range and the stated public point is its own.
-/

namespace PowLedger

/-- Why a private key is refused. -/
inductive KeyFault where
  /-- The document is malformed. -/
  | invalidEncoding
  /-- A version number is not the expected one. -/
  | versionNotSupported
  /-- The key is of another kind or curve. -/
  | wrongAlgorithm
  /-- The private number has the wrong size or is out of range. -/
  | invalidComponent
  /-- The public point does not belong to the private number. -/
  | inconsistentComponents
  deriving DecidableEq

/-- The one-word name of a key fault. -/
def KeyFault.message : KeyFault → String
  | .invalidEncoding => "InvalidEncoding"
  | .versionNotSupported => "VersionNotSupported"
  | .wrongAlgorithm => "WrongAlgorithm"
  | .invalidComponent => "InvalidComponent"
  | .inconsistentComponents => "InconsistentComponents"

namespace Der

/-- The mark of an integer. -/
def integerTag : UInt8 := 0x02

/-- The mark of a string of bits. -/
def bitStringTag : UInt8 := 0x03

/-- The mark of a string of bytes. -/
def octetStringTag : UInt8 := 0x04

/-- The mark of a sequence. -/
def sequenceTag : UInt8 := 0x30

/-- The mark of the first optional part. -/
def optionTag₀ : UInt8 := 0xa0

/-- The mark of the second optional part. -/
def optionTag₁ : UInt8 := 0xa1

/-- The length in front of a value, in its shortest form and below `2 ^ 16`. -/
def readLength : Bytes → Option (Nat × Bytes)
  | [] => none
  | b :: rest =>
    if b.toNat < 0x80 then some (b.toNat, rest)
    else if b = 0x81 then
      match rest with
      | n :: rest => if n.toNat < 0x80 then none else some (n.toNat, rest)
      | [] => none
    else if b = 0x82 then
      match rest with
      | high :: low :: rest =>
        let n := 256 * high.toNat + low.toNat
        if n < 256 then none else some (n, rest)
      | _ => none
    else none

/-- The value behind the mark `tag`, and what follows it. -/
def readValue (tag : UInt8) : Bytes → Option (Bytes × Bytes)
  | [] => none
  | b :: rest =>
    if b = tag then
      match readLength rest with
      | none => none
      | some (n, rest) => if n ≤ rest.length then some (rest.take n, rest.drop n) else none
    else none

/-- The content of a document that is one value marked `tag` and nothing else. -/
def only (tag : UInt8) (bs : Bytes) : Option Bytes :=
  match readValue tag bs with
  | some (content, []) => some content
  | _ => none

/-- An integer from 0 to 255 in its shortest form. -/
def readSmall (bs : Bytes) : Option (Nat × Bytes) :=
  match readValue integerTag bs with
  | some ([n], rest) => if n.toNat < 0x80 then some (n.toNat, rest) else none
  | some ([zero, n], rest) => if zero = 0 ∧ 0x80 ≤ n.toNat then some (n.toNat, rest) else none
  | _ => none

/-- A part that may be missing: its content if the mark `tag` is next. -/
def readOptional (tag : UInt8) (bs : Bytes) : Option (Option Bytes × Bytes) :=
  if bs.head? = some tag then (readValue tag bs).map fun (content, rest) => (some content, rest)
  else some (none, bs)

/-- The bytes of a string of whole bytes that fills `bs`. -/
def wholeBits (bs : Bytes) : Option Bytes :=
  match only bitStringTag bs with
  | some (unused :: content) => if unused = 0 then some content else none
  | _ => none

end Der

/-- A private number together with its public point. -/
structure PrivateKey where
  secret : Nat
  point : P256.Affine

namespace PrivateKey

/-- The name of the curve as it stands in a key document. -/
def curveName : Bytes :=
  [0x06, 0x08, 0x2a, 0x86, 0x48, 0xce, 0x3d, 0x03, 0x01, 0x07]

/-- The kind of key as it stands in a key document: elliptic-curve keys on this curve. -/
def algorithm : Bytes :=
  [0x06, 0x07, 0x2a, 0x86, 0x48, 0xce, 0x3d, 0x02, 0x01] ++ curveName

/-- A step of the reader that must succeed. -/
def encoded {α : Type} (o : Option α) : Except KeyFault α :=
  match o with
  | some a => .ok a
  | none => .error .invalidEncoding

/-- The inner document that the outer one carries. -/
def unwrapOuter (bs : Bytes) : Except KeyFault Bytes := do
  let (content, trailing) ← encoded (Der.readValue Der.sequenceTag bs)
  let (version, rest) ← encoded (Der.readSmall content)
  if 1 < version then .error .versionNotSupported
  let (kind, rest) ← encoded (Der.readValue Der.sequenceTag rest)
  if kind ≠ algorithm then .error .wrongAlgorithm
  if version = 1 then .error .versionNotSupported
  let (key, rest) ← encoded (Der.readValue Der.octetStringTag rest)
  let (_, rest) ← encoded (Der.readOptional Der.optionTag₀ rest)
  if rest ≠ [] ∨ trailing ≠ [] then .error .invalidEncoding
  return key

/-- The private number and the public point of an inner document, both still bytes. -/
def unwrapInner (bs : Bytes) : Except KeyFault (Bytes × Bytes) := do
  let (content, trailing) ← encoded (Der.readValue Der.sequenceTag bs)
  let (version, rest) ← encoded (Der.readSmall content)
  if version ≠ 1 then .error .versionNotSupported
  let (secret, rest) ← encoded (Der.readValue Der.octetStringTag rest)
  let (curve, rest) ← encoded (Der.readOptional Der.optionTag₀ rest)
  if curve.any (· ≠ curveName) then .error .wrongAlgorithm
  let (part, rest) ← encoded (Der.readValue Der.optionTag₁ rest)
  let point ← encoded (Der.wholeBits part)
  if rest ≠ [] ∨ trailing ≠ [] then .error .invalidEncoding
  return (secret, point)

/-- Reads a key document. -/
def ofBytes (bs : Bytes) : Except KeyFault PrivateKey := do
  let inner ← unwrapOuter bs
  let (secret, point) ← unwrapInner inner
  let n := Bytes.toNat secret
  if secret.length ≠ 32 ∨ n = 0 ∨ P256.groupOrder ≤ n then .error .invalidComponent
  match Ecdsa.publicPoint n with
  | none => .error .invalidComponent
  | some own =>
    if point ≠ own.toBytes then .error .inconsistentComponents
    return ⟨n, own⟩

/-- The public key of a private key. -/
def publicKey (k : PrivateKey) : Bytes :=
  k.point.toBytes

/-- The key whose private number is made from a seed. -/
def generate (seed : Bytes) : Option PrivateKey :=
  let n := Bytes.toNat seed % (P256.groupOrder - 1) + 1
  (Ecdsa.publicPoint n).map fun point => ⟨n, point⟩

/-- The document of a key. -/
def toBytes (k : PrivateKey) : Bytes :=
  [0x30, 0x81, 0x87, 0x02, 0x01, 0x00, 0x30, 0x13] ++ algorithm ++
    [0x04, 0x6d, 0x30, 0x6b, 0x02, 0x01, 0x01, 0x04, 0x20] ++ bigEndian 32 k.secret ++
    [0xa1, 0x44, 0x03, 0x42, 0x00] ++ k.point.toBytes

end PrivateKey

end PowLedger
