import PowLedger.Curve.P256
import PowLedger.Digest.Sha256

/-!
# ECDSA over P-256 with SHA-256

A signature is sixty-four bytes, two numbers of thirty-two bytes each. The message is hashed by the
scheme itself. Signing derives its one-time number from the key and the message, so it is a
function of both.
-/

namespace PowLedger.Ecdsa

open P256

/-- The number that stands for a message. -/
def messageNumber (message : Bytes) : Nat :=
  Bytes.toNat (sha256 message) % groupOrder

/-- Whether `signature` is a signature of `message` under `publicKey`. -/
def verify (publicKey signature message : Bytes) : Bool :=
  match Affine.ofBytes publicKey with
  | none => false
  | some q =>
    if signature.length = 64 then
      let r := Bytes.toNat (signature.take 32)
      let s := Bytes.toNat (signature.drop 32)
      if 0 < r ∧ r < groupOrder ∧ 0 < s ∧ s < groupOrder then
        let w := inverse groupOrder s
        let u := messageNumber message * w % groupOrder
        let v := r * w % groupOrder
        match (linear u generator v q).toAffine with
        | none => false
        | some p => p.x % groupOrder == r
      else false
    else false

/-- The public point of a private number. -/
def publicPoint (secret : Nat) : Option Affine :=
  (linear secret generator 0 generator).toAffine

/-- A one-time number for `secret` and `message`; `attempt` counts the ones already refused. -/
def oneTime (secret : Nat) (message : Bytes) (attempt : Nat) : Nat :=
  let seed := bigEndian 32 secret ++ sha256 message ++ bigEndian 8 attempt
  Bytes.toNat (sha256 seed) % (groupOrder - 1) + 1

/-- Signs with one-time numbers from `attempt` on, `tries` of them at most. -/
def signFrom (secret : Nat) (message : Bytes) (attempt : Nat) : (tries : Nat) → Option Bytes
  | 0 => none
  | tries + 1 =>
    let k := oneTime secret message attempt
    let r := match publicPoint k with
      | none => 0
      | some p => p.x % groupOrder
    let s := inverse groupOrder k * (messageNumber message + r * secret) % groupOrder
    if r = 0 ∨ s = 0 then signFrom secret message (attempt + 1) tries
    else some (bigEndian 32 r ++ bigEndian 32 s)

/-- A signature of `message` by the private number `secret`. -/
def sign (secret : Nat) (message : Bytes) : Option Bytes :=
  signFrom secret message 0 64

end PowLedger.Ecdsa
