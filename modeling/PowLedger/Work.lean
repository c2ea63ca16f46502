import PowLedger.Fault
import PowLedger.Block

/-!
# Proof of work

A target counts the leading zero bits that the digest of a header must have: read as a number, the
digest has to be below `2 ^ (256 - target)`. A sweep tries the nonces from 0 up to a limit, the
limit included. Before each nonce it looks whether it has been called off; it ends with the first
nonce that works.
-/

namespace PowLedger

/-- The number of bits of a digest, and the greatest target. -/
def maxTargetBits : Nat := 256

/-- The number that a digest must be below. -/
def threshold (target : UInt32) : Except Fault Nat :=
  if maxTargetBits < target.toNat then
    .error (.mining (.targetTooHigh target.toNat maxTargetBits))
  else .ok (1 <<< (maxTargetBits - target.toNat))

/-- Whether a digest is below a bound. -/
def meets (digest : Bytes) (bound : Nat) : Bool :=
  digest.toNat < bound

/-- Whether the digest of a header, with its own nonce, is below the threshold of its target. -/
def Header.hasWork (digest : Hasher) (h : Header) : Bool :=
  match threshold h.target with
  | .ok bound => meets (digest h.assemble) bound
  | .error _ => false

/-- How a sweep over the nonces ends. -/
inductive SweepOutcome where
  | solved (nonce : UInt64) (hash : Bytes)
  /-- No nonce up to the limit works. -/
  | exhausted
  /-- The sweep was called off. -/
  | cancelled
  deriving DecidableEq

/-- Tries `tries` nonces from `nonce` on behind the assembled bytes `front`; `calledOff n` says
whether the sweep is seen to be called off just before nonce `n`. -/
def sweepFrom (digest : Hasher) (front : Bytes) (bound : Nat) (calledOff : Nat → Bool)
    (nonce : Nat) : (tries : Nat) → SweepOutcome
  | 0 => .exhausted
  | tries + 1 =>
    if calledOff nonce then .cancelled
    else
      let hash := digest (front ++ bigEndian 8 nonce)
      if meets hash bound then .solved (UInt64.ofNat nonce) hash
      else sweepFrom digest front bound calledOff (nonce + 1) tries

/-- Sweeps over the nonces of a header up to `maxNonce`. -/
def sweep (digest : Hasher) (h : Header) (maxNonce : UInt64) (calledOff : Nat → Bool) :
    Except Fault SweepOutcome :=
  match threshold h.target with
  | .error f => .error f
  | .ok bound => .ok (sweepFrom digest h.assembleFront bound calledOff 0 (maxNonce.toNat + 1))

end PowLedger
