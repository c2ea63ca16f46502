import PowLedger.Digest.Block

/-!
# SHA-256

The digest of the ledger: eight words of state, each block mixed in by sixty-four rounds. The main
fact stated here is the size of a digest, `length_sha256`.
-/

namespace PowLedger

namespace Sha256

/-- The eight words that a message is folded into. -/
structure State where
  a : UInt32
  b : UInt32
  c : UInt32
  d : UInt32
  e : UInt32
  f : UInt32
  g : UInt32
  h : UInt32

/-- The state before the first block. -/
def initial : State :=
  ⟨0x6a09e667, 0xbb67ae85, 0x3c6ef372, 0xa54ff53a, 0x510e527f, 0x9b05688c, 0x1f83d9ab, 0x5be0cd19⟩

/-- The constant of each round. -/
def roundConstants : Array UInt32 := #[
  0x428a2f98, 0x71374491, 0xb5c0fbcf, 0xe9b5dba5, 0x3956c25b, 0x59f111f1, 0x923f82a4, 0xab1c5ed5,
  0xd807aa98, 0x12835b01, 0x243185be, 0x550c7dc3, 0x72be5d74, 0x80deb1fe, 0x9bdc06a7, 0xc19bf174,
  0xe49b69c1, 0xefbe4786, 0x0fc19dc6, 0x240ca1cc, 0x2de92c6f, 0x4a7484aa, 0x5cb0a9dc, 0x76f988da,
  0x983e5152, 0xa831c66d, 0xb00327c8, 0xbf597fc7, 0xc6e00bf3, 0xd5a79147, 0x06ca6351, 0x14292967,
  0x27b70a85, 0x2e1b2138, 0x4d2c6dfc, 0x53380d13, 0x650a7354, 0x766a0abb, 0x81c2c92e, 0x92722c85,
  0xa2bfe8a1, 0xa81a664b, 0xc24b8b70, 0xc76c51a3, 0xd192e819, 0xd6990624, 0xf40e3585, 0x106aa070,
  0x19a4c116, 0x1e376c08, 0x2748774c, 0x34b0bcb5, 0x391c0cb3, 0x4ed8aa4a, 0x5b9cca4f, 0x682e6ff3,
  0x748f82ee, 0x78a5636f, 0x84c87814, 0x8cc70208, 0x90befffa, 0xa4506ceb, 0xbef9a3f7, 0xc67178f2]

/-- The schedule with one more word, made from four earlier ones. -/
def extend (w : Array UInt32) : Array UInt32 :=
  let t := w.size
  let x := w.getD (t - 15) 0
  let y := w.getD (t - 2) 0
  let s₀ := Digest.rotateRight x 7 ^^^ Digest.rotateRight x 18 ^^^ (x >>> 3)
  let s₁ := Digest.rotateRight y 17 ^^^ Digest.rotateRight y 19 ^^^ (y >>> 10)
  w.push (w.getD (t - 16) 0 + s₀ + w.getD (t - 7) 0 + s₁)

/-- The sixty-four words of a block's schedule. -/
def schedule (block : Array UInt32) : Array UInt32 :=
  Nat.fold 48 (fun _ _ w => extend w) block

/-- One round with its constant `k` and schedule word `w`. -/
def round (k w : UInt32) (s : State) : State :=
  let s₁ := Digest.rotateRight s.e 6 ^^^ Digest.rotateRight s.e 11 ^^^ Digest.rotateRight s.e 25
  let choice := (s.e &&& s.f) ^^^ ((s.e ^^^ 0xffffffff) &&& s.g)
  let t₁ := s.h + s₁ + choice + k + w
  let s₀ := Digest.rotateRight s.a 2 ^^^ Digest.rotateRight s.a 13 ^^^ Digest.rotateRight s.a 22
  let majority := (s.a &&& s.b) ^^^ (s.a &&& s.c) ^^^ (s.b &&& s.c)
  ⟨t₁ + s₀ + majority, s.a, s.b, s.c, s.d + t₁, s.e, s.f, s.g⟩

/-- The state after one block of sixteen words. -/
def compress (s : State) (block : Array UInt32) : State :=
  let w := schedule block
  let t := Nat.fold 64 (fun i _ t => round (roundConstants.getD i 0) (w.getD i 0) t) s
  ⟨s.a + t.a, s.b + t.b, s.c + t.c, s.d + t.d, s.e + t.e, s.f + t.f, s.g + t.g, s.h + t.h⟩

/-- The state as bytes. -/
def State.bytes (s : State) : Bytes :=
  [s.a, s.b, s.c, s.d, s.e, s.f, s.g, s.h].flatMap Digest.bytesBig

end Sha256

/-- The SHA-256 digest of a byte string. -/
def sha256 (message : Bytes) : Bytes :=
  let words := (Digest.wordsBig
    (message ++ Digest.closing (bigEndian 8) message.length)).toArray
  let final := Nat.fold (words.size / 16)
    (fun i _ s => Sha256.compress s (words.extract (16 * i) (16 * i + 16))) Sha256.initial
  final.bytes

/-- A digest has thirty-two bytes. -/
@[simp] theorem length_sha256 (message : Bytes) : (sha256 message).length = 32 := by
  simp [sha256, Sha256.State.bytes, Digest.bytesBig]

end PowLedger
