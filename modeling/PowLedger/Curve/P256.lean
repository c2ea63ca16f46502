import PowLedger.Bytes

/-!
# The curve P-256

Signatures live on the curve `y² = x³ - 3x + b` over the field of `fieldPrime` elements, in the
group of prime order `groupOrder` generated by `generator`. Points are computed in Jacobian
coordinates, where `(x, y, z)` stands for the affine point `(x / z², y / z³)` and `z = 0` for the
neutral element; an inverse is a power, as the modulus is prime.
-/

namespace PowLedger.P256

/-- The number of elements of the coordinate field. -/
def fieldPrime : Nat :=
  0xffffffff00000001000000000000000000000000ffffffffffffffffffffffff

/-- The number of points of the curve. -/
def groupOrder : Nat :=
  0xffffffff00000000ffffffffffffffffbce6faada7179e84f3b9cac2fc632551

/-- The constant term of the curve equation. -/
def curveConstant : Nat :=
  0x5ac635d8aa3a93e7b3ebbd55769886bc651d06b0cc53b0f63bce3c3e27d2604b

/-- A point by its coordinates. -/
structure Affine where
  x : Nat
  y : Nat
  deriving DecidableEq

/-- The point that generates the group. -/
def generator : Affine where
  x := 0x6b17d1f2e12c4247f8bce6e563a440f277037d812deb33a0f4a13945d898c296
  y := 0x4fe342e2fe1a7f9b8ee7eb4a7c0f9e162bce33576b315ececbb6406837bf51f5

/-- `base ^ exponent` modulo `modulus`, where `exponent` has at most `bits` binary digits. -/
def powMod (modulus base exponent : Nat) : (bits : Nat) → Nat
  | 0 => 1 % modulus
  | bits + 1 =>
    let half := powMod modulus (base * base % modulus) (exponent / 2) bits
    if exponent % 2 = 1 then half * base % modulus else half

/-- The inverse of a number modulo a prime of at most 256 bits. -/
def inverse (prime a : Nat) : Nat :=
  powMod prime (a % prime) (prime - 2) 256

/-- The difference of two reduced numbers in the coordinate field. -/
def sub (a b : Nat) : Nat :=
  (a + fieldPrime - b) % fieldPrime

/-- The product in the coordinate field. -/
def mul (a b : Nat) : Nat :=
  a * b % fieldPrime

/-- A point in Jacobian coordinates. -/
structure Jacobian where
  x : Nat
  y : Nat
  z : Nat

/-- The neutral element. -/
def neutral : Jacobian := ⟨1, 1, 0⟩

/-- The Jacobian form of an affine point. -/
def Affine.toJacobian (p : Affine) : Jacobian := ⟨p.x, p.y, 1⟩

/-- Twice a point. -/
def double (p : Jacobian) : Jacobian :=
  if p.z = 0 ∨ p.y = 0 then neutral
  else
    let z₂ := mul p.z p.z
    let y₂ := mul p.y p.y
    let s := mul (4 * p.x) y₂
    let m := mul (3 * sub p.x z₂) (p.x + z₂)
    let x := sub (mul m m) (2 * s % fieldPrime)
    let y := sub (mul m (sub s x)) (mul 8 (mul y₂ y₂))
    ⟨x, y, mul (2 * p.y) p.z⟩

/-- The sum of two points. -/
def add (p q : Jacobian) : Jacobian :=
  if p.z = 0 then q
  else if q.z = 0 then p
  else
    let pz₂ := mul p.z p.z
    let qz₂ := mul q.z q.z
    let u₁ := mul p.x qz₂
    let u₂ := mul q.x pz₂
    let s₁ := mul p.y (mul q.z qz₂)
    let s₂ := mul q.y (mul p.z pz₂)
    if u₁ = u₂ then
      if s₁ = s₂ then double p else neutral
    else
      let h := sub u₂ u₁
      let r := sub s₂ s₁
      let h₂ := mul h h
      let h₃ := mul h h₂
      let v := mul u₁ h₂
      let x := sub (sub (mul r r) h₃) (2 * v % fieldPrime)
      let y := sub (mul r (sub v x)) (mul s₁ h₃)
      ⟨x, y, mul (mul p.z q.z) h⟩

/-- The affine form of a point, or nothing for the neutral element. -/
def Jacobian.toAffine (p : Jacobian) : Option Affine :=
  if p.z = 0 then none
  else
    let i := inverse fieldPrime p.z
    let i₂ := mul i i
    some ⟨mul p.x i₂, mul p.y (mul i i₂)⟩

/-- `u * p + v * q` for factors of at most `bits` binary digits, both read from the top together;
`both` is the sum `p + q`. -/
def combine (p q both : Jacobian) (u v : Nat) : (bits : Nat) → Jacobian → Jacobian
  | 0, acc => acc
  | bits + 1, acc =>
    let twice := double acc
    let next :=
      match u.testBit bits, v.testBit bits with
      | true, true => add twice both
      | true, false => add twice p
      | false, true => add twice q
      | false, false => twice
    combine p q both u v bits next

/-- `u * p + v * q` for factors below `2 ^ 256`. -/
def linear (u : Nat) (p : Affine) (v : Nat) (q : Affine) : Jacobian :=
  let jp := p.toJacobian
  let jq := q.toJacobian
  combine jp jq (add jp jq) u v 256 neutral

/-- Whether the coordinates are reduced and satisfy the curve equation. -/
def Affine.onCurve (p : Affine) : Bool :=
  p.x < fieldPrime && p.y < fieldPrime &&
    mul p.y p.y == (mul p.x (mul p.x p.x) + (fieldPrime - 3) * p.x + curveConstant) % fieldPrime

/-- A point as bytes: the mark 4, then both coordinates in 32 bytes each. -/
def Affine.toBytes (p : Affine) : Bytes :=
  4 :: (bigEndian 32 p.x ++ bigEndian 32 p.y)

/-- Reads a point; only the uncompressed form of a point on the curve is accepted. -/
def Affine.ofBytes (bs : Bytes) : Option Affine :=
  match bs with
  | [] => none
  | mark :: coordinates =>
    if mark = 4 ∧ coordinates.length = 64 then
      let p : Affine := ⟨Bytes.toNat (coordinates.take 32), Bytes.toNat (coordinates.drop 32)⟩
      if p.onCurve then some p else none
    else none

end PowLedger.P256
