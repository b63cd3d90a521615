import ProofOfAuthority.Bytes
import ProofOfAuthority.Curve.Residue

/-!
# The curve secp256k1

The points of `y² = x³ + 7` over the prime field of order `2 ^ 256 - 2 ^ 32 - 977`, in Jacobian
coordinates: `(x, y, z)` stands for the affine point `(x / z², y / z³)`, and `z = 0` for the point
at infinity.

* `groupOrder_odd` — the group has odd order, so a nonzero scalar and its negative differ.
-/

namespace ProofOfAuthority.Secp256k1

open Residue

/-- Order of the field of coordinates, the prime `2 ^ 256 - 2 ^ 32 - 977`. -/
abbrev fieldOrder : Nat := 0xfffffffffffffffffffffffffffffffffffffffffffffffffffffffefffffc2f

/-- Order of the group of points, a prime. -/
abbrev groupOrder : Nat := 0xfffffffffffffffffffffffffffffffebaaedce6af48a03bbfd25e8cd0364141

theorem groupOrder_odd : groupOrder % 2 = 1 := by decide

theorem groupOrder_lt : groupOrder < Bytes.card 32 := by decide

/-- Coordinates. -/
abbrev Coordinate := Fin fieldOrder

/-- Multipliers of points. -/
abbrev Scalar := Fin groupOrder

/-- The coordinate that `n` is congruent to. -/
def Coordinate.ofNat (n : Nat) : Coordinate := Fin.ofNat fieldOrder n

/-- The scalar that `n` is congruent to. -/
def Scalar.ofNat (n : Nat) : Scalar := Fin.ofNat groupOrder n

/-- A point in Jacobian coordinates. -/
structure Point where
  x : Coordinate
  y : Coordinate
  z : Coordinate

namespace Point

/-- The neutral element. -/
def infinity : Point := ⟨1, 1, 0⟩

/-- The generator of the group. -/
def generator : Point where
  x := Coordinate.ofNat 0x79be667ef9dcbbac55a06295ce870b07029bfcdb2dce28d959f2815b16f81798
  y := Coordinate.ofNat 0x483ada7726a3c4655da4fbfc0e1108a8fd17b448a68554199c47d08ffb10d4b8
  z := 1

/-- A point added to itself. -/
def double (p : Point) : Point :=
  let a := p.x * p.x
  let b := p.y * p.y
  let c := b * b
  let t := (p.x + b) * (p.x + b) - a - c
  let d := t + t
  let e := a + a + a
  let x := e * e - d - d
  let c2 := c + c
  let c4 := c2 + c2
  ⟨x, e * (d - x) - c4 - c4, (p.y + p.y) * p.z⟩

/-- The sum of two points. -/
def add (p q : Point) : Point :=
  if p.z = 0 then q
  else if q.z = 0 then p
  else
    let pz := p.z * p.z
    let qz := q.z * q.z
    let u := p.x * qz
    let s := p.y * (q.z * qz)
    let h := q.x * pz - u
    let r := q.y * (p.z * pz) - s
    if h = 0 then
      if r = 0 then p.double else infinity
    else
      let h2 := h * h
      let h3 := h * h2
      let v := u * h2
      let x := r * r - h3 - v - v
      ⟨x, r * (v - x) - s * h3, h * (p.z * q.z)⟩

/-- A point added to itself `k` times. -/
def multiply (k : Scalar) (p : Point) : Point :=
  (bits 256 k.val).foldl (fun acc bit => if bit then acc.double.add p else acc.double) infinity

/-- Whether the point is the neutral element. -/
def isInfinity (p : Point) : Bool := p.z == 0

/-- The affine coordinates of a point that is not at infinity. -/
def affine (p : Point) : Coordinate × Coordinate :=
  let w := inverse p.z
  (p.x * (w * w), p.y * (w * w * w))

/-- The point with the given abscissa and parity of the ordinate, if the curve has one. -/
def ofAbscissa? (x : Coordinate) (odd : Bool) : Option Point :=
  let square := x * x * x + 7
  let y := power square ((fieldOrder + 1) / 4)
  if y * y = square then
    some ⟨x, if (y.val % 2 == 1) = odd then y else -y, 1⟩
  else none

end Point

end ProofOfAuthority.Secp256k1
