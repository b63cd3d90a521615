import ProofOfAuthority.Digest.Keccak
import ProofOfAuthority.Signature

/-!
# Recovering the signer

The recovery byte picks one of the two points with abscissa `r`; the public key that makes the
signature verify is then determined. Scalars above half the group order are refused, so of the two
signatures `(r, s)` and `(r, n - s)` at most one is accepted.

* `Signature.signer_eq_of_parity` — the recovery byte counts for nothing but its parity.
-/

namespace ProofOfAuthority

open Secp256k1 Residue

/-- A nonzero number below the group order. -/
def IsScalar (k : Nat) : Prop := 0 < k ∧ k < groupOrder

instance (k : Nat) : Decidable (IsScalar k) := inferInstanceAs (Decidable (_ ∧ _))

/-- Above half the group order. -/
def IsHigh (k : Nat) : Prop := groupOrder / 2 < k

instance (k : Nat) : Decidable (IsHigh k) := inferInstanceAs (Decidable (_ < _))

/-- `address_from_pubkey`: the last 20 bytes of the digest of these coordinates. -/
def addressOf (key : Coordinate × Coordinate) : Address :=
  Bytes.ofNat (keccak256 (bigEndian 32 key.1.val ++ bigEndian 32 key.2.val)).toNat

/-- `VerifyingKey::recover_from_prehash`: the public key under which `(r, s)` signs `hash`, with the
nonce point of the given parity. -/
def publicKey? (hash : Hash) (r s : Nat) (odd : Bool) : Option (Coordinate × Coordinate) := do
  let nonce ← Point.ofAbscissa? (Coordinate.ofNat r) odd
  let inv : Scalar := inverse (Scalar.ofNat r)
  let u := -(inv * Scalar.ofNat hash.toNat)
  let w := inv * Scalar.ofNat s
  let key := (Point.generator.multiply u).add (nonce.multiply w)
  if key.isInfinity then none else some key.affine

/-- `recover_address` of a signature taken apart: the address that signed `hash`. -/
def Signature.signer (sig : Signature) (hash : Hash) : Except SignatureError Address :=
  match parity? sig.v with
  | none => .error (.invalidRecoveryId sig.v)
  | some odd =>
    if IsScalar sig.r.toNat ∧ IsScalar sig.s.toNat then
      if IsHigh sig.s.toNat then .error .recoveryFailed
      else
        match publicKey? hash sig.r.toNat sig.s.toNat odd with
        | none => .error .recoveryFailed
        | some key => .ok (addressOf key)
    else .error .invalidFormat

/-- Of a recovery byte only the parity that it asks for counts. -/
theorem Signature.signer_eq_of_parity {s t : Signature} {odd : Bool} (hr : s.r = t.r)
    (hs : s.s = t.s) (h : parity? s.v = some odd) (h' : parity? t.v = some odd) (hash : Hash) :
    s.signer hash = t.signer hash := by
  rw [signer, signer, h, h', hr, hs]

/-- `recover_address`: the address that signed `hash`, for a signature given as bytes. -/
def recover (hash : Hash) (bytes : List UInt8) : Except SignatureError Address :=
  match Signature.ofList? bytes with
  | none => .error .invalidFormat
  | some sig => sig.signer hash

end ProofOfAuthority
