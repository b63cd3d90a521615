import ProofOfAuthority.Signature.Nonce
import ProofOfAuthority.Signature.Recovery

/-!
# Signing

Signatures are deterministic and in low form: of `s` and `n - s` the smaller is kept, and the
recovery byte says which of the two nonce points it belongs to.
-/

namespace ProofOfAuthority

open Secp256k1 Residue

/-- A secret key (`SigningKey`): a nonzero scalar. -/
structure SecretKey where
  scalar : Scalar
  scalar_pos : 0 < scalar.val

namespace SecretKey

/-- The key that `bytes` spells, if it is a nonzero scalar. -/
def ofBytes? (bytes : Bytes 32) : Option SecretKey :=
  if h : 0 < bytes.toNat ∧ bytes.toNat < groupOrder then some ⟨⟨bytes.toNat, h.2⟩, h.1⟩ else none

/-- `address_of`: the address controlled by the key. -/
def address (key : SecretKey) : Address :=
  addressOf (Point.generator.multiply key.scalar).affine

/-- The signature of `hash` made with the nonce `k`. -/
def signWith? (key : SecretKey) (hash : Hash) (k : Scalar) : Option Signature :=
  let (x, y) := (Point.generator.multiply k).affine
  let r : Scalar := Scalar.ofNat x.val
  let inv : Scalar := inverse k
  let s := inv * (Scalar.ofNat hash.toNat + r * key.scalar)
  let odd := y.val % 2 == 1
  let (s, odd) := if IsHigh s.val then (-s, !odd) else (s, odd)
  if 0 < r.val ∧ 0 < s.val then
    some ⟨Bytes.ofNat r.val, Bytes.ofNat s.val, if odd then 1 else 0⟩
  else none

/-- How many values are drawn for a nonce; each is unusable with a probability below `2 ^ -127`. -/
def attempts : Nat := 8

/-- `sign_hash`: the signature of `hash`. -/
def sign (key : SecretKey) (hash : Hash) : Except SignatureError Signature :=
  let generator := Nonce.Generator.seeded (bigEndian 32 key.scalar.val) hash.toList
  match (generator.draw? attempts).bind (key.signWith? hash) with
  | none => .error .signingFailed
  | some sig => .ok sig

end SecretKey

end ProofOfAuthority
