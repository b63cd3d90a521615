import ProofOfAuthority.Curve.Secp256k1
import ProofOfAuthority.Digest.Sha256

/-!
# Deterministic nonces

The nonce of a signature is drawn from a generator seeded with the secret key and the signed hash,
as in RFC 6979 with HMAC-SHA-256, so that signing needs no randomness and is a function of its
inputs.

* `draw?_isNonce` — a drawn nonce is a nonzero scalar.
-/

namespace ProofOfAuthority.Nonce

open Secp256k1 Sha256

/-- The generator: an authentication key and the last value produced. -/
structure Generator where
  key : List UInt8
  value : List UInt8

namespace Generator

/-- Mix the last value, a tag byte and more data into the key. -/
def feed (g : Generator) (tag : UInt8) (data : List UInt8) : Generator :=
  let key := hmac g.key (g.value ++ tag :: data)
  ⟨key, hmac key g.value⟩

/-- The generator for a secret scalar and a signed hash, each given as 32 bytes. -/
def seeded (secret hash : List UInt8) : Generator :=
  let start : Generator := ⟨List.replicate 32 0x00, List.replicate 32 0x01⟩
  (start.feed 0x00 (secret ++ hash)).feed 0x01 (secret ++ hash)

/-- Produce the next value. -/
def next (g : Generator) : Generator := ⟨g.key, hmac g.key g.value⟩

/-- The first value in `attempts` draws that is a nonzero scalar. -/
def draw? (g : Generator) : (attempts : Nat) → Option Scalar
  | 0 => none
  | attempts + 1 =>
    let g := g.next
    let k := ofBigEndian g.value
    if h : 0 < k ∧ k < groupOrder then some ⟨k, h.2⟩
    else (g.feed 0x00 []).draw? attempts

theorem draw?_isNonce {g : Generator} {attempts : Nat} {k : Scalar}
    (h : g.draw? attempts = some k) : 0 < k.val := by
  induction attempts generalizing g with
  | zero => simp [draw?] at h
  | succ attempts ih =>
    simp only [draw?] at h
    split at h
    · rename_i hk
      obtain rfl := Option.some.inj h
      exact hk.1
    · exact ih h

end Generator

end ProofOfAuthority.Nonce
