import ProofOfAuthority.Bytes
import ProofOfAuthority.Curve.Secp256k1

/-!
# Recoverable signatures

A signature is the pair of scalars `r`, `s` and a recovery byte `v`, 65 bytes in that order. The
signer is never sent along: it is recovered from the signature and the signed hash.

* `Signature.toList_inj` — a signature is determined by its bytes.
* `parity?_eq_some_iff` — `v` is 0 or 27 for an even ordinate, 1 or 28 for an odd one.
-/

namespace ProofOfAuthority

/-- Why a signature has no signer, or could not be made. -/
inductive SignatureError
  /-- Not 65 bytes, or a scalar outside the group. -/
  | invalidFormat
  /-- A recovery byte other than 0, 1, 27 and 28. -/
  | invalidRecoveryId (v : UInt8)
  /-- No public key fits the signature. -/
  | recoveryFailed
  /-- No usable nonce. -/
  | signingFailed
  deriving DecidableEq

namespace SignatureError

/-- The error as text. -/
def message : SignatureError → String
  | invalidFormat => "Invalid signature format"
  | invalidRecoveryId v => s!"Invalid recovery ID: {v}"
  | recoveryFailed => "Failed to recover public key"
  | signingFailed => "Signing failed"

end SignatureError

/-- A signature with its recovery byte. -/
@[ext] structure Signature where
  r : Bytes 32
  s : Bytes 32
  v : UInt8
  deriving DecidableEq

namespace Signature

/-- The signature of all zero bytes. -/
def zero : Signature := ⟨Bytes.zero, Bytes.zero, 0⟩

/-- The 65 bytes `r`, `s`, `v`. -/
def toList (sig : Signature) : List UInt8 := sig.r.toList ++ (sig.s.toList ++ [sig.v])

/-- The signature with these bytes, if there are 65 of them. -/
def ofList? (bytes : List UInt8) : Option Signature := do
  let r ← Bytes.ofList? (bytes.take 32)
  let s ← Bytes.ofList? ((bytes.drop 32).take 32)
  match bytes.drop 64 with
  | [v] => some ⟨r, s, v⟩
  | _ => none

@[simp] theorem length_toList (sig : Signature) : sig.toList.length = 65 := by
  simp [toList]

theorem toList_inj {a b : Signature} : a.toList = b.toList ↔ a = b := by
  constructor
  · intro h
    obtain ⟨hr, h⟩ := List.append_inj h (by simp)
    obtain ⟨hs, hv⟩ := List.append_inj h (by simp)
    exact Signature.ext (Bytes.toList_inj.mp hr) (Bytes.toList_inj.mp hs) (List.singleton_inj.mp hv)
  · rintro rfl
    rfl

@[simp] theorem ofList?_toList (sig : Signature) : ofList? sig.toList = some sig := by
  have h1 : sig.toList.take 32 = sig.r.toList := by simp [toList]
  have h2 : (sig.toList.drop 32).take 32 = sig.s.toList := by simp [toList]
  have h3 : sig.toList.drop 64 = [sig.v] := by
    rw [toList, ← List.append_assoc]
    exact List.drop_left' (by simp)
  simp [ofList?, h1, h2, h3]

/-- `parse_recovery_id`: whether the recovery byte asks for an odd ordinate. -/
def parity? (v : UInt8) : Option Bool :=
  if v = 0 ∨ v = 27 then some false
  else if v = 1 ∨ v = 28 then some true
  else none

theorem parity?_eq_some_iff {v : UInt8} {odd : Bool} :
    parity? v = some odd ↔ (v = if odd then 1 else 0) ∨ v = if odd then 28 else 27 := by
  unfold parity?
  cases odd <;> grind

end Signature

end ProofOfAuthority
