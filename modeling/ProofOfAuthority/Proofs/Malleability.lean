import ProofOfAuthority.Proofs.Production

/-!
# The forms of a signature

Whoever passes a transaction on can try to change its signature into another one of the same signer.
There are two ways without the secret key. The recovery byte has two spellings for either parity
(`respelled`), and both are read alike. And where `(r, s)` is a signature, so by the equation of the
curve is `(r, n - s)` (`mirrored`); but the group order `n` is odd, so of the two scalars one is
above its half, and that one is refused. What is left, the spelling, changes neither the signer nor
an identity, since identities are made from the signer and not from the signature.

* `Signature.outcome` — all that can come of a signature, each with what was checked before.
* `Signature.signer_respelled`, `Signature.signer_mirrored` — the two changes.
* `not_malleable` — what they do to signatures as bytes, to transactions and to headers.
-/

namespace ProofOfAuthority

open Secp256k1

namespace Signature

/-- The recovery bytes that ask for a parity. -/
def recoveryBytes : List UInt8 := [0, 1, 27, 28]

/-- The other spelling of a recovery byte. -/
def respell (v : UInt8) : UInt8 := if v < 27 then v + 27 else v - 27

/-- The signature with its recovery byte in the other spelling. -/
def respelled (sig : Signature) : Signature := { sig with v := respell sig.v }

/-- The signature with the negative of its second scalar, and any recovery byte. -/
def mirrored (sig : Signature) (v : UInt8) : Signature :=
  ⟨sig.r, Bytes.ofNat (groupOrder - sig.s.toNat), v⟩

variable {sig : Signature} {hash : Hash} {signer : Address} {v : UInt8} {k : Nat}

/-! ## What can come of a signature -/

/-- All that can come of a signature, each with what was checked before. -/
inductive Outcome (sig : Signature) (hash : Hash) : Except SignatureError Address → Prop
  | badByte : parity? sig.v = none → Outcome sig hash (.error (.invalidRecoveryId sig.v))
  | badScalar {odd : Bool} : parity? sig.v = some odd →
      ¬(IsScalar sig.r.toNat ∧ IsScalar sig.s.toNat) → Outcome sig hash (.error .invalidFormat)
  | high {odd : Bool} : parity? sig.v = some odd → IsScalar sig.r.toNat → IsScalar sig.s.toNat →
      IsHigh sig.s.toNat → Outcome sig hash (.error .recoveryFailed)
  | keyless {odd : Bool} : parity? sig.v = some odd → IsScalar sig.r.toNat →
      IsScalar sig.s.toNat → ¬IsHigh sig.s.toNat →
        publicKey? hash sig.r.toNat sig.s.toNat odd = none →
          Outcome sig hash (.error .recoveryFailed)
  | signed {odd : Bool} {key : Coordinate × Coordinate} : parity? sig.v = some odd →
      IsScalar sig.r.toNat → IsScalar sig.s.toNat → ¬IsHigh sig.s.toNat →
        publicKey? hash sig.r.toNat sig.s.toNat odd = some key →
          Outcome sig hash (.ok (addressOf key))

/-- **What comes of a signature.** -/
theorem outcome (sig : Signature) (hash : Hash) : sig.Outcome hash (sig.signer hash) := by
  unfold Signature.signer
  cases hparity : parity? sig.v with
  | none => exact .badByte hparity
  | some odd =>
    dsimp only
    by_cases hscalars : IsScalar sig.r.toNat ∧ IsScalar sig.s.toNat
    · rw [if_pos hscalars]
      by_cases hhigh : IsHigh sig.s.toNat
      · rw [if_pos hhigh]
        exact .high hparity hscalars.1 hscalars.2 hhigh
      · rw [if_neg hhigh]
        cases hkey : publicKey? hash sig.r.toNat sig.s.toNat odd with
        | none => exact .keyless hparity hscalars.1 hscalars.2 hhigh hkey
        | some key => exact .signed hparity hscalars.1 hscalars.2 hhigh hkey
    · rw [if_neg hscalars]
      exact .badScalar hparity hscalars

/-- A signature that has a signer asks for a parity, and has two scalars, the second of them not
above half the group order. -/
theorem wellFormed_of_signer (h : sig.signer hash = .ok signer) :
    (∃ odd, parity? sig.v = some odd) ∧ IsScalar sig.r.toNat ∧ IsScalar sig.s.toNat ∧
      ¬IsHigh sig.s.toNat := by
  have houtcome := sig.outcome hash
  rw [h] at houtcome
  cases houtcome with
  | signed hparity hr hs hlow _ => exact ⟨⟨_, hparity⟩, hr, hs, hlow⟩

/-- High scalars are refused. -/
theorem signer_of_isHigh {odd : Bool} (hparity : parity? sig.v = some odd)
    (hr : IsScalar sig.r.toNat) (hs : IsScalar sig.s.toNat) (hhigh : IsHigh sig.s.toNat)
    (hash : Hash) : sig.signer hash = .error .recoveryFailed := by
  have houtcome := sig.outcome hash
  generalize sig.signer hash = result at houtcome
  cases houtcome with
  | badByte hnone => simp [hparity] at hnone
  | badScalar _ hbad => exact absurd ⟨hr, hs⟩ hbad
  | high => rfl
  | keyless => rfl
  | signed _ _ _ hlow _ => exact absurd hhigh hlow

/-! ## The other spelling -/

theorem exists_parity?_iff : (∃ odd, parity? v = some odd) ↔ v ∈ recoveryBytes := by
  simp only [parity?_eq_some_iff, Bool.exists_bool, recoveryBytes, List.mem_cons,
    List.not_mem_nil, or_false, Bool.false_eq_true, if_false, if_true]
  tauto

theorem parity?_respell (h : v ∈ recoveryBytes) : parity? (respell v) = parity? v := by
  simp only [recoveryBytes, List.mem_cons, List.not_mem_nil, or_false] at h
  rcases h with rfl | rfl | rfl | rfl <;> rfl

/-- **The other spelling** of the recovery byte has the same signer. -/
theorem signer_respelled (h : sig.signer hash = .ok signer) :
    sig.respelled.signer hash = .ok signer := by
  obtain ⟨⟨odd, hodd⟩, -⟩ := wellFormed_of_signer h
  have hodd' : parity? sig.respelled.v = some odd :=
    (parity?_respell (exists_parity?_iff.mp ⟨odd, hodd⟩)).trans hodd
  exact (signer_eq_of_parity (s := sig.respelled) (t := sig) rfl rfl hodd' hodd hash).trans h

/-! ## The other scalar -/

theorem isScalar_mirror (h : IsScalar k) : IsScalar (groupOrder - k) := by
  obtain ⟨hpos, hlt⟩ := h
  exact ⟨by omega, by omega⟩

/-- Of a scalar and its negative one is high, since the group order is odd. -/
theorem isHigh_mirror (hlow : ¬IsHigh k) : IsHigh (groupOrder - k) := by
  have hodd := groupOrder_odd
  unfold IsHigh at hlow ⊢
  omega

theorem toNat_mirrored (sig : Signature) (v : UInt8) :
    (sig.mirrored v).s.toNat = groupOrder - sig.s.toNat :=
  Nat.mod_eq_of_lt (Nat.lt_of_le_of_lt (Nat.sub_le _ _) groupOrder_lt)

/-- **The other scalar** is refused, whatever the recovery byte. -/
theorem signer_mirrored (h : sig.signer hash = .ok signer) (hv : v ∈ recoveryBytes) :
    (sig.mirrored v).signer hash = .error .recoveryFailed := by
  obtain ⟨-, hr, hs, hlow⟩ := wellFormed_of_signer h
  obtain ⟨odd, hodd⟩ := exists_parity?_iff.mpr hv
  have hodd' : parity? (sig.mirrored v).v = some odd := hodd
  refine signer_of_isHigh hodd' hr ?_ ?_ hash
  · rw [toNat_mirrored]
    exact isScalar_mirror hs
  · rw [toNat_mirrored]
    exact isHigh_mirror hlow

end Signature

/-! ## Bytes, transactions and headers -/

theorem recover_toList (hash : Hash) (sig : Signature) :
    recover hash sig.toList = sig.signer hash := by
  rw [recover, Signature.ofList?_toList]

/-- The transaction with another spelling of its signature. -/
def Transaction.respelled (tx : Transaction) : Transaction :=
  { tx with signature := tx.signature.respelled }

/-- The transaction with the other scalar in its signature. -/
def Transaction.mirrored (tx : Transaction) (v : UInt8) : Transaction :=
  { tx with signature := tx.signature.mirrored v }

/-- The header with another spelling of its signature. -/
def Header.respelled (header : Header) : Header :=
  { header with signature := header.signature.respelled }

/-- The header with the other scalar in its signature. -/
def Header.mirrored (header : Header) (v : UInt8) : Header :=
  { header with signature := header.signature.mirrored v }

/-- **A signature has no other form than its other spelling**, which `recover` takes for the same
and which keeps identities (`respelled`). With the other scalar (`mirrored`) it is refused, whatever
the byte. -/
theorem not_malleable :
    (∀ (hash : Hash) (r s : Bytes 32) (v : UInt8) (signer : Address),
      recover hash (r.toList ++ (s.toList ++ [v])) = .ok signer →
        (v = 0 ∨ v = 1 ∨ v = 27 ∨ v = 28) ∧
        recover hash (r.toList ++ (s.toList ++ [Signature.respell v])) = .ok signer ∧
        ∀ v' ∈ Signature.recoveryBytes,
          recover hash (r.toList ++ (bigEndian 32 (groupOrder - s.toNat) ++ [v'])) =
            .error .recoveryFailed) ∧
    (∀ (tx : Transaction) (signer : Address), tx.signer = .ok signer →
      tx.respelled.signer = .ok signer ∧
      (∃ id, tx.id = .ok id ∧ tx.respelled.id = .ok id) ∧
      ∀ v' ∈ Signature.recoveryBytes, (tx.mirrored v').id = .error .recoveryFailed) ∧
    ∀ (header : Header) (signer : Address), header.signer = .ok signer →
      header.respelled.signer = .ok signer ∧
      header.respelled.id = header.id ∧
      ∀ v' ∈ Signature.recoveryBytes, (header.mirrored v').signer = .error .recoveryFailed := by
  refine ⟨?_, ?_, ?_⟩
  · intro hash r s v signer h
    have hsigner : (⟨r, s, v⟩ : Signature).signer hash = .ok signer :=
      (recover_toList hash ⟨r, s, v⟩).symm.trans h
    obtain ⟨hparity, -⟩ := Signature.wellFormed_of_signer hsigner
    have hbyte : v ∈ Signature.recoveryBytes := Signature.exists_parity?_iff.mp hparity
    refine ⟨by simpa [Signature.recoveryBytes] using hbyte, ?_, ?_⟩
    · refine (recover_toList hash (Signature.respelled ⟨r, s, v⟩)).trans ?_
      exact Signature.signer_respelled hsigner
    · intro v' hv'
      have hbytes : (Signature.mirrored ⟨r, s, v⟩ v').toList =
          r.toList ++ (bigEndian 32 (groupOrder - s.toNat) ++ [v']) := by
        rw [← Signature.toNat_mirrored ⟨r, s, v⟩ v']
        rfl
      rw [← hbytes, recover_toList]
      exact Signature.signer_mirrored hsigner hv'
  · intro tx signer h
    have hsame : tx.respelled.signer = .ok signer := Signature.signer_respelled h
    refine ⟨hsame, ⟨keccak256 (tx.idBytes signer), ?_, ?_⟩, ?_⟩
    · rw [Transaction.id, h]
      rfl
    · rw [Transaction.id, hsame]
      rfl
    · intro v' hv'
      have hmirrored : (tx.mirrored v').signer = .error .recoveryFailed :=
        Signature.signer_mirrored h hv'
      rw [Transaction.id, hmirrored]
      rfl
  · intro header signer h
    have hsame : header.respelled.signer = .ok signer := Signature.signer_respelled h
    refine ⟨hsame, ?_, fun v' hv' => Signature.signer_mirrored h hv'⟩
    rw [Header.id, Header.id, Header.idBytes, Header.idBytes, Header.signerOrZero,
      Header.signerOrZero, hsame, h]
    rfl

namespace Sample

/-- The first sample transaction in the other spelling is another transaction of one identity, and
with the other scalar it has none; and so it is with the sample header. -/
theorem first_forms : first.signer = .ok signer ∧ block.header.signer = .ok signer ∧
    recover first.signingHash (first.signature.r.toList ++ (first.signature.s.toList ++ [28])) =
      .ok signer ∧
    first.respelled ≠ first ∧ first.respelled.id = .ok firstId ∧
    (first.mirrored 28).id = .error .recoveryFailed ∧
    block.header.respelled ≠ block.header ∧ block.header.respelled.id = block.header.id ∧
    (block.header.mirrored 0).signer = .error .recoveryFailed := by
  obtain ⟨hbytes, htx, hheader⟩ := not_malleable
  have hrecover : recover first.signingHash
      (first.signature.r.toList ++ (first.signature.s.toList ++ [1])) = .ok signer :=
    (recover_toList first.signingHash first.signature).trans first_signer
  obtain ⟨-, hrespelled, -⟩ := hbytes _ _ _ _ _ hrecover
  obtain ⟨-, ⟨id, hid, hid'⟩, hmirrored⟩ := htx first signer first_signer
  obtain ⟨-, hsame, hrefused⟩ := hheader block.header signer header_signer
  obtain rfl : firstId = id := Except.ok.inj (first_id.symm.trans hid)
  have hfirst : first.respelled.signature.v ≠ first.signature.v := by decide
  have hblock : block.header.respelled.signature.v ≠ block.header.signature.v := by decide
  exact ⟨first_signer, header_signer, hrespelled, fun h => hfirst (congrArg (·.signature.v) h),
    hid', hmirrored 28 (by decide), fun h => hblock (congrArg (·.signature.v) h), hsame,
    hrefused 0 (by decide)⟩

end Sample

end ProofOfAuthority
