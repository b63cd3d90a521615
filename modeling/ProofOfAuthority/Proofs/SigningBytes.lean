import ProofOfAuthority.Block
import ProofOfAuthority.Proofs.Encoding

/-!
# What a signature covers

A signer signs the digest of an encoding. That encoding says all there is in a transaction or a
header but the signature itself: no field is left out, and none can pass for part of another, even
where lists and byte strings of any length stand next to each other.

* `Transaction.eq_of_signingBytes`, `Header.eq_of_signingBytes` — the encodings fix every field.
* `signingBytes_injective` — and the signature is the only thing they do not say.
-/

namespace ProofOfAuthority

/-- Fewer than `2 ^ 64` clauses, reserved fields, and bytes in the data of each clause and in each
reserved field: what `signingBytes` counts fits in a word. -/
structure Transaction.Counted (tx : Transaction) : Prop where
  clauses : tx.clauses.length < UInt64.size
  data : ∀ c ∈ tx.clauses, c.data.length < UInt64.size
  reserved : tx.reserved.length < UInt64.size
  fields : ∀ field ∈ tx.reserved, field.length < UInt64.size

variable {tx tx' : Transaction} {h h' : Header}

theorem separates_clause {c d : Clause} (hc : c.data.length < UInt64.size)
    (hd : d.data.length < UInt64.size) : Separates Clause.encode c d := by
  intro s t h
  simp only [Clause.encode, List.append_assoc] at h
  obtain ⟨hrecipient, h⟩ := separates_option (fun a _ b _ => separates_toList a b) _ _ h
  obtain ⟨hvalue, h⟩ := separates_amount c.value d.value _ _ h
  obtain ⟨hdata, htail⟩ := separates_bytes hc hd _ _ h
  refine ⟨?_, htail⟩
  cases c
  cases d
  rw [Clause.mk.injEq]
  exact ⟨hrecipient, hvalue, hdata⟩

/-- **The encoding of a transaction fixes every field** but the signature. -/
theorem Transaction.eq_of_signingBytes (htx : tx.Counted) (htx' : tx'.Counted)
    (h : tx.signingBytes = tx'.signingBytes) : { tx with signature := tx'.signature } = tx' := by
  unfold signingBytes at h
  obtain ⟨htag, h⟩ := separates_word8 tx.chainTag tx'.chainTag _ _ h
  obtain ⟨href, h⟩ := separates_toList tx.blockRef tx'.blockRef _ _ h
  obtain ⟨hexpiration, h⟩ := separates_word32 tx.expiration tx'.expiration _ _ h
  obtain ⟨hclauses, h⟩ := separates_list htx.clauses htx'.clauses
    (fun c hc d hd => separates_clause (htx.data c hc) (htx'.data d hd)) _ _ h
  obtain ⟨hcoef, h⟩ := separates_word8 tx.gasPriceCoef tx'.gasPriceCoef _ _ h
  obtain ⟨hgas, h⟩ := separates_word64 tx.gas tx'.gas _ _ h
  obtain ⟨hdepends, h⟩ := separates_option (fun a _ b _ => separates_toList a b) _ _ h
  obtain ⟨hnonce, h⟩ := separates_word64 tx.nonce tx'.nonce _ _ h
  have hreserved := (separates_list htx.reserved htx'.reserved
    (fun a ha b hb => separates_bytes (htx.fields a ha) (htx'.fields b hb))).eq h
  cases tx
  cases tx'
  rw [Transaction.mk.injEq]
  exact ⟨htag, href, hexpiration, hclauses, hcoef, hgas, hdepends, hnonce, hreserved, rfl⟩

/-- **The encoding of a header fixes every field** but the signature. -/
theorem Header.eq_of_signingBytes (heq : h.signingBytes = h'.signingBytes) :
    { h with signature := h'.signature } = h' := by
  unfold signingBytes at heq
  obtain ⟨hparent, heq⟩ := separates_toList h.parentId h'.parentId _ _ heq
  obtain ⟨htime, heq⟩ := separates_word64 h.timestamp h'.timestamp _ _ heq
  obtain ⟨hlimit, heq⟩ := separates_word64 h.gasLimit h'.gasLimit _ _ heq
  obtain ⟨hbeneficiary, heq⟩ := separates_toList h.beneficiary h'.beneficiary _ _ heq
  obtain ⟨hgas, heq⟩ := separates_word64 h.gasUsed h'.gasUsed _ _ heq
  obtain ⟨hscore, heq⟩ := separates_word64 h.totalScore h'.totalScore _ _ heq
  obtain ⟨htxs, heq⟩ := separates_toList h.txsRoot h'.txsRoot _ _ heq
  obtain ⟨hstate, heq⟩ := separates_toList h.stateRoot h'.stateRoot _ _ heq
  have hreceipts := (separates_toList h.receiptsRoot h'.receiptsRoot).eq heq
  cases h
  cases h'
  rw [Header.mk.injEq]
  exact ⟨hparent, htime, hlimit, hbeneficiary, hgas, hscore, htxs, hstate, hreceipts, rfl⟩

/-- **What is signed says everything but the signature.** A `signingHash` is the digest of
`signingBytes`, and two `Counted` transactions, or two headers, have one `signingBytes` exactly if
they differ in the signature at most. -/
theorem signingBytes_injective :
    (∀ tx tx' : Transaction, tx.Counted → tx'.Counted →
      tx.signingHash = keccak256 tx.signingBytes ∧
      (tx.signingBytes = tx'.signingBytes ↔ { tx with signature := tx'.signature } = tx')) ∧
    ∀ h h' : Header,
      h.signingHash = keccak256 h.signingBytes ∧
      (h.signingBytes = h'.signingBytes ↔ { h with signature := h'.signature } = h') := by
  refine ⟨fun tx tx' htx htx' => ⟨rfl, Transaction.eq_of_signingBytes htx htx', ?_⟩,
    fun h h' => ⟨rfl, Header.eq_of_signingBytes, ?_⟩⟩
  · intro heq
    have hsame : { tx with signature := tx'.signature }.signingBytes = tx.signingBytes := rfl
    rw [← hsame, heq]
  · intro heq
    have hsame : { h with signature := h'.signature }.signingBytes = h.signingBytes := rfl
    rw [← hsame, heq]

/-! ## A clause in the data of another -/

namespace Sample

/-- A clause without recipient, value and data. -/
def blank : Clause := ⟨none, Amount.zero, []⟩

/-- A transaction with these clauses and reserved fields. -/
def withFields (clauses : List Clause) (reserved : List (List UInt8)) : Transaction where
  chainTag := 1
  blockRef := BlockRef.ofNumber 0
  expiration := 2
  clauses := clauses
  gasPriceCoef := 3
  gas := 21000
  dependsOn := none
  nonce := 4
  reserved := reserved
  signature := Signature.zero

/-- Two clauses, the first of which holds the bytes of the second as data. -/
def nested : Transaction := withFields [{ blank with data := blank.encode }, blank] [[], [0]]

/-- The same two clauses with the data moved to the second, and the same reserved bytes cut
elsewhere. -/
def shifted : Transaction := withFields [blank, { blank with data := blank.encode }] [[0], []]

/-- What is signed tells the two transactions apart, and does not see a change of signature. -/
theorem nested_ne_shifted : nested.Counted ∧ shifted.Counted ∧
    nested.signingBytes ≠ shifted.signingBytes ∧
    nested.signingBytes =
      { nested with signature := ⟨Bytes.zero, Bytes.zero, 27⟩ }.signingBytes := by
  have hnested : nested.Counted := ⟨by decide, by decide, by decide, by decide⟩
  have hshifted : shifted.Counted := ⟨by decide, by decide, by decide, by decide⟩
  refine ⟨hnested, hshifted, ?_, ?_⟩
  · intro h
    exact absurd ((signingBytes_injective.1 nested shifted hnested hshifted).2.mp h) (by decide)
  · exact (signingBytes_injective.1 nested _ hnested
      ⟨hnested.clauses, hnested.data, hnested.reserved, hnested.fields⟩).2.mpr rfl

end Sample

end ProofOfAuthority
