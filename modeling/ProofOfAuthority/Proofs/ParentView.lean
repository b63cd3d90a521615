import Mathlib.Logic.Basic
import ProofOfAuthority.Proofs.Ownership
import ProofOfAuthority.Proofs.SigningBytes

/-!
# What validation sees of the parent

A block names its parent by the id alone, and the id says less than the header: four bytes of the
digest give way to the block number, and a signature counts only by its signer, which is the zero
address where there is none. Still nothing that validation reads of the parent is left to choice.
Equal ids mean equal signing hashes and signers, and equal signing hashes mean equal fields, unless
two of the strings that were hashed have digests that agree behind the number (`TailCollision`).
Nothing is assumed of the digest.

* `Header.Alike.validate_eq` — the four things that are read of a parent.
* `BlockId.unstamped_stamp` — a number on a digest leaves the other bytes alone.
* `Header.alike_or_collision` — headers of one id are alike.
* `Validator.parent_pinned` — so validation comes to one verdict on them.
-/

namespace ProofOfAuthority

/-! ## What is read -/

/-- Two headers that, as parents, cannot be told apart. -/
structure Header.Alike (h h' : Header) : Prop where
  id : h.id = h'.id
  timestamp : h.timestamp = h'.timestamp
  gasLimit : h.gasLimit = h'.gasLimit
  totalScore : h.totalScore = h'.totalScore

namespace Header

variable {parent parent' : Header}

theorem Alike.number (h : parent.Alike parent') : parent.number = parent'.number := by
  rw [← number_id, h.id, number_id]

theorem Alike.checkHeader_eq (h : parent.Alike parent') (p : Protocol) (header : Header)
    (now : UInt64) : checkHeader p header parent now = checkHeader p header parent' now := by
  unfold checkHeader
  rw [h.timestamp, h.gasLimit, h.totalScore]

theorem Alike.checkProposer_eq (h : parent.Alike parent') (p : Protocol) (ledger : Ledger)
    (header : Header) : checkProposer p ledger header parent =
      checkProposer p ledger header parent' := by
  unfold checkProposer
  rw [h.number, h.timestamp, h.totalScore]

/-- **All that is read of a parent**: its id, and with it its number, its time, its gas limit and
its score. -/
theorem Alike.validate_eq {μ : Type} (h : parent.Alike parent') (v : Validator) (chain : Chain)
    (executor : Executor μ) (memory : μ) (ledger : Ledger) (block : Block) (now : UInt64) :
    v.validate chain executor memory ledger block parent now =
      v.validate chain executor memory ledger block parent' now := by
  unfold Validator.validate Validator.prepare
  rw [h.id, h.checkHeader_eq, h.checkProposer_eq]

end Header

/-! ## What the id says -/

theorem bigEndian_mod (width n : Nat) :
    bigEndian width (n % Bytes.card width) = bigEndian width n := by
  induction width generalizing n with
  | zero => rfl
  | succ width ih =>
    have hhigh : n % Bytes.card (width + 1) / 256 = n / 256 % Bytes.card width := by
      rw [Bytes.card_succ, Nat.mul_comm, Nat.mod_mul_right_div_self]
    have hlow : UInt8.ofNat (n % Bytes.card (width + 1)) = UInt8.ofNat n := by
      apply UInt8.toNat_inj.mp
      rw [UInt8.toNat_ofNat', UInt8.toNat_ofNat', Bytes.card_succ, Nat.mod_mul_left_mod]
    rw [bigEndian, bigEndian, hhigh, hlow, ih]

theorem drop_bigEndian (skipped width n : Nat) :
    (bigEndian (skipped + width) n).drop skipped = bigEndian width n := by
  induction width generalizing n with
  | zero => simp [bigEndian]
  | succ width ih =>
    rw [← Nat.add_assoc, bigEndian, List.drop_append_of_le_length (by simp), ih, bigEndian]

/-- What is left of a digest when a block number stands on its first four bytes. -/
def BlockId.unstamped (digest : Hash) : List UInt8 := digest.toList.drop 4

/-- **A block number on a digest** leaves the other 28 bytes alone. -/
theorem BlockId.unstamped_stamp (number : UInt32) (digest : Hash) :
    unstamped (stamp number digest) = unstamped digest := by
  have hrest : (stamp number digest).toNat % Bytes.card 28 = digest.toNat % Bytes.card 28 := by
    rw [stamp, Nat.mul_add_mod_self_right, Nat.mod_mod]
  have hdrop (d : Hash) : unstamped d = bigEndian 28 d.toNat := drop_bigEndian 4 28 d.toNat
  rw [hdrop, hdrop, ← bigEndian_mod, hrest, bigEndian_mod]

/-- Two of the strings have digests that agree behind the block number. -/
def TailCollision (strings : List (List UInt8)) : Prop :=
  ∃ a ∈ strings, ∃ b ∈ strings, a ≠ b ∧
    BlockId.unstamped (keccak256 a) = BlockId.unstamped (keccak256 b)

namespace Header

variable {h h' parent parent' : Header}

/-- The strings hashed for the id: the signed fields, and their hash with the signer. -/
def hashed (h : Header) : List (List UInt8) := [h.signingBytes, h.idBytes]

theorem unstamped_id (h : Header) :
    BlockId.unstamped h.id = BlockId.unstamped (keccak256 h.idBytes) :=
  BlockId.unstamped_stamp h.number _

theorem signerOrZero_eq (h : Header) : h.signerOrZero = h.signer.toOption.getD Bytes.zero := by
  rw [signerOrZero]
  cases h.signer <;> rfl

/-- Headers that differ in the signature at most are alike if the signer is the same. -/
theorem alike_of_signerOrZero (hfields : { h with signature := h'.signature } = h')
    (hsigner : h.signerOrZero = h'.signerOrZero) : h.Alike h' := by
  have hhash : h.signingHash = h'.signingHash := by
    rw [← hfields]
    rfl
  have hnumber : h.number = h'.number := by
    rw [← hfields]
    rfl
  refine ⟨?_, ?_, ?_, ?_⟩
  · rw [id, id, idBytes, idBytes, hhash, hsigner, hnumber]
  · rw [← hfields]
  · rw [← hfields]
  · rw [← hfields]

/-- **Headers of one id are alike**, or two strings that were hashed for it collide. The two hashes
are taken off one after the other. -/
theorem alike_or_collision (hid : h.id = h'.id) :
    h.Alike h' ∨ TailCollision (h.hashed ++ h'.hashed) := by
  by_cases hbytes : h.idBytes = h'.idBytes
  · obtain ⟨hhash, hsigner⟩ := List.append_inj hbytes (by simp)
    by_cases hsigned : h.signingBytes = h'.signingBytes
    · exact Or.inl
        (alike_of_signerOrZero (eq_of_signingBytes hsigned) (Bytes.toList_inj.mp hsigner))
    · refine Or.inr ⟨h.signingBytes, by simp [hashed], h'.signingBytes, by simp [hashed], hsigned,
        ?_⟩
      exact congrArg BlockId.unstamped (Bytes.toList_inj.mp hhash)
  · refine Or.inr ⟨h.idBytes, by simp [hashed], h'.idBytes, by simp [hashed], hbytes, ?_⟩
    rw [← unstamped_id, hid, unstamped_id]

end Header

/-! ## The verdict -/

namespace Validator

variable {μ : Type} {v : Validator} {chain : Chain} {executor : Executor μ} {memory : μ}
  {ledger : Ledger} {block : Block} {parent parent' : Header} {now : UInt64}

/-- Validation says that the block does not extend the parent. -/
def Unrelated (v : Validator) (chain : Chain) (executor : Executor μ) (memory : μ) (ledger : Ledger)
    (block : Block) (parent : Header) (now : UInt64) : Prop :=
  ∃ expected found fetches, v.validate chain executor memory ledger block parent now =
    .error (.refused ⟨.violation (.parentMismatch expected found), fetches⟩)

theorem parentId_of_not_unrelated
    (h : ¬v.Unrelated chain executor memory ledger block parent now) :
    block.header.parentId = parent.id := by
  by_contra hne
  refine h ⟨parent.id, block.header.parentId, 0, ?_⟩
  unfold validate prepare
  rw [if_pos hne]
  rfl

/-- **The id of the parent pins down what validation reads of it.** Two parents to which a block is
not `Unrelated` give one result, or there is a `TailCollision` in what is `hashed` for their ids.
Those that differ in the signature alone, and have one signer or none, give one result. -/
theorem parent_pinned (v : Validator) (chain : Chain) (executor : Executor μ) (memory : μ)
    (ledger : Ledger) (block : Block) (now : UInt64) :
    (∀ parent parent' : Header,
      ¬v.Unrelated chain executor memory ledger block parent now →
      ¬v.Unrelated chain executor memory ledger block parent' now →
        v.validate chain executor memory ledger block parent now =
          v.validate chain executor memory ledger block parent' now ∨
        TailCollision (parent.hashed ++ parent'.hashed)) ∧
    ∀ parent parent' : Header, { parent with signature := parent'.signature } = parent' →
      parent.signer.toOption = parent'.signer.toOption →
        v.validate chain executor memory ledger block parent now =
          v.validate chain executor memory ledger block parent' now := by
  constructor
  · intro parent parent' hparent hparent'
    have hid : parent.id = parent'.id :=
      (parentId_of_not_unrelated hparent).symm.trans (parentId_of_not_unrelated hparent')
    refine (Header.alike_or_collision hid).imp (fun halike => ?_) (fun hcollision => hcollision)
    exact halike.validate_eq v chain executor memory ledger block now
  · intro parent parent' hfields hsigner
    have hzero : parent.signerOrZero = parent'.signerOrZero := by
      rw [Header.signerOrZero_eq, Header.signerOrZero_eq, hsigner]
    exact (Header.alike_of_signerOrZero hfields hzero).validate_eq v chain executor memory ledger
      block now

end Validator

namespace Sample

/-- The genesis header with another signature that has no signer either. -/
def scribbled : Header := { genesis with signature := ⟨Bytes.zero, Bytes.zero, 99⟩ }

/-- The sample block is accepted on the genesis header whatever the signature of that is, and a
header whose signature has two spellings is one parent. -/
theorem scribbled_interchangeable :
    genesis ≠ scribbled ∧ genesis.signer.toOption = scribbled.signer.toOption ∧
    ¬validator.Unrelated (Chain.ofGenesis genesis) ValueTransfer.executor () ledger block genesis
      1000 ∧
    ¬validator.Unrelated (Chain.ofGenesis genesis) ValueTransfer.executor () ledger block scribbled
      1000 ∧
    (validator.validate (Chain.ofGenesis genesis) ValueTransfer.executor () ledger block genesis
        1000 =
      validator.validate (Chain.ofGenesis genesis) ValueTransfer.executor () ledger block scribbled
        1000 ∨ TailCollision (genesis.hashed ++ scribbled.hashed)) ∧
    block.header.signer.toOption = respelled.signer.toOption ∧
    validator.validate (Chain.ofGenesis genesis) ValueTransfer.executor () ledger block block.header
      1000 =
    validator.validate (Chain.ofGenesis genesis) ValueTransfer.executor () ledger block respelled
      1000 := by
  obtain ⟨hpinned, hsame⟩ := Validator.parent_pinned validator (Chain.ofGenesis genesis)
    ValueTransfer.executor () ledger block 1000
  obtain ⟨fetches, hvalid⟩ := validates
  have hunsigned : genesis.signer.toOption = scribbled.signer.toOption := by decide +kernel
  have hspelled : block.header.signer.toOption = respelled.signer.toOption := by
    rw [header_signer, respelled_signer]
  have hscribbled := hvalid
  rw [hsame genesis scribbled rfl hunsigned] at hscribbled
  have hrelated : ¬validator.Unrelated (Chain.ofGenesis genesis) ValueTransfer.executor () ledger
      block genesis 1000 := by
    rintro ⟨expected, found, k, hrefused⟩
    exact absurd (hvalid.symm.trans hrefused) (by simp)
  have hrelated' : ¬validator.Unrelated (Chain.ofGenesis genesis) ValueTransfer.executor () ledger
      block scribbled 1000 := by
    rintro ⟨expected, found, k, hrefused⟩
    exact absurd (hscribbled.symm.trans hrefused) (by simp)
  have hv : genesis.signature.v ≠ scribbled.signature.v := by decide
  exact ⟨fun h => hv (congrArg (·.signature.v) h), hunsigned, hrelated, hrelated',
    hpinned genesis scribbled hrelated hrelated', hspelled,
    hsame block.header respelled rfl hspelled⟩

end Sample

end ProofOfAuthority
