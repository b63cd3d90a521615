import Mathlib.Logic.Basic
import Mathlib.Tactic.ByContra
import ProofOfAuthority.Validation

/-!
# What the checks accept

The checks of validation stop at the first failure. Here each of them is compared with the condition
that it stands for, in which no order is left.

* `checkHeader_ok_iff`, `checkProposer_ok_iff`, `checkBody_ok_iff` — the three groups of checks.
* `Validator.prepare_ok_iff` — all that comes before the replay.
-/

namespace ProofOfAuthority

variable {p : Protocol} {header parent : Header} {now : UInt64}

/-! ## The header -/

/-- The header is in a slot after the parent's. -/
def InSlot (p : Protocol) (header parent : Header) : Prop :=
  parent.timestamp < header.timestamp ∧ p.blockInterval ≠ 0 ∧
    (header.timestamp - parent.timestamp) % p.blockInterval = 0

/-- The header's slot begins more than one interval after `now`. -/
def Early (p : Protocol) (header : Header) (now : UInt64) : Prop :=
  now.toNat + p.blockInterval.toNat < header.timestamp.toNat

theorem satAdd_lt_iff {a b c : UInt64} : satAdd a b < c ↔ a.toNat + b.toNat < c.toNat := by
  have hc := c.toNat_lt
  rw [UInt64.lt_iff_toNat_lt, toNat_satAdd, maxWord]
  omega

/-- A header in no slot fails whatever the clock says, and not for being early. -/
theorem checkHeader_outside (h : ¬InSlot p header parent) :
    ∃ e, (∀ now, checkHeader p header parent now = .error e) ∧
      ∀ v, e = .refused v → v.isFuture = false := by
  by_cases hafter : header.timestamp ≤ parent.timestamp
  · refine ⟨.refused (.timestampBehindParent parent.timestamp header.timestamp), ?_, ?_⟩
    · intro now
      rw [checkHeader, if_pos hafter, Checked.refuse]
    · rintro v ⟨⟩
      rfl
  by_cases hinterval : p.blockInterval = 0
  · refine ⟨.fault .divisionByZero, ?_, ?_⟩
    · intro now
      rw [checkHeader, if_neg hafter, if_pos hinterval]
    · rintro v ⟨⟩
  have hgrid : (header.timestamp - parent.timestamp) % p.blockInterval ≠ 0 := by
    intro hgrid
    exact h ⟨UInt64.not_le.mp hafter, hinterval, hgrid⟩
  refine ⟨.refused (.intervalNotRounded parent.timestamp header.timestamp), ?_, ?_⟩
  · intro now
    rw [checkHeader, if_neg hafter, if_neg hinterval, if_pos hgrid, Checked.refuse]
  · rintro v ⟨⟩
    rfl

theorem checkHeader_early (hslot : InSlot p header parent) (hearly : Early p header now) :
    checkHeader p header parent now = Checked.refuse (.futureBlock header.timestamp now) := by
  obtain ⟨hafter, hinterval, hgrid⟩ := hslot
  rw [checkHeader, if_neg (UInt64.not_le.mpr hafter), if_neg hinterval, if_neg (not_not.mpr hgrid),
    if_pos (satAdd_lt_iff.mpr hearly)]

/-- What is left to check of a header in a slot that has come. -/
theorem checkHeader_in_slot (hslot : InSlot p header parent) (htime : ¬Early p header now) :
    checkHeader p header parent now = do
      let follows ← Checked.ofFaulty (GasLimit.follows p parent.gasLimit header.gasLimit)
      if !follows then Checked.refuse (.gasLimitInvalid parent.gasLimit header.gasLimit)
      else if header.gasLimit < header.gasUsed then
        Checked.refuse (.gasUsedExceedsLimit header.gasLimit header.gasUsed)
      else if header.totalScore ≤ parent.totalScore then
        Checked.refuse (.totalScoreInvalid (satAdd parent.totalScore 1) header.totalScore)
      else return () := by
  obtain ⟨hafter, hinterval, hgrid⟩ := hslot
  rw [checkHeader, if_neg (UInt64.not_le.mpr hafter), if_neg hinterval, if_neg (not_not.mpr hgrid),
    if_neg (mt satAdd_lt_iff.mp htime)]

/-- What is left once the gas limit is known to follow the parent's. -/
theorem checkHeader_follows (hslot : InSlot p header parent) (htime : ¬Early p header now)
    (hfollows : GasLimit.follows p parent.gasLimit header.gasLimit = .ok true) :
    checkHeader p header parent now =
      if header.gasLimit < header.gasUsed then
        Checked.refuse (.gasUsedExceedsLimit header.gasLimit header.gasUsed)
      else if header.totalScore ≤ parent.totalScore then
        Checked.refuse (.totalScoreInvalid (satAdd parent.totalScore 1) header.totalScore)
      else .ok () := by
  rw [checkHeader_in_slot hslot htime, hfollows]
  rfl

/-- **The headers that pass.** -/
theorem checkHeader_ok_iff : checkHeader p header parent now = .ok () ↔
    InSlot p header parent ∧ ¬Early p header now ∧
      GasLimit.follows p parent.gasLimit header.gasLimit = .ok true ∧
      header.gasUsed ≤ header.gasLimit ∧ parent.totalScore < header.totalScore := by
  constructor
  · intro h
    have hslot : InSlot p header parent := by
      by_contra hslot
      obtain ⟨e, he, -⟩ := checkHeader_outside hslot
      rw [he] at h
      exact absurd h (by simp)
    have htime : ¬Early p header now := by
      intro hearly
      rw [checkHeader_early hslot hearly] at h
      exact absurd h Checked.refuse_ne_ok
    have hfollows : GasLimit.follows p parent.gasLimit header.gasLimit = .ok true := by
      rw [checkHeader_in_slot hslot htime] at h
      obtain ⟨follows, hfollows, h⟩ := bind_eq_ok_iff.mp h
      rw [Checked.ofFaulty_eq_ok_iff] at hfollows
      cases follows with
      | false => exact absurd h Checked.refuse_ne_ok
      | true => exact hfollows
    rw [checkHeader_follows hslot htime hfollows] at h
    by_cases hgas : header.gasLimit < header.gasUsed
    · rw [if_pos hgas] at h
      exact absurd h Checked.refuse_ne_ok
    rw [if_neg hgas] at h
    by_cases hscore : header.totalScore ≤ parent.totalScore
    · rw [if_pos hscore] at h
      exact absurd h Checked.refuse_ne_ok
    exact ⟨hslot, htime, hfollows, UInt64.not_lt.mp hgas, UInt64.not_le.mp hscore⟩
  · rintro ⟨hslot, htime, hfollows, hgas, hscore⟩
    rw [checkHeader_follows hslot htime hfollows, if_neg (UInt64.not_lt.mpr hgas),
      if_neg (UInt64.not_le.mpr hscore)]

/-! ## The proposer -/

/-- **The proposers that pass**: the signer owns the slot, and the header has the score of it. -/
theorem checkProposer_ok_iff {ledger updated : Ledger} :
    checkProposer p ledger header parent = .ok updated ↔
      ∃ signer rotation, header.signer = .ok signer ∧
        Rotation.ofSigner p signer ledger.proposers parent.number parent.timestamp =
          .ok rotation ∧
        rotation.ownsSlot header.timestamp = .ok true ∧
        header.totalScore = satAdd parent.totalScore (rotation.score header.timestamp) ∧
        ledger.applyUpdates (rotation.updates header.timestamp) = .ok updated := by
  unfold checkProposer
  constructor
  · intro h
    cases hsigner : header.signer with
    | error cause =>
      rw [hsigner] at h
      exact absurd h Checked.refuse_ne_ok
    | ok signer =>
      simp only [hsigner] at h
      cases hrotation : Rotation.ofSigner p signer ledger.proposers parent.number
          parent.timestamp with
      | error cause =>
        rw [hrotation] at h
        exact absurd h Checked.refuse_ne_ok
      | ok rotation =>
        simp only [hrotation] at h
        obtain ⟨owns, howns, h⟩ := bind_eq_ok_iff.mp h
        rw [Checked.ofFaulty_eq_ok_iff] at howns
        cases owns with
        | false => exact absurd h Checked.refuse_ne_ok
        | true =>
          rw [if_neg (by simp)] at h
          by_cases hscore : header.totalScore =
              satAdd parent.totalScore (rotation.score header.timestamp)
          · rw [if_neg (not_not.mpr hscore)] at h
            exact ⟨signer, rotation, rfl, hrotation, howns, hscore,
              Checked.ofExcept_eq_ok_iff.mp h⟩
          · rw [if_pos hscore] at h
            exact absurd h Checked.refuse_ne_ok
  · rintro ⟨signer, rotation, hsigner, hrotation, howns, hscore, hupdates⟩
    rw [hsigner]
    simp only [hrotation]
    refine bind_eq_ok_iff.mpr ⟨true, Checked.ofFaulty_eq_ok_iff.mpr howns, ?_⟩
    rw [if_neg (by simp), if_neg (not_not.mpr hscore)]
    exact Checked.ofExcept_eq_ok_iff.mpr hupdates

/-! ## The body -/

/-- The transaction may be in a block of this number on the chain with this tag, as far as the
transaction itself goes. -/
structure Transaction.Admissible (tx : Transaction) (chainTag : UInt8) (number : UInt32) :
    Prop where
  signed : ∃ signer, tx.signer = .ok signer
  chainTag : tx.chainTag = chainTag
  started : tx.blockRef.number ≤ number
  unexpired : ¬tx.ExpiredAt number
  reserved : tx.reserved = []

theorem checkTransaction_ok_iff {tag : UInt8} {number : UInt32} {index : Nat} {tx : Transaction}
    {u : Unit} : checkTransaction tag number index tx = .ok u ↔ tx.Admissible tag number := by
  unfold checkTransaction
  split
  · rename_i cause hsigner
    constructor
    · intro h
      exact absurd h (by simp)
    · rintro ⟨⟨signer, hsigned⟩, -, -, -, -⟩
      rw [hsigner] at hsigned
      exact absurd hsigned (by simp)
  · rename_i signer hsigner
    simp only [bind_eq_ok_iff, require_eq_ok_iff, exists_const, Transaction.hasReserved,
      Bool.not_eq_false', List.isEmpty_iff]
    constructor
    · rintro ⟨htag, href, hexpiry, hreserved⟩
      exact ⟨⟨signer, hsigner⟩, htag, href, hexpiry, hreserved⟩
    · rintro ⟨-, htag, href, hexpiry, hreserved⟩
      exact ⟨htag, href, hexpiry, hreserved⟩

theorem checkTransactions_ok_iff {tag : UInt8} {number : UInt32} {index : Nat}
    {txs : List Transaction} : checkTransactions tag number index txs = .ok () ↔
      ∀ tx ∈ txs, tx.Admissible tag number := by
  induction txs generalizing index with
  | nil => simp [checkTransactions]
  | cons tx rest ih =>
    unfold checkTransactions
    simp only [bind_eq_ok_iff, checkTransaction_ok_iff, exists_const, ih, List.forall_mem_cons]

/-- **The bodies that pass.** -/
theorem checkBody_ok_iff {tag : UInt8} {block : Block} : checkBody tag block = .ok () ↔
    block.header.txsRoot = transactionsRoot block.transactions ∧
      ∀ tx ∈ block.transactions, tx.Admissible tag block.header.number := by
  unfold checkBody
  simp only [bind_eq_ok_iff, require_eq_ok_iff, exists_const, checkTransactions_ok_iff]

/-! ## All of them -/

namespace Validator

variable {v : Validator} {ledger updated : Ledger} {block : Block}

/-- **The blocks that are ready for the replay**, with the ledger they are replayed on. -/
theorem prepare_ok_iff : v.prepare ledger block parent now = .ok updated ↔
    block.header.parentId = parent.id ∧
      checkHeader v.protocol block.header parent now = .ok () ∧
      checkProposer v.protocol ledger block.header parent = .ok updated ∧
      checkBody v.chainTag block = .ok () := by
  unfold prepare
  by_cases hparent : block.header.parentId = parent.id
  · rw [if_neg (not_not.mpr hparent)]
    simp only [bind_eq_ok_iff, Checked.mapReason_eq_ok_iff, Checked.ofExcept_eq_ok_iff, pure,
      Except.pure, Except.ok.injEq]
    constructor
    · rintro ⟨⟨⟩, hheader, l, hproposer, ⟨⟩, hbody, rfl⟩
      exact ⟨hparent, hheader, hproposer, hbody⟩
    · rintro ⟨-, hheader, hproposer, hbody⟩
      exact ⟨(), hheader, updated, hproposer, (), hbody, rfl⟩
  · rw [if_pos hparent]
    constructor
    · intro h
      exact absurd h Checked.refuse_ne_ok
    · rintro ⟨heq, -⟩
      exact absurd heq hparent

theorem validate_ok_iff {μ : Type} {chain : Chain} {executor : Executor μ} {memory : μ}
    {replayed : Replayed} :
    v.validate chain executor memory ledger block parent now = .ok replayed ↔
      ∃ updated, v.prepare ledger block parent now = .ok updated ∧
        replay chain executor memory updated block = .ok replayed := by
  unfold validate
  simp only [bind_eq_ok_iff, Checked.mapReason_eq_ok_iff, Checked.ofExcept_eq_ok_iff]

end Validator

end ProofOfAuthority
