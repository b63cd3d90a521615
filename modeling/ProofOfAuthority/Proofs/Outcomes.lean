import ProofOfAuthority.Proofs.Machine
import ProofOfAuthority.Proofs.Production

/-!
# The outcomes of a validation

A validator with checked parameters, on a chain that additions made, has a verdict on every block,
and reaches it without asking the machine for anything that it cannot give. It refuses a block for a
rule that the block breaks, for a transaction that cannot be paid for, for want of room in the
beneficiary's balance, or for a parent that the chain does not store. The other errors that the
parties to a validation know (an unregistered candidate, a missing receipt, a transaction without
signer at execution) never come up.

* `Chain.WellFormed.receipt_of_lookup` — what look-up finds has a receipt.
* `ValueTransfer.execute_error` — why a signed transaction is not executed.
* `Validator.validate_expected`, `Validator.validate_ne_fault` — errors and faults.
* `Validator.validate_outcomes` — verdict and machine together.
-/

namespace ProofOfAuthority

section Errors

variable {genesis parent : Header} {chain : Chain} {block : Block} {tx : Transaction}
  {stopped : Stop}

/-- The errors with which a validation may end: a broken rule, a transaction that cannot be charged,
a full balance of the beneficiary, or a parent that is not stored under a block that has
transactions to look up. -/
inductive Expected (chain : Chain) (block : Block) : ValidationError → Prop
  | rule (rule : Violation) : Expected chain block (.violation rule)
  | gas (intrinsic provided : UInt64) :
      Expected chain block (.execution (.intrinsicGasExceeded intrinsic provided))
  | funds (payer : Address) : Expected chain block (.execution (.insufficientFunds payer))
  | full (account : Address) :
      Expected chain block (.execution (.ledger (.balanceOverflow account)))
  | orphan : chain.contains block.header.parentId = false → block.transactions ≠ [] →
      Expected chain block (.chain (.unknownBlock block.header.parentId))

/-! ## The parties to a validation -/

/-- **What look-up finds has a receipt**, whatever number the genesis block has. -/
theorem Chain.WellFormed.receipt_of_lookup (wf : chain.WellFormed) {d : BlockId} {x : TxId}
    {loc : Location} (h : chain.lookup d x = .ok (some loc)) : ∃ r, chain.receipt loc = .ok r := by
  obtain ⟨-, hfound⟩ := contains_of_lookup h
  obtain ⟨s, hs, hid, hx⟩ := mem_locations_iff.mp (List.mem_of_find?_eq_some hfound)
  have hlt : loc.index < s.receipts.length := by
    rw [wf.receipts s hs]
    exact (List.getElem?_eq_some_iff.mp hx).1
  refine ⟨s.receipts[loc.index], ?_⟩
  have hreceipt := wf.receipt_stored hs (List.getElem?_eq_getElem hlt)
  rwa [hid] at hreceipt

/-- **A signed transaction is not executed** if it cannot be charged, or if the beneficiary has no
room for its reward. -/
theorem ValueTransfer.execute_error {ledger : Ledger} {context : BlockContext} {origin : Address}
    {cause : ExecutionError} (hsigner : tx.signer = .ok origin)
    (h : (execute ledger context tx).result = .error cause) :
    (∃ intrinsic provided, cause = .intrinsicGasExceeded intrinsic provided) ∨
      (∃ payer, cause = .insufficientFunds payer) ∨
        ∃ account, cause = .ledger (.balanceOverflow account) := by
  unfold execute at h
  rw [hsigner] at h
  dsimp only at h
  split at h
  · exact Or.inl ⟨_, _, (Except.error.inj h).symm⟩
  · split at h
    · exact Or.inr (Or.inl ⟨_, (Except.error.inj h).symm⟩)
    · rename_i remaining hfunds
      obtain ⟨reverted, after, outputs, -, hsettle⟩ :=
        settle_eq ledger context tx origin (fee ledger tx) remaining
      rw [hsettle] at h
      unfold credit at h
      split at h
      · exact Or.inr (Or.inr ⟨_, (Except.error.inj h).symm⟩)
      · cases h

namespace Progress

variable {μ : Type} {p : Progress μ} {parentId : BlockId} {id d : TxId}

/-- Look-up fails only below a block that is not stored. -/
theorem find_error {cause : ChainError} (h : p.find chain parentId id = .error cause) :
    chain.contains parentId = false ∧ cause = .unknownBlock parentId := by
  unfold find at h
  split at h
  · cases h
  · by_cases hstored : chain.contains parentId = true
    · simp [Chain.lookup, hstored, Except.map] at h
    · simp only [Chain.lookup, if_neg hstored, Except.map] at h
      exact ⟨by simpa using hstored, (Except.error.inj h).symm⟩

/-- What is found in the chain has a receipt there. -/
theorem receipt_of_find (wf : chain.WellFormed) {loc : Location}
    (h : p.find chain parentId id = .ok (some (.inChain loc))) :
    ∃ r, chain.receipt loc = .ok r := by
  unfold find at h
  split at h
  · cases h
  · rcases hlookup : chain.lookup parentId id with cause | (_ | found)
    · simp [hlookup, Except.map] at h
    · simp [hlookup, Except.map] at h
    · obtain rfl : found = loc := by simpa [hlookup, Except.map] using h
      exact wf.receipt_of_lookup hlookup

/-- A dependency stops a replay for a rule or for a parent that is not stored. -/
theorem Unresolved.expected (wf : chain.WellFormed) (hne : block.transactions ≠ [])
    (h : p.Unresolved chain block.header.parentId id d stopped) :
    Expected chain block stopped.error := by
  cases h with
  | unknown hfind =>
    obtain ⟨hstored, rfl⟩ := find_error hfind
    exact Expected.orphan hstored hne
  | missing => exact Expected.rule _
  | revertedInBlock => exact Expected.rule _
  | unread hfind hread =>
    obtain ⟨r, hr⟩ := receipt_of_find wf hfind
    exact absurd (hr.symm.trans hread) (by simp)
  | revertedInChain => exact Expected.rule _

/-- **A transaction stops a replay for an expected reason.** A transaction whose id was taken has a
signer when it is executed. -/
theorem Halts.expected {p : Progress Unit} (wf : chain.WellFormed) (hne : block.transactions ≠ [])
    (h : p.Halts chain ValueTransfer.executor block.header tx stopped) :
    Expected chain block stopped.error := by
  cases h with
  | unsigned => exact Expected.rule _
  | unknown _ hfind =>
    obtain ⟨hstored, rfl⟩ := find_error hfind
    exact Expected.orphan hstored hne
  | included => exact Expected.rule _
  | unresolved _ _ _ hstop => exact hstop.expected wf hne
  | @refused id _ cause hid _ _ hresult =>
    obtain ⟨origin, horigin⟩ : ∃ origin, tx.signer = .ok origin := by
      cases hsigner : tx.signer with
      | error cause => simp [Transaction.id, hsigner, Except.map] at hid
      | ok origin => exact ⟨origin, rfl⟩
    rcases ValueTransfer.execute_error horigin hresult with ⟨intrinsic, provided, rfl⟩ |
      ⟨payer, rfl⟩ | ⟨account, rfl⟩
    · exact Expected.gas intrinsic provided
    · exact Expected.funds payer
    · exact Expected.full account

end Progress

/-! ## All of validation -/

namespace Validator

variable {v : Validator} {ledger : Ledger} {now : UInt64} {cause : Fault}

/-- **The errors of a validation are expected ones.** -/
theorem validate_expected (hchain : Chain.Reachable genesis chain)
    (h : v.validate chain ValueTransfer.executor () ledger block parent now =
      .error (.refused stopped)) : Expected chain block stopped.error := by
  rcases validate_error h with ⟨e, he, rfl⟩ | ⟨i, tx, p, ⟨htx, -⟩, hhalts⟩ | ⟨rule, _, rfl⟩
  · obtain ⟨rule, rfl⟩ := prepare_error he
    exact Expected.rule rule
  · have hne : block.transactions ≠ [] := by
      rintro hnil
      simp [hnil] at htx
    exact hhalts.expected hchain.wellFormed hne
  · exact Expected.rule rule

theorem prepare_ne_fault (hp : v.protocol.Valid) :
    v.prepare ledger block parent now ≠ .error (.fault cause) := by
  intro h
  unfold prepare at h
  split at h
  · simp [Checked.refuse] at h
  · rcases bind_eq_error_iff.mp h with h | ⟨-, -, h⟩
    · exact (Machine.checkHeader_answers hp _ _ _).ne_fault (Checked.mapReason_eq_fault_iff.mp h)
    · rcases bind_eq_error_iff.mp h with h | ⟨updated, -, h⟩
      · exact (Machine.checkProposer_answers hp _ _ _).ne_fault h
      · rcases bind_eq_error_iff.mp h with h | ⟨-, -, h⟩
        · exact Checked.ofExcept_ne_fault h
        · simp [pure, Except.pure] at h

/-- **A validation has a verdict.** -/
theorem validate_ne_fault (hp : v.protocol.Valid) :
    v.validate chain ValueTransfer.executor () ledger block parent now ≠ .error (.fault cause) := by
  intro h
  rcases bind_eq_error_iff.mp h with h | ⟨_, -, h⟩
  · exact prepare_ne_fault hp (Checked.mapReason_eq_fault_iff.mp h)
  · exact Checked.ofExcept_ne_fault h

/-- **The outcomes of a validation.** With `Valid` parameters and on a `Reachable` chain there is a
verdict, and if it is an error, it is `Expected`. `Machine.validate` comes to the same verdict
without being stopped, for all the transactions that a memory of `2 ^ 64` bytes can hold. -/
theorem validate_outcomes (hp : v.protocol.Valid) (hchain : Chain.Reachable genesis chain)
    (ledger : Ledger) (block : Block) (parent : Header) (now : UInt64) :
    ∃ verdict : Except Stop Replayed,
      v.validate chain ValueTransfer.executor () ledger block parent now =
        Checked.ofExcept id verdict ∧
      (block.transactions.length ≤ 2 ^ 63 →
        (Machine.validate v chain ledger block parent now).run = .ok verdict) ∧
      ∀ stopped, verdict = .error stopped → Expected chain block stopped.error := by
  obtain ⟨verdict, hverdict⟩ : ∃ verdict : Except Stop Replayed,
      v.validate chain ValueTransfer.executor () ledger block parent now =
        Checked.ofExcept id verdict := by
    rcases h : v.validate chain ValueTransfer.executor () ledger block parent now with
      (cause | stopped) | replayed
    · exact absurd h (validate_ne_fault hp)
    · exact ⟨.error stopped, rfl⟩
    · exact ⟨.ok replayed, rfl⟩
  refine ⟨verdict, hverdict, ?_, ?_⟩
  · intro hsize
    have hanswers : Machine.Answers (Machine.validate v chain ledger block parent now) _ :=
      Machine.validate_answers hp ledger parent now hsize
    obtain ⟨found, hrun, hfound⟩ := hanswers
    rw [hrun, Machine.ofExcept_id_inj.mp (hverdict.symm.trans hfound)]
  · rintro stopped rfl
    exact validate_expected hchain hverdict

end Validator

end Errors

namespace Sample

/-- The machine accepts the sample block. -/
theorem machine_accepts : validator.protocol.Valid ∧
    Chain.Reachable genesis (Chain.ofGenesis genesis) ∧ ∃ fetches,
      (Machine.validate validator (Chain.ofGenesis genesis) ledger block genesis 1000).run =
        .ok (.ok ⟨ledger.markParent genesis.id, [receipt, receipt], fetches⟩) := by
  refine ⟨extendable.valid, Relation.ReflTransGen.refl, ?_⟩
  obtain ⟨fetches, haccepted⟩ := validates
  obtain ⟨verdict, hverdict, hmachine, -⟩ := Validator.validate_outcomes extendable.valid
    (Relation.ReflTransGen.refl : Chain.Reachable genesis (Chain.ofGenesis genesis)) ledger block
    genesis 1000
  refine ⟨fetches, ?_⟩
  rw [hmachine (by decide)]
  rw [haccepted] at hverdict
  exact congrArg Except.ok (Checked.ofExcept_eq_ok_iff.mp hverdict.symm)

end Sample

end ProofOfAuthority
