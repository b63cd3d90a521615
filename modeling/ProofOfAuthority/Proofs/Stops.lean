import ProofOfAuthority.Proofs.Checks
import ProofOfAuthority.Proofs.Replaying
import ProofOfAuthority.Proofs.Slots

/-!
# Where a validation stops

Validation comes to a block's transactions one after another (`Reaches`), and to none before the
checks of header, proposer and body are through. At each transaction there are few ways to stop
(`Unresolved`, `Halts`), and they name what was looked up, read or executed. So an error of
execution leads back to one transaction, and to the ledger on which the executor refused it.

* `Progress.checkDependency_error_iff`, `Progress.step_error_iff` — how the replay of one
  transaction stops.
* `Validator.validate_error` — the same for a whole validation.
* `Validator.validate_execution_error` — the errors of execution are those of the executor.
-/

namespace ProofOfAuthority

variable {μ : Type} {chain : Chain} {executor : Executor μ} {memory : μ} {header : Header}
  {tx : Transaction} {cause : ExecutionError} {stopped : Stop}

namespace Progress

variable {p : Progress μ} {parentId : BlockId} {id : TxId}

/-- A dependency of the transaction `id` on `d` stops the replay. A receipt that was read from the
chain is counted. -/
inductive Unresolved (p : Progress μ) (chain : Chain) (parentId : BlockId) (id d : TxId) :
    Stop → Prop
  | unknown {cause : ChainError} : p.find chain parentId d = .error cause →
      Unresolved p chain parentId id d ⟨.chain cause, p.fetches⟩
  | missing : p.find chain parentId d = .ok none →
      Unresolved p chain parentId id d ⟨.violation (.txDepBroken id d), p.fetches⟩
  | revertedInBlock : p.find chain parentId d = .ok (some (.inBlock true)) →
      Unresolved p chain parentId id d ⟨.violation (.txDepReverted id d), p.fetches⟩
  | unread {loc : Location} {cause : ChainError} :
      p.find chain parentId d = .ok (some (.inChain loc)) → chain.receipt loc = .error cause →
        Unresolved p chain parentId id d ⟨.chain cause, p.fetches + 1⟩
  | revertedInChain {loc : Location} {r : Receipt} :
      p.find chain parentId d = .ok (some (.inChain loc)) → chain.receipt loc = .ok r →
        r.reverted = true →
          Unresolved p chain parentId id d ⟨.violation (.txDepReverted id d), p.fetches + 1⟩

/-- The transaction stops the replay. -/
inductive Halts (p : Progress μ) (chain : Chain) (executor : Executor μ) (header : Header)
    (tx : Transaction) : Stop → Prop
  | unsigned {cause : SignatureError} : tx.id = .error cause →
      Halts p chain executor header tx
        ⟨.violation (.signerUnavailable (.transaction p.receipts.length) cause), p.fetches⟩
  | unknown {id : TxId} {cause : ChainError} : tx.id = .ok id →
      p.find chain header.parentId id = .error cause →
        Halts p chain executor header tx ⟨.chain cause, p.fetches⟩
  | included {id : TxId} {found : Inclusion} : tx.id = .ok id →
      p.find chain header.parentId id = .ok (some found) →
        Halts p chain executor header tx ⟨.violation (.txAlreadyExists id), p.fetches⟩
  | unresolved {id d : TxId} {stopped : Stop} : tx.id = .ok id →
      p.find chain header.parentId id = .ok none → tx.dependsOn = some d →
        p.Unresolved chain header.parentId id d stopped → Halts p chain executor header tx stopped
  | refused {id : TxId} {q : Progress μ} {cause : ExecutionError} : tx.id = .ok id →
      p.find chain header.parentId id = .ok none →
        p.checkDependency chain header.parentId id tx.dependsOn = .ok q →
          (executor.execute p.memory p.ledger header.context tx).2.result = .error cause →
            Halts p chain executor header tx ⟨.execution cause, q.fetches⟩

theorem checkNew_ok_iff_find {u : Unit} : p.checkNew chain parentId id = .ok u ↔
    p.find chain parentId id = .ok none := by
  unfold checkNew
  rcases p.find chain parentId id with cause | (_ | found) <;> simp [stop]

theorem checkNew_error_iff : p.checkNew chain parentId id = .error stopped ↔
    (∃ cause, p.find chain parentId id = .error cause ∧ stopped = ⟨.chain cause, p.fetches⟩) ∨
      ∃ found, p.find chain parentId id = .ok (some found) ∧
        stopped = ⟨.violation (.txAlreadyExists id), p.fetches⟩ := by
  unfold checkNew
  rcases p.find chain parentId id with cause | (_ | found) <;> simp [stop, eq_comm]

/-- **How a dependency stops the replay.** -/
theorem checkDependency_error_iff {dependsOn : Option TxId} :
    p.checkDependency chain parentId id dependsOn = .error stopped ↔
      ∃ d, dependsOn = some d ∧ p.Unresolved chain parentId id d stopped := by
  constructor
  · intro h
    cases dependsOn with
    | none => simp [checkDependency] at h
    | some d =>
      refine ⟨d, rfl, ?_⟩
      unfold checkDependency at h
      dsimp only at h
      split at h
      · rename_i cause hfind
        obtain rfl := Except.error.inj h
        exact Unresolved.unknown hfind
      · rename_i hfind
        obtain rfl := Except.error.inj h
        exact Unresolved.missing hfind
      · rename_i reverted hfind
        cases reverted with
        | false => simp at h
        | true =>
          obtain rfl := Except.error.inj h
          exact Unresolved.revertedInBlock hfind
      · rename_i loc hfind
        split at h
        · rename_i cause hread
          obtain rfl := Except.error.inj h
          exact Unresolved.unread hfind hread
        · rename_i r hread
          by_cases hreverted : r.reverted = true
          · rw [if_pos hreverted] at h
            obtain rfl := Except.error.inj h
            exact Unresolved.revertedInChain hfind hread hreverted
          · simp [hreverted] at h
  · rintro ⟨d, rfl, hd⟩
    unfold checkDependency
    cases hd with
    | unknown hfind => simp [hfind, stop]
    | missing hfind => simp [hfind, stop]
    | revertedInBlock hfind => simp [hfind, stop]
    | unread hfind hread => simp [hfind, hread, stop]
    | revertedInChain hfind hread hreverted => simp [hfind, hread, hreverted, stop]

theorem run_error_iff {context : BlockContext} :
    p.run executor context id tx = .error stopped ↔
      ∃ cause, (executor.execute p.memory p.ledger context tx).2.result = .error cause ∧
        stopped = ⟨.execution cause, p.fetches⟩ := by
  unfold run
  obtain ⟨m, l, cause | r⟩ := executor.execute p.memory p.ledger context tx <;> simp [stop, eq_comm]

/-- **How the replay of one transaction stops.** -/
theorem step_error_iff : p.step chain executor header tx = .error stopped ↔
    p.Halts chain executor header tx stopped := by
  unfold step
  cases hid : tx.id with
  | error cause =>
    constructor
    · intro h
      obtain rfl := Except.error.inj h
      exact Halts.unsigned hid
    · intro h
      cases h <;> simp_all [stop]
  | ok id =>
    simp only [bind_eq_error_iff, checkNew_error_iff, checkNew_ok_iff_find,
      checkDependency_error_iff, run_error_iff]
    constructor
    · rintro ((⟨cause, hfind, rfl⟩ | ⟨found, hfind, rfl⟩) | ⟨-, hnew, ⟨d, hd, hstop⟩ |
        ⟨q, hdep, cause, hresult, rfl⟩⟩)
      · exact Halts.unknown hid hfind
      · exact Halts.included hid hfind
      · exact Halts.unresolved hid hnew hd hstop
      · obtain ⟨⟨fetches, rfl⟩, -⟩ := checkDependency_ok hdep
        exact Halts.refused hid hnew hdep hresult
    · intro h
      cases h with
      | unsigned hid' => exact absurd (hid.symm.trans hid') (by simp)
      | unknown hid' hfind =>
        obtain rfl := Except.ok.inj (hid.symm.trans hid')
        exact Or.inl (Or.inl ⟨_, hfind, rfl⟩)
      | included hid' hfind =>
        obtain rfl := Except.ok.inj (hid.symm.trans hid')
        exact Or.inl (Or.inr ⟨_, hfind, rfl⟩)
      | unresolved hid' hnew hd hstop =>
        obtain rfl := Except.ok.inj (hid.symm.trans hid')
        exact Or.inr ⟨(), hnew, Or.inl ⟨_, hd, hstop⟩⟩
      | refused hid' hnew hdep hresult =>
        obtain rfl := Except.ok.inj (hid.symm.trans hid')
        obtain ⟨⟨fetches, rfl⟩, -⟩ := checkDependency_ok hdep
        exact Or.inr ⟨(), hnew, Or.inr ⟨_, hdep, _, hresult, rfl⟩⟩

theorem exists_of_steps_error {txs : List Transaction}
    (h : p.steps chain executor header txs = .error stopped) :
    ∃ (i : Nat) (tx : Transaction) (q : Progress μ), txs[i]? = some tx ∧
      p.steps chain executor header (txs.take i) = .ok q ∧
      q.Halts chain executor header tx stopped := by
  induction txs generalizing p with
  | nil => simp [steps] at h
  | cons tx rest ih =>
    rcases bind_eq_error_iff.mp h with hstep | ⟨next, hstep, hrest⟩
    · exact ⟨0, tx, p, rfl, rfl, step_error_iff.mp hstep⟩
    · obtain ⟨i, tx', q, htx, htake, hstop⟩ := ih hrest
      exact ⟨i + 1, tx', q, htx, bind_eq_ok_iff.mpr ⟨next, hstep, htake⟩, hstop⟩

/-- The last checks stop only for a commitment that is not kept. -/
theorem finish_error (h : p.finish header = .error stopped) :
    ∃ rule, stopped = ⟨.violation rule, p.fetches⟩ := by
  unfold finish at h
  dsimp only at h
  split at h
  · exact ⟨_, (Except.error.inj h).symm⟩
  · split at h
    · exact ⟨_, (Except.error.inj h).symm⟩
    · split at h
      · exact ⟨_, (Except.error.inj h).symm⟩
      · simp at h

end Progress

namespace Validator

variable {v : Validator} {ledger : Ledger} {block : Block} {parent : Header} {now : UInt64}

/-- Validation comes to the transaction at position `i`, with the replay at `p`. -/
def Reaches (v : Validator) (chain : Chain) (executor : Executor μ) (memory : μ) (ledger : Ledger)
    (block : Block) (parent : Header) (now : UInt64) (i : Nat) (tx : Transaction)
    (p : Progress μ) : Prop :=
  block.transactions[i]? = some tx ∧
    ∃ prepared, v.prepare ledger block parent now = .ok prepared ∧
      (Progress.start (prepared.markParent block.header.parentId) memory).steps chain executor
        block.header (block.transactions.take i) = .ok p

/-- A proposer fails only for a rule: the changes of activity of a rotation can be written. -/
theorem checkProposer_error {protocol : Protocol} {e : ValidationError}
    (h : checkProposer protocol ledger header parent = .error (.refused e)) :
    ∃ rule, e = .violation rule := by
  unfold checkProposer at h
  split at h
  · exact ⟨_, (Checked.refuse_eq_refused_iff.mp h).symm⟩
  · split at h
    · exact ⟨_, (Checked.refuse_eq_refused_iff.mp h).symm⟩
    · rename_i rotation hrotation
      rcases bind_eq_error_iff.mp h with h | ⟨owns, -, h⟩
      · exact absurd h Checked.ofFaulty_ne_refused
      · dsimp only at h
        split at h
        · exact ⟨_, (Checked.refuse_eq_refused_iff.mp h).symm⟩
        · split at h
          · exact ⟨_, (Checked.refuse_eq_refused_iff.mp h).symm⟩
          · obtain ⟨cause, hcause, -⟩ := Checked.ofExcept_eq_refused_iff.mp h
            obtain ⟨updated, hupdated⟩ :=
              Ledger.applyUpdates_of_rotation hrotation header.timestamp
            exact absurd (hupdated.symm.trans hcause) (by simp)

/-- **Before the replay** a block is refused only for a rule that it breaks. -/
theorem prepare_error {e : ValidationError}
    (h : v.prepare ledger block parent now = .error (.refused e)) :
    ∃ rule, e = .violation rule := by
  unfold prepare at h
  split at h
  · exact ⟨_, (Checked.refuse_eq_refused_iff.mp h).symm⟩
  · rcases bind_eq_error_iff.mp h with h | ⟨-, -, h⟩
    · obtain ⟨rule, -, rfl⟩ := Checked.mapReason_eq_refused_iff.mp h
      exact ⟨rule, rfl⟩
    · rcases bind_eq_error_iff.mp h with h | ⟨updated, -, h⟩
      · exact checkProposer_error h
      · rcases bind_eq_error_iff.mp h with h | ⟨-, -, h⟩
        · obtain ⟨rule, -, rfl⟩ := Checked.ofExcept_eq_refused_iff.mp h
          exact ⟨rule, rfl⟩
        · simp [pure, Except.pure] at h

/-- **Where a validation stops**: before the replay, at a transaction, or at the commitments. -/
theorem validate_error
    (h : v.validate chain executor memory ledger block parent now = .error (.refused stopped)) :
    (∃ e, v.prepare ledger block parent now = .error (.refused e) ∧ stopped = ⟨e, 0⟩) ∨
      (∃ i tx p, v.Reaches chain executor memory ledger block parent now i tx p ∧
        p.Halts chain executor block.header tx stopped) ∨
      ∃ rule fetches, stopped = ⟨.violation rule, fetches⟩ := by
  rcases bind_eq_error_iff.mp h with h | ⟨prepared, hprepare, h⟩
  · obtain ⟨e, he, rfl⟩ := Checked.mapReason_eq_refused_iff.mp h
    exact Or.inl ⟨e, he, rfl⟩
  · rw [Checked.mapReason_eq_ok_iff] at hprepare
    obtain ⟨_, hreplay, rfl⟩ := Checked.ofExcept_eq_refused_iff.mp h
    rcases bind_eq_error_iff.mp hreplay with hsteps | ⟨q, -, hfinish⟩
    · obtain ⟨i, tx, p, htx, htake, hhalts⟩ := Progress.exists_of_steps_error hsteps
      exact Or.inr (Or.inl ⟨i, tx, p, ⟨htx, prepared, hprepare, htake⟩, hhalts⟩)
    · obtain ⟨rule, hrule⟩ := Progress.finish_error hfinish
      exact Or.inr (Or.inr ⟨rule, q.fetches, hrule⟩)

/-- **The errors of execution** are those of the executor, at a transaction that validation has come
to. -/
theorem validate_execution_error {fetches : Nat}
    (h : v.validate chain executor memory ledger block parent now =
      .error (.refused ⟨.execution cause, fetches⟩)) :
    ∃ i tx p, v.Reaches chain executor memory ledger block parent now i tx p ∧
      (executor.execute p.memory p.ledger block.header.context tx).2.result = .error cause := by
  rcases validate_error h with ⟨e, he, hstop⟩ | ⟨i, tx, p, hreaches, hhalts⟩ | ⟨rule, k, hstop⟩
  · obtain ⟨rfl, -⟩ := Stop.mk.inj hstop
    obtain ⟨rule, hrule⟩ := prepare_error he
    exact absurd hrule (by simp)
  · refine ⟨i, tx, p, hreaches, ?_⟩
    cases hhalts with
    | unresolved hid hnew hd hstop => cases hstop
    | refused hid hnew hdep hresult => exact hresult
  · exact absurd hstop (by simp)

end Validator

end ProofOfAuthority
