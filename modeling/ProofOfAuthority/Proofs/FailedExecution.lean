import ProofOfAuthority.Proofs.Clauses
import ProofOfAuthority.Proofs.Supply

/-!
# What a failed execution leaves behind

An execution checks what it can before it writes: the signature, the gas, and whether the fee can be
paid. After that the payer is charged, the clauses run, and one thing can still go wrong, which is
that the beneficiary has no room for the reward. By then the charge and the clauses are written, and
they stay.

* `Uncharged` — the reasons for which nobody is charged, each with what was checked before.
* `charged_or_uncharged`, `execute_of_charged`, `execute_of_uncharged` — the course of an execution
  by them.
* `credit_eq_error_iff` — when there is no room for a reward.
* `execute_error_iff` — all the ways to fail, and what each leaves.
* `run_executeInPlace` — an execution in place does what `execute` does.
* `failed_execution` — what can fail, when, and what is left.
-/

namespace ProofOfAuthority

/-- What an execution leaves behind, as the end of a program on the ledger. -/
def Execution.ended (x : Execution) : EStateM.Result ExecutionError Ledger Receipt :=
  match x.result with
  | .ok r => .ok r x.ledger
  | .error cause => .error cause x.ledger

namespace ValueTransfer

variable {l l' : Ledger} {context : BlockContext} {tx : Transaction} {origin : Address}
  {remaining : Amount} {cause : ExecutionError}

/-! ## Before anything is written -/

/-- The reasons for which nobody is charged, each with what was checked before. -/
inductive Uncharged (l : Ledger) (tx : Transaction) : ExecutionError → Prop
  | signer {cause : SignatureError} : tx.signer = .error cause → Uncharged l tx (.signer cause)
  | gas {origin : Address} : tx.signer = .ok origin → tx.gas < tx.intrinsicGas →
      Uncharged l tx (.intrinsicGasExceeded tx.intrinsicGas tx.gas)
  | funds {origin : Address} : tx.signer = .ok origin → tx.intrinsicGas ≤ tx.gas →
      (l.balance origin).toNat < (fee l tx).toNat → Uncharged l tx (.insufficientFunds origin)

theorem charged_or_uncharged (l : Ledger) (tx : Transaction) :
    (∃ cause, Uncharged l tx cause) ∨ ∃ origin remaining, Charged l tx origin remaining := by
  cases hsigner : tx.signer with
  | error cause => exact Or.inl ⟨_, .signer hsigner⟩
  | ok origin =>
    by_cases hgas : tx.gas < tx.intrinsicGas
    · exact Or.inl ⟨_, .gas hsigner hgas⟩
    · cases hfunds : (l.balance origin).sub? (fee l tx) with
      | none =>
        exact Or.inl ⟨_, .funds hsigner (UInt64.not_lt.mp hgas) (Amount.sub?_eq_none_iff.mp hfunds)⟩
      | some remaining => exact Or.inr ⟨origin, remaining, hsigner, hgas, hfunds⟩

theorem execute_of_uncharged (h : Uncharged l tx cause) (context : BlockContext) :
    execute l context tx = ⟨l, .error cause⟩ := by
  cases h with
  | signer hsigner => exact execute_signer_error hsigner
  | gas hsigner hgas => exact execute_gas_error hsigner hgas
  | funds hsigner hgas hfunds =>
    have hsub := Amount.sub?_eq_none_iff.mpr hfunds
    simp only [execute, hsigner, if_neg (UInt64.not_lt.mpr hgas), hsub]

theorem execute_of_charged (h : Charged l tx origin remaining) (context : BlockContext) :
    execute l context tx = settle l context tx origin (fee l tx) remaining := by
  simp only [execute, h.signer, if_neg h.gas, h.funds]

/-! ## After the charge -/

/-- The ledger with clauses performed on it: all of them are in effect, or none if one fails. -/
def afterClauses (l : Ledger) (origin : Address) (clauses : List Clause) : Ledger :=
  match (performOrRestore origin clauses).run l with
  | .ok _ l' => l'
  | .error _ l' => l'

theorem Ran.after_eq {clauses : List Clause} {reverted : Bool} {outputs : List Output}
    (hl : l.balances.Sorted) (h : Ran l origin clauses reverted l' outputs) :
    l' = afterClauses l origin clauses := by
  rw [afterClauses, run_performOrRestore hl]
  cases h with
  | through h => rw [h, allOrNothing]
  | undone h => rw [h, allOrNothing]

/-- **There is no room for a reward** if balance and reward are too much together. -/
theorem credit_eq_error_iff {r : Receipt} : credit l context r = ⟨l', .error cause⟩ ↔
    l' = l ∧ cause = .ledger (.balanceOverflow context.beneficiary) ∧
      Bytes.card 32 ≤ (l.balance context.beneficiary).toNat + r.reward.toNat := by
  rw [← Amount.add?_eq_none_iff, credit]
  cases (l.balance context.beneficiary).add? r.reward with
  | none => simp [eq_comm]
  | some credited => simp

/-- **A charged execution fails** only for want of room for the reward, and leaves the charge and
the clauses behind. -/
theorem execute_error_of_charged (hl : l.balances.Sorted) (h : Charged l tx origin remaining) :
    execute l context tx = ⟨l', .error cause⟩ ↔
      l' = afterClauses (l.setBalance origin remaining) origin tx.clauses ∧
        cause = .ledger (.balanceOverflow context.beneficiary) ∧
        Bytes.card 32 ≤ (l'.balance context.beneficiary).toNat + (reward (fee l tx)).toNat := by
  obtain ⟨reverted, after, outputs, hran, hsettle⟩ :=
    settle_eq l context tx origin (fee l tx) remaining
  rw [execute_of_charged h, hsettle, credit_eq_error_iff, hran.after_eq (hl.write origin remaining)]
  constructor
  · rintro ⟨rfl, hcause, hfull⟩
    exact ⟨rfl, hcause, hfull⟩
  · rintro ⟨rfl, hcause, hfull⟩
    exact ⟨rfl, hcause, hfull⟩

/-- **All the ways to fail**: nobody is charged and nothing is written, or the charge and the
clauses are written and there is no room for the reward. -/
theorem execute_error_iff (hl : l.balances.Sorted) :
    execute l context tx = ⟨l', .error cause⟩ ↔
      (Uncharged l tx cause ∧ l' = l) ∨
        ∃ origin remaining, Charged l tx origin remaining ∧
          l' = afterClauses (l.setBalance origin remaining) origin tx.clauses ∧
          cause = .ledger (.balanceOverflow context.beneficiary) ∧
          Bytes.card 32 ≤ (l'.balance context.beneficiary).toNat + (reward (fee l tx)).toNat := by
  constructor
  · intro h
    rcases charged_or_uncharged l tx with ⟨reason, huncharged⟩ | ⟨origin, remaining, hcharged⟩
    · rw [execute_of_uncharged huncharged] at h
      obtain ⟨rfl, hcause⟩ := Execution.mk.inj h
      obtain rfl := Except.error.inj hcause
      exact Or.inl ⟨huncharged, rfl⟩
    · exact Or.inr ⟨origin, remaining, hcharged, (execute_error_of_charged hl hcharged).mp h⟩
  · rintro (⟨huncharged, rfl⟩ | ⟨origin, remaining, hcharged, h⟩)
    · exact execute_of_uncharged huncharged context
    · exact (execute_error_of_charged hl hcharged).mpr h

/-! ## In place -/

/-- Run a program that may revert, and say whether it did. -/
def orRevert (program : EStateM ClauseFailure Ledger (List Output)) :
    EStateM ExecutionError Ledger (Bool × List Output) := fun l =>
  match program.run l with
  | .ok outputs l' => .ok (false, outputs) l'
  | .error _ l' => .ok (true, []) l'

/-- The end of `TransferRuntime::execute_transaction`: charge the payer, run the clauses and credit
the reward, one after the other. -/
def settleInPlace (context : BlockContext) (tx : Transaction) (origin : Address)
    (paid remaining : Amount) : EStateM ExecutionError Ledger Receipt := do
  modify fun l => l.setBalance origin remaining
  let (reverted, outputs) ← orRevert (applyInPlace origin tx.clauses)
  let some credited := ((← get).balance context.beneficiary).add? (reward paid)
    | throw (.ledger (.balanceOverflow context.beneficiary))
  modify fun l => l.setBalance context.beneficiary credited
  return ⟨tx.intrinsicGas, origin, paid, reward paid, reverted, outputs⟩

/-- `TransferRuntime::execute_transaction` in place: execute a transaction on the ledger. A failure
does not undo what was written before it. -/
def executeInPlace (context : BlockContext) (tx : Transaction) :
    EStateM ExecutionError Ledger Receipt := do
  match tx.signer with
  | .error cause => throw (.signer cause)
  | .ok origin =>
    if tx.gas < tx.intrinsicGas then
      throw (.intrinsicGasExceeded tx.intrinsicGas tx.gas)
    else
      let paid := fee (← get) tx
      let some remaining := ((← get).balance origin).sub? paid | throw (.insufficientFunds origin)
      settleInPlace context tx origin paid remaining

theorem run_orRevert (l : Ledger) (origin : Address) (clauses : List Clause) :
    (orRevert (applyInPlace origin clauses)).run l =
      match runClauses l origin clauses with
      | some (l', outputs) => .ok (false, outputs) l'
      | none => .ok (true, []) l := by
  rw [runClauses, ← toOption_tryClauses]
  change (match (applyInPlace origin clauses).run l with | .ok _ _ => _ | .error _ _ => _) = _
  rw [run_applyInPlace]
  cases tryClauses l origin [] clauses with
  | error failure => rfl
  | ok result => rfl

theorem run_settleInPlace (l : Ledger) (context : BlockContext) (tx : Transaction)
    (origin : Address) (paid remaining : Amount) :
    (settleInPlace context tx origin paid remaining).run l =
      (settle l context tx origin paid remaining).ended := by
  unfold settleInPlace settle
  simp only [EStateM.run_bind, EStateM.run_modify, EStateM.run_get, run_orRevert]
  cases runClauses (l.setBalance origin remaining) origin tx.clauses with
  | none =>
    dsimp only
    cases ((l.setBalance origin remaining).balance context.beneficiary).add? (reward paid) with
    | none => rfl
    | some credited => rfl
  | some ran =>
    dsimp only
    cases (ran.1.balance context.beneficiary).add? (reward paid) with
    | none => rfl
    | some credited => rfl

/-- **An execution in place does what `execute` does.** -/
theorem run_executeInPlace (l : Ledger) (context : BlockContext) (tx : Transaction) :
    (executeInPlace context tx).run l = (execute l context tx).ended := by
  unfold executeInPlace execute
  cases tx.signer with
  | error cause => rfl
  | ok origin =>
    dsimp only
    by_cases hgas : tx.gas < tx.intrinsicGas
    · rw [if_pos hgas, if_pos hgas]
      rfl
    · rw [if_neg hgas, if_neg hgas]
      simp only [EStateM.run_bind, EStateM.run_get]
      cases (l.balance origin).sub? (fee l tx) with
      | none => rfl
      | some remaining => exact run_settleInPlace l context tx origin (fee l tx) remaining

/-! ## What can fail -/

theorem charged_iff : Charged l tx origin remaining ↔
    tx.signer = .ok origin ∧ tx.intrinsicGas ≤ tx.gas ∧
      (fee l tx).toNat + remaining.toNat = (l.balance origin).toNat := by
  rw [← Amount.sub?_eq_some_iff, ← UInt64.not_lt]
  exact ⟨fun h => ⟨h.signer, h.gas, h.funds⟩, fun ⟨hsigner, hgas, hfunds⟩ =>
    ⟨hsigner, hgas, hfunds⟩⟩

/-- Funds are insufficient exactly if the fee is more than the payer has. -/
theorem insufficientFunds_iff (hl : l.balances.Sorted) {payer : Address} (context : BlockContext) :
    (execute l context tx).result = .error (.insufficientFunds payer) ↔
      tx.signer = .ok payer ∧ tx.intrinsicGas ≤ tx.gas ∧
        (l.balance payer).toNat < (fee l tx).toNat := by
  constructor
  · intro h
    have hexec : execute l context tx = ⟨_, .error (.insufficientFunds payer)⟩ :=
      congrArg (Execution.mk _) h
    rcases (execute_error_iff hl).mp hexec with
      ⟨huncharged, -⟩ | ⟨origin, remaining, -, -, hcause, -⟩
    · cases huncharged with
      | funds hsigner hgas hfunds => exact ⟨hsigner, hgas, hfunds⟩
    · cases hcause
  · rintro ⟨hsigner, hgas, hfunds⟩
    rw [execute_of_uncharged (.funds hsigner hgas hfunds)]

/-- A balance overflows exactly if that of the beneficiary does when the reward is credited. -/
theorem balanceOverflow_iff (hl : l.balances.Sorted) {account : Address} :
    execute l context tx = ⟨l', .error (.ledger (.balanceOverflow account))⟩ ↔
      account = context.beneficiary ∧
        ∃ origin remaining, Charged l tx origin remaining ∧
          l' = afterClauses (l.setBalance origin remaining) origin tx.clauses ∧
          Bytes.card 32 ≤ (l'.balance context.beneficiary).toNat + (reward (fee l tx)).toNat := by
  rw [execute_error_iff hl]
  constructor
  · rintro (⟨huncharged, -⟩ | ⟨origin, remaining, hcharged, hafter, hcause, hfull⟩)
    · cases huncharged
    · obtain rfl := LedgerError.balanceOverflow.inj (ExecutionError.ledger.inj hcause)
      exact ⟨rfl, origin, remaining, hcharged, hafter, hfull⟩
  · rintro ⟨rfl, origin, remaining, hcharged, hafter, hfull⟩
    exact Or.inr ⟨origin, remaining, hcharged, hafter, rfl, hfull⟩

/-- **A failed execution leaves the ledger as it was**, unless it is a `balanceOverflow`: then the
beneficiary has no room for the `reward`, and the charge and `afterClauses` are in effect. -/
theorem failed_execution (hl : l.balances.Sorted) (context : BlockContext) (tx : Transaction) :
    (executeInPlace context tx).run l = (execute l context tx).ended ∧
    (∀ cause l', execute l context tx = ⟨l', .error cause⟩ →
      (∀ account, cause ≠ .ledger (.balanceOverflow account)) → l' = l) ∧
    (∀ payer, (execute l context tx).result = .error (.insufficientFunds payer) ↔
      tx.signer = .ok payer ∧ tx.intrinsicGas ≤ tx.gas ∧
        (l.balance payer).toNat < (fee l tx).toNat) ∧
    (∀ account l', execute l context tx = ⟨l', .error (.ledger (.balanceOverflow account))⟩ ↔
      account = context.beneficiary ∧
        ∃ origin remaining, (tx.signer = .ok origin ∧ tx.intrinsicGas ≤ tx.gas ∧
            (fee l tx).toNat + remaining.toNat = (l.balance origin).toNat) ∧
          l' = afterClauses (l.setBalance origin remaining) origin tx.clauses ∧
          2 ^ 256 ≤ (l'.balance context.beneficiary).toNat + (reward (fee l tx)).toNat) ∧
    ∃ b, (execute l context tx).ledger = { l with balances := b } := by
  have hcard : Bytes.card 32 = 2 ^ 256 := by decide
  refine ⟨run_executeInPlace l context tx, ?_, fun payer => insufficientFunds_iff hl context, ?_,
    execute_ledger l context tx⟩
  · intro cause l' h hother
    rcases (execute_error_iff hl).mp h with ⟨-, hsame⟩ | ⟨origin, remaining, -, -, hcause, -⟩
    · exact hsame
    · exact absurd hcause (hother _)
  · intro account l'
    rw [balanceOverflow_iff hl, ← hcard]
    simp only [charged_iff]

end ValueTransfer

namespace Sample

open ValueTransfer

/-- The sample ledger for payments, with a payee that has room for the payment but not for the
reward of 6.3 million as well. -/
def brimful : Ledger := funded.setBalance payee ⟨Amount.maxNat - 6300004, by decide⟩

/-- The same after the payment: the payer is left with what the payment leaves in any case, and the
payee has got the value of 5. -/
def overfull : Ledger :=
  { brimful with
    balances := [(payee, ⟨Amount.maxNat - 6299999, by decide⟩),
      (signer, settled.balance signer)] }

/-- Where the reward is one too much, the payment is made and the fee is gone. -/
theorem overfull_left : brimful.balances.Sorted ∧
    execute brimful paymentContext payment =
      ⟨overfull, .error (.ledger (.balanceOverflow payee))⟩ ∧
    2 ^ 256 = (overfull.balance payee).toNat + 6300000 ∧
    afterClauses (brimful.setBalance signer ⟨999999999979000000, by decide⟩) signer
      payment.clauses = overfull := by
  have hsorted : brimful.balances.Sorted := by
    unfold Table.Sorted
    decide
  have hexec : execute brimful paymentContext payment =
      ⟨overfull, .error (.ledger (.balanceOverflow payee))⟩ := by
    rw [execute, payment_signer]
    rfl
  obtain ⟨-, -, -, hoverflow, -⟩ := failed_execution hsorted paymentContext payment
  obtain ⟨-, origin, remaining, ⟨hsigner, -, hpaid⟩, hafter, -⟩ :=
    (hoverflow payee overfull).mp hexec
  obtain rfl : signer = origin := Except.ok.inj (payment_signer.symm.trans hsigner)
  have hremaining : remaining = ⟨999999999979000000, by decide⟩ := by
    have hfee : (fee brimful payment).toNat = 21000000 := rfl
    have hbalance : (brimful.balance signer).toNat = 1000000000000000000 := rfl
    exact Amount.ext (show remaining.toNat = 999999999979000000 by omega)
  exact ⟨hsorted, hexec, by decide, by rw [hafter, hremaining]⟩

end Sample

end ProofOfAuthority
