import Mathlib.Logic.Function.Basic
import ProofOfAuthority.Execution.ValueTransfer
import ProofOfAuthority.Fault

/-!
# What an execution of transfers does

The overlay on which clauses are worked out stands for the balances of all accounts, pending or not.
Seen this way a clause is a debit and then a credit on what the debit leaves, so that an account
that pays itself neither gains nor loses; writing the overlay to the ledger makes these balances
those of the ledger. `tryClauses` works the clauses out as the execution does, and also says why a
clause fails.

* `toOption_tryClauses` — where clauses revert, there is a reason.
* `tried` — what a clause does to the balances, or why it fails.
* `tryClauses_cons_ok` — the step for an induction on clauses that go through.
* `balance_flush` — the ledger after the overlay is written to it.
* `execute_cases`, `settle_eq` — all that an execution can do.
* `execute_ledger` — an execution changes nothing but balances.
-/

namespace ProofOfAuthority

/-- The balance of every account. -/
abbrev Holdings := Address → Amount

theorem Ledger.balance_setBalance_eq (l : Ledger) (account : Address) (amount : Amount) :
    (l.setBalance account amount).balance = Function.update l.balance account amount := by
  funext a
  rw [balance_setBalance, Function.update_apply]
  simp only [eq_comm]

namespace ValueTransfer

variable {ledger : Ledger} {origin : Address} {pending pending' : Overlay} {c : Clause}
  {clauses : List Clause}

/-! ## Clauses, and why they fail -/

/-- Why a clause does not go through. -/
inductive ClauseFailure
  | noRecipient
  | originShort
  | recipientFull
  deriving DecidableEq

/-- Work out one clause on the overlay, or say why it fails. -/
def tryClause (ledger : Ledger) (origin : Address) (pending : Overlay) (c : Clause) :
    Except ClauseFailure (Overlay × Output) :=
  match c.recipient with
  | none => .error .noRecipient
  | some recipient =>
    match (pending.balance ledger origin).sub? c.value with
    | none => .error .originShort
    | some debited =>
      match (Overlay.balance (Table.put pending origin debited) ledger recipient).add? c.value with
      | none => .error .recipientFull
      | some credited =>
        .ok (Table.put (Table.put pending origin debited) recipient credited,
          record origin recipient c.value)

/-- Work out clauses in order, or say why the first that fails does. -/
def tryClauses (ledger : Ledger) (origin : Address) :
    (pending : Overlay) → List Clause → Except ClauseFailure (Overlay × List Output)
  | pending, [] => .ok (pending, [])
  | pending, c :: rest => do
    let (pending, output) ← tryClause ledger origin pending c
    let (pending, outputs) ← tryClauses ledger origin pending rest
    return (pending, output :: outputs)

theorem toOption_tryClause :
    (tryClause ledger origin pending c).toOption = applyClause ledger origin pending c := by
  unfold tryClause applyClause
  cases c.recipient with
  | none => rfl
  | some recipient =>
    dsimp only [bind, Option.bind]
    cases (pending.balance ledger origin).sub? c.value with
    | none => rfl
    | some debited =>
      dsimp only
      cases (Overlay.balance (Table.put pending origin debited) ledger recipient).add? c.value with
      | none => rfl
      | some credited => rfl

/-- **The execution works the clauses out** without the reasons. -/
theorem toOption_tryClauses : (tryClauses ledger origin pending clauses).toOption =
    applyClauses ledger origin pending clauses := by
  induction clauses generalizing pending with
  | nil => rfl
  | cons c rest ih =>
    unfold tryClauses applyClauses
    rw [← toOption_tryClause]
    cases tryClause ledger origin pending c with
    | error failure => rfl
    | ok next =>
      dsimp only [bind, Except.bind, Except.toOption, Option.bind]
      rw [← ih]
      cases tryClauses ledger origin next.1 rest with
      | error failure => rfl
      | ok result => rfl

/-! ## Clauses and balances -/

theorem balance_put (account : Address) (amount : Amount) :
    Overlay.balance (Table.put pending account amount) ledger =
      Function.update (pending.balance ledger) account amount := by
  funext a
  rw [Overlay.balance, Table.get?_put, Function.update_apply]
  by_cases ha : account = a
  · rw [if_pos ha, if_pos ha.symm, Option.getD_some]
  · rw [if_neg ha, if_neg (Ne.symm ha), Overlay.balance]

/-- A value is moved between balances: the origin is debited, then the recipient credited. -/
inductive Moved (origin recipient : Address) (value : Amount) (f : Holdings) : Holdings → Prop
  | intro {debited credited : Amount} : (f origin).sub? value = some debited →
      (Function.update f origin debited recipient).add? value = some credited →
        Moved origin recipient value f
          (Function.update (Function.update f origin debited) recipient credited)

/-- All that can become of a clause. -/
inductive Tried (ledger : Ledger) (origin : Address) (pending : Overlay) (c : Clause) :
    Except ClauseFailure (Overlay × Output) → Prop
  | noRecipient : c.recipient = none → Tried ledger origin pending c (.error .noRecipient)
  | originShort {recipient : Address} : c.recipient = some recipient →
      (pending.balance ledger origin).sub? c.value = none →
        Tried ledger origin pending c (.error .originShort)
  | recipientFull {recipient : Address} {debited : Amount} : c.recipient = some recipient →
      (pending.balance ledger origin).sub? c.value = some debited →
        (Function.update (pending.balance ledger) origin debited recipient).add? c.value = none →
          Tried ledger origin pending c (.error .recipientFull)
  | moved {recipient : Address} {next : Overlay} : c.recipient = some recipient →
      Moved origin recipient c.value (pending.balance ledger) (next.balance ledger) →
        (Table.Sorted pending → Table.Sorted next) →
          Tried ledger origin pending c (.ok (next, record origin recipient c.value))

/-- **What a clause does**, or why it fails. -/
theorem tried (ledger : Ledger) (origin : Address) (pending : Overlay) (c : Clause) :
    Tried ledger origin pending c (tryClause ledger origin pending c) := by
  unfold tryClause
  cases hrecipient : c.recipient with
  | none => exact Tried.noRecipient hrecipient
  | some recipient =>
    dsimp only
    cases hdebit : (pending.balance ledger origin).sub? c.value with
    | none => exact Tried.originShort hrecipient hdebit
    | some debited =>
      dsimp only
      rw [balance_put]
      cases hcredit : (Function.update (pending.balance ledger) origin debited recipient).add?
          c.value with
      | none => exact Tried.recipientFull hrecipient hdebit hcredit
      | some credited =>
        refine Tried.moved hrecipient ?_ ?_
        · rw [balance_put, balance_put]
          exact Moved.intro hdebit hcredit
        · intro hsorted
          exact Table.sorted_put (Table.sorted_put hsorted origin debited) recipient credited

/-- Clauses that go through, taken apart: the first moves its value, and the others go through after
it. -/
theorem tryClauses_cons_ok {outputs : List Output}
    (h : tryClauses ledger origin pending (c :: clauses) = .ok (pending', outputs)) :
    ∃ (recipient : Address) (next : Overlay) (outputs' : List Output),
      c.recipient = some recipient ∧
      Moved origin recipient c.value (pending.balance ledger) (next.balance ledger) ∧
      (Table.Sorted pending → Table.Sorted next) ∧
      tryClauses ledger origin next clauses = .ok (pending', outputs') ∧
      outputs = record origin recipient c.value :: outputs' := by
  obtain ⟨⟨next, output⟩, hclause, h⟩ := bind_eq_ok_iff.mp h
  obtain ⟨⟨last, outputs'⟩, hrest, h⟩ := bind_eq_ok_iff.mp h
  obtain ⟨rfl, rfl⟩ := Prod.mk.inj (Except.ok.inj h)
  have htried := tried ledger origin pending c
  rw [hclause] at htried
  cases htried with
  | moved hrecipient hmoved hsorted =>
    exact ⟨_, next, outputs', hrecipient, hmoved, hsorted, hrest, rfl⟩

theorem tryClauses_sorted {outputs : List Output} (hsorted : Table.Sorted pending)
    (h : tryClauses ledger origin pending clauses = .ok (pending', outputs)) :
    Table.Sorted pending' := by
  induction clauses generalizing pending outputs with
  | nil =>
    obtain ⟨rfl, -⟩ := Prod.mk.inj (Except.ok.inj h)
    exact hsorted
  | cons c rest ih =>
    obtain ⟨recipient, next, outputs', -, -, hnext, hrest, -⟩ := tryClauses_cons_ok h
    exact ih (hnext hsorted) hrest

/-- **Writing the overlay** makes its balances those of the ledger. -/
theorem balance_flush (hsorted : Table.Sorted pending) :
    (pending.flush ledger).balance = pending.balance ledger := by
  induction pending generalizing ledger with
  | nil => rfl
  | cons e rest ih =>
    obtain ⟨k, v⟩ := e
    have hrest : Overlay.flush ((k, v) :: rest) ledger =
        Overlay.flush rest (ledger.setBalance k v) := rfl
    rw [hrest, ih (Table.sorted_cons.mp hsorted).2]
    funext a
    unfold Overlay.balance
    rw [Table.get?, Ledger.balance_setBalance]
    by_cases ha : k = a
    · -- nothing further on is pending for the first account
      subst ha
      rw [Table.get?_tail hsorted (fun h => Table.ne_of_lt h rfl), if_pos rfl, if_pos rfl]
      rfl
    · rw [if_neg ha, if_neg ha]

/-! ## The course of an execution -/

/-- How the clauses leave the charged ledger: with all of them in effect, or as it was. -/
inductive Ran (charged : Ledger) (origin : Address) (clauses : List Clause) :
    (reverted : Bool) → (after : Ledger) → List Output → Prop
  | through {pending : Overlay} {outputs : List Output} :
      tryClauses charged origin [] clauses = .ok (pending, outputs) →
        Ran charged origin clauses false (pending.flush charged) outputs
  | undone {failure : ClauseFailure} :
      tryClauses charged origin [] clauses = .error failure →
        Ran charged origin clauses true charged []

/-- The transaction has a signer, who can be charged and has `remaining` left. -/
structure Charged (ledger : Ledger) (tx : Transaction) (origin : Address) (remaining : Amount) :
    Prop where
  signer : tx.signer = .ok origin
  gas : ¬tx.gas < tx.intrinsicGas
  funds : (ledger.balance origin).sub? (fee ledger tx) = some remaining

/-- Credit the reward of a receipt. -/
def credit (after : Ledger) (context : BlockContext) (r : Receipt) : Execution :=
  match (after.balance context.beneficiary).add? r.reward with
  | none => ⟨after, .error (.ledger (.balanceOverflow context.beneficiary))⟩
  | some credited => ⟨after.setBalance context.beneficiary credited, .ok r⟩

/-- **All that settling does**: the clauses run on the charged ledger, then the reward is
credited. -/
theorem settle_eq (ledger : Ledger) (context : BlockContext) (tx : Transaction) (origin : Address)
    (paid remaining : Amount) : ∃ reverted after outputs,
    Ran (ledger.setBalance origin remaining) origin tx.clauses reverted after outputs ∧
      settle ledger context tx origin paid remaining =
        credit after context ⟨tx.intrinsicGas, origin, paid, reward paid, reverted, outputs⟩ := by
  simp only [settle, runClauses, ← toOption_tryClauses]
  cases htry : tryClauses (ledger.setBalance origin remaining) origin [] tx.clauses with
  | error failure => exact ⟨true, _, [], Ran.undone htry, rfl⟩
  | ok result => exact ⟨false, _, result.2, Ran.through htry, rfl⟩

/-- **All that an execution does**: it settles what it could charge, or leaves the ledger alone. -/
theorem execute_cases (ledger : Ledger) (context : BlockContext) (tx : Transaction) :
    (∃ cause, execute ledger context tx = ⟨ledger, .error cause⟩ ∧ ∀ e, cause ≠ .ledger e) ∨
      ∃ origin remaining, Charged ledger tx origin remaining ∧
        execute ledger context tx = settle ledger context tx origin (fee ledger tx) remaining := by
  unfold execute
  cases hsigner : tx.signer with
  | error cause => exact Or.inl ⟨_, rfl, by simp⟩
  | ok origin =>
    dsimp only
    by_cases hgas : tx.gas < tx.intrinsicGas
    · rw [if_pos hgas]
      exact Or.inl ⟨_, rfl, by simp⟩
    · rw [if_neg hgas]
      cases hfunds : (ledger.balance origin).sub? (fee ledger tx) with
      | none => exact Or.inl ⟨_, rfl, by simp⟩
      | some remaining => exact Or.inr ⟨origin, remaining, ⟨hsigner, hgas, hfunds⟩, rfl⟩

/-! ## What an execution leaves alone -/

theorem flush_eq (pending : Overlay) (ledger : Ledger) :
    ∃ b, pending.flush ledger = { ledger with balances := b } := by
  induction pending generalizing ledger with
  | nil => exact ⟨ledger.balances, rfl⟩
  | cons e rest ih =>
    obtain ⟨b, hb⟩ := ih (ledger.setBalance e.1 e.2)
    exact ⟨b, hb⟩

/-- **An execution changes nothing but balances**, whether or not it fails. -/
theorem execute_ledger (ledger : Ledger) (context : BlockContext) (tx : Transaction) :
    ∃ b, (execute ledger context tx).ledger = { ledger with balances := b } := by
  rcases execute_cases ledger context tx with ⟨cause, hexec, -⟩ | ⟨origin, remaining, -, hexec⟩
  · exact ⟨ledger.balances, by rw [hexec]⟩
  · obtain ⟨reverted, after, outputs, hran, hsettle⟩ :=
      settle_eq ledger context tx origin (fee ledger tx) remaining
    obtain ⟨b, rfl⟩ : ∃ b, after = { ledger with balances := b } := by
      cases hran with
      | through _ => exact flush_eq _ (ledger.setBalance origin remaining)
      | undone _ => exact ⟨_, rfl⟩
    rw [hexec, hsettle, credit]
    split
    · exact ⟨_, rfl⟩
    · exact ⟨_, rfl⟩

end ValueTransfer

end ProofOfAuthority
