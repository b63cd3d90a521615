import Mathlib.Algebra.Group.Pi.Lemmas
import Mathlib.Data.List.Forall2
import Mathlib.Tactic.Abel
import ProofOfAuthority.Proofs.Supply

/-!
# What a receipt accounts for

An execution writes balances three times: the payer is charged, the clauses move value between the
origin and the recipients, and the beneficiary is credited. Any of these accounts may be the same.
As integers, however, balances are written by adding to them, whatever was there before: then the
writes commute, and no case has to be told from another. The receipt lists all that was added.

* `worth_update` — a write adds the difference to what was there.
* `worth_clauses`, `recorded_clauses` — clauses that go through do to balances what their outputs
  say.
* `execute_accounted` — an execution does what its receipt says.
-/

namespace ProofOfAuthority

/-- What every account holds, as an integer. -/
def worth (f : Holdings) : Address → ℤ := fun account => (f account).toNat

/-- **A write adds the difference** to what was there. -/
theorem worth_update (f : Holdings) (account : Address) (amount : Amount) :
    worth (Function.update f account amount) =
      worth f + Pi.single account ((amount.toNat : ℤ) - (f account).toNat) := by
  funext a
  by_cases ha : a = account
  · subst ha
    simp [worth]
  · simp [worth, ha]

theorem Ledger.worth_setBalance (l : Ledger) (account : Address) (amount : Amount) :
    worth (l.setBalance account amount).balance =
      worth l.balance + Pi.single account ((amount.toNat : ℤ) - (l.balance account).toNat) := by
  rw [balance_setBalance_eq, worth_update]

/-! ## What transfers amount to -/

namespace Transfer

/-- The sum of the transfers in which an account is the `party`, the sender or the recipient. -/
def volume (party : Transfer → Address) (account : Address) (transfers : List Transfer) : Nat :=
  ((transfers.filter (party · = account)).map (·.amount.toNat)).sum

/-- What transfers add to the balance of every account. -/
def net (transfers : List Transfer) : Address → ℤ :=
  fun account => volume recipient account transfers - volume sender account transfers

theorem net_nil : net [] = 0 := rfl

theorem volume_append (party : Transfer → Address) (account : Address) (ts ts' : List Transfer) :
    volume party account (ts ++ ts') = volume party account ts + volume party account ts' := by
  simp [volume]

theorem net_append (ts ts' : List Transfer) : net (ts ++ ts') = net ts + net ts' := by
  funext account
  simp only [net, volume_append, Pi.add_apply]
  omega

theorem volume_singleton (party : Transfer → Address) (account : Address) (t : Transfer) :
    volume party account [t] = if account = party t then t.amount.toNat else 0 := by
  by_cases h : party t = account
  · simp [volume, h]
  · simp [volume, h, Ne.symm h]

theorem net_singleton (t : Transfer) :
    net [t] =
      Pi.single t.recipient (t.amount.toNat : ℤ) - Pi.single t.sender (t.amount.toNat : ℤ) := by
  funext account
  simp only [net, volume_singleton, Pi.sub_apply, Pi.single_apply]
  split <;> split <;> simp

end Transfer

/-- All transfers of a receipt. -/
def Receipt.transfers (r : Receipt) : List Transfer := r.outputs.flatMap Output.transfers

namespace ValueTransfer

variable {l l' : Ledger} {context : BlockContext} {tx : Transaction} {origin recipient : Address}
  {pending pending' : Overlay} {clauses : List Clause} {outputs : List Output} {r : Receipt}

/-- What is recorded adds up to the value, also where nothing is moved and nothing recorded. -/
theorem net_record (origin recipient : Address) (value : Amount) :
    Transfer.net (record origin recipient value).transfers =
      Pi.single recipient (value.toNat : ℤ) - Pi.single origin (value.toNat : ℤ) := by
  unfold record
  by_cases hvalue : value = Amount.zero
  · simp [hvalue, Transfer.net_nil]
  · rw [if_neg hvalue, Transfer.net_singleton]

/-! ## Clauses -/

/-- A value that is moved is added to the recipient and subtracted from the origin, be they two
accounts or one. -/
theorem Moved.worth_eq {value : Amount} {f g : Holdings} (h : Moved origin recipient value f g) :
    worth g =
      worth f + (Pi.single recipient (value.toNat : ℤ) - Pi.single origin (value.toNat : ℤ)) := by
  cases h with
  | @intro debited credited hdebit hcredit =>
    have hdebit := Amount.sub?_eq_some_iff.mp hdebit
    have hcredit := Amount.add?_eq_some_iff.mp hcredit
    have hloss : (debited.toNat : ℤ) - (f origin).toNat = -value.toNat := by omega
    have hgain : (credited.toNat : ℤ) - (Function.update f origin debited recipient).toNat =
        value.toNat := by omega
    rw [worth_update, worth_update, hloss, hgain, Pi.single_neg]
    abel

/-- **Clauses that go through** do to balances what their outputs say. -/
theorem worth_clauses (h : tryClauses l origin pending clauses = .ok (pending', outputs)) :
    worth (pending'.balance l) =
      worth (pending.balance l) + Transfer.net (outputs.flatMap Output.transfers) := by
  induction clauses generalizing pending outputs with
  | nil =>
    obtain ⟨rfl, rfl⟩ := Prod.mk.inj (Except.ok.inj h)
    rw [List.flatMap_nil, Transfer.net_nil, add_zero]
  | cons c rest ih =>
    obtain ⟨recipient, next, outputs', -, hmoved, -, hrest, rfl⟩ := tryClauses_cons_ok h
    rw [ih hrest, hmoved.worth_eq, List.flatMap_cons, Transfer.net_append, net_record, add_assoc]

/-- The output is that of the clause: no events, and the transfer of its value, if there is any. -/
def Recorded (origin : Address) (c : Clause) (o : Output) : Prop :=
  ∃ recipient, c.recipient = some recipient ∧ o.events = [] ∧
    o.transfers = if c.value = Amount.zero then [] else [⟨origin, recipient, c.value⟩]

/-- Clauses that go through have an output each, in order. -/
theorem recorded_clauses (h : tryClauses l origin pending clauses = .ok (pending', outputs)) :
    List.Forall₂ (Recorded origin) clauses outputs := by
  induction clauses generalizing pending outputs with
  | nil =>
    obtain ⟨-, rfl⟩ := Prod.mk.inj (Except.ok.inj h)
    exact List.Forall₂.nil
  | cons c rest ih =>
    obtain ⟨recipient, next, outputs', hrecipient, -, -, hrest, rfl⟩ := tryClauses_cons_ok h
    exact List.Forall₂.cons ⟨recipient, hrecipient, rfl, rfl⟩ (ih hrest)

/-! ## Executions -/

theorem Ran.worth_eq {reverted : Bool} (h : Ran l origin clauses reverted l' outputs) :
    worth l'.balance = worth l.balance + Transfer.net (outputs.flatMap Output.transfers) := by
  cases h with
  | through h =>
    rw [balance_flush (tryClauses_sorted Table.sorted_nil h), worth_clauses h]
    rfl
  | undone => rw [List.flatMap_nil, Transfer.net_nil, add_zero]

theorem Ran.recorded {reverted : Bool} (h : Ran l origin clauses reverted l' outputs) :
    if reverted then outputs = [] else List.Forall₂ (Recorded origin) clauses outputs := by
  cases h with
  | through h => exact recorded_clauses h
  | undone => rfl

/-- A reward that is credited is that of the receipt. -/
theorem credit_eq_ok {after : Ledger} {receipt : Receipt}
    (h : credit after context receipt = ⟨l', .ok r⟩) :
    r = receipt ∧ worth l'.balance =
      worth after.balance + Pi.single context.beneficiary (r.reward.toNat : ℤ) := by
  unfold credit at h
  cases hsum : (after.balance context.beneficiary).add? receipt.reward with
  | none => simp [hsum] at h
  | some credited =>
    rw [hsum] at h
    obtain ⟨rfl, hreceipt⟩ := Execution.mk.inj h
    obtain rfl := Except.ok.inj hreceipt
    have hsum := Amount.add?_eq_some_iff.mp hsum
    have hgain : (credited.toNat : ℤ) - (after.balance context.beneficiary).toNat =
        receipt.reward.toNat := by omega
    exact ⟨rfl, by rw [Ledger.worth_setBalance, hgain]⟩

/-- **All that an execution with a receipt does.** -/
theorem execute_receipt (h : execute l context tx = ⟨l', .ok r⟩) :
    ∃ origin remaining after, Charged l tx origin remaining ∧
      Ran (l.setBalance origin remaining) origin tx.clauses r.reverted after r.outputs ∧
      r = ⟨tx.intrinsicGas, origin, fee l tx, reward (fee l tx), r.reverted, r.outputs⟩ ∧
      worth l'.balance =
        worth after.balance + Pi.single context.beneficiary (r.reward.toNat : ℤ) := by
  rcases execute_cases l context tx with ⟨cause, hexec, -⟩ | ⟨origin, remaining, hcharged, hexec⟩
  · rw [hexec] at h
    cases (Execution.mk.inj h).2
  · obtain ⟨reverted, after, outputs, hran, hsettle⟩ :=
      settle_eq l context tx origin (fee l tx) remaining
    obtain ⟨rfl, hworth⟩ := credit_eq_ok (hsettle.symm.trans (hexec.symm.trans h))
    exact ⟨origin, remaining, after, hcharged, hran, rfl, hworth⟩

theorem Charged.worth_eq {remaining : Amount} (h : Charged l tx origin remaining) :
    worth (l.setBalance origin remaining).balance =
      worth l.balance - Pi.single origin ((fee l tx).toNat : ℤ) := by
  have hfunds := Amount.sub?_eq_some_iff.mp h.funds
  have hloss : (remaining.toNat : ℤ) - (l.balance origin).toNat = -(fee l tx).toNat := by omega
  rw [Ledger.worth_setBalance, hloss, Pi.single_neg, sub_eq_add_neg]

/-- What an execution did is what its receipt says. -/
structure Accounted (l l' : Ledger) (context : BlockContext) (tx : Transaction) (r : Receipt) :
    Prop where
  payer : tx.signer = .ok r.gasPayer
  gas : r.gasUsed = tx.intrinsicGas
  gas_le : r.gasUsed ≤ tx.gas
  /-- The fee is subtracted, the reward is added, and so are the transfers, which are subtracted at
  the other end. -/
  balance (account : Address) : ((l'.balance account).toNat : ℤ) =
    (l.balance account).toNat - (if account = r.gasPayer then (r.paid.toNat : ℤ) else 0) +
      (if account = context.beneficiary then (r.reward.toNat : ℤ) else 0) +
        Transfer.volume Transfer.recipient account r.transfers -
          Transfer.volume Transfer.sender account r.transfers
  candidates : l'.candidates = l.candidates
  params : l'.params = l.params
  marker : l'.marker = l.marker
  outputs_of_reverted : r.reverted = true → r.outputs = []
  /-- Clauses that went through have one output each, in order. -/
  outputs : r.reverted = false → List.Forall₂ (Recorded r.gasPayer) tx.clauses r.outputs

/-- **An execution does what its receipt says** (`Accounted`), and no more, whichever of the payer,
the recipients and the beneficiary are the same account. -/
theorem execute_accounted (h : execute l context tx = ⟨l', .ok r⟩) :
    Accounted l l' context tx r := by
  obtain ⟨origin, remaining, after, hcharged, hran, hreceipt, hcredit⟩ := execute_receipt h
  obtain ⟨b, hledger⟩ := execute_ledger l context tx
  obtain rfl : l' = { l with balances := b } := by rw [← hledger, h]
  have houtputs := hran.recorded
  have hworth : worth (Ledger.balance { l with balances := b }) =
      worth l.balance - Pi.single r.gasPayer (r.paid.toNat : ℤ) + Transfer.net r.transfers +
        Pi.single context.beneficiary (r.reward.toNat : ℤ) := by
    rw [hcredit, hran.worth_eq, hcharged.worth_eq, hreceipt]
    rfl
  obtain rfl : r.gasPayer = origin := by rw [hreceipt]
  have hgas : r.gasUsed = tx.intrinsicGas := by rw [hreceipt]
  refine ⟨hcharged.signer, hgas, ?_, ?_, rfl, rfl, rfl, ?_, ?_⟩
  · rw [hgas]
    exact UInt64.not_lt.mp hcharged.gas
  · intro account
    have haccount := congrFun hworth account
    simp only [worth, Transfer.net, Pi.add_apply, Pi.sub_apply, Pi.single_apply] at haccount
    omega
  · intro hreverted
    rwa [hreverted, if_pos rfl] at houtputs
  · intro hthrough
    rwa [hthrough, if_neg Bool.false_ne_true] at houtputs

end ValueTransfer

namespace Sample

/-- The account that is paid is also the beneficiary, and is credited twice. -/
theorem payment_accounted :
    ValueTransfer.execute (funded.markParent genesis.id) paymentContext payment =
      ⟨settled, .ok paymentReceipt⟩ ∧
    ((settled.balance payee).toNat : ℤ) =
      ((funded.markParent genesis.id).balance payee).toNat + 6300000 + 5 := by
  have hbalance := (ValueTransfer.execute_accounted payment_executes).balance payee
  have hpayer : payee ≠ paymentReceipt.gasPayer := by decide
  have hbeneficiary : payee = paymentContext.beneficiary := rfl
  have hreward : paymentReceipt.reward.toNat = 6300000 := rfl
  have hreceived : Transfer.volume Transfer.recipient payee paymentReceipt.transfers = 5 := by
    decide
  have hsent : Transfer.volume Transfer.sender payee paymentReceipt.transfers = 0 := by decide
  rw [if_neg hpayer, if_pos hbeneficiary, hreward, hreceived, hsent] at hbalance
  exact ⟨payment_executes, by simpa using hbalance⟩

end Sample

end ProofOfAuthority
