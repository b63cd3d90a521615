import ProofOfAuthority.Execution
import ProofOfAuthority.Transaction.Gas

/-!
# Executing transfers of value

Clauses are plain transfers of value. The origin pays for the intrinsic gas whether or not the
clauses go through, and part of the fee is credited to the block's beneficiary. Clauses take effect
together or not at all: they are worked out on an `Overlay` of pending balances, which is written to
the ledger only if every clause goes through.

* `execute_signer_error`, `execute_gas_error` — a transaction that cannot be charged leaves the
  ledger alone.
-/

namespace ProofOfAuthority.ValueTransfer

/-- `TransferRuntime::gas_price`: the price of a unit of gas, raised by a coefficient of up to 255
parts in 255. -/
def gasPrice (base : Amount) (coef : UInt8) : Amount := (base.scale (255 + coef.toNat)).divide 255

/-- `REWARD_PERCENT`: percentage of the fee that is credited to the beneficiary. -/
def rewardPercent : Nat := 30

/-- The beneficiary's share of a fee. -/
def reward (paid : Amount) : Amount := (paid.scale rewardPercent).divide 100

/-- The balances that `TransferRuntime::apply_clauses` has pending, by account. -/
abbrev Overlay := Table 20 Amount

/-- The balance of an account, pending or in the ledger. -/
def Overlay.balance (pending : Overlay) (ledger : Ledger) (account : Address) : Amount :=
  (Table.get? pending account).getD (ledger.balance account)

/-- Write the pending balances to the ledger. -/
def Overlay.flush (pending : Overlay) (ledger : Ledger) : Ledger :=
  pending.foldl (fun l e => l.setBalance e.1 e.2) ledger

/-- What a clause from `origin` that went through records: the value moved, if there was any. -/
def record (origin recipient : Address) (value : Amount) : Output :=
  ⟨[], if value = Amount.zero then [] else [⟨origin, recipient, value⟩]⟩

/-- A turn of the loop of `TransferRuntime::apply_clauses`: work out one clause on the overlay. None
if it has no recipient, `origin` is short of its value, or the recipient cannot hold it. -/
def applyClause (ledger : Ledger) (origin : Address) (pending : Overlay) (c : Clause) :
    Option (Overlay × Output) := do
  let recipient ← c.recipient
  let debited ← (pending.balance ledger origin).sub? c.value
  let pending := Table.put pending origin debited
  let credited ← (Overlay.balance pending ledger recipient).add? c.value
  return (Table.put pending recipient credited, record origin recipient c.value)

/-- The loop of `TransferRuntime::apply_clauses`: work out clauses in order. None if one of them
fails. -/
def applyClauses (ledger : Ledger) (origin : Address) :
    (pending : Overlay) → List Clause → Option (Overlay × List Output)
  | pending, [] => some (pending, [])
  | pending, c :: rest => do
    let (pending, output) ← applyClause ledger origin pending c
    let (pending, outputs) ← applyClauses ledger origin pending rest
    return (pending, output :: outputs)

/-- `TransferRuntime::apply_clauses`: the ledger and outputs after all clauses, or none if they
revert. -/
def runClauses (ledger : Ledger) (origin : Address) (clauses : List Clause) :
    Option (Ledger × List Output) :=
  (applyClauses ledger origin [] clauses).map fun (pending, outputs) =>
    (pending.flush ledger, outputs)

/-- The end of `TransferRuntime::execute_transaction`: charge `paid` to `origin`, run the clauses
and credit the reward. -/
def settle (ledger : Ledger) (context : BlockContext) (tx : Transaction) (origin : Address)
    (paid remaining : Amount) : Execution :=
  let charged := ledger.setBalance origin remaining
  let (reverted, after, outputs) :=
    match runClauses charged origin tx.clauses with
    | some (after, outputs) => (false, after, outputs)
    | none => (true, charged, [])
  let reward := reward paid
  match (after.balance context.beneficiary).add? reward with
  | none => ⟨after, .error (.ledger (.balanceOverflow context.beneficiary))⟩
  | some credited =>
    ⟨after.setBalance context.beneficiary credited,
      .ok ⟨tx.intrinsicGas, origin, paid, reward, reverted, outputs⟩⟩

/-- The fee of a transaction under the ledger's gas price. -/
def fee (ledger : Ledger) (tx : Transaction) : Amount :=
  (gasPrice (ledger.param ParamKey.baseGasPrice) tx.gasPriceCoef).scale tx.intrinsicGas.toNat

/-- `TransferRuntime::execute_transaction`: execute a transaction. -/
def execute (ledger : Ledger) (context : BlockContext) (tx : Transaction) : Execution :=
  match tx.signer with
  | .error cause => ⟨ledger, .error (.signer cause)⟩
  | .ok origin =>
    if tx.gas < tx.intrinsicGas then ⟨ledger, .error (.intrinsicGasExceeded tx.intrinsicGas tx.gas)⟩
    else
      let paid := fee ledger tx
      match (ledger.balance origin).sub? paid with
      | none => ⟨ledger, .error (.insufficientFunds origin)⟩
      | some remaining => settle ledger context tx origin paid remaining

/-- The executor of value transfers (`TransferRuntime`). It keeps no memory. -/
def executor : Executor Unit := Executor.ofFunction execute

theorem execute_signer_error {ledger : Ledger} {context : BlockContext} {tx : Transaction}
    {cause : SignatureError} (h : tx.signer = .error cause) :
    execute ledger context tx = ⟨ledger, .error (.signer cause)⟩ := by
  simp [execute, h]

theorem execute_gas_error {ledger : Ledger} {context : BlockContext} {tx : Transaction}
    {origin : Address} (h : tx.signer = .ok origin) (hg : tx.gas < tx.intrinsicGas) :
    execute ledger context tx =
      ⟨ledger, .error (.intrinsicGasExceeded tx.intrinsicGas tx.gas)⟩ := by
  simp [execute, h, hg]

end ProofOfAuthority.ValueTransfer
