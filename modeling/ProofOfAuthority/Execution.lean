import ProofOfAuthority.Block
import ProofOfAuthority.Execution.Error
import ProofOfAuthority.Ledger
import ProofOfAuthority.Receipt

/-!
# Executing transactions

An `Executor` turns a transaction into a receipt and changes the ledger. It may keep a memory of its
own from one transaction to the next; validation makes no other assumption about it.
-/

namespace ProofOfAuthority

/-- What a transaction sees of the block it is in. -/
structure BlockContext where
  beneficiary : Address
  number : UInt32
  timestamp : UInt64
  gasLimit : UInt64
  deriving DecidableEq

/-- What the transactions of a block with this header see of it. -/
def Header.context (h : Header) : BlockContext := ⟨h.beneficiary, h.number, h.timestamp, h.gasLimit⟩

/-- What one execution leaves behind: the ledger as written so far, and a receipt or an error. -/
structure Execution where
  ledger : Ledger
  result : Except ExecutionError Receipt

/-- A way to execute transactions (`TransactionRuntime`), with a memory of type `μ`. -/
structure Executor (μ : Type) where
  execute : μ → Ledger → BlockContext → Transaction → μ × Execution

namespace Executor

/-- The executor without memory that executes by `f`. -/
def ofFunction (f : Ledger → BlockContext → Transaction → Execution) : Executor Unit where
  execute _ ledger context tx := ((), f ledger context tx)

/-- The executor that answers from a list of prepared results, leaving the ledger alone, and
executes by `f` once they are used up. -/
def prepared (f : Ledger → BlockContext → Transaction → Execution) :
    Executor (List (Except ExecutionError Receipt)) where
  execute
    | [], ledger, context, tx => ([], f ledger context tx)
    | result :: rest, ledger, _, _ => (rest, ⟨ledger, result⟩)

end Executor

end ProofOfAuthority
