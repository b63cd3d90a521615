import ProofOfAuthority.Transaction
import ProofOfAuthority.Word

/-!
# Gas charged before execution

Every transaction pays a base charge, a charge a clause, and a charge a byte of clause data. A
transaction without clauses pays for one clause. The sum stops at the largest 64-bit word.
-/

namespace ProofOfAuthority

namespace Gas

/-- `TX_GAS`: charge for a transaction. -/
def perTransaction : UInt64 := 5000

/-- `CLAUSE_GAS`: charge for a clause with a recipient. -/
def perClause : UInt64 := 16000

/-- `CLAUSE_GAS_CONTRACT_CREATION`: charge for a clause without a recipient. -/
def perCreation : UInt64 := 48000

/-- `TX_DATA_ZERO_GAS`: charge for a zero byte of data. -/
def perZeroByte : UInt64 := 4

/-- `TX_DATA_NON_ZERO_GAS`: charge for any other byte of data. -/
def perByte : UInt64 := 68

/-- `data_gas`: charge for the data of a clause. -/
def ofData (data : List UInt8) : UInt64 :=
  data.foldl (fun gas byte => satAdd gas (if byte = 0 then perZeroByte else perByte)) 0

end Gas

/-- Charge for a clause, its data apart. -/
def Clause.baseGas (c : Clause) : UInt64 :=
  if c.recipient.isSome then Gas.perClause else Gas.perCreation

/-- `Transaction::intrinsic_gas`: gas consumed before any clause executes. -/
def Transaction.intrinsicGas (tx : Transaction) : UInt64 :=
  if tx.clauses.isEmpty then Gas.perTransaction + Gas.perClause
  else tx.clauses.foldl (fun gas c => satAdd (satAdd gas c.baseGas) (Gas.ofData c.data))
    Gas.perTransaction

end ProofOfAuthority
