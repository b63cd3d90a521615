import ProofOfAuthority.Block
import ProofOfAuthority.Fault
import ProofOfAuthority.Validation.Violation

/-!
# Checks of a block's transactions against its header

The transactions must have the root that the header names, and each of them must be signed, meant
for this chain, admissible at this height, and free of reserved fields.
-/

namespace ProofOfAuthority

/-- A turn of the loop of `BlockValidator::validate_block_body`: check the transaction at `index` of
a block with the given number. -/
def checkTransaction (chainTag : UInt8) (number : UInt32) (index : Nat) (tx : Transaction) :
    Except Violation Unit :=
  match tx.signer with
  | .error cause => .error (.signerUnavailable (.transaction index) cause)
  | .ok _ => do
    require (tx.chainTag = chainTag) (.chainTagMismatch chainTag tx.chainTag)
    require (tx.blockRef.number ≤ number) (.txRefFutureBlock tx.blockRef.number number)
    require (¬tx.ExpiredAt number) (.txExpired tx.blockRef.number number tx.expiration)
    require (tx.hasReserved = false) (.reservedFieldsNotEmpty index)

/-- The loop of `BlockValidator::validate_block_body`: check transactions in order, the first of
them at `index`. -/
def checkTransactions (chainTag : UInt8) (number : UInt32) :
    (index : Nat) → List Transaction → Except Violation Unit
  | _, [] => .ok ()
  | index, tx :: rest => do
    checkTransaction chainTag number index tx
    checkTransactions chainTag number (index + 1) rest

/-- `BlockValidator::validate_block_body`: check the transactions of a block against its header. -/
def checkBody (chainTag : UInt8) (block : Block) : Except Violation Unit := do
  let found := transactionsRoot block.transactions
  require (block.header.txsRoot = found) (.txRootMismatch block.header.txsRoot found)
  checkTransactions chainTag block.header.number 0 block.transactions

end ProofOfAuthority
