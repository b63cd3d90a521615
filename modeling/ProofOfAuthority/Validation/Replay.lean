import ProofOfAuthority.Chain
import ProofOfAuthority.Execution
import ProofOfAuthority.Fault
import ProofOfAuthority.Validation.Error
import ProofOfAuthority.Word

/-!
# Replaying a block's transactions

Transactions run in order on the ledger. One that is already included, earlier in the block or in an
ancestor, is refused; so is one whose dependency is not included or was reverted. The receipt of a
dependency in an ancestor is the only one read from the chain, and `fetches` counts such reads, also
when the replay stops.

After the last transaction the gas used, the receipts and the ledger must be those that the header
commits to.
-/

namespace ProofOfAuthority

/-- Why a replay stopped, and how many receipts it had read from the chain by then. -/
structure Stop where
  error : ValidationError
  fetches : Nat
  deriving DecidableEq

/-- A replay under way, with an executor's memory of type `μ`. -/
structure Progress (μ : Type) where
  ledger : Ledger
  memory : μ
  /-- Ids of the transactions so far and whether they reverted, latest first. -/
  done : List (TxId × Bool)
  /-- Receipts so far, latest first. -/
  receipts : List Receipt
  gasUsed : UInt64
  fetches : Nat

/-- Where a transaction was found (`FoundTx`). -/
inductive Inclusion
  /-- Earlier in the block. -/
  | inBlock (reverted : Bool)
  /-- In an ancestor, its receipt unread. -/
  | inChain (loc : Location)
  deriving DecidableEq

/-- An accepted replay: the ledger after it, the receipts in order, and the reads from the chain. -/
structure Replayed where
  ledger : Ledger
  receipts : List Receipt
  fetches : Nat
  deriving DecidableEq

namespace Progress

variable {μ : Type}

/-- The replay before its first transaction. -/
def start (ledger : Ledger) (memory : μ) : Progress μ := ⟨ledger, memory, [], [], 0, 0⟩

/-- Stop for a reason. -/
def stop {α : Type} (p : Progress μ) (error : ValidationError) : Except Stop α :=
  .error ⟨error, p.fetches⟩

/-- `Consensus::find_tx`: find a transaction earlier in the block or in the ancestry of `parentId`.
-/
def find (p : Progress μ) (chain : Chain) (parentId : BlockId) (id : TxId) :
    Except ChainError (Option Inclusion) :=
  match p.done.lookup id with
  | some reverted => .ok (some (.inBlock reverted))
  | none => (chain.lookup parentId id).map (Option.map .inChain)

/-- Refuse a transaction that is already included. -/
def checkNew (p : Progress μ) (chain : Chain) (parentId : BlockId) (id : TxId) :
    Except Stop Unit :=
  match p.find chain parentId id with
  | .error cause => p.stop (.chain cause)
  | .ok (some _) => p.stop (.violation (.txAlreadyExists id))
  | .ok none => .ok ()

/-- Refuse a transaction whose dependency is not included or was reverted. The replay with the
receipt of the dependency counted, if it was read from the chain. -/
def checkDependency (p : Progress μ) (chain : Chain) (parentId : BlockId) (id : TxId) :
    (dependsOn : Option TxId) → Except Stop (Progress μ)
  | none => .ok p
  | some dependency =>
    match p.find chain parentId dependency with
    | .error cause => p.stop (.chain cause)
    | .ok none => p.stop (.violation (.txDepBroken id dependency))
    | .ok (some (.inBlock reverted)) =>
      if reverted then p.stop (.violation (.txDepReverted id dependency)) else .ok p
    | .ok (some (.inChain loc)) =>
      let p := { p with fetches := p.fetches + 1 }
      match chain.receipt loc with
      | .error cause => p.stop (.chain cause)
      | .ok receipt =>
        if receipt.reverted then p.stop (.violation (.txDepReverted id dependency)) else .ok p

/-- Execute a transaction and record its receipt. -/
def run (p : Progress μ) (executor : Executor μ) (context : BlockContext) (id : TxId)
    (tx : Transaction) : Except Stop (Progress μ) :=
  let (memory, execution) := executor.execute p.memory p.ledger context tx
  match execution.result with
  | .error cause => p.stop (.execution cause)
  | .ok receipt => .ok {
      ledger := execution.ledger
      memory
      done := (id, receipt.reverted) :: p.done
      receipts := receipt :: p.receipts
      gasUsed := satAdd p.gasUsed receipt.gasUsed
      fetches := p.fetches }

/-- A turn of the loop of `Consensus::verify_block`: replay one transaction of a block with the
given header. -/
def step (p : Progress μ) (chain : Chain) (executor : Executor μ) (header : Header)
    (tx : Transaction) : Except Stop (Progress μ) :=
  match tx.id with
  | .error cause => p.stop (.violation (.signerUnavailable (.transaction p.receipts.length) cause))
  | .ok id => do
    p.checkNew chain header.parentId id
    let p ← p.checkDependency chain header.parentId id tx.dependsOn
    p.run executor header.context id tx

/-- The loop of `Consensus::verify_block`: replay transactions in order. -/
def steps (p : Progress μ) (chain : Chain) (executor : Executor μ) (header : Header) :
    List Transaction → Except Stop (Progress μ)
  | [] => .ok p
  | tx :: rest => do
    let p ← p.step chain executor header tx
    p.steps chain executor header rest

/-- The end of `Consensus::verify_block`: check the header's commitments after the last transaction.
-/
def finish (p : Progress μ) (header : Header) : Except Stop Replayed :=
  let receipts := p.receipts.reverse
  let receiptsRoot := receiptsRoot receipts
  let stateRoot := p.ledger.root
  if header.gasUsed ≠ p.gasUsed then
    p.stop (.violation (.gasUsedMismatch header.gasUsed p.gasUsed))
  else if header.receiptsRoot ≠ receiptsRoot then
    p.stop (.violation (.receiptsRootMismatch header.receiptsRoot receiptsRoot))
  else if header.stateRoot ≠ stateRoot then
    p.stop (.violation (.stateRootMismatch header.stateRoot stateRoot))
  else .ok ⟨p.ledger, receipts, p.fetches⟩

end Progress

/-- `Consensus::verify_block`: replay a block on a ledger and check the commitments of its header.
-/
def replay {μ : Type} (chain : Chain) (executor : Executor μ) (memory : μ) (ledger : Ledger)
    (block : Block) : Except Stop Replayed := do
  let p := Progress.start (ledger.markParent block.header.parentId) memory
  let p ← p.steps chain executor block.header block.transactions
  p.finish block.header

end ProofOfAuthority
