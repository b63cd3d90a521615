import ProofOfAuthority.Block
import ProofOfAuthority.Chain.Error
import ProofOfAuthority.Receipt

/-!
# The chain

The chain keeps every added block, forks included, in the order of addition, with the ids of its
transactions and their receipts. A transaction is looked up on one fork at a time: only blocks on
the path from a given block back to genesis count, so forks do not see each other's transactions.

* `find?_genesis` — the genesis header is stored under its id.
-/

namespace ProofOfAuthority

/-- A block as the chain keeps it. -/
structure StoredBlock where
  id : BlockId
  header : Header
  txIds : List TxId
  receipts : List Receipt
  deriving DecidableEq

/-- A position in a stored block (`TxLocation`). -/
structure Location where
  blockId : BlockId
  index : Nat
  deriving DecidableEq

/-- Stored blocks, oldest first (`MemoryChain`). -/
structure Chain where
  genesisId : BlockId
  blocks : List StoredBlock
  deriving DecidableEq

namespace Chain

/-- `MemoryChain::new`: the chain that holds a genesis header only. -/
def ofGenesis (genesis : Header) : Chain :=
  ⟨genesis.id, [⟨genesis.id, genesis, [], []⟩]⟩

/-- `ChainIndex::tag`: the last byte of the genesis id. -/
def tag (c : Chain) : UInt8 := UInt8.ofNat c.genesisId.toNat

/-- The stored block with this id. -/
def find? (c : Chain) (id : BlockId) : Option StoredBlock := c.blocks.find? (·.id = id)

/-- `MemoryChain::contains`: whether a block is stored. -/
def contains (c : Chain) (id : BlockId) : Bool := (c.find? id).isSome

/-- `MemoryChain::header`: the header of a stored block. -/
def header? (c : Chain) (id : BlockId) : Option Header := (c.find? id).map (·.header)

/-- The ids of a block's transactions, if all of them have a signer. -/
def txIds (txs : List Transaction) : Except SignatureError (List TxId) := txs.mapM Transaction.id

/-- `MemoryChain::add_block`: add a block with its receipts. A block that is stored already changes
nothing. -/
def add (c : Chain) (block : Block) (receipts : List Receipt) : Except ChainError Chain :=
  if receipts.length ≠ block.transactions.length then
    .error (.rejected (.receiptCount receipts.length block.transactions.length))
  else
    match txIds block.transactions with
    | .error cause => .error (.rejected (.unsigned cause))
    | .ok ids =>
      if c.contains block.header.parentId then
        if c.contains block.header.id then .ok c
        else .ok { c with blocks := c.blocks ++ [⟨block.header.id, block.header, ids, receipts⟩] }
      else .error (.unknownBlock block.header.parentId)

theorem find?_genesis (genesis : Header) :
    (ofGenesis genesis).find? genesis.id = some ⟨genesis.id, genesis, [], []⟩ := by
  simp [ofGenesis, find?]

/-! ## Ancestry -/

/-- The loop of `ChainStore::is_ancestor`: follow parents from `cursor` towards `ancestor`, for at
most `steps` blocks; no answer if the walk is not over by then. The walk is lost once the number is
no larger than that of `ancestor`. -/
def walk (c : Chain) (ancestor : BlockId) : (steps : Nat) → (cursor : BlockId) → Option Bool
  | 0, _ => none
  | steps + 1, cursor =>
    if cursor = ancestor then some true
    else if cursor.number ≤ ancestor.number then some false
    else
      match c.find? cursor with
      | none => some false
      | some stored => c.walk ancestor steps stored.header.parentId

/-- `ChainStore::is_ancestor`: whether `ancestor` is `descendant` or is met on the way back from it.
Each step back lowers the block number by one, so the difference of the numbers bounds the walk. -/
def isAncestor (c : Chain) (ancestor descendant : BlockId) : Bool :=
  (c.walk ancestor (descendant.number.toNat - ancestor.number.toNat + 1) descendant).getD false

/-! ## Look-up -/

/-- Where a transaction stands in a stored block. -/
def StoredBlock.locations (b : StoredBlock) (id : TxId) : List Location :=
  (b.txIds.zipIdx.filter (·.1 = id)).map fun e => ⟨b.id, e.2⟩

/-- An entry of `tx_index`: all places where a transaction stands, in the order of addition. -/
def locations (c : Chain) (id : TxId) : List Location :=
  c.blocks.flatMap fun b => StoredBlock.locations b id

/-- `MemoryChain::lookup_transaction`: where a transaction stands in a stored block or one of its
ancestors. -/
def lookup (c : Chain) (descendant : BlockId) (id : TxId) : Except ChainError (Option Location) :=
  if c.contains descendant then
    .ok ((c.locations id).find? fun loc => c.isAncestor loc.blockId descendant)
  else .error (.unknownBlock descendant)

/-- `TxLookup::receipt`: the receipt at a location. -/
def receipt (c : Chain) (loc : Location) : Except ChainError Receipt :=
  match (c.find? loc.blockId).bind (·.receipts[loc.index]?) with
  | some receipt => .ok receipt
  | none => .error (.receiptMissing loc.blockId loc.index)

end Chain

end ProofOfAuthority
