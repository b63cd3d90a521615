import ProofOfAuthority.Merkle
import ProofOfAuthority.Transaction

/-!
# Headers and blocks

A header commits to its parent, to the block's transactions and receipts and to the ledger after
them. Its number is one more than its parent's, modulo `2 ^ 32`, and is stamped into its id.

* `number_id` — a header's id carries the header's number.
-/

namespace ProofOfAuthority

/-- A block header. -/
structure Header where
  parentId : BlockId
  timestamp : UInt64
  gasLimit : UInt64
  /-- Who receives the share of the fees. -/
  beneficiary : Address
  gasUsed : UInt64
  totalScore : UInt64
  txsRoot : Hash
  stateRoot : Hash
  receiptsRoot : Hash
  signature : Signature
  deriving DecidableEq

namespace Header

/-- `Header::number`: the block number. -/
def number (h : Header) : UInt32 := h.parentId.number + 1

/-- What `Header::signing_hash` absorbs: every field except the signature. -/
def signingBytes (h : Header) : List UInt8 :=
  h.parentId.toList ++ (Canonical.word64 h.timestamp ++ (Canonical.word64 h.gasLimit ++
    (h.beneficiary.toList ++ (Canonical.word64 h.gasUsed ++ (Canonical.word64 h.totalScore ++
      (h.txsRoot.toList ++ (h.stateRoot.toList ++ h.receiptsRoot.toList)))))))

/-- `Header::signing_hash`: the hash that is signed. -/
def signingHash (h : Header) : Hash := keccak256 h.signingBytes

/-- `Header::signer`: the address that proposed the block. -/
def signer (h : Header) : Except SignatureError Address := h.signature.signer h.signingHash

/-- The signer that goes into `Header::id`: the zero address for a header without one, such as that
of a genesis block. -/
def signerOrZero (h : Header) : Address :=
  match h.signer with
  | .ok address => address
  | .error _ => Bytes.zero

/-- The bytes hashed into the id. -/
def idBytes (h : Header) : List UInt8 := h.signingHash.toList ++ h.signerOrZero.toList

/-- `Header::id`: a digest of signing hash and signer, stamped with the number. -/
def id (h : Header) : BlockId := BlockId.stamp h.number (keccak256 h.idBytes)

/-- `Header::sign`: the header with its signature made by `key`. -/
def sign (h : Header) (key : SecretKey) : Except SignatureError Header :=
  (key.sign h.signingHash).map fun sig => { h with signature := sig }

@[simp] theorem number_id (h : Header) : h.id.number = h.number :=
  BlockId.number_stamp h.number (keccak256 h.idBytes)

end Header

/-- A header and its transactions. -/
structure Block where
  header : Header
  transactions : List Transaction
  deriving DecidableEq

/-- `transactions_root`: the root over a list of transactions, in order. -/
def transactionsRoot (txs : List Transaction) : Hash := Merkle.root (txs.map Transaction.hash)

end ProofOfAuthority
