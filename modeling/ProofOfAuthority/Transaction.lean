import ProofOfAuthority.Amount
import ProofOfAuthority.Block.Id
import ProofOfAuthority.Canonical
import ProofOfAuthority.Signature.Signing

/-!
# Transactions

A transaction is a list of clauses with the terms under which it may be included. It never names its
signer: the signer is recovered from the signature over `signingHash`, and the transaction's
identity `id` is the digest of that hash and the signer, so it does not depend on the signature's
bytes.
-/

namespace ProofOfAuthority

/-- Identity of a transaction. -/
abbrev TxId := Hash

/-- One transfer or call; without a recipient it would create a contract. -/
structure Clause where
  recipient : Option Address
  value : Amount
  data : List UInt8
  deriving DecidableEq

/-- A signed transaction. -/
structure Transaction where
  /-- Last byte of the genesis id of the chain it is meant for. -/
  chainTag : UInt8
  /-- The block from which on it may be included. -/
  blockRef : BlockRef
  /-- For how many blocks after `blockRef` it may be included. -/
  expiration : UInt32
  clauses : List Clause
  gasPriceCoef : UInt8
  gas : UInt64
  /-- A transaction that must have been included, and not reverted, before. -/
  dependsOn : Option TxId
  nonce : UInt64
  /-- Room for extensions, empty so far. -/
  reserved : List (List UInt8)
  signature : Signature
  deriving DecidableEq

/-- The bytes of a clause. -/
def Clause.encode (c : Clause) : List UInt8 :=
  Canonical.option Bytes.toList c.recipient ++
    (bigEndian 32 c.value.toNat ++ Canonical.bytes c.data)

namespace Transaction

/-- What `Transaction::signing_hash` absorbs: every field except the signature. -/
def signingBytes (tx : Transaction) : List UInt8 :=
  Canonical.word8 tx.chainTag ++ (tx.blockRef.toList ++ (Canonical.word32 tx.expiration ++
    (Canonical.list Clause.encode tx.clauses ++ (Canonical.word8 tx.gasPriceCoef ++
      (Canonical.word64 tx.gas ++ (Canonical.option Bytes.toList tx.dependsOn ++
        (Canonical.word64 tx.nonce ++ Canonical.list Canonical.bytes tx.reserved)))))))

/-- `Transaction::signing_hash`: the hash that is signed. -/
def signingHash (tx : Transaction) : Hash := keccak256 tx.signingBytes

/-- `Transaction::signer`: the address that signed the transaction. -/
def signer (tx : Transaction) : Except SignatureError Address := tx.signature.signer tx.signingHash

/-- The bytes hashed into the identity of a transaction signed by `signer`. -/
def idBytes (tx : Transaction) (signer : Address) : List UInt8 :=
  tx.signingHash.toList ++ signer.toList

/-- `Transaction::id`: the identity, for a transaction whose signature has a signer. -/
def id (tx : Transaction) : Except SignatureError TxId :=
  tx.signer.map fun signer => keccak256 (tx.idBytes signer)

/-- The bytes hashed into a leaf of the transactions root. -/
def leafBytes (tx : Transaction) : List UInt8 := tx.signingHash.toList ++ tx.signature.toList

/-- `Transaction::hash`: the leaf of the transactions root: signature bytes included. -/
def hash (tx : Transaction) : Hash := keccak256 tx.leafBytes

/-- `Transaction::sign`: the transaction with its signature made by `key`. -/
def sign (tx : Transaction) (key : SecretKey) : Except SignatureError Transaction :=
  (key.sign tx.signingHash).map fun sig => { tx with signature := sig }

/-- `Transaction::is_expired`: whether block number `n` is past the last block that may include the
transaction. -/
def ExpiredAt (tx : Transaction) (n : UInt32) : Prop :=
  tx.blockRef.number.toNat + tx.expiration.toNat < n.toNat

instance (tx : Transaction) (n : UInt32) : Decidable (tx.ExpiredAt n) :=
  inferInstanceAs (Decidable (_ < _))

/-- `Transaction::has_reserved_fields`: whether a field reserved for extensions is used. -/
def hasReserved (tx : Transaction) : Bool := !tx.reserved.isEmpty

end Transaction

end ProofOfAuthority
