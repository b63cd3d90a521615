import ProofOfAuthority.Amount
import ProofOfAuthority.Canonical
import ProofOfAuthority.Merkle

/-!
# Receipts

A receipt records what executing one transaction cost and did. A reverted transaction has no outputs
but still pays for its gas.
-/

namespace ProofOfAuthority

/-- A log entry emitted by a clause. -/
structure Event where
  address : Address
  topics : List Hash
  data : List UInt8
  deriving DecidableEq

/-- Value moved by a clause. -/
structure Transfer where
  sender : Address
  recipient : Address
  amount : Amount
  deriving DecidableEq

/-- The effects of one clause. -/
structure Output where
  events : List Event
  transfers : List Transfer
  deriving DecidableEq

/-- The result of executing one transaction. -/
structure Receipt where
  gasUsed : UInt64
  gasPayer : Address
  paid : Amount
  /-- The share of `paid` that goes to the block's beneficiary. -/
  reward : Amount
  reverted : Bool
  /-- One entry a clause, none if the transaction reverted. -/
  outputs : List Output
  deriving DecidableEq

/-- The bytes of a log entry. -/
def Event.encode (e : Event) : List UInt8 :=
  e.address.toList ++ (Canonical.list Bytes.toList e.topics ++ Canonical.bytes e.data)

/-- The bytes of a transfer. -/
def Transfer.encode (t : Transfer) : List UInt8 :=
  t.sender.toList ++ (t.recipient.toList ++ bigEndian 32 t.amount.toNat)

/-- The bytes of a clause's effects. -/
def Output.encode (o : Output) : List UInt8 :=
  Canonical.list Event.encode o.events ++ Canonical.list Transfer.encode o.transfers

namespace Receipt

/-- What `Receipt::hash` absorbs: the bytes of a receipt. -/
def encode (r : Receipt) : List UInt8 :=
  Canonical.word64 r.gasUsed ++ (r.gasPayer.toList ++ (bigEndian 32 r.paid.toNat ++
    (bigEndian 32 r.reward.toNat ++ (Canonical.flag r.reverted ++
      Canonical.list Output.encode r.outputs))))

/-- `Receipt::hash`: the leaf of the receipts root. -/
def hash (r : Receipt) : Hash := keccak256 r.encode

end Receipt

/-- `receipts_root`: the root over a list of receipts, in order. -/
def receiptsRoot (receipts : List Receipt) : Hash := Merkle.root (receipts.map Receipt.hash)

end ProofOfAuthority
