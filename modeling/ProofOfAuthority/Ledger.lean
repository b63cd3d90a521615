import ProofOfAuthority.Amount
import ProofOfAuthority.Authority
import ProofOfAuthority.Block.Id
import ProofOfAuthority.Canonical
import ProofOfAuthority.Digest.Keccak
import ProofOfAuthority.Ledger.Error
import ProofOfAuthority.Ledger.Table

/-!
# The ledger

A ledger holds the balances of accounts, the registered candidates in the order of registration, the
governance parameters, and a marker naming the parent of the block being executed. Zero balances and
zero parameters have no entry, so ledgers that answer alike are alike, and have the same root.

* `balance_setBalance`, `param_setParam` — reading after a write.
* `setActive_ok` — what a change of activity leaves as it is.
* `signers_register`, `signers_setActive` — which signers are registered after a write.
-/

namespace ProofOfAuthority

/-- Account balances, candidates, parameters and block marker (`MemoryState`). -/
@[ext] structure Ledger where
  balances : Table 20 Amount
  candidates : List Candidate
  params : Table 32 Amount
  /-- The parent of the block being executed. -/
  marker : Option BlockId
  deriving DecidableEq

/-- The table with an amount under a key, where nothing stands for zero. -/
def Table.write {n : Nat} (t : Table n Amount) (k : Bytes n) (v : Amount) : Table n Amount :=
  if v = Amount.zero then t.erase k else t.put k v

/-- The amount under a key, zero if there is none. -/
def Table.read {n : Nat} (t : Table n Amount) (k : Bytes n) : Amount := (t.get? k).getD Amount.zero

/-- The first candidate of a signer with its activity set, the others as they are. -/
def activate (signer : Address) (active : Bool) : List Candidate → List Candidate
  | [] => []
  | c :: rest =>
    if c.signer = signer then { c with active } :: rest else c :: activate signer active rest

/-- A candidate put in the place of the one with the same signer, or at the end. -/
def enroll (candidate : Candidate) : List Candidate → List Candidate
  | [] => [candidate]
  | c :: rest =>
    if c.signer = candidate.signer then candidate :: rest else c :: enroll candidate rest

namespace Ledger

/-- The ledger with nothing in it. -/
def empty : Ledger := ⟨[], [], [], none⟩

/-- `MemoryState::balance`: the balance of an account. -/
def balance (l : Ledger) (account : Address) : Amount := Table.read l.balances account

/-- `MemoryState::set_balance`: the ledger with the balance of an account set. -/
def setBalance (l : Ledger) (account : Address) (amount : Amount) : Ledger :=
  { l with balances := Table.write l.balances account amount }

/-- `MemoryState::param`: the value of a parameter. -/
def param (l : Ledger) (key : ParamKey) : Amount := Table.read l.params key

/-- `MemoryState::set_param`: the ledger with the value of a parameter set. -/
def setParam (l : Ledger) (key : ParamKey) (value : Amount) : Ledger :=
  { l with params := Table.write l.params key value }

/-- `MemoryState::add_candidate`: the ledger with a candidate registered, in place of an earlier one
with its signer. -/
def register (l : Ledger) (candidate : Candidate) : Ledger :=
  { l with candidates := enroll candidate l.candidates }

/-- The registered signers, in the order of registration. -/
def signers (l : Ledger) : List Address := l.candidates.map Candidate.signer

/-- `MemoryState::update_candidate`: the ledger with the activity of a registered candidate set. -/
def setActive (l : Ledger) (signer : Address) (active : Bool) : Except LedgerError Ledger :=
  if signer ∈ l.signers then .ok { l with candidates := activate signer active l.candidates }
  else .error (.candidateNotFound signer)

/-- `MemoryState::set_block_num_and_id`: the ledger while the child of a block is executed. -/
def markParent (l : Ledger) (parentId : BlockId) : Ledger := { l with marker := some parentId }

/-! ## The root -/

/-- The bytes of a table entry. -/
def encodeEntry {n : Nat} (e : Bytes n × Amount) : List UInt8 :=
  e.1.toList ++ bigEndian 32 e.2.toNat

/-- The bytes of a candidate. -/
def encodeCandidate (c : Candidate) : List UInt8 :=
  c.signer.toList ++ (c.endorsor.toList ++ (c.identity.toList ++ Canonical.flag c.active))

/-- What `Snapshot::root` absorbs: the bytes of a ledger. -/
def encode (l : Ledger) : List UInt8 :=
  Canonical.list encodeEntry l.balances ++ (Canonical.list encodeCandidate l.candidates ++
    (Canonical.list encodeEntry l.params ++ Canonical.option Bytes.toList l.marker))

/-- `Snapshot::root`: a digest of everything the ledger holds. -/
def root (l : Ledger) : Hash := keccak256 l.encode

end Ledger

/-! ## Lemmas -/

theorem Table.read_write {n : Nat} (t : Table n Amount) (k : Bytes n) (v : Amount) (q : Bytes n) :
    (t.write k v).read q = if k = q then v else t.read q := by
  unfold Table.write Table.read
  split
  · rename_i hv
    rw [get?_erase]
    split <;> simp [hv]
  · rw [get?_put]
    split <;> rfl

theorem map_signer_activate (signer : Address) (active : Bool) (cs : List Candidate) :
    (activate signer active cs).map Candidate.signer = cs.map Candidate.signer := by
  induction cs with
  | nil => rfl
  | cons c rest ih =>
    simp only [activate]
    split <;> simp [ih]

theorem map_signer_enroll (candidate : Candidate) (cs : List Candidate) :
    (enroll candidate cs).map Candidate.signer =
      if candidate.signer ∈ cs.map Candidate.signer then cs.map Candidate.signer
      else cs.map Candidate.signer ++ [candidate.signer] := by
  induction cs with
  | nil => rfl
  | cons c rest ih =>
    simp only [enroll]
    split
    · rename_i h
      simp [h]
    · rename_i h
      simp only [List.map_cons, ih, List.mem_cons, Ne.symm h, false_or]
      split <;> simp

namespace Ledger

@[simp] theorem balance_setBalance (l : Ledger) (account : Address) (amount : Amount)
    (a : Address) :
    (l.setBalance account amount).balance a = if account = a then amount else l.balance a :=
  Table.read_write l.balances account amount a

@[simp] theorem param_setParam (l : Ledger) (key : ParamKey) (value : Amount) (k : ParamKey) :
    (l.setParam key value).param k = if key = k then value else l.param k :=
  Table.read_write l.params key value k

theorem signers_register (l : Ledger) (c : Candidate) :
    (l.register c).signers = if c.signer ∈ l.signers then l.signers else l.signers ++ [c.signer] :=
  map_signer_enroll c l.candidates

/-- Setting the activity of a registered candidate changes that and nothing else. -/
theorem setActive_ok {l l' : Ledger} {signer : Address} {active : Bool}
    (h : l.setActive signer active = .ok l') :
    signer ∈ l.signers ∧ l' = { l with candidates := activate signer active l.candidates } := by
  unfold setActive at h
  split at h
  · rename_i hsigner
    exact ⟨hsigner, (Except.ok.inj h).symm⟩
  · cases h

theorem signers_setActive {l l' : Ledger} {signer : Address} {active : Bool}
    (h : l.setActive signer active = .ok l') : l'.signers = l.signers := by
  obtain ⟨-, rfl⟩ := setActive_ok h
  exact map_signer_activate signer active l.candidates

end Ledger

end ProofOfAuthority
