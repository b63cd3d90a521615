import ProofOfAuthority.Proofs.Checks
import ProofOfAuthority.Proofs.GasBand
import ProofOfAuthority.Proofs.Replaying
import ProofOfAuthority.Proofs.Slots

/-!
# Production and validation agree

A proposer waits for a slot of its own, picks a gas limit, writes the changes of activity that go
with the slot to the ledger, executes transactions on it, and commits to all of this in a header.
Validation runs the same course from the other end, with every value of the proposer under
suspicion. Here the two meet: of all headers that the proposer could have signed for that slot,
validation accepts the honest one and no other.

* `Production.accepted`, `Production.refused`, `Production.eq_header` — what validation makes of the
  headers that the proposer could have signed.
* `production_agrees` — all of this in one statement, from the slot on.
-/

namespace ProofOfAuthority

variable {μ : Type}

/-- `DevNet::propose`: the header that a proposer seals on top of `parent`, given what the slot
scores and what the execution of the transactions left. -/
def sealedHeader (parent : Header) (time limit : UInt64) (beneficiary : Address) (score : UInt64)
    (txs : List Transaction) (receipts : List Receipt) (after : Ledger) (signature : Signature) :
    Header where
  parentId := parent.id
  timestamp := time
  gasLimit := limit
  beneficiary := beneficiary
  gasUsed := gasTotal receipts
  totalScore := satAdd parent.totalScore score
  txsRoot := transactionsRoot txs
  stateRoot := after.root
  receiptsRoot := receiptsRoot receipts
  signature := signature

/-- A parent that can be built on: its score is not exhausted and its gas limit is in the band. The
ledger after it has fewer candidates than a 64-bit machine can address. -/
structure Extendable (v : Validator) (ledger : Ledger) (parent : Header) : Prop where
  valid : v.protocol.Valid
  score : parent.totalScore.toNat < maxWord
  band : GasLimit.InBand v.protocol parent.gasLimit
  size : ledger.candidates.length < UInt64.size

/-- It is the signer's turn: with the ledger after `parent` it has this rotation, owns the slot at
`time`, and the slot is at most one interval ahead of the clock. -/
structure Turn (v : Validator) (ledger : Ledger) (parent : Header) (now : UInt64) (signer : Address)
    (time : UInt64) (rotation : Rotation) : Prop where
  rotation_eq : Rotation.ofSigner v.protocol signer ledger.proposers parent.number
    parent.timestamp = .ok rotation
  owns : rotation.ownsSlot time = .ok true
  due : time.toNat ≤ now.toNat + v.protocol.blockInterval.toNat

/-- The transactions may go into a block on top of `parent`, and executing them on the ledger marked
with it gives these receipts and leaves this ledger. -/
structure Executes (v : Validator) (chain : Chain) (parent : Header) (executor : Executor μ)
    (memory : μ) (context : BlockContext) (ledger : Ledger) (txs : List Transaction)
    (receipts : List Receipt) (after : Ledger) : Prop where
  admissible : ∀ tx ∈ txs, tx.Admissible v.chainTag (parent.number + 1)
  includable : ∃ ids, chain.Includable parent.id txs ids receipts
  executed : ∃ m, executor.executeAll context memory (ledger.markParent parent.id) txs =
    .ok (m, after, receipts)

/-! ## Before the transactions -/

namespace Turn

variable {v : Validator} {ledger : Ledger} {parent header : Header} {now time : UInt64}
  {signer : Address} {rotation : Rotation}

/-- A block in the signer's slot raises the total score. -/
theorem score_lt (turn : Turn v ledger parent now signer time rotation)
    (h : Extendable v ledger parent) :
    parent.totalScore < satAdd parent.totalScore (rotation.score time) := by
  obtain ⟨-, hsublist, -, -⟩ := Rotation.ofSigner_ok turn.rotation_eq
  have hlength := Nat.le_trans hsublist.length_le ledger.length_proposers_le
  have hscore := rotation.toNat_score time (Nat.lt_of_le_of_lt hlength h.size)
  have habsent := rotation.length_absentees_lt time
  have hmax := h.score
  rw [UInt64.lt_iff_toNat_lt, toNat_satAdd]
  omega

/-- The changes of activity that go with the slot can be written. -/
theorem updates_ok (turn : Turn v ledger parent now signer time rotation) :
    ∃ updated, ledger.applyUpdates (rotation.updates time) = .ok updated :=
  Ledger.applyUpdates_of_rotation turn.rotation_eq time

/-- A header with the time of the turn is in a slot that has come. -/
theorem in_slot (turn : Turn v ledger parent now signer time rotation)
    (htime : header.timestamp = time) :
    InSlot v.protocol header parent ∧ ¬Early v.protocol header now := by
  obtain ⟨-, -, hparentTime, hinterval⟩ := Rotation.ofSigner_ok turn.rotation_eq
  obtain ⟨hafter, hpos, hgrid, -⟩ := Rotation.ownsSlot_eq_true_iff.mp turn.owns
  rw [hparentTime] at hafter hgrid
  rw [hinterval] at hpos hgrid
  have hdue := turn.due
  rw [← htime] at hafter hgrid hdue
  exact ⟨⟨hafter, hpos, hgrid⟩, Nat.not_lt.mpr hdue⟩

end Turn

/-- A block on top of `parent` has the number after the parent's. -/
theorem number_of_parent {header parent : Header} (h : header.parentId = parent.id) :
    header.number = parent.number + 1 := by
  rw [Header.number, h, Header.number_id]

/-- What the transactions of a block on top of `parent` see of it. -/
theorem context_of_parent {header parent : Header} (h : header.parentId = parent.id) :
    header.context =
      ⟨header.beneficiary, parent.number + 1, header.timestamp, header.gasLimit⟩ := by
  rw [Header.context, number_of_parent h]

/-! ## The block -/

/-- All that goes into a block before it is signed. -/
structure Production (v : Validator) (chain : Chain) (executor : Executor μ) (memory : μ)
    (ledger : Ledger) (parent : Header) (now : UInt64) where
  signer : Address
  rotation : Rotation
  time : UInt64
  limit : UInt64
  beneficiary : Address
  updated : Ledger
  txs : List Transaction
  receipts : List Receipt
  after : Ledger
  extendable : Extendable v ledger parent
  turn : Turn v ledger parent now signer time rotation
  follows : GasLimit.follows v.protocol parent.gasLimit limit = .ok true
  updates : ledger.applyUpdates (rotation.updates time) = .ok updated
  executes : Executes v chain parent executor memory
    ⟨beneficiary, parent.number + 1, time, limit⟩ updated txs receipts after

namespace Production

variable {v : Validator} {chain : Chain} {executor : Executor μ} {memory : μ} {ledger : Ledger}
  {parent : Header} {now : UInt64} (P : Production v chain executor memory ledger parent now)

/-- The header with some signature. -/
def header (signature : Signature) : Header :=
  sealedHeader parent P.time P.limit P.beneficiary (P.rotation.score P.time) P.txs P.receipts
    P.after signature

/-- The block with some signature of its header. -/
def block (signature : Signature) : Block := ⟨P.header signature, P.txs⟩

variable {signature : Signature}

/-- The checks against the parent fail only if the gas is beyond the limit. -/
theorem checkHeader_eq : checkHeader v.protocol (P.header signature) parent now =
    if P.limit < gasTotal P.receipts then
      Checked.refuse (.gasUsedExceedsLimit P.limit (gasTotal P.receipts))
    else .ok () := by
  obtain ⟨hslot, hcome⟩ : InSlot v.protocol (P.header signature) parent ∧
      ¬Early v.protocol (P.header signature) now := P.turn.in_slot rfl
  rw [checkHeader_follows hslot hcome P.follows]
  have hscore : ¬(P.header signature).totalScore ≤ parent.totalScore :=
    UInt64.not_le.mpr (P.turn.score_lt P.extendable)
  rw [if_neg hscore]
  rfl

theorem checkProposer_ok (hsigner : (P.header signature).signer = .ok P.signer) :
    checkProposer v.protocol ledger (P.header signature) parent = .ok P.updated :=
  checkProposer_ok_iff.mpr ⟨P.signer, P.rotation, hsigner, P.turn.rotation_eq, P.turn.owns, rfl,
    P.updates⟩

theorem checkBody_ok : checkBody v.chainTag (P.block signature) = .ok () := by
  refine checkBody_ok_iff.mpr ⟨rfl, ?_⟩
  intro tx htx
  have hnumber : (P.block signature).header.number = parent.number + 1 := number_of_parent rfl
  rw [hnumber]
  exact P.executes.admissible tx htx

theorem replay_ok : ∃ fetches, replay chain executor memory P.updated (P.block signature) =
    .ok ⟨P.after, P.receipts, fetches⟩ := by
  obtain ⟨ids, hincl⟩ := P.executes.includable
  obtain ⟨m, hall⟩ := P.executes.executed
  have hcontext : (P.block signature).header.context =
      ⟨P.beneficiary, parent.number + 1, P.time, P.limit⟩ := context_of_parent rfl
  rw [← hcontext] at hall
  exact replay_complete hincl hall ⟨rfl, rfl, rfl⟩

/-- **The signed block is accepted** if its gas is within its limit, with the ledger and receipts
that were produced. -/
theorem accepted (hsigner : (P.header signature).signer = .ok P.signer)
    (hgas : gasTotal P.receipts ≤ P.limit) :
    ∃ fetches, v.validate chain executor memory ledger (P.block signature) parent now =
      .ok ⟨P.after, P.receipts, fetches⟩ := by
  have hheader : checkHeader v.protocol (P.header signature) parent now = .ok () := by
    rw [P.checkHeader_eq, if_neg (UInt64.not_lt.mpr hgas)]
  have hready : v.prepare ledger (P.block signature) parent now = .ok P.updated :=
    Validator.prepare_ok_iff.mpr ⟨rfl, hheader, P.checkProposer_ok hsigner, P.checkBody_ok⟩
  obtain ⟨fetches, hreplay⟩ : ∃ fetches, replay chain executor memory P.updated
      (P.block signature) = .ok ⟨P.after, P.receipts, fetches⟩ := P.replay_ok
  exact ⟨fetches, Validator.validate_ok_iff.mpr ⟨P.updated, hready, hreplay⟩⟩

/-- **The block is refused for its gas** if that is beyond the limit, whoever signed it. -/
theorem refused (hgas : P.limit < gasTotal P.receipts) :
    v.validate chain executor memory ledger (P.block signature) parent now =
      .error (.refused ⟨.violation (.gasUsedExceedsLimit P.limit (gasTotal P.receipts)), 0⟩) := by
  have hheader : checkHeader v.protocol (P.block signature).header parent now =
      Checked.refuse (.gasUsedExceedsLimit P.limit (gasTotal P.receipts)) := by
    rw [block, P.checkHeader_eq, if_pos hgas]
  have hparent : ¬(P.block signature).header.parentId ≠ parent.id := fun h => h rfl
  unfold Validator.validate Validator.prepare
  rw [if_neg hparent, hheader]
  rfl

/-- **No other header is accepted** for these transactions in this slot, with this limit and this
beneficiary: whatever passes is the header that was produced, and gives what was produced. -/
theorem eq_header {h : Header} {replayed : Replayed} (hsigner : h.signer = .ok P.signer)
    (htime : h.timestamp = P.time) (hlimit : h.gasLimit = P.limit)
    (hbeneficiary : h.beneficiary = P.beneficiary)
    (haccepted : v.validate chain executor memory ledger ⟨h, P.txs⟩ parent now = .ok replayed) :
    h = P.header h.signature ∧ gasTotal P.receipts ≤ P.limit ∧ replayed.ledger = P.after ∧
      replayed.receipts = P.receipts := by
  obtain ⟨updated, hready, hreplay⟩ := Validator.validate_ok_iff.mp haccepted
  obtain ⟨hparent, hheader, hproposer, hbody⟩ := Validator.prepare_ok_iff.mp hready
  dsimp only at hparent hheader hproposer
  -- the slot leaves no choice of rotation, score and changes of activity
  obtain ⟨signer, rotation, hsigner', hrotation, -, hscore, hupdates⟩ :=
    checkProposer_ok_iff.mp hproposer
  obtain rfl : P.signer = signer := Except.ok.inj (hsigner.symm.trans hsigner')
  obtain rfl : P.rotation = rotation := Except.ok.inj (P.turn.rotation_eq.symm.trans hrotation)
  rw [htime] at hscore hupdates
  obtain rfl : P.updated = updated := Except.ok.inj (P.updates.symm.trans hupdates)
  obtain ⟨htxs, -⟩ := checkBody_ok_iff.mp hbody
  -- the executor has run before in the same circumstances
  obtain ⟨ids, m, -, hall, hgas, hreceipts, hstate⟩ := replay_sound hreplay
  dsimp only at hall htxs hgas hreceipts hstate
  rw [context_of_parent hparent, hparent, hbeneficiary, htime, hlimit] at hall
  obtain ⟨m', hall'⟩ := P.executes.executed
  obtain ⟨-, hafter, hsame⟩ : m' = m ∧ P.after = replayed.ledger ∧
      P.receipts = replayed.receipts := by
    simpa using hall'.symm.trans hall
  rw [← hsame] at hgas hreceipts
  rw [← hafter] at hstate
  have hwithin := (checkHeader_ok_iff.mp hheader).2.2.2.1
  rw [hgas, hlimit] at hwithin
  refine ⟨?_, hwithin, hafter.symm, hsame.symm⟩
  cases h
  rw [header, sealedHeader, Header.mk.injEq]
  exact ⟨hparent, htime, hlimit, hbeneficiary, hgas, hscore, htxs, hstate, hreceipts, rfl⟩

end Production

/-- **Production and validation agree.** On an `Extendable` parent, at its `Turn`, a signer can seal
whatever it `Executes`: `sealedHeader` is accepted, or refused if the gas exceeds the limit, and no
other of its headers is for the same transactions, slot, limit and beneficiary.  -/
theorem production_agrees {v : Validator} {ledger : Ledger} {parent : Header} {now time : UInt64}
    {signer : Address} {rotation : Rotation} (extendable : Extendable v ledger parent)
    (turn : Turn v ledger parent now signer time rotation) (chain : Chain) (executor : Executor μ)
    (memory : μ) (target : UInt64) :
    ∃ limit updated, GasLimit.nearest v.protocol parent.gasLimit target = .ok limit ∧
      ledger.applyUpdates (rotation.updates time) = .ok updated ∧
      ∀ beneficiary txs receipts after,
        Executes v chain parent executor memory ⟨beneficiary, parent.number + 1, time, limit⟩
          updated txs receipts after →
        let header := sealedHeader parent time limit beneficiary (rotation.score time) txs receipts
          after
        (∀ signature, (header signature).signer = .ok signer →
          (gasTotal receipts ≤ limit → ∃ fetches,
            v.validate chain executor memory ledger ⟨header signature, txs⟩ parent now =
              .ok ⟨after, receipts, fetches⟩) ∧
          (limit < gasTotal receipts →
            v.validate chain executor memory ledger ⟨header signature, txs⟩ parent now =
              .error (.refused
                ⟨.violation (.gasUsedExceedsLimit limit (gasTotal receipts)), 0⟩))) ∧
        ∀ other replayed, other.signer = .ok signer → other.timestamp = time →
          other.gasLimit = limit → other.beneficiary = beneficiary →
          v.validate chain executor memory ledger ⟨other, txs⟩ parent now = .ok replayed →
          other = header other.signature ∧ replayed.ledger = after ∧
            replayed.receipts = receipts := by
  obtain ⟨limit, hlimit, hfollows⟩ :=
    GasLimit.nearest_follows extendable.valid extendable.band target
  obtain ⟨updated, hupdated⟩ := turn.updates_ok
  refine ⟨limit, updated, hlimit, hupdated, ?_⟩
  intro beneficiary txs receipts after hexec
  let P : Production v chain executor memory ledger parent now :=
    { signer, rotation, time, limit, beneficiary, updated, txs, receipts, after, extendable, turn
      follows := hfollows
      updates := hupdated
      executes := hexec }
  refine ⟨fun signature hsigner => ⟨P.accepted hsigner, P.refused⟩, ?_⟩
  intro other replayed hsigner htime hlimit hbeneficiary haccepted
  obtain ⟨heq, -, hafter, hreceipts⟩ := P.eq_header hsigner htime hlimit hbeneficiary haccepted
  exact ⟨heq, hafter, hreceipts⟩

/-! ## The sample block is produced -/

namespace Sample

def validator : Validator := ⟨Protocol.standard, 228⟩

/-- The rotation of the only candidate. -/
def rotation : Rotation where
  self := ⟨signer, true⟩
  actives := [⟨signer, true⟩]
  parentNumber := 0
  parentTime := 1000
  interval := 10
  maxWalk := 101
  mem_actives := List.mem_singleton.mpr rfl

theorem extendable : Extendable validator ledger genesis where
  valid := ⟨by decide, by decide, by decide, by decide⟩
  score := by decide
  band := by unfold GasLimit.InBand; decide
  size := by decide

theorem turn : Turn validator ledger genesis 1000 signer 1010 rotation where
  rotation_eq := rfl
  owns := Rotation.ownsSlot_eq_true_iff.mpr ⟨by decide, by decide, by decide,
    List.mem_singleton.mp (rotation.owner_mem 1010)⟩
  due := by decide

theorem first_admissible : first.Admissible 228 1 :=
  ⟨⟨signer, first_signer⟩, rfl, by decide, by decide, rfl⟩

theorem second_admissible : second.Admissible 228 1 :=
  ⟨⟨signer, second_signer⟩, rfl, by decide, by decide, rfl⟩

theorem executes_block : Executes validator (Chain.ofGenesis genesis) genesis
    ValueTransfer.executor () ⟨Bytes.zero, genesis.number + 1, 1010, 10000000⟩ ledger
    [first, second] [receipt, receipt] (ledger.markParent genesis.id) where
  admissible := by
    rintro tx htx
    rcases List.mem_cons.mp htx with rfl | htx
    · exact first_admissible
    · obtain rfl := List.mem_singleton.mp htx
      exact second_admissible
  includable := ⟨_, includable⟩
  executed := by
    have hcontext : block.header.context = ⟨Bytes.zero, genesis.number + 1, 1010, 10000000⟩ :=
      context_of_parent rfl
    exact ⟨(), hcontext ▸ executes⟩

theorem sealed_eq : sealedHeader genesis 1010 10000000 Bytes.zero (rotation.score 1010)
    [first, second] [receipt, receipt] (ledger.markParent genesis.id) block.header.signature =
      block.header := by
  have hgas : gasTotal [receipt, receipt] = 42000 := by decide
  have hscore : satAdd genesis.totalScore (rotation.score 1010) = 1 := by decide
  rw [sealedHeader, hgas, hscore]
  rfl

theorem header_signer : block.header.signer = .ok signer :=
  ok_of_toOption (by decide +kernel)

/-- The production of the sample block. -/
def production : Production validator (Chain.ofGenesis genesis) ValueTransfer.executor () ledger
    genesis 1000 where
  signer := signer
  rotation := rotation
  time := 1010
  limit := 10000000
  beneficiary := Bytes.zero
  updated := ledger
  txs := [first, second]
  receipts := [receipt, receipt]
  after := ledger.markParent genesis.id
  extendable := extendable
  turn := turn
  follows := rfl
  updates := rfl
  executes := executes_block

/-- The sample block validates. -/
theorem validates : ∃ fetches, validator.validate (Chain.ofGenesis genesis) ValueTransfer.executor
    () ledger block genesis 1000 =
      .ok ⟨ledger.markParent genesis.id, [receipt, receipt], fetches⟩ := by
  have hheader : production.header block.header.signature = block.header := sealed_eq
  have hsigner : (production.header block.header.signature).signer = .ok signer := by
    rw [hheader, header_signer]
  have haccepted := production.accepted hsigner (by decide)
  rw [Production.block, hheader] at haccepted
  exact haccepted

/-- The sample block as `production_agrees` finds it. -/
theorem sample_agrees : Extendable validator ledger genesis ∧
    Turn validator ledger genesis 1000 signer 1010 rotation ∧
    ∃ fetches, validator.validate (Chain.ofGenesis genesis) ValueTransfer.executor () ledger block
      genesis 1000 = .ok ⟨ledger.markParent genesis.id, [receipt, receipt], fetches⟩ := by
  refine ⟨extendable, turn, ?_⟩
  obtain ⟨limit, updated, hlimit, hupdated, hall⟩ := production_agrees extendable turn
    (Chain.ofGenesis genesis) ValueTransfer.executor () 10000000
  obtain rfl : 10000000 = limit := Except.ok.inj hlimit
  obtain rfl : ledger = updated := Except.ok.inj hupdated
  have haccepted := (hall _ _ _ _ executes_block).1 block.header.signature
  rw [sealed_eq] at haccepted
  exact (haccepted header_signer).1 (by decide)

end Sample

end ProofOfAuthority
