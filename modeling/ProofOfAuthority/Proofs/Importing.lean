import ProofOfAuthority.Ledger.Archive
import ProofOfAuthority.Proofs.Production

/-!
# The archive and the chain stay in step

A node keeps ledgers in an archive and blocks in a chain. To import a block it opens the archive at
the root that a stored header names, validates the block on that header, commits the ledger that
validation leaves, and adds the block. The two stores are written one after the other, and neither
knows of the other. They stay in step all the same, whichever forks the blocks are on and however
often they arrive: the root that validation compares with the header is the one under which the
ledger is kept, and no root is ever lost.

* `Archive.mem_commit`, `Archive.ledger_commit_of_ne` — the archive after a commit.
* `Node.InStep` — what the stores owe each other. `InStep.commit` and `InStep.receive` keep it.
* `Node.stay_in_step` — all of this, over every run of imports.
-/

namespace ProofOfAuthority

/-! ## Commits -/

namespace Archive

variable {a : Archive} {l : Ledger} {root : Hash}

/-- Every ledger is kept under its own root, and no two under one. -/
structure Keyed (a : Archive) : Prop where
  root_eq : ∀ e ∈ a.entries, e.2.root = e.1
  distinct : (a.entries.map Prod.fst).Nodup

/-- The archive has a ledger for the root, and unless that is the zero root, one with this root. -/
def Opens (a : Archive) (root : Hash) : Prop :=
  ∃ l, a.ledger root = .ok l ∧ (root ≠ Bytes.zero → l.root = root)

theorem keyed_empty : empty.Keyed := ⟨by simp [empty], List.nodup_nil⟩

/-- **The entries after a commit**: that of the ledger, and all under other roots. -/
theorem mem_commit {e : Hash × Ledger} : e ∈ (a.commit l).entries ↔
    e = (l.root, l) ∨ e ∈ a.entries ∧ e.1 ≠ l.root := by
  simp only [commit, List.mem_cons, List.mem_filter, decide_eq_true_eq]

/-- **A commit keeps every ledger under its own root.** -/
theorem Keyed.commit (h : a.Keyed) (l : Ledger) : (a.commit l).Keyed where
  root_eq e he := by
    rcases mem_commit.mp he with rfl | ⟨he, -⟩
    · rfl
    · exact h.root_eq e he
  distinct := by
    refine List.nodup_cons.mpr ⟨?_, ?_⟩
    · rintro hmem
      obtain ⟨e, he, hroot⟩ := List.mem_map.mp hmem
      exact absurd hroot (by simpa using (List.mem_filter.mp he).2)
    · exact h.distinct.sublist (List.filter_sublist.map Prod.fst)

/-- **A commit changes nothing under other roots.** -/
theorem ledger_commit_of_ne (h : root ≠ l.root) : (a.commit l).ledger root = a.ledger root := by
  have hfind : (a.commit l).entries.find? (·.1 = root) = a.entries.find? (·.1 = root) := by
    rw [commit, List.find?_cons_of_neg (by simpa using Ne.symm h), List.find?_filter]
    congr 1
    funext e
    by_cases he : e.1 = root
    · simp [he, h]
    · simp [he]
  rw [ledger, ledger, hfind]

/-- **A commit adds one root at most, and removes none.** -/
theorem contains_commit : (a.commit l).contains root = true ↔
    root = l.root ∨ a.contains root = true := by
  simp only [contains, commit, List.any_cons, Bool.or_eq_true, decide_eq_true_eq, List.any_eq_true,
    List.mem_filter]
  constructor
  · rintro (h | ⟨e, ⟨he, -⟩, hroot⟩)
    · exact Or.inl h.symm
    · exact Or.inr ⟨e, he, hroot⟩
  · rintro (h | ⟨e, he, hroot⟩)
    · exact Or.inl h.symm
    · by_cases hl : e.1 = l.root
      · exact Or.inl (hl.symm.trans hroot)
      · exact Or.inr ⟨e, ⟨he, hl⟩, hroot⟩

theorem size_commit_le : (a.commit l).size ≤ a.size + 1 :=
  Nat.succ_le_succ (List.length_filter_le _ _)

theorem opens_commit_self : (a.commit l).Opens l.root := by
  by_cases hzero : l.root = Bytes.zero
  · exact ⟨Ledger.empty, by rw [ledger, if_pos hzero], fun h => absurd hzero h⟩
  · exact ⟨l, ledger_commit_self a l hzero, fun _ => rfl⟩

/-- **What opens goes on to open.** -/
theorem Opens.commit (h : a.Opens root) (l : Ledger) : (a.commit l).Opens root := by
  by_cases hroot : root = l.root
  · rw [hroot]
    exact opens_commit_self
  · obtain ⟨l', hledger, hl'⟩ := h
    exact ⟨l', by rw [ledger_commit_of_ne hroot, hledger], hl'⟩

end Archive

/-- A block whose parent is stored, with a receipt for each of its transactions, can be added. -/
theorem Chain.exists_add {c : Chain} {block : Block} {receipts : List Receipt} {ids : List TxId}
    (hids : txIds block.transactions = .ok ids)
    (hcount : receipts.length = block.transactions.length)
    (hparent : c.contains block.header.parentId = true) :
    ∃ c', c.add block receipts = .ok c' := by
  unfold add
  rw [if_neg (not_not.mpr hcount), hids]
  simp only [if_pos hparent]
  split <;> exact ⟨_, rfl⟩

/-! ## A node -/

/-- Ledgers and blocks (`DevNet`). -/
structure Node where
  archive : Archive
  chain : Chain

/-- A block that arrives, to be validated on a stored block, and the executor's memory by then. -/
structure Arrival (μ : Type) where
  block : Block
  parentId : BlockId
  now : UInt64
  memory : μ

namespace Node

variable {μ : Type} (v : Validator) (executor : Executor μ)

/-- Validate a block on a stored header, with the ledger at the root that this header names. -/
def accept? (n : Node) (a : Arrival μ) : Option Replayed := do
  let parent ← n.chain.header? a.parentId
  let ledger ← (n.archive.ledger parent.stateRoot).toOption
  (v.validate n.chain executor a.memory ledger a.block parent a.now).toOption

/-- The node with a ledger committed. -/
def commit (n : Node) (l : Ledger) : Node := { n with archive := n.archive.commit l }

/-- The node with a block added, if the chain takes it. -/
def add (n : Node) (block : Block) (receipts : List Receipt) : Node :=
  match n.chain.add block receipts with
  | .ok chain => { n with chain }
  | .error _ => n

/-- `DevNet::import`: what is not accepted changes nothing. -/
def receive (n : Node) (a : Arrival μ) : Node :=
  match n.accept? v executor a with
  | some replayed => (n.commit replayed.ledger).add a.block replayed.receipts
  | none => n

/-- Import blocks in the order of their arrival. -/
def receiveAll (n : Node) (arrivals : List (Arrival μ)) : Node :=
  arrivals.foldl (receive v executor) n

/-- The node that holds a genesis header, and committed ledgers, the last of them the one after
genesis. -/
def ofGenesis (genesis : Header) (earlier : List Ledger) (l : Ledger) : Node :=
  ⟨(earlier.foldl Archive.commit Archive.empty).commit l, Chain.ofGenesis genesis⟩

/-- What the stores of a node owe each other: every ledger is kept under its own root, and every
stored header can be opened at the root that it names. -/
structure InStep (n : Node) : Prop where
  keyed : n.archive.Keyed
  wellFormed : n.chain.WellFormed
  opens : ∀ s ∈ n.chain.blocks, n.archive.Opens s.header.stateRoot

variable {v executor} {n : Node} {a : Arrival μ} {r : Replayed} {genesis : Header} {l : Ledger}

theorem accept?_eq_some_iff : n.accept? v executor a = some r ↔
    ∃ parent ledger, n.chain.header? a.parentId = some parent ∧
      n.archive.ledger parent.stateRoot = .ok ledger ∧
      v.validate n.chain executor a.memory ledger a.block parent a.now = .ok r := by
  simp only [accept?, Option.bind_eq_bind, Option.bind_eq_some_iff, toOption_eq_some_iff]
  constructor
  · rintro ⟨parent, hparent, ledger, hledger, h⟩
    exact ⟨parent, ledger, hparent, hledger, h⟩
  · rintro ⟨parent, ledger, hparent, hledger, h⟩
    exact ⟨parent, hparent, ledger, hledger, h⟩

/-- **The root that is committed is the header's**, and the chain takes the block. -/
theorem InStep.of_accept? (h : n.InStep) (ha : n.accept? v executor a = some r) :
    r.ledger.root = a.block.header.stateRoot ∧
      ∃ chain, n.chain.add a.block r.receipts = .ok chain := by
  obtain ⟨parent, ledger, hparent, -, hvalid⟩ := accept?_eq_some_iff.mp ha
  obtain ⟨updated, hprepare, hreplay⟩ := Validator.validate_ok_iff.mp hvalid
  obtain ⟨hid, -⟩ := Validator.prepare_ok_iff.mp hprepare
  obtain ⟨ids, _, hincl, -, hcommits⟩ := replay_sound hreplay
  refine ⟨hcommits.stateRoot.symm, Chain.exists_add hincl.txIds_eq hincl.count ?_⟩
  -- the stored parent is stored under the id that the block names
  obtain ⟨s, hfind, rfl⟩ := Option.map_eq_some_iff.mp hparent
  obtain ⟨hs, -⟩ := Chain.find?_eq_some hfind
  rw [hid, ← h.wellFormed.id_eq s hs]
  exact Chain.contains_of_mem hs

/-- **A commit keeps a node in step**, also while the block is not added yet. -/
theorem InStep.commit (h : n.InStep) (l : Ledger) : (n.commit l).InStep where
  keyed := h.keyed.commit l
  wellFormed := h.wellFormed
  opens s hs := (h.opens s hs).commit l

/-- A block whose root opens can be added. -/
theorem InStep.add {block : Block} {receipts : List Receipt} {chain : Chain} (h : n.InStep)
    (hopens : n.archive.Opens block.header.stateRoot)
    (hadd : n.chain.add block receipts = .ok chain) : (⟨n.archive, chain⟩ : Node).InStep where
  keyed := h.keyed
  wellFormed := h.wellFormed.grows ⟨block, receipts, hadd⟩
  opens s hs := by
    rcases Chain.add_ok hadd with ⟨-, rfl⟩ | ⟨ids, -, -, rfl⟩
    · exact h.opens s hs
    · rcases Chain.mem_push.mp hs with hs | rfl
      · exact h.opens s hs
      · exact hopens

/-- What an import does with an accepted block. -/
theorem receive_of_accept? (h : n.InStep) (ha : n.accept? v executor a = some r) :
    ∃ chain, n.chain.add a.block r.receipts = .ok chain ∧
      n.receive v executor a = ⟨n.archive.commit r.ledger, chain⟩ := by
  obtain ⟨-, chain, hadd⟩ := h.of_accept? ha
  refine ⟨chain, hadd, ?_⟩
  rw [receive, ha]
  dsimp only [Node.add, Node.commit]
  rw [hadd]

/-- **An import keeps a node in step.** -/
theorem InStep.receive (h : n.InStep) (a : Arrival μ) : (n.receive v executor a).InStep := by
  cases ha : n.accept? v executor a with
  | none =>
    rw [Node.receive, ha]
    exact h
  | some r =>
    obtain ⟨hroot, -⟩ := h.of_accept? ha
    obtain ⟨chain, hadd, heq⟩ := receive_of_accept? h ha
    rw [heq]
    exact (h.commit r.ledger).add (hroot ▸ Archive.opens_commit_self) hadd

theorem InStep.receiveAll (h : n.InStep) (arrivals : List (Arrival μ)) :
    (n.receiveAll v executor arrivals).InStep := by
  induction arrivals generalizing n with
  | nil => exact h
  | cons a arrivals ih => exact ih (h.receive a)

theorem keyed_commits (earlier : List Ledger) {a : Archive} (h : a.Keyed) :
    (earlier.foldl Archive.commit a).Keyed := by
  induction earlier generalizing a with
  | nil => exact h
  | cons l earlier ih => exact ih (h.commit l)

theorem inStep_ofGenesis (hroot : l.root = genesis.stateRoot) (earlier : List Ledger) :
    (ofGenesis genesis earlier l).InStep where
  keyed := (keyed_commits earlier Archive.keyed_empty).commit l
  wellFormed := Chain.wellFormed_ofGenesis genesis
  opens s hs := by
    rw [Chain.mem_ofGenesis.mp hs, ← hroot]
    exact Archive.opens_commit_self

/-- **The archive and the chain stay in step** (`InStep`) through any arrivals. When a block is
accepted next, they do so between `commit` and `add`, the addition goes through, and the commit
touches no entry but the one under the root that the header names. -/
theorem stay_in_step (hroot : l.root = genesis.stateRoot) (earlier : List Ledger)
    (arrivals : List (Arrival μ)) :
    let n := (ofGenesis genesis earlier l).receiveAll v executor arrivals
    n.InStep ∧ ∀ a r, n.accept? v executor a = some r →
      (n.commit r.ledger).InStep ∧
      (∃ chain, n.chain.add a.block r.receipts = .ok chain ∧
        n.receive v executor a = ⟨(n.commit r.ledger).archive, chain⟩) ∧
      (n.commit r.ledger).archive.size ≤ n.archive.size + 1 ∧
      (∀ root, (n.commit r.ledger).archive.contains root = true ↔
        root = a.block.header.stateRoot ∨ n.archive.contains root = true) ∧
      ∀ e, e ∈ (n.commit r.ledger).archive.entries ↔
        e = (a.block.header.stateRoot, r.ledger) ∨
          e ∈ n.archive.entries ∧ e.1 ≠ a.block.header.stateRoot := by
  intro n
  have hn : n.InStep := (inStep_ofGenesis hroot earlier).receiveAll arrivals
  refine ⟨hn, ?_⟩
  intro a r ha
  obtain ⟨hstate, -⟩ := hn.of_accept? ha
  rw [← hstate]
  exact ⟨hn.commit r.ledger, receive_of_accept? hn ha, Archive.size_commit_le,
    fun _ => Archive.contains_commit, fun _ => Archive.mem_commit⟩

end Node

namespace Sample

/-- The genesis header with the root of the ledger after genesis. -/
def rooted : Header := { genesis with stateRoot := ledger.root }

/-- A block without transactions on top of it. -/
def successor : Block where
  header :=
    { parentId := rooted.id
      timestamp := 1010
      gasLimit := 10000000
      beneficiary := Bytes.zero
      gasUsed := 0
      totalScore := 1
      txsRoot := transactionsRoot []
      stateRoot := (ledger.markParent rooted.id).root
      receiptsRoot := receiptsRoot []
      signature :=
        { r := Bytes.ofNat 0x7c32a038203b629a98a47438148e76a9f002138b81f8117cf3894a8711be88f5
          s := Bytes.ofNat 0x34cba6b751bbdd337562917c2311343d6d1a886bf51577cdbdcd74a048fa9296
          v := 0 } }
  transactions := []

theorem rooted_root : ledger.root = rooted.stateRoot := by
  simp only [rooted]

theorem rooted_number : rooted.number = genesis.number := by
  simp only [rooted, Header.number]

theorem successor_signer : successor.header.signer = .ok signer :=
  ok_of_toOption (by decide +kernel)

theorem rooted_extendable : Extendable validator ledger rooted :=
  ⟨extendable.valid, extendable.score, extendable.band, extendable.size⟩

theorem rooted_turn : Turn validator ledger rooted 1000 signer 1010 rotation where
  rotation_eq := by
    rw [rooted_number]
    exact turn.rotation_eq
  owns := turn.owns
  due := turn.due

theorem nobody_absent : ledger.applyUpdates (rotation.updates 1010) = .ok ledger := rfl

theorem executes_nothing : Executes validator (Chain.ofGenesis rooted) rooted ValueTransfer.executor
    () ⟨Bytes.zero, rooted.number + 1, 1010, 10000000⟩ ledger [] []
    (ledger.markParent rooted.id) where
  admissible := by simp
  includable := ⟨[], Chain.Includable.nil⟩
  executed := ⟨(), rfl⟩

/-- The production of `successor`. -/
def succession : Production validator (Chain.ofGenesis rooted) ValueTransfer.executor () ledger
    rooted 1000 where
  signer := signer
  rotation := rotation
  time := 1010
  limit := 10000000
  beneficiary := Bytes.zero
  updated := ledger
  txs := []
  receipts := []
  after := ledger.markParent rooted.id
  extendable := rooted_extendable
  turn := rooted_turn
  follows := rfl
  updates := nobody_absent
  executes := executes_nothing

theorem successor_sealed : sealedHeader rooted 1010 10000000 Bytes.zero (rotation.score 1010) [] []
    (ledger.markParent rooted.id) successor.header.signature = successor.header := by
  have hgas : gasTotal [] = 0 := by decide
  have hscore : satAdd rooted.totalScore (rotation.score 1010) = 1 := by decide
  rw [sealedHeader, hgas, hscore]
  rfl

theorem successor_validates : ∃ fetches, validator.validate (Chain.ofGenesis rooted)
    ValueTransfer.executor () ledger successor rooted 1000 =
      .ok ⟨ledger.markParent rooted.id, [], fetches⟩ := by
  have hheader : succession.header successor.header.signature = successor.header :=
    successor_sealed
  have haccepted := succession.accepted (hheader ▸ successor_signer) (by decide)
  rw [Production.block, hheader] at haccepted
  exact haccepted

/-- The node with the ledger after genesis and its header. -/
def beginning : Node := Node.ofGenesis rooted [] ledger

def arrival : Arrival Unit := ⟨successor, rooted.id, 1000, ()⟩

/-- The successor is imported: its ledger can be opened afterwards, and both stores are in step. -/
theorem successor_in_step : ledger.root = rooted.stateRoot ∧ ∃ replayed chain,
    beginning.accept? validator ValueTransfer.executor arrival = some replayed ∧
    beginning.receive validator ValueTransfer.executor arrival =
      ⟨(beginning.commit replayed.ledger).archive, chain⟩ ∧
    (beginning.commit replayed.ledger).archive.contains successor.header.stateRoot = true ∧
    (beginning.receiveAll validator ValueTransfer.executor [arrival, arrival]).InStep := by
  obtain ⟨fetches, hvalid⟩ := successor_validates
  have hopen : beginning.archive.ledger rooted.stateRoot = .ok ledger :=
    Archive.ledger_commit_self Archive.empty ledger (by decide +kernel)
  have hheader : beginning.chain.header? rooted.id = some rooted :=
    congrArg (Option.map StoredBlock.header) (Chain.find?_genesis rooted)
  have haccepted : beginning.accept? validator ValueTransfer.executor arrival =
      some ⟨ledger.markParent rooted.id, [], fetches⟩ :=
    Node.accept?_eq_some_iff.mpr ⟨rooted, ledger, hheader, hopen, hvalid⟩
  obtain ⟨-, hnext⟩ :=
    @Node.stay_in_step _ validator ValueTransfer.executor _ _ rooted_root [] []
  obtain ⟨-, ⟨chain, -, hreceive⟩, -, hcontains, -⟩ := hnext arrival _ haccepted
  refine ⟨rooted_root, _, chain, haccepted, hreceive, (hcontains _).mpr (Or.inl rfl), ?_⟩
  exact (Node.stay_in_step rooted_root [] [arrival, arrival]).1

end Sample

end ProofOfAuthority
