import ProofOfAuthority.Proofs.Replaying
import ProofOfAuthority.Validation

/-!
# Histories of a chain

A history is a chain that grows while blocks are being validated over it. Between the moment a block
passes and the moment it is added, any number of other blocks may have been added, on this fork or
on others, and blocks of which nothing was said before cannot be added at all. Validation judges a
block by the chain at that moment; that the judgement still holds when the block is in the chain,
and for ever after, is the invariant `Sound`.

* `Run.sound` — every history is sound.
* `Sound.location_unique`, `Run.included_at_most_once` — no transaction is included twice on a fork.
* `Run.dependencies_honoured` — what a transaction depends on has gone through before it.
-/

namespace ProofOfAuthority

/-- A block passes over a chain with these receipts: validated as a whole or merely replayed, by
some executor, on some ledger. -/
inductive Chain.Accepts (c : Chain) (block : Block) (receipts : List Receipt) : Prop
  | validated {μ : Type} {v : Validator} {executor : Executor μ} {memory : μ} {ledger : Ledger}
      {parent : Header} {now : UInt64} {replayed : Replayed} :
      v.validate c executor memory ledger block parent now = .ok replayed →
      replayed.receipts = receipts → Accepts c block receipts
  | replayed {μ : Type} {executor : Executor μ} {memory : μ} {ledger : Ledger}
      {replayed : Replayed} :
      replay c executor memory ledger block = .ok replayed →
      replayed.receipts = receipts → Accepts c block receipts

/-- A chain with what happened to it so far. -/
structure History where
  chain : Chain
  /-- The blocks that passed, with their receipts, latest first. -/
  accepted : List (Block × List Receipt)
  /-- The blocks that the chain stores, genesis apart, latest first. -/
  added : List Block

namespace History

variable {genesis : Header} {h h' : History} {block : Block} {receipts : List Receipt}

/-- The history before anything happened. -/
def start (genesis : Header) : History := ⟨Chain.ofGenesis genesis, [], []⟩

/-- One event: a block passes, or a block that passed is added. A block that is refused changes
nothing, and neither does one whose id is stored already, whatever its transactions are. -/
inductive Step : History → History → Prop
  | accept {h : History} {block : Block} {receipts : List Receipt} :
      h.chain.Accepts block receipts →
      Step h { h with accepted := (block, receipts) :: h.accepted }
  | add {h : History} {block : Block} {receipts : List Receipt} {chain : Chain} :
      (block, receipts) ∈ h.accepted → h.chain.add block receipts = .ok chain →
      Step h { h with
        chain := chain
        added := if h.chain.contains block.header.id then h.added else block :: h.added }

/-- The histories that start from `genesis`. -/
def Run (genesis : Header) (h : History) : Prop := Relation.ReflTransGen Step (start genesis) h

/-! ## The invariant -/

/-- What is stored for a block: its header, the ids of its transactions, and receipts with which the
transactions may be included on top of the parent. -/
structure Stores (c : Chain) (s : StoredBlock) (block : Block) : Prop where
  header : s.header = block.header
  ne_genesis : s.id ≠ c.genesisId
  includable : c.Includable s.header.parentId block.transactions s.txIds s.receipts

/-- Nothing that passed has been invalidated, and everything stored has passed. -/
structure Sound (h : History) : Prop where
  wf : h.chain.WellFormed
  genesis : h.chain.genesisId.number = 0
  accepted : ∀ e ∈ h.accepted,
    ∃ ids, h.chain.Includable e.1.header.parentId e.1.transactions ids e.2
  stored : ∀ s ∈ h.chain.blocks,
    (s.id = h.chain.genesisId ∧ s.txIds = []) ∨ ∃ block ∈ h.added, Stores h.chain s block
  added : ∀ block ∈ h.added, ∃ s ∈ h.chain.blocks, Stores h.chain s block
  nodup : (h.added.map fun block => block.header.id).Nodup

theorem sound_start (hg : genesis.number = 0) : (start genesis).Sound where
  wf := Chain.wellFormed_ofGenesis genesis
  genesis := by rw [start, Chain.ofGenesis, Header.number_id, hg]
  accepted := by simp [start]
  stored s hs := by
    obtain rfl := Chain.mem_ofGenesis.mp hs
    exact Or.inl ⟨rfl, rfl⟩
  added := by simp [start]
  nodup := by simp [start]

/-- A block that passes may be included. -/
theorem includable_of_accepts {c : Chain} (ha : c.Accepts block receipts) :
    ∃ ids, c.Includable block.header.parentId block.transactions ids receipts := by
  cases ha with
  | validated hv hr =>
    obtain ⟨ledger, -, hreplay⟩ := bind_eq_ok_iff.mp hv
    obtain ⟨ids, -, hincl, -⟩ := replay_sound (Checked.ofExcept_eq_ok_iff.mp hreplay)
    exact ⟨ids, hr ▸ hincl⟩
  | replayed hreplay hr =>
    obtain ⟨ids, -, hincl, -⟩ := replay_sound hreplay
    exact ⟨ids, hr ▸ hincl⟩

theorem Stores.extends {c c' : Chain} {s : StoredBlock} (hs : Stores c s block) (wf : c.WellFormed)
    (h0 : c.genesisId.number = 0) (he : c.Extends c') : Stores c' s block where
  header := hs.header
  ne_genesis := by rw [Chain.Extends.genesisId_eq he]; exact hs.ne_genesis
  includable := hs.includable.extends wf h0 he

theorem Stores.id_eq {c : Chain} {s : StoredBlock} (hs : Stores c s block) (wf : c.WellFormed)
    (hmem : s ∈ c.blocks) : s.id = block.header.id := by
  rw [wf.id_eq s hmem, hs.header]

/-- A block that is appended is stored as it passed. -/
theorem Sound.stores_push (hs : h.Sound) {ids : List TxId} (hacc : (block, receipts) ∈ h.accepted)
    (hids : Chain.txIds block.transactions = .ok ids)
    (hfits : h.chain.Fits ⟨block.header.id, block.header, ids, receipts⟩) :
    Stores h.chain ⟨block.header.id, block.header, ids, receipts⟩ block where
  header := rfl
  ne_genesis hg := by
    have hfresh := hfits.fresh
    rw [hg, hs.wf.genesis] at hfresh
    exact absurd hfresh (by simp)
  includable := by
    obtain ⟨ids', hincl⟩ := hs.accepted _ hacc
    obtain rfl : ids = ids' := Except.ok.inj (hids.symm.trans hincl.txIds_eq)
    exact hincl

theorem Sound.push (hs : h.Sound) {ids : List TxId} (hacc : (block, receipts) ∈ h.accepted)
    (hids : Chain.txIds block.transactions = .ok ids)
    (hfits : h.chain.Fits ⟨block.header.id, block.header, ids, receipts⟩)
    (he : h.chain.Extends (h.chain.push ⟨block.header.id, block.header, ids, receipts⟩)) :
    Sound ⟨h.chain.push ⟨block.header.id, block.header, ids, receipts⟩, h.accepted,
      block :: h.added⟩ where
  wf := hs.wf.extends he
  genesis := hs.genesis
  accepted e hmem := by
    obtain ⟨ids', hincl⟩ := hs.accepted e hmem
    exact ⟨ids', hincl.extends hs.wf hs.genesis he⟩
  stored s hmem := by
    rcases Chain.mem_push.mp hmem with hold | rfl
    · rcases hs.stored s hold with hgenesis | ⟨b, hb, hstores⟩
      · exact Or.inl hgenesis
      · exact Or.inr ⟨b, List.mem_cons_of_mem block hb, hstores.extends hs.wf hs.genesis he⟩
    · have hnew := (hs.stores_push hacc hids hfits).extends hs.wf hs.genesis he
      exact Or.inr ⟨block, List.mem_cons_self, hnew⟩
  added b hb := by
    rcases List.mem_cons.mp hb with rfl | hb
    · have hnew := (hs.stores_push hacc hids hfits).extends hs.wf hs.genesis he
      exact ⟨_, Chain.mem_push.mpr (Or.inr rfl), hnew⟩
    · obtain ⟨s, hold, hstores⟩ := hs.added b hb
      exact ⟨s, Chain.mem_push.mpr (Or.inl hold), hstores.extends hs.wf hs.genesis he⟩
  nodup := by
    refine List.nodup_cons.mpr ⟨?_, hs.nodup⟩
    intro hin
    obtain ⟨b, hb, hid⟩ := List.mem_map.mp hin
    obtain ⟨s, hold, hstores⟩ := hs.added b hb
    have hcontains := Chain.contains_of_mem hold
    rw [hstores.id_eq hs.wf hold, hid, hfits.fresh] at hcontains
    exact absurd hcontains (by simp)

/-- **One event keeps a history sound.** -/
theorem Sound.step (hs : h.Sound) (hstep : Step h h') : h'.Sound := by
  cases hstep with
  | accept ha =>
    refine { hs with accepted := ?_ }
    intro e he
    rcases List.mem_cons.mp he with rfl | he
    · exact includable_of_accepts ha
    · exact hs.accepted e he
  | @add block receipts chain hacc hadd =>
    have he : h.chain.Extends chain := Relation.ReflTransGen.single ⟨block, receipts, hadd⟩
    rcases Chain.add_ok hadd with ⟨hstored, rfl⟩ | ⟨ids, hids, hfits, hchain⟩
    · rw [if_pos hstored]
      exact hs
    · subst hchain
      rw [if_neg (by simpa using hfits.fresh)]
      exact hs.push hacc hids hfits he

/-- **Every history is sound.** -/
theorem Run.sound (hg : genesis.number = 0) (run : Run genesis h) : h.Sound := by
  induction run with
  | refl => exact sound_start hg
  | tail _ hstep ih => exact ih.step hstep

theorem Run.reachable (run : Run genesis h) : Chain.Reachable genesis h.chain := by
  induction run with
  | refl => exact Relation.ReflTransGen.refl
  | tail _ hstep ih =>
    cases hstep with
    | accept _ => exact ih
    | @add block receipts chain _ hadd => exact ih.tail ⟨block, receipts, hadd⟩

/-- A block that passes and fits makes a longer history at once. -/
theorem Run.append (run : Run genesis h) (ha : h.chain.Accepts block receipts) {ids : List TxId}
    (hids : Chain.txIds block.transactions = .ok ids)
    (hfits : h.chain.Fits ⟨block.header.id, block.header, ids, receipts⟩) :
    Run genesis ⟨h.chain.push ⟨block.header.id, block.header, ids, receipts⟩,
      (block, receipts) :: h.accepted, block :: h.added⟩ := by
  have hfresh : ¬h.chain.contains block.header.id = true := by simpa using hfits.fresh
  have hstep := Step.add (h := { h with accepted := (block, receipts) :: h.accepted })
    (by simp) (Chain.add_of_fits hids hfits)
  simp only [if_neg hfresh] at hstep
  exact (run.tail (Step.accept ha)).tail hstep

/-- The history in which the sample block is replayed and added. -/
def sample : History :=
  ⟨(Chain.ofGenesis Sample.genesis).push ⟨Sample.block.header.id, Sample.block.header,
      [Sample.firstId, Sample.secondId], [Sample.receipt, Sample.receipt]⟩,
    [(Sample.block, [Sample.receipt, Sample.receipt])], [Sample.block]⟩

theorem sample_number : Sample.genesis.number = 0 := by decide

theorem sample_ne_genesis : Sample.block.header.id ≠ Sample.genesis.id := by
  intro heq
  have hparent : Sample.block.header.parentId = Sample.genesis.id := rfl
  have hnumbers := congrArg BlockId.number heq
  rw [Header.number_id, Header.number, hparent, Header.number_id, sample_number] at hnumbers
  exact absurd hnumbers (by decide)

theorem sample_run : Run Sample.genesis sample := by
  obtain ⟨fetches, hreplay⟩ := Sample.replays
  have hfresh : (Chain.ofGenesis Sample.genesis).contains Sample.block.header.id = false := by
    simp [Chain.contains, Chain.find?, Chain.ofGenesis, sample_ne_genesis.symm]
  refine Run.append (h := start Sample.genesis) Relation.ReflTransGen.refl
    (Chain.Accepts.replayed hreplay rfl) Sample.includable.txIds_eq ⟨rfl, hfresh, ?_, rfl⟩
  exact Chain.contains_iff.mpr ⟨_, Chain.find?_genesis Sample.genesis⟩

theorem sample_low : sample.chain.Low := Chain.Reachable.low sample_run.reachable (by decide)

/-! ## At most one inclusion -/

/-- Of two locations of a transaction, neither is in the ancestry of the other. -/
theorem Sound.location_eq_of_ancestor (hs : h.Sound) (low : h.chain.Low) {x : TxId}
    {l₁ l₂ : Location} (h₁ : l₁ ∈ h.chain.locations x) (h₂ : l₂ ∈ h.chain.locations x)
    (ha : h.chain.Ancestor l₁.blockId l₂.blockId) : l₁ = l₂ := by
  obtain ⟨s₁, hmem₁, hid₁, hx₁⟩ := Chain.mem_locations_iff.mp h₁
  obtain ⟨s₂, hmem₂, hid₂, hx₂⟩ := Chain.mem_locations_iff.mp h₂
  rcases hs.stored s₂ hmem₂ with ⟨-, htx⟩ | ⟨block, -, hstores⟩
  · rw [htx] at hx₂
    exact absurd hx₂ (by simp)
  rcases Relation.reflTransGen_iff_eq_or_transGen.mp ha with heq | hproper
  · obtain rfl : s₁ = s₂ :=
      List.inj_on_of_nodup_map hs.wf.nodup hmem₁ hmem₂ (by rw [hid₁, hid₂, heq])
    have hlt := (List.getElem?_eq_some_iff.mp hx₁).1
    have hindex : l₁.index = l₂.index :=
      (List.getElem?_inj hlt hstores.includable.nodup).mp (hx₁.trans hx₂.symm)
    obtain ⟨id₁, i₁⟩ := l₁
    obtain ⟨id₂, i₂⟩ := l₂
    rw [Location.mk.injEq]
    exact ⟨heq, hindex⟩
  · have hparent : h.chain.Parent l₂.blockId s₂.header.parentId := by
      rw [← hid₂]
      exact ⟨hstores.ne_genesis, s₂, hs.wf.find?_id hmem₂, rfl⟩
    have hfresh := hstores.includable.fresh x (List.mem_of_getElem? hx₂)
    have hnone := (hs.wf.lookup_eq_none_iff hs.genesis low).mp hfresh
    exact absurd (Chain.ProperAncestor.ancestor_parent hparent hproper) (hnone.2 l₁ h₁)

/-- **A transaction has one location on a fork.** Two ancestors of one block lie on one path, and
the later of the two blocks was refused the transaction of the earlier. -/
theorem Sound.location_unique (hs : h.Sound) (low : h.chain.Low) {x : TxId} {d : BlockId}
    {l₁ l₂ : Location} (h₁ : l₁ ∈ h.chain.locations x) (h₂ : l₂ ∈ h.chain.locations x)
    (ha₁ : h.chain.Ancestor l₁.blockId d) (ha₂ : h.chain.Ancestor l₂.blockId d) : l₁ = l₂ := by
  rcases ha₁.total ha₂ with ha | ha
  · exact (hs.location_eq_of_ancestor low h₂ h₁ ha).symm
  · exact hs.location_eq_of_ancestor low h₁ h₂ ha

/-- The position of a transaction in an added block is a recorded location of its id. -/
theorem Sound.mem_locations (hs : h.Sound) {i : Nat} {tx : Transaction} {x : TxId}
    (hb : block ∈ h.added) (htx : block.transactions[i]? = some tx) (hid : tx.id = .ok x) :
    ⟨block.header.id, i⟩ ∈ h.chain.locations x := by
  obtain ⟨s, hmem, hstores⟩ := hs.added block hb
  refine Chain.mem_locations_iff.mpr ⟨s, hmem, hstores.id_eq hs.wf hmem, ?_⟩
  exact Chain.txIds_getElem? hstores.includable.txIds_eq htx hid

/-- **At most one inclusion.** Of the `locations` of a transaction at most one is on a fork, and no
two transactions `added` on a fork agree in all that is signed and in their signer. -/
theorem Run.included_at_most_once (hg : genesis.number = 0) (run : Run genesis h)
    (low : h.chain.Low) (d : BlockId) :
    (∀ x, (h.chain.locations x).Pairwise fun l₁ l₂ =>
      ¬(h.chain.Ancestor l₁.blockId d ∧ h.chain.Ancestor l₂.blockId d)) ∧
    ∀ A ∈ h.added, ∀ B ∈ h.added, h.chain.Ancestor A.header.id d → h.chain.Ancestor B.header.id d →
      ∀ (i j : Nat) tx signature signer, A.transactions[i]? = some tx →
        B.transactions[j]? = some { tx with signature := signature } →
        tx.signer = .ok signer → { tx with signature := signature }.signer = .ok signer →
        A = B ∧ i = j := by
  have hs := run.sound hg
  constructor
  · intro x
    apply (hs.wf.nodup_locations x).imp_of_mem
    rintro l₁ l₂ h₁ h₂ hne ⟨ha₁, ha₂⟩
    exact hne (hs.location_unique low h₁ h₂ ha₁ ha₂)
  · intro A hA B hB haA haB i j tx signature signer hi hj hsig hsig'
    have hid : tx.id = .ok (keccak256 (tx.idBytes signer)) := by
      rw [Transaction.id, hsig]
      rfl
    have hid' : { tx with signature := signature }.id = .ok (keccak256 (tx.idBytes signer)) := by
      rw [Transaction.id, hsig']
      rfl
    have hloc := hs.location_unique low (hs.mem_locations hA hi hid) (hs.mem_locations hB hj hid')
      haA haB
    obtain ⟨hblock, rfl⟩ := Location.mk.inj hloc
    exact ⟨List.inj_on_of_nodup_map hs.nodup hA hB hblock, rfl⟩

/-- In the sample history the first payment has one location below the added block. -/
theorem sample_at_most_once :
    Sample.genesis.number = 0 ∧ Run Sample.genesis sample ∧ sample.chain.Low ∧
    (sample.chain.locations Sample.firstId).Pairwise fun l₁ l₂ =>
      ¬(sample.chain.Ancestor l₁.blockId Sample.block.header.id ∧
        sample.chain.Ancestor l₂.blockId Sample.block.header.id) :=
  ⟨sample_number, sample_run, sample_low,
    (Run.included_at_most_once sample_number sample_run sample_low Sample.block.header.id).1
      Sample.firstId⟩

/-! ## Dependencies -/

/-- **Dependencies are honoured.** Every stored block other than genesis was `added` as one block,
and what a transaction of it depends on stands earlier in it or in a `ProperAncestor`, and was not
`reverted` there. -/
theorem Run.dependencies_honoured (hg : genesis.number = 0) (run : Run genesis h) {s : StoredBlock}
    (hs : s ∈ h.chain.blocks) (hne : s.id ≠ h.chain.genesisId) :
    (∃! block, block ∈ h.added ∧ block.header.id = s.id) ∧
    ∀ block ∈ h.added, block.header.id = s.id → ∀ (i : Nat) tx d,
      block.transactions[i]? = some tx → tx.dependsOn = some d →
      ∃ loc ∈ h.chain.locations d,
        (loc.blockId = s.id ∧ loc.index < i ∨ h.chain.ProperAncestor loc.blockId s.id) ∧
        ∃ r, h.chain.receipt loc = .ok r ∧ r.reverted = false := by
  have hsound := run.sound hg
  have hunique : ∀ A ∈ h.added, ∀ B ∈ h.added, A.header.id = s.id → B.header.id = s.id → A = B := by
    intro A hA B hB hidA hidB
    exact List.inj_on_of_nodup_map hsound.nodup hA hB (hidA.trans hidB.symm)
  rcases hsound.stored s hs with ⟨hid, -⟩ | ⟨b, hb, hstores⟩
  · exact absurd hid hne
  have hb_id : b.header.id = s.id := (hstores.id_eq hsound.wf hs).symm
  refine ⟨⟨b, ⟨hb, hb_id⟩, fun b' hb' => hunique b' hb'.1 b hb hb'.2 hb_id⟩, ?_⟩
  intro block hblock hid i tx d htx hdep
  obtain rfl : block = b := hunique block hblock b hb hid hb_id
  rcases hstores.includable.depends i tx d htx hdep with
    ⟨j, r, hj, hr, hrev⟩ | ⟨loc, r, hlookup, hrec, hrev⟩
  · obtain ⟨hlt, hj⟩ := getElem?_take_eq_some.mp hj
    obtain ⟨-, hr⟩ := getElem?_take_eq_some.mp hr
    exact ⟨⟨s.id, j⟩, Chain.mem_locations_iff.mpr ⟨s, hs, rfl, hj⟩, Or.inl ⟨rfl, hlt⟩, r,
      hsound.wf.receipt_stored hs hr, hrev⟩
  · obtain ⟨hmem, hancestor⟩ := Chain.lookup_sound hsound.genesis hlookup
    have hparent : h.chain.Parent s.id s.header.parentId :=
      ⟨hne, s, hsound.wf.find?_id hs, rfl⟩
    exact ⟨loc, hmem, Or.inr (Chain.ProperAncestor.of_parent hparent hancestor), r, hrec, hrev⟩

/-- In the sample history the second transaction of the block depends on the first. -/
theorem sample_honoured : Sample.second.dependsOn = some Sample.firstId ∧
    ∃ loc ∈ sample.chain.locations Sample.firstId,
      (loc.blockId = Sample.block.header.id ∧ loc.index < 1 ∨
        sample.chain.ProperAncestor loc.blockId Sample.block.header.id) ∧
      ∃ r, sample.chain.receipt loc = .ok r ∧ r.reverted = false := by
  refine ⟨rfl, ?_⟩
  have hstored : (⟨Sample.block.header.id, Sample.block.header, [Sample.firstId, Sample.secondId],
      [Sample.receipt, Sample.receipt]⟩ : StoredBlock) ∈ sample.chain.blocks :=
    List.mem_append_right _ (List.mem_singleton.mpr rfl)
  have hhonoured := (Run.dependencies_honoured sample_number sample_run hstored sample_ne_genesis).2
  have hadded : Sample.block ∈ sample.added := List.mem_singleton.mpr rfl
  exact hhonoured Sample.block hadded rfl 1 Sample.second Sample.firstId rfl rfl

end History

end ProofOfAuthority
