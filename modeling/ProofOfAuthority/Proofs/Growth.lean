import Mathlib.Data.List.Forall2
import ProofOfAuthority.Proofs.Ancestry

/-!
# How a chain grows

An addition appends one block to the store or changes nothing (`add_ok`). Whatever is stored stays
as it is, and the ancestry of a stored block is closed: a block added later is on no path from it.
So everything that a look-up below a stored block answers, it answers for good, no matter which
forks grow in the meantime.

* `Reachable.wellFormed` — the chains that additions make are well-formed.
* `Extends.lookup_eq`, `Extends.receipt_eq` — look-ups below stored blocks and stored receipts never
  change. No bound on heights is needed.
-/

namespace ProofOfAuthority.Chain

variable {c c' : Chain} {a b d : BlockId} {s : StoredBlock}

/-- The chain with one more stored block. -/
def push (c : Chain) (s : StoredBlock) : Chain := { c with blocks := c.blocks ++ [s] }

/-- `c'` is `c` after one addition. -/
def Grows (c c' : Chain) : Prop := ∃ block receipts, c.add block receipts = .ok c'

/-- `c'` is `c` after any number of additions. Refused ones change nothing. -/
def Extends (c c' : Chain) : Prop := Relation.ReflTransGen Grows c c'

/-- `c` is made by additions to the chain that holds `genesis` only. -/
def Reachable (genesis : Header) (c : Chain) : Prop := Extends (ofGenesis genesis) c

/-- What makes a stored block one that an addition may append. -/
structure Fits (c : Chain) (s : StoredBlock) : Prop where
  id_eq : s.id = s.header.id
  fresh : c.contains s.id = false
  parent : c.contains s.header.parentId = true
  receipts : s.receipts.length = s.txIds.length

/-! ## One addition -/

theorem txIds_eq_ok_iff {txs : List Transaction} {ids : List TxId} :
    txIds txs = .ok ids ↔ List.Forall₂ (fun tx id => tx.id = .ok id) txs ids := by
  unfold txIds
  induction txs generalizing ids with
  | nil => simp [pure, Except.pure, eq_comm]
  | cons tx txs ih =>
    rw [List.mapM_cons, List.forall₂_cons_left_iff]
    cases htx : tx.id with
    | error cause => simp [bind, Except.bind]
    | ok id =>
      simp only [← ih, bind, Except.bind, Except.ok.injEq]
      cases txs.mapM Transaction.id with
      | error cause => simp
      | ok rest => simp [pure, Except.pure, eq_comm]

/-- **What an addition does.** A block that is stored already changes nothing, any other is
appended with the ids of its transactions. -/
theorem add_ok {block : Block} {receipts : List Receipt} (h : c.add block receipts = .ok c') :
    (c.contains block.header.id = true ∧ c' = c) ∨
      ∃ ids, txIds block.transactions = .ok ids ∧
        c.Fits ⟨block.header.id, block.header, ids, receipts⟩ ∧
        c' = c.push ⟨block.header.id, block.header, ids, receipts⟩ := by
  unfold add at h
  by_cases hlen : receipts.length = block.transactions.length
  · rw [if_neg (not_not.mpr hlen)] at h
    cases hids : txIds block.transactions with
    | error cause => simp [hids] at h
    | ok ids =>
      simp only [hids] at h
      by_cases hparent : c.contains block.header.parentId = true
      · rw [if_pos hparent] at h
        by_cases hstored : c.contains block.header.id = true
        · rw [if_pos hstored] at h
          exact Or.inl ⟨hstored, (Except.ok.inj h).symm⟩
        · rw [if_neg hstored] at h
          have hcount : receipts.length = ids.length := by
            rw [hlen, (txIds_eq_ok_iff.mp hids).length_eq]
          exact Or.inr ⟨ids, rfl, ⟨rfl, by simpa using hstored, hparent, hcount⟩,
            (Except.ok.inj h).symm⟩
      · rw [if_neg hparent] at h
        exact absurd h (by simp)
  · rw [if_pos hlen] at h
    exact absurd h (by simp)

/-- A block that fits is appended. -/
theorem add_of_fits {block : Block} {ids : List TxId} {receipts : List Receipt}
    (hids : txIds block.transactions = .ok ids)
    (hfits : c.Fits ⟨block.header.id, block.header, ids, receipts⟩) :
    c.add block receipts = .ok (c.push ⟨block.header.id, block.header, ids, receipts⟩) := by
  have hcount : receipts.length = block.transactions.length := by
    rw [(txIds_eq_ok_iff.mp hids).length_eq]
    exact hfits.receipts
  have hfresh : ¬c.contains block.header.id = true := by simpa using hfits.fresh
  unfold add
  rw [if_neg (by simpa using hcount), hids]
  simp only [if_neg hfresh, if_pos (show c.contains block.header.parentId = true from hfits.parent)]
  rfl

theorem Grows.cases (h : c.Grows c') : c' = c ∨ ∃ s, c.Fits s ∧ c' = c.push s := by
  obtain ⟨block, receipts, h⟩ := h
  rcases add_ok h with ⟨-, h⟩ | ⟨ids, -, hfits, h⟩
  · exact Or.inl h
  · exact Or.inr ⟨_, hfits, h⟩

/-! ## What an appended block leaves alone -/

theorem find?_push_of_contains {id : BlockId} (h : c.contains id = true) :
    (c.push s).find? id = c.find? id := by
  obtain ⟨t, ht⟩ := contains_iff.mp h
  rw [ht]
  unfold find? at ht
  rw [find?, push, List.find?_append, ht, Option.some_or]

theorem contains_push {id : BlockId} :
    (c.push s).contains id = true ↔ c.contains id = true ∨ s.id = id := by
  simp only [contains_iff_mem, push, List.mem_append, List.mem_singleton, or_and_right, exists_or,
    exists_eq_left]

theorem parent_push_iff (hb : c.contains b = true) : (c.push s).Parent b a ↔ c.Parent b a := by
  unfold Parent
  rw [find?_push_of_contains hb]
  rfl

theorem Parent.push (h : c.Parent b a) : (c.push s).Parent b a :=
  (parent_push_iff h.contains_child).mpr h

theorem Height.push {n : Nat} (h : c.Height d n) : (c.push s).Height d n := by
  induction h with
  | genesis => exact Height.genesis
  | child hp _ ih => exact Height.child hp.push ih

/-- The appended block comes one step above its parent. -/
theorem WellFormed.parent_push_self (wf : c.WellFormed) (hs : c.Fits s) :
    (c.push s).Parent s.id s.header.parentId := by
  refine ⟨?_, s, ?_, rfl⟩
  · intro hg
    have hfresh := hs.fresh
    rw [hg] at hfresh
    exact absurd wf.genesis (by rw [show c.contains c.genesisId = false from hfresh]; simp)
  · have hnone : c.find? s.id = none := by simpa [contains] using hs.fresh
    unfold find? at hnone
    rw [find?, Chain.push, List.find?_append, hnone]
    simp

theorem mem_push {t : StoredBlock} : t ∈ (c.push s).blocks ↔ t ∈ c.blocks ∨ t = s := by
  rw [push, List.mem_append, List.mem_singleton]

theorem Fits.not_mem (hs : c.Fits s) : s.id ∉ c.blocks.map StoredBlock.id := by
  intro hmem
  have hstored := contains_iff_mem.mpr (List.mem_map.mp hmem)
  rw [hs.fresh] at hstored
  exact absurd hstored (by simp)

/-- **An appended block keeps a chain well-formed.** -/
theorem WellFormed.push (wf : c.WellFormed) (hs : c.Fits s) : (c.push s).WellFormed where
  genesis := contains_push.mpr (Or.inl wf.genesis)
  id_eq t ht := by
    rcases mem_push.mp ht with ht | rfl
    · exact wf.id_eq t ht
    · exact hs.id_eq
  nodup := by
    rw [Chain.push, List.map_append, List.map_singleton, ← List.concat_eq_append]
    exact wf.nodup.concat hs.not_mem
  parent t ht hne := by
    rcases mem_push.mp ht with ht | rfl
    · exact contains_push.mpr (Or.inl (wf.parent t ht hne))
    · exact contains_push.mpr (Or.inl hs.parent)
  height t ht := by
    rcases mem_push.mp ht with ht | rfl
    · obtain ⟨n, hn⟩ := wf.height t ht
      exact ⟨n, hn.push⟩
    · obtain ⟨n, hn⟩ := wf.exists_height hs.parent
      exact ⟨n + 1, Height.child (wf.parent_push_self hs) hn.push⟩
  receipts t ht := by
    rcases mem_push.mp ht with ht | rfl
    · exact wf.receipts t ht
    · exact hs.receipts

/-- A walk from a stored block does not see the appended block: it stops at genesis at the latest,
and all it meets before is stored. -/
theorem WellFormed.walk_push (wf : c.WellFormed) (h0 : c.genesisId.number = 0)
    (hd : c.contains d = true) (steps : Nat) : (c.push s).walk a steps d = c.walk a steps d := by
  induction steps generalizing d with
  | zero => rfl
  | succ steps ih =>
    rw [walk, walk, find?_push_of_contains hd]
    by_cases hn : d.number ≤ a.number
    · simp [hn]
    · obtain ⟨t, ht⟩ := contains_iff.mp hd
      have hrest := ih (wf.contains_parent ⟨ne_genesis h0 hn, t, ht, rfl⟩)
      simp [hn, ht, hrest]

theorem WellFormed.isAncestor_push (wf : c.WellFormed) (h0 : c.genesisId.number = 0)
    (hd : c.contains d = true) : (c.push s).isAncestor a d = c.isAncestor a d := by
  unfold isAncestor
  rw [wf.walk_push h0 hd]

/-- Nothing that is not stored is an ancestor. -/
theorem WellFormed.isAncestor_eq_false (wf : c.WellFormed) (h0 : c.genesisId.number = 0)
    (hd : c.contains d = true) (ha : c.contains a = false) : c.isAncestor a d = false := by
  cases h : c.isAncestor a d with
  | false => rfl
  | true =>
    rw [wf.contains_ancestor hd (isAncestor_sound h0 h)] at ha
    exact absurd ha (by simp)

theorem locations_push (x : TxId) :
    (c.push s).locations x = c.locations x ++ StoredBlock.locations s x := by
  simp [locations, push]

/-- **Look-up below a stored block does not see the appended block.** -/
theorem WellFormed.lookup_push (wf : c.WellFormed) (h0 : c.genesisId.number = 0) (hs : c.Fits s)
    (hd : c.contains d = true) (x : TxId) : (c.push s).lookup d x = c.lookup d x := by
  have hnew : (StoredBlock.locations s x).find? (fun loc => c.isAncestor loc.blockId d) = none := by
    rw [List.find?_eq_none]
    intro loc hloc
    rw [← (mem_stored_locations.mp hloc).1, wf.isAncestor_eq_false h0 hd hs.fresh]
    exact Bool.false_ne_true
  rw [lookup, lookup, if_pos hd, if_pos (contains_push.mpr (Or.inl hd)), locations_push]
  simp only [wf.isAncestor_push h0 hd]
  rw [List.find?_append, hnew, Option.or_none]

/-! ## Any number of additions -/

theorem mem_ofGenesis {genesis : Header} : s ∈ (ofGenesis genesis).blocks ↔
    s = ⟨genesis.id, genesis, [], []⟩ :=
  List.mem_singleton

theorem wellFormed_ofGenesis (genesis : Header) : (ofGenesis genesis).WellFormed where
  genesis := contains_iff.mpr ⟨_, find?_genesis genesis⟩
  id_eq s hs := by rw [mem_ofGenesis.mp hs]
  nodup := by simp [ofGenesis]
  parent s hs hne := by
    rw [mem_ofGenesis.mp hs] at hne
    exact absurd rfl hne
  height s hs := by
    rw [mem_ofGenesis.mp hs]
    exact ⟨0, Height.genesis⟩
  receipts s hs := by
    rw [mem_ofGenesis.mp hs]
    rfl

/-- Nothing is found in a chain that holds genesis only. -/
theorem lookup_ofGenesis (genesis : Header) (x : TxId) :
    (ofGenesis genesis).lookup genesis.id x = .ok none := by
  rw [lookup, if_pos (contains_iff.mpr ⟨_, find?_genesis genesis⟩)]
  rfl

theorem WellFormed.grows (wf : c.WellFormed) (h : c.Grows c') : c'.WellFormed := by
  rcases h.cases with rfl | ⟨s, hs, rfl⟩
  · exact wf
  · exact wf.push hs

theorem WellFormed.extends (wf : c.WellFormed) (h : c.Extends c') : c'.WellFormed := by
  induction h with
  | refl => exact wf
  | tail _ hg ih => exact ih.grows hg

theorem Grows.genesisId_eq (h : c.Grows c') : c'.genesisId = c.genesisId := by
  rcases h.cases with rfl | ⟨s, -, rfl⟩ <;> rfl

theorem Extends.genesisId_eq (h : c.Extends c') : c'.genesisId = c.genesisId := by
  induction h with
  | refl => rfl
  | tail _ hg ih => rw [hg.genesisId_eq, ih]

theorem Grows.contains (h : c.Grows c') {id : BlockId} (hid : c.contains id = true) :
    c'.contains id = true := by
  rcases h.cases with rfl | ⟨s, -, rfl⟩
  · exact hid
  · exact contains_push.mpr (Or.inl hid)

theorem Extends.contains (h : c.Extends c') {id : BlockId} (hid : c.contains id = true) :
    c'.contains id = true := by
  induction h with
  | refl => exact hid
  | tail _ hg ih => exact hg.contains ih

/-- A stored block stays as it is. -/
theorem Extends.find?_eq (h : c.Extends c') {id : BlockId} (hid : c.contains id = true) :
    c'.find? id = c.find? id := by
  induction h with
  | refl => rfl
  | tail he hg ih =>
    rcases hg.cases with rfl | ⟨s, -, rfl⟩
    · exact ih
    · rw [find?_push_of_contains (Extends.contains he hid), ih]

/-- **Look-up below a stored block never changes.** -/
theorem Extends.lookup_eq (wf : c.WellFormed) (h0 : c.genesisId.number = 0) (h : c.Extends c')
    (hd : c.contains d = true) (x : TxId) : c'.lookup d x = c.lookup d x := by
  induction h with
  | refl => rfl
  | @tail e e' he hg ih =>
    have hwf := wf.extends he
    have hgen : e.genesisId.number = 0 := by rw [Extends.genesisId_eq he, h0]
    rcases hg.cases with rfl | ⟨s, hs, rfl⟩
    · exact ih
    · rw [hwf.lookup_push hgen hs (Extends.contains he hd), ih]

/-- **A stored receipt never changes.** -/
theorem Extends.receipt_eq {loc : Location} (h : c.Extends c')
    (hloc : c.contains loc.blockId = true) : c'.receipt loc = c.receipt loc := by
  rw [receipt, Extends.find?_eq h hloc, receipt]

/-- **The chains that additions make are well-formed.** -/
theorem Reachable.wellFormed {genesis : Header} (h : Reachable genesis c) : c.WellFormed :=
  (wellFormed_ofGenesis genesis).extends h

theorem Reachable.genesis_number {genesis : Header} (hg : genesis.number = 0)
    (h : Reachable genesis c) : c.genesisId.number = 0 := by
  rw [Extends.genesisId_eq h, ofGenesis, Header.number_id, hg]

/-! ## Heights -/

/-- The appended block is the only one with a new height, and that is one more than its parent's. -/
theorem WellFormed.height_push (wf : c.WellFormed) (hs : c.Fits s) {n : Nat}
    (h : (c.push s).Height d n) : c.Height d n ∨ ∃ m, c.Height s.header.parentId m ∧ n = m + 1 := by
  have hstored : ∀ {d n}, c.contains d = true → (c.push s).Height d n → c.Height d n := by
    intro d n hd h
    induction h with
    | genesis => exact Height.genesis
    | child hp _ ih =>
      have hp' := (parent_push_iff hd).mp hp
      exact Height.child hp' (ih (wf.contains_parent hp'))
  cases h with
  | genesis => exact Or.inl Height.genesis
  | @child _ a m hp ha =>
    rcases contains_push.mp hp.contains_child with hd | rfl
    · exact Or.inl (hstored hd (Height.child hp ha))
    · obtain rfl := parent_unique hp (wf.parent_push_self hs)
      exact Or.inr ⟨m, hstored hs.parent ha, rfl⟩

/-- No block is as high as there are blocks. -/
theorem Reachable.height_lt {genesis : Header} (h : Reachable genesis c) {n : Nat}
    (hd : c.Height d n) : n < c.blocks.length := by
  induction h generalizing d n with
  | refl =>
    cases hd with
    | genesis => simp [ofGenesis]
    | @child _ a _ hp _ =>
      obtain ⟨hne, t, ht, -⟩ := hp
      obtain ⟨hmem, rfl⟩ := find?_eq_some ht
      rw [mem_ofGenesis.mp hmem] at hne
      exact absurd rfl hne
  | @tail e e' he hg ih =>
    rcases hg.cases with rfl | ⟨s, hs, rfl⟩
    · exact ih hd
    · have hlen : (e.push s).blocks.length = e.blocks.length + 1 := by simp [Chain.push]
      rcases (Reachable.wellFormed he).height_push hs hd with hd | ⟨m, hm, rfl⟩
      · have := ih hd
        omega
      · have := ih hm
        omega

/-- Fewer blocks than there are block numbers stay below the last number. -/
theorem Reachable.low {genesis : Header} (h : Reachable genesis c)
    (hlen : c.blocks.length ≤ UInt32.size) : c.Low :=
  fun _ _ hd => Nat.lt_of_lt_of_le (h.height_lt hd) hlen

end ProofOfAuthority.Chain
