import Mathlib.Data.List.Nodup
import Mathlib.Logic.Relation
import ProofOfAuthority.Chain

/-!
# Ancestry

Every stored block other than genesis names a stored parent, so a path of parents leads from it back
to genesis. `isAncestor` walks that path and gives up early, by block number; here it is compared
with the path itself (`Ancestor`), which knows nothing of numbers. Numbers are heights modulo
`2 ^ 32`, so giving up early loses no ancestor as long as heights stay below that.

* `Ancestor.total` — two ancestors of one block lie on one path.
* `isAncestor_sound`, `isAncestor_iff` — a walk that arrives has followed the path, and below height
  `2 ^ 32` it arrives at every ancestor.
* `mem_locations_iff` — the recorded locations of a transaction are its positions in stored blocks.
* `lookup_sound`, `lookup_eq_none_iff` — look-up finds an inclusion in the ancestry if there is one.
-/

namespace ProofOfAuthority.Chain

variable {c : Chain} {a b d : BlockId} {n : Nat}

/-- `a` is the parent of the stored block `b`. Genesis has none, whatever its header names. -/
def Parent (c : Chain) (b a : BlockId) : Prop :=
  b ≠ c.genesisId ∧ ∃ s, c.find? b = some s ∧ s.header.parentId = a

/-- `a` is `d` or is met on the path from `d` back to genesis. -/
def Ancestor (c : Chain) (a d : BlockId) : Prop := Relation.ReflTransGen c.Parent d a

/-- `a` is met on the path from `d` back to genesis, `d` itself apart. -/
def ProperAncestor (c : Chain) (a d : BlockId) : Prop := Relation.TransGen c.Parent d a

/-- The number of steps from a block back to genesis. -/
inductive Height (c : Chain) : BlockId → Nat → Prop
  | genesis : Height c c.genesisId 0
  | child {b a : BlockId} {n : Nat} : c.Parent b a → Height c a n → Height c b (n + 1)

/-- Every height has a block number of its own. -/
def Low (c : Chain) : Prop := ∀ id n, c.Height id n → n < UInt32.size

/-- What every addition keeps. -/
structure WellFormed (c : Chain) : Prop where
  genesis : c.contains c.genesisId
  id_eq : ∀ s ∈ c.blocks, s.id = s.header.id
  nodup : (c.blocks.map StoredBlock.id).Nodup
  parent : ∀ s ∈ c.blocks, s.id ≠ c.genesisId → c.contains s.header.parentId
  height : ∀ s ∈ c.blocks, ∃ n, c.Height s.id n
  receipts : ∀ s ∈ c.blocks, s.receipts.length = s.txIds.length

/-! ## Stored blocks -/

theorem find?_eq_some {id : BlockId} {s : StoredBlock} (h : c.find? id = some s) :
    s ∈ c.blocks ∧ s.id = id :=
  ⟨List.mem_of_find?_eq_some h, by simpa using List.find?_some h⟩

theorem contains_iff {id : BlockId} : c.contains id = true ↔ ∃ s, c.find? id = some s :=
  Option.isSome_iff_exists

theorem contains_iff_mem {id : BlockId} : c.contains id = true ↔ ∃ s ∈ c.blocks, s.id = id := by
  rw [contains, find?, List.find?_isSome]
  simp

theorem contains_of_mem {s : StoredBlock} (h : s ∈ c.blocks) : c.contains s.id = true :=
  contains_iff_mem.mpr ⟨s, h, rfl⟩

/-- Ids are keys: the block stored under the id of a stored block is that block. -/
theorem WellFormed.find?_id (wf : c.WellFormed) {s : StoredBlock} (h : s ∈ c.blocks) :
    c.find? s.id = some s := by
  obtain ⟨t, ht⟩ := contains_iff.mp (contains_of_mem h)
  obtain ⟨hmem, hid⟩ := find?_eq_some ht
  rw [ht, List.inj_on_of_nodup_map wf.nodup hmem h hid]

theorem WellFormed.exists_height (wf : c.WellFormed) (h : c.contains d = true) :
    ∃ n, c.Height d n := by
  obtain ⟨s, hs, rfl⟩ := contains_iff_mem.mp h
  exact wf.height s hs

/-! ## Paths -/

theorem Parent.contains_child (h : c.Parent b a) : c.contains b = true :=
  contains_iff.mpr ⟨_, h.2.choose_spec.1⟩

theorem WellFormed.contains_parent (wf : c.WellFormed) (h : c.Parent b a) :
    c.contains a = true := by
  obtain ⟨hne, s, hs, rfl⟩ := h
  obtain ⟨hmem, rfl⟩ := find?_eq_some hs
  exact wf.parent s hmem hne

/-- A block's number is one more than its parent's. -/
theorem WellFormed.number_child (wf : c.WellFormed) (h : c.Parent b a) :
    b.number = a.number + 1 := by
  obtain ⟨-, s, hs, rfl⟩ := h
  obtain ⟨hmem, rfl⟩ := find?_eq_some hs
  rw [wf.id_eq s hmem, Header.number_id, Header.number]

theorem parent_unique : Relator.RightUnique c.Parent := by
  rintro b a a' ⟨-, s, hs, rfl⟩ ⟨-, s', hs', rfl⟩
  rw [hs] at hs'
  cases hs'
  rfl

/-- **Two ancestors of one block lie on one path.** -/
theorem Ancestor.total (ha : c.Ancestor a d) (hb : c.Ancestor b d) :
    c.Ancestor b a ∨ c.Ancestor a b :=
  Relation.ReflTransGen.total_of_right_unique parent_unique ha hb

theorem WellFormed.contains_ancestor (wf : c.WellFormed) (hd : c.contains d = true)
    (h : c.Ancestor a d) : c.contains a = true := by
  induction h with
  | refl => exact hd
  | tail _ hp _ => exact wf.contains_parent hp

theorem ProperAncestor.of_parent {p : BlockId} (hp : c.Parent d p) (h : c.Ancestor a p) :
    c.ProperAncestor a d :=
  Relation.TransGen.head' hp h

/-- A proper ancestor is an ancestor of the parent. -/
theorem ProperAncestor.ancestor_parent {p : BlockId} (hp : c.Parent d p)
    (h : c.ProperAncestor a d) : c.Ancestor a p := by
  obtain ⟨q, hq, h⟩ := Relation.TransGen.head'_iff.mp h
  rwa [parent_unique hp hq]

/-! ## Heights and numbers -/

theorem Height.of_ancestor (h : c.Ancestor a d) (hd : c.Height d n) :
    ∃ m, m ≤ n ∧ c.Height a m := by
  induction h with
  | refl => exact ⟨n, Nat.le_refl n, hd⟩
  | tail _ hp ih =>
    obtain ⟨m, hm, hb⟩ := ih
    cases hb with
    | genesis => exact absurd rfl hp.1
    | child hp' ha =>
      obtain rfl := parent_unique hp hp'
      exact ⟨_, by omega, ha⟩

/-- Below height `2 ^ 32` the number of a block is its height. -/
theorem WellFormed.number_eq (wf : c.WellFormed) (h0 : c.genesisId.number = 0) (low : c.Low)
    (h : c.Height d n) : d.number.toNat = n := by
  induction h with
  | genesis => rw [h0]; rfl
  | @child b a n hp ha ih =>
    have hlt := low b (n + 1) (Height.child hp ha)
    rw [wf.number_child hp, UInt32.toNat_add, ih]
    exact Nat.mod_eq_of_lt hlt

/-! ## The walk -/

/-- A block with a larger number than another is not genesis. -/
theorem ne_genesis (h0 : c.genesisId.number = 0) (h : ¬d.number ≤ a.number) : d ≠ c.genesisId := by
  rintro rfl
  rw [h0] at h
  exact h (UInt32.le_iff_toNat_le.mpr (Nat.zero_le _))

theorem walk_sound (h0 : c.genesisId.number = 0) {steps : Nat} (h : c.walk a steps d = some true) :
    c.Ancestor a d := by
  induction steps generalizing d with
  | zero => simp [walk] at h
  | succ steps ih =>
    rw [walk] at h
    by_cases hd : d = a
    · subst hd
      exact Relation.ReflTransGen.refl
    · by_cases hn : d.number ≤ a.number
      · simp [hd, hn] at h
      · rw [if_neg hd, if_neg hn] at h
        cases hs : c.find? d with
        | none => simp [hs] at h
        | some s =>
          rw [hs] at h
          exact Relation.ReflTransGen.head ⟨ne_genesis h0 hn, s, hs, rfl⟩ (ih h)

/-- A walk that arrives has followed the path of parents. -/
theorem isAncestor_sound (h0 : c.genesisId.number = 0) (h : c.isAncestor a d = true) :
    c.Ancestor a d := by
  unfold isAncestor at h
  cases hw : c.walk a (d.number.toNat - a.number.toNat + 1) d with
  | none => rw [hw] at h; exact absurd h (by simp)
  | some r =>
    rw [hw] at h
    obtain rfl : r = true := h
    exact walk_sound h0 hw

/-- The walk is lost at once if the number of another block is no smaller. -/
theorem isAncestor_of_number_le (hne : d ≠ a) (hn : d.number ≤ a.number) :
    c.isAncestor a d = false := by
  rw [isAncestor, walk, if_neg hne, if_pos hn, Option.getD_some]

theorem WellFormed.walk_complete (wf : c.WellFormed) (h0 : c.genesisId.number = 0) (low : c.Low)
    (h : c.Ancestor a d) (hd : c.contains d = true) {steps : Nat}
    (hsteps : d.number.toNat - a.number.toNat < steps) : c.walk a steps d = some true := by
  induction h using Relation.ReflTransGen.head_induction_on generalizing steps with
  | refl =>
    obtain ⟨k, rfl⟩ : ∃ k, steps = k + 1 := ⟨steps - 1, by omega⟩
    simp [walk]
  | @head d p hp hap ih =>
    obtain ⟨k, rfl⟩ : ∃ k, steps = k + 1 := ⟨steps - 1, by omega⟩
    have hstored := wf.contains_parent hp
    obtain ⟨n, hn⟩ := wf.exists_height hstored
    obtain ⟨m, hmn, hm⟩ := Height.of_ancestor hap hn
    have hpn := wf.number_eq h0 low hn
    have han := wf.number_eq h0 low hm
    have hdn := wf.number_eq h0 low (Height.child hp hn)
    have hne : d ≠ a := by
      rintro rfl
      omega
    have hgt : ¬d.number ≤ a.number := by
      rw [UInt32.le_iff_toNat_le]
      omega
    obtain ⟨-, s, hs, rfl⟩ := hp
    rw [walk, if_neg hne, if_neg hgt, hs]
    exact ih hstored (by omega)

/-- **The walk decides ancestry** below height `2 ^ 32`. -/
theorem WellFormed.isAncestor_iff (wf : c.WellFormed) (h0 : c.genesisId.number = 0) (low : c.Low)
    (hd : c.contains d = true) : c.isAncestor a d = true ↔ c.Ancestor a d := by
  constructor
  · exact isAncestor_sound h0
  · intro h
    rw [isAncestor, wf.walk_complete h0 low h hd (Nat.lt_succ_self _)]
    rfl

/-! ## Look-up -/

theorem mem_stored_locations {s : StoredBlock} {x : TxId} {loc : Location} :
    loc ∈ StoredBlock.locations s x ↔ s.id = loc.blockId ∧ s.txIds[loc.index]? = some x := by
  obtain ⟨id, i⟩ := loc
  simp only [StoredBlock.locations, List.mem_map, List.mem_filter, Prod.exists,
    List.mem_zipIdx_iff_getElem?, decide_eq_true_eq, Location.mk.injEq]
  constructor
  · rintro ⟨y, j, ⟨hy, rfl⟩, hid, rfl⟩
    exact ⟨hid, hy⟩
  · rintro ⟨hid, hx⟩
    exact ⟨x, i, ⟨hx, rfl⟩, hid, rfl⟩

/-- The recorded locations of a transaction are its positions in stored blocks. -/
theorem mem_locations_iff {x : TxId} {loc : Location} :
    loc ∈ c.locations x ↔ ∃ s ∈ c.blocks, s.id = loc.blockId ∧ s.txIds[loc.index]? = some x := by
  simp only [locations, List.mem_flatMap, mem_stored_locations]

/-- Every recorded location is recorded once. -/
theorem WellFormed.nodup_locations (wf : c.WellFormed) (x : TxId) : (c.locations x).Nodup := by
  refine List.nodup_flatMap.mpr ⟨?_, ?_⟩
  · intro s _
    have hzip : s.txIds.zipIdx.Nodup := by
      refine List.Nodup.of_map Prod.snd ?_
      rw [List.zipIdx_map_snd]
      exact List.nodup_range'
    refine List.Nodup.map_on ?_ (hzip.filter _)
    rintro ⟨y, i⟩ hy ⟨z, j⟩ hz hij
    simp only [List.mem_filter, decide_eq_true_eq] at hy hz
    obtain rfl : i = j := congrArg Location.index hij
    rw [hy.2, hz.2]
  · refine (List.pairwise_map.mp wf.nodup).imp ?_
    intro s t hne loc hs ht
    exact hne ((mem_stored_locations.mp hs).1.trans (mem_stored_locations.mp ht).1.symm)

theorem contains_of_lookup {x : TxId} {r : Option Location} (h : c.lookup d x = .ok r) :
    c.contains d = true ∧ (c.locations x).find? (fun loc => c.isAncestor loc.blockId d) = r := by
  unfold lookup at h
  by_cases hd : c.contains d = true
  · rw [if_pos hd] at h
    exact ⟨hd, Except.ok.inj h⟩
  · simp [hd] at h

/-- What look-up finds is a recorded location in the ancestry. -/
theorem lookup_sound (h0 : c.genesisId.number = 0) {x : TxId} {loc : Location}
    (h : c.lookup d x = .ok (some loc)) : loc ∈ c.locations x ∧ c.Ancestor loc.blockId d := by
  obtain ⟨-, hf⟩ := contains_of_lookup h
  have hwalk := List.find?_some hf
  exact ⟨List.mem_of_find?_eq_some hf, isAncestor_sound h0 hwalk⟩

/-- **Look-up misses nothing**: below height `2 ^ 32` it finds no location iff the ancestry has
none. -/
theorem WellFormed.lookup_eq_none_iff (wf : c.WellFormed) (h0 : c.genesisId.number = 0)
    (low : c.Low) {x : TxId} : c.lookup d x = .ok none ↔
      c.contains d = true ∧ ∀ loc ∈ c.locations x, ¬c.Ancestor loc.blockId d := by
  constructor
  · intro h
    obtain ⟨hd, hf⟩ := contains_of_lookup h
    refine ⟨hd, ?_⟩
    intro loc hloc ha
    exact List.find?_eq_none.mp hf loc hloc ((wf.isAncestor_iff h0 low hd).mpr ha)
  · rintro ⟨hd, hnone⟩
    rw [lookup, if_pos hd, List.find?_eq_none.mpr]
    intro loc hloc ha
    exact hnone loc hloc (isAncestor_sound h0 ha)

/-- The receipt at a location in a stored block is the one stored there. -/
theorem WellFormed.receipt_stored (wf : c.WellFormed) {s : StoredBlock} (hs : s ∈ c.blocks)
    {i : Nat} {r : Receipt} (hr : s.receipts[i]? = some r) : c.receipt ⟨s.id, i⟩ = .ok r := by
  rw [receipt, wf.find?_id hs, Option.bind_some, hr]

end ProofOfAuthority.Chain
