import ProofOfAuthority.Proofs.InPlace

/-!
# The walk back ends

Whether one block is behind another is found out by walking from parent to parent, and nothing
counts the steps (`turn`, `Walks`). That parents lead back to genesis cannot be relied on: ids are
digests, genesis may have any number and names a parent too, and numbers begin again behind the
last. What can be relied on is that a header is stored under its own id (`Keyed`), so that the
number of a block, which is part of its id, is one more than that of its parent. The walk stops at
the number it is looking for, so each step brings it closer, and it is over before numbers begin
again. The bound on steps that `isAncestor` is given is therefore never met.

* `walk_eq_some_iff` — a walk with enough steps is the walk that counts none.
* `not_walks_of_own_parent` — that links alone do not make it end.
* `Keyed.exists_walks` — the walk ends within the difference of the numbers.
* `Walks.trail`, `Keyed.walks_of_trail` — where it arrives.
* `walk_ends` — all of this, for the chains that additions make, whatever their genesis.
-/

namespace ProofOfAuthority.Chain

/-- One turn of the loop of `ChainStore::is_ancestor`: its verdict, or the block to go on with. -/
def turn (c : Chain) (ancestor cursor : BlockId) : Bool ⊕ BlockId :=
  if cursor = ancestor then .inl true
  else if cursor.number ≤ ancestor.number then .inl false
  else
    match c.header? cursor with
    | none => .inl false
    | some header => .inr header.parentId

/-- The walk from a block towards `ancestor` ends after so many steps back, with this verdict. -/
inductive Walks (c : Chain) (ancestor : BlockId) : BlockId → Nat → Bool → Prop
  | ends {cursor : BlockId} {verdict : Bool} :
      c.turn ancestor cursor = .inl verdict → Walks c ancestor cursor 0 verdict
  | back {cursor parent : BlockId} {steps : Nat} {verdict : Bool} :
      c.turn ancestor cursor = .inr parent → Walks c ancestor parent steps verdict →
        Walks c ancestor cursor (steps + 1) verdict

/-- `a` is met `k` steps back from `d`, from one parent that a stored header names to the next. -/
inductive Trail (c : Chain) : (k : Nat) → (d a : BlockId) → Prop
  | here {d : BlockId} : Trail c 0 d d
  | back {k : Nat} {d a : BlockId} {header : Header} :
      c.header? d = some header → Trail c k header.parentId a → Trail c (k + 1) d a

/-- Every header is stored under its own id. -/
def Keyed (c : Chain) : Prop := ∀ id header, c.header? id = some header → header.id = id

variable {c : Chain} {a d p : BlockId} {header : Header} {steps steps' k : Nat}
  {verdict verdict' : Bool}

/-! ## One turn -/

theorem turn_eq_true_iff : c.turn a d = .inl true ↔ d = a := by
  unfold turn
  by_cases hd : d = a
  · simp [hd]
  · by_cases hn : d.number ≤ a.number
    · simp [hd, hn]
    · cases c.header? d <;> simp [hd, hn]

/-- The walk goes on from a block whose number is larger, if its header is stored. -/
theorem turn_eq_inr_iff : c.turn a d = .inr p ↔
    a.number < d.number ∧ ∃ header, c.header? d = some header ∧ header.parentId = p := by
  unfold turn
  by_cases hn : d.number ≤ a.number
  · have hlt : ¬a.number < d.number := UInt32.not_lt.mpr hn
    by_cases hd : d = a <;> simp [hd, hn, hlt]
  · have hlt : a.number < d.number := UInt32.not_le.mp hn
    have hd : d ≠ a := by
      rintro rfl
      exact hn (UInt32.le_refl _)
    cases c.header? d <;> simp [hd, hn, hlt]

/-! ## The walk -/

theorem Walks.unique (h : c.Walks a d steps verdict) (h' : c.Walks a d steps' verdict') :
    steps' = steps ∧ verdict' = verdict := by
  induction h generalizing steps' with
  | ends hturn =>
    cases h' with
    | ends hturn' => exact ⟨rfl, Sum.inl.inj (hturn'.symm.trans hturn)⟩
    | back hturn' _ => exact absurd (hturn.symm.trans hturn') (by simp)
  | back hturn _ ih =>
    cases h' with
    | ends hturn' => exact absurd (hturn.symm.trans hturn') (by simp)
    | back hturn' hrest' =>
      obtain rfl := Sum.inr.inj (hturn.symm.trans hturn')
      obtain ⟨rfl, rfl⟩ := ih hrest'
      exact ⟨rfl, rfl⟩

theorem walk_succ (c : Chain) (a d : BlockId) (steps : Nat) : c.walk a (steps + 1) d =
    match c.turn a d with
    | .inl verdict => some verdict
    | .inr parent => c.walk a steps parent := by
  rw [walk, turn, header?]
  by_cases hd : d = a
  · simp [hd]
  · by_cases hn : d.number ≤ a.number
    · simp [hd, hn]
    · cases c.find? d <;> simp [hd, hn]

/-- **A walk that is allowed enough steps** is the walk that counts none. -/
theorem walk_eq_some_iff : c.walk a steps d = some verdict ↔
    ∃ k, k < steps ∧ c.Walks a d k verdict := by
  induction steps generalizing d with
  | zero => simp [walk]
  | succ steps ih =>
    rw [walk_succ]
    cases hturn : c.turn a d with
    | inl verdict' =>
      constructor
      · rintro h
        obtain rfl := Option.some_inj.mp h
        exact ⟨0, Nat.succ_pos steps, .ends hturn⟩
      · rintro ⟨k, -, hwalk⟩
        exact congrArg some (hwalk.unique (.ends hturn)).2
    | inr parent =>
      constructor
      · intro h
        obtain ⟨k, hk, hwalk⟩ := ih.mp h
        exact ⟨k + 1, Nat.succ_lt_succ hk, .back hturn hwalk⟩
      · rintro ⟨k, hk, hwalk⟩
        cases hwalk with
        | ends hturn' => exact absurd (hturn.symm.trans hturn') (by simp)
        | back hturn' hrest =>
          obtain rfl := Sum.inr.inj (hturn.symm.trans hturn')
          exact ih.mpr ⟨_, Nat.lt_of_succ_lt_succ hk, hrest⟩

/-- A walk that arrives has followed the parents that stored headers name. -/
theorem Walks.trail (h : c.Walks a d steps true) : c.Trail steps d a := by
  generalize hverdict : true = verdict at h
  induction h with
  | ends hturn =>
    rw [← hverdict] at hturn
    obtain rfl := turn_eq_true_iff.mp hturn
    exact .here
  | back hturn _ ih =>
    obtain ⟨-, header, hheader, rfl⟩ := turn_eq_inr_iff.mp hturn
    exact .back hheader (ih hverdict)

/-- A block that is stored as its own parent is walked from for ever. -/
theorem not_walks_of_own_parent (hheader : c.header? d = some header) (hown : header.parentId = d)
    (hlt : a.number < d.number) : ¬c.Walks a d steps verdict := by
  have hturn : c.turn a d = .inr d := turn_eq_inr_iff.mpr ⟨hlt, header, hheader, hown⟩
  induction steps with
  | zero =>
    intro h
    cases h with
    | ends hturn' => exact absurd (hturn.symm.trans hturn') (by simp)
  | succ steps ih =>
    intro h
    cases h with
    | back hturn' hrest =>
      obtain rfl := Sum.inr.inj (hturn.symm.trans hturn')
      exact ih hrest

/-! ## Headers under their ids -/

theorem WellFormed.keyed (wf : c.WellFormed) : c.Keyed := by
  intro id header hheader
  obtain ⟨s, hs, rfl⟩ := Option.map_eq_some_iff.mp hheader
  obtain ⟨hmem, rfl⟩ := find?_eq_some hs
  exact (wf.id_eq s hmem).symm

/-- **A number above zero** is one more than that of the parent. -/
theorem Keyed.number_parent (hc : c.Keyed) (hheader : c.header? d = some header)
    (hlt : a.number < d.number) : header.parentId.number.toNat + 1 = d.number.toNat := by
  have hnumber : d.number = header.parentId.number + 1 := by
    rw [← hc d header hheader, Header.number_id, Header.number]
  have hpos := UInt32.lt_iff_toNat_lt.mp hlt
  have hparent := header.parentId.number.toNat_lt
  rw [hnumber, UInt32.toNat_add, UInt32.toNat_one] at hpos ⊢
  omega

/-- **The walk ends** within the difference of the numbers, by induction on that difference. -/
theorem Keyed.exists_walks (hc : c.Keyed) (a d : BlockId) :
    ∃ steps verdict, c.Walks a d steps verdict ∧ steps ≤ d.number.toNat - a.number.toNat := by
  induction hdiff : d.number.toNat - a.number.toNat generalizing d with
  | zero =>
    cases hturn : c.turn a d with
    | inl verdict => exact ⟨0, verdict, .ends hturn, Nat.le_refl 0⟩
    | inr parent =>
      have hlt := UInt32.lt_iff_toNat_lt.mp (turn_eq_inr_iff.mp hturn).1
      omega
  | succ diff ih =>
    cases hturn : c.turn a d with
    | inl verdict => exact ⟨0, verdict, .ends hturn, Nat.zero_le _⟩
    | inr parent =>
      obtain ⟨hlt, header, hheader, rfl⟩ := turn_eq_inr_iff.mp hturn
      have hparent := hc.number_parent hheader hlt
      obtain ⟨steps, verdict, hwalk, hle⟩ := ih header.parentId (by omega)
      exact ⟨steps + 1, verdict, .back hturn hwalk, Nat.succ_le_succ hle⟩

/-- A walk that arrives has gone down by one number a step. -/
theorem Keyed.number_of_walks (hc : c.Keyed) (h : c.Walks a d steps true) :
    d.number.toNat = a.number.toNat + steps := by
  generalize hverdict : true = verdict at h
  induction h with
  | ends hturn =>
    rw [← hverdict] at hturn
    rw [turn_eq_true_iff.mp hturn, Nat.add_zero]
  | back hturn _ ih =>
    obtain ⟨hlt, header, hheader, rfl⟩ := turn_eq_inr_iff.mp hturn
    have hparent := hc.number_parent hheader hlt
    have hrest := ih hverdict
    omega

/-- The walk follows a trail to its end, unless numbers begin again on the way. -/
theorem Keyed.walks_of_trail (hc : c.Keyed) (h : c.Trail k d a)
    (hnumber : d.number.toNat = a.number.toNat + k) : c.Walks a d k true := by
  induction h with
  | here => exact .ends (turn_eq_true_iff.mpr rfl)
  | @back k d a header hheader _ ih =>
    have hlt : a.number < d.number := UInt32.lt_iff_toNat_lt.mpr (by omega)
    have hparent := hc.number_parent hheader hlt
    exact .back (turn_eq_inr_iff.mpr ⟨hlt, header, hheader, rfl⟩) (ih (by omega))

/-- **The verdict of the walk** is that of `isAncestor`. -/
theorem Keyed.walks_isAncestor (hc : c.Keyed) (a d : BlockId) :
    ∃ steps, c.Walks a d steps (c.isAncestor a d) ∧
      steps ≤ d.number.toNat - a.number.toNat := by
  obtain ⟨steps, verdict, hwalk, hle⟩ := hc.exists_walks a d
  have hverdict : c.isAncestor a d = verdict := by
    rw [isAncestor, walk_eq_some_iff.mpr ⟨steps, Nat.lt_succ_of_le hle, hwalk⟩, Option.getD_some]
  exact ⟨steps, hverdict ▸ hwalk, hle⟩

/-- **The walk ends.** Additions make `Keyed` chains, and on these, even with a circle in them, a
walk between any ids ends with the verdict of `isAncestor` and no other, within the difference of
their numbers; it is true only along a `Trail`, and iff one is as long as the numbers say. -/
theorem walk_ends :
    (∀ (genesis : Header) (calls : List Addition), ((ofGenesis genesis).addAll calls).Keyed) ∧
    ∀ (c : Chain), c.Keyed → ∀ a d : BlockId, ∃ steps,
      c.Walks a d steps (c.isAncestor a d) ∧
      steps ≤ d.number.toNat - a.number.toNat ∧
      (∀ steps' verdict, c.Walks a d steps' verdict →
        steps' = steps ∧ verdict = c.isAncestor a d) ∧
      (c.isAncestor a d = true → c.Trail steps d a) ∧
      (c.isAncestor a d = true ↔ ∃ k, c.Trail k d a ∧ d.number.toNat = a.number.toNat + k) := by
  refine ⟨fun genesis calls => ?_, ?_⟩
  · have hreachable : Reachable genesis ((ofGenesis genesis).addAll calls) := extends_addAll _ calls
    exact hreachable.wellFormed.keyed
  · intro c hc a d
    obtain ⟨steps, hwalk, hle⟩ := hc.walks_isAncestor a d
    have harrives : c.isAncestor a d = true → c.Walks a d steps true := fun h => h ▸ hwalk
    refine ⟨steps, hwalk, hle, fun _ _ h => hwalk.unique h, fun h => (harrives h).trail, ?_, ?_⟩
    · intro h
      exact ⟨steps, (harrives h).trail, hc.number_of_walks (harrives h)⟩
    · rintro ⟨k, htrail, hnumber⟩
      exact (hwalk.unique (hc.walks_of_trail htrail hnumber)).2.symm

/-! ## Where numbers begin again

A genesis header with the last number, and a block on it, which has number zero. -/

namespace Rollover

/-- The header before it would have the last number but one. -/
def genesis : Header := { Sample.genesis with parentId := BlockId.stamp (-2) Bytes.zero }

/-- A block without transactions on top of it. -/
def successor : Addition where
  block := ⟨{ genesis with parentId := genesis.id, timestamp := 1010 }, []⟩
  receipts := []

/-- What is stored of it. -/
def stored : StoredBlock := ⟨successor.id, successor.block.header, [], []⟩

def chain : Chain := (ofGenesis genesis).addAll [successor]

theorem number_genesis : genesis.id.number = -1 := by
  rw [Header.number_id, Header.number, genesis, BlockId.number_stamp]
  rfl

theorem number_successor : successor.id.number = 0 := by
  have hparent : successor.block.header.parentId = genesis.id := rfl
  rw [Addition.id, Header.number_id, Header.number, hparent, number_genesis]
  rfl

theorem addAll_of_fits {c : Chain} {a : Addition} {ids : List TxId}
    (hids : txIds a.block.transactions = .ok ids)
    (hfits : c.Fits ⟨a.id, a.block.header, ids, a.receipts⟩) :
    c.addAll [a] = c.push ⟨a.id, a.block.header, ids, a.receipts⟩ :=
  after_of_ok (add_of_fits hids hfits)

theorem chain_eq : chain = (ofGenesis genesis).push stored := by
  have hfresh : (ofGenesis genesis).contains successor.id = false := by
    rw [← Bool.not_eq_true, contains_iff_mem]
    rintro ⟨s, hs, hid⟩
    rw [mem_ofGenesis.mp hs] at hid
    have hnumbers := congrArg BlockId.number hid
    rw [number_genesis, number_successor] at hnumbers
    exact absurd hnumbers (by decide)
  have hparent : (ofGenesis genesis).contains successor.block.header.parentId = true :=
    contains_iff.mpr ⟨_, find?_genesis genesis⟩
  have hids : txIds successor.block.transactions = .ok [] := rfl
  have hfits : (ofGenesis genesis).Fits stored :=
    { id_eq := by rw [stored, Addition.id]
      fresh := hfresh
      parent := hparent
      receipts := rfl }
  exact addAll_of_fits hids hfits

theorem header_successor : chain.header? successor.id = some successor.block.header := by
  have wf : chain.WellFormed :=
    Reachable.wellFormed (extends_addAll (ofGenesis genesis) [successor])
  have hmem : stored ∈ chain.blocks := by
    rw [chain_eq]
    exact mem_push.mpr (Or.inr rfl)
  exact congrArg (Option.map StoredBlock.header) (wf.find?_id hmem)

/-- From number zero the walk goes nowhere, not even to the parent, and from the last number it
ends as well. -/
theorem rollover_walks : chain.Keyed ∧
    chain.Trail 1 successor.id genesis.id ∧
    chain.Walks genesis.id successor.id 0 false ∧ chain.isAncestor genesis.id successor.id = false ∧
    ∃ steps, steps ≤ 4294967295 ∧
      chain.Walks successor.id genesis.id steps (chain.isAncestor successor.id genesis.id) := by
  obtain ⟨hkeyed, hwalks⟩ := walk_ends
  have hchain : chain.Keyed := hkeyed genesis [successor]
  have hgenesis : genesis.id.number.toNat = 4294967295 := by
    rw [number_genesis]
    rfl
  have hsuccessor : successor.id.number.toNat = 0 := by
    rw [number_successor]
    rfl
  obtain ⟨steps, hwalk, hle, -, -, hiff⟩ := hwalks chain hchain genesis.id successor.id
  obtain ⟨steps', hwalk', hle', -⟩ := hwalks chain hchain successor.id genesis.id
  have hlost : chain.isAncestor genesis.id successor.id = false := by
    rw [← Bool.not_eq_true, hiff]
    rintro ⟨k, -, hnumber⟩
    omega
  obtain rfl : steps = 0 := by omega
  exact ⟨hchain, .back header_successor .here, hlost ▸ hwalk, hlost, steps', by omega, hwalk'⟩

end Rollover

end ProofOfAuthority.Chain
