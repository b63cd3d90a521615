import ProofOfAuthority.Proofs.Lookup

/-!
# Adding a block in place

A chain can be kept as two tables, the blocks by id and the places by transaction, and an addition
then changes one entry after the other (`Store.add`): it records the places, and keeps the block
last. What a step has changed stays changed if a later step fails, so that an addition is all or
nothing is a matter of the order of its checks. The tables are those of a `Chain` throughout
(`Store.run_add`, `Store.addAll_store`), and what holds of every chain holds of them.

* `Refuses` — the three reasons against a block, each with what was checked before.
* `Consistent` — what the tables agree on: keys, parents, numbers and places.
* `Store.run_add` — an addition in place does what `Chain.add` does, and leaves the tables alone if
  it fails.
* `add_again` — a block that was accepted once is accepted for good, and changes nothing.
* `addAll_consistent` — after any calls the tables are consistent, and one more call is all or
  nothing.
-/

namespace ProofOfAuthority.Chain

/-! ## The tables -/

/-- A block as it is kept under its id (`StoredBlock`). -/
structure Entry where
  header : Header
  receipts : List Receipt
  deriving DecidableEq

/-- The blocks by id, and the places by transaction (`ChainStore`). -/
@[ext]
structure Store where
  blocks : BlockId → Option Entry
  places : TxId → List Location

/-- The tables of a chain. -/
def store (c : Chain) : Store where
  blocks id := (c.find? id).map fun s => ⟨s.header, s.receipts⟩
  places := c.locations

namespace Store

/-- The tables with a genesis header only. -/
def start (genesis : Header) : Store where
  blocks id := if id = genesis.id then some ⟨genesis, []⟩ else none
  places _ := []

/-- Record one more place of a transaction. -/
def record (s : Store) (x : TxId) (loc : Location) : Store :=
  { s with places := fun y => if y = x then s.places y ++ [loc] else s.places y }

/-- Record more places of every transaction. -/
def extend (s : Store) (more : TxId → List Location) : Store :=
  { s with places := fun x => s.places x ++ more x }

/-- Keep a block under an id. -/
def keep (s : Store) (id : BlockId) (e : Entry) : Store :=
  { s with blocks := fun k => if k = id then some e else s.blocks k }

/-- Record the places of a block's transactions, one after the other. -/
def recordAll (id : BlockId) (ids : List TxId) : EStateM ChainError Store PUnit :=
  ids.zipIdx.forM fun e => modify fun s => s.record e.1 ⟨id, e.2⟩

/-- `MemoryChain::add_block` in place. A failure does not undo what was changed before it. -/
def add (a : Addition) : EStateM ChainError Store BlockId := do
  if a.receipts.length ≠ a.block.transactions.length then
    throw (.rejected (.receiptCount a.receipts.length a.block.transactions.length))
  let ids ← match txIds a.block.transactions with
    | .ok ids => pure ids
    | .error cause => throw (.rejected (.unsigned cause))
  let s ← get
  if (s.blocks a.block.header.parentId).isNone then
    throw (.unknownBlock a.block.header.parentId)
  if (s.blocks a.id).isSome then
    return a.id
  recordAll a.id ids
  modify fun s => s.keep a.id ⟨a.block.header, a.receipts⟩
  return a.id

/-- What an addition leaves behind, whether it fails or not. -/
def after (s : Store) (a : Addition) : Store :=
  match (add a).run s with
  | .ok _ s' => s'
  | .error _ s' => s'

/-- What a sequence of additions leaves behind. -/
def addAll (s : Store) (calls : List Addition) : Store := calls.foldl after s

/-- Nothing that `s` holds is changed or gone in `s'`. -/
structure Within (s s' : Store) : Prop where
  blocks : ∀ id e, s.blocks id = some e → s'.blocks id = some e
  places : ∀ x, s.places x <+: s'.places x

end Store

/-- The chain after an addition, which changes nothing if it is refused. -/
def after (c : Chain) (a : Addition) : Chain := (c.add a.block a.receipts).toOption.getD c

/-- The chain after a sequence of additions. -/
def addAll (c : Chain) (calls : List Addition) : Chain := calls.foldl after c

/-- The reasons against a block, each with what was checked before. -/
inductive Refuses (c : Chain) (a : Addition) : ChainError → Prop
  | receiptCount : a.receipts.length ≠ a.block.transactions.length →
      Refuses c a (.rejected (.receiptCount a.receipts.length a.block.transactions.length))
  | unsigned {before after : List Transaction} {tx : Transaction} {cause : SignatureError} :
      a.receipts.length = a.block.transactions.length →
      a.block.transactions = before ++ tx :: after → (∀ t ∈ before, ∃ x, t.id = .ok x) →
      tx.id = .error cause → Refuses c a (.rejected (.unsigned cause))
  | unknownParent : a.receipts.length = a.block.transactions.length →
      (∀ t ∈ a.block.transactions, ∃ x, t.id = .ok x) →
      c.contains a.block.header.parentId = false →
      Refuses c a (.unknownBlock a.block.header.parentId)

/-- What the tables of a chain agree on. -/
structure Consistent (genesis : Header) (c : Chain) : Prop where
  oldest : c.find? genesis.id = some ⟨genesis.id, genesis, [], []⟩
  key : ∀ id s, c.find? id = some s → id = s.header.id ∧ id.number = s.header.number
  parent : ∀ id s, c.find? id = some s → id ≠ genesis.id → c.contains s.header.parentId = true
  height : ∀ id s, c.find? id = some s → ∃ n, c.Height id n
  number : ∀ id s n, c.find? id = some s → c.Height id n →
    s.header.number.toNat = (genesis.number.toNat + n) % UInt32.size
  place : ∀ x, ∀ loc ∈ c.locations x, ∃ s, c.find? loc.blockId = some s ∧
    loc.index < s.receipts.length
  once : ∀ x, (c.locations x).Nodup
  apart : ∀ x y, ∀ loc ∈ c.locations x, loc ∈ c.locations y → x = y

variable {genesis : Header} {c c' : Chain} {a : Addition} {calls : List Addition} {x : TxId}
  {loc : Location} {e : ChainError} {id : BlockId}

/-! ## The reasons against a block -/

theorem txIds_eq_error_iff {txs : List Transaction} {cause : SignatureError} :
    txIds txs = .error cause ↔ ∃ before tx after, txs = before ++ tx :: after ∧
      (∀ t ∈ before, ∃ x, t.id = .ok x) ∧ tx.id = .error cause := by
  unfold txIds
  induction txs with
  | nil => simp [pure, Except.pure]
  | cons tx txs ih =>
    rw [List.mapM_cons, bind_eq_error_iff]
    constructor
    · rintro (htx | ⟨x, htx, hrest⟩)
      · exact ⟨[], tx, txs, rfl, by simp, htx⟩
      · have hrest : txs.mapM Transaction.id = .error cause := by
          rcases bind_eq_error_iff.mp hrest with hrest | ⟨ids, -, hpure⟩
          · exact hrest
          · cases hpure
        obtain ⟨before, tx', after, rfl, hbefore, htx'⟩ := ih.mp hrest
        refine ⟨tx :: before, tx', after, rfl, ?_, htx'⟩
        intro t ht
        rcases List.mem_cons.mp ht with rfl | ht
        · exact ⟨x, htx⟩
        · exact hbefore t ht
    · rintro ⟨before, tx', after, hsplit, hbefore, htx'⟩
      cases before with
      | nil =>
        obtain ⟨rfl, rfl⟩ := List.cons.inj hsplit
        exact Or.inl htx'
      | cons t before =>
        obtain ⟨rfl, rfl⟩ := List.cons.inj hsplit
        obtain ⟨x, hx⟩ := hbefore tx List.mem_cons_self
        refine Or.inr ⟨x, hx, bind_eq_error_iff.mpr (Or.inl (ih.mpr ?_))⟩
        exact ⟨before, tx', after, rfl, fun t ht => hbefore t (List.mem_cons_of_mem _ ht), htx'⟩

theorem exists_txIds_iff {txs : List Transaction} :
    (∃ ids, txIds txs = .ok ids) ↔ ∀ t ∈ txs, ∃ x, t.id = .ok x := by
  constructor
  · rintro ⟨ids, hids⟩ t ht
    obtain ⟨i, hi, rfl⟩ := List.getElem_of_mem ht
    have hall := txIds_eq_ok_iff.mp hids
    exact ⟨_, hall.get hi (by rwa [← hall.length_eq])⟩
  · intro hall
    cases hids : txIds txs with
    | ok ids => exact ⟨ids, rfl⟩
    | error cause =>
      obtain ⟨before, tx, after, rfl, -, htx⟩ := txIds_eq_error_iff.mp hids
      obtain ⟨x, hx⟩ := hall tx (by simp)
      rw [hx] at htx
      cases htx

theorem Refuses.add_eq (h : c.Refuses a e) : c.add a.block a.receipts = .error e := by
  cases h with
  | receiptCount hne => rw [add, if_pos hne]
  | unsigned hlen hsplit hbefore htx =>
    rw [add, if_neg (not_not.mpr hlen), txIds_eq_error_iff.mpr ⟨_, _, _, hsplit, hbefore, htx⟩]
  | unknownParent hlen hall hparent =>
    obtain ⟨ids, hids⟩ := exists_txIds_iff.mpr hall
    rw [add, if_neg (not_not.mpr hlen), hids]
    exact if_neg (by rw [hparent]; exact Bool.false_ne_true)

/-- **Why an addition fails**, in the order of its checks. -/
theorem add_eq_error_iff : c.add a.block a.receipts = .error e ↔ c.Refuses a e := by
  refine ⟨?_, Refuses.add_eq⟩
  intro h
  unfold add at h
  by_cases hlen : a.receipts.length = a.block.transactions.length
  · rw [if_neg (not_not.mpr hlen)] at h
    cases hids : txIds a.block.transactions with
    | error cause =>
      rw [hids] at h
      obtain rfl := Except.error.inj h
      obtain ⟨before, tx, after, hsplit, hbefore, htx⟩ := txIds_eq_error_iff.mp hids
      exact .unsigned hlen hsplit hbefore htx
    | ok ids =>
      simp only [hids] at h
      cases hparent : c.contains a.block.header.parentId with
      | true =>
        rw [if_pos hparent] at h
        split at h <;> cases h
      | false =>
        rw [if_neg (by rw [hparent]; exact Bool.false_ne_true)] at h
        obtain rfl := Except.error.inj h
        exact .unknownParent hlen (exists_txIds_iff.mp ⟨ids, hids⟩) hparent
  · rw [if_pos hlen] at h
    obtain rfl := Except.error.inj h
    exact .receiptCount hlen

/-! ## Consistency -/

/-- The number of a block is its height, counted from the number of genesis and modulo `2 ^ 32`. -/
theorem WellFormed.toNat_number (wf : c.WellFormed) {n : Nat} (h : c.Height id n) :
    id.number.toNat = (c.genesisId.number.toNat + n) % UInt32.size := by
  induction h with
  | genesis => exact (Nat.mod_eq_of_lt c.genesisId.number.toNat_lt).symm
  | child hp _ ih =>
    rw [wf.number_child hp, UInt32.toNat_add, ih]
    exact Nat.mod_add_mod ..

/-- **Every chain that additions make is consistent.** -/
theorem Reachable.consistent (h : Reachable genesis c) : Consistent genesis c := by
  have wf := h.wellFormed
  have hid : c.genesisId = genesis.id := Extends.genesisId_eq h
  have hkey : ∀ id s, c.find? id = some s → id = s.header.id ∧ id.number = s.header.number := by
    intro id s hs
    obtain ⟨hmem, rfl⟩ := find?_eq_some hs
    rw [wf.id_eq s hmem]
    exact ⟨rfl, Header.number_id _⟩
  refine ⟨?_, hkey, ?_, ?_, ?_, ?_, wf.nodup_locations, ?_⟩
  · obtain ⟨log, hlog⟩ := Logged.exists_of_reachable h
    exact hlog.find?_genesis
  · intro id s hs hne
    obtain ⟨hmem, rfl⟩ := find?_eq_some hs
    exact wf.parent s hmem (by rwa [hid])
  · intro id s hs
    exact wf.exists_height (contains_iff.mpr ⟨s, hs⟩)
  · intro id s n hs hn
    rw [← (hkey id s hs).2, wf.toNat_number hn, hid, Header.number_id]
  · intro x loc hloc
    obtain ⟨s, hs, hplace, hx⟩ := mem_locations_iff.mp hloc
    refine ⟨s, hplace ▸ wf.find?_id hs, ?_⟩
    rw [wf.receipts s hs]
    exact (List.getElem?_eq_some_iff.mp hx).1
  · intro x y loc hx hy
    obtain ⟨s, hs, hplace, hx⟩ := mem_locations_iff.mp hx
    obtain ⟨t, ht, hplace', hy⟩ := mem_locations_iff.mp hy
    obtain rfl := List.inj_on_of_nodup_map wf.nodup hs ht (hplace.trans hplace'.symm)
    exact Option.some_inj.mp (hx.symm.trans hy)

/-! ## One addition in place -/

theorem isSome_store : (c.store.blocks id).isSome = c.contains id := by
  rw [store, Option.isSome_map, contains]

theorem blocks_store_eq_none : c.store.blocks id = none ↔ c.contains id = false := by
  rw [← isSome_store, Option.isSome_eq_false_iff, Option.isNone_iff_eq_none]

theorem store_ofGenesis : (ofGenesis genesis).store = Store.start genesis := by
  refine Store.ext (funext fun id => ?_) (funext fun x => rfl)
  by_cases hid : id = genesis.id
  · simp [store, Store.start, hid, find?_genesis]
  · have hne : genesis.id ≠ id := Ne.symm hid
    simp [store, Store.start, hid, find?, ofGenesis, hne]

namespace Store

/-- The places of a block's transactions go in one after the other. -/
theorem run_recordAll (s : StoredBlock) (t : Store) :
    (recordAll s.id s.txIds).run t = .ok ⟨⟩ (t.extend (StoredBlock.locations s)) := by
  have hall : ∀ (es : List (TxId × Nat)) (t : Store),
      (es.forM fun e => modify fun t => t.record e.1 ⟨s.id, e.2⟩ :
          EStateM ChainError Store PUnit).run t =
        .ok ⟨⟩ (t.extend fun x => (es.filter (·.1 = x)).map fun e => ⟨s.id, e.2⟩) := by
    intro es
    induction es with
    | nil =>
      intro t
      simp [extend, EStateM.run, pure, EStateM.pure]
    | cons e es ih =>
      intro t
      refine (ih (t.record e.1 ⟨s.id, e.2⟩)).trans ?_
      refine congrArg (EStateM.Result.ok PUnit.unit) (Store.ext rfl (funext fun x => ?_))
      by_cases hx : e.1 = x
      · simp [extend, record, hx]
      · simp [extend, record, hx, Ne.symm hx]
  exact hall s.txIds.zipIdx t

/-- The tables of a chain with one more block: its places are recorded and it is kept. -/
theorem store_push {s : StoredBlock} (hfresh : c.contains s.id = false) :
    (c.push s).store =
      (c.store.extend (StoredBlock.locations s)).keep s.id ⟨s.header, s.receipts⟩ := by
  refine Store.ext (funext fun id => ?_) (funext fun x => locations_push x)
  have hnone : c.blocks.find? (·.id = s.id) = none := by
    rwa [contains, Option.isSome_eq_false_iff, Option.isNone_iff_eq_none] at hfresh
  by_cases hid : id = s.id
  · simp [store, keep, hid, find?, push, hnone]
  · simp [store, keep, extend, hid, find?, push, Ne.symm hid]

/-- **An addition in place does what `Chain.add` does**, and leaves the tables alone if it fails. -/
theorem run_add (c : Chain) (a : Addition) : (add a).run c.store =
    match c.add a.block a.receipts with
    | .ok c' => .ok a.id c'.store
    | .error e => .error e c.store := by
  unfold add Chain.add
  by_cases hlen : a.receipts.length = a.block.transactions.length
  · cases hids : txIds a.block.transactions with
    | error cause =>
      simp only [EStateM.run_bind, hlen, ne_eq, not_true_eq_false, if_false]
      rfl
    | ok ids =>
      cases hparent : c.contains a.block.header.parentId with
      | false => simp [EStateM.run_bind, hlen, blocks_store_eq_none, hparent]
      | true =>
        cases hstored : c.contains a.id with
        | true =>
          have hstored' : c.contains a.block.header.id = true := hstored
          simp [EStateM.run_bind, hlen, blocks_store_eq_none, isSome_store, hparent, hstored,
            hstored']
        | false =>
          have hstored' : c.contains a.block.header.id = false := hstored
          have hrecord : (recordAll a.id ids).run c.store = _ :=
            run_recordAll ⟨a.id, a.block.header, ids, a.receipts⟩ c.store
          have hpush := store_push (s := ⟨a.id, a.block.header, ids, a.receipts⟩) hstored
          simp only [hlen, ne_eq, not_true_eq_false, ↓reduceIte, Option.isNone_iff_eq_none,
            bind_pure_comp, pure_bind, EStateM.run_bind, EStateM.run_get, blocks_store_eq_none,
            hparent, Bool.true_eq_false, isSome_store, hstored, Bool.false_eq_true, hrecord,
            hstored']
          exact congrArg (EStateM.Result.ok a.id) hpush.symm
  · simp [EStateM.run_bind, hlen]

/-- A call that returns an id has done what `Chain.add` does. -/
theorem run_eq_ok_iff {s' : Store} : (add a).run c.store = .ok id s' ↔
    id = a.id ∧ ∃ c', c.add a.block a.receipts = .ok c' ∧ s' = c'.store := by
  rw [run_add]
  cases c.add a.block a.receipts with
  | error e => simp
  | ok c' => simp [eq_comm]

/-- **A call that fails has changed nothing**, and there is a reason against the block. -/
theorem run_eq_error_iff {s' : Store} :
    (add a).run c.store = .error e s' ↔ c.Refuses a e ∧ s' = c.store := by
  rw [run_add, ← add_eq_error_iff]
  cases c.add a.block a.receipts with
  | error e' => simp [eq_comm]
  | ok c' => simp

theorem after_store (c : Chain) (a : Addition) : c.store.after a = (c.after a).store := by
  rw [after, run_add, Chain.after]
  cases c.add a.block a.receipts <;> rfl

/-- **The tables are those of a chain**, whatever was added and refused. -/
theorem addAll_store (c : Chain) (calls : List Addition) :
    c.store.addAll calls = (c.addAll calls).store := by
  induction calls generalizing c with
  | nil => rfl
  | cons a calls ih =>
    rw [addAll, List.foldl_cons, after_store]
    exact ih _

/-- **Nothing is changed or removed** by an addition. -/
theorem within_of_add (h : c.add a.block a.receipts = .ok c') : c.store.Within c'.store := by
  rcases add_ok h with ⟨-, rfl⟩ | ⟨ids, -, -, rfl⟩
  · exact ⟨fun _ _ hs => hs, fun _ => List.prefix_rfl⟩
  · refine ⟨?_, ?_⟩
    · intro id e he
      have hid : c.contains id = true := by rw [← isSome_store, he, Option.isSome_some]
      rw [← he]
      exact congrArg (Option.map _) (find?_push_of_contains hid)
    · intro x
      rw [show (c.push _).store.places x = _ from locations_push x]
      exact List.prefix_append ..

end Store

/-! ## Calls -/

theorem after_of_ok (h : c.add a.block a.receipts = .ok c') : c.after a = c' := by
  rw [after, h]
  rfl

theorem after_of_error (h : c.add a.block a.receipts = .error e) : c.after a = c := by
  rw [after, h]
  rfl

theorem addAll_cons : c.addAll (a :: calls) = (c.after a).addAll calls := rfl

theorem addAll_append (before after : List Addition) :
    c.addAll (before ++ after) = (c.addAll before).addAll after :=
  List.foldl_append

theorem extends_addAll (c : Chain) (calls : List Addition) : c.Extends (c.addAll calls) := by
  induction calls generalizing c with
  | nil => exact Relation.ReflTransGen.refl
  | cons a calls ih =>
    have hrest := ih (c.after a)
    cases hadd : c.add a.block a.receipts with
    | ok c' =>
      rw [after_of_ok hadd] at hrest
      rw [addAll_cons, after_of_ok hadd]
      exact Relation.ReflTransGen.head ⟨a.block, a.receipts, hadd⟩ hrest
    | error e =>
      rw [after_of_error hadd] at hrest
      rwa [addAll_cons, after_of_error hadd]

/-- An accepted block has receipts, signers and a stored parent, and is stored afterwards. -/
theorem add_eq_ok (h : c.add a.block a.receipts = .ok c') :
    (∃ ids, txIds a.block.transactions = .ok ids) ∧
      c.contains a.block.header.parentId = true ∧ c'.contains a.id = true := by
  have hnot : ∀ e, ¬c.Refuses a e := by
    intro e hrefuses
    rw [hrefuses.add_eq] at h
    cases h
  have hlen : a.receipts.length = a.block.transactions.length := by
    by_contra hne
    exact hnot _ (.receiptCount hne)
  obtain ⟨ids, hids⟩ : ∃ ids, txIds a.block.transactions = .ok ids := by
    cases hids : txIds a.block.transactions with
    | ok ids => exact ⟨ids, rfl⟩
    | error cause =>
      obtain ⟨before, tx, after, hsplit, hbefore, htx⟩ := txIds_eq_error_iff.mp hids
      exact absurd (.unsigned hlen hsplit hbefore htx) (hnot _)
  refine ⟨⟨ids, hids⟩, ?_, ?_⟩
  · by_contra hparent
    exact hnot _ (.unknownParent hlen (exists_txIds_iff.mp ⟨ids, hids⟩) (by simpa using hparent))
  · rcases add_ok h with ⟨hstored, rfl⟩ | ⟨_, -, -, rfl⟩
    · exact hstored
    · exact contains_push.mpr (Or.inr rfl)

/-- **A block that was accepted once is accepted for good**, with any receipts of the right count,
and changes nothing. -/
theorem add_again (h : c.add a.block a.receipts = .ok c') {later : Chain} (hext : c'.Extends later)
    {receipts : List Receipt} (hlen : receipts.length = a.block.transactions.length) :
    later.add a.block receipts = .ok later := by
  obtain ⟨⟨ids, hids⟩, hparent, hstored⟩ := add_eq_ok h
  have hgrows : c.Extends c' := Relation.ReflTransGen.single ⟨a.block, a.receipts, h⟩
  have hparent' := Extends.contains (hgrows.trans hext) hparent
  have hstored' : later.contains a.block.header.id = true := Extends.contains hext hstored
  unfold add
  rw [if_neg (not_not.mpr hlen), hids]
  simp only [if_pos hparent', if_pos hstored']

/-- **The tables are consistent and an addition is all or nothing.** After any calls they are the
`store` of a chain, and `Consistent`. One more keeps what they hold (`Within`); it fails if the
chain `Refuses` the block, and if it fails or repeats an earlier one, it changes nothing. -/
theorem addAll_consistent (genesis : Header) (calls : List Addition) :
    let c := (ofGenesis genesis).addAll calls
    (Store.start genesis).addAll calls = c.store ∧ Consistent genesis c ∧
      (∀ a id s', (Store.add a).run c.store = .ok id s' → id = a.id ∧ c.store.Within s') ∧
      (∀ a e s', (Store.add a).run c.store = .error e s' ↔ c.Refuses a e ∧ s' = c.store) ∧
      ∀ before a after, calls = before ++ a :: after → ∀ id s',
        (Store.add a).run ((Store.start genesis).addAll before) = .ok id s' →
          ∀ receipts : List Receipt, receipts.length = a.block.transactions.length →
            (Store.add ⟨a.block, receipts⟩).run c.store = .ok id c.store := by
  intro c
  have hstart : ∀ calls, (Store.start genesis).addAll calls =
      ((ofGenesis genesis).addAll calls).store := by
    intro calls
    rw [← store_ofGenesis, Store.addAll_store]
  refine ⟨hstart calls, Reachable.consistent (extends_addAll _ calls), ?_,
    fun a e s' => Store.run_eq_error_iff, ?_⟩
  · intro a id s' hrun
    obtain ⟨rfl, c', hadd, rfl⟩ := Store.run_eq_ok_iff.mp hrun
    exact ⟨rfl, Store.within_of_add hadd⟩
  · intro before a after hcalls id s' hrun receipts hlen
    rw [hstart] at hrun
    obtain ⟨rfl, c', hadd, rfl⟩ := Store.run_eq_ok_iff.mp hrun
    have hlater : c = c'.addAll after := by
      rw [← after_of_ok hadd, ← addAll_cons, ← addAll_append, ← hcalls]
    have hext : c'.Extends c := hlater ▸ extends_addAll c' after
    exact Store.run_eq_ok_iff.mpr ⟨rfl, c, add_again hadd hext hlen, rfl⟩

namespace Siblings

/-- The left one is added again with the receipt of the right one, after both: that changes
nothing. -/
theorem left_again : (Store.add ⟨left.block, right.receipts⟩).run chain.store =
    .ok left.id chain.store := by
  have hleft : (ofGenesis Sample.genesis).add left.block left.receipts =
      .ok ((ofGenesis Sample.genesis).push (stored left)) := add_child Logged.start (by simp)
  have hright : ((ofGenesis Sample.genesis).push (stored left)).add right.block right.receipts =
      .ok chain :=
    add_child (logged_child Logged.start (by simp))
      fun a ha => by rw [List.mem_singleton.mp ha]; exact left_ne_right
  have hchain : (ofGenesis Sample.genesis).addAll [left, right] = chain := by
    rw [addAll_cons, after_of_ok hleft, addAll_cons, after_of_ok hright]
    rfl
  have hrun : (Store.add left).run ((Store.start Sample.genesis).addAll []) =
      .ok left.id ((ofGenesis Sample.genesis).push (stored left)).store := by
    rw [← store_ofGenesis]
    exact Store.run_eq_ok_iff.mpr ⟨rfl, _, hleft, rfl⟩
  rw [← hchain]
  exact (addAll_consistent Sample.genesis [left, right]).2.2.2.2 [] left [right] rfl _ _ hrun
    right.receipts rfl

end Siblings

end ProofOfAuthority.Chain
