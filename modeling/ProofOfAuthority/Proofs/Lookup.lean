import Mathlib.Data.List.Infix
import ProofOfAuthority.Proofs.History

/-!
# What look-up answers

A chain is what was added to it, in the order of addition (`Logged`). Against that log every answer
of the chain can be said without its store: which blocks it holds, where a transaction stands
(`indexed`), and which receipt belongs there. Look-up gives the first place on the path from a block
back to genesis, forks apart, and the receipt fetched from there, at that moment or any time later,
is the one that came with the block.

* `Logged.exists_of_reachable` — every chain that additions make has a log.
* `Logged.blocks_eq` — the store is the log, block by block.
* `Logged.locations_eq` — the recorded locations are those of the log, in its order.
* `Logged.find?_eq_some_iff` — what is stored under an id.
* `Logged.receipt_eq` — the receipt of a place in the log is fetched for good.
* `Logged.lookup_correct` — look-up and fetch, in full.
-/

namespace ProofOfAuthority.Chain

/-- A block with the receipts it is added with. -/
structure Addition where
  block : Block
  receipts : List Receipt
  deriving DecidableEq

namespace Addition

variable {a : Addition} {s : StoredBlock} {x : TxId} {loc : Location}

/-- The id under which the block is stored. -/
def id (a : Addition) : BlockId := a.block.header.id

/-- Where a transaction stands in the block. -/
def locations (a : Addition) (x : TxId) : List Location :=
  (a.block.transactions.zipIdx.filter fun e => e.1.id.toOption = some x).map fun e => ⟨a.id, e.2⟩

/-- What is stored of the block. -/
def Keeps (a : Addition) (s : StoredBlock) : Prop :=
  ∃ ids, txIds a.block.transactions = .ok ids ∧ s = ⟨a.id, a.block.header, ids, a.receipts⟩

theorem mem_locations : loc ∈ a.locations x ↔
    a.id = loc.blockId ∧ ∃ tx, a.block.transactions[loc.index]? = some tx ∧ tx.id = .ok x := by
  obtain ⟨b, i⟩ := loc
  simp only [locations, List.mem_map, List.mem_filter, Prod.exists, List.mem_zipIdx_iff_getElem?,
    decide_eq_true_eq, Location.mk.injEq]
  constructor
  · rintro ⟨tx, j, ⟨htx, hid⟩, hb, rfl⟩
    exact ⟨hb, tx, htx, ok_of_toOption hid⟩
  · rintro ⟨hb, tx, htx, hid⟩
    exact ⟨tx, i, ⟨htx, by rw [hid]; rfl⟩, hb, rfl⟩

theorem locations_eq (h : a.Keeps s) (x : TxId) : StoredBlock.locations s x = a.locations x := by
  obtain ⟨ids, hids, rfl⟩ := h
  -- the two lists are filtered alike from any index on
  have hfrom : ∀ (txs : List Transaction) (ids : List TxId) (k : Nat),
      List.Forall₂ (fun tx id => tx.id = .ok id) txs ids →
        ((ids.zipIdx k).filter (·.1 = x)).map (fun e => Location.mk a.id e.2) =
          ((txs.zipIdx k).filter fun e => e.1.id.toOption = some x).map fun e => ⟨a.id, e.2⟩ := by
    intro txs ids k hall
    induction hall generalizing k with
    | nil => rfl
    | @cons tx id txs ids hid _ ih =>
      have hiff : id = x ↔ tx.id.toOption = some x := by
        rw [hid]
        exact Option.some_inj.symm
      rw [List.zipIdx_cons, List.zipIdx_cons, List.filter_cons, List.filter_cons]
      by_cases hx : id = x
      · simp only [hx, hiff.mp hx, decide_true, if_true, List.map_cons, ih]
      · simp only [hx, mt hiff.mpr hx, decide_false, Bool.false_eq_true, if_false, ih]
  exact hfrom _ _ 0 (txIds_eq_ok_iff.mp hids)

theorem Keeps.id_eq (h : a.Keeps s) : s.id = a.id := by
  obtain ⟨ids, -, rfl⟩ := h
  rfl

theorem Keeps.unique {t : StoredBlock} (hs : a.Keeps s) (ht : a.Keeps t) : s = t := by
  obtain ⟨ids, hids, rfl⟩ := hs
  obtain ⟨ids', hids', rfl⟩ := ht
  rw [Except.ok.inj (hids.symm.trans hids')]

end Addition

/-- The chain that additions make of the one that holds `genesis` only, with those that it stores,
in order. A refused addition changes nothing, and neither does one of a block that is stored. -/
inductive Logged (genesis : Header) : List Addition → Chain → Prop
  | start : Logged genesis [] (ofGenesis genesis)
  | add {log : List Addition} {c c' : Chain} {a : Addition} :
    Logged genesis log c → c.add a.block a.receipts = .ok c' →
      Logged genesis (if c.contains a.id then log else log ++ [a]) c'

/-- The places where a transaction was recorded, in order. -/
def indexed (log : List Addition) (x : TxId) : List Location :=
  log.flatMap fun a => a.locations x

namespace Logged

variable {genesis : Header} {log : List Addition} {c c' : Chain} {a : Addition} {A : BlockId}
  {x : TxId} {loc : Location}

theorem reachable (h : Logged genesis log c) : Reachable genesis c := by
  induction h with
  | start => exact Relation.ReflTransGen.refl
  | @add log c c' a _ hadd ih => exact ih.tail ⟨a.block, a.receipts, hadd⟩

/-- Every chain that additions make has a log. -/
theorem exists_of_reachable (h : Reachable genesis c) : ∃ log, Logged genesis log c := by
  induction h with
  | refl => exact ⟨[], start⟩
  | tail _ hgrows ih =>
    obtain ⟨log, hlog⟩ := ih
    obtain ⟨block, receipts, hadd⟩ := hgrows
    exact ⟨_, hlog.add (a := ⟨block, receipts⟩) hadd⟩

/-- **The store is the log**, after genesis. -/
theorem blocks_eq (h : Logged genesis log c) :
    ∃ stored, c.blocks = ⟨genesis.id, genesis, [], []⟩ :: stored ∧
      List.Forall₂ Addition.Keeps log stored := by
  induction h with
  | start => exact ⟨[], rfl, List.Forall₂.nil⟩
  | @add log c c' a _ hadd ih =>
    obtain ⟨stored, hblocks, hall⟩ := ih
    rcases add_ok hadd with ⟨hstored, rfl⟩ | ⟨ids, hids, hfits, rfl⟩
    · have hknown : c'.contains a.id = true := hstored
      rw [if_pos hknown]
      exact ⟨stored, hblocks, hall⟩
    · have hnew : c.contains a.id = false := hfits.fresh
      rw [if_neg (by simp [hnew])]
      refine ⟨stored ++ [⟨a.id, a.block.header, ids, a.receipts⟩], ?_, ?_⟩
      · rw [push, hblocks]
        rfl
      · exact List.rel_append hall (List.Forall₂.cons ⟨ids, hids, rfl⟩ List.Forall₂.nil)

/-- **The recorded locations are those of the log**, in its order. -/
theorem locations_eq (h : Logged genesis log c) (x : TxId) : c.locations x = indexed log x := by
  obtain ⟨stored, hblocks, hall⟩ := h.blocks_eq
  have hgenesis : StoredBlock.locations ⟨genesis.id, genesis, [], []⟩ x = [] := rfl
  rw [locations, hblocks, List.flatMap_cons, hgenesis, List.nil_append, indexed]
  clear hblocks h
  induction hall with
  | nil => rfl
  | cons hkeeps _ ih => rw [List.flatMap_cons, List.flatMap_cons, ih, Addition.locations_eq hkeeps]

/-- What was added is stored. -/
theorem exists_stored (h : Logged genesis log c) (ha : a ∈ log) : ∃ s ∈ c.blocks, a.Keeps s := by
  obtain ⟨stored, hblocks, hall⟩ := h.blocks_eq
  obtain ⟨i, hi, rfl⟩ := List.getElem_of_mem ha
  have hi' : i < stored.length := by rwa [← hall.length_eq]
  refine ⟨stored[i], ?_, hall.get hi hi'⟩
  rw [hblocks]
  exact List.mem_cons_of_mem _ (List.getElem_mem hi')

theorem ids_eq (h : Logged genesis log c) :
    c.blocks.map StoredBlock.id = genesis.id :: log.map Addition.id := by
  obtain ⟨stored, hblocks, hall⟩ := h.blocks_eq
  rw [hblocks, List.map_cons]
  clear hblocks h
  induction hall with
  | nil => rfl
  | cons hkeeps _ ih =>
    obtain ⟨ids, -, rfl⟩ := hkeeps
    rw [List.map_cons, List.map_cons, List.cons_injective ih]

/-- Nothing is stored but genesis and what was added. -/
theorem contains_iff (h : Logged genesis log c) :
    c.contains A = true ↔ A = genesis.id ∨ ∃ a ∈ log, a.id = A := by
  rw [contains_iff_mem, ← List.mem_map, h.ids_eq, List.mem_cons, List.mem_map]

theorem find?_genesis (h : Logged genesis log c) :
    c.find? genesis.id = some ⟨genesis.id, genesis, [], []⟩ := by
  obtain ⟨stored, hblocks, -⟩ := h.blocks_eq
  have hmem : ⟨genesis.id, genesis, [], []⟩ ∈ c.blocks := by
    rw [hblocks]
    exact List.mem_cons_self
  have hfound := h.reachable.wellFormed.find?_id hmem
  exact hfound

/-- What is stored under an id: genesis, or what is kept of an addition. -/
theorem find?_eq_some_iff {s : StoredBlock} (h : Logged genesis log c) :
    c.find? A = some s ↔ (A = genesis.id ∧ s = ⟨genesis.id, genesis, [], []⟩) ∨
      ∃ a ∈ log, a.id = A ∧ a.Keeps s := by
  have wf := h.reachable.wellFormed
  obtain ⟨stored, hblocks, hall⟩ := h.blocks_eq
  constructor
  · intro hfound
    obtain ⟨hs, rfl⟩ := find?_eq_some hfound
    rw [hblocks, List.mem_cons] at hs
    rcases hs with rfl | hs
    · exact Or.inl ⟨rfl, rfl⟩
    · obtain ⟨i, hi, rfl⟩ := List.getElem_of_mem hs
      have hi' : i < log.length := by rwa [hall.length_eq]
      have hkeeps := hall.get hi' hi
      exact Or.inr ⟨log[i], List.getElem_mem hi', hkeeps.id_eq.symm, hkeeps⟩
  · rintro (⟨rfl, rfl⟩ | ⟨e, he, rfl, hkeeps⟩)
    · exact h.find?_genesis
    · obtain ⟨t, ht, hkept⟩ := h.exists_stored he
      obtain rfl := hkeeps.unique hkept
      rw [← hkept.id_eq]
      exact wf.find?_id ht

/-- No two additions of the log are of one id. -/
theorem eq_of_id_eq (h : Logged genesis log c) {b : Addition} (ha : a ∈ log) (hb : b ∈ log)
    (hid : a.id = b.id) : a = b := by
  have hnodup := h.reachable.wellFormed.nodup
  rw [h.ids_eq] at hnodup
  exact List.inj_on_of_nodup_map (List.nodup_cons.mp hnodup).2 ha hb hid

/-- **The receipt of a place in the log is fetched for good.** -/
theorem receipt_eq (h : Logged genesis log c) (hloc : loc ∈ indexed log x) :
    ∃ a ∈ log, a.id = loc.blockId ∧ ∃ r, a.receipts[loc.index]? = some r ∧
      ∀ c', c.Extends c' → c'.receipt loc = .ok r := by
  obtain ⟨a, ha, hmem⟩ := List.mem_flatMap.mp hloc
  obtain ⟨hid, tx, htx, -⟩ := Addition.mem_locations.mp hmem
  obtain ⟨s, hs, ids, hids, hkept⟩ := h.exists_stored ha
  have wf := h.reachable.wellFormed
  -- as many receipts as transactions, so there is one at the transaction's position
  have hlen : a.receipts.length = a.block.transactions.length := by
    have hcount := wf.receipts s hs
    rw [hkept] at hcount
    rw [(txIds_eq_ok_iff.mp hids).length_eq]
    exact hcount
  have hlt : loc.index < a.receipts.length := by
    rw [hlen]
    exact (List.getElem?_eq_some_iff.mp htx).1
  refine ⟨a, ha, hid, _, List.getElem?_eq_getElem hlt, ?_⟩
  intro c' hext
  have hplace : s.id = loc.blockId := by rw [hkept, ← hid]
  have hstored : c.contains loc.blockId = true := hplace ▸ contains_of_mem hs
  have hr : s.receipts[loc.index]? = some a.receipts[loc.index] := by
    rw [hkept]
    exact List.getElem?_eq_getElem hlt
  rw [hext.receipt_eq hstored, ← wf.receipt_stored hs hr, hplace]

/-- **Look-up and fetch, in full.** `lookup` fails iff the block is not stored. Otherwise it finds
the first of the `indexed` places that are in an `Ancestor`, iff there is one, and `receipt` of it
is, after any additions, the one that this block was added with. -/
theorem lookup_correct (hg : genesis.number = 0) (h : Logged genesis log c) (low : c.Low)
    (A : BlockId) (x : TxId) :
    (c.lookup A x = .error (.unknownBlock A) ↔ c.contains A = false) ∧
    (c.contains A = true → ∃ found, c.lookup A x = .ok found ∧
      (found.isSome = true ↔ ∃ a ∈ log, c.Ancestor a.id A ∧
        ∃ tx ∈ a.block.transactions, tx.id = .ok x) ∧
      ∀ loc, found = some loc → c.Ancestor loc.blockId A ∧
        (∃ before after, indexed log x = before ++ loc :: after ∧
          ∀ other ∈ before, ¬c.Ancestor other.blockId A) ∧
        ∃ a ∈ log, a.id = loc.blockId ∧ (∀ b ∈ log, b.id = a.id → b = a) ∧
          ∃ r, a.receipts[loc.index]? = some r ∧ ∀ c', c.Extends c' → c'.receipt loc = .ok r) := by
  have wf := h.reachable.wellFormed
  have h0 := h.reachable.genesis_number hg
  refine ⟨?_, ?_⟩
  · rw [lookup]
    cases c.contains A <;> simp
  · intro hA
    have hwalk : ∀ b, c.isAncestor b A = true ↔ c.Ancestor b A :=
      fun b => wf.isAncestor_iff h0 low hA
    refine ⟨_, if_pos hA, ?_, ?_⟩
    · rw [h.locations_eq, List.find?_isSome]
      constructor
      · rintro ⟨loc, hloc, hanc⟩
        obtain ⟨a, ha, hmem⟩ := List.mem_flatMap.mp hloc
        obtain ⟨hid, tx, htx, hx⟩ := Addition.mem_locations.mp hmem
        exact ⟨a, ha, hid ▸ (hwalk _).mp hanc, tx, List.mem_of_getElem? htx, hx⟩
      · rintro ⟨a, ha, hanc, tx, htx, hx⟩
        obtain ⟨i, hi⟩ := List.mem_iff_getElem?.mp htx
        have hloc : ⟨a.id, i⟩ ∈ a.locations x := Addition.mem_locations.mpr ⟨rfl, tx, hi, hx⟩
        exact ⟨⟨a.id, i⟩, List.mem_flatMap.mpr ⟨a, ha, hloc⟩, (hwalk _).mpr hanc⟩
    · intro loc hfound
      rw [h.locations_eq] at hfound
      obtain ⟨hanc, before, after, hsplit, hbefore⟩ := List.find?_eq_some_iff_append.mp hfound
      obtain ⟨a, ha, hid, r, hr, hfetch⟩ := h.receipt_eq (List.mem_of_find?_eq_some hfound)
      refine ⟨(hwalk _).mp hanc, ⟨before, after, hsplit, ?_⟩, a, ha, hid, ?_, r, hr, hfetch⟩
      · intro other hother hanc'
        simpa [(hwalk _).mpr hanc'] using hbefore other hother
      · intro b hb hbid
        exact h.eq_of_id_eq hb ha hbid

end Logged

/-! ## Two siblings

Two blocks after genesis hold the same transaction, which went through in the one and was reverted
in the other. -/

namespace Siblings

/-- A block after genesis with the first sample transaction. -/
def child (timestamp : UInt64) (reverted : Bool) : Addition where
  block := ⟨{ Sample.genesis with parentId := Sample.genesis.id, timestamp }, [Sample.first]⟩
  receipts := [{ Sample.receipt with reverted }]

/-- The one in which the transaction went through. -/
def left : Addition := child 1010 false

/-- The one in which it was reverted. -/
def right : Addition := child 1020 true

/-- What is stored of either. -/
def stored (a : Addition) : StoredBlock := ⟨a.id, a.block.header, [Sample.firstId], a.receipts⟩

/-- The chain with both, the left one first. -/
def chain : Chain := ((ofGenesis Sample.genesis).push (stored left)).push (stored right)

variable {timestamp : UInt64} {reverted : Bool} {log : List Addition} {c : Chain}

theorem left_ne_right : left.id ≠ right.id := by decide +kernel

theorem number_child : (child timestamp reverted).id.number = 1 := by
  rw [Addition.id, Header.number_id, Header.number, child, Header.number_id, History.sample_number]
  rfl

theorem child_ne_genesis : (child timestamp reverted).id ≠ Sample.genesis.id := by
  intro heq
  have hnumbers := congrArg BlockId.number heq
  rw [number_child, Header.number_id, History.sample_number] at hnumbers
  exact absurd hnumbers (by decide)

theorem fresh_child (h : Logged Sample.genesis log c)
    (hnew : ∀ a ∈ log, a.id ≠ (child timestamp reverted).id) :
    c.contains (child timestamp reverted).id = false := by
  rw [← Bool.not_eq_true, h.contains_iff]
  rintro (heq | ⟨a, ha, heq⟩)
  · exact child_ne_genesis heq
  · exact hnew a ha heq

theorem add_child (h : Logged Sample.genesis log c)
    (hnew : ∀ a ∈ log, a.id ≠ (child timestamp reverted).id) :
    c.add (child timestamp reverted).block (child timestamp reverted).receipts =
      .ok (c.push (stored (child timestamp reverted))) := by
  have hids : txIds (child timestamp reverted).block.transactions = .ok [Sample.firstId] :=
    txIds_eq_ok_iff.mpr (List.Forall₂.cons Sample.first_id List.Forall₂.nil)
  have hparent : c.contains Sample.genesis.id = true := h.contains_iff.mpr (Or.inl rfl)
  exact add_of_fits hids ⟨rfl, fresh_child h hnew, hparent, rfl⟩

theorem logged_child (h : Logged Sample.genesis log c)
    (hnew : ∀ a ∈ log, a.id ≠ (child timestamp reverted).id) :
    Logged Sample.genesis (log ++ [child timestamp reverted])
      (c.push (stored (child timestamp reverted))) := by
  have hadd := h.add (add_child h hnew)
  rwa [if_neg (by rw [fresh_child h hnew]; exact Bool.false_ne_true)] at hadd

theorem logged : Logged Sample.genesis [left, right] chain := by
  have hleft : Logged Sample.genesis [left] _ := logged_child Logged.start (by simp)
  refine logged_child hleft ?_
  intro a ha
  obtain rfl := List.mem_singleton.mp ha
  exact left_ne_right

theorem low : chain.Low := logged.reachable.low (by decide)

theorem stored_right : chain.contains right.id = true :=
  logged.contains_iff.mpr (Or.inr ⟨right, List.mem_cons_of_mem _ List.mem_cons_self, rfl⟩)

theorem left_not_ancestor : ¬chain.Ancestor left.id right.id := by
  have hgenesis := logged.reachable.genesis_number History.sample_number
  have hnumbers : right.id.number ≤ left.id.number := by
    rw [right, left, number_child, number_child]
    exact UInt32.le_refl 1
  intro hanc
  have hwalk := (logged.reachable.wellFormed.isAncestor_iff hgenesis low stored_right).mpr hanc
  rw [isAncestor_of_number_le (Ne.symm left_ne_right) hnumbers] at hwalk
  exact Bool.false_ne_true hwalk

/-- From the right one the transaction is found there, though it was recorded in the left one
before, and the receipt fetched is that of the reverted one. -/
theorem lookup_right : Sample.genesis.number = 0 ∧ Logged Sample.genesis [left, right] chain ∧
    chain.Low ∧ chain.lookup right.id Sample.firstId = .ok (some ⟨right.id, 0⟩) ∧
    chain.receipt ⟨right.id, 0⟩ = .ok { Sample.receipt with reverted := true } := by
  refine ⟨History.sample_number, logged, low, ?_⟩
  obtain ⟨found, hfound, hsome, hplace⟩ :=
    (Logged.lookup_correct History.sample_number logged low right.id Sample.firstId).2 stored_right
  obtain ⟨⟨id, index⟩, rfl⟩ := Option.isSome_iff_exists.mp (hsome.mpr
    ⟨right, List.mem_cons_of_mem _ List.mem_cons_self, Relation.ReflTransGen.refl, Sample.first,
      List.mem_cons_self, Sample.first_id⟩)
  obtain ⟨hanc, -, a, ha, hid, -, r, hr, hfetch⟩ := hplace _ rfl
  have hright : a = right := by
    rcases List.mem_cons.mp ha with rfl | ha
    · rw [← hid] at hanc
      exact absurd hanc left_not_ancestor
    · exact List.mem_singleton.mp ha
  subst hright
  have hindex : index < 1 := (List.getElem?_eq_some_iff.mp hr).1
  obtain rfl : index = 0 := by omega
  obtain rfl : right.id = id := hid
  obtain rfl : { Sample.receipt with reverted := true } = r := Option.some_inj.mp hr
  exact ⟨hfound, hfetch chain Relation.ReflTransGen.refl⟩

end Siblings

end ProofOfAuthority.Chain
