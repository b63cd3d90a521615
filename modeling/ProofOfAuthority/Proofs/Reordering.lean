import Mathlib.Data.List.Perm.Basic
import ProofOfAuthority.Proofs.Lookup

/-!
# The order of addition

Forks may reach a chain in any order that brings parents first. Its store and the recorded places of
a transaction come in the order of addition, so two orders leave different chains behind. They
answer alike nevertheless: a walk meets the same blocks, and as long as no ancestry holds a
transaction twice (`OnePlace`), at most one recorded place is on the path from a given block, so it
does not matter which of them come first.

* `Logged.addEach` — the log of a chain to which blocks were added one after the other.
* `Logged.ancestor_iff` — the ancestry in a chain can be read off its log.
* `Alike.of_perm` — two chains with the same log up to order answer alike.
* `alike_of_reordered` — two orders of addition, neither of which is refused, end in such chains.
-/

namespace ProofOfAuthority

/-- Where at most one member passes, the order does not matter to a search. -/
theorem find?_eq_of_perm {α : Type} {p : α → Bool} {l l' : List α} (h : l.Perm l')
    (hone : ∀ x ∈ l, ∀ y ∈ l, p x = true → p y = true → x = y) : l.find? p = l'.find? p := by
  cases hfound : l.find? p with
  | none =>
    rw [List.find?_eq_none] at hfound
    exact (List.find?_eq_none.mpr fun x hx => hfound x (h.mem_iff.mpr hx)).symm
  | some x =>
    have hx := List.mem_of_find?_eq_some hfound
    have hpx := List.find?_some hfound
    obtain ⟨y, hfound'⟩ := Option.isSome_iff_exists.mp
      (List.find?_isSome.mpr ⟨x, h.mem_iff.mp hx, hpx⟩)
    have hy := h.mem_iff.mpr (List.mem_of_find?_eq_some hfound')
    rw [hfound', hone x hx y hy hpx (List.find?_some hfound')]

namespace Chain

/-- Add blocks one after the other, until one is refused. -/
def addEach (c : Chain) (as : List Addition) : Except ChainError Chain :=
  as.foldlM (fun c a => c.add a.block a.receipts) c

/-- A block of `as` is `b` and names `p` as its parent. -/
def Names (as : List Addition) (b p : BlockId) : Prop :=
  ∃ e ∈ as, e.id = b ∧ e.block.header.parentId = p

/-- `a` is `d` or is met on the way back from `d` through the parents that blocks of `as` name. -/
def Behind (as : List Addition) (a d : BlockId) : Prop := Relation.ReflTransGen (Names as) d a

/-- No transaction stands at two places behind one block. -/
def OnePlace (as : List Addition) : Prop :=
  ∀ x d, ∀ l ∈ indexed as x, ∀ l' ∈ indexed as x,
    Behind as l.blockId d → Behind as l'.blockId d → l = l'

/-- Both chains give the same answer to every question. -/
structure Alike (c c' : Chain) : Prop where
  contains_eq : ∀ id, c.contains id = c'.contains id
  header_eq : ∀ id, c.header? id = c'.header? id
  lookup_eq : ∀ d x, c.lookup d x = c'.lookup d x
  receipt_eq : ∀ loc, c.receipt loc = c'.receipt loc

variable {genesis : Header} {log as as' : List Addition} {c c' : Chain} {a d id : BlockId}
  {s : StoredBlock}

/-! ## The log -/

/-- Blocks of distinct ids that are added one after the other are the log, in that order. -/
theorem Logged.addEach (h : Logged genesis log c) (hnodup : ((log ++ as).map Addition.id).Nodup)
    (hne : ∀ a ∈ as, a.id ≠ genesis.id) (hadd : c.addEach as = .ok c') :
    Logged genesis (log ++ as) c' := by
  induction as generalizing log c with
  | nil =>
    obtain rfl := Except.ok.inj hadd
    rwa [List.append_nil]
  | cons a as ih =>
    rw [Chain.addEach, List.foldlM_cons] at hadd
    obtain ⟨next, hnext, hrest⟩ := bind_eq_ok_iff.mp hadd
    have hfresh : ¬c.contains a.id = true := by
      rw [h.contains_iff]
      rintro (heq | ⟨b, hb, heq⟩)
      · exact hne a List.mem_cons_self heq
      · rw [List.map_append, List.map_cons] at hnodup
        exact (List.nodup_append.mp hnodup).2.2 b.id (List.mem_map_of_mem hb) a.id
          List.mem_cons_self heq
    have hlog := h.add hnext
    rw [if_neg hfresh] at hlog
    rw [List.append_cons] at hnodup ⊢
    exact ih hlog hnodup (fun b hb => hne b (List.mem_cons_of_mem _ hb)) hrest

/-- The parents in a chain are those that the blocks of its log name. -/
theorem Logged.parent_iff (h : Logged genesis log c) : c.Parent d a ↔ Names log d a := by
  have hgenesis : c.genesisId = genesis.id := Extends.genesisId_eq h.reachable
  constructor
  · rintro ⟨hne, s, hs, rfl⟩
    rcases h.find?_eq_some_iff.mp hs with ⟨rfl, -⟩ | ⟨e, he, hid, ids, -, rfl⟩
    · exact absurd hgenesis.symm hne
    · exact ⟨e, he, hid, rfl⟩
  · rintro ⟨e, he, rfl, rfl⟩
    obtain ⟨s, -, hkeeps⟩ := h.exists_stored he
    have hfound := h.find?_eq_some_iff.mpr (Or.inr ⟨e, he, rfl, hkeeps⟩)
    refine ⟨?_, s, hfound, ?_⟩
    · have hids := h.reachable.wellFormed.nodup
      rw [h.ids_eq, List.nodup_cons] at hids
      intro heq
      exact hids.1 (by rw [← hgenesis, ← heq]; exact List.mem_map_of_mem he)
    · obtain ⟨ids, -, rfl⟩ := hkeeps
      rfl

/-- **The ancestry in a chain can be read off its log.** -/
theorem Logged.ancestor_iff (h : Logged genesis log c) : c.Ancestor a d ↔ Behind log a d := by
  have hparents : c.Parent = Names log := funext₂ fun _ _ => propext h.parent_iff
  rw [Ancestor, hparents, Behind]

/-! ## Two orders -/

/-- The order of the log does not matter to what is stored under an id. -/
theorem Logged.find?_eq_of_perm (h : Logged genesis as c) (h' : Logged genesis as' c')
    (hperm : as.Perm as') (id : BlockId) : c.find? id = c'.find? id := by
  refine Option.ext fun s => ?_
  rw [h.find?_eq_some_iff, h'.find?_eq_some_iff]
  simp only [hperm.mem_iff]

/-- A walk reads nothing but the store. -/
theorem isAncestor_congr (h : ∀ id, c.find? id = c'.find? id) :
    c.isAncestor a d = c'.isAncestor a d := by
  have hwalk : ∀ steps cursor, c.walk a steps cursor = c'.walk a steps cursor := by
    intro steps
    induction steps with
    | zero => intro cursor; rfl
    | succ steps ih =>
      intro cursor
      rw [walk, walk, h cursor]
      simp only [ih]
  rw [isAncestor, isAncestor, hwalk]

/-- **Two chains with the same log up to order answer alike.** Among the places of a transaction a
search from one block passes at most one, whichever of them come first. -/
theorem Alike.of_perm (hg : genesis.number = 0) (h : Logged genesis as c)
    (h' : Logged genesis as' c') (hperm : as.Perm as') (hone : OnePlace as) : Alike c c' := by
  have hfind := h.find?_eq_of_perm h' hperm
  have hcontains : ∀ id, c.contains id = c'.contains id := by
    intro id
    rw [contains, hfind, contains]
  have hplaces : ∀ x d, (c.locations x).find? (fun loc => c.isAncestor loc.blockId d) =
      (c'.locations x).find? (fun loc => c'.isAncestor loc.blockId d) := by
    intro x d
    simp only [← isAncestor_congr hfind]
    rw [h.locations_eq, h'.locations_eq]
    refine ProofOfAuthority.find?_eq_of_perm (hperm.flatMap_right _) ?_
    have hbehind : ∀ b, c.isAncestor b d = true → Behind as b d := fun b hwalk =>
      h.ancestor_iff.mp (isAncestor_sound (h.reachable.genesis_number hg) hwalk)
    intro l hl l' hl' hwalk hwalk'
    exact hone x d l hl l' hl' (hbehind _ hwalk) (hbehind _ hwalk')
  refine ⟨hcontains, ?_, ?_, ?_⟩
  · intro id
    rw [header?, hfind, header?]
  · intro d x
    rw [lookup, lookup, hcontains, hplaces]
  · intro loc
    rw [receipt, receipt, hfind]

/-- **The order of addition does not matter.** Blocks of distinct ids, none of them that of genesis,
of which no ancestry holds a transaction twice (`OnePlace`), end in chains that are `Alike` if
`addEach` adds them in any two orders. -/
theorem alike_of_reordered (hg : genesis.number = 0) (hnodup : (as.map Addition.id).Nodup)
    (hne : ∀ a ∈ as, a.id ≠ genesis.id) (hone : OnePlace as) (hperm : as.Perm as')
    (hadd : (ofGenesis genesis).addEach as = .ok c)
    (hadd' : (ofGenesis genesis).addEach as' = .ok c') : Alike c c' := by
  have hlog : Logged genesis as c := Logged.start.addEach hnodup hne hadd
  have hlog' : Logged genesis as' c' :=
    Logged.start.addEach ((hperm.map _).nodup_iff.mp hnodup)
      (fun a ha => hne a (hperm.mem_iff.mpr ha)) hadd'
  exact Alike.of_perm hg hlog hlog' hperm hone

namespace Siblings

/-- The chain with both, the right one first. -/
def reordered : Chain := ((ofGenesis Sample.genesis).push (stored right)).push (stored left)

theorem exists_child {a : Addition} (ha : a ∈ [left, right]) :
    ∃ timestamp reverted, a = child timestamp reverted := by
  rcases List.mem_cons.mp ha with rfl | ha
  · exact ⟨1010, false, rfl⟩
  · exact ⟨1020, true, List.mem_singleton.mp ha⟩

/-- Both come right after genesis, so neither is behind any other block. -/
theorem eq_of_behind {a : Addition} (ha : a ∈ [left, right]) {d : BlockId}
    (hbehind : Behind [left, right] a.id d) : a.id = d := by
  rcases Relation.ReflTransGen.cases_tail hbehind with heq | ⟨b, -, e, he, -, hparent⟩
  · exact heq
  · obtain ⟨_, _, rfl⟩ := exists_child ha
    obtain ⟨_, _, rfl⟩ := exists_child he
    exact absurd hparent.symm child_ne_genesis

theorem eq_of_mem_indexed {x : TxId} {l : Location} (hl : l ∈ indexed [left, right] x) :
    ∃ a ∈ [left, right], l = ⟨a.id, 0⟩ := by
  obtain ⟨a, ha, hl⟩ := List.mem_flatMap.mp hl
  obtain ⟨hid, tx, htx, -⟩ := Addition.mem_locations.mp hl
  have hlt := (List.getElem?_eq_some_iff.mp htx).1
  refine ⟨a, ha, ?_⟩
  obtain ⟨_, _, rfl⟩ := exists_child ha
  obtain ⟨b, i⟩ := l
  obtain rfl : i = 0 := Nat.lt_one_iff.mp hlt
  rw [hid]

theorem onePlace : OnePlace [left, right] := by
  intro x d l hl l' hl' hbehind hbehind'
  obtain ⟨a, ha, rfl⟩ := eq_of_mem_indexed hl
  obtain ⟨b, hb, rfl⟩ := eq_of_mem_indexed hl'
  rw [eq_of_behind ha hbehind, eq_of_behind hb hbehind']

theorem addEach_pair {first second : Addition}
    (hadd : (ofGenesis Sample.genesis).add first.block first.receipts =
      .ok ((ofGenesis Sample.genesis).push (stored first)))
    (hadd' : ((ofGenesis Sample.genesis).push (stored first)).add second.block second.receipts =
      .ok (((ofGenesis Sample.genesis).push (stored first)).push (stored second))) :
    (ofGenesis Sample.genesis).addEach [first, second] =
      .ok (((ofGenesis Sample.genesis).push (stored first)).push (stored second)) := by
  refine bind_eq_ok_iff.mpr ⟨_, hadd, bind_eq_ok_iff.mpr ⟨_, hadd', rfl⟩⟩

/-- Added in either order the siblings answer alike, though the places of the transaction that both
hold are recorded in different orders. -/
theorem reordered_alike :
    (ofGenesis Sample.genesis).addEach [left, right] = .ok chain ∧
      (ofGenesis Sample.genesis).addEach [right, left] = .ok reordered ∧
      chain.locations Sample.firstId ≠ reordered.locations Sample.firstId ∧
      Alike chain reordered := by
  have hleft : Logged Sample.genesis [left] _ := logged_child Logged.start (by simp)
  have hright : Logged Sample.genesis [right] _ := logged_child Logged.start (by simp)
  have hadd := addEach_pair (add_child Logged.start (by simp))
    (add_child hleft fun a ha => by rw [List.mem_singleton.mp ha]; exact left_ne_right)
  have hadd' := addEach_pair (add_child Logged.start (by simp))
    (add_child hright fun a ha => by rw [List.mem_singleton.mp ha]; exact left_ne_right.symm)
  have hnodup : ([left, right].map Addition.id).Nodup := by simp [left_ne_right]
  have hne : ∀ a ∈ [left, right], a.id ≠ Sample.genesis.id := by
    intro a ha
    obtain ⟨_, _, rfl⟩ := exists_child ha
    exact child_ne_genesis
  refine ⟨hadd, hadd', ?_, alike_of_reordered History.sample_number hnodup hne onePlace
    (List.Perm.swap ..) hadd hadd'⟩
  simp [chain, reordered, locations_push, stored, StoredBlock.locations, left_ne_right]

end Siblings

end Chain

end ProofOfAuthority
