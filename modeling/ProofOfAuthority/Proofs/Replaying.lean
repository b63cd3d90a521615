import Mathlib.Algebra.GroupWithZero.Nat
import Mathlib.Data.List.Induction
import ProofOfAuthority.Execution.ValueTransfer
import ProofOfAuthority.Proofs.Growth
import ProofOfAuthority.Validation.Replay

/-!
# What a replay establishes

A replay mixes three concerns: whether each transaction may be included, what the executor makes of
it, and the commitments of the header. Here they come apart. `Includable` says what the chain and
the order of the transactions have to offer, `executeAll` runs the transactions and nothing else,
and a replay succeeds exactly when both do and the header commits to the outcome.

* `Progress.step_sound`, `Progress.step_complete` — one transaction, both ways.
* `Progress.steps_sound`, `Progress.steps_complete` — a whole list, by induction.
* `replay_sound`, `replay_complete` — a whole block.
* `Chain.SameView.replay_eq` — a replay sees nothing of the chain but look-ups below the parent.
-/

namespace ProofOfAuthority

/-! ## Positions in a list -/

theorem getElem?_take_eq_some {α : Type} {xs : List α} {x : α} {i j : Nat} :
    (xs.take i)[j]? = some x ↔ j < i ∧ xs[j]? = some x := by
  rw [List.getElem?_take]
  split <;> simp [*]

theorem getElem?_concat_eq_some {α : Type} {xs : List α} {x y : α} {j : Nat} :
    (xs ++ [x])[j]? = some y ↔ xs[j]? = some y ∨ j = xs.length ∧ x = y := by
  rcases Nat.lt_trichotomy j xs.length with hlt | rfl | hgt
  · rw [List.getElem?_append_left hlt]
    simp [Nat.ne_of_lt hlt]
  · simp
  · rw [List.getElem?_eq_none (by simp; omega), List.getElem?_eq_none (Nat.le_of_lt hgt)]
    simp [Nat.ne_of_gt hgt]

/-! ## What may be included -/

namespace Chain

variable {c c' : Chain} {parentId : BlockId} {txs : List Transaction} {ids : List TxId}
  {receipts : List Receipt}

/-- `d` has gone through before: as one of these transactions, or in the ancestry of `parentId`. -/
def Met (c : Chain) (parentId : BlockId) (ids : List TxId) (receipts : List Receipt) (d : TxId) :
    Prop :=
  (∃ (j : Nat) (r : Receipt), ids[j]? = some d ∧ receipts[j]? = some r ∧ r.reverted = false) ∨
    ∃ loc r, c.lookup parentId d = .ok (some loc) ∧ c.receipt loc = .ok r ∧ r.reverted = false

/-- The transactions may make up a block on top of `parentId`, given the receipts they will have:
none is included before, and all that they depend on has gone through earlier. -/
structure Includable (c : Chain) (parentId : BlockId) (txs : List Transaction) (ids : List TxId)
    (receipts : List Receipt) : Prop where
  txIds_eq : txIds txs = .ok ids
  count : receipts.length = txs.length
  nodup : ids.Nodup
  fresh : ∀ id ∈ ids, c.lookup parentId id = .ok none
  depends : ∀ (i : Nat) tx d, txs[i]? = some tx → tx.dependsOn = some d →
    c.Met parentId (ids.take i) (receipts.take i) d

theorem Includable.nil : c.Includable parentId [] [] [] where
  txIds_eq := rfl
  count := rfl
  nodup := List.nodup_nil
  fresh := by simp
  depends := by simp

theorem Includable.length (h : c.Includable parentId txs ids receipts) :
    ids.length = txs.length :=
  (txIds_eq_ok_iff.mp h.txIds_eq).length_eq.symm

/-- The two chains give a replay on top of `parentId` the same answers. -/
structure SameView (c c' : Chain) (parentId : BlockId) : Prop where
  lookup : ∀ id, c'.lookup parentId id = c.lookup parentId id
  receipt : ∀ id loc, c.lookup parentId id = .ok (some loc) → c'.receipt loc = c.receipt loc

/-- **Growth does not change the view** from a stored block. -/
theorem Extends.sameView (wf : c.WellFormed) (h0 : c.genesisId.number = 0) (h : c.Extends c')
    (hd : c.contains parentId = true) : c.SameView c' parentId where
  lookup id := Extends.lookup_eq wf h0 h hd id
  receipt id loc hloc := by
    obtain ⟨s, hs, hid, -⟩ := mem_locations_iff.mp (lookup_sound h0 hloc).1
    exact Extends.receipt_eq h (contains_iff_mem.mpr ⟨s, hs, hid⟩)

theorem Met.view {d : TxId} (h : c.SameView c' parentId) (hd : c.Met parentId ids receipts d) :
    c'.Met parentId ids receipts d := by
  rcases hd with hblock | ⟨loc, r, hlookup, hrec, hrev⟩
  · exact Or.inl hblock
  · exact Or.inr ⟨loc, r, by rw [h.lookup, hlookup], by rw [h.receipt d loc hlookup, hrec], hrev⟩

/-- What may be included on top of a block may be so for good. Without a stored parent that is
nothing, which stays so trivially. -/
theorem Includable.extends (wf : c.WellFormed) (h0 : c.genesisId.number = 0) (h : c.Extends c')
    (hi : c.Includable parentId txs ids receipts) : c'.Includable parentId txs ids receipts := by
  by_cases hd : c.contains parentId = true
  · have hview := Extends.sameView wf h0 h hd
    refine ⟨hi.txIds_eq, hi.count, hi.nodup, ?_, ?_⟩
    · intro id hid
      rw [hview.lookup, hi.fresh id hid]
    · intro i tx d htx hdep
      exact (hi.depends i tx d htx hdep).view hview
  · cases ids with
    | nil =>
      obtain rfl : txs = [] := List.eq_nil_of_length_eq_zero hi.length.symm
      obtain rfl : receipts = [] := List.eq_nil_of_length_eq_zero hi.count
      exact Includable.nil
    | cons id ids => exact absurd (contains_of_lookup (hi.fresh id (by simp))).1 hd

theorem Includable.take (h : c.Includable parentId txs ids receipts) (n : Nat) :
    c.Includable parentId (txs.take n) (ids.take n) (receipts.take n) where
  txIds_eq := txIds_eq_ok_iff.mpr (List.forall₂_take n (txIds_eq_ok_iff.mp h.txIds_eq))
  count := by rw [List.length_take, List.length_take, h.count]
  nodup := h.nodup.sublist (List.take_sublist n ids)
  fresh id hid := h.fresh id (List.mem_of_mem_take hid)
  depends i tx d hi hd := by
    obtain ⟨hlt, hi⟩ := getElem?_take_eq_some.mp hi
    rw [List.take_take, List.take_take, Nat.min_eq_left (Nat.le_of_lt hlt)]
    exact h.depends i tx d hi hd

theorem txIds_concat {tx : Transaction} {id : TxId} :
    txIds (txs ++ [tx]) = .ok (ids ++ [id]) ↔ txIds txs = .ok ids ∧ tx.id = .ok id := by
  rw [txIds_eq_ok_iff, txIds_eq_ok_iff, ← List.forall₂_reverse_iff]
  simp [and_comm]

theorem txIds_getElem? {i : Nat} {tx : Transaction} {id : TxId} (h : txIds txs = .ok ids)
    (htx : txs[i]? = some tx) (hid : tx.id = .ok id) : ids[i]? = some id := by
  have hall := txIds_eq_ok_iff.mp h
  obtain ⟨hi, rfl⟩ := List.getElem?_eq_some_iff.mp htx
  have hi' : i < ids.length := by rwa [← hall.length_eq]
  have hget : txs[i].id = .ok ids[i] := hall.get hi hi'
  rw [List.getElem?_eq_getElem hi', Except.ok.inj (hget.symm.trans hid)]

/-- **One more transaction** may be included if it is new and what it depends on has gone
through. -/
theorem Includable.concat (h : c.Includable parentId txs ids receipts) {tx : Transaction}
    {id : TxId} {r : Receipt} (htx : tx.id = .ok id) (hnew : id ∉ ids)
    (hfresh : c.lookup parentId id = .ok none)
    (hdep : ∀ d, tx.dependsOn = some d → c.Met parentId ids receipts d) :
    c.Includable parentId (txs ++ [tx]) (ids ++ [id]) (receipts ++ [r]) where
  txIds_eq := txIds_concat.mpr ⟨h.txIds_eq, htx⟩
  count := by simp [h.count]
  nodup := by simpa using h.nodup.concat hnew
  fresh x hx := by
    rcases List.mem_append.mp hx with hx | hx
    · exact h.fresh x hx
    · rw [List.mem_singleton.mp hx]
      exact hfresh
  depends i tx' d hi hd := by
    rcases getElem?_concat_eq_some.mp hi with hi | ⟨rfl, rfl⟩
    · have hlt : i < txs.length := (List.getElem?_eq_some_iff.mp hi).1
      rw [List.take_append_of_le_length (by rw [h.length]; omega),
        List.take_append_of_le_length (by rw [h.count]; omega)]
      exact h.depends i tx' d hi hd
    · rw [List.take_left' h.length, List.take_left' h.count]
      exact hdep d hd

/-- The last transaction of those that may be included is new, and what it depends on has gone
through. -/
theorem Includable.of_concat {tx : Transaction} {id : TxId} {r : Receipt}
    (hids : ids.length = txs.length) (hrec : receipts.length = txs.length)
    (h : c.Includable parentId (txs ++ [tx]) (ids ++ [id]) (receipts ++ [r])) :
    c.Includable parentId txs ids receipts ∧ tx.id = .ok id ∧ id ∉ ids ∧
      c.lookup parentId id = .ok none ∧
      ∀ d, tx.dependsOn = some d → c.Met parentId ids receipts d := by
  have hinit := h.take txs.length
  rw [List.take_left' rfl, List.take_left' hids, List.take_left' hrec] at hinit
  have hnodup : (ids.concat id).Nodup := by simpa using h.nodup
  refine ⟨hinit, (txIds_concat.mp h.txIds_eq).2, ((List.nodup_concat ids id).mp hnodup).1,
    h.fresh id (by simp), ?_⟩
  intro d hd
  have hmet := h.depends txs.length tx d (by simp) hd
  rwa [List.take_left' hids, List.take_left' hrec] at hmet

end Chain

/-! ## Executing in order -/

variable {μ : Type}

/-- Run transactions in order, each on the ledger that the one before it leaves, and collect their
receipts. -/
def Executor.executeAll (executor : Executor μ) (context : BlockContext) :
    μ → Ledger → List Transaction → Except ExecutionError (μ × Ledger × List Receipt)
  | memory, ledger, [] => .ok (memory, ledger, [])
  | memory, ledger, tx :: rest => do
    let (memory, execution) := executor.execute memory ledger context tx
    let receipt ← execution.result
    let (memory, ledger, receipts) ← executor.executeAll context memory execution.ledger rest
    return (memory, ledger, receipt :: receipts)

/-- The gas that receipts add up to, or the largest word. -/
def gasTotal (receipts : List Receipt) : UInt64 :=
  receipts.foldl (fun total receipt => satAdd total receipt.gasUsed) 0

theorem gasTotal_concat (receipts : List Receipt) (r : Receipt) :
    gasTotal (receipts ++ [r]) = satAdd (gasTotal receipts) r.gasUsed := by
  simp [gasTotal]

/-- The total is the sum, cut off at the largest word once and for all. -/
theorem toNat_gasTotal (receipts : List Receipt) :
    (gasTotal receipts).toNat = min maxWord (receipts.map fun r => r.gasUsed.toNat).sum := by
  induction receipts using List.reverseRecOn with
  | nil => rfl
  | append_singleton receipts r ih =>
    rw [gasTotal_concat, toNat_satAdd, ih, List.map_append, List.sum_append, List.map_singleton,
      List.sum_singleton]
    omega

theorem Executor.executeAll_cons {executor : Executor μ} {context : BlockContext} {memory : μ}
    {ledger : Ledger} {tx : Transaction} {rest : List Transaction}
    {result : μ × Ledger × List Receipt} :
    executor.executeAll context memory ledger (tx :: rest) = .ok result ↔
      ∃ m l r tail, executor.execute memory ledger context tx = (m, ⟨l, .ok r⟩) ∧
        executor.executeAll context m l rest = .ok (result.1, result.2.1, tail) ∧
        result.2.2 = r :: tail := by
  obtain ⟨m', l', rs'⟩ := result
  rw [executeAll]
  obtain ⟨m, l, r | r⟩ := executor.execute memory ledger context tx
  · simp [bind, Except.bind]
  · simp only [bind_eq_ok_iff]
    constructor
    · rintro ⟨r', hr, ⟨m₁, l₁, tail⟩, htail, hresult⟩
      cases hr
      cases hresult
      exact ⟨m, l, r, tail, rfl, htail, rfl⟩
    · rintro ⟨m₁, l₁, r₁, tail, hexec, htail, hreceipts⟩
      cases hexec
      exact ⟨r, rfl, (m', l', tail), htail, by rw [hreceipts]; rfl⟩

namespace Progress

variable {p q : Progress μ} {chain : Chain} {parentId : BlockId} {executor : Executor μ}
  {header : Header} {ids : List TxId} {receipts : List Receipt} {txs : List Transaction}

/-- The progress after one more execution. -/
def record (p : Progress μ) (id : TxId) (memory : μ) (ledger : Ledger) (receipt : Receipt) :
    Progress μ where
  ledger := ledger
  memory := memory
  done := (id, receipt.reverted) :: p.done
  receipts := receipt :: p.receipts
  gasUsed := satAdd p.gasUsed receipt.gasUsed
  fetches := p.fetches

/-- A dependency on `d` is met, as far as the replay can tell. -/
def Resolves (p : Progress μ) (chain : Chain) (parentId : BlockId) (d : TxId) : Prop :=
  p.done.lookup d = some false ∨ p.done.lookup d = none ∧
    ∃ loc r, chain.lookup parentId d = .ok (some loc) ∧ chain.receipt loc = .ok r ∧
      r.reverted = false

/-! ## The checks of one transaction -/

theorem checkNew_ok {id : TxId} : p.checkNew chain parentId id = .ok () ↔
    p.done.lookup id = none ∧ chain.lookup parentId id = .ok none := by
  unfold checkNew find
  cases p.done.lookup id with
  | some reverted => simp [stop]
  | none =>
    rcases chain.lookup parentId id with cause | (_ | loc) <;> simp [stop, Except.map]

theorem checkDependency_ok {id : TxId} {dependsOn : Option TxId}
    (h : p.checkDependency chain parentId id dependsOn = .ok q) :
    (∃ k, q = { p with fetches := k }) ∧ ∀ d, dependsOn = some d → p.Resolves chain parentId d := by
  cases dependsOn with
  | none =>
    obtain rfl : p = q := by simpa [checkDependency] using h
    exact ⟨⟨p.fetches, rfl⟩, by simp⟩
  | some d =>
    unfold checkDependency find at h
    have hdep : p.Resolves chain parentId d → ∀ d', some d = some d' →
        p.Resolves chain parentId d' := by
      rintro hd d' ⟨⟩
      exact hd
    cases hdone : p.done.lookup d with
    | some reverted =>
      cases reverted with
      | true => simp [hdone, stop] at h
      | false =>
        obtain rfl : p = q := by simpa [hdone] using h
        exact ⟨⟨p.fetches, rfl⟩, hdep (Or.inl hdone)⟩
    | none =>
      rcases hlookup : chain.lookup parentId d with cause | (_ | loc)
      · simp [hdone, hlookup, stop, Except.map] at h
      · simp [hdone, hlookup, stop, Except.map] at h
      · rcases hrec : chain.receipt loc with cause | r
        · simp [hdone, hlookup, hrec, stop, Except.map] at h
        · cases hrev : r.reverted with
          | true => simp [hdone, hlookup, hrec, hrev, stop, Except.map] at h
          | false =>
            simp only [hdone, hlookup, hrec, hrev, Except.map, Option.map] at h
            exact ⟨⟨p.fetches + 1, (Except.ok.inj h).symm⟩,
              hdep (Or.inr ⟨hdone, loc, r, hlookup, hrec, hrev⟩)⟩

theorem checkDependency_of {id : TxId} {dependsOn : Option TxId}
    (h : ∀ d, dependsOn = some d → p.Resolves chain parentId d) :
    ∃ k, p.checkDependency chain parentId id dependsOn = .ok { p with fetches := k } := by
  cases dependsOn with
  | none => exact ⟨p.fetches, rfl⟩
  | some d =>
    unfold checkDependency find
    rcases h d rfl with hdone | ⟨hdone, loc, r, hlookup, hrec, hrev⟩
    · exact ⟨p.fetches, by simp [hdone]⟩
    · exact ⟨p.fetches + 1, by simp [hdone, hlookup, hrec, hrev, Except.map]⟩

theorem run_ok {context : BlockContext} {id : TxId} {tx : Transaction} :
    p.run executor context id tx = .ok q ↔
      ∃ m l r, executor.execute p.memory p.ledger context tx = (m, ⟨l, .ok r⟩) ∧
        q = p.record id m l r := by
  unfold run
  obtain ⟨m, l, cause | r⟩ := executor.execute p.memory p.ledger context tx
  · simp [stop]
  · constructor
    · intro h
      exact ⟨m, l, r, rfl, (Except.ok.inj h).symm⟩
    · rintro ⟨m', l', r', hexec, rfl⟩
      cases hexec
      rfl

/-- **What one step does** if it does not stop: the id is new, the dependency resolves, and the
execution is recorded. -/
theorem step_ok {tx : Transaction} (h : p.step chain executor header tx = .ok q) :
    ∃ id k m l r, tx.id = .ok id ∧ p.done.lookup id = none ∧
      chain.lookup header.parentId id = .ok none ∧
      (∀ d, tx.dependsOn = some d → p.Resolves chain header.parentId d) ∧
      executor.execute p.memory p.ledger header.context tx = (m, ⟨l, .ok r⟩) ∧
      q = { p with fetches := k }.record id m l r := by
  unfold step at h
  cases hid : tx.id with
  | error cause =>
    rw [hid] at h
    exact absurd h (by simp [stop])
  | ok id =>
    rw [hid] at h
    obtain ⟨⟨⟩, hnew, h⟩ := bind_eq_ok_iff.mp h
    obtain ⟨p', hdep, h⟩ := bind_eq_ok_iff.mp h
    obtain ⟨hdone, hlookup⟩ := checkNew_ok.mp hnew
    obtain ⟨⟨k, rfl⟩, hresolves⟩ := checkDependency_ok hdep
    obtain ⟨m, l, r, hexec, rfl⟩ := run_ok.mp h
    exact ⟨id, k, m, l, r, rfl, hdone, hlookup, hresolves, hexec, rfl⟩

theorem step_of {tx : Transaction} {id : TxId} {m : μ} {l : Ledger} {r : Receipt}
    (hid : tx.id = .ok id) (hdone : p.done.lookup id = none)
    (hlookup : chain.lookup header.parentId id = .ok none)
    (hdep : ∀ d, tx.dependsOn = some d → p.Resolves chain header.parentId d)
    (hexec : executor.execute p.memory p.ledger header.context tx = (m, ⟨l, .ok r⟩)) :
    ∃ k, p.step chain executor header tx = .ok ({ p with fetches := k }.record id m l r) := by
  obtain ⟨k, hk⟩ := checkDependency_of hdep
  refine ⟨k, ?_⟩
  unfold step
  rw [hid]
  exact bind_eq_ok_iff.mpr ⟨(), checkNew_ok.mpr ⟨hdone, hlookup⟩,
    bind_eq_ok_iff.mpr ⟨_, hk, run_ok.mpr ⟨m, l, r, hexec, rfl⟩⟩⟩

/-! ## Progress as a record of what was replayed -/

/-- The progress of a replay that has been through transactions with these ids and receipts. -/
structure Records (p : Progress μ) (ids : List TxId) (receipts : List Receipt) : Prop where
  done_iff : ∀ d b, p.done.lookup d = some b ↔
    ∃ (j : Nat) (r : Receipt), ids[j]? = some d ∧ receipts[j]? = some r ∧ r.reverted = b
  receipts_eq : p.receipts = receipts.reverse
  gasUsed_eq : p.gasUsed = gasTotal receipts

theorem records_start (ledger : Ledger) (memory : μ) : (start ledger memory).Records [] [] where
  done_iff := by simp [start]
  receipts_eq := rfl
  gasUsed_eq := rfl

theorem Records.lookup_eq_none_iff (h : p.Records ids receipts)
    (hlen : receipts.length = ids.length) {d : TxId} : p.done.lookup d = none ↔ d ∉ ids := by
  constructor
  · intro hnone hmem
    obtain ⟨j, hj, rfl⟩ := List.getElem_of_mem hmem
    have hjr : j < receipts.length := by omega
    have hsome : p.done.lookup ids[j] = some receipts[j].reverted :=
      (h.done_iff _ _).mpr ⟨j, receipts[j], by simp, by simp, rfl⟩
    rw [hnone] at hsome
    exact absurd hsome (by simp)
  · intro hnew
    cases hd : p.done.lookup d with
    | none => rfl
    | some b =>
      obtain ⟨j, -, hj, -, -⟩ := (h.done_iff d b).mp hd
      exact absurd (List.mem_of_getElem? hj) hnew

/-- A dependency resolves iff it has gone through. A transaction of the block is in no ancestor, so
the two places of a dependency exclude each other. -/
theorem Records.resolves_iff (h : p.Records ids receipts) (hlen : receipts.length = ids.length)
    (hfresh : ∀ id ∈ ids, chain.lookup parentId id = .ok none) {d : TxId} :
    p.Resolves chain parentId d ↔ chain.Met parentId ids receipts d := by
  constructor
  · rintro (hdone | ⟨-, hchain⟩)
    · exact Or.inl ((h.done_iff d false).mp hdone)
    · exact Or.inr hchain
  · rintro (hblock | ⟨loc, r, hlookup, hrec, hrev⟩)
    · exact Or.inl ((h.done_iff d false).mpr hblock)
    · have hnew : d ∉ ids := by
        intro hmem
        rw [hfresh d hmem] at hlookup
        exact absurd hlookup (by simp)
      exact Or.inr ⟨(h.lookup_eq_none_iff hlen).mpr hnew, loc, r, hlookup, hrec, hrev⟩

theorem Records.record (h : p.Records ids receipts) (hlen : receipts.length = ids.length)
    {id : TxId} (hnew : id ∉ ids) (m : μ) (l : Ledger) (r : Receipt) :
    (p.record id m l r).Records (ids ++ [id]) (receipts ++ [r]) where
  done_iff d b := by
    simp only [Progress.record, getElem?_concat_eq_some]
    by_cases hd : d = id
    · subst hd
      rw [List.lookup_cons_self]
      constructor
      · intro hb
        exact ⟨ids.length, r, Or.inr ⟨rfl, rfl⟩, Or.inr ⟨hlen.symm, rfl⟩, Option.some.inj hb⟩
      · rintro ⟨j, r', hj | ⟨rfl, -⟩, hr' | ⟨hj', rfl⟩, rfl⟩
        · exact absurd (List.mem_of_getElem? hj) hnew
        · exact absurd (List.mem_of_getElem? hj) hnew
        · have := (List.getElem?_eq_some_iff.mp hr').1
          omega
        · rfl
    · rw [List.lookup_cons, beq_eq_false_iff_ne.mpr hd]
      simp only [h.done_iff]
      constructor
      · rintro ⟨j, r', hj, hr', rfl⟩
        exact ⟨j, r', Or.inl hj, Or.inl hr', rfl⟩
      · rintro ⟨j, r', hj | ⟨-, rfl⟩, hr' | ⟨hj', rfl⟩, rfl⟩
        · exact ⟨j, r', hj, hr', rfl⟩
        · have := (List.getElem?_eq_some_iff.mp hj).1
          omega
        all_goals exact absurd rfl hd
  receipts_eq := by simp [Progress.record, h.receipts_eq]
  gasUsed_eq := by rw [gasTotal_concat, ← h.gasUsed_eq]; rfl

theorem Records.setFetches (h : p.Records ids receipts) (k : Nat) :
    { p with fetches := k }.Records ids receipts :=
  ⟨h.done_iff, h.receipts_eq, h.gasUsed_eq⟩

/-! ## One step and a whole run -/

/-- **Soundness of a step.** A transaction that is replayed may be included after those before it,
and is executed. -/
theorem step_sound {tx : Transaction} (hp : p.Records ids receipts)
    (hincl : chain.Includable header.parentId txs ids receipts)
    (h : p.step chain executor header tx = .ok q) :
    ∃ id r, chain.Includable header.parentId (txs ++ [tx]) (ids ++ [id]) (receipts ++ [r]) ∧
      q.Records (ids ++ [id]) (receipts ++ [r]) ∧
      executor.execute p.memory p.ledger header.context tx = (q.memory, ⟨q.ledger, .ok r⟩) := by
  have hlen : receipts.length = ids.length := by rw [hincl.count, hincl.length]
  obtain ⟨id, k, m, l, r, hid, hdone, hlookup, hdep, hexec, rfl⟩ := step_ok h
  have hnew := (hp.lookup_eq_none_iff hlen).mp hdone
  have hmet : ∀ d, tx.dependsOn = some d → chain.Met header.parentId ids receipts d :=
    fun d hd => (hp.resolves_iff hlen hincl.fresh).mp (hdep d hd)
  exact ⟨id, r, hincl.concat hid hnew hlookup hmet, (hp.setFetches k).record hlen hnew m l r, hexec⟩

/-- **Completeness of a step.** A transaction that may be included after those before it is replayed
if the executor makes a receipt of it. -/
theorem step_complete {tx : Transaction} {id : TxId} {m : μ} {l : Ledger} {r : Receipt}
    (hp : p.Records ids receipts) (hids : ids.length = txs.length)
    (hcount : receipts.length = txs.length)
    (hincl : chain.Includable header.parentId (txs ++ [tx]) (ids ++ [id]) (receipts ++ [r]))
    (hexec : executor.execute p.memory p.ledger header.context tx = (m, ⟨l, .ok r⟩)) :
    ∃ q, p.step chain executor header tx = .ok q ∧ q.Records (ids ++ [id]) (receipts ++ [r]) ∧
      q.memory = m ∧ q.ledger = l := by
  have hlen : receipts.length = ids.length := by rw [hcount, hids]
  obtain ⟨hincl, hid, hnew, hlookup, hdep⟩ := hincl.of_concat hids hcount
  obtain ⟨k, hk⟩ := step_of hid ((hp.lookup_eq_none_iff hlen).mpr hnew) hlookup
    (fun d hd => (hp.resolves_iff hlen hincl.fresh).mpr (hdep d hd)) hexec
  exact ⟨_, hk, (hp.setFetches k).record hlen hnew m l r, rfl, rfl⟩

/-- **Soundness of a run**, by induction on the transactions to come. -/
theorem steps_sound {rest : List Transaction} (hp : p.Records ids receipts)
    (hincl : chain.Includable header.parentId txs ids receipts)
    (h : p.steps chain executor header rest = .ok q) :
    ∃ ids' tail, chain.Includable header.parentId (txs ++ rest) ids' (receipts ++ tail) ∧
      q.Records ids' (receipts ++ tail) ∧
      executor.executeAll header.context p.memory p.ledger rest =
        .ok (q.memory, q.ledger, tail) := by
  induction rest generalizing p txs ids receipts with
  | nil =>
    obtain rfl : p = q := Except.ok.inj h
    exact ⟨ids, [], by simpa using hincl, by simpa using hp, rfl⟩
  | cons tx rest ih =>
    obtain ⟨p', hstep, hrest⟩ := bind_eq_ok_iff.mp h
    obtain ⟨id, r, hincl', hp', hexec⟩ := step_sound hp hincl hstep
    obtain ⟨ids', tail, hincl'', hq, hall⟩ := ih hp' hincl' hrest
    rw [List.append_assoc, List.append_assoc, List.singleton_append, List.singleton_append]
      at hincl''
    rw [List.append_assoc, List.singleton_append] at hq
    exact ⟨ids', r :: tail, hincl'', hq,
      Executor.executeAll_cons.mpr ⟨p'.memory, p'.ledger, r, tail, hexec, hall, rfl⟩⟩

/-- **Completeness of a run**, by induction on the transactions to come. -/
theorem steps_complete {rest : List Transaction} {ids' : List TxId} {tail : List Receipt} {m : μ}
    {l : Ledger} (hp : p.Records ids receipts) (hids : ids.length = txs.length)
    (hcount : receipts.length = txs.length)
    (hincl : chain.Includable header.parentId (txs ++ rest) (ids ++ ids') (receipts ++ tail))
    (hexec : executor.executeAll header.context p.memory p.ledger rest = .ok (m, l, tail)) :
    ∃ q, p.steps chain executor header rest = .ok q ∧ q.Records (ids ++ ids') (receipts ++ tail) ∧
      q.ledger = l := by
  induction rest generalizing p txs ids ids' receipts tail with
  | nil =>
    obtain ⟨-, rfl, rfl⟩ : p.memory = m ∧ p.ledger = l ∧ [] = tail := by
      simpa [Executor.executeAll] using hexec
    have hlen := hincl.length
    obtain rfl : ids' = [] := List.eq_nil_of_length_eq_zero (by simp at hlen; omega)
    exact ⟨p, rfl, by simpa using hp, rfl⟩
  | cons tx rest ih =>
    obtain ⟨m', l', r, tail', hexec', hall, htail⟩ := Executor.executeAll_cons.mp hexec
    obtain rfl : tail = r :: tail' := htail
    have hlen := hincl.length
    obtain ⟨id, ids'', rfl⟩ := List.exists_cons_of_length_pos (l := ids') (by simp at hlen; omega)
    rw [← List.singleton_append, ← List.singleton_append (l := ids''),
      ← List.singleton_append (l := tail'), ← List.append_assoc, ← List.append_assoc,
      ← List.append_assoc] at hincl
    have hincl' := hincl.take (txs.length + 1)
    rw [List.take_left' (by simp), List.take_left' (by simp [hids]),
      List.take_left' (by simp [hcount])] at hincl'
    obtain ⟨p', hstep, hp', rfl, rfl⟩ := step_complete hp hids hcount hincl' hexec'
    obtain ⟨q, hsteps, hq, hl⟩ := ih hp' (by simp [hids]) (by simp [hcount]) hincl hall
    refine ⟨q, bind_eq_ok_iff.mpr ⟨p', hstep, hsteps⟩, ?_, hl⟩
    rwa [List.append_assoc, List.append_assoc] at hq

theorem finish_ok {replayed : Replayed} : p.finish header = .ok replayed ↔
    (header.gasUsed = p.gasUsed ∧ header.receiptsRoot = receiptsRoot p.receipts.reverse ∧
      header.stateRoot = p.ledger.root) ∧ replayed = ⟨p.ledger, p.receipts.reverse, p.fetches⟩ := by
  unfold finish
  by_cases hgas : header.gasUsed = p.gasUsed
  · by_cases hrec : header.receiptsRoot = receiptsRoot p.receipts.reverse
    · by_cases hstate : header.stateRoot = p.ledger.root
      · simp [hgas, hrec, hstate, eq_comm]
      · simp [stop, hgas, hrec, hstate]
    · simp [stop, hgas, hrec]
  · simp [stop, hgas]

end Progress

/-! ## A whole block -/

section Block

/-- The header commits to the outcome of the block's transactions. -/
structure Header.Commits (h : Header) (ledger : Ledger) (receipts : List Receipt) : Prop where
  gasUsed : h.gasUsed = gasTotal receipts
  receiptsRoot : h.receiptsRoot = ProofOfAuthority.receiptsRoot receipts
  stateRoot : h.stateRoot = ledger.root

variable {chain : Chain} {executor : Executor μ} {memory : μ} {ledger : Ledger} {block : Block}

/-- **What an accepted replay establishes.** -/
theorem replay_sound {replayed : Replayed}
    (h : replay chain executor memory ledger block = .ok replayed) :
    ∃ ids m, chain.Includable block.header.parentId block.transactions ids replayed.receipts ∧
      executor.executeAll block.header.context memory (ledger.markParent block.header.parentId)
        block.transactions = .ok (m, replayed.ledger, replayed.receipts) ∧
      block.header.Commits replayed.ledger replayed.receipts := by
  obtain ⟨q, hsteps, hfinish⟩ := bind_eq_ok_iff.mp h
  obtain ⟨ids, receipts, hincl, hq, hall⟩ :=
    Progress.steps_sound (Progress.records_start _ _) Chain.Includable.nil hsteps
  obtain ⟨⟨hgas, hrec, hstate⟩, rfl⟩ := Progress.finish_ok.mp hfinish
  have hreceipts : q.receipts.reverse = receipts := by simp [hq.receipts_eq]
  rw [hreceipts] at hrec ⊢
  exact ⟨ids, q.memory, hincl, hall, ⟨by rw [hgas, hq.gasUsed_eq]; rfl, hrec, hstate⟩⟩

/-- **What makes a replay go through**: the transactions may be included, they execute, and the
header commits to the outcome. -/
theorem replay_complete {ids : List TxId} {receipts : List Receipt} {m : μ} {after : Ledger}
    (hincl : chain.Includable block.header.parentId block.transactions ids receipts)
    (hexec : executor.executeAll block.header.context memory
      (ledger.markParent block.header.parentId) block.transactions = .ok (m, after, receipts))
    (hcommits : block.header.Commits after receipts) :
    ∃ fetches, replay chain executor memory ledger block = .ok ⟨after, receipts, fetches⟩ := by
  have hstart := Progress.records_start (ledger.markParent block.header.parentId) memory
  have hall : chain.Includable block.header.parentId ([] ++ block.transactions) ([] ++ ids)
      ([] ++ receipts) := hincl
  obtain ⟨q, hsteps, hq, rfl⟩ := Progress.steps_complete hstart rfl rfl hall hexec
  have hreceipts : q.receipts.reverse = receipts := by simp [hq.receipts_eq]
  refine ⟨q.fetches, bind_eq_ok_iff.mpr ⟨q, hsteps, Progress.finish_ok.mpr ⟨⟨?_, ?_, ?_⟩, ?_⟩⟩⟩
  · rw [hcommits.gasUsed, hq.gasUsed_eq]
    rfl
  · rw [hreceipts, hcommits.receiptsRoot]
  · exact hcommits.stateRoot
  · rw [hreceipts]

/-! ## What a replay sees of the chain -/

namespace Chain

variable {c c' : Chain} {parentId : BlockId} {p : Progress μ} {header : Header}

theorem SameView.find_eq (h : c.SameView c' parentId) (id : TxId) :
    p.find c' parentId id = p.find c parentId id := by
  unfold Progress.find
  rw [h.lookup]

theorem SameView.checkDependency_eq (h : c.SameView c' parentId) (id : TxId)
    (dependsOn : Option TxId) :
    p.checkDependency c' parentId id dependsOn = p.checkDependency c parentId id dependsOn := by
  cases dependsOn with
  | none => rfl
  | some d =>
    unfold Progress.checkDependency Progress.find
    simp only [h.lookup]
    cases p.done.lookup d with
    | some reverted => rfl
    | none =>
      rcases hlookup : c.lookup parentId d with cause | (_ | loc)
      · rfl
      · rfl
      · simp only [Except.map, Option.map, h.receipt d loc hlookup]

theorem SameView.step_eq (h : c.SameView c' header.parentId) (tx : Transaction) :
    p.step c' executor header tx = p.step c executor header tx := by
  unfold Progress.step Progress.checkNew
  simp only [h.find_eq, h.checkDependency_eq]

theorem SameView.steps_eq (h : c.SameView c' header.parentId) (txs : List Transaction) :
    p.steps c' executor header txs = p.steps c executor header txs := by
  induction txs generalizing p with
  | nil => rfl
  | cons tx rest ih =>
    unfold Progress.steps
    simp only [h.step_eq, ih]

/-- **Chains with the same answers below the parent have the same replays**, verdicts included. -/
theorem SameView.replay_eq (h : c.SameView c' block.header.parentId) :
    replay c' executor memory ledger block = replay c executor memory ledger block := by
  unfold replay
  simp only [h.steps_eq]

end Chain

end Block

/-! ## A sample block

One block with two transactions on top of a genesis block, the second depending on the first. -/

namespace Sample

/-- The account of the secret key 1, which signs everything here. -/
def signer : Address := Bytes.ofNat 0x7e5f4552091a69125d5dfcb7b8c2659029395bdf

def genesis : Header where
  parentId := BlockId.beforeGenesis
  timestamp := 1000
  gasLimit := 10000000
  beneficiary := Bytes.zero
  gasUsed := 0
  totalScore := 0
  txsRoot := Bytes.zero
  stateRoot := Bytes.zero
  receiptsRoot := Bytes.zero
  signature := Signature.zero

/-- The ledger after genesis: one active candidate, and gas for free. -/
def ledger : Ledger :=
  { Ledger.empty with candidates := [⟨signer, Bytes.zero, Bytes.zero, true⟩] }

def first : Transaction where
  chainTag := 228
  blockRef := BlockRef.ofNumber 0
  expiration := 100
  clauses := []
  gasPriceCoef := 0
  gas := 21000
  dependsOn := none
  nonce := 0
  reserved := []
  signature :=
    { r := Bytes.ofNat 0xba637a0688ef7d2c1cc5718ad0d6591fca6a8e567aabf8275383f89b0907a1da
      s := Bytes.ofNat 0xa0660f204eecaa2164614f64b1273f78e6db220af1cf5554c4806dbccb0330d
      v := 1 }

def firstId : TxId :=
  Bytes.ofNat 0x65b3044f236820158ff20bbede761a74869a4f2553f556ac89f4439dc69f88a0

def second : Transaction :=
  { first with
    dependsOn := some firstId
    nonce := 1
    signature :=
      { r := Bytes.ofNat 0x86130f0344e9ddcb174282bf27a82aefd53be04d2d2efd6b6fb810cdbd6438c
        s := Bytes.ofNat 0x63a49f14f472410fd8956c056b7dab76ee1bd4b0e35aea30bf7b62afa5aeaff7
        v := 1 } }

def secondId : TxId :=
  Bytes.ofNat 0xd47e6072e9f4a4c6956d73b5ec32d0ba6dace22a13f67e9ed9af3b04650f64f

/-- The receipt of either transaction. -/
def receipt : Receipt := ⟨21000, signer, Amount.zero, Amount.zero, false, []⟩

def block : Block where
  header :=
    { parentId := genesis.id
      timestamp := 1010
      gasLimit := 10000000
      beneficiary := Bytes.zero
      gasUsed := 42000
      totalScore := 1
      txsRoot := transactionsRoot [first, second]
      stateRoot := (ledger.markParent genesis.id).root
      receiptsRoot := receiptsRoot [receipt, receipt]
      signature :=
        { r := Bytes.ofNat 0xff25751631bfbf9e6960457ee136236c4a21da1df40d8f552fa31a060a23a5a7
          s := Bytes.ofNat 0x283787124b42768366d1e5e815afd74cb345b26d35b81130c18ea7985bb7b9f0
          v := 1 } }
  transactions := [first, second]

theorem first_signer : first.signer = .ok signer :=
  ok_of_toOption (by decide +kernel)

theorem second_signer : second.signer = .ok signer :=
  ok_of_toOption (by decide +kernel)

theorem first_id : first.id = .ok firstId := by
  have hid : keccak256 (first.idBytes signer) = firstId := by decide +kernel
  rw [Transaction.id, first_signer, ← hid]
  rfl

theorem second_id : second.id = .ok secondId := by
  have hid : keccak256 (second.idBytes signer) = secondId := by decide +kernel
  rw [Transaction.id, second_signer, ← hid]
  rfl

theorem includable : (Chain.ofGenesis genesis).Includable genesis.id [first, second]
    [firstId, secondId] [receipt, receipt] := by
  have hone : (Chain.ofGenesis genesis).Includable genesis.id [first] [firstId] [receipt] :=
    Chain.Includable.nil.concat first_id (by simp) (Chain.lookup_ofGenesis genesis _)
      (by simp [first])
  refine hone.concat second_id (by decide) (Chain.lookup_ofGenesis genesis _) ?_
  intro d hd
  obtain rfl : firstId = d := by simpa [second] using hd
  exact Or.inl ⟨0, receipt, rfl, rfl, rfl⟩

theorem executes : ValueTransfer.executor.executeAll block.header.context ()
    (ledger.markParent genesis.id) [first, second] =
      .ok ((), ledger.markParent genesis.id, [receipt, receipt]) := by
  have hfirst : ValueTransfer.execute (ledger.markParent genesis.id) block.header.context first =
      ⟨ledger.markParent genesis.id, .ok receipt⟩ := by
    rw [ValueTransfer.execute, first_signer]
    rfl
  have hsecond : ValueTransfer.execute (ledger.markParent genesis.id) block.header.context second =
      ⟨ledger.markParent genesis.id, .ok receipt⟩ := by
    rw [ValueTransfer.execute, second_signer]
    rfl
  have hrest : ValueTransfer.executor.executeAll block.header.context ()
      (ledger.markParent genesis.id) [second] = .ok ((), ledger.markParent genesis.id, [receipt]) :=
    Executor.executeAll_cons.mpr ⟨(), _, receipt, [], congrArg (Prod.mk ()) hsecond, rfl, rfl⟩
  exact Executor.executeAll_cons.mpr
    ⟨(), _, receipt, [receipt], congrArg (Prod.mk ()) hfirst, hrest, rfl⟩

/-- The sample block replays. -/
theorem replays : ∃ fetches,
    replay (Chain.ofGenesis genesis) ValueTransfer.executor () ledger block =
      .ok ⟨ledger.markParent genesis.id, [receipt, receipt], fetches⟩ :=
  replay_complete includable executes ⟨by decide, rfl, rfl⟩

end Sample

end ProofOfAuthority
