import Mathlib.Data.List.Nodup
import Mathlib.Data.List.Perm.Subperm
import ProofOfAuthority.Scheduling.Rotation
import ProofOfAuthority.Validation.Proposer

/-!
# Slots and their owners

The owners of skipped slots are participants other than the signer, and each is counted once, so the
signer always scores. They come from the candidates of the ledger, so their activity can always be
written back.

* `on_grid_iff` — the grid, as whole intervals after the parent.
* `mem_skipped`, `mem_absentees` — which slots a block looks back at (`Inspects`), and who is absent
  for that (`Skips`).
* `length_absentees_lt`, `toNat_score` — the score of a block is positive.
* `Ledger.applyUpdates_of_rotation`, `Ledger.applyUpdates_eq` — the changes of activity go through,
  and what they change.
* `Ledger.signer_active_of_rotation` — the signer is active afterwards.
-/

namespace ProofOfAuthority

/-! ## Who takes part -/

theorem participants_sublist (signer : Address) (ps : List Proposer) :
    (participants signer ps).Sublist ps := by
  induction ps with
  | nil => exact List.Sublist.refl []
  | cons p rest ih =>
    unfold participants
    by_cases hself : p.address = signer
    · rw [if_pos hself]
      exact List.filter_sublist.cons_cons p
    · rw [if_neg hself]
      by_cases hactive : p.active
      · rw [if_pos hactive]
        exact ih.cons_cons p
      · rw [if_neg hactive]
        exact ih.cons p

theorem toNat_pos {word : UInt64} (h : word ≠ 0) : 0 < word.toNat :=
  UInt64.lt_iff_toNat_lt.mp (UInt64.pos_iff_ne_zero.mpr h)

namespace Rotation

variable {r : Rotation} {time : UInt64} {a : Address}

/-- **What a rotation is made of.** -/
theorem ofSigner_eq_ok_iff {p : Protocol} {signer : Address} {proposers : List Proposer}
    {number : UInt32} {parentTime : UInt64} :
    ofSigner p signer proposers number parentTime = .ok r ↔
      proposers.find? (·.address = signer) = some r.self ∧
        r.actives = participants signer proposers ∧ r.parentNumber = number ∧
        r.parentTime = parentTime ∧ r.interval = p.blockInterval ∧
        r.maxWalk = p.maxBlockProposers := by
  obtain ⟨self, actives, parentNumber, parentTime', interval, maxWalk, hmem⟩ := r
  unfold ofSigner
  split
  · rename_i hnone
    simp [hnone]
  · rename_i listed hlisted
    rw [Except.ok.injEq, mk.injEq, hlisted, Option.some.injEq]
    simp only [eq_comm]

/-- What a rotation takes from where it is made. -/
theorem ofSigner_ok {p : Protocol} {signer : Address} {proposers : List Proposer}
    {number : UInt32} {parentTime : UInt64}
    (h : ofSigner p signer proposers number parentTime = .ok r) :
    r.self.address = signer ∧ r.actives.Sublist proposers ∧ r.parentTime = parentTime ∧
      r.interval = p.blockInterval := by
  obtain ⟨hself, hactives, -, hparent, hinterval, -⟩ := ofSigner_eq_ok_iff.mp h
  refine ⟨by simpa using List.find?_some hself, ?_, hparent, hinterval⟩
  rw [hactives]
  exact participants_sublist signer proposers

theorem owner_mem (r : Rotation) (t : Nat) : r.owner t ∈ r.actives.map Proposer.address :=
  List.mem_map_of_mem (List.get_mem _ _)

theorem self_mem (r : Rotation) : r.self.address ∈ r.actives.map Proposer.address :=
  List.mem_map_of_mem r.mem_actives

/-- **The slots that the signer owns.** -/
theorem ownsSlot_eq_true_iff : r.ownsSlot time = .ok true ↔
    r.parentTime < time ∧ r.interval ≠ 0 ∧ (time - r.parentTime) % r.interval = 0 ∧
      r.owner time.toNat = r.self.address := by
  unfold ownsSlot
  by_cases hafter : time ≤ r.parentTime
  · simp [hafter, UInt64.not_lt.mpr hafter]
  · by_cases hinterval : r.interval = 0
    · simp [hafter, hinterval]
    · by_cases hgrid : (time - r.parentTime) % r.interval = 0
      · simp [hafter, hinterval, hgrid, UInt64.not_le.mp hafter]
      · simp [hafter, hinterval, hgrid]

/-- **The grid of slots**: a later time is on it iff it is a positive number of intervals later. -/
theorem on_grid_iff {start time interval : UInt64} (hafter : start < time) :
    (time - start) % interval = 0 ↔
      ∃ steps, 1 ≤ steps ∧ time.toNat = start.toNat + steps * interval.toNat := by
  have hlt := UInt64.lt_iff_toNat_lt.mp hafter
  rw [← UInt64.toNat_inj, UInt64.toNat_mod,
    UInt64.toNat_sub_of_le _ _ (UInt64.le_of_lt hafter), UInt64.toNat_zero]
  constructor
  · intro hmod
    obtain ⟨steps, hsteps⟩ := Nat.dvd_of_mod_eq_zero hmod
    rw [Nat.mul_comm] at hsteps
    refine ⟨steps, ?_, by omega⟩
    rcases Nat.eq_zero_or_pos steps with rfl | hpos
    · omega
    · exact hpos
  · rintro ⟨steps, -, hsteps⟩
    rw [hsteps, Nat.add_sub_cancel_left]
    exact Nat.mul_mod_left _ _

/-! ## Who was absent -/

theorem mem_distinct {xs : List Address} : a ∈ distinct xs ↔ a ∈ xs := by
  have hgo : ∀ seen : List Address,
      a ∈ xs.foldl (fun seen a => if seen.contains a then seen else seen ++ [a]) seen ↔
        a ∈ seen ∨ a ∈ xs := by
    induction xs with
    | nil => simp
    | cons x xs ih =>
      intro seen
      rw [List.foldl_cons, ih]
      by_cases hseen : x ∈ seen
      · rw [if_pos (by simpa using hseen), List.mem_cons]
        constructor
        · rintro (h | h)
          · exact Or.inl h
          · exact Or.inr (Or.inr h)
        · rintro (h | rfl | h)
          · exact Or.inl h
          · exact Or.inl hseen
          · exact Or.inr h
      · simp [hseen, or_assoc]
  simpa [distinct] using hgo []

theorem nodup_distinct (xs : List Address) : (distinct xs).Nodup := by
  have hgo : ∀ seen : List Address, seen.Nodup →
      (xs.foldl (fun seen a => if seen.contains a then seen else seen ++ [a]) seen).Nodup := by
    induction xs with
    | nil => exact fun seen h => h
    | cons x xs ih =>
      intro seen h
      rw [List.foldl_cons]
      apply ih
      by_cases hseen : x ∈ seen
      · rw [if_pos (by simpa using hseen)]
        exact h
      · rw [if_neg (by simpa using hseen), ← List.concat_eq_append]
        exact h.concat hseen
  exact hgo [] List.nodup_nil

/-- `a` owns a slot after the parent, at most `maxWalk` intervals before `time`. -/
def Skips (r : Rotation) (time : UInt64) (a : Address) : Prop :=
  ∃ slot back : Nat, 1 ≤ back ∧ back ≤ r.maxWalk.toNat ∧
    slot + back * r.interval.toNat = time.toNat ∧ r.parentTime.toNat < slot ∧ r.owner slot = a

/-- The slot is after the parent, at most `maxWalk` intervals before `time`. -/
def Inspects (r : Rotation) (time : UInt64) (slot : Nat) : Prop :=
  r.parentTime.toNat < slot ∧ ∃ back, 1 ≤ back ∧ back ≤ r.maxWalk.toNat ∧
    slot + back * r.interval.toNat = time.toNat

/-- Whoever is skipped owns a slot that is inspected. -/
theorem skips_iff : r.Skips time a ↔ ∃ slot, r.Inspects time slot ∧ r.owner slot = a := by
  constructor
  · rintro ⟨slot, back, hpos, hback, hslot, hafter, howner⟩
    exact ⟨slot, ⟨hafter, back, hpos, hback, hslot⟩, howner⟩
  · rintro ⟨slot, ⟨hafter, back, hpos, hback, hslot⟩, howner⟩
    exact ⟨slot, back, hpos, hback, hslot, hafter, howner⟩

/-- The walk back goes over the slots after the parent, in steps of one interval. -/
theorem mem_slotsBack {count start slot : Nat} : slot ∈ r.slotsBack count start ↔
    ∃ back < count, slot + back * r.interval.toNat = start ∧ r.parentTime.toNat < slot := by
  induction count generalizing start with
  | zero => simp [slotsBack]
  | succ count ih =>
    unfold slotsBack
    by_cases hstart : r.parentTime.toNat < start
    · rw [if_pos hstart, List.mem_cons, ih]
      constructor
      · rintro (rfl | ⟨back, hback, hslot, hafter⟩)
        · exact ⟨0, by omega, by omega, hstart⟩
        · refine ⟨back + 1, by omega, ?_, hafter⟩
          rw [Nat.succ_mul]
          omega
      · rintro ⟨back, hback, hslot, hafter⟩
        cases back with
        | zero => exact Or.inl (by omega)
        | succ back =>
          rw [Nat.succ_mul] at hslot
          exact Or.inr ⟨back, by omega, by omega, hafter⟩
    · rw [if_neg hstart]
      constructor
      · intro h
        cases h
      · rintro ⟨back, -, hslot, hafter⟩
        omega

theorem mem_skipped {slot : Nat} : slot ∈ r.skipped time ↔ r.Inspects time slot := by
  rw [skipped, mem_slotsBack]
  constructor
  · rintro ⟨back, hback, hslot, hafter⟩
    refine ⟨hafter, back + 1, by omega, by omega, ?_⟩
    rw [Nat.succ_mul]
    omega
  · rintro ⟨hafter, back, hpos, hback, hslot⟩
    obtain ⟨back, rfl⟩ : ∃ k, back = k + 1 := ⟨back - 1, by omega⟩
    rw [Nat.succ_mul] at hslot
    exact ⟨back, by omega, by omega, hafter⟩

/-- **The absent** are the owners of skipped slots, the signer apart. -/
theorem mem_absentees : a ∈ r.absentees time ↔ a ≠ r.self.address ∧ r.Skips time a := by
  simp only [absentees, mem_distinct, List.mem_filter, List.mem_map, mem_skipped, skips_iff,
    decide_eq_true_eq, and_comm]

/-- The absent are participants other than the signer. -/
theorem of_mem_absentees (h : a ∈ r.absentees time) :
    a ≠ r.self.address ∧ a ∈ r.actives.map Proposer.address := by
  rw [absentees, mem_distinct, List.mem_filter] at h
  obtain ⟨howner, hne⟩ := h
  obtain ⟨t, -, rfl⟩ := List.mem_map.mp howner
  exact ⟨by simpa using hne, r.owner_mem t⟩

/-- **Not all participants were absent**: the signer was not. -/
theorem length_absentees_lt (r : Rotation) (time : UInt64) :
    (r.absentees time).length < r.actives.length := by
  have hnodup : (r.self.address :: r.absentees time).Nodup :=
    List.nodup_cons.mpr ⟨fun h => (of_mem_absentees h).1 rfl, nodup_distinct _⟩
  have hsubset : r.self.address :: r.absentees time ⊆ r.actives.map Proposer.address := by
    intro b hb
    rcases List.mem_cons.mp hb with rfl | hb
    · exact r.self_mem
    · exact (of_mem_absentees hb).2
  have hlength := (List.subperm_of_subset hnodup hsubset).length_le
  rwa [List.length_cons, List.length_map] at hlength

/-- **The score is the number of participants that were not absent**, which is positive. -/
theorem toNat_score (r : Rotation) (time : UInt64) (h : r.actives.length < UInt64.size) :
    (r.score time).toNat = r.actives.length - (r.absentees time).length := by
  rw [score, UInt64.toNat_ofNat']
  exact Nat.mod_eq_of_lt (Nat.lt_of_le_of_lt (Nat.sub_le _ _) h)

/-- Every change of activity concerns a participant. -/
theorem mem_updates {u : Proposer} (h : u ∈ r.updates time) :
    u.address ∈ r.actives.map Proposer.address := by
  rw [updates, List.mem_append] at h
  rcases h with h | h
  · obtain ⟨a, ha, rfl⟩ := List.mem_map.mp h
    exact (of_mem_absentees ha).2
  · split at h
    · simp at h
    · rw [List.mem_singleton.mp h]
      exact r.self_mem

end Rotation

/-! ## Writing activity back -/

theorem mem_activate_of_ne {cs : List Candidate} {c : Candidate} {signer : Address} {active : Bool}
    (hc : c ∈ cs) (hne : c.signer ≠ signer) : c ∈ activate signer active cs := by
  induction cs with
  | nil => cases hc
  | cons d rest ih =>
    unfold activate
    by_cases hd : d.signer = signer
    · rw [if_pos hd]
      rcases List.mem_cons.mp hc with rfl | hc
      · exact absurd hd hne
      · exact List.mem_cons_of_mem _ hc
    · rw [if_neg hd]
      rcases List.mem_cons.mp hc with rfl | hc
      · exact List.mem_cons_self
      · exact List.mem_cons_of_mem _ (ih hc)

/-- The candidates after changes of activity, in order. -/
def activateAll (updates : List Proposer) (cs : List Candidate) : List Candidate :=
  updates.foldl (fun cs u => activate u.address u.active cs) cs

theorem map_signer_activateAll (updates : List Proposer) (cs : List Candidate) :
    (activateAll updates cs).map Candidate.signer = cs.map Candidate.signer := by
  induction updates generalizing cs with
  | nil => rfl
  | cons u rest ih => rw [activateAll, List.foldl_cons, ← activateAll, ih, map_signer_activate]

/-- Changes that concern other signers leave a candidate as it is. -/
theorem mem_activateAll_of_ne {updates : List Proposer} {cs : List Candidate} {c : Candidate}
    (hc : c ∈ cs) (hne : ∀ u ∈ updates, c.signer ≠ u.address) : c ∈ activateAll updates cs := by
  induction updates generalizing cs with
  | nil => exact hc
  | cons u rest ih =>
    exact ih (mem_activate_of_ne hc (hne u List.mem_cons_self))
      fun v hv => hne v (List.mem_cons_of_mem _ hv)

theorem exists_mem_activate {cs : List Candidate} {signer : Address} (active : Bool)
    (h : signer ∈ cs.map Candidate.signer) :
    ∃ c ∈ activate signer active cs, c.signer = signer ∧ c.active = active := by
  induction cs with
  | nil => cases h
  | cons d rest ih =>
    unfold activate
    by_cases hd : d.signer = signer
    · rw [if_pos hd]
      exact ⟨_, List.mem_cons_self, hd, rfl⟩
    · rw [if_neg hd]
      rw [List.map_cons, List.mem_cons] at h
      obtain ⟨c, hc, hsigner, hactive⟩ := ih (h.resolve_left (Ne.symm hd))
      exact ⟨c, List.mem_cons_of_mem _ hc, hsigner, hactive⟩

namespace Ledger

/-- Activity can be written for registered signers. -/
theorem applyUpdates_ok {updates : List Proposer} {l : Ledger}
    (h : ∀ u ∈ updates, u.address ∈ l.signers) : ∃ l', l.applyUpdates updates = .ok l' := by
  induction updates generalizing l with
  | nil => exact ⟨l, rfl⟩
  | cons u rest ih =>
    have hset : l.setActive u.address u.active =
        .ok { l with candidates := activate u.address u.active l.candidates } :=
      if_pos (h u (by simp))
    obtain ⟨l', hl'⟩ := ih (l := { l with candidates := activate u.address u.active l.candidates })
      fun v hv => by
        rw [signers_setActive hset]
        exact h v (by simp [hv])
    exact ⟨l', bind_eq_ok_iff.mpr ⟨_, hset, hl'⟩⟩

theorem mem_proposers {l : Ledger} {p : Proposer} (h : p ∈ l.proposers) :
    p.address ∈ l.signers := by
  obtain ⟨c, hc, rfl⟩ := List.mem_map.mp h
  exact List.mem_map_of_mem (List.mem_filter.mp hc).1

/-- **The changes of activity of a rotation can be written** to the ledger it was made from. -/
theorem applyUpdates_of_rotation {l : Ledger} {p : Protocol} {signer : Address} {r : Rotation}
    {number : UInt32} {parentTime : UInt64}
    (h : Rotation.ofSigner p signer l.proposers number parentTime = .ok r) (time : UInt64) :
    ∃ l', l.applyUpdates (r.updates time) = .ok l' := by
  apply applyUpdates_ok
  intro u hu
  obtain ⟨-, hsublist, -, -⟩ := Rotation.ofSigner_ok h
  obtain ⟨q, hq, haddress⟩ := List.mem_map.mp (Rotation.mem_updates hu)
  rw [← haddress]
  exact mem_proposers (hsublist.subset hq)

/-- **Changes of activity change nothing but the candidates**, one after the other. -/
theorem applyUpdates_eq {updates : List Proposer} {l l' : Ledger}
    (h : l.applyUpdates updates = .ok l') :
    l' = { l with candidates := activateAll updates l.candidates } := by
  induction updates generalizing l with
  | nil => exact (Except.ok.inj h).symm
  | cons u rest ih =>
    obtain ⟨next, hset, hrest⟩ := bind_eq_ok_iff.mp h
    obtain ⟨-, rfl⟩ := setActive_ok hset
    rw [ih hrest, activateAll, activateAll, List.foldl_cons]

/-- **The signer is active afterwards**: it was before and nobody else's change concerns it, or the
last change is its own. -/
theorem signer_active_of_rotation {l l' : Ledger} {p : Protocol} {signer : Address} {r : Rotation}
    {number : UInt32} {parentTime time : UInt64}
    (h : Rotation.ofSigner p signer l.proposers number parentTime = .ok r)
    (hupdates : l.applyUpdates (r.updates time) = .ok l') :
    ∃ c ∈ l'.candidates, c.signer = signer ∧ c.active = true := by
  obtain ⟨rfl, hsublist, -, -⟩ := Rotation.ofSigner_ok h
  have hself := hsublist.subset r.mem_actives
  rw [applyUpdates_eq hupdates, Rotation.updates]
  by_cases hactive : r.self.active
  · obtain ⟨c, hc, hproposer⟩ := List.mem_map.mp hself
    have hsigner : c.signer = r.self.address := congrArg Proposer.address hproposer
    have hcactive : c.active = r.self.active := congrArg Proposer.active hproposer
    refine ⟨c, mem_activateAll_of_ne (List.mem_filter.mp hc).1 ?_, hsigner, hcactive.trans hactive⟩
    intro u hu
    rw [if_pos hactive, List.append_nil] at hu
    obtain ⟨a, ha, rfl⟩ := List.mem_map.mp hu
    rw [hsigner]
    exact (Rotation.of_mem_absentees ha).1.symm
  · rw [if_neg hactive, activateAll, List.foldl_append]
    refine exists_mem_activate true ?_
    rw [← activateAll, map_signer_activateAll]
    have hregistered := mem_proposers hself
    exact hregistered

theorem length_proposers_le (l : Ledger) : l.proposers.length ≤ l.candidates.length := by
  rw [proposers, List.length_map]
  exact List.length_filter_le _ _

end Ledger

end ProofOfAuthority
