import ProofOfAuthority.Proofs.Machine
import ProofOfAuthority.Proofs.Ownership

/-!
# Who is absent

A block takes the activity of those whose slots it skipped, and scores less for each of them. Whose
slots these are is a matter of the rotation that the block's signer sees, which need not be the one
that the others acted on: a signer that is not active takes part in its own rotation only. Between
active signers there is no such difference, and whoever loses its activity to one of them would have
found a slot of its own in time.

* `pairwise_absentees` — the absent come in the order of their last slots, latest first.
* `updates_exact` — the changes of activity and the score, in full.
* `deactivated_iff_missed_slot` — the absent in the eyes of an active signer are those that had a
  slot in their own eyes.
-/

namespace ProofOfAuthority

variable {p : Protocol} {ps : List Proposer} {signer : Address} {number : UInt32}
  {parentTime time : UInt64} {r : Rotation} {a : Address}

/-- Whoever takes part is listed, and active unless it is the signer. -/
theorem active_of_mem_participants {q : Proposer} (hq : q ∈ participants signer ps)
    (hother : q.address ≠ signer) : q ∈ ps ∧ q.active = true := by
  refine ⟨(participants_sublist signer ps).subset hq, ?_⟩
  induction ps with
  | nil => cases hq
  | cons first rest ih =>
    unfold participants at hq
    by_cases hself : first.address = signer
    · rw [if_pos hself] at hq
      rcases List.mem_cons.mp hq with rfl | hq
      · exact absurd hself hother
      · have hfilter := (List.mem_filter.mp hq).2
        rw [Bool.and_eq_true] at hfilter
        exact hfilter.1
    · rw [if_neg hself] at hq
      by_cases hactive : first.active = true
      · rw [if_pos hactive] at hq
        rcases List.mem_cons.mp hq with rfl | hq
        · exact hactive
        · exact ih hq
      · rw [if_neg hactive] at hq
        exact ih hq

namespace Rotation

/-! ## The order of the absent -/

theorem distinct_concat (xs : List Address) (x : Address) :
    distinct (xs ++ [x]) = if x ∈ xs then distinct xs else distinct xs ++ [x] := by
  have hstep : distinct (xs ++ [x]) =
      if (distinct xs).contains x then distinct xs else distinct xs ++ [x] := List.foldl_append
  simp only [hstep, List.contains_iff_mem, mem_distinct]

/-- The owners of slots that grow ever earlier come in the order of their latest slots. -/
theorem pairwise_distinct {slots : List Nat} (hearlier : slots.Pairwise (· > ·))
    (owner : Nat → Address) :
    (distinct (slots.map owner)).Pairwise fun a b =>
      ∃ slot ∈ slots, owner slot = a ∧ ∀ other ∈ slots, owner other = b → other < slot := by
  induction slots using List.reverseRecOn with
  | nil => exact List.Pairwise.nil
  | append_singleton slots last ih =>
    obtain ⟨hslots, -, hlast⟩ := List.pairwise_append.mp hearlier
    have hbefore : ∀ slot ∈ slots, last < slot :=
      fun slot hslot => hlast slot hslot last (List.mem_singleton_self _)
    -- for those seen before, the last slot is too early to matter
    have hseen : (distinct (slots.map owner)).Pairwise fun a b =>
        ∃ slot ∈ slots ++ [last], owner slot = a ∧
          ∀ other ∈ slots ++ [last], owner other = b → other < slot := by
      refine (ih hslots).imp ?_
      rintro a b ⟨slot, hslot, howner, hlater⟩
      refine ⟨slot, List.mem_append_left _ hslot, howner, ?_⟩
      intro other hother hb
      rcases List.mem_append.mp hother with hother | hother
      · exact hlater other hother hb
      · rw [List.mem_singleton.mp hother]
        exact hbefore slot hslot
    rw [List.map_append, List.map_singleton, distinct_concat]
    by_cases hnew : owner last ∈ slots.map owner
    · rw [if_pos hnew]
      exact hseen
    · rw [if_neg hnew, List.pairwise_append]
      refine ⟨hseen, List.pairwise_singleton _ _, ?_⟩
      intro a ha b hb
      obtain ⟨slot, hslot, rfl⟩ := List.mem_map.mp (mem_distinct.mp ha)
      obtain rfl := List.mem_singleton.mp hb
      refine ⟨slot, List.mem_append_left _ hslot, rfl, ?_⟩
      intro other hother hb
      rcases List.mem_append.mp hother with hother | hother
      · exact absurd (hb ▸ List.mem_map_of_mem hother) hnew
      · rw [List.mem_singleton.mp hother]
        exact hbefore slot hslot

/-- The walk back goes to ever earlier slots. -/
theorem pairwise_slotsBack (hpos : r.interval ≠ 0) (count start : Nat) :
    (r.slotsBack count start).Pairwise (· > ·) := by
  have hinterval := toNat_pos hpos
  induction count generalizing start with
  | zero => exact List.Pairwise.nil
  | succ count ih =>
    unfold slotsBack
    by_cases hstart : r.parentTime.toNat < start
    · rw [if_pos hstart]
      refine List.pairwise_cons.mpr ⟨?_, ih _⟩
      intro slot hslot
      obtain ⟨back, -, hback, hafter⟩ := mem_slotsBack.mp hslot
      omega
    · rw [if_neg hstart]
      exact List.Pairwise.nil

/-- **The absent come in the order of their last slots**, latest first. -/
theorem pairwise_absentees (hpos : r.interval ≠ 0) (time : UInt64) :
    (r.absentees time).Pairwise fun a b =>
      ∃ slot, r.Inspects time slot ∧ r.owner slot = a ∧
        ∀ other, r.Inspects time other → r.owner other = b → other < slot := by
  have hsplit : r.absentees time = distinct
      (((r.skipped time).filter fun slot => r.owner slot ≠ r.self.address).map r.owner) := by
    rw [absentees, List.filter_map]
    rfl
  have hearlier := (pairwise_slotsBack hpos r.maxWalk.toNat
    (time.toNat - r.interval.toNat)).filter fun slot => r.owner slot ≠ r.self.address
  have hdistinct := pairwise_distinct hearlier r.owner
  rw [hsplit]
  refine hdistinct.imp_of_mem ?_
  rintro a b - hb ⟨slot, hslot, howner, hlater⟩
  rw [← skipped] at hslot hlater hb
  rw [← hsplit] at hb
  refine ⟨slot, mem_skipped.mp (List.mem_filter.mp hslot).1, howner, ?_⟩
  intro other hother hb'
  refine hlater other (List.mem_filter.mpr ⟨mem_skipped.mpr hother, ?_⟩) hb'
  simpa [hb'] using (of_mem_absentees hb).1

/-- A change of activity to the worse concerns the absent, and nobody else. -/
theorem deactivated_iff : ⟨a, false⟩ ∈ r.updates time ↔ a ∈ r.absentees time := by
  rw [updates, List.mem_append]
  constructor
  · rintro (h | h)
    · obtain ⟨b, hb, heq⟩ := List.mem_map.mp h
      rwa [← (Proposer.mk.inj heq).1]
    · split at h <;> simp at h
  · intro h
    exact Or.inl (List.mem_map_of_mem h)

/-! ## In the eyes of others -/

/-- On the grid a block looks back at slots on the grid. -/
theorem Inspects.on_grid {slot : UInt64} (h : r.Inspects time slot.toNat)
    (hafter : r.parentTime < time) (hgrid : (time - r.parentTime) % r.interval = 0) :
    r.parentTime < slot ∧ (slot - r.parentTime) % r.interval = 0 := by
  obtain ⟨hslot, back, -, -, hback⟩ := h
  obtain ⟨steps, -, hsteps⟩ := (on_grid_iff hafter).mp hgrid
  have hlater : r.parentTime < slot := UInt64.lt_iff_toNat_lt.mpr hslot
  have hless : back * r.interval.toNat < steps * r.interval.toNat := by omega
  have hfew : back < steps := Nat.lt_of_mul_lt_mul_right hless
  refine ⟨hlater, (on_grid_iff hlater).mpr ⟨steps - back, by omega, ?_⟩⟩
  rw [Nat.sub_mul]
  omega

/-- Who owns a slot is a matter of the participants and the parent's number. -/
theorem owner_congr {r' : Rotation} (hactives : r'.actives = r.actives)
    (hnumber : r'.parentNumber = r.parentNumber) (slot : Nat) : r'.owner slot = r.owner slot := by
  cases r
  cases r'
  subst hactives hnumber
  rfl

/-- **Active signers draw the same owners.** -/
theorem owner_eq_of_active (hdistinct : (ps.map Proposer.address).Nodup) {q q' : Proposer}
    (hq : q ∈ ps) (hactive : q.active = true) (hq' : q' ∈ ps) (hactive' : q'.active = true)
    {r' : Rotation} (h : ofSigner p q.address ps number parentTime = .ok r)
    (h' : ofSigner p q'.address ps number parentTime = .ok r') (slot : Nat) :
    r'.owner slot = r.owner slot := by
  obtain ⟨-, hactives, hnumber, -⟩ := ofSigner_eq_ok_iff.mp h
  obtain ⟨-, hactives', hnumber', -⟩ := ofSigner_eq_ok_iff.mp h'
  rw [participants_of_active hdistinct hq hactive] at hactives
  rw [participants_of_active hdistinct hq' hactive'] at hactives'
  exact owner_congr (hactives'.trans hactives.symm) (hnumber'.trans hnumber.symm) slot

/-- An active signer owns a slot of the grid in its own eyes if it does in those of another one. -/
theorem ownsSlot_iff_of_active (hdistinct : (ps.map Proposer.address).Nodup) {q q' : Proposer}
    (hq : q ∈ ps) (hactive : q.active = true) (hq' : q' ∈ ps) (hactive' : q'.active = true)
    {r' : Rotation} (h : ofSigner p q.address ps number parentTime = .ok r)
    (h' : ofSigner p q'.address ps number parentTime = .ok r') (hpos : p.blockInterval ≠ 0)
    {slot : UInt64} (hafter : parentTime < slot)
    (hgrid : (slot - parentTime) % p.blockInterval = 0) :
    r'.ownsSlot slot = .ok true ↔ r.owner slot.toNat = q'.address := by
  obtain ⟨hself, -, hparent, hinterval⟩ := ofSigner_ok h'
  rw [ownsSlot_eq_true_iff, hself, hparent, hinterval,
    owner_eq_of_active hdistinct hq hactive hq' hactive' h h']
  exact ⟨fun howns => howns.2.2.2, fun howner => ⟨hafter, hpos, hgrid, howner⟩⟩

end Rotation

/-- **The changes of activity and the score, in full**: the absent are the others that own a slot
which the block `Inspects`, latest first, all of them listed as active; the signer comes back last;
and `score` is the number of those present, never zero. `Machine.updates` agrees. -/
theorem updates_exact (h : Rotation.ofSigner p signer ps number parentTime = .ok r)
    (hpos : 0 < p.blockInterval) (time : UInt64) :
    ∃ (first : Proposer) (absent : List Address) (present : Nat),
      ps.find? (·.address = signer) = some first ∧
      r.updates time =
        absent.map (⟨·, false⟩) ++ (if first.active then [] else [⟨signer, true⟩]) ∧
      Machine.updates r time = .ok (r.updates time, r.score time) ∧
      (∀ a, a ∈ absent ↔ a ≠ signer ∧ ∃ slot, r.Inspects time slot ∧ r.owner slot = a) ∧
      absent.Nodup ∧
      (absent.Pairwise fun a b => ∃ slot, r.Inspects time slot ∧ r.owner slot = a ∧
        ∀ other, r.Inspects time other → r.owner other = b → other < slot) ∧
      (∀ a ∈ absent, ∃ q ∈ ps, q.address = a ∧ q.active = true) ∧
      present + absent.length = r.actives.length ∧ 1 ≤ present ∧ present ≤ r.actives.length ∧
      r.score time = UInt64.ofNat present ∧
      (ps.length < UInt64.size → (r.score time).toNat = present) := by
  obtain ⟨hfirst, hactives, -, -, hinterval, -⟩ := Rotation.ofSigner_eq_ok_iff.mp h
  obtain ⟨rfl, hsublist, -, -⟩ := Rotation.ofSigner_ok h
  have hless := r.length_absentees_lt time
  refine ⟨r.self, r.absentees time, r.actives.length - (r.absentees time).length, hfirst, rfl,
    Machine.updates_eq r time, ?_, Rotation.nodup_distinct _, ?_, ?_, by omega, by omega, by omega,
    rfl, ?_⟩
  · intro a
    rw [Rotation.mem_absentees, Rotation.skips_iff]
  · exact Rotation.pairwise_absentees (hinterval ▸ UInt64.pos_iff_ne_zero.mp hpos) time
  · intro a ha
    obtain ⟨hne, hparticipant⟩ := Rotation.of_mem_absentees ha
    obtain ⟨q, hq, rfl⟩ := List.mem_map.mp hparticipant
    obtain ⟨hmem, hactive⟩ := active_of_mem_participants (hactives ▸ hq) hne
    exact ⟨q, hmem, rfl, hactive⟩
  · intro hsize
    exact r.toNat_score time (Nat.lt_of_le_of_lt hsublist.length_le hsize)

namespace Sample

/-- A list in which the first proposer is listed twice, first as inactive, and the second twice. -/
def relisted : List Proposer :=
  [⟨Bytes.ofNat 1, false⟩, ⟨Bytes.ofNat 2, true⟩, ⟨Bytes.ofNat 2, true⟩, ⟨Bytes.ofNat 1, true⟩,
    ⟨Bytes.ofNat 3, true⟩]

/-- The rotation that the first proposer sees. -/
def returning : Rotation where
  self := ⟨Bytes.ofNat 1, false⟩
  actives := [⟨Bytes.ofNat 1, false⟩, ⟨Bytes.ofNat 2, true⟩, ⟨Bytes.ofNat 2, true⟩,
    ⟨Bytes.ofNat 3, true⟩]
  parentNumber := 10
  parentTime := 1000
  interval := 10
  maxWalk := 101
  mem_actives := List.mem_cons_self

/-- In the third slot after the parent the first proposer comes back. The slots before belonged to
the third proposer and then to the second. -/
theorem returning_updates :
    Rotation.ofSigner Protocol.standard (Bytes.ofNat 1) relisted 10 1000 = .ok returning ∧
    0 < Protocol.standard.blockInterval ∧
    returning.updates 1030 =
      [⟨Bytes.ofNat 2, false⟩, ⟨Bytes.ofNat 3, false⟩, ⟨Bytes.ofNat 1, true⟩] ∧
    (returning.score 1030).toNat = 2 := by
  have hrotation : Rotation.ofSigner Protocol.standard (Bytes.ofNat 1) relisted 10 1000 =
      .ok returning := rfl
  have hupdates : returning.updates 1030 =
      [⟨Bytes.ofNat 2, false⟩, ⟨Bytes.ofNat 3, false⟩, ⟨Bytes.ofNat 1, true⟩] := by
    decide +kernel
  refine ⟨hrotation, by decide, hupdates, ?_⟩
  obtain ⟨first, absent, present, hfirst, hchanges, -, -, -, -, -, hsum, -, -, -, hscore⟩ :=
    updates_exact hrotation (by decide) 1030
  obtain rfl : ⟨Bytes.ofNat 1, false⟩ = first := Option.some.inj hfirst
  have hlength := congrArg List.length (hupdates.symm.trans hchanges)
  have htwo : absent.length = 2 := by simpa using hlength
  have hfour : returning.actives.length = 4 := rfl
  rw [hscore (by decide)]
  omega

end Sample

/-- **An active signer deactivates those that missed a slot**: the others that are listed as active
and that, in their own `Rotation`, have a slot (`ownsSlot`) after the parent that the block looks
back at. -/
theorem deactivated_iff_missed_slot (hp : p.Valid) (hdistinct : (ps.map Proposer.address).Nodup)
    {q : Proposer} (hq : q ∈ ps) (hactive : q.active = true) (hafter : parentTime < time)
    (hgrid : (time - parentTime) % p.blockInterval = 0) (number : UInt32) :
    ∃ r, Rotation.ofSigner p q.address ps number parentTime = .ok r ∧
      ∀ a, ⟨a, false⟩ ∈ r.updates time ↔
        a ≠ q.address ∧ (∃ other ∈ ps, other.address = a ∧ other.active = true) ∧
          ∃ own, Rotation.ofSigner p a ps number parentTime = .ok own ∧
            ∃ (slot : UInt64) (back : Nat), 1 ≤ back ∧ back ≤ p.maxBlockProposers.toNat ∧
              slot.toNat + back * p.blockInterval.toNat = time.toNat ∧ parentTime < slot ∧
                own.ownsSlot slot = .ok true := by
  have hpos : p.blockInterval ≠ 0 := UInt64.pos_iff_ne_zero.mp hp.interval
  obtain ⟨r, hr, -, hactives, -, rfl, hinterval⟩ :=
    Rotation.ofSigner_active hdistinct hq hactive p number parentTime
  obtain ⟨hself, -, -, -⟩ := Rotation.ofSigner_ok hr
  obtain ⟨-, -, -, -, -, hwalk⟩ := Rotation.ofSigner_eq_ok_iff.mp hr
  -- others that are active see the slots that are looked back at as the signer does
  have hview : ∀ {other : Proposer} {own : Rotation} {slot : UInt64}, other ∈ ps →
      other.active = true → Rotation.ofSigner p other.address ps number r.parentTime = .ok own →
      r.Inspects time slot.toNat →
      (own.ownsSlot slot = .ok true ↔ r.owner slot.toNat = other.address) := by
    intro other own slot hmem hactive' hown hinspected
    obtain ⟨hlater, hongrid⟩ := hinspected.on_grid hafter (hinterval ▸ hgrid)
    exact Rotation.ownsSlot_iff_of_active hdistinct hq hactive hmem hactive' hr hown hpos hlater
      (hinterval ▸ hongrid)
  refine ⟨r, hr, ?_⟩
  intro a
  rw [Rotation.deactivated_iff, Rotation.mem_absentees, Rotation.skips_iff, hself, ← hwalk,
    ← hinterval]
  refine and_congr_right fun _ => ⟨?_, ?_⟩
  · rintro ⟨slot, hinspected, rfl⟩
    have hslot := hinspected
    obtain ⟨hlater, back, hone, hback, hsum⟩ := hslot
    obtain ⟨slot, rfl⟩ : ∃ word : UInt64, word.toNat = slot :=
      ⟨UInt64.ofNat slot, UInt64.toNat_ofNat_of_lt' (Nat.lt_of_le_of_lt (by omega) time.toNat_lt)⟩
    -- the owner is one of the active proposers, so it has a rotation of its own
    obtain ⟨other, hother, haddress⟩ := List.mem_map.mp (r.owner_mem slot.toNat)
    obtain ⟨hmem, hactive'⟩ := List.mem_filter.mp (hactives ▸ hother)
    obtain ⟨own, hown, -⟩ :=
      Rotation.ofSigner_active hdistinct hmem hactive' p number r.parentTime
    rw [← haddress]
    exact ⟨⟨other, hmem, rfl, hactive'⟩, own, hown, slot, back, hone, hback, hsum,
      UInt64.lt_iff_toNat_lt.mpr hlater, (hview hmem hactive' hown hinspected).mpr haddress.symm⟩
  · rintro ⟨⟨other, hmem, rfl, hactive'⟩, own, hown, slot, back, hone, hback, hsum, hlater, howns⟩
    have hinspected : r.Inspects time slot.toNat :=
      ⟨UInt64.lt_iff_toNat_lt.mp hlater, back, hone, hback, hsum⟩
    exact ⟨slot.toNat, hinspected, (hview hmem hactive' hown hinspected).mp howns⟩

namespace Sample

/-- The rotation that the third of the listed proposers sees. -/
def missing : Rotation where
  self := ⟨Bytes.ofNat 3, true⟩
  actives := [⟨Bytes.ofNat 1, true⟩, ⟨Bytes.ofNat 3, true⟩]
  parentNumber := 10
  parentTime := 1000
  interval := 10
  maxWalk := 101
  mem_actives := List.mem_cons_of_mem _ List.mem_cons_self

/-- The third proposer finds the first slot after the parent its own and misses it, so the first
proposer deactivates it in the second slot. The second proposer is not active and has missed
nothing. -/
theorem missing_deactivated :
    Protocol.standard.Valid ∧ (listed.map Proposer.address).Nodup ∧
    ⟨Bytes.ofNat 1, true⟩ ∈ listed ∧ (1020 - 1000) % Protocol.standard.blockInterval = 0 ∧
    Rotation.ofSigner Protocol.standard (Bytes.ofNat 3) listed 10 1000 = .ok missing ∧
    missing.ownsSlot 1010 = .ok true ∧
    ∃ r, Rotation.ofSigner Protocol.standard (Bytes.ofNat 1) listed 10 1000 = .ok r ∧
      ⟨Bytes.ofNat 3, false⟩ ∈ r.updates 1020 ∧ ⟨Bytes.ofNat 2, false⟩ ∉ r.updates 1020 := by
  have howns : missing.ownsSlot 1010 = .ok true :=
    Rotation.ownsSlot_eq_true_iff.mpr ⟨by decide, by decide, by decide, by decide +kernel⟩
  obtain ⟨r, hr, hiff⟩ := deactivated_iff_missed_slot extendable.valid
    (show (listed.map Proposer.address).Nodup by decide) (List.mem_cons_self)
    rfl (show 1000 < 1020 by decide) (by decide) 10
  refine ⟨extendable.valid, by decide, List.mem_cons_self, by decide, rfl, howns, r, hr, ?_, ?_⟩
  · exact (hiff _).mpr ⟨by decide, ⟨⟨Bytes.ofNat 3, true⟩, by decide, rfl, rfl⟩, missing, rfl,
      1010, 1, by decide, by decide, by decide, by decide, howns⟩
  · intro h
    obtain ⟨-, hactive, -⟩ := (hiff _).mp h
    exact absurd hactive (by decide)

end Sample

end ProofOfAuthority
