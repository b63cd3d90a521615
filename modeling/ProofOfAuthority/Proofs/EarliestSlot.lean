import Mathlib.Algebra.Order.Floor.Div
import Mathlib.Order.Bounds.Basic
import ProofOfAuthority.Proofs.Machine

/-!
# The earliest slot of a signer

A proposer asks for its next slot: the first on the grid that is after the parent, not before the
present time, and its own. Whose a slot is depends on a digest, so there is no telling how far off
that is; but the times end with the largest word, and the search, which goes from slot to slot,
ends there at the latest. Written in the operations of a machine it is stopped exactly if there is
no such slot, wherever it notices: in the first slot after the parent, in the product or in the sum
that leads up to the present time, or in a step from one slot to the next.

* `firstSlot_ok` — where the search starts.
* `schedule_cases` — the search ends at the earliest slot, or there is none.
* `Machine.schedule_eq` — the search on a machine.
* `schedule_earliest` — both together.
-/

namespace ProofOfAuthority

namespace Rotation

variable {r : Rotation} {now : UInt64} {count start slot : Nat}

/-- The slot is a positive number of intervals after the parent. -/
def OnGrid (r : Rotation) (slot : Nat) : Prop :=
  ∃ steps, 1 ≤ steps ∧ slot = r.parentTime.toNat + steps * r.interval.toNat

/-- The slot is on the grid, not before `now`, fits in a word, and is the signer's. -/
structure Open (r : Rotation) (now : UInt64) (slot : Nat) : Prop where
  onGrid : r.OnGrid slot
  now_le : now.toNat ≤ slot
  le_maxWord : slot ≤ maxWord
  owner : r.owner slot = r.self.address

/-! ## The search -/

/-- The search goes through slots one interval apart. -/
theorem firstOwned?_eq_find? (r : Rotation) (count start : Nat) :
    r.firstOwned? count start =
      (List.range' start count r.interval.toNat).find? (r.owner · = r.self.address) := by
  induction count generalizing start with
  | zero => rfl
  | succ count ih =>
    rw [firstOwned?, List.range'_succ, List.find?_cons]
    by_cases howner : r.owner start = r.self.address
    · simp only [howner, if_true, decide_true]
    · simp only [howner, if_false, decide_false, ih]

/-- What the search finds is the earliest of the slots it goes through that the signer owns. -/
theorem firstOwned?_isLeast (hpos : 0 < r.interval.toNat)
    (h : r.firstOwned? count start = some slot) :
    IsLeast {s | s ∈ List.range' start count r.interval.toNat ∧ r.owner s = r.self.address}
      slot := by
  rw [firstOwned?_eq_find?, List.find?_eq_some_iff_append] at h
  obtain ⟨howner, before, after, hslots, hbefore⟩ := h
  have hlater : (before ++ slot :: after).Pairwise (· < ·) :=
    hslots ▸ List.pairwise_lt_range' _ hpos
  obtain ⟨-, hlater, -⟩ := List.pairwise_append.mp hlater
  rw [hslots]
  refine ⟨⟨by simp, by simpa using howner⟩, ?_⟩
  rintro other ⟨hmem, hother⟩
  rcases List.mem_append.mp hmem with hmem | hmem
  · exact absurd hother (by simpa using hbefore other hmem)
  · rcases List.mem_cons.mp hmem with rfl | hmem
    · exact Nat.le_refl other
    · exact Nat.le_of_lt ((List.pairwise_cons.mp hlater).1 other hmem)

/-- A quotient that is rounded up is the least that is enough. -/
theorem roundUp_le_iff {n d k : Nat} (hpos : 0 < d) : (n + d - 1) / d ≤ k ↔ n ≤ k * d := by
  rw [← Nat.ceilDiv_eq_add_pred_div, ceilDiv_le_iff_le_mul hpos, Nat.mul_comm]

/-- The search starts at the first slot that is not before `now`. -/
theorem firstSlot_ok (hpos : r.interval ≠ 0) (now : UInt64) :
    ∃ first, r.firstSlot now = .ok first ∧
      IsLeast {slot | r.OnGrid slot ∧ now.toNat ≤ slot} first := by
  have hinterval := toNat_pos hpos
  unfold firstSlot
  by_cases hnow : now.toNat ≤ r.parentTime.toNat + r.interval.toNat
  · refine ⟨_, if_pos hnow, ⟨⟨1, Nat.le_refl 1, by rw [Nat.one_mul]⟩, hnow⟩, ?_⟩
    rintro slot ⟨⟨steps, hsteps, rfl⟩, -⟩
    have hone := Nat.mul_le_mul_right r.interval.toNat hsteps
    omega
  · obtain ⟨further, hfurther⟩ : ∃ further,
        further = (now.toNat - (r.parentTime.toNat + r.interval.toNat) + r.interval.toNat - 1) /
          r.interval.toNat := ⟨_, rfl⟩
    have hround : ∀ k, further ≤ k ↔
        now.toNat - (r.parentTime.toNat + r.interval.toNat) ≤ k * r.interval.toNat := by
      intro k
      rw [hfurther, roundUp_le_iff hinterval]
    have hreaches := (hround further).mp (Nat.le_refl further)
    refine ⟨_, by rw [if_neg hnow, if_neg hpos, ← hfurther], ⟨⟨further + 1, by omega, ?_⟩, ?_⟩, ?_⟩
    · rw [Nat.succ_mul, Nat.add_comm (_ * _), ← Nat.add_assoc]
    · show now.toNat ≤ r.parentTime.toNat + r.interval.toNat + further * r.interval.toNat
      omega
    · rintro slot ⟨⟨steps, hsteps, rfl⟩, hlate⟩
      obtain ⟨k, rfl⟩ : ∃ k, steps = k + 1 := ⟨steps - 1, by omega⟩
      rw [Nat.succ_mul] at hlate ⊢
      have hle := Nat.mul_le_mul_right r.interval.toNat ((hround k).mpr (by omega))
      omega

/-- The search goes through all slots in question. -/
theorem open_iff {first : Nat} (hpos : 0 < r.interval.toNat)
    (hfirst : IsLeast {slot | r.OnGrid slot ∧ now.toNat ≤ slot} first) (hfits : first ≤ maxWord) :
    r.Open now slot ↔
      slot ∈ List.range' first ((maxWord - first) / r.interval.toNat + 1) r.interval.toNat ∧
        r.owner slot = r.self.address := by
  obtain ⟨⟨⟨steps, hsteps, hdef⟩, hnow⟩, hleast⟩ := hfirst
  rw [List.mem_range']
  constructor
  · intro h
    have hle := hleast ⟨h.onGrid, h.now_le⟩
    obtain ⟨⟨k, -, rfl⟩, -, hmax, howner⟩ := h
    have hmul : steps * r.interval.toNat ≤ k * r.interval.toNat := by omega
    obtain ⟨j, rfl⟩ := Nat.exists_eq_add_of_le (Nat.le_of_mul_le_mul_right hmul hpos)
    rw [Nat.add_mul, ← Nat.add_assoc, ← hdef] at hmax howner ⊢
    refine ⟨⟨j, Nat.lt_succ_of_le ((Nat.le_div_iff_mul_le hpos).mpr (by omega)), ?_⟩, howner⟩
    rw [Nat.mul_comm]
  · rintro ⟨⟨j, hj, rfl⟩, howner⟩
    have hmax := (Nat.le_div_iff_mul_le hpos).mp (Nat.le_of_lt_succ hj)
    rw [Nat.mul_comm] at howner ⊢
    refine ⟨⟨steps + j, by omega, ?_⟩, by omega, by omega, howner⟩
    rw [hdef, Nat.add_mul, Nat.add_assoc]

theorem schedule_of_firstSlot {first : Nat} (h : r.firstSlot now = .ok first) :
    r.schedule now =
      if maxWord < first then .error .overflow
      else match r.firstOwned? ((maxWord - first) / r.interval.toNat + 1) first with
        | none => .error .overflow
        | some slot => .ok (UInt64.ofNat slot) := by
  rw [schedule, h]
  rfl

/-- **The search ends at the earliest slot**, or there is none. -/
theorem schedule_cases (hpos : r.interval ≠ 0) (now : UInt64) :
    (∃ t : UInt64, r.schedule now = .ok t ∧ IsLeast {slot | r.Open now slot} t.toNat) ∨
      (r.schedule now = .error .overflow ∧ ∀ slot, ¬r.Open now slot) := by
  have hinterval := toNat_pos hpos
  obtain ⟨first, hstart, hfirst⟩ := firstSlot_ok hpos now
  rw [schedule_of_firstSlot hstart]
  by_cases hmax : maxWord < first
  · refine Or.inr ⟨if_pos hmax, ?_⟩
    intro slot hopen
    have hle := hfirst.2 ⟨hopen.onGrid, hopen.now_le⟩
    exact absurd hopen.le_maxWord (by omega)
  · have hiff : ∀ slot, r.Open now slot ↔ _ :=
      fun _ => open_iff hinterval hfirst (Nat.not_lt.mp hmax)
    rw [if_neg hmax]
    cases hfound : r.firstOwned? ((maxWord - first) / r.interval.toNat + 1) first with
    | none =>
      refine Or.inr ⟨rfl, ?_⟩
      intro slot hopen
      obtain ⟨hmem, howner⟩ := (hiff slot).mp hopen
      rw [firstOwned?_eq_find?, List.find?_eq_none] at hfound
      exact hfound slot hmem (by simpa using howner)
    | some slot =>
      have hearliest := firstOwned?_isLeast hinterval hfound
      simp only [← hiff] at hearliest
      have hword : (UInt64.ofNat slot).toNat = slot :=
        UInt64.toNat_ofNat_of_lt' (Nat.lt_of_le_of_lt hearliest.1.le_maxWord (by decide))
      exact Or.inl ⟨_, rfl, by rwa [hword]⟩

/-- The earliest slot is a slot of the signer. -/
theorem Open.ownsSlot {t : UInt64} (hpos : r.interval ≠ 0) (h : r.Open now t.toNat) :
    r.ownsSlot t = .ok true := by
  obtain ⟨steps, hsteps, hslot⟩ := h.onGrid
  have hinterval := toNat_pos hpos
  have hmul := Nat.mul_le_mul_right r.interval.toNat hsteps
  have hafter : r.parentTime < t := UInt64.lt_iff_toNat_lt.mpr (by omega)
  exact ownsSlot_eq_true_iff.mpr
    ⟨hafter, hpos, (on_grid_iff hafter).mpr h.onGrid, h.owner⟩

end Rotation

/-! ## On a machine -/

namespace Machine

variable {r : Rotation} {a b c now time : UInt64}

/-- Where `Scheduler::schedule` starts: the first slot not before `now`. -/
def firstSlot (r : Rotation) (now : UInt64) : Except Trap UInt64 := do
  let start ← add r.parentTime r.interval
  if start < now then
    let behind ← sub now start
    let further ← divUp behind r.interval
    let ahead ← mul further r.interval
    add start ahead
  else return start

/-- The loop of `Scheduler::schedule`: the first slot from `time` on that the signer owns. -/
def seek (r : Rotation) (hpos : r.interval ≠ 0) (time : UInt64) : Except Trap UInt64 :=
  match owner r time with
  | .error trap => .error trap
  | .ok owner =>
    if owner = r.self.address then .ok time
    else
      match _hnext : add time r.interval with
      | .error trap => .error trap
      | .ok next => seek r hpos next
termination_by maxWord - time.toNat
decreasing_by
  have hsum := toNat_of_add _hnext
  have hinterval := toNat_pos hpos
  have hnext := next.toNat_lt
  rw [maxWord]
  omega

/-- `Scheduler::schedule`: the first slot not before `now` that the signer owns. -/
def schedule (r : Rotation) (hpos : r.interval ≠ 0) (now : UInt64) : Except Trap UInt64 := do
  let first ← firstSlot r now
  seek r hpos first

/-- A number as a word, if it fits. -/
def fit (n : Nat) : Except Trap UInt64 :=
  if maxWord < n then .error .overflow else .ok (UInt64.ofNat n)

theorem fit_of_le {n : Nat} (h : n ≤ maxWord) : fit n = .ok (UInt64.ofNat n) :=
  if_neg (Nat.not_lt.mpr h)

theorem fit_eq_error {n : Nat} {trap : Trap} (h : fit n = .error trap) :
    maxWord < n ∧ trap = .overflow := by
  unfold fit at h
  split at h
  · rename_i hn
    exact ⟨hn, (Except.error.inj h).symm⟩
  · cases h

theorem toNat_ofNat_of_le {n : Nat} (h : n ≤ maxWord) : (UInt64.ofNat n).toNat = n :=
  UInt64.toNat_ofNat_of_lt' (Nat.lt_of_le_of_lt h (by decide))

/-- What goes on from a number that may not fit. -/
theorem fit_bind {m n : Nat} {f : UInt64 → Except Trap UInt64} (hover : maxWord < m → maxWord < n)
    (hfits : m ≤ maxWord → f (UInt64.ofNat m) = fit n) : (fit m >>= f) = fit n := by
  by_cases hm : maxWord < m
  · rw [fit, fit, if_pos hm, if_pos (hover hm)]
    rfl
  · rw [fit_of_le (Nat.not_lt.mp hm)]
    exact hfits (Nat.not_lt.mp hm)

theorem add_eq_fit (a b : UInt64) : add a b = fit (a.toNat + b.toNat) := by
  rw [add, fit, UInt64.ofNat_add, UInt64.ofNat_toNat, UInt64.ofNat_toNat]

theorem mul_eq_fit (a b : UInt64) : mul a b = fit (a.toNat * b.toNat) := by
  rw [mul, fit, UInt64.ofNat_mul, UInt64.ofNat_toNat, UInt64.ofNat_toNat]

/-- A quotient fits, also when it is rounded up. -/
theorem divUp_eq (hpos : b ≠ 0) :
    ∃ c, divUp a b = .ok c ∧ c.toNat = (a.toNat + b.toNat - 1) / b.toNat := by
  have hb := toNat_pos hpos
  have hsplit := Nat.div_add_mod' a.toNat b.toNat
  have hless := Nat.mod_lt a.toNat hb
  have hle := Nat.le_mul_of_pos_right (a.toNat / b.toNat) hb
  have ha := a.toNat_lt
  unfold divUp
  simp only [div_eq hpos, rem_eq hpos, ok_bind, UInt64.lt_iff_toNat_lt, UInt64.toNat_mod]
  by_cases hrest : (0 : UInt64).toNat < a.toNat % b.toNat
  · rw [UInt64.toNat_zero] at hrest
    have hfits : (a / b).toNat + (1 : UInt64).toNat ≤ maxWord := by
      rw [UInt64.toNat_div, UInt64.toNat_one, maxWord]
      omega
    refine ⟨_, (if_pos hrest).trans (add_eq hfits), ?_⟩
    rw [toNat_of_add (add_eq hfits), UInt64.toNat_div, UInt64.toNat_one]
    symm
    apply Nat.div_eq_of_lt_le
    · rw [Nat.succ_mul]
      omega
    · rw [Nat.succ_mul, Nat.succ_mul]
      omega
  · rw [UInt64.toNat_zero] at hrest
    refine ⟨_, if_neg hrest, ?_⟩
    rw [UInt64.toNat_div]
    symm
    apply Nat.div_eq_of_lt_le
    · omega
    · rw [Nat.succ_mul]
      omega

/-- The machine starts the search where it starts, unless the start does not fit. -/
theorem firstSlot_eq (hpos : r.interval ≠ 0) {first : Nat} (h : r.firstSlot now = .ok first) :
    firstSlot r now = fit first := by
  unfold Rotation.firstSlot at h
  unfold firstSlot
  rw [add_eq_fit]
  by_cases hnow : now.toNat ≤ r.parentTime.toNat + r.interval.toNat
  · rw [if_pos hnow] at h
    obtain rfl := Except.ok.inj h
    refine fit_bind id fun hstart => ?_
    rw [fit_of_le hstart, if_neg]
    · rfl
    · rw [UInt64.lt_iff_toNat_lt, toNat_ofNat_of_le hstart]
      omega
  · rw [if_neg hnow, if_neg hpos] at h
    obtain rfl := Except.ok.inj h
    refine fit_bind (by omega) fun hstart => ?_
    have hlate : UInt64.ofNat (r.parentTime.toNat + r.interval.toNat) < now := by
      rw [UInt64.lt_iff_toNat_lt, toNat_ofNat_of_le hstart]
      omega
    have hbehind : (now - UInt64.ofNat (r.parentTime.toNat + r.interval.toNat)).toNat =
        now.toNat - (r.parentTime.toNat + r.interval.toNat) := by
      rw [UInt64.toNat_sub_of_le _ _ (UInt64.le_of_lt hlate), toNat_ofNat_of_le hstart]
    obtain ⟨further, hfurther, hsteps⟩ := divUp_eq
      (a := now - UInt64.ofNat (r.parentTime.toNat + r.interval.toNat)) hpos
    rw [if_pos hlate, sub_eq (UInt64.not_lt.mpr (UInt64.le_of_lt hlate))]
    simp only [ok_bind, hfurther, mul_eq_fit]
    rw [← hbehind, ← hsteps]
    refine fit_bind (by omega) fun hahead => ?_
    rw [add_eq_fit, toNat_ofNat_of_le hstart, toNat_ofNat_of_le hahead]

/-- **The search on a machine**, from any time on. -/
theorem seek_eq (hpos : r.interval ≠ 0) (time : UInt64) :
    seek r hpos time =
      match r.firstOwned? ((maxWord - time.toNat) / r.interval.toNat + 1) time.toNat with
      | none => .error .overflow
      | some slot => .ok (UInt64.ofNat slot) := by
  have hinterval := toNat_pos hpos
  fun_induction seek r hpos time with
  | case1 time trap howner =>
    rw [owner_eq] at howner
    cases howner
  | case2 time howner =>
    rw [owner_eq] at howner
    rw [Rotation.firstOwned?, if_pos (Except.ok.inj howner)]
    exact congrArg Except.ok UInt64.ofNat_toNat.symm
  | case3 time a howner hother trap hnext =>
    rw [owner_eq] at howner
    obtain rfl := Except.ok.inj howner
    rw [add_eq_fit] at hnext
    obtain ⟨hover, rfl⟩ := fit_eq_error hnext
    have hlast : (maxWord - time.toNat) / r.interval.toNat = 0 :=
      Nat.div_eq_of_lt (by omega)
    rw [hlast, Rotation.firstOwned?, if_neg hother]
    rfl
  | case4 time a howner hother next hnext ih =>
    rw [owner_eq] at howner
    obtain rfl := Except.ok.inj howner
    have hsum := toNat_of_add hnext
    have hfits : next.toNat ≤ maxWord := Nat.le_of_lt_succ next.toNat_lt
    have hcount : (maxWord - time.toNat) / r.interval.toNat =
        (maxWord - next.toNat) / r.interval.toNat + 1 := by
      rw [Nat.div_eq_sub_div hinterval (by omega), hsum, Nat.sub_sub]
    rw [hcount, Rotation.firstOwned?, if_neg hother, ← hsum]
    exact ih

/-- **The search on a machine.** -/
theorem schedule_eq (hpos : r.interval ≠ 0) (now : UInt64) :
    schedule r hpos now = (r.schedule now).mapError fun _ => Trap.overflow := by
  obtain ⟨first, hfirst, -⟩ := Rotation.firstSlot_ok hpos now
  rw [Rotation.schedule_of_firstSlot hfirst, schedule, firstSlot_eq hpos hfirst]
  by_cases hmax : maxWord < first
  · rw [if_pos hmax, fit, if_pos hmax]
    rfl
  · have hfits := Nat.not_lt.mp hmax
    rw [if_neg hmax, fit_of_le hfits]
    simp only [ok_bind, seek_eq, toNat_ofNat_of_le hfits]
    cases r.firstOwned? ((maxWord - first) / r.interval.toNat + 1) first <;> rfl

end Machine

/-- **The earliest slot.** Whatever the time, `schedule` ends: at the least slot that is `Open`,
where `ownsSlot` holds, or with an overflow if there is none. `Machine.schedule` does the same. -/
theorem schedule_earliest (r : Rotation) (hpos : r.interval ≠ 0) (now : UInt64) :
    (∀ t : UInt64, r.schedule now = .ok t ↔ IsLeast {slot | r.Open now slot} t.toNat) ∧
    (∀ t : UInt64, r.schedule now = .ok t → r.ownsSlot t = .ok true) ∧
    (∀ cause, r.schedule now = .error cause ↔ cause = .overflow ∧ ∀ slot, ¬r.Open now slot) ∧
    (∀ t : UInt64, Machine.schedule r hpos now = .ok t ↔ IsLeast {slot | r.Open now slot} t.toNat) ∧
    ∀ trap, Machine.schedule r hpos now = .error trap ↔
      trap = .overflow ∧ ∀ slot, ¬r.Open now slot := by
  rw [Machine.schedule_eq hpos]
  rcases Rotation.schedule_cases hpos now with ⟨found, hfound, hleast⟩ | ⟨hnone, hclosed⟩
  · have hopen : ¬∀ slot, ¬r.Open now slot := fun hnone => hnone _ hleast.1
    have hiff : ∀ t : UInt64, found = t ↔ IsLeast {slot | r.Open now slot} t.toNat := by
      intro t
      constructor
      · rintro rfl
        exact hleast
      · intro h
        exact UInt64.toNat_inj.mp (hleast.unique h)
    rw [hfound]
    refine ⟨?_, ?_, by simp [hopen], ?_, by simp [Except.mapError, hopen]⟩
    · intro t
      rw [Except.ok.injEq, hiff]
    · rintro t ht
      obtain rfl := Except.ok.inj ht
      exact hleast.1.ownsSlot hpos
    · intro t
      rw [Except.mapError, Except.ok.injEq, hiff]
  · have hempty : ∀ t : UInt64, ¬IsLeast {slot | r.Open now slot} t.toNat :=
      fun t h => hclosed _ h.1
    rw [hnone]
    refine ⟨?_, by simp, ?_, ?_, ?_⟩
    · simp [hempty]
    · simp [hclosed, eq_comm]
    · simp [Except.mapError, hempty]
    · simp [Except.mapError, hclosed, eq_comm]

namespace Sample

/-- A rotation of one proposer shortly before the times end: two slots are left. -/
def late : Rotation where
  self := ⟨Bytes.ofNat 1, true⟩
  actives := [⟨Bytes.ofNat 1, true⟩]
  parentNumber := 10
  parentTime := 18446744073709551590
  interval := 10
  maxWalk := 101
  mem_actives := List.mem_singleton.mpr rfl

theorem late_owner (slot : Nat) : late.owner slot = late.self.address :=
  List.mem_singleton.mp (late.owner_mem slot)

/-- Rounded up to the grid, the first of these times is the last slot there is. The second lies
behind it, and is rounded up to more than a word. -/
theorem late_schedule : ∃ hpos : late.interval ≠ 0,
    late.schedule 18446744073709551601 = .ok 18446744073709551610 ∧
    Machine.schedule late hpos 18446744073709551611 = .error .overflow := by
  have hpos : late.interval ≠ 0 := by decide
  have hgrid : ∀ slot, late.OnGrid slot ↔ ∃ steps, 1 ≤ steps ∧
      slot = 18446744073709551590 + steps * 10 := fun slot => Iff.rfl
  refine ⟨hpos, ?_, ?_⟩
  · refine ((schedule_earliest late hpos 18446744073709551601).1 _).mpr ⟨?_, ?_⟩
    · exact ⟨(hgrid _).mpr ⟨2, by decide, rfl⟩, by decide, by decide, late_owner _⟩
    · intro slot hopen
      obtain ⟨steps, -, hslot⟩ := (hgrid slot).mp hopen.onGrid
      have hnow : 18446744073709551601 ≤ slot := hopen.now_le
      show 18446744073709551610 ≤ slot
      omega
  · refine ((schedule_earliest late hpos 18446744073709551611).2.2.2.2 _).mpr ⟨rfl, ?_⟩
    intro slot hopen
    obtain ⟨steps, -, hslot⟩ := (hgrid slot).mp hopen.onGrid
    have hnow : 18446744073709551611 ≤ slot := hopen.now_le
    have hmax := hopen.le_maxWord
    rw [maxWord] at hmax
    omega

end Sample

end ProofOfAuthority
