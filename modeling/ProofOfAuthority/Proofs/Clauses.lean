import ProofOfAuthority.Proofs.Transfers

/-!
# Clauses, one after the other

The plain way to run clauses writes to the ledger as it goes (`performAll`), and puts the ledger
back when one of them fails (`performOrRestore`). The execution writes nothing before all clauses
are worked out, and then each balance once, in the order of accounts (`applyInPlace`). The two leave
the same ledger behind, entry by entry: writes to different accounts commute, and of two writes to
one account only the later counts, so that a balance that is pending is as good as written.

* `Table.Sorted.write_write`, `Table.Sorted.write_comm` — where the order of writes does not matter.
* `flush_put` — one more pending balance is one more write.
* `perform_mirrors`, `performAll_mirrors` — what is worked out on the overlay happens on the ledger.
* `run_performOrRestore`, `run_applyInPlace` — what both ways leave behind.
* `overlay_eq_performOrRestore` — that it is the same.
-/

namespace ProofOfAuthority

/-! ## The order of writes -/

namespace Table

variable {n : Nat} {t : Table n Amount} {k k' : Bytes n}

theorem get?_write (t : Table n Amount) (k : Bytes n) (v : Amount) (q : Bytes n) :
    (t.write k v).get? q =
      if k = q then (if v = Amount.zero then none else some v) else t.get? q := by
  unfold Table.write
  by_cases hv : v = Amount.zero
  · rw [if_pos hv, if_pos hv, get?_erase]
  · rw [if_neg hv, if_neg hv, get?_put]

theorem Sorted.write (h : t.Sorted) (k : Bytes n) (v : Amount) : (t.write k v).Sorted := by
  unfold Table.write
  split
  · exact sorted_erase h k
  · exact sorted_put h k v

/-- Of two writes under one key only the later counts. -/
theorem Sorted.write_write (h : t.Sorted) (k : Bytes n) (v w : Amount) :
    (t.write k v).write k w = t.write k w := by
  refine ((h.write k v).write k w).ext (h.write k w) ?_
  intro q
  rw [get?_write, get?_write, get?_write]
  split <;> rfl

/-- Writes under different keys commute. -/
theorem Sorted.write_comm (h : t.Sorted) (hne : k ≠ k') (v w : Amount) :
    (t.write k v).write k' w = (t.write k' w).write k v := by
  refine ((h.write k v).write k' w).ext ((h.write k' w).write k v) ?_
  intro q
  rw [get?_write, get?_write, get?_write, get?_write]
  by_cases hk : k = q
  · have hk' : k' ≠ q := fun h => hne (hk.trans h.symm)
    rw [if_pos hk, if_neg hk', if_pos hk]
  · rw [if_neg hk, if_neg hk]

end Table

namespace Ledger

variable {l : Ledger} {a b : Address}

theorem setBalance_setBalance (hl : l.balances.Sorted) (a : Address) (x y : Amount) :
    (l.setBalance a x).setBalance a y = l.setBalance a y :=
  congrArg (fun t => { l with balances := t }) (hl.write_write a x y)

theorem setBalance_comm (hl : l.balances.Sorted) (hne : a ≠ b) (x y : Amount) :
    (l.setBalance a x).setBalance b y = (l.setBalance b y).setBalance a x :=
  congrArg (fun t => { l with balances := t }) (hl.write_comm hne x y)

end Ledger

/-! ## Programs that leave what they wrote -/

section

variable {ε σ α β : Type} {program : EStateM ε σ α} {f : α → EStateM ε σ β} {s s' : σ}

theorem run_bind_ok_iff {b : β} : (program >>= f).run s = .ok b s' ↔
    ∃ a t, program.run s = .ok a t ∧ (f a).run t = .ok b s' := by
  rw [EStateM.run_bind]
  cases program.run s with
  | ok a t => exact ⟨fun h => ⟨a, t, rfl, h⟩, fun ⟨_, _, hat, h⟩ => by cases hat; exact h⟩
  | error e t => simp

theorem run_bind_error_iff {e : ε} : (program >>= f).run s = .error e s' ↔
    program.run s = .error e s' ∨ ∃ a t, program.run s = .ok a t ∧ (f a).run t = .error e s' := by
  rw [EStateM.run_bind]
  cases program.run s with
  | ok a t =>
    simp only [reduceCtorEq, false_or]
    exact ⟨fun h => ⟨a, t, rfl, h⟩, fun ⟨_, _, hat, h⟩ => by cases hat; exact h⟩
  | error e t => simp

/-- A failure that is caught leaves what was written before it. -/
theorem run_tryCatch (program : EStateM ε σ α) (handle : ε → EStateM ε σ α) (s : σ) :
    (tryCatch program handle).run s =
      match program.run s with
      | .ok a s' => .ok a s'
      | .error e s' => (handle e).run s' := by
  change EStateM.tryCatch program handle s = _
  unfold EStateM.tryCatch EStateM.run
  cases program s <;> rfl

end

namespace ValueTransfer

variable {l : Ledger} {origin account : Address} {pending : Overlay} {c : Clause}
  {clauses : List Clause}

theorem flush_cons (account : Address) (amount : Amount) (pending : Overlay) (l : Ledger) :
    Overlay.flush ((account, amount) :: pending) l = pending.flush (l.setBalance account amount) :=
  rfl

/-- A balance that is not pending may as well be written after those that are. -/
theorem flush_setBalance (hl : l.balances.Sorted) (hfresh : ∀ e ∈ pending, e.1 ≠ account)
    (amount : Amount) :
    pending.flush (l.setBalance account amount) = (pending.flush l).setBalance account amount := by
  induction pending generalizing l with
  | nil => rfl
  | cons e rest ih =>
    obtain ⟨k, v⟩ := e
    have hne : account ≠ k := Ne.symm (hfresh (k, v) List.mem_cons_self)
    have hrest : ∀ e ∈ rest, e.1 ≠ account := fun e he => hfresh e (List.mem_cons_of_mem _ he)
    rw [flush_cons, flush_cons, Ledger.setBalance_comm hl hne, ih (hl.write k v) hrest]

/-- **One more pending balance is one more write.** -/
theorem flush_put (hl : l.balances.Sorted) (hpending : Table.Sorted pending) (account : Address)
    (amount : Amount) : Overlay.flush (Table.put pending account amount) l =
      (pending.flush l).setBalance account amount := by
  induction pending generalizing l with
  | nil => rfl
  | cons e rest ih =>
    obtain ⟨k, v⟩ := e
    obtain ⟨hfirst, hrest⟩ := Table.sorted_cons.mp hpending
    rw [Table.put]
    by_cases hlt : account < k
    · -- nothing is pending for the account
      have hfresh : ∀ e ∈ (k, v) :: rest, e.1 ≠ account := by
        intro e he
        rcases List.mem_cons.mp he with rfl | he
        · exact Ne.symm (Table.ne_of_lt hlt)
        · exact Ne.symm (Table.ne_of_lt (Table.lt_trans hlt (hfirst e he)))
      rw [if_pos hlt, flush_cons, flush_setBalance hl hfresh]
    · rw [if_neg hlt]
      by_cases heq : account = k
      · have hfresh : ∀ e ∈ rest, e.1 ≠ account := fun e he =>
          heq ▸ Ne.symm (Table.ne_of_lt (hfirst e he))
        rw [if_pos heq, flush_cons, flush_cons, ← heq, ← Ledger.setBalance_setBalance hl account v,
          flush_setBalance (hl.write account v) hfresh]
      · rw [if_neg heq, flush_cons, flush_cons, ih (hl.write k v) hrest]

/-! ## Two ways to run clauses -/

/-- Perform a clause on the ledger. A failure does not undo what was written before it. -/
def perform (origin : Address) (c : Clause) : EStateM ClauseFailure Ledger Output := do
  let some recipient := c.recipient | throw .noRecipient
  let some debited := ((← get).balance origin).sub? c.value | throw .originShort
  modify fun l => l.setBalance origin debited
  let some credited := ((← get).balance recipient).add? c.value | throw .recipientFull
  modify fun l => l.setBalance recipient credited
  return record origin recipient c.value

/-- Perform clauses in order, as far as the first that fails. -/
def performAll (origin : Address) : List Clause → EStateM ClauseFailure Ledger (List Output)
  | [] => return []
  | c :: rest => do
    let output ← perform origin c
    let outputs ← performAll origin rest
    return output :: outputs

/-- Perform clauses in order. If one fails, put the ledger back. -/
def performOrRestore (origin : Address) (clauses : List Clause) :
    EStateM ClauseFailure Ledger (List Output) := do
  let before ← get
  try
    performAll origin clauses
  catch failure =>
    set before
    throw failure

/-- A turn of the first loop of `TransferRuntime::apply_clauses`: work out a clause on the overlay
of the ledger, which is only read. -/
def workOut (origin : Address) (pending : Overlay) (c : Clause) :
    EStateM ClauseFailure Ledger (Overlay × Output) := do
  let some recipient := c.recipient | throw .noRecipient
  let some debited := (pending.balance (← get) origin).sub? c.value | throw .originShort
  let pending := Table.put pending origin debited
  let some credited := (Overlay.balance pending (← get) recipient).add? c.value
    | throw .recipientFull
  return (Table.put pending recipient credited, record origin recipient c.value)

/-- The first loop of `TransferRuntime::apply_clauses`: work out clauses in order. -/
def workOutAll (origin : Address) :
    (pending : Overlay) → List Clause → EStateM ClauseFailure Ledger (Overlay × List Output)
  | pending, [] => return (pending, [])
  | pending, c :: rest => do
    let (pending, output) ← workOut origin pending c
    let (pending, outputs) ← workOutAll origin pending rest
    return (pending, output :: outputs)

/-- The last loop of `TransferRuntime::apply_clauses`: write pending balances to the ledger, one
after the other. -/
def writeOut : Overlay → EStateM ClauseFailure Ledger Unit
  | [] => return ()
  | (account, amount) :: rest => do
    modify fun l => l.setBalance account amount
    writeOut rest

/-- `TransferRuntime::apply_clauses` in place: work clauses out, then write what is pending. -/
def applyInPlace (origin : Address) (clauses : List Clause) :
    EStateM ClauseFailure Ledger (List Output) := do
  let (pending, outputs) ← workOutAll origin [] clauses
  writeOut pending
  return outputs

/-- What is left of a ledger by a program that does to it what was worked out on an overlay, or
fails for the reason that was found there, with some ledger or other left behind. -/
inductive Mirrors {α : Type} (l : Ledger) :
    Except ClauseFailure (Overlay × α) → EStateM.Result ClauseFailure Ledger α → Prop
  | done (pending : Overlay) (a : α) : Mirrors l (.ok (pending, a)) (.ok a (pending.flush l))
  | failed (failure : ClauseFailure) (left : Ledger) :
      Mirrors l (.error failure) (.error failure left)

/-- The ledger and outputs that were worked out on an overlay, or the ledger as it was. -/
def allOrNothing (l : Ledger) : Except ClauseFailure (Overlay × List Output) →
    EStateM.Result ClauseFailure Ledger (List Output)
  | .ok (pending, outputs) => .ok outputs (pending.flush l)
  | .error failure => .error failure l

/-! ## On the ledger -/

/-- One program after another. -/
theorem Mirrors.bind {α β : Type} {tried : Except ClauseFailure (Overlay × α)}
    {f : Overlay × α → Except ClauseFailure (Overlay × β)}
    {program : EStateM ClauseFailure Ledger α} {g : α → EStateM ClauseFailure Ledger β}
    {start : Ledger} (h : Mirrors l tried (program.run start))
    (hf : ∀ pending a, tried = .ok (pending, a) →
      Mirrors l (f (pending, a)) ((g a).run (pending.flush l))) :
    Mirrors l (tried >>= f) ((program >>= g).run start) := by
  rw [EStateM.run_bind]
  generalize program.run start = performed at h
  cases h with
  | done pending a => exact hf pending a rfl
  | failed failure left => exact .failed failure left

/-- **What is worked out for a clause happens on the ledger** with the overlay written. -/
theorem perform_mirrors (hl : l.balances.Sorted) (hpending : Table.Sorted pending)
    (origin : Address) (c : Clause) :
    Mirrors l (tryClause l origin pending c) ((perform origin c).run (pending.flush l)) := by
  unfold tryClause perform
  cases c.recipient with
  | none => exact .failed .noRecipient _
  | some recipient =>
    simp only [EStateM.run_bind, EStateM.run_get, balance_flush hpending]
    cases (pending.balance l origin).sub? c.value with
    | none => exact .failed .originShort _
    | some debited =>
      have hdebited := Table.sorted_put hpending origin debited
      simp only [EStateM.run_bind, EStateM.run_get, EStateM.run_modify, ← flush_put hl hpending,
        balance_flush hdebited]
      cases (Overlay.balance (Table.put pending origin debited) l recipient).add? c.value with
      | none => exact .failed .recipientFull _
      | some credited =>
        simp only [EStateM.run_bind, EStateM.run_modify, ← flush_put hl hdebited]
        exact .done _ _

/-- The same for clauses in order, by induction on them. -/
theorem performAll_mirrors (hl : l.balances.Sorted) (hpending : Table.Sorted pending)
    (origin : Address) (clauses : List Clause) :
    Mirrors l (tryClauses l origin pending clauses)
      ((performAll origin clauses).run (pending.flush l)) := by
  induction clauses generalizing pending with
  | nil => exact .done pending []
  | cons c rest ih =>
    refine (perform_mirrors hl hpending origin c).bind fun next output htry => ?_
    have hnext : Table.Sorted next := by
      have htried := tried l origin pending c
      rw [htry] at htried
      cases htried with
      | moved _ _ hsorted => exact hsorted hpending
    exact (ih hnext).bind fun last outputs _ => .done last (output :: outputs)

/-- Clauses that are put back if one fails do what was worked out, or nothing. -/
theorem run_performOrRestore (hl : l.balances.Sorted) (origin : Address) (clauses : List Clause) :
    (performOrRestore origin clauses).run l = allOrNothing l (tryClauses l origin [] clauses) := by
  have hmirrors := performAll_mirrors hl Table.sorted_nil origin clauses
  rw [show Overlay.flush [] l = l from rfl] at hmirrors
  unfold performOrRestore
  rw [EStateM.run_bind, EStateM.run_get]
  dsimp only
  rw [run_tryCatch]
  generalize (performAll origin clauses).run l = performed at hmirrors
  generalize tryClauses l origin [] clauses = tried at hmirrors
  cases hmirrors with
  | done pending outputs => rfl
  | failed failure left => rfl

/-! ## On the overlay -/

/-- What was worked out by a program that only reads the ledger. -/
def unwritten {α : Type} (l : Ledger) :
    Except ClauseFailure α → EStateM.Result ClauseFailure Ledger α
  | .ok a => .ok a l
  | .error failure => .error failure l

theorem run_workOut (l : Ledger) (origin : Address) (pending : Overlay) (c : Clause) :
    (workOut origin pending c).run l = unwritten l (tryClause l origin pending c) := by
  unfold workOut tryClause
  cases c.recipient with
  | none => rfl
  | some recipient =>
    simp only [EStateM.run_bind, EStateM.run_get]
    cases (pending.balance l origin).sub? c.value with
    | none => rfl
    | some debited =>
      simp only [EStateM.run_bind, EStateM.run_get]
      cases (Overlay.balance (Table.put pending origin debited) l recipient).add? c.value with
      | none => rfl
      | some credited => rfl

theorem run_workOutAll (l : Ledger) (origin : Address) (pending : Overlay)
    (clauses : List Clause) :
    (workOutAll origin pending clauses).run l =
      unwritten l (tryClauses l origin pending clauses) := by
  induction clauses generalizing pending with
  | nil => rfl
  | cons c rest ih =>
    rw [workOutAll, EStateM.run_bind, run_workOut, tryClauses]
    cases tryClause l origin pending c with
    | error failure => rfl
    | ok result =>
      obtain ⟨next, output⟩ := result
      simp only [unwritten, EStateM.run_bind, ih]
      dsimp only [bind, Except.bind]
      cases tryClauses l origin next rest with
      | error failure => rfl
      | ok result => rfl

theorem run_writeOut (pending : Overlay) (l : Ledger) :
    (writeOut pending).run l = .ok () (pending.flush l) := by
  induction pending generalizing l with
  | nil => rfl
  | cons e rest ih =>
    rw [writeOut, EStateM.run_bind, EStateM.run_modify]
    exact ih _

/-- Clauses that are worked out before anything is written do what was worked out, or nothing. -/
theorem run_applyInPlace (l : Ledger) (origin : Address) (clauses : List Clause) :
    (applyInPlace origin clauses).run l = allOrNothing l (tryClauses l origin [] clauses) := by
  unfold applyInPlace
  rw [EStateM.run_bind, run_workOutAll]
  cases tryClauses l origin [] clauses with
  | error failure => rfl
  | ok result =>
    simp only [unwritten, EStateM.run_bind, run_writeOut]
    rfl

/-- What comes of the clauses, without the reason for a failure. -/
theorem runClauses_eq_toOption (l : Ledger) (origin : Address) (clauses : List Clause) :
    runClauses l origin clauses = match (applyInPlace origin clauses).run l with
      | .ok outputs l' => some (l', outputs)
      | .error _ _ => none := by
  rw [run_applyInPlace, runClauses, ← toOption_tryClauses]
  cases tryClauses l origin [] clauses with
  | error failure => rfl
  | ok result => rfl

/-! ## Both ways -/

/-- **Clauses fail at the first that does**, on what those before it have left. -/
theorem performAll_error_iff {failure : ClauseFailure} {left : Ledger} :
    (performAll origin clauses).run l = .error failure left ↔
      ∃ before c after outputs between, clauses = before ++ c :: after ∧
        (performAll origin before).run l = .ok outputs between ∧
        (perform origin c).run between = .error failure left := by
  induction clauses generalizing l with
  | nil => simp [performAll]
  | cons d rest ih =>
    rw [performAll, run_bind_error_iff]
    constructor
    · rintro (hfirst | ⟨output, next, hfirst, h⟩)
      · exact ⟨[], d, rest, [], l, rfl, rfl, hfirst⟩
      · rcases run_bind_error_iff.mp h with hrest | ⟨outputs, last, -, h⟩
        · obtain ⟨before, c, after, outputs, between, rfl, hbefore, hfails⟩ := ih.mp hrest
          refine ⟨d :: before, c, after, output :: outputs, between, rfl, ?_, hfails⟩
          exact run_bind_ok_iff.mpr ⟨output, next, hfirst,
            run_bind_ok_iff.mpr ⟨outputs, between, hbefore, rfl⟩⟩
        · cases h
    · rintro ⟨before, c, after, outputs, between, hsplit, hbefore, hfails⟩
      cases before with
      | nil =>
        obtain ⟨rfl, rfl⟩ := List.cons.inj hsplit
        obtain ⟨-, rfl⟩ := EStateM.Result.ok.inj hbefore
        exact Or.inl hfails
      | cons e before =>
        obtain ⟨rfl, rfl⟩ := List.cons.inj hsplit
        obtain ⟨output, next, hfirst, hbefore⟩ := run_bind_ok_iff.mp hbefore
        obtain ⟨outputs', last, hmiddle, hlast⟩ := run_bind_ok_iff.mp hbefore
        obtain ⟨-, rfl⟩ := EStateM.Result.ok.inj hlast
        refine Or.inr ⟨output, next, hfirst, run_bind_error_iff.mpr (Or.inl ?_)⟩
        exact ih.mpr ⟨before, c, after, outputs', last, rfl, hmiddle, hfails⟩

/-- One of the clauses fails when they are performed in order. -/
def SomeFails (l : Ledger) (origin : Address) (clauses : List Clause) : Prop :=
  ∃ before c after outputs between failure left, clauses = before ++ c :: after ∧
    (performAll origin before).run l = .ok outputs between ∧
    (perform origin c).run between = .error failure left

theorem someFails_iff : SomeFails l origin clauses ↔
    ∃ failure left, (performAll origin clauses).run l = .error failure left := by
  simp only [performAll_error_iff]
  constructor
  · rintro ⟨before, c, after, outputs, between, failure, left, h⟩
    exact ⟨failure, left, before, c, after, outputs, between, h⟩
  · rintro ⟨failure, left, before, c, after, outputs, between, h⟩
    exact ⟨before, c, after, outputs, between, failure, left, h⟩

/-- **The overlay and the ledger come to the same**: `applyInPlace`, which works clauses out and
then writes, does what `performOrRestore` does, which writes each at once and puts all back if one
fails; and `runClauses` says what that is. -/
theorem overlay_eq_performOrRestore (hl : l.balances.Sorted) (origin : Address)
    (clauses : List Clause) :
    (applyInPlace origin clauses).run l = (performOrRestore origin clauses).run l ∧
    (∀ l' outputs, (applyInPlace origin clauses).run l = .ok outputs l' ↔
      (performAll origin clauses).run l = .ok outputs l') ∧
    (∀ failure l', (applyInPlace origin clauses).run l = .error failure l' → l' = l) ∧
    (∀ l' outputs, runClauses l origin clauses = some (l', outputs) ↔
      (applyInPlace origin clauses).run l = .ok outputs l') ∧
    (runClauses l origin clauses = none ↔ SomeFails l origin clauses) := by
  have hmirrors := performAll_mirrors hl Table.sorted_nil origin clauses
  rw [show Overlay.flush [] l = l from rfl] at hmirrors
  rw [run_performOrRestore hl, runClauses_eq_toOption, run_applyInPlace, someFails_iff]
  generalize (performAll origin clauses).run l = performed at hmirrors ⊢
  generalize tryClauses l origin [] clauses = tried at hmirrors ⊢
  cases hmirrors with
  | done pending outputs => simp [allOrNothing, and_comm]
  | failed failure left => simp [allOrNothing, eq_comm]

end ValueTransfer

namespace Sample

open ValueTransfer

/-- A ledger of two accounts, of which the second has room for 6. -/
def crowded : Ledger :=
  { Ledger.empty with
    balances :=
      [(Bytes.ofNat 1, ⟨12, by decide⟩), (Bytes.ofNat 2, ⟨Amount.maxNat - 6, by decide⟩)] }

/-- The first account pays itself all it has, and the second what that has room for, and then
more. -/
def spree : List Clause :=
  [⟨some (Bytes.ofNat 1), ⟨12, by decide⟩, []⟩, ⟨some (Bytes.ofNat 2), ⟨6, by decide⟩, []⟩,
    ⟨some (Bytes.ofNat 2), ⟨2, by decide⟩, []⟩]

/-- Performed at once, the last payment fails when it is debited already, and the payments before it
are in effect. On the overlay nothing has been written by then. -/
theorem spree_undone : crowded.balances.Sorted ∧
    (performAll (Bytes.ofNat 1) spree).run crowded = .error .recipientFull
      { crowded with
        balances :=
          [(Bytes.ofNat 1, ⟨4, by decide⟩), (Bytes.ofNat 2, ⟨Amount.maxNat, by decide⟩)] } ∧
    (applyInPlace (Bytes.ofNat 1) spree).run crowded = .error .recipientFull crowded ∧
    (applyInPlace (Bytes.ofNat 1) spree).run crowded =
      (performOrRestore (Bytes.ofNat 1) spree).run crowded ∧
    SomeFails crowded (Bytes.ofNat 1) spree := by
  have hsorted : crowded.balances.Sorted := by
    unfold Table.Sorted
    decide
  obtain ⟨hsame, -, -, -, hreverts⟩ :=
    overlay_eq_performOrRestore hsorted (Bytes.ofNat 1) spree
  exact ⟨hsorted, rfl, rfl, hsame, hreverts.mp rfl⟩

end Sample

end ProofOfAuthority
