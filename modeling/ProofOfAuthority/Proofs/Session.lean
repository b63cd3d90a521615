import Mathlib.Data.List.Nodup
import ProofOfAuthority.Ledger.Archive
import ProofOfAuthority.Proofs.Activity
import ProofOfAuthority.Proofs.FailedExecution
import ProofOfAuthority.Proofs.Inquiry
import ProofOfAuthority.Proofs.LedgerRoot

/-!
# What holds of every ledger in use

That no entry is zero and no signer registered twice is nowhere part of a type. It is up to those
who write, and many do: whoever sets up a ledger, the check of a proposer, an execution, which
writes what its overlay has pending, zeros included, and a replay, which may stop anywhere. In
between, ledgers are forked, staged, committed and opened again (`Session`), so what one attempt
leaves behind another may start from.

All of them go through the same five writes, so the ledgers of a session are ledgers that writes
make.

* `Ledger.exists_split` — a registered signer has one place in the registry.
* `Keeps.bind` — what a program keeps, whether or not it fails.
* `ValueTransfer.executor_writes`, `Inquiry.keeps_replay` — an execution and a replay.
* `Session.Sound.after`, `Session.sound_run` — one act, and all of them.
* `session_canonical` — what holds of every ledger, and what a change of the registry does to it.
-/

namespace ProofOfAuthority

/-! ## The registry -/

namespace Ledger

/-- No entry is zero, and no two candidates have one signer. -/
structure Canonical (l : Ledger) : Prop where
  balances : ∀ e ∈ l.balances, e.2 ≠ Amount.zero
  params : ∀ e ∈ l.params, e.2 ≠ Amount.zero
  signers : l.signers.Nodup

/-- `l'` has `f c` in the place of the one candidate `c` that `l` has for a signer, and is otherwise
the same. -/
def Amends (l l' : Ledger) (signer : Address) (f : Candidate → Candidate) : Prop :=
  ∃ before c after, l.candidates = before ++ c :: after ∧ c.signer = signer ∧
    (∀ d ∈ before ++ after, d.signer ≠ signer) ∧
    l' = { l with candidates := before ++ f c :: after }

variable {l l' : Ledger} {signer : Address} {active : Bool} {c : Candidate}
  {before : List Candidate}

theorem Reachable.canonical (h : l.Reachable) : l.Canonical := by
  obtain ⟨writes, rfl⟩ := h
  exact ⟨(normal_ofWrites writes).balances.nonzero, (normal_ofWrites writes).params.nonzero,
    nodup_signers_ofWrites writes⟩

/-- **A registered signer has one place in the registry.** -/
theorem exists_split (hdistinct : l.signers.Nodup) (h : signer ∈ l.signers) :
    ∃ before c after, l.candidates = before ++ c :: after ∧ c.signer = signer ∧
      ∀ d ∈ before ++ after, d.signer ≠ signer := by
  obtain ⟨c, hc, rfl⟩ := List.mem_map.mp h
  obtain ⟨before, after, hsplit⟩ := List.append_of_mem hc
  rw [signers, hsplit, List.map_append, List.map_cons, List.nodup_middle, ← List.map_append,
    List.nodup_cons] at hdistinct
  refine ⟨before, c, after, hsplit, rfl, ?_⟩
  intro d hd heq
  exact hdistinct.1 (heq ▸ List.mem_map_of_mem hd)

theorem enroll_append (hbefore : ∀ d ∈ before, d.signer ≠ c.signer) (rest : List Candidate) :
    enroll c (before ++ rest) = before ++ enroll c rest := by
  induction before with
  | nil => rfl
  | cons d before ih =>
    rw [List.cons_append, enroll, if_neg (hbefore d List.mem_cons_self),
      ih fun e he => hbefore e (List.mem_cons_of_mem _ he), List.cons_append]

theorem activate_append (hbefore : ∀ d ∈ before, d.signer ≠ signer) (rest : List Candidate) :
    activate signer active (before ++ rest) = before ++ activate signer active rest := by
  induction before with
  | nil => rfl
  | cons d before ih =>
    rw [List.cons_append, activate, if_neg (hbefore d List.mem_cons_self),
      ih fun e he => hbefore e (List.mem_cons_of_mem _ he), List.cons_append]

/-- **Registering a signer again** puts the candidate in the place of the earlier one. -/
theorem amends_register (hdistinct : l.signers.Nodup) (h : c.signer ∈ l.signers) :
    l.Amends (l.register c) c.signer fun _ => c := by
  obtain ⟨before, old, after, hsplit, hold, hothers⟩ := exists_split hdistinct h
  refine ⟨before, old, after, hsplit, hold, hothers, ?_⟩
  rw [register, hsplit, enroll_append fun d hd => hothers d (List.mem_append_left _ hd), enroll,
    if_pos hold]

theorem register_new (h : c.signer ∉ l.signers) :
    l.register c = { l with candidates := l.candidates ++ [c] } := by
  have hnew : ∀ d ∈ l.candidates, d.signer ≠ c.signer :=
    fun d hd heq => h (heq ▸ List.mem_map_of_mem hd)
  have henroll := enroll_append hnew []
  rw [List.append_nil] at henroll
  rw [register, henroll, enroll]

/-- **A change of activity** concerns one candidate, and of that the flag. -/
theorem amends_setActive (hdistinct : l.signers.Nodup) (h : signer ∈ l.signers) (active : Bool) :
    ∃ l', l.setActive signer active = .ok l' ∧ l.Amends l' signer fun c => { c with active } := by
  obtain ⟨before, c, after, hsplit, hc, hothers⟩ := exists_split hdistinct h
  refine ⟨_, if_pos h, before, c, after, hsplit, hc, hothers, ?_⟩
  rw [hsplit, activate_append fun d hd => hothers d (List.mem_append_left _ hd), activate,
    if_pos hc]

/-! ## Writes -/

/-- `l'` is what writes make of `l`. -/
def Written (l l' : Ledger) : Prop := ∃ writes : List Write, writes.foldl write l = l'

theorem Written.refl (l : Ledger) : l.Written l := ⟨[], rfl⟩

theorem Written.trans {m : Ledger} (h : l.Written m) (h' : m.Written l') : l.Written l' := by
  obtain ⟨writes, rfl⟩ := h
  obtain ⟨writes', rfl⟩ := h'
  exact ⟨writes ++ writes', List.foldl_append⟩

theorem written_write (l : Ledger) (w : Write) : l.Written (l.write w) := ⟨[w], rfl⟩

theorem Reachable.written (h : l.Reachable) (h' : l.Written l') : l'.Reachable :=
  Written.trans (l := empty) h h'

theorem written_setActive (h : l.setActive signer active = .ok l') : l.Written l' := by
  have hwrite := l.written_write (.activity signer active)
  rwa [write, h] at hwrite

theorem written_applyUpdates {updates : List Proposer} (h : l.applyUpdates updates = .ok l') :
    l.Written l' := by
  induction updates generalizing l with
  | nil =>
    obtain rfl := Except.ok.inj h
    exact Written.refl l
  | cons u rest ih =>
    obtain ⟨next, hset, hrest⟩ := bind_eq_ok_iff.mp h
    exact (written_setActive hset).trans (ih hrest)

end Ledger

/-- The executor changes a ledger by writes, also if the execution fails. -/
def Executor.Writes {μ : Type} (executor : Executor μ) : Prop :=
  ∀ memory (l : Ledger) context tx, l.Written (executor.execute memory l context tx).2.ledger

namespace ValueTransfer

/-- Pending balances are written one by one, the zeros among them like the others. -/
theorem written_flush (pending : Overlay) (l : Ledger) : l.Written (pending.flush l) := by
  induction pending generalizing l with
  | nil => exact Ledger.Written.refl l
  | cons e rest ih => exact (l.written_write (.balance e.1 e.2)).trans (ih _)

theorem Ran.written {l l' : Ledger} {origin : Address} {clauses : List Clause} {reverted : Bool}
    {outputs : List Output} (h : Ran l origin clauses reverted l' outputs) : l.Written l' := by
  cases h with
  | through _ => exact written_flush _ l
  | undone _ => exact Ledger.Written.refl l

theorem written_credit (l : Ledger) (context : BlockContext) (r : Receipt) :
    l.Written (credit l context r).ledger := by
  unfold credit
  split
  · exact Ledger.Written.refl l
  · rename_i credited _
    exact l.written_write (.balance context.beneficiary credited)

/-- **An execution only writes**, whether or not it fails. -/
theorem executor_writes : executor.Writes := by
  intro _ l context tx
  change l.Written (execute l context tx).ledger
  rcases execute_cases l context tx with ⟨cause, hexec, -⟩ | ⟨origin, remaining, -, hexec⟩
  · rw [hexec]
    exact Ledger.Written.refl l
  · obtain ⟨reverted, after, outputs, hran, hsettle⟩ :=
      settle_eq l context tx origin (fee l tx) remaining
    rw [hexec, hsettle]
    have hcharge := l.written_write (.balance origin remaining)
    exact (hcharge.trans hran.written).trans (written_credit after context _)

end ValueTransfer

/-! ## What programs leave behind -/

section

variable {ε σ α β : Type} {P : σ → Prop} {program : EStateM ε σ α} {f : α → EStateM ε σ β}

/-- The state that a program leaves behind, whether or not it fails. -/
def endState (program : EStateM ε σ α) (s : σ) : σ :=
  match program.run s with
  | .ok _ s' => s'
  | .error _ s' => s'

/-- What holds before a program holds of the state that it leaves behind. -/
def Keeps (P : σ → Prop) (program : EStateM ε σ α) : Prop := ∀ s, P s → P (endState program s)

/-- **One program after another**, the second only if the first does not fail. -/
theorem Keeps.bind (h : Keeps P program) (hf : ∀ a, Keeps P (f a)) : Keeps P (program >>= f) := by
  intro s hs
  have hfirst := h s hs
  unfold endState at hfirst ⊢
  rw [EStateM.run_bind]
  cases hrun : program.run s with
  | ok a s' =>
    rw [hrun] at hfirst
    exact hf a s' hfirst
  | error e s' =>
    rw [hrun] at hfirst
    exact hfirst

theorem keeps_forM {program : α → EStateM ε σ PUnit} (h : ∀ a, Keeps P (program a)) (as : List α) :
    Keeps P (as.forM program) := by
  induction as with
  | nil => exact fun _ hs => hs
  | cons a as ih => exact (h a).bind fun _ => ih

end

/-- **The check of a proposer** only writes. -/
theorem keeps_proposeInPlace (p : Protocol) (header parent : Header) :
    Keeps Ledger.Reachable (proposeInPlace p header parent) := by
  intro l hl
  rw [endState, run_proposeInPlace]
  cases hcheck : checkProposer p l header parent with
  | error e => exact hl
  | ok l' =>
    obtain ⟨_, _, -, -, -, -, hupdates⟩ := checkProposer_ok_iff.mp hcheck
    exact hl.written (Ledger.written_applyUpdates hupdates)

namespace Inquiry

variable {μ : Type} {executor : Executor μ}

/-- The ledger of a replay is one that writes make. -/
def Sound (w : Inquiry μ) : Prop := w.ledger.Reachable

theorem keeps_checkNew (index : Index) (parentId : BlockId) (id : TxId) :
    Keeps Sound (checkNew index parentId id : Inquiring μ Unit) := by
  intro w hw
  rw [endState, run_checkNew]
  cases w.done.lookup id with
  | some reverted => exact hw
  | none => rcases index parentId id with cause | (_ | found) <;> exact hw

theorem keeps_checkDependency (index : Index) (parentId : BlockId) (id : TxId)
    (dependsOn : Option TxId) :
    Keeps Sound (checkDependency index parentId id dependsOn : Inquiring μ Unit) := by
  intro w hw
  cases dependsOn with
  | none => exact hw
  | some d =>
    rw [endState, run_checkDependency]
    cases w.done.lookup d with
    | some reverted => cases reverted <;> exact hw
    | none =>
      rcases index parentId d with cause | (_ | ⟨loc, cause | receipt⟩)
      · exact hw
      · exact hw
      · exact hw
      · dsimp only
        split_ifs <;> exact hw

theorem keeps_execute (hexecutor : executor.Writes) (context : BlockContext) (id : TxId)
    (tx : Transaction) : Keeps Sound (execute executor context id tx) := by
  intro w hw
  have hafter := hw.written (hexecutor w.memory w.ledger context tx)
  rw [endState, run_execute]
  rcases hexec : executor.execute w.memory w.ledger context tx with ⟨memory, after, cause | receipt⟩
  · rw [hexec] at hafter
    exact hafter
  · rw [hexec] at hafter
    exact hafter

theorem keeps_replayOne (hexecutor : executor.Writes) (index : Index) (header : Header)
    (tx : Transaction) : Keeps Sound (replayOne index executor header tx) := by
  unfold replayOne
  cases tx.id with
  | error cause => exact fun _ hw => hw
  | ok id =>
    refine (keeps_checkNew index header.parentId id).bind fun _ => ?_
    refine (keeps_checkDependency index header.parentId id tx.dependsOn).bind fun _ => ?_
    exact keeps_execute hexecutor header.context id tx

theorem keeps_finish (header : Header) :
    Keeps Sound (finish header : Inquiring μ (Ledger × List Receipt)) := by
  intro w hw
  unfold endState finish
  rw [EStateM.run_bind, EStateM.run_get]
  dsimp only
  split_ifs <;> exact hw

/-- **A replay only writes**, wherever it stops. -/
theorem keeps_replay (hexecutor : executor.Writes) (index : Index) (block : Block) :
    Keeps Sound (replay index executor block) := by
  have hmark : Keeps (Sound (μ := μ)) (modify fun w =>
      { w with ledger := w.ledger.markParent block.header.parentId } : Inquiring μ PUnit) :=
    fun w hw => hw.written (w.ledger.written_write (.marker block.header.parentId))
  unfold replay
  refine hmark.bind fun _ => ?_
  refine (keeps_forM (keeps_replayOne hexecutor index block.header) block.transactions).bind ?_
  exact fun _ => keeps_finish block.header

end Inquiry

/-! ## Sessions -/

/-- Ledgers that are open, ledgers that are staged to be committed, and the archive. -/
structure Session where
  archive : Archive
  live : List Ledger
  staged : List Ledger

/-- What changes a ledger in place. -/
inductive Change (μ : Type)
  | write (w : Write)
  | propose (p : Protocol) (header parent : Header)
  | execute (memory : μ) (context : BlockContext) (tx : Transaction)
  | replay (memory : μ) (index : Index) (block : Block)

/-- What happens in a session: the ledger with a root is opened, or something is done to the ledger
at a place among those that are open or staged. -/
inductive Act (μ : Type)
  | reopen (root : Hash)
  | fork (i : Nat)
  | change (i : Nat) (c : Change μ)
  | stage (i : Nat)
  | commit (i : Nat)

/-- The ledger that a change leaves behind, whether or not it fails. -/
def Change.on {μ : Type} (executor : Executor μ) : Change μ → Ledger → Ledger
  | write w, l => l.write w
  | propose p header parent, l => endState (proposeInPlace p header parent) l
  | execute memory context tx, l => (executor.execute memory l context tx).2.ledger
  | replay memory index block, l =>
    (endState (Inquiry.replay index executor block) (Inquiry.start l memory)).ledger

namespace Session

variable {μ : Type} {executor : Executor μ} {s : Session}

/-- The session before anything was committed. -/
def start : Session := ⟨Archive.empty, [], []⟩

/-- All ledgers of the session. -/
def ledgers (s : Session) : List Ledger := s.live ++ (s.staged ++ s.archive.entries.map Prod.snd)

/-- The session after an act. -/
def after (executor : Executor μ) (s : Session) : Act μ → Session
  | .reopen root =>
    match s.archive.ledger root with
    | .ok l => { s with live := s.live ++ [l] }
    | .error _ => s
  | .fork i => { s with live := s.live ++ s.live[i]?.toList }
  | .change i c => { s with live := s.live.modify i (c.on executor) }
  | .stage i => { s with live := s.live.eraseIdx i, staged := s.staged ++ s.live[i]?.toList }
  | .commit i =>
    match s.staged[i]? with
    | some l => { s with archive := s.archive.commit l, staged := s.staged.eraseIdx i }
    | none => s

/-- The session after acts. -/
def run (executor : Executor μ) (acts : List (Act μ)) : Session := acts.foldl (after executor) start

/-- Every ledger of the session is one that writes make. -/
structure Sound (s : Session) : Prop where
  live : ∀ l ∈ s.live, l.Reachable
  staged : ∀ l ∈ s.staged, l.Reachable
  archive : ∀ e ∈ s.archive.entries, e.2.Reachable

theorem reachable_on (hexecutor : executor.Writes) (c : Change μ) {l : Ledger} (h : l.Reachable) :
    (c.on executor l).Reachable := by
  cases c with
  | write w => exact h.written (l.written_write w)
  | propose p header parent => exact keeps_proposeInPlace p header parent l h
  | execute memory context tx => exact h.written (hexecutor memory l context tx)
  | replay memory index block =>
    exact Inquiry.keeps_replay hexecutor index block (Inquiry.start l memory) h

theorem sound_start : start.Sound where
  live := by simp [start]
  staged := by simp [start]
  archive := by simp [start, Archive.empty]

/-- What is opened is what was committed, or empty. -/
theorem Sound.reopened (h : s.Sound) {root : Hash} {l : Ledger}
    (hopen : s.archive.ledger root = .ok l) : l.Reachable := by
  unfold Archive.ledger at hopen
  split at hopen
  · obtain rfl := Except.ok.inj hopen
    exact ⟨[], rfl⟩
  · split at hopen
    · rename_i entry hfound
      obtain rfl := Except.ok.inj hopen
      exact h.archive entry (List.mem_of_find?_eq_some hfound)
    · cases hopen

theorem Sound.committed (h : s.Sound) {l : Ledger} (hl : l.Reachable) :
    ∀ e ∈ (s.archive.commit l).entries, e.2.Reachable := by
  intro e he
  rcases List.mem_cons.mp he with rfl | he
  · exact hl
  · exact h.archive e (List.mem_filter.mp he).1

theorem forall_mem_copy {ls : List Ledger} (h : ∀ l ∈ ls, l.Reachable) (i : Nat) :
    ∀ l ∈ ls[i]?.toList, l.Reachable :=
  fun l hl => h l (List.mem_of_getElem? (Option.mem_toList.mp hl))

theorem forall_mem_modify {ls : List Ledger} {f : Ledger → Ledger} (h : ∀ l ∈ ls, l.Reachable)
    (hf : ∀ l, l.Reachable → (f l).Reachable) (i : Nat) : ∀ l ∈ ls.modify i f, l.Reachable := by
  intro l hl
  obtain ⟨j, hj⟩ := List.mem_iff_getElem?.mp hl
  rw [List.getElem?_modify, Option.map_eq_map, Option.map_eq_some_iff] at hj
  obtain ⟨m, hm, rfl⟩ := hj
  have hbefore := h m (List.mem_of_getElem? hm)
  split
  · exact hf m hbefore
  · exact hbefore

/-- **One act.** -/
theorem Sound.after (hexecutor : executor.Writes) (h : s.Sound) (act : Act μ) :
    (s.after executor act).Sound := by
  cases act with
  | reopen root =>
    unfold Session.after
    dsimp only
    split
    · rename_i l hopen
      have hl : ∀ m ∈ [l], m.Reachable := fun m hm => List.mem_singleton.mp hm ▸ h.reopened hopen
      exact ⟨List.forall_mem_append.mpr ⟨h.live, hl⟩, h.staged, h.archive⟩
    · exact h
  | fork i =>
    exact ⟨List.forall_mem_append.mpr ⟨h.live, forall_mem_copy h.live i⟩, h.staged, h.archive⟩
  | change i c =>
    exact ⟨forall_mem_modify h.live (fun _ => reachable_on hexecutor c) i, h.staged, h.archive⟩
  | stage i =>
    exact ⟨fun l hl => h.live l (List.mem_of_mem_eraseIdx hl),
      List.forall_mem_append.mpr ⟨h.staged, forall_mem_copy h.live i⟩, h.archive⟩
  | commit i =>
    unfold Session.after
    dsimp only
    split
    · rename_i l hl
      exact ⟨h.live, fun m hm => h.staged m (List.mem_of_mem_eraseIdx hm),
        h.committed (h.staged l (List.mem_of_getElem? hl))⟩
    · exact h

/-- **A whole session**, by induction on the acts. -/
theorem sound_run (hexecutor : executor.Writes) (acts : List (Act μ)) :
    (run executor acts).Sound := by
  have hfold : ∀ s : Session, s.Sound → (acts.foldl (after executor) s).Sound := by
    induction acts with
    | nil => exact fun _ h => h
    | cons act acts ih => exact fun _ h => ih _ (h.after hexecutor act)
  exact hfold start sound_start

theorem Sound.reachable (h : s.Sound) : ∀ l ∈ s.ledgers, l.Reachable := by
  refine List.forall_mem_append.mpr ⟨h.live, List.forall_mem_append.mpr ⟨h.staged, ?_⟩⟩
  exact List.forall_mem_map.mpr h.archive

end Session

/-- **Every ledger in use is canonical.** If an executor `Writes` only, as that of value transfers
does, then after any acts all `ledgers` are `Canonical`; in each `register` and `writeActivity`
amend one candidate in its place (`Amends`), or add a new one last, or fail and change nothing. -/
theorem session_canonical :
    ValueTransfer.executor.Writes ∧
    (∀ l context tx, endState (ValueTransfer.executeInPlace context tx) l =
      (ValueTransfer.executor.execute () l context tx).2.ledger) ∧
    ∀ {μ : Type} (executor : Executor μ), executor.Writes → ∀ acts : List (Act μ),
      ∀ l ∈ (Session.run executor acts).ledgers, l.Canonical ∧
        (∀ c, c.signer ∈ l.signers → l.Amends (l.register c) c.signer fun _ => c) ∧
        (∀ c, c.signer ∉ l.signers → l.register c = { l with candidates := l.candidates ++ [c] }) ∧
        ∀ signer active,
          (signer ∈ l.signers → ∃ l', (writeActivity [⟨signer, active⟩]).run l = .ok () l' ∧
            l.Amends l' signer fun c => { c with active }) ∧
          (signer ∉ l.signers →
            (writeActivity [⟨signer, active⟩]).run l = .error (.candidateNotFound signer) l) := by
  refine ⟨ValueTransfer.executor_writes, fun l context tx => ?_, ?_⟩
  · rw [endState, ValueTransfer.run_executeInPlace, Execution.ended]
    change _ = (ValueTransfer.execute l context tx).ledger
    cases (ValueTransfer.execute l context tx).result <;> rfl
  · intro μ executor hexecutor acts l hl
    have hcanonical : l.Canonical :=
      ((Session.sound_run hexecutor acts).reachable l hl).canonical
    refine ⟨hcanonical, fun c hc => Ledger.amends_register hcanonical.signers hc,
      fun c hc => Ledger.register_new hc, fun signer active => ⟨fun hmem => ?_, fun hnew => ?_⟩⟩
    · obtain ⟨l', hset, hamends⟩ := Ledger.amends_setActive hcanonical.signers hmem active
      refine ⟨l', run_writeActivity ?_, hamends⟩
      simp only [Ledger.applyUpdates, hset]
      rfl
    · have hset : l.setActive signer active = .error (.candidateNotFound signer) := if_neg hnew
      simp only [writeActivity, EStateM.run_bind, EStateM.run_get, hset]
      rfl

namespace Sample

open ValueTransfer (executor)

/-- A ledger is set up, with a balance that is zero and a signer that is registered twice, and
forked. -/
def setup : List (Act Unit) :=
  [.reopen Bytes.zero,
    .change 0 (.write (.balance (Bytes.ofNat 1) (Amount.saturating 7))),
    .change 0 (.write (.balance (Bytes.ofNat 2) Amount.zero)),
    .change 0 (.write (.param ParamKey.proposerEndorsement (Amount.saturating 1))),
    .change 0 (.write (.candidate ⟨signer, Bytes.ofNat 2, Bytes.zero, true⟩)),
    .change 0 (.write (.candidate ⟨Bytes.ofNat 3, Bytes.ofNat 2, Bytes.zero, true⟩)),
    .change 0 (.write (.candidate ⟨signer, Bytes.ofNat 1, Bytes.zero, false⟩)),
    .fork 0]

/-- After that a proposer is checked, and the ledger is committed. -/
def proposed : List (Act Unit) :=
  setup ++ [.change 0 (.propose Protocol.standard block.header genesis), .stage 0, .commit 0]

theorem run_setup : Session.run executor setup = ⟨Archive.empty, [dormant, dormant], []⟩ := rfl

theorem run_proposed :
    Session.run executor proposed = ⟨Archive.empty.commit awake, [dormant], []⟩ := by
  have hawake : endState (proposeInPlace Protocol.standard block.header genesis) dormant =
      awake := by
    rw [endState, run_proposeInPlace, dormant_awakes]
  rw [Session.run, proposed, List.foldl_append, ← Session.run, run_setup]
  simp only [List.foldl_cons, List.foldl_nil, Session.after, Change.on, List.modify_zero_cons,
    hawake]
  rfl

/-- The ledger that was committed is canonical, its second candidate can be made inactive, and a
signer that is not registered cannot. -/
theorem proposed_canonical : executor.Writes ∧ awake.Canonical ∧
    (∃ l', (writeActivity [⟨Bytes.ofNat 3, false⟩]).run awake = .ok () l' ∧
      awake.Amends l' (Bytes.ofNat 3) fun c => { c with active := false }) ∧
    (writeActivity [⟨Bytes.ofNat 8, true⟩]).run awake =
      .error (.candidateNotFound (Bytes.ofNat 8)) awake := by
  obtain ⟨hwrites, -, hsession⟩ := session_canonical
  have hmem : awake ∈ (Session.run executor proposed).ledgers := by
    rw [run_proposed]
    simp [Session.ledgers, Archive.commit]
  obtain ⟨hcanonical, -, -, hactive⟩ := hsession executor hwrites proposed awake hmem
  exact ⟨hwrites, hcanonical, (hactive (Bytes.ofNat 3) false).1 (by decide),
    (hactive (Bytes.ofNat 8) true).2 (by decide)⟩

end Sample

end ProofOfAuthority
