import ProofOfAuthority.Authority
import ProofOfAuthority.Digest.Keccak
import ProofOfAuthority.Fault
import ProofOfAuthority.Protocol
import ProofOfAuthority.Word

/-!
# The rotation of proposers

On top of a parent block, slots lie one interval apart, the first one interval after the parent.
Each slot belongs to one of the active proposers, drawn by a digest of the parent's number and the
slot's time, so all nodes derive the same rotation. A signer that is listed but inactive takes part
too: by proposing a block it becomes active again.

Whoever proposes in a later slot deactivates the owners of the slots skipped since the parent, and
scores less for it.

* `mem_participants` — the signer takes part in its own rotation, so a slot always has an owner.
-/

namespace ProofOfAuthority

/-- Why a signer has no rotation (`SchedulerError`). -/
inductive SchedulingError
  | unauthorizedSigner
  deriving DecidableEq

/-- The error as text. -/
def SchedulingError.message : SchedulingError → String
  | unauthorizedSigner => "unauthorized block proposer"

/-- The proposers that take part when `signer` signs: the active ones, and the signer once. -/
def participants (signer : Address) : List Proposer → List Proposer
  | [] => []
  | p :: rest =>
    if p.address = signer then p :: rest.filter fun q => q.active && q.address ≠ signer
    else if p.active then p :: participants signer rest
    else participants signer rest

theorem mem_participants {signer : Address} {listed : Proposer} {ps : List Proposer}
    (h : ps.find? (·.address = signer) = some listed) : listed ∈ participants signer ps := by
  induction ps with
  | nil => cases h
  | cons p rest ih =>
    rw [List.find?_cons] at h
    by_cases hp : p.address = signer
    · simp only [hp, decide_true, Option.some.injEq] at h
      subst h
      simp [participants, hp]
    · simp only [hp, decide_false] at h
      by_cases ha : p.active <;> simp [participants, hp, ha, ih h]

/-- A rotation, seen by one signer on top of one parent block (`Scheduler`). -/
structure Rotation where
  /-- The signer's entry in the list of proposers. -/
  self : Proposer
  /-- Who takes part, in list order. -/
  actives : List Proposer
  parentNumber : UInt32
  parentTime : UInt64
  interval : UInt64
  maxWalk : UInt64
  mem_actives : self ∈ actives

namespace Rotation

/-- `Scheduler::new`: the rotation that `signer` sees, if it is listed. -/
def ofSigner (p : Protocol) (signer : Address) (proposers : List Proposer) (parentNumber : UInt32)
    (parentTime : UInt64) : Except SchedulingError Rotation :=
  match h : proposers.find? (·.address = signer) with
  | none => .error .unauthorizedSigner
  | some self => .ok {
      self
      actives := participants signer proposers
      parentNumber
      parentTime
      interval := p.blockInterval
      maxWalk := p.maxBlockProposers
      mem_actives := mem_participants h }

/-- `dprp`: the number drawn for the slot at `time`, the first eight bytes of a digest. -/
def draw (parentNumber : UInt32) (time : Nat) : Nat :=
  (keccak256 (bigEndian 4 parentNumber.toNat ++ bigEndian 8 time)).toNat / Bytes.card 24

theorem length_actives_pos (r : Rotation) : 0 < r.actives.length :=
  List.length_pos_of_mem r.mem_actives

/-- `Scheduler::whose_turn`: the owner of the slot at `time`. -/
def owner (r : Rotation) (time : Nat) : Address :=
  (r.actives.get ⟨draw r.parentNumber time % r.actives.length,
    Nat.mod_lt _ r.length_actives_pos⟩).address

/-- `Scheduler::is_the_time`: whether `time` is a slot after the parent that the signer owns. -/
def ownsSlot (r : Rotation) (time : UInt64) : Except Fault Bool :=
  if time ≤ r.parentTime then .ok false
  else if r.interval = 0 then .error .divisionByZero
  else if (time - r.parentTime) % r.interval ≠ 0 then .ok false
  else .ok (r.owner time.toNat = r.self.address)

/-! ## Choosing a slot -/

/-- The loop of `Scheduler::schedule`: the first of `count` slots from `time` on that the signer
owns. -/
def firstOwned? (r : Rotation) : (count : Nat) → (time : Nat) → Option Nat
  | 0, _ => none
  | count + 1, time =>
    if r.owner time = r.self.address then some time
    else r.firstOwned? count (time + r.interval.toNat)

/-- The first slot not before `now`. -/
def firstSlot (r : Rotation) (now : UInt64) : Except Fault Nat :=
  let start := r.parentTime.toNat + r.interval.toNat
  if now.toNat ≤ start then .ok start
  else if r.interval = 0 then .error .divisionByZero
  else
    let steps := (now.toNat - start + r.interval.toNat - 1) / r.interval.toNat
    .ok (start + steps * r.interval.toNat)

/-- `Scheduler::schedule`: the first slot not before `now` that the signer owns; a fault if none
fits in 64 bits. -/
def schedule (r : Rotation) (now : UInt64) : Except Fault UInt64 := do
  let time ← r.firstSlot now
  if maxWord < time then .error .overflow
  else
    match r.firstOwned? ((maxWord - time) / r.interval.toNat + 1) time with
    | none => .error .overflow
    | some slot => .ok (UInt64.ofNat slot)

/-! ## What a block in a slot changes -/

/-- The times after the parent among `count` slots from `time` backwards, latest first. -/
def slotsBack (r : Rotation) : (count : Nat) → (time : Nat) → List Nat
  | 0, _ => []
  | count + 1, time =>
    if r.parentTime.toNat < time then time :: r.slotsBack count (time - r.interval.toNat) else []

/-- The slots that a block at `time` skipped, latest first, as far back as `Scheduler::updates`
looks. -/
def skipped (r : Rotation) (time : UInt64) : List Nat :=
  r.slotsBack r.maxWalk.toNat (time.toNat - r.interval.toNat)

/-- The members of a list, each at its first place. -/
def distinct (xs : List Address) : List Address :=
  xs.foldl (fun seen a => if seen.contains a then seen else seen ++ [a]) []

/-- The owners of skipped slots, the signer apart, each once. -/
def absentees (r : Rotation) (time : UInt64) : List Address :=
  distinct (((r.skipped time).map r.owner).filter (· ≠ r.self.address))

/-- `Scheduler::updates`, first part: the changes of activity that a block at `time` makes. -/
def updates (r : Rotation) (time : UInt64) : List Proposer :=
  (r.absentees time).map (⟨·, false⟩) ++ if r.self.active then [] else [⟨r.self.address, true⟩]

/-- `Scheduler::updates`, second part: what a block at `time` adds to the total score, which is the
number of participants that were not absent. -/
def score (r : Rotation) (time : UInt64) : UInt64 :=
  UInt64.ofNat (r.actives.length - (r.absentees time).length)

end Rotation

end ProofOfAuthority
