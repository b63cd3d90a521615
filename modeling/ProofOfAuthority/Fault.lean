/-!
# Faults and failures

Arithmetic on parameters that nobody checked can have no result at all: that is a `Fault`, which
says nothing about the block at hand. A computation that may also refuse its input for a reason of
type `ε` fails with a `Failure ε`.

* `bind_eq_ok_iff`, `require_eq_ok_iff` — what a computation that has a result went through.
* `bind_eq_error_iff`, `require_eq_error_iff` — where one that has none stopped.
-/

namespace ProofOfAuthority

/-- Why a computation has no result. -/
inductive Fault
  /-- An interval or divisor is zero. -/
  | divisionByZero
  /-- A lower bound lies above its upper bound. -/
  | emptyRange
  /-- A time does not fit in 64 bits. -/
  | overflow
  deriving DecidableEq

/-- A fault, or a reason for refusal. -/
inductive Failure (ε : Type)
  | fault (cause : Fault)
  | refused (reason : ε)
  deriving DecidableEq

/-- The result of a computation that may fault or refuse. -/
abbrev Checked (ε α : Type) := Except (Failure ε) α

namespace Checked

variable {ε ε' α : Type}

/-- Refuse for a reason. -/
def refuse (reason : ε) : Checked ε α := .error (.refused reason)

/-- A computation that may only fault. -/
def ofFaulty : Except Fault α → Checked ε α
  | .ok a => .ok a
  | .error cause => .error (.fault cause)

/-- A computation that may only refuse, with the reason put into other words. -/
def ofExcept (f : ε → ε') : Except ε α → Checked ε' α
  | .ok a => .ok a
  | .error reason => .error (.refused (f reason))

/-- The same computation, with the reason put into other words. -/
def mapReason (f : ε → ε') : Checked ε α → Checked ε' α
  | .ok a => .ok a
  | .error (.fault cause) => .error (.fault cause)
  | .error (.refused reason) => .error (.refused (f reason))

@[simp] theorem ofFaulty_eq_ok_iff {x : Except Fault α} {a : α} :
    (ofFaulty x : Checked ε α) = .ok a ↔ x = .ok a := by
  cases x <;> simp [ofFaulty]

@[simp] theorem ofExcept_eq_ok_iff {f : ε → ε'} {x : Except ε α} {a : α} :
    ofExcept f x = .ok a ↔ x = .ok a := by
  cases x <;> simp [ofExcept]

@[simp] theorem mapReason_eq_ok_iff {f : ε → ε'} {x : Checked ε α} {a : α} :
    mapReason f x = .ok a ↔ x = .ok a := by
  rcases x with (cause | reason) | a' <;> simp [mapReason]

@[simp] theorem ofExcept_eq_refused_iff {f : ε → ε'} {x : Except ε α} {reason : ε'} :
    ofExcept f x = .error (.refused reason) ↔ ∃ e, x = .error e ∧ f e = reason := by
  cases x <;> simp [ofExcept]

@[simp] theorem ofFaulty_ne_refused {x : Except Fault α} {reason : ε} :
    (ofFaulty x : Checked ε α) ≠ .error (.refused reason) := by
  cases x <;> simp [ofFaulty]

@[simp] theorem mapReason_eq_refused_iff {f : ε → ε'} {x : Checked ε α} {reason : ε'} :
    mapReason f x = .error (.refused reason) ↔ ∃ e, x = .error (.refused e) ∧ f e = reason := by
  rcases x with (cause | e) | a <;> simp [mapReason]

theorem ofExcept_ne_fault {f : ε → ε'} {x : Except ε α} {cause : Fault} :
    ofExcept f x ≠ .error (.fault cause) := by
  cases x <;> simp [ofExcept]

theorem mapReason_eq_fault_iff {f : ε → ε'} {x : Checked ε α} {cause : Fault} :
    mapReason f x = .error (.fault cause) ↔ x = .error (.fault cause) := by
  rcases x with (cause' | e) | a <;> simp [mapReason]

@[simp] theorem refuse_eq_refused_iff {reason reason' : ε} :
    (refuse reason : Checked ε α) = .error (.refused reason') ↔ reason = reason' := by
  simp [refuse]

@[simp] theorem refuse_ne_ok {reason : ε} {a : α} : (refuse reason : Checked ε α) ≠ .ok a := by
  simp [refuse]

end Checked

/-- A sequence has a result iff its first part has one and the rest goes on from there. -/
theorem bind_eq_ok_iff {ε α β : Type} {x : Except ε α} {f : α → Except ε β} {b : β} :
    (x >>= f) = .ok b ↔ ∃ a, x = .ok a ∧ f a = .ok b := by
  cases x <;> simp [bind, Except.bind]

/-- A sequence stops for a reason of its first part or for one of what goes on from there. -/
theorem bind_eq_error_iff {ε α β : Type} {x : Except ε α} {f : α → Except ε β} {e : ε} :
    (x >>= f) = .error e ↔ x = .error e ∨ ∃ a, x = .ok a ∧ f a = .error e := by
  cases x <;> simp [bind, Except.bind]

theorem toOption_eq_some_iff {ε α : Type} {x : Except ε α} {a : α} :
    x.toOption = some a ↔ x = .ok a := by
  cases x <;> simp [Except.toOption]

theorem ok_of_toOption {ε α : Type} {x : Except ε α} {a : α} (h : x.toOption = some a) :
    x = .ok a :=
  toOption_eq_some_iff.mp h

/-- Go on if `p` holds, else refuse. -/
def require {ε : Type} (p : Prop) [Decidable p] (reason : ε) : Except ε Unit :=
  if p then .ok () else .error reason

@[simp] theorem require_eq_ok_iff {ε : Type} {p : Prop} [Decidable p] {reason : ε} {u : Unit} :
    require p reason = .ok u ↔ p := by
  unfold require
  split <;> simp [*]

@[simp] theorem require_eq_error_iff {ε : Type} {p : Prop} [Decidable p] {reason e : ε} :
    require p reason = .error e ↔ ¬p ∧ reason = e := by
  unfold require
  split <;> simp [*]

end ProofOfAuthority
