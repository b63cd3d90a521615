import ProofOfAuthority.Bytes

/-!
# Tables: association lists sorted by key

A table holds values under byte-string keys, in strictly increasing order of keys (`Sorted`). Two
sorted tables with the same look-ups are the same list, which is what makes a digest over the
entries canonical.

* `get?_put`, `get?_erase` — look-up after a write.
* `sorted_put`, `sorted_erase` — writing keeps a table sorted.
* `Sorted.ext` — a sorted table is determined by its look-ups.
-/

namespace ProofOfAuthority

/-- Values of type `α` under keys of `n` bytes (`BTreeMap`). -/
abbrev Table (n : Nat) (α : Type) := List (Bytes n × α)

namespace Table

variable {n : Nat} {α : Type}

/-- `BTreeMap::get`: the value under a key. -/
def get? : Table n α → Bytes n → Option α
  | [], _ => none
  | (k, v) :: rest, q => if k = q then some v else get? rest q

/-- `BTreeMap::insert`: the table with `v` under `k`, inserted in order or in place of the value
there. -/
def put : Table n α → Bytes n → α → Table n α
  | [], k, v => [(k, v)]
  | (k', v') :: rest, k, v =>
    if k < k' then (k, v) :: (k', v') :: rest
    else if k = k' then (k, v) :: rest
    else (k', v') :: put rest k v

/-- `BTreeMap::remove`: the table with nothing under `k`. -/
def erase (t : Table n α) (k : Bytes n) : Table n α := t.filter (·.1 ≠ k)

/-- Strictly increasing keys. -/
def Sorted (t : Table n α) : Prop := t.Pairwise (·.1 < ·.1)

/-! ## Lemmas -/

theorem sorted_nil : Sorted ([] : Table n α) := List.Pairwise.nil

theorem sorted_cons {k : Bytes n} {v : α} {rest : Table n α} :
    Sorted ((k, v) :: rest) ↔ (∀ e ∈ rest, k < e.1) ∧ Sorted rest := List.pairwise_cons

theorem get?_eq_none {t : Table n α} {q : Bytes n} (h : ∀ e ∈ t, e.1 ≠ q) : get? t q = none := by
  induction t with
  | nil => rfl
  | cons e rest ih =>
    simp only [get?, if_neg (h e List.mem_cons_self)]
    exact ih fun e he => h e (List.mem_cons_of_mem _ he)

theorem ne_of_lt {a b : Bytes n} (h : a < b) : a ≠ b := fun he =>
  Nat.lt_irrefl _ (Bytes.lt_def.mp (he ▸ h))

theorem lt_trans {a b c : Bytes n} (h : a < b) (h' : b < c) : a < c :=
  Bytes.lt_def.mpr (Nat.lt_trans (Bytes.lt_def.mp h) (Bytes.lt_def.mp h'))

theorem lt_of_not_lt {a b : Bytes n} (h : ¬a < b) (hne : a ≠ b) : b < a :=
  Bytes.lt_def.mpr (Nat.lt_of_le_of_ne (Nat.not_lt.mp (mt Bytes.lt_def.mpr h))
    fun he => hne (Bytes.ext he.symm))

theorem get?_put (t : Table n α) (k : Bytes n) (v : α) (q : Bytes n) :
    get? (put t k v) q = if k = q then some v else get? t q := by
  induction t with
  | nil => rfl
  | cons e rest ih =>
    simp only [put]
    split
    · simp only [get?]
    · split
      · rename_i hk
        simp only [get?, hk]
        split <;> rfl
      · rename_i hk
        simp only [get?, ih]
        split
        · rename_i he
          rw [if_neg (fun h => hk (h.trans he.symm))]
        · rfl

theorem get?_erase (t : Table n α) (k q : Bytes n) :
    get? (erase t k) q = if k = q then none else get? t q := by
  induction t with
  | nil => simp [erase, get?]
  | cons e rest ih =>
    simp only [erase, List.filter_cons] at ih ⊢
    by_cases he : e.1 = k
    · simp only [he, ne_eq, not_true_eq_false, decide_false, Bool.false_eq_true, if_false, ih, get?]
      split <;> rfl
    · simp only [ne_eq, he, not_false_eq_true, decide_true, if_true, get?, ih]
      split
      · rename_i hq
        rw [if_neg (fun h => he (hq.trans h.symm))]
      · rfl

theorem mem_put {t : Table n α} {k : Bytes n} {v : α} {e : Bytes n × α} (h : e ∈ put t k v) :
    e = (k, v) ∨ e ∈ t := by
  induction t with
  | nil => exact Or.inl (List.mem_singleton.mp h)
  | cons x rest ih =>
    simp only [put] at h
    split at h
    · exact List.mem_cons.mp h
    · split at h
      · exact (List.mem_cons.mp h).imp_right (List.mem_cons_of_mem _)
      · rcases List.mem_cons.mp h with h | h
        · exact Or.inr (h ▸ List.mem_cons_self)
        · exact (ih h).imp_right (List.mem_cons_of_mem _)

theorem sorted_put {t : Table n α} (h : Sorted t) (k : Bytes n) (v : α) : Sorted (put t k v) := by
  induction t with
  | nil => exact List.pairwise_singleton _ _
  | cons e rest ih =>
    obtain ⟨hlt, hrest⟩ := sorted_cons.mp h
    simp only [put]
    split
    · rename_i hk
      refine sorted_cons.mpr ⟨?_, h⟩
      intro e' he'
      rcases List.mem_cons.mp he' with rfl | he'
      · exact hk
      · exact lt_trans hk (hlt e' he')
    · split
      · rename_i hk
        exact sorted_cons.mpr ⟨fun e' he' => hk ▸ hlt e' he', hrest⟩
      · rename_i hk hne
        refine sorted_cons.mpr ⟨?_, ih hrest⟩
        intro e' he'
        rcases mem_put he' with rfl | he'
        · exact lt_of_not_lt hk hne
        · exact hlt e' he'

theorem sorted_erase {t : Table n α} (h : Sorted t) (k : Bytes n) : Sorted (erase t k) :=
  List.Pairwise.filter _ h

/-- Below its first key a sorted table holds nothing. -/
theorem get?_tail {k q : Bytes n} {v : α} {rest : Table n α} (h : Sorted ((k, v) :: rest))
    (hq : ¬k < q) : get? rest q = none :=
  get?_eq_none fun e he heq => hq (heq ▸ (sorted_cons.mp h).1 e he)

theorem Sorted.ext {s t : Table n α} (hs : Sorted s) (ht : Sorted t)
    (h : ∀ q, get? s q = get? t q) : s = t := by
  induction s generalizing t with
  | nil =>
    cases t with
    | nil => rfl
    | cons e rest => simpa [get?] using h e.1
  | cons d s ih =>
    cases t with
    | nil => simpa [get?] using h d.1
    | cons e t =>
      obtain ⟨k, v⟩ := d
      obtain ⟨k', v'⟩ := e
      have hkk : k = k' := by
        rcases Decidable.em (k = k') with hk | hk
        · exact hk
        · have h1 := h k
          have h2 := h k'
          simp only [get?, if_true, if_neg hk, if_neg (Ne.symm hk)] at h1 h2
          rcases Decidable.em (k < k') with hlt | hlt
          · have hgt : ¬k' < k := fun hh => Nat.lt_asymm (Bytes.lt_def.mp hlt) (Bytes.lt_def.mp hh)
            rw [get?_tail ht hgt] at h1
            cases h1
          · rw [get?_tail hs hlt] at h2
            cases h2
      subst hkk
      have hv : v = v' := by simpa [get?] using h k
      subst hv
      congr 1
      apply ih (sorted_cons.mp hs).2 (sorted_cons.mp ht).2
      intro q
      rcases Decidable.em (k = q) with rfl | hq
      · rw [get?_tail hs (fun hh => Nat.lt_irrefl _ (Bytes.lt_def.mp hh)),
          get?_tail ht (fun hh => Nat.lt_irrefl _ (Bytes.lt_def.mp hh))]
      · simpa [get?, hq] using h q

end Table

end ProofOfAuthority
