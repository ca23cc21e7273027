import Mathlib.Tactic

/-! # Rows under read-committed row locks

A `Versioned` row is what a read-committed database keeps of one row: the version every
statement outside a transaction reads, and the version an open transaction has written
behind the row's lock.  The lock is the pending version itself, so a row has at most one
holder by construction: a transaction that finds a row held waits, and the holder's
`commit` publishes its version and its `rollback` drops it. -/

namespace Grove

/-- A row: the committed version, and the one its lock holder has written. -/
structure Versioned (α : Type) where
  committed : α
  pending : Option (ℕ × α)
deriving DecidableEq, Repr

namespace Versioned

variable {α : Type} (r : Versioned α) (i : ℕ)

/-- A row nobody holds. -/
def fresh (a : α) : Versioned α := ⟨a, none⟩

/-- Some transaction holds the row. -/
def locked : Bool := r.pending.isSome

/-- The version transaction `i` has written, when it is the row's holder. -/
def mine : Option α :=
  match r.pending with
  | some (j, a) => if j = i then some a else none
  | none => none

/-- Transaction `i` writes the row, which it has found free. -/
def write (a : α) : Versioned α := { r with pending := some (i, a) }

/-- Transaction `i` commits: what it wrote becomes the row. -/
def commit : Versioned α :=
  match r.mine i with
  | some a => fresh a
  | none => r

/-- Transaction `i` rolls back: what it wrote is forgotten. -/
def rollback : Versioned α :=
  match r.mine i with
  | some _ => fresh r.committed
  | none => r

variable {r i}

@[simp] theorem fresh_committed (a : α) : (fresh a).committed = a := rfl
@[simp] theorem fresh_pending (a : α) : (fresh a).pending = none := rfl
@[simp] theorem write_committed (a : α) : (r.write i a).committed = r.committed := rfl
@[simp] theorem write_pending (a : α) : (r.write i a).pending = some (i, a) := rfl

theorem pending_of_not_locked (h : r.locked = false) : r.pending = none := by
  simpa [locked] using h

theorem mine_eq_some {a : α} : r.mine i = some a ↔ r.pending = some (i, a) := by
  unfold mine
  cases hp : r.pending with
  | none => simp
  | some q =>
    obtain ⟨j, b⟩ := q
    by_cases hj : j = i
    · simp [hj]
    · simp [hj]

@[simp] theorem rollback_committed : (r.rollback i).committed = r.committed := by
  unfold rollback
  cases r.mine i <;> rfl

/-- A commit publishes the holder's version and no other. -/
theorem commit_cases (r : Versioned α) (i : ℕ) :
    (∃ a, r.pending = some (i, a) ∧ r.commit i = fresh a) ∨ ((∀ a, r.pending ≠ some (i, a)) ∧ r.commit i = r) := by
  unfold commit
  cases hm : r.mine i with
  | some a => exact .inl ⟨a, mine_eq_some.mp hm, rfl⟩
  | none =>
    refine .inr ⟨fun a ha => ?_, rfl⟩
    rw [mine_eq_some.mpr ha] at hm
    cases hm

theorem rollback_cases (r : Versioned α) (i : ℕ) :
    (∃ a, r.pending = some (i, a) ∧ r.rollback i = fresh r.committed) ∨
      ((∀ a, r.pending ≠ some (i, a)) ∧ r.rollback i = r) := by
  unfold rollback
  cases hm : r.mine i with
  | some a => exact .inl ⟨a, mine_eq_some.mp hm, rfl⟩
  | none =>
    refine .inr ⟨fun a ha => ?_, rfl⟩
    rw [mine_eq_some.mpr ha] at hm
    cases hm

/-- What is still pending after a commit was pending before, over the same committed row,
in the name of another transaction. -/
theorem pending_of_commit {j : ℕ} {a : α} (h : (r.commit i).pending = some (j, a)) :
    r.commit i = r ∧ j ≠ i := by
  rcases r.commit_cases i with ⟨b, _, hc⟩ | ⟨hno, hc⟩
  · rw [hc] at h
    cases h
  · rw [hc] at h
    refine ⟨hc, fun hj => hno a ?_⟩
    rw [h, hj]

theorem pending_of_rollback {j : ℕ} {a : α} (h : (r.rollback i).pending = some (j, a)) :
    r.rollback i = r ∧ j ≠ i := by
  rcases r.rollback_cases i with ⟨b, _, hc⟩ | ⟨hno, hc⟩
  · rw [hc] at h
    cases h
  · rw [hc] at h
    refine ⟨hc, fun hj => hno a ?_⟩
    rw [h, hj]

end Versioned

end Grove
