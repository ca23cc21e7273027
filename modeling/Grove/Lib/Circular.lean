import Mathlib.Tactic

/-! # Circular buffers

A buffer of a fixed number of cells, written round and round: `next` is the cell to write, and
`filled` says whether every cell has been written.  A place to write is a field, so a buffer of no
cells cannot be built.

`Holds c written` ties a buffer to everything ever pushed into it; `newest_eq` reads the newest
values back, oldest first. -/

namespace Grove

/-- `next` is the cell the next value goes to. -/
structure Circular (α : Type) where
  cells : List α
  next : ℕ
  filled : Bool
  next_lt : next < cells.length

namespace Circular

variable {α : Type}

/-- A buffer of `n` cells, or of one. -/
def ofCapacity (n : ℕ) (blank : α) : Circular α :=
  ⟨List.replicate (max n 1) blank, 0, false, by simp⟩

def capacity (c : Circular α) : ℕ := c.cells.length

def push (c : Circular α) (value : α) : Circular α where
  cells := c.cells.set c.next value
  next := (c.next + 1) % c.cells.length
  filled := c.filled || (c.next + 1) % c.cells.length == 0
  next_lt := by
    rw [List.length_set]
    exact Nat.mod_lt _ (Nat.zero_lt_of_lt c.next_lt)

/-- How many cells have been written. -/
def held (c : Circular α) : ℕ := if c.filled then c.cells.length else c.next

/-- The cell holding the oldest value. -/
def oldest (c : Circular α) : ℕ := if c.filled then c.next else 0

theorem capacity_pos (c : Circular α) : 0 < c.capacity := Nat.zero_lt_of_lt c.next_lt

/-- The value in a cell, counted round and round. -/
def cell (c : Circular α) (i : ℕ) : α := c.cells.get ⟨i % c.capacity, Nat.mod_lt _ c.capacity_pos⟩

/-- The newest `n` of the values held, oldest first. -/
def newest (c : Circular α) (n : ℕ) : List α :=
  (List.range n).map fun i => c.cell (c.oldest + (c.held - n + i))

/-- Everything ever pushed, in order: a value stays in its cell until the next time round. -/
structure Holds (c : Circular α) (written : List α) : Prop where
  next : c.next = written.length % c.capacity
  filled : c.filled = true ↔ c.capacity ≤ written.length
  cells : ∀ k (hk : k < written.length), written.length ≤ k + c.capacity → c.cell k = written[k]

@[simp] theorem capacity_push (c : Circular α) (value : α) : (c.push value).capacity = c.capacity :=
  List.length_set

@[simp] theorem capacity_ofCapacity (n : ℕ) (blank : α) : (ofCapacity n blank).capacity = max n 1 :=
  List.length_replicate

theorem holds_ofCapacity (n : ℕ) (blank : α) : (ofCapacity n blank).Holds [] where
  next := (Nat.zero_mod _).symm
  filled := by simp [ofCapacity, capacity]
  cells k hk := absurd hk (Nat.not_lt_zero k)

theorem cell_push_self (c : Circular α) (value : α) {k : ℕ} (hk : k % c.capacity = c.next) :
    (c.push value).cell k = value := by
  simp only [cell, capacity_push, hk]
  simp [push]

theorem cell_push_of_ne (c : Circular α) (value : α) {k : ℕ} (hk : k % c.capacity ≠ c.next) :
    (c.push value).cell k = c.cell k := by
  simp only [cell, capacity_push]
  simp [push, hk.symm]

variable {c : Circular α} {written : List α}

theorem Holds.push (h : c.Holds written) (value : α) : (c.push value).Holds (written ++ [value]) where
  next := by
    rw [capacity_push, List.length_append, List.length_singleton, Nat.add_mod, ← h.next]
    simp only [Circular.push]
    rw [Nat.add_mod, Nat.mod_eq_of_lt c.next_lt, capacity]
  filled := by
    have hpos := c.capacity_pos
    rw [capacity_push, List.length_append, List.length_singleton]
    simp only [Circular.push, Bool.or_eq_true, beq_iff_eq, h.filled]
    rw [← capacity, h.next, Nat.mod_add_mod]
    constructor
    · rintro (hle | hzero)
      · omega
      · exact Nat.le_of_dvd (Nat.succ_pos _) (Nat.dvd_of_mod_eq_zero hzero)
    · intro hle
      obtain hle | heq : c.capacity ≤ written.length ∨ written.length + 1 = c.capacity := by omega
      · exact .inl hle
      · exact .inr (by rw [heq, Nat.mod_self])
  cells k hk hle := by
    rw [capacity_push, List.length_append, List.length_singleton] at hle
    rw [List.length_append, List.length_singleton] at hk
    obtain rfl | hlt : k = written.length ∨ k < written.length := by omega
    · rw [cell_push_self c value h.next.symm, List.getElem_concat_length rfl]
    · -- the cell written is another one: it is less than a round away
      have hne : k % c.capacity ≠ c.next := by
        intro heq
        rw [h.next] at heq
        have hdvd : c.capacity ∣ written.length - k := Nat.dvd_of_mod_eq_zero (Nat.sub_mod_eq_zero_of_mod_eq heq.symm)
        have := Nat.le_of_dvd (by omega) hdvd
        omega
      rw [cell_push_of_ne c value hne, List.getElem_append_left hlt]
      exact h.cells k hlt (by omega)

theorem Holds.held_eq (h : c.Holds written) : c.held = min c.capacity written.length := by
  unfold held
  split_ifs with hfilled
  · exact (Nat.min_eq_left (h.filled.mp hfilled)).symm
  · have hlt : written.length < c.capacity := Nat.lt_of_not_le (mt h.filled.mpr hfilled)
    rw [h.next, Nat.mod_eq_of_lt hlt, Nat.min_eq_right hlt.le]

/-- The newest values a buffer holds are the last ones pushed. -/
theorem Holds.newest_eq (h : c.Holds written) {n : ℕ} (hn : n ≤ c.held) :
    c.newest n = written.drop (written.length - n) := by
  have hheld := h.held_eq
  apply List.ext_getElem
  · simp [newest]
    omega
  · intro i hi _
    have hi' : i < n := by simpa [newest] using hi
    have hcell : c.cell (c.oldest + (c.held - n + i)) = c.cell (written.length - n + i) := by
      have hmod : (c.oldest + (c.held - n + i)) % c.capacity = (written.length - n + i) % c.capacity := by
        by_cases hfilled : c.filled = true
        · -- the oldest cell is `written.length - capacity` rounds on
          have hle := h.filled.mp hfilled
          rw [oldest, if_pos hfilled, h.next, Nat.mod_add_mod]
          rw [show written.length + (c.held - n + i) = written.length - n + i + c.capacity by omega,
            Nat.add_mod_right]
        · have hlt : written.length < c.capacity := Nat.lt_of_not_le (mt h.filled.mpr hfilled)
          rw [oldest, if_neg hfilled]
          congr 1
          omega
      simp only [cell, hmod]
    simp only [newest, List.getElem_map, List.getElem_range, hcell, List.getElem_drop]
    exact h.cells _ (by omega) (by omega)

end Circular
end Grove
