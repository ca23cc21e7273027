import Mathlib.Tactic

/-! # Levels of a graph

A graph is given by the successors of each node, `next`; it may share nodes and have cycles.  `Levels next n a` says
that some descent from `a` has `n` levels, `a` included.  A node on a cycle has descents of every length
(`Levels.of_cycle`).  `Height next k a` says that the longest descent has `k` levels. -/

namespace Grove

variable {α : Type} {next : α → List α} {a b : α} {n k : ℕ}

/-- Some descent from `a` has `n` levels. -/
inductive Levels (next : α → List α) : ℕ → α → Prop
  | one (a : α) : Levels next 1 a
  | under {n : ℕ} {a b : α} : b ∈ next a → Levels next n b → Levels next (n + 1) a

namespace Levels

/-- A descent of two levels or more goes through a successor. -/
theorem succ_iff : Levels next (n + 2) a ↔ ∃ b ∈ next a, Levels next (n + 1) b := by
  constructor
  · intro h
    cases h with
    | under hb h => exact ⟨_, hb, h⟩
  · rintro ⟨b, hb, h⟩
    exact under hb h

/-- A descent may stop early. -/
theorem mono (h : Levels next n a) (hk : 1 ≤ k) (hkn : k ≤ n) : Levels next k a := by
  induction h generalizing k with
  | one a => exact (show k = 1 by omega) ▸ one a
  | @under n a b hb _ ih =>
    obtain rfl | hk' := Nat.eq_or_lt_of_le hk
    · exact one a
    · obtain ⟨k, rfl⟩ : ∃ m, k = m + 1 := ⟨k - 1, by omega⟩
      exact under hb (ih (by omega) (by omega))

/-- A path leads to a node above it. -/
theorem of_path {path : List α} (h : Levels next n b) (hpath : (path ++ [b]).IsChain (fun x y => y ∈ next x))
    (hhead : (path ++ [b]).head? = some a) : Levels next (path.length + n) a := by
  induction path generalizing a with
  | nil =>
    rw [List.nil_append, List.head?_cons] at hhead
    obtain rfl := Option.some.inj hhead
    rw [List.length_nil, Nat.zero_add]
    exact h
  | cons x path ih =>
    rw [List.cons_append, List.head?_cons] at hhead
    obtain rfl := Option.some.inj hhead
    rw [List.cons_append] at hpath
    cases hrest : path ++ [b] with
    | nil => exact absurd hrest (by simp)
    | cons y rest =>
      rw [hrest] at hpath ih
      obtain ⟨hxy, hpath⟩ := List.isChain_cons_cons.mp hpath
      rw [List.length_cons, Nat.add_right_comm]
      exact under hxy (ih hpath rfl)

/-- A node above another has the longer descents. -/
theorem of_transGen (hreach : Relation.TransGen (fun x y => y ∈ next x) a b) (h : Levels next n b) :
    Levels next (n + 1) a := by
  induction hreach using Relation.TransGen.head_induction_on with
  | single hab => exact under hab h
  | head hac _ ih => exact (under hac ih).mono (by omega) (by omega)

/-- A node that reaches itself has descents of every length. -/
theorem of_cycle (hcycle : Relation.TransGen (fun x y => y ∈ next x) a a) : ∀ n, Levels next (n + 1) a
  | 0 => one a
  | n + 1 => of_transGen hcycle (of_cycle hcycle n)

end Levels

/-- The longest descent has `k` levels. -/
def Height (next : α → List α) (k : ℕ) (a : α) : Prop := Levels next k a ∧ ¬ Levels next (k + 1) a

namespace Height

theorem le (h : Height next k a) (hn : Levels next n a) : n ≤ k :=
  Nat.le_of_not_lt fun hlt => h.2 (hn.mono (Nat.le_add_left 1 k) hlt)

/-- A node is one level higher than the tallest of its successors. -/
theorem of_next {tallest : ℕ} (hall : ∀ b ∈ next a, ∃ k, Height next k b ∧ k ≤ tallest)
    (hsome : tallest = 0 ∨ ∃ b ∈ next a, Levels next tallest b) : Height next (tallest + 1) a := by
  constructor
  · obtain rfl | ⟨b, hb, h⟩ := hsome
    · exact Levels.one a
    · exact Levels.under hb h
  · intro h
    cases h with
    | under hb h =>
      obtain ⟨k, hk, hle⟩ := hall _ hb
      have := hk.le h
      omega

end Height
end Grove
