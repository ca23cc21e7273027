import Grove.Lib.OrderedMap

/-! # Totals over a map

The sum of a weight over the entries of a map, and what one `set` or `delete` makes of it: the difference is that of
the one entry touched. -/

namespace Grove
namespace OrderedMap

variable {κ ν : Type} [DecidableEq κ]

/-- The sum of `w` over the entries. -/
def total (w : κ → ν → ℤ) (m : OrderedMap κ ν) : ℤ := (m.entries.map fun e => w e.1 e.2).sum

/-- What the entry under `k`, if there is one, adds. -/
def share (w : κ → ν → ℤ) (m : OrderedMap κ ν) (k : κ) : ℤ := ((m.get k).map (w k)).getD 0

theorem sum_setEntries (w : κ → ν → ℤ) (k : κ) (v : ν) : ∀ l : List (κ × ν),
    ((setEntries k v l).map fun e => w e.1 e.2).sum =
      (l.map fun e => w e.1 e.2).sum - ((lookup k l).map (w k)).getD 0 + w k v
  | [] => by simp [setEntries, lookup]
  | (k', v') :: l => by
    by_cases h : k' = k
    · subst h
      simp [setEntries, lookup, add_comm]
    · have ih := sum_setEntries w k v l
      simp only [setEntries, lookup, if_neg h, List.map_cons, List.sum_cons, ih]
      ring

theorem sum_filter_ne (w : κ → ν → ℤ) (k : κ) : ∀ l : List (κ × ν), (l.map Prod.fst).Nodup →
    ((l.filter fun e => e.1 ≠ k).map fun e => w e.1 e.2).sum =
      (l.map fun e => w e.1 e.2).sum - ((lookup k l).map (w k)).getD 0
  | [], _ => by simp [lookup]
  | (k', v') :: l, hnodup => by
    rw [List.map_cons, List.nodup_cons] at hnodup
    by_cases h : k' = k
    · subst h
      have hkeep : l.filter (fun e => e.1 ≠ k') = l := by
        rw [List.filter_eq_self]
        intro e he
        have hne : e.1 ≠ k' := fun heq => hnodup.1 (List.mem_map.mpr ⟨e, he, heq⟩)
        simpa using hne
      simp only [lookup, if_true, List.map_cons, List.sum_cons, Option.map_some, Option.getD_some]
      rw [List.filter_cons_of_neg (by simp), hkeep]
      ring
    · have ih := sum_filter_ne w k l hnodup.2
      rw [List.filter_cons_of_pos (by simpa using h)]
      simp only [lookup, if_neg h, List.map_cons, List.sum_cons, ih]
      ring

theorem total_set (w : κ → ν → ℤ) (m : OrderedMap κ ν) (k : κ) (v : ν) :
    (m.set k v).total w = m.total w - m.share w k + w k v := sum_setEntries w k v m.entries

theorem total_delete (w : κ → ν → ℤ) (m : OrderedMap κ ν) (k : κ) :
    (m.delete k).total w = m.total w - m.share w k := sum_filter_ne w k m.entries m.nodup

omit [DecidableEq κ] in
/-- A sum over the entries with keys of one kind. -/
theorem total_ite (p : κ → Prop) [DecidablePred p] (f : ν → ℤ) (m : OrderedMap κ ν) :
    m.total (fun k v => if p k then f v else 0) = ((m.entries.filter fun e => p e.1).map fun e => f e.2).sum := by
  unfold total
  induction m.entries with
  | nil => rfl
  | cons e l ih =>
    rw [List.map_cons, List.sum_cons, ih, List.filter_cons]
    by_cases h : p e.1
    · simp [h]
    · simp [h]

end OrderedMap
end Grove
