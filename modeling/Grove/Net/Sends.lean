import Grove.Net.Baseline
import Grove.Sim.HierarchyRuns

/-! # What the sends of a run carry

Three accounts of what leaves a server: a snapshot and the journal after it (`snapshot_then_journal`), the marked
transforms (`send_moves_all`), and the ops that wait for a later send (`spill_keeps`). -/

namespace Grove

open Runtime.Draining

section runs
variable (persisted : Option SessionRecords) (facadeMembers : HostKey → List String) (simRate : ℚ)

/-- A join snapshot, of any moment of any run and also while a drain is under way, and then the journal from there on,
build the forest of any later moment. -/
theorem snapshot_then_journal (calls rest : List Call) (player : PlayerId) :
    let s := exec step (start persisted facadeMembers simRate) calls
    let s' := exec step s rest
    ∃ js, s'.rt.channels.journal = s.rt.channels.journal ++ js ∧
      World.nothing.run (wireEdits Runtime.bare ((buildSnapshot s.rt player).entities.map .spawn) ++ edits Runtime.bare js) =
        some (s'.rt.forest Runtime.bare) := by
  intro s s'
  obtain ⟨hs, -⟩ := reached persisted facadeMembers simRate calls
  obtain ⟨-, js, hadvances⟩ := run_advances rest hs
  refine ⟨js, hadvances.journal, ?_⟩
  rw [World.run_append_of_some (run_snapshot hs.linked player)]
  exact hadvances.replay

theorem step_written {s : Runtime.Draining} (hs : s.rt.Sound Runtime.bare s.doomed) (c : Call) :
    s.rt.Written (s.step c).rt := by
  cases c with
  | act a => exact Runtime.acts_written [a] s.rt
  | splice =>
    obtain ⟨rt, _ | _⟩ := s
    · exact Runtime.SameSlots.written ⟨fun _ => rfl, rfl⟩
    · exact .refl rt
  | tearDown => exact Runtime.foldl_teardown_written _ hs.doomed_there.1 hs.doomed_there.2

end runs

/-! ### What waits for a later send -/

def weightOf (ops : List WireStructuralOp) : ℕ := (ops.map WireStructuralOp.weight).sum

/-- The cut is the longest part in front that the budget holds, or the first entry alone. -/
theorem budgetCutFrom_spec (budget : ℕ) : ∀ (ops : List WireStructuralOp) (index weight : ℕ), weight ≤ budget →
    (∃ k ≤ ops.length, budgetCutFrom budget index weight ops = index + k ∧ weight + weightOf (ops.take k) ≤ budget ∧
      (ops ≠ [] → 0 < index + k)) ∨
      ops ≠ [] ∧ budgetCutFrom budget index weight ops = 1 ∧ index = 0
  | [], index, weight, h => .inl ⟨0, le_rfl, rfl, h, fun hne => absurd rfl hne⟩
  | op :: ops, index, weight, h => by
    unfold budgetCutFrom
    split_ifs with hover hindex
    · exact .inr ⟨List.cons_ne_nil _ _, rfl, hindex⟩
    · exact .inl ⟨0, Nat.zero_le _, rfl, h, fun _ => by omega⟩
    · obtain ⟨k, hk, hcut, hweight, -⟩ | ⟨-, -, hzero⟩ := budgetCutFrom_spec budget ops (index + 1) (weight + op.weight) (not_lt.mp hover)
      · refine .inl ⟨k + 1, Nat.succ_le_succ hk, by omega, ?_, fun _ => by omega⟩
        simp only [weightOf, List.take_succ_cons, List.map_cons, List.sum_cons] at hweight ⊢
        omega
      · omega

/-- The structural parts of consecutive sends, each of its own state of the world, and what is left over. -/
def sends (budget : ℕ) : List (Runtime × RosterOps) → List WireStructuralOp → List (List WireStructuralOp) × List WireStructuralOp
  | [], spill => ([], spill)
  | (rt, roster) :: rest, spill =>
    let (set, _, spill) := drainOnce rt 0 roster spill budget
    let (sent, spill) := sends budget rest spill
    (set.structural :: sent, spill)

theorem budgetCut_spec (ops : List WireStructuralOp) (budget : ℕ) :
    (weightOf (ops.take (budgetCut ops budget)) ≤ budget ∨ (ops.take (budgetCut ops budget)).length = 1) ∧
      (ops ≠ [] → 0 < budgetCut ops budget) := by
  obtain ⟨k, -, hcut, hweight, hpos⟩ | ⟨hne, hcut, -⟩ := budgetCutFrom_spec budget ops 0 0 (Nat.zero_le _)
  · rw [show budgetCut ops budget = k by rw [budgetCut, hcut, Nat.zero_add]]
    exact ⟨.inl (by omega), fun hne => by have := hpos hne; omega⟩
  · rw [show budgetCut ops budget = 1 from hcut, List.length_take]
    have := List.length_pos_iff.mpr hne
    exact ⟨.inr (by omega), fun _ => Nat.one_pos⟩

/-- Spilling delays ops and does nothing else to them: over any sends, what went out and what is left are what waited
and what each world had, in that order; a send is within the budget or a single entry; and when no world has anything
new, what waited is gone after as many sends as it has entries. -/
theorem spill_keeps (budget : ℕ) : ∀ (worlds : List (Runtime × RosterOps)) (spill : List WireStructuralOp),
    (sends budget worlds spill).1.flatten ++ (sends budget worlds spill).2 =
        spill ++ worlds.flatMap (fun w => orderedOps w.1 w.2 []) ∧
      (∀ ops ∈ (sends budget worlds spill).1, weightOf ops ≤ budget ∨ ops.length = 1) ∧
      ((∀ w ∈ worlds, orderedOps w.1 w.2 [] = []) → spill.length ≤ worlds.length → (sends budget worlds spill).2 = [])
  | [], spill => by simp [sends]
  | (rt, roster) :: rest, spill => by
    have hordered : orderedOps rt roster spill = spill ++ orderedOps rt roster [] := by simp [orderedOps]
    let ops := orderedOps rt roster spill
    let cut := budgetCut ops budget
    have hsends : sends budget ((rt, roster) :: rest) spill =
        (ops.take cut :: (sends budget rest (ops.drop cut)).1, (sends budget rest (ops.drop cut)).2) := rfl
    obtain ⟨hfits, hpos⟩ := budgetCut_spec ops budget
    obtain ⟨hkept, hbudget, hgone⟩ := spill_keeps budget rest (ops.drop cut)
    rw [hsends]
    refine ⟨?_, fun sent hsent => ?_, fun hquiet hlength => hgone (fun w hw => hquiet w (List.mem_cons_of_mem _ hw)) ?_⟩
    · have hops : ops.take cut ++ ops.drop cut = spill ++ orderedOps rt roster [] := (List.take_append_drop _ _).trans hordered
      rw [List.flatten_cons, List.append_assoc, hkept, ← List.append_assoc, hops, List.append_assoc, List.flatMap_cons]
    · obtain rfl | hsent := List.mem_cons.mp hsent
      · exact hfits
      · exact hbudget sent hsent
    · have hops : ops = spill := by
        show orderedOps rt roster spill = spill
        rw [hordered, hquiet _ List.mem_cons_self, List.append_nil]
      rw [List.length_cons] at hlength
      rw [List.length_drop, hops]
      by_cases hne : spill = []
      · simp [hne]
      · have : 0 < cut := hpos (hops ▸ hne)
        omega

end Grove
