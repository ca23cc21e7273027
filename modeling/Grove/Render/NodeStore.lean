import Grove.Math.SlotRuns
import Grove.Render.Geometry

/-! # The renderer's records

`node-store.ts`: what is kept of a node besides its transform, in a slot table whose records are rewritten in place. -/

namespace Grove.StackedTable

variable {R : Type} (t : StackedTable R)

theorem freeList_modify (t : SlotTable R) (id : ℕ) (f : R → R) : (t.modify id f).freeList = t.freeList := by
  unfold SlotTable.modify
  split <;> rfl

/-- Rewrites the record of a live slot in place. -/
def modifyAt (i : ℕ) (f : R → R) : StackedTable R :=
  { t.toSlotTable.modify (t.idAt i) f with
    stacked := fun j hj hnone hgen => by
      have hcount : (t.modify (t.idAt i) f).slotCount = t.slotCount := SlotTable.slotCount_modify
      have hsome : ((t.modify (t.idAt i) f).recordAt j).isSome = (t.recordAt j).isSome :=
        SlotTable.recordAt_isSome_modify j
      rw [hnone] at hsome
      rw [SlotTable.generationAt_modify] at hgen
      rw [freeList_modify]
      exact t.stacked j (hcount ▸ hj) (by simpa using hsome.symm) hgen }

/-- Live slot indices, ascending. -/
def liveIndices : List ℕ := (List.range t.slotCount).filter fun i => (t.recordAt i).isSome

theorem mem_liveIndices {i : ℕ} : i ∈ t.liveIndices ↔ (t.recordAt i).isSome := by
  rw [liveIndices, List.mem_filter, List.mem_range, and_iff_right_iff_imp]
  exact t.lt_slotCount

theorem recordAt_create {r : R} {id : ℕ} {t' : StackedTable R} (h : t.create r = some (id, t')) :
    t.recordAt (handleIndex id) = none ∧ t'.recordAt = Function.update t.recordAt (handleIndex id) (some r) := by
  obtain ⟨-, hfree, hrecord, -⟩ := SlotTable.create_cases (t.create_eq_some h)
  exact ⟨hfree, hrecord⟩

theorem recordAt_releaseAt (i : ℕ) : (t.releaseAt i).recordAt = Function.update t.recordAt i none := by
  rw [toSlotTable_releaseAt]
  cases h : t.recordAt i with
  | none =>
    rw [t.releaseAt_of_free h, ← h, Function.update_eq_self]
  | some r =>
    have hsome : (t.recordAt i).isSome := by rw [h]; rfl
    obtain ⟨hlive, hindex⟩ := t.record_idAt hsome
    rw [t.releaseAt_eq_release hsome, (SlotTable.release_cases hlive).2.2.1, hindex]

theorem recordAt_modifyAt {i : ℕ} {r : R} (h : t.recordAt i = some r) (f : R → R) :
    (t.modifyAt i f).recordAt = Function.update t.recordAt i (some (f r)) := by
  have hsome : (t.recordAt i).isSome := by rw [h]; rfl
  obtain ⟨hlive, hindex⟩ := t.record_idAt hsome
  obtain ⟨hnone, -⟩ | ⟨r', hr', -, -, -, hrecord⟩ := t.toSlotTable.modify_cases (t.idAt i) f
  · rw [hnone] at hlive
    cases hlive
  · obtain ⟨hr, -⟩ := t.record_eq_some.mp hr'
    rw [hindex] at hr hrecord
    obtain rfl : r = r' := Option.some.inj (h.symm.trans hr)
    exact hrecord

/-- A handle that resolves names a live slot. -/
theorem recordAt_indexOf {id i : ℕ} (h : t.indexOf id = some i) : (t.recordAt i).isSome := by
  obtain ⟨-, hlive, -⟩ := t.indexOf_eq_some.mp h
  exact hlive

end Grove.StackedTable

namespace Grove.Render

/-- `0` is `NO_NODE`. -/
abbrev NodeId := ℕ

inductive NodeKind where
  | sprite
  | group
  | text
deriving DecidableEq

/-- What measuring reads of a style. -/
structure TextStyle where
  size : Option ℚ
  lineHeight : Option ℚ
deriving DecidableEq

structure NodeRecord where
  kind : NodeKind
  surface : Surface
  texture : String
  text : String
  style : Option TextStyle
  uiAnchor : Option UiAnchor
  layer : JsNumber
deriving DecidableEq

end Grove.Render
