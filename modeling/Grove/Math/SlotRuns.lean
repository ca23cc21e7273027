import Grove.Core.Value
import Grove.Lib.Run
import Grove.Math.SlotTable

/-! # Slot tables over whole runs

The operations of `slot-table.ts` as its callers make them: any number for a handle or an index, and
`clear`.  The table that a run builds has every free slot that is not retired on its free list
(`StackedTable`).  `handle_safety` is what holds after any run: a handle is handed out once, stops
resolving for good when it is released, and until then names the record it was created with. -/

namespace Grove

/-- Advances a freed slot's generation, or retires it when the next would wrap. -/
def recycle (generation : ℕ) : ℕ := if maxGeneration ≤ generation then retiredGeneration else nextGeneration generation

namespace SlotTable

variable {R : Type} (t : SlotTable R)

/-- The slot a number reads of an array; a number that is no index reads nothing. -/
def slotOf : JsNumber → Option ℕ
  | .finite q => if q.den = 1 ∧ 0 ≤ q then some q.num.toNat else none
  | .nan | .posInfinity | .negInfinity => none

/-- The slot index any number addresses as a handle. -/
def indexOfNumber : JsNumber → Option ℕ
  | .finite q => if q ≤ 0 ∨ ¬ (q.den = 1 ∧ |q| ≤ maxSafeInteger) then none else t.indexOf q.num.toNat
  | .nan | .posInfinity | .negInfinity => none

/-- A number that addresses a slot is the handle of that slot. -/
theorem indexOf_of_indexOfNumber {x : JsNumber} {i : ℕ} (h : t.indexOfNumber x = some i) :
    ∃ id : ℕ, x = .finite id ∧ t.indexOf id = some i := by
  cases x with
  | finite q =>
    unfold indexOfNumber at h
    simp only at h
    split_ifs at h with hq
    rw [not_or, not_not, not_le] at hq
    refine ⟨q.num.toNat, ?_, h⟩
    congr 1
    have hnum : 0 ≤ q.num := Rat.num_nonneg.mpr hq.1.le
    rw [← Int.cast_natCast, Int.toNat_of_nonneg hnum]
    exact (Rat.coe_int_num_of_den_eq_one hq.2.1).symm
  | nan | posInfinity | negInfinity => cases h

/-! ### A slot released by its index -/

theorem releaseAt_of_free {i : ℕ} (h : t.recordAt i = none) : t.releaseAt i = t := by
  unfold releaseAt
  rw [dif_neg (by rw [h]; exact Bool.false_ne_true)]

/-- It is the release of the handle that is live there. -/
theorem releaseAt_eq_release {i : ℕ} (h : (t.recordAt i).isSome) : t.releaseAt i = t.release (t.idAt i) := by
  obtain ⟨hlive, hindex⟩ := t.record_idAt h
  have hi : t.indexOf (t.idAt i) = some i := t.indexOf_eq_some.mpr
    ⟨hindex.symm, h, by rw [idAt, if_pos h, handleGeneration_packHandle (t.lt_indexRange h)]⟩
  unfold release
  rw [hi]

end SlotTable

/-- A slot table with every free slot on the free list that is not retired. -/
structure StackedTable (R : Type) extends SlotTable R where
  stacked : ∀ i < slotCount, recordAt i = none → generationAt i ≠ retiredGeneration → i ∈ freeList

namespace SlotTable

variable {R : Type} {t : SlotTable R}

/-- Every free slot that is not retired is on the free list. -/
def Stacked (t : SlotTable R) : Prop :=
  ∀ i < t.slotCount, t.recordAt i = none → t.generationAt i ≠ retiredGeneration → i ∈ t.freeList

theorem Stacked.create (h : t.Stacked) {r : R} {id : ℕ} {t' : SlotTable R} (hcreate : t.create r = some (id, t')) :
    t'.Stacked := by
  unfold SlotTable.create at hcreate
  split at hcreate
  · rename_i i rest hfree
    obtain ⟨-, rfl⟩ := Prod.mk.inj (Option.some.inj hcreate)
    intro j hj hnone hgen
    change Function.update t.recordAt i (some r) j = none at hnone
    have hne : j ≠ i := by
      rintro rfl
      rw [Function.update_self] at hnone
      cases hnone
    rw [Function.update_of_ne hne] at hnone
    have hmem := h j hj hnone hgen
    rw [hfree] at hmem
    exact List.mem_of_ne_of_mem hne hmem
  · rename_i hfree
    split_ifs at hcreate
    obtain ⟨-, rfl⟩ := Prod.mk.inj (Option.some.inj hcreate)
    intro j hj hnone hgen
    change Function.update t.recordAt t.slotCount (some r) j = none at hnone
    change Function.update t.generationAt t.slotCount firstGeneration j ≠ retiredGeneration at hgen
    have hne : j ≠ t.slotCount := by
      rintro rfl
      rw [Function.update_self] at hnone
      cases hnone
    rw [Function.update_of_ne hne] at hnone hgen
    have hlt : j < t.slotCount + 1 := hj
    have hmem := h j (by omega) hnone hgen
    rw [hfree] at hmem
    exact hmem

theorem Stacked.releaseAt (h : t.Stacked) (i : ℕ) : (t.releaseAt i).Stacked := by
  unfold SlotTable.releaseAt
  split_ifs with hocc hmax
  · intro j hj hnone hgen
    change Function.update t.generationAt i retiredGeneration j ≠ retiredGeneration at hgen
    change Function.update t.recordAt i none j = none at hnone
    have hne : j ≠ i := by
      rintro rfl
      rw [Function.update_self] at hgen
      exact hgen rfl
    rw [Function.update_of_ne hne] at hnone hgen
    exact h j hj hnone hgen
  · intro j hj hnone hgen
    change Function.update t.generationAt i (nextGeneration (t.generationAt i)) j ≠ retiredGeneration at hgen
    change Function.update t.recordAt i none j = none at hnone
    by_cases hji : j = i
    · subst hji
      exact List.mem_cons_self
    · rw [Function.update_of_ne hji] at hnone hgen
      exact List.mem_cons_of_mem _ (h j hj hnone hgen)
  · exact h

end SlotTable

namespace StackedTable

variable {R : Type}

def empty : StackedTable R := { SlotTable.empty with stacked := fun _ h => absurd h (Nat.not_lt_zero _) }

variable (t : StackedTable R)

/-- Allocates a slot and mints its handle; `none` when the table is full. -/
def create (r : R) : Option (ℕ × StackedTable R) :=
  match h : t.toSlotTable.create r with
  | none => none
  | some (id, t') => some (id, { t' with stacked := SlotTable.Stacked.create t.stacked h })

def releaseAt (i : ℕ) : StackedTable R :=
  { t.toSlotTable.releaseAt i with stacked := SlotTable.Stacked.releaseAt t.stacked i }

/-- Frees the slot a handle addresses, whatever number it is. -/
def release (id : JsNumber) : StackedTable R :=
  match t.indexOfNumber id with
  | none => t
  | some i => t.releaseAt i

/-- Frees the slot any number indexes. -/
def releaseIndex (index : JsNumber) : StackedTable R :=
  match SlotTable.slotOf index with
  | none => t
  | some i => t.releaseAt i

/-- The generation of a slot after every record is dropped. -/
def clearedGeneration (i : ℕ) : ℕ := if (t.recordAt i).isSome then recycle (t.generationAt i) else t.generationAt i

theorem clearedGeneration_le {i : ℕ} (hi : i < t.slotCount) : t.clearedGeneration i ≤ maxGeneration := by
  unfold clearedGeneration recycle retiredGeneration nextGeneration
  split_ifs with hocc hmax
  · exact Nat.zero_le _
  · omega
  · by_cases hretired : t.generationAt i = retiredGeneration
    · rw [hretired]
      exact Nat.zero_le _
    · have hnone : t.recordAt i = none := by simpa using hocc
      exact (t.freeList_spec i (t.stacked i hi hnone hretired)).2.2.2

/-- Drops every record; the stack is rebuilt to pop ascending. -/
def clear : StackedTable R where
  slotCount := t.slotCount
  recordAt := fun _ => none
  generationAt := t.clearedGeneration
  freeList := (List.range t.slotCount).filter (fun i => t.clearedGeneration i ≠ retiredGeneration)
  liveCount := t.liveCount - ((List.range t.slotCount).filter (fun i => (t.recordAt i).isSome)).length
  slotCount_le := t.slotCount_le
  recordAt_ge := fun _ _ => rfl
  occupied_generation := fun _ h => by cases h
  freeList_spec := by
    intro i hi
    obtain ⟨hrange, hgen⟩ := List.mem_filter.mp hi
    have hlt : i < t.slotCount := List.mem_range.mp hrange
    have hne : t.clearedGeneration i ≠ retiredGeneration := of_decide_eq_true hgen
    exact ⟨hlt, rfl, Nat.one_le_iff_ne_zero.mpr hne, t.clearedGeneration_le hlt⟩
  freeList_nodup := List.nodup_range.filter _
  liveCount_eq := by
    rw [t.liveCount_eq, Nat.sub_self, eq_comm, List.length_eq_zero_iff, List.filter_eq_nil_iff]
    exact fun _ _ => Bool.false_ne_true
  stacked := fun i hi _ hgen => List.mem_filter.mpr ⟨List.mem_range.mpr hi, decide_eq_true hgen⟩

/-! ### What a release and a clear do to handles -/

theorem create_eq_some {r : R} {id : ℕ} {t' : StackedTable R} (h : t.create r = some (id, t')) :
    t.toSlotTable.create r = some (id, t'.toSlotTable) := by
  unfold create at h
  split at h
  · cases h
  · rename_i id' table hcreate
    obtain ⟨rfl, rfl⟩ := Prod.mk.inj (Option.some.inj h)
    exact hcreate

theorem record_clear (id : ℕ) : t.clear.record id = none := by
  cases h : t.clear.record id with
  | none => rfl
  | some r => cases (t.clear.record_eq_some.mp h).1

theorem issued_clear {id : ℕ} (h : t.Issued id) : t.clear.Issued id := by
  obtain ⟨hlt, hpos, hgen⟩ := h
  refine ⟨hlt, hpos, ?_⟩
  show handleGeneration id < t.clearedGeneration (handleIndex id) ∨ t.clearedGeneration (handleIndex id) = retiredGeneration ∨ _
  unfold clearedGeneration recycle retiredGeneration nextGeneration at *
  by_cases hocc : (t.recordAt (handleIndex id)).isSome
  · have hone := (t.occupied_generation _ hocc).1
    rw [if_pos hocc]
    split_ifs with hmax
    · exact Or.inr (Or.inl rfl)
    · refine Or.inl ?_
      rcases hgen with h | h | ⟨-, h⟩ <;> omega
  · rw [if_neg hocc]
    rcases hgen with h | h | ⟨h, -⟩
    · exact Or.inl h
    · exact Or.inr (Or.inl h)
    · exact absurd h hocc

theorem toSlotTable_releaseAt (i : ℕ) : (t.releaseAt i).toSlotTable = t.toSlotTable.releaseAt i := rfl

end StackedTable

/-! ### Runs -/

namespace SlotRun

variable {R : Type}

/-- What a caller does to the table. -/
inductive Op (R : Type) where
  | create (r : R)
  | release (id : JsNumber)
  | releaseIndex (index : JsNumber)
  | clear

/-- A table with the handles it has returned, each with the record it was created with, and the handles
whose records it has dropped. -/
structure Traced (R : Type) where
  table : StackedTable R
  minted : List (ℕ × R)
  freed : List ℕ

def Traced.start : Traced R := { table := StackedTable.empty, minted := [], freed := [] }

/-- One call of the table. -/
def step (s : Traced R) : Op R → Traced R
  | .create r =>
    match s.table.create r with
    | none => s
    | some (id, table) => { s with table := table, minted := s.minted ++ [(id, r)] }
  | .release id =>
    match s.table.indexOfNumber id with
    | none => { s with table := s.table.release id }
    | some i => { s with table := s.table.release id, freed := s.freed ++ [s.table.idAt i] }
  | .releaseIndex index =>
    { s with
      table := s.table.releaseIndex index
      freed := s.freed ++ ((SlotTable.slotOf index).filter (fun i => (s.table.recordAt i).isSome)).toList.map s.table.idAt }
  | .clear => { s with table := s.table.clear, freed := s.freed ++ s.table.liveIds }

/-- What is kept about the handles of a run. -/
structure Ok (s : Traced R) : Prop where
  once : (s.minted.map Prod.fst).Nodup
  issued : ∀ p ∈ s.minted, s.table.Issued p.1
  gone : ∀ id ∈ s.freed, s.table.Issued id ∧ s.table.record id = none
  live : ∀ id r, s.table.record id = some r ↔ (id, r) ∈ s.minted ∧ id ∉ s.freed

theorem ok_start : Ok (Traced.start : Traced R) where
  once := List.nodup_nil
  issued := fun _ h => absurd h List.not_mem_nil
  gone := fun _ h => absurd h List.not_mem_nil
  live := fun id r => by
    constructor
    · intro h
      cases (SlotTable.record_eq_some _).mp h |>.1
    · exact fun h => absurd h.1 List.not_mem_nil

/-- Dropping the record at an occupied slot drops the handle that is live there. -/
theorem Ok.freeSlot {s : Traced R} (h : Ok s) {i : ℕ} (hi : (s.table.recordAt i).isSome) :
    Ok { s with table := s.table.releaseAt i, freed := s.freed ++ [s.table.idAt i] } := by
  have htable : s.table.toSlotTable.releaseAt i = s.table.toSlotTable.release (s.table.idAt i) :=
    SlotTable.releaseAt_eq_release _ hi
  refine ⟨h.once, fun p hp => ?_, fun id hid => ?_, fun id r => ?_⟩
  · change (s.table.toSlotTable.releaseAt i).Issued p.1
    rw [htable]
    exact SlotTable.issued_release _ (h.issued p hp)
  · change (s.table.toSlotTable.releaseAt i).Issued id ∧ (s.table.toSlotTable.releaseAt i).record id = none
    rw [htable, SlotTable.record_release]
    rcases List.mem_append.mp hid with hid | hid
    · obtain ⟨hissued, hnone⟩ := h.gone id hid
      refine ⟨SlotTable.issued_release _ hissued, ?_⟩
      split_ifs
      · rfl
      · exact hnone
    · rw [List.mem_singleton.mp hid, if_pos rfl]
      exact ⟨SlotTable.issued_release _ (SlotTable.issued_of_record _ (SlotTable.record_idAt _ hi).1), rfl⟩
  · change (s.table.toSlotTable.releaseAt i).record id = some r ↔ _
    rw [htable, SlotTable.record_release]
    by_cases hid : id = s.table.idAt i
    · rw [if_pos hid, hid]
      constructor
      · intro hnone
        cases hnone
      · exact fun hlive => absurd (List.mem_append_right _ (List.mem_singleton.mpr rfl)) hlive.2
    · rw [if_neg hid, h.live id r]
      refine and_congr_right fun _ => not_congr ?_
      rw [List.mem_append, List.mem_singleton, or_iff_left hid]

theorem Ok.create {s : Traced R} (h : Ok s) {r : R} {id : ℕ} {table : StackedTable R}
    (hcreate : s.table.create r = some (id, table)) :
    Ok { s with table := table, minted := s.minted ++ [(id, r)] } := by
  have htable := StackedTable.create_eq_some _ hcreate
  have hfresh : ¬ s.table.Issued id := SlotTable.not_issued_of_create htable
  have hnew : id ∉ s.minted.map Prod.fst := fun hmem => by
    obtain ⟨p, hp, rfl⟩ := List.mem_map.mp hmem
    exact hfresh (h.issued p hp)
  refine ⟨?_, fun p hp => ?_, fun id' hid' => ?_, fun id' r' => ?_⟩
  · rw [List.map_append]
    refine List.Nodup.append h.once (List.nodup_singleton _) ?_
    intro x hx hx'
    rw [List.mem_singleton.mp hx'] at hx
    exact hnew hx
  · refine (SlotTable.issued_create htable p.1).mpr ?_
    rcases List.mem_append.mp hp with hp | hp
    · exact Or.inl (h.issued p hp)
    · rw [List.mem_singleton.mp hp]
      exact Or.inr rfl
  · obtain ⟨hissued, hnone⟩ := h.gone id' hid'
    refine ⟨(SlotTable.issued_create htable id').mpr (Or.inl hissued), ?_⟩
    change table.toSlotTable.record id' = none
    rw [SlotTable.record_create_of_ne htable (fun he => hfresh (he ▸ hissued)), hnone]
  · change table.toSlotTable.record id' = some r' ↔ _
    rw [SlotTable.record_create htable]
    by_cases hid : id' = id
    · subst hid
      rw [if_pos rfl, Option.some.injEq]
      constructor
      · rintro rfl
        exact ⟨List.mem_append_right _ (List.mem_singleton.mpr rfl), fun hgone => hfresh (h.gone _ hgone).1⟩
      · rintro ⟨hmem, -⟩
        rcases List.mem_append.mp hmem with hmem | hmem
        · exact absurd (List.mem_map.mpr ⟨_, hmem, rfl⟩) hnew
        · exact (Prod.mk.inj (List.mem_singleton.mp hmem)).2.symm
    · rw [if_neg hid, h.live id' r', List.mem_append, List.mem_singleton, Prod.mk.injEq]
      simp only [hid, false_and, or_false]

theorem Ok.clear {s : Traced R} (h : Ok s) :
    Ok { s with table := s.table.clear, freed := s.freed ++ s.table.liveIds } := by
  refine ⟨h.once, fun p hp => StackedTable.issued_clear _ (h.issued p hp), fun id hid => ?_, fun id r => ?_⟩
  · refine ⟨StackedTable.issued_clear _ ?_, StackedTable.record_clear _ id⟩
    rcases List.mem_append.mp hid with hid | hid
    · exact (h.gone id hid).1
    · exact SlotTable.issued_of_record _ ((SlotTable.mem_liveIds _).mp hid)
  · change s.table.clear.record id = some r ↔ _
    rw [StackedTable.record_clear]
    constructor
    · intro hnone
      cases hnone
    · rintro ⟨hmem, hfreed⟩
      refine absurd ?_ hfreed
      by_cases hgone : id ∈ s.freed
      · exact List.mem_append_left _ hgone
      · refine List.mem_append_right _ ((SlotTable.mem_liveIds _).mpr ?_)
        rw [(h.live id r).mpr ⟨hmem, hgone⟩]
        rfl

/-- **One call.**  The account of handed-out and dropped handles stays exact. -/
theorem Ok.step {s : Traced R} (h : Ok s) (op : Op R) : Ok (step s op) := by
  cases op with
  | create r =>
    rw [SlotRun.step]
    cases hcreate : s.table.create r with
    | none => exact h
    | some p => exact h.create hcreate
  | release id =>
    rw [SlotRun.step, StackedTable.release]
    cases hindex : s.table.indexOfNumber id with
    | none => exact h
    | some i =>
      obtain ⟨handle, -, hi⟩ := s.table.indexOf_of_indexOfNumber hindex
      exact h.freeSlot ((SlotTable.indexOf_eq_some _).mp hi).2.1
  | releaseIndex index =>
    rw [SlotRun.step, StackedTable.releaseIndex]
    cases hslot : SlotTable.slotOf index with
    | none =>
      simp only [Option.filter_none, Option.toList_none, List.map_nil, List.append_nil]
      exact h
    | some i =>
      simp only [Option.filter_some]
      by_cases hi : (s.table.recordAt i).isSome
      · rw [if_pos hi]
        exact h.freeSlot hi
      · rw [if_neg hi, Option.toList_none, List.map_nil, List.append_nil]
        have hnone : s.table.recordAt i = none := Option.not_isSome_iff_eq_none.mp hi
        have hsame : s.table.releaseAt i = s.table := by
          unfold StackedTable.releaseAt
          simp only [SlotTable.releaseAt_of_free _ hnone]
        rw [hsame]
        exact h
  | clear => exact h.clear

theorem ok_exec (ops : List (Op R)) : Ok (exec step Traced.start ops) :=
  exec_invariant (fun _ op h => h.step op) ok_start ops

/-! ### What is dropped stays dropped -/

theorem freed_step (s : Traced R) (op : Op R) : s.freed ⊆ (step s op).freed := by
  intro id hid
  cases op with
  | create r =>
    rw [step]
    split
    · exact hid
    · exact hid
  | release handle =>
    rw [step]
    split
    · exact hid
    · exact List.mem_append_left _ hid
  | releaseIndex | clear => exact List.mem_append_left _ hid

theorem freed_exec (s : Traced R) (ops : List (Op R)) : s.freed ⊆ (exec step s ops).freed :=
  @exec_invariant _ _ step (fun s' => s.freed ⊆ s'.freed) (fun s' op h => List.Subset.trans h (freed_step s' op)) s
    (List.Subset.refl _) ops

/-- A slot that has run out of generations. -/
def Retired (t : StackedTable R) (i : ℕ) : Prop :=
  i < t.slotCount ∧ t.recordAt i = none ∧ t.generationAt i = retiredGeneration

theorem Retired.releaseAt {t : StackedTable R} {i : ℕ} (h : Retired t i) (j : ℕ) : Retired (t.releaseAt j) i := by
  change i < (t.toSlotTable.releaseAt j).slotCount ∧ (t.toSlotTable.releaseAt j).recordAt i = none ∧
    (t.toSlotTable.releaseAt j).generationAt i = retiredGeneration
  obtain ⟨hlt, hnone, hgen⟩ := h
  unfold SlotTable.releaseAt
  split_ifs with hocc hmax
  · have hne : i ≠ j := by
      rintro rfl
      rw [hnone] at hocc
      cases hocc
    simp only [Function.update_of_ne hne]
    exact ⟨hlt, hnone, hgen⟩
  · have hne : i ≠ j := by
      rintro rfl
      rw [hnone] at hocc
      cases hocc
    simp only [Function.update_of_ne hne]
    exact ⟨hlt, hnone, hgen⟩
  · exact ⟨hlt, hnone, hgen⟩

theorem Retired.create {t : StackedTable R} {i : ℕ} (h : Retired t i) {r : R} {id : ℕ} {t' : StackedTable R}
    (hcreate : t.create r = some (id, t')) : Retired t' i := by
  obtain ⟨hlt, hnone, hgen⟩ := h
  obtain ⟨-, -, hrec, -, hgens, hslot, hpos⟩ := SlotTable.create_cases (StackedTable.create_eq_some _ hcreate)
  have hne : i ≠ handleIndex id := by
    rintro rfl
    rcases hslot with ⟨-, -, hg⟩ | ⟨-, hg⟩
    · rw [hgen] at hg
      unfold retiredGeneration at hg
      omega
    · omega
  refine ⟨?_, ?_, ?_⟩
  · rcases hslot with ⟨hs, -⟩ | ⟨hs, -⟩ <;> omega
  · rw [hrec, Function.update_of_ne hne, hnone]
  · rw [hgens, if_neg hne, hgen]

/-- No call brings a retired slot back. -/
theorem Retired.step {s : Traced R} {i : ℕ} (h : Retired s.table i) (op : Op R) : Retired (step s op).table i := by
  cases op with
  | create r =>
    rw [SlotRun.step]
    cases hcreate : s.table.create r with
    | none => exact h
    | some p => exact h.create hcreate
  | release id =>
    rw [SlotRun.step, StackedTable.release]
    cases s.table.indexOfNumber id with
    | none => exact h
    | some j => exact h.releaseAt j
  | releaseIndex index =>
    rw [SlotRun.step, StackedTable.releaseIndex]
    cases SlotTable.slotOf index with
    | none => exact h
    | some j => exact h.releaseAt j
  | clear =>
    obtain ⟨hlt, hnone, hgen⟩ := h
    refine ⟨hlt, rfl, ?_⟩
    show s.table.clearedGeneration i = retiredGeneration
    unfold StackedTable.clearedGeneration
    rw [hnone, Option.isSome_none, if_neg Bool.false_ne_true, hgen]

theorem Retired.exec {s : Traced R} {i : ℕ} (h : Retired s.table i) (ops : List (Op R)) :
    Retired (exec SlotRun.step s ops).table i :=
  @exec_invariant _ _ SlotRun.step (fun s' => Retired s'.table i) (fun _ op h => h.step op) s h ops

/-! ### Handle safety -/

/-- What is promised of the handles of a run, at every moment of it. -/
structure HandleSafe (s : Traced R) : Prop where
  /-- No handle is returned twice. -/
  once : (s.minted.map Prod.fst).Nodup
  /-- A dropped handle names nothing. -/
  stale : ∀ id ∈ s.freed, s.table.indexOf id = none ∧ s.table.record id = none
  /-- A handle that was not dropped names the record it was created with. -/
  resolves : ∀ p ∈ s.minted, p.1 ∉ s.freed → (s.table.indexOf p.1).isSome ∧ s.table.record p.1 = some p.2
  /-- Nothing else names a record. -/
  named : ∀ id r, s.table.record id = some r → (id, r) ∈ s.minted ∧ id ∉ s.freed
  idAt_indexOf : ∀ id i, s.table.indexOf id = some i → s.table.idAt i = id
  indexOf_idAt : ∀ i, (s.table.recordAt i).isSome → s.table.indexOf (s.table.idAt i) = some i
  freeList_nodup : s.table.freeList.Nodup
  mem_freeList : ∀ i, i ∈ s.table.freeList ↔
    i < s.table.slotCount ∧ s.table.recordAt i = none ∧ s.table.generationAt i ≠ retiredGeneration
  liveCount : s.table.liveCount = ((List.range s.table.slotCount).filter (fun i => (s.table.recordAt i).isSome)).length
  mem_liveIds : ∀ id, id ∈ s.table.liveIds ↔ (∃ r, (id, r) ∈ s.minted) ∧ id ∉ s.freed
  liveIds_ascending : (s.table.liveIds.map handleIndex).Pairwise (· < ·)

theorem indexOf_eq_none {t : SlotTable R} {id : ℕ} (h : t.record id = none) : t.indexOf id = none := by
  by_contra hne
  have hsome := t.indexOf_isSome.mp (Option.ne_none_iff_isSome.mp hne)
  rw [h] at hsome
  cases hsome

theorem Ok.handleSafe {s : Traced R} (h : Ok s) : HandleSafe s where
  once := h.once
  stale := fun id hid => ⟨indexOf_eq_none (h.gone id hid).2, (h.gone id hid).2⟩
  resolves := fun p hp hfreed => by
    have hrec := (h.live p.1 p.2).mpr ⟨hp, hfreed⟩
    exact ⟨(SlotTable.indexOf_isSome _).mpr (by rw [hrec]; rfl), hrec⟩
  named := fun id r hrec => (h.live id r).mp hrec
  idAt_indexOf := fun id i hi => by
    obtain ⟨rfl, hocc⟩ := (SlotTable.indexOf_eq_some _).mp hi
    exact SlotTable.idAt_handleIndex _ ((SlotTable.record_isSome _).mpr hocc)
  indexOf_idAt := fun i hi => by
    obtain ⟨hlive, hindex⟩ := SlotTable.record_idAt _ hi
    exact (SlotTable.indexOf_eq_some _).mpr ⟨hindex.symm, hi, by
      rw [SlotTable.idAt, if_pos hi, handleGeneration_packHandle (SlotTable.lt_indexRange _ hi)]⟩
  freeList_nodup := s.table.freeList_nodup
  mem_freeList := fun i => by
    constructor
    · intro hi
      obtain ⟨hlt, hnone, hpos, -⟩ := s.table.freeList_spec i hi
      exact ⟨hlt, hnone, Nat.one_le_iff_ne_zero.mp hpos⟩
    · rintro ⟨hlt, hnone, hgen⟩
      exact s.table.stacked i hlt hnone hgen
  liveCount := s.table.liveCount_eq
  mem_liveIds := fun id => by
    rw [SlotTable.mem_liveIds, Option.isSome_iff_exists]
    simp only [h.live id, exists_and_right]
  liveIds_ascending := by
    have hmap : s.table.liveIds.map handleIndex =
        (List.range s.table.slotCount).filter (fun i => (s.table.recordAt i).isSome) := by
      rw [SlotTable.liveIds, List.map_map]
      refine (List.map_congr_left fun i hi => ?_).trans (List.map_id _)
      exact (SlotTable.record_idAt _ (List.mem_filter.mp hi).2).2
    rw [hmap]
    exact List.pairwise_lt_range.filter _

/-- **Handle safety.**  After any calls the handles are as promised; whatever is called next, the handles
dropped so far resolve to nothing and the slots out of generations stay so. -/
theorem handle_safety (ops later : List (Op R)) :
    HandleSafe (exec step Traced.start ops : Traced R) ∧
      (∀ id ∈ (exec step Traced.start ops).freed,
        (exec step Traced.start (ops ++ later)).table.indexOf id = none ∧
          (exec step Traced.start (ops ++ later)).table.record id = none) ∧
      (∀ i, Retired (exec step Traced.start ops).table i → Retired (exec step Traced.start (ops ++ later)).table i) := by
  refine ⟨(ok_exec ops).handleSafe, fun id hid => ?_, fun i hi => ?_⟩
  · refine (ok_exec (ops ++ later)).handleSafe.stale id ?_
    rw [exec_append]
    exact freed_exec _ _ hid
  · rw [exec_append]
    exact hi.exec later

end SlotRun
end Grove
