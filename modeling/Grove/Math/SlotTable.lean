import Mathlib.Tactic

/-! # Generation-packed handles and the slot table

`packages/math/src/handle.ts` packs a slot index and a generation into one number,
`generation * 2^24 + index`; `slot-table.ts` hands such numbers out.  A slot keeps its
generation while it is occupied and moves to the next one when it is freed, so a handle
minted for an earlier occupant stops resolving.  A slot whose generations have run out is
retired (generation `0`) and leaves the free list for good.

The table's arrays are kept as functions of the slot index, defaulting past `slotCount`;
the free list's head is the top of the source's stack.  What every operation maintains is
a field of the structure: the reads below (`record_create_self`, `record_release`,
`record_modify`, `mem_liveIds`, …) therefore need no side conditions.

`Issued t id` says that `t` has handed `id` out at some time.  `create` returns a handle
not issued before (`not_issued_of_create`) and no operation forgets one, which is what
makes a handle the name of one record for ever. -/

namespace Grove

/-- Slots per generation. -/
def indexRange : ℕ := 16777216

/-- Highest slot index a handle can address. -/
def maxIndex : ℕ := indexRange - 1

/-- The largest integer a double represents exactly together with its neighbours. -/
def maxSafeInteger : ℕ := 9007199254740991

/-- Highest generation before a handle would leave the safe-integer range. -/
def maxGeneration : ℕ := maxSafeInteger / indexRange

def firstGeneration : ℕ := 1

/-- Marks a slot out of generations. -/
def retiredGeneration : ℕ := 0

def packHandle (index generation : ℕ) : ℕ := generation * indexRange + index

def handleIndex (handle : ℕ) : ℕ := handle % indexRange

def handleGeneration (handle : ℕ) : ℕ := handle / indexRange

def nextGeneration (generation : ℕ) : ℕ := generation + 1

theorem handleIndex_packHandle {i g : ℕ} (h : i < indexRange) : handleIndex (packHandle i g) = i := by
  unfold handleIndex packHandle
  rw [Nat.add_comm, Nat.add_mul_mod_self_right, Nat.mod_eq_of_lt h]

theorem handleGeneration_packHandle {i g : ℕ} (h : i < indexRange) :
    handleGeneration (packHandle i g) = g := by
  unfold handleGeneration packHandle
  rw [Nat.add_comm, Nat.add_mul_div_right _ _ (by decide), Nat.div_eq_of_lt h, Nat.zero_add]

theorem packHandle_handleIndex (id : ℕ) : packHandle (handleIndex id) (handleGeneration id) = id := by
  unfold packHandle handleIndex handleGeneration
  exact Nat.div_add_mod' id indexRange

theorem handleIndex_lt (id : ℕ) : handleIndex id < indexRange := Nat.mod_lt _ (by decide)

theorem packHandle_pos {i g : ℕ} (h : 1 ≤ g) : 0 < packHandle i g := by
  unfold packHandle indexRange
  omega

theorem packHandle_le {i g : ℕ} (hi : i < indexRange) (hg : g ≤ maxGeneration) :
    packHandle i g ≤ maxSafeInteger := by
  have hm : maxGeneration = 536870911 := by decide
  rw [hm] at hg
  unfold packHandle maxSafeInteger
  unfold indexRange at *
  omega

/-- Slot table plus free list.  The propositions are what every operation keeps. -/
structure SlotTable (R : Type) where
  /-- Highest slot index ever allocated, plus one. -/
  slotCount : ℕ
  /-- Slot to record, `none` while the slot is free. -/
  recordAt : ℕ → Option R
  /-- Slot to generation: what the next mint of a free slot will use. -/
  generationAt : ℕ → ℕ
  /-- Free slots, the most recently released first. -/
  freeList : List ℕ
  liveCount : ℕ
  slotCount_le : slotCount ≤ indexRange
  recordAt_ge : ∀ i, slotCount ≤ i → recordAt i = none
  occupied_generation : ∀ i, (recordAt i).isSome → 1 ≤ generationAt i ∧ generationAt i ≤ maxGeneration
  freeList_spec : ∀ i ∈ freeList,
    i < slotCount ∧ recordAt i = none ∧ 1 ≤ generationAt i ∧ generationAt i ≤ maxGeneration
  freeList_nodup : freeList.Nodup
  liveCount_eq : liveCount = ((List.range slotCount).filter (fun i => (recordAt i).isSome)).length

namespace SlotTable

variable {R : Type}

/-- A table with no slot. -/
def empty : SlotTable R where
  slotCount := 0
  recordAt := fun _ => none
  generationAt := fun _ => firstGeneration
  freeList := []
  liveCount := 0
  slotCount_le := Nat.zero_le _
  recordAt_ge := fun _ _ => rfl
  occupied_generation := fun _ h => by cases h
  freeList_spec := fun _ h => by cases h
  freeList_nodup := List.nodup_nil
  liveCount_eq := rfl

variable (t : SlotTable R)

theorem lt_slotCount {i : ℕ} (h : (t.recordAt i).isSome) : i < t.slotCount := by
  by_contra hge
  rw [t.recordAt_ge i (by omega)] at h
  cases h

theorem lt_indexRange {i : ℕ} (h : (t.recordAt i).isSome) : i < indexRange :=
  lt_of_lt_of_le (t.lt_slotCount h) t.slotCount_le

/-! ### Counting the occupied slots -/

/-- Occupying one free slot below `n` adds one to the count. -/
theorem count_occupy {f : ℕ → Option R} {i n : ℕ} {r : R} (hi : i < n) (hf : f i = none) :
    ((List.range n).filter (fun j => (Function.update f i (some r) j).isSome)).length =
      ((List.range n).filter (fun j => (f j).isSome)).length + 1 := by
  induction n with
  | zero => omega
  | succ n ih =>
    simp only [List.range_succ, List.filter_append, List.length_append]
    rcases Nat.lt_or_ge i n with h | h
    · have hne : n ≠ i := by omega
      rw [ih h]
      simp only [List.filter_cons, List.filter_nil, Function.update_of_ne hne]
      split_ifs <;> simp
    · obtain rfl : i = n := by omega
      have hsame : (List.range i).filter (fun j => (Function.update f i (some r) j).isSome) =
          (List.range i).filter (fun j => (f j).isSome) := by
        apply List.filter_congr
        intro j hj
        rw [Function.update_of_ne (by rw [List.mem_range] at hj; omega)]
      rw [hsame]
      simp [hf]

/-- Freeing one occupied slot below `n` takes one from the count. -/
theorem count_free {f : ℕ → Option R} {i n : ℕ} (hi : i < n) (hf : (f i).isSome) :
    ((List.range n).filter (fun j => (Function.update f i none j).isSome)).length + 1 =
      ((List.range n).filter (fun j => (f j).isSome)).length := by
  obtain ⟨r, hr⟩ := Option.isSome_iff_exists.mp hf
  have h := count_occupy (f := Function.update f i none) (r := r) hi (by simp)
  rw [Function.update_idem, ← hr, Function.update_eq_self] at h
  exact h.symm

/-- The count looks only at which slots are occupied. -/
theorem count_congr {f g : ℕ → Option R} {n : ℕ} (h : ∀ j, (f j).isSome = (g j).isSome) :
    ((List.range n).filter (fun j => (f j).isSome)).length =
      ((List.range n).filter (fun j => (g j).isSome)).length := by
  simp only [h]

/-! ### Operations -/

/-- The slot index a handle addresses; `none` for the null, a stale or an unminted one. -/
def indexOf (id : ℕ) : Option ℕ :=
  if id = 0 ∨ maxSafeInteger < id then none
  else if (t.recordAt (handleIndex id)).isSome ∧ t.generationAt (handleIndex id) = handleGeneration id
  then some (handleIndex id) else none

/-- The live handle for a slot index; `0` when that slot is free. -/
def idAt (index : ℕ) : ℕ :=
  if (t.recordAt index).isSome then packHandle index (t.generationAt index) else 0

/-- The record a handle addresses. -/
def record (id : ℕ) : Option R := (t.indexOf id).bind t.recordAt

/-- Reuse the most recently freed slot, or open a new one; `none` is the full table. -/
def create (r : R) : Option (ℕ × SlotTable R) :=
  match hfree : t.freeList with
  | i :: rest =>
    have hspec := t.freeList_spec i (by rw [hfree]; exact List.mem_cons_self)
    have hnd : i ∉ rest ∧ rest.Nodup := by
      have := t.freeList_nodup
      rw [hfree] at this
      exact List.nodup_cons.mp this
    some (packHandle i (t.generationAt i),
      { t with
        recordAt := Function.update t.recordAt i (some r)
        freeList := rest
        liveCount := t.liveCount + 1
        recordAt_ge := fun j hj => by
          rw [Function.update_of_ne (by omega)]
          exact t.recordAt_ge j hj
        occupied_generation := fun j hj => by
          by_cases h : j = i
          · exact h ▸ hspec.2.2
          · rw [Function.update_of_ne h] at hj
            exact t.occupied_generation j hj
        freeList_spec := fun j hj => by
          have hne : j ≠ i := fun h => hnd.1 (h ▸ hj)
          rw [Function.update_of_ne hne]
          exact t.freeList_spec j (by rw [hfree]; exact List.mem_cons_of_mem _ hj)
        freeList_nodup := hnd.2
        liveCount_eq := by rw [count_occupy hspec.1 hspec.2.1, t.liveCount_eq] })
  | [] =>
    if hfull : maxIndex < t.slotCount then none
    else
      have hlt : t.slotCount < indexRange := by
        unfold maxIndex at hfull
        have : 0 < indexRange := by decide
        omega
      some (packHandle t.slotCount firstGeneration,
        { t with
          slotCount := t.slotCount + 1
          recordAt := Function.update t.recordAt t.slotCount (some r)
          generationAt := Function.update t.generationAt t.slotCount firstGeneration
          freeList := []
          liveCount := t.liveCount + 1
          slotCount_le := hlt
          recordAt_ge := fun j hj => by
            rw [Function.update_of_ne (by omega)]
            exact t.recordAt_ge j (by omega)
          occupied_generation := fun j hj => by
            by_cases h : j = t.slotCount
            · subst h
              rw [Function.update_self]
              decide
            · rw [Function.update_of_ne h] at hj ⊢
              exact t.occupied_generation j hj
          freeList_spec := fun j hj => by cases hj
          freeList_nodup := List.nodup_nil
          liveCount_eq := by
            rw [count_occupy (Nat.lt_succ_self _) (t.recordAt_ge _ (le_refl _)),
              List.range_succ, List.filter_append, List.length_append, t.liveCount_eq]
            simp [t.recordAt_ge _ (le_refl _)] })

/-- Rewrite the record of a live handle in place; any other handle changes nothing. -/
def modify (id : ℕ) (f : R → R) : SlotTable R :=
  match h : t.indexOf id with
  | none => t
  | some i =>
    have hsame : ∀ j, (Function.update t.recordAt i ((t.recordAt i).map f) j).isSome =
        (t.recordAt j).isSome := fun j => by
      by_cases hj : j = i
      · subst hj; simp
      · rw [Function.update_of_ne hj]
    { t with
      recordAt := Function.update t.recordAt i ((t.recordAt i).map f)
      recordAt_ge := fun j hj => by
        have := hsame j
        rw [t.recordAt_ge j hj] at this
        simpa using this
      occupied_generation := fun j hj => t.occupied_generation j (by rw [← hsame j]; exact hj)
      freeList_spec := fun j hj => by
        obtain ⟨h1, h2, h3⟩ := t.freeList_spec j hj
        have := hsame j
        rw [h2] at this
        exact ⟨h1, by simpa using this, h3⟩
      liveCount_eq := by rw [count_congr hsame, t.liveCount_eq] }

/-- Free a slot: bump its generation and return it to the free list, or retire it. -/
def releaseAt (i : ℕ) : SlotTable R :=
  if h : (t.recordAt i).isSome then
    have hi := t.lt_slotCount h
    have hg := t.occupied_generation i h
    have hcount : t.liveCount - 1 =
        ((List.range t.slotCount).filter
          (fun j => (Function.update t.recordAt i none j).isSome)).length := by
      have := count_free hi h
      rw [t.liveCount_eq]
      omega
    have hge : ∀ j, t.slotCount ≤ j → Function.update t.recordAt i none j = none := fun j hj => by
      rw [Function.update_of_ne (by omega)]
      exact t.recordAt_ge j hj
    have hne : ∀ j, (Function.update t.recordAt i none j).isSome → j ≠ i ∧ (t.recordAt j).isSome :=
      fun j hj => by
        by_cases hji : j = i
        · subst hji
          rw [Function.update_self] at hj
          cases hj
        · rw [Function.update_of_ne hji] at hj
          exact ⟨hji, hj⟩
    have hfree : ∀ j ∈ t.freeList, j ≠ i := fun j hj hji => by
      have := (t.freeList_spec j hj).2.1
      rw [hji] at this
      rw [this] at h
      cases h
    if hmax : maxGeneration ≤ t.generationAt i then
      { t with
        recordAt := Function.update t.recordAt i none
        generationAt := Function.update t.generationAt i retiredGeneration
        liveCount := t.liveCount - 1
        recordAt_ge := hge
        occupied_generation := fun j hj => by
          rw [Function.update_of_ne (hne j hj).1]
          exact t.occupied_generation j (hne j hj).2
        freeList_spec := fun j hj => by
          rw [Function.update_of_ne (hfree j hj), Function.update_of_ne (hfree j hj)]
          exact t.freeList_spec j hj
        liveCount_eq := hcount }
    else
      { t with
        recordAt := Function.update t.recordAt i none
        generationAt := Function.update t.generationAt i (nextGeneration (t.generationAt i))
        freeList := i :: t.freeList
        liveCount := t.liveCount - 1
        recordAt_ge := hge
        occupied_generation := fun j hj => by
          rw [Function.update_of_ne (hne j hj).1]
          exact t.occupied_generation j (hne j hj).2
        freeList_spec := fun j hj => by
          rcases List.mem_cons.mp hj with rfl | hj
          · rw [Function.update_self, Function.update_self]
            unfold nextGeneration
            exact ⟨hi, rfl, by omega, by omega⟩
          · rw [Function.update_of_ne (hfree j hj), Function.update_of_ne (hfree j hj)]
            exact t.freeList_spec j hj
        freeList_nodup := List.nodup_cons.mpr ⟨fun hmem => hfree i hmem rfl, t.freeList_nodup⟩
        liveCount_eq := hcount }
  else t

/-- Free the slot a handle addresses. -/
def release (id : ℕ) : SlotTable R :=
  match t.indexOf id with
  | none => t
  | some i => t.releaseAt i

/-- Live handles in ascending slot order. -/
def liveIds : List ℕ := ((List.range t.slotCount).filter (fun i => (t.recordAt i).isSome)).map t.idAt

/-- `id` has been handed out: its slot is open and its generation is the current one of an
occupied slot, an earlier one, or any one of a retired slot. -/
def Issued (id : ℕ) : Prop :=
  handleIndex id < t.slotCount ∧ 1 ≤ handleGeneration id ∧
    (handleGeneration id < t.generationAt (handleIndex id) ∨
      t.generationAt (handleIndex id) = retiredGeneration ∨
      (t.recordAt (handleIndex id)).isSome ∧ t.generationAt (handleIndex id) = handleGeneration id)

/-! ### Reads -/

theorem indexOf_eq_some {id i : ℕ} :
    t.indexOf id = some i ↔
      i = handleIndex id ∧ (t.recordAt i).isSome ∧ t.generationAt i = handleGeneration id := by
  unfold indexOf
  constructor
  · intro h
    split_ifs at h with h0 h1
    obtain rfl := Option.some.inj h
    exact ⟨rfl, h1⟩
  · rintro ⟨rfl, hocc, hgen⟩
    obtain ⟨hpos, hmax⟩ := t.occupied_generation _ hocc
    have hid := packHandle_handleIndex id
    rw [← hgen] at hid
    have h0 : 0 < id := hid ▸ packHandle_pos hpos
    have hle : id ≤ maxSafeInteger := hid ▸ packHandle_le (handleIndex_lt id) hmax
    rw [if_neg (by omega), if_pos ⟨hocc, hgen⟩]

theorem record_eq_some {id : ℕ} {r : R} :
    t.record id = some r ↔
      t.recordAt (handleIndex id) = some r ∧ t.generationAt (handleIndex id) = handleGeneration id := by
  unfold record
  rw [Option.bind_eq_some_iff]
  constructor
  · rintro ⟨i, hi, hr⟩
    obtain ⟨rfl, _, hgen⟩ := t.indexOf_eq_some.mp hi
    exact ⟨hr, hgen⟩
  · rintro ⟨hr, hgen⟩
    exact ⟨_, t.indexOf_eq_some.mpr ⟨rfl, by simp [hr], hgen⟩, hr⟩

theorem record_isSome {id : ℕ} :
    (t.record id).isSome ↔
      (t.recordAt (handleIndex id)).isSome ∧ t.generationAt (handleIndex id) = handleGeneration id := by
  simp only [Option.isSome_iff_exists, t.record_eq_some, exists_and_right]

theorem indexOf_isSome {id : ℕ} : (t.indexOf id).isSome ↔ (t.record id).isSome := by
  rw [t.record_isSome, Option.isSome_iff_exists]
  constructor
  · rintro ⟨i, hi⟩
    obtain ⟨rfl, h⟩ := t.indexOf_eq_some.mp hi
    exact h
  · intro h
    exact ⟨_, t.indexOf_eq_some.mpr ⟨rfl, h⟩⟩

/-- Two live handles of one slot are one handle. -/
theorem eq_of_handleIndex_eq {id id' : ℕ} (h : (t.record id).isSome) (h' : (t.record id').isSome)
    (he : handleIndex id = handleIndex id') : id = id' := by
  have hg := (t.record_isSome.mp h).2
  have hg' := (t.record_isSome.mp h').2
  rw [← packHandle_handleIndex id, ← packHandle_handleIndex id', he, ← hg, ← hg', he]

theorem idAt_handleIndex {id : ℕ} (h : (t.record id).isSome) : t.idAt (handleIndex id) = id := by
  obtain ⟨hocc, hgen⟩ := t.record_isSome.mp h
  rw [idAt, if_pos hocc, hgen, packHandle_handleIndex]

/-- A slot's occupant is live, and is the handle of that slot. -/
theorem record_idAt {i : ℕ} (h : (t.recordAt i).isSome) :
    (t.record (t.idAt i)).isSome ∧ handleIndex (t.idAt i) = i := by
  have hi := t.lt_indexRange h
  have hidx : handleIndex (t.idAt i) = i := by rw [idAt, if_pos h, handleIndex_packHandle hi]
  refine ⟨?_, hidx⟩
  rw [t.record_isSome, hidx, idAt, if_pos h, handleGeneration_packHandle hi]
  exact ⟨h, rfl⟩

theorem idAt_eq_zero {i : ℕ} : t.idAt i = 0 ↔ t.recordAt i = none := by
  unfold idAt
  split_ifs with h
  · have := packHandle_pos (i := i) (t.occupied_generation i h).1
    constructor
    · intro h0; omega
    · intro h0; rw [h0] at h; cases h
  · simpa using h

theorem record_zero : t.record 0 = none := by
  unfold record indexOf
  simp

theorem ne_zero_of_record {id : ℕ} (h : (t.record id).isSome) : id ≠ 0 := by
  rintro rfl
  rw [t.record_zero] at h
  cases h

theorem mem_liveIds {id : ℕ} : id ∈ t.liveIds ↔ (t.record id).isSome := by
  simp only [liveIds, List.mem_map, List.mem_filter, List.mem_range]
  constructor
  · rintro ⟨i, ⟨_, hi⟩, rfl⟩
    exact (t.record_idAt hi).1
  · intro h
    have hocc := (t.record_isSome.mp h).1
    exact ⟨handleIndex id, ⟨t.lt_slotCount hocc, hocc⟩, t.idAt_handleIndex h⟩

theorem nodup_liveIds : t.liveIds.Nodup := by
  refine List.Nodup.map_on ?_ (List.nodup_range.filter _)
  intro i hi j hj h
  rw [List.mem_filter] at hi hj
  rw [← (t.record_idAt hi.2).2, h, (t.record_idAt hj.2).2]

theorem length_liveIds : t.liveIds.length = t.liveCount := by
  rw [liveIds, List.length_map, t.liveCount_eq]

/-- A handle in use is a safe integer. -/
theorem le_maxSafeInteger_of_record {id : ℕ} (h : (t.record id).isSome) : id ≤ maxSafeInteger := by
  by_contra hlt
  have hnone : t.indexOf id = none := by
    unfold indexOf
    rw [if_pos (Or.inr (not_le.mp hlt))]
  unfold record at h
  rw [hnone] at h
  cases h

/-- The null handle is never handed out. -/
theorem ne_zero_of_issued {id : ℕ} (h : t.Issued id) : id ≠ 0 := by
  rintro rfl
  have hgen : 1 ≤ handleGeneration 0 := h.2.1
  simp [handleGeneration] at hgen

theorem issued_of_record {id : ℕ} (h : (t.record id).isSome) : t.Issued id := by
  have h' := t.record_isSome.mp h
  exact ⟨t.lt_slotCount h'.1, h'.2 ▸ (t.occupied_generation _ h'.1).1, Or.inr (Or.inr h')⟩

/-! ### What `create` does -/

section create
variable {t} {r : R} {id : ℕ} {t' : SlotTable R}

/-- The two shapes of a successful `create`. -/
theorem create_cases (h : t.create r = some (id, t')) :
    handleIndex id < indexRange ∧ t.recordAt (handleIndex id) = none ∧
      t'.recordAt = Function.update t.recordAt (handleIndex id) (some r) ∧
      t'.liveCount = t.liveCount + 1 ∧
      (∀ i, t'.generationAt i = if i = handleIndex id then handleGeneration id else t.generationAt i) ∧
      ((t'.slotCount = t.slotCount ∧ handleIndex id < t.slotCount ∧
          t.generationAt (handleIndex id) = handleGeneration id) ∨
        (t'.slotCount = t.slotCount + 1 ∧ handleIndex id = t.slotCount)) ∧
      1 ≤ handleGeneration id := by
  unfold create at h
  split at h
  · rename_i i rest hfree
    obtain ⟨hlt, hnone, hg1, -⟩ := t.freeList_spec i (by rw [hfree]; exact List.mem_cons_self)
    have hi : i < indexRange := lt_of_lt_of_le hlt t.slotCount_le
    obtain ⟨rfl, rfl⟩ := Prod.mk.inj (Option.some.inj h)
    rw [handleIndex_packHandle hi, handleGeneration_packHandle hi]
    refine ⟨hi, hnone, rfl, rfl, ?_, Or.inl ⟨rfl, hlt, rfl⟩, hg1⟩
    intro j
    split_ifs with hj
    · rw [hj]
    · rfl
  · split_ifs at h with hfull
    have hi : t.slotCount < indexRange := by
      unfold maxIndex at hfull
      have : 0 < indexRange := by decide
      omega
    obtain ⟨rfl, rfl⟩ := Prod.mk.inj (Option.some.inj h)
    rw [handleIndex_packHandle hi, handleGeneration_packHandle hi]
    refine ⟨hi, t.recordAt_ge _ (le_refl _), rfl, rfl, ?_, Or.inr ⟨rfl, rfl⟩, by decide⟩
    intro j
    simp only [Function.update_apply]

theorem record_create_self (h : t.create r = some (id, t')) : t'.record id = some r := by
  obtain ⟨-, -, hrec, -, hgen, -, -⟩ := create_cases h
  rw [t'.record_eq_some, hrec, hgen]
  simp

theorem record_of_create (h : t.create r = some (id, t')) : t.record id = none := by
  obtain ⟨-, hnone, -⟩ := create_cases h
  by_contra hne
  have hs := t.record_isSome.mp (Option.ne_none_iff_isSome.mp hne)
  rw [hnone] at hs
  cases hs.1

theorem record_create_of_ne (h : t.create r = some (id, t')) {id' : ℕ} (hne : id' ≠ id) :
    t'.record id' = t.record id' := by
  obtain ⟨-, hnone, hrec, -, hgen, -, -⟩ := create_cases h
  apply Option.ext
  intro r'
  rw [t'.record_eq_some, t.record_eq_some, hrec, hgen]
  by_cases hi : handleIndex id' = handleIndex id
  · rw [hi, Function.update_self, if_pos rfl, hnone]
    have hg : handleGeneration id ≠ handleGeneration id' := by
      intro hg
      apply hne
      rw [← packHandle_handleIndex id', ← packHandle_handleIndex id, hi, hg]
    simp [hg]
  · rw [Function.update_of_ne hi, if_neg hi]

theorem record_create (h : t.create r = some (id, t')) (id' : ℕ) :
    t'.record id' = if id' = id then some r else t.record id' := by
  split_ifs with he
  · rw [he, record_create_self h]
  · exact record_create_of_ne h he

theorem liveCount_create (h : t.create r = some (id, t')) : t'.liveCount = t.liveCount + 1 :=
  (create_cases h).2.2.2.1

/-- A fresh handle has never been handed out. -/
theorem not_issued_of_create (h : t.create r = some (id, t')) : ¬ t.Issued id := by
  obtain ⟨-, hnone, -, -, -, hslot, hpos⟩ := create_cases h
  rintro ⟨hlt, -, hgen⟩
  rcases hslot with ⟨-, -, hg⟩ | ⟨-, hg⟩
  · rw [hg, hnone] at hgen
    unfold retiredGeneration at hgen
    rcases hgen with h | h | ⟨h, -⟩
    · omega
    · omega
    · cases h
  · omega

/-- `create` hands out the one new handle. -/
theorem issued_create (h : t.create r = some (id, t')) (id' : ℕ) :
    t'.Issued id' ↔ t.Issued id' ∨ id' = id := by
  obtain ⟨-, hnone, hrec, -, hgen, hslot, hpos⟩ := create_cases h
  by_cases he : id' = id
  · subst he
    simp only [or_true, iff_true]
    exact t'.issued_of_record (by rw [record_create_self h]; rfl)
  simp only [he, or_false]
  unfold Issued
  rw [hrec, hgen]
  by_cases hi : handleIndex id' = handleIndex id
  · have hne : handleGeneration id ≠ handleGeneration id' := by
      intro hg'
      apply he
      rw [← packHandle_handleIndex id', ← packHandle_handleIndex id, hi, hg']
    rw [hi, if_pos rfl, hnone]
    unfold retiredGeneration
    rcases hslot with ⟨hs, hlt, hg⟩ | ⟨hs, hi'⟩
    · rw [hs, hg]
      simp [hne]
    · -- A slot opened now has handed out its first generation alone.
      have hfirst : handleGeneration id = firstGeneration := by
        unfold create at h
        split at h
        · rename_i i rest hfree
          have hlt := (t.freeList_spec i (by rw [hfree]; exact List.mem_cons_self)).1
          obtain ⟨rfl, -⟩ := Prod.mk.inj (Option.some.inj h)
          rw [handleIndex_packHandle (lt_of_lt_of_le hlt t.slotCount_le)] at hi'
          omega
        · split_ifs at h with hfull
          obtain ⟨rfl, -⟩ := Prod.mk.inj (Option.some.inj h)
          refine handleGeneration_packHandle ?_
          unfold maxIndex at hfull
          have : 0 < indexRange := by decide
          omega
      unfold firstGeneration at hfirst
      constructor
      · rintro ⟨-, hpos', hlt | h0 | ⟨-, hg⟩⟩
        · omega
        · omega
        · exact absurd hg hne
      · rintro ⟨hlt, -⟩
        omega
  · rw [if_neg hi, Function.update_of_ne hi]
    rcases hslot with ⟨hs, -, -⟩ | ⟨hs, hi'⟩
    · rw [hs]
    · rw [hs]
      have : handleIndex id' < t.slotCount + 1 ↔ handleIndex id' < t.slotCount := by omega
      rw [this]

end create

/-! ### What `modify` does -/

section modify
variable {t} {id : ℕ} {f : R → R}

theorem modify_cases (t : SlotTable R) (id : ℕ) (f : R → R) :
    (t.record id = none ∧ t.modify id f = t) ∨
      ∃ r, t.record id = some r ∧ (t.modify id f).slotCount = t.slotCount ∧
        (t.modify id f).generationAt = t.generationAt ∧ (t.modify id f).liveCount = t.liveCount ∧
        (t.modify id f).recordAt = Function.update t.recordAt (handleIndex id) (some (f r)) := by
  unfold modify
  split
  · rename_i h
    exact Or.inl ⟨by rw [record, h]; rfl, rfl⟩
  · rename_i i h
    obtain ⟨rfl, hocc, hgen⟩ := t.indexOf_eq_some.mp h
    obtain ⟨r, hr⟩ := Option.isSome_iff_exists.mp hocc
    refine Or.inr ⟨r, t.record_eq_some.mpr ⟨hr, hgen⟩, rfl, rfl, rfl, ?_⟩
    simp only [hr, Option.map_some]

/-- `modify` rewrites the one record. -/
theorem record_modify (id' : ℕ) :
    (t.modify id f).record id' = if id' = id then (t.record id).map f else t.record id' := by
  rcases t.modify_cases id f with ⟨hnone, heq⟩ | ⟨r, hr, hs, hg, hl, hrec⟩
  · rw [heq]
    split_ifs with he
    · rw [he, hnone]; rfl
    · rfl
  · apply Option.ext
    intro r'
    rw [(t.modify id f).record_eq_some, hg, hrec]
    obtain ⟨hrr, hgen⟩ := t.record_eq_some.mp hr
    split_ifs with he
    · rw [he, Function.update_self, hr, Option.map_some]
      simp [hgen]
    · rw [t.record_eq_some]
      by_cases hi : handleIndex id' = handleIndex id
      · have hne : ¬ t.generationAt (handleIndex id) = handleGeneration id' := by
          intro hg'
          apply he
          rw [← packHandle_handleIndex id', ← packHandle_handleIndex id, hi, ← hg', hgen]
        rw [hi]
        simp [hne]
      · rw [Function.update_of_ne hi]

theorem liveCount_modify : (t.modify id f).liveCount = t.liveCount := by
  rcases t.modify_cases id f with ⟨-, heq⟩ | ⟨r, -, -, -, hl, -⟩
  · rw [heq]
  · exact hl

theorem recordAt_isSome_modify (i : ℕ) :
    ((t.modify id f).recordAt i).isSome = (t.recordAt i).isSome := by
  rcases t.modify_cases id f with ⟨-, heq⟩ | ⟨r, hr, -, -, -, hrec⟩
  · rw [heq]
  · rw [hrec]
    by_cases hi : i = handleIndex id
    · rw [hi, Function.update_self, (t.record_eq_some.mp hr).1]
      rfl
    · rw [Function.update_of_ne hi]

theorem generationAt_modify : (t.modify id f).generationAt = t.generationAt := by
  rcases t.modify_cases id f with ⟨-, heq⟩ | ⟨r, -, -, hg, -, -⟩
  · rw [heq]
  · exact hg

theorem slotCount_modify : (t.modify id f).slotCount = t.slotCount := by
  rcases t.modify_cases id f with ⟨-, heq⟩ | ⟨r, -, hs, -, -, -⟩
  · rw [heq]
  · exact hs

theorem issued_modify (id' : ℕ) : (t.modify id f).Issued id' ↔ t.Issued id' := by
  unfold Issued
  rw [slotCount_modify, generationAt_modify, recordAt_isSome_modify]

end modify

/-! ### What `release` does -/

section release
variable {t} {id : ℕ}

theorem release_of_none (h : t.record id = none) : t.release id = t := by
  have : t.indexOf id = none := by
    by_contra hne
    have := t.indexOf_isSome.mp (Option.ne_none_iff_isSome.mp hne)
    rw [h] at this
    cases this
  rw [release, this]

theorem release_cases (h : (t.record id).isSome) :
    (t.release id).slotCount = t.slotCount ∧ (t.release id).liveCount + 1 = t.liveCount ∧
      (t.release id).recordAt = Function.update t.recordAt (handleIndex id) none ∧
      ((t.release id).generationAt = Function.update t.generationAt (handleIndex id) retiredGeneration ∨
        (t.release id).generationAt =
          Function.update t.generationAt (handleIndex id) (handleGeneration id + 1)) := by
  obtain ⟨hocc, hgen⟩ := t.record_isSome.mp h
  have hidx : t.indexOf id = some (handleIndex id) := t.indexOf_eq_some.mpr ⟨rfl, hocc, hgen⟩
  have hpos : 1 ≤ t.liveCount := by
    have := count_free (t.lt_slotCount hocc) hocc
    rw [t.liveCount_eq]
    omega
  simp only [release, hidx]
  unfold releaseAt
  rw [dif_pos hocc]
  simp only
  split_ifs
  · exact ⟨rfl, by show t.liveCount - 1 + 1 = _; omega, rfl, Or.inl rfl⟩
  · refine ⟨rfl, by show t.liveCount - 1 + 1 = _; omega, rfl, Or.inr ?_⟩
    simp only [nextGeneration, hgen]

/-- `release` forgets the one record. -/
theorem record_release (id' : ℕ) :
    (t.release id).record id' = if id' = id then none else t.record id' := by
  cases hrec : t.record id with
  | none =>
    rw [release_of_none hrec]
    split_ifs with he
    · rw [he, hrec]
    · rfl
  | some r =>
    have hsome : (t.record id).isSome := by rw [hrec]; rfl
    obtain ⟨-, -, hr, hg⟩ := release_cases hsome
    apply Option.ext
    intro r'
    rw [(t.release id).record_eq_some, hr]
    by_cases hi : handleIndex id' = handleIndex id
    · rw [hi, Function.update_self]
      split_ifs with he
      · simp
      · -- The slot's other handles were stale already.
        have : t.record id' = none := by
          by_contra hne
          exact he (t.eq_of_handleIndex_eq (Option.ne_none_iff_isSome.mp hne) hsome hi)
        simp [this]
    · have he : id' ≠ id := fun e => hi (by rw [e])
      rw [if_neg he, Function.update_of_ne hi, t.record_eq_some]
      rcases hg with hg | hg <;> rw [hg, Function.update_of_ne hi]

theorem liveCount_release (h : (t.record id).isSome) : (t.release id).liveCount + 1 = t.liveCount :=
  (release_cases h).2.1

theorem issued_release (id' : ℕ) (h : t.Issued id') : (t.release id).Issued id' := by
  cases hrec : t.record id with
  | none =>
    rw [release_of_none hrec]
    exact h
  | some r =>
    have hsome : (t.record id).isSome := by rw [hrec]; rfl
    obtain ⟨hs, -, hr, hg⟩ := release_cases hsome
    obtain ⟨hocc, hgen⟩ := t.record_isSome.mp hsome
    obtain ⟨hlt, hpos, hcase⟩ := h
    refine ⟨by rw [hs]; exact hlt, hpos, ?_⟩
    by_cases hi : handleIndex id' = handleIndex id
    · rcases hg with hg | hg
      · rw [hg, hi, Function.update_self]
        exact Or.inr (Or.inl rfl)
      · rw [hg, hi, Function.update_self]
        rw [hi, hgen] at hcase
        unfold retiredGeneration at hcase
        have := (t.occupied_generation _ hocc).1
        refine Or.inl ?_
        rcases hcase with h | h | ⟨-, h⟩ <;> omega
    · rw [hr, Function.update_of_ne hi]
      rcases hg with hg | hg <;> rw [hg, Function.update_of_ne hi] <;> exact hcase

end release

end SlotTable

end Grove
