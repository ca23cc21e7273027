import Grove.Core.Stores
import Grove.Lib.Run

/-! # Scoped captures of tags and transforms

`capture` and `apply` of `packages/core/src/world/tag-index.ts` and `world/transform-store.ts`, with the capacity of
the typed arrays.  A tag is kept in both directions of the index and a transform in lanes that several captures share,
so a scoped `apply` has to mend both directions for the captured slots and touch no other (`rewinds_scope`). -/

namespace Grove

/-! ### Tags -/

/-- `slots` are those the buffer covers, or none where it covers the index. -/
structure TagBuffer where
  byTag : OrderedMap String (List EntityId)
  byEntity : OrderedMap ℕ (List String)
  slots : Option (List ℕ)

namespace TagIndex

variable (x : TagIndex)

def has (id : EntityId) (tag : String) : Bool := decide (id ∈ (x.byTag.get tag).getD [])

/-- One entity of the scope: its tags, in both directions. -/
def captureEntity (into : TagBuffer) (id : EntityId) : TagBuffer :=
  match x.byEntity.get (handleIndex id) with
  | none => into
  | some tags =>
    { into with
      byEntity := into.byEntity.set (handleIndex id) tags
      byTag := tags.foldl (fun m tag => m.set tag (addNew ((m.get tag).getD []) id)) into.byTag }

/-- Refills the buffer; the slots are those of every id in scope, tagged or not. -/
def capture (into : TagBuffer) (scope : Option (List EntityId)) : TagBuffer :=
  let into := { into with byTag := OrderedMap.empty, byEntity := OrderedMap.empty }
  match scope with
  | none => { into with byTag := x.byTag, byEntity := x.byEntity, slots := none }
  | some scope => { scope.foldl x.captureEntity into with slots := some (scope.map handleIndex) }

/-- Removes from the set under `tag` every id of one slot; an emptied set goes. -/
def dropSlot (index : ℕ) (m : OrderedMap String (List EntityId)) (tag : String) : OrderedMap String (List EntityId) :=
  match m.get tag with
  | none => m
  | some ids =>
    if (ids.filter (fun id => handleIndex id ≠ index)).isEmpty then m.delete tag
    else m.set tag (ids.filter (fun id => handleIndex id ≠ index))

/-- Drops one slot from both directions. -/
def clearSlot (x : TagIndex) (index : ℕ) : TagIndex :=
  match x.byEntity.get index with
  | none => x
  | some tags => ⟨tags.foldl (dropSlot index) x.byTag, x.byEntity.delete index⟩

/-- The ids of one captured tag, into the index's own. -/
def mergeTag (m : OrderedMap String (List EntityId)) (e : String × List EntityId) : OrderedMap String (List EntityId) :=
  match m.get e.1 with
  | some existing => m.set e.1 (e.2.foldl addNew existing)
  | none => m.set e.1 e.2

def apply (buffer : TagBuffer) : TagIndex :=
  let cleared := match buffer.slots with
    | none => empty
    | some slots => slots.foldl clearSlot x
  ⟨buffer.byTag.entries.foldl mergeTag cleared.byTag, cleared.byEntity.setAll buffer.byEntity.entries⟩

section index
variable {x : TagIndex} {id id' : EntityId} {t : String} {i : ℕ}

theorem has_iff : x.has id t = true ↔ id ∈ (x.byTag.get t).getD [] := decide_eq_true_iff

theorem has_add {tag : String} : (x.add id tag).has id' t = true ↔ x.has id' t = true ∨ (id' = id ∧ t = tag) := by
  rw [has_iff, has_iff]
  simp only [add, OrderedMap.get_set]
  split_ifs with h
  · subst h
    simp
  · simp [h]

theorem has_remove {tag : String} : (x.remove id tag).has id' t = true ↔ x.has id' t = true ∧ ¬ (t = tag ∧ id' = id) := by
  rw [has_iff, has_iff]
  exact mem_getD_dropFrom

/-- Taking ids out of the sets of several tags, one tag after the other. -/
theorem mem_foldl_drop {drop : OrderedMap String (List EntityId) → String → OrderedMap String (List EntityId)}
    {gone : EntityId → Prop} (hdrop : ∀ m tag t id,
      id ∈ ((drop m tag).get t).getD [] ↔ id ∈ (m.get t).getD [] ∧ ¬ (t = tag ∧ gone id)) :
    ∀ (tags : List String) (m : OrderedMap String (List EntityId)),
      id ∈ ((tags.foldl drop m).get t).getD [] ↔ id ∈ (m.get t).getD [] ∧ ¬ (t ∈ tags ∧ gone id)
  | [], _ => by simp
  | tag :: tags, m => by
    rw [List.foldl_cons, mem_foldl_drop hdrop tags, hdrop, List.mem_cons]
    tauto

theorem has_removeAll : (x.removeAll id).has id' t = true ↔ x.has id' t = true ∧ ¬ (id' = id ∧ t ∈ x.tagsOf id) := by
  rw [has_iff, has_iff]
  cases htags : x.byEntity.get (handleIndex id) with
  | none => simp [removeAll, tagsOf, tagsAt, htags]
  | some tags =>
    rw [removeAll, htags, tagsOf, tagsAt, htags, and_comm (a := id' = id)]
    exact mem_foldl_drop (fun _ _ _ _ => mem_getD_dropFrom) tags x.byTag

theorem mem_dropSlot {index : ℕ} {m : OrderedMap String (List EntityId)} {tag : String} :
    id ∈ ((dropSlot index m tag).get t).getD [] ↔ id ∈ (m.get t).getD [] ∧ ¬ (t = tag ∧ handleIndex id = index) := by
  unfold dropSlot
  cases hm : m.get tag with
  | none =>
    refine (and_iff_left_of_imp fun hid => ?_).symm
    rintro ⟨rfl, -⟩
    rw [hm] at hid
    exact absurd hid List.not_mem_nil
  | some ids =>
    by_cases ht : t = tag
    · subst ht
      have hkept : id ∈ ids.filter (fun id => handleIndex id ≠ index) ↔ id ∈ ids ∧ ¬ handleIndex id = index := by
        rw [List.mem_filter, decide_eq_true_eq]
      simp only [true_and]
      rw [hm, Option.getD_some, ← hkept]
      split_ifs with hempty
      · rw [OrderedMap.get_delete_self, List.isEmpty_iff.mp hempty]
        rfl
      · rw [OrderedMap.get_set_self, Option.getD_some]
    · simp only [ht, false_and, not_false_eq_true, and_true]
      split_ifs
      · rw [OrderedMap.get_delete_of_ne _ ht]
      · rw [OrderedMap.get_set_of_ne _ ht]

theorem byEntity_clearSlot (index : ℕ) :
    (x.clearSlot index).byEntity.get i = if i = index then none else x.byEntity.get i := by
  unfold clearSlot
  cases h : x.byEntity.get index with
  | none =>
    split_ifs with hi
    · rw [hi, h]
    · rfl
  | some tags => exact OrderedMap.get_delete _ _ _

theorem tagsAt_clearSlot (index : ℕ) : (x.clearSlot index).tagsAt i = if i = index then [] else x.tagsAt i := by
  rw [tagsAt, byEntity_clearSlot]
  split_ifs <;> rfl

theorem has_clearSlot (index : ℕ) : (x.clearSlot index).has id t = true ↔
    x.has id t = true ∧ ¬ (handleIndex id = index ∧ t ∈ x.tagsAt index) := by
  rw [has_iff, has_iff]
  cases htags : x.byEntity.get index with
  | none => simp [clearSlot, tagsAt, htags]
  | some tags =>
    rw [clearSlot, htags, tagsAt, htags, and_comm (a := handleIndex id = index)]
    exact mem_foldl_drop (fun _ _ _ _ => mem_dropSlot) tags x.byTag

theorem byEntity_clearSlots : ∀ (slots : List ℕ) {x : TagIndex},
    (slots.foldl clearSlot x).byEntity.get i = if i ∈ slots then none else x.byEntity.get i
  | [], _ => by simp
  | index :: slots, x => by
    rw [List.foldl_cons, byEntity_clearSlots slots, byEntity_clearSlot]
    simp only [List.mem_cons]
    split_ifs <;> tauto

theorem has_clearSlots : ∀ (slots : List ℕ) {x : TagIndex}, (slots.foldl clearSlot x).has id t = true ↔
    x.has id t = true ∧ ¬ (handleIndex id ∈ slots ∧ t ∈ x.tagsAt (handleIndex id))
  | [], _ => by simp
  | index :: slots, x => by
    rw [List.foldl_cons, has_clearSlots slots, has_clearSlot, List.mem_cons, tagsAt_clearSlot]
    by_cases hindex : handleIndex id = index
    · subst hindex
      simp only [true_and, if_true, List.not_mem_nil, and_false, not_false_eq_true, and_true, true_or]
    · simp only [hindex, false_and, not_false_eq_true, and_true, if_false, false_or]

theorem mem_mergeTags : ∀ (l : List (String × List EntityId)) {m : OrderedMap String (List EntityId)},
    id ∈ ((l.foldl mergeTag m).get t).getD [] ↔ id ∈ (m.get t).getD [] ∨ ∃ ids, (t, ids) ∈ l ∧ id ∈ ids
  | [], _ => by simp
  | e :: l, m => by
    have hadd : ∀ (ids existing : List EntityId), id ∈ ids.foldl addNew existing ↔ id ∈ existing ∨ id ∈ ids := by
      intro ids
      induction ids with
      | nil => simp
      | cons a ids ih =>
        intro existing
        rw [List.foldl_cons, ih, mem_addNew, List.mem_cons, or_assoc]
    have hone : id ∈ ((mergeTag m e).get t).getD [] ↔ id ∈ (m.get t).getD [] ∨ (t = e.1 ∧ id ∈ e.2) := by
      unfold mergeTag
      cases hm : m.get e.1 with
      | none =>
        simp only [OrderedMap.get_set]
        split_ifs with ht
        · rw [ht, hm]
          simp
        · simp [ht]
      | some existing =>
        simp only [OrderedMap.get_set]
        split_ifs with ht
        · rw [ht, hm, Option.getD_some, Option.getD_some, hadd]
          simp
        · simp [ht]
    rw [List.foldl_cons, mem_mergeTags l, hone, or_assoc]
    refine or_congr_right ?_
    simp only [List.mem_cons, Prod.ext_iff]
    constructor
    · rintro (⟨rfl, hid⟩ | ⟨ids, hids, hid⟩)
      · exact ⟨e.2, .inl ⟨rfl, rfl⟩, hid⟩
      · exact ⟨ids, .inr hids, hid⟩
    · rintro ⟨ids, ⟨rfl, rfl⟩ | hids, hid⟩
      · exact .inl ⟨rfl, hid⟩
      · exact .inr ⟨ids, hids, hid⟩

/-- What a scoped capture holds of a slot. -/
theorem byEntity_captured : ∀ (scope : List EntityId) (into : TagBuffer),
    (scope.foldl x.captureEntity into).byEntity.get i =
      if i ∈ scope.map handleIndex then (x.byEntity.get i).or (into.byEntity.get i) else into.byEntity.get i
  | [], _ => by simp
  | id :: scope, into => by
    have hone : (x.captureEntity into id).byEntity.get i =
        if i = handleIndex id then (x.byEntity.get i).or (into.byEntity.get i) else into.byEntity.get i := by
      unfold captureEntity
      cases h : x.byEntity.get (handleIndex id) with
      | none =>
        split_ifs with hi
        · rw [hi, h, Option.none_or]
        · rfl
      | some tags =>
        simp only [OrderedMap.get_set]
        split_ifs with hi
        · rw [hi, h, Option.some_or]
        · rfl
    rw [List.foldl_cons, byEntity_captured scope, hone]
    simp only [List.map_cons, List.mem_cons]
    by_cases hi : i = handleIndex id
    · simp only [hi, if_true, true_or]
      split_ifs
      · cases x.byEntity.get (handleIndex id) <;> rfl
      · rfl
    · simp only [hi, if_false, false_or]

/-- What a scoped capture holds of a tag. -/
theorem byTag_captured : ∀ (scope : List EntityId) (into : TagBuffer),
    id ∈ ((scope.foldl x.captureEntity into).byTag.get t).getD [] ↔
      id ∈ (into.byTag.get t).getD [] ∨ (id ∈ scope ∧ t ∈ x.tagsOf id)
  | [], _ => by simp
  | id₀ :: scope, into => by
    have hone : id ∈ ((x.captureEntity into id₀).byTag.get t).getD [] ↔
        id ∈ (into.byTag.get t).getD [] ∨ (id = id₀ ∧ t ∈ x.tagsOf id₀) := by
      unfold captureEntity
      cases h : x.byEntity.get (handleIndex id₀) with
      | none => simp [tagsOf, tagsAt, h]
      | some tags =>
        have hfold : ∀ (tags : List String) (m : OrderedMap String (List EntityId)),
            id ∈ ((tags.foldl (fun m tag => m.set tag (addNew ((m.get tag).getD []) id₀)) m).get t).getD [] ↔
              id ∈ (m.get t).getD [] ∨ (id = id₀ ∧ t ∈ tags) := by
          intro tags
          induction tags with
          | nil => simp
          | cons tag tags ih =>
            intro m
            rw [List.foldl_cons, ih, OrderedMap.get_set, List.mem_cons]
            split_ifs with ht
            · subst ht
              simp only [Option.getD_some, mem_addNew, true_or, and_true]
              tauto
            · simp only [ht, false_or]
        rw [tagsOf, tagsAt, h]
        exact hfold tags into.byTag
    rw [List.foldl_cons, byTag_captured scope, hone, List.mem_cons, or_assoc]
    refine or_congr_right ?_
    constructor
    · rintro (⟨rfl, ht⟩ | ⟨hid, ht⟩)
      · exact ⟨.inl rfl, ht⟩
      · exact ⟨.inr hid, ht⟩
    · rintro ⟨rfl | hid, ht⟩
      · exact .inl ⟨rfl, ht⟩
      · exact .inr ⟨hid, ht⟩

end index

section rewind
variable {x now : TagIndex} {into : TagBuffer} {scope : List EntityId} {id : EntityId} {t : String} {i : ℕ}

theorem tagsAt_rewound : (now.apply (x.capture into (some scope))).tagsAt i =
    if i ∈ scope.map handleIndex then x.tagsAt i else now.tagsAt i := by
  have hset : ∀ (m : OrderedMap ℕ (List String)) (l : OrderedMap ℕ (List String)),
      (m.setAll l.entries).get i = (l.get i).or (m.get i) := by
    intro m l
    cases hget : l.get i with
    | none =>
      exact OrderedMap.get_setAll_of_notMem m fun v hv => by
        rw [l.mem_entries_iff, hget] at hv
        cases hv
    | some v =>
      exact OrderedMap.get_setAll_of_mem m (l.mem_entries_iff.mpr hget) fun v' hv' => by
        rw [l.mem_entries_iff, hget] at hv'
        exact (Option.some_inj.mp hv').symm
  show ((((scope.map handleIndex).foldl clearSlot now).byEntity.setAll
    (scope.foldl x.captureEntity { into with byTag := OrderedMap.empty, byEntity := OrderedMap.empty }).byEntity.entries).get
      i).getD [] = _
  rw [hset, byEntity_captured, byEntity_clearSlots]
  split_ifs
  · rw [OrderedMap.get_empty, Option.or_none, Option.or_none]
    rfl
  · rw [OrderedMap.get_empty, Option.none_or]
    rfl

theorem has_rewound : (now.apply (x.capture into (some scope))).has id t = true ↔
    (now.has id t = true ∧ ¬ (handleIndex id ∈ scope.map handleIndex ∧ t ∈ now.tagsAt (handleIndex id))) ∨
      (id ∈ scope ∧ t ∈ x.tagsOf id) := by
  have hcaptured : id ∈ ((scope.foldl x.captureEntity
      { into with byTag := OrderedMap.empty, byEntity := OrderedMap.empty }).byTag.get t).getD [] ↔
      id ∈ scope ∧ t ∈ x.tagsOf id := by
    rw [byTag_captured, OrderedMap.get_empty, Option.getD_none]
    simp only [List.not_mem_nil, false_or]
  generalize hbuffer : scope.foldl x.captureEntity
    { into with byTag := OrderedMap.empty, byEntity := OrderedMap.empty } = buffer at hcaptured
  have happly : (now.apply (x.capture into (some scope))).byTag =
      buffer.byTag.entries.foldl mergeTag ((scope.map handleIndex).foldl clearSlot now).byTag := by
    rw [← hbuffer]
    rfl
  rw [has_iff, happly, mem_mergeTags, ← has_iff, has_clearSlots, ← hcaptured]
  refine or_congr_right ⟨?_, fun hid => ?_⟩
  · rintro ⟨ids, hids, hid⟩
    rw [buffer.byTag.mem_entries_iff] at hids
    rwa [hids]
  · cases hget : buffer.byTag.get t with
    | none =>
      rw [hget] at hid
      exact absurd hid List.not_mem_nil
    | some ids =>
      rw [hget] at hid
      exact ⟨ids, buffer.byTag.mem_entries_iff.mpr hget, hid⟩

end rewind

end TagIndex

/-! ### Transforms -/

/-- The doubling of `packages/math`. -/
def grownFrom : ℕ → ℕ → ℕ → ℕ
  | 0, capacity, _ => capacity
  | fuel + 1, capacity, needed => if capacity < needed then grownFrom fuel (capacity * 2) needed else capacity

def grownCapacity (current needed : ℕ) : ℕ := grownFrom needed (if 0 < current then current else 1) needed

theorem le_grownFrom : ∀ (fuel : ℕ) {capacity needed : ℕ}, 0 < capacity → needed ≤ capacity + fuel →
    needed ≤ grownFrom fuel capacity needed ∧ capacity ≤ grownFrom fuel capacity needed
  | 0, _, _, _, hfuel => ⟨hfuel, le_rfl⟩
  | fuel + 1, capacity, needed, hpos, hfuel => by
    unfold grownFrom
    split_ifs with hlt
    · obtain ⟨hneeded, hcapacity⟩ := le_grownFrom fuel (show 0 < capacity * 2 by omega)
        (show needed ≤ capacity * 2 + fuel by omega)
      exact ⟨hneeded, by omega⟩
    · exact ⟨not_lt.mp hlt, le_rfl⟩

theorem le_grownCapacity (current needed : ℕ) :
    needed ≤ grownCapacity current needed ∧ current ≤ grownCapacity current needed := by
  unfold grownCapacity
  split_ifs with hpos
  · exact le_grownFrom needed hpos (Nat.le_add_left _ _)
  · obtain ⟨hneeded, -⟩ := le_grownFrom needed Nat.one_pos (Nat.le_add_left needed 1)
    exact ⟨hneeded, by omega⟩

/-- The lanes, as long as `capacity`; what is read past their end is the identity transform. -/
structure TransformLanes extends SimTransformStore where
  capacity : ℕ
  room : count ≤ capacity
  blank : ∀ i, capacity ≤ i → cells i = TransformCells.identity

structure TransformBuffer where
  capacity : ℕ
  cells : ℕ → TransformCells
  count : ℕ
  slots : Option (List ℕ)

namespace TransformLanes

def initialCapacity : ℕ := 64

def empty : TransformLanes := { SimTransformStore.empty with
  capacity := initialCapacity
  room := Nat.zero_le _
  blank := fun _ _ => rfl }

variable (s : TransformLanes)

/-- Longer lanes, with the identity in the new tail. -/
def ensure (needed : ℕ) : TransformLanes := { s with
  capacity := if needed ≤ s.capacity then s.capacity else grownCapacity s.capacity needed
  room := by
    split_ifs
    · exact s.room
    · exact s.room.trans (le_grownCapacity _ _).2
  blank := fun i hi => s.blank i (by
    split_ifs at hi
    · exact hi
    · exact (le_grownCapacity _ _).2.trans hi) }

theorem le_capacity_ensure (needed : ℕ) : needed ≤ (s.ensure needed).capacity := by
  show needed ≤ if needed ≤ s.capacity then s.capacity else grownCapacity s.capacity needed
  split_ifs with h
  · exact h
  · exact (le_grownCapacity _ _).1

/-- A slot's cells; past the lanes' end a write is dropped. -/
def put (index : ℕ) (v : TransformCells) : TransformLanes := { s with
  cells := if index < s.capacity then Function.update s.cells index v else s.cells
  blank := fun i hi => by
    split_ifs with hindex
    · rw [Function.update_of_ne (by omega)]
      exact s.blank i hi
    · exact s.blank i hi }

def initSlot (id : EntityId) : TransformLanes :=
  let grown := s.ensure (handleIndex id + 1)
  { grown.put (handleIndex id) TransformCells.identity with
    count := max grown.count (handleIndex id + 1)
    room := max_le grown.room (s.le_capacity_ensure _) }

def releaseSlot (id : EntityId) : TransformLanes :=
  if s.count ≤ handleIndex id then s
  else
    { s.put (handleIndex id) TransformCells.identity with
      dirty := s.dirty.filter (· ≠ handleIndex id) }

def write (id : EntityId) (f : TransformCells → TransformCells) : TransformLanes :=
  { s.put (handleIndex id) (f (s.cells (handleIndex id))) with
    dirty := addNew s.dirty (handleIndex id) }

/-- The buffer is lengthened to the slots the store addresses, and keeps what it is not given. -/
def capture (into : TransformBuffer) (scope : Option (List EntityId)) : TransformBuffer :=
  let cap := s.count
  let into := { into with
    capacity := if into.capacity < cap then grownCapacity into.capacity cap else into.capacity
    count := cap }
  match scope with
  | none => { into with slots := none, cells := fun i => if i < cap then s.cells i else into.cells i }
  | some scope =>
    let slots := (scope.map handleIndex).filter (· < cap)
    { into with
      slots := some slots
      cells := slots.foldl (fun cells i => Function.update cells i (s.cells i)) into.cells }

def apply (buffer : TransformBuffer) : TransformLanes :=
  let grown := s.ensure buffer.count
  let counted := { grown with
    count := max grown.count buffer.count
    room := max_le grown.room (s.le_capacity_ensure _) }
  match buffer.slots with
  | none => { counted with
      cells := fun i => if i < buffer.count then buffer.cells i else s.cells i
      blank := fun i hi => by
        rw [if_neg (not_lt.mpr ((s.le_capacity_ensure _).trans hi))]
        exact grown.blank i hi }
  | some slots => slots.foldl (fun lanes i => lanes.put i (buffer.cells i)) counted

variable {s}

/-- Where the slot is within the lanes, the lanes do what the store without an end does. -/
theorem toStore_initSlot (id : EntityId) :
    (s.initSlot id).toSimTransformStore = s.toSimTransformStore.initSlot id := by
  have hroom : handleIndex id < (s.ensure (handleIndex id + 1)).capacity := s.le_capacity_ensure _
  show ({ cells := if handleIndex id < _ then _ else _, count := _, dirty := _ } : SimTransformStore) = _
  rw [if_pos hroom]
  rfl

theorem toStore_write {id : EntityId} (h : handleIndex id < s.count) (f : TransformCells → TransformCells) :
    (s.write id f).toSimTransformStore = s.toSimTransformStore.write id f := by
  show ({ cells := if handleIndex id < s.capacity then _ else _, count := _, dirty := _ } : SimTransformStore) = _
  rw [if_pos (h.trans_le s.room)]
  rfl

theorem toStore_releaseSlot (id : EntityId) :
    (s.releaseSlot id).toSimTransformStore = s.toSimTransformStore.releaseSlot id := by
  unfold releaseSlot SimTransformStore.releaseSlot
  split_ifs with hcount
  · rfl
  · show ({ cells := if handleIndex id < s.capacity then _ else _, count := _, dirty := _ } : SimTransformStore) = _
    rw [if_pos ((not_le.mp hcount).trans_le s.room)]
    rfl

theorem cells_puts (cells : ℕ → TransformCells) : ∀ (slots : List ℕ) {s : TransformLanes} {i : ℕ},
    (∀ j ∈ slots, j < s.capacity) →
    (slots.foldl (fun (lanes : TransformLanes) i => lanes.put i (cells i)) s).cells i =
      if i ∈ slots then cells i else s.cells i
  | [], _, _, _ => by simp
  | j :: slots, s, i, h => by
    have hput : (s.put j (cells j)).cells i = if i = j then cells j else s.cells i := by
      show (if j < s.capacity then Function.update s.cells j (cells j) else s.cells) i = _
      rw [if_pos (h j List.mem_cons_self), Function.update_apply]
    have hrest : ∀ k ∈ slots, k < (s.put j (cells j)).capacity := fun k hk => h k (List.mem_cons_of_mem _ hk)
    rw [List.foldl_cons, cells_puts cells slots hrest, hput]
    simp only [List.mem_cons]
    by_cases hi : i = j
    · subst hi
      simp
    · simp [hi]

theorem count_puts (cells : ℕ → TransformCells) : ∀ (slots : List ℕ) (s : TransformLanes),
    (slots.foldl (fun (lanes : TransformLanes) i => lanes.put i (cells i)) s).count = s.count
  | [], _ => rfl
  | _ :: slots, _ => count_puts cells slots _

theorem cells_captured (cells : ℕ → TransformCells) : ∀ (slots : List ℕ) {into : ℕ → TransformCells} {i : ℕ},
    (slots.foldl (fun into i => Function.update into i (cells i)) into) i = if i ∈ slots then cells i else into i
  | [], _, _ => by simp
  | j :: slots, into, i => by
    rw [List.foldl_cons, cells_captured cells slots, Function.update_apply]
    simp only [List.mem_cons]
    by_cases hi : i = j
    · subst hi
      simp
    · simp [hi]

/-- An applied scope gives the captured slots what they held, and every other slot what it holds. -/
theorem cells_rewound {now : TransformLanes} {into : TransformBuffer} {scope : List EntityId} {i : ℕ} :
    (now.apply (s.capture into (some scope))).cells i =
      if i ∈ (scope.map handleIndex).filter (· < s.count) then s.cells i else now.cells i := by
  show (((scope.map handleIndex).filter (· < s.count)).foldl (fun (lanes : TransformLanes) i => lanes.put i _) _).cells i = _
  rw [cells_puts]
  · split_ifs with hi
    · show ((scope.map handleIndex).filter (· < s.count)).foldl
        (fun (into : ℕ → TransformCells) i => Function.update into i (s.cells i)) into.cells i = _
      rw [cells_captured, if_pos hi]
    · rfl
  · intro j hj
    have hlt : j < s.count := by simpa using (List.mem_filter.mp hj).2
    exact hlt.trans_le (now.le_capacity_ensure _)

theorem count_rewound {now : TransformLanes} {into : TransformBuffer} {scope : List EntityId} :
    (now.apply (s.capture into (some scope))).count = max now.count s.count :=
  count_puts _ _ _

end TransformLanes

/-! ### Both stores over a run -/

/-- The two stores, and the entities that exist. -/
structure Stores where
  tags : TagIndex
  transforms : TransformLanes
  existing : List EntityId

inductive TransformWrite where
  | position (x y z : JsNumber)
  | rotation (degrees : JsNumber)
  | scale (factor : JsNumber)
  | opacity (value : JsNumber)
  | layer (value : JsNumber)

def TransformWrite.toCells (c : TransformCells) : TransformWrite → TransformCells
  | .position x y z => { c with posX := x, posY := y, posZ := z }
  | .rotation degrees => { c with rot := degrees }
  | .scale factor => { c with scale := factor }
  | .opacity value => { c with opacity := value }
  | .layer value => { c with layer := value.toInt32 }

inductive StoreEvent where
  | tag (id : EntityId) (name : String)
  | untag (id : EntityId) (name : String)
  | write (id : EntityId) (w : TransformWrite)
  | spawn (id : EntityId)
  /-- An entity's teardown: its tags go and its slot is reset. -/
  | release (id : EntityId)

namespace Stores

def empty : Stores := ⟨TagIndex.empty, TransformLanes.empty, []⟩

def step (s : Stores) : StoreEvent → Stores
  | .tag id name => { s with tags := s.tags.add id name }
  | .untag id name => { s with tags := s.tags.remove id name }
  | .write id w => { s with transforms := s.transforms.write id (w.toCells ·) }
  | .spawn id => { s with transforms := s.transforms.initSlot id, existing := id :: s.existing }
  | .release id =>
    { tags := s.tags.removeAll id
      transforms := s.transforms.releaseSlot id
      existing := s.existing.filter (· ≠ id) }

/-- Writes are on entities that exist, and a spawn takes a slot that is free. -/
def Legal (s : Stores) : StoreEvent → Prop
  | .tag id _ | .untag id _ | .write id _ | .release id => id ∈ s.existing
  | .spawn id => ∀ other ∈ s.existing, handleIndex other ≠ handleIndex id

/-- No entity of the scope is released. -/
def Spares (scope : List EntityId) : StoreEvent → Prop
  | .release id => id ∉ scope
  | .tag .. | .untag .. | .write .. | .spawn _ => True

/-- Both buffers' `apply`. -/
def apply (s : Stores) (tagBuffer : TagBuffer) (transformBuffer : TransformBuffer) : Stores :=
  { s with tags := s.tags.apply tagBuffer, transforms := s.transforms.apply transformBuffer }

/-- The transform an entity reads. -/
def fields (s : Stores) (id : EntityId) : TransformCells := s.transforms.cells (handleIndex id)

/-- An entity has a slot of its own, within the lanes; and the two directions of the tag index say the same. -/
structure Tidy (s : Stores) : Prop where
  slots : ∀ a ∈ s.existing, ∀ b ∈ s.existing, handleIndex a = handleIndex b → a = b
  opened : ∀ id ∈ s.existing, handleIndex id < s.transforms.count
  filed : ∀ id t, s.tags.has id t = true ↔ id ∈ s.existing ∧ t ∈ s.tags.tagsOf id
  owned : ∀ i t, t ∈ s.tags.tagsAt i → ∃ id ∈ s.existing, handleIndex id = i

theorem tidy_empty : empty.Tidy where
  slots _ ha := absurd ha List.not_mem_nil
  opened _ hid := absurd hid List.not_mem_nil
  filed id t := by simp [empty, TagIndex.has, TagIndex.empty, TagIndex.tagsOf, TagIndex.tagsAt]
  owned i t h := by simp [empty, TagIndex.empty, TagIndex.tagsAt] at h

section tidy
variable {s : Stores} {scope : List EntityId}

theorem Tidy.tag (h : s.Tidy) {id : EntityId} (hid : id ∈ s.existing) (name : String) :
    (s.step (.tag id name)).Tidy := by
  refine ⟨h.slots, h.opened, fun id' t => ?_, fun i t ht => ?_⟩
  · show (s.tags.add id name).has id' t = true ↔ id' ∈ s.existing ∧ t ∈ (s.tags.add id name).tagsAt (handleIndex id')
    rw [TagIndex.has_add, TagIndex.mem_tagsAt_add, h.filed, TagIndex.tagsOf]
    constructor
    · rintro (⟨hid', ht⟩ | ⟨rfl, rfl⟩)
      · exact ⟨hid', .inl ht⟩
      · exact ⟨hid, .inr ⟨rfl, rfl⟩⟩
    · rintro ⟨hid', ht | ⟨hindex, rfl⟩⟩
      · exact .inl ⟨hid', ht⟩
      · exact .inr ⟨h.slots _ hid' _ hid hindex, rfl⟩
  · obtain ht | ⟨rfl, -⟩ := (TagIndex.mem_tagsAt_add s.tags).mp ht
    · exact h.owned i t ht
    · exact ⟨id, hid, rfl⟩

theorem Tidy.untag (h : s.Tidy) {id : EntityId} (hid : id ∈ s.existing) (name : String) :
    (s.step (.untag id name)).Tidy := by
  refine ⟨h.slots, h.opened, fun id' t => ?_, fun i t ht => ?_⟩
  · show (s.tags.remove id name).has id' t = true ↔
      id' ∈ s.existing ∧ t ∈ (s.tags.remove id name).tagsAt (handleIndex id')
    rw [TagIndex.has_remove, TagIndex.mem_tagsAt_remove, h.filed, TagIndex.tagsOf]
    constructor
    · rintro ⟨⟨hid', ht⟩, hother⟩
      exact ⟨hid', ht, fun hsame => hother ⟨hsame.2, h.slots _ hid' _ hid hsame.1⟩⟩
    · rintro ⟨hid', ht, hother⟩
      exact ⟨⟨hid', ht⟩, fun hsame => hother ⟨congrArg handleIndex hsame.2, hsame.1⟩⟩
  · exact h.owned i t ((TagIndex.mem_tagsAt_remove s.tags).mp ht).1

theorem Tidy.spawn (h : s.Tidy) {id : EntityId} (hfree : ∀ other ∈ s.existing, handleIndex other ≠ handleIndex id) :
    (s.step (.spawn id)).Tidy := by
  have hnew : id ∉ s.existing := fun hid => hfree id hid rfl
  have huntagged : ∀ t, t ∉ s.tags.tagsAt (handleIndex id) := fun t ht => by
    obtain ⟨other, hother, hindex⟩ := h.owned _ t ht
    exact hfree other hother hindex
  refine ⟨?_, ?_, fun id' t => ?_, fun i t ht => ?_⟩
  · intro a ha b hb hindex
    obtain rfl | hold := List.mem_cons.mp ha
    · obtain rfl | hold' := List.mem_cons.mp hb
      · rfl
      · exact absurd hindex.symm (hfree b hold')
    · obtain rfl | hold' := List.mem_cons.mp hb
      · exact absurd hindex (hfree a hold)
      · exact h.slots a hold b hold' hindex
  · intro other hother
    show handleIndex other < max s.transforms.count (handleIndex id + 1)
    obtain rfl | hother := List.mem_cons.mp hother
    · omega
    · have := h.opened other hother
      omega
  · show s.tags.has id' t = true ↔ id' ∈ id :: s.existing ∧ t ∈ s.tags.tagsOf id'
    rw [h.filed, List.mem_cons]
    refine ⟨fun hid' => ⟨.inr hid'.1, hid'.2⟩, ?_⟩
    rintro ⟨rfl | hid', ht⟩
    · exact absurd ht (huntagged t)
    · exact ⟨hid', ht⟩
  · obtain ⟨other, hother, hindex⟩ := h.owned i t ht
    exact ⟨other, List.mem_cons_of_mem _ hother, hindex⟩

theorem Tidy.release (h : s.Tidy) {id : EntityId} (hid : id ∈ s.existing) : (s.step (.release id)).Tidy := by
  have hmem : ∀ other, other ∈ s.existing.filter (· ≠ id) ↔ other ∈ s.existing ∧ other ≠ id := fun other => by
    rw [List.mem_filter, decide_eq_true_eq]
  have hcount : (s.transforms.releaseSlot id).count = s.transforms.count := by
    unfold TransformLanes.releaseSlot
    split_ifs <;> rfl
  refine ⟨fun a ha b hb => h.slots a ((hmem a).mp ha).1 b ((hmem b).mp hb).1, fun other hother => ?_, fun id' t => ?_,
    fun i t ht => ?_⟩
  · exact hcount.symm ▸ h.opened other ((hmem other).mp hother).1
  · show (s.tags.removeAll id).has id' t = true ↔
      id' ∈ s.existing.filter (· ≠ id) ∧ t ∈ (s.tags.removeAll id).tagsAt (handleIndex id')
    rw [TagIndex.has_removeAll, TagIndex.tagsAt_removeAll, h.filed, hmem, TagIndex.tagsOf]
    constructor
    · rintro ⟨⟨hid', ht⟩, hother⟩
      have hne : id' ≠ id := by
        rintro rfl
        exact hother ⟨rfl, ht⟩
      rw [if_neg fun hindex => hne (h.slots _ hid' _ hid hindex)]
      exact ⟨⟨hid', hne⟩, ht⟩
    · rintro ⟨⟨hid', hne⟩, ht⟩
      rw [if_neg fun hindex => hne (h.slots _ hid' _ hid hindex)] at ht
      exact ⟨⟨hid', ht⟩, fun hsame => hne hsame.1⟩
  · have ht : t ∈ (s.tags.removeAll id).tagsAt i := ht
    rw [TagIndex.tagsAt_removeAll] at ht
    split_ifs at ht with hi
    · exact absurd ht List.not_mem_nil
    · obtain ⟨other, hother, hindex⟩ := h.owned i t ht
      refine ⟨other, (hmem other).mpr ⟨hother, ?_⟩, hindex⟩
      rintro rfl
      exact hi hindex.symm

theorem Tidy.step (h : s.Tidy) (e : StoreEvent) (he : s.Legal e) : (s.step e).Tidy := by
  cases e with
  | tag id name => exact h.tag he name
  | untag id name => exact h.untag he name
  | write id w => exact ⟨h.slots, h.opened, h.filed, h.owned⟩
  | spawn id => exact h.spawn he
  | release id => exact h.release he

/-- What an `apply` finds of the state that was captured. -/
structure Since (before : Stores) (scope : List EntityId) (now : Stores) : Prop where
  tidy : now.Tidy
  spared : ∀ id ∈ scope, id ∈ now.existing
  count : before.transforms.count ≤ now.transforms.count

theorem Since.step {before now : Stores} (h : Since before scope now) (e : StoreEvent) (he : now.Legal e ∧ Spares scope e) :
    Since before scope (now.step e) := by
  refine ⟨h.tidy.step e he.1, fun id hid => ?_, ?_⟩
  · cases e with
    | spawn other => exact List.mem_cons_of_mem _ (h.spared id hid)
    | release other =>
      refine List.mem_filter.mpr ⟨h.spared id hid, decide_eq_true fun heq => ?_⟩
      exact he.2 (heq ▸ hid)
    | tag | untag | write => exact h.spared id hid
  · cases e with
    | spawn other => exact h.count.trans (le_max_left _ _)
    | release other =>
      show before.transforms.count ≤ (now.transforms.releaseSlot other).count
      unfold TransformLanes.releaseSlot
      split_ifs <;> exact h.count
    | tag | untag | write => exact h.count

/-- A slot is in scope when its entity is. -/
theorem mem_slots {now : Stores} (htidy : now.Tidy) (hscope : ∀ id ∈ scope, id ∈ now.existing) {id : EntityId}
    (hid : id ∈ now.existing) : handleIndex id ∈ scope.map handleIndex ↔ id ∈ scope := by
  refine ⟨fun hindex => ?_, fun hmem => List.mem_map_of_mem hmem⟩
  obtain ⟨other, hother, heq⟩ := List.mem_map.mp hindex
  exact htidy.slots _ (hscope other hother) _ hid heq ▸ hother

/-- What an `apply` does to the state it finds. -/
theorem Since.rewound {before now : Stores} (h : Since before scope now) (hbefore : before.Tidy)
    (hscope : ∀ id ∈ scope, id ∈ before.existing) (tagBuffer : TagBuffer) (transformBuffer : TransformBuffer) :
    let after := now.apply (before.tags.capture tagBuffer (some scope)) (before.transforms.capture transformBuffer (some scope))
    (∀ id ∈ scope, after.tags.tagsOf id = before.tags.tagsOf id ∧ after.fields id = before.fields id) ∧
      (∀ id ∈ now.existing, id ∉ scope → after.tags.tagsOf id = now.tags.tagsOf id ∧ after.fields id = now.fields id) ∧
      (∀ id ∈ now.existing, ∀ t, after.tags.has id t = true ↔ t ∈ after.tags.tagsOf id) ∧ after.Tidy := by
  intro after
  have htags : ∀ i, after.tags.tagsAt i = if i ∈ scope.map handleIndex then before.tags.tagsAt i else now.tags.tagsAt i :=
    fun _ => TagIndex.tagsAt_rewound
  have hopen : ∀ i, i ∈ (scope.map handleIndex).filter (· < before.transforms.count) ↔ i ∈ scope.map handleIndex := by
    intro i
    rw [List.mem_filter, decide_eq_true_eq]
    refine and_iff_left_of_imp fun hi => ?_
    obtain ⟨id, hid, rfl⟩ := List.mem_map.mp hi
    exact hbefore.opened id (hscope id hid)
  have hcells : ∀ i, after.transforms.cells i =
      if i ∈ scope.map handleIndex then before.transforms.cells i else now.transforms.cells i := fun i => by
    rw [← if_congr (hopen i) rfl rfl]
    exact TransformLanes.cells_rewound
  have hin : ∀ {id}, id ∈ scope → handleIndex id ∈ scope.map handleIndex := fun hid => List.mem_map_of_mem hid
  have hout : ∀ {id}, id ∈ now.existing → id ∉ scope → handleIndex id ∉ scope.map handleIndex := fun hid hnot =>
    (mem_slots h.tidy h.spared hid).not.mpr hnot
  have hfiled : ∀ id t, after.tags.has id t = true ↔ id ∈ now.existing ∧ t ∈ after.tags.tagsOf id := by
    intro id t
    have hhas : after.tags.has id t = true ↔ _ := TagIndex.has_rewound
    rw [hhas, h.tidy.filed, TagIndex.tagsOf, TagIndex.tagsOf, TagIndex.tagsOf, htags]
    by_cases hscoped : id ∈ scope
    · simp only [hscoped, hin hscoped, h.spared id hscoped, true_and, if_true]
      exact or_iff_right fun hboth => hboth.2 hboth.1
    · by_cases hid : id ∈ now.existing
      · simp only [hscoped, hout hid hscoped, false_and, not_false_eq_true, and_true, or_false, if_false]
      · simp only [hscoped, hid, false_and, or_false]
  refine ⟨fun id hid => ⟨?_, ?_⟩, fun id hid hnot => ⟨?_, ?_⟩, fun id hid t => ?_, h.tidy.slots, fun id hid => ?_, hfiled,
    fun i t ht => ?_⟩
  · exact (htags _).trans (if_pos (hin hid))
  · exact (hcells _).trans (if_pos (hin hid))
  · exact (htags _).trans (if_neg (hout hid hnot))
  · exact (hcells _).trans (if_neg (hout hid hnot))
  · rw [hfiled]
    exact and_iff_right hid
  · show handleIndex id < (now.transforms.apply _).count
    rw [TransformLanes.count_rewound]
    exact (h.tidy.opened id hid).trans_le (le_max_left _ _)
  · rw [htags] at ht
    split_ifs at ht with hi
    · obtain ⟨id, hid, rfl⟩ := List.mem_map.mp hi
      exact ⟨id, h.spared id hid, rfl⟩
    · exact h.tidy.owned i t ht

end tidy

/-- **A scoped capture restores exactly its scope**: of any two stores that agree, with any buffers to capture into,
after any writes, spawns and teardowns that spare the scope, an entity in scope has the tags and the transform it had,
every other entity has those it has, and the index says the same both ways; and it may be captured from again. -/
theorem rewinds_scope (s : Stores) (hs : s.Tidy) (scope : List EntityId) (hscope : ∀ id ∈ scope, id ∈ s.existing)
    (tagBuffer : TagBuffer) (transformBuffer : TransformBuffer) (es : List StoreEvent)
    (hes : Meets step (fun s e => s.Legal e ∧ Spares scope e) s es) :
    let now := exec step s es
    let after := now.apply (s.tags.capture tagBuffer (some scope)) (s.transforms.capture transformBuffer (some scope))
    (∀ id ∈ scope, after.tags.tagsOf id = s.tags.tagsOf id ∧ after.fields id = s.fields id) ∧
      (∀ id ∈ now.existing, id ∉ scope → after.tags.tagsOf id = now.tags.tagsOf id ∧ after.fields id = now.fields id) ∧
      (∀ id ∈ now.existing, ∀ t, after.tags.has id t = true ↔ t ∈ after.tags.tagsOf id) ∧ after.Tidy := by
  have hsince : Since s scope (exec step s es) :=
    @Meets.invariant _ _ _ _ (Since s scope) (fun _ e h he => h.step e he) _ _ ⟨hs, hscope, le_rfl⟩ hes
  exact hsince.rewound hs hscope tagBuffer transformBuffer

/-- Two entities, one of them captured; then both are written to, and a third is spawned past the lanes' end. -/
theorem rewinds_scope_grown :
    let s := exec step empty [.spawn 16777216, .tag 16777216 "coin", .spawn 16777217]
    let es : List StoreEvent := [.untag 16777216 "coin", .tag 16777216 "hot", .write 16777217 (.opacity (.finite 0)),
      .spawn 16777300, .tag 16777300 "hot"]
    let after := (exec step s es).apply (s.tags.capture ⟨OrderedMap.empty, OrderedMap.empty, none⟩ (some [16777216]))
      (s.transforms.capture ⟨1, fun _ => TransformCells.identity, 0, none⟩ (some [16777216]))
    Meets step (fun s e => s.Legal e ∧ Spares [16777216] e) s es ∧ after.tags.tagsOf 16777216 = s.tags.tagsOf 16777216 ∧
      after.Tidy := by
  intro s es after
  have hs : s.Tidy :=
    Meets.invariant (fun _ e h he => h.step e he) tidy_empty (show Meets step Legal empty _ by simp [Meets, Legal, step, empty,
      handleIndex, indexRange])
  have hes : Meets step (fun s e => s.Legal e ∧ Spares [16777216] e) s es := by
    simp [Meets, Legal, Spares, step, empty, handleIndex, indexRange, s, es, exec]
  have hrewinds := rewinds_scope s hs [16777216] (by simp [s, exec, step, empty])
    ⟨OrderedMap.empty, OrderedMap.empty, none⟩ ⟨1, fun _ => TransformCells.identity, 0, none⟩ es hes
  exact ⟨hes, (hrewinds.1 16777216 (by simp)).1, hrewinds.2.2.2⟩

/-! ### The lanes and a store without an end -/

/-- The event on a store without an end, as the world's calls have it. -/
def endlessStep (t : SimTransformStore) : StoreEvent → SimTransformStore
  | .tag _ _ | .untag _ _ => t
  | .write id w => t.write id (w.toCells ·)
  | .spawn id => t.initSlot id
  | .release id => t.releaseSlot id

theorem toStore_step {s : Stores} (h : s.Tidy) {e : StoreEvent} (he : s.Legal e) :
    (s.step e).transforms.toSimTransformStore = endlessStep s.transforms.toSimTransformStore e := by
  cases e with
  | tag | untag => rfl
  | write id w => exact TransformLanes.toStore_write (h.opened id he) _
  | spawn id => exact TransformLanes.toStore_initSlot id
  | release id => exact TransformLanes.toStore_releaseSlot id

theorem toStore_run : ∀ (es : List StoreEvent) {s : Stores}, s.Tidy → Meets step Legal s es →
    (exec step s es).transforms.toSimTransformStore = exec endlessStep s.transforms.toSimTransformStore es
  | [], _, _, _ => rfl
  | e :: es, s, h, hes => by
    rw [exec_cons, exec_cons, ← toStore_step h hes.1]
    exact toStore_run es (h.step e hes.1) hes.2

/-- **The lanes refine a store without an end**: in every run a write lands within them, however far they have grown. -/
theorem lanes_refine (es : List StoreEvent) (hes : Meets step Legal empty es) :
    (exec step empty es).Tidy ∧ (exec step empty es).transforms.toSimTransformStore = exec endlessStep .empty es :=
  ⟨Meets.invariant (fun _ e h he => h.step e he) tidy_empty hes, toStore_run es tidy_empty hes⟩

/-- A spawn past the lanes' end, a write there and a teardown. -/
theorem lanes_refine_grown :
    let es : List StoreEvent := [.spawn 16777300, .write 16777300 (.opacity (.finite 0)), .spawn 16777217, .release 16777300]
    Meets step Legal empty es ∧ (exec step empty es).transforms.toSimTransformStore = exec endlessStep .empty es := by
  intro es
  have hes : Meets step Legal empty es := by
    simp [Meets, Legal, step, empty, handleIndex, indexRange, es]
  exact ⟨hes, (lanes_refine es hes).2⟩

end Stores
end Grove
