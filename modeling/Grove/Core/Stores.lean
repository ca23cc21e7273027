import Grove.Math.SlotTable
import Grove.Core.HostRecord

/-! # Tags, transforms and the replication channels

`packages/core/src/world/tag-index.ts`, `world/transform-store.ts` and `state/channels.ts`.

The tag index keys an entity's tags by its slot index, not by its handle, and so does the
transform store with its cells and its dirty set: a stale handle reads and writes whatever
occupies the slot now.  The channels are the journal of structural changes, in order and
grouped by template instantiation, and the marks of the fields written since the last drain. -/

namespace Grove

/-- An entity handle. -/
abbrev EntityId := ℕ

/-- The null handle. -/
def noEntity : EntityId := 0

/-! ### Tags -/

structure TagIndex where
  byTag : OrderedMap String (List EntityId)
  byEntity : OrderedMap ℕ (List String)

namespace TagIndex

def empty : TagIndex := ⟨OrderedMap.empty, OrderedMap.empty⟩

variable (x : TagIndex)

def add (id : EntityId) (tag : String) : TagIndex where
  byTag := x.byTag.set tag (addNew ((x.byTag.get tag).getD []) id)
  byEntity := x.byEntity.set (handleIndex id) (addNew ((x.byEntity.get (handleIndex id)).getD []) tag)

/-- Removes one element from the set under `k`; an emptied set goes. -/
def dropFrom {κ α : Type} [DecidableEq κ] [DecidableEq α] (m : OrderedMap κ (List α)) (k : κ) (a : α) :
    OrderedMap κ (List α) :=
  match m.get k with
  | none => m
  | some l => if (l.filter (· ≠ a)).isEmpty then m.delete k else m.set k (l.filter (· ≠ a))

def remove (id : EntityId) (tag : String) : TagIndex where
  byTag := dropFrom x.byTag tag id
  byEntity := dropFrom x.byEntity (handleIndex id) tag

/-- The tags filed under a slot. -/
def tagsAt (index : ℕ) : List String := (x.byEntity.get index).getD []

def tagsOf (id : EntityId) : List String := x.tagsAt (handleIndex id)

def removeAll (id : EntityId) : TagIndex :=
  match x.byEntity.get (handleIndex id) with
  | none => x
  | some tags =>
    { byTag := tags.foldl (fun m tag => dropFrom m tag id) x.byTag
      byEntity := x.byEntity.delete (handleIndex id) }

theorem mem_tagsAt_add {id : EntityId} {tag t : String} {i : ℕ} :
    t ∈ (x.add id tag).tagsAt i ↔ t ∈ x.tagsAt i ∨ (i = handleIndex id ∧ t = tag) := by
  simp only [tagsAt, add, OrderedMap.get_set]
  split_ifs with h
  · subst h
    simp
  · simp [h]

theorem mem_getD_dropFrom {κ α : Type} [DecidableEq κ] [DecidableEq α] {m : OrderedMap κ (List α)}
    {k k' : κ} {a b : α} :
    b ∈ ((dropFrom m k a).get k').getD [] ↔ b ∈ (m.get k').getD [] ∧ ¬ (k' = k ∧ b = a) := by
  unfold dropFrom
  cases hm : m.get k with
  | none =>
    simp only
    constructor
    · intro hb
      refine ⟨hb, ?_⟩
      rintro ⟨rfl, -⟩
      rw [hm] at hb
      cases hb
    · exact And.left
  | some l =>
    simp only
    by_cases hk : k' = k
    · subst hk
      rw [hm]
      split_ifs with he
      · have hnil : l.filter (· ≠ a) = [] := List.isEmpty_iff.mp he
        simp only [OrderedMap.get_delete_self, Option.getD_none, Option.getD_some, true_and]
        constructor
        · intro hb
          cases hb
        · rintro ⟨hb, hne⟩
          have : b ∈ l.filter (· ≠ a) := by simp [hb, hne]
          rw [hnil] at this
          cases this
      · simp
    · split_ifs
      · simp [OrderedMap.get_delete_of_ne _ hk, hk]
      · simp [OrderedMap.get_set_of_ne _ hk, hk]

theorem mem_tagsAt_remove {id : EntityId} {tag t : String} {i : ℕ} :
    t ∈ (x.remove id tag).tagsAt i ↔ t ∈ x.tagsAt i ∧ ¬ (i = handleIndex id ∧ t = tag) :=
  mem_getD_dropFrom

theorem tagsAt_removeAll (id : EntityId) (i : ℕ) :
    (x.removeAll id).tagsAt i = if i = handleIndex id then [] else x.tagsAt i := by
  unfold removeAll
  cases h : x.byEntity.get (handleIndex id) with
  | none =>
    simp only
    split_ifs with hi
    · rw [hi, tagsAt, h]
      rfl
    · rfl
  | some tags =>
    simp only [tagsAt, OrderedMap.get_delete]
    split_ifs <;> rfl

end TagIndex

/-! ### Transforms -/

/-- One slot's seven cells; the layer is an `Int32Array`'s. -/
structure TransformCells where
  posX : JsNumber
  posY : JsNumber
  posZ : JsNumber
  rot : JsNumber
  scale : JsNumber
  opacity : JsNumber
  layer : ℤ
deriving DecidableEq

/-- What a fresh slot and a released one hold. -/
def TransformCells.identity : TransformCells :=
  ⟨.finite 0, .finite 0, .finite 0, .finite 0, .finite 1, .finite 1, 0⟩

structure SimTransformStore where
  cells : ℕ → TransformCells
  /-- The high-water slot index. -/
  count : ℕ
  /-- Slots written since the last drain, in first-write order. -/
  dirty : List ℕ

namespace SimTransformStore

def empty : SimTransformStore := ⟨fun _ => TransformCells.identity, 0, []⟩

variable (s : SimTransformStore)

def initSlot (id : EntityId) : SimTransformStore :=
  { s with
    count := max s.count (handleIndex id + 1)
    cells := Function.update s.cells (handleIndex id) TransformCells.identity }

def releaseSlot (id : EntityId) : SimTransformStore :=
  if s.count ≤ handleIndex id then s
  else
    { s with
      cells := Function.update s.cells (handleIndex id) TransformCells.identity
      dirty := s.dirty.filter (· ≠ handleIndex id) }

/-- A write through a handle: the slot's cells change and the slot is dirty. -/
def write (id : EntityId) (f : TransformCells → TransformCells) : SimTransformStore :=
  { s with
    cells := Function.update s.cells (handleIndex id) (f (s.cells (handleIndex id)))
    dirty := addNew s.dirty (handleIndex id) }

def setPosition (id : EntityId) (x y z : JsNumber) : SimTransformStore :=
  s.write id (fun c => { c with posX := x, posY := y, posZ := z })

def setRotation (id : EntityId) (degrees : JsNumber) : SimTransformStore :=
  s.write id (fun c => { c with rot := degrees })

def setScale (id : EntityId) (scale : JsNumber) : SimTransformStore :=
  s.write id (fun c => { c with scale := scale })

def setOpacity (id : EntityId) (opacity : JsNumber) : SimTransformStore :=
  s.write id (fun c => { c with opacity := opacity })

def setLayer (id : EntityId) (layer : JsNumber) : SimTransformStore :=
  s.write id (fun c => { c with layer := layer.toInt32 })

def consumeDirty : List ℕ × SimTransformStore := (s.dirty, { s with dirty := [] })

theorem cells_write_of_ne {id : EntityId} {i : ℕ} (h : i ≠ handleIndex id)
    (f : TransformCells → TransformCells) : (s.write id f).cells i = s.cells i :=
  Function.update_of_ne h _ _

theorem mem_dirty_write {id : EntityId} {i : ℕ} {f : TransformCells → TransformCells} :
    i ∈ (s.write id f).dirty ↔ i ∈ s.dirty ∨ i = handleIndex id := mem_addNew

end SimTransformStore

/-! ### Channels -/

/-- One indivisible structural change. -/
inductive SingleStructuralOp where
  | spawn (id : EntityId) (template : String)
  | destroy (id : EntityId)
  | reparent (id parent : EntityId)
  | tag (id : EntityId) (tag : String) (added : Bool)
  | attach (id : EntityId) (script : ScriptId) (props : Option ScriptProps)
deriving DecidableEq

/-- The entity an op changes. -/
def SingleStructuralOp.id : SingleStructuralOp → EntityId
  | .spawn id _ | .destroy id | .reparent id _ | .tag id _ _ | .attach id _ _ => id

/-- One entry in the ordered structural journal. -/
inductive StructuralOp where
  | single (op : SingleStructuralOp)
  | group (ops : List SingleStructuralOp)
deriving DecidableEq

/-- The ops an entry holds, in order. -/
def StructuralOp.singles : StructuralOp → List SingleStructuralOp
  | .single op => [op]
  | .group ops => ops

structure ReplicationChannels where
  structural : List StructuralOp
  /-- Record to the fields marked on it. -/
  state : OrderedMap RecordId (List String)
  /-- The open group's ops, or `none` outside one. -/
  group : Option (List SingleStructuralOp)
  groupDepth : ℕ
deriving DecidableEq

namespace ReplicationChannels

def empty : ReplicationChannels := ⟨[], OrderedMap.empty, none, 0⟩

variable (c : ReplicationChannels)

def markStructural (op : SingleStructuralOp) : ReplicationChannels :=
  match c.group with
  | some ops => { c with group := some (ops ++ [op]) }
  | none => { c with structural := c.structural ++ [.single op] }

/-- Opens a boundary: ops until the matching `endGroup` apply as one.  Re-entrant. -/
def beginGroup : ReplicationChannels :=
  { c with groupDepth := c.groupDepth + 1, group := if c.groupDepth = 0 then some [] else c.group }

/-- Closes the boundary.  An empty group journals nothing; a single op journals itself. -/
def endGroup : ReplicationChannels :=
  if c.groupDepth = 0 then c
  else if 1 < c.groupDepth then { c with groupDepth := c.groupDepth - 1 }
  else
    { c with
      groupDepth := 0
      group := none
      structural := c.structural ++
        match c.group.getD [] with
        | [] => []
        | [op] => [.single op]
        | ops => [.group ops] }

def markState (record : RecordId) (field : String) : ReplicationChannels :=
  { c with state := c.state.set record (addNew ((c.state.get record).getD []) field) }

/-- The marks, record by record in first-mark order. -/
def marks : List (RecordId × String) := c.state.entries.flatMap (fun e => e.2.map (fun f => (e.1, f)))

def clear : ReplicationChannels := empty

/-- Every op journaled, in order, the open group's included. -/
def journal : List SingleStructuralOp := c.structural.flatMap StructuralOp.singles ++ c.group.getD []

theorem journal_markStructural (op : SingleStructuralOp) :
    (c.markStructural op).journal = c.journal ++ [op] := by
  unfold markStructural journal
  cases h : c.group with
  | none => simp [StructuralOp.singles]
  | some ops => simp

theorem journal_beginGroup (h : c.group = none ↔ c.groupDepth = 0) : c.beginGroup.journal = c.journal := by
  unfold beginGroup journal
  by_cases hd : c.groupDepth = 0
  · simp [hd, h.mpr hd]
  · simp [hd]

theorem journal_endGroup : c.endGroup.journal = c.journal := by
  unfold endGroup
  split_ifs with h0 h1
  · rfl
  · rfl
  · unfold journal
    simp only [List.flatMap_append, Option.getD_none, List.append_nil]
    congr 1
    rcases c.group.getD [] with _ | ⟨op, _ | ⟨op', ops⟩⟩ <;> simp [StructuralOp.singles]

end ReplicationChannels

end Grove
