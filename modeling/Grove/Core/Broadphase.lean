import Grove.Core.Numbers
import Grove.Core.Runtime

/-! # Spatial queries

`packages/core/src/world/broadphase.ts` over any transform source, and `runtime/transform-view.ts`, the source that
reads the live stores.  Both queries walk the source's live ids and keep the order they are listed in. -/

namespace Grove

/-- The transform reads a query needs. -/
structure TransformView (α : Type) where
  liveIds : List EntityId
  posX : EntityId → α
  posY : EntityId → α
  /-- Half extents of an entity's box; a point's are zero. -/
  halfWidth : EntityId → α
  halfHeight : EntityId → α

namespace Broadphase

variable {α : Type} (k : Planar α) (view : TransformView α)

/-- The test of `near`: the box counts as a disc about the entity. -/
def reaches (x y radius : α) (id : EntityId) : Bool :=
  let dx := k.sub (view.posX id) x
  let dy := k.sub (view.posY id) y
  let reach := k.add radius (k.max (view.halfWidth id) (view.halfHeight id))
  k.atMost (k.add (k.mul dx dx) (k.mul dy dy)) (k.mul reach reach)

def near (x y radius : α) : List EntityId := view.liveIds.filter (reaches k view x y radius)

/-- The boxes of two entities overlap; edges that touch count. -/
def overlaps (id other : EntityId) : Bool :=
  k.atMost (k.abs (k.sub (view.posX id) (view.posX other))) (k.add (view.halfWidth id) (view.halfWidth other)) &&
    k.atMost (k.abs (k.sub (view.posY id) (view.posY other))) (k.add (view.halfHeight id) (view.halfHeight other))

def overlapping (id : EntityId) : List EntityId :=
  view.liveIds.filter (fun other => decide (other ≠ id) && overlaps k view id other)

variable {k view}

theorem mem_near {x y radius : α} {id : EntityId} :
    id ∈ near k view x y radius ↔ id ∈ view.liveIds ∧ reaches k view x y radius id = true := List.mem_filter

theorem mem_overlapping {id other : EntityId} :
    other ∈ overlapping k view id ↔ other ∈ view.liveIds ∧ other ≠ id ∧ overlaps k view id other = true := by
  rw [overlapping, List.mem_filter, Bool.and_eq_true, decide_eq_true_eq]

end Broadphase

/-- The axis of a half extent. -/
inductive Axis where
  | w
  | h
deriving DecidableEq

/-- Reads the live stores. -/
def liveTransformView (rt : Runtime) (halfExtent : EntityId → Axis → JsNumber) : TransformView JsNumber where
  liveIds := rt.entities.ids
  posX id := (rt.transforms.cells (handleIndex id)).posX
  posY id := (rt.transforms.cells (handleIndex id)).posY
  halfWidth id := halfExtent id .w
  halfHeight id := halfExtent id .h

end Grove
