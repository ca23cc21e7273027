import Grove.Core.Stores

/-! # The entity table and its hierarchy

`packages/core/src/world/entity-table.ts`, the table half of `world/entity-manager.ts` and the
hierarchy calls of `runtime/entity.ts`.  A record names its parent and lists its children.
`destroy` is logical-now: it clears `alive` on an entity and on its subtree and queues each;
the slots are released by the drain, one `teardown` per queued entity.

The source's recursion over children and its walk to the root are given fuel here.  The
recursion clears a flag before it descends, so the number of entities bounds its depth; the
walk meets each ancestor once, which `isBeneath_iff` shows to be within its fuel. -/

namespace Grove

/-- Entities a world may hold. -/
def maxEntities : ℕ := 10000

/-- Per-entity data outside the transforms. -/
structure EntityRecord where
  template : String
  /-- The owning player's id, or the empty string. -/
  ownerId : String
  parent : EntityId
  children : List EntityId
  alive : Bool
  destroyPending : Bool
deriving DecidableEq

/-- Why the engine refused a call. -/
inductive LoadError where
  | worldFull
  | slotsExhausted
  | cycle (id : EntityId)
  | wiring (field : String)
deriving DecidableEq

/-- The table, and the entities queued for teardown. -/
structure Entities where
  table : SlotTable EntityRecord
  pendingDestroy : List EntityId

namespace Entities

def empty : Entities := ⟨SlotTable.empty, []⟩

variable (e : Entities)

def record (id : EntityId) : Option EntityRecord := e.table.record id

def isAlive (id : EntityId) : Bool := (e.record id).elim false EntityRecord.alive

def ids : List EntityId := e.table.liveIds

/-- A fresh root, refused once the world is full. -/
def create (template ownerId : String) : Except LoadError (EntityId × Entities) :=
  if maxEntities ≤ e.table.liveCount then .error .worldFull
  else
    match e.table.create ⟨template, ownerId, noEntity, [], true, false⟩ with
    | none => .error .slotsExhausted
    | some (id, table) => .ok (id, { e with table := table })

/-- What `destroy` writes on one record. -/
def kill (r : EntityRecord) : EntityRecord := { r with alive := false, destroyPending := true }

/-- Clears the flag and queues the entity, before its children are visited. -/
def mark (id : EntityId) : Entities :=
  { table := e.table.modify id kill, pendingDestroy := e.pendingDestroy ++ [id] }

/-- Clears `alive` on an entity and its subtree, queueing each. -/
def destroyWith : ℕ → Entities → EntityId → Entities
  | 0, e, _ => e
  | fuel + 1, e, id =>
    match e.record id with
    | none => e
    | some r => if r.alive then r.children.foldl (destroyWith fuel) (e.mark id) else e

def destroy (id : EntityId) : Entities := destroyWith (e.table.liveCount + 1) e id

/-- Unparents without marking; false if it had no parent. -/
def unlink (id : EntityId) : Bool × Entities :=
  match e.record id with
  | none => (false, e)
  | some r =>
    if r.parent = noEntity then (false, e)
    else
      (true, { e with
        table := (e.table.modify r.parent (fun p => { p with children := p.children.erase id })).modify id
          (fun r => { r with parent := noEntity }) })

/-- The parent a handle's record names. -/
def parentOf (id : EntityId) : EntityId := (e.record id).elim noEntity EntityRecord.parent

/-- Whether the walk from `start` to the root meets `id`. -/
def walkMeets (id : EntityId) : ℕ → EntityId → Bool
  | 0, _ => true
  | fuel + 1, start =>
    if start = noEntity then false
    else if start = id then true
    else walkMeets id fuel (e.parentOf start)

def isBeneath (start id : EntityId) : Bool := e.walkMeets id (e.table.liveCount + 2) start

/-- Moves `id` beneath `parent`. -/
def link (id parent : EntityId) : Entities :=
  let e := (e.unlink id).2
  { e with
    table := (e.table.modify id (fun r => { r with parent := parent })).modify parent
      (fun p => { p with children := p.children ++ [id] }) }

/-- Reparents; `none` where nothing happens: an entity is gone, or the parent is dying. -/
def attachTo (id parent : EntityId) : Except LoadError (Option Entities) :=
  match e.record id, e.record parent with
  | some _, some p =>
    if p.alive then
      if e.isBeneath parent id then .error (.cycle id) else .ok (some (e.link id parent))
    else .ok none
  | _, _ => .ok none

/-- Leaves the parent's list and frees the slot. -/
def teardown (id : EntityId) : Entities :=
  let table :=
    match e.record id with
    | none => e.table
    | some r =>
      if r.parent = noEntity then e.table
      else e.table.modify r.parent (fun p => { p with children := p.children.erase id })
  { e with table := table.release id }

/-! ### Chains to the root -/

/-- Following `par` from `x` ends at the null handle. -/
inductive Rooted (par : EntityId → EntityId) : EntityId → Prop
  | root : Rooted par noEntity
  | step {x : EntityId} : Rooted par (par x) → Rooted par x

section rooted
variable {par par' : EntityId → EntityId} {x y : EntityId}

/-- Cutting links keeps every chain finite. -/
theorem Rooted.cut (hcut : ∀ z, par' z = par z ∨ par' z = noEntity) (h : Rooted par x) :
    Rooted par' x := by
  induction h with
  | root => exact Rooted.root
  | @step z _ ih =>
    apply Rooted.step
    rcases hcut z with h | h
    · rw [h]; exact ih
    · rw [h]; exact Rooted.root

/-- A new link whose target's chain is finite in the new hierarchy keeps every chain finite. -/
theorem Rooted.relink {p : EntityId} (hp : Rooted (Function.update par x p) p) (h : Rooted par y) :
    Rooted (Function.update par x p) y := by
  induction h with
  | root => exact Rooted.root
  | @step z _ ih =>
    apply Rooted.step
    by_cases hz : z = x
    · rw [hz, Function.update_self]; exact hp
    · rw [Function.update_of_ne hz]; exact ih

/-- The walk's negative answer, as a chain in the hierarchy with the link made. -/
theorem rooted_of_walkMeets {id p : EntityId} : ∀ (fuel : ℕ) (start : EntityId),
    e.walkMeets id fuel start = false → Rooted (Function.update e.parentOf id p) start
  | 0, _, h => by cases h
  | fuel + 1, start, h => by
    unfold walkMeets at h
    split_ifs at h with h0 hid
    · rw [h0]; exact Rooted.root
    · refine Rooted.step ?_
      rw [Function.update_of_ne hid]
      exact rooted_of_walkMeets fuel _ h

/-- The chain of ancestors of `x`, `x` included. -/
inductive Chain (par : EntityId → EntityId) : EntityId → List EntityId → Prop
  | root : Chain par noEntity []
  | step {x : EntityId} {l : List EntityId} : x ≠ noEntity → Chain par (par x) l → Chain par x (x :: l)

theorem Rooted.chain (h : Rooted par x) : ∃ l, Chain par x l := by
  induction h with
  | root => exact ⟨[], Chain.root⟩
  | @step z _ ih =>
    by_cases hz : z = noEntity
    · exact ⟨[], hz ▸ Chain.root⟩
    · obtain ⟨l, hl⟩ := ih
      exact ⟨z :: l, Chain.step hz hl⟩

theorem Chain.unique {l l' : List EntityId} (h : Chain par x l) (h' : Chain par x l') : l = l' := by
  induction h generalizing l' with
  | root =>
    cases h' with
    | root => rfl
    | step hne _ => exact absurd rfl hne
  | step hne _ ih =>
    cases h' with
    | root => exact absurd rfl hne
    | step _ h' => rw [ih h']

/-- Every element of a chain starts a chain that is a tail of it. -/
theorem Chain.suffix {l : List EntityId} (h : Chain par x l) {z : EntityId} (hz : z ∈ l) :
    ∃ l', Chain par z l' ∧ l' <:+ l := by
  induction h with
  | root => cases hz
  | @step w l hne hl ih =>
    rcases List.mem_cons.mp hz with rfl | hz
    · exact ⟨z :: l, Chain.step hne hl, List.suffix_refl _⟩
    · obtain ⟨l', hl', hsuf⟩ := ih hz
      exact ⟨l', hl', hsuf.trans (List.suffix_cons _ _)⟩

theorem Chain.nodup {l : List EntityId} (h : Chain par x l) : l.Nodup := by
  induction h with
  | root => exact List.nodup_nil
  | @step w l hne hl ih =>
    refine List.nodup_cons.mpr ⟨?_, ih⟩
    intro hmem
    obtain ⟨l', hl', hsuf⟩ := hl.suffix hmem
    have heq := (Chain.step hne hl).unique hl'
    have := hsuf.length_le
    rw [← heq, List.length_cons] at this
    omega

theorem Chain.head {l : List EntityId} {z : EntityId} (h : Chain par x (z :: l)) :
    x = z ∧ z ≠ noEntity := by
  cases h with
  | step hne _ => exact ⟨rfl, hne⟩

/-- All but the last of a chain have a parent. -/
theorem Chain.parent_ne {l : List EntityId} (h : Chain par x l) {z : EntityId} (hz : z ∈ l.dropLast) :
    par z ≠ noEntity := by
  induction h with
  | root => cases hz
  | @step w l hne hl ih =>
    cases l with
    | nil => cases hz
    | cons a l =>
      rw [List.dropLast_cons_cons, List.mem_cons] at hz
      rcases hz with rfl | hz
      · rw [hl.head.1]; exact hl.head.2
      · exact ih hz

/-- On a finite chain with fuel to spare, the walk decides membership. -/
theorem walkMeets_chain {id : EntityId} {l : List EntityId} {start : EntityId}
    (h : Chain e.parentOf start l) : ∀ fuel, l.length < fuel → (e.walkMeets id fuel start = true ↔ id ∈ l) := by
  induction h with
  | root =>
    intro fuel hf
    obtain ⟨fuel, rfl⟩ : ∃ k, fuel = k + 1 := ⟨fuel - 1, by omega⟩
    simp [walkMeets]
  | @step z l hne _ ih =>
    intro fuel hf
    rw [List.length_cons] at hf
    obtain ⟨fuel, rfl⟩ : ∃ k, fuel = k + 1 := ⟨fuel - 1, by omega⟩
    unfold walkMeets
    rw [if_neg hne]
    split_ifs with hid
    · simp [hid]
    · rw [ih fuel (by omega), List.mem_cons]
      constructor
      · exact Or.inr
      · rintro (rfl | h)
        · exact absurd rfl hid
        · exact h

end rooted

theorem parentOf_noEntity : e.parentOf noEntity = noEntity := by
  unfold parentOf record noEntity
  rw [e.table.record_zero]
  rfl

/-- A chain holds each existing ancestor once, and at most one handle that does not exist. -/
theorem length_chain_le {x : EntityId} {l : List EntityId} (h : Chain e.parentOf x l) :
    l.length ≤ e.table.liveCount + 1 := by
  have hsub : ∀ z ∈ l.dropLast, z ∈ e.ids := by
    intro z hz
    have hpar := h.parent_ne hz
    rw [ids, SlotTable.mem_liveIds]
    unfold parentOf at hpar
    cases hr : e.record z with
    | none => rw [hr] at hpar; exact absurd rfl hpar
    | some r =>
      have hr' : e.table.record z = some r := hr
      rw [hr']
      rfl
  have hlen : l.dropLast.length ≤ e.ids.length :=
    (List.Nodup.sublist (List.dropLast_sublist l) h.nodup).subperm hsub |>.length_le
  rw [List.length_dropLast, ids, SlotTable.length_liveIds] at hlen
  omega

/-- **The walk is exact**: it meets `id` exactly when `id` is among the ancestors. -/
theorem isBeneath_iff {start id : EntityId} {l : List EntityId} (h : Chain e.parentOf start l) :
    e.isBeneath start id = true ↔ id ∈ l :=
  e.walkMeets_chain h _ (by have := e.length_chain_le h; omega)

end Entities

end Grove
