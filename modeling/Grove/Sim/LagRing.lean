import Grove.Core.Broadphase
import Grove.Core.StoreRewind
import Grove.Lib.Circular
import Grove.Sim.Slots

/-! # The lag ring

`packages/core/src/runtime/lag-ring.ts`: the positions of the last captures, in slots that are written round and
round and regrown in place.  A capture is read back by the id that names it, but its lanes are addressed by the id's
slot alone: an id that was not live at the capture reads the place of whoever held its slot (`history_right`). -/

namespace Grove

/-- Milliseconds. -/
def maxRewindMs : ℚ := 250

/-- Two lanes of one length, and who was alive. -/
structure RingSlot where
  tick : ℤ
  length : ℕ
  posX : ℕ → JsNumber
  posY : ℕ → JsNumber
  ids : List EntityId
  filled : Bool

namespace RingSlot

def blank : RingSlot := ⟨-1, 0, fun _ => .finite 0, fun _ => .finite 0, [], false⟩

/-- Room for `cap` slots; lanes that are regrown are fresh. -/
def grow (slot : RingSlot) (cap : ℕ) : RingSlot :=
  if slot.length < cap then
    { slot with length := grownCapacity slot.length cap, posX := fun _ => .finite 0, posY := fun _ => .finite 0 }
  else slot

/-- The live positions, over what the lanes held. -/
def refill (slot : RingSlot) (rt : Runtime) (tick : ℤ) : RingSlot :=
  let cap := rt.transforms.count
  let grown := slot.grow cap
  { grown with
    tick := tick
    posX := fun i => if i < cap then (rt.transforms.cells i).posX else grown.posX i
    posY := fun i => if i < cap then (rt.transforms.cells i).posY else grown.posY i
    ids := rt.entities.ids
    filled := true }

/-- A read past a lane's end is zero. -/
def view (slot : RingSlot) (halfExtent : EntityId → Axis → JsNumber) : TransformView JsNumber where
  liveIds := slot.ids
  posX id := if handleIndex id < slot.length then slot.posX (handleIndex id) else .finite 0
  posY id := if handleIndex id < slot.length then slot.posY (handleIndex id) else .finite 0
  halfWidth id := halfExtent id .w
  halfHeight id := halfExtent id .h

end RingSlot

/-- The ring; `next` of its slots is the head. -/
structure LagRing where
  slots : Circular RingSlot

namespace LagRing

def new (simRate : ℚ) : LagRing := ⟨Circular.ofCapacity ⌈simRate * maxRewindMs / 1000⌉.toNat RingSlot.blank⟩

def depth (ring : LagRing) : ℕ := ring.slots.capacity

theorem depth_pos (ring : LagRing) : 0 < ring.depth := ring.slots.capacity_pos

def capture (ring : LagRing) (rt : Runtime) (tick : ℤ) : LagRing :=
  ⟨ring.slots.push ((ring.slots.cell ring.slots.next).refill rt tick)⟩

/-- The slot of the tick nearest `tick`, the first of those as near. -/
def slotFrom (tick : ℤ) : Option RingSlot → List RingSlot → Option RingSlot
  | best, [] => best
  | best, slot :: rest =>
    if !slot.filled then slotFrom tick best rest
    else if slot.tick = tick then some slot
    else
      match best with
      | none => slotFrom tick (some slot) rest
      | some held => slotFrom tick (if |slot.tick - tick| < |held.tick - tick| then some slot else some held) rest

def broadphaseAt (ring : LagRing) (viewTick : ℤ) (halfExtent : EntityId → Axis → JsNumber) :
    Option (TransformView JsNumber) :=
  (slotFrom viewTick none ring.slots.cells).map (fun slot => slot.view halfExtent)

/-- A tick that was captured is found. -/
theorem slotFrom_captured {tick : ℤ} : ∀ {slots : List RingSlot} (best : Option RingSlot),
    (∃ slot ∈ slots, slot.filled = true ∧ slot.tick = tick) →
    ∃ slot ∈ slots, slotFrom tick best slots = some slot ∧ slot.filled = true ∧ slot.tick = tick
  | [], _, h => by
    obtain ⟨_, hmem, -⟩ := h
    exact absurd hmem List.not_mem_nil
  | slot :: rest, best, h => by
    have hskip : ∀ best', ¬ (slot.filled = true ∧ slot.tick = tick) →
        ∃ slot' ∈ slot :: rest, slotFrom tick best' rest = some slot' ∧ slot'.filled = true ∧ slot'.tick = tick := by
      intro best' hnot
      obtain ⟨found, hfound, hright⟩ := h
      obtain rfl | hfound := List.mem_cons.mp hfound
      · exact absurd hright hnot
      · obtain ⟨slot', hmem, hslot'⟩ := slotFrom_captured best' ⟨found, hfound, hright⟩
        exact ⟨slot', List.mem_cons_of_mem _ hmem, hslot'⟩
    cases hfilled : slot.filled with
    | false =>
      have hnext : slotFrom tick best (slot :: rest) = slotFrom tick best rest := by
        cases best <;> simp [slotFrom, hfilled]
      rw [hnext]
      exact hskip best fun hboth => by simp [hfilled] at hboth
    | true =>
      by_cases htick : slot.tick = tick
      · refine ⟨slot, List.mem_cons_self, ?_, hfilled, htick⟩
        cases best <;> simp [slotFrom, hfilled, htick]
      · have hnext : ∃ best', slotFrom tick best (slot :: rest) = slotFrom tick best' rest := by
          cases best with
          | none => exact ⟨some slot, by simp [slotFrom, hfilled, htick]⟩
          | some held =>
            exact ⟨if |slot.tick - tick| < |held.tick - tick| then some slot else some held, by
              simp only [slotFrom, hfilled, htick, Bool.not_true, Bool.false_eq_true, if_false]⟩
        obtain ⟨best', hbest'⟩ := hnext
        rw [hbest']
        exact hskip best' fun hboth => htick hboth.2

end LagRing

/-! ### Slots of the store are never closed -/

namespace Runtime

/-- Every entity's slot is one the store addresses. -/
def Opened (rt : Runtime) : Prop := ∀ x, (rt.entities.record x).isSome → handleIndex x < rt.transforms.count

/-- The store addresses no fewer slots, and entities keep within them. -/
structure Grows (rt rt' : Runtime) : Prop where
  count : rt.transforms.count ≤ rt'.transforms.count
  opened : rt.Opened → rt'.Opened

section grows
variable {rt rt' rt'' : Runtime}

theorem Grows.refl (rt : Runtime) : Grows rt rt := ⟨le_rfl, id⟩

theorem Grows.trans (h : Grows rt rt') (h' : Grows rt' rt'') : Grows rt rt'' :=
  ⟨h.count.trans h'.count, h'.opened ∘ h.opened⟩

theorem SameSlots.grows (h : SameSlots rt rt') : Grows rt rt' := by
  refine ⟨h.transforms ▸ le_rfl, fun hopened x hx => ?_⟩
  rw [h.isSome] at hx
  rw [h.transforms]
  exact hopened x hx

theorem grows_of_eq (he : rt'.entities = rt.entities) (hcount : rt'.transforms.count = rt.transforms.count) : Grows rt rt' :=
  ⟨hcount.ge, fun hopened x hx => by
    rw [he] at hx
    rw [hcount]
    exact hopened x hx⟩

theorem spawn_grows {template ownerId : String} {x y : JsNumber} {id : EntityId}
    (h : rt.spawn template x y ownerId = .ok (id, rt')) : Grows rt rt' := by
  obtain ⟨-, -, hrecord, htransforms⟩ := spawn_slots h
  have hcount : rt'.transforms.count = max rt.transforms.count (handleIndex id + 1) := by
    rw [htransforms]
    rfl
  refine ⟨hcount ▸ le_max_left _ _, fun hopened z hz => ?_⟩
  rw [hcount]
  by_cases hid : z = id
  · rw [hid]
    exact Nat.lt_of_succ_le (le_max_right _ _)
  · rw [hrecord z hid] at hz
    exact (hopened z hz).trans_le (le_max_left _ _)

theorem step_grows (rt : Runtime) (op : Op) : Grows rt (rt.step op).1 := by
  cases op with
  | spawn template x y ownerId =>
    simp only [step]
    split
    · rename_i id rt' h
      exact spawn_grows h
    · exact Grows.refl rt
  | destroy id => exact (destroy_sameSlots rt id).grows
  | attachTo id parent =>
    simp only [step]
    split
    · rename_i rt' h
      exact (attachTo_sameSlots h).grows
    · exact Grows.refl rt
  | detach id => exact (detach_sameSlots rt id).grows
  | tag | untag | bubble | setPosition | setRotation | setScale | setOpacity | setLayer | ensureHost =>
    exact grows_of_eq rfl rfl
  | writeState rid field w => exact (writeState_sameSlots rt rid field w).grows
  | attachToEntity id klass inst =>
    have h := (attachToEntity_sameSlots rt id klass inst).grows
    simp only [step]
    rcases hout : rt.attachToEntity id klass inst with ⟨rt', err⟩
    rw [hout] at h
    exact h
  | attach key klass inst =>
    have h := (attach_sameSlots rt key klass inst).grows
    simp only [step]
    rcases hout : rt.attach key klass inst with ⟨rt', err⟩
    rw [hout] at h
    exact h

theorem acts_grows : ∀ (as : List Act) (rt : Runtime), Grows rt (rt.acts as) :=
  acts_chain Grows.refl Grows.trans (fun _ _ => grows_of_eq rfl rfl) step_grows

theorem teardown_grows (rt : Runtime) (d : EntityId) : Grows rt (rt.teardown d) := by
  have hcount : (rt.teardown d).transforms.count = rt.transforms.count := by
    show (rt.transforms.releaseSlot d).count = _
    unfold SimTransformStore.releaseSlot
    split_ifs <;> rfl
  refine ⟨hcount.ge, fun hopened x hx => ?_⟩
  rw [hcount]
  refine hopened x ?_
  replace hx : ((rt.entities.teardown d).record x).isSome := hx
  cases hd : rt.entities.record d with
  | none =>
    have hsame : rt.entities.teardown d = rt.entities := by
      unfold Entities.teardown
      rw [hd]
      show { rt.entities with table := rt.entities.table.release d } = _
      rw [SlotTable.release_of_none hd]
    rwa [hsame] at hx
  | some rd =>
    obtain ⟨r', hr'⟩ := Option.isSome_iff_exists.mp hx
    obtain ⟨-, q, hq, -⟩ := Entities.record_teardown_some hd hr'
    rw [hq]
    rfl

theorem foldl_teardown_grows : ∀ (ds : List EntityId) (rt : Runtime), Grows rt (ds.foldl teardown rt)
  | [], rt => Grows.refl rt
  | d :: ds, rt => (teardown_grows rt d).trans (foldl_teardown_grows ds (rt.teardown d))

theorem drainDestroyed_grows (rt : Runtime) (onEnd : List Act) : Grows rt (rt.drainDestroyed onEnd) := by
  unfold drainDestroyed
  split
  · exact Grows.refl rt
  · have hqueue : Grows rt { rt with entities := { rt.entities with pendingDestroy := [] } } :=
      SameSlots.grows ⟨fun _ => rfl, rfl⟩
    exact (hqueue.trans (acts_grows onEnd _)).trans (foldl_teardown_grows _ _)

theorem opened_new (persisted : Option SessionRecords) (facadeMembers : HostKey → List String) (simRate : ℚ) :
    (new persisted facadeMembers simRate).Opened := fun x hx => by
  have hnone : (new persisted facadeMembers simRate).entities.record x = none := by
    cases hrecord : (new persisted facadeMembers simRate).entities.record x with
    | none => rfl
    | some r =>
      have hsome : (SlotTable.empty.record x : Option EntityRecord).isSome := by
        rw [show SlotTable.empty.record x = some r from hrecord]
        rfl
      exact absurd (SlotTable.empty.record_isSome.mp hsome).1 (by simp [SlotTable.empty])
  rw [hnone] at hx
  cases hx

end grows

end Runtime

/-! ### Runs of captures -/

/-- One capture, and the world it was taken of. -/
structure Captured where
  tick : ℤ
  rt : Runtime

namespace Captured

/-- What the ring has of a captured world: a slot that was not open reads as the origin. -/
def view (c : Captured) (halfExtent : EntityId → Axis → JsNumber) : TransformView JsNumber where
  liveIds := c.rt.entities.ids
  posX id := if handleIndex id < c.rt.transforms.count then (c.rt.transforms.cells (handleIndex id)).posX else .finite 0
  posY id := if handleIndex id < c.rt.transforms.count then (c.rt.transforms.cells (handleIndex id)).posY else .finite 0
  halfWidth id := halfExtent id .w
  halfHeight id := halfExtent id .h

end Captured

inductive LagEvent where
  | acts (as : List Runtime.Act)
  | drain (onEnd : List Runtime.Act)
  | capture (tick : ℤ)

/-- The world, the ring, and every capture so far. -/
structure LagRun where
  rt : Runtime
  ring : LagRing
  captures : List Captured

namespace LagRun

def start (persisted : Option SessionRecords) (facadeMembers : HostKey → List String) (simRate : ℚ) : LagRun :=
  ⟨Runtime.new persisted facadeMembers simRate, LagRing.new simRate, []⟩

def step (s : LagRun) : LagEvent → LagRun
  | .acts as => { s with rt := s.rt.acts as }
  | .drain onEnd => { s with rt := s.rt.drainDestroyed onEnd }
  | .capture tick => { s with ring := s.ring.capture s.rt tick, captures := s.captures ++ [⟨tick, s.rt⟩] }

/-- Captures are in strictly increasing ticks. -/
def Increasing (s : LagRun) : LagEvent → Prop
  | .capture tick => ∀ c ∈ s.captures, c.tick < tick
  | .acts _ | .drain _ => True

instance (s : LagRun) : ∀ e, Decidable (s.Increasing e)
  | .capture tick => inferInstanceAs (Decidable (∀ c ∈ s.captures, c.tick < tick))
  | .acts _ | .drain _ => inferInstanceAs (Decidable True)

/-- A slot as it was filled. -/
structure Pictures (slot : RingSlot) (c : Captured) : Prop where
  tick : slot.tick = c.tick
  view : ∀ halfExtent, slot.view halfExtent = c.view halfExtent
  filled : slot.filled = true

/-- The ring holds the captures in turn; and no lane holds anything past the slots the store addresses. -/
structure Rung (s : LagRun) : Prop where
  opened : s.rt.Opened
  captures : ∀ c ∈ s.captures, c.rt.Opened
  ticks : s.captures.Pairwise (fun c c' => c.tick < c'.tick)
  blank : ∀ slot ∈ s.ring.slots.cells, ∀ i, s.rt.transforms.count ≤ i →
    slot.posX i = .finite 0 ∧ slot.posY i = .finite 0
  pictured : ∃ written, s.ring.slots.Holds written ∧ List.Forall₂ Pictures written s.captures ∧
    ∀ slot ∈ s.ring.slots.cells, slot.filled = true → slot ∈ written

theorem rung_start (persisted : Option SessionRecords) (facadeMembers : HostKey → List String) (simRate : ℚ) :
    (start persisted facadeMembers simRate).Rung where
  opened := Runtime.opened_new persisted facadeMembers simRate
  captures _ hc := absurd hc List.not_mem_nil
  ticks := List.Pairwise.nil
  blank slot hslot i _ := by
    obtain rfl := List.eq_of_mem_replicate hslot
    exact ⟨rfl, rfl⟩
  pictured := ⟨[], Circular.holds_ofCapacity _ _, List.Forall₂.nil, fun slot hslot hfilled => by
    obtain rfl := List.eq_of_mem_replicate hslot
    cases hfilled⟩

theorem Rung.grows {s : LagRun} (h : s.Rung) {rt : Runtime} (hgrows : s.rt.Grows rt) : Rung { s with rt := rt } where
  opened := hgrows.opened h.opened
  captures := h.captures
  ticks := h.ticks
  blank slot hslot i hi := h.blank slot hslot i (hgrows.count.trans hi)
  pictured := h.pictured

/-- The lanes of a slot have room for what it is given. -/
theorem count_le_grow (slot : RingSlot) (cap : ℕ) : cap ≤ (slot.grow cap).length := by
  unfold RingSlot.grow
  split_ifs with h
  · exact (le_grownCapacity _ _).1
  · exact not_lt.mp h

theorem blank_grow {slot : RingSlot} {i : ℕ} (cap : ℕ) (h : slot.posX i = .finite 0 ∧ slot.posY i = .finite 0) :
    (slot.grow cap).posX i = .finite 0 ∧ (slot.grow cap).posY i = .finite 0 := by
  unfold RingSlot.grow
  split_ifs
  · exact ⟨rfl, rfl⟩
  · exact h

theorem pictures_refill {slot : RingSlot} {rt : Runtime} (tick : ℤ)
    (h : ∀ i, rt.transforms.count ≤ i → slot.posX i = .finite 0 ∧ slot.posY i = .finite 0) :
    Pictures (slot.refill rt tick) ⟨tick, rt⟩ := by
  have hlane : ∀ (cell live : ℕ → JsNumber), (∀ i, rt.transforms.count ≤ i → cell i = .finite 0) → ∀ id : EntityId,
      (if handleIndex id < (slot.grow rt.transforms.count).length then
        if handleIndex id < rt.transforms.count then live (handleIndex id) else cell (handleIndex id)
      else .finite 0) = if handleIndex id < rt.transforms.count then live (handleIndex id) else .finite 0 := by
    intro cell live hcell id
    have hroom := count_le_grow slot rt.transforms.count
    split_ifs with hlength hcount
    · rfl
    · exact hcell _ (not_lt.mp hcount)
    · omega
    · rfl
  refine ⟨rfl, fun halfExtent => ?_, rfl⟩
  show (⟨_, _, _, _, _⟩ : TransformView JsNumber) = ⟨_, _, _, _, _⟩
  congr 1
  · exact funext (hlane (slot.grow rt.transforms.count).posX (fun i => (rt.transforms.cells i).posX)
      fun i hi => (blank_grow _ (h i hi)).1)
  · exact funext (hlane (slot.grow rt.transforms.count).posY (fun i => (rt.transforms.cells i).posY)
      fun i hi => (blank_grow _ (h i hi)).2)

theorem cell_mem (c : Circular RingSlot) (i : ℕ) : c.cell i ∈ c.cells := List.get_mem _ _

theorem Rung.capture {s : LagRun} (h : s.Rung) {tick : ℤ} (htick : ∀ c ∈ s.captures, c.tick < tick) :
    (s.step (.capture tick)).Rung := by
  obtain ⟨written, hholds, hpictures, hfilled⟩ := h.pictured
  have hold := h.blank _ (cell_mem s.ring.slots s.ring.slots.next)
  refine ⟨h.opened, ?_, ?_, ?_, ?_⟩
  · intro c hc
    obtain hc | hc := List.mem_append.mp hc
    · exact h.captures c hc
    · obtain rfl := List.mem_singleton.mp hc
      exact h.opened
  · refine List.pairwise_append.mpr ⟨h.ticks, List.pairwise_singleton _ _, fun c hc c' hc' => ?_⟩
    obtain rfl := List.mem_singleton.mp hc'
    exact htick c hc
  · intro slot hslot i hi
    obtain hslot | rfl := List.mem_or_eq_of_mem_set hslot
    · exact h.blank slot hslot i hi
    · have hlate : ¬ i < s.rt.transforms.count := not_lt.mpr hi
      have hblank := blank_grow s.rt.transforms.count (hold i hi)
      simp only [RingSlot.refill, if_neg hlate]
      exact hblank
  · refine ⟨written ++ [_], hholds.push _, List.rel_append hpictures (.cons (pictures_refill tick hold) .nil), ?_⟩
    intro slot hslot hslotfilled
    obtain hslot | rfl := List.mem_or_eq_of_mem_set hslot
    · exact List.mem_append_left _ (hfilled slot hslot hslotfilled)
    · exact List.mem_append_right _ List.mem_cons_self

theorem Rung.step {s : LagRun} (h : s.Rung) (e : LagEvent) (he : s.Increasing e) : (s.step e).Rung := by
  cases e with
  | acts as => exact h.grows (Runtime.acts_grows as s.rt)
  | drain onEnd => exact h.grows (Runtime.drainDestroyed_grows s.rt onEnd)
  | capture tick => exact h.capture he

/-- A capture of the last `depth` is read back as it was taken. -/
theorem Rung.broadphaseAt {s : LagRun} (h : s.Rung) {k : ℕ} {c : Captured} (hk : s.captures[k]? = some c)
    (hrecent : s.captures.length ≤ k + s.ring.depth) (halfExtent : EntityId → Axis → JsNumber) :
    s.ring.broadphaseAt c.tick halfExtent = some (c.view halfExtent) := by
  obtain ⟨written, hholds, hpictures, hfilled⟩ := h.pictured
  obtain ⟨hlt, rfl⟩ := List.getElem?_eq_some_iff.mp hk
  have hlength := hpictures.length_eq
  have hpicture : Pictures written[k] s.captures[k] := hpictures.get _ _
  have hcell : s.ring.slots.cell k = written[k] := hholds.cells k (by omega) (by
    rw [hlength]
    exact hrecent)
  obtain ⟨slot, hslot, hfound, hslotfilled, htick⟩ := LagRing.slotFrom_captured none
    ⟨written[k], hcell ▸ cell_mem s.ring.slots k, hpicture.filled, hpicture.tick⟩
  -- the ticks are distinct, so the slot found is the one that was filled then
  obtain ⟨j, hj, hslotj⟩ := List.getElem_of_mem (hfilled slot hslot hslotfilled)
  have hjcaptures : j < s.captures.length := hlength ▸ hj
  have hpicturej : Pictures written[j] s.captures[j] := hpictures.get _ _
  have hjk : j = k := by
    have hticks : s.captures[j].tick = s.captures[k].tick := by
      rw [← hpicturej.tick, hslotj, htick]
    by_contra hne
    obtain hjk | hkj := lt_or_gt_of_ne hne
    · have := List.pairwise_iff_getElem.mp h.ticks j k hjcaptures hlt hjk
      omega
    · have := List.pairwise_iff_getElem.mp h.ticks k j hlt hjcaptures hkj
      omega
  subst hjk
  rw [LagRing.broadphaseAt, hfound, Option.map_some, ← hslotj, hpicture.view]

theorem rung_run {persisted : Option SessionRecords} {facadeMembers : HostKey → List String} {simRate : ℚ}
    {es : List LagEvent} (h : Meets step Increasing (start persisted facadeMembers simRate) es) :
    (exec step (start persisted facadeMembers simRate) es).Rung :=
  Meets.invariant (fun _ e hs he => hs.step e he) (rung_start persisted facadeMembers simRate) h

section queries
variable {c : Captured} {halfExtent : EntityId → Axis → JsNumber} {a : Planar JsNumber} {id : EntityId}

/-- An entity that was live stood where its slot says. -/
theorem view_position (halfExtent : EntityId → Axis → JsNumber) (hopened : c.rt.Opened) (hid : id ∈ c.rt.entities.ids) :
    (c.view halfExtent).posX id = (liveTransformView c.rt halfExtent).posX id ∧
      (c.view halfExtent).posY id = (liveTransformView c.rt halfExtent).posY id := by
  have hlt : handleIndex id < c.rt.transforms.count := hopened id (c.rt.entities.table.mem_liveIds.mp hid)
  exact ⟨if_pos hlt, if_pos hlt⟩

theorem overlapping_captured (hopened : c.rt.Opened) (hid : id ∈ c.rt.entities.ids) :
    Broadphase.overlapping a (c.view halfExtent) id = Broadphase.overlapping a (liveTransformView c.rt halfExtent) id := by
  refine List.filter_congr fun other hother => ?_
  obtain ⟨hx, hy⟩ := view_position halfExtent hopened hid
  obtain ⟨hotherx, hothery⟩ := view_position halfExtent hopened hother
  rw [Broadphase.overlaps, Broadphase.overlaps, hx, hy, hotherx, hothery]
  rfl

/-- An entity that was not live has no overlap where its slot stood among nobody's boxes. -/
theorem overlapping_other (a : Planar JsNumber) (halfExtent : EntityId → Axis → JsNumber)
    (hid : id ∉ c.rt.entities.ids) :
    Broadphase.overlapping a (c.view halfExtent) id = [] ↔
      ∀ other ∈ c.rt.entities.ids, ¬ Broadphase.overlaps a (c.view halfExtent) id other = true := by
  rw [List.eq_nil_iff_forall_not_mem]
  refine forall_congr' fun other => ?_
  rw [Broadphase.mem_overlapping]
  have hne : other ∈ c.rt.entities.ids → other ≠ id := fun hother heq => hid (heq ▸ hother)
  show ¬ (other ∈ c.rt.entities.ids ∧ _ ∧ _) ↔ _
  tauto

end queries

/-- **What a historical query sees**: a capture of the last `depth` is found by its tick, lists who was live then and
has each of them where it stood; so the boxes of an entity of that moment overlap as they did.  An entity that was not
live then has no overlap exactly when no box of that moment meets the one its slot holds, which is the box of whoever
had the slot, or one at the origin. -/
theorem history_right (persisted : Option SessionRecords) (facadeMembers : HostKey → List String) (simRate : ℚ)
    (es : List LagEvent) (h : Meets step Increasing (start persisted facadeMembers simRate) es)
    (halfExtent : EntityId → Axis → JsNumber) (a : Planar JsNumber) (k : ℕ) (c : Captured)
    (hk : (exec step (start persisted facadeMembers simRate) es).captures[k]? = some c)
    (hrecent : (exec step (start persisted facadeMembers simRate) es).captures.length ≤
      k + (exec step (start persisted facadeMembers simRate) es).ring.depth) :
    ∃ view, (exec step (start persisted facadeMembers simRate) es).ring.broadphaseAt c.tick halfExtent = some view ∧
      view.liveIds = c.rt.entities.ids ∧
      (∀ id ∈ c.rt.entities.ids, view.posX id = (liveTransformView c.rt halfExtent).posX id ∧
        view.posY id = (liveTransformView c.rt halfExtent).posY id) ∧
      ∀ id, ((id ∈ c.rt.entities.ids →
          Broadphase.overlapping a view id = Broadphase.overlapping a (liveTransformView c.rt halfExtent) id) ∧
        (id ∉ c.rt.entities.ids → Broadphase.overlapping a view id = [])) ↔
        id ∈ c.rt.entities.ids ∨
          ∀ other ∈ c.rt.entities.ids, ¬ Broadphase.overlaps a (c.view halfExtent) id other = true := by
  have hrung := rung_run h
  have hopened := hrung.captures c (List.mem_of_getElem? hk)
  refine ⟨c.view halfExtent, hrung.broadphaseAt hk hrecent halfExtent, rfl, fun id hid => view_position halfExtent hopened hid,
    fun id => ?_⟩
  by_cases hid : id ∈ c.rt.entities.ids
  · exact iff_of_true ⟨fun _ => overlapping_captured hopened hid, fun hnot => absurd hid hnot⟩ (.inl hid)
  · have hother := overlapping_other a halfExtent hid
    tauto

/-- A world of one coin. -/
def oneCoin : Runtime :=
  (Runtime.new none (fun _ => []) 60).acts [.op (.spawn "coin" (.finite 0) (.finite 0) "")]

/-- One coin, a capture, and another far from it. -/
def lateCoin : List LagEvent :=
  [.acts [.op (.spawn "coin" (.finite 0) (.finite 0) "")], .capture 1,
    .acts [.op (.spawn "coin" (.finite 800) (.finite 0) "")]]

/-- The last coin is at the origin of a capture it is not in, on top of the first. -/
theorem history_not_right : ¬ ∀ (persisted : Option SessionRecords) (facadeMembers : HostKey → List String) (simRate : ℚ)
    (es : List LagEvent), Meets step Increasing (start persisted facadeMembers simRate) es →
    ∀ (halfExtent : EntityId → Axis → JsNumber) (a : Planar JsNumber) (k : ℕ) (c : Captured),
    (exec step (start persisted facadeMembers simRate) es).captures[k]? = some c →
    (exec step (start persisted facadeMembers simRate) es).captures.length ≤
      k + (exec step (start persisted facadeMembers simRate) es).ring.depth →
    ∃ view, (exec step (start persisted facadeMembers simRate) es).ring.broadphaseAt c.tick halfExtent = some view ∧
      view.liveIds = c.rt.entities.ids ∧
      (∀ id ∈ c.rt.entities.ids, view.posX id = (liveTransformView c.rt halfExtent).posX id ∧
        view.posY id = (liveTransformView c.rt halfExtent).posY id) ∧
      ∀ id, (id ∈ c.rt.entities.ids →
          Broadphase.overlapping a view id = Broadphase.overlapping a (liveTransformView c.rt halfExtent) id) ∧
        (id ∉ c.rt.entities.ids → Broadphase.overlapping a view id = []) := by
  intro h
  have hmeets : Meets step Increasing (start none (fun _ => []) 60) lateCoin := by decide
  have hrecent : (exec step (start none (fun _ => []) 60) lateCoin).captures.length ≤
      0 + (exec step (start none (fun _ => []) 60) lateCoin).ring.depth := by
    rw [Nat.zero_add]
    exact LagRing.depth_pos _
  obtain ⟨view, hview, -, -, hquery⟩ := h none (fun _ => []) 60 lateCoin hmeets (fun _ _ => .finite 10)
    (.double .finite) 0 ⟨1, oneCoin⟩ rfl hrecent
  have hpicture := (rung_run hmeets).broadphaseAt (c := ⟨1, oneCoin⟩) (k := 0) rfl hrecent
    (fun _ _ => .finite 10)
  obtain rfl := Option.some_inj.mp (hview.symm.trans hpicture)
  have hnone := overlapping_other (.double .finite) (fun _ _ => .finite 10) (by decide)
    |>.mp ((hquery 16777217).2 (by decide))
  have hplace : ∀ id ∈ [16777216, 16777217], (Captured.view ⟨1, oneCoin⟩ fun _ _ => .finite 10).posX id = .finite 0 ∧
      (Captured.view ⟨1, oneCoin⟩ fun _ _ => .finite 10).posY id = .finite 0 := by decide
  obtain ⟨hx, hy⟩ := hplace 16777216 (by decide)
  obtain ⟨hx', hy'⟩ := hplace 16777217 (by decide)
  refine hnone 16777216 (by decide) ?_
  rw [Broadphase.overlaps, hx, hy, hx', hy']
  norm_num [Captured.view, Planar.double, JsNumber.sub, JsNumber.add, JsNumber.neg, JsNumber.abs, JsNumber.atMost,
    JsNumber.less]

/-- The first coin is read back from a capture it is in. -/
theorem history_right_first : ∃ view,
    (exec step (start none (fun _ => []) 60) lateCoin).ring.broadphaseAt 1 (fun _ _ => .finite 10) = some view ∧
      16777216 ∈ view.liveIds ∧ Broadphase.overlapping (.double .finite) view 16777216 =
        Broadphase.overlapping (.double .finite) (liveTransformView oneCoin fun _ _ => .finite 10) 16777216 := by
  have hrecent : (exec step (start none (fun _ => []) 60) lateCoin).captures.length ≤
      0 + (exec step (start none (fun _ => []) 60) lateCoin).ring.depth := by
    rw [Nat.zero_add]
    exact LagRing.depth_pos _
  obtain ⟨view, hview, hids, -, hquery⟩ := history_right none (fun _ => []) 60 lateCoin (by decide)
    (fun _ _ => .finite 10) (.double .finite) 0 ⟨1, oneCoin⟩ rfl hrecent
  have hfirst : 16777216 ∈ oneCoin.entities.ids := by decide
  exact ⟨view, hview, hids ▸ hfirst, ((hquery 16777216).mpr (.inl hfirst)).1 hfirst⟩

end LagRun
end Grove
