import Grove.Core.Broadphase

/-! # Contacts

`packages/core/src/runtime/contacts.ts`.  A contact is found twice: `touching` asks the broadphase about one entity,
`pairs` walks all the live bodies for the tick's `@onCollide`.  `touching` answers nothing for an entity without a
collider and `pairs` takes that entity for a point, so they part exactly there (`contacts_agree`). -/

namespace Grove

/-- An axis-aligned rectangle, named by its edges. -/
structure Bounds where
  left : JsNumber
  right : JsNumber
  top : JsNumber
  bottom : JsNumber
deriving DecidableEq

/-- The stores, and the bounds of the collider a script has assigned to an entity's facade. -/
structure ContactWorld where
  rt : Runtime
  colliders : EntityId → Option Bounds

namespace ContactWorld

section source
variable (round : ℚ → JsNumber) (w : ContactWorld)

def halfExtent (id : EntityId) (axis : Axis) : JsNumber :=
  match w.colliders id with
  | none => .finite 0
  | some b =>
    match axis with
    | .w => ((JsNumber.sub round b.right b.left).abs).half round
    | .h => ((JsNumber.sub round b.top b.bottom).abs).half round

def view : TransformView JsNumber := liveTransformView w.rt (w.halfExtent round)

/-- `parent` is what the record of `id` names, if it has one. -/
def isSelfOrKin (id other : EntityId) (parent : Option EntityId) : Bool :=
  decide (id = other) || decide (parent = some other) ||
    decide ((w.rt.entities.record other).map EntityRecord.parent = some id)

/-- Who overlaps `id`; `seen` is the latest capture, for a query that asks what was seen. -/
def touching (id : EntityId) (tag : Option String) (seen : Option (TransformView JsNumber)) : List EntityId :=
  if (w.colliders id).isNone then []
  else
    let parent := (w.rt.entities.record id).map EntityRecord.parent
    (Broadphase.overlapping (.double round) (seen.getD (w.view round)) id).filter (fun other =>
      !w.isSelfOrKin id other parent &&
        match tag with
        | none => true
        | some tag => decide (tag ∈ w.rt.tags.tagsOf other))

/-- What the pair walk reads of one body. -/
structure Body where
  id : EntityId
  posX : JsNumber
  posY : JsNumber
  halfW : JsNumber
  halfH : JsNumber
  parent : EntityId

def body (id : EntityId) : Body where
  id := id
  posX := (w.view round).posX id
  posY := (w.view round).posY id
  halfW := (w.view round).halfWidth id
  halfH := (w.view round).halfHeight id
  parent := ((w.rt.entities.record id).map EntityRecord.parent).getD noEntity

/-- The inner loop's tests. -/
def Body.meets (a b : Body) : Bool :=
  !(decide (a.parent = b.id) || decide (b.parent = a.id)) &&
    JsNumber.atMost (JsNumber.sub round a.posX b.posX).abs (JsNumber.add round a.halfW b.halfW) &&
    JsNumber.atMost (JsNumber.sub round a.posY b.posY).abs (JsNumber.add round a.halfH b.halfH)

/-- Each body against those behind it. -/
def pairsFrom : List Body → List (EntityId × EntityId)
  | [] => []
  | a :: rest => (rest.filter (a.meets round)).map (fun b => (a.id, b.id)) ++ pairsFrom rest

/-- The overlapping pairs of the tick. -/
def pairs : List (EntityId × EntityId) := pairsFrom round (w.rt.entities.ids.map (w.body round))

end source

/-! ### What the pair walk finds -/

/-- Live ids are listed by slot. -/
theorem slots_increase (w : ContactWorld) :
    w.rt.entities.ids.Pairwise (fun a b => handleIndex a < handleIndex b) := by
  rw [Entities.ids, SlotTable.liveIds, List.pairwise_map]
  refine List.Pairwise.imp_of_mem ?_ (List.pairwise_lt_range.filter _)
  intro i j hi hj hlt
  rw [List.mem_filter] at hi hj
  rwa [(w.rt.entities.table.record_idAt hi.2).2, (w.rt.entities.table.record_idAt hj.2).2]

section walk
variable {round : ℚ → JsNumber} {w : ContactWorld} {ids : List EntityId} {a b : EntityId}

theorem mem_pairsFrom (h : ids.Pairwise (fun a b => handleIndex a < handleIndex b)) :
    (a, b) ∈ pairsFrom round (ids.map (w.body round)) ↔
      a ∈ ids ∧ b ∈ ids ∧ handleIndex a < handleIndex b ∧ (w.body round a).meets round (w.body round b) = true := by
  induction ids with
  | nil => simp [pairsFrom]
  | cons c rest ih =>
    obtain ⟨hfirst, hrest⟩ := List.pairwise_cons.mp h
    have hhead : (a, b) ∈ ((rest.map (w.body round)).filter ((w.body round c).meets round)).map
        (fun b => ((w.body round c).id, b.id)) ↔
        a = c ∧ b ∈ rest ∧ (w.body round c).meets round (w.body round b) = true := by
      constructor
      · intro hmem
        obtain ⟨other, hother, heq⟩ := List.mem_map.mp hmem
        obtain ⟨hlisted, hmeets⟩ := List.mem_filter.mp hother
        obtain ⟨z, hz, rfl⟩ := List.mem_map.mp hlisted
        obtain ⟨rfl, rfl⟩ := Prod.mk.inj heq
        exact ⟨rfl, hz, hmeets⟩
      · rintro ⟨rfl, hb, hmeets⟩
        exact List.mem_map.mpr ⟨w.body round b, List.mem_filter.mpr ⟨List.mem_map_of_mem hb, hmeets⟩, rfl⟩
    rw [List.map_cons, pairsFrom, List.mem_append, hhead, ih hrest, List.mem_cons, List.mem_cons]
    constructor
    · rintro (⟨rfl, hb, hmeets⟩ | ⟨ha, hb, hlt, hmeets⟩)
      · exact ⟨.inl rfl, .inr hb, hfirst b hb, hmeets⟩
      · exact ⟨.inr ha, .inr hb, hlt, hmeets⟩
    · rintro ⟨ha | ha, hb | hb, hlt, hmeets⟩
      · subst ha hb
        exact absurd hlt (lt_irrefl _)
      · subst ha
        exact .inl ⟨rfl, hb, hmeets⟩
      · -- the later of the two is first in the list
        subst hb
        exact absurd hlt (not_lt_of_gt (hfirst a ha))
      · exact .inr ⟨ha, hb, hlt, hmeets⟩

theorem nodup_pairsFrom (h : ids.Pairwise (fun a b => handleIndex a < handleIndex b)) :
    (pairsFrom round (ids.map (w.body round))).Nodup := by
  induction ids with
  | nil => exact List.nodup_nil
  | cons c rest ih =>
    obtain ⟨hfirst, hrest⟩ := List.pairwise_cons.mp h
    have hnodup : rest.Nodup := hrest.imp fun hlt => ne_of_apply_ne handleIndex (ne_of_lt hlt)
    rw [List.map_cons, pairsFrom, List.filter_map, List.map_map]
    refine List.nodup_append.mpr ⟨?_, ih hrest, ?_⟩
    · exact (hnodup.filter _).map fun _ _ heq => (Prod.mk.inj heq).2
    · rintro ⟨x, y⟩ hxy ⟨x', y'⟩ hxy' heq
      obtain ⟨rfl, rfl⟩ := Prod.mk.inj heq
      obtain ⟨_, -, hpair⟩ := List.mem_map.mp hxy
      obtain ⟨rfl, -⟩ := Prod.mk.inj hpair
      exact absurd (hfirst _ ((mem_pairsFrom hrest).mp hxy').1) (lt_irrefl _)

theorem mem_pairs : (a, b) ∈ w.pairs round ↔ a ∈ w.rt.entities.ids ∧ b ∈ w.rt.entities.ids ∧
    handleIndex a < handleIndex b ∧ (w.body round a).meets round (w.body round b) = true :=
  mem_pairsFrom w.slots_increase

theorem nodup_pairs : (w.pairs round).Nodup := nodup_pairsFrom w.slots_increase

end walk

/-! ### Where the two agree -/

section agree
variable {round : ℚ → JsNumber} {w : ContactWorld} {a b : EntityId}

/-- One of the two is the other's parent. -/
def Kin (w : ContactWorld) (a b : EntityId) : Prop := w.rt.entities.parentOf a = b ∨ w.rt.entities.parentOf b = a

/-- The boxes overlap, where an entity without a collider is a point. -/
def Overlap (round : ℚ → JsNumber) (w : ContactWorld) (a b : EntityId) : Prop :=
  Broadphase.overlaps (.double round) (w.view round) a b = true

theorem overlap_comm (hodd : ∀ q, round (-q) = (round q).neg) : w.Overlap round a b ↔ w.Overlap round b a := by
  have hsymm : Broadphase.overlaps (.double round) (w.view round) a b =
      Broadphase.overlaps (.double round) (w.view round) b a := by
    show (JsNumber.atMost (JsNumber.sub round _ _).abs (JsNumber.add round _ _) &&
      JsNumber.atMost (JsNumber.sub round _ _).abs (JsNumber.add round _ _)) = _
    rw [JsNumber.abs_sub_swap hodd, JsNumber.add_swap round ((w.view round).halfWidth a),
      JsNumber.abs_sub_swap hodd ((w.view round).posY a), JsNumber.add_swap round ((w.view round).halfHeight a)]
    rfl
  rw [Overlap, Overlap, hsymm]

theorem parent_of_mem (h : a ∈ w.rt.entities.ids) :
    (w.rt.entities.record a).map EntityRecord.parent = some (w.rt.entities.parentOf a) := by
  obtain ⟨r, hr⟩ := Option.isSome_iff_exists.mp (w.rt.entities.table.mem_liveIds.mp h)
  have hrecord : w.rt.entities.record a = some r := hr
  rw [Entities.parentOf, hrecord]
  rfl

theorem meets_iff (ha : a ∈ w.rt.entities.ids) (hb : b ∈ w.rt.entities.ids) :
    (w.body round a).meets round (w.body round b) = true ↔ ¬ w.Kin a b ∧ w.Overlap round a b := by
  have hparents : (w.body round a).parent = w.rt.entities.parentOf a ∧
      (w.body round b).parent = w.rt.entities.parentOf b := by
    constructor
    · show ((w.rt.entities.record a).map EntityRecord.parent).getD noEntity = _
      rw [parent_of_mem ha, Option.getD_some]
    · show ((w.rt.entities.record b).map EntityRecord.parent).getD noEntity = _
      rw [parent_of_mem hb, Option.getD_some]
  rw [Body.meets, hparents.1, hparents.2, Bool.and_assoc, Bool.and_eq_true]
  refine and_congr ?_ Iff.rfl
  rw [Bool.not_eq_true', Bool.or_eq_false_iff, decide_eq_false_iff_not, decide_eq_false_iff_not, Kin, not_or]
  exact Iff.rfl

theorem mem_touching (ha : a ∈ w.rt.entities.ids) (hab : a ≠ b) : b ∈ w.touching round a none none ↔
    (w.colliders a).isSome ∧ b ∈ w.rt.entities.ids ∧ ¬ w.Kin a b ∧ w.Overlap round a b := by
  cases hcollider : w.colliders a with
  | none => simp [touching, hcollider]
  | some bounds =>
    rw [touching, hcollider, if_neg (by simp), List.mem_filter, Option.getD_none, Broadphase.mem_overlapping,
      parent_of_mem ha]
    by_cases hb : b ∈ w.rt.entities.ids
    · have hkin : w.isSelfOrKin a b (some (w.rt.entities.parentOf a)) = true ↔ w.Kin a b := by
        rw [isSelfOrKin, parent_of_mem hb, Bool.or_eq_true, Bool.or_eq_true, decide_eq_true_eq, decide_eq_true_eq,
          decide_eq_true_eq, Option.some_inj, Option.some_inj, Kin]
        simp only [hab, false_or]
      rw [Bool.and_true, Bool.not_eq_true', ← Bool.not_eq_true, hkin]
      constructor
      · rintro ⟨⟨-, -, hoverlap⟩, hfree⟩
        exact ⟨rfl, hb, hfree, hoverlap⟩
      · rintro ⟨-, -, hfree, hoverlap⟩
        exact ⟨⟨hb, hab.symm, hoverlap⟩, hfree⟩
    · constructor
      · rintro ⟨⟨hlive, -⟩, -⟩
        exact absurd hlive hb
      · rintro ⟨-, hlive, -⟩
        exact absurd hlive hb

/-- How often the pair walk reports two entities, in either order. -/
def occurrences (round : ℚ → JsNumber) (w : ContactWorld) (a b : EntityId) : ℕ :=
  (w.pairs round).countP (fun p => p = (a, b) ∨ p = (b, a))

theorem Kin.symm (h : w.Kin a b) : w.Kin b a := Or.symm h

/-- With the earlier slot first, the walk can only have reported the pair so. -/
theorem occurrences_of_lt (hlt : handleIndex a < handleIndex b) (ha : a ∈ w.rt.entities.ids)
    (hb : b ∈ w.rt.entities.ids) : w.occurrences round a b = 1 ↔ ¬ w.Kin a b ∧ w.Overlap round a b := by
  have hother : (b, a) ∉ w.pairs round := fun hmem => absurd (mem_pairs.mp hmem).2.2.1 (not_lt_of_gt hlt)
  have hcount : w.occurrences round a b = (w.pairs round).count (a, b) := by
    refine List.countP_congr fun p hp => ?_
    simp only [decide_eq_true_eq, beq_iff_eq]
    exact or_iff_left fun heq => hother (heq ▸ hp)
  have hmem : (a, b) ∈ w.pairs round ↔ ¬ w.Kin a b ∧ w.Overlap round a b := by
    rw [mem_pairs, meets_iff ha hb]
    simp only [ha, hb, hlt, true_and]
  rw [hcount, ← hmem]
  constructor
  · intro hone
    exact List.count_pos_iff.mp (by omega)
  · exact List.count_eq_one_of_mem nodup_pairs

theorem occurrences_comm : w.occurrences round a b = w.occurrences round b a :=
  List.countP_congr fun p _ => by
    simp only [decide_eq_true_eq]
    exact or_comm

theorem occurrences_iff (hodd : ∀ q, round (-q) = (round q).neg) (ha : a ∈ w.rt.entities.ids)
    (hb : b ∈ w.rt.entities.ids) (hab : a ≠ b) :
    w.occurrences round a b = 1 ↔ ¬ w.Kin a b ∧ w.Overlap round a b := by
  have hslots : handleIndex a ≠ handleIndex b := fun heq =>
    hab (w.rt.entities.table.eq_of_handleIndex_eq (w.rt.entities.table.mem_liveIds.mp ha)
      (w.rt.entities.table.mem_liveIds.mp hb) heq)
  obtain hlt | hlt := lt_or_gt_of_ne hslots
  · exact occurrences_of_lt hlt ha hb
  · rw [occurrences_comm, occurrences_of_lt hlt hb ha, overlap_comm hodd]
    exact and_congr_left' (not_congr ⟨Kin.symm, Kin.symm⟩)

/-- **Where contact events agree with contact queries**: two live entities are reported as a pair exactly when each
touches the other, if and only if both have a collider, or they are no contact at all. -/
theorem contacts_agree (round : ℚ → JsNumber) (hodd : ∀ q, round (-q) = (round q).neg) (w : ContactWorld)
    {a b : EntityId} (ha : a ∈ w.rt.entities.ids) (hb : b ∈ w.rt.entities.ids) (hab : a ≠ b) :
    ((w.occurrences round a b = 1 ↔ b ∈ w.touching round a none none) ∧
        (w.occurrences round a b = 1 ↔ a ∈ w.touching round b none none)) ↔
      (w.colliders a).isSome ∧ (w.colliders b).isSome ∨ w.Kin a b ∨ ¬ w.Overlap round a b := by
  have hkin : w.Kin b a ↔ w.Kin a b := ⟨Kin.symm, Kin.symm⟩
  rw [occurrences_iff hodd ha hb hab, mem_touching ha hab, mem_touching hb hab.symm, overlap_comm hodd (a := b), hkin]
  simp only [ha, hb, true_and]
  tauto

end agree

/-- Two entities spawned at one place. -/
def twoCoins (collider : Option Bounds) : ContactWorld where
  rt := (Runtime.new none (fun _ => []) 60).acts
    [.op (.spawn "coin" (.finite 0) (.finite 0) ""), .op (.spawn "coin" (.finite 0) (.finite 0) "")]
  colliders _ := collider

/-- A box two units wide and two high. -/
def square : Bounds := ⟨.finite (-1), .finite 1, .finite 1, .finite (-1)⟩

theorem ids_twoCoins (collider : Option Bounds) : (twoCoins collider).rt.entities.ids = [16777216, 16777217] := by
  show ((Runtime.new none (fun _ => []) 60).acts _).entities.ids = _
  decide

theorem contacts_agree_boxes :
    (twoCoins (some square)).occurrences .finite 16777216 16777217 = 1 ∧
      16777217 ∈ (twoCoins (some square)).touching .finite 16777216 none none ∧
      16777216 ∈ (twoCoins (some square)).touching .finite 16777217 none none := by
  have hids := ids_twoCoins (some square)
  have hagree := (contacts_agree .finite (fun _ => rfl) (twoCoins (some square))
    (a := 16777216) (b := 16777217) (by simp [hids]) (by simp [hids]) (by decide)).mpr (.inl ⟨rfl, rfl⟩)
  have hone : (twoCoins (some square)).occurrences .finite 16777216 16777217 = 1 := by decide +kernel
  exact ⟨hone, hagree.1.mp hone, hagree.2.mp hone⟩

/-- Without colliders the two are a pair of the tick, and neither touches the other. -/
theorem pair_without_colliders : ¬ ∀ round : ℚ → JsNumber, (∀ q, round (-q) = (round q).neg) →
    ∀ (w : ContactWorld) (a b : EntityId), a ∈ w.rt.entities.ids → b ∈ w.rt.entities.ids → a ≠ b →
      (w.occurrences round a b = 1 ↔ b ∈ w.touching round a none none) ∧
        (w.occurrences round a b = 1 ↔ a ∈ w.touching round b none none) := by
  intro h
  have hagree := h .finite (fun _ => rfl) (twoCoins none) 16777216 16777217 (by simp [ids_twoCoins])
    (by simp [ids_twoCoins]) (by decide)
  have hpair : (twoCoins none).occurrences .finite 16777216 16777217 = 1 := by decide +kernel
  exact absurd (hagree.1.mp hpair) List.not_mem_nil

end ContactWorld
end Grove
