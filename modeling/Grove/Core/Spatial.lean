import Grove.Core.Broadphase
import Grove.Lib.Boxes

/-! # What the spatial queries mean

`near` and `overlapping` over exact numbers, beside the boxes they are about.  `near` takes a box for the disc about
its centre whose radius is the longer half extent, which misses a corner that reaches into the query's disc and hits
a box that stays clear of it; and both queries answer in the order of the slots, which a reused slot breaks, since the
generation is in the high part of a handle. -/

namespace Grove

/-- A transform source whose half extents are lengths. -/
structure BoxView extends TransformView ℚ where
  halfWidth_nonneg : ∀ id, 0 ≤ halfWidth id
  halfHeight_nonneg : ∀ id, 0 ≤ halfHeight id

namespace BoxView

variable (v : BoxView)

/-- A point of an entity's box. -/
def InBox (id : EntityId) (px py : ℚ) : Prop := |px - v.posX id| ≤ v.halfWidth id ∧ |py - v.posY id| ≤ v.halfHeight id

/-- The box has a point in the closed disc. -/
def MeetsDisc (x y radius : ℚ) (id : EntityId) : Prop :=
  ∃ px py, v.InBox id px py ∧ (px - x) ^ 2 + (py - y) ^ 2 ≤ radius ^ 2

/-- The two boxes share a point. -/
def BoxesMeet (id other : EntityId) : Prop := ∃ px py, v.InBox id px py ∧ v.InBox other px py

/-- The square of the distance from a point to an entity's centre. -/
def toCentre (x y : ℚ) (id : EntityId) : ℚ := (v.posX id - x) ^ 2 + (v.posY id - y) ^ 2

/-- The square of the distance from a point to an entity's box. -/
def toBox (x y : ℚ) (id : EntityId) : ℚ :=
  beyond (v.posX id - x) (v.halfWidth id) ^ 2 + beyond (v.posY id - y) (v.halfHeight id) ^ 2

/-- The longer half extent. -/
def reach (id : EntityId) : ℚ := max (v.halfWidth id) (v.halfHeight id)

/-- A box reaches into the disc with a corner, its centre too far away to count. -/
def CornerMissed (x y radius : ℚ) (id : EntityId) : Prop :=
  v.toBox x y id ≤ radius ^ 2 ∧ (radius + v.reach id) ^ 2 < v.toCentre x y id

/-- A box stays clear of the disc with its centre near enough to count. -/
def GapHit (x y radius : ℚ) (id : EntityId) : Prop :=
  radius ^ 2 < v.toBox x y id ∧ v.toCentre x y id ≤ (radius + v.reach id) ^ 2

/-- `near` answers the live entities whose box meets the disc, in ascending order. -/
def NearRight (x y radius : ℚ) : Prop :=
  let hits := Broadphase.near .exact v.toTransformView x y radius
  (∀ id, id ∈ hits ↔ id ∈ v.liveIds ∧ v.MeetsDisc x y radius id) ∧ hits.Pairwise (· < ·)

/-- `overlapping` answers the other live entities whose box meets this one's, in ascending order. -/
def OverlappingRight (id : EntityId) : Prop :=
  let hits := Broadphase.overlapping .exact v.toTransformView id
  (∀ other, other ∈ hits ↔ other ∈ v.liveIds ∧ other ≠ id ∧ v.BoxesMeet id other) ∧ hits.Pairwise (· < ·)

section queries
variable {v}
variable {x y radius : ℚ} {id other : EntityId}

theorem meetsDisc_iff : v.MeetsDisc x y radius id ↔ v.toBox x y id ≤ radius ^ 2 := by
  rw [toBox, ← box_meets_disc (v.halfWidth_nonneg id) (v.halfHeight_nonneg id)]
  simp only [MeetsDisc, InBox, and_assoc]

theorem boxesMeet_iff : v.BoxesMeet id other ↔
    Broadphase.overlaps .exact v.toTransformView id other = true := by
  have hx := segments_meet (a := v.posX id) (b := v.posX other) (v.halfWidth_nonneg id) (v.halfWidth_nonneg other)
  have hy := segments_meet (a := v.posY id) (b := v.posY other) (v.halfHeight_nonneg id) (v.halfHeight_nonneg other)
  have htest : Broadphase.overlaps .exact v.toTransformView id other = true ↔
      |v.posX id - v.posX other| ≤ v.halfWidth id + v.halfWidth other ∧
        |v.posY id - v.posY other| ≤ v.halfHeight id + v.halfHeight other := by
    rw [Broadphase.overlaps, Bool.and_eq_true]
    exact and_congr decide_eq_true_iff decide_eq_true_iff
  rw [htest, ← hx, ← hy]
  constructor
  · rintro ⟨px, py, ⟨hidx, hidy⟩, hotherx, hothery⟩
    exact ⟨⟨px, hidx, hotherx⟩, ⟨py, hidy, hothery⟩⟩
  · rintro ⟨⟨px, hidx, hotherx⟩, ⟨py, hidy, hothery⟩⟩
    exact ⟨px, py, ⟨hidx, hidy⟩, hotherx, hothery⟩

theorem reaches_iff : Broadphase.reaches .exact v.toTransformView x y radius id = true ↔
    v.toCentre x y id ≤ (radius + v.reach id) ^ 2 := by
  have htest : Broadphase.reaches .exact v.toTransformView x y radius id = true ↔
      (v.posX id - x) * (v.posX id - x) + (v.posY id - y) * (v.posY id - y) ≤
        (radius + v.reach id) * (radius + v.reach id) := decide_eq_true_iff
  rw [htest, toCentre, pow_two, pow_two, pow_two]

/-- The two tests of one entity agree when it is neither missed by its corner nor hit across a gap. -/
theorem reaches_agrees : (Broadphase.reaches .exact v.toTransformView x y radius id = true ↔ v.MeetsDisc x y radius id) ↔
    ¬ v.CornerMissed x y radius id ∧ ¬ v.GapHit x y radius id := by
  rw [reaches_iff, meetsDisc_iff, CornerMissed, GapHit, ← not_le, ← not_le]
  tauto

theorem nearRight_iff (x y radius : ℚ) : v.NearRight x y radius ↔
    (∀ id ∈ v.liveIds, ¬ v.CornerMissed x y radius id ∧ ¬ v.GapHit x y radius id) ∧
      v.liveIds.Pairwise (fun a b => v.MeetsDisc x y radius a → v.MeetsDisc x y radius b → a < b) := by
  have hagree : (∀ id, id ∈ Broadphase.near .exact v.toTransformView x y radius ↔
      id ∈ v.liveIds ∧ v.MeetsDisc x y radius id) ↔
      ∀ id ∈ v.liveIds, (Broadphase.reaches .exact v.toTransformView x y radius id = true ↔ v.MeetsDisc x y radius id) := by
    refine forall_congr' fun id => ?_
    rw [Broadphase.mem_near]
    tauto
  have hkinds : (∀ id ∈ v.liveIds, ¬ v.CornerMissed x y radius id ∧ ¬ v.GapHit x y radius id) ↔
      ∀ id ∈ v.liveIds, (Broadphase.reaches .exact v.toTransformView x y radius id = true ↔ v.MeetsDisc x y radius id) :=
    forall₂_congr fun _ _ => reaches_agrees.symm
  rw [NearRight, hagree, hkinds]
  refine and_congr_right fun hsame => ?_
  rw [Broadphase.near, List.pairwise_filter]
  refine List.Pairwise.iff_of_mem fun {a b} ha hb => ?_
  rw [hsame a ha, hsame b hb]

theorem overlappingRight_iff (id : EntityId) : v.OverlappingRight id ↔
    v.liveIds.Pairwise (fun a b => a ≠ id → b ≠ id → v.BoxesMeet id a → v.BoxesMeet id b → a < b) := by
  have hset : ∀ other, other ∈ Broadphase.overlapping .exact v.toTransformView id ↔
      other ∈ v.liveIds ∧ other ≠ id ∧ v.BoxesMeet id other := fun other => by
    rw [Broadphase.mem_overlapping, boxesMeet_iff]
  rw [OverlappingRight, and_iff_right hset, Broadphase.overlapping, List.pairwise_filter]
  refine List.Pairwise.iff fun {a b} => ?_
  rw [Bool.and_eq_true, Bool.and_eq_true, decide_eq_true_eq, decide_eq_true_eq, boxesMeet_iff, boxesMeet_iff]
  tauto

end queries

/-! ### Every query of a view -/

section every
variable {v}

/-- No live entity has an extent. -/
def AllPoints (v : BoxView) : Prop := ∀ id ∈ v.liveIds, v.halfWidth id = 0 ∧ v.halfHeight id = 0

/-- A query of radius zero tells a box from a point. -/
theorem points_of_near {id : EntityId}
    (h : ∀ x y, ¬ v.CornerMissed x y 0 id ∧ ¬ v.GapHit x y 0 id) : v.halfWidth id = 0 ∧ v.halfHeight id = 0 := by
  have hwidth := v.halfWidth_nonneg id
  have hheight := v.halfHeight_nonneg id
  obtain hlt | heq | hgt := lt_trichotomy (v.halfWidth id) (v.halfHeight id)
  · -- a point as far out along the short axis as the long one reaches
    refine absurd ⟨?_, ?_⟩ (h (v.posX id + v.halfHeight id) (v.posY id)).2
    · rw [toBox, sub_self, sub_add_cancel_left, beyond, abs_neg, abs_of_nonneg hheight, max_eq_left (by linarith)]
      nlinarith [beyond_nonneg (0 : ℚ) (v.halfHeight id)]
    · rw [toCentre, reach, max_eq_right hlt.le, sub_self, sub_add_cancel_left]
      linarith [neg_sq (v.halfHeight id)]
  · -- the corner of a square
    by_contra hbox
    have hpos : 0 < v.halfWidth id := by
      refine lt_of_le_of_ne hwidth fun hzero => hbox ⟨hzero.symm, ?_⟩
      rw [← heq, ← hzero]
    refine (h (v.posX id + v.halfWidth id) (v.posY id + v.halfWidth id)).1 ⟨?_, ?_⟩
    · rw [toBox, sub_add_cancel_left, sub_add_cancel_left, ← heq, beyond, abs_neg, abs_of_nonneg hwidth, sub_self,
        max_self]
      norm_num
    · rw [toCentre, reach, ← heq, max_self, sub_add_cancel_left, sub_add_cancel_left]
      nlinarith [mul_pos hpos hpos]
  · refine absurd ⟨?_, ?_⟩ (h (v.posX id) (v.posY id + v.halfWidth id)).2
    · rw [toBox, sub_self, sub_add_cancel_left, beyond, beyond, abs_neg (v.halfWidth id), abs_of_nonneg hwidth,
        max_eq_left (show 0 ≤ v.halfWidth id - v.halfHeight id by linarith)]
      nlinarith [beyond_nonneg (0 : ℚ) (v.halfWidth id)]
    · rw [toCentre, reach, max_eq_left hgt.le, sub_self, sub_add_cancel_left]
      linarith [neg_sq (v.halfWidth id)]

/-- Some disc about the origin meets every live box. -/
theorem exists_radius (v : BoxView) : ∃ radius, 0 ≤ radius ∧ ∀ id ∈ v.liveIds, v.MeetsDisc 0 0 radius id := by
  obtain ⟨bound, hbound⟩ := (v.liveIds.map (v.toBox 0 0)).toFinset.bddAbove
  refine ⟨max bound 1, le_max_of_le_right zero_le_one, fun id hid => meetsDisc_iff.mpr ?_⟩
  have hle : v.toBox 0 0 id ≤ bound := hbound (by simpa using ⟨id, hid, rfl⟩)
  have hone : (1 : ℚ) ≤ max bound 1 := le_max_right _ _
  have hmax : bound ≤ max bound 1 := le_max_left _ _
  nlinarith

theorem near_of_points {id : EntityId} (h : v.halfWidth id = 0 ∧ v.halfHeight id = 0) (x y radius : ℚ) :
    ¬ v.CornerMissed x y radius id ∧ ¬ v.GapHit x y radius id := by
  have hbox : v.toBox x y id = v.toCentre x y id := by
    rw [toBox, toCentre, h.1, h.2, beyond_zero, beyond_zero, sq_abs, sq_abs]
  have hreach : v.reach id = 0 := by rw [reach, h.1, h.2, max_self]
  rw [CornerMissed, GapHit, hbox, hreach, add_zero]
  exact ⟨fun hmiss => absurd hmiss.2 (not_lt_of_ge hmiss.1), fun hgap => absurd hgap.1 (not_lt_of_ge hgap.2)⟩

theorem all_right_iff (v : BoxView) :
    ((∀ x y radius, 0 ≤ radius → v.NearRight x y radius) ∧ ∀ id, v.OverlappingRight id) ↔
      v.AllPoints ∧ v.liveIds.Pairwise (· < ·) := by
  constructor
  · rintro ⟨hnear, -⟩
    constructor
    · exact fun id hid => points_of_near fun x y => ((nearRight_iff x y 0).mp (hnear x y 0 le_rfl)).1 id hid
    · obtain ⟨radius, hradius, hall⟩ := exists_radius v
      refine List.Pairwise.imp_of_mem ?_ ((nearRight_iff 0 0 radius).mp (hnear 0 0 radius hradius)).2
      exact fun {a b} ha hb hlt => hlt (hall a ha) (hall b hb)
  · rintro ⟨hpoints, horder⟩
    constructor
    · intro x y radius _
      exact (nearRight_iff x y radius).mpr
        ⟨fun id hid => near_of_points (hpoints id hid) x y radius, horder.imp fun hlt _ _ => hlt⟩
    · exact fun id => (overlappingRight_iff id).mpr (horder.imp fun hlt _ _ _ _ => hlt)

end every

/-- **Where the spatial queries mean what they say**: `near` does for a query exactly when no live box reaches into
the disc by a corner alone or stays clear of it within reach of its centre, and the boxes that meet the disc are live
in the order of their ids; `overlapping` always answers the boxes that meet, in that order or not; and a view whose
every query is right has points only, in the order of their ids. -/
theorem queries_right (v : BoxView) :
    (∀ x y radius, v.NearRight x y radius ↔
      (∀ id ∈ v.liveIds, ¬ v.CornerMissed x y radius id ∧ ¬ v.GapHit x y radius id) ∧
        v.liveIds.Pairwise (fun a b => v.MeetsDisc x y radius a → v.MeetsDisc x y radius b → a < b)) ∧
    (∀ id, v.OverlappingRight id ↔
      v.liveIds.Pairwise (fun a b => a ≠ id → b ≠ id → v.BoxesMeet id a → v.BoxesMeet id b → a < b)) ∧
    (((∀ x y radius, 0 ≤ radius → v.NearRight x y radius) ∧ ∀ id, v.OverlappingRight id) ↔
      v.AllPoints ∧ v.liveIds.Pairwise (· < ·)) :=
  ⟨nearRight_iff, overlappingRight_iff, all_right_iff v⟩

/-- The live entities of a world as squares of one size, where their positions are exact. -/
def squares (rt : Runtime) (half : ℚ) : BoxView where
  liveIds := rt.entities.ids
  posX id := (rt.transforms.cells (handleIndex id)).posX.finiteOr 0
  posY id := (rt.transforms.cells (handleIndex id)).posY.finiteOr 0
  halfWidth _ := max half 0
  halfHeight _ := max half 0
  halfWidth_nonneg _ := le_max_right _ _
  halfHeight_nonneg _ := le_max_right _ _

/-- Three coins at one place, the first of them in a slot that was used before. -/
def reusedSlot : Runtime :=
  (((Runtime.new none (fun _ => []) 60).acts
    [.op (.spawn "coin" (.finite 0) (.finite 0) ""), .op (.spawn "coin" (.finite 0) (.finite 0) ""),
      .op (.spawn "coin" (.finite 0) (.finite 0) ""), .op (.destroy 16777216)]).drainDestroyed []).acts
    [.op (.spawn "coin" (.finite 0) (.finite 0) "")]

theorem ids_reusedSlot : reusedSlot.entities.ids = [33554432, 16777217, 16777218] := by decide

/-- A square is no point to every query, and `overlapping` answers the reused slot first. -/
theorem queries_not_right : (¬ ∀ (v : BoxView) (x y radius : ℚ), 0 ≤ radius → v.NearRight x y radius) ∧
    ¬ ∀ (v : BoxView) (id : EntityId), v.OverlappingRight id := by
  have hcell : ∀ id, handleIndex id ≤ 2 → (reusedSlot.transforms.cells (handleIndex id)).posX = .finite 0 ∧
      (reusedSlot.transforms.cells (handleIndex id)).posY = .finite 0 := by
    intro id hid
    generalize handleIndex id = i at hid
    interval_cases i <;> decide
  constructor
  · intro h
    have hwidth := (points_of_near fun x y => ((nearRight_iff x y 0).mp (h (squares reusedSlot 1) x y 0 le_rfl)).1 33554432
      (by rw [show (squares reusedSlot 1).liveIds = _ from ids_reusedSlot]; decide)).1
    exact absurd hwidth (by norm_num [squares])
  · intro h
    have horder := (overlappingRight_iff 16777218).mp (h (squares reusedSlot 1) 16777218)
    rw [show (squares reusedSlot 1).liveIds = _ from ids_reusedSlot, List.pairwise_cons] at horder
    have hmeets : ∀ id, handleIndex id ≤ 2 → (squares reusedSlot 1).BoxesMeet 16777218 id := by
      intro id hid
      obtain ⟨hx, hy⟩ := hcell id hid
      obtain ⟨hx', hy'⟩ := hcell 16777218 (by decide)
      refine ⟨0, 0, ?_, ?_⟩
      · simp [InBox, squares, hx', hy', JsNumber.finiteOr]
      · simp [InBox, squares, hx, hy, JsNumber.finiteOr]
    have hlt := horder.1 16777217 (by decide) (by decide) (by decide) (hmeets _ (by decide)) (hmeets _ (by decide))
    exact absurd hlt (by decide)

end BoxView
end Grove
