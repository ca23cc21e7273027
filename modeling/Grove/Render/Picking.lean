import Grove.Lib.PaintOrder
import Grove.Render.Culling

/-! # What a point picks

`nodeAt` of `core/renderer-core.ts` scans the live slots in slot order and keeps the one that draws over what it had,
where `drawsAbove` climbs two branches to where they meet.  The tree the calls made is painted surface by surface
(`painted`), and `drawsAbove` is the order of that list, so the scan ends with the last of it under the point. -/

namespace Grove.Render.RendererCore

section code

variable {σ : Type} (S : SceneSink σ) (trig : Trig) (core : RendererCore σ)

/-! ### Reading the tree -/

/-- The parent of a slot, and of `NO_PARENT` none. -/
def parentAt (x : Option ℕ) : Option ℕ := x.bind core.xf.parent

def depthOf (index : ℕ) : Option ℕ :=
  (Threads.walk core.xf.parent core.xf.store.count (core.xf.parent index)).map List.length

def layerOf (index : Option ℕ) : JsNumber := ((index.bind core.nodes.recordAt).map NodeRecord.layer).getD (.finite 0)

/-- The loop that evens the depths, of so many turns: the slot left last, and the slot reached. -/
def climb : ℕ → Option ℕ → Option ℕ → Option ℕ × Option ℕ
  | 0, below, x => (below, x)
  | n + 1, _, x => climb n x (core.parentAt x)

/-- The loop that climbs both branches until they hang from one parent. -/
def meet : ℕ → Option ℕ → Option ℕ → Option (Option ℕ × Option ℕ)
  | 0, x, y => if core.parentAt x = core.parentAt y then some (x, y) else none
  | n + 1, x, y => if core.parentAt x = core.parentAt y then some (x, y) else meet n (core.parentAt x) (core.parentAt y)

/-- `NO_PARENT` has no place among the roots. -/
def insertedAfter : Option ℕ → Option ℕ → Option Bool
  | some x, some y => core.xf.store.insertedAfter x y
  | some x, none => some (decide (-1 < core.xf.store.rootRank x))
  | none, _ => some false

/-- Whether slot `a` draws over slot `b` on one surface. -/
def drawsAbove (a b : ℕ) : Option Bool :=
  match core.depthOf a, core.depthOf b with
  | some depthX, some depthY =>
    let atX := core.climb (depthX - depthY) none (some a)
    let atY := core.climb (depthY - depthX) none (some b)
    if atX.2 = atY.2 then
      some (if atX.1 ≠ none then (JsNumber.finite 0).atMost (core.layerOf atX.1)
        else (core.layerOf atY.1).less (.finite 0))
    else
      match core.meet core.xf.store.count atX.2 atY.2 with
      | none => none
      | some (x, y) =>
        -- what is not a number differs from itself
        if core.layerOf x = .nan ∨ core.layerOf x ≠ core.layerOf y then some ((core.layerOf y).less (core.layerOf x))
        else core.insertedAfter x y
  | _, _ => none

/-! ### Boxes on the screen -/

/-- The anchor of the root over a slot. -/
def anchorOf (index : ℕ) : Option UiAnchor :=
  (Threads.walk core.xf.parent core.xf.store.count (some index)).map fun chain =>
    ((chain.getLast?.bind core.nodes.recordAt).bind NodeRecord.uiAnchor).getD .topLeft

def fitScale : ℚ := Render.fitScale core.camera.framing core.config.scaleMode core.config.canvas core.config.design

def uiScreenPosition (index : ℕ) : Option (ℚ × ℚ) :=
  (core.anchorOf index).map fun anchor =>
    uiToScreen (core.xf.resolvedAt index).1 (core.xf.resolvedAt index).2.1 anchor core.stage core.fitScale

def screenBoundsAt (index : ℕ) (record : NodeRecord) : Option Bounds :=
  if isCameraTransformed record.surface then
    let world := core.worldBoundsAt S trig index
    let project := worldToScreen core.camera core.config.scaleMode core.config.canvas core.config.design
    let topLeft := project world.left world.top
    let bottomRight := project world.right world.bottom
    some ⟨topLeft.1, bottomRight.1, topLeft.2, bottomRight.2⟩
  else
    (core.uiScreenPosition index).map fun origin =>
      let box := core.localBoundsAt S index
      ⟨origin.1 + box.left * core.fitScale, origin.1 + box.right * core.fitScale,
        origin.2 - box.top * core.fitScale, origin.2 - box.bottom * core.fitScale⟩

/-! ### Picking -/

structure PickOptions where
  surface : Option Surface := none

/-- The point is outside a box of the screen, `y` down. -/
def misses (box : Bounds) (point : Vec3Like) : Bool :=
  point.x.less (.finite box.left) || (JsNumber.finite box.right).less point.x ||
    point.y.less (.finite box.top) || (JsNumber.finite box.bottom).less point.y

/-- One turn of the scan; `best` is the surface's place and the slot, none before the first hit. -/
def pickOne (point : Vec3Like) (opts : PickOptions) (best : Option (ℤ × ℕ)) (index : ℕ) : Option (Option (ℤ × ℕ)) :=
  match core.nodes.recordAt index with
  | none => some best
  | some record =>
    if opts.surface ≠ none ∧ some record.surface ≠ opts.surface then some best
    else if record.kind = .group then some best
    else if core.xf.resolvedVisible index = false then some best
    else
      let order := surfaceOrder record.surface
      if order < (best.map Prod.fst).getD (-1) then some best
      else
        match core.screenBoundsAt S trig index record with
        | none => none
        | some box =>
          if misses box point then some best
          else
            match best with
            | none => some (some (order, index))
            | some (bestSurface, bestIndex) =>
              if order = bestSurface then
                (core.drawsAbove index bestIndex).map fun above => if above then some (order, index) else best
              else some (some (order, index))

def pickAll (point : Vec3Like) (opts : PickOptions) : List ℕ → Option (ℤ × ℕ) → Option (Option (ℤ × ℕ))
  | [], best => some best
  | index :: slots, best =>
    match core.pickOne S trig point opts best index with
    | none => none
    | some best => pickAll point opts slots best

/-- The topmost node whose art covers a point, or `NO_NODE`, with the core the read leaves. -/
def nodeAt (point : Vec3Like) (opts : PickOptions) : Option (NodeId × RendererCore σ) :=
  match core.query with
  | none => none
  | some core =>
    (core.pickAll S trig point opts core.nodes.liveIndices none).map fun best =>
      ((best.map fun best => core.nodes.idAt best.2).getD 0, core)

/-! ### The paint order -/

def layer (i : ℕ) : ℚ := (core.layerOf (some i)).finiteOr 0

def FiniteLayers : Prop := ∀ i, (core.layerOf (some i)).isFinite = true

/-- The nodes of a surface in the order they are painted. -/
def painted (F : OrderedForest ℕ) (surface : Surface) : List ℕ :=
  F.paintAll core.layer fun r => core.surf r = some surface

/-- Surface by surface, bottom to top. -/
def scene (F : OrderedForest ℕ) : List ℕ := SURFACE_ORDER.flatMap (core.painted F)

/-- A visible node with art, on a surface asked for, whose box on the screen the point does not miss. -/
def hits (point : Vec3Like) (opts : PickOptions) (i : ℕ) : Bool :=
  match core.nodes.recordAt i with
  | none => false
  | some record =>
    decide (opts.surface = none ∨ some record.surface = opts.surface) && decide (record.kind ≠ .group) &&
      core.xf.resolvedVisible i && (core.screenBoundsAt S trig i record).any fun box => !misses box point

/-- The last hit in the order of painting. -/
def topmost (F : OrderedForest ℕ) (point : Vec3Like) (opts : PickOptions) : NodeId :=
  (((core.scene F).filter (core.hits S trig point opts)).getLast?.map core.nodes.idAt).getD 0

end code

variable {σ : Type} {S : SceneSink σ} {trig : Trig} {core : RendererCore σ} {F : OrderedForest ℕ} {a b c d i x y : ℕ}

/-! ### Depths -/

/-- What stands over a node, its parent first. -/
theorem exists_overs (F : OrderedForest ℕ) (c : ℕ) :
    ∃ l : List ℕ, ∀ n, l.length ≤ n → Threads.walk F.parent n (F.parent c) = some l := by
  cases hp : F.parent c with
  | none => exact ⟨[], fun n _ => Threads.walk_none _ n⟩
  | some p =>
    obtain ⟨l, -, -, hwalk⟩ := F.exists_lineage p
    exact ⟨l, hwalk⟩

noncomputable def overs (F : OrderedForest ℕ) (c : ℕ) : List ℕ := (exists_overs F c).choose

noncomputable def depth (F : OrderedForest ℕ) (c : ℕ) : ℕ := (overs F c).length

theorem walk_overs {n : ℕ} (hn : depth F c ≤ n) : Threads.walk F.parent n (F.parent c) = some (overs F c) :=
  (exists_overs F c).choose_spec n hn

theorem depth_root (h : F.parent c = none) : depth F c = 0 := by
  have hwalk := walk_overs (F := F) (c := c) le_rfl
  rw [h, Threads.walk_none] at hwalk
  rw [depth, ← Option.some.inj hwalk]
  rfl

theorem depth_child {p : ℕ} (h : F.parent c = some p) : depth F c = depth F p + 1 := by
  have hc := walk_overs (F := F) (c := c) (n := depth F c + depth F p + 1) (by omega)
  rw [h, Threads.walk_cons, walk_overs (by omega), Option.map_some] at hc
  rw [depth, ← Option.some.inj hc, List.length_cons]
  rfl

theorem depth_le (h : F.Above a c) : depth F a ≤ depth F c := by
  induction h with
  | refl => exact le_rfl
  | tail _ hstep ih =>
    rw [depth_child hstep] at ih
    omega

/-! ### The tree under the records -/

/-- A tree for the store and the surfaces of the records. -/
structure Rooted (core : RendererCore σ) (F : OrderedForest ℕ) : Prop where
  shaped : Shaped core.xf.store F
  live : ∀ i, i ∈ F.placed ↔ (core.surf i).isSome
  surfaces : ∀ c p, F.parent c = some p → core.surf c = core.surf p

namespace Rooted

theorem parent_eq (h : Rooted core F) : core.xf.parent = F.parent := by
  funext i
  unfold Transforms.parent
  split
  · rw [h.shaped.parent_eq]
  · next hi =>
    exact (OrderedForest.parent_eq_none fun hmem => hi (h.shaped.bounded i hmem)).symm

theorem parentAt_some (h : Rooted core F) (x : ℕ) : core.parentAt (some x) = F.parent x := congrFun h.parent_eq x

theorem depth_lt (h : Rooted core F) (hc : c ∈ F.placed) : depth F c < core.xf.store.count := by
  obtain ⟨l, -, hwalk⟩ := h.shaped.exists_lineage (h.shaped.bounded c hc)
  have hl := hwalk (core.xf.store.count + depth F c + 1) (by omega)
  rw [h.shaped.parent_eq, Threads.walk_cons, walk_overs (by omega), Option.map_some] at hl
  obtain rfl := Option.some.inj hl
  exact Threads.length_le_of_walk (hwalk core.xf.store.count le_rfl)

theorem depthOf_eq (h : Rooted core F) (hc : c ∈ F.placed) : core.depthOf c = some (depth F c) := by
  unfold depthOf
  rw [h.parent_eq, walk_overs (h.depth_lt hc).le, Option.map_some]
  rfl

/-! ### Climbing -/

/-- From `a` a branch has been climbed to `x`, over the slot `below`. -/
def Climbed (F : OrderedForest ℕ) (a : ℕ) (below : Option ℕ) (x : ℕ) : Prop :=
  (below = none ∧ x = a) ∨ ∃ c, below = some c ∧ F.parent c = some x ∧ F.Above c a

theorem climb_spec (h : Rooted core F) : ∀ {n : ℕ} {below : Option ℕ} {x : ℕ}, Climbed F a below x → n ≤ depth F x →
    ∃ below' x', core.climb n below (some x) = (below', some x') ∧ Climbed F a below' x' ∧ depth F x' + n = depth F x
  | 0, below, x, hclimbed, _ => ⟨below, x, rfl, hclimbed, rfl⟩
  | n + 1, below, x, hclimbed, hn => by
    cases hp : F.parent x with
    | none =>
      rw [depth_root hp] at hn
      omega
    | some p =>
      have hdepth := depth_child hp
      have hup : Climbed F a (some x) p := by
        refine .inr ⟨x, rfl, hp, ?_⟩
        obtain ⟨-, rfl⟩ | ⟨c, -, hc, hca⟩ := hclimbed
        · exact .refl F x
        · exact (OrderedForest.Above.of_parent hc).trans hca
      obtain ⟨below', x', hclimb, hclimbed', hdepth'⟩ := h.climb_spec hup (n := n) (by omega)
      refine ⟨below', x', ?_, hclimbed', by omega⟩
      rw [climb, h.parentAt_some, hp]
      exact hclimb

theorem Climbed.above {below : Option ℕ} (h : Climbed F a below x) : F.Above x a := by
  obtain ⟨-, rfl⟩ | ⟨c, -, hc, hca⟩ := h
  · exact .refl F x
  · exact (OrderedForest.Above.of_parent hc).trans hca

/-- A branch that has not been climbed. -/
theorem Climbed.here {below : Option ℕ} (h : Climbed F a below x) (hdepth : depth F x = depth F a) :
    below = none ∧ x = a := by
  refine h.resolve_right ?_
  rintro ⟨c, -, hc, hca⟩
  have hle := depth_le hca
  rw [depth_child hc] at hle
  omega

/-- Two branches of one depth meet where they hang from one parent, or are both rooted. -/
theorem meet_spec (h : Rooted core F) : ∀ {n x y : ℕ}, depth F x = depth F y → x ≠ y → depth F x ≤ n →
    ∃ x' y', core.meet n (some x) (some y) = some (some x', some y') ∧ F.parent x' = F.parent y' ∧ x' ≠ y' ∧
      F.Above x' x ∧ F.Above y' y := by
  intro n
  induction n with
  | zero =>
    intro x y hdepth hne hn
    have hroot : ∀ {z}, depth F z = 0 → F.parent z = none := by
      intro z hz
      cases hp : F.parent z with
      | none => rfl
      | some p => rw [depth_child hp] at hz; omega
    have hx := hroot (Nat.le_zero.mp hn)
    have hy := hroot (hdepth ▸ Nat.le_zero.mp hn)
    refine ⟨x, y, ?_, hx.trans hy.symm, hne, .refl F x, .refl F y⟩
    rw [meet, h.parentAt_some, h.parentAt_some, hx, hy, if_pos rfl]
  | succ n ih =>
    intro x y hdepth hne hn
    rw [meet, h.parentAt_some, h.parentAt_some]
    by_cases heq : F.parent x = F.parent y
    · exact ⟨x, y, if_pos heq, heq, hne, .refl F x, .refl F y⟩
    · rw [if_neg heq]
      cases hpx : F.parent x with
      | none =>
        cases hpy : F.parent y with
        | none => exact absurd (hpx.trans hpy.symm) heq
        | some q =>
          rw [depth_root hpx, depth_child hpy] at hdepth
          omega
      | some p =>
        cases hpy : F.parent y with
        | none =>
          rw [depth_child hpx, depth_root hpy] at hdepth
          omega
        | some q =>
          have hpq : p ≠ q := fun hpq => heq (by rw [hpx, hpy, hpq])
          rw [depth_child hpx] at hdepth hn
          rw [depth_child hpy] at hdepth
          obtain ⟨x', y', hmeet, hparent, hne', hxp, hyq⟩ := ih (x := p) (y := q) (by omega) hpq (by omega)
          exact ⟨x', y', hmeet, hparent, hne', hxp.trans (.of_parent hpx), hyq.trans (.of_parent hpy)⟩

/-! ### One order -/

theorem layerOf_eq (hfinite : core.FiniteLayers) (i : ℕ) : core.layerOf (some i) = .finite (core.layer i) := by
  have hi := hfinite i
  unfold layer
  cases hlayer : core.layerOf (some i) with
  | finite q => rfl
  | nan | posInfinity | negInfinity =>
    rw [hlayer] at hi
    cases hi

/-- One of the branches has been climbed at most, and the slot over the other node decides. -/
theorem art_spec (hfinite : core.FiniteLayers) {belowX belowY : Option ℕ} (hx : Climbed F a belowX x)
    (hy : Climbed F b belowY x) (hone : depth F x = depth F a ∨ depth F x = depth F b) :
    ∃ above : Bool, (if belowX ≠ none then (JsNumber.finite 0).atMost (core.layerOf belowX)
        else (core.layerOf belowY).less (.finite 0)) = above ∧
      (above = true → F.Before core.layer b a) ∧ (above = false → a = b ∨ F.Before core.layer a b) := by
  refine ⟨_, rfl, ?_⟩
  obtain ⟨rfl, rfl⟩ | ⟨c, rfl, hc, hca⟩ := hx
  · obtain ⟨rfl, rfl⟩ | ⟨c, rfl, hc, hcb⟩ := hy
    · have hzero : (core.layerOf none).less (.finite 0) = false := rfl
      simp [hzero]
    · have hless : (core.layerOf (some c)).less (.finite 0) = decide (core.layer c < 0) := by
        rw [layerOf_eq hfinite]
        rfl
      simp only [ne_eq, not_true_eq_false, if_false, hless, decide_eq_true_eq, decide_eq_false_iff_not, not_lt]
      exact ⟨fun hneg => .under hc hneg hcb, fun hpos => .inr (.over hc hpos hcb)⟩
  · have hle := depth_le hca
    rw [depth_child hc] at hle
    obtain ⟨rfl, rfl⟩ := hy.here (by omega)
    have hmost : (JsNumber.finite 0).atMost (core.layerOf (some c)) = decide (0 ≤ core.layer c) := by
      rw [layerOf_eq hfinite]
      exact decide_not.symm.trans (decide_eq_decide.mpr not_lt)
    simp only [ne_eq, reduceCtorEq, not_false_eq_true, if_true, hmost, decide_eq_true_eq, decide_eq_false_iff_not, not_le]
    exact ⟨fun hpos => .over hc hpos hca, fun hneg => .inr (.under hc hneg hca)⟩

/-- Siblings are told apart by their layers, then by which was linked last. -/
theorem sibling_spec (h : Rooted core F) (hfinite : core.FiniteLayers) (hx : x ∈ F.placed) (hy : y ∈ F.placed)
    (hparent : F.parent x = F.parent y) (hne : x ≠ y) : ∃ above : Bool,
    (if core.layerOf (some x) = .nan ∨ core.layerOf (some x) ≠ core.layerOf (some y) then
        some ((core.layerOf (some y)).less (core.layerOf (some x)))
      else core.insertedAfter (some x) (some y)) = some above ∧
      (above = true → F.Lower core.layer y x) ∧ (above = false → F.Lower core.layer x y) := by
  rw [layerOf_eq hfinite, layerOf_eq hfinite]
  by_cases hlayer : core.layer x = core.layer y
  · rw [hlayer, if_neg (by simp)]
    refine ⟨_, h.shaped.insertedAfter_eq hx hy hparent, fun hlast => ?_, fun hlast => ?_⟩
    · exact .inr ⟨hlayer.symm, of_decide_eq_true hlast⟩
    · obtain hxy | hyx := pair_total hx hy hne
      · exact .inr ⟨hlayer, hxy⟩
      · exact absurd hyx (of_decide_eq_false hlast)
  · rw [if_pos (.inr fun heq => hlayer (JsNumber.finite.inj heq))]
    refine ⟨_, rfl, fun hless => .inl (of_decide_eq_true hless), fun hless => .inl ?_⟩
    exact lt_of_le_of_ne (not_lt.mp (of_decide_eq_false hless)) hlayer

/-- The comparison ends, and is the order in which the two branches part. -/
theorem drawsAbove_spec (h : Rooted core F) (hfinite : core.FiniteLayers) (ha : a ∈ F.placed) (hb : b ∈ F.placed) :
    ∃ above, core.drawsAbove a b = some above ∧ (above = true → F.Before core.layer b a) ∧
      (above = false → a = b ∨ F.Before core.layer a b) := by
  obtain ⟨belowX, x, hclimbX, hx, hdepthX⟩ := h.climb_spec (n := depth F a - depth F b) (.inl ⟨rfl, rfl⟩ : Climbed F a none a)
    (Nat.sub_le _ _)
  obtain ⟨belowY, y, hclimbY, hy, hdepthY⟩ := h.climb_spec (n := depth F b - depth F a) (.inl ⟨rfl, rfl⟩ : Climbed F b none b)
    (Nat.sub_le _ _)
  unfold drawsAbove
  rw [h.depthOf_eq ha, h.depthOf_eq hb]
  simp only [hclimbX, hclimbY]
  by_cases hxy : x = y
  · subst hxy
    rw [if_pos rfl]
    obtain ⟨above, habove, hspec⟩ := art_spec hfinite hx hy (by omega)
    exact ⟨above, congrArg some habove, hspec⟩
  · rw [if_neg fun heq => hxy (Option.some.inj heq)]
    have hcount := h.depth_lt ha
    obtain ⟨x', y', hmeet, hparent, hne, hxx, hyy⟩ := h.meet_spec (n := core.xf.store.count) (by omega) hxy (by omega)
    rw [hmeet]
    have hxa := hxx.trans hx.above
    have hyb := hyy.trans hy.above
    obtain ⟨above, habove, htrue, hfalse⟩ := h.sibling_spec hfinite (hxa.mem ha) (hyb.mem hb) hparent hne
    exact ⟨above, habove, fun h => .beside hparent.symm (htrue h) hyb hxa,
      fun h => .inr (.beside hparent (hfalse h) hxa hyb)⟩

/-! ### The surfaces -/

theorem surf_above (h : Rooted core F) (habove : F.Above a c) : core.surf c = core.surf a := by
  induction habove with
  | refl => rfl
  | tail _ hstep ih => exact ih.trans (h.surfaces _ _ hstep)

theorem mem_painted (h : Rooted core F) {surface : Surface} :
    i ∈ core.painted F surface ↔ core.surf i = some surface := by
  rw [painted, OrderedForest.mem_paintAll]
  constructor
  · rintro ⟨r, hr, hri⟩
    exact (h.surf_above hri).trans (of_decide_eq_true (OrderedForest.mem_roots.mp hr).2)
  · intro hi
    have hplaced : i ∈ F.placed := (h.live i).mpr (by rw [hi]; rfl)
    obtain ⟨r, hroot, hri⟩ := F.exists_root i
    refine ⟨r, OrderedForest.mem_roots.mpr ⟨⟨hri.mem hplaced, hroot⟩, ?_⟩, hri⟩
    exact decide_eq_true ((h.surf_above hri).symm.trans hi)

theorem drawsAbove_eq (h : Rooted core F) (hfinite : core.FiniteLayers) {surface : Surface}
    (ha : core.surf a = some surface) (hb : core.surf b = some surface) : core.drawsAbove a b =
      some (decide ((core.painted F surface).idxOf b < (core.painted F surface).idxOf a)) := by
  have hplaced : ∀ {c}, core.surf c = some surface → c ∈ F.placed := fun hc => (h.live _).mpr (by rw [hc]; rfl)
  have hpair : ∀ {c d}, core.surf c = some surface → core.surf d = some surface → F.Before core.layer c d →
      (core.painted F surface).idxOf c < (core.painted F surface).idxOf d := fun hc hd hbefore =>
    idxOf_lt_of_pair (F.nodup_paintAll _ _) (hbefore.pair (h.mem_painted.mpr hc) (h.mem_painted.mpr hd))
  obtain ⟨above, habove, htrue, hfalse⟩ := h.drawsAbove_spec hfinite (hplaced ha) (hplaced hb)
  rw [habove]
  cases above with
  | true => rw [decide_eq_true (hpair hb ha (htrue rfl))]
  | false =>
    obtain rfl | hbefore := hfalse rfl
    · rw [decide_eq_false (lt_irrefl _)]
    · rw [decide_eq_false (hpair ha hb hbefore).le.not_gt]

/-! ### The scene -/

theorem nodup_scene (h : Rooted core F) : (core.scene F).Nodup := by
  refine List.nodup_flatMap.mpr ⟨fun surface _ => F.nodup_paintAll _ _, ?_⟩
  refine List.Pairwise.imp ?_ (by decide : SURFACE_ORDER.Nodup)
  intro s t hst i hs ht
  exact hst (Option.some.inj ((h.mem_painted.mp hs).symm.trans (h.mem_painted.mp ht)))

theorem mem_surfaceOrder (surface : Surface) : surface ∈ SURFACE_ORDER := by cases surface <;> decide

theorem mem_scene (h : Rooted core F) (hi : (core.surf i).isSome) : i ∈ core.scene F := by
  obtain ⟨surface, hsurface⟩ := Option.isSome_iff_exists.mp hi
  exact List.mem_flatMap.mpr ⟨surface, mem_surfaceOrder surface, h.mem_painted.mpr hsurface⟩

/-- A higher surface is painted after a lower one. -/
theorem scene_lt_of_surface (h : Rooted core F) {s t : Surface} (ha : core.surf a = some s) (hb : core.surf b = some t)
    (hlt : surfaceOrder t < surfaceOrder s) : (core.scene F).idxOf b < (core.scene F).idxOf a := by
  have hpair : [t, s].Sublist SURFACE_ORDER := by
    refine sublist_pair_of_lt (Int.ofNat_lt.mp hlt) (List.getElem?_idxOf (mem_surfaceOrder t))
      (List.getElem?_idxOf (mem_surfaceOrder s))
  exact idxOf_lt_of_pair h.nodup_scene (pair_flatMap hpair (h.mem_painted.mpr hb) (h.mem_painted.mpr ha))

/-- Within a surface the scene is the order of that surface. -/
theorem scene_lt_of_painted (h : Rooted core F) {s : Surface} (ha : core.surf a = some s) (hb : core.surf b = some s)
    (hlt : (core.painted F s).idxOf b < (core.painted F s).idxOf a) :
    (core.scene F).idxOf b < (core.scene F).idxOf a := by
  have hpair : [b, a].Sublist (core.painted F s) :=
    sublist_pair_of_lt hlt (List.getElem?_idxOf (h.mem_painted.mpr hb)) (List.getElem?_idxOf (h.mem_painted.mpr ha))
  exact idxOf_lt_of_pair h.nodup_scene (hpair.trans (sublist_flatMap (mem_surfaceOrder s)))

/-- What is not drawn above is no later in the scene. -/
theorem scene_le (h : Rooted core F) (hfinite : core.FiniteLayers) {s : Surface} (ha : core.surf a = some s)
    (hb : core.surf b = some s) {above : Bool} (habove : core.drawsAbove a b = some above) :
    if above then (core.scene F).idxOf b ≤ (core.scene F).idxOf a else (core.scene F).idxOf a ≤ (core.scene F).idxOf b := by
  rw [h.drawsAbove_eq hfinite ha hb] at habove
  obtain rfl := Option.some.inj habove
  obtain hlt | heq | hgt := Nat.lt_trichotomy ((core.painted F s).idxOf b) ((core.painted F s).idxOf a)
  · rw [decide_eq_true hlt, if_pos rfl]
    exact (h.scene_lt_of_painted ha hb hlt).le
  · obtain rfl := (List.idxOf_inj (h.mem_painted.mpr hb)).mp heq
    split <;> exact le_rfl
  · rw [decide_eq_false hgt.le.not_gt, if_neg Bool.false_ne_true]
    exact (h.scene_lt_of_painted hb ha hgt).le

end Rooted

/-! ### The scan -/

theorem screenBoundsAt_ends (S : SceneSink σ) (trig : Trig) (h : Rooted core F) (hi : (core.nodes.recordAt i).isSome) (record : NodeRecord) :
    ∃ box, core.screenBoundsAt S trig i record = some box := by
  unfold screenBoundsAt
  split
  · exact ⟨_, rfl⟩
  · have hplaced : i ∈ F.placed := (h.live i).mpr (surf_isSome.trans hi)
    obtain ⟨l, -, hwalk⟩ := h.shaped.exists_lineage (h.shaped.bounded i hplaced)
    have hchain : Threads.walk core.xf.parent core.xf.store.count (some i) = some l := by
      rw [h.parent_eq, ← h.shaped.parent_eq]
      exact hwalk _ le_rfl
    unfold uiScreenPosition anchorOf
    rw [hchain]
    exact ⟨_, rfl⟩

/-- What the scan has kept of the slots it has met. -/
def Best (S : SceneSink σ) (trig : Trig) (core : RendererCore σ) (F : OrderedForest ℕ) (point : Vec3Like)
    (opts : PickOptions) (done : List ℕ) : Option (ℤ × ℕ) → Prop
  | none => ∀ i ∈ done, core.hits S trig point opts i = false
  | some (order, i) => (core.hits S trig point opts i = true ∧ (core.surf i).map surfaceOrder = some order ∧ i ∈ done) ∧
      ∀ j ∈ done, core.hits S trig point opts j = true → (core.scene F).idxOf j ≤ (core.scene F).idxOf i

section scan

variable {point : Vec3Like} {opts : PickOptions} {done : List ℕ} {best : Option (ℤ × ℕ)} {record : NodeRecord}

/-- A slot that is no hit, or is under what is kept. -/
theorem Best.skip (h : Best S trig core F point opts done best)
    (hi : core.hits S trig point opts i = true → ∃ order j, best = some (order, j) ∧
      (core.scene F).idxOf i ≤ (core.scene F).idxOf j) : Best S trig core F point opts (i :: done) best := by
  cases best with
  | none =>
    intro j hj
    obtain rfl | hj := List.mem_cons.mp hj
    · cases hhit : core.hits S trig point opts j with
      | false => rfl
      | true =>
        obtain ⟨_, _, hnone, -⟩ := hi hhit
        cases hnone
    · exact h j hj
  | some kept =>
    obtain ⟨order, k⟩ := kept
    obtain ⟨⟨hhit, horder, hk⟩, hmax⟩ := h
    refine ⟨⟨hhit, horder, List.mem_cons_of_mem i hk⟩, fun j hj hjhit => ?_⟩
    obtain rfl | hj := List.mem_cons.mp hj
    · obtain ⟨_, _, hkept, hle⟩ := hi hjhit
      obtain ⟨-, rfl⟩ := Prod.mk.inj (Option.some.inj hkept)
      exact hle
    · exact hmax j hj hjhit

/-- A hit that is over what is kept. -/
theorem Best.take (h : Best S trig core F point opts done best) (hhit : core.hits S trig point opts i = true) {order : ℤ}
    (horder : (core.surf i).map surfaceOrder = some order)
    (hover : ∀ order j, best = some (order, j) → (core.scene F).idxOf j ≤ (core.scene F).idxOf i) :
    Best S trig core F point opts (i :: done) (some (order, i)) := by
  refine ⟨⟨hhit, horder, List.mem_cons_self⟩, fun j hj hjhit => ?_⟩
  obtain rfl | hj := List.mem_cons.mp hj
  · exact le_rfl
  · cases best with
    | none =>
      rw [h j hj] at hjhit
      cases hjhit
    | some kept => exact (h.2 j hj hjhit).trans (hover kept.1 kept.2 rfl)

theorem surf_of_record (h : core.nodes.recordAt i = some record) : core.surf i = some record.surface := by
  unfold surf
  rw [h, Option.map_some]

/-- What the filters and the box leave is a hit. -/
theorem hits_of (S : SceneSink σ) (trig : Trig) (hrecord : core.nodes.recordAt i = some record) (point : Vec3Like)
    (opts : PickOptions) : core.hits S trig point opts i =
    (decide (opts.surface = none ∨ some record.surface = opts.surface) && decide (record.kind ≠ .group) &&
      core.xf.resolvedVisible i && (core.screenBoundsAt S trig i record).any fun box => !misses box point) := by
  unfold hits
  rw [hrecord]

theorem surfaceOrder_nonneg (surface : Surface) : 0 ≤ surfaceOrder surface := Int.natCast_nonneg _

/-- A slot on a lower surface than what is kept. -/
theorem Best.below (h : Rooted core F) (hbest : Best S trig core F point opts done best) {s : Surface}
    (hsurf : core.surf i = some s) (hlow : surfaceOrder s < (best.map Prod.fst).getD (-1)) :
    ∃ order j, best = some (order, j) ∧ (core.scene F).idxOf i ≤ (core.scene F).idxOf j := by
  cases best with
  | none =>
    have hpos := surfaceOrder_nonneg s
    simp only [Option.map_none, Option.getD_none] at hlow
    omega
  | some kept =>
    obtain ⟨order, j⟩ := kept
    obtain ⟨t, ht, rfl⟩ := Option.map_eq_some_iff.mp hbest.1.2.1
    exact ⟨_, j, rfl, (h.scene_lt_of_surface ht hsurf hlow).le⟩

theorem pickOne_spec (h : Rooted core F) (hfinite : core.FiniteLayers) (hbest : Best S trig core F point opts done best)
    (i : ℕ) : ∃ best', core.pickOne S trig point opts best i = some best' ∧
      Best S trig core F point opts (i :: done) best' := by
  have hmiss : ∀ {P : Prop}, core.hits S trig point opts i = false → core.hits S trig point opts i = true → P :=
    fun hfalse htrue => by rw [hfalse] at htrue; cases htrue
  unfold pickOne
  cases hrecord : core.nodes.recordAt i with
  | none =>
    refine ⟨best, rfl, hbest.skip (hmiss ?_)⟩
    rw [hits, hrecord]
  | some record =>
    have hhits := hits_of S trig hrecord point opts
    have hlive : (core.nodes.recordAt i).isSome := by rw [hrecord]; rfl
    obtain ⟨box, hbox⟩ := screenBoundsAt_ends S trig h hlive record
    have hsurf := surf_of_record hrecord
    simp only [hbox]
    split_ifs with hopts hgroup hvisible hlow hbeside
    · refine ⟨best, rfl, hbest.skip (hmiss ?_)⟩
      rw [hhits, decide_eq_false (by rintro (hnone | hsome); exacts [hopts.1 hnone, hopts.2 hsome])]
      rfl
    · exact ⟨best, rfl, hbest.skip (hmiss (by simp [hhits, hgroup]))⟩
    · exact ⟨best, rfl, hbest.skip (hmiss (by simp [hhits, hvisible]))⟩
    · exact ⟨best, rfl, hbest.skip fun _ => hbest.below h hsurf hlow⟩
    · exact ⟨best, rfl, hbest.skip (hmiss (by simp [hhits, hbox, hbeside]))⟩
    · have hhit : core.hits S trig point opts i = true := by
        have hwanted : opts.surface = none ∨ some record.surface = opts.surface := by tauto
        simp [hhits, hbox, hwanted, hgroup, hvisible, hbeside]
      have horder : (core.surf i).map surfaceOrder = some (surfaceOrder record.surface) := by rw [hsurf, Option.map_some]
      cases best with
      | none => exact ⟨_, rfl, hbest.take hhit horder fun _ _ hnone => by cases hnone⟩
      | some kept =>
        obtain ⟨bestSurface, bestIndex⟩ := kept
        obtain ⟨t, ht, rfl⟩ := Option.map_eq_some_iff.mp hbest.1.2.1
        simp only [Option.map_some, Option.getD_some, not_lt] at hlow
        by_cases heq : surfaceOrder record.surface = surfaceOrder t
        · -- on one surface the comparison decides
          have hsame : record.surface = t := (List.idxOf_inj (Rooted.mem_surfaceOrder _)).mp (Int.ofNat.inj heq)
          rw [hsame] at hsurf
          have habove := h.drawsAbove_eq hfinite hsurf ht
          have hle := h.scene_le hfinite hsurf ht habove
          simp only [heq, if_true, habove, Option.map_some]
          refine ⟨_, rfl, ?_⟩
          split at hle
          · next hover =>
            rw [if_pos hover]
            refine hbest.take hhit (heq ▸ horder) fun order j hj => ?_
            obtain ⟨-, rfl⟩ := Prod.mk.inj (Option.some.inj hj)
            exact hle
          · next hunder =>
            rw [if_neg hunder]
            exact hbest.skip fun _ => ⟨_, _, rfl, hle⟩
        · refine ⟨_, if_neg heq, hbest.take hhit horder fun order j hj => ?_⟩
          obtain ⟨-, rfl⟩ := Prod.mk.inj (Option.some.inj hj)
          exact (h.scene_lt_of_surface hsurf ht (lt_of_le_of_ne hlow (Ne.symm heq))).le

theorem pickAll_spec (h : Rooted core F) (hfinite : core.FiniteLayers) : ∀ (slots : List ℕ) {done : List ℕ}
    {best : Option (ℤ × ℕ)}, Best S trig core F point opts done best →
    ∃ best', core.pickAll S trig point opts slots best = some best' ∧
      Best S trig core F point opts (slots.reverse ++ done) best'
  | [], done, best, hbest => ⟨best, rfl, hbest⟩
  | i :: slots, done, best, hbest => by
    obtain ⟨best', hpick, hbest'⟩ := pickOne_spec h hfinite hbest i
    obtain ⟨best'', hrest, hbest''⟩ := pickAll_spec h hfinite slots hbest'
    refine ⟨best'', by rw [pickAll, hpick]; exact hrest, ?_⟩
    rwa [List.reverse_cons, List.append_assoc]

/-- After all live slots, what is kept is the last hit of the scene. -/
theorem Best.topmost (h : Rooted core F) (hbest : Best S trig core F point opts (core.nodes.liveIndices.reverse ++ []) best) :
    ((best.map fun best => core.nodes.idAt best.2).getD 0) = core.topmost S trig F point opts := by
  have hlive : ∀ {j}, core.hits S trig point opts j = true → (core.nodes.recordAt j).isSome := by
    intro j hj
    unfold hits at hj
    cases hrecord : core.nodes.recordAt j with
    | none => rw [hrecord] at hj; cases hj
    | some record => rfl
  have hmet : ∀ {j}, core.hits S trig point opts j = true → j ∈ core.nodes.liveIndices.reverse ++ [] := fun hj => by
    simpa using core.nodes.mem_liveIndices.mpr (hlive hj)
  have hlast : ((core.scene F).filter (core.hits S trig point opts)).getLast? = best.map Prod.snd := by
    cases best with
    | none =>
      rw [Option.map_none, List.getLast?_eq_none_iff, List.filter_eq_nil_iff]
      intro j _ hj
      rw [hbest j (hmet hj)] at hj
      cases hj
    | some kept =>
      obtain ⟨⟨hhit, -, -⟩, hmax⟩ := hbest
      refine (getLast?_filter_eq_some h.nodup_scene).mpr ⟨⟨h.mem_scene (surf_isSome.trans (hlive hhit)), hhit⟩, ?_⟩
      exact fun j _ hj => hmax j (hmet hj) hj
  unfold RendererCore.topmost
  rw [hlast, Option.map_map]
  rfl

end scan

/-! ### Any history of the tree -/

theorem reached_of_watched {note : Call ℚ → TransformStore ℚ → TransformStore ℚ → (ℕ → Prop) → ℕ → Prop}
    {s : TransformStore ℚ} {changed : ℕ → Prop} (h : Watched note s F changed) : Reached Permitted s F := by
  induction h with
  | new => exact .new
  | call _ hok hcall ih => exact .call ih hok.permitted hcall

/-- Two trees of one store have the same nodes in use. -/
theorem mem_placed_of_shaped {s : TransformStore ℚ} {G : OrderedForest ℕ} (hF : Shaped s F) (hG : Shaped s G)
    (hi : i ∈ F.placed) : i ∈ G.placed := by
  have hparent : F.parent = G.parent := hF.parent_eq.symm.trans hG.parent_eq
  cases hp : F.parent i with
  | some p => exact (G.closed (hparent ▸ hp)).1
  | none =>
    have hroot : i ∈ F.roots := OrderedForest.mem_beneath.mpr ⟨hi, hp⟩
    rw [← hF.roots_eq, hG.roots_eq] at hroot
    exact (OrderedForest.mem_beneath.mp hroot).1

theorem Kept.rooted (h : core.Kept) (hF : Reached Permitted core.xf.store F) : Rooted core F := by
  obtain ⟨G, hG⟩ := h
  have hshaped : Shaped core.xf.store F := hF.shaped fun _ _ _ hc => hc
  refine ⟨hshaped, fun i => ?_, fun c p hp => hG.surfaces c p ?_⟩
  · rw [← hG.live]
    exact ⟨mem_placed_of_shaped hshaped hG.shaped, mem_placed_of_shaped hG.shaped hshaped⟩
  · rw [← hG.shaped.parent_eq, hshaped.parent_eq]
    exact hp

/-- What the paint order of a tree means for the comparison and for every pick. -/
structure Picks (S : SceneSink σ) (trig : Trig) (core resolved : RendererCore σ) (F : OrderedForest ℕ) : Prop where
  /-- A surface is painted with its own nodes, each once. -/
  painted : ∀ surface, (resolved.painted F surface).Nodup ∧
    ∀ i, i ∈ resolved.painted F surface ↔ resolved.surf i = some surface
  drawsAbove : ∀ surface a b, resolved.surf a = some surface → resolved.surf b = some surface →
    resolved.drawsAbove a b = some (decide ((resolved.painted F surface).idxOf b < (resolved.painted F surface).idxOf a))
  strict : ∀ surface, IsStrictTotalOrder {i // resolved.surf i = some surface} fun a b =>
    resolved.drawsAbove b a = some true
  nodeAt : ∀ point opts, core.nodeAt S trig point opts = some (resolved.topmost S trig F point opts, resolved)

theorem Rooted.strict (h : Rooted core F) (hfinite : core.FiniteLayers) (surface : Surface) :
    IsStrictTotalOrder {i // core.surf i = some surface} fun a b => core.drawsAbove b a = some true := by
  have hiff : ∀ a b : {i // core.surf i = some surface}, core.drawsAbove b a = some true ↔
      (core.painted F surface).idxOf a.1 < (core.painted F surface).idxOf b.1 := fun a b => by
    rw [h.drawsAbove_eq hfinite b.2 a.2, Option.some_inj, decide_eq_true_iff]
  refine { trichotomous := fun a b hab hba => ?_, irrefl := fun a ha => ?_, trans := fun a b c hab hbc => ?_ }
  · rw [hiff, not_lt] at hab hba
    exact Subtype.ext ((List.idxOf_inj (h.mem_painted.mpr a.2)).mp (le_antisymm hba hab))
  · exact lt_irrefl _ ((hiff a a).mp ha)
  · exact (hiff a c).mpr (((hiff a b).mp hab).trans ((hiff b c).mp hbc))

/-- **A point picks what is drawn on top**: whatever calls were made of a core, once its layers are numbers the
comparison is the order of painting on every surface, and a pick answers the last node painted under the point. -/
theorem picking_is_topmost (S : SceneSink σ) (trig : Trig) (sink : σ) (config : CoreConfig) (es : List SceneEvent)
    (hrun : run S trig es (new sink config) = some core) (hfinite : core.FiniteLayers) :
    ∃ resolved, core.query = some resolved ∧ (∃ F, Reached Permitted resolved.xf.store F) ∧
      ∀ F, Reached Permitted resolved.xf.store F → Picks S trig core resolved F := by
  obtain ⟨core', hrun', hkept, -⟩ := run_ends S trig es (kept_new sink config)
  obtain rfl := Option.some.inj (hrun'.symm.trans hrun)
  obtain ⟨F, hF⟩ := hkept
  obtain ⟨t, ht, hsound, -, -, -⟩ := Transforms.resolves hF
  have hquery : core'.query = some { core' with xf := t } := by rw [query, ht, Option.map_some]
  refine ⟨_, hquery, ?_, fun G hG => ?_⟩
  · obtain ⟨_, hwatched⟩ := hsound.watched
    exact ⟨F, reached_of_watched hwatched⟩
  · have hroot : Rooted { core' with xf := t } G := Kept.rooted ⟨F, hsound⟩ hG
    have hlayers : FiniteLayers { core' with xf := t } := hfinite
    refine ⟨fun surface => ⟨G.nodup_paintAll _ _, fun i => hroot.mem_painted⟩,
      fun surface a b ha hb => hroot.drawsAbove_eq hlayers ha hb, hroot.strict hlayers, fun point opts => ?_⟩
    have hstart : Best S trig { core' with xf := t } G point opts [] none := fun j hj => absurd hj List.not_mem_nil
    obtain ⟨best, hpick, hbest⟩ := pickAll_spec hroot hlayers core'.nodes.liveIndices hstart
    unfold nodeAt
    rw [hquery]
    simp only [hpick, Option.map_some, hbest.topmost hroot]

/-- Two sprites one over the other, the lower made last but of a lower layer. -/
theorem picking_is_topmost_pair : ∃ core resolved, run (nullSink fun _ => some ⟨64, 32⟩) ⟨fun _ => 0, fun _ => 0⟩
      [.createNode { kind := .sprite, texture := "block" },
        .createNode { kind := .sprite, texture := "block", layer := some (.finite (-1)) }]
      (new (fun surface => surface = .world || surface = .ui) stageConfig) = some core ∧ core.query = some resolved ∧
    (∃ F, Reached Permitted resolved.xf.store F) ∧ ∀ F, Reached Permitted resolved.xf.store F →
      Picks (nullSink fun _ => some ⟨64, 32⟩) ⟨fun _ => 0, fun _ => 0⟩ core resolved F := by
  obtain ⟨core, hrun, -⟩ := run_ends (nullSink fun _ => some ⟨64, 32⟩) ⟨fun _ => 0, fun _ => 0⟩
    [.createNode { kind := .sprite, texture := "block" },
        .createNode { kind := .sprite, texture := "block", layer := some (.finite (-1)) }]
      (kept_new (fun surface => surface = .world || surface = .ui) stageConfig)
  obtain ⟨resolved, hpicks⟩ := picking_is_topmost _ _ _ _ _ hrun (by
    obtain rfl := Option.some.inj hrun
    intro i
    match i with
    | 0 | 1 => rfl
    | i + 2 => rfl)
  exact ⟨core, resolved, hrun, hpicks⟩

end Grove.Render.RendererCore
