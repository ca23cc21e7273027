import Grove.Render.Calls

/-! # Incremental culling is full culling

Between two calls every live slot is marked for the next flush, or all are, or it was decided against the viewport of
the last pass and nothing its decision reads has changed (`Settled`).  A flush drains the marks by deciding each of
them anew, so after it every flag, and the last value every object was told, is the decision computed afresh. -/

namespace Grove.Render.RendererCore

variable {σ : Type} {S : SceneSink σ} {trig : Trig} {core core' start : RendererCore σ} {i j : ℕ} {done : List ℕ}

/-- The flag of a slot, and what its object was told, are the decision against a viewport. -/
structure Decided (S : SceneSink σ) (trig : Trig) (core : RendererCore σ) (viewport : Bounds) (i : ℕ) : Prop where
  culled : (core.xf.laneAt i).culled = !core.shouldDrawIn S trig viewport i
  told : core.told i = some (core.shouldDrawIn S trig viewport i)

def Settled (S : SceneSink σ) (trig : Trig) (core : RendererCore σ) : Prop :=
  ∀ i, (core.nodes.recordAt i).isSome →
    core.cullAll = true ∨ core.xf.Marked i ∨ Decided S trig core core.culledViewport i

/-- Every live node is decided as it would be afresh. -/
def FullyCulled (S : SceneSink σ) (trig : Trig) (core : RendererCore σ) : Prop :=
  ∀ i, (core.nodes.recordAt i).isSome →
    (core.xf.laneAt i).culled = (!core.shouldDraw S trig i) ∧ core.told i = some (core.shouldDraw S trig i)

/-! ### What a decision reads -/

theorem shouldDrawIn_eq (viewport : Bounds) (i : ℕ) : core.shouldDrawIn S trig viewport i =
    match core.artOf S i with
    | none => false
    | some (kind, surface, visible, size) =>
      if kind = .group then true
      else if !isCameraTransformed surface then true
      else if (core.xf.laneAt i).neverCull then true
      else if !visible then true
      else isVisibleInViewport (worldAabb trig
        (spriteLocalBounds size (core.xf.laneAt i).scale.1 (core.xf.laneAt i).scale.2.1 (core.xf.laneAt i).anchorX
          (core.xf.laneAt i).anchorY)
        (core.xf.laneAt i).rotation (core.xf.resolvedAt i).1 (core.xf.resolvedAt i).2.1) viewport core.config.cullMargin := by
  unfold shouldDrawIn worldBoundsAt localBoundsAt artOf
  cases core.nodes.recordAt i with
  | none => rfl
  | some record =>
    simp only [Option.map_some]
    split
    · rfl
    · rfl

/-- The same art, lanes apart from the flag, place and margin decide alike. -/
theorem shouldDrawIn_congr (hart : core'.artOf S i = core.artOf S i) {c : Bool}
    (hlane : core'.xf.laneAt i = { core.xf.laneAt i with culled := c })
    (hresolved : core'.xf.resolvedAt i = core.xf.resolvedAt i) (hmargin : core'.config.cullMargin = core.config.cullMargin)
    (viewport : Bounds) : core'.shouldDrawIn S trig viewport i = core.shouldDrawIn S trig viewport i := by
  rw [shouldDrawIn_eq, shouldDrawIn_eq, hart, hlane, hresolved, hmargin]

theorem SameSlot.draws (h : SameSlot S core core' i) (hmargin : core'.config.cullMargin = core.config.cullMargin)
    (viewport : Bounds) : core'.shouldDrawIn S trig viewport i = core.shouldDrawIn S trig viewport i :=
  shouldDrawIn_congr (c := (core.xf.laneAt i).culled) h.art h.xf.lane h.xf.resolved hmargin viewport

theorem SameSlot.decided (h : SameSlot S core core' i) (hmargin : core'.config.cullMargin = core.config.cullMargin)
    {viewport : Bounds} (hdecided : Decided S trig core viewport i) : Decided S trig core' viewport i := by
  refine ⟨?_, ?_⟩
  · rw [h.xf.lane, h.draws hmargin, hdecided.culled]
  · rw [h.told, h.draws hmargin, hdecided.told]

theorem Settled.carried (h : Settled S trig core) (hcarries : Carries S core core') : Settled S trig core' := by
  intro i hi
  obtain hall | hmarked | hsame := hcarries.slots i hi
  · exact .inl hall
  · exact .inr (.inl hmarked)
  · obtain hall | hmarked | hdecided := h i (hsame.isSome ▸ hi)
    · exact .inl (hcarries.all hall)
    · exact .inr (.inl (hsame.xf.marked hmarked))
    · refine .inr (.inr ?_)
      rw [hcarries.viewport]
      exact hsame.decided hcarries.margin hdecided

/-! ### The pass -/

/-- A pass that has decided `done`, and touched nothing else. -/
structure Culling (S : SceneSink σ) (trig : Trig) (start core : RendererCore σ) (done : List ℕ) : Prop where
  nodes : core.nodes = start.nodes
  store : core.xf.store = start.xf.store
  config : core.config = start.config
  viewport : core.viewport = start.viewport
  culledViewport : core.culledViewport = start.culledViewport
  art : ∀ j, core.artOf S j = start.artOf S j
  decided : ∀ j ∈ done, j < start.xf.store.count → Decided S trig core start.viewport j
  lanes : ∀ j, ∃ culled, core.xf.laneAt j = { start.xf.laneAt j with culled := culled }
  others : ∀ j, j ∉ done → (core.xf.laneAt j).culled = (start.xf.laneAt j).culled ∧ core.told j = start.told j

theorem Culling.refl (start : RendererCore σ) : Culling S trig start start [] where
  nodes := rfl
  store := rfl
  config := rfl
  viewport := rfl
  culledViewport := rfl
  art _ := rfl
  decided _ hj := absurd hj List.not_mem_nil
  lanes j := ⟨(start.xf.laneAt j).culled, rfl⟩
  others _ _ := ⟨rfl, rfl⟩

theorem Culling.draws (h : Culling S trig start core done) (viewport : Bounds) (j : ℕ) :
    core.shouldDrawIn S trig viewport j = start.shouldDrawIn S trig viewport j := by
  obtain ⟨culled, hlane⟩ := h.lanes j
  refine shouldDrawIn_congr (h.art j) hlane ?_ (by rw [h.config]) viewport
  unfold Transforms.resolvedAt
  rw [h.store]

/-- Deciding a slot writes its flag only. -/
theorem laneAt_setCulled (t : Transforms) (i : ℕ) (culled : Bool) (j : ℕ) : (t.setCulled i culled).laneAt j =
    if j = i ∧ i < t.store.count then { t.laneAt j with culled := culled } else t.laneAt j := by
  unfold Transforms.setCulled Transforms.laneAt
  by_cases hi : i < t.store.count
  · by_cases hj : j = i
    · subst hj
      simp [hi]
    · simp [hi, hj]
  · simp [hi]

theorem store_setCulled (t : Transforms) (i : ℕ) (culled : Bool) : (t.setCulled i culled).store = t.store := by
  unfold Transforms.setCulled
  split <;> rfl

theorem Culling.cull (hS : S.Steady) (h : Culling S trig start core done) (i : ℕ) :
    Culling S trig start (core.cull S trig i) (i :: done) := by
  have hstore : (core.cull S trig i).xf.store = core.xf.store := store_setCulled _ _ _
  have hart : ∀ j, (core.cull S trig i).artOf S j = core.artOf S j := fun j => by
    let flagged : RendererCore σ := { core with xf := core.xf.setCulled i (!core.shouldDraw S trig i) }
    have htell : (flagged.tell S (.setRenderable i (core.shouldDraw S trig i))).artOf S j = flagged.artOf S j :=
      artOf_tell hS (fun heq => heq) fun _ _ heq => by cases heq
    exact htell
  have hlane := laneAt_setCulled core.xf i (!core.shouldDraw S trig i)
  have hlanes : ∀ j, ∃ culled, (core.cull S trig i).xf.laneAt j = { core.xf.laneAt j with culled := culled } := by
    intro j
    by_cases hj : j = i ∧ i < core.xf.store.count
    · exact ⟨_, (hlane j).trans (if_pos hj)⟩
    · exact ⟨_, (hlane j).trans (if_neg hj)⟩
  have hdraws : ∀ viewport j, (core.cull S trig i).shouldDrawIn S trig viewport j = core.shouldDrawIn S trig viewport j := by
    intro viewport j
    obtain ⟨culled, hj⟩ := hlanes j
    refine shouldDrawIn_congr (hart j) hj ?_ rfl viewport
    unfold Transforms.resolvedAt
    rw [hstore]
  refine ⟨h.nodes, hstore.trans h.store, h.config, h.viewport, h.culledViewport, fun j => (hart j).trans (h.art j), ?_, ?_, ?_⟩
  · intro j hj hcount
    by_cases hji : j = i
    · subst hji
      refine ⟨?_, ?_⟩
      · rw [hdraws, show (core.cull S trig j).xf.laneAt j = _ from hlane j, if_pos ⟨rfl, h.store ▸ hcount⟩, ← h.viewport]
        rfl
      · rw [hdraws, ← h.viewport]
        exact Function.update_self _ _ _
    · have hdecided := h.decided j ((List.mem_cons.mp hj).resolve_left hji) hcount
      refine ⟨?_, ?_⟩
      · rw [hdraws, show (core.cull S trig i).xf.laneAt j = _ from hlane j, if_neg fun h => hji h.1, hdecided.culled]
      · rw [hdraws, ← hdecided.told]
        exact Function.update_of_ne hji _ _
  · intro j
    obtain ⟨culled, hj⟩ := hlanes j
    obtain ⟨culled', hj'⟩ := h.lanes j
    exact ⟨culled, by rw [hj, hj']⟩
  · intro j hj
    have hji : j ≠ i := fun heq => hj (heq ▸ List.mem_cons_self)
    obtain ⟨hculled, htold⟩ := h.others j fun hmem => hj (List.mem_cons_of_mem _ hmem)
    refine ⟨?_, ?_⟩
    · rw [show (core.cull S trig i).xf.laneAt j = _ from hlane j, if_neg fun h => hji h.1, hculled]
    · exact (Function.update_of_ne hji _ _).trans htold

theorem Culling.culls (hS : S.Steady) : ∀ (slots : List ℕ) {core : RendererCore σ} {done : List ℕ},
    Culling S trig start core done → Culling S trig start (slots.foldl (RendererCore.cull S trig) core) (slots.reverse ++ done)
  | [], _, _, h => h
  | slot :: slots, core, done, h => by
    have hrest := Culling.culls hS slots (h.cull hS slot)
    rwa [List.reverse_cons, List.append_assoc]

/-- Each slot of a list is decided once, whatever was before. -/
theorem Culling.cullsOnce (hS : S.Steady) : ∀ (slots : List ℕ) {acc : RendererCore σ × List ℕ},
    Culling S trig start acc.1 acc.2 →
    Culling S trig start (slots.foldl (cullOnce S trig) acc).1 (slots.foldl (cullOnce S trig) acc).2 ∧
      (∀ j ∈ slots, j ∈ (slots.foldl (cullOnce S trig) acc).2) ∧ ∀ j ∈ acc.2, j ∈ (slots.foldl (cullOnce S trig) acc).2
  | [], _, h => ⟨h, fun _ hj => absurd hj List.not_mem_nil, fun _ hj => hj⟩
  | slot :: slots, acc, h => by
    have hstep : Culling S trig start (cullOnce S trig acc slot).1 (cullOnce S trig acc slot).2 ∧
        slot ∈ (cullOnce S trig acc slot).2 ∧ ∀ j ∈ acc.2, j ∈ (cullOnce S trig acc slot).2 := by
      unfold cullOnce
      split
      · next hmem => exact ⟨h, hmem, fun _ hj => hj⟩
      · exact ⟨h.cull hS slot, List.mem_cons_self, fun _ hj => List.mem_cons_of_mem _ hj⟩
    obtain ⟨hculling, hslots, hkeep⟩ := Culling.cullsOnce hS slots hstep.1
    refine ⟨hculling, fun j hj => ?_, fun j hj => hkeep j (hstep.2.2 j hj)⟩
    obtain rfl | hj := List.mem_cons.mp hj
    · exact hkeep j hstep.2.1
    · exact hslots j hj

/-! ### One flush -/

/-- The writes of a flush reach the sink only. -/
theorem writes_frame (hS : S.Steady) : ∀ (slots : List ℕ) (core : RendererCore σ),
    (slots.foldl (writeAt S) core).nodes = core.nodes ∧ (slots.foldl (writeAt S) core).xf = core.xf ∧
      (slots.foldl (writeAt S) core).viewport = core.viewport ∧
      (slots.foldl (writeAt S) core).culledViewport = core.culledViewport ∧ Carries S core (slots.foldl (writeAt S) core)
  | [], core => ⟨rfl, rfl, rfl, rfl, .refl core⟩
  | slot :: slots, core => by
    have hwrite : (core.writeAt S slot).nodes = core.nodes ∧ (core.writeAt S slot).xf = core.xf ∧
        (core.writeAt S slot).viewport = core.viewport ∧ (core.writeAt S slot).culledViewport = core.culledViewport ∧
        Carries S core (core.writeAt S slot) := by
      unfold writeAt
      split
      · exact ⟨rfl, rfl, rfl, rfl, .refl core⟩
      · exact ⟨rfl, rfl, rfl, rfl, carries_tell hS (fun _ h => h) (fun _ _ h => by cases h) rfl⟩
    obtain ⟨hnodes, hxf, hviewport, hculled, hcarries⟩ := hwrite
    obtain ⟨hnodes', hxf', hviewport', hculled', hcarries'⟩ := writes_frame hS slots (core.writeAt S slot)
    exact ⟨hnodes'.trans hnodes, hxf'.trans hxf, hviewport'.trans hviewport, hculled'.trans hculled,
      hcarries.trans hcarries'⟩

/-- What the end of a flush leaves. -/
structure Flushed (S : SceneSink σ) (trig : Trig) (core : RendererCore σ) : Prop where
  kept : core.Kept
  viewport : core.culledViewport = core.viewport
  culled : FullyCulled S trig core

theorem Flushed.settled (h : Flushed S trig core) : Settled S trig core := fun i hi => by
  obtain ⟨hculled, htold⟩ := h.culled i hi
  refine .inr (.inr ?_)
  rw [h.viewport]
  exact ⟨hculled, htold⟩

theorem drainResolved_kept (h : core.Kept) : core.drainResolved.Kept := by
  obtain ⟨F, hF⟩ := h
  exact ⟨F, hF.call .consumeResolvedDirty trivial rfl rfl⟩

/-- Draining the changed slots is no part of what is decided. -/
theorem Culling.drained (h : Culling S trig start core done) :
    Culling S trig start.drainResolved core.drainResolved done where
  nodes := h.nodes
  store := by
    show core.xf.store.consumeResolvedDirty.2 = start.xf.store.consumeResolvedDirty.2
    rw [h.store]
  config := h.config
  viewport := h.viewport
  culledViewport := h.culledViewport
  art := h.art
  decided j hj hcount := by
    obtain ⟨hculled, htold⟩ := h.decided j hj hcount
    exact ⟨hculled, htold⟩
  lanes := h.lanes
  others := h.others

/-- A pass that decided every live slot. -/
theorem Culling.flushed (h : Culling S trig start core done) (hkept : start.Kept)
    (hviewport : start.culledViewport = start.viewport)
    (hall : ∀ i, (start.nodes.recordAt i).isSome → Decided S trig core start.viewport i) : Flushed S trig core := by
  refine ⟨?_, by rw [h.culledViewport, hviewport, h.viewport], fun i hi => ?_⟩
  · refine hkept.congr ?_ h.store
    unfold surf
    rw [h.nodes]
  · obtain ⟨hculled, htold⟩ := hall i (h.nodes ▸ hi)
    rw [← h.viewport] at hculled htold
    exact ⟨hculled, htold⟩

/-- A slot a pass has not decided stands as it did. -/
theorem Culling.untouched (h : Culling S trig start core done) (hj : j ∉ done) {viewport : Bounds}
    (hdecided : Decided S trig start viewport j) : Decided S trig core viewport j := by
  obtain ⟨hculled, htold⟩ := h.others j hj
  exact ⟨by rw [hculled, h.draws, hdecided.culled], by rw [htold, h.draws, hdecided.told]⟩

theorem Kept.lt_count (h : core.Kept) (hi : (core.nodes.recordAt i).isSome) : i < core.xf.store.count := by
  obtain ⟨F, hF⟩ := h
  exact hF.lt_count (surf_isSome.trans hi)

/-- Every live slot is decided. -/
theorem cullLive_flushed (hS : S.Steady) (h : core.Kept) (hviewport : core.culledViewport = core.viewport) :
    Flushed S trig (core.nodes.liveIndices.foldl (cull S trig) core).drainResolved := by
  have hstart : Culling S trig core core [] := .refl core
  have hpass := (hstart.culls hS core.nodes.liveIndices).drained
  refine hpass.flushed (drainResolved_kept h) hviewport fun i hi => hpass.decided i ?_ (h.lt_count hi)
  simpa using core.nodes.mem_liveIndices.mpr hi

/-- What is dirty or changed is decided, and the rest was. -/
theorem cullMarked_flushed (hS : S.Steady) (h : core.Kept) (hviewport : core.culledViewport = core.viewport)
    {dirty : List ℕ} (hsettled : ∀ i, (core.nodes.recordAt i).isSome →
      (i ∈ dirty ∨ i ∈ core.xf.store.resolvedChanged) ∨ Decided S trig core core.viewport i) :
    Flushed S trig ((dirty.foldl (cullOnce S trig) (core, [])).1.xf.store.consumeResolvedDirty.1.foldl (cullOnce S trig)
      ((dirty.foldl (cullOnce S trig) (core, [])).1.drainResolved, (dirty.foldl (cullOnce S trig) (core, [])).2)).1 := by
  have hstart : Culling S trig core core [] := .refl core
  obtain ⟨hfirst, hdirty, -⟩ := @Culling.cullsOnce _ _ _ _ hS dirty (core, []) hstart
  generalize dirty.foldl (cullOnce S trig) (core, []) = first at hfirst hdirty
  obtain ⟨hsecond, hchanged, hkeep⟩ := @Culling.cullsOnce _ _ _ _ hS first.1.xf.store.consumeResolvedDirty.1
    (first.1.drainResolved, first.2) hfirst.drained
  generalize first.1.xf.store.consumeResolvedDirty.1.foldl (cullOnce S trig) (first.1.drainResolved, first.2) = second
    at hsecond hchanged hkeep
  refine hsecond.flushed (drainResolved_kept h) hviewport fun i hi => ?_
  by_cases hdone : i ∈ second.2
  · exact hsecond.decided i hdone (h.lt_count hi)
  · obtain (hmem | hmem) | hdecided := hsettled i hi
    · exact absurd (hkeep i (hdirty i hmem)) hdone
    · refine absurd (hchanged i ?_) hdone
      show i ∈ first.1.xf.store.resolvedChanged
      rw [hfirst.store]
      exact hmem
    · have hdrained : Decided S trig core.drainResolved core.viewport i := ⟨hdecided.culled, hdecided.told⟩
      exact hsecond.untouched hdone hdrained

theorem cullPass_flushed (hS : S.Steady) (h : core.Kept) {dirty : List ℕ}
    (hsettled : ∀ i, (core.nodes.recordAt i).isSome →
      core.cullAll = true ∨ (i ∈ dirty ∨ i ∈ core.xf.store.resolvedChanged) ∨ Decided S trig core core.culledViewport i) :
    Flushed S trig (core.cullPass S trig dirty) := by
  unfold cullPass
  by_cases hview : core.culledViewport = core.viewport
  · rw [if_pos hview]
    cases hall : core.cullAll with
    | true =>
      rw [if_pos hall]
      exact @cullLive_flushed _ _ _ { core with cullAll := false } hS h hview
    | false =>
      rw [if_neg (by rw [hall]; exact Bool.false_ne_true)]
      refine cullMarked_flushed hS h hview fun i hi => ?_
      obtain hset | hmarked | hdecided := hsettled i hi
      · rw [hall] at hset
        cases hset
      · exact .inl hmarked
      · exact .inr (hview ▸ hdecided)
  · rw [if_neg hview]
    exact @cullLive_flushed _ _ _ { core with culledViewport := core.viewport, cullAll := false } hS h rfl

/-- A flush ends, and every live node is decided as afresh. -/
theorem flush_ends (hS : S.Steady) (h : core.Kept) (hsettled : Settled S trig core) :
    ∃ core', core.flush S trig = some core' ∧ Flushed S trig core' := by
  obtain ⟨F, hF⟩ := h
  obtain ⟨t, ht, hsound, -, -, hkeeps⟩ := Transforms.resolves hF
  unfold flush
  rw [ht]
  refine ⟨_, rfl, ?_⟩
  have hresolved : Settled S trig { core with xf := t } := hsettled.carried (carries_xf fun j _ => hkeeps j)
  let drained : RendererCore σ := { core with xf := { t with store := t.store.consumeFlushDirty.2 } }
  obtain ⟨hnodes, hxf, hviewport, hculled, hcarries⟩ := writes_frame hS t.store.flushDirty drained
  have hkept : (t.store.flushDirty.foldl (writeAt S) drained).Kept := by
    have hdrained : Sound core.surf t.store.consumeFlushDirty.2 F := hsound.call .consumeFlushDirty trivial rfl rfl
    have hstart : drained.Kept := ⟨F, hdrained⟩
    refine hstart.congr ?_ (by rw [hxf])
    unfold surf
    rw [hnodes]
  refine cullPass_flushed hS hkept fun i hi => ?_
  rw [hnodes] at hi
  obtain hall | (hdirty | hchanged) | hdecided := hresolved i hi
  · exact .inl (hcarries.all hall)
  · exact .inr (.inl (.inl hdirty))
  · exact .inr (.inl (.inr (by rw [hxf]; exact hchanged)))
  · -- the writes change nothing that is read
    have hstill : Decided S trig drained core.culledViewport i := ⟨hdecided.culled, hdecided.told⟩
    obtain hall | hmarked | hsame := hcarries.slots i (by rw [hnodes]; exact hi)
    · exact .inl hall
    · obtain hflush | hchanged := hmarked
      · rw [hxf] at hflush
        cases hflush
      · exact .inr (.inl (.inr hchanged))
    · exact .inr (.inr (hculled ▸ hsame.decided hcarries.margin hstill))

/-! ### A rebuild -/

theorem recreate_frame : ∀ (slots : List ℕ) (core : RendererCore σ),
    (slots.foldl (recreate S) core).nodes = core.nodes ∧ (slots.foldl (recreate S) core).xf = core.xf
  | [], core => ⟨rfl, rfl⟩
  | slot :: slots, core => by
    have hslot : (core.recreate S slot).nodes = core.nodes ∧ (core.recreate S slot).xf = core.xf := by
      unfold recreate
      split
      · exact ⟨rfl, rfl⟩
      · exact ⟨rfl, rfl⟩
    obtain ⟨hnodes, hxf⟩ := recreate_frame slots (core.recreate S slot)
    exact ⟨hnodes.trans hslot.1, hxf.trans hslot.2⟩

theorem recreateAll_ends : ∀ (roots : List ℕ) {core : RendererCore σ}, core.Kept →
    (∀ r ∈ roots, (core.nodes.recordAt r).isSome) →
    ∃ core', recreateAll S roots core = some core' ∧ core'.nodes = core.nodes ∧ core'.xf = core.xf
  | [], core, _, _ => ⟨core, rfl, rfl, rfl⟩
  | root :: roots, core, h, hlive => by
    obtain ⟨slots, hslots, -⟩ := h.choose_spec.subtree (surf_isSome.trans (hlive root List.mem_cons_self))
    obtain ⟨hnodes, hxf⟩ := recreate_frame (S := S) slots core
    have hkept : (slots.foldl (recreate S) core).Kept := by
      refine h.congr ?_ (by rw [hxf])
      unfold surf
      rw [hnodes]
    have hrest : ∀ r ∈ roots, ((slots.foldl (recreate S) core).nodes.recordAt r).isSome := fun r hr => by
      rw [hnodes]
      exact hlive r (List.mem_cons_of_mem _ hr)
    obtain ⟨core', hcore', hnodes', hxf'⟩ := recreateAll_ends roots hkept hrest
    rw [recreateAll, hslots]
    exact ⟨core', hcore', hnodes'.trans hnodes, hxf'.trans hxf⟩

/-! ### The agreement, whatever the sink answers -/

theorem cull_kept (h : core.Kept) (i : ℕ) : (core.cull S trig i).Kept := h.congr rfl (store_setCulled _ _ _)

theorem culls_kept : ∀ (slots : List ℕ) {core : RendererCore σ}, core.Kept → (slots.foldl (cull S trig) core).Kept
  | [], _, h => h
  | slot :: slots, _, h => culls_kept slots (cull_kept h slot)

theorem cullsOnce_kept : ∀ (slots : List ℕ) {acc : RendererCore σ × List ℕ}, acc.1.Kept →
    (slots.foldl (cullOnce S trig) acc).1.Kept
  | [], _, h => h
  | slot :: slots, acc, h => by
    refine cullsOnce_kept slots ?_
    unfold cullOnce
    split
    · exact h
    · exact cull_kept h slot

theorem cullPass_kept (h : core.Kept) (dirty : List ℕ) : (core.cullPass S trig dirty).Kept := by
  have hview : (if core.culledViewport = core.viewport then core
      else { core with culledViewport := core.viewport, cullAll := true }).Kept := by
    split
    · exact h
    · exact h
  unfold cullPass
  generalize (if core.culledViewport = core.viewport then core
    else { core with culledViewport := core.viewport, cullAll := true }) = seen at hview
  dsimp only
  split
  · exact drainResolved_kept (@culls_kept _ _ _ _ { seen with cullAll := false } hview)
  · have hfirst := @cullsOnce_kept _ S trig dirty (seen, []) hview
    exact cullsOnce_kept _ (drainResolved_kept hfirst)

theorem writes_kept : ∀ (slots : List ℕ) {core : RendererCore σ}, core.Kept → (slots.foldl (writeAt S) core).Kept
  | [], _, h => h
  | slot :: slots, core, h => by
    refine writes_kept slots ?_
    unfold writeAt
    split
    · exact h
    · exact h

theorem flush_kept (S : SceneSink σ) (trig : Trig) (h : core.Kept) : ∃ core', core.flush S trig = some core' ∧ core'.Kept := by
  obtain ⟨F, hF⟩ := h
  obtain ⟨t, ht, hsound, -, -, -⟩ := Transforms.resolves hF
  have hdrained : Sound core.surf t.store.consumeFlushDirty.2 F := hsound.call .consumeFlushDirty trivial rfl rfl
  unfold flush
  rw [ht]
  refine ⟨_, rfl, cullPass_kept (writes_kept _ ?_) _⟩
  exact ⟨F, hdrained⟩

theorem rebuilt_kept (h : core.Kept) : ∃ core', recreateAll S core.xf.store.roots (core.tell S .clearAll) = some core' ∧
    Kept { core' with xf := { core'.xf with store := core'.xf.store.markAllDirty }, cullAll := true } := by
  obtain ⟨F, hF⟩ := h
  have hroots : ∀ r ∈ core.xf.store.roots, (core.nodes.recordAt r).isSome := fun r hr => by
    rw [hF.shaped.roots_eq] at hr
    exact surf_isSome.symm.trans ((hF.live r).mp (OrderedForest.mem_beneath.mp hr).1)
  have htold : (core.tell S .clearAll).Kept := ⟨F, hF⟩
  obtain ⟨core', hcore', hnodes, hxf⟩ := recreateAll_ends (S := S) core.xf.store.roots htold hroots
  have hmarked : Sound core.surf core.xf.store.markAllDirty F := hF.call .markAllDirty trivial rfl rfl
  refine ⟨core', hcore', F, ?_⟩
  show Sound core'.surf core'.xf.store.markAllDirty F
  unfold surf
  rw [hnodes, hxf]
  exact hmarked

theorem rebuildScene_kept (S : SceneSink σ) (trig : Trig) (h : core.Kept) : ∃ core', core.rebuildScene S trig = some core' ∧ core'.Kept := by
  obtain ⟨core', hcore', hkept⟩ := rebuilt_kept (S := S) h
  unfold rebuildScene
  rw [hcore']
  exact flush_kept S trig hkept

theorem rebuildScene_ends (hS : S.Steady) (trig : Trig) (h : core.Kept) :
    ∃ core', core.rebuildScene S trig = some core' ∧ Flushed S trig core' := by
  obtain ⟨core', hcore', hkept⟩ := rebuilt_kept (S := S) h
  unfold rebuildScene
  rw [hcore']
  exact flush_ends hS hkept fun _ _ => .inl rfl

/-! ### Runs -/

/-- What a call leaves of the agreement and of what is settled. -/
def Leaves (S : SceneSink σ) (trig : Trig) (core core' : RendererCore σ) : Prop :=
  core'.Kept ∧ (S.Steady → Settled S trig core → Settled S trig core')

theorem Advances.leaves (h : Advances S core core') : Leaves S trig core core' :=
  ⟨h.kept, fun hS hsettled => hsettled.carried (h.carries hS)⟩

/-- Every call ends, and leaves what the next one needs. -/
theorem step_ends (S : SceneSink σ) (trig : Trig) (h : core.Kept) (e : SceneEvent) :
    ∃ core', core.step S trig e = some core' ∧ Leaves S trig core core' := by
  cases e with
  | createNode desc =>
    unfold step
    cases hcreate : core.createNode S desc with
    | error e =>
      simp only [hcreate]
      exact ⟨core, rfl, h.advances.leaves⟩
    | ok created =>
      simp only [hcreate]
      exact ⟨created.2, rfl, (createNode_advances h hcreate).leaves⟩
  | destroyNode id =>
    obtain ⟨core', hcore', hadvances⟩ := destroyNode_ends (S := S) h id
    exact ⟨core', hcore', hadvances.leaves⟩
  | updateNodes patches =>
    obtain ⟨core', e, hcore', hadvances⟩ := updateNodes_ends (S := S) patches h
    exact ⟨core', by rw [step, hcore', Option.map_some], hadvances.leaves⟩
  | updateSubtree root patch includeRoot =>
    obtain ⟨core', hcore', hadvances⟩ := updateSubtree_ends (S := S) h root patch includeRoot
    exact ⟨core', hcore', hadvances.leaves⟩
  | setNodeText id text => exact ⟨_, rfl, (setNodeText_advances h id text).leaves⟩
  | attachNode child parent keep =>
    obtain ⟨core', e, hcore', hadvances⟩ := attachNode_ends (S := S) h child parent keep
    exact ⟨core', by rw [step, hcore', Option.map_some], hadvances.leaves⟩
  | detachNode child keep =>
    obtain ⟨core', hcore', hadvances⟩ := detachNode_ends (S := S) h child keep
    exact ⟨core', hcore', hadvances.leaves⟩
  | clear surface =>
    obtain ⟨core', hcore', hadvances⟩ := clear_ends (S := S) h surface
    exact ⟨core', hcore', hadvances.leaves⟩
  | setCamera | setCanvasSize => exact ⟨_, rfl, h, fun hS hsettled => hsettled.carried (carries_view hS)⟩
  | setSurfaceVisible surface visible =>
    refine ⟨_, rfl, ?_, fun _ hsettled => hsettled.carried (carries_setSurfaceVisible surface visible)⟩
    unfold setSurfaceVisible
    split
    · exact h
    · exact h
  | query =>
    obtain ⟨core', hcore', hadvances⟩ := query_ends (S := S) h
    exact ⟨core', hcore', hadvances.leaves⟩
  | rebuildScene =>
    obtain ⟨core', hcore', hkept⟩ := rebuildScene_kept S trig h
    refine ⟨core', hcore', hkept, fun hS _ => ?_⟩
    obtain ⟨rebuilt, hrebuilt, hflushed⟩ := rebuildScene_ends hS trig h
    obtain rfl := Option.some.inj (hrebuilt.symm.trans hcore')
    exact hflushed.settled
  | flush =>
    obtain ⟨core', hcore', hkept⟩ := flush_kept S trig h
    refine ⟨core', hcore', hkept, fun hS hsettled => ?_⟩
    obtain ⟨flushed, hflush, hflushed⟩ := flush_ends hS h hsettled
    obtain rfl := Option.some.inj (hflush.symm.trans hcore')
    exact hflushed.settled

theorem kept_new (sink : σ) (config : CoreConfig) : (new sink config).Kept := ⟨.empty, .start⟩

theorem run_ends (S : SceneSink σ) (trig : Trig) : ∀ (es : List SceneEvent) {core : RendererCore σ}, core.Kept →
    ∃ core', run S trig es core = some core' ∧ Leaves S trig core core'
  | [], core, h => ⟨core, rfl, h, fun _ hsettled => hsettled⟩
  | e :: es, core, h => by
    obtain ⟨core', hstep, hkept', hsettles⟩ := step_ends S trig h e
    obtain ⟨core'', hrun, hkept'', hsettles'⟩ := run_ends S trig es hkept'
    exact ⟨core'', by rw [run, hstep]; exact hrun, hkept'', fun hS hsettled => hsettles' hS (hsettles hS hsettled)⟩

/-- **Incremental culling is full culling**: whatever calls were made of a core, each of them ends, and a flush or a
rebuild then leaves every live node with the flag, and its object with the last word, that the decision computed afresh
comes to. -/
theorem culling_is_full (hS : S.Steady) (trig : Trig) (sink : σ) (config : CoreConfig) (es : List SceneEvent) :
    ∃ core, run S trig es (new sink config) = some core ∧
      (∃ core', core.flush S trig = some core' ∧ FullyCulled S trig core') ∧
      ∃ core', core.rebuildScene S trig = some core' ∧ FullyCulled S trig core' := by
  obtain ⟨core, hrun, hkept, hsettles⟩ := run_ends S trig es (kept_new sink config)
  have hsettled : Settled S trig core := hsettles hS fun _ _ => .inl rfl
  obtain ⟨flushed, hflush, hflushed⟩ := flush_ends hS hkept hsettled
  obtain ⟨rebuilt, hrebuild, hrebuilt⟩ := rebuildScene_ends hS trig hkept
  exact ⟨core, hrun, ⟨flushed, hflush, hflushed.culled⟩, rebuilt, hrebuild, hrebuilt.culled⟩

/-! ### The headless backend -/

/-- A line's length is counted in UTF-16 units. -/
def measureTextHeadless (text : String) (style : Option TextStyle) : Size ℚ :=
  let size := (style.bind TextStyle.size).getD 26
  let lines := text.splitOn "\n"
  let longest := lines.foldl (fun m line => max m (line.toList.map fun c => if c.toNat < 65536 then 1 else 2).sum) 0
  let lineHeight := (style.bind TextStyle.lineHeight).getD (size * (6 / 5))
  ⟨longest * size * (1 / 2), max 1 lines.length * lineHeight⟩

/-- `NullSink`, by the surfaces it shows: every other method is empty. -/
def nullSink (assets : String → Option (Size ℚ)) : SceneSink (Surface → Bool) where
  apply shown call :=
    match call with
    | .setSurfaceVisible surface visible => Function.update shown surface visible
    | _ => shown
  sizeOf _ _ record :=
    if record.kind = .text then measureTextHeadless record.text record.style else (assets record.texture).getD ⟨1, 1⟩
  surfaceVisible shown surface := shown surface

theorem steady_nullSink (assets : String → Option (Size ℚ)) : (nullSink assets).Steady where
  size _ _ _ _ _ := rfl
  layer _ _ _ _ := rfl
  surface shown call surface h := by
    cases call with
    | setSurfaceVisible shownSurface visible =>
      by_cases hsurface : surface = shownSurface
      · exact absurd (hsurface ▸ rfl) (h visible)
      · exact Function.update_of_ne hsurface _ _
    | _ => rfl

/-- The usual stage. -/
def stageConfig : CoreConfig where
  design := ⟨.finite 800, .finite 600⟩
  canvas := ⟨.finite 800, .finite 600⟩
  scaleMode := .fit
  letterbox := true
  cullMargin := .finite 64
  enabledSurfaces := [.world, .ui]

/-- A node that is moved off the stage and read before the flush. -/
theorem culling_is_full_moved : ∃ core, run (nullSink fun _ => none) ⟨fun _ => 0, fun _ => 0⟩
      [.createNode { kind := .sprite, texture := "coin" }, .flush,
        .updateNodes [{ id := 16777216, position := some ⟨.finite 5000, .finite 0, none⟩ }], .query]
      (new (fun surface => surface = .world || surface = .ui) stageConfig) = some core ∧
    (∃ core', core.flush (nullSink fun _ => none) ⟨fun _ => 0, fun _ => 0⟩ = some core' ∧
      FullyCulled (nullSink fun _ => none) ⟨fun _ => 0, fun _ => 0⟩ core') ∧
    ∃ core', core.rebuildScene (nullSink fun _ => none) ⟨fun _ => 0, fun _ => 0⟩ = some core' ∧
      FullyCulled (nullSink fun _ => none) ⟨fun _ => 0, fun _ => 0⟩ core' :=
  culling_is_full (steady_nullSink fun _ => none) _ _ _ _

end Grove.Render.RendererCore
