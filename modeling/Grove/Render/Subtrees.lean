import Grove.Render.Culling

/-! # Creating a subtree

`createSubtree` of `core/renderer-core.ts`: the descriptors of a batch one after the other, each of which may have an
earlier one for its parent, and the way back when one is refused.  The objects of a backend are those `create` has made
and `destroySubtree` or `clearAll` has not taken down since. -/

namespace Grove.Render

/-- A `NodeDesc` whose parent may be a node the same batch is about to create. -/
structure SubtreeNodeDesc extends NodeDesc where
  parentInBatch : Option JsNumber := none

/-- `text` is the language's spelling of the number. -/
def RendererError.notInBatch (text : String) : RendererError :=
  ⟨"invalid-node-desc", "parentInBatch " ++ text ++ " must name an earlier desc in the same batch"⟩

/-- The place in the batch a number names, before place `at'`. -/
def batchIndex (n : JsNumber) (at' : ℕ) : Option ℕ :=
  match n with
  | .finite q => if q.den = 1 ∧ 0 ≤ q ∧ q < at' then some q.num.toNat else none
  | _ => none

/-- The objects a backend holds after a call. -/
def SinkCall.objects (objects : Set ℕ) : SinkCall → Set ℕ
  | .create index _ _ => insert index objects
  | .destroySubtree subtree => {i | i ∈ objects ∧ i ∉ subtree}
  | .clearAll => ∅
  | _ => objects

/-- A backend with the objects it holds. -/
def SceneSink.holding {σ : Type} (S : SceneSink σ) : SceneSink (σ × Set ℕ) where
  apply sink call := (S.apply sink.1 call, call.objects sink.2)
  sizeOf sink := S.sizeOf sink.1
  surfaceVisible sink := S.surfaceVisible sink.1

namespace RendererCore

variable {σ : Type} (S : SceneSink σ) (spell : JsNumber → String) (core : RendererCore σ)

def surfaceOf (id : NodeId) : Option Surface := (core.nodes.record id).map NodeRecord.surface

/-- One descriptor of a batch, its parent read out of `created`. -/
def createInBatch (desc : SubtreeNodeDesc) (at' : ℕ) (created : List NodeId) :
    Except RendererError (NodeId × RendererCore σ) :=
  match desc.parentInBatch with
  | none => core.createNode S desc.toNodeDesc
  | some n =>
    match batchIndex n at' with
    | none => .error (.notInBatch (spell n))
    | some k =>
      let parent := created.getD k 0
      core.createNode S { desc.toNodeDesc with
        parent := some parent, surface := some (desc.surface.getD ((core.surfaceOf parent).getD .world)) }

/-- The parent a descriptor asks for, behind those created before it. -/
def requestedParent (desc : SubtreeNodeDesc) (created : List NodeId) : Option NodeId :=
  match desc.parentInBatch with
  | none => desc.parent
  | some n => (batchIndex n created.length).map fun k => created.getD k 0

/-- The loop of `createSubtree`: the error that ended it, if one did, and what was created until then. -/
def createEach : List SubtreeNodeDesc → List NodeId → RendererCore σ → Option RendererError × List NodeId × RendererCore σ
  | [], out, core => (none, out, core)
  | desc :: descs, out, core =>
    match core.createInBatch S spell desc out.length out with
    | .error e => (some e, out, core)
    | .ok (id, core) => createEach descs (out ++ [id]) core

/-- The last one first. -/
def rollback : List NodeId → RendererCore σ → Option (RendererCore σ)
  | [], core => some core
  | id :: ids, core =>
    match core.destroyNode S id with
    | none => none
    | some core => rollback ids core

/-- The error thrown, if one was, and what is then in `out`. -/
def createSubtree (descs : List SubtreeNodeDesc) : Option (Option RendererError × List NodeId × RendererCore σ) :=
  match createEach S spell descs [] core with
  | (none, out, core) => some (none, out, core)
  | (some e, out, core) => (rollback S out.reverse core).map fun core => (some e, [], core)

/-! ### The objects of a scene -/

/-- A scene with the objects its backend holds. -/
abbrev Staged (σ : Type) : Type := RendererCore (σ × Set ℕ)

/-- Every object is that of a live node. -/
def Backed (core : Staged σ) : Prop := ∀ i ∈ core.sink.2, (core.nodes.recordAt i).isSome

/-- No object comes or goes, and no node. -/
structure SameObjects (core core' : Staged σ) : Prop where
  objects : core'.sink.2 = core.sink.2
  nodes : ∀ i, (core'.nodes.recordAt i).isSome = (core.nodes.recordAt i).isSome

variable {S} {trig : Trig} {core core' core'' : Staged σ} {i : ℕ}

theorem SameObjects.refl (core : Staged σ) : SameObjects core core := ⟨rfl, fun _ => rfl⟩

theorem SameObjects.trans (h : SameObjects core core') (h' : SameObjects core' core'') : SameObjects core core'' :=
  ⟨h'.objects.trans h.objects, fun i => (h'.nodes i).trans (h.nodes i)⟩

theorem SameObjects.backed (h : SameObjects core core') (hbacked : core.Backed) : core'.Backed := by
  intro i hi
  rw [h.nodes]
  exact hbacked i (h.objects ▸ hi)

theorem sameObjects_foldl {β : Type} {f : Staged σ → β → Staged σ}
    (hf : ∀ core b, SameObjects core (f core b)) : ∀ (l : List β) (core : Staged σ),
    SameObjects core (l.foldl f core)
  | [], core => .refl core
  | b :: l, core => (hf core b).trans (sameObjects_foldl hf l (f core b))

theorem sameObjects_putRecord {record : NodeRecord} (h : core.nodes.recordAt i = some record) (record' : NodeRecord) :
    SameObjects core (core.putRecord i record') := by
  refine ⟨rfl, fun j => ?_⟩
  rw [recordAt_putRecord h]
  by_cases hj : j = i
  · rw [hj, Function.update_self, h]
    rfl
  · rw [Function.update_of_ne hj]

theorem sameObjects_putText (core : Staged σ) (i : ℕ) (text : Option String) :
    SameObjects core (core.putText S.holding i text) := by
  unfold putText
  split
  · next v record hrecord =>
    split
    · exact (sameObjects_putRecord hrecord _).trans ⟨rfl, fun _ => rfl⟩
    · exact .refl core
  · exact .refl core

theorem sameObjects_applyPatchAt (core : Staged σ) (i : ℕ) (patch : PatchFields) :
    SameObjects core (core.applyPatchAt S.holding i patch) := by
  have hlayer : ∀ core : Staged σ, SameObjects core (core.putLayer S.holding i patch.layer) := by
    intro core
    unfold putLayer
    split
    · next v record hrecord => exact (sameObjects_putRecord hrecord _).trans ⟨rfl, fun _ => rfl⟩
    · exact .refl core
  have htexture : ∀ core : Staged σ, SameObjects core (core.putTexture S.holding i patch.texture) := by
    intro core
    unfold putTexture
    split
    · next v record hrecord =>
      split
      · exact (sameObjects_putRecord hrecord _).trans ⟨rfl, fun _ => rfl⟩
      · exact .refl core
    · exact .refl core
  have hfields : SameObjects core { core with xf := core.xf.writeFields i patch.toTransformFields } := ⟨rfl, fun _ => rfl⟩
  exact ((hfields.trans (hlayer _)).trans (htexture _)).trans (sameObjects_putText _ i patch.text)

theorem sameObjects_relinkAt {parentIndex : Option ℕ} {keep : Bool}
    (h : core.relinkAt i parentIndex keep = some core') : SameObjects core core' := by
  unfold relinkAt at h
  split at h
  · split at h
    · cases h
    · split at h
      · exact Option.some.inj h ▸ ⟨rfl, fun _ => rfl⟩
      · split at h
        · cases h
        · exact Option.some.inj h ▸ ⟨rfl, fun _ => rfl⟩
  · exact Option.some.inj h ▸ ⟨rfl, fun _ => rfl⟩

theorem sameObjects_attachAt {parent : NodeId} {keep : Bool} {e : Option RendererError}
    (h : core.attachAt S.holding i parent keep = some (core', e)) : SameObjects core core' := by
  unfold attachAt at h
  split at h
  · exact (Prod.mk.inj (Option.some.inj h)).1 ▸ .refl core
  · split at h
    · split at h
      · exact (Prod.mk.inj (Option.some.inj h)).1 ▸ .refl core
      · split at h
        · exact (Prod.mk.inj (Option.some.inj h)).1 ▸ .refl core
        · split at h
          · cases h
          · next mid hmid =>
            obtain ⟨rfl, -⟩ := Prod.mk.inj (Option.some.inj h)
            exact (sameObjects_relinkAt hmid).trans ⟨rfl, fun _ => rfl⟩
    · exact (Prod.mk.inj (Option.some.inj h)).1 ▸ .refl core

theorem sameObjects_detachAt {keep : Bool} (h : core.detachAt S.holding i keep = some core') : SameObjects core core' := by
  unfold detachAt at h
  split at h
  · exact Option.some.inj h ▸ .refl core
  · split at h
    · cases h
    · next mid hmid =>
      split at h
      · exact Option.some.inj h ▸ sameObjects_relinkAt hmid
      · exact Option.some.inj h ▸ (sameObjects_relinkAt hmid).trans ⟨rfl, fun _ => rfl⟩

theorem sameObjects_updateNodes : ∀ (patches : List NodePatch) {core core' : Staged σ}
    {e : Option RendererError}, updateNodes S.holding patches core = some (core', e) → SameObjects core core'
  | [], core, core', e, h => (Prod.mk.inj (Option.some.inj h)).1 ▸ .refl core
  | patch :: patches, core, core', e, h => by
    have hparent : ∀ {index mid e}, core.patchParent S.holding index patch.parent = some (mid, e) → SameObjects core mid := by
      intro index mid e hmid
      unfold patchParent at hmid
      split at hmid
      · exact (Prod.mk.inj (Option.some.inj hmid)).1 ▸ .refl core
      · split at hmid
        · obtain ⟨core'', hdetach, heq⟩ := Option.map_eq_some_iff.mp hmid
          exact (Prod.mk.inj heq).1 ▸ sameObjects_detachAt hdetach
        · exact sameObjects_attachAt hmid
    rw [updateNodes] at h
    split at h
    · exact sameObjects_updateNodes patches h
    · split at h
      · cases h
      · next hmid => exact (Prod.mk.inj (Option.some.inj h)).1 ▸ hparent hmid
      · next hmid => exact ((hparent hmid).trans (sameObjects_applyPatchAt _ _ _)).trans (sameObjects_updateNodes patches h)

theorem sameObjects_flush (h : core.flush S.holding trig = some core') : SameObjects core core' := by
  have hcull : ∀ (core : Staged σ) i, SameObjects core (core.cull S.holding trig i) :=
    fun core i => ⟨rfl, fun _ => rfl⟩
  have hwrite : ∀ (core : Staged σ) i, SameObjects core (core.writeAt S.holding i) := by
    intro core i
    unfold writeAt
    split
    · exact .refl core
    · exact ⟨rfl, fun _ => rfl⟩
  have honce : ∀ (l : List ℕ) (acc : Staged σ × List ℕ),
      SameObjects acc.1 (l.foldl (cullOnce S.holding trig) acc).1 := by
    intro l
    induction l with
    | nil => exact fun acc => .refl _
    | cons i l ih =>
      intro acc
      refine SameObjects.trans ?_ (ih _)
      unfold cullOnce
      split
      · exact .refl _
      · exact hcull _ _
  have hpass : ∀ (core : Staged σ) dirty, SameObjects core (core.cullPass S.holding trig dirty) := by
    intro core dirty
    have hview : SameObjects core (if core.culledViewport = core.viewport then core
        else { core with culledViewport := core.viewport, cullAll := true }) := by
      split
      · exact .refl core
      · exact ⟨rfl, fun _ => rfl⟩
    refine hview.trans ?_
    unfold cullPass
    dsimp only
    generalize (if core.culledViewport = core.viewport then core
      else { core with culledViewport := core.viewport, cullAll := true }) = mid
    split
    · have hstart : SameObjects mid { mid with cullAll := false } := ⟨rfl, fun _ => rfl⟩
      exact (hstart.trans (sameObjects_foldl hcull _ _)).trans ⟨rfl, fun _ => rfl⟩
    · have hfirst := honce dirty (mid, [])
      have hdrain : SameObjects (dirty.foldl (cullOnce S.holding trig) (mid, [])).1
        (dirty.foldl (cullOnce S.holding trig) (mid, [])).1.drainResolved := ⟨rfl, fun _ => rfl⟩
      exact (hfirst.trans hdrain).trans (honce _ (_, _))
  unfold flush at h
  split at h
  · cases h
  · next xf hxf =>
    obtain rfl := Option.some.inj h
    have hstart : SameObjects core { core with xf := { xf with store := xf.store.consumeFlushDirty.2 } } := ⟨rfl, fun _ => rfl⟩
    exact (hstart.trans (sameObjects_foldl hwrite _ _)).trans (hpass _ _)

/-! ### One node -/

/-- The values of a slot's own. -/
def own (t : Transforms) (j : ℕ) : Position ℚ × Bool × NodeLanes := (t.store.pos j, t.store.visible j, t.lanes j)

theorem own_write (t : Transforms) {i j : ℕ} (h : j ≠ i) (f : NodeLanes → NodeLanes) : own (t.write i f) j = own t j := by
  have hstore : ∀ s : TransformStore ℚ, (s.markFlushDirty (.whole i)).pos = s.pos ∧
      (s.markFlushDirty (.whole i)).visible = s.visible := by
    intro s
    unfold TransformStore.markFlushDirty
    split <;> exact ⟨rfl, rfl⟩
  unfold Transforms.write
  split
  · simp only [own, hstore, Function.update_of_ne h]
  · rfl

theorem own_link (t : Transforms) (c p j : ℕ) : own (t.link c p) j = own t j := by
  have hlink : (t.store.link (.whole c) (.whole p)).pos = t.store.pos ∧
      (t.store.link (.whole c) (.whole p)).visible = t.store.visible := by
    have hdetach := fun i => (sameLanes_detach t.store i).1
    unfold TransformStore.link
    split
    · exact ⟨rfl, rfl⟩
    · split
      · unfold TransformStore.uproot
        have hadd := fun s i => (sameLanes_addRoot (α := ℚ) s i).1
        exact ⟨(hadd _ _).pos.trans (hdetach _).pos, (hadd _ _).visible.trans (hdetach _).visible⟩
      · split
        · exact ⟨rfl, rfl⟩
        · split
          · exact ⟨rfl, rfl⟩
          · exact ⟨(hdetach _).pos, (hdetach _).visible⟩
  simp only [own, Transforms.link, hlink]

/-- A new node writes no values but its own. -/
theorem own_placeNew (t : Transforms) {i j : ℕ} (h : j ≠ i) (desc : NodeDesc) (q : Option ℕ) :
    own (placeNew t i desc q) j = own t j := by
  let P : Transforms → Prop := fun t' => own t' j = own t j
  have hwrite : ∀ t f, P t → P (t.write i f) := fun t f ht => (own_write t h f).trans ht
  have hpos : ∀ t p, P t → P (t.setPosition i p) := by
    intro t p ht
    refine Eq.trans ?_ ht
    unfold Transforms.setPosition TransformStore.setPosition
    split
    · rfl
    · next n hn =>
      obtain rfl : i = n := Option.some.inj (has_eq_some.mp hn).1
      simp [own, TransformStore.markMoved, h]
  have hvisible : ∀ t v, P t → P (t.setVisible i v) := by
    intro t v ht
    refine Eq.trans ?_ ht
    unfold Transforms.setVisible TransformStore.setVisible
    split
    · rfl
    · next n hn =>
      obtain rfl : i = n := Option.some.inj (has_eq_some.mp hn).1
      simp [own, TransformStore.markMoved, h]
  have hinit : P (t.initSlot i) := by
    have hadd := (sameLanes_addRoot
      ({ t.store with count := if t.store.count ≤ i then i + 1 else t.store.count }.reset i |>.markMoved i) i).1
    have hpos' : (t.store.initSlot (.whole i)).pos = Function.update t.store.pos i 0 := hadd.pos
    have hvisible' : (t.store.initSlot (.whole i)).visible = Function.update t.store.visible i true := hadd.visible
    simp only [P, own, Transforms.initSlot, hpos', hvisible', Function.update_of_ne h]
  refine Transforms.whenSome_invariant (P := P) (fun t p ht => (own_link t i p j).trans ht) ?_ q
  refine Transforms.whenSome_invariant (P := P) (fun t v => hwrite t _) ?_ desc.neverCull
  exact Transforms.writeFields_invariant (P := P) hpos hvisible hwrite hinit desc.toTransformFields

/-- A call that created a node: it is live with its record, has its object, and is the last of its siblings. -/
structure Created (core core' : Staged σ) (id : NodeId) (record : NodeRecord) (q : Option ℕ) : Prop where
  nodes : core.nodes.create record = some (id, core'.nodes)
  objects : core'.sink.2 = insert (handleIndex id) core.sink.2
  forest : ∀ F, Sound core.surf core.xf.store F → ∃ G, Sound core'.surf core'.xf.store G ∧
    G.placed = F.placed ++ [handleIndex id] ∧ G.parent = Function.update F.parent (handleIndex id) q
  own : ∀ j ≠ handleIndex id, own core'.xf j = own core.xf j

variable {id : NodeId} {record : NodeRecord} {q : Option ℕ} {x : Staged σ}

/-- The slot of a live handle. -/
theorem indexOf_of_record {R : Type} {t : StackedTable R} (h : (t.record id).isSome) :
    t.indexOf id = some (handleIndex id) := by
  obtain ⟨i, hi⟩ := Option.isSome_iff_exists.mp (t.toSlotTable.indexOf_isSome.mpr h)
  rw [hi, (t.toSlotTable.indexOf_eq_some.mp hi).1]

/-- A parent that is dead is none. -/
theorem resolveParent_ok {parent : Option NodeId} {surface : Surface}
    (h : core.resolveParent parent surface = .ok q) : q = parent.bind core.nodes.indexOf := by
  unfold resolveParent at h
  split at h
  · exact (Except.ok.inj h).symm
  · next id =>
    rw [Option.bind_some]
    split at h
    · next hindex => exact (Except.ok.inj h).symm.trans hindex.symm
    · next p hindex =>
      split at h
      · next hnone =>
        have hlive := core.nodes.recordAt_indexOf hindex
        rw [hnone] at hlive
        cases hlive
      · split at h
        · cases h
        · exact (Except.ok.inj h).symm.trans hindex.symm

theorem createNode_created {desc : NodeDesc} (h : core.createNode S.holding desc = .ok (id, core')) :
    Created core core' id (recordOf desc (desc.surface.getD .world)) (desc.parent.bind core.nodes.indexOf) := by
  unfold createNode at h
  dsimp only at h
  split_ifs at h
  split at h
  · cases h
  · next q hparent =>
    split at h
    · cases h
    · next id nodes hnodes =>
      obtain ⟨rfl, rfl⟩ := Prod.mk.inj (Except.ok.inj h)
      rw [← resolveParent_ok hparent]
      refine ⟨hnodes, rfl, fun F hF => ?_, fun j hj => own_placeNew core.xf hj desc q⟩
      have hnone : core.surf (handleIndex id) = none := by
        unfold surf
        rw [(core.nodes.recordAt_create hnodes).1, Option.map_none]
      have hq : ∀ p, q = some p → core.surf p = some (desc.surface.getD .world) := fun p hp =>
        surf_resolveParent (hp ▸ hparent)
      obtain ⟨⟨G, hG, hplaced, hpar⟩, -⟩ := placeNew_spec hF hnone desc hq
      refine ⟨G, ?_, hplaced, hpar⟩
      show Sound (fun i => (nodes.recordAt i).map NodeRecord.surface) _ G
      rw [surf_create hnodes]
      exact hG

/-! ### The way back -/

/-- The live nodes with their records, the tree in its order, and the objects are the same. -/
structure SameScene (core core' : Staged σ) : Prop where
  records : core'.nodes.record = core.nodes.record
  forest : ∀ F, Sound core.surf core.xf.store F → Sound core'.surf core'.xf.store F
  objects : core'.sink.2 = core.sink.2

theorem SameScene.refl (core : Staged σ) : SameScene core core := ⟨rfl, fun _ h => h, rfl⟩

/-- A node that came last has nothing beneath it. -/
theorem leaf_of_last {F G : OrderedForest ℕ} (hi : i ∉ F.placed)
    (hparent : G.parent = Function.update F.parent i q) : G.children i = [] := by
  refine List.eq_nil_iff_forall_not_mem.mpr fun c hc => ?_
  have hc' := OrderedForest.mem_children.mp hc
  by_cases hci : c = i
  · exact OrderedForest.not_above_parent (hci ▸ hc') (.refl G i)
  · rw [hparent, Function.update_of_ne hci] at hc'
    exact hi (F.closed hc').2

theorem sweep_leaf {G : OrderedForest ℕ} {l : List ℕ} (hleaf : G.children i = []) (h : G.Sweep i l []) : l = [i] := by
  have hmem : ∀ d, d ∈ l ↔ d ∈ [i] := by
    intro d
    rw [h.finished, List.mem_singleton]
    constructor
    · intro habove
      obtain rfl | ⟨c, -, hc⟩ := Relation.ReflTransGen.cases_tail habove
      · rfl
      · exact (List.not_mem_nil (hleaf ▸ OrderedForest.mem_children.mpr hc)).elim
    · rintro rfl
      exact .refl G d
  have hnodup : l.Nodup := by simpa using h.nodup
  exact List.perm_singleton.mp ((List.perm_ext_iff_of_nodup hnodup (List.nodup_singleton i)).mpr hmem)

theorem Created.not_placed (h : Created core core' id record q) {F : OrderedForest ℕ}
    (hF : Sound core.surf core.xf.store F) : handleIndex id ∉ F.placed := by
  intro hmem
  have hlive := (hF.live _).mp hmem
  rw [surf_isSome, (core.nodes.recordAt_create h.nodes).1] at hlive
  cases hlive

/-- Destroying what was created last undoes the call. -/
theorem Created.undo
    (h : Created core core' id record q) (hkept : core.Kept) (hbacked : core.Backed) (hx : SameScene core' x) :
    ∃ y, x.destroyNode S.holding id = some y ∧ SameScene core y := by
  have hcreate := core.nodes.create_eq_some h.nodes
  have hfree : core.nodes.recordAt (handleIndex id) = none := (core.nodes.recordAt_create h.nodes).1
  have hrecord : (x.nodes.record id).isSome := by
    rw [hx.records, SlotTable.record_create_self hcreate]
    rfl
  have hlive : (x.nodes.recordAt (handleIndex id)).isSome := x.nodes.recordAt_indexOf (indexOf_of_record hrecord)
  obtain ⟨F, hF⟩ := hkept
  obtain ⟨G, hG, -, hparent⟩ := h.forest F hF
  obtain ⟨l, hl, hsweep⟩ := (hx.forest G hG).subtree (surf_isSome.trans hlive)
  obtain rfl := sweep_leaf (leaf_of_last (h.not_placed hF) hparent) hsweep
  refine ⟨(x.tell S.holding (.destroySubtree [handleIndex id])).release (handleIndex id), ?_, ?_, ?_, ?_⟩
  · rw [destroyNode, indexOf_of_record hrecord]
    show x.destroyAt S.holding (handleIndex id) = _
    rw [destroyAt, hl]
    rfl
  · funext id'
    show (x.nodes.releaseAt (handleIndex id)).toSlotTable.record id' = _
    rw [StackedTable.toSlotTable_releaseAt, SlotTable.releaseAt_eq_release _ hlive, SlotTable.idAt_handleIndex _ hrecord,
      SlotTable.record_release, hx.records, SlotTable.record_create hcreate]
    split_ifs with heq
    · rw [heq, SlotTable.record_of_create hcreate]
    · rfl
  · intro F hF
    obtain ⟨G, hG, hplaced, hparent⟩ := h.forest F hF
    have hleaf := leaf_of_last (h.not_placed hF) hparent
    have hreleased := (hx.forest G hG).releaseSlot hleaf
    rw [OrderedForest.leave_last (h.not_placed hF) hplaced hparent hleaf] at hreleased
    rw [surf_release]
    show Sound _ (x.xf.releaseSlot (handleIndex id)).store F
    rw [Transforms.releaseSlot, if_pos ((hx.forest G hG).lt_count (surf_isSome.trans hlive))]
    exact hreleased
  · show {i | i ∈ x.sink.2 ∧ i ∉ [handleIndex id]} = core.sink.2
    rw [hx.objects, h.objects]
    ext i
    have hnone : handleIndex id ∉ core.sink.2 := fun hmem => by
      have hlive := hbacked _ hmem
      rw [hfree] at hlive
      cases hlive
    simp only [Set.mem_ofPred_eq, Set.mem_insert_iff, List.mem_singleton]
    constructor
    · exact fun hi => hi.1.resolve_left hi.2
    · exact fun hi => ⟨.inr hi, fun heq => hnone (heq ▸ hi)⟩

/-! ### Batches -/

variable {spell} {desc : SubtreeNodeDesc} {descs : List SubtreeNodeDesc} {out created : List NodeId} {mid : Staged σ}

theorem createInBatch_created
    (h : core.createInBatch S.holding spell desc created.length created = .ok (id, core')) :
    ∃ surface, Created core core' id (recordOf desc.toNodeDesc (desc.surface.getD surface))
      ((requestedParent desc created).bind core.nodes.indexOf) := by
  unfold createInBatch at h
  unfold requestedParent
  split at h
  · exact ⟨.world, createNode_created h⟩
  · split at h
    · cases h
    · next n k hk =>
      rw [hk]
      exact ⟨_, createNode_created h⟩

theorem Created.kept (h : Created core core' id record q)
    (hkept : core.Kept) : core'.Kept := by
  obtain ⟨F, hF⟩ := hkept
  obtain ⟨G, hG, -⟩ := h.forest F hF
  exact ⟨G, hG⟩

theorem Created.backed (h : Created core core' id record q)
    (hbacked : core.Backed) : core'.Backed := by
  intro i hi
  rw [h.objects] at hi
  rw [(core.nodes.recordAt_create h.nodes).2]
  by_cases hid : i = handleIndex id
  · rw [hid, Function.update_self]
    rfl
  · rw [Function.update_of_ne hid]
    exact hbacked i (hi.resolve_left hid)

/-- A batch under way: each descriptor has created its node. -/
inductive Batch (S : SceneSink σ) (spell : JsNumber → String) (core : Staged σ) :
    List SubtreeNodeDesc → List NodeId → Staged σ → Prop
  | start : Batch S spell core [] [] core
  | next {descs : List SubtreeNodeDesc} {out : List NodeId} {mid core' : Staged σ} {desc : SubtreeNodeDesc} {id : NodeId}
      (h : Batch S spell core descs out mid)
      (hcreate : mid.createInBatch S.holding spell desc out.length out = .ok (id, core')) :
      Batch S spell core (descs ++ [desc]) (out ++ [id]) core'

theorem createEach_batch : ∀ (rest : List SubtreeNodeDesc) {descs out mid}, Batch S spell core descs out mid →
    ∃ done, Batch S spell core (descs ++ done) (createEach S.holding spell rest out mid).2.1
        (createEach S.holding spell rest out mid).2.2 ∧
      ((createEach S.holding spell rest out mid).1 = none → done = rest)
  | [], descs, out, mid, h => ⟨[], by rwa [List.append_nil], fun _ => rfl⟩
  | desc :: rest, descs, out, mid, h => by
    rw [createEach]
    split
    · exact ⟨[], by rwa [List.append_nil], nofun⟩
    · next id mid' hcreate =>
      obtain ⟨done, hbatch, hdone⟩ := createEach_batch rest (h.next hcreate)
      exact ⟨desc :: done, by rwa [← List.append_cons] at hbatch, fun hnone => by rw [hdone hnone]⟩

theorem Batch.keeps (h : Batch S spell core descs out mid) (hkept : core.Kept)
    (hbacked : core.Backed) : mid.Kept ∧ mid.Backed := by
  induction h with
  | start => exact ⟨hkept, hbacked⟩
  | next _ hcreate ih =>
    obtain ⟨surface, hcreated⟩ := createInBatch_created hcreate
    exact ⟨hcreated.kept ih.1, hcreated.backed ih.2⟩

/-- The way back ends where the batch began. -/
theorem Batch.rollback (h : Batch S spell core descs out mid) (hkept : core.Kept)
    (hbacked : core.Backed) (hx : SameScene mid x) :
    ∃ y, RendererCore.rollback S.holding out.reverse x = some y ∧ SameScene core y := by
  induction h generalizing x with
  | start => exact ⟨x, rfl, hx⟩
  | next h hcreate ih =>
    obtain ⟨surface, hcreated⟩ := createInBatch_created hcreate
    obtain ⟨hkept', hbacked'⟩ := h.keeps hkept hbacked
    obtain ⟨y, hdestroy, hy⟩ := hcreated.undo hkept' hbacked' hx
    obtain ⟨z, hrollback, hz⟩ := ih hy
    refine ⟨z, ?_, hz⟩
    rw [List.reverse_append, List.reverse_singleton, List.singleton_append, RendererCore.rollback, hdestroy]
    exact hrollback

/-- The slot of the parent a descriptor gets: the one it asks for, if that is live when its turn comes. -/
def requestedIndex (core : Staged σ) (desc : SubtreeNodeDesc) (created : List NodeId) : Option ℕ :=
  (requestedParent desc created).bind fun p =>
    if (core.nodes.record p).isSome ∨ p ∈ created then some (handleIndex p) else none

/-- Nodes come after those there were. -/
structure Ordered (s s' : TransformStore ℚ) : Prop where
  roots : s.roots <+: s'.roots
  children : ∀ i l, s.kids i = some l → ∃ l', s'.kids i = some l' ∧ l <+: l'

theorem Ordered.refl (s : TransformStore ℚ) : Ordered s s := ⟨List.prefix_refl _, fun _ l hl => ⟨l, hl, List.prefix_refl _⟩⟩

theorem Ordered.trans {s s' s'' : TransformStore ℚ} (h : Ordered s s') (h' : Ordered s' s'') : Ordered s s'' := by
  refine ⟨h.roots.trans h'.roots, fun i l hl => ?_⟩
  obtain ⟨l', hl', hprefix⟩ := h.children i l hl
  obtain ⟨l'', hl'', hprefix'⟩ := h'.children i l' hl'
  exact ⟨l'', hl'', hprefix.trans hprefix'⟩

/-- One new live node for each descriptor, under the parent it asks for, and the nodes that were live as they were. -/
structure Grown (core core' : Staged σ) (descs : List SubtreeNodeDesc) (out : List NodeId) : Prop where
  length : out.length = descs.length
  nodup : out.Nodup
  fresh : ∀ id ∈ out, core.nodes.record id = none
  live : ∀ id, (core'.nodes.record id).isSome ↔ (core.nodes.record id).isSome ∨ id ∈ out
  created : ∀ k desc id, descs[k]? = some desc → out[k]? = some id →
    (∃ surface, core'.nodes.record id = some (recordOf desc.toNodeDesc (desc.surface.getD surface))) ∧
      core'.xf.store.parent (handleIndex id) = core.requestedIndex desc (out.take k)
  untouched : ∀ id, (core.nodes.record id).isSome → core'.nodes.record id = core.nodes.record id ∧
    core'.xf.store.parent (handleIndex id) = core.xf.store.parent (handleIndex id) ∧
    own core'.xf (handleIndex id) = own core.xf (handleIndex id)
  ordered : Ordered core.xf.store core'.xf.store

theorem Created.parent (h : Created core core' id record q) (hkept : core.Kept) :
    core'.xf.store.parent = Function.update core.xf.store.parent (handleIndex id) q := by
  obtain ⟨F, hF⟩ := hkept
  obtain ⟨G, hG, -, hparent⟩ := h.forest F hF
  rw [hG.shaped.parent_eq, hparent, hF.shaped.parent_eq]

theorem Created.ordered (h : Created core core' id record q) (hkept : core.Kept) : Ordered core.xf.store core'.xf.store := by
  obtain ⟨F, hF⟩ := hkept
  obtain ⟨G, hG, hplaced, hparent⟩ := h.forest F hF
  have hbeneath : ∀ t, F.beneath t <+: G.beneath t := by
    intro t
    rw [OrderedForest.beneath, OrderedForest.beneath, hplaced, List.filter_append]
    have hold : F.placed.filter (fun x => decide (G.parent x = t)) = F.placed.filter fun x => decide (F.parent x = t) := by
      refine List.filter_congr fun x hx => ?_
      have hne : x ≠ handleIndex id := fun heq => h.not_placed hF (heq ▸ hx)
      rw [hparent, Function.update_of_ne hne]
    rw [hold]
    exact List.prefix_append _ _
  constructor
  · rw [hF.shaped.roots_eq, hG.shaped.roots_eq]
    exact hbeneath none
  · intro i l hl
    rw [hF.shaped.kids_eq] at hl
    exact ⟨G.children i, hG.shaped.kids_eq i, Option.some.inj hl ▸ hbeneath (some i)⟩

theorem Grown.next {surface : Surface}
    (h : Grown core mid descs out) (hkept : mid.Kept)
    (hcreated : Created mid core' id (recordOf desc.toNodeDesc (desc.surface.getD surface))
      ((requestedParent desc out).bind mid.nodes.indexOf)) : Grown core core' (descs ++ [desc]) (out ++ [id]) := by
  have hcreate := mid.nodes.create_eq_some hcreated.nodes
  have hnone : mid.nodes.record id = none := SlotTable.record_of_create hcreate
  have hrecord := SlotTable.record_create hcreate
  have hparent := hcreated.parent hkept
  have hslot : ∀ id', (mid.nodes.record id').isSome → id' ≠ id ∧ handleIndex id' ≠ handleIndex id := by
    intro id' hlive
    have hat := mid.nodes.recordAt_indexOf (indexOf_of_record hlive)
    refine ⟨fun heq => ?_, fun heq => ?_⟩
    · rw [heq, hnone] at hlive
      cases hlive
    · rw [heq, (mid.nodes.recordAt_create hcreated.nodes).1] at hat
      cases hat
  have hout : id ∉ out := fun hmem => (hslot id ((h.live id).mpr (.inr hmem))).1 rfl
  have hfresh : core.nodes.record id = none := by
    rw [← Option.not_isSome_iff_eq_none]
    exact fun hlive => (hslot id ((h.live id).mpr (.inl hlive))).1 rfl
  have hbound : (requestedParent desc out).bind mid.nodes.indexOf = core.requestedIndex desc out := by
    unfold requestedIndex
    congr 1
    funext p
    split_ifs with hlive
    · exact indexOf_of_record ((h.live p).mpr hlive)
    · rw [← Option.not_isSome_iff_eq_none, mid.nodes.toSlotTable.indexOf_isSome, h.live]
      exact hlive
  refine ⟨by simp [h.length], ?_, ?_, fun id' => ?_, fun k desc' id' hdesc hid => ?_, fun id' hlive => ?_,
    h.ordered.trans (hcreated.ordered hkept)⟩
  · exact List.nodup_append.mpr ⟨h.nodup, List.nodup_singleton id, by
      rintro x hx y hy rfl
      exact hout (List.mem_singleton.mp hy ▸ hx)⟩
  · intro id' hid
    obtain hid | hid := List.mem_append.mp hid
    · exact h.fresh id' hid
    · rw [List.mem_singleton.mp hid, hfresh]
  · rw [hrecord, List.mem_append, List.mem_singleton]
    split_ifs with heq
    · simp [heq]
    · rw [h.live]
      tauto
  · obtain hk | rfl | hk := lt_trichotomy k out.length
    · rw [List.getElem?_append_left (h.length ▸ hk)] at hdesc
      rw [List.getElem?_append_left hk] at hid
      obtain ⟨hrecords, hparents⟩ := h.created k desc' id' hdesc hid
      obtain ⟨hne, hindex⟩ := hslot id' ((h.live id').mpr (.inr (List.mem_of_getElem? hid)))
      rw [hrecord, if_neg hne, hparent, Function.update_of_ne hindex, List.take_append_of_le_length hk.le]
      exact ⟨hrecords, hparents⟩
    · rw [h.length, List.getElem?_concat_length] at hdesc
      rw [List.getElem?_concat_length] at hid
      obtain rfl := Option.some.inj hdesc
      obtain rfl := Option.some.inj hid
      rw [hrecord, if_pos rfl, hparent, Function.update_self, List.take_left, hbound]
      exact ⟨⟨surface, rfl⟩, rfl⟩
    · rw [List.getElem?_eq_none (by simp; omega)] at hid
      cases hid
  · obtain ⟨hne, hindex⟩ := hslot id' ((h.live id').mpr (.inl hlive))
    obtain ⟨hrecords, hparents, hown⟩ := h.untouched id' hlive
    rw [hrecord, if_neg hne, hparent, Function.update_of_ne hindex, hcreated.own _ hindex]
    exact ⟨hrecords, hparents, hown⟩

theorem Batch.grown (h : Batch S spell core descs out mid) (hkept : core.Kept)
    (hbacked : core.Backed) : Grown core mid descs out := by
  induction h with
  | start => exact ⟨rfl, List.nodup_nil, by simp, by simp, by simp, fun _ _ => ⟨rfl, rfl, rfl⟩, .refl _⟩
  | next h hcreate ih =>
    obtain ⟨surface, hcreated⟩ := createInBatch_created hcreate
    exact ih.next (h.keeps hkept hbacked).1 hcreated

/-- The live nodes with their records, the tree in its order, and the objects are what they were. -/
structure Unchanged (core core' : Staged σ) : Prop where
  records : core'.nodes.record = core.nodes.record
  parent : core'.xf.store.parent = core.xf.store.parent
  children : core'.xf.store.kids = core.xf.store.kids
  roots : core'.xf.store.roots = core.xf.store.roots
  objects : core'.sink.2 = core.sink.2

theorem SameScene.unchanged (h : SameScene core core') (hkept : core.Kept) : Unchanged core core' := by
  obtain ⟨F, hF⟩ := hkept
  have hF' := (h.forest F hF).shaped
  refine ⟨h.records, ?_, funext fun i => ?_, ?_, h.objects⟩
  · rw [hF'.parent_eq, hF.shaped.parent_eq]
  · rw [hF'.kids_eq, hF.shaped.kids_eq]
  · rw [hF'.roots_eq, hF.shaped.roots_eq]

variable (S spell) in
theorem createSubtree_cases (hkept : core.Kept) (hbacked : core.Backed) (descs : List SubtreeNodeDesc) :
    ∃ e out core', core.createSubtree S.holding spell descs = some (e, out, core') ∧ core'.Kept ∧ core'.Backed ∧
      (e = none ∧ Grown core core' descs out ∨ e.isSome ∧ out = [] ∧ Unchanged core core') := by
  obtain ⟨done, hbatch, hdone⟩ := createEach_batch descs (Batch.start : Batch S spell core [] [] core)
  unfold createSubtree
  generalize createEach S.holding spell descs [] core = result at hbatch hdone
  obtain ⟨e, out, mid⟩ := result
  cases e with
  | none =>
    obtain rfl := hdone rfl
    obtain ⟨hkept', hbacked'⟩ := hbatch.keeps hkept hbacked
    exact ⟨none, out, mid, rfl, hkept', hbacked', .inl ⟨rfl, hbatch.grown hkept hbacked⟩⟩
  | some e =>
    obtain ⟨y, hrollback, hy⟩ := hbatch.rollback hkept hbacked (.refl mid)
    obtain ⟨F, hF⟩ := hkept
    refine ⟨some e, [], y, by simp only [hrollback, Option.map_some], ⟨F, hy.forest F hF⟩, fun i hi => ?_,
      .inr ⟨rfl, rfl, hy.unchanged ⟨F, hF⟩⟩⟩
    obtain ⟨hlive, hindex⟩ := core.nodes.toSlotTable.record_idAt (hbacked i (hy.objects ▸ hi))
    rw [← hy.records] at hlive
    rw [← hindex]
    exact y.nodes.recordAt_indexOf (indexOf_of_record hlive)

/-! ### Scenes -/

theorem backed_destroyAt (hbacked : core.Backed) (h : core.destroyAt S.holding i = some core') : core'.Backed := by
  have hsink : ∀ (slots : List ℕ) (core : Staged σ), (slots.foldl release core).sink = core.sink := by
    intro slots
    induction slots with
    | nil => exact fun _ => rfl
    | cons slot slots ih => exact fun core => ih (core.release slot)
  unfold destroyAt at h
  split at h
  · cases h
  · next l hl =>
    obtain rfl := Option.some.inj h
    intro j hj
    rw [hsink] at hj
    have hsame := sameSlot_releases (S := S.holding) l.reverse (core.tell S.holding (.destroySubtree l))
      (fun hmem => hj.2 (List.mem_reverse.mp hmem))
    rw [hsame.isSome]
    exact hbacked j hj.1

theorem backed_destroyNode (hbacked : core.Backed) (h : core.destroyNode S.holding id = some core') :
    core'.Backed := by
  unfold destroyNode at h
  split at h
  · exact Option.some.inj h ▸ hbacked
  · exact backed_destroyAt hbacked h

theorem backed_clearRoots (surface : Surface) : ∀ (slots : List ℕ) {core core' : Staged σ}, core.Backed →
    clearRoots S.holding surface slots core = some core' → core'.Backed
  | [], _, _, hbacked, h => Option.some.inj h ▸ hbacked
  | slot :: slots, core, core', hbacked, h => by
    rw [clearRoots] at h
    split at h
    · cases h
    · next mid hmid =>
      refine backed_clearRoots surface slots ?_ h
      unfold clearRoot at hmid
      split at hmid
      · exact Option.some.inj hmid ▸ hbacked
      · split at hmid
        · exact backed_destroyNode hbacked hmid
        · exact Option.some.inj hmid ▸ hbacked

theorem backed_recreates : ∀ (slots : List ℕ) {core : Staged σ}, core.Backed →
    (slots.foldl (recreate S.holding) core).Backed
  | [], _, hbacked => hbacked
  | slot :: slots, core, hbacked => by
    refine backed_recreates slots ?_
    unfold recreate
    split
    · exact hbacked
    · next record hrecord =>
      intro j hj
      show (core.nodes.recordAt j).isSome
      obtain rfl | hj := hj
      · rw [hrecord]
        rfl
      · exact hbacked j hj

theorem backed_recreateAll : ∀ (roots : List ℕ) {core core' : Staged σ}, core.Backed →
    recreateAll S.holding roots core = some core' → core'.Backed
  | [], _, _, hbacked, h => Option.some.inj h ▸ hbacked
  | root :: roots, core, core', hbacked, h => by
    rw [recreateAll] at h
    split at h
    · cases h
    · exact backed_recreateAll roots (backed_recreates _ hbacked) h

theorem backed_step (hbacked : core.Backed) {e : SceneEvent} (h : core.step S.holding trig e = some core') :
    core'.Backed := by
  cases e with
  | createNode desc =>
    simp only [step] at h
    split at h
    · next hcreate => exact Option.some.inj h ▸ (createNode_created hcreate).backed hbacked
    · exact Option.some.inj h ▸ hbacked
  | destroyNode id => exact backed_destroyNode hbacked h
  | updateNodes patches =>
    obtain ⟨⟨mid, e⟩, hmid, rfl⟩ := Option.map_eq_some_iff.mp h
    exact (sameObjects_updateNodes patches hmid).backed hbacked
  | updateSubtree root patch includeRoot =>
    have hpatch : ∀ (core : Staged σ) slot, SameObjects core
        (if (core.nodes.recordAt slot).isSome then core.applyPatchAt S.holding slot patch else core) := by
      intro core slot
      split
      · exact sameObjects_applyPatchAt core slot patch
      · exact .refl core
    simp only [step, updateSubtree] at h
    split at h
    · exact Option.some.inj h ▸ hbacked
    · split at h
      · cases h
      · exact Option.some.inj h ▸ (sameObjects_foldl hpatch _ core).backed hbacked
  | setNodeText id text =>
    obtain rfl := Option.some.inj h
    unfold setNodeText
    split
    · exact hbacked
    · exact (sameObjects_putText core _ _).backed hbacked
  | attachNode child parent keep =>
    obtain ⟨⟨mid, e⟩, hmid, rfl⟩ := Option.map_eq_some_iff.mp h
    unfold attachNode at hmid
    split at hmid
    · exact (Prod.mk.inj (Option.some.inj hmid)).1 ▸ hbacked
    · exact (sameObjects_attachAt hmid).backed hbacked
  | detachNode child keep =>
    simp only [step, detachNode] at h
    split at h
    · exact Option.some.inj h ▸ hbacked
    · exact (sameObjects_detachAt h).backed hbacked
  | clear surface =>
    cases surface with
    | none => exact Option.some.inj h ▸ fun j hj => by cases hj
    | some surface => exact backed_clearRoots surface _ hbacked h
  | setCamera | setCanvasSize => exact Option.some.inj h ▸ hbacked
  | setSurfaceVisible surface visible =>
    obtain rfl := Option.some.inj h
    unfold setSurfaceVisible
    split <;> exact hbacked
  | query =>
    obtain ⟨xf, -, rfl⟩ := Option.map_eq_some_iff.mp h
    exact hbacked
  | rebuildScene =>
    simp only [step, rebuildScene] at h
    split at h
    · cases h
    · next mid hmid =>
      have hempty : (core.tell S.holding .clearAll).Backed := fun j hj => by cases hj
      have hmid' := backed_recreateAll _ hempty hmid
      exact (sameObjects_flush h).backed hmid'
  | flush => exact (sameObjects_flush h).backed hbacked

/-- A call of a renderer, one that creates a subtree among them. -/
inductive SubtreeEvent where
  | scene (e : SceneEvent)
  | createSubtree (descs : List SubtreeNodeDesc)

/-- Calls, one after another. -/
def runSubtrees (S : SceneSink σ) (trig : Trig) (spell : JsNumber → String) :
    List SubtreeEvent → Staged σ → Option (Staged σ)
  | [], core => some core
  | .scene e :: es, core =>
    match core.step S.holding trig e with
    | none => none
    | some core => runSubtrees S trig spell es core
  | .createSubtree descs :: es, core =>
    match core.createSubtree S.holding spell descs with
    | none => none
    | some (_, _, core) => runSubtrees S trig spell es core

theorem runSubtrees_ends (S : SceneSink σ) (trig : Trig) (spell : JsNumber → String) :
    ∀ (es : List SubtreeEvent) {core : Staged σ}, core.Kept → core.Backed →
      ∃ core', runSubtrees S trig spell es core = some core' ∧ core'.Kept ∧ core'.Backed
  | [], core, hkept, hbacked => ⟨core, rfl, hkept, hbacked⟩
  | .scene e :: es, core, hkept, hbacked => by
    obtain ⟨mid, hmid, hkept', -⟩ := step_ends S.holding trig hkept e
    rw [runSubtrees, hmid]
    exact runSubtrees_ends S trig spell es hkept' (backed_step hbacked hmid)
  | .createSubtree descs :: es, core, hkept, hbacked => by
    obtain ⟨e, out, mid, hmid, hkept', hbacked', -⟩ := createSubtree_cases S spell hkept hbacked descs
    rw [runSubtrees, hmid]
    exact runSubtrees_ends S trig spell es hkept' hbacked'

/-- **All or nothing**: in every scene that calls lead to, a batch grows it by one node for each descriptor, or throws
and leaves it, and `out` empty. -/
theorem createSubtree_all_or_nothing (S : SceneSink σ) (trig : Trig) (spell : JsNumber → String) (sink : σ)
    (config : CoreConfig) (es : List SubtreeEvent) (descs : List SubtreeNodeDesc) :
    ∃ core, runSubtrees S trig spell es (new (sink, ∅) config) = some core ∧
      ∃ e out core', core.createSubtree S.holding spell descs = some (e, out, core') ∧
        (e = none ∧ Grown core core' descs out ∨ e.isSome ∧ out = [] ∧ Unchanged core core') := by
  have hbacked : (new (sink, (∅ : Set ℕ)) config).Backed := fun j hj => by cases hj
  obtain ⟨core, hrun, hkept, hbacked'⟩ := runSubtrees_ends S trig spell es (kept_new (sink, ∅) config) hbacked
  obtain ⟨e, out, core', hcreate, -, -, hcases⟩ := createSubtree_cases S spell hkept hbacked' descs
  exact ⟨core, hrun, e, out, core', hcreate, hcases⟩

/-- A node whose parent is to be the one `16777216` named. -/
def orphan : SubtreeNodeDesc := { kind := .sprite, texture := "coin", parent := some 16777216 }

/-- A parent that was destroyed is no parent. -/
theorem orphan_has_no_parent : ∃ core, runSubtrees (nullSink fun _ => none) ⟨fun _ => 0, fun _ => 0⟩ (fun _ => "")
      [.scene (.createNode { kind := .sprite, texture := "coin" }), .scene (.destroyNode 16777216)]
      (new (fun surface => surface = .world || surface = .ui, ∅) stageConfig) = some core ∧
    ∃ core', core.createSubtree (nullSink fun _ => none).holding (fun _ => "") [orphan] = some (none, [33554432], core') ∧
      requestedParent orphan [] = some 16777216 ∧ core'.xf.store.parent (handleIndex 33554432) = none := by
  have hrun : ((runSubtrees (nullSink fun _ => none) ⟨fun _ => 0, fun _ => 0⟩ (fun _ => "")
      [.scene (.createNode { kind := .sprite, texture := "coin" }), .scene (.destroyNode 16777216)]
      (new (fun surface => surface = .world || surface = .ui, ∅) stageConfig)).bind fun core =>
    (core.createSubtree (nullSink fun _ => none).holding (fun _ => "") [orphan]).map fun r =>
      (r.1.isNone, r.2.1, r.2.2.xf.store.parent (handleIndex 33554432))) = some (true, [33554432], none) := by
    decide +kernel
  obtain ⟨core, hcore, hrun⟩ := Option.bind_eq_some_iff.mp hrun
  obtain ⟨⟨e, out, core'⟩, hcreate, hresult⟩ := Option.map_eq_some_iff.mp hrun
  obtain ⟨he, hrest⟩ := Prod.mk.inj hresult
  obtain ⟨rfl, hparent⟩ := Prod.mk.inj hrest
  obtain rfl := Option.isNone_iff_eq_none.mp he
  exact ⟨core, hcore, core', hcreate, rfl, hparent⟩

end RendererCore
end Grove.Render
