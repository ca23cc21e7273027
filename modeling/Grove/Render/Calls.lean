import Grove.Render.Marks

/-! # What one call of the core leaves to the next flush

`Carries core core'` says that a slot of `core'` is marked for the next flush, or all are, or every value its cull
decision reads is what it was, with the flag and what its object was told.  Every call of the core ends, keeps the
records and the tree in agreement (`Kept`) and carries so. -/

namespace Grove.Render

/-- The size of a slot's art may change. -/
def SinkCall.Resizes (call : SinkCall) (i : ℕ) : Prop :=
  match call with
  | .create index _ _ | .setTexture index _ | .setText index _ => index = i
  | _ => False

/-- Sizes change with the art they measure, and a surface is shown and hidden by its own call. -/
structure SceneSink.Steady {σ : Type} (S : SceneSink σ) : Prop where
  size : ∀ sink call i record, ¬ call.Resizes i → S.sizeOf (S.apply sink call) i record = S.sizeOf sink i record
  layer : ∀ sink i (record : NodeRecord) layer, S.sizeOf sink i { record with layer := layer } = S.sizeOf sink i record
  surface : ∀ sink call surface, (∀ visible, call ≠ .setSurfaceVisible surface visible) →
    S.surfaceVisible (S.apply sink call) surface = S.surfaceVisible sink surface

namespace RendererCore

variable {σ : Type} {S : SceneSink σ} {trig : Trig} {core core' core'' : RendererCore σ} {i j : ℕ}

/-- The surface of the node in a slot. -/
def surf (core : RendererCore σ) (i : ℕ) : Option Surface := (core.nodes.recordAt i).map NodeRecord.surface

/-- The records and the tree agree. -/
def Kept (core : RendererCore σ) : Prop := ∃ F, Sound core.surf core.xf.store F

theorem surf_isSome : (core.surf i).isSome = (core.nodes.recordAt i).isSome := Option.isSome_map

/-- What a cull decision reads of a record and of the sink. -/
def artOf (S : SceneSink σ) (core : RendererCore σ) (i : ℕ) : Option (NodeKind × Surface × Bool × Size ℚ) :=
  (core.nodes.recordAt i).map fun record =>
    (record.kind, record.surface, S.surfaceVisible core.sink record.surface, S.sizeOf core.sink i record)

structure SameSlot (S : SceneSink σ) (core core' : RendererCore σ) (i : ℕ) : Prop where
  art : core'.artOf S i = core.artOf S i
  xf : core.xf.Same core'.xf i
  told : core'.told i = core.told i

structure Carries (S : SceneSink σ) (core core' : RendererCore σ) : Prop where
  all : core.cullAll = true → core'.cullAll = true
  viewport : core'.culledViewport = core.culledViewport
  margin : core'.config.cullMargin = core.config.cullMargin
  slots : ∀ i, (core'.nodes.recordAt i).isSome → core'.cullAll = true ∨ core'.xf.Marked i ∨ SameSlot S core core' i

theorem SameSlot.isSome (h : SameSlot S core core' i) : (core'.nodes.recordAt i).isSome = (core.nodes.recordAt i).isSome := by
  have hart := congrArg Option.isSome h.art
  rwa [artOf, artOf, Option.isSome_map, Option.isSome_map] at hart

theorem SameSlot.trans (h : SameSlot S core core' i) (h' : SameSlot S core' core'' i) : SameSlot S core core'' i where
  art := h'.art.trans h.art
  xf := ⟨h'.xf.lane.trans h.xf.lane, h'.xf.resolved.trans h.xf.resolved, h'.xf.marked ∘ h.xf.marked⟩
  told := h'.told.trans h.told

theorem Carries.refl (core : RendererCore σ) : Carries S core core :=
  ⟨fun h => h, rfl, rfl, fun i _ => .inr (.inr ⟨rfl, .refl _ i, rfl⟩)⟩

theorem Carries.trans (h : Carries S core core') (h' : Carries S core' core'') : Carries S core core'' where
  all := h'.all ∘ h.all
  viewport := h'.viewport.trans h.viewport
  margin := h'.margin.trans h.margin
  slots i hi := by
    obtain hall | hmarked | hsame' := h'.slots i hi
    · exact .inl hall
    · exact .inr (.inl hmarked)
    · obtain hall | hmarked | hsame := h.slots i (hsame'.isSome ▸ hi)
      · exact .inl (h'.all hall)
      · exact .inr (.inl (hsame'.xf.marked hmarked))
      · exact .inr (.inr (hsame.trans hsame'))

/-- A call whose effect is confined to the transforms. -/
theorem carries_xf {xf : Transforms} (h : ∀ i, (core.nodes.recordAt i).isSome → core.xf.Keeps xf i) :
    Carries S core { core with xf := xf } where
  all h := h
  viewport := rfl
  margin := rfl
  slots i hi := by
    obtain hmarked | hsame := h i hi
    · exact .inr (.inl hmarked)
    · exact .inr (.inr ⟨rfl, hsame, rfl⟩)

/-- The sink's answers about a slot no call has resized. -/
theorem artOf_tell (hS : S.Steady) {call : SinkCall} (hsize : ¬ call.Resizes i)
    (hsurface : ∀ surface visible, call ≠ .setSurfaceVisible surface visible) :
    (core.tell S call).artOf S i = core.artOf S i := by
  unfold artOf
  cases hrecord : core.nodes.recordAt i with
  | none => rw [show (core.tell S call).nodes.recordAt i = none from hrecord]; rfl
  | some record =>
    rw [show (core.tell S call).nodes.recordAt i = some record from hrecord, Option.map_some, Option.map_some]
    show some (_, _, S.surfaceVisible (S.apply core.sink call) _, S.sizeOf (S.apply core.sink call) i record) = _
    rw [hS.surface _ _ _ (hsurface record.surface), hS.size _ _ _ _ hsize]

/-- A call of the sink that resizes nothing and creates nothing. -/
theorem carries_tell (hS : S.Steady) {call : SinkCall} (hsize : ∀ i, ¬ call.Resizes i)
    (hsurface : ∀ surface visible, call ≠ .setSurfaceVisible surface visible) (htold : call.told core.told = core.told) :
    Carries S core (core.tell S call) where
  all h := h
  viewport := rfl
  margin := rfl
  slots i _ := .inr (.inr ⟨artOf_tell hS (hsize i) hsurface, .refl _ i, congrFun htold i⟩)

/-! ### The view -/

theorem carries_view (hS : S.Steady) {camera : CameraState} {canvas : Size JsNumber} :
    Carries S core ((recomputeRects { core with camera := camera, config := { core.config with canvas := canvas } }).applyView S) := by
  have hrects : Carries S core (recomputeRects { core with camera := camera, config := { core.config with canvas := canvas } }) :=
    ⟨fun h => h, rfl, rfl, fun i _ => .inr (.inr ⟨rfl, .refl _ i, rfl⟩)⟩
  exact hrects.trans (carries_tell hS (fun _ h => h) (fun _ _ h => by cases h) rfl)

theorem carries_setSurfaceVisible (surface : Surface) (visible : Bool) :
    Carries S core (core.setSurfaceVisible S surface visible) := by
  unfold setSurfaceVisible
  split
  · exact ⟨fun _ => rfl, rfl, rfl, fun _ _ => .inl rfl⟩
  · exact .refl core

/-! ### Patches -/

/-- The records with one of them rewritten on its surface. -/
theorem surf_putRecord {record record' : NodeRecord} (h : core.nodes.recordAt i = some record)
    (hsurface : record'.surface = record.surface) : (core.putRecord i record').surf = core.surf := by
  funext x
  unfold surf putRecord
  rw [StackedTable.recordAt_modifyAt _ h]
  by_cases hx : x = i
  · rw [hx, Function.update_self, h, Option.map_some, Option.map_some, hsurface]
  · rw [Function.update_of_ne hx]

theorem recordAt_putRecord {record record' : NodeRecord} (h : core.nodes.recordAt i = some record) :
    (core.putRecord i record').nodes.recordAt = Function.update core.nodes.recordAt i (some record') :=
  StackedTable.recordAt_modifyAt _ h _

theorem artOf_putRecord_of_ne {record record' : NodeRecord} (h : core.nodes.recordAt i = some record) (hj : j ≠ i) :
    (core.putRecord i record').artOf S j = core.artOf S j := by
  unfold artOf
  rw [recordAt_putRecord h, Function.update_of_ne hj]
  rfl

theorem carries_putLayer (hS : S.Steady) (i : ℕ) (layer : Option JsNumber) : Carries S core (core.putLayer S i layer) := by
  unfold putLayer
  split
  · next v record hrecord =>
    have hput : Carries S core (core.putRecord i { record with layer := .finite (v.finiteOr 0) }) := by
      refine ⟨fun h => h, rfl, rfl, fun j _ => .inr (.inr ⟨?_, .refl _ j, rfl⟩)⟩
      by_cases hj : j = i
      · subst hj
        unfold artOf
        rw [recordAt_putRecord hrecord, Function.update_self, hrecord, Option.map_some, Option.map_some]
        show some (_, _, _, S.sizeOf core.sink j { record with layer := _ }) = _
        rw [hS.layer]
        rfl
      · exact artOf_putRecord_of_ne hrecord hj
    exact hput.trans (carries_tell hS (fun _ h => h) (fun _ _ h => by cases h) rfl)
  · exact .refl core

/-- Art is rewritten, and its slot marked. -/
theorem carries_putArt (hS : S.Steady) {record record' : NodeRecord} {call : SinkCall}
    (hrecord : core.nodes.recordAt i = some record) (hcount : i < core.xf.store.count)
    (hsize : ∀ j, j ≠ i → ¬ call.Resizes j) (hsurface : ∀ surface visible, call ≠ .setSurfaceVisible surface visible)
    (htold : call.told core.told = core.told) :
    Carries S core { (core.putRecord i record').tell S call with xf := core.xf.markFlushDirty i } where
  all h := h
  viewport := rfl
  margin := rfl
  slots j _ := by
    by_cases hj : j = i
    · subst hj
      exact .inr (.inl (Transforms.marked_markFlushDirty hcount))
    · obtain hmarked | hsame := Transforms.keeps_store (.markFlushDirty core.xf.store (.whole i)) (t := core.xf) j
      · exact .inr (.inl hmarked)
      · refine .inr (.inr ⟨?_, hsame, congrFun htold j⟩)
        have htell : ((core.putRecord i record').tell S call).artOf S j = (core.putRecord i record').artOf S j :=
          artOf_tell hS (hsize j hj) hsurface
        exact htell.trans (artOf_putRecord_of_ne hrecord hj)

/-- Where a call leads: the agreement holds and what is not marked is carried. -/
structure Advances (S : SceneSink σ) (core core' : RendererCore σ) : Prop where
  kept : core'.Kept
  carries : S.Steady → Carries S core core'

theorem Kept.advances (h : core.Kept) : Advances S core core := ⟨h, fun _ => .refl core⟩

theorem Advances.trans (h : Advances S core core') (h' : Advances S core' core'') : Advances S core core'' :=
  ⟨h'.kept, fun hS => (h.carries hS).trans (h'.carries hS)⟩

/-- The tree and the surfaces are what they were. -/
theorem Kept.congr (h : core.Kept) (hsurf : core'.surf = core.surf) (hstore : core'.xf.store = core.xf.store) : core'.Kept := by
  obtain ⟨F, hF⟩ := h
  exact ⟨F, by rwa [hsurf, hstore]⟩

theorem putLayer_advances (h : core.Kept) (i : ℕ) (layer : Option JsNumber) :
    Advances S core (core.putLayer S i layer) := by
  refine ⟨?_, fun hS => carries_putLayer hS i layer⟩
  unfold putLayer
  split
  · next v record hrecord => exact h.congr (surf_putRecord hrecord rfl) rfl
  · exact h

/-- A record is rewritten and its slot marked. -/
theorem putArt_advances (h : core.Kept) {record record' : NodeRecord} {call : SinkCall}
    (hrecord : core.nodes.recordAt i = some record) (hsame : record'.surface = record.surface)
    (hsize : ∀ j, j ≠ i → ¬ call.Resizes j) (hsurface : ∀ surface visible, call ≠ .setSurfaceVisible surface visible)
    (htold : call.told core.told = core.told) :
    Advances S core { (core.putRecord i record').tell S call with xf := core.xf.markFlushDirty i } := by
  obtain ⟨F, hF⟩ := h
  have hlive : (core.surf i).isSome := by rw [surf_isSome, hrecord]; rfl
  refine ⟨⟨F, ?_⟩, fun hS => carries_putArt hS hrecord (hF.lt_count hlive) hsize hsurface htold⟩
  show Sound (core.putRecord i record').surf (core.xf.store.markFlushDirty (.whole i)) F
  rw [surf_putRecord hrecord hsame]
  exact hF.call (.markFlushDirty (.whole i)) trivial rfl rfl

theorem putTexture_advances (h : core.Kept) (i : ℕ) (texture : Option String) :
    Advances S core (core.putTexture S i texture) := by
  unfold putTexture
  split
  · next v record hrecord =>
    split
    · exact putArt_advances h hrecord rfl (fun j hj heq => hj heq.symm) (fun _ _ heq => by cases heq) rfl
    · exact h.advances
  · exact h.advances

theorem putText_advances (h : core.Kept) (i : ℕ) (text : Option String) :
    Advances S core (core.putText S i text) := by
  unfold putText
  split
  · next v record hrecord =>
    split
    · exact putArt_advances h hrecord rfl (fun j hj heq => hj heq.symm) (fun _ _ heq => by cases heq) rfl
    · exact h.advances
  · exact h.advances

theorem applyPatchAt_advances (h : core.Kept) (hi : (core.nodes.recordAt i).isSome) (patch : PatchFields) :
    Advances S core (core.applyPatchAt S i patch) := by
  obtain ⟨F, hF⟩ := h
  have hfields : Advances S core { core with xf := core.xf.writeFields i patch.toTransformFields } :=
    ⟨⟨F, Transforms.sound_writeFields hF (surf_isSome.trans hi) _⟩,
      fun _ => carries_xf fun j _ => core.xf.keeps_writeFields i patch.toTransformFields j⟩
  have hlayer := hfields.trans (putLayer_advances hfields.kept i patch.layer)
  have htexture := hlayer.trans (putTexture_advances hlayer.kept i patch.texture)
  exact htexture.trans (putText_advances htexture.kept i patch.text)

theorem setNodeText_advances (h : core.Kept) (id : NodeId) (text : String) :
    Advances S core (core.setNodeText S id text) := by
  unfold setNodeText
  split
  · exact h.advances
  · exact putText_advances h _ _

/-! ### Parents -/

/-- A relink ends in other transforms. -/
theorem relinkAt_ends (h : core.Kept) (hi : (core.nodes.recordAt i).isSome) {parentIndex : Option ℕ}
    (hp : ∀ p, parentIndex = some p → core.surf i = core.surf p) (keep : Bool) :
    ∃ xf, core.relinkAt i parentIndex keep = some { core with xf := xf } ∧
      Advances S core { core with xf := xf } := by
  obtain ⟨F, hF⟩ := h
  have hlive : (core.surf i).isSome := surf_isSome.trans hi
  have hrelink : ∀ {t : Transforms} {G : OrderedForest ℕ}, Sound core.surf t.store G →
      ∃ G', Sound core.surf (relink { core with xf := t } i parentIndex).store G' := by
    intro t G hG
    cases parentIndex with
    | none => exact hG.unlink i
    | some p => exact ⟨_, hG.link hlive (hp p rfl)⟩
  have hkeeps : ∀ t j, Transforms.Keeps t (relink { core with xf := t } i parentIndex) j := by
    intro t j
    cases parentIndex with
    | none => exact t.keeps_unlink i j
    | some p => exact t.keeps_link i p j
  unfold relinkAt
  cases keep with
  | false =>
    obtain ⟨G, hG⟩ := hrelink hF
    exact ⟨_, rfl, ⟨G, hG⟩, fun _ => carries_xf fun j _ => hkeeps core.xf j⟩
  | true =>
    obtain ⟨t, ht, htsound, -, -, htkeeps⟩ := Transforms.resolves hF
    obtain ⟨G, hG⟩ := hrelink htsound
    simp only [if_true, ht]
    cases parentIndex with
    | none =>
      exact ⟨_, rfl, ⟨G, Transforms.sound_setPosition (t := t.unlink i) hG hlive _⟩,
        fun _ => carries_xf fun j _ => (htkeeps j).trans ((hkeeps t j).trans ((t.unlink i).keeps_setPosition i _ j))⟩
    | some p =>
      obtain ⟨t', ht', htsound', -, -, htkeeps'⟩ := Transforms.resolves (t := t.link i p) hG
      simp only [ht']
      exact ⟨_, rfl, ⟨G, Transforms.sound_setPosition htsound' hlive _⟩,
        fun _ => carries_xf fun j _ => (htkeeps j).trans ((hkeeps t j).trans ((htkeeps' j).trans (t'.keeps_setPosition i _ j)))⟩

/-- An attach leaves the records alone. -/
theorem attachAt_ends (h : core.Kept) (i : ℕ) (parent : NodeId) (keep : Bool) :
    ∃ core' e, core.attachAt S i parent keep = some (core', e) ∧ core'.nodes = core.nodes ∧ Advances S core core' := by
  unfold attachAt
  split
  · exact ⟨core, none, rfl, rfl, h.advances⟩
  · next parentIndex hindex =>
    split
    · next childRecord parentRecord hchild hparent =>
      split
      · exact ⟨core, _, rfl, rfl, h.advances⟩
      · next hsurface =>
        split
        · exact ⟨core, _, rfl, rfl, h.advances⟩
        · have hi : (core.nodes.recordAt i).isSome := by rw [hchild]; rfl
          have hp : ∀ p, some parentIndex = some p → core.surf i = core.surf p := by
            intro p hp
            obtain rfl := Option.some.inj hp
            unfold surf
            rw [hchild, hparent, Option.map_some, Option.map_some, not_not.mp hsurface]
          obtain ⟨xf, hrelink, hadvances⟩ := relinkAt_ends (S := S) h hi hp keep
          rw [hrelink]
          refine ⟨_, none, rfl, rfl, hadvances.trans ⟨hadvances.kept, ?_⟩⟩
          exact fun hS => carries_tell hS (fun _ h => h) (fun _ _ h => by cases h) rfl
    · exact ⟨core, none, rfl, rfl, h.advances⟩

theorem detachAt_ends (h : core.Kept) (hi : (core.nodes.recordAt i).isSome) (keep : Bool) :
    ∃ core', core.detachAt S i keep = some core' ∧ core'.nodes = core.nodes ∧ Advances S core core' := by
  unfold detachAt
  split
  · exact ⟨core, rfl, rfl, h.advances⟩
  · obtain ⟨xf, hrelink, hadvances⟩ := @relinkAt_ends _ S _ _ h hi none (fun p hp => by cases hp) keep
    rw [hrelink]
    obtain ⟨record, hrecord⟩ := Option.isSome_iff_exists.mp hi
    simp only [hrecord]
    refine ⟨_, rfl, rfl, hadvances.trans ⟨hadvances.kept, ?_⟩⟩
    exact fun hS => carries_tell hS (fun _ h => h) (fun _ _ h => by cases h) rfl

theorem attachNode_ends (h : core.Kept) (child parent : NodeId) (keep : Bool) :
    ∃ core' e, core.attachNode S child parent keep = some (core', e) ∧ Advances S core core' := by
  unfold attachNode
  split
  · exact ⟨core, none, rfl, h.advances⟩
  · next index hindex =>
    obtain ⟨core', e, hattach, -, hadvances⟩ := attachAt_ends h index parent keep
    exact ⟨core', e, hattach, hadvances⟩

theorem detachNode_ends (h : core.Kept) (child : NodeId) (keep : Bool) :
    ∃ core', core.detachNode S child keep = some core' ∧ Advances S core core' := by
  unfold detachNode
  split
  · exact ⟨core, rfl, h.advances⟩
  · next hindex =>
    obtain ⟨core', hdetach, -, hadvances⟩ := detachAt_ends h (core.nodes.recordAt_indexOf hindex) keep
    exact ⟨core', hdetach, hadvances⟩

theorem patchParent_ends (h : core.Kept) (hi : (core.nodes.recordAt i).isSome) (parent : Option NodeId) :
    ∃ core' e, core.patchParent S i parent = some (core', e) ∧ core'.nodes = core.nodes ∧ Advances S core core' := by
  unfold patchParent
  split
  · exact ⟨core, none, rfl, rfl, h.advances⟩
  · split
    · obtain ⟨core', hdetach, hnodes, hadvances⟩ := detachAt_ends h hi true
      exact ⟨core', none, by rw [hdetach, Option.map_some], hnodes, hadvances⟩
    · exact attachAt_ends h i _ false

theorem updateNodes_ends : ∀ (patches : List NodePatch) {core : RendererCore σ}, core.Kept →
    ∃ core' e, updateNodes S patches core = some (core', e) ∧ Advances S core core'
  | [], core, h => ⟨core, none, rfl, h.advances⟩
  | patch :: patches, core, h => by
    rw [updateNodes]
    split
    · exact updateNodes_ends patches h
    · next index hindex =>
      have hi := core.nodes.recordAt_indexOf hindex
      obtain ⟨core', e, hparent, hnodes, hadvances⟩ := patchParent_ends h hi patch.parent
      rw [hparent]
      cases e with
      | some e => exact ⟨core', some e, rfl, hadvances⟩
      | none =>
        have hpatch := applyPatchAt_advances (S := S) hadvances.kept (hnodes ▸ hi) patch.toPatchFields
        obtain ⟨core'', e, hrest, hadvances'⟩ := updateNodes_ends patches hpatch.kept
        exact ⟨core'', e, hrest, (hadvances.trans hpatch).trans hadvances'⟩

theorem patchSlots_advances (patch : PatchFields) : ∀ (slots : List ℕ) {core : RendererCore σ}, core.Kept →
    Advances S core (slots.foldl (fun core slot =>
      if (core.nodes.recordAt slot).isSome then core.applyPatchAt S slot patch else core) core)
  | [], _, h => h.advances
  | slot :: slots, core, h => by
    rw [List.foldl_cons]
    split
    · next hi =>
      have hpatch := applyPatchAt_advances (S := S) h hi patch
      exact hpatch.trans (patchSlots_advances patch slots hpatch.kept)
    · exact patchSlots_advances patch slots h

theorem updateSubtree_ends (h : core.Kept) (root : NodeId) (patch : PatchFields) (includeRoot : Bool) :
    ∃ core', core.updateSubtree S root patch includeRoot = some core' ∧ Advances S core core' := by
  unfold updateSubtree
  split
  · exact ⟨core, rfl, h.advances⟩
  · next index hindex =>
    obtain ⟨F, hF⟩ := h
    obtain ⟨slots, hslots⟩ := hF.subtree_below (surf_isSome.trans (core.nodes.recordAt_indexOf hindex)) includeRoot
    rw [hslots]
    exact ⟨_, rfl, patchSlots_advances patch slots ⟨F, hF⟩⟩

/-! ### Creating -/

theorem surf_resolveParent {parent : Option NodeId} {surface : Surface} {p : ℕ}
    (h : core.resolveParent parent surface = .ok (some p)) : core.surf p = some surface := by
  unfold resolveParent at h
  split at h
  · cases h
  · split at h
    · cases h
    · split at h
      · cases h
      · next record hrecord =>
        split at h
        · cases h
        · next hsurface =>
          obtain rfl := Option.some.inj (Except.ok.inj h)
          unfold surf
          rw [hrecord, Option.map_some, not_not.mp hsurface]

/-- A node just allocated is in the tree beneath its parent, and marked. -/
theorem placeNew_spec {surf : ℕ → Option Surface} {t : Transforms} {F : OrderedForest ℕ} (h : Sound surf t.store F)
    (hi : surf i = none) {surface : Surface} (desc : NodeDesc) {parentIndex : Option ℕ}
    (hp : ∀ p, parentIndex = some p → surf p = some surface) :
    (∃ G, Sound (Function.update surf i (some surface)) (placeNew t i desc parentIndex).store G ∧
        G.placed = F.placed ++ [i] ∧ G.parent = Function.update F.parent i parentIndex) ∧
      (placeNew t i desc parentIndex).Marked i ∧
      ∀ j, j ≠ i → j < t.store.count → t.Keeps (placeNew t i desc parentIndex) j := by
  let surf' := Function.update surf i (some surface)
  have hlive : (surf' i).isSome := by simp [surf']
  obtain ⟨hmarked, hkeeps⟩ := t.initSlot_marks i
  have hinit : Sound surf' (t.initSlot i).store (F.enter i) := h.initSlot hi surface
  have hfields := Transforms.sound_writeFields hinit hlive desc.toTransformFields
  have hfieldsKeeps := fun j => (t.initSlot i).keeps_writeFields i desc.toTransformFields j
  generalize hdone : (t.initSlot i).writeFields i desc.toTransformFields = done at hfields hfieldsKeeps
  have hcull : Sound surf' (done.whenSome desc.neverCull fun xf v => xf.setNeverCull i v).store (F.enter i) ∧
      ∀ j, done.Keeps (done.whenSome desc.neverCull fun xf v => xf.setNeverCull i v) j := by
    cases desc.neverCull with
    | none => exact ⟨hfields, fun j => .refl done j⟩
    | some v =>
      show Sound surf' (done.setNeverCull i v).store _ ∧ ∀ j, done.Keeps (done.setNeverCull i v) j
      exact ⟨Transforms.sound_write hfields i _, fun j => done.keeps_write i _ j⟩
  have hplace : placeNew t i desc parentIndex =
      (done.whenSome desc.neverCull fun xf v => xf.setNeverCull i v).whenSome parentIndex fun xf p => xf.link i p := by
    rw [← hdone]
    rfl
  rw [hplace]
  generalize (done.whenSome desc.neverCull fun xf v => xf.setNeverCull i v) = last at hcull
  have hfree : i ∉ F.placed := fun hmem => by simpa [hi] using (h.live i).mp hmem
  have hlink : (∃ G, Sound surf' (last.whenSome parentIndex fun xf p => xf.link i p).store G ∧
        G.placed = F.placed ++ [i] ∧ G.parent = Function.update F.parent i parentIndex) ∧
      ∀ j, last.Keeps (last.whenSome parentIndex fun xf p => xf.link i p) j := by
    cases parentIndex with
    | none =>
      refine ⟨⟨_, hcull.1, ?_⟩, fun j => .refl last j⟩
      rw [OrderedForest.enter, dif_pos hfree, ← F.parent_eq_none hfree, Function.update_eq_self]
      exact ⟨rfl, rfl⟩
    | some p =>
      have hpi : p ≠ i := by
        rintro rfl
        rw [hp p rfl] at hi
        cases hi
      have hplaced : ∀ q, some p = some q → q ∈ F.placed := fun q hq => (h.live q).mpr (by rw [← Option.some.inj hq, hp p rfl]; rfl)
      refine ⟨⟨_, hcull.1.link hlive ?_, OrderedForest.place_enter hfree hplaced⟩, fun j => last.keeps_link i p j⟩
      show Function.update surf i (some surface) i = Function.update surf i (some surface) p
      rw [Function.update_self, Function.update_of_ne hpi, hp p rfl]
  have hall : ∀ j, (t.initSlot i).Keeps (last.whenSome parentIndex fun xf p => xf.link i p) j := fun j =>
    ((hfieldsKeeps j).trans (hcull.2 j)).trans (hlink.2 j)
  exact ⟨hlink.1, (hall i).marked hmarked, fun j hj hcount => (hkeeps j hj hcount).trans (hall j)⟩

/-- The surfaces, with that of a new record. -/
theorem surf_create {record : NodeRecord} {id : NodeId} {nodes : StackedTable NodeRecord}
    (h : core.nodes.create record = some (id, nodes)) : (fun i => (nodes.recordAt i).map NodeRecord.surface) =
      Function.update core.surf (handleIndex id) (some record.surface) := by
  funext x
  rw [(core.nodes.recordAt_create h).2]
  by_cases hx : x = handleIndex id
  · rw [hx, Function.update_self, Function.update_self, Option.map_some]
  · rw [Function.update_of_ne hx, Function.update_of_ne hx]
    rfl

theorem createNode_advances (h : core.Kept) {desc : NodeDesc} {id : NodeId}
    (hcreate : core.createNode S desc = .ok (id, core')) : Advances S core core' := by
  obtain ⟨F, hF⟩ := h
  unfold createNode at hcreate
  dsimp only at hcreate
  split_ifs at hcreate
  split at hcreate
  · cases hcreate
  · next parentIndex hparent =>
    split at hcreate
    · cases hcreate
    · next id nodes hnodes =>
      obtain ⟨-, rfl⟩ := Prod.mk.inj (Except.ok.inj hcreate)
      obtain ⟨hfree, hrecords⟩ := core.nodes.recordAt_create hnodes
      have hnone : core.surf (handleIndex id) = none := by
        unfold surf
        rw [hfree, Option.map_none]
      have hp : ∀ p, parentIndex = some p → core.surf p = some (desc.surface.getD .world) := fun p hp =>
        surf_resolveParent (hp ▸ hparent)
      obtain ⟨⟨G, hG, -⟩, hmarked, hkeeps⟩ := placeNew_spec hF hnone desc hp
      refine ⟨⟨G, ?_⟩, fun hS => ⟨fun h => h, rfl, rfl, fun j hj => ?_⟩⟩
      · show Sound (fun i => (nodes.recordAt i).map NodeRecord.surface) _ G
        rw [surf_create hnodes]
        exact hG
      · by_cases hji : j = handleIndex id
        · subst hji
          exact .inr (.inl hmarked)
        · replace hj : (nodes.recordAt j).isSome := hj
          rw [hrecords, Function.update_of_ne hji] at hj
          obtain hmark | hsame := hkeeps j hji (hF.lt_count (surf_isSome.trans hj))
          · exact .inr (.inl hmark)
          · refine .inr (.inr ⟨?_, hsame, Function.update_of_ne hji _ _⟩)
            have hsize : ¬ (SinkCall.create (handleIndex id) (recordOf desc (desc.surface.getD .world)) parentIndex).Resizes j :=
              fun heq => hji (Eq.symm heq)
            refine (artOf_tell hS hsize (fun _ _ heq => by cases heq)).trans ?_
            unfold artOf
            show (nodes.recordAt j).map _ = _
            rw [hrecords, Function.update_of_ne hji]

/-! ### Destroying -/

theorem sameSlot_release (hj : j ≠ i) : SameSlot S core (core.release i) j where
  art := by
    unfold artOf
    show ((core.nodes.releaseAt i).recordAt j).map _ = _
    rw [StackedTable.recordAt_releaseAt, Function.update_of_ne hj]
    rfl
  xf := core.xf.same_releaseSlot i hj
  told := rfl

theorem surf_release (core : RendererCore σ) (i : ℕ) : (core.release i).surf = Function.update core.surf i none := by
  funext x
  show ((core.nodes.releaseAt i).recordAt x).map _ = _
  rw [StackedTable.recordAt_releaseAt]
  by_cases hx : x = i
  · rw [hx, Function.update_self, Function.update_self, Option.map_none]
  · rw [Function.update_of_ne hx, Function.update_of_ne hx]
    rfl

theorem release_frame (slots : List ℕ) : ∀ core : RendererCore σ, (slots.foldl release core).cullAll = core.cullAll ∧
    (slots.foldl release core).culledViewport = core.culledViewport ∧
    (slots.foldl release core).config = core.config := by
  induction slots with
  | nil => exact fun core => ⟨rfl, rfl, rfl⟩
  | cons slot slots ih => exact fun core => ih (core.release slot)

theorem sameSlot_releases : ∀ (slots : List ℕ) (core : RendererCore σ), j ∉ slots →
    SameSlot S core (slots.foldl release core) j
  | [], core, _ => ⟨rfl, .refl _ j, rfl⟩
  | slot :: slots, core, hj => by
    have hslot : j ≠ slot := fun heq => hj (heq ▸ List.mem_cons_self)
    have hslots : j ∉ slots := fun hmem => hj (List.mem_cons_of_mem _ hmem)
    exact (sameSlot_release hslot).trans (sameSlot_releases slots (core.release slot) hslots)

theorem recordAt_releases : ∀ (slots : List ℕ) (core : RendererCore σ), j ∈ slots ∨ core.nodes.recordAt j = none →
    (slots.foldl release core).nodes.recordAt j = none
  | [], core, h => h.resolve_left List.not_mem_nil
  | slot :: slots, core, h => by
    refine recordAt_releases slots (core.release slot) ?_
    by_cases hj : j ∈ slots
    · exact .inl hj
    · refine .inr ?_
      show (core.nodes.releaseAt slot).recordAt j = none
      rw [StackedTable.recordAt_releaseAt]
      by_cases hslot : j = slot
      · rw [hslot, Function.update_self]
      · rw [Function.update_of_ne hslot]
        exact h.resolve_left fun hmem => hj ((List.mem_cons.mp hmem).resolve_left hslot)

/-- Slots in an order that has every child before its parent. -/
def ChildrenFirst (F : OrderedForest ℕ) (slots : List ℕ) : Prop :=
  ∀ xs d ys, slots = xs ++ d :: ys → ∀ c, F.parent c = some d → c ∈ xs

theorem releases_kept : ∀ (slots : List ℕ) {core : RendererCore σ} {F : OrderedForest ℕ},
    Sound core.surf core.xf.store F → ChildrenFirst F slots → (slots.foldl release core).Kept
  | [], core, F, h, _ => ⟨F, h⟩
  | slot :: slots, core, F, h, hfirst => by
    have hleaf : F.children slot = [] := List.eq_nil_iff_forall_not_mem.mpr fun c hc =>
      List.not_mem_nil (hfirst [] slot slots rfl c (OrderedForest.mem_children.mp hc))
    have hstep : Sound (core.release slot).surf (core.release slot).xf.store (F.leave slot) := by
      rw [surf_release]
      have hreleased := h.releaseSlot hleaf
      show Sound _ (core.xf.releaseSlot slot).store _
      unfold Transforms.releaseSlot
      split
      · exact hreleased
      · next hout =>
        have hnone : core.xf.store.releaseSlot (.whole slot) = core.xf.store := by
          unfold TransformStore.releaseSlot
          rw [show core.xf.store.has (.whole slot) = none from if_neg hout]
        rwa [hnone] at hreleased
    refine releases_kept slots hstep fun xs d ys heq c hc => ?_
    rw [OrderedForest.parent_leave hleaf] at hc
    have hcs : c ≠ slot := by
      rintro rfl
      rw [Function.update_self] at hc
      cases hc
    rw [Function.update_of_ne hcs] at hc
    have hmem := hfirst (slot :: xs) d ys (by rw [heq]; rfl) c hc
    exact (List.mem_cons.mp hmem).resolve_left hcs

/-- The walk of a subtree, backwards. -/
theorem childrenFirst_of_sweep {F : OrderedForest ℕ} {r : ℕ} {l : List ℕ} (h : F.Sweep r l []) :
    ChildrenFirst F l.reverse := by
  intro xs d ys heq c hc
  have hl : l = ys.reverse ++ d :: xs.reverse := by
    rw [← List.reverse_reverse l, heq]
    simp
  have hnodup : l.Nodup := by simpa using h.nodup
  have hd : F.Above r d := h.finished.mp (by rw [hl]; simp)
  have hcl : c ∈ l := h.finished.mpr (hd.trans (.of_parent hc))
  obtain ⟨as, bs, hsplit⟩ := List.append_of_mem hcl
  -- the parent of `c` was met before `c`
  have hdas : d ∈ as := by
    obtain rfl | ⟨p, hp, hpc⟩ := h.ordered as c bs hsplit
    · exact absurd hd (OrderedForest.not_above_parent hc)
    · exact Option.some.inj (hpc.symm.trans hc) ▸ hp
  rw [hl] at hcl
  obtain hfront | hrest := List.mem_append.mp hcl
  · obtain ⟨as', bs', hsplit'⟩ := List.append_of_mem hfront
    have hl' : l = as' ++ c :: (bs' ++ d :: xs.reverse) := by rw [hl, hsplit']; simp
    have hdas' : d ∈ as' := by
      obtain rfl | ⟨p, hp, hpc⟩ := h.ordered as' c _ hl'
      · exact absurd hd (OrderedForest.not_above_parent hc)
      · exact Option.some.inj (hpc.symm.trans hc) ▸ hp
    rw [hl'] at hnodup
    exact absurd (List.mem_cons_of_mem c (List.mem_append_right bs' List.mem_cons_self))
      ((List.nodup_append'.mp hnodup).2.2 hdas')
  · obtain rfl | hrest := List.mem_cons.mp hrest
    · rw [hsplit] at hnodup
      exact absurd List.mem_cons_self ((List.nodup_append'.mp hnodup).2.2 hdas)
    · exact List.mem_reverse.mp hrest

theorem destroyAt_ends (h : core.Kept) (hi : (core.nodes.recordAt i).isSome) :
    ∃ core', core.destroyAt S i = some core' ∧ Advances S core core' := by
  obtain ⟨F, hF⟩ := h
  obtain ⟨l, hl, hsweep⟩ := hF.subtree (surf_isSome.trans hi)
  unfold destroyAt
  rw [hl]
  refine ⟨_, rfl, releases_kept l.reverse hF (childrenFirst_of_sweep hsweep), fun hS => ?_⟩
  obtain ⟨hall, hviewport, hconfig⟩ := release_frame l.reverse (core.tell S (.destroySubtree l))
  refine ⟨fun hcull => hall.trans hcull, hviewport, by rw [hconfig]; rfl, fun j hj => ?_⟩
  have hout : j ∉ l.reverse := by
    intro hmem
    rw [recordAt_releases l.reverse _ (.inl hmem)] at hj
    cases hj
  have htell : SameSlot S core (core.tell S (.destroySubtree l)) j :=
    ⟨artOf_tell hS (fun heq => heq) (fun _ _ heq => by cases heq), .refl _ j,
      if_neg fun hmem => hout (List.mem_reverse.mpr hmem)⟩
  exact .inr (.inr (htell.trans (sameSlot_releases l.reverse _ hout)))

theorem destroyNode_ends (h : core.Kept) (id : NodeId) :
    ∃ core', core.destroyNode S id = some core' ∧ Advances S core core' := by
  unfold destroyNode
  split
  · exact ⟨core, rfl, h.advances⟩
  · next hindex => exact destroyAt_ends h (core.nodes.recordAt_indexOf hindex)

theorem clearRoots_ends (surface : Surface) : ∀ (slots : List ℕ) {core : RendererCore σ}, core.Kept →
    ∃ core', clearRoots S surface slots core = some core' ∧ Advances S core core'
  | [], core, h => ⟨core, rfl, h.advances⟩
  | slot :: slots, core, h => by
    have hroot : ∃ core', core.clearRoot S surface slot = some core' ∧ Advances S core core' := by
      unfold clearRoot
      split
      · exact ⟨core, rfl, h.advances⟩
      · split
        · exact destroyNode_ends h _
        · exact ⟨core, rfl, h.advances⟩
    obtain ⟨core', hclear, hadvances⟩ := hroot
    obtain ⟨core'', hrest, hadvances'⟩ := clearRoots_ends surface slots hadvances.kept
    rw [clearRoots, hclear]
    exact ⟨core'', hrest, hadvances.trans hadvances'⟩

theorem clear_ends (h : core.Kept) (surface : Option Surface) :
    ∃ core', core.clear S surface = some core' ∧ Advances S core core' := by
  cases surface with
  | some surface => exact clearRoots_ends surface core.nodes.liveIndices h
  | none =>
    obtain ⟨F, hF⟩ := h
    refine ⟨_, rfl, ⟨.empty, hF.clear⟩, fun _ => ⟨fun h => h, rfl, rfl, fun j hj => ?_⟩⟩
    cases hj

/-! ### Resolving -/

theorem query_ends (h : core.Kept) : ∃ core', core.query = some core' ∧ Advances S core core' := by
  obtain ⟨F, hF⟩ := h
  obtain ⟨t, ht, hsound, -, -, hkeeps⟩ := Transforms.resolves hF
  refine ⟨{ core with xf := t }, ?_, ⟨F, hsound⟩, fun _ => carries_xf fun j _ => hkeeps j⟩
  rw [query, ht, Option.map_some]

end RendererCore
end Grove.Render
