import Grove.Sim.Replay

/-! # Slots and their marks

What the calls do to the transform store.  A call leaves the cells of every entity alone but for
the slot it writes, and that slot is marked: so an entity whose slot is not marked was there, with
these cells, when the marks were last cleared (`Written`).  The destroy drain resets the slots of
what it tears down, which no entity occupies any more. -/

namespace Grove

namespace Entities

variable {e e' : Entities}

theorem isSome_record_unlink (e : Entities) (id x : EntityId) :
    ((e.unlink id).2.record x).isSome = (e.record x).isSome := by
  unfold unlink
  split
  · rfl
  · split_ifs
    · rfl
    · show (((e.table.modify _ _).modify id _).record x).isSome = (e.table.record x).isSome
      rw [SlotTable.record_modify, SlotTable.record_modify, SlotTable.record_modify]
      split_ifs <;> simp_all

theorem isSome_record_link (e : Entities) (id parent x : EntityId) :
    ((e.link id parent).record x).isSome = (e.record x).isSome := by
  rw [← isSome_record_unlink e id x]
  show ((((e.unlink id).2.table.modify id _).modify parent _).record x).isSome =
    ((e.unlink id).2.table.record x).isSome
  rw [SlotTable.record_modify, SlotTable.record_modify, SlotTable.record_modify]
  split_ifs <;> simp_all

/-- Two entities that are there have slots of their own. -/
theorem handleIndex_ne {x y : EntityId} {r q : EntityRecord} (hx : e.record x = some r) (hy : e.record y = some q)
    (hne : x ≠ y) : handleIndex x ≠ handleIndex y := fun he =>
  hne (e.table.eq_of_handleIndex_eq (by rw [show e.table.record x = some r from hx]; rfl)
    (by rw [show e.table.record y = some q from hy]; rfl) he)

end Entities

namespace Runtime

/-- The same entities, and the same store. -/
structure SameSlots (rt rt' : Runtime) : Prop where
  isSome : ∀ x, (rt'.entities.record x).isSome = (rt.entities.record x).isSome
  transforms : rt'.transforms = rt.transforms

/-- Every entity is still there, with the cells its slot had. -/
def KeepsCells (rt rt' : Runtime) : Prop := ∀ l r, rt.entities.record l = some r →
  (∃ r', rt'.entities.record l = some r') ∧ rt'.transforms.cells (handleIndex l) = rt.transforms.cells (handleIndex l)

/-- Every entity whose slot is not marked was there, not marked, with the cells it has. -/
def Marks (rt rt' : Runtime) : Prop := ∀ x r', rt'.entities.record x = some r' →
  handleIndex x ∉ rt'.transforms.dirty → (∃ r, rt.entities.record x = some r) ∧
    handleIndex x ∉ rt.transforms.dirty ∧
    rt'.transforms.cells (handleIndex x) = rt.transforms.cells (handleIndex x)

/-- Every layer is one an `Int32Array` holds. -/
def Layered (rt : Runtime) : Prop :=
  ∀ i, (JsNumber.finite ((rt.transforms.cells i).layer : ℚ)).toInt32 = (rt.transforms.cells i).layer

/-- What was written is marked. -/
structure Written (rt rt' : Runtime) : Prop where
  marks : Marks rt rt'
  layered : Layered rt → Layered rt'

section slots
variable {rt rt' rt'' : Runtime}

theorem KeepsCells.refl (rt : Runtime) : KeepsCells rt rt := fun _ _ hr => ⟨⟨_, hr⟩, rfl⟩

theorem KeepsCells.trans (h : KeepsCells rt rt') (h' : KeepsCells rt' rt'') : KeepsCells rt rt'' := by
  intro l r hr
  obtain ⟨⟨r', hr'⟩, hc⟩ := h l r hr
  obtain ⟨hr'', hc'⟩ := h' l r' hr'
  exact ⟨hr'', hc'.trans hc⟩

theorem Written.refl (rt : Runtime) : Written rt rt := ⟨fun _ r hr hi => ⟨⟨r, hr⟩, hi, rfl⟩, id⟩

theorem Written.trans (h : Written rt rt') (h' : Written rt' rt'') : Written rt rt'' := by
  refine ⟨fun x r'' hr'' hi'' => ?_, fun hl => h'.layered (h.layered hl)⟩
  obtain ⟨⟨r', hr'⟩, hi', hc'⟩ := h'.marks x r'' hr'' hi''
  obtain ⟨hr, hi, hc⟩ := h.marks x r' hr' hi'
  exact ⟨hr, hi, hc'.trans hc⟩

theorem sameSlots_of_eq (he : rt'.entities = rt.entities) (ht : rt'.transforms = rt.transforms) :
    SameSlots rt rt' := ⟨fun x => by rw [he], ht⟩

theorem SameSlots.keepsCells (h : SameSlots rt rt') : KeepsCells rt rt' := by
  intro l r hr
  rw [h.transforms]
  exact ⟨Option.isSome_iff_exists.mp (by rw [h.isSome, hr]; rfl), rfl⟩

theorem SameSlots.written (h : SameSlots rt rt') : Written rt rt' := by
  refine ⟨fun x r' hr' hi => ?_, fun hl => ?_⟩
  · rw [h.transforms] at hi ⊢
    exact ⟨Option.isSome_iff_exists.mp (by rw [← h.isSome, hr']; rfl), hi, rfl⟩
  · unfold Layered
    rw [h.transforms]
    exact hl

/-! ### Calls that write no cell -/

theorem destroy_sameSlots (rt : Runtime) (id : EntityId) : SameSlots rt (rt.destroy id) := by
  obtain ⟨killed, hk⟩ := rt.entities.destroy_cascaded id
  refine ⟨fun x => ?_, rfl⟩
  show ((rt.entities.destroy id).record x).isSome = _
  rw [hk.record]
  split_ifs
  · exact Option.isSome_map
  · rfl

theorem attachTo_sameSlots {id parent : EntityId} (h : rt.attachTo id parent = .ok rt') : SameSlots rt rt' := by
  unfold attachTo at h
  split at h
  · cases h
  · obtain rfl := Except.ok.inj h
    exact sameSlots_of_eq rfl rfl
  · rename_i e' he'
    obtain rfl := Except.ok.inj h
    refine ⟨fun x => ?_, rfl⟩
    unfold Entities.attachTo at he'
    split at he'
    · split_ifs at he'
      · obtain rfl := Option.some.inj (Except.ok.inj he')
        exact Entities.isSome_record_link _ id parent x
      · cases he'
    · cases he'

theorem detach_sameSlots (rt : Runtime) (id : EntityId) : SameSlots rt (rt.detach id) := by
  have hrec := Entities.isSome_record_unlink rt.entities id
  unfold detach
  rcases hu : rt.entities.unlink id with ⟨_ | _, e'⟩
  · rw [hu] at hrec
    exact ⟨hrec, rfl⟩
  · rw [hu] at hrec
    exact ⟨hrec, rfl⟩

theorem attach_sameSlots (rt : Runtime) (key : HostKey) (klass : ScriptClass) (inst : ScriptInstance) :
    SameSlots rt (rt.attach key klass inst).1 := by
  obtain ⟨hosts, instances, h⟩ := (attach_hosted rt key klass inst).others
  rw [h]
  exact sameSlots_of_eq rfl rfl

theorem attachToEntity_sameSlots (rt : Runtime) (id : EntityId) (klass : ScriptClass) (inst : ScriptInstance) :
    SameSlots rt (rt.attachToEntity id klass inst).1 := by
  have hsame := attach_sameSlots rt (.entity id) klass inst
  unfold attachToEntity
  rcases hout : rt.attach (.entity id) klass inst with ⟨rt', _ | err⟩
  · rw [hout] at hsame
    cases inst.script with
    | none => exact hsame
    | some script => exact ⟨hsame.isSome, hsame.transforms⟩
  · rw [hout] at hsame
    exact hsame

theorem writeState_sameSlots (rt : Runtime) (rid : RecordId) (field : String) (w : FieldValue) :
    SameSlots rt (rt.writeState rid field w) := by
  unfold writeState
  split_ifs
  · exact sameSlots_of_eq rfl rfl
  · exact sameSlots_of_eq rfl rfl

/-! ### Calls that do -/

/-- A spawn takes a free slot, and writes it. -/
theorem spawn_slots {template ownerId : String} {x y : JsNumber} {id : EntityId}
    (h : rt.spawn template x y ownerId = .ok (id, rt')) :
    rt.entities.record id = none ∧ (∃ r, rt'.entities.record id = some r) ∧
      (∀ z, z ≠ id → rt'.entities.record z = rt.entities.record z) ∧
      rt'.transforms = (rt.transforms.initSlot id).setPosition id x y (.finite 0) := by
  unfold spawn at h
  split at h
  · cases h
  · rename_i id₀ e' hc
    obtain ⟨rfl, rfl⟩ := Prod.mk.inj (Except.ok.inj h)
    have hrec := Entities.record_create hc
    exact ⟨Entities.record_of_create hc, ⟨_, (hrec id₀).trans (if_pos rfl)⟩,
      fun z hz => (hrec z).trans (if_neg hz), rfl⟩

theorem cells_init_of_ne (s : SimTransformStore) (id : EntityId) (x y z : JsNumber) {i : ℕ} (h : i ≠ handleIndex id) :
    ((s.initSlot id).setPosition id x y z).cells i = s.cells i := by
  rw [SimTransformStore.setPosition, SimTransformStore.cells_write_of_ne _ h]
  exact Function.update_of_ne h _ _

theorem spawn_keepsCells {template ownerId : String} {x y : JsNumber} {id : EntityId}
    (h : rt.spawn template x y ownerId = .ok (id, rt')) :
    KeepsCells rt rt' ∧ rt.entities.record id = none ∧ ∃ r, rt'.entities.record id = some r := by
  obtain ⟨hnone, ⟨r', hself⟩, hrec, ht⟩ := spawn_slots h
  refine ⟨fun l r hr => ?_, hnone, r', hself⟩
  have hl : l ≠ id := by
    rintro rfl
    rw [hnone] at hr
    cases hr
  have hr' : rt'.entities.record l = some r := (hrec l hl).trans hr
  refine ⟨⟨r, hr'⟩, ?_⟩
  rw [ht]
  exact cells_init_of_ne _ id _ _ _ (Entities.handleIndex_ne hr' hself hl)

theorem layered_update {s : ℕ → TransformCells} {i : ℕ} {c : TransformCells}
    (hs : ∀ i, (JsNumber.finite ((s i).layer : ℚ)).toInt32 = (s i).layer)
    (hc : (JsNumber.finite (c.layer : ℚ)).toInt32 = c.layer) (j : ℕ) :
    (JsNumber.finite ((Function.update s i c j).layer : ℚ)).toInt32 = (Function.update s i c j).layer := by
  by_cases hj : j = i
  · rw [hj, Function.update_self]
    exact hc
  · rw [Function.update_of_ne hj]
    exact hs j

theorem layered_identity : (JsNumber.finite (TransformCells.identity.layer : ℚ)).toInt32 = TransformCells.identity.layer := by
  decide

theorem spawn_written {template ownerId : String} {x y : JsNumber} {id : EntityId}
    (h : rt.spawn template x y ownerId = .ok (id, rt')) : Written rt rt' := by
  obtain ⟨hnone, ⟨r', hself⟩, hrec, ht⟩ := spawn_slots h
  refine ⟨fun z r hr hi => ?_, fun hl => ?_⟩
  · rw [ht, SimTransformStore.setPosition, SimTransformStore.mem_dirty_write, not_or] at hi
    have hz : z ≠ id := fun he => hi.2 (by rw [he])
    refine ⟨⟨r, (hrec z hz).symm.trans hr⟩, hi.1, ?_⟩
    rw [ht]
    exact cells_init_of_ne _ id _ _ _ hi.2
  · unfold Layered
    rw [ht]
    exact layered_update (layered_update hl layered_identity)
      (layered_update hl layered_identity (handleIndex id))

theorem write_written (rt : Runtime) (id : EntityId) (f : TransformCells → TransformCells)
    (hf : ∀ c, (JsNumber.finite (c.layer : ℚ)).toInt32 = c.layer →
      (JsNumber.finite ((f c).layer : ℚ)).toInt32 = (f c).layer) :
    Written rt { rt with transforms := rt.transforms.write id f } := by
  refine ⟨fun z r hr hi => ?_, fun hl => layered_update hl (hf _ (hl _))⟩
  replace hi := (not_congr (SimTransformStore.mem_dirty_write rt.transforms)).mp hi
  rw [not_or] at hi
  exact ⟨⟨r, hr⟩, hi.1, SimTransformStore.cells_write_of_ne _ hi.2 f⟩

/-! ### Runs -/

theorem written_of_eq (he : rt'.entities = rt.entities) (ht : rt'.transforms = rt.transforms) : Written rt rt' :=
  (sameSlots_of_eq he ht).written

theorem step_written (rt : Runtime) (op : Op) : Written rt (rt.step op).1 := by
  have hself : Written rt rt := Written.refl rt
  cases op with
  | spawn template x y ownerId =>
    simp only [step]
    split
    · rename_i id rt' h
      exact spawn_written h
    · exact hself
  | destroy id => exact (destroy_sameSlots rt id).written
  | attachTo id parent =>
    simp only [step]
    split
    · rename_i rt' h
      exact (attachTo_sameSlots h).written
    · exact hself
  | detach id => exact (detach_sameSlots rt id).written
  | tag | untag | bubble => exact written_of_eq rfl rfl
  | setPosition id x y z => exact write_written rt id _ (fun _ h => h)
  | setRotation id | setScale id | setOpacity id => exact write_written rt id _ (fun _ h => h)
  | setLayer id layer => exact write_written rt id _ (fun _ _ => layer.toInt32_toInt32)
  | writeState rid field w => exact (writeState_sameSlots rt rid field w).written
  | ensureHost key => exact written_of_eq rfl rfl
  | attachToEntity id klass inst =>
    have h := (attachToEntity_sameSlots rt id klass inst).written
    simp only [step]
    rcases hout : rt.attachToEntity id klass inst with ⟨rt', err⟩
    rw [hout] at h
    exact h
  | attach key klass inst =>
    have h := (attach_sameSlots rt key klass inst).written
    simp only [step]
    rcases hout : rt.attach key klass inst with ⟨rt', err⟩
    rw [hout] at h
    exact h

theorem acts_written : ∀ (as : List Act) (rt : Runtime), Written rt (rt.acts as) :=
  acts_chain Written.refl Written.trans (fun _ _ => written_of_eq rfl rfl) step_written

/-! ### The destroy drain -/

theorem cells_teardown_of_ne (rt : Runtime) {d : EntityId} {i : ℕ} (h : i ≠ handleIndex d) :
    (rt.teardown d).transforms.cells i = rt.transforms.cells i := by
  show (rt.transforms.releaseSlot d).cells i = _
  unfold SimTransformStore.releaseSlot
  split_ifs
  · rfl
  · exact Function.update_of_ne h _ _

theorem teardown_written {d : EntityId} {rd : EntityRecord} (hd : rt.entities.record d = some rd) :
    Written rt (rt.teardown d) := by
  refine ⟨fun z r' hr' hi => ?_, fun hl i => ?_⟩
  · obtain ⟨hne, r, hr, -⟩ := Entities.record_teardown_some hd hr'
    have hidx := Entities.handleIndex_ne hr hd hne
    refine ⟨⟨r, hr⟩, fun hmem => hi ?_, cells_teardown_of_ne rt hidx⟩
    show handleIndex z ∈ (rt.transforms.releaseSlot d).dirty
    unfold SimTransformStore.releaseSlot
    split_ifs
    · exact hmem
    · exact List.mem_filter.mpr ⟨hmem, by simpa using hidx⟩
  · show (JsNumber.finite (((rt.transforms.releaseSlot d).cells i).layer : ℚ)).toInt32 =
      ((rt.transforms.releaseSlot d).cells i).layer
    unfold SimTransformStore.releaseSlot
    split_ifs
    · exact hl i
    · exact layered_update hl layered_identity i

/-- Every one of them is there when its turn comes. -/
theorem exists_teardown {d : EntityId} {ds : List EntityId} (hd : d ∉ ds) {rd : EntityRecord}
    (hrd : rt.entities.record d = some rd) (hex : ∀ x ∈ ds, ∃ r, rt.entities.record x = some r) :
    ∀ x ∈ ds, ∃ r, (rt.teardown d).entities.record x = some r := by
  intro x hx
  obtain ⟨q, hq⟩ := hex x hx
  obtain ⟨q', hq', -⟩ := record_runtime_teardown hrd (fun he => hd (he ▸ hx)) hq
  exact ⟨q', hq'⟩

theorem foldl_teardown_written : ∀ (ds : List EntityId) {rt : Runtime}, ds.Nodup →
    (∀ d ∈ ds, ∃ r, rt.entities.record d = some r) → Written rt (ds.foldl teardown rt)
  | [], rt, _, _ => Written.refl rt
  | d :: ds, rt, hnd, hex => by
    obtain ⟨hd, hnd⟩ := List.nodup_cons.mp hnd
    obtain ⟨rd, hrd⟩ := hex d List.mem_cons_self
    have hrest := exists_teardown hd hrd (fun x hx => hex x (List.mem_cons_of_mem _ hx))
    exact (teardown_written hrd).trans (foldl_teardown_written ds hnd hrest)

/-- A drain without handlers resets the slots of what it tears down. -/
theorem foldl_teardown_cells : ∀ (ds : List EntityId) {rt : Runtime}, ds.Nodup →
    (∀ d ∈ ds, ∃ r, rt.entities.record d = some r) → ∀ {l r}, l ∉ ds → rt.entities.record l = some r →
    (ds.foldl teardown rt).transforms.cells (handleIndex l) = rt.transforms.cells (handleIndex l)
  | [], _, _, _, _, _, _, _ => rfl
  | d :: ds, rt, hnd, hex, l, r, hl, hr => by
    obtain ⟨hd, hnd⟩ := List.nodup_cons.mp hnd
    rw [List.mem_cons, not_or] at hl
    obtain ⟨rd, hrd⟩ := hex d List.mem_cons_self
    have hrest := exists_teardown hd hrd (fun x hx => hex x (List.mem_cons_of_mem _ hx))
    obtain ⟨r', hr', -⟩ := record_runtime_teardown hrd hl.1 hr
    rw [List.foldl_cons, foldl_teardown_cells ds hnd hrest hl.2 hr']
    exact cells_teardown_of_ne rt (Entities.handleIndex_ne hr hrd hl.1)

/-- The doomed are there, each once. -/
theorem Sound.doomed_there {v : View} {doomed : List EntityId} (hs : Sound v rt doomed) :
    doomed.Nodup ∧ ∀ d ∈ doomed, ∃ r, rt.entities.record d = some r := by
  refine ⟨(List.nodup_append.mp hs.linked.queue_nodup).1, fun d hd => ?_⟩
  obtain ⟨r, hr, -⟩ := (hs.linked.queued d).mp (List.mem_append_left _ hd)
  exact ⟨r, hr⟩

theorem drainDestroyed_written (hs : Sound bare rt []) (onEnd : List Act) : Written rt (rt.drainDestroyed onEnd) := by
  unfold drainDestroyed
  split
  · exact Written.refl rt
  · have hacts : Meets act (ActMeets (fun rt op => op.Names bare rt))
        { rt with entities := { rt.entities with pendingDestroy := [] } } onEnd := actsMeet_bare onEnd _
    obtain ⟨hnd, hex⟩ := (acts_advances onEnd hs.splice hacts).1.doomed_there
    have hsplice : Written rt { rt with entities := { rt.entities with pendingDestroy := [] } } :=
      SameSlots.written ⟨fun _ => rfl, rfl⟩
    exact (hsplice.trans (acts_written onEnd _)).trans (foldl_teardown_written _ hnd hex)

end slots

end Runtime

end Grove
