import Grove.Client.Follow
import Grove.Sim.Slots

/-! # Applying a journal

The wire's ops as edits (`wireEdits`), and what holds of a mirror whatever is sent to it: its
counters only grow (`Grows`), ops leave slots and names alone but those they bring (`Applies`), and
the state and transform channels leave its structure alone (`Still`). -/

namespace Grove

/-- The edits of one wire op; players are no part of the forest. -/
def WireSingleStructuralOp.edits (v : View) : WireSingleStructuralOp → List (Edit NetId (Set String))
  | .spawn s | .enterInterest s =>
    .spawn s.netId ∅ :: (s.parent.toList.map (fun p => .reparent s.netId (some p)) ++
      if v.tags then s.tags.map (fun t => .modify s.netId (retagged t true)) else [])
  | .destroy n | .leaveInterest n => [.destroy n]
  | .reparent n p => [.reparent n p]
  | .tag n name added => tagEdits v n name added
  | .attach n _ => if v.strict then [.touch n] else []
  | .playerJoin _ | .playerLeave _ => []

/-- The edits of a stretch of ops. -/
def wireEdits (v : View) (ops : List WireSingleStructuralOp) : List (Edit NetId (Set String)) :=
  ops.flatMap (WireSingleStructuralOp.edits v)

/-- The spawns among the ops. -/
def spawnCount (ops : List WireSingleStructuralOp) : ℕ :=
  ops.countP (fun
    | .spawn _ | .enterInterest _ => true
    | _ => false)

namespace WireSingleStructuralOp

/-- The identity an op removes, if it does. -/
def destroys : WireSingleStructuralOp → Option NetId
  | .destroy n | .leaveInterest n => some n
  | _ => none

/-- The entity an op brings, if it does. -/
def spawned : WireSingleStructuralOp → Option EntitySnapshot
  | .spawn s | .enterInterest s => some s
  | _ => none

def brings (op : WireSingleStructuralOp) : Set NetId := {q | ∃ s, op.spawned = some s ∧ s.netId = q}

/-- What the authority's own ops meet: a handle is a safe integer, and nobody leaves. -/
def Fits : WireSingleStructuralOp → Prop
  | .spawn s | .enterInterest s => s.netId ≤ maxSafeInteger
  | .playerLeave _ => False
  | _ => True

end WireSingleStructuralOp

/-- The second op brings again what the first removed. -/
def WireRespawns (a b : WireSingleStructuralOp) : Prop :=
  ∃ n s, a.destroys = some n ∧ b.spawned = some s ∧ s.netId = n

namespace Mirror

/-! ### What ops leave alone -/

/-- No counter of `m` is above that of `m'`. -/
structure Grows (m m' : Mirror) : Prop where
  unknownNetId : m.counters.unknownNetId ≤ m'.counters.unknownNetId
  outOfOrderParent : m.counters.outOfOrderParent ≤ m'.counters.outOfOrderParent
  invalidNetId : m.counters.invalidNetId ≤ m'.counters.invalidNetId
  oversizedList : m.counters.oversizedList ≤ m'.counters.oversizedList

/-- What ops leave alone: no counter falls, no envelope is held back or let go, what is there keeps
its slot, and a name they do not bring stands for what it stood for. -/
structure Applies (brings : Set NetId) (m m' : Mirror) : Prop extends Grows m m' where
  heldTransforms : m'.heldTransforms = m.heldTransforms
  keepsCells : Runtime.KeepsCells m.rt m'.rt
  localOf : ∀ q ∉ brings, m'.index.localOf q = m.index.localOf q

section applies
variable {m m' m'' : Mirror} {brings brings' : Set NetId}

theorem Grows.of_eq (h : m'.counters = m.counters) : Grows m m' := by
  constructor <;> rw [h]

theorem Grows.refl (m : Mirror) : Grows m m := Grows.of_eq rfl

theorem Grows.trans (h : Grows m m') (h' : Grows m' m'') : Grows m m'' :=
  ⟨h.1.trans h'.1, h.2.trans h'.2, h.3.trans h'.3, h.4.trans h'.4⟩

theorem grows_countUnknown (m : Mirror) : Grows m m.countUnknown :=
  ⟨Nat.le_succ _, le_rfl, le_rfl, le_rfl⟩

theorem grows_countOversized (m : Mirror) : Grows m m.countOversized :=
  ⟨le_rfl, le_rfl, le_rfl, Nat.le_succ _⟩

/-- Only a counter moves. -/
theorem Applies.counted (hgrows : Grows m m') (hheld : m'.heldTransforms = m.heldTransforms) (hrt : m'.rt = m.rt)
    (hindex : m'.index = m.index) : Applies brings m m' :=
  ⟨hgrows, hheld, hrt ▸ .refl m.rt, fun _ _ => by rw [hindex]⟩

/-- The runtime moves, and no slot of it. -/
theorem Applies.of_slots (hslots : Runtime.SameSlots m.rt m'.rt) (hcounters : m'.counters = m.counters)
    (hheld : m'.heldTransforms = m.heldTransforms) (hindex : m'.index = m.index) : Applies brings m m' :=
  ⟨.of_eq hcounters, hheld, hslots.keepsCells, fun _ _ => by rw [hindex]⟩

theorem Applies.refl (m : Mirror) : Applies brings m m := .counted (.refl m) rfl rfl rfl

theorem Applies.trans (h : Applies brings m m') (h' : Applies brings m' m'') : Applies brings m m'' :=
  ⟨h.toGrows.trans h'.toGrows, h'.heldTransforms.trans h.heldTransforms, h.keepsCells.trans h'.keepsCells,
    fun q hq => (h'.localOf q hq).trans (h.localOf q hq)⟩

theorem Applies.mono (h : Applies brings m m') (hsub : brings ⊆ brings') : Applies brings' m m' :=
  ⟨h.toGrows, h.heldTransforms, h.keepsCells, fun q hq => h.localOf q fun hmem => hq (hsub hmem)⟩

theorem applies_countUnknown (m : Mirror) : Applies brings m m.countUnknown :=
  .counted (grows_countUnknown m) rfl rfl rfl

theorem applies_countOversized (m : Mirror) : Applies brings m m.countOversized :=
  .counted (grows_countOversized m) rfl rfl rfl

theorem resolve_of_some {n : NetId} {l : EntityId} (h : m.index.localOf n = some l) :
    m.resolve n = (some l, m) := by
  unfold resolve
  rw [h]

theorem resolve_of_none {n : NetId} (h : m.index.localOf n = none) :
    m.resolve n = (none, m.countUnknown) := by
  unfold resolve
  rw [h]

/-- What each entry of a list keeps, a walk along it keeps, up to the first that fails. -/
theorem walk_keeps {α : Type} {R : Mirror → Mirror → Prop} (hrefl : ∀ m, R m m)
    (htrans : ∀ {m m' m''}, R m m' → R m' m'' → R m m'') {f : Mirror → α → Mirror × Option LoadError}
    {walk : List α → Mirror → Mirror × Option LoadError} (hnil : ∀ m, walk [] m = (m, none))
    (hcons : ∀ a as m, walk (a :: as) m =
      match f m a with
      | (m, some err) => (m, some err)
      | (m, none) => walk as m) :
    ∀ (as : List α), (∀ a ∈ as, ∀ m, R m (f m a).1) → ∀ m, R m (walk as m).1
  | [], _, m => by
    rw [hnil]
    exact hrefl m
  | a :: as, h, m => by
    have ha := h a List.mem_cons_self m
    rw [hcons]
    generalize f m a = result at ha ⊢
    obtain ⟨m', _ | err⟩ := result
    · exact htrans ha (walk_keeps hrefl htrans hnil hcons as (fun b hb => h b (List.mem_cons_of_mem _ hb)) m')
    · exact ha

theorem applies_attach (m : Mirror) (loc : EntityId) (a : WireScriptAttachment) : Applies ∅ m (m.attach loc a).1 := by
  unfold attach
  split
  · exact .counted ⟨le_rfl, le_rfl, le_rfl, le_rfl⟩ rfl rfl rfl
  · split_ifs
    · exact .refl m
    · split
      · exact .counted ⟨le_rfl, le_rfl, le_rfl, le_rfl⟩ rfl rfl rfl
      · exact .of_slots (Runtime.attachToEntity_sameSlots m.rt loc _ _) rfl rfl rfl

theorem applies_attachAll (loc : EntityId) (as : List WireScriptAttachment) (m : Mirror) :
    Applies ∅ m (attachAll loc as m).1 :=
  walk_keeps .refl .trans (fun _ => rfl) (fun _ _ _ => rfl) as (fun a _ m => applies_attach m loc a) m

theorem applies_linkParent (m : Mirror) (loc : EntityId) (p : Option NetId) :
    Applies ∅ m (m.linkParent loc p).1 := by
  cases p with
  | none => exact .refl m
  | some n =>
    cases hn : m.index.localOf n with
    | none =>
      simp only [linkParent, resolve_of_none hn]
      exact .counted ⟨Nat.le_succ _, Nat.le_succ _, le_rfl, le_rfl⟩ rfl rfl rfl
    | some parent =>
      simp only [linkParent, resolve_of_some hn]
      split
      · exact .refl m
      · rename_i rt hrt
        exact .of_slots (Runtime.attachTo_sameSlots hrt) rfl rfl rfl

theorem sameSlots_tags (loc : EntityId) : ∀ (tags : List String) (rt : Runtime),
    Runtime.SameSlots rt (tags.foldl (fun rt tag => rt.tag loc tag) rt)
  | [], _ => Runtime.sameSlots_of_eq rfl rfl
  | tag :: tags, rt =>
    have htags := sameSlots_tags loc tags (rt.tag loc tag)
    ⟨htags.isSome, htags.transforms⟩

theorem applies_applyTags (m : Mirror) (loc : EntityId) (tags : List String) :
    Applies ∅ m (m.applyTags loc tags) := by
  unfold applyTags
  split_ifs
  · exact applies_countOversized m
  · exact .of_slots (sameSlots_tags loc tags m.rt) rfl rfl rfl

theorem applies_applyScripts (m : Mirror) (loc : EntityId) (as : List WireScriptAttachment) :
    Applies ∅ m (m.applyScripts loc as).1 := by
  unfold applyScripts
  split_ifs
  · exact applies_countOversized m
  · exact applies_attachAll loc as m

theorem cells_writeTransform_of_ne (m : Mirror) {loc : EntityId} {i : ℕ} (t : WireTransform)
    (h : i ≠ handleIndex loc) : (m.writeTransform loc t).rt.transforms.cells i = m.rt.transforms.cells i := by
  unfold writeTransform
  simp only [SimTransformStore.setPosition, SimTransformStore.setRotation, SimTransformStore.setScale,
    SimTransformStore.setOpacity, SimTransformStore.setLayer]
  rw [SimTransformStore.cells_write_of_ne _ h, SimTransformStore.cells_write_of_ne _ h,
    SimTransformStore.cells_write_of_ne _ h, SimTransformStore.cells_write_of_ne _ h,
    SimTransformStore.cells_write_of_ne _ h]

theorem applies_spawn (m : Mirror) (s : EntitySnapshot) : Applies {s.netId} m (m.spawn s).1 := by
  unfold spawn
  split_ifs
  · exact .counted ⟨le_rfl, le_rfl, Nat.le_succ _, le_rfl⟩ rfl rfl rfl
  · split
    · exact .refl m
    · rename_i loc rt heq
      obtain ⟨hmade, hfree, r, hr⟩ := Runtime.spawn_keepsCells heq
      have h₀ : Applies {s.netId} m { m with rt := rt, index := m.index.set s.netId loc } :=
        ⟨.of_eq rfl, rfl, hmade, fun q hq => (MirrorIndex.localOf_set _ _ _ _).trans (if_neg hq)⟩
      have h₁ := applies_linkParent { m with rt := rt, index := m.index.set s.netId loc } loc s.parent
      split
      · rename_i m₁ err heq₁
        rw [heq₁] at h₁
        exact h₀.trans (h₁.mono (Set.empty_subset _))
      · rename_i m₁ heq₁
        rw [heq₁] at h₁
        have h₂ := h₁.trans ((applies_applyTags m₁ loc s.tags).trans
          (applies_applyScripts (m₁.applyTags loc s.tags) loc ((s.overrides.bind EntityOverrides.scripts).getD [])))
        split
        · rename_i m₃ err heq₃
          rw [heq₃] at h₂
          exact h₀.trans (h₂.mono (Set.empty_subset _))
        · rename_i m₃ heq₃
          rw [heq₃] at h₂
          have h₃ := h₀.trans (h₂.mono (Set.empty_subset _))
          -- The last write is to the fresh slot.
          refine ⟨h₃.toGrows.trans (.of_eq rfl), h₃.heldTransforms, fun l q hq => ?_, h₃.localOf⟩
          obtain ⟨⟨q', hq'⟩, hc⟩ := h₃.keepsCells l q hq
          obtain ⟨⟨r', hr'⟩, -⟩ := h₂.keepsCells loc r hr
          have hl : l ≠ loc := by
            rintro rfl
            rw [hfree] at hq
            cases hq
          refine ⟨⟨q', hq'⟩, ?_⟩
          rw [← hc]
          exact cells_writeTransform_of_ne m₃ s.transform (Entities.handleIndex_ne hq' hr' hl)

theorem applies_destroy (m : Mirror) (n : NetId) : Applies brings m (m.destroy n) := by
  cases hn : m.index.localOf n with
  | none =>
    simp only [destroy, resolve_of_none hn]
    exact applies_countUnknown m
  | some l =>
    simp only [destroy, resolve_of_some hn]
    exact .of_slots (Runtime.destroy_sameSlots m.rt l) rfl rfl rfl

theorem applies_reparent (m : Mirror) (n : NetId) (p : Option NetId) : Applies brings m (m.reparent n p).1 := by
  cases hn : m.index.localOf n with
  | none =>
    simp only [reparent, resolve_of_none hn]
    exact applies_countUnknown m
  | some l =>
    simp only [reparent, resolve_of_some hn]
    cases p with
    | none => exact .of_slots (Runtime.detach_sameSlots m.rt l) rfl rfl rfl
    | some q =>
      cases hq : m.index.localOf q with
      | none =>
        simp only [resolve_of_none hq]
        exact applies_countUnknown m
      | some lq =>
        simp only [resolve_of_some hq]
        split
        · exact .refl m
        · rename_i rt hrt
          exact .of_slots (Runtime.attachTo_sameSlots hrt) rfl rfl rfl

theorem applies_applySingle (m : Mirror) (op : WireSingleStructuralOp) : Applies op.brings m (m.applySingle op).1 := by
  cases op with
  | spawn s | enterInterest s => exact (applies_spawn m s).mono fun q hq => ⟨s, rfl, hq.symm⟩
  | destroy n | leaveInterest n => exact applies_destroy m n
  | reparent n p => exact applies_reparent m n p
  | tag n name added =>
    cases hn : m.index.localOf n with
    | none =>
      simp only [applySingle, resolve_of_none hn]
      exact applies_countUnknown m
    | some l =>
      simp only [applySingle, resolve_of_some hn]
      split_ifs
      · exact .of_slots (Runtime.sameSlots_of_eq rfl rfl) rfl rfl rfl
      · exact .of_slots (Runtime.sameSlots_of_eq rfl rfl) rfl rfl rfl
  | playerJoin player =>
    simp only [applySingle, joinPlayer]
    split
    · exact .of_slots (Runtime.sameSlots_of_eq rfl rfl) rfl rfl rfl
    · exact .of_slots (Runtime.sameSlots_of_eq rfl rfl) rfl rfl rfl
  | playerLeave id =>
    simp only [applySingle, leavePlayer]
    split
    · exact applies_countUnknown m
    · exact .of_slots (Runtime.sameSlots_of_eq rfl rfl) rfl rfl rfl
  | attach n a =>
    cases hn : m.index.localOf n with
    | none =>
      simp only [applySingle, resolve_of_none hn]
      exact applies_countUnknown m
    | some l =>
      simp only [applySingle, resolve_of_some hn]
      exact (applies_attach m l a).mono (Set.empty_subset _)

theorem applies_applySingles (ops : List WireSingleStructuralOp) (m : Mirror) :
    Applies {q | ∃ op ∈ ops, q ∈ op.brings} m (applySingles ops m).1 := by
  refine walk_keeps .refl .trans (fun _ => rfl) (fun _ _ _ => rfl) ops (fun op hop m => ?_) m
  exact (applies_applySingle m op).mono fun q hq => ⟨op, hop, hq⟩

theorem applies_applyStructural (m : Mirror) (op : WireStructuralOp) :
    Applies Set.univ m (m.applyStructural op).1 := by
  cases op with
  | single op => exact (applies_applySingle m op).mono (Set.subset_univ _)
  | group ops =>
    unfold applyStructural
    simp only
    split_ifs
    · exact applies_countOversized m
    · exact (applies_applySingles ops m).mono (Set.subset_univ _)

theorem applies_applyJournal (ops : List WireStructuralOp) (m : Mirror) : Applies Set.univ m (applyJournal ops m).1 :=
  walk_keeps .refl .trans (fun _ => rfl) (fun _ _ _ => rfl) ops (fun op _ m => applies_applyStructural m op) m

/-- An op that does not bring a name leaves it as it was. -/
theorem localOf_applySingle {q : NetId} {op : WireSingleStructuralOp} (m : Mirror)
    (hop : ∀ s, op.spawned = some s → s.netId ≠ q) :
    (m.applySingle op).1.index.localOf q = m.index.localOf q :=
  (applies_applySingle m op).localOf q fun ⟨s, hs, hq⟩ => hop s hs hq

theorem localOf_applySingles {q : NetId} {ops : List WireSingleStructuralOp} (m : Mirror)
    (h : ∀ op ∈ ops, ∀ s, op.spawned = some s → s.netId ≠ q) :
    (applySingles ops m).1.index.localOf q = m.index.localOf q :=
  (applies_applySingles ops m).localOf q fun ⟨op, hop, s, hs, hq⟩ => h op hop s hs hq

end applies

/-! ### The state and transform channels leave the structure alone -/

/-- Nothing `Follows` reads differs, and no counter fell. -/
structure Still (m m' : Mirror) : Prop extends Grows m m' where
  entities : m'.rt.entities = m.rt.entities
  tags : m'.rt.tags = m.rt.tags
  channels : m'.rt.channels = m.rt.channels
  index : m'.index = m.index
  pendingUnmap : m'.pendingUnmap = m.pendingUnmap

/-- The state diffs work on the host records and the counters. -/
structure Unmoved (m m' : Mirror) : Prop extends Still m m' where
  transforms : m'.rt.transforms = m.rt.transforms
  heldTransforms : m'.heldTransforms = m.heldTransforms

section still
variable {m m' m'' : Mirror}

theorem Still.refl (m : Mirror) : Still m m := ⟨Grows.refl m, rfl, rfl, rfl, rfl, rfl⟩

theorem Still.trans (h : Still m m') (h' : Still m' m'') : Still m m'' :=
  ⟨h.toGrows.trans h'.toGrows, h'.entities.trans h.entities, h'.tags.trans h.tags,
    h'.channels.trans h.channels, h'.index.trans h.index, h'.pendingUnmap.trans h.pendingUnmap⟩

theorem still_countUnknown (m : Mirror) : Still m m.countUnknown :=
  ⟨grows_countUnknown m, rfl, rfl, rfl, rfl, rfl⟩

theorem Unmoved.refl (m : Mirror) : Unmoved m m := ⟨.refl m, rfl, rfl⟩

theorem Unmoved.trans (h : Unmoved m m') (h' : Unmoved m' m'') : Unmoved m m'' :=
  ⟨h.toStill.trans h'.toStill, h'.transforms.trans h.transforms, h'.heldTransforms.trans h.heldTransforms⟩

theorem unmoved_applyField {rid : RecordId} {facade : Bool} {field : String} {value : JsonValue}
    (h : m.applyField rid facade field value = some m') : Unmoved m m' := by
  unfold applyField at h
  simp only at h
  split at h
  · cases h
  · split_ifs at h
    · split at h
      · obtain rfl := Option.some.inj h
        exact ⟨⟨.of_eq rfl, rfl, rfl, rfl, rfl, rfl⟩, rfl, rfl⟩
      · obtain rfl := Option.some.inj h
        exact ⟨⟨⟨le_rfl, le_rfl, le_rfl, le_rfl⟩, rfl, rfl, rfl, rfl, rfl⟩, rfl, rfl⟩
    · obtain rfl := Option.some.inj h
      exact ⟨⟨.of_eq rfl, rfl, rfl, rfl, rfl, rfl⟩, rfl, rfl⟩

theorem unmoved_applyFields (rid : RecordId) (facade : Bool) : ∀ (fields : List (String × JsonValue)) (m : Mirror),
    Unmoved m (applyFields rid facade fields m).1
  | [], m => Unmoved.refl m
  | (field, value) :: rest, m => by
    unfold applyFields
    split
    · exact Unmoved.refl m
    · rename_i m' h
      exact (unmoved_applyField h).trans (unmoved_applyFields rid facade rest m')

theorem unmoved_applyStateField (m : Mirror) (diff : StateDiff) : Unmoved m (m.applyStateField diff).1 := by
  have hensure : ∀ (m : Mirror) (key : HostKey), Unmoved m { m with rt.hosts := m.rt.hosts.ensure key } :=
    fun m key => ⟨⟨.of_eq rfl, rfl, rfl, rfl, rfl, rfl⟩, rfl, rfl⟩
  unfold applyStateField
  cases hhost : diff.host with
  | game | player =>
    simp only [hostKey]
    split
    · exact hensure m _
    · exact (hensure m _).trans (unmoved_applyFields _ _ _ _)
  | entity n =>
    cases hn : m.index.localOf n with
    | none =>
      simp only [hostKey, resolve_of_none hn]
      exact ⟨still_countUnknown m, rfl, rfl⟩
    | some l =>
      simp only [hostKey, resolve_of_some hn]
      split
      · exact hensure m _
      · exact (hensure m _).trans (unmoved_applyFields _ _ _ _)

theorem unmoved_applyDiffs (diffs : List StateDiff) (m : Mirror) : Unmoved m (applyDiffs diffs m).1 :=
  walk_keeps .refl .trans (fun _ => rfl) (fun _ _ _ => rfl) diffs (fun diff _ m => unmoved_applyStateField m diff) m

theorem still_writeTransform (m : Mirror) (loc : EntityId) (t : WireTransform) :
    Still m (m.writeTransform loc t) := ⟨Grows.of_eq rfl, rfl, rfl, rfl, rfl, rfl⟩

theorem still_writeDiff (m : Mirror) (diff : TransformDiff) : Still m (m.writeDiff diff) := by
  cases hn : m.index.localOf diff.netId with
  | none =>
    simp only [writeDiff, resolve_of_none hn]
    exact still_countUnknown m
  | some l =>
    simp only [writeDiff, resolve_of_some hn]
    exact still_writeTransform m l diff.transform

theorem still_writeTransforms (m : Mirror) (e : TransformEnvelope) : Still m (m.writeTransforms e) := by
  unfold writeTransforms
  induction e.transform generalizing m with
  | nil => exact Still.refl m
  | cons diff rest ih => exact (still_writeDiff m diff).trans (ih (m.writeDiff diff))

theorem still_releaseHeldTransforms (m : Mirror) (tick : ℤ) : Still m (m.releaseHeldTransforms tick) := by
  unfold releaseHeldTransforms
  split
  · exact Still.refl m
  · split_ifs
    · exact Still.refl m
    · rename_i held _ _
      have h : Still m { m with heldTransforms := none } := ⟨Grows.of_eq rfl, rfl, rfl, rfl, rfl, rfl⟩
      exact h.trans (still_writeTransforms _ held)

theorem still_applyTransforms (m : Mirror) (e : TransformEnvelope) : Still m (m.applyTransforms e) := by
  unfold applyTransforms
  split
  · exact ⟨⟨le_rfl, le_rfl, le_rfl, le_rfl⟩, rfl, rfl, rfl, rfl, rfl⟩
  · exact still_writeTransforms m e

theorem Still.follows {v : View} {A : World NetId (Set String)} (h : Still m m') (hf : Follows v m A) :
    Follows v m' A :=
  hf.of_same h.entities h.tags (by rw [h.channels]; exact hf.sound.group) h.index h.pendingUnmap

end still

/-! ### Names the mirror does not hold -/

section unheld
variable {m : Mirror} {q : NetId}

/-- A move beneath a name the mirror does not hold is dropped and counted. -/
theorem reparent_unheld {n : NetId} (h : m.index.localOf q = none) :
    m.counters.unknownNetId < (m.reparent n (some q)).1.counters.unknownNetId := by
  cases hn : m.index.localOf n with
  | none =>
    simp only [reparent, resolve_of_none hn]
    exact Nat.lt_succ_self _
  | some l =>
    simp only [reparent, resolve_of_some hn, resolve_of_none h]
    exact Nat.lt_succ_self _

/-- Such a move among ops that do not bring the name is counted, unless something threw first. -/
theorem applySingles_unheld : ∀ {ops : List WireSingleStructuralOp} {m : Mirror}, m.index.localOf q = none →
    (∀ op ∈ ops, ∀ s, op.spawned = some s → s.netId ≠ q) → (∃ n, .reparent n (some q) ∈ ops) →
    (applySingles ops m).2 = none →
    m.counters.unknownNetId < (applySingles ops m).1.counters.unknownNetId
  | [], m, _, _, hmem, _ => by
    obtain ⟨n, hmem⟩ := hmem
    cases hmem
  | op :: ops, m, hq, hops, hmem, herr => by
    have hgrow := (applies_applySingle m op).toGrows
    have hloc := localOf_applySingle m (hops op List.mem_cons_self)
    obtain ⟨n, hmem⟩ := hmem
    unfold applySingles at herr ⊢
    split at herr
    · cases herr
    · rename_i m' heq
      rw [heq] at hgrow hloc
      rcases List.mem_cons.mp hmem with rfl | hmem
      · have hlt : m.counters.unknownNetId < (m.reparent n (some q)).1.counters.unknownNetId :=
          reparent_unheld hq
        rw [show m.reparent n (some q) = (m', none) from heq] at hlt
        exact lt_of_lt_of_le hlt (applies_applySingles ops m').unknownNetId
      · exact lt_of_le_of_lt hgrow.unknownNetId (applySingles_unheld (hloc.trans hq)
          (fun op' hop' => hops op' (List.mem_cons_of_mem _ hop')) ⟨n, hmem⟩ herr)

end unheld

end Mirror

end Grove
