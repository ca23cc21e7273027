import Grove.Core.Frame
import Grove.Lib.Replica
import Grove.Sim.Replicate

/-! # The journal replays the world

`Runtime.forest` reads a runtime as an abstract `World`: its existing entities, their parents
and their tags.  Every call that changes the forest journals ops whose edits (`edits`) take the
old forest to the new one; `Advances` is that fact for any stretch of a run, and
`advances_acts`, `advances_drainDestroyed` prove it for what handlers do and for the destroy
drain.

The one call that can break it is a `tag`, `untag` or attach through the handle of an entity
that is gone: the tag index is keyed by slot, so the call lands on whatever occupies the slot,
while the op it journals names the old handle.  `Op.Names` excludes it.

A `View` says how much of a world a replica is held to: whether its tags count, and whether an
attach must name an entity that is there. -/

namespace Grove

/-- How closely a replica is watched. -/
structure View where
  /-- The tags count, and none may have the reserved prefix. -/
  tags : Bool
  /-- Tag and attach ops must name a node. -/
  strict : Bool

/-- What a tag op does to a node's tags. -/
def retagged (name : String) (added : Bool) (tags : Set String) : Set String :=
  if added then insert name tags else tags \ {name}

/-- The edit of a tag op: a change of the node, or a mention of it. -/
def tagEdits (v : View) (id : EntityId) (name : String) (added : Bool) : List (Edit EntityId (Set String)) :=
  if v.tags then [.modify id (retagged name added)] else if v.strict then [.touch id] else []

/-- The edit of one journaled op; a speech bubble is none. -/
def SingleStructuralOp.edits (v : View) : SingleStructuralOp → List (Edit EntityId (Set String))
  | .spawn id _ => [.spawn id ∅]
  | .destroy id => [.destroy id]
  | .reparent id parent => [.reparent id (if parent = noEntity then none else some parent)]
  | .tag id name added => if isSay name then [] else tagEdits v id name added
  | .attach id _ _ => if v.strict then [.touch id] else []

/-- The edits of a stretch of the journal. -/
def edits (v : View) (js : List SingleStructuralOp) : List (Edit EntityId (Set String)) :=
  js.flatMap (SingleStructuralOp.edits v)

theorem edits_append (v : View) (js js' : List SingleStructuralOp) :
    edits v (js ++ js') = edits v js ++ edits v js' := List.flatMap_append

namespace Runtime

/-- The tags of a handle's slot, if they count. -/
def shownTags (v : View) (rt : Runtime) (x : EntityId) : Set String :=
  {t | v.tags = true ∧ t ∈ rt.tags.tagsOf x}

/-- What an entity's record is to the forest. -/
def nodeOf (v : View) (rt : Runtime) (x : EntityId) (r : EntityRecord) : Option EntityId × Set String :=
  (if r.parent = noEntity then none else some r.parent, rt.shownTags v x)

/-- The existing entities, as a forest. -/
def forest (v : View) (rt : Runtime) : World EntityId (Set String) where
  node := fun x => (rt.entities.record x).map (rt.nodeOf v x)
  known := {x | (rt.entities.record x).isSome}

/-- What every call keeps. -/
structure Sound (v : View) (rt : Runtime) (doomed : List EntityId) : Prop where
  linked : rt.entities.Linked doomed
  group : rt.channels.group = none ↔ rt.channels.groupDepth = 0
  /-- No tag is filed under a slot nobody occupies. -/
  clean : ∀ i, (∀ x r, rt.entities.record x = some r → handleIndex x ≠ i) →
    v.tags = true → rt.tags.tagsAt i = []
  bound : rt.entities.table.liveCount ≤ maxEntities

/-- The second op spawns again what the first destroyed. -/
def Respawns (a b : SingleStructuralOp) : Prop := ∃ x t, a = .destroy x ∧ b = .spawn x t

/-- `js` is what was journaled between `rt` and `rt'`, and it replays what happened. -/
structure Advances (v : View) (rt rt' : Runtime) (js : List SingleStructuralOp) : Prop where
  journal : rt'.channels.journal = rt.channels.journal ++ js
  replay : (rt.forest v).run (edits v js) = some (rt'.forest v)
  issued : ∀ x, rt.entities.table.Issued x → rt'.entities.table.Issued x
  fresh : ∀ x t, .spawn x t ∈ js → ¬ rt.entities.table.Issued x ∧ rt'.entities.table.Issued x
  /-- An entity has the template and owner it was made with. -/
  labels : ∀ {x r'}, rt'.entities.record x = some r' →
    (∃ r, rt.entities.record x = some r ∧ r.template = r'.template ∧ r.ownerId = r'.ownerId) ∨
      ∃ t, .spawn x t ∈ js
  depth : rt'.channels.groupDepth = rt.channels.groupDepth
  destroyed : ∀ x, .destroy x ∈ js → rt'.entities.table.Issued x
  /-- Handles are not reused. -/
  noRespawn : js.Pairwise (fun a b => ¬ Respawns a b)

theorem new_sound (v : View) (persisted : Option SessionRecords) (facadeMembers : HostKey → List String)
    (simRate : ℚ) : Sound v (new persisted facadeMembers simRate) [] :=
  ⟨Entities.empty_linked, by simp [new, ReplicationChannels.empty], fun _ _ _ => rfl, Nat.zero_le _⟩

section advances
variable {v : View} {rt rt' rt'' : Runtime} {js js' : List SingleStructuralOp} {doomed : List EntityId}

theorem mem_shownTags {x : EntityId} {t : String} :
    t ∈ rt.shownTags v x ↔ v.tags = true ∧ t ∈ rt.tags.tagsOf x := Iff.rfl

theorem forest_node_of_record {x : EntityId} {r : EntityRecord} (h : rt.entities.record x = some r) :
    (rt.forest v).node x = some (rt.nodeOf v x r) := by
  show (rt.entities.record x).map _ = _
  rw [h]
  rfl

theorem forest_node_of_none {x : EntityId} (h : rt.entities.record x = none) :
    (rt.forest v).node x = none := by
  show (rt.entities.record x).map _ = _
  rw [h]
  rfl

/-- The forest depends on parents and shown tags alone. -/
theorem forest_congr (hrec : ∀ x, (rt'.entities.record x).map EntityRecord.parent =
      (rt.entities.record x).map EntityRecord.parent)
    (htags : ∀ x, (rt.entities.record x).isSome → rt'.shownTags v x = rt.shownTags v x) :
    rt'.forest v = rt.forest v := by
  ext1
  · funext x
    have hx := hrec x
    cases hr : rt.entities.record x with
    | none =>
      rw [hr, Option.map_none, Option.map_eq_none_iff] at hx
      rw [forest_node_of_none hr, forest_node_of_none hx]
    | some r =>
      rw [hr, Option.map_some, Option.map_eq_some_iff] at hx
      obtain ⟨r', hr', hpar⟩ := hx
      rw [forest_node_of_record hr, forest_node_of_record hr', nodeOf, nodeOf, hpar,
        htags x (by rw [hr]; rfl)]
  · ext x
    have hx := congrArg Option.isSome (hrec x)
    rw [Option.isSome_map, Option.isSome_map] at hx
    show (rt'.entities.record x).isSome = true ↔ (rt.entities.record x).isSome = true
    rw [hx]

theorem Advances.trans (h : Advances v rt rt' js) (h' : Advances v rt' rt'' js') :
    Advances v rt rt'' (js ++ js') where
  journal := by rw [h'.journal, h.journal, List.append_assoc]
  replay := by rw [edits_append, World.run_append_of_some h.replay]; exact h'.replay
  issued := fun x hx => h'.issued x (h.issued x hx)
  fresh := by
    intro x t hmem
    rcases List.mem_append.mp hmem with hmem | hmem
    · exact ⟨(h.fresh x t hmem).1, h'.issued x (h.fresh x t hmem).2⟩
    · exact ⟨fun hx => (h'.fresh x t hmem).1 (h.issued x hx), (h'.fresh x t hmem).2⟩
  labels := by
    intro x r'' hr''
    rcases h'.labels hr'' with ⟨r', hr', ht', ho'⟩ | ⟨t, hmem⟩
    · rcases h.labels hr' with ⟨r, hr, ht, ho⟩ | ⟨t, hmem⟩
      · exact Or.inl ⟨r, hr, ht.trans ht', ho.trans ho'⟩
      · exact Or.inr ⟨t, List.mem_append_left _ hmem⟩
    · exact Or.inr ⟨t, List.mem_append_right _ hmem⟩
  depth := h'.depth.trans h.depth
  destroyed := by
    intro x hmem
    rcases List.mem_append.mp hmem with hmem | hmem
    · exact h'.issued x (h.destroyed x hmem)
    · exact h'.destroyed x hmem
  noRespawn := by
    refine List.pairwise_append.mpr ⟨h.noRespawn, h'.noRespawn, ?_⟩
    rintro a ha b hb ⟨x, t, rfl, rfl⟩
    exact (h'.fresh x t hb).1 (h.destroyed x ha)

end advances

/-! ### Calls that leave the forest alone -/

/-- Nothing the forest or the journal is read from differs. -/
structure Calm (rt rt' : Runtime) : Prop where
  entities : rt'.entities = rt.entities
  tags : rt'.tags = rt.tags
  structural : rt'.channels.structural = rt.channels.structural
  group : rt'.channels.group = rt.channels.group
  groupDepth : rt'.channels.groupDepth = rt.channels.groupDepth

section calm
variable {v : View} {rt rt' : Runtime} {doomed : List EntityId}

theorem Calm.refl (rt : Runtime) : Calm rt rt := ⟨rfl, rfl, rfl, rfl, rfl⟩

theorem Calm.sound (h : Calm rt rt') (hs : Sound v rt doomed) : Sound v rt' doomed where
  linked := by rw [h.entities]; exact hs.linked
  group := by rw [h.group, h.groupDepth]; exact hs.group
  clean := by rw [h.entities, h.tags]; exact hs.clean
  bound := by rw [h.entities]; exact hs.bound

/-- Where entities, tags and journal are the same, nothing happened to the forest. -/
theorem advances_nil (he : rt'.entities = rt.entities) (ht : rt'.tags = rt.tags)
    (hj : rt'.channels.journal = rt.channels.journal)
    (hd : rt'.channels.groupDepth = rt.channels.groupDepth) : Advances v rt rt' [] where
  journal := by rw [hj, List.append_nil]
  replay := by
    have heq : rt'.forest v = rt.forest v := by
      unfold forest nodeOf shownTags
      rw [he, ht]
    rw [heq]
    rfl
  issued := by
    rw [he]
    exact fun x hx => hx
  fresh := by
    intro x t hmem
    cases hmem
  labels := by
    rw [he]
    exact fun hr => Or.inl ⟨_, hr, rfl, rfl⟩
  depth := hd
  destroyed := by
    intro x hmem
    cases hmem
  noRespawn := List.Pairwise.nil

theorem Calm.advances (h : Calm rt rt') : Advances v rt rt' [] := by
  refine advances_nil h.entities h.tags ?_ h.groupDepth
  rw [ReplicationChannels.journal, h.structural, h.group]
  rfl

theorem attach_calm (rt : Runtime) (key : HostKey) (klass : ScriptClass) (inst : ScriptInstance) :
    Calm rt (rt.attach key klass inst).1 := by
  obtain ⟨hosts, instances, h⟩ := (attach_hosted rt key klass inst).others
  rw [h]
  exact ⟨rfl, rfl, rfl, rfl, rfl⟩

theorem writeState_calm (rt : Runtime) (rid : RecordId) (field : String) (w : FieldValue) :
    Calm rt (rt.writeState rid field w) := by
  unfold writeState
  split_ifs
  · exact ⟨rfl, rfl, rfl, rfl, rfl⟩
  · exact Calm.refl rt

end calm

/-! ### Calls that journal one op -/

section calls
variable {v : View} {rt : Runtime} {doomed : List EntityId}

theorem group_markStructural (hs : Sound v rt doomed) (op : SingleStructuralOp) :
    (rt.channels.markStructural op).group = none ↔ (rt.channels.markStructural op).groupDepth = 0 := by
  unfold ReplicationChannels.markStructural
  cases h : rt.channels.group with
  | none =>
    simp only [true_iff]
    exact hs.group.mp h
  | some ops =>
    simp only [reduceCtorEq, false_iff]
    intro hd
    rw [hs.group.mpr hd] at h
    cases h

theorem groupDepth_markStructural (c : ReplicationChannels) (op : SingleStructuralOp) :
    (c.markStructural op).groupDepth = c.groupDepth := by
  unfold ReplicationChannels.markStructural
  split <;> rfl

/-- The slot of a fresh handle was free, so no tag is filed under it. -/
theorem shownTags_of_create (hs : Sound v rt doomed) {template ownerId : String} {id : EntityId}
    {e' : Entities} (hc : rt.entities.create template ownerId = .ok (id, e')) : rt.shownTags v id = ∅ := by
  have hrec := Entities.record_create hc
  have hnone := Entities.record_of_create hc
  have hfree : ∀ z r, rt.entities.record z = some r → handleIndex z ≠ handleIndex id := by
    intro z r hz hi
    have hz' : e'.record z = some r := by
      rw [hrec, if_neg (by rintro rfl; rw [hnone] at hz; cases hz), hz]
    have hid' : e'.table.record id = _ := (hrec id).trans (if_pos rfl)
    have hzid : z = id := e'.table.eq_of_handleIndex_eq
      (by rw [show e'.table.record z = some r from hz']; rfl) (by rw [hid']; rfl) hi
    rw [hzid, hnone] at hz
    cases hz
  ext t
  simp only [Set.mem_empty_iff_false, iff_false]
  intro ht
  have hnil : rt.tags.tagsOf id = [] := hs.clean _ hfree ht.1
  have hmem := ht.2
  rw [hnil] at hmem
  cases hmem

theorem spawn_advances (hs : Sound v rt doomed) {template ownerId : String} {x y : JsNumber} {id : EntityId}
    {rt' : Runtime} (h : rt.spawn template x y ownerId = .ok (id, rt')) :
    Sound v rt' doomed ∧ Advances v rt rt' [.spawn id template] := by
  unfold spawn at h
  split at h
  · cases h
  · rename_i id₀ e' hc
    obtain ⟨rfl, rfl⟩ := Prod.mk.inj (Except.ok.inj h)
    have hrec := Entities.record_create hc
    have hnone := Entities.record_of_create hc
    have htags : rt.shownTags v id₀ = ∅ := shownTags_of_create hs hc
    have hbound : e'.table.liveCount ≤ maxEntities := by
      rw [SlotTable.liveCount_create (Entities.create_eq_ok hc).2.2]
      exact (Entities.create_eq_ok hc).1
    refine ⟨⟨hs.linked.create hc, group_markStructural hs _, ?_, hbound⟩, ?_, ?_, ?_, ?_, ?_,
      groupDepth_markStructural _ _, (fun x hmem => by simp at hmem), List.pairwise_singleton _ _⟩
    · intro i hi
      refine hs.clean i (fun z r hz => hi z r ?_)
      show e'.record z = some r
      rw [hrec, if_neg (by rintro rfl; rw [hnone] at hz; cases hz), hz]
    · exact ReplicationChannels.journal_markStructural _ _
    · show World.run _ [Edit.spawn id₀ ∅] = _
      rw [World.run_singleton]
      simp only [World.step]
      rw [if_pos ⟨forest_node_of_none hnone, by
        show ¬ (rt.entities.record id₀).isSome = true
        rw [hnone]; simp⟩]
      congr 1
      ext1
      · funext z
        show Function.update (rt.forest v).node id₀ (some (none, ∅)) z = (e'.record z).map _
        rw [hrec]
        by_cases hz : z = id₀
        · rw [hz, Function.update_self, if_pos rfl]
          show some (none, ∅) = some (none, rt.shownTags v id₀)
          rw [htags]
        · rw [Function.update_of_ne hz, if_neg hz]
          rfl
      · ext z
        show z ∈ insert id₀ _ ↔ (e'.record z).isSome = true
        rw [hrec, Set.mem_insert_iff]
        by_cases hz : z = id₀
        · simp [hz]
        · simp only [hz, false_or]
          exact Iff.rfl
    · intro z hz
      exact (SlotTable.issued_create (Entities.create_eq_ok hc).2.2 z).mpr (Or.inl hz)
    · intro z t hmem
      rw [List.mem_singleton] at hmem
      obtain ⟨rfl, -⟩ := SingleStructuralOp.spawn.inj hmem
      exact ⟨SlotTable.not_issued_of_create (Entities.create_eq_ok hc).2.2,
        (SlotTable.issued_create (Entities.create_eq_ok hc).2.2 z).mpr (Or.inr rfl)⟩
    · intro z r' hz
      have hz' : e'.record z = some r' := hz
      rw [hrec] at hz'
      by_cases hzid : z = id₀
      · exact Or.inr ⟨template, by rw [hzid]; exact List.mem_singleton_self _⟩
      · rw [if_neg hzid] at hz'
        exact Or.inl ⟨r', hz', rfl, rfl⟩

/-- Destroying marks records dead; the forest is the existing ones, dead or not. -/
theorem destroy_advances (hs : Sound v rt doomed) (id : EntityId) :
    Sound v (rt.destroy id) doomed ∧ Advances v rt (rt.destroy id) [] := by
  obtain ⟨killed, hk⟩ := rt.entities.destroy_cascaded id
  have hpar : ∀ x, ((rt.destroy id).entities.record x).map EntityRecord.parent =
      (rt.entities.record x).map EntityRecord.parent := by
    intro x
    show ((rt.entities.destroy id).record x).map _ = _
    rw [hk.record]
    split_ifs
    · cases rt.entities.record x <;> rfl
    · rfl
  refine ⟨⟨hs.linked.destroy id, hs.group, ?_, hk.liveCount.le.trans hs.bound⟩, ?_, ?_, ?_, ?_, ?_, rfl,
    (fun x hmem => by cases hmem), List.Pairwise.nil⟩
  · intro i hi
    refine hs.clean i (fun x r hx => ?_)
    obtain ⟨r', hr', -⟩ := hk.toKilled.record_some hx
    exact hi x r' hr'
  · exact (List.append_nil _).symm
  · rw [show (rt.destroy id).forest v = rt.forest v from forest_congr hpar (fun _ _ => rfl)]
    rfl
  · exact fun x hx => (hk.issued x).mpr hx
  · intro x t hmem
    cases hmem
  · intro x r' hr'
    obtain ⟨r, hr, ht, ho, -⟩ := hk.toKilled.record_of_some hr'
    exact Or.inl ⟨r, hr, ht.symm, ho.symm⟩

/-- What lies above an existing entity in the forest is on its chain to the root. -/
theorem mem_chain_of_below {z x : EntityId} {l : List EntityId} (hb : (rt.forest v).Below z x)
    (hz : z ≠ noEntity) (hl : Entities.Chain rt.entities.parentOf z l) : x ∈ l := by
  induction hb using Relation.ReflTransGen.head_induction_on generalizing l with
  | refl =>
    cases hl with
    | root => exact absurd rfl hz
    | step _ _ => exact List.mem_cons_self
  | @head a b hab _ ih =>
    obtain ⟨d, hd⟩ := hab
    cases hr : rt.entities.record a with
    | none =>
      rw [forest_node_of_none hr] at hd
      cases hd
    | some r =>
      rw [forest_node_of_record hr, nodeOf] at hd
      have hpar := congrArg Prod.fst (Option.some.inj hd)
      simp only at hpar
      split_ifs at hpar with h0
      obtain rfl := Option.some.inj hpar
      cases hl with
      | root => exact absurd rfl hz
      | step _ hl =>
        rw [Entities.parentOf_of_record hr] at hl
        exact List.mem_cons_of_mem _ (ih h0 hl)

/-- A move and the reparent it journals. -/
theorem moved_advances (hs : Sound v rt doomed) {e' : Entities} {id new : EntityId} {r : EntityRecord}
    (hm : Entities.Moved rt.entities e' id new r) (hne : new ≠ id)
    (htarget : new = noEntity ∨ ∃ p, rt.entities.record new = some p ∧ p.alive = true)
    (hroot : Entities.Rooted (Function.update rt.entities.parentOf id new) new)
    (hapart : new ≠ noEntity → ¬ (rt.forest v).Below new id) :
    Sound v { rt with entities := e', channels := rt.channels.markStructural (.reparent id new) } doomed ∧
      Advances v rt { rt with entities := e', channels := rt.channels.markStructural (.reparent id new) }
        [.reparent id new] := by
  have hexists : ∀ {z q}, rt.entities.record z = some q → ∃ q', e'.record z = some q' := by
    intro z q hz
    by_cases hzid : z = id
    · exact ⟨_, by rw [hzid]; exact hm.self⟩
    · exact ⟨_, hm.record_other hzid hz⟩
  refine ⟨⟨hs.linked.move hm hne htarget hroot, group_markStructural hs _, ?_,
    hm.liveCount.le.trans hs.bound⟩, ?_, ?_, ?_, ?_, ?_,
    groupDepth_markStructural _ _, (fun x hmem => by simp at hmem), List.pairwise_singleton _ _⟩
  · intro i hi
    refine hs.clean i (fun x q hx => ?_)
    obtain ⟨q', hq'⟩ := hexists hx
    exact hi x q' hq'
  · exact ReplicationChannels.journal_markStructural _ _
  · show World.run _ [Edit.reparent id (if new = noEntity then none else some new)] = _
    rw [World.run_singleton]
    simp only [World.step]
    rw [forest_node_of_record hm.existed]
    simp only
    rw [if_pos]
    · congr 1
      ext1
      · funext z
        show Function.update (rt.forest v).node id _ z = (e'.record z).map _
        by_cases hzid : z = id
        · rw [hzid, Function.update_self, hm.self]
          rfl
        · rw [Function.update_of_ne hzid]
          cases hz : rt.entities.record z with
          | none =>
            have hz' : e'.record z = none := by
              by_cases hz0 : z = noEntity
              · rw [hz0]
                exact e'.table.record_zero
              · rw [hm.other z hzid hz0, hz]
                rfl
            rw [forest_node_of_none hz, hz']
            rfl
          | some q =>
            rw [forest_node_of_record hz, hm.record_other hzid hz]
            rfl
      · ext z
        show (rt.entities.record z).isSome = true ↔ (e'.record z).isSome = true
        have hal := congrArg Option.isSome (hm.alive z)
        rw [Option.isSome_map, Option.isSome_map] at hal
        rw [hal]
    · intro q hq
      split_ifs at hq with h0
      · cases hq
      · rw [Option.mem_def, Option.some.injEq] at hq
        subst hq
        obtain ⟨p, hp, -⟩ := htarget.resolve_left h0
        exact ⟨by rw [forest_node_of_record hp]; rfl, hapart h0⟩
  · exact fun x hx => (hm.issued x).mpr hx
  · intro x t hmem
    rw [List.mem_singleton] at hmem
    cases hmem
  · intro x q' hq'
    rcases hm.record_of hq' with ⟨rfl, rfl⟩ | ⟨-, q, hq, rfl⟩
    · exact Or.inl ⟨r, hm.existed, rfl, rfl⟩
    · exact Or.inl ⟨q, hq, rfl, rfl⟩

theorem attachTo_advances (hs : Sound v rt doomed) {id parent : EntityId} {rt' : Runtime}
    (h : rt.attachTo id parent = .ok rt') : Sound v rt' doomed ∧ ∃ js, Advances v rt rt' js := by
  unfold attachTo at h
  split at h
  · cases h
  · obtain rfl := Except.ok.inj h
    exact ⟨hs, [], (Calm.refl _).advances⟩
  · rename_i e' he'
    obtain rfl := Except.ok.inj h
    obtain ⟨r, p, l, hp, hal, hl, hnot, hne, hm, hroot⟩ := Entities.attachTo_moved hs.linked.toShape he'
    have hadv := moved_advances hs hm hne (Or.inr ⟨p, hp, hal⟩) hroot
      (fun h0 hbelow => hnot (mem_chain_of_below hbelow h0 hl))
    exact ⟨hadv.1, _, hadv.2⟩

theorem detach_advances (hs : Sound v rt doomed) (id : EntityId) :
    Sound v (rt.detach id) doomed ∧ ∃ js, Advances v rt (rt.detach id) js := by
  unfold detach
  cases hr : rt.entities.record id with
  | none =>
    have hu : rt.entities.unlink id = (false, rt.entities) := by simp only [Entities.unlink, hr]
    rw [hu]
    exact ⟨hs, [], (Calm.refl _).advances⟩
  | some r =>
    by_cases hpar : r.parent = noEntity
    · rw [Entities.unlink_root hr hpar]
      exact ⟨hs, [], (Calm.refl _).advances⟩
    · have hm := Entities.unlink_moved hr (hs.linked.parent_ne hr)
      rw [Entities.unlink_parented hr hpar] at hm ⊢
      have hadv := moved_advances hs hm (Ne.symm (Entities.ne_noEntity_of_record hr)) (Or.inl rfl)
        Entities.Rooted.root (fun h => absurd rfl h)
      exact ⟨hadv.1, _, hadv.2⟩

/-- `tag` and `untag`, as one call. -/
def retag (rt : Runtime) (id : EntityId) (name : String) (added : Bool) : Runtime :=
  { rt with
    tags := if added then rt.tags.add id name else rt.tags.remove id name
    channels := rt.channels.markStructural (.tag id name added) }

theorem mem_tagsAt_retag {id : EntityId} {name t : String} {added : Bool} {i : ℕ} :
    t ∈ (rt.retag id name added).tags.tagsAt i ↔
      if i = handleIndex id ∧ t = name then added = true else t ∈ rt.tags.tagsAt i := by
  unfold retag
  cases added with
  | true =>
    rw [if_pos rfl, TagIndex.mem_tagsAt_add]
    split_ifs with h <;> simp [h]
  | false =>
    rw [if_neg Bool.false_ne_true, TagIndex.mem_tagsAt_remove]
    split_ifs with h <;> simp [h]

/-- A journaled op without an edit, on a forest that stays. -/
theorem advances_of_forest_eq {rt' : Runtime} {op : SingleStructuralOp} (he : rt'.entities = rt.entities)
    (hc : rt'.channels = rt.channels.markStructural op) (hf : rt'.forest v = rt.forest v)
    (hop : (rt.forest v).run (edits v [op]) = some (rt.forest v)) (hspawn : ∀ x t, op ≠ .spawn x t)
    (hdestroy : ∀ x, op ≠ .destroy x) : Advances v rt rt' [op] where
  journal := by rw [hc]; exact ReplicationChannels.journal_markStructural _ _
  replay := by rw [hf]; exact hop
  issued := by rw [he]; exact fun x hx => hx
  fresh := by
    intro x t hmem
    exact absurd (List.mem_singleton.mp hmem).symm (hspawn x t)
  labels := by
    rw [he]
    exact fun hr => Or.inl ⟨_, hr, rfl, rfl⟩
  depth := by rw [hc]; exact groupDepth_markStructural _ _
  destroyed := by
    intro x hmem
    exact absurd (List.mem_singleton.mp hmem).symm (hdestroy x)
  noRespawn := List.pairwise_singleton _ _

/-- A tag op through a handle that exists leaves every other entity's tags alone. -/
theorem tagsOf_retag_of_ne {id z : EntityId} {name : String} {added : Bool}
    (hid : (rt.entities.record id).isSome) (hz : (rt.entities.record z).isSome) (hne : z ≠ id) :
    (rt.retag id name added).shownTags v z = rt.shownTags v z := by
  have hi : handleIndex z ≠ handleIndex id := fun he =>
    hne (rt.entities.table.eq_of_handleIndex_eq hz hid he)
  ext t
  rw [mem_shownTags, mem_shownTags, TagIndex.tagsOf, TagIndex.tagsOf, mem_tagsAt_retag,
    if_neg (fun h => hi h.1)]

theorem shownTags_retag_self {id : EntityId} {name : String} {added : Bool} (hv : v.tags = true) :
    (rt.retag id name added).shownTags v id = retagged name added (rt.shownTags v id) := by
  ext t
  rw [mem_shownTags, TagIndex.tagsOf, mem_tagsAt_retag]
  unfold retagged
  cases added with
  | true =>
    simp only [if_true, Set.mem_insert_iff, mem_shownTags, true_and, hv]
    split_ifs with ht
    · simp [ht]
    · simp only [ht, false_or]; exact Iff.rfl
  | false =>
    simp only [Bool.false_eq_true, if_false, Set.mem_sdiff, Set.mem_singleton_iff, mem_shownTags,
      true_and, hv]
    split_ifs with ht
    · simp [ht]
    · simp only [ht, not_false_eq_true, and_true]; exact Iff.rfl

/-- Where tags do not count, no tag op shows. -/
theorem forest_retag_of_not (hv : ¬ v.tags = true) (id : EntityId) (name : String) (added : Bool) :
    (rt.retag id name added).forest v = rt.forest v := by
  refine forest_congr (fun _ => rfl) (fun x _ => ?_)
  ext t
  simp [mem_shownTags, hv]

theorem retag_sound (hs : Sound v rt doomed) {id : EntityId} {name : String} (added : Bool)
    (hid : v.tags = true → (rt.entities.record id).isSome) : Sound v (rt.retag id name added) doomed := by
  refine ⟨hs.linked, group_markStructural hs _, fun i hi hv => ?_, hs.bound⟩
  rw [List.eq_nil_iff_forall_not_mem]
  intro t ht
  rw [mem_tagsAt_retag] at ht
  split_ifs at ht with h
  · obtain ⟨r, hr⟩ := Option.isSome_iff_exists.mp (hid hv)
    exact hi id r hr h.1.symm
  · rw [hs.clean i hi hv] at ht
    cases ht

theorem retag_advances (hs : Sound v rt doomed) {id : EntityId} {name : String} (added : Bool)
    (hplain : v.tags = true → isSay name = false)
    (hid : v.tags = true ∨ v.strict = true → isSay name = false → (rt.entities.record id).isSome) :
    Sound v (rt.retag id name added) doomed ∧
      Advances v rt (rt.retag id name added) [.tag id name added] := by
  refine ⟨retag_sound hs added (fun hv => hid (Or.inl hv) (hplain hv)), ?_⟩
  by_cases hv : v.tags = true
  · obtain ⟨r, hr⟩ := Option.isSome_iff_exists.mp (hid (Or.inl hv) (hplain hv))
    have hedit : edits v [.tag id name added] = [.modify id (retagged name added)] := by
      simp [edits, SingleStructuralOp.edits, tagEdits, hplain hv, hv]
    refine ⟨ReplicationChannels.journal_markStructural _ _, ?_, fun _ hx => hx, ?_,
      fun hr' => Or.inl ⟨_, hr', rfl, rfl⟩, groupDepth_markStructural _ _,
      (fun x hmem => by simp at hmem), List.pairwise_singleton _ _⟩
    · rw [hedit, World.run_singleton]
      simp only [World.step]
      rw [forest_node_of_record hr]
      simp only [nodeOf]
      congr 1
      ext1
      · funext z
        show Function.update (rt.forest v).node id _ z = (rt.entities.record z).map _
        by_cases hz : z = id
        · rw [hz, Function.update_self, hr, ← shownTags_retag_self hv]
          rfl
        · rw [Function.update_of_ne hz]
          cases hrz : rt.entities.record z with
          | none => exact forest_node_of_none hrz
          | some q =>
            rw [forest_node_of_record hrz, nodeOf,
              ← tagsOf_retag_of_ne (by rw [hr]; rfl) (by rw [hrz]; rfl) hz]
            rfl
      · rfl
    · intro x t hmem
      rw [List.mem_singleton] at hmem
      cases hmem
  · refine advances_of_forest_eq rfl rfl (forest_retag_of_not hv id name added) ?_ (fun _ _ => by simp)
      (fun _ => by simp)
    by_cases hsay : isSay name = true ∨ v.strict = false
    · have hnil : edits v [.tag id name added] = [] := by
        rcases hsay with hsay | hsay <;> simp [edits, SingleStructuralOp.edits, tagEdits, hsay, hv]
      rw [hnil]
      rfl
    · rw [not_or, Bool.not_eq_true, Bool.not_eq_false] at hsay
      have htouch : edits v [.tag id name added] = [.touch id] := by
        simp [edits, SingleStructuralOp.edits, tagEdits, hsay, hv]
      obtain ⟨r, hr⟩ := Option.isSome_iff_exists.mp (hid (Or.inr hsay.2) hsay.1)
      rw [htouch, World.run_singleton]
      simp only [World.step]
      rw [if_pos (by rw [forest_node_of_record hr]; rfl)]

theorem markStructural_sound (hs : Sound v rt doomed) (op : SingleStructuralOp) :
    Sound v (rt.markStructural op) doomed :=
  ⟨hs.linked, group_markStructural hs op, hs.clean, hs.bound⟩

/-- A bubble is in the journal and in no forest. -/
theorem bubble_advances (id : EntityId) (text : String) (added : Bool) :
    Advances v rt (rt.markStructural (.tag id ("say:" ++ text) added)) [.tag id ("say:" ++ text) added] := by
  have hsay : isSay ("say:" ++ text) = true := by
    simp [isSay]
  have hnil : edits v [.tag id ("say:" ++ text) added] = [] := by
    simp [edits, SingleStructuralOp.edits, hsay]
  exact advances_of_forest_eq rfl rfl rfl (by rw [hnil]; rfl) (fun _ _ => by simp) (fun _ => by simp)

theorem attach_advances (id : EntityId) (script : ScriptId) (props : Option ScriptProps)
    (hid : v.strict = true → (rt.entities.record id).isSome) :
    Advances v rt (rt.markStructural (.attach id script props)) [.attach id script props] := by
  refine advances_of_forest_eq rfl rfl rfl ?_ (fun _ _ => by simp) (fun _ => by simp)
  cases hv : v.strict with
  | false =>
    have hnil : edits v [.attach id script props] = [] := by
      simp [edits, SingleStructuralOp.edits, hv]
    rw [hnil]
    rfl
  | true =>
    have htouch : edits v [.attach id script props] = [.touch id] := by
      simp [edits, SingleStructuralOp.edits, hv]
    obtain ⟨r, hr⟩ := Option.isSome_iff_exists.mp (hid hv)
    rw [htouch, World.run_singleton]
    simp only [World.step]
    rw [if_pos (by rw [forest_node_of_record hr]; rfl)]

end calls

end Runtime

end Grove
