import Grove.Lib.Run
import Grove.Sim.Journal

/-! # Handlers and the destroy drain replay too

From one call (`step_advances`) to whatever a handler does (`acts_advances`) and to the destroy
drain (`drainDestroyed_advances`).  The drain tears its entities down one at a time, so between
two of them a child may name a parent that is gone and the forest is no forest; the drain as a
whole prunes the doomed, all at once, because their subtrees are doomed with them. -/

namespace Grove

namespace Runtime

/-- The call names an entity that is there, where its op would name it to a replica. -/
def Op.Names (v : View) (rt : Runtime) : Op → Prop
  | .tag id name | .untag id name =>
    (v.tags = true → isSay name = false) ∧
      (v.tags = true ∨ v.strict = true → isSay name = false → (rt.entities.record id).isSome)
  | .attachToEntity id _ inst => v.strict = true → inst.script.isSome → (rt.entities.record id).isSome
  | _ => True

/-- Every call of a group, up to the one that throws, meets `P` where it is made. -/
def OpsMeet (P : Runtime → Op → Prop) : List Op → Runtime → Prop
  | [], _ => True
  | op :: ops, rt => P rt op ∧ ((rt.step op).2 = false → OpsMeet P ops (rt.step op).1)

/-- Every call of an act meets `P` where it is made. -/
def ActMeets (P : Runtime → Op → Prop) (rt : Runtime) : Act → Prop
  | .op op => P rt op
  | .group ops => OpsMeet P ops { rt with channels := rt.channels.beginGroup }

instance OpsMeet.decidable (P : Runtime → Op → Prop) [∀ rt op, Decidable (P rt op)] :
    ∀ ops rt, Decidable (OpsMeet P ops rt)
  | [], _ => inferInstanceAs (Decidable True)
  | op :: ops, rt =>
    have := OpsMeet.decidable P ops (rt.step op).1
    inferInstanceAs (Decidable (P rt op ∧ ((rt.step op).2 = false → OpsMeet P ops (rt.step op).1)))

instance ActMeets.decidable (P : Runtime → Op → Prop) [∀ rt op, Decidable (P rt op)] (rt : Runtime) :
    ∀ a, Decidable (ActMeets P rt a)
  | .op op => inferInstanceAs (Decidable (P rt op))
  | .group ops => inferInstanceAs (Decidable (OpsMeet P ops { rt with channels := rt.channels.beginGroup }))

/-- The calls an act may make. -/
def Act.ops : Act → List Op
  | .op call => [call]
  | .group calls => calls

section mono
variable {P Q : Runtime → Op → Prop}

theorem OpsMeet.mono : ∀ (ops : List Op) {rt : Runtime}, (∀ rt, ∀ op ∈ ops, P rt op → Q rt op) →
    OpsMeet P ops rt → OpsMeet Q ops rt
  | [], _, _, _ => trivial
  | op :: ops, rt, hPQ, h =>
    ⟨hPQ rt op List.mem_cons_self h.1, fun ht =>
      OpsMeet.mono ops (fun rt op hop => hPQ rt op (List.mem_cons_of_mem _ hop)) (h.2 ht)⟩

theorem ActMeets.mono {rt : Runtime} {a : Act} (hPQ : ∀ rt, ∀ op ∈ a.ops, P rt op → Q rt op)
    (h : ActMeets P rt a) : ActMeets Q rt a := by
  cases a with
  | op op => exact hPQ rt op (List.mem_singleton_self op) h
  | group ops => exact OpsMeet.mono ops hPQ h

theorem actsMeet_mono : ∀ (as : List Act) {rt : Runtime},
    (∀ rt, ∀ a ∈ as, ∀ op ∈ a.ops, P rt op → Q rt op) →
    Meets act (ActMeets P) rt as → Meets act (ActMeets Q) rt as
  | [], _, _, _ => trivial
  | a :: as, _, hPQ, h =>
    ⟨h.1.mono (fun rt => hPQ rt a List.mem_cons_self),
      actsMeet_mono as (fun rt a' ha' => hPQ rt a' (List.mem_cons_of_mem _ ha')) h.2⟩

end mono

/-- The forest without tags. -/
def bare : View := ⟨false, false⟩

/-- Without tags, every call names what it may. -/
theorem actMeets_bare (rt : Runtime) (a : Act) : ActMeets (fun rt op => op.Names bare rt) rt a := by
  have hop : ∀ rt op, Op.Names bare rt op := by
    intro rt op
    cases op <;> simp [Op.Names, bare]
  have hops : ∀ ops rt, OpsMeet (fun rt op => op.Names bare rt) ops rt := by
    intro ops
    induction ops with
    | nil => exact fun _ => trivial
    | cons op ops ih => exact fun rt => ⟨hop rt op, fun _ => ih _⟩
  cases a with
  | op op => exact hop rt op
  | group ops => exact hops ops _

theorem actsMeet_bare (as : List Act) (rt : Runtime) :
    Meets act (ActMeets (fun rt op => op.Names bare rt)) rt as := by
  induction as generalizing rt with
  | nil => trivial
  | cons a as ih => exact ⟨actMeets_bare rt a, ih _⟩

section acts
variable {v : View} {rt : Runtime} {doomed : List EntityId}

theorem Sound.beginGroup (hs : Sound v rt doomed) :
    Sound v { rt with channels := rt.channels.beginGroup } doomed := by
  refine ⟨hs.linked, ?_, hs.clean, hs.bound⟩
  simp only [ReplicationChannels.beginGroup]
  split_ifs with h
  · simp
  · simpa [h] using hs.group

theorem Sound.endGroup (hs : Sound v rt doomed) :
    Sound v { rt with channels := rt.channels.endGroup } doomed := by
  refine ⟨hs.linked, ?_, hs.clean, hs.bound⟩
  simp only [ReplicationChannels.endGroup]
  split_ifs with h0 h1
  · exact hs.group
  · have hg := hs.group
    simp only [h0, iff_false] at hg
    simp only [hg, false_iff]
    omega
  · simp

theorem groupDepth_endGroup (c : ReplicationChannels) : c.endGroup.groupDepth = c.groupDepth - 1 := by
  unfold ReplicationChannels.endGroup
  split_ifs with h0 h1
  · omega
  · rfl
  · show 0 = _
    omega

/-- One call journals what it does to the forest. -/
theorem step_advances (hs : Sound v rt doomed) (op : Op) (hop : op.Names v rt) :
    Sound v (rt.step op).1 doomed ∧ ∃ js, Advances v rt (rt.step op).1 js := by
  have hcalm : ∀ {rt'}, Calm rt rt' → Sound v rt' doomed ∧ ∃ js, Advances v rt rt' js :=
    fun h => ⟨h.sound hs, [], h.advances⟩
  cases op with
  | spawn template x y ownerId =>
    simp only [step]
    split
    · rename_i id rt' h
      exact ⟨(spawn_advances hs h).1, _, (spawn_advances hs h).2⟩
    · exact hcalm (Calm.refl rt)
  | destroy id => exact ⟨(destroy_advances hs id).1, _, (destroy_advances hs id).2⟩
  | attachTo id parent =>
    simp only [step]
    split
    · rename_i rt' h
      exact attachTo_advances hs h
    · exact hcalm (Calm.refl rt)
  | detach id => exact detach_advances hs id
  | tag id name =>
    have h := retag_advances hs true hop.1 hop.2
    exact ⟨h.1, _, h.2⟩
  | untag id name =>
    have h := retag_advances hs false hop.1 hop.2
    exact ⟨h.1, _, h.2⟩
  | bubble id text added => exact ⟨markStructural_sound hs _, _, bubble_advances id text added⟩
  | setPosition | setRotation | setScale | setOpacity | setLayer => exact hcalm ⟨rfl, rfl, rfl, rfl, rfl⟩
  | writeState rid field w => exact hcalm (writeState_calm rt rid field w)
  | ensureHost key => exact hcalm ⟨rfl, rfl, rfl, rfl, rfl⟩
  | attachToEntity id klass inst =>
    have hc := attach_calm rt (.entity id) klass inst
    simp only [step, attachToEntity]
    split
    · rename_i rt' err heq
      rw [heq] at hc
      exact hcalm hc
    · rename_i rt' heq
      rw [heq] at hc
      cases hi : inst.script with
      | none => exact hcalm hc
      | some script =>
        have hadv : Advances v rt' (rt'.markStructural (.attach id script inst.props))
            [.attach id script inst.props] := by
          refine attach_advances id script inst.props (fun hv => ?_)
          rw [hc.entities]
          exact hop hv (by rw [hi]; rfl)
        exact ⟨markStructural_sound (hc.sound hs) _, _, hc.advances.trans hadv⟩
  | attach key klass inst => exact hcalm (attach_calm rt key klass inst)

theorem stepAll_advances : ∀ (ops : List Op) {rt : Runtime}, Sound v rt doomed →
    OpsMeet (fun rt op => op.Names v rt) ops rt →
    Sound v (stepAll ops rt) doomed ∧ ∃ js, Advances v rt (stepAll ops rt) js
  | [], rt, hs, _ => ⟨hs, [], (Calm.refl rt).advances⟩
  | op :: ops, rt, hs, hops => by
    obtain ⟨hs', js, hadv⟩ := step_advances hs op hops.1
    unfold stepAll
    split
    · rename_i rt' heq
      rw [heq] at hs' hadv
      have hrest := hops.2 (by rw [heq])
      rw [heq] at hrest
      obtain ⟨hs'', js', hadv'⟩ := stepAll_advances ops hs' hrest
      exact ⟨hs'', _, hadv.trans hadv'⟩
    · rename_i rt' heq
      rw [heq] at hs' hadv
      exact ⟨hs', js, hadv⟩

theorem act_advances (hs : Sound v rt doomed) (a : Act) (ha : ActMeets (fun rt op => op.Names v rt) rt a) :
    Sound v (rt.act a) doomed ∧ ∃ js, Advances v rt (rt.act a) js := by
  cases a with
  | op op => exact step_advances hs op ha
  | group ops =>
    obtain ⟨hs', js, hadv⟩ := stepAll_advances ops hs.beginGroup ha
    refine ⟨hs'.endGroup, js, ?_, hadv.replay, hadv.issued, hadv.fresh, hadv.labels, ?_,
      hadv.destroyed, hadv.noRespawn⟩
    · calc (stepAll ops { rt with channels := rt.channels.beginGroup }).channels.endGroup.journal
          = (stepAll ops { rt with channels := rt.channels.beginGroup }).channels.journal :=
            ReplicationChannels.journal_endGroup _
        _ = rt.channels.beginGroup.journal ++ js := hadv.journal
        _ = rt.channels.journal ++ js := by rw [ReplicationChannels.journal_beginGroup _ hs.group]
    · have hd : (stepAll ops { rt with channels := rt.channels.beginGroup }).channels.groupDepth =
          rt.channels.groupDepth + 1 := hadv.depth
      show (stepAll ops { rt with channels := rt.channels.beginGroup }).channels.endGroup.groupDepth = _
      rw [groupDepth_endGroup, hd]
      omega

/-- Whatever a handler does, the journal replays it. -/
theorem acts_advances : ∀ (as : List Act) {rt : Runtime}, Sound v rt doomed →
    Meets act (ActMeets (fun rt op => op.Names v rt)) rt as →
    Sound v (rt.acts as) doomed ∧ ∃ js, Advances v rt (rt.acts as) js
  | [], rt, hs, _ => ⟨hs, [], (Calm.refl rt).advances⟩
  | a :: as, rt, hs, h => by
    obtain ⟨hs', js, hadv⟩ := act_advances hs a h.1
    obtain ⟨hs'', js', hadv'⟩ := acts_advances as hs' h.2
    exact ⟨hs'', _, hadv.trans hadv'⟩

end acts

/-! ### The destroy drain -/

/-- `rt'` is `rt` with the entities `ds` torn down. -/
structure TornDown (v : View) (rt rt' : Runtime) (ds : List EntityId) : Prop where
  tearing : rt'.entities.Tearing []
  pending : rt'.entities.pendingDestroy = rt.entities.pendingDestroy
  gone : ∀ x ∈ ds, rt'.entities.record x = none
  kept : ∀ {x r}, x ∉ ds → rt.entities.record x = some r → ∃ r', rt'.entities.record x = some r' ∧
    r'.parent = r.parent ∧ r'.template = r.template ∧ r'.ownerId = r.ownerId ∧ r'.alive = r.alive
  origin : ∀ {x}, rt.entities.record x = none → rt'.entities.record x = none
  tags : ∀ i, (∀ d ∈ ds, handleIndex d ≠ i) → rt'.tags.tagsAt i = rt.tags.tagsAt i
  clean : ∀ i, (∀ x r, rt'.entities.record x = some r → handleIndex x ≠ i) →
    v.tags = true → rt'.tags.tagsAt i = []
  group : rt'.channels.group = none ↔ rt'.channels.groupDepth = 0
  journal : rt'.channels.journal = rt.channels.journal ++ ds.map .destroy
  depth : rt'.channels.groupDepth = rt.channels.groupDepth
  issued : ∀ x, rt.entities.table.Issued x → rt'.entities.table.Issued x
  liveCount : rt'.entities.table.liveCount ≤ rt.entities.table.liveCount

section drain
variable {v : View}

theorem record_runtime_teardown {rt : Runtime} {d : EntityId} {r : EntityRecord}
    (hd : rt.entities.record d = some r) {x : EntityId} {q : EntityRecord} (hx : x ≠ d)
    (hq : rt.entities.record x = some q) : ∃ q', (rt.teardown d).entities.record x = some q' ∧
      q'.parent = q.parent ∧ q'.template = q.template ∧ q'.ownerId = q.ownerId ∧ q'.alive = q.alive := by
  have h := Entities.record_teardown hd x
  rw [if_neg hx, hq] at h
  exact ⟨_, h, rfl, rfl, rfl, rfl⟩

theorem tagsAt_teardown (rt : Runtime) (d : EntityId) (i : ℕ) :
    (rt.teardown d).tags.tagsAt i = if i = handleIndex d then [] else rt.tags.tagsAt i :=
  TagIndex.tagsAt_removeAll _ d i

theorem tornDown_foldl : ∀ (ds : List EntityId) (rt : Runtime), rt.entities.Tearing ds →
    (rt.channels.group = none ↔ rt.channels.groupDepth = 0) →
    (∀ i, (∀ x r, rt.entities.record x = some r → handleIndex x ≠ i) →
      v.tags = true → rt.tags.tagsAt i = []) →
    TornDown v rt (ds.foldl teardown rt) ds
  | [], rt, ht, hg, hc => by
    refine ⟨ht, rfl, (fun _ h => by cases h), fun _ hr => ⟨_, hr, rfl, rfl, rfl, rfl⟩, fun h => h,
      fun _ _ => rfl, hc, hg, (List.append_nil _).symm, rfl, fun _ h => h, le_rfl⟩
  | d :: ds, rt, ht, hg, hc => by
    obtain ⟨r, hr, -⟩ := (ht.queued d).mp (List.mem_append_left _ List.mem_cons_self)
    have hnd : d ∉ ds := by
      have h := ht.queue_nodup
      rw [List.cons_append, List.nodup_cons] at h
      exact fun hmem => h.1 (List.mem_append_left _ hmem)
    have hnone : (rt.teardown d).entities.record d = none :=
      (Entities.record_teardown hr d).trans (if_pos rfl)
    have hgone : ∀ {x}, rt.entities.record x = none → (rt.teardown d).entities.record x = none := by
      intro x hx
      have h := Entities.record_teardown hr x
      by_cases hxd : x = d
      · exact h.trans (if_pos hxd)
      · rw [if_neg hxd, hx] at h
        exact h
    have hmark : (rt.teardown d).channels = rt.channels.markStructural (.destroy d) := rfl
    have hg' : (rt.teardown d).channels.group = none ↔ (rt.teardown d).channels.groupDepth = 0 := by
      rw [hmark]
      unfold ReplicationChannels.markStructural
      cases h : rt.channels.group with
      | none =>
        simp only [true_iff]
        exact hg.mp h
      | some ops =>
        simp only [reduceCtorEq, false_iff]
        intro h0
        rw [hg.mpr h0] at h
        cases h
    have hc' : ∀ i, (∀ x r, (rt.teardown d).entities.record x = some r → handleIndex x ≠ i) →
        v.tags = true → (rt.teardown d).tags.tagsAt i = [] := by
      intro i hi hv
      rw [tagsAt_teardown]
      split_ifs with hid
      · rfl
      · refine hc i (fun x q hx => ?_) hv
        by_cases hxd : x = d
        · rw [hxd]
          exact fun h => hid h.symm
        · obtain ⟨q', hq', -⟩ := record_runtime_teardown hr hxd hx
          exact hi x q' hq'
    have ih := tornDown_foldl ds (rt.teardown d) (ht.teardown hr) hg' hc'
    refine ⟨ih.tearing, ih.pending, ?_, ?_, fun hx => ih.origin (hgone hx), ?_, ih.clean, ih.group, ?_,
      ih.depth.trans (groupDepth_markStructural _ _), fun x hx => ih.issued x (Entities.issued_teardown hx), ?_⟩
    · intro x hx
      rcases List.mem_cons.mp hx with rfl | hx
      · exact ih.origin hnone
      · exact ih.gone x hx
    · intro x q hx hq
      rw [List.mem_cons, not_or] at hx
      obtain ⟨q', hq', hp', ht', ho', ha'⟩ := record_runtime_teardown hr hx.1 hq
      obtain ⟨q'', hq'', hp'', ht'', ho'', ha''⟩ := ih.kept hx.2 hq'
      exact ⟨q'', hq'', hp''.trans hp', ht''.trans ht', ho''.trans ho', ha''.trans ha'⟩
    · intro i hi
      have hid := hi d List.mem_cons_self
      rw [List.foldl_cons, ih.tags i (fun d' hd' => hi d' (List.mem_cons_of_mem _ hd')),
        tagsAt_teardown, if_neg (Ne.symm hid)]
    · rw [List.foldl_cons, ih.journal, hmark, ReplicationChannels.journal_markStructural,
        List.append_assoc]
      rfl
    · have hlive : (rt.teardown d).entities.table.liveCount + 1 = rt.entities.table.liveCount :=
        Entities.liveCount_teardown hr
      exact ih.liveCount.trans (by omega)

/-- A doomed subtree is doomed as a whole, as the forest has it. -/
theorem mem_doomed_of_below {rt : Runtime} {ds : List EntityId} (h : rt.entities.Linked ds) {z x : EntityId}
    (hx : x ∈ ds) (hb : (rt.forest v).Below z x) : z ∈ ds := by
  induction hb using Relation.ReflTransGen.head_induction_on with
  | refl => exact hx
  | @head a b hab _ ih =>
    obtain ⟨t, hd⟩ := hab
    cases hr : rt.entities.record a with
    | none =>
      rw [forest_node_of_none hr] at hd
      cases hd
    | some r =>
      rw [forest_node_of_record hr, nodeOf] at hd
      have hpar := congrArg Prod.fst (Option.some.inj hd)
      simp only at hpar
      split_ifs at hpar with h0
      obtain rfl := Option.some.inj hpar
      obtain ⟨p, hp, hmem⟩ := h.up hr h0
      exact h.doomed_down ih hp hmem

/-- Tearing the doomed down prunes them from the forest. -/
theorem forest_tornDown {rt rt' : Runtime} {ds : List EntityId} (h : rt.entities.Linked ds)
    (ht : TornDown v rt rt' ds) : rt'.forest v = (rt.forest v).prune {x | x ∈ ds} := by
  have hexists : ∀ {d}, d ∈ ds → (rt.entities.record d).isSome := by
    intro d hd
    obtain ⟨r, hr, -⟩ := (h.queued d).mp (List.mem_append_left _ hd)
    rw [hr]
    rfl
  ext1
  · funext x
    by_cases hx : x ∈ ds
    · rw [forest_node_of_none (ht.gone x hx),
        World.node_prune_of_below (show x ∈ {x | x ∈ ds} from hx) Relation.ReflTransGen.refl]
    · have hnot : ∀ d ∈ {x | x ∈ ds}, ¬ (rt.forest v).Below x d :=
        fun d hd hb => hx (mem_doomed_of_below h hd hb)
      rw [World.node_prune_of_not hnot]
      cases hr : rt.entities.record x with
      | none => rw [forest_node_of_none hr, forest_node_of_none (ht.origin hr)]
      | some r =>
        obtain ⟨r', hr', hpar, -⟩ := ht.kept hx hr
        rw [forest_node_of_record hr, forest_node_of_record hr', nodeOf, nodeOf, hpar]
        have htags : rt'.tags.tagsOf x = rt.tags.tagsOf x := by
          refine ht.tags _ (fun d hd hi => hx ?_)
          have hdx : d = x := rt.entities.table.eq_of_handleIndex_eq (hexists hd)
            (by rw [show rt.entities.table.record x = some r from hr]; rfl) hi
          exact hdx ▸ hd
        unfold shownTags
        rw [htags]
  · ext x
    show (rt'.entities.record x).isSome = true ↔ (rt.entities.record x).isSome = true ∧ x ∉ ds
    by_cases hx : x ∈ ds
    · simp [ht.gone x hx, hx]
    · cases hr : rt.entities.record x with
      | none => simp [ht.origin hr]
      | some r =>
        obtain ⟨r', hr', -⟩ := ht.kept hx hr
        simp [hr', hx]

/-- The journal of the teardowns replays the pruning. -/
theorem torn_advances {rt rt' : Runtime} {ds : List EntityId} (h : rt.entities.Linked ds)
    (ht : TornDown v rt rt' ds) : Advances v rt rt' (ds.map .destroy) where
  journal := ht.journal
  replay := by
    have hedits : edits v (ds.map .destroy) = ds.map Edit.destroy := by
      unfold edits
      rw [List.flatMap_map]
      exact List.map_eq_flatMap.symm
    rw [hedits, World.run_destroys ds (List.nodup_append.mp h.queue_nodup).1, forest_tornDown h ht]
    intro x hx
    obtain ⟨r, hr, -⟩ := (h.queued x).mp (List.mem_append_left _ hx)
    show (rt.entities.record x).isSome = true
    rw [hr]
    rfl
  issued := ht.issued
  fresh := by
    intro x t hmem
    obtain ⟨d, -, hd⟩ := List.mem_map.mp hmem
    cases hd
  labels := by
    intro x r' hr'
    by_cases hx : x ∈ ds
    · rw [ht.gone x hx] at hr'
      cases hr'
    · cases hr : rt.entities.record x with
      | none =>
        rw [ht.origin hr] at hr'
        cases hr'
      | some r =>
        obtain ⟨r'', hr'', -, htem, how, -⟩ := ht.kept hx hr
        rw [hr''] at hr'
        obtain rfl := Option.some.inj hr'
        exact Or.inl ⟨r, rfl, htem.symm, how.symm⟩
  depth := ht.depth
  destroyed := by
    intro x hmem
    obtain ⟨d, hd, heq⟩ := List.mem_map.mp hmem
    obtain rfl := SingleStructuralOp.destroy.inj heq
    obtain ⟨r, hr, -⟩ := (h.queued d).mp (List.mem_append_left _ hd)
    exact ht.issued d (rt.entities.table.issued_of_record (by
      rw [show rt.entities.table.record d = some r from hr]; rfl))
  noRespawn := by
    rw [List.pairwise_map]
    exact List.pairwise_of_forall (by rintro a b ⟨x, t, -, h⟩; cases h)

theorem Sound.splice {rt : Runtime} (hs : Sound v rt []) :
    Sound v { rt with entities := { rt.entities with pendingDestroy := [] } } rt.entities.pendingDestroy :=
  ⟨hs.linked.splice, hs.group, hs.clean, hs.bound⟩

theorem splice_advances (rt : Runtime) :
    Advances v rt { rt with entities := { rt.entities with pendingDestroy := [] } } [] :=
  ⟨(List.append_nil _).symm, rfl, fun _ h => h, (fun _ _ h => by cases h),
    fun hr => Or.inl ⟨_, hr, rfl, rfl⟩, rfl, (fun _ h => by cases h), List.Pairwise.nil⟩

theorem drainDestroyed_nil (rt : Runtime) : rt.drainDestroyed [] = rt.entities.pendingDestroy.foldl teardown
    { rt with entities := { rt.entities with pendingDestroy := [] } } := by
  unfold drainDestroyed
  cases hp : rt.entities.pendingDestroy with
  | nil =>
    have hself : { rt.entities with pendingDestroy := [] } = rt.entities := by rw [← hp]
    rw [hself]
    rfl
  | cons d ds => rfl

/-- The drain of a world without end handlers. -/
theorem tornDown_drainDestroyed {rt : Runtime} (hs : Sound v rt []) :
    TornDown v { rt with entities := { rt.entities with pendingDestroy := [] } } (rt.drainDestroyed [])
      rt.entities.pendingDestroy := by
  rw [drainDestroyed_nil]
  exact tornDown_foldl rt.entities.pendingDestroy
    { rt with entities := { rt.entities with pendingDestroy := [] } } hs.splice.linked.tearing hs.group hs.clean

/-- The destroy drain, its handlers included, journals what it does to the forest. -/
theorem drainDestroyed_advances {rt : Runtime} (hs : Sound v rt []) (onEnd : List Act)
    (hend : Meets act (ActMeets (fun rt op => op.Names v rt))
      { rt with entities := { rt.entities with pendingDestroy := [] } } onEnd) :
    Sound v (rt.drainDestroyed onEnd) [] ∧ ∃ js, Advances v rt (rt.drainDestroyed onEnd) js := by
  unfold drainDestroyed
  split
  · exact ⟨hs, [], (Calm.refl rt).advances⟩
  · obtain ⟨hs', js, hadv⟩ := acts_advances onEnd hs.splice hend
    have ht := tornDown_foldl _ _ hs'.linked.tearing hs'.group hs'.clean
    exact ⟨⟨ht.tearing.linked, ht.group, ht.clean, ht.liveCount.trans hs'.bound⟩, _,
      (splice_advances rt).trans (hadv.trans (torn_advances hs'.linked ht))⟩

end drain

end Runtime

end Grove
