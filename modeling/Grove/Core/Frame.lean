import Grove.Core.Runtime

/-! # What a handler leaves alone

Whatever a handler does, the roster, the persisted records and the facades' own names stay as they
are, and a player's host record stays where it is: only a leave takes it out of the table.  A
record object keeps the key it was made for (`HostTable.Keyed`). -/

namespace Grove

namespace HostTable

/-- Every key in use names a record made for it. -/
def Keyed (t : HostTable) : Prop :=
  ∀ key rid, t.get key = some rid → rid < t.next ∧ (t.heap rid).hostId = key

/-- `t'` has every record of `t`, under the key it was made for, and the players' entries. -/
structure Extends (t t' : HostTable) : Prop where
  player : ∀ id rid, t.get (.player id) = some rid → t'.get (.player id) = some rid
  game : ∀ rid, t.get .game = some rid → t'.get .game = some rid
  next : t.next ≤ t'.next
  hostId : ∀ rid, rid < t.next → (t'.heap rid).hostId = (t.heap rid).hostId
  keyed : t.Keyed → t'.Keyed

variable {t t' t'' : HostTable}

theorem Extends.refl (t : HostTable) : Extends t t :=
  ⟨fun _ _ h => h, fun _ h => h, le_rfl, fun _ _ => rfl, fun h => h⟩

theorem Extends.trans (h : Extends t t') (h' : Extends t' t'') : Extends t t'' where
  player := fun id rid hr => h'.player id rid (h.player id rid hr)
  game := fun rid hr => h'.game rid (h.game rid hr)
  next := h.next.trans h'.next
  hostId := fun rid hr => (h'.hostId rid (lt_of_lt_of_le hr h.next)).trans (h.hostId rid hr)
  keyed := fun hk => h'.keyed (h.keyed hk)

theorem get_ensure (t : HostTable) (key key' : HostKey) :
    (t.ensure key).get key' = if key' = key then some ((t.get key).getD t.next) else t.get key' := by
  unfold ensure get
  cases h : t.byKey.get key with
  | some rid =>
    simp only [Option.getD_some]
    split_ifs with hk
    · rw [hk, h]
    · rfl
  | none => exact t.byKey.get_set key key' t.next

theorem isSome_get_ensure (t : HostTable) (key : HostKey) : ((t.ensure key).get key).isSome := by
  rw [get_ensure, if_pos rfl]
  rfl

/-- A new record is nobody else's. -/
theorem ensure_extends (t : HostTable) (key : HostKey) : Extends t (t.ensure key) := by
  cases h : t.byKey.get key with
  | some rid =>
    have hself : t.ensure key = t := by
      unfold ensure
      rw [h]
    rw [hself]
    exact Extends.refl t
  | none =>
    have hne : ∀ key' rid, t.get key' = some rid → key' ≠ key := by
      rintro key' rid hr rfl
      rw [get, h] at hr
      cases hr
    have hkeep : ∀ key' rid, t.get key' = some rid → (t.ensure key).get key' = some rid := by
      intro key' rid hr
      rw [get_ensure, if_neg (hne key' rid hr), hr]
    refine ⟨fun id rid => hkeep _ rid, fun rid => hkeep _ rid, ?_, ?_, ?_⟩
    · unfold ensure
      rw [h]
      exact Nat.le_succ _
    · intro rid hlt
      unfold ensure
      rw [h]
      simp only [Function.update_of_ne (Nat.ne_of_lt hlt)]
    · intro hk key' rid hr
      rw [get_ensure] at hr
      unfold ensure
      rw [h]
      by_cases hkey : key' = key
      · rw [if_pos hkey, get, h, Option.getD_none, Option.some.injEq] at hr
        subst hr
        simp only [Function.update_self]
        exact ⟨Nat.lt_succ_self _, hkey.symm⟩
      · rw [if_neg hkey] at hr
        obtain ⟨hlt, hid⟩ := hk key' rid hr
        simp only [Function.update_of_ne (Nat.ne_of_lt hlt)]
        exact ⟨Nat.lt_succ_of_lt hlt, hid⟩

theorem put_extends (t : HostTable) (rid : RecordId) (r : HostRecord) (hr : r.hostId = (t.heap rid).hostId) :
    Extends t (t.put rid r) := by
  have hid : ∀ x, ((t.put rid r).heap x).hostId = (t.heap x).hostId := by
    intro x
    by_cases hx : x = rid
    · simp only [put, hx, Function.update_self, hr]
    · simp only [put, Function.update_of_ne hx]
  exact ⟨fun _ _ h => h, fun _ h => h, le_rfl, fun x _ => hid x,
    fun hk key x hx => ⟨(hk key x hx).1, (hid x).trans (hk key x hx).2⟩⟩

theorem get_remove (t : HostTable) (key key' : HostKey) :
    (t.remove key).get key' = if key' = key then none else t.get key' := t.byKey.get_delete key key'

theorem Keyed.remove (h : t.Keyed) (key : HostKey) : (t.remove key).Keyed := by
  intro key' rid hr
  rw [get_remove] at hr
  split_ifs at hr
  exact h key' rid hr

/-- An entity's record is no player's and not the game's. -/
theorem remove_entity_extends (t : HostTable) (id : ℕ) : Extends t (t.remove (.entity id)) :=
  ⟨fun _ _ h => by rw [get_remove, if_neg (by simp)]; exact h,
    fun _ h => by rw [get_remove, if_neg (by simp)]; exact h, le_rfl, fun _ _ => rfl,
    fun hk => hk.remove _⟩

end HostTable

namespace Runtime

section

variable {R : Runtime → Runtime → Prop} (hrefl : ∀ rt, R rt rt) (htrans : ∀ {rt rt' rt''}, R rt rt' → R rt' rt'' → R rt rt'')
include hrefl htrans

theorem stepAll_chain (hstep : ∀ (rt : Runtime) op, R rt (rt.step op).1) (ops : List Op) (rt : Runtime) :
    R rt (stepAll ops rt) := by
  induction ops generalizing rt with
  | nil => exact hrefl rt
  | cons op ops ih =>
    have h := hstep rt op
    unfold stepAll
    rcases hout : rt.step op with ⟨rt', _ | _⟩
    · rw [hout] at h
      exact htrans h (ih rt')
    · rw [hout] at h
      exact h

/-- What one op does, and a change of the channels alone, any acts do. -/
theorem acts_chain (hchannels : ∀ (rt : Runtime) channels, R rt { rt with channels := channels })
    (hstep : ∀ (rt : Runtime) op, R rt (rt.step op).1) (as : List Act) (rt : Runtime) : R rt (rt.acts as) := by
  induction as generalizing rt with
  | nil => exact hrefl rt
  | cons a as ih =>
    refine htrans ?_ (ih (rt.act a))
    cases a with
    | op op => exact hstep rt op
    | group ops => exact htrans (htrans (hchannels rt _) (stepAll_chain hrefl htrans hstep ops _)) (hchannels _ _)

end

/-- What every handler leaves as it was. -/
structure Frame (rt rt' : Runtime) : Prop where
  playerManager : rt'.playerManager = rt.playerManager
  persisted : rt'.persisted = rt.persisted
  facadeMembers : rt'.facadeMembers = rt.facadeMembers
  tick : rt'.tick = rt.tick
  simRate : rt'.simRate = rt.simRate
  hosts : rt.hosts.Extends rt'.hosts

section frame
variable {rt rt' rt'' : Runtime}

theorem Frame.refl (rt : Runtime) : Frame rt rt := ⟨rfl, rfl, rfl, rfl, rfl, HostTable.Extends.refl _⟩

theorem Frame.trans (h : Frame rt rt') (h' : Frame rt' rt'') : Frame rt rt'' :=
  ⟨h'.1.trans h.1, h'.2.trans h.2, h'.3.trans h.3, h'.4.trans h.4, h'.5.trans h.5, h.6.trans h'.6⟩

/-- A call on the entities, the tags, the transforms or the channels. -/
theorem Frame.of_hosts (h1 : rt'.playerManager = rt.playerManager) (h2 : rt'.persisted = rt.persisted)
    (h3 : rt'.facadeMembers = rt.facadeMembers) (h4 : rt'.tick = rt.tick) (h5 : rt'.simRate = rt.simRate)
    (h6 : rt'.hosts = rt.hosts) : Frame rt rt' :=
  ⟨h1, h2, h3, h4, h5, h6 ▸ HostTable.Extends.refl _⟩

/-- The host records, and the instances, are all that differs. -/
structure Hosted (rt rt' : Runtime) : Prop where
  hosts : rt.hosts.Extends rt'.hosts
  others : ∃ hosts instances, rt' = { rt with hosts := hosts, instances := instances }

theorem Hosted.refl (rt : Runtime) : Hosted rt rt := ⟨HostTable.Extends.refl _, _, _, rfl⟩

theorem Hosted.trans (h : Hosted rt rt') (h' : Hosted rt' rt'') : Hosted rt rt'' := by
  obtain ⟨hosts, instances, rfl⟩ := h.others
  exact ⟨h.hosts.trans h'.hosts, h'.others⟩

theorem Hosted.frame (h : Hosted rt rt') : Frame rt rt' := by
  obtain ⟨hosts, instances, rfl⟩ := h.others
  exact ⟨rfl, rfl, rfl, rfl, rfl, h.hosts⟩

theorem hoistField_hosted {rid : RecordId} {field : String} {authored : JsValue}
    (h : rt.hoistField rid field authored = .ok rt') : Hosted rt rt' := by
  unfold hoistField at h
  simp only at h
  split_ifs at h
  obtain rfl := Except.ok.inj h
  exact ⟨HostTable.put_extends _ _ _ rfl, _, _, rfl⟩

theorem bindWrapper_hosted {rid : RecordId} {field : String} {w : Wrapper}
    (h : rt.bindWrapper rid field w = .ok rt') : Hosted rt rt' := by
  unfold bindWrapper at h
  simp only at h
  split at h
  · cases h
  · obtain rfl := Except.ok.inj h
    exact ⟨HostTable.put_extends _ _ _ rfl, _, _, rfl⟩

theorem hoistState_hosted (rid : RecordId) : ∀ (fields : List (String × JsValue)) (rt : Runtime),
    Hosted rt (hoistState rid fields rt).1
  | [], rt => .refl rt
  | (field, authored) :: rest, rt => by
    unfold hoistState
    split
    · exact .refl rt
    · rename_i rt' h
      exact (hoistField_hosted h).trans (hoistState_hosted rid rest rt')

theorem bindWrappers_hosted (rid : RecordId) : ∀ (wrappers : List (String × Wrapper)) (rt : Runtime),
    Hosted rt (bindWrappers rid wrappers rt).1
  | [], rt => .refl rt
  | (field, w) :: rest, rt => by
    unfold bindWrappers
    split
    · exact .refl rt
    · rename_i rt' h
      exact (bindWrapper_hosted h).trans (bindWrappers_hosted rid rest rt')

/-- An attach works on the host records and the instances alone. -/
theorem attach_hosted (rt : Runtime) (key : HostKey) (klass : ScriptClass) (inst : ScriptInstance) :
    Hosted rt (rt.attach key klass inst).1 := by
  have hensure : Hosted rt { rt with hosts := rt.hosts.ensure key } := ⟨HostTable.ensure_extends _ _, _, _, rfl⟩
  unfold attach
  simp only
  split
  · exact hensure
  · rename_i rid _
    have hhoist := hoistState_hosted rid klass.fields { rt with hosts := rt.hosts.ensure key }
    split
    · rename_i rt₁ err heq
      rw [heq] at hhoist
      exact hensure.trans hhoist
    · rename_i rt₁ heq
      rw [heq] at hhoist
      have hbind := bindWrappers_hosted rid klass.wrappers rt₁
      split
      · rename_i rt₂ err heq'
        rw [heq'] at hbind
        exact hensure.trans (hhoist.trans hbind)
      · rename_i rt₂ heq'
        rw [heq'] at hbind
        exact hensure.trans (hhoist.trans (hbind.trans ⟨HostTable.Extends.refl _, _, _, rfl⟩))

theorem attach_frame (rt : Runtime) (key : HostKey) (klass : ScriptClass) (inst : ScriptInstance) :
    Frame rt (rt.attach key klass inst).1 := (attach_hosted rt key klass inst).frame

theorem step_frame (rt : Runtime) (op : Op) : Frame rt (rt.step op).1 := by
  have hcalm : ∀ {rt' : Runtime}, rt'.playerManager = rt.playerManager → rt'.persisted = rt.persisted →
      rt'.facadeMembers = rt.facadeMembers → rt'.tick = rt.tick → rt'.simRate = rt.simRate →
      rt'.hosts = rt.hosts → Frame rt rt' := Frame.of_hosts
  cases op with
  | spawn template x y ownerId =>
    simp only [step, spawn]
    cases rt.entities.create template ownerId with
    | error err => exact Frame.refl rt
    | ok out => exact hcalm rfl rfl rfl rfl rfl rfl
  | attachTo id parent =>
    simp only [step, attachTo]
    rcases rt.entities.attachTo id parent with err | _ | entities
    · exact Frame.refl rt
    · exact Frame.refl rt
    · exact hcalm rfl rfl rfl rfl rfl rfl
  | detach id =>
    simp only [step, detach]
    rcases rt.entities.unlink id with ⟨_ | _, entities⟩
    · exact hcalm rfl rfl rfl rfl rfl rfl
    · exact hcalm rfl rfl rfl rfl rfl rfl
  | writeState rid field w =>
    simp only [step, writeState]
    split_ifs
    · exact ⟨rfl, rfl, rfl, rfl, rfl, HostTable.put_extends _ _ _ rfl⟩
    · exact Frame.refl rt
  | ensureHost key => exact ⟨rfl, rfl, rfl, rfl, rfl, HostTable.ensure_extends _ _⟩
  | attachToEntity id klass inst =>
    have h := attach_frame rt (.entity id) klass inst
    simp only [step, attachToEntity]
    rcases hout : rt.attach (.entity id) klass inst with ⟨rt', _ | err⟩
    · rw [hout] at h
      cases inst.script with
      | none => exact h
      | some script => exact h.trans (Frame.of_hosts rfl rfl rfl rfl rfl rfl)
    · rw [hout] at h
      exact h
  | attach key klass inst => exact attach_frame rt key klass inst
  | _ => exact hcalm rfl rfl rfl rfl rfl rfl

theorem acts_frame : ∀ (as : List Act) (rt : Runtime), Frame rt (rt.acts as) :=
  acts_chain Frame.refl Frame.trans (fun _ _ => Frame.of_hosts rfl rfl rfl rfl rfl rfl) step_frame

theorem teardown_frame (rt : Runtime) (id : EntityId) : Frame rt (rt.teardown id) :=
  ⟨rfl, rfl, rfl, rfl, rfl, HostTable.remove_entity_extends _ _⟩

theorem teardowns_frame : ∀ (ids : List EntityId) (rt : Runtime), Frame rt (ids.foldl teardown rt)
  | [], rt => Frame.refl rt
  | id :: ids, rt => (teardown_frame rt id).trans (teardowns_frame ids (rt.teardown id))

theorem drainDestroyed_frame (rt : Runtime) (onEnd : List Act) : Frame rt (rt.drainDestroyed onEnd) := by
  unfold drainDestroyed
  split
  · exact Frame.refl rt
  · have hsplice : Frame rt { rt with entities := { rt.entities with pendingDestroy := [] } } :=
      Frame.of_hosts rfl rfl rfl rfl rfl rfl
    exact hsplice.trans ((acts_frame onEnd _).trans (teardowns_frame _ _))

end frame

/-! ### Players -/

/-- A join makes the player and its record, then the handler acts. -/
theorem joinPlayer_spec (rt : Runtime) (id : PlayerId) (name : String) (onJoin : List Act) :
    (rt.joinPlayer id name onJoin).playerManager = rt.playerManager.create id name ∧
      (rt.hosts.ensure (.player id)).Extends (rt.joinPlayer id name onJoin).hosts := by
  have h := acts_frame onJoin { rt with
    playerManager := rt.playerManager.create id name
    hosts := rt.hosts.ensure (.player id) }
  exact ⟨h.playerManager, h.hosts⟩

/-- What a leave does to the records: those of the other players stay where they are. -/
structure Loses (t t' : HostTable) (id : PlayerId) : Prop where
  player : ∀ id' rid, id' ≠ id → t.get (.player id') = some rid → t'.get (.player id') = some rid
  hostId : ∀ rid, rid < t.next → (t'.heap rid).hostId = (t.heap rid).hostId
  keyed : t.Keyed → t'.Keyed

theorem leavePlayer_spec {rt : Runtime} {id : PlayerId} (onLeave : List Act)
    (h : id ∈ rt.playerManager.ids) :
    (rt.leavePlayer id onLeave).playerManager = rt.playerManager.remove id ∧
      Loses rt.hosts (rt.leavePlayer id onLeave).hosts id := by
  obtain ⟨player, hplayer⟩ := Option.isSome_iff_exists.mp (rt.playerManager.byId_isSome.mpr h)
  have hacts := acts_frame onLeave rt
  have hleave : rt.leavePlayer id onLeave =
      ({ rt.acts onLeave with playerManager := (rt.acts onLeave).playerManager.remove id }.removeHost
        (.player id)).removeHost (.camera id) := by
    unfold leavePlayer removePlayer
    rw [hplayer, hacts.playerManager, hplayer]
  rw [hleave]
  refine ⟨congrArg (fun pm => pm.remove id) hacts.playerManager, ?_, ?_, ?_⟩
  · intro id' rid hne hget
    show (((rt.acts onLeave).hosts.remove (.player id)).remove (.camera id)).get (.player id') = some rid
    rw [HostTable.get_remove, if_neg (by simp), HostTable.get_remove, if_neg (by simpa using hne)]
    exact hacts.hosts.player id' rid hget
  · exact hacts.hosts.hostId
  · exact fun hk => ((hacts.hosts.keyed hk).remove _).remove _

end Runtime

end Grove
