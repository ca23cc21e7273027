import Grove.Net.Converge

/-! # The mirror accepts what the authority sends

A peer refuses what a send hands it in four ways.  An entity moved beneath one that was made and
released in the same interval is sent without its new parent; a call on a handle whose entity is
gone is sent under that handle; a group past the cap is dropped whole, with everything in it; and a
mirror tears down once an envelope where the server does once a tick, so it holds more entities at
once than the server ever did.  `Acceptable` excludes the four, and in a run that keeps to it
nothing is refused. -/

namespace Grove

namespace Link

/-- A tag or attach call names an entity that is there; a bubble's tag is never sent. -/
def OpLive (rt : Runtime) : Runtime.Op → Prop
  | .tag id name | .untag id name => isSay name = true ∨ (rt.entities.record id).isSome
  | .attachToEntity id _ inst => inst.script = none ∨ (rt.entities.record id).isSome
  | _ => True

instance (rt : Runtime) : DecidablePred (OpLive rt)
  | .tag id name | .untag id name =>
    inferInstanceAs (Decidable (isSay name = true ∨ (rt.entities.record id).isSome = true))
  | .attachToEntity id _ inst =>
    inferInstanceAs (Decidable (inst.script = none ∨ (rt.entities.record id).isSome = true))
  | .spawn .. | .destroy _ | .attachTo .. | .detach _ | .bubble .. | .setPosition .. | .setRotation ..
  | .setScale .. | .setOpacity .. | .setLayer .. | .writeState .. | .ensureHost _
  | .attach .. => inferInstanceAs (Decidable True)

/-- The mirror has room for the envelope, counting what it will tear down only afterwards. -/
def HasRoom (n : Link) (budget : ℕ) (p : Peer) : Prop :=
  p.mirror.rt.entities.table.liveCount +
    spawnCount ((n.envelopeOf budget p).structural.flatMap WireStructuralOp.singles) ≤ maxEntities

instance (n : Link) (budget : ℕ) (p : Peer) : Decidable (HasRoom n budget p) :=
  inferInstanceAs (Decidable (_ ≤ _))

/-- No group of the journal is past the mirror's cap. -/
def GroupsFit (n : Link) : Prop := ∀ op ∈ n.rt.channels.structural, op.singles.length ≤ maxWireItems

instance (n : Link) : Decidable n.GroupsFit :=
  inferInstanceAs (Decidable (∀ op ∈ n.rt.channels.structural, op.singles.length ≤ maxWireItems))

/-- The event can lead to no refusal. -/
def Acceptable (n : Link) : Event → Prop
  | .act a => Runtime.ActMeets OpLive n.rt a
  | .drainDestroyed onEnd =>
    Meets Runtime.act (Runtime.ActMeets OpLive)
      { n.rt with entities := { n.rt.entities with pendingDestroy := [] } } onEnd
  | .tick => True
  | .send budget _ joining =>
    ClearOf (ephemeralIds n.rt n.rt.channels.structural)
        (n.rt.channels.structural.flatMap StructuralOp.singles) ∧
      n.GroupsFit ∧ (joining = none → ∀ p ∈ n.peer, HasRoom n budget p)

instance (n : Link) : DecidablePred (Acceptable n)
  | .act a => inferInstanceAs (Decidable (Runtime.ActMeets OpLive n.rt a))
  | .drainDestroyed onEnd =>
    inferInstanceAs (Decidable (Meets Runtime.act (Runtime.ActMeets OpLive)
      { n.rt with entities := { n.rt.entities with pendingDestroy := [] } } onEnd))
  | .tick => inferInstanceAs (Decidable True)
  | .send budget _ none =>
    have : Decidable (∀ p ∈ n.peer, HasRoom n budget p) :=
      match h : n.peer with
      | none => isTrue (fun p hp => by rw [Option.mem_def] at hp; cases hp)
      | some p => decidable_of_iff (HasRoom n budget p)
          ⟨fun hr p' hp' => by rw [Option.mem_def] at hp'; cases hp'; exact hr,
            fun hr => hr p rfl⟩
    decidable_of_iff (_ ∧ n.GroupsFit ∧ ∀ p ∈ n.peer, HasRoom n budget p)
      ⟨fun hr => ⟨hr.1, hr.2.1, fun _ => hr.2.2⟩, fun hr => ⟨hr.1, hr.2.1, hr.2.2 rfl⟩⟩
  | .send _ _ (some _) => decidable_of_iff (_ ∧ n.GroupsFit)
        ⟨fun hr => ⟨hr.1, hr.2, fun hj => by cases hj⟩, fun hr => ⟨hr.1, hr.2.1⟩⟩

/-- The view under which every op must name what it is about. -/
def strictView : View := ⟨false, true⟩

theorem names_of_acceptable {n : Link} {e : Event} (h : Acceptable n e) : Names strictView n e := by
  have hop : ∀ (rt : Runtime) (op : Runtime.Op), OpLive rt op → op.Names strictView rt := by
    intro rt op hlive
    have hsay : ∀ {id : EntityId} {name : String}, isSay name = true ∨ (rt.entities.record id).isSome →
        isSay name = false → (rt.entities.record id).isSome := by
      rintro id name (hs | hr) hn
      · rw [hs] at hn
        cases hn
      · exact hr
    cases op with
    | tag | untag => exact ⟨(fun ht => by cases ht), fun _ => hsay hlive⟩
    | attachToEntity id klass inst =>
      intro _ hscript
      rcases hlive with hnone | hr
      · rw [hnone] at hscript
        cases hscript
      · exact hr
    | _ => trivial
  cases e with
  | act a => exact Runtime.ActMeets.mono (fun rt op _ => hop rt op) h
  | drainDestroyed onEnd => exact Runtime.actsMeet_mono onEnd (fun rt a _ op _ => hop rt op) h
  | tick | send => trivial

/-! ### Groups within the cap -/

theorem length_toWireSingles {rt : Runtime} {ephemeral : List EntityId} :
    ∀ {ops : List SingleStructuralOp} {ws : List WireSingleStructuralOp},
    toWireSingles rt ephemeral ops = some ws → ws.length ≤ ops.length
  | [], _, h => by
    obtain rfl := Option.some.inj h
    exact le_rfl
  | op :: ops, ws, h => by
    unfold toWireSingles at h
    split at h
    · cases h
    · exact (length_toWireSingles h).trans (Nat.le_succ _)
    · obtain ⟨ws', hws', rfl⟩ := Option.map_eq_some_iff.mp h
      exact Nat.succ_le_succ (length_toWireSingles hws')

/-- An entry on the wire holds no more ops than the entry it came from. -/
theorem length_singles_toWireStructural {rt : Runtime} {ephemeral : List EntityId} {op : StructuralOp}
    {w : WireStructuralOp} (h : toWireStructural rt ephemeral op = .sent w) :
    w.singles.length ≤ op.singles.length := by
  cases op with
  | single op =>
    simp only [toWireStructural] at h
    split at h <;> cases h
    exact le_rfl
  | group ops =>
    simp only [toWireStructural] at h
    split at h
    · cases h
    · cases h
    · rename_i only heq
      cases h
      exact length_toWireSingles heq
    · rename_i ws _ _ heq
      cases h
      exact length_toWireSingles heq

theorem entries_fit {rt : Runtime} {ephemeral : List EntityId} : ∀ {ops : List StructuralOp},
    (∀ op ∈ ops, op.singles.length ≤ maxWireItems) →
    ∀ w ∈ (toWire rt ephemeral ops).1, w.singles.length ≤ maxWireItems
  | [], _, w, hw => by cases hw
  | op :: ops, h, w, hw => by
    rw [toWire_cons, List.mem_append] at hw
    rcases hw with hw | hw
    · unfold sentEntry at hw
      split at hw
      · rename_i w' heq
        obtain rfl := List.mem_singleton.mp hw
        exact (length_singles_toWireStructural heq).trans (h op List.mem_cons_self)
      · cases hw
      · cases hw
    · exact entries_fit (fun op' hop' => h op' (List.mem_cons_of_mem _ hop')) w hw

/-! ### The snapshot fits -/

theorem spawnCount_singles (ps : List PlayerSnapshot) (es : List EntitySnapshot) :
    spawnCount (ps.map .playerJoin ++ es.map .spawn) = es.length := by
  unfold spawnCount
  rw [List.countP_append, List.countP_map, List.countP_map]
  simp [Function.comp_def]

/-- A snapshot brings no more entities than there are. -/
theorem length_snapshot {rt : Runtime} {doomed : List EntityId} (h : rt.entities.Linked doomed)
    (player : PlayerId) : (buildSnapshot rt player).entities.length ≤ rt.entities.table.liveCount := by
  obtain ⟨hnd, hmem, -⟩ := ancestorsFirst_listed h
  have hsub : ancestorsFirst rt ⊆ rt.entities.ids := fun x hx => mem_ids_iff.mpr ((hmem x).mp hx)
  calc (buildSnapshot rt player).entities.length
      ≤ (ancestorsFirst rt).length := List.length_filterMap_le _ _
    _ ≤ rt.entities.ids.length := (hnd.subperm hsub).length_le
    _ = rt.entities.table.liveCount := rt.entities.table.length_liveIds

/-! ### Every run -/

section runs
variable {v : View} {n : Link} {p : Peer}

/-- Every op a send may take is within the cap. -/
theorem orderedOps_fit (hfits : ∀ op ∈ n.spill, op.singles.length ≤ maxWireItems) (hgroups : n.GroupsFit) :
    ∀ op ∈ orderedOps n.rt ⟨[], []⟩ n.spill, op.singles.length ≤ maxWireItems := by
  intro op hop
  rw [orderedOps_nil] at hop
  rcases List.mem_append.mp hop with hop | hop
  · exact hfits op hop
  · exact entries_fit hgroups op hop

theorem envelope_fits (hfits : ∀ op ∈ n.spill, op.singles.length ≤ maxWireItems) (hgroups : n.GroupsFit)
    (budget : ℕ) (p : Peer) : ∀ op ∈ (n.envelopeOf budget p).structural, op.singles.length ≤ maxWireItems :=
  fun op hop => orderedOps_fit hfits hgroups op (List.mem_of_mem_take (List.mem_of_mem_drop hop))

/-- The journal joins what was to come, and the envelope is the front of it. -/
theorem tracks_joined (hs : Serving v n) (hskip : p.session.structuralSkip ≤ n.spill.length)
    (ht : Tracks v n.drained p.mirror (n.todo p))
    (hclear : ClearOf (ephemeralIds n.rt n.rt.channels.structural)
      (n.rt.channels.structural.flatMap StructuralOp.singles)) (budget : ℕ) (shed : Bool) :
    Tracks v n.rt p.mirror ((n.envelopeOf budget p).structural.flatMap WireStructuralOp.singles ++
      ((n.send budget shed none).spill.drop (n.sessionAfter budget p).structuralSkip).flatMap
        WireStructuralOp.singles) := by
  rw [flatMap_split budget hskip shed none]
  exact ht.extend hs.start hs.advances (fun x => mem_ephemeralIds) hclear

/-- A snapshot is a list of single ops. -/
theorem snapshot_fits (snapshot : WorldSnapshot) :
    ∀ op ∈ (Mirror.snapshotEnvelope snapshot).structural, op.singles.length ≤ maxWireItems := by
  intro op hop
  rcases List.mem_append.mp hop with hop | hop
  · obtain ⟨x, -, rfl⟩ := List.mem_map.mp hop
    exact show 1 ≤ maxWireItems by decide
  · obtain ⟨x, -, rfl⟩ := List.mem_map.mp hop
    exact show 1 ≤ maxWireItems by decide

/-- The peer threw neither refusal and dropped no op; unless it threw something else, it is in step. -/
structure Sure (n : Link) (p : Peer) : Prop where
  full : p.thrown ≠ some .worldFull
  cycle : ∀ x, p.thrown ≠ some (.cycle x)
  dropped : p.dropped = 0
  tracks : p.thrown = none → p.session.structuralSkip ≤ n.spill.length ∧
    Tracks strictView n.drained p.mirror (n.todo p)

/-- What every acceptable run keeps. -/
structure Smooth (n : Link) : Prop where
  serving : Serving strictView n
  fits : ∀ op ∈ n.spill, op.singles.length ≤ maxWireItems
  sure : ∀ p, n.peer = some p → Sure n p

/-- What an accepted envelope leaves of a peer. -/
theorem sure_of_accepted {n' : Link} {p' : Peer} {b : Runtime} {m : Mirror} {envelope : StateEnvelope}
    {rest : List WireSingleStructuralOp} (hacc : Accepted strictView b m envelope rest)
    (hroom : m.rt.entities.table.liveCount +
      spawnCount (envelope.structural.flatMap WireStructuralOp.singles) ≤ maxEntities)
    (hthrown : p'.thrown = (m.applyState envelope).2) (hdropped : p'.dropped = droppedBy m envelope)
    (htracks : Tracks strictView b (m.applyState envelope).1 rest →
      p'.session.structuralSkip ≤ n'.spill.length ∧ Tracks strictView n'.drained p'.mirror (n'.todo p')) :
    Sure n' p' where
  full := by
    rw [hthrown]
    intro hfull
    have := hacc.full hfull
    omega
  cycle := by
    rw [hthrown]
    exact hacc.cycle
  dropped := by
    rw [hdropped, droppedBy, hacc.unknown rfl, Nat.sub_self]
  tracks := by
    rw [hthrown]
    exact fun hnone => htracks (hacc.tracks hnone)

theorem Sure.receive (h : Smooth n) (hp : Sure n p) {budget : ℕ} {shed : Bool}
    (hclear : ClearOf (ephemeralIds n.rt n.rt.channels.structural)
      (n.rt.channels.structural.flatMap StructuralOp.singles))
    (hgroups : n.GroupsFit) (hroom : HasRoom n budget p) :
    Sure (n.send budget shed none) (Link.receive n.rt (n.setOf budget) shed p) := by
  cases hthrown : p.thrown with
  | some err =>
    have hself : Link.receive n.rt (n.setOf budget) shed p = p := by
      unfold Link.receive
      rw [if_pos (by rw [hthrown]; rfl)]
    rw [hself]
    exact ⟨hp.full, hp.cycle, hp.dropped, fun hnone => by rw [hthrown] at hnone; cases hnone⟩
  | none =>
    obtain ⟨hskip, ht⟩ := hp.tracks hthrown
    have hjoined := tracks_joined h.serving hskip ht hclear budget shed
    have hcap := envelope_fits h.fits hgroups budget p
    rcases hjoined.deliver hcap with ⟨hv, -⟩ | hacc
    · cases hv
    · refine sure_of_accepted hacc hroom (by rw [receive_eq hthrown]) ?_ ?_
      · rw [receive_eq hthrown]
        show p.dropped + _ = _
        rw [hp.dropped, Nat.zero_add]
      · intro ht
        have hstill := still_receive (n := n) hthrown budget shed
        have hsession : (Link.receive n.rt (n.setOf budget) shed p).session = n.sessionAfter budget p := by
          rw [receive_eq hthrown]
        have hafter : Tracks strictView (n.send budget shed none).drained _ _ := ht.congr rfl rfl
        unfold todo
        rw [hsession]
        exact ⟨skip_le budget hskip shed none, hafter.still hstill⟩

theorem sure_welcome (h : Serving strictView n) (budget : ℕ) (shed : Bool) (j : Joiner) :
    Sure (n.send budget shed (some j))
      (welcome (n.send budget shed (some j)).rt (n.send budget shed (some j)).spill j) := by
  have hsent := h.send budget shed (some j)
  have ht := tracks_snapshot hsent.sound j.player.id j.scripts j.facadeMembers
    (n.send budget shed (some j)).rt.simRate
  rcases ht.deliver (snapshot_fits _) with ⟨hv, -⟩ | hacc
  · cases hv
  · refine sure_of_accepted hacc ?_ rfl rfl (fun ht => ⟨le_rfl, ?_⟩)
    · rw [singles_snapshotEnvelope, spawnCount_singles]
      show 0 + _ ≤ _
      rw [Nat.zero_add]
      exact (length_snapshot hsent.sound.linked _).trans hsent.sound.bound
    · rw [todo_welcome]
      exact ht

theorem Smooth.step (h : Smooth n) (e : Event) (he : Acceptable n e) : Smooth (n.step e) := by
  have hserving := h.serving.step e (names_of_acceptable he)
  cases e with
  | act a => exact ⟨hserving, h.fits, fun p hp => ⟨(h.sure p hp).1, (h.sure p hp).2, (h.sure p hp).3, (h.sure p hp).4⟩⟩
  | drainDestroyed onEnd =>
    exact ⟨hserving, h.fits, fun p hp => ⟨(h.sure p hp).1, (h.sure p hp).2, (h.sure p hp).3, (h.sure p hp).4⟩⟩
  | tick => exact ⟨hserving, h.fits, fun p hp => ⟨(h.sure p hp).1, (h.sure p hp).2, (h.sure p hp).3, (h.sure p hp).4⟩⟩
  | send budget shed joining =>
    obtain ⟨hclear, hgroups, hroom⟩ := he
    refine ⟨hserving, ?_, ?_⟩
    · exact fun op hop => orderedOps_fit h.fits hgroups op (List.mem_of_mem_drop hop)
    · intro p' hp'
      cases joining with
      | some j =>
        obtain rfl := Option.some.inj hp'
        exact sure_welcome h.serving budget shed j
      | none =>
        obtain ⟨p, hp, rfl⟩ := Option.map_eq_some_iff.mp (show n.peer.map _ = some p' from hp')
        exact (h.sure p hp).receive h hclear hgroups (hroom rfl p hp)

theorem smooth_new (persisted : Option SessionRecords) (facadeMembers : HostKey → List String) (simRate : ℚ) :
    Smooth (new persisted facadeMembers simRate) :=
  ⟨serving_new persisted facadeMembers simRate, (fun op hop => by cases hop), (fun p hp => by cases hp)⟩

/-- **The mirror accepts what the authority sends.**  In an acceptable run no envelope meets the
entity cap or a cycle, and no structural op is dropped for naming an unknown identity. -/
theorem nothing_refused (persisted : Option SessionRecords) (facadeMembers : HostKey → List String)
    (simRate : ℚ) (es : List Event) (p : Peer)
    (h : Meets Link.step Acceptable (new persisted facadeMembers simRate) es)
    (hpeer : (exec Link.step (new persisted facadeMembers simRate) es).peer = some p) :
    p.thrown ≠ some .worldFull ∧ (∀ x, p.thrown ≠ some (.cycle x)) ∧ p.dropped = 0 := by
  have hsmooth : Smooth (exec Link.step (new persisted facadeMembers simRate) es) :=
    Meets.invariant (fun _ e hs he => hs.step e he) (smooth_new persisted facadeMembers simRate) h
  have hsure := hsmooth.sure p hpeer
  exact ⟨hsure.full, hsure.cycle, hsure.dropped⟩

end runs

/-! ### A parent that is elided -/

/-- An entity is moved beneath one made and released in the same interval. -/
def elidedParent : List Event :=
  [.send 10 false (some someone), .tick, spawnAt "a", spawnAt "b",
    .act (.op (.attachTo firstEntity 16777217)), .act (.op (.detach firstEntity)),
    .act (.op (.destroy 16777217)), .drainDestroyed [], .send 10 false none]

/-- An entity is moved beneath one that stays. -/
def keptParent : List Event :=
  [.send 10 false (some someone), .tick, spawnAt "a", spawnAt "b",
    .act (.op (.attachTo firstEntity 16777217)), .drainDestroyed [], .send 10 false none]

theorem nothing_refused_keptParent : ∃ p, (exec Link.step empty keptParent).peer = some p ∧
    p.thrown ≠ some .worldFull ∧ (∀ x, p.thrown ≠ some (.cycle x)) ∧ p.dropped = 0 := by
  obtain ⟨p, hp⟩ := Option.isSome_iff_exists.mp
    (show (exec Link.step empty keptParent).peer.isSome = true by decide)
  refine ⟨p, hp, nothing_refused none (fun _ => []) 60 keptParent p ?_ hp⟩
  show Meets Link.step Acceptable empty keptParent
  decide

/-- The move is sent, and names a parent the mirror never hears of. -/
theorem refused_elidedParent : ¬ ∀ (persisted : Option SessionRecords) (facadeMembers : HostKey → List String)
    (simRate : ℚ) (es : List Event) (p : Peer),
    (exec Link.step (new persisted facadeMembers simRate) es).peer = some p →
    p.thrown ≠ some .worldFull ∧ (∀ x, p.thrown ≠ some (.cycle x)) ∧ p.dropped = 0 := by
  intro h
  obtain ⟨p, hp⟩ := Option.isSome_iff_exists.mp
    (show (exec Link.step empty elidedParent).peer.isSome = true by decide)
  have hdropped : (exec Link.step empty elidedParent).peer.map Peer.dropped = some 1 := by decide
  have hzero : p.dropped = 0 := (h none (fun _ => []) 60 elidedParent p hp).2.2
  rw [hp, Option.map_some, hzero] at hdropped
  cases hdropped

end Link

end Grove
