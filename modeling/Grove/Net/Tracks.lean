import Grove.Client.Landing
import Grove.Net.Convert
import Grove.Net.Baseline

/-! # A peer tracks the authority

`Tracks v b m todo`: the mirror `m` follows a world from which the ops `todo`, those drained and
not yet sent to it, lead to the authority's world as of its last drain, `b`.  Three things keep it
so.  A drain appends the wire form of what was journaled since (`Tracks.extend`), provided nothing
that is kept was moved beneath an entity that is elided; an envelope takes ops off the front and
applies them (`Tracks.deliver`); a snapshot starts it (`tracks_snapshot`). -/

namespace Grove

/-- The mirror, and the ops still to come, lead to the forest of `b`. -/
structure Tracks (v : View) (b : Runtime) (m : Mirror) (todo : List WireSingleStructuralOp) : Prop where
  world : ∃ A, m.Follows v A ∧ A.run (wireEdits v todo) = some (b.forest v)
  unmap : m.pendingUnmap = []
  settled : m.rt.entities.pendingDestroy = []
  fits : ∀ op ∈ todo, op.Fits
  ordered : todo.Pairwise (fun a b => ¬ WireRespawns a b)
  held : ∀ x l, m.index.localOf x = some l → b.entities.table.Issued x
  brought : ∀ op ∈ todo, ∀ s, op.spawned = some s → b.entities.table.Issued s.netId
  removed : ∀ op ∈ todo, ∀ n, op.destroys = some n → b.entities.table.Issued n
  labels : ∀ x r, b.entities.record x = some r →
    (∀ l q, m.index.localOf x = some l → m.rt.entities.record l = some q →
      q.template = r.template ∧ q.ownerId = r.ownerId) ∧
    ∀ op ∈ todo, ∀ s, op.spawned = some s → s.netId = x →
      s.template = r.template ∧ s.owner.getD "" = r.ownerId

/-! ### Draining -/

section extend
variable {v : View} {b b' : Runtime} {m : Mirror} {todo : List WireSingleStructuralOp}

theorem mem_ephemeralIds {rt : Runtime} {ops : List StructuralOp} {x : EntityId} :
    x ∈ ephemeralIds rt ops ↔
      (∃ t, .spawn x t ∈ ops.flatMap StructuralOp.singles) ∧ rt.entities.record x = none := by
  unfold ephemeralIds
  rw [List.mem_filterMap]
  constructor
  · rintro ⟨op, hop, hx⟩
    cases op with
    | spawn id t =>
      simp only at hx
      split_ifs at hx with hnone
      obtain rfl := Option.some.inj hx
      exact ⟨⟨t, hop⟩, Option.isNone_iff_eq_none.mp hnone⟩
    | _ => cases hx
  · rintro ⟨⟨t, hop⟩, hnone⟩
    exact ⟨.spawn x t, hop, by simp [hnone]⟩

/-- The op is elided, or moves nothing beneath an entity that is. -/
def SingleStructuralOp.clearOf (ephemeral : List EntityId) : SingleStructuralOp → Bool
  | .reparent x q => x ∈ ephemeral ∨ q ∉ ephemeral
  | _ => true

/-- No op of the journal that is sent moves an entity beneath one that is elided. -/
def ClearOf (ephemeral : List EntityId) (js : List SingleStructuralOp) : Prop :=
  ∀ op ∈ js, op.clearOf ephemeral = true

instance (ephemeral : List EntityId) (js : List SingleStructuralOp) : Decidable (ClearOf ephemeral js) :=
  inferInstanceAs (Decidable (∀ op ∈ js, op.clearOf ephemeral = true))

/-- What a sent op came from. -/
theorem sentOf_cases {rt : Runtime} {ephemeral : List EntityId} {op : SingleStructuralOp}
    {w : WireSingleStructuralOp} (h : sentOf rt ephemeral op = some w) : op.id ∉ ephemeral ∧
      ((∃ id t s, op = .spawn id t ∧ rt.readEntitySnapshot id false = some s ∧ w = .spawn s) ∨
        (∃ id, op = .destroy id ∧ w = .destroy id) ∨
        (∃ id p, op = .reparent id p ∧ w = .reparent id (if p = noEntity then none else some p)) ∨
        (∃ id name added, op = .tag id name added ∧ isSay name = false ∧ w = .tag id name added) ∨
        ∃ id script props, op = .attach id script props ∧ w = .attach id ⟨script, props⟩) := by
  unfold sentOf toWireSingle at h
  split_ifs at h with he
  refine ⟨he, ?_⟩
  cases op with
  | spawn id t =>
    simp only at h
    cases hs : rt.readEntitySnapshot id false with
    | none => simp [hs] at h
    | some s =>
      simp only [hs, Option.some.injEq] at h
      exact Or.inl ⟨id, t, s, rfl, hs, h.symm⟩
  | destroy id => exact Or.inr (Or.inl ⟨id, rfl, (Option.some.inj h).symm⟩)
  | reparent id p => exact Or.inr (Or.inr (Or.inl ⟨id, p, rfl, (Option.some.inj h).symm⟩))
  | tag id name added =>
    simp only at h
    by_cases hsay : isSay name = true
    · simp [hsay] at h
    · rw [Bool.not_eq_true] at hsay
      simp only [hsay, Bool.false_eq_true, if_false, Option.some.injEq] at h
      exact Or.inr (Or.inr (Or.inr (Or.inl ⟨id, name, added, rfl, hsay, h.symm⟩)))
  | attach id script props =>
    exact Or.inr (Or.inr (Or.inr (Or.inr ⟨id, script, props, rfl, (Option.some.inj h).symm⟩)))

/-- What a spawn's snapshot says. -/
theorem readEntitySnapshot_label {rt : Runtime} {id : EntityId} {hierarchy : Bool} {s : EntitySnapshot}
    (h : rt.readEntitySnapshot id hierarchy = some s) : ∃ r, rt.entities.record id = some r ∧
      s.netId = id ∧ s.template = r.template ∧ s.owner.getD "" = r.ownerId := by
  unfold Runtime.readEntitySnapshot at h
  obtain ⟨r, hr, rfl⟩ := Option.map_eq_some_iff.mp h
  refine ⟨r, hr, rfl, rfl, ?_⟩
  by_cases h0 : r.ownerId = "" <;> simp [h0]

theorem spawned_sentOf {rt : Runtime} {ephemeral : List EntityId} {op : SingleStructuralOp}
    {w : WireSingleStructuralOp} {s : EntitySnapshot} (h : sentOf rt ephemeral op = some w)
    (hs : w.spawned = some s) : ∃ id t r, op = .spawn id t ∧
      rt.entities.record id = some r ∧ s.netId = id ∧ s.template = r.template ∧ s.owner.getD "" = r.ownerId := by
  obtain ⟨-, ⟨id, t, s', rfl, hsnap, rfl⟩ | ⟨_, -, rfl⟩ | ⟨_, _, -, rfl⟩ | ⟨_, _, _, -, -, rfl⟩ | ⟨_, _, _, -, rfl⟩⟩ :=
    sentOf_cases h
  · obtain rfl := Option.some.inj hs
    obtain ⟨r, hr, hn, ht, ho⟩ := readEntitySnapshot_label hsnap
    exact ⟨id, t, r, rfl, hr, hn, ht, ho⟩
  all_goals cases hs

theorem destroys_sentOf {rt : Runtime} {ephemeral : List EntityId} {op : SingleStructuralOp}
    {w : WireSingleStructuralOp} {n : NetId} (h : sentOf rt ephemeral op = some w)
    (hn : w.destroys = some n) : op = .destroy n := by
  obtain ⟨-, ⟨_, _, _, -, -, rfl⟩ | ⟨id, rfl, rfl⟩ | ⟨_, _, -, rfl⟩ | ⟨_, _, _, -, -, rfl⟩ | ⟨_, _, _, -, rfl⟩⟩ :=
    sentOf_cases h
  · cases hn
  · rw [Option.some.inj hn]
  all_goals cases hn

theorem fits_sentOf {rt : Runtime} {ephemeral : List EntityId} {op : SingleStructuralOp}
    {w : WireSingleStructuralOp} (h : sentOf rt ephemeral op = some w) : w.Fits := by
  obtain ⟨-, ⟨id, t, s, -, hsnap, rfl⟩ | ⟨_, -, rfl⟩ | ⟨_, _, -, rfl⟩ | ⟨_, _, _, -, -, rfl⟩ | ⟨_, _, _, -, rfl⟩⟩ :=
    sentOf_cases h
  · obtain ⟨r, hr, hn, -⟩ := readEntitySnapshot_label hsnap
    show s.netId ≤ maxSafeInteger
    rw [hn]
    exact rt.entities.table.le_maxSafeInteger_of_record
      (by rw [show rt.entities.table.record id = some r from hr]; rfl)
  all_goals trivial

/-- The ops of a stretch of journal, as they are sent. -/
theorem Tracks.extend (h : Tracks v b m todo) (hb : b.Sound v []) {js : List SingleStructuralOp}
    (hadv : b.Advances v b' js) {ephemeral : List EntityId}
    (hE : ∀ x, x ∈ ephemeral ↔ (∃ t, .spawn x t ∈ js) ∧ b'.entities.record x = none)
    (hclear : ClearOf ephemeral js) : Tracks v b' m (todo ++ js.filterMap (sentOf b' ephemeral)) := by
  obtain ⟨A, hf, hrun⟩ := h.world
  have hsend : ∀ op ∈ js, Sendable b' ephemeral op := by
    intro op hop
    refine sendable_of_record ?_
    rintro id t rfl hne
    cases hr : b'.entities.record id with
    | some r => rfl
    | none => exact absurd ((hE id).mpr ⟨⟨t, hop⟩, hr⟩) hne
  -- What is elided was not there at the last drain, and is not there now.
  have hold : ∀ x ∈ {x | x ∈ ephemeral}, b.entities.record x = none := by
    intro x hx
    obtain ⟨⟨t, ht⟩, -⟩ := (hE x).mp hx
    cases hr : b.entities.record x with
    | none => rfl
    | some r =>
      exact absurd (b.entities.table.issued_of_record
        (by rw [show b.entities.table.record x = some r from hr]; rfl)) (hadv.fresh x t ht).1
  have hnew : ∀ x ∈ {x | x ∈ ephemeral}, b'.entities.record x = none := fun x hx => ((hE x).mp hx).2
  have hapart : (b.forest v).Apart {x | x ∈ ephemeral} := by
    rintro z x - ⟨d, hd⟩ hx
    cases hz : b.entities.record z with
    | none =>
      rw [Runtime.forest_node_of_none hz] at hd
      cases hd
    | some r =>
      rw [Runtime.forest_node_of_record hz, Runtime.nodeOf] at hd
      have hpar := congrArg Prod.fst (Option.some.inj hd)
      simp only at hpar
      split_ifs at hpar with h0
      obtain rfl := Option.some.inj hpar
      obtain ⟨p, hp, -⟩ := hb.linked.up hz h0
      rw [hold _ hx] at hp
      cases hp
  have hedit : ∀ e ∈ edits v js, e.target ∉ {x | x ∈ ephemeral} → World.Edit.Clear e {x | x ∈ ephemeral} := by
    intro e he htarget x q heq
    obtain ⟨op, hop, hmem⟩ := List.mem_flatMap.mp he
    have hop' := hclear op hop
    rw [heq] at hmem htarget
    cases op with
    | reparent id p =>
      simp only [SingleStructuralOp.edits, List.mem_singleton, Edit.reparent.injEq] at hmem
      obtain ⟨rfl, hq⟩ := hmem
      split_ifs at hq with h0
      obtain rfl := Option.some.inj hq
      simp only [SingleStructuralOp.clearOf, decide_eq_true_eq] at hop'
      exact hop'.resolve_left htarget
    | spawn | destroy => simp [SingleStructuralOp.edits] at hmem
    | tag id name added =>
      simp only [SingleStructuralOp.edits, tagEdits] at hmem
      split_ifs at hmem <;> simp at hmem
    | attach id script props =>
      simp only [SingleStructuralOp.edits] at hmem
      split_ifs at hmem <;> simp at hmem
  have hrun' : (b.forest v).run (wireEdits v (js.filterMap (sentOf b' ephemeral))) = some (b'.forest v) := by
    have helide := World.run_elide (edits v js) hapart hedit hadv.replay
    rw [World.without_eq_self (fun x hx => Runtime.forest_node_of_none (hold x hx))
        (fun x hx hk => by
          have hk' : (b.entities.record x).isSome = true := hk
          rw [hold x hx] at hk'
          cases hk'),
      World.without_eq_self (fun x hx => Runtime.forest_node_of_none (hnew x hx))
        (fun x hx hk => by
          have hk' : (b'.entities.record x).isSome = true := hk
          rw [hnew x hx] at hk'
          cases hk')] at helide
    rw [wireEdits_sent hsend]
    exact helide
  refine ⟨⟨A, hf, ?_⟩, h.unmap, h.settled, ?_, ?_, fun x l hx => hadv.issued x (h.held x l hx), ?_, ?_, ?_⟩
  · rw [wireEdits, List.flatMap_append]
    exact (World.run_append_of_some hrun _).trans hrun'
  · intro op hop
    rcases List.mem_append.mp hop with hop | hop
    · exact h.fits op hop
    · obtain ⟨op₀, -, hsent⟩ := List.mem_filterMap.mp hop
      exact fits_sentOf hsent
  · refine List.pairwise_append.mpr ⟨h.ordered, ?_, ?_⟩
    · rw [List.pairwise_filterMap]
      refine hadv.noRespawn.imp ?_
      rintro a c hac w hw w' hw' ⟨n, s, hn, hs, hns⟩
      obtain ⟨id, t, r, rfl, -, hid, -⟩ := spawned_sentOf hw' hs
      obtain rfl := destroys_sentOf hw hn
      exact hac ⟨n, t, rfl, by rw [← hid, hns]⟩
    · rintro a ha c hc ⟨n, s, hn, hs, hns⟩
      obtain ⟨op₀, hop₀, hsent⟩ := List.mem_filterMap.mp hc
      obtain ⟨id, t, r, rfl, -, hid, -⟩ := spawned_sentOf hsent hs
      refine (hadv.fresh id t hop₀).1 ?_
      rw [← hid, hns]
      exact h.removed a ha n hn
  · intro op hop s hs
    rcases List.mem_append.mp hop with hop | hop
    · exact hadv.issued _ (h.brought op hop s hs)
    · obtain ⟨op₀, hop₀, hsent⟩ := List.mem_filterMap.mp hop
      obtain ⟨id, t, r, rfl, -, hid, -⟩ := spawned_sentOf hsent hs
      rw [hid]
      exact (hadv.fresh id t hop₀).2
  · intro op hop n hn
    rcases List.mem_append.mp hop with hop | hop
    · exact hadv.issued _ (h.removed op hop n hn)
    · obtain ⟨op₀, hop₀, hsent⟩ := List.mem_filterMap.mp hop
      obtain rfl := destroys_sentOf hsent hn
      exact hadv.destroyed n hop₀
  · intro x r' hr'
    have hsent : ∀ op ∈ js.filterMap (sentOf b' ephemeral), ∀ s, op.spawned = some s → s.netId = x →
        s.template = r'.template ∧ s.owner.getD "" = r'.ownerId := by
      intro op hop s hs hx
      obtain ⟨op₀, -, hsent⟩ := List.mem_filterMap.mp hop
      obtain ⟨id, t, r, -, hr, hid, ht, ho⟩ := spawned_sentOf hsent hs
      rw [← hid, hx, hr'] at hr
      obtain rfl := Option.some.inj hr
      exact ⟨ht, ho⟩
    rcases hadv.labels hr' with ⟨r, hr, ht, ho⟩ | ⟨t, hspawn⟩
    · obtain ⟨hloc, htodo⟩ := h.labels x r hr
      refine ⟨fun l q hl hq => ?_, fun op hop s hs hx => ?_⟩
      · obtain ⟨h1, h2⟩ := hloc l q hl hq
        exact ⟨h1.trans ht, h2.trans ho⟩
      · rcases List.mem_append.mp hop with hop | hop
        · obtain ⟨h1, h2⟩ := htodo op hop s hs hx
          exact ⟨h1.trans ht, h2.trans ho⟩
        · exact hsent op hop s hs hx
    · have hfresh := (hadv.fresh x t hspawn).1
      refine ⟨fun l q hl _ => absurd (h.held x l hl) hfresh, fun op hop s hs hx => ?_⟩
      rcases List.mem_append.mp hop with hop | hop
      · exact absurd (hx ▸ h.brought op hop s hs) hfresh
      · exact hsent op hop s hs hx

end extend

/-! ### Delivering -/

section deliver
variable {v : View} {b : Runtime} {m m' : Mirror} {ops rest : List WireSingleStructuralOp}

theorem spawned_of_mem_wireEdits {x : NetId} {d : Set String} (h : Edit.spawn x d ∈ wireEdits v ops) :
    ∃ op ∈ ops, ∃ s, op.spawned = some s ∧ s.netId = x := by
  obtain ⟨op, hop, hmem⟩ := List.mem_flatMap.mp h
  refine ⟨op, hop, ?_⟩
  cases op with
  | spawn s | enterInterest s =>
    refine ⟨s, rfl, ?_⟩
    simp only [WireSingleStructuralOp.edits, List.mem_cons, List.mem_append, List.mem_map] at hmem
    rcases hmem with hmem | ⟨p, -, hmem⟩ | hmem
    · exact (Edit.spawn.inj hmem).1.symm
    · cases hmem
    · split_ifs at hmem
      · simp at hmem
      · cases hmem
  | destroy | leaveInterest | reparent => simp [WireSingleStructuralOp.edits] at hmem
  | tag n name added =>
    simp only [WireSingleStructuralOp.edits, tagEdits] at hmem
    split_ifs at hmem <;> simp at hmem
  | attach n a =>
    simp only [WireSingleStructuralOp.edits] at hmem
    split_ifs at hmem <;> simp at hmem
  | playerJoin | playerLeave => cases hmem

/-- Once the journal of an envelope has landed, the rest of it leaves the mirror in step. -/
theorem tracks_of_landed {out : Mirror} {A A₁ : World NetId (Set String)} (h : Tracks v b m (ops ++ rest))
    (hf : m.Follows v A) (hrun : A.run (wireEdits v ops) = some A₁)
    (hrest : A₁.run (wireEdits v rest) = some (b.forest v)) (hland : Mirror.Landed v m m' ops A₁)
    (hset : Mirror.Settled m' out) : Tracks v b out rest := by
  obtain ⟨hdrain, hkeep⟩ := hland.follows.drain
  have hout : out.Follows v A₁ :=
    hdrain.of_same hset.entities hset.tags (hset.group hdrain.sound.group) hset.index hset.pendingUnmap
  have hissued : ∀ x l, out.index.localOf x = some l → b.entities.table.Issued x := by
    intro x l hx
    have hknown : x ∈ A₁.known := by
      rcases (hout.mapped x).mp (by rw [hx]; rfl) with hk | hk
      · exact hk
      · rw [hset.pendingUnmap] at hk
        cases hk
    rcases World.mem_known_of_run _ hrun hknown with hk | ⟨d, hd⟩
    · obtain ⟨l', hl'⟩ := Option.isSome_iff_exists.mp ((hf.mapped x).mpr (Or.inl hk))
      exact h.held x l' hl'
    · obtain ⟨op, hop, s, hs, rfl⟩ := spawned_of_mem_wireEdits hd
      exact h.brought op (List.mem_append_left _ hop) s hs
  refine ⟨⟨A₁, hout, hrest⟩, hset.pendingUnmap, ?_, fun op hop => h.fits op (List.mem_append_right _ hop),
    (List.pairwise_append.mp h.ordered).2.1, hissued,
    fun op hop => h.brought op (List.mem_append_right _ hop),
    fun op hop => h.removed op (List.mem_append_right _ hop), ?_⟩
  · rw [hset.entities]
    exact (Runtime.tornDown_drainDestroyed hland.follows.sound).pending
  · intro x r hr
    obtain ⟨hloc, htodo⟩ := h.labels x r hr
    refine ⟨fun l q hl hq => ?_, fun op hop => htodo op (List.mem_append_right _ hop)⟩
    rw [hset.entities] at hq
    obtain ⟨q', hq', ht', ho'⟩ := hkeep l q hq
    have hl' : m'.index.localOf x = some l := by
      rw [hset.index] at hl
      rw [m'.localOf_drain] at hl
      split_ifs at hl
      exact hl
    rcases hland.labels x l q' hl' hq' with ⟨q₀, hl₀, hq₀, ht, ho⟩ | ⟨op, hop, s, hs, hx, ht, ho⟩
    · obtain ⟨h1, h2⟩ := hloc l q₀ hl₀ hq₀
      exact ⟨(ht.trans ht').symm.trans h1, (ho.trans ho').symm.trans h2⟩
    · obtain ⟨h1, h2⟩ := htodo op (List.mem_append_left _ hop) s hs hx
      exact ⟨(ht.trans ht').symm.trans h1, (ho.trans ho').symm.trans h2⟩

theorem Tracks.opening {todo : List WireSingleStructuralOp} (h : Tracks v b m todo) (envelope : StateEnvelope) :
    Tracks v b (m.opening envelope) todo := by
  obtain ⟨A, hf, hrun⟩ := h.world
  exact ⟨⟨A, hf.of_same rfl rfl hf.sound.group rfl rfl, hrun⟩, h.unmap, h.settled, h.fits, h.ordered, h.held,
    h.brought, h.removed, h.labels⟩

/-- What an envelope does to a mirror that tracks the authority. -/
structure Accepted (v : View) (b : Runtime) (m : Mirror) (envelope : StateEnvelope)
    (rest : List WireSingleStructuralOp) : Prop where
  unknown : v.strict = true →
    (Mirror.applyJournal envelope.structural (m.opening envelope)).1.counters.unknownNetId =
      m.counters.unknownNetId
  cycle : ∀ x, (m.applyState envelope).2 ≠ some (.cycle x)
  full : (m.applyState envelope).2 = some .worldFull → maxEntities <
    m.rt.entities.table.liveCount + spawnCount (envelope.structural.flatMap WireStructuralOp.singles)
  tracks : (m.applyState envelope).2 = none → Tracks v b (m.applyState envelope).1 rest

/-- How the front of what is still to come fares on the mirror. -/
theorem Tracks.fares {envelope : StateEnvelope}
    (h : Tracks v b m (envelope.structural.flatMap WireStructuralOp.singles ++ rest))
    (hcap : ∀ op ∈ envelope.structural, op.singles.length ≤ maxWireItems) :
    ∃ A A₁, (m.opening envelope).Follows v A ∧
      A.run (wireEdits v (envelope.structural.flatMap WireStructuralOp.singles)) = some A₁ ∧
      A₁.run (wireEdits v rest) = some (b.forest v) ∧
      Mirror.Fares v (m.opening envelope) (Mirror.applyJournal envelope.structural (m.opening envelope))
        (envelope.structural.flatMap WireStructuralOp.singles) A₁ := by
  have ho := h.opening envelope
  obtain ⟨A, hf, hrun⟩ := ho.world
  rw [wireEdits, List.flatMap_append, World.run_append] at hrun
  obtain ⟨A₁, hrun₁, hrest⟩ := Option.bind_eq_some_iff.mp hrun
  refine ⟨A, A₁, hf, hrun₁, hrest, ?_⟩
  rw [Mirror.applyJournal_eq hcap]
  exact Mirror.applySingles_fares _ hf (fun op hop => ho.fits op (List.mem_append_left _ hop))
    (List.pairwise_append.mp ho.ordered).1
    (fun op hop s hs hmem => by rw [ho.unmap] at hmem; cases hmem) hrun₁

/-- An envelope that takes ops off the front of those still to come. -/
theorem Tracks.deliver {envelope : StateEnvelope}
    (h : Tracks v b m (envelope.structural.flatMap WireStructuralOp.singles ++ rest))
    (hcap : ∀ op ∈ envelope.structural, op.singles.length ≤ maxWireItems) :
    (v.tags = true ∧ m.counters.oversizedList < (m.applyState envelope).1.counters.oversizedList) ∨
      Accepted v b m envelope rest := by
  have ho := h.opening envelope
  obtain ⟨A, A₁, hf, hrun₁, hrest, hfares⟩ := h.fares hcap
  cases hjournal : Mirror.applyJournal envelope.structural (m.opening envelope) with
  | mk m' err =>
    rw [hjournal] at hfares
    cases err with
    | some err =>
      have happly := Mirror.applyState_of_error hjournal
      rcases hfares with ⟨hv, hlt⟩ | hgood
      · left
        rw [happly]
        exact ⟨hv, hlt⟩
      · right
        refine ⟨?_, ?_, ?_, ?_⟩
        · rw [hjournal]
          exact hgood.unknown
        · rw [happly]
          exact hgood.cycle
        · rw [happly]
          exact hgood.full
        · rw [happly]
          intro he
          cases he
    | none =>
      obtain ⟨hset, herr⟩ := Mirror.applyState_settled hjournal
      rcases hfares with ⟨hv, hlt⟩ | hgood
      · exact Or.inl ⟨hv, lt_of_lt_of_le hlt hset.oversizedList⟩
      · refine Or.inr ⟨?_, ?_, ?_, fun _ => ?_⟩
        · rw [hjournal]
          exact hgood.unknown
        · intro x hx
          obtain ⟨f, hf⟩ := herr _ hx
          cases hf
        · intro hx
          obtain ⟨f, hf⟩ := herr _ hx
          cases hf
        · exact tracks_of_landed ho hf hrun₁ hrest (hgood.landed rfl) hset

end deliver

/-! ### Joining -/

section join
variable {v : View} {rt : Runtime}

theorem follows_new (scripts : Option ScriptIndex) (members : HostKey → List String) (simRate : ℚ) :
    (Mirror.new scripts members simRate).Follows v World.nothing := by
  have hrec : ∀ x, (Mirror.new scripts members simRate).rt.entities.record x = none := Entities.record_empty
  refine ⟨Runtime.new_sound v _ members simRate, ?_, ?_, ?_, ?_, ?_, ?_, ?_, ?_⟩
  · intro x hx
    cases hx
  · intro x
    simp [Mirror.new, MirrorIndex.empty, MirrorIndex.localOf, World.nothing]
  · intro x hx
    cases hx
  · intro x y l hx
    cases hx
  · intro x l hx
    cases hx
  · intro x p d hx
    cases hx
  · intro x l _ hx
    cases hx
  · intro l r hr
    rw [hrec] at hr
    cases hr

theorem singles_snapshotEnvelope (snapshot : WorldSnapshot) :
    (Mirror.snapshotEnvelope snapshot).structural.flatMap WireStructuralOp.singles =
      snapshot.players.map .playerJoin ++ snapshot.entities.map .spawn := by
  simp only [Mirror.snapshotEnvelope, List.flatMap_append, List.flatMap_map, WireStructuralOp.singles]
  rw [List.map_eq_flatMap, List.map_eq_flatMap]

/-- A fresh mirror tracks the world its snapshot was read from. -/
theorem tracks_snapshot (hs : rt.Sound v []) (player : PlayerId) (scripts : Option ScriptIndex)
    (members : HostKey → List String) (simRate : ℚ) :
    Tracks v rt (Mirror.new scripts members simRate)
      ((Mirror.snapshotEnvelope (buildSnapshot rt player)).structural.flatMap WireStructuralOp.singles ++ []) := by
  rw [List.append_nil, singles_snapshotEnvelope]
  have hjoins : wireEdits v ((buildSnapshot rt player).players.map .playerJoin) = [] := by
    unfold wireEdits
    rw [List.flatMap_eq_nil_iff]
    intro op hop
    obtain ⟨p, -, rfl⟩ := List.mem_map.mp hop
    rfl
  have hspawned : ∀ op ∈ (buildSnapshot rt player).players.map WireSingleStructuralOp.playerJoin ++
      (buildSnapshot rt player).entities.map .spawn, ∀ s, op.spawned = some s →
      ∃ r, rt.entities.record s.netId = some r ∧ s.template = r.template ∧ s.owner.getD "" = r.ownerId := by
    intro op hop s hs
    rcases List.mem_append.mp hop with hop | hop
    · obtain ⟨p, -, rfl⟩ := List.mem_map.mp hop
      cases hs
    · obtain ⟨s', hs', rfl⟩ := List.mem_map.mp hop
      obtain rfl := Option.some.inj hs
      obtain ⟨id, -, hsnap⟩ := List.mem_filterMap.mp hs'
      obtain ⟨r, hr, hn, ht, ho⟩ := readEntitySnapshot_label hsnap
      exact ⟨r, by rw [hn]; exact hr, ht, ho⟩
  have hdestroys : ∀ op ∈ (buildSnapshot rt player).players.map WireSingleStructuralOp.playerJoin ++
      (buildSnapshot rt player).entities.map .spawn, op.destroys = none := by
    intro op hop
    rcases List.mem_append.mp hop with hop | hop
    · obtain ⟨p, -, rfl⟩ := List.mem_map.mp hop
      rfl
    · obtain ⟨s', -, rfl⟩ := List.mem_map.mp hop
      rfl
  refine ⟨⟨World.nothing, follows_new scripts members simRate, ?_⟩, rfl, rfl, ?_, ?_, ?_, ?_, ?_, ?_⟩
  · rw [wireEdits, List.flatMap_append]
    show World.nothing.run (wireEdits v _ ++ wireEdits v _) = _
    rw [hjoins, List.nil_append]
    exact run_snapshot hs.linked player
  · intro op hop
    cases hw : op.spawned with
    | some s =>
      obtain ⟨r, hr, -⟩ := hspawned op hop s hw
      have hle : s.netId ≤ maxSafeInteger := rt.entities.table.le_maxSafeInteger_of_record
        (by rw [show rt.entities.table.record s.netId = some r from hr]; rfl)
      cases op with
      | spawn | enterInterest => obtain rfl := Option.some.inj hw; exact hle
      | _ => cases hw
    | none =>
      rcases List.mem_append.mp hop with hop | hop
      · obtain ⟨p, -, rfl⟩ := List.mem_map.mp hop
        trivial
      · obtain ⟨s', -, rfl⟩ := List.mem_map.mp hop
        cases hw
  · refine List.pairwise_of_forall_mem_list ?_
    rintro a ha c - ⟨n, s, hn, -⟩
    rw [hdestroys a ha] at hn
    cases hn
  · intro x l hx
    cases hx
  · intro op hop s hs
    obtain ⟨r, hr, -⟩ := hspawned op hop s hs
    exact rt.entities.table.issued_of_record
      (by rw [show rt.entities.table.record s.netId = some r from hr]; rfl)
  · intro op hop n hn
    rw [hdestroys op hop] at hn
    cases hn
  · intro x r hr
    refine ⟨(fun l q hl _ => by cases hl), fun op hop s hs hx => ?_⟩
    obtain ⟨r', hr', ht, ho⟩ := hspawned op hop s hs
    rw [hx, hr] at hr'
    obtain rfl := Option.some.inj hr'
    exact ⟨ht, ho⟩

end join

/-! ### What a mirror in step holds -/

section holds
variable {v : View} {b : Runtime} {m : Mirror} {todo : List WireSingleStructuralOp} {x : NetId}

theorem destroys_of_mem_edits {op : WireSingleStructuralOp} (h : Edit.destroy x ∈ op.edits v) :
    op.destroys = some x := by
  cases op with
  | destroy n | leaveInterest n =>
    obtain rfl := Edit.destroy.inj (List.mem_singleton.mp h)
    rfl
  | spawn s | enterInterest s =>
    simp only [WireSingleStructuralOp.edits, List.mem_cons, List.mem_append, List.mem_map, reduceCtorEq,
      and_false, exists_false, false_or] at h
    split_ifs at h
    · simp at h
    · cases h
  | reparent n p => simp [WireSingleStructuralOp.edits] at h
  | tag n name added =>
    simp only [WireSingleStructuralOp.edits, tagEdits] at h
    split_ifs at h <;> simp at h
  | attach n a =>
    simp only [WireSingleStructuralOp.edits] at h
    split_ifs at h <;> simp at h
  | playerJoin | playerLeave => cases h

/-- The spawn of an op is its first edit. -/
theorem spawn_mem_wireEdits {op : WireSingleStructuralOp} (hop : op ∈ todo) {s : EntitySnapshot}
    (hs : op.spawned = some s) : Edit.spawn s.netId ∅ ∈ wireEdits v todo := by
  refine List.mem_flatMap.mpr ⟨op, hop, ?_⟩
  cases op with
  | spawn s' | enterInterest s' => obtain rfl := Option.some.inj hs; exact List.mem_cons_self
  | _ => cases hs

/-- Ops that bring nothing back are edits that bring nothing back. -/
theorem not_revives_wireEdits (h : todo.Pairwise (fun a b => ¬ WireRespawns a b)) :
    (wireEdits v todo).Pairwise (fun a b => ¬ Edit.Revives a b) := by
  have hrev : ∀ {a b : Edit NetId (Set String)}, Edit.Revives a b → ∃ y d, a = .destroy y ∧ b = .spawn y d := by
    rintro a b ⟨y, ha, hb⟩
    cases a with
    | destroy z =>
      cases b with
      | spawn z' d =>
        obtain rfl := Option.some.inj ha
        obtain rfl := Option.some.inj hb
        exact ⟨_, _, rfl, rfl⟩
      | _ => cases hb
    | _ => cases ha
  refine List.pairwise_flatMap.mpr ⟨fun op _ => ?_, h.imp ?_⟩
  · refine List.pairwise_of_forall_mem_list ?_
    rintro a ha c hc hac
    obtain ⟨y, d, rfl, rfl⟩ := hrev hac
    -- One op spawns or destroys, and not both.
    have hdes := destroys_of_mem_edits ha
    have hc' : _ ∈ wireEdits v [op] := List.mem_flatMap.mpr ⟨op, List.mem_singleton_self op, hc⟩
    obtain ⟨op', hop', s, hs, -⟩ := spawned_of_mem_wireEdits hc'
    obtain rfl := List.mem_singleton.mp hop'
    cases op' <;> simp_all [WireSingleStructuralOp.destroys, WireSingleStructuralOp.spawned]
  · rintro op op' hop a ha c hc hac
    obtain ⟨y, d, rfl, rfl⟩ := hrev hac
    have hc' : _ ∈ wireEdits v [op'] := List.mem_flatMap.mpr ⟨op', List.mem_singleton_self op', hc⟩
    obtain ⟨op'', hop'', s, hs, hy⟩ := spawned_of_mem_wireEdits hc'
    obtain rfl := List.mem_singleton.mp hop''
    exact hop ⟨y, s, destroys_of_mem_edits ha, hs, hy⟩

/-- No spawn of an entity the mirror holds is to come. -/
theorem Tracks.not_spawned (h : Tracks v b m todo) {l : EntityId} (hl : m.index.localOf x = some l)
    {op : WireSingleStructuralOp} (hop : op ∈ todo) {s : EntitySnapshot} (hs : op.spawned = some s) : s.netId ≠ x := by
  obtain ⟨A, hf, hrun⟩ := h.world
  rintro rfl
  have hknown : s.netId ∈ A.known := by
    rcases (hf.mapped s.netId).mp (by rw [hl]; rfl) with hk | hk
    · exact hk
    · rw [h.unmap] at hk
      cases hk
  exact World.not_spawned_of_known _ hrun (not_revives_wireEdits h.ordered) hknown ∅ (spawn_mem_wireEdits hop hs)

/-- What is there on the server and held by the mirror is there on the mirror. -/
theorem Tracks.there (h : Tracks v b m todo) {r : EntityRecord} (hr : b.entities.record x = some r) {l : EntityId}
    (hl : m.index.localOf x = some l) : ∃ q, m.rt.entities.record l = some q := by
  obtain ⟨A, hf, hrun⟩ := h.world
  cases hn : A.node x with
  | some pd =>
    obtain ⟨l', q, hl', hq, -⟩ := hf.node hn
    obtain rfl := Option.some.inj (hl.symm.trans hl')
    exact ⟨q, hq⟩
  | none =>
    have hnone := World.node_none_of_run _ hrun hn (fun d hd => by
      obtain ⟨op, hop, s, hs, hx⟩ := spawned_of_mem_wireEdits hd
      exact h.not_spawned hl hop hs hx)
    rw [Runtime.forest_node_of_record hr] at hnone
    cases hnone

/-- What is there on the server and not held by the mirror has its spawn to come. -/
theorem Tracks.awaited (h : Tracks v b m todo) {r : EntityRecord} (hr : b.entities.record x = some r)
    (hl : m.index.localOf x = none) : ∃ op ∈ todo, ∃ s, op.spawned = some s ∧ s.netId = x := by
  obtain ⟨A, hf, hrun⟩ := h.world
  by_contra hnone
  push Not at hnone
  have hn : A.node x = none := by
    cases hn : A.node x with
    | none => rfl
    | some pd =>
      obtain ⟨l, q, hl', -⟩ := hf.node hn
      rw [hl] at hl'
      cases hl'
  have hfin := World.node_none_of_run _ hrun hn (fun d hd => by
    obtain ⟨op, hop, s, hs, hx⟩ := spawned_of_mem_wireEdits hd
    exact hnone op hop s hs hx)
  rw [Runtime.forest_node_of_record hr] at hfin
  cases hfin

end holds

end Grove
