import Grove.Client.Apply

/-! # Ops land on a mirror in step

What applying a list of ops does to a mirror that follows a world on which the ops' edits run
(`applySingles_fares`): no op is dropped and none is refused, short of the world's cap, and when
nothing throws the mirror follows the edited world (`Good`, `Landed`).  A list past the wire's cap
is refused whole and only a counter shows it: where tags count that is the other outcome. -/

namespace Grove

namespace Mirror

/-- The labels of `m'` are those of `m`, or of an entity the ops brought. -/
def LabelsFrom (m m' : Mirror) (ops : List WireSingleStructuralOp) : Prop :=
  ∀ x l r', m'.index.localOf x = some l → m'.rt.entities.record l = some r' →
    (∃ r, m.index.localOf x = some l ∧ m.rt.entities.record l = some r ∧
      r.template = r'.template ∧ r.ownerId = r'.ownerId) ∨
    ∃ op ∈ ops, ∃ s, op.spawned = some s ∧ s.netId = x ∧ s.template = r'.template ∧
      s.owner.getD "" = r'.ownerId

/-- Ops that went through. -/
structure Landed (v : View) (m m' : Mirror) (ops : List WireSingleStructuralOp)
    (A' : World NetId (Set String)) : Prop where
  follows : Follows v m' A'
  liveCount : m'.rt.entities.table.liveCount = m.rt.entities.table.liveCount + spawnCount ops
  unmap : ∀ x ∈ m'.pendingUnmap, x ∈ m.pendingUnmap ∨ ∃ op ∈ ops, op.destroys = some x
  labels : LabelsFrom m m' ops

/-- What became of ops whose edits take the world to `A'`. -/
structure Good (v : View) (m : Mirror) (out : Mirror × Option LoadError) (ops : List WireSingleStructuralOp)
    (A' : World NetId (Set String)) : Prop where
  unknown : v.strict = true → out.1.counters.unknownNetId = m.counters.unknownNetId
  cycle : ∀ x, out.2 ≠ some (.cycle x)
  full : out.2 = some .worldFull → maxEntities < m.rt.entities.table.liveCount + spawnCount ops
  landed : out.2 = none → Landed v m out.1 ops A'

/-- As `Good`, or a list was refused and counted where tags count. -/
def Fares (v : View) (m : Mirror) (out : Mirror × Option LoadError) (ops : List WireSingleStructuralOp)
    (A' : World NetId (Set String)) : Prop :=
  (v.tags = true ∧ m.counters.oversizedList < out.1.counters.oversizedList) ∨ Good v m out ops A'

section good
variable {v : View} {m m' m'' : Mirror} {A A' A'' : World NetId (Set String)}

theorem spawnCount_append (ops ops' : List WireSingleStructuralOp) :
    spawnCount (ops ++ ops') = spawnCount ops + spawnCount ops' := List.countP_append

theorem LabelsFrom.trans {ops ops' : List WireSingleStructuralOp} (h : LabelsFrom m m' ops)
    (h' : LabelsFrom m' m'' ops') : LabelsFrom m m'' (ops ++ ops') := by
  intro x l r'' hx hr''
  rcases h' x l r'' hx hr'' with ⟨r', hx', hr', ht', ho'⟩ | ⟨op, hop, s, hs⟩
  · rcases h x l r' hx' hr' with ⟨r, hx, hr, ht, ho⟩ | ⟨op, hop, s, hs, hn, ht, ho⟩
    · exact Or.inl ⟨r, hx, hr, ht.trans ht', ho.trans ho'⟩
    · exact Or.inr ⟨op, List.mem_append_left _ hop, s, hs, hn, ht.trans ht', ho.trans ho'⟩
  · exact Or.inr ⟨op, List.mem_append_right _ hop, s, hs⟩

theorem labelsFrom_of_keeps {ops : List WireSingleStructuralOp} (hi : m'.index = m.index)
    (h : KeepsLabels m.rt m'.rt) : LabelsFrom m m' ops := by
  intro x l r' hx hr'
  obtain ⟨r, hr, ht, ho⟩ := h l r' hr'
  exact Or.inl ⟨r, hi ▸ hx, hr, ht, ho⟩

theorem Landed.trans {ops ops' : List WireSingleStructuralOp} (h : Landed v m m' ops A')
    (h' : Landed v m' m'' ops' A'') : Landed v m m'' (ops ++ ops') A'' where
  follows := h'.follows
  liveCount := by rw [h'.liveCount, h.liveCount, spawnCount_append, Nat.add_assoc]
  unmap := by
    intro x hx
    rcases h'.unmap x hx with hx | ⟨op, hop, hd⟩
    · rcases h.unmap x hx with hx | ⟨op, hop, hd⟩
      · exact Or.inl hx
      · exact Or.inr ⟨op, List.mem_append_left _ hop, hd⟩
    · exact Or.inr ⟨op, List.mem_append_right _ hop, hd⟩
  labels := LabelsFrom.trans h.labels h'.labels

/-- A second stretch of ops after one that went through. -/
theorem Good.trans {ops ops' : List WireSingleStructuralOp} {out : Mirror × Option LoadError}
    (h : Good v m (m', none) ops A') (h' : Good v m' out ops' A'') : Good v m out (ops ++ ops') A'' where
  unknown := fun hv => (h'.unknown hv).trans (h.unknown hv)
  cycle := h'.cycle
  full := by
    intro hf
    have hfull := h'.full hf
    have hlive : m'.rt.entities.table.liveCount = _ := (h.landed rfl).liveCount
    rw [spawnCount_append]
    omega
  landed := fun he => (h.landed rfl).trans (h'.landed he)

theorem Landed.good {ops : List WireSingleStructuralOp} (h : Landed v m m' ops A')
    (hu : m'.counters.unknownNetId = m.counters.unknownNetId) : Good v m (m', none) ops A' :=
  ⟨fun _ => hu, (fun _ he => by cases he), (fun he => by cases he), fun _ => h⟩

theorem Good.trans_fares {ops ops' : List WireSingleStructuralOp} {out : Mirror × Option LoadError}
    (h : Good v m (m', none) ops A') (hg : Grows m m') (h' : Fares v m' out ops' A'') :
    Fares v m out (ops ++ ops') A'' := by
  rcases h' with ⟨hv, hlt⟩ | h'
  · exact Or.inl ⟨hv, lt_of_le_of_lt hg.oversizedList hlt⟩
  · exact Or.inr (h.trans h')

/-- A call that keeps the entities keeps the mirror in step. -/
theorem Landed.of_same (h : Follows v m A) (he : m'.rt.entities = m.rt.entities)
    (ht : m'.rt.tags = m.rt.tags) (hg : m'.rt.channels.group = none ↔ m'.rt.channels.groupDepth = 0)
    (hi : m'.index = m.index) (hu : m'.pendingUnmap = m.pendingUnmap) : Landed v m m' [] A where
  follows := h.of_same he ht hg hi hu
  liveCount := by rw [he]; rfl
  unmap := fun x hx => Or.inl (hu ▸ hx)
  labels := labelsFrom_of_keeps hi (keepsLabels_of_eq he)

/-! #### Scripts -/

theorem hoistState_error {rid : RecordId} : ∀ {fields : List (String × JsValue)} {rt : Runtime} {err : LoadError},
    (Runtime.hoistState rid fields rt).2 = some err → ∃ f, err = .wiring f
  | [], rt, err, h => by cases h
  | (field, authored) :: rest, rt, err, h => by
    unfold Runtime.hoistState at h
    split at h
    · rename_i err' heq
      obtain rfl := Option.some.inj h
      unfold Runtime.hoistField at heq
      simp only at heq
      split_ifs at heq
      · exact ⟨field, (Except.error.inj heq).symm⟩
      · exact ⟨field, (Except.error.inj heq).symm⟩
    · exact hoistState_error h

theorem bindWrappers_error {rid : RecordId} : ∀ {wrappers : List (String × Wrapper)} {rt : Runtime}
    {err : LoadError}, (Runtime.bindWrappers rid wrappers rt).2 = some err → ∃ f, err = .wiring f
  | [], rt, err, h => by cases h
  | (field, w) :: rest, rt, err, h => by
    unfold Runtime.bindWrappers at h
    split at h
    · rename_i err' heq
      obtain rfl := Option.some.inj h
      unfold Runtime.bindWrapper at heq
      simp only at heq
      split at heq
      · exact ⟨field, (Except.error.inj heq).symm⟩
      · cases heq
    · exact bindWrappers_error h

/-- An attach fails in the wiring alone. -/
theorem attachToEntity_error {rt : Runtime} {id : EntityId} {klass : Runtime.ScriptClass}
    {inst : ScriptInstance} {err : LoadError} (h : (rt.attachToEntity id klass inst).2 = some err) :
    ∃ f, err = .wiring f := by
  have hattach : ∀ {err}, (rt.attach (.entity id) klass inst).2 = some err → ∃ f, err = .wiring f := by
    intro err h
    unfold Runtime.attach at h
    simp only at h
    split at h
    · cases h
    · rename_i rid _
      split at h
      · rename_i rt₁ err' heq
        obtain rfl := Option.some.inj h
        exact hoistState_error (congrArg Prod.snd heq)
      · rename_i rt₁ heq
        split at h
        · rename_i rt₂ err' heq'
          obtain rfl := Option.some.inj h
          exact bindWrappers_error (congrArg Prod.snd heq')
        · cases h
  unfold Runtime.attachToEntity at h
  split at h
  · rename_i rt' err' heq
    obtain rfl := Option.some.inj h
    exact hattach (congrArg Prod.snd heq)
  · split at h <;> cases h

theorem landed_attach (h : Follows v m A) (loc : EntityId) (a : WireScriptAttachment) :
    Landed v m (m.attach loc a).1 [] A := by
  unfold attach
  split
  · exact Landed.of_same h rfl rfl h.sound.group rfl rfl
  · split_ifs
    · exact Landed.of_same h rfl rfl h.sound.group rfl rfl
    · split
      · exact Landed.of_same h rfl rfl h.sound.group rfl rfl
      · rename_i klass _
        have hc := Runtime.attach_calm m.rt (.entity loc) (klass a.props) ⟨some a.script, a.props⟩
        simp only [Runtime.attachToEntity]
        split
        · rename_i rt err heq
          rw [heq] at hc
          exact Landed.of_same h hc.entities hc.tags (hc.sound h.sound).group rfl rfl
        · rename_i rt heq
          rw [heq] at hc
          exact Landed.of_same h hc.entities hc.tags
            (Runtime.markStructural_sound (hc.sound h.sound) _).group rfl rfl

theorem attach_error {loc : EntityId} {a : WireScriptAttachment} {err : LoadError}
    (h : (m.attach loc a).2 = some err) : ∃ f, err = .wiring f := by
  unfold attach at h
  split at h
  · cases h
  · split_ifs at h
    split at h
    · cases h
    · exact attachToEntity_error h

theorem attach_counters (loc : EntityId) (a : WireScriptAttachment) :
    (m.attach loc a).1.counters.unknownNetId = m.counters.unknownNetId := by
  unfold attach
  split
  · rfl
  · split_ifs
    · rfl
    · split <;> rfl

theorem attachAll_spec (loc : EntityId) : ∀ (as : List WireScriptAttachment) {m : Mirror}, Follows v m A →
    Landed v m (attachAll loc as m).1 [] A ∧
      (∀ err, (attachAll loc as m).2 = some err → ∃ f, err = .wiring f) ∧
      (attachAll loc as m).1.counters.unknownNetId = m.counters.unknownNetId
  | [], m, h => ⟨Landed.of_same h rfl rfl h.sound.group rfl rfl, (fun err he => by cases he), rfl⟩
  | a :: as, m, h => by
    have hl := landed_attach h loc a
    have hu := attach_counters (m := m) loc a
    unfold attachAll
    split
    · rename_i m' err heq
      rw [heq] at hl hu
      refine ⟨hl, ?_, hu⟩
      intro err' he
      obtain rfl := Option.some.inj he
      exact attach_error (congrArg Prod.snd heq)
    · rename_i m' heq
      rw [heq] at hl hu
      obtain ⟨hl', herr, hu'⟩ := attachAll_spec loc as hl.follows
      exact ⟨hl.trans hl', herr, hu'.trans hu⟩

/-! #### Spawns -/

theorem isSome_of_step_modify {n : NetId} {f : Set String → Set String} (hstep : A.step (.modify n f) = some A') :
    (A'.node n).isSome := by
  simp only [World.step] at hstep
  split at hstep
  · cases hstep
  · obtain rfl := Option.some.inj hstep
    simp only [Function.update_self]
    rfl

/-- The tags of a spawn, one by one. -/
theorem landed_tags {n : NetId} {loc : EntityId} : ∀ (tags : List String) {m : Mirror}
    {A A' : World NetId (Set String)}, Follows v m A → m.index.localOf n = some loc → (A.node n).isSome →
    A.run (if v.tags then tags.map (fun t => .modify n (retagged t true)) else []) = some A' →
    Landed v m { m with rt := tags.foldl (fun rt tag => rt.tag loc tag) m.rt } [] A'
  | [], m, A, A', h, _, _, hrun => by
    have hA : A = A' := by
      simp only [List.map_nil, ite_self, World.run, Option.some.injEq] at hrun
      exact hrun
    exact hA ▸ Landed.of_same h rfl rfl h.sound.group rfl rfl
  | t :: tags, m, A, A', h, hloc, hn, hrun => by
    -- The world either takes the tag or, where tags do not count, stays as it is.
    obtain ⟨A₁, hstep, hn₁, hrun₁⟩ : ∃ A₁,
        A.step (if v.tags then .modify n (retagged t true) else .touch n) = some A₁ ∧
        (A₁.node n).isSome ∧
        A₁.run (if v.tags then tags.map (fun t => .modify n (retagged t true)) else []) = some A' := by
      by_cases hv : v.tags = true
      · rw [if_pos hv, List.map_cons] at hrun
        simp only [World.run] at hrun
        obtain ⟨A₁, hstep, hrun₁⟩ := Option.bind_eq_some_iff.mp hrun
        exact ⟨A₁, by rw [if_pos hv]; exact hstep, isSome_of_step_modify hstep, by rw [if_pos hv]; exact hrun₁⟩
      · rw [if_neg hv] at hrun ⊢
        exact ⟨A, by simp only [World.step]; rw [if_pos hn], hn, by rw [if_neg hv]; exact hrun⟩
    obtain ⟨l, hl, hf⟩ := h.retag hstep
    obtain rfl := Option.some.inj (hloc.symm.trans hl)
    have hland : Landed v m { m with rt := m.rt.tag loc t } [] A₁ :=
      ⟨hf, rfl, fun _ hx => Or.inl hx, labelsFrom_of_keeps rfl (keepsLabels_of_eq rfl)⟩
    exact hland.trans (landed_tags tags hf hloc hn₁ hrun₁)

theorem spawn_error {rt : Runtime} {template ownerId : String} {x y : JsNumber} {err : LoadError}
    (h : rt.spawn template x y ownerId = .error err) :
    (err = .worldFull ∧ maxEntities ≤ rt.entities.table.liveCount) ∨ err = .slotsExhausted := by
  unfold Runtime.spawn at h
  split at h
  · rename_i err' hc
    obtain rfl := Except.error.inj h
    unfold Entities.create at hc
    split_ifs at hc with hfull
    · exact Or.inl ⟨(Except.error.inj hc).symm, hfull⟩
    · split at hc
      · exact Or.inr (Except.error.inj hc).symm
      · cases hc
  · cases h

/-- A parent the world allows. -/
theorem linkParent_landed {n : NetId} {loc : EntityId} {p : Option NetId} (h : Follows v m A)
    (hloc : m.index.localOf n = some loc)
    (hrun : A.run (p.toList.map (fun p => .reparent n (some p))) = some A') :
    ∃ m', m.linkParent loc p = (m', none) ∧ Landed v m m' [] A' ∧ m'.index = m.index ∧
      m'.counters = m.counters := by
  cases p with
  | none =>
    have hA : A = A' := Option.some.inj hrun
    exact ⟨m, rfl, hA ▸ Landed.of_same h rfl rfl h.sound.group rfl rfl, rfl, rfl⟩
  | some q =>
    simp only [Option.toList_some, List.map_cons, List.map_nil, World.run_singleton] at hrun
    obtain ⟨l, lq, rt', hl, hlq, hat, hf, hkeep, hlive⟩ := h.attachTo hrun
    obtain rfl := Option.some.inj (hloc.symm.trans hl)
    refine ⟨{ m with rt := rt' }, ?_, ⟨hf, hlive, fun _ hx => Or.inl hx, labelsFrom_of_keeps rfl hkeep⟩,
      rfl, rfl⟩
    simp only [linkParent, resolve_of_some hlq, hat]

/-- The spawn itself, before parent, tags and scripts. -/
theorem landed_create {op : WireSingleStructuralOp} {s : EntitySnapshot} (h : Follows v m A)
    (hop : op.spawned = some s) (hk : s.netId ∉ A.known) (hu : s.netId ∉ m.pendingUnmap)
    {x y : JsNumber} {loc : EntityId} {rt' : Runtime}
    (hs : m.rt.spawn s.template x y (s.owner.getD "") = .ok (loc, rt')) (hcount : spawnCount [op] = 1) :
    Landed v m { m with rt := rt', index := m.index.set s.netId loc } [op]
      ⟨Function.update A.node s.netId (some (none, ∅)), insert s.netId A.known⟩ := by
  obtain ⟨e', hc, he', -⟩ := spawn_eq_ok hs
  refine ⟨h.create hk hu hs, ?_, fun _ hx => Or.inl hx, ?_⟩
  · rw [hcount]
    show rt'.entities.table.liveCount = _
    rw [he']
    exact SlotTable.liveCount_create (Entities.create_eq_ok hc).2.2
  · intro z l r' hz hr'
    have hr'' : e'.record l = some r' := he' ▸ hr'
    rw [Entities.record_create hc] at hr''
    have hz' : (m.index.set s.netId loc).localOf z = some l := hz
    rw [MirrorIndex.localOf_set] at hz'
    by_cases hzn : z = s.netId
    · rw [if_pos hzn, Option.some.injEq] at hz'
      rw [if_pos hz'.symm] at hr''
      obtain rfl := Option.some.inj hr''
      exact Or.inr ⟨op, List.mem_singleton_self op, s, hop, hzn.symm, rfl, rfl⟩
    · rw [if_neg hzn] at hz'
      have hl : l ≠ loc := by
        rintro rfl
        exact SlotTable.not_issued_of_create (Entities.create_eq_ok hc).2.2 (h.issued hz')
      rw [if_neg hl] at hr''
      exact Or.inl ⟨r', hz', hr'', rfl, rfl⟩

/-- The tags of a spawn: refused whole, or filed one by one. -/
theorem applyTags_fares {n : NetId} {loc : EntityId} (tags : List String) (h : Follows v m A)
    (hloc : m.index.localOf n = some loc) (hn : (A.node n).isSome)
    (hrun : A.run (if v.tags then tags.map (fun t => .modify n (retagged t true)) else []) = some A') :
    Fares v m (m.applyTags loc tags, none) [] A' := by
  unfold applyTags
  split_ifs with hlong
  · by_cases hv : v.tags = true
    · exact Or.inl ⟨hv, Nat.lt_succ_self _⟩
    · rw [if_neg hv] at hrun
      obtain rfl := Option.some.inj hrun
      exact Or.inr (Landed.good (Landed.of_same h rfl rfl h.sound.group rfl rfl) rfl)
  · exact Or.inr (Landed.good (landed_tags tags h hloc hn hrun) rfl)

/-- The scripts of a spawn, refused whole or attached one by one, are no part of the forest. -/
theorem applyScripts_fares (loc : EntityId) (as : List WireScriptAttachment) (h : Follows v m A) :
    Fares v m (m.applyScripts loc as) [] A := by
  unfold applyScripts
  split_ifs with hlong
  · by_cases hv : v.tags = true
    · exact Or.inl ⟨hv, Nat.lt_succ_self _⟩
    · exact Or.inr (Landed.good (Landed.of_same h rfl rfl h.sound.group rfl rfl) rfl)
  · obtain ⟨hland, herr, hunk⟩ := attachAll_spec loc as h
    refine Or.inr ⟨fun _ => hunk, ?_, ?_, fun _ => hland⟩
    · intro x hx
      obtain ⟨f, hf⟩ := herr _ hx
      cases hf
    · intro hx
      obtain ⟨f, hf⟩ := herr _ hx
      cases hf

theorem node_of_linked {n : NetId} {p : Option NetId} (hn : (A.node n).isSome)
    (hrun : A.run (p.toList.map (fun p => .reparent n (some p))) = some A') : (A'.node n).isSome := by
  cases p with
  | none => exact (Option.some.inj hrun) ▸ hn
  | some q =>
    simp only [Option.toList_some, List.map_cons, List.map_nil, World.run_singleton, World.step] at hrun
    split at hrun
    · cases hrun
    · split_ifs at hrun
      obtain rfl := Option.some.inj hrun
      simp only [Function.update_self]
      rfl

theorem spawn_fares {op : WireSingleStructuralOp} {s : EntitySnapshot} (h : Follows v m A)
    (hop : op.spawned = some s) (hcount : spawnCount [op] = 1) (hfit : s.netId ≤ maxSafeInteger)
    (hu : s.netId ∉ m.pendingUnmap) (hrun : A.run ((WireSingleStructuralOp.spawn s).edits v) = some A') :
    Fares v m (m.spawn s) [op] A' := by
  simp only [WireSingleStructuralOp.edits, World.run] at hrun
  obtain ⟨A₁, hstep, hrun⟩ := Option.bind_eq_some_iff.mp hrun
  rw [World.run_append] at hrun
  obtain ⟨A₂, hlink, htags⟩ := Option.bind_eq_some_iff.mp hrun
  simp only [World.step] at hstep
  split_ifs at hstep with hfree
  obtain rfl := Option.some.inj hstep
  unfold spawn
  rw [if_neg (not_lt.mpr hfit)]
  split
  · rename_i err herr
    refine Or.inr ⟨fun _ => rfl, ?_, ?_, fun he => by cases he⟩
    · intro x hx
      obtain rfl := Option.some.inj hx
      rcases spawn_error herr with ⟨hx, -⟩ | hx <;> cases hx
    · intro he
      obtain rfl := Option.some.inj he
      rcases spawn_error herr with ⟨-, hfull⟩ | hx
      · show maxEntities < m.rt.entities.table.liveCount + spawnCount [op]
        omega
      · cases hx
  · rename_i loc rt' hok
    have hcreate := landed_create h hop hfree.2 hu hok hcount
    have hloc : (m.index.set s.netId loc).localOf s.netId = some loc := by
      rw [MirrorIndex.localOf_set, if_pos rfl]
    obtain ⟨m₂, heq, hland₂, hi₂, hc₂⟩ := linkParent_landed hcreate.follows hloc hlink
    have hn₂ : (A₂.node s.netId).isSome := node_of_linked (by simp) hlink
    have hbefore : Good v m (m₂, none) ([op] ++ []) A₂ :=
      (hcreate.trans hland₂).good (congrArg MirrorCounters.unknownNetId hc₂)
    have hg₂ : Grows m m₂ := Grows.of_eq hc₂
    have htagged := applyTags_fares s.tags hland₂.follows (by rw [hi₂]; exact hloc) hn₂ htags
    have hscripts := applies_applyScripts (m₂.applyTags loc s.tags) loc
      ((s.overrides.bind EntityOverrides.scripts).getD [])
    rw [heq]
    simp only
    rcases htagged with ⟨hv, hlt⟩ | htagged
    · -- Counted already; what follows counts no less.
      have hlt' := lt_of_le_of_lt hg₂.oversizedList (lt_of_lt_of_le hlt hscripts.oversizedList)
      refine Or.inl ⟨hv, ?_⟩
      split <;> rename_i heq₄ <;> rw [heq₄] at hlt' <;> exact hlt'
    · have hall := (hbefore.trans htagged).trans_fares (hg₂.trans (applies_applyTags m₂ loc s.tags).toGrows)
        (applyScripts_fares loc ((s.overrides.bind EntityOverrides.scripts).getD []) (htagged.landed rfl).follows)
      simp only [List.append_nil] at hall
      split
      · rename_i m₄ err heq₄
        rw [heq₄] at hall
        exact hall
      · rename_i m₄ heq₄
        rw [heq₄] at hall
        rcases hall with hall | hall
        · exact Or.inl hall
        · have hland := (hall.landed rfl).follows
          refine Or.inr (List.append_nil [op] ▸ hall.trans (Landed.good ?_ rfl))
          exact Landed.of_same hland rfl rfl hland.sound.group rfl rfl

/-! #### Any op -/

/-- A touched name is a node the mirror holds. -/
theorem localOf_of_touch {n : NetId} (h : Follows v m A) (hstep : A.step (.touch n) = some A') :
    A' = A ∧ ∃ l, m.index.localOf n = some l := by
  simp only [World.step] at hstep
  split_ifs at hstep with hn
  obtain ⟨⟨p, d⟩, hpd⟩ := Option.isSome_iff_exists.mp hn
  obtain ⟨l, -, hl, -⟩ := h.node hpd
  exact ⟨(Option.some.inj hstep).symm, l, hl⟩

theorem destroy_fares {op : WireSingleStructuralOp} {n : NetId} (h : Follows v m A)
    (hop : op.destroys = some n) (hcount : spawnCount [op] = 0) (hrun : A.run [.destroy n] = some A') :
    Fares v m (m.destroy n, none) [op] A' := by
  rw [World.run_singleton] at hrun
  obtain ⟨l, hl, hf, hkeep, hlive⟩ := h.destroy hrun
  simp only [destroy, resolve_of_some hl]
  refine Or.inr (Landed.good ⟨?_, by rw [hcount]; exact hlive, ?_, labelsFrom_of_keeps rfl hkeep⟩ rfl)
  · exact hf.of_same rfl rfl hf.sound.group rfl rfl
  · intro x hx
    rcases List.mem_append.mp hx with hx | hx
    · exact Or.inl hx
    · exact Or.inr ⟨op, List.mem_singleton_self op, by rw [hop, List.mem_singleton.mp hx]⟩

theorem reparent_fares {n : NetId} {p : Option NetId} (h : Follows v m A)
    (hrun : A.run [.reparent n p] = some A') : Fares v m (m.reparent n p) [.reparent n p] A' := by
  rw [World.run_singleton] at hrun
  cases p with
  | none =>
    obtain ⟨l, hl, hf, hkeep, hlive⟩ := h.detach hrun
    simp only [reparent, resolve_of_some hl]
    exact Or.inr (Landed.good ⟨hf.of_same rfl rfl hf.sound.group rfl rfl, hlive,
      fun _ hx => Or.inl hx, labelsFrom_of_keeps rfl hkeep⟩ rfl)
  | some q =>
    obtain ⟨l, lq, rt', hl, hlq, hat, hf, hkeep, hlive⟩ := h.attachTo hrun
    simp only [reparent, resolve_of_some hl, resolve_of_some hlq, hat]
    exact Or.inr (Landed.good ⟨hf.of_same rfl rfl hf.sound.group rfl rfl, hlive,
      fun _ hx => Or.inl hx, labelsFrom_of_keeps rfl hkeep⟩ rfl)

theorem tag_fares {n : NetId} {name : String} {added : Bool} (h : Follows v m A)
    (hrun : A.run ((WireSingleStructuralOp.tag n name added).edits v) = some A') :
    Fares v m (m.applySingle (.tag n name added)) [.tag n name added] A' := by
  have hrt : ∀ l, (if added then m.rt.tag l name else m.rt.untag l name) = m.rt.retag l name added := by
    intro l
    cases added <;> rfl
  have hlands : ∀ {l A'}, Follows v { m with rt := m.rt.retag l name added } A' →
      Landed v m { m with rt := m.rt.retag l name added } [.tag n name added] A' :=
    fun hf => ⟨hf, rfl, fun _ hx => Or.inl hx, labelsFrom_of_keeps rfl (keepsLabels_of_eq rfl)⟩
  by_cases hv : v.tags = true ∨ v.strict = true
  · have hrun' : A.step (if v.tags then .modify n (retagged name added) else .touch n) = some A' := by
      rw [← World.run_singleton, ← hrun]
      simp only [WireSingleStructuralOp.edits, tagEdits]
      rcases hv with hv | hv <;> simp only [hv] <;> split_ifs <;> rfl
    obtain ⟨l, hl, hf⟩ := h.retag hrun'
    simp only [applySingle, resolve_of_some hl, hrt]
    exact Or.inr ((hlands hf).good rfl)
  · rw [not_or] at hv
    simp only [WireSingleStructuralOp.edits, tagEdits, if_neg hv.1, if_neg hv.2] at hrun
    obtain rfl := Option.some.inj hrun
    cases hn : m.index.localOf n with
    | none =>
      simp only [applySingle, resolve_of_none hn]
      exact Or.inr ⟨fun hs => absurd hs hv.2, (fun _ he => by cases he), (fun he => by cases he), fun _ =>
        ⟨h.of_same rfl rfl h.sound.group rfl rfl, rfl, fun _ hx => Or.inl hx,
          labelsFrom_of_keeps rfl (keepsLabels_of_eq rfl)⟩⟩
    | some l =>
      simp only [applySingle, resolve_of_some hn, hrt]
      exact Or.inr ((hlands (h.retag_of_not hv.1 l name added)).good rfl)

theorem attach_fares {n : NetId} {a : WireScriptAttachment} (h : Follows v m A)
    (hrun : A.run ((WireSingleStructuralOp.attach n a).edits v) = some A') :
    Fares v m (m.applySingle (.attach n a)) [.attach n a] A' := by
  have hA : A' = A ∧ (v.strict = true → ∃ l, m.index.localOf n = some l) := by
    simp only [WireSingleStructuralOp.edits] at hrun
    by_cases hv : v.strict = true
    · rw [if_pos hv, World.run_singleton] at hrun
      obtain ⟨hA, hl⟩ := localOf_of_touch h hrun
      exact ⟨hA, fun _ => hl⟩
    · rw [if_neg hv] at hrun
      exact ⟨(Option.some.inj hrun).symm, fun hv' => absurd hv' hv⟩
  obtain ⟨rfl, hl⟩ := hA
  cases hn : m.index.localOf n with
  | none =>
    simp only [applySingle, resolve_of_none hn]
    have hland : Landed v m m.countUnknown [.attach n a] A' :=
      ⟨h.of_same rfl rfl h.sound.group rfl rfl, rfl, fun _ hx => Or.inl hx,
        labelsFrom_of_keeps rfl (keepsLabels_of_eq rfl)⟩
    refine Or.inr ⟨fun hv => ?_, (fun _ he => by cases he), (fun he => by cases he), fun _ => hland⟩
    obtain ⟨l, hl⟩ := hl hv
    rw [hn] at hl
    cases hl
  | some l =>
    simp only [applySingle, resolve_of_some hn]
    have hland := landed_attach h l a
    refine Or.inr ⟨fun _ => attach_counters l a, ?_, ?_, fun _ => ?_⟩
    · intro x hx
      obtain ⟨f, hf⟩ := attach_error hx
      cases hf
    · intro hx
      obtain ⟨f, hf⟩ := attach_error hx
      cases hf
    · exact ⟨hland.follows, hland.liveCount, fun x hx => Or.inl ((hland.unmap x hx).resolve_right (by simp)),
        fun x l' r' hx hr' => Or.inl ((hland.labels x l' r' hx hr').resolve_right (by simp))⟩

theorem playerJoin_landed (h : Follows v m A) (player : PlayerSnapshot) :
    Landed v m (m.joinPlayer player) [] A ∧ (m.joinPlayer player).counters = m.counters := by
  unfold joinPlayer
  simp only
  split
  · exact ⟨Landed.of_same h rfl rfl h.sound.group rfl rfl, rfl⟩
  · exact ⟨Landed.of_same h rfl rfl h.sound.group rfl rfl, rfl⟩

/-- One op, on a mirror in step with a world its edits run on. -/
theorem applySingle_fares {op : WireSingleStructuralOp} (h : Follows v m A) (hfit : op.Fits)
    (hu : ∀ s, op.spawned = some s → s.netId ∉ m.pendingUnmap) (hrun : A.run (op.edits v) = some A') :
    Fares v m (m.applySingle op) [op] A' := by
  cases op with
  | spawn s | enterInterest s => exact spawn_fares h rfl rfl hfit (hu s rfl) hrun
  | destroy | leaveInterest => exact destroy_fares h rfl rfl hrun
  | reparent n p => exact reparent_fares h hrun
  | tag n name added => exact tag_fares h hrun
  | attach n a => exact attach_fares h hrun
  | playerLeave id => exact hfit.elim
  | playerJoin player =>
    obtain rfl : A = A' := Option.some.inj hrun
    obtain ⟨hland, hc⟩ := playerJoin_landed h player
    refine Or.inr (Landed.good ⟨hland.follows, hland.liveCount,
      fun x hx => Or.inl ((hland.unmap x hx).resolve_right (by simp)), ?_⟩
      (congrArg MirrorCounters.unknownNetId hc))
    exact fun x l' r' hx hr' => Or.inl ((hland.labels x l' r' hx hr').resolve_right (by simp))

/-- **Ops in order.**  None is dropped or refused short of the cap; if none throws, the mirror
follows the edited world. -/
theorem applySingles_fares : ∀ (ops : List WireSingleStructuralOp) {m : Mirror}
    {A A' : World NetId (Set String)}, Follows v m A → (∀ op ∈ ops, op.Fits) →
    ops.Pairwise (fun a b => ¬ WireRespawns a b) →
    (∀ op ∈ ops, ∀ s, op.spawned = some s → s.netId ∉ m.pendingUnmap) →
    A.run (wireEdits v ops) = some A' → Fares v m (applySingles ops m) ops A'
  | [], m, A, A', h, _, _, _, hrun => by
    obtain rfl := Option.some.inj hrun
    exact Or.inr (Landed.good (Landed.of_same h rfl rfl h.sound.group rfl rfl) rfl)
  | op :: ops, m, A, A', h, hfit, hresp, hu, hrun => by
    rw [wireEdits, List.flatMap_cons, World.run_append] at hrun
    obtain ⟨A₁, hrun₁, hrun₂⟩ := Option.bind_eq_some_iff.mp hrun
    have hop := applySingle_fares h (hfit op List.mem_cons_self) (hu op List.mem_cons_self) hrun₁
    have hgrow := (applies_applySingle m op).toGrows
    unfold applySingles
    split
    · rename_i m' err heq
      rw [heq] at hop
      rcases hop with hop | hop
      · exact Or.inl hop
      · refine Or.inr ⟨hop.unknown, hop.cycle, fun hf => ?_, fun he => by cases he⟩
        have hfull := hop.full hf
        rw [← List.singleton_append, spawnCount_append]
        omega
    · rename_i m' heq
      rw [heq] at hop hgrow
      rcases hop with ⟨hv, hlt⟩ | hop
      · exact Or.inl ⟨hv, lt_of_lt_of_le hlt (applies_applySingles ops m').oversizedList⟩
      · have hland := hop.landed rfl
        rw [List.pairwise_cons] at hresp
        have hu' : ∀ op' ∈ ops, ∀ s, op'.spawned = some s → s.netId ∉ m'.pendingUnmap := by
          intro op' hop' s hs hmem
          rcases hland.unmap s.netId hmem with hmem | ⟨op₀, hop₀, hd⟩
          · exact hu op' (List.mem_cons_of_mem _ hop') s hs hmem
          · obtain rfl := List.mem_singleton.mp hop₀
            exact hresp.1 op' hop' ⟨s.netId, s, hd, hs, rfl⟩
        have hrest := applySingles_fares ops hland.follows
          (fun op' hop' => hfit op' (List.mem_cons_of_mem _ hop')) hresp.2 hu' hrun₂
        exact hop.trans_fares hgrow hrest

end good

/-! ### A whole envelope -/

section envelope
variable {v : View} {m m' : Mirror} {A A' : World NetId (Set String)}

theorem applySingles_append (ops ops' : List WireSingleStructuralOp) (m : Mirror) :
    applySingles (ops ++ ops') m =
      match applySingles ops m with
      | (m, some err) => (m, some err)
      | (m, none) => applySingles ops' m := by
  induction ops generalizing m with
  | nil => rfl
  | cons op ops ih =>
    rw [List.cons_append, applySingles, applySingles]
    split
    · rfl
    · exact ih _

/-- Groups within the cap are walked op by op. -/
theorem applyJournal_eq : ∀ {ops : List WireStructuralOp}, (∀ op ∈ ops, op.singles.length ≤ maxWireItems) →
    ∀ m, applyJournal ops m = applySingles (ops.flatMap WireStructuralOp.singles) m
  | [], _, _ => rfl
  | op :: ops, h, m => by
    have hop : m.applyStructural op = applySingles op.singles m := by
      cases op with
      | single op =>
        show m.applySingle op = applySingles [op] m
        unfold applySingles
        split
        · rename_i heq
          exact heq
        · rename_i heq
          exact heq
      | group ops => exact if_neg (not_lt.mpr (h _ List.mem_cons_self))
    rw [List.flatMap_cons, applySingles_append, applyJournal, hop]
    rcases applySingles op.singles m with ⟨m', _ | err⟩
    · exact applyJournal_eq (fun op' hop' => h op' (List.mem_cons_of_mem _ hop')) m'
    · rfl

/-- A group past the cap is counted, unless something threw first. -/
theorem applyJournal_oversized : ∀ {ops : List WireStructuralOp}, (∃ op ∈ ops, maxWireItems < op.singles.length) →
    ∀ m, (applyJournal ops m).2 = none → m.counters.oversizedList < (applyJournal ops m).1.counters.oversizedList
  | [], h, _, _ => by
    obtain ⟨_, h, -⟩ := h
    cases h
  | op :: ops, h, m, herr => by
    have hgrow := (applies_applyStructural m op).toGrows
    unfold applyJournal at herr ⊢
    split at herr
    · cases herr
    · rename_i m' heq
      rw [heq] at hgrow
      by_cases hop : maxWireItems < op.singles.length
      · have hlt : m.counters.oversizedList < m'.counters.oversizedList := by
          cases op with
          | single op => simp [WireStructuralOp.singles, maxWireItems] at hop
          | group singles =>
            have hcount : m.applyStructural (.group singles) = (m.countOversized, none) := if_pos hop
            rw [hcount] at heq
            obtain ⟨rfl, -⟩ := Prod.mk.inj heq
            exact Nat.lt_succ_self _
        exact lt_of_lt_of_le hlt (applies_applyJournal ops m').oversizedList
      · obtain ⟨op', hmem, hlong⟩ := h
        have hrest : ∃ op ∈ ops, maxWireItems < op.singles.length := by
          rcases List.mem_cons.mp hmem with rfl | hmem
          · exact absurd hlong hop
          · exact ⟨op', hmem, hlong⟩
        exact lt_of_le_of_lt hgrow.oversizedList (applyJournal_oversized hrest m' herr)

theorem applyFields_error {rid : RecordId} {facade : Bool} : ∀ {fields : List (String × JsonValue)} {m : Mirror}
    {err : LoadError}, (applyFields rid facade fields m).2 = some err → ∃ f, err = .wiring f
  | [], _, _, h => by cases h
  | (field, value) :: rest, m, err, h => by
    unfold applyFields at h
    split at h
    · exact ⟨field, (Option.some.inj h).symm⟩
    · exact applyFields_error h

theorem applyDiffs_error : ∀ {diffs : List StateDiff} {m : Mirror} {err : LoadError},
    (applyDiffs diffs m).2 = some err → ∃ f, err = .wiring f
  | [], _, _, h => by cases h
  | diff :: rest, m, err, h => by
    unfold applyDiffs at h
    split at h
    · rename_i m' err' heq
      obtain rfl := Option.some.inj h
      have hdiff := congrArg Prod.snd heq
      unfold applyStateField at hdiff
      simp only at hdiff
      split at hdiff
      · cases hdiff
      · split at hdiff
        · cases hdiff
        · exact applyFields_error hdiff
    · exact applyDiffs_error h

/-- What an envelope whose journal went through leaves: the drained structure. -/
structure Settled (m' out : Mirror) : Prop extends Grows m' out where
  entities : out.rt.entities = m'.drain.rt.entities
  tags : out.rt.tags = m'.drain.rt.tags
  index : out.index = m'.drain.index
  pendingUnmap : out.pendingUnmap = []
  group : (m'.drain.rt.channels.group = none ↔ m'.drain.rt.channels.groupDepth = 0) →
    (out.rt.channels.group = none ↔ out.rt.channels.groupDepth = 0)

theorem applyState_settled {envelope : StateEnvelope}
    (h : applyJournal envelope.structural (m.opening envelope) = (m', none)) :
    Settled m' (m.applyState envelope).1 ∧ ∀ err, (m.applyState envelope).2 = some err → ∃ f, err = .wiring f := by
  have hdrain : Grows m' m'.drain := Grows.of_eq rfl
  have hdiffs := (unmoved_applyDiffs envelope.state m'.drain).toStill
  simp only [applyState, h]
  split
  · rename_i m₁ err heq
    rw [heq] at hdiffs
    refine ⟨⟨hdrain.trans hdiffs.toGrows, hdiffs.entities, hdiffs.tags, hdiffs.index, hdiffs.pendingUnmap, ?_⟩, ?_⟩
    · rw [hdiffs.channels]
      exact id
    · intro err' he
      obtain rfl := Option.some.inj he
      exact applyDiffs_error (congrArg Prod.snd heq)
  · rename_i m₁ heq
    rw [heq] at hdiffs
    have hheld := still_releaseHeldTransforms { m₁ with stateAppliedTick := envelope.tick }.discardMarks envelope.tick
    have hmarks : Grows m₁ { m₁ with stateAppliedTick := envelope.tick }.discardMarks := Grows.of_eq rfl
    refine ⟨⟨hdrain.trans (hdiffs.toGrows.trans (hmarks.trans hheld.toGrows)), hheld.entities.trans hdiffs.entities,
      hheld.tags.trans hdiffs.tags, hheld.index.trans hdiffs.index,
      hheld.pendingUnmap.trans hdiffs.pendingUnmap, ?_⟩, fun err he => by cases he⟩
    intro _
    rw [hheld.channels]
    simp [discardMarks, ReplicationChannels.clear, ReplicationChannels.empty]

theorem applyState_of_error {envelope : StateEnvelope} {err : LoadError}
    (h : applyJournal envelope.structural (m.opening envelope) = (m', some err)) :
    m.applyState envelope = (m', some err) := by
  simp only [applyState, h]

theorem grows_applyState (m : Mirror) (envelope : StateEnvelope) : Grows m (m.applyState envelope).1 := by
  have hopen : Grows m (m.opening envelope) := Grows.of_eq rfl
  have hj := (applies_applyJournal envelope.structural (m.opening envelope)).toGrows
  cases hjournal : applyJournal envelope.structural (m.opening envelope) with
  | mk m' err =>
    rw [hjournal] at hj
    cases err with
    | some err =>
      rw [applyState_of_error hjournal]
      exact hopen.trans hj
    | none => exact hopen.trans (hj.trans (applyState_settled hjournal).1.toGrows)

end envelope

end Mirror

end Grove
