import Grove.Client.Mirror
import Grove.Sim.Replay

/-! # A mirror follows the abstract world

`Follows v m A` relates a mirror to an abstract `World`: every node of `A` is a live local
entity, reached through the index, with the parent and the tags the node has; every name `A`
still knows, and every name whose teardown is queued, is in the index; nothing else is.  A name
that is known and has no node is one whose entity went in a cascade, and whose own removal has
not been applied yet.

One lemma a call: what the mirror does to its runtime, against the edit that does it to `A`. -/

namespace Grove

namespace Mirror

/-- The local handle a node's parent stands for. -/
def ParentIs (i : MirrorIndex) : Option NetId → EntityId → Prop
  | none, l => l = noEntity
  | some q, l => i.localOf q = some l

/-- The mirror shows the world `A`, destroyed entities not yet drained aside. -/
structure Follows (v : View) (m : Mirror) (A : World NetId (Set String)) : Prop where
  sound : m.rt.Sound v []
  known : ∀ x, (A.node x).isSome → x ∈ A.known
  mapped : ∀ x, (m.index.localOf x).isSome ↔ x ∈ A.known ∨ x ∈ m.pendingUnmap
  unmapped : ∀ x ∈ m.pendingUnmap, x ∉ A.known
  inj : ∀ {x y l}, m.index.localOf x = some l → m.index.localOf y = some l → x = y
  issued : ∀ {x l}, m.index.localOf x = some l → m.rt.entities.table.Issued l
  node : ∀ {x p d}, A.node x = some (p, d) → ∃ l r, m.index.localOf x = some l ∧
    m.rt.entities.record l = some r ∧ r.alive = true ∧ ParentIs m.index p r.parent ∧ m.rt.shownTags v l = d
  gone : ∀ {x l}, A.node x = none → m.index.localOf x = some l → m.rt.entities.Gone l
  cover : ∀ {l r}, m.rt.entities.record l = some r → r.alive = true → ∃ x, m.index.localOf x = some l

section follows
variable {v : View} {m m' : Mirror} {A : World NetId (Set String)}

/-- The relation reads the entities, the tags, the index and the queued names. -/
theorem Follows.of_same (h : Follows v m A) (he : m'.rt.entities = m.rt.entities)
    (ht : m'.rt.tags = m.rt.tags) (hg : m'.rt.channels.group = none ↔ m'.rt.channels.groupDepth = 0)
    (hi : m'.index = m.index) (hu : m'.pendingUnmap = m.pendingUnmap) : Follows v m' A where
  sound := ⟨by rw [he]; exact h.sound.linked, hg, by rw [he, ht]; exact h.sound.clean,
    by rw [he]; exact h.sound.bound⟩
  known := h.known
  mapped := by rw [hi, hu]; exact h.mapped
  unmapped := by rw [hu]; exact h.unmapped
  inj := by rw [hi]; exact h.inj
  issued := by rw [hi, he]; exact h.issued
  node := by
    intro x p d hx
    obtain ⟨l, r, h1, h2, h3, h4, h5⟩ := h.node hx
    refine ⟨l, r, by rw [hi]; exact h1, by rw [he]; exact h2, h3, by rw [hi]; exact h4, ?_⟩
    rw [← h5]
    unfold Runtime.shownTags
    rw [ht]
  gone := by rw [hi, he]; exact h.gone
  cover := by rw [hi, he]; exact h.cover

/-- A live mapped entity is a node. -/
theorem Follows.node_of_alive (h : Follows v m A) {x : NetId} {l : EntityId} {r : EntityRecord}
    (hx : m.index.localOf x = some l) (hr : m.rt.entities.record l = some r) (ha : r.alive = true) :
    ∃ p d, A.node x = some (p, d) ∧ ParentIs m.index p r.parent ∧ m.rt.shownTags v l = d := by
  cases hn : A.node x with
  | none =>
    have := h.gone hn hx r hr
    rw [ha] at this
    cases this
  | some pd =>
    obtain ⟨p, d⟩ := pd
    obtain ⟨l', r', h1, h2, -, h4, h5⟩ := h.node hn
    obtain rfl := Option.some.inj (hx.symm.trans h1)
    obtain rfl := Option.some.inj (hr.symm.trans h2)
    exact ⟨p, d, rfl, h4, h5⟩

/-- The parent of a live entity is alive, mapped, and the node's parent. -/
theorem Follows.parent_alive (h : Follows v m A) {l : EntityId} {r : EntityRecord}
    (hr : m.rt.entities.record l = some r) (ha : r.alive = true) (h0 : r.parent ≠ noEntity) :
    ∃ p y, m.rt.entities.record r.parent = some p ∧ p.alive = true ∧ l ∈ p.children ∧
      m.index.localOf y = some r.parent := by
  obtain ⟨p, hp, hmem⟩ := h.sound.linked.up hr h0
  have hpa : p.alive = true := by
    cases hpa : p.alive with
    | true => rfl
    | false =>
      have := h.sound.linked.dead hp hpa hmem hr
      rw [ha] at this
      cases this
  obtain ⟨y, hy⟩ := h.cover hp hpa
  exact ⟨p, y, hp, hpa, hmem, hy⟩

/-- A node's parent is a node. -/
theorem Follows.under_node (h : Follows v m A) {x y : NetId} (hu : A.Under x y) : (A.node y).isSome := by
  obtain ⟨d, hd⟩ := hu
  obtain ⟨l, r, hl, hr, ha, hpar, -⟩ := h.node hd
  have hy : m.index.localOf y = some r.parent := hpar
  have h0 : r.parent ≠ noEntity := SlotTable.ne_zero_of_issued _ (h.issued hy)
  obtain ⟨p, y', hp, hpa, -, hy'⟩ := h.parent_alive hr ha h0
  obtain rfl := h.inj hy hy'
  obtain ⟨_, _, hn, -⟩ := h.node_of_alive hy hp hpa
  rw [hn]
  rfl

end follows

/-! ### Calls, against the edits they stand for -/

section calls
variable {v : View} {m : Mirror} {A : World NetId (Set String)}

theorem spawn_eq_ok {rt rt' : Runtime} {template ownerId : String} {x y : JsNumber} {loc : EntityId}
    (h : rt.spawn template x y ownerId = .ok (loc, rt')) :
    ∃ e', rt.entities.create template ownerId = .ok (loc, e') ∧ rt'.entities = e' ∧ rt'.tags = rt.tags := by
  unfold Runtime.spawn at h
  split at h
  · cases h
  · rename_i id e' hc
    obtain ⟨rfl, rfl⟩ := Prod.mk.inj (Except.ok.inj h)
    exact ⟨e', hc, rfl, rfl⟩

/-- A fresh local root, entered under a name that is nowhere. -/
theorem Follows.create (h : Follows v m A) {n : NetId} (hk : n ∉ A.known) (hu : n ∉ m.pendingUnmap)
    {template ownerId : String} {x y : JsNumber} {loc : EntityId} {rt' : Runtime}
    (hs : m.rt.spawn template x y ownerId = .ok (loc, rt')) :
    Follows v { m with rt := rt', index := m.index.set n loc }
      ⟨Function.update A.node n (some (none, ∅)), insert n A.known⟩ := by
  obtain ⟨e', hc, he', ht'⟩ := spawn_eq_ok hs
  have hrec := Entities.record_create hc
  have hnew : ¬ m.rt.entities.table.Issued loc :=
    SlotTable.not_issued_of_create (Entities.create_eq_ok hc).2.2
  have hn : m.index.localOf n = none := by
    cases hloc : m.index.localOf n with
    | none => rfl
    | some l =>
      rcases (h.mapped n).mp (by rw [hloc]; rfl) with h1 | h1
      · exact absurd h1 hk
      · exact absurd h1 hu
  have hnode : A.node n = none := by
    cases hn' : A.node n with
    | none => rfl
    | some _ => exact absurd (h.known n (by rw [hn']; rfl)) hk
  -- Handles already mapped are not the fresh one.
  have hold : ∀ {z l}, m.index.localOf z = some l → l ≠ loc := by
    intro z l hz he
    exact hnew (he ▸ h.issued hz)
  have hlocal : ∀ {z l}, m.index.localOf z = some l → (m.index.set n loc).localOf z = some l := by
    intro z l hz
    rw [MirrorIndex.localOf_set, if_neg (by rintro rfl; rw [hn] at hz; cases hz), hz]
  have hcases : ∀ {z l}, (m.index.set n loc).localOf z = some l →
      (z = n ∧ l = loc) ∨ (z ≠ n ∧ m.index.localOf z = some l) := by
    intro z l hz
    rw [MirrorIndex.localOf_set] at hz
    by_cases hzn : z = n
    · rw [if_pos hzn] at hz
      exact Or.inl ⟨hzn, (Option.some.inj hz).symm⟩
    · rw [if_neg hzn] at hz
      exact Or.inr ⟨hzn, hz⟩
  have hrecord : ∀ {l}, l ≠ loc → rt'.entities.record l = m.rt.entities.record l := by
    intro l hl
    rw [he', hrec, if_neg hl]
  have htags : ∀ l, rt'.shownTags v l = m.rt.shownTags v l := by
    intro l
    unfold Runtime.shownTags
    rw [ht']
  refine ⟨(Runtime.spawn_advances h.sound hs).1, ?_, ?_, ?_, ?_, ?_, ?_, ?_, ?_⟩
  · intro z hz
    by_cases hzn : z = n
    · exact Or.inl hzn
    · simp only [Function.update_of_ne hzn] at hz
      exact Or.inr (h.known z hz)
  · intro z
    show ((m.index.set n loc).localOf z).isSome = true ↔ z ∈ insert n A.known ∨ z ∈ m.pendingUnmap
    rw [MirrorIndex.localOf_set, Set.mem_insert_iff]
    by_cases hzn : z = n
    · simp [hzn]
    · simp only [hzn, if_false, false_or]
      exact h.mapped z
  · intro z hz
    show z ∉ insert n A.known
    rw [Set.mem_insert_iff, not_or]
    exact ⟨fun he => hu (he ▸ hz), h.unmapped z hz⟩
  · intro z w l hz hw
    rcases hcases hz with ⟨hzn, hzl⟩ | ⟨-, hz⟩ <;> rcases hcases hw with ⟨hwn, hwl⟩ | ⟨-, hw⟩
    · rw [hzn, hwn]
    · exact absurd hzl (hold hw)
    · exact absurd hwl (hold hz)
    · exact h.inj hz hw
  · intro z l hz
    rw [show rt'.entities.table = e'.table from congrArg Entities.table he',
      SlotTable.issued_create (Entities.create_eq_ok hc).2.2]
    rcases hcases hz with ⟨-, rfl⟩ | ⟨-, hz⟩
    · exact Or.inr rfl
    · exact Or.inl (h.issued hz)
  · intro z p d hz
    by_cases hzn : z = n
    · subst hzn
      simp only [Function.update_self] at hz
      obtain ⟨rfl, rfl⟩ := Prod.mk.inj (Option.some.inj hz)
      refine ⟨loc, _, by rw [MirrorIndex.localOf_set, if_pos rfl],
        (congrArg (Entities.record · loc) he').trans ((hrec loc).trans (if_pos rfl)), rfl, rfl, ?_⟩
      rw [htags]
      exact Runtime.shownTags_of_create h.sound hc
    · simp only [Function.update_of_ne hzn] at hz
      obtain ⟨l, r, h1, h2, h3, h4, h5⟩ := h.node hz
      refine ⟨l, r, hlocal h1, (hrecord (hold h1)).trans h2, h3, ?_, (htags l).trans h5⟩
      cases p with
      | none => exact h4
      | some q => exact hlocal h4
  · intro z l hz hl
    by_cases hzn : z = n
    · simp only [hzn, Function.update_self] at hz
      cases hz
    · simp only [Function.update_of_ne hzn] at hz
      rcases hcases hl with ⟨hzn', -⟩ | ⟨-, hl⟩
      · exact absurd hzn' hzn
      · intro r hr
        rw [hrecord (hold hl)] at hr
        exact h.gone hz hl r hr
  · intro l r hr ha
    by_cases hl : l = loc
    · exact ⟨n, by rw [MirrorIndex.localOf_set, if_pos rfl, hl]⟩
    · rw [hrecord hl] at hr
      obtain ⟨z, hz⟩ := h.cover hr ha
      exact ⟨z, hlocal hz⟩

/-- Every entity has the template and the owner it had. -/
def KeepsLabels (rt rt' : Runtime) : Prop := ∀ l r', rt'.entities.record l = some r' →
  ∃ r, rt.entities.record l = some r ∧ r.template = r'.template ∧ r.ownerId = r'.ownerId

theorem keepsLabels_of_eq {rt rt' : Runtime} (he : rt'.entities = rt.entities) : KeepsLabels rt rt' := by
  intro l r' hr'
  rw [he] at hr'
  exact ⟨r', hr', rfl, rfl⟩

theorem keepsLabels_of_moved {rt rt' : Runtime} {l new : EntityId} {r : EntityRecord}
    (hm : Entities.Moved rt.entities rt'.entities l new r) : KeepsLabels rt rt' := by
  intro l' r' hr'
  rcases hm.record_of hr' with ⟨rfl, rfl⟩ | ⟨-, q, hq, rfl⟩
  · exact ⟨r, hm.existed, rfl, rfl⟩
  · exact ⟨q, hq, rfl, rfl⟩

/-- The chain of a live entity, as the world has it. -/
theorem Follows.below_of_mem_chain (h : Follows v m A) {lq : EntityId} {c : List EntityId}
    (hc : Entities.Chain m.rt.entities.parentOf lq c) :
    ∀ {q x lx}, m.index.localOf q = some lq → (A.node q).isSome → m.index.localOf x = some lx → lx ∈ c →
      A.Below q x := by
  induction hc with
  | root =>
    intro q x lx _ _ _ hmem
    cases hmem
  | @step z c hz hc ih =>
    intro q x lx hq hn hx hmem
    rcases List.mem_cons.mp hmem with rfl | hmem
    · rw [h.inj hq hx]
      exact Relation.ReflTransGen.refl
    · obtain ⟨⟨p, d⟩, hpd⟩ := Option.isSome_iff_exists.mp hn
      obtain ⟨l, r, hl, hr, ha, hpar, -⟩ := h.node hpd
      obtain rfl := Option.some.inj (hq.symm.trans hl)
      rw [Entities.parentOf_of_record hr] at hc ih
      cases p with
      | none =>
        rw [show r.parent = noEntity from hpar] at hc
        cases hc with
        | root => cases hmem
        | step hne _ => exact absurd rfl hne
      | some y =>
        have hunder : A.Under q y := ⟨d, hpd⟩
        exact Relation.ReflTransGen.head hunder (ih hpar (h.under_node hunder) hx hmem)

/-- A move of a live entity. -/
theorem Follows.moved (h : Follows v m A) {n : NetId} {l lnew : EntityId} {r : EntityRecord}
    {p p' : Option NetId} {d : Set String} {rt' : Runtime} (hn : A.node n = some (p, d))
    (hl : m.index.localOf n = some l) (hm : Entities.Moved m.rt.entities rt'.entities l lnew r)
    (hs : rt'.Sound v []) (ht : rt'.tags = m.rt.tags) (hpar : ParentIs m.index p' lnew) :
    Follows v { m with rt := rt' } ⟨Function.update A.node n (some (p', d)), A.known⟩ := by
  have htags : ∀ l, rt'.shownTags v l = m.rt.shownTags v l := by
    intro l
    unfold Runtime.shownTags
    rw [ht]
  have hne : ∀ {z lz}, z ≠ n → m.index.localOf z = some lz → lz ≠ l := by
    intro z lz hz hlz he
    exact hz (h.inj hlz (he ▸ hl))
  have hself : ∃ q, m.rt.entities.record l = some q ∧ q.alive = true ∧ m.rt.shownTags v l = d := by
    obtain ⟨l', q, h1, h2, h3, -, h5⟩ := h.node hn
    obtain rfl := Option.some.inj (hl.symm.trans h1)
    exact ⟨q, h2, h3, h5⟩
  refine ⟨hs, ?_, h.mapped, h.unmapped, h.inj, fun hz => (hm.issued _).mpr (h.issued hz), ?_, ?_, ?_⟩
  · intro z hz
    by_cases hzn : z = n
    · exact hzn ▸ h.known n (by rw [hn]; rfl)
    · simp only [Function.update_of_ne hzn] at hz
      exact h.known z hz
  · intro z q e hz
    by_cases hzn : z = n
    · subst hzn
      simp only [Function.update_self] at hz
      obtain ⟨rfl, rfl⟩ := Prod.mk.inj (Option.some.inj hz)
      obtain ⟨q, hq, ha, hd⟩ := hself
      have hqr : q = r := Option.some.inj (hq.symm.trans hm.existed)
      exact ⟨l, _, hl, hm.self, hqr ▸ ha, hpar, (htags l).trans hd⟩
    · simp only [Function.update_of_ne hzn] at hz
      obtain ⟨lz, rz, h1, h2, h3, h4, h5⟩ := h.node hz
      exact ⟨lz, _, h1, hm.record_other (hne hzn h1) h2, h3, h4, (htags lz).trans h5⟩
  · intro z lz hz hlz q hq
    have hzn : z ≠ n := by
      rintro rfl
      simp only [Function.update_self] at hz
      cases hz
    simp only [Function.update_of_ne hzn] at hz
    rcases hm.record_of hq with ⟨he, -⟩ | ⟨-, q₀, hq₀, rfl⟩
    · exact absurd he (hne hzn hlz)
    · exact h.gone hz hlz q₀ hq₀
  · intro lz q hq ha
    rcases hm.record_of hq with ⟨rfl, -⟩ | ⟨-, q₀, hq₀, rfl⟩
    · exact ⟨n, hl⟩
    · exact h.cover hq₀ ha

/-- A local move beneath another node goes through where the world allows it. -/
theorem Follows.attachTo (h : Follows v m A) {n q : NetId} {A' : World NetId (Set String)}
    (hstep : A.step (.reparent n (some q)) = some A') :
    ∃ l lq rt', m.index.localOf n = some l ∧ m.index.localOf q = some lq ∧
      m.rt.attachTo l lq = .ok rt' ∧ Follows v { m with rt := rt' } A' ∧
      KeepsLabels m.rt rt' ∧
      rt'.entities.table.liveCount = m.rt.entities.table.liveCount := by
  simp only [World.step] at hstep
  split at hstep
  · cases hstep
  · rename_i p d hn
    split_ifs at hstep with hok
    obtain rfl := Option.some.inj hstep
    obtain ⟨hq, hbelow⟩ := hok q rfl
    obtain ⟨l, r, hl, hr, -, -, -⟩ := h.node hn
    obtain ⟨⟨pq, dq⟩, hnq⟩ := Option.isSome_iff_exists.mp hq
    obtain ⟨lq, rq, hlq, hrq, haq, -, -⟩ := h.node hnq
    obtain ⟨c, hc⟩ := (h.sound.linked.rooted lq).chain
    have hnot : l ∉ c := fun hmem => hbelow (h.below_of_mem_chain hc hlq hq hl hmem)
    have hat := Entities.attachTo_of_chain hr hrq haq hc hnot
    have hrt : m.rt.attachTo l lq = .ok { m.rt with
        entities := m.rt.entities.link l lq
        channels := m.rt.channels.markStructural (.reparent l lq) } := by
      simp only [Runtime.attachTo, hat]
    obtain ⟨r', p', c', hp', hal, hc', hnot', hne, hm, hroot⟩ :=
      Entities.attachTo_moved h.sound.linked.toShape hat
    have hadv := Runtime.moved_advances h.sound hm hne (Or.inr ⟨p', hp', hal⟩) hroot
      (fun h0 hb => hnot' (Runtime.mem_chain_of_below hb h0 hc'))
    exact ⟨l, lq, _, hl, hlq, hrt, h.moved hn hl hm hadv.1 rfl hlq, keepsLabels_of_moved hm, hm.liveCount⟩

/-- A local detach. -/
theorem Follows.detach (h : Follows v m A) {n : NetId} {A' : World NetId (Set String)}
    (hstep : A.step (.reparent n none) = some A') :
    ∃ l, m.index.localOf n = some l ∧ Follows v { m with rt := m.rt.detach l } A' ∧
      KeepsLabels m.rt (m.rt.detach l) ∧
      (m.rt.detach l).entities.table.liveCount = m.rt.entities.table.liveCount := by
  simp only [World.step] at hstep
  split at hstep
  · cases hstep
  · rename_i p d hn
    split_ifs at hstep with hok
    obtain rfl := Option.some.inj hstep
    obtain ⟨l, r, hl, hr, ha, hpar, hd⟩ := h.node hn
    refine ⟨l, hl, ?_⟩
    by_cases h0 : r.parent = noEntity
    · have hdet : m.rt.detach l = m.rt := by
        unfold Runtime.detach
        rw [Entities.unlink_root hr h0]
      have hm := Entities.unlink_moved hr (h.sound.linked.parent_ne hr)
      rw [Entities.unlink_root hr h0] at hm
      rw [hdet]
      exact ⟨h.moved hn hl hm h.sound rfl rfl, keepsLabels_of_eq rfl, rfl⟩
    · have hm := Entities.unlink_moved hr (h.sound.linked.parent_ne hr)
      rw [Entities.unlink_parented hr h0] at hm
      have hadv := Runtime.moved_advances h.sound hm (Ne.symm (Entities.ne_noEntity_of_record hr))
        (Or.inl rfl) Entities.Rooted.root (fun h => absurd rfl h)
      simp only [Runtime.detach, Entities.unlink_parented hr h0]
      exact ⟨h.moved hn hl hm hadv.1 rfl rfl, keepsLabels_of_moved hm, hm.liveCount⟩

/-- A tag op where tags do not count. -/
theorem Follows.retag_of_not (h : Follows v m A) (hv : ¬ v.tags = true) (l : EntityId) (name : String)
    (added : Bool) : Follows v { m with rt := m.rt.retag l name added } A := by
  refine ⟨Runtime.retag_sound h.sound added (fun hv' => absurd hv' hv), h.known, h.mapped,
    h.unmapped, h.inj, h.issued, ?_, h.gone, h.cover⟩
  intro z q e hz
  obtain ⟨lz, rz, h1, h2, h3, h4, h5⟩ := h.node hz
  refine ⟨lz, rz, h1, h2, h3, h4, ?_⟩
  rw [← h5]
  ext t
  simp [Runtime.mem_shownTags, hv]

/-- A tag op on a node. -/
theorem Follows.retag (h : Follows v m A) {n : NetId} {name : String} {added : Bool}
    {A' : World NetId (Set String)}
    (hstep : A.step (if v.tags then .modify n (retagged name added) else .touch n) = some A') :
    ∃ l, m.index.localOf n = some l ∧ Follows v { m with rt := m.rt.retag l name added } A' := by
  by_cases hv : v.tags = true
  · rw [if_pos hv] at hstep
    simp only [World.step] at hstep
    split at hstep
    · cases hstep
    · rename_i p d hn
      obtain rfl := Option.some.inj hstep
      obtain ⟨l, r, hl, hr, ha, hpar, hd⟩ := h.node hn
      have hr' : (m.rt.entities.record l).isSome := by rw [hr]; rfl
      refine ⟨l, hl, Runtime.retag_sound h.sound added (fun _ => hr'), ?_, h.mapped, h.unmapped, h.inj,
        h.issued, ?_, ?_, h.cover⟩
      · intro z hz
        by_cases hzn : z = n
        · exact hzn ▸ h.known n (by rw [hn]; rfl)
        · simp only [Function.update_of_ne hzn] at hz
          exact h.known z hz
      · intro z q e hz
        by_cases hzn : z = n
        · subst hzn
          simp only [Function.update_self] at hz
          obtain ⟨rfl, rfl⟩ := Prod.mk.inj (Option.some.inj hz)
          exact ⟨l, r, hl, hr, ha, hpar, by rw [Runtime.shownTags_retag_self hv, hd]⟩
        · simp only [Function.update_of_ne hzn] at hz
          obtain ⟨lz, rz, h1, h2, h3, h4, h5⟩ := h.node hz
          have hne : lz ≠ l := fun he => hzn (h.inj h1 (he ▸ hl))
          refine ⟨lz, rz, h1, h2, h3, h4, ?_⟩
          rw [Runtime.tagsOf_retag_of_ne hr' (by rw [h2]; rfl) hne, h5]
      · intro z lz hz hlz
        by_cases hzn : z = n
        · subst hzn
          simp only [Function.update_self] at hz
          cases hz
        · simp only [Function.update_of_ne hzn] at hz
          exact h.gone hz hlz
  · rw [if_neg hv] at hstep
    simp only [World.step] at hstep
    split_ifs at hstep with hn
    obtain rfl := Option.some.inj hstep
    obtain ⟨⟨p, d⟩, hpd⟩ := Option.isSome_iff_exists.mp hn
    obtain ⟨l, r, hl, hr, ha, hpar, hd⟩ := h.node hpd
    exact ⟨l, hl, h.retag_of_not hv l name added⟩

/-- The local cascade takes what the world prunes. -/
theorem Follows.mem_killed_iff (h : Follows v m A) {n z : NetId} {l lz : EntityId} {e' : Entities}
    {killed : List EntityId} (hk : Entities.Cascaded m.rt.entities e' [l] killed)
    (hl : m.index.localOf n = some l) (hz : m.index.localOf z = some lz) {r : EntityRecord}
    (hr : m.rt.entities.record lz = some r) (ha : r.alive = true) : lz ∈ killed ↔ A.Below z n := by
  rw [h.sound.linked.toShape.mem_killed hk]
  constructor
  · rintro ⟨-, hreach⟩
    induction hreach generalizing z r with
    | refl =>
      rw [h.inj hz hl]
      exact Relation.ReflTransGen.refl
    | @tail b c _ hbc ih =>
      obtain ⟨rb, hrb, hmem⟩ := hbc
      obtain ⟨cr, hcr, hpar⟩ := h.sound.linked.down hrb hmem
      obtain rfl := Option.some.inj (hr.symm.trans hcr)
      have h0 : r.parent ≠ noEntity := by
        rw [hpar]
        exact Entities.ne_noEntity_of_record hrb
      obtain ⟨p, y, hp, hpa, -, hy⟩ := h.parent_alive hr ha h0
      obtain ⟨q, d, hn, hq, -⟩ := h.node_of_alive hz hr ha
      have hunder : A.Under z y := by
        cases q with
        | none => exact absurd hq h0
        | some q =>
          have : q = y := h.inj hq hy
          exact ⟨d, this ▸ hn⟩
      rw [hpar] at hy hp
      exact Relation.ReflTransGen.head hunder (ih hy hp hpa)
  · intro hb
    refine ⟨⟨r, hr, ha⟩, ?_⟩
    induction hb using Relation.ReflTransGen.head_induction_on generalizing lz r with
    | refl =>
      obtain rfl := Option.some.inj (hz.symm.trans hl)
      exact Relation.ReflTransGen.refl
    | @head a b hab _ ih =>
      obtain ⟨d, hd⟩ := hab
      obtain ⟨la, ra, h1, h2, h3, h4, -⟩ := h.node hd
      obtain rfl := Option.some.inj (hz.symm.trans h1)
      have h0 : ra.parent ≠ noEntity := SlotTable.ne_zero_of_issued _ (h.issued h4)
      obtain ⟨p, y, hp, hpa, hmem, -⟩ := h.parent_alive h2 h3 h0
      exact Relation.ReflTransGen.tail (ih h4 hp hpa) ⟨p, hp, hmem⟩

/-- A destroy of a known name. -/
theorem Follows.destroy (h : Follows v m A) {n : NetId} {A' : World NetId (Set String)}
    (hstep : A.step (.destroy n) = some A') :
    ∃ l, m.index.localOf n = some l ∧
      Follows v { m with rt := m.rt.destroy l, pendingUnmap := m.pendingUnmap ++ [n] } A' ∧
      KeepsLabels m.rt (m.rt.destroy l) ∧
      (m.rt.destroy l).entities.table.liveCount = m.rt.entities.table.liveCount := by
  simp only [World.step] at hstep
  split_ifs at hstep with hknown
  obtain rfl := Option.some.inj hstep
  obtain ⟨l, hl⟩ := Option.isSome_iff_exists.mp ((h.mapped n).mpr (Or.inl hknown))
  obtain ⟨killed, hk⟩ := m.rt.entities.destroy_cascaded l
  have hkilled := hk.toKilled
  refine ⟨l, hl, ⟨(Runtime.destroy_advances h.sound l).1, ?_, ?_, ?_, h.inj,
    fun hz => (hkilled.issued _).mpr (h.issued hz), ?_, ?_, ?_⟩, ?_, hkilled.liveCount⟩
  · intro z hz
    have hnot : ¬ A.Below z n := by
      intro hb
      rw [World.node_prune_of_below (Set.mem_singleton n) hb] at hz
      cases hz
    rw [World.node_prune_of_not (by rintro y rfl; exact hnot)] at hz
    refine ⟨h.known z hz, ?_⟩
    rintro rfl
    exact hnot Relation.ReflTransGen.refl
  · intro z
    show (m.index.localOf z).isSome = true ↔ (z ∈ A.known ∧ z ∉ ({n} : Set NetId)) ∨ z ∈ m.pendingUnmap ++ [n]
    rw [h.mapped, List.mem_append, List.mem_singleton, Set.mem_singleton_iff]
    by_cases hzn : z = n
    · simp [hzn, hknown]
    · simp [hzn]
  · intro z hz hzk
    rcases List.mem_append.mp hz with hz | hz
    · exact h.unmapped z hz hzk.1
    · exact hzk.2 (List.mem_singleton.mp hz)
  · intro z p d hz
    have hnot : ¬ A.Below z n := by
      intro hb
      rw [World.node_prune_of_below (Set.mem_singleton n) hb] at hz
      cases hz
    rw [World.node_prune_of_not (by rintro y rfl; exact hnot)] at hz
    obtain ⟨lz, rz, h1, h2, h3, h4, h5⟩ := h.node hz
    have hnk : lz ∉ killed := fun hmem => hnot ((h.mem_killed_iff hk hl h1 h2 h3).mp hmem)
    refine ⟨lz, rz, h1, ?_, h3, h4, h5⟩
    show (m.rt.entities.destroy l).record lz = some rz
    rw [hkilled.record, if_neg hnk, h2]
  · intro z lz hz hlz
    apply hkilled.gone
    cases hn : A.node z with
    | none => exact Or.inl (h.gone hn hlz)
    | some pd =>
      obtain ⟨p, d⟩ := pd
      obtain ⟨lz', rz, h1, h2, h3, -, -⟩ := h.node hn
      obtain rfl := Option.some.inj (hlz.symm.trans h1)
      refine Or.inr ((h.mem_killed_iff hk hl h1 h2 h3).mpr ?_)
      by_contra hnot
      rw [World.node_prune_of_not (by rintro y rfl; exact hnot), hn] at hz
      cases hz
  · intro lz q hq ha
    obtain ⟨q₀, hq₀, -, -, -, -, hal⟩ := hkilled.record_of_some hq
    exact h.cover hq₀ (hal.mp ha).1
  · intro lz q hq
    obtain ⟨q₀, hq₀, ht, ho, -⟩ := hkilled.record_of_some hq
    exact ⟨q₀, hq₀, ht.symm, ho.symm⟩

/-- The drain at the end of an envelope: the dead leave the table and their names the index. -/
theorem Follows.drain (h : Follows v m A) :
    Follows v m.drain A ∧ KeepsLabels m.rt m.drain.rt := by
  have ht := Runtime.tornDown_drainDestroyed h.sound
  have hqueued := h.sound.linked.queued
  rw [List.nil_append] at hqueued
  have hlocal := m.localOf_drain
  have hold : ∀ {z l}, m.drain.index.localOf z = some l → m.index.localOf z = some l := by
    intro z l hz
    rw [hlocal] at hz
    split_ifs at hz
    exact hz
  have hkept : ∀ {z l}, z ∈ A.known → m.index.localOf z = some l → m.drain.index.localOf z = some l := by
    intro z l hz hl
    rw [hlocal, if_neg (fun hu => h.unmapped z hu hz), hl]
  have halive : ∀ {l r}, m.rt.entities.record l = some r → r.alive = true →
      l ∉ m.rt.entities.pendingDestroy := by
    intro l r hr ha hmem
    obtain ⟨r', hr', hd⟩ := (hqueued l).mp hmem
    obtain rfl := Option.some.inj (hr.symm.trans hr')
    rw [ha] at hd
    cases hd
  -- A record of the drained table was there before, with the same flag.
  have hrecord : ∀ {l r'}, m.drain.rt.entities.record l = some r' → l ∉ m.rt.entities.pendingDestroy ∧
      ∃ r, m.rt.entities.record l = some r ∧ r'.alive = r.alive ∧
        r.template = r'.template ∧ r.ownerId = r'.ownerId := by
    intro l r' hr'
    have hnd : l ∉ m.rt.entities.pendingDestroy := by
      intro hmem
      rw [show m.drain.rt.entities.record l = none from ht.gone l hmem] at hr'
      cases hr'
    refine ⟨hnd, ?_⟩
    cases hr : m.rt.entities.record l with
    | none =>
      rw [show m.drain.rt.entities.record l = none from ht.origin hr] at hr'
      cases hr'
    | some r =>
      obtain ⟨r'', hr'', -, htem, how, hal⟩ := ht.kept hnd hr
      obtain rfl := Option.some.inj (hr'.symm.trans hr'')
      exact ⟨r, rfl, hal, htem.symm, how.symm⟩
  refine ⟨⟨⟨ht.tearing.linked, ht.group, ht.clean, ht.liveCount.trans h.sound.bound⟩, h.known, ?_, ?_, fun hx hy => h.inj (hold hx) (hold hy),
    fun hx => ht.issued _ (h.issued (hold hx)), ?_, ?_, ?_⟩, ?_⟩
  · intro z
    show (m.drain.index.localOf z).isSome = true ↔ z ∈ A.known ∨ z ∈ []
    rw [hlocal]
    by_cases hu : z ∈ m.pendingUnmap
    · simp [hu, h.unmapped z hu]
    · rw [if_neg hu, h.mapped]
      simp [hu]
  · intro z hz
    cases hz
  · intro z p d hz
    obtain ⟨l, r, h1, h2, h3, h4, h5⟩ := h.node hz
    obtain ⟨r', hr', hpar, -, -, hal⟩ := ht.kept (halive h2 h3) h2
    refine ⟨l, r', hkept (h.known z (by rw [hz]; rfl)) h1, hr', hal.trans h3, ?_, ?_⟩
    · rw [hpar]
      cases p with
      | none => exact h4
      | some q => exact hkept (h.known q (h.under_node ⟨d, hz⟩)) h4
    · rw [← h5]
      have htags : m.drain.rt.tags.tagsOf l = m.rt.tags.tagsOf l := by
        refine ht.tags _ (fun d' hd' hi => halive h2 h3 ?_)
        obtain ⟨rd, hrd, -⟩ := (hqueued d').mp hd'
        have hdl : d' = l := m.rt.entities.table.eq_of_handleIndex_eq
          (by rw [show m.rt.entities.table.record d' = some rd from hrd]; rfl)
          (by rw [show m.rt.entities.table.record l = some r from h2]; rfl) hi
        exact hdl ▸ hd'
      unfold Runtime.shownTags
      rw [htags]
  · intro z l hz hl r' hr'
    obtain ⟨-, r, hr, hal, -⟩ := hrecord hr'
    rw [hal]
    exact h.gone hz (hold hl) r hr
  · intro l r' hr' ha
    obtain ⟨-, r, hr, hal, -⟩ := hrecord hr'
    obtain ⟨z, hz⟩ := h.cover hr (hal ▸ ha)
    obtain ⟨p, d, hn, -⟩ := h.node_of_alive hz hr (hal ▸ ha)
    exact ⟨z, hkept (h.known z (by rw [hn]; rfl)) hz⟩
  · intro l r' hr'
    obtain ⟨-, r, hr, -, htem, how⟩ := hrecord hr'
    exact ⟨r, hr, htem, how⟩

end calls

end Mirror

end Grove
