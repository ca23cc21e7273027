import Grove.Core.Entities

/-! # The hierarchy invariant

`Linked e doomed` is what every call on the entity table keeps: parents and children name each
other, no chain of parents is infinite, the subtree of a dead entity is dead, and the dead
entities still in the table are exactly the queued ones.  `doomed` are the entities a drain has
taken off the queue and not yet torn down; outside a drain it is empty.  While a drain tears
down, a doomed child may outlive its parent: that weaker state is `Tearing`.

Each call has one lemma that says what it does to the records (`record_create`, `Moved`) and one
that says it keeps the invariant. -/

namespace Grove

namespace Entities

/-- What holds of the records and the queues at any time. -/
structure Shape (e : Entities) (doomed : List EntityId) : Prop where
  /-- A listed child exists and names the parent. -/
  down : ∀ {p r c}, e.record p = some r → c ∈ r.children → ∃ cr, e.record c = some cr ∧ cr.parent = p
  nodup : ∀ {p r}, e.record p = some r → r.children.Nodup
  /-- Nothing alive hangs beneath a dead entity. -/
  dead : ∀ {p r c cr}, e.record p = some r → r.alive = false → c ∈ r.children →
    e.record c = some cr → cr.alive = false
  /-- The queues hold the dead. -/
  queued : ∀ x, x ∈ doomed ++ e.pendingDestroy ↔ ∃ r, e.record x = some r ∧ r.alive = false
  queue_nodup : (doomed ++ e.pendingDestroy).Nodup
  /-- A doomed subtree is doomed as a whole. -/
  doomed_down : ∀ {d r c}, d ∈ doomed → e.record d = some r → c ∈ r.children → c ∈ doomed
  rooted : ∀ x, Rooted e.parentOf x

/-- What holds between any two calls. -/
structure Linked (e : Entities) (doomed : List EntityId) : Prop extends Shape e doomed where
  /-- A parent exists and lists its child. -/
  up : ∀ {c r}, e.record c = some r → r.parent ≠ noEntity →
    ∃ p, e.record r.parent = some p ∧ c ∈ p.children

/-- What holds while a drain tears down: a doomed child's parent may be gone. -/
structure Tearing (e : Entities) (doomed : List EntityId) : Prop extends Shape e doomed where
  up : ∀ {c r}, e.record c = some r → r.parent ≠ noEntity →
    (∃ p, e.record r.parent = some p ∧ c ∈ p.children) ∨ (c ∈ doomed ∧ e.record r.parent = none)

variable {e : Entities} {doomed : List EntityId}

theorem Linked.tearing (h : e.Linked doomed) : e.Tearing doomed :=
  ⟨h.toShape, fun hc hp => Or.inl (h.up hc hp)⟩

theorem Tearing.linked (h : e.Tearing []) : e.Linked [] := by
  refine ⟨h.toShape, fun hc hp => ?_⟩
  rcases h.up hc hp with hup | ⟨hmem, -⟩
  · exact hup
  · cases hmem

theorem record_empty (x : EntityId) : empty.record x = none := by
  simp [record, empty, SlotTable.record, SlotTable.indexOf, SlotTable.empty]

theorem empty_linked : empty.Linked [] := by
  refine ⟨⟨?_, ?_, ?_, ?_, List.nodup_nil, ?_, ?_⟩, ?_⟩
  · intro p r c h; rw [record_empty] at h; cases h
  · intro p r h; rw [record_empty] at h; cases h
  · intro p r c cr h; rw [record_empty] at h; cases h
  · intro x
    constructor
    · intro h; cases h
    · rintro ⟨r, h, -⟩; rw [record_empty] at h; cases h
  · intro d r c h; cases h
  · intro x
    refine Rooted.step ?_
    rw [parentOf, record_empty]
    exact Rooted.root
  · intro c r h; rw [record_empty] at h; cases h

theorem ne_noEntity_of_record {x : EntityId} {r : EntityRecord} (h : e.record x = some r) :
    x ≠ noEntity := e.table.ne_zero_of_record (by
      have h' : e.table.record x = some r := h
      rw [h']
      rfl)

theorem parentOf_of_record {x : EntityId} {r : EntityRecord} (h : e.record x = some r) :
    e.parentOf x = r.parent := by
  rw [parentOf, h]
  rfl

theorem parentOf_of_none {x : EntityId} (h : e.record x = none) : e.parentOf x = noEntity := by
  rw [parentOf, h]
  rfl

/-- No entity is its own parent. -/
theorem Shape.parent_ne (h : e.Shape doomed) {x : EntityId} {r : EntityRecord}
    (hx : e.record x = some r) : r.parent ≠ x := by
  intro hpar
  obtain ⟨l, hl⟩ := (h.rooted x).chain
  have hself : e.parentOf x = x := by rw [parentOf_of_record hx, hpar]
  cases hl with
  | root => exact ne_noEntity_of_record hx rfl
  | step hne hl =>
    rw [hself] at hl
    have := (Chain.step hne (hself.symm ▸ hl)).unique hl
    have := congrArg List.length this
    simp at this

/-! ### `create` -/

section create
variable {template ownerId : String} {id : EntityId} {e' : Entities}

theorem create_eq_ok (h : e.create template ownerId = .ok (id, e')) :
    e.table.liveCount < maxEntities ∧ e'.pendingDestroy = e.pendingDestroy ∧
      e.table.create ⟨template, ownerId, noEntity, [], true, false⟩ = some (id, e'.table) := by
  unfold create at h
  split_ifs at h with hfull
  split at h
  · cases h
  · rename_i id₀ t heq
    obtain ⟨rfl, rfl⟩ := Prod.mk.inj (Except.ok.inj h)
    exact ⟨not_le.mp hfull, rfl, heq⟩

theorem record_create (h : e.create template ownerId = .ok (id, e')) (x : EntityId) :
    e'.record x = if x = id then some ⟨template, ownerId, noEntity, [], true, false⟩ else e.record x :=
  SlotTable.record_create (create_eq_ok h).2.2 x

theorem record_of_create (h : e.create template ownerId = .ok (id, e')) : e.record id = none :=
  SlotTable.record_of_create (create_eq_ok h).2.2

theorem parentOf_create (h : e.create template ownerId = .ok (id, e')) (x : EntityId) :
    e'.parentOf x = e.parentOf x := by
  unfold parentOf
  rw [record_create h]
  split_ifs with hx
  · rw [hx, record_of_create h]
    rfl
  · rfl

/-- A fresh root keeps the invariant. -/
theorem Linked.create (h : e.Linked doomed) (hc : e.create template ownerId = .ok (id, e')) :
    e'.Linked doomed := by
  have hrec := record_create hc
  have hnone := record_of_create hc
  have hpend := (create_eq_ok hc).2.1
  have hold : ∀ {x r}, e.record x = some r → e'.record x = some r := by
    intro x r hx
    rw [hrec, if_neg (by rintro rfl; rw [hnone] at hx; cases hx)]
    exact hx
  -- A record of the new table is the fresh root's, or one of the old table.
  have hcases : ∀ {x r}, e'.record x = some r →
      r = ⟨template, ownerId, noEntity, [], true, false⟩ ∨ e.record x = some r := by
    intro x r hx
    rw [hrec] at hx
    split_ifs at hx
    · exact Or.inl (Option.some.inj hx).symm
    · exact Or.inr hx
  refine ⟨⟨?_, ?_, ?_, ?_, ?_, ?_, ?_⟩, ?_⟩
  · intro p r c hp hmem
    rcases hcases hp with rfl | hp
    · cases hmem
    · obtain ⟨cr, hcr, hpar⟩ := h.down hp hmem
      exact ⟨cr, hold hcr, hpar⟩
  · intro p r hp
    rcases hcases hp with rfl | hp
    · exact List.nodup_nil
    · exact h.nodup hp
  · intro p r c cr hp hdead hmem hcr
    rcases hcases hp with rfl | hp
    · cases hmem
    · obtain ⟨cr', hcr', -⟩ := h.down hp hmem
      have : cr = cr' := Option.some.inj (hcr.symm.trans (hold hcr'))
      exact this ▸ h.dead hp hdead hmem hcr'
  · intro x
    rw [hpend, h.queued]
    constructor
    · rintro ⟨r, hx, hdead⟩
      exact ⟨r, hold hx, hdead⟩
    · rintro ⟨r, hx, hdead⟩
      rcases hcases hx with rfl | hx
      · cases hdead
      · exact ⟨r, hx, hdead⟩
  · rw [hpend]
    exact h.queue_nodup
  · intro d r c hd hr hmem
    rcases hcases hr with rfl | hr
    · cases hmem
    · exact h.doomed_down hd hr hmem
  · intro x
    exact (h.rooted x).cut (fun z => Or.inl (parentOf_create hc z))
  · intro c r hr hpar
    rcases hcases hr with rfl | hr
    · exact absurd rfl hpar
    · obtain ⟨p, hp, hmem⟩ := h.up hr hpar
      exact ⟨p, hold hp, hmem⟩

end create

/-! ### Moving an entity: `detach` and `attachTo` -/

/-- A parent's list once `id` has left `old` for `new`. -/
def movedChildren (id old new z : EntityId) (children : List EntityId) : List EntityId :=
  (if z = old then children.erase id else children) ++ (if z = new then [id] else [])

/-- `e'` is `e` with the existing entity `id` moved beneath `new` (the root for the null handle). -/
structure Moved (e e' : Entities) (id new : EntityId) (r : EntityRecord) : Prop where
  existed : e.record id = some r
  self : e'.record id = some { r with parent := new }
  other : ∀ z, z ≠ id → z ≠ noEntity → e'.record z =
    (e.record z).map (fun q => { q with children := movedChildren id r.parent new z q.children })
  pending : e'.pendingDestroy = e.pendingDestroy
  liveCount : e'.table.liveCount = e.table.liveCount
  issued : ∀ x, e'.table.Issued x ↔ e.table.Issued x

section move
variable {id new : EntityId} {r : EntityRecord} {e' : Entities}

theorem unlink_root (hid : e.record id = some r) (hpar : r.parent = noEntity) :
    e.unlink id = (false, e) := by
  simp only [unlink, hid, if_pos hpar]

theorem unlink_parented (hid : e.record id = some r) (hpar : r.parent ≠ noEntity) :
    e.unlink id = (true, { e with
      table := (e.table.modify r.parent (fun p => { p with children := p.children.erase id })).modify id
        (fun r => { r with parent := noEntity }) }) := by
  simp only [unlink, hid, if_neg hpar]

/-- `unlink` leaves the entity at the root, its former parent without it. -/
theorem unlink_moved (hid : e.record id = some r) (hne : r.parent ≠ id) :
    Moved e (e.unlink id).2 id noEntity r := by
  by_cases hpar : r.parent = noEntity
  · rw [unlink_root hid hpar]
    refine ⟨hid, by rw [← hpar]; exact hid, ?_, rfl, rfl, fun _ => Iff.rfl⟩
    intro z hz hz0
    simp only [movedChildren, hpar, if_neg hz0, List.append_nil]
    rw [Option.map_id']
  · have hid' : e.table.record id = some r := hid
    rw [unlink_parented hid hpar]
    refine ⟨hid, ?_, ?_, rfl, ?_, ?_⟩
    · show ((e.table.modify _ _).modify id _).record id = _
      rw [SlotTable.record_modify, if_pos rfl, SlotTable.record_modify, if_neg (Ne.symm hne), hid']
      rfl
    · intro z hz hz0
      show ((e.table.modify _ _).modify id _).record z = _
      rw [SlotTable.record_modify, if_neg hz, SlotTable.record_modify]
      simp only [movedChildren, if_neg hz0, List.append_nil]
      split_ifs with hold
      · rw [hold]
        rfl
      · rw [Option.map_id']
        rfl
    · show ((e.table.modify _ _).modify id _).liveCount = _
      rw [SlotTable.liveCount_modify, SlotTable.liveCount_modify]
    · intro x
      show ((e.table.modify _ _).modify id _).Issued x ↔ _
      rw [SlotTable.issued_modify, SlotTable.issued_modify]

theorem link_moved (hid : e.record id = some r) (hne : r.parent ≠ id) (hnew : new ≠ id) :
    Moved e (e.link id new) id new r := by
  have hu := unlink_moved hid hne
  have hself : (e.unlink id).2.table.record id = some { r with parent := noEntity } := hu.self
  refine ⟨hid, ?_, ?_, hu.pending, ?_, ?_⟩
  · show (((e.unlink id).2.table.modify id _).modify new _).record id = _
    rw [SlotTable.record_modify, if_neg (Ne.symm hnew), SlotTable.record_modify, if_pos rfl, hself]
    rfl
  · intro z hz hz0
    have hother : (e.unlink id).2.table.record z = _ := hu.other z hz hz0
    show (((e.unlink id).2.table.modify id _).modify new _).record z = _
    rw [SlotTable.record_modify]
    split_ifs with hzn
    · rw [SlotTable.record_modify, if_neg hnew, ← hzn, hother, Option.map_map]
      congr 1
      funext q
      simp [movedChildren, hz0]
    · rw [SlotTable.record_modify, if_neg hz, hother]
      simp only [movedChildren, if_neg hz0, if_neg hzn]
  · show (((e.unlink id).2.table.modify id _).modify new _).liveCount = _
    rw [SlotTable.liveCount_modify, SlotTable.liveCount_modify, hu.liveCount]
  · intro x
    show (((e.unlink id).2.table.modify id _).modify new _).Issued x ↔ _
    rw [SlotTable.issued_modify, SlotTable.issued_modify, hu.issued]

theorem Moved.parentOf (hm : Moved e e' id new r) : e'.parentOf = Function.update e.parentOf id new := by
  funext z
  by_cases hz : z = id
  · rw [hz, Function.update_self, parentOf_of_record hm.self]
  · rw [Function.update_of_ne hz]
    by_cases hz0 : z = noEntity
    · rw [hz0, parentOf_noEntity, parentOf_noEntity]
    · unfold Entities.parentOf
      rw [hm.other z hz hz0]
      cases e.record z <;> rfl

/-- What a record of `e'` was in `e`. -/
theorem Moved.record_of (hm : Moved e e' id new r) {z : EntityId} {q' : EntityRecord}
    (hz : e'.record z = some q') :
    (z = id ∧ q' = { r with parent := new }) ∨
      z ≠ id ∧ ∃ q, e.record z = some q ∧
        q' = { q with children := movedChildren id r.parent new z q.children } := by
  by_cases hid : z = id
  · rw [hid, hm.self] at hz
    exact Or.inl ⟨hid, (Option.some.inj hz).symm⟩
  · rw [hm.other z hid (ne_noEntity_of_record hz)] at hz
    obtain ⟨q, hq, rfl⟩ := Option.map_eq_some_iff.mp hz
    exact Or.inr ⟨hid, q, hq, rfl⟩

theorem Moved.record_other (hm : Moved e e' id new r) {z : EntityId} {q : EntityRecord} (hz : z ≠ id)
    (hq : e.record z = some q) :
    e'.record z = some { q with children := movedChildren id r.parent new z q.children } := by
  rw [hm.other z hz (ne_noEntity_of_record hq), hq]
  rfl

theorem mem_movedChildren {old z c : EntityId} {children : List EntityId} (hc : c ≠ id) :
    c ∈ movedChildren id old new z children ↔ c ∈ children := by
  unfold movedChildren
  split_ifs <;> simp [List.mem_erase_of_ne hc, hc]

/-- Every record lives on, with its flag. -/
theorem Moved.alive (hm : Moved e e' id new r) (z : EntityId) :
    (e'.record z).map EntityRecord.alive = (e.record z).map EntityRecord.alive := by
  by_cases hid : z = id
  · rw [hid, hm.self, hm.existed]
    rfl
  · by_cases hz0 : z = noEntity
    · have h1 : e.record z = none := by rw [hz0]; exact e.table.record_zero
      have h2 : e'.record z = none := by rw [hz0]; exact e'.table.record_zero
      rw [h1, h2]
    · rw [hm.other z hid hz0, Option.map_map]
      rfl

/-- A move to the root, or beneath a live entity outside the subtree, keeps the invariant. -/
theorem Linked.move (h : e.Linked doomed) (hm : Moved e e' id new r) (hnew : new ≠ id)
    (htarget : new = noEntity ∨ ∃ p, e.record new = some p ∧ p.alive = true)
    (hroot : Rooted (Function.update e.parentOf id new) new) : e'.Linked doomed := by
  have hdead : ∀ {z q'}, e'.record z = some q' → ∀ {q}, e.record z = some q → q'.alive = q.alive := by
    intro z q' hz q hq
    have := hm.alive z
    rw [hz, hq] at this
    exact Option.some.inj this
  -- Whoever lists `id` in `e` is its old parent.
  have hlisted : ∀ {z q}, e.record z = some q → id ∈ q.children → z = r.parent := by
    intro z q hq hmem
    obtain ⟨cr, hcr, hpar⟩ := h.down hq hmem
    rw [hm.existed] at hcr
    rw [← hpar, ← Option.some.inj hcr]
  -- A child listed in `e'` is `id` beneath `new`, or another entity listed in `e`.
  have hchild : ∀ {z q c}, e.record z = some q → z ≠ id →
      c ∈ movedChildren id r.parent new z q.children → (c = id ∧ z = new) ∨ c ≠ id ∧ c ∈ q.children := by
    intro z q c hq _ hmem
    by_cases hc : c = id
    · refine Or.inl ⟨hc, ?_⟩
      by_contra hz
      unfold movedChildren at hmem
      rw [if_neg hz, List.append_nil, hc] at hmem
      split_ifs at hmem with hold
      · exact (List.Nodup.not_mem_erase (h.nodup hq)) hmem
      · exact hold (hlisted hq hmem)
    · exact Or.inr ⟨hc, (mem_movedChildren hc).mp hmem⟩
  have hkeep : ∀ {c cr}, e.record c = some cr → ∃ cr', e'.record c = some cr' := by
    intro c cr hc
    have := hm.alive c
    rw [hc] at this
    obtain ⟨cr', hcr', -⟩ := Option.map_eq_some_iff.mp this
    exact ⟨cr', hcr'⟩
  refine ⟨⟨?_, ?_, ?_, ?_, ?_, ?_, ?_⟩, ?_⟩
  · intro p q' c hp hmem
    rcases hm.record_of hp with ⟨rfl, rfl⟩ | ⟨hne, q, hq, rfl⟩
    · obtain ⟨cr, hcr, hpar⟩ := h.down hm.existed hmem
      have hc : c ≠ p := by
        rintro rfl
        exact h.parent_ne hm.existed (by rw [hm.existed] at hcr; rw [Option.some.inj hcr]; exact hpar)
      exact ⟨_, hm.record_other hc hcr, hpar⟩
    · rcases hchild hq hne hmem with ⟨rfl, rfl⟩ | ⟨hc, hmem⟩
      · exact ⟨_, hm.self, rfl⟩
      · obtain ⟨cr, hcr, hpar⟩ := h.down hq hmem
        exact ⟨_, hm.record_other hc hcr, hpar⟩
  · intro p q' hp
    rcases hm.record_of hp with ⟨rfl, rfl⟩ | ⟨hne, q, hq, rfl⟩
    · exact (h.nodup hm.existed : r.children.Nodup)
    · have hnd := h.nodup hq
      unfold movedChildren
      split_ifs with hold hn hn
      · exact List.nodup_append.mpr ⟨hnd.erase id, List.nodup_singleton id, by
          intro a ha b hb
          rw [List.mem_singleton] at hb
          rintro rfl
          exact hnd.not_mem_erase (hb ▸ ha)⟩
      · rw [List.append_nil]
        exact hnd.erase id
      · exact List.nodup_append.mpr ⟨hnd, List.nodup_singleton id, by
          intro a ha b hb
          rw [List.mem_singleton] at hb
          rintro rfl
          exact hold (hlisted hq (hb ▸ ha))⟩
      · rw [List.append_nil]
        exact hnd
  · intro p q' c cr' hp hpdead hmem hcr'
    rcases hm.record_of hp with ⟨rfl, rfl⟩ | ⟨hne, q, hq, rfl⟩
    · obtain ⟨cr, hcr, -⟩ := h.down hm.existed hmem
      rw [hdead hcr' hcr]
      exact h.dead hm.existed hpdead hmem hcr
    · rcases hchild hq hne hmem with ⟨rfl, rfl⟩ | ⟨hc, hmem⟩
      · rcases htarget with h0 | ⟨p, hp', halive⟩
        · exact absurd h0 (ne_noEntity_of_record hq)
        · rw [hp'] at hq
          rw [Option.some.inj hq] at halive
          rw [hpdead] at halive
          cases halive
      · obtain ⟨cr, hcr, -⟩ := h.down hq hmem
        rw [hdead hcr' hcr]
        exact h.dead hq hpdead hmem hcr
  · intro x
    rw [hm.pending, h.queued]
    have halive := hm.alive x
    constructor
    · rintro ⟨q, hq, hd⟩
      obtain ⟨q', hq'⟩ := hkeep hq
      exact ⟨q', hq', by rw [hdead hq' hq]; exact hd⟩
    · rintro ⟨q', hq', hd⟩
      rw [hq'] at halive
      obtain ⟨q, hq, -⟩ := Option.map_eq_some_iff.mp halive.symm
      exact ⟨q, hq, by rw [← hdead hq' hq]; exact hd⟩
  · rw [hm.pending]
    exact h.queue_nodup
  · intro d q' c hd hr hmem
    have hddead : ∃ q, e.record d = some q ∧ q.alive = false :=
      (h.queued d).mp (List.mem_append_left _ hd)
    rcases hm.record_of hr with ⟨rfl, rfl⟩ | ⟨hne, q, hq, rfl⟩
    · exact h.doomed_down hd hm.existed hmem
    · rcases hchild hq hne hmem with ⟨rfl, rfl⟩ | ⟨-, hmem⟩
      · obtain ⟨q₀, hq₀, hdd⟩ := hddead
        rcases htarget with h0 | ⟨p, hp', halive⟩
        · exact absurd h0 (ne_noEntity_of_record hq)
        · rw [hp'] at hq₀
          rw [Option.some.inj hq₀, hdd] at halive
          cases halive
      · exact h.doomed_down hd hq hmem
  · intro x
    rw [hm.parentOf]
    exact Rooted.relink hroot (h.rooted x)
  · intro c q' hc hpar
    rcases hm.record_of hc with ⟨rfl, rfl⟩ | ⟨hne, q, hq, rfl⟩
    · rcases htarget with h0 | ⟨p, hp, -⟩
      · exact absurd h0 hpar
      · refine ⟨_, hm.record_other hnew hp, ?_⟩
        simp [movedChildren]
    · obtain ⟨p, hp, hmem⟩ := h.up hq hpar
      by_cases hpid : q.parent = id
      · refine ⟨_, (congrArg e'.record hpid).trans hm.self, ?_⟩
        rw [hpid, hm.existed] at hp
        rw [Option.some.inj hp]
        exact hmem
      · refine ⟨_, hm.record_other hpid hp, ?_⟩
        exact (mem_movedChildren hne).mpr hmem

/-- When `attachTo` moves, and what it then does. -/
theorem attachTo_moved (h : e.Shape doomed) {parent : EntityId} (hat : e.attachTo id parent = .ok (some e')) :
    ∃ r p l, e.record parent = some p ∧ p.alive = true ∧ Chain e.parentOf parent l ∧ id ∉ l ∧
      parent ≠ id ∧ Moved e e' id parent r ∧ Rooted (Function.update e.parentOf id parent) parent := by
  unfold attachTo at hat
  split at hat
  · rename_i r p hr hp
    split_ifs at hat with hal hb
    · obtain rfl := Option.some.inj (Except.ok.inj hat)
      rw [Bool.not_eq_true] at hb
      obtain ⟨l, hl⟩ := (h.rooted parent).chain
      have hnot : id ∉ l := by
        rw [← e.isBeneath_iff hl, hb]
        simp
      have hne : parent ≠ id := by
        rintro rfl
        cases hl with
        | root => exact ne_noEntity_of_record hp rfl
        | step _ _ => exact hnot List.mem_cons_self
      exact ⟨r, p, l, hp, hal, hl, hnot, hne, link_moved hr (h.parent_ne hr) hne,
        e.rooted_of_walkMeets _ _ hb⟩
    · cases hat
  · cases hat

/-- Beneath a live entity outside its subtree, an entity can be moved. -/
theorem attachTo_of_chain {parent : EntityId} {p : EntityRecord} {l : List EntityId}
    (hr : e.record id = some r) (hp : e.record parent = some p) (hal : p.alive = true)
    (hl : Chain e.parentOf parent l) (hnot : id ∉ l) : e.attachTo id parent = .ok (some (e.link id parent)) := by
  have hb : ¬ e.isBeneath parent id = true := by
    rw [e.isBeneath_iff hl]
    exact hnot
  simp only [attachTo, hr, hp, if_pos hal, if_neg hb]

end move

end Entities

end Grove
