import Grove.Core.Hierarchy

/-! # The destroy cascade and the drain

`destroy` clears the flag on a whole subtree and queues it; the drain tears the queued entities
down one by one.  `Cascaded` is what a cascade does to the table: `mem_killed` says that it
kills exactly the live part of the subtree, `Linked.cascade` that it keeps the invariant.
`Linked.splice` and `Tearing.teardown` are the two steps of a drain. -/

namespace Grove

namespace Entities

variable {e : Entities} {doomed : List EntityId}

/-! ### `destroy` -/

/-- `c` is listed by `p`. -/
def IsChild (e : Entities) (p c : EntityId) : Prop := ∃ r, e.record p = some r ∧ c ∈ r.children

/-- The entities still alive. -/
def aliveSet (e : Entities) : Finset EntityId := (e.ids.filter e.isAlive).toFinset

theorem mem_aliveSet {x : EntityId} : x ∈ e.aliveSet ↔ ∃ r, e.record x = some r ∧ r.alive = true := by
  unfold aliveSet ids isAlive
  rw [List.mem_toFinset, List.mem_filter, SlotTable.mem_liveIds]
  constructor
  · rintro ⟨hs, ha⟩
    obtain ⟨r, hr⟩ := Option.isSome_iff_exists.mp hs
    have hr' : e.record x = some r := hr
    rw [hr'] at ha
    exact ⟨r, hr', ha⟩
  · rintro ⟨r, hr, ha⟩
    have hr' : e.table.record x = some r := hr
    rw [hr, hr']
    exact ⟨rfl, ha⟩

theorem card_aliveSet_le (e : Entities) : e.aliveSet.card ≤ e.table.liveCount := by
  unfold aliveSet
  refine (List.toFinset_card_le _).trans ((List.length_filter_le _ _).trans ?_)
  rw [ids, SlotTable.length_liveIds]

/-- `e'` is `e` with the entities of `killed`, all alive before, marked and queued in order. -/
structure Killed (e e' : Entities) (killed : List EntityId) : Prop where
  pending : e'.pendingDestroy = e.pendingDestroy ++ killed
  nodup : killed.Nodup
  alive : ∀ x ∈ killed, ∃ r, e.record x = some r ∧ r.alive = true
  record : ∀ x, e'.record x = if x ∈ killed then (e.record x).map kill else e.record x
  liveCount : e'.table.liveCount = e.table.liveCount
  issued : ∀ x, e'.table.Issued x ↔ e.table.Issued x

namespace Killed

variable {e' e'' : Entities} {killed killed' : List EntityId}

theorem refl (e : Entities) : Killed e e [] :=
  ⟨(List.append_nil _).symm, List.nodup_nil, (fun _ h => by cases h), fun _ => by simp, rfl,
    fun _ => Iff.rfl⟩

theorem trans (h : Killed e e' killed) (h' : Killed e' e'' killed') :
    Killed e e'' (killed ++ killed') := by
  -- What the second half kills was alive after the first, so the first did not kill it.
  have hdisj : ∀ x ∈ killed', x ∉ killed := by
    intro x hx hmem
    obtain ⟨r, hr, ha⟩ := h'.alive x hx
    rw [h.record, if_pos hmem] at hr
    obtain ⟨r₀, -, rfl⟩ := Option.map_eq_some_iff.mp hr
    cases ha
  refine ⟨?_, ?_, ?_, ?_, h'.liveCount.trans h.liveCount, fun x => (h'.issued x).trans (h.issued x)⟩
  · rw [h'.pending, h.pending, List.append_assoc]
  · exact List.nodup_append.mpr ⟨h.nodup, h'.nodup, fun a ha b hb hab => hdisj b hb (hab ▸ ha)⟩
  · intro x hx
    rcases List.mem_append.mp hx with hx | hx
    · exact h.alive x hx
    · obtain ⟨r, hr, ha⟩ := h'.alive x hx
      rw [h.record, if_neg (hdisj x hx)] at hr
      exact ⟨r, hr, ha⟩
  · intro x
    rw [h'.record, h.record]
    by_cases h1 : x ∈ killed
    · have h2 : x ∉ killed' := fun h2 => hdisj x h2 h1
      simp [h1, h2]
    · simp [h1]

theorem mark {id : EntityId} {r : EntityRecord} (hr : e.record id = some r) (ha : r.alive = true) :
    Killed e (e.mark id) [id] := by
  refine ⟨rfl, List.nodup_singleton id, ?_, ?_, SlotTable.liveCount_modify, fun _ => SlotTable.issued_modify _⟩
  · intro x hx
    rw [List.mem_singleton] at hx
    exact ⟨r, hx ▸ hr, ha⟩
  · intro x
    show (e.table.modify id kill).record x = _
    rw [SlotTable.record_modify]
    by_cases hx : x = id
    · simp only [hx, if_true, List.mem_singleton]
      rfl
    · simp only [hx, if_false, List.mem_singleton]
      rfl

/-- The flag alone changes. -/
theorem record_some (h : Killed e e' killed) {x : EntityId} {r : EntityRecord} (hr : e.record x = some r) :
    ∃ r', e'.record x = some r' ∧ r'.template = r.template ∧ r'.ownerId = r.ownerId ∧
      r'.parent = r.parent ∧ r'.children = r.children ∧ (r'.alive = true ↔ r.alive = true ∧ x ∉ killed) := by
  rw [h.record, hr]
  by_cases hx : x ∈ killed
  · exact ⟨kill r, by simp [hx], rfl, rfl, rfl, rfl, by simp [kill, hx]⟩
  · exact ⟨r, by simp [hx], rfl, rfl, rfl, rfl, by simp [hx]⟩

theorem record_of_some (h : Killed e e' killed) {x : EntityId} {r' : EntityRecord}
    (hr : e'.record x = some r') :
    ∃ r, e.record x = some r ∧ r'.template = r.template ∧ r'.ownerId = r.ownerId ∧
      r'.parent = r.parent ∧ r'.children = r.children ∧ (r'.alive = true ↔ r.alive = true ∧ x ∉ killed) := by
  cases hx : e.record x with
  | none =>
    rw [h.record, hx] at hr
    simp at hr
  | some r =>
    obtain ⟨r'', hr'', hall⟩ := h.record_some hx
    rw [hr] at hr''
    cases hr''
    exact ⟨r, rfl, hall⟩

theorem isChild (h : Killed e e' killed) {p c : EntityId} : e'.IsChild p c ↔ e.IsChild p c := by
  constructor
  · rintro ⟨r', hr', hmem⟩
    obtain ⟨r, hr, -, -, -, hch, -⟩ := h.record_of_some hr'
    exact ⟨r, hr, hch ▸ hmem⟩
  · rintro ⟨r, hr, hmem⟩
    obtain ⟨r', hr', -, -, -, hch, -⟩ := h.record_some hr
    exact ⟨r', hr', hch.symm ▸ hmem⟩

theorem isChild_eq (h : Killed e e' killed) : e'.IsChild = e.IsChild := by
  funext p c
  exact propext h.isChild

theorem parentOf (h : Killed e e' killed) : e'.parentOf = e.parentOf := by
  funext x
  unfold Entities.parentOf
  rw [h.record]
  split_ifs
  · cases e.record x <;> rfl
  · rfl

theorem aliveSet_subset (h : Killed e e' killed) : e'.aliveSet ⊆ e.aliveSet := by
  intro x hx
  obtain ⟨r', hr', ha⟩ := mem_aliveSet.mp hx
  obtain ⟨r, hr, -, -, -, -, hal⟩ := h.record_of_some hr'
  exact mem_aliveSet.mpr ⟨r, hr, (hal.mp ha).1⟩

theorem card_lt (h : Killed e e' killed) {x : EntityId} (hx : x ∈ killed) :
    e'.aliveSet.card < e.aliveSet.card := by
  refine Finset.card_lt_card ⟨h.aliveSet_subset, ?_⟩
  intro hsub
  obtain ⟨r', hr', ha⟩ := mem_aliveSet.mp (hsub (mem_aliveSet.mpr (h.alive x hx)))
  obtain ⟨_, -, -, -, -, -, hal⟩ := h.record_of_some hr'
  exact (hal.mp ha).2 hx

end Killed

/-- Not alive: dead, or not in the table. -/
def Gone (e : Entities) (x : EntityId) : Prop := ∀ r, e.record x = some r → r.alive = false

theorem Killed.gone {e' : Entities} {killed : List EntityId} (h : Killed e e' killed) {x : EntityId}
    (hx : e.Gone x ∨ x ∈ killed) : e'.Gone x := by
  intro r' hr'
  obtain ⟨r, hr, -, -, -, -, hal⟩ := h.record_of_some hr'
  rw [Bool.eq_false_iff]
  intro ha
  obtain ⟨ha, hnot⟩ := hal.mp ha
  rcases hx with hx | hx
  · rw [hx r hr] at ha
    cases ha
  · exact hnot hx

/-- What a cascade from `roots` does: it kills descendants of the roots only, leaves no root
alive, and leaves no child of a killed entity alive. -/
structure Cascaded (e e' : Entities) (roots : List EntityId) (killed : List EntityId) : Prop
    extends Killed e e' killed where
  below : ∀ x ∈ killed, ∃ root ∈ roots, Relation.ReflTransGen e.IsChild root x
  roots_gone : ∀ x ∈ roots, e'.Gone x
  children_gone : ∀ x ∈ killed, ∀ c, e.IsChild x c → e'.Gone c

/-- The cascade over a list of siblings, from the cascade of each. -/
theorem cascaded_foldl {fuel : ℕ}
    (ih : ∀ (e : Entities) (id : EntityId), e.aliveSet.card < fuel →
      ∃ killed, Cascaded e (destroyWith fuel e id) [id] killed) :
    ∀ (ids : List EntityId) (e : Entities), e.aliveSet.card < fuel →
      ∃ killed, Cascaded e (ids.foldl (destroyWith fuel) e) ids killed
  | [], e, _ => ⟨[], ⟨Killed.refl e, (fun _ h => by cases h), (fun _ h => by cases h), (fun _ h => by cases h)⟩⟩
  | id :: ids, e, hf => by
    obtain ⟨k₁, h₁⟩ := ih e id hf
    have hf' : (destroyWith fuel e id).aliveSet.card < fuel :=
      lt_of_le_of_lt (Finset.card_le_card h₁.aliveSet_subset) hf
    obtain ⟨k₂, h₂⟩ := cascaded_foldl ih ids (destroyWith fuel e id) hf'
    refine ⟨k₁ ++ k₂, h₁.toKilled.trans h₂.toKilled, ?_, ?_, ?_⟩
    · intro x hx
      rcases List.mem_append.mp hx with hx | hx
      · obtain ⟨root, hroot, hbelow⟩ := h₁.below x hx
        rw [List.mem_singleton] at hroot
        exact ⟨id, List.mem_cons_self, hroot ▸ hbelow⟩
      · obtain ⟨root, hroot, hbelow⟩ := h₂.below x hx
        refine ⟨root, List.mem_cons_of_mem _ hroot, ?_⟩
        exact h₁.toKilled.isChild_eq ▸ hbelow
    · intro x hx
      rcases List.mem_cons.mp hx with rfl | hx
      · exact h₂.toKilled.gone (Or.inl (h₁.roots_gone x (List.mem_singleton_self x)))
      · exact h₂.roots_gone x hx
    · intro x hx c hc
      rcases List.mem_append.mp hx with hx | hx
      · exact h₂.toKilled.gone (Or.inl (h₁.children_gone x hx c hc))
      · exact h₂.children_gone x hx c (h₁.toKilled.isChild.mpr hc)

/-- With more fuel than entities alive, the recursion cascades. -/
theorem cascaded_destroyWith : ∀ (fuel : ℕ) (e : Entities) (id : EntityId), e.aliveSet.card < fuel →
    ∃ killed, Cascaded e (destroyWith fuel e id) [id] killed
  | 0, _, _, hf => absurd hf (Nat.not_lt_zero _)
  | fuel + 1, e, id, hf => by
    unfold destroyWith
    cases hr : e.record id with
    | none =>
      refine ⟨[], Killed.refl e, (fun _ h => by cases h), ?_, (fun _ h => by cases h)⟩
      intro x hx r hrec
      rw [List.mem_singleton.mp hx, hr] at hrec
      cases hrec
    | some r =>
      simp only
      split_ifs with ha
      · have hmark := Killed.mark hr ha
        have hcard := hmark.card_lt (List.mem_singleton_self id)
        obtain ⟨killed, hk⟩ := cascaded_foldl (cascaded_destroyWith fuel) r.children (e.mark id) (by omega)
        have hchild : ∀ c ∈ r.children, e.IsChild id c := fun c hc => ⟨r, hr, hc⟩
        refine ⟨[id] ++ killed, hmark.trans hk.toKilled, ?_, ?_, ?_⟩
        · intro x hx
          refine ⟨id, List.mem_singleton_self id, ?_⟩
          rcases List.mem_append.mp hx with hx | hx
          · rw [List.mem_singleton.mp hx]
          · obtain ⟨root, hroot, hbelow⟩ := hk.below x hx
            rw [hmark.isChild_eq] at hbelow
            exact Relation.ReflTransGen.head (hchild root hroot) hbelow
        · intro x hx
          exact hk.toKilled.gone (Or.inl (hmark.gone (Or.inr hx)))
        · intro x hx c hc
          rcases List.mem_append.mp hx with hx | hx
          · obtain ⟨r', hr', hmem⟩ := hc
            rw [List.mem_singleton.mp hx, hr] at hr'
            rw [← Option.some.inj hr'] at hmem
            exact hk.roots_gone c hmem
          · exact hk.children_gone x hx c (hmark.isChild.mpr hc)
      · refine ⟨[], Killed.refl e, (fun _ h => by cases h), ?_, (fun _ h => by cases h)⟩
        intro x hx r' hrec
        rw [List.mem_singleton.mp hx, hr] at hrec
        rw [← Option.some.inj hrec]
        exact Bool.eq_false_iff.mpr ha

/-- `destroy` cascades through the subtree. -/
theorem destroy_cascaded (e : Entities) (id : EntityId) : ∃ killed, Cascaded e (e.destroy id) [id] killed :=
  cascaded_destroyWith _ e id (Nat.lt_succ_of_le e.card_aliveSet_le)

/-- The cascade keeps the invariant. -/
theorem Linked.cascade (h : e.Linked doomed) {e' : Entities} {roots killed : List EntityId}
    (hk : Cascaded e e' roots killed) : e'.Linked doomed := by
  have hdead : ∀ {x r r'}, e.record x = some r → e'.record x = some r' → r.alive = false →
      r'.alive = false := by
    intro x r r' hr hr' hd
    exact hk.toKilled.gone (Or.inl (fun q hq => by rw [hr] at hq; exact (Option.some.inj hq) ▸ hd)) r' hr'
  refine ⟨⟨?_, ?_, ?_, ?_, ?_, ?_, ?_⟩, ?_⟩
  · intro p r' c hp hmem
    obtain ⟨r, hr, -, -, -, hch, -⟩ := hk.record_of_some hp
    obtain ⟨cr, hcr, hpar⟩ := h.down hr (hch ▸ hmem)
    obtain ⟨cr', hcr', -, -, hpar', -, -⟩ := hk.record_some hcr
    exact ⟨cr', hcr', hpar'.trans hpar⟩
  · intro p r' hp
    obtain ⟨r, hr, -, -, -, hch, -⟩ := hk.record_of_some hp
    exact hch ▸ h.nodup hr
  · intro p r' c cr' hp hpd hmem hcr'
    obtain ⟨r, hr, -, -, -, hch, hal⟩ := hk.record_of_some hp
    by_cases hkp : p ∈ killed
    · exact hk.children_gone p hkp c ⟨r, hr, hch ▸ hmem⟩ cr' hcr'
    · have hrd : r.alive = false := by
        rw [Bool.eq_false_iff]
        intro ha
        rw [hal.mpr ⟨ha, hkp⟩] at hpd
        cases hpd
      obtain ⟨cr, hcr, -⟩ := h.down hr (hch ▸ hmem)
      exact hdead hcr hcr' (h.dead hr hrd (hch ▸ hmem) hcr)
  · intro x
    rw [hk.pending, ← List.append_assoc, List.mem_append, h.queued]
    constructor
    · rintro (⟨r, hr, hd⟩ | hx)
      · obtain ⟨r', hr', -⟩ := hk.record_some hr
        exact ⟨r', hr', hdead hr hr' hd⟩
      · obtain ⟨r, hr, -⟩ := hk.alive x hx
        obtain ⟨r', hr', -⟩ := hk.record_some hr
        exact ⟨r', hr', hk.toKilled.gone (Or.inr hx) r' hr'⟩
    · rintro ⟨r', hr', hd⟩
      obtain ⟨r, hr, -, -, -, -, hal⟩ := hk.record_of_some hr'
      by_cases hx : x ∈ killed
      · exact Or.inr hx
      · refine Or.inl ⟨r, hr, ?_⟩
        rw [Bool.eq_false_iff]
        intro ha
        rw [hal.mpr ⟨ha, hx⟩] at hd
        cases hd
  · rw [hk.pending, ← List.append_assoc]
    refine List.nodup_append.mpr ⟨h.queue_nodup, hk.nodup, ?_⟩
    rintro a ha b hb rfl
    obtain ⟨r, hr, hd⟩ := (h.queued a).mp ha
    obtain ⟨r', hr', hal⟩ := hk.alive a hb
    rw [hr] at hr'
    rw [← Option.some.inj hr', hd] at hal
    cases hal
  · intro d r' c hd hr' hmem
    obtain ⟨r, hr, -, -, -, hch, -⟩ := hk.record_of_some hr'
    exact h.doomed_down hd hr (hch ▸ hmem)
  · intro x
    rw [hk.toKilled.parentOf]
    exact h.rooted x
  · intro c r' hc hpar
    obtain ⟨r, hr, -, -, hp, -, -⟩ := hk.record_of_some hc
    rw [hp] at hpar ⊢
    obtain ⟨p, hpr, hmem⟩ := h.up hr hpar
    obtain ⟨p', hpr', -, -, -, hch, -⟩ := hk.record_some hpr
    exact ⟨p', hpr', hch.symm ▸ hmem⟩

theorem Linked.destroy (h : e.Linked doomed) (id : EntityId) : (e.destroy id).Linked doomed := by
  obtain ⟨killed, hk⟩ := e.destroy_cascaded id
  exact h.cascade hk

/-- The cascade kills exactly the live part of the subtree. -/
theorem Shape.mem_killed (h : e.Shape doomed) {e' : Entities} {id x : EntityId} {killed : List EntityId}
    (hk : Cascaded e e' [id] killed) :
    x ∈ killed ↔ (∃ r, e.record x = some r ∧ r.alive = true) ∧ Relation.ReflTransGen e.IsChild id x := by
  constructor
  · intro hx
    obtain ⟨root, hroot, hbelow⟩ := hk.below x hx
    exact ⟨hk.alive x hx, (List.mem_singleton.mp hroot) ▸ hbelow⟩
  · rintro ⟨⟨r, hr, ha⟩, hbelow⟩
    -- Nothing of the subtree is alive afterwards.
    have hgone : e'.Gone x := by
      clear hr ha
      induction hbelow with
      | refl => exact hk.roots_gone id (List.mem_singleton_self id)
      | @tail y c _ hc ih =>
        by_cases hy : y ∈ killed
        · exact hk.children_gone y hy c hc
        · obtain ⟨q, hq, hmem⟩ := hc
          obtain ⟨q', hq', -, -, -, -, hal⟩ := hk.record_some hq
          have hqd : q.alive = false := by
            rw [Bool.eq_false_iff]
            intro ha
            have := ih q' hq'
            rw [hal.mpr ⟨ha, hy⟩] at this
            cases this
          exact hk.toKilled.gone (Or.inl (fun cr hcr => h.dead hq hqd hmem hcr))
    by_contra hx
    obtain ⟨r', hr', -, -, -, -, hal⟩ := hk.record_some hr
    have := hgone r' hr'
    rw [hal.mpr ⟨ha, hx⟩] at this
    cases this

/-! ### The drain -/

/-- Taking the queue: every dead entity is doomed. -/
theorem Linked.splice (h : e.Linked []) : ({ e with pendingDestroy := [] } : Entities).Linked e.pendingDestroy := by
  have hq := h.queued
  rw [List.nil_append] at hq
  refine ⟨⟨h.down, h.nodup, h.dead, ?_, ?_, ?_, h.rooted⟩, h.up⟩
  · intro x
    rw [List.append_nil]
    exact hq x
  · rw [List.append_nil]
    exact h.queue_nodup
  · intro d r c hd hr hmem
    obtain ⟨r', hr', hdead⟩ := (hq d).mp hd
    have hrr : r' = r := Option.some.inj (hr'.symm.trans hr)
    obtain ⟨cr, hcr, -⟩ := h.down hr hmem
    exact (hq c).mpr ⟨cr, hcr, h.dead hr (hrr ▸ hdead) hmem hcr⟩

section teardown
variable {d : EntityId} {r : EntityRecord}

theorem record_teardown (hd : e.record d = some r) (z : EntityId) :
    (e.teardown d).record z =
      if z = d then none
      else (e.record z).map (fun q => { q with children := if z = r.parent then q.children.erase d else q.children }) := by
  unfold teardown record
  have hd' : e.table.record d = some r := hd
  simp only [hd']
  rw [SlotTable.record_release]
  by_cases hz : z = d
  · rw [if_pos hz, if_pos hz]
  rw [if_neg hz, if_neg hz]
  by_cases hpar : r.parent = noEntity
  · -- A root has no list to leave.
    rw [if_pos hpar]
    by_cases hzp : z = r.parent
    · have : e.table.record z = none := by rw [hzp, hpar]; exact e.table.record_zero
      rw [this]
      rfl
    · simp only [if_neg hzp]
      rw [Option.map_id']
  · rw [if_neg hpar, SlotTable.record_modify]
    by_cases hzp : z = r.parent
    · simp only [if_pos hzp]
      rw [hzp]
    · simp only [if_neg hzp]
      rw [Option.map_id']

theorem teardown_pending : (e.teardown d).pendingDestroy = e.pendingDestroy := rfl

theorem record_teardown_some (hd : e.record d = some r) {z : EntityId} {q' : EntityRecord}
    (hz : (e.teardown d).record z = some q') :
    z ≠ d ∧ ∃ q, e.record z = some q ∧
      q' = { q with children := if z = r.parent then q.children.erase d else q.children } := by
  rw [record_teardown hd] at hz
  by_cases hzd : z = d
  · rw [if_pos hzd] at hz
    cases hz
  · rw [if_neg hzd] at hz
    obtain ⟨q, hq, rfl⟩ := Option.map_eq_some_iff.mp hz
    exact ⟨hzd, q, hq, rfl⟩

/-- One teardown of the drain. -/
theorem Tearing.teardown {ds : List EntityId} (h : e.Tearing (d :: ds)) (hd : e.record d = some r) :
    (e.teardown d).Tearing ds := by
  have hnd := h.queue_nodup
  rw [List.cons_append, List.nodup_cons] at hnd
  have hkeep : ∀ {z q}, e.record z = some q → z ≠ d → (e.teardown d).record z =
      some { q with children := if z = r.parent then q.children.erase d else q.children } := by
    intro z q hq hz
    rw [record_teardown hd, if_neg hz, hq]
    rfl
  -- `d` left its parent's list, so no list holds it.
  have hmem : ∀ {z q c}, e.record z = some q →
      c ∈ (if z = r.parent then q.children.erase d else q.children) → c ∈ q.children ∧ c ≠ d := by
    intro z q c hq hc
    have hin : c ∈ q.children := by
      split_ifs at hc
      · exact List.mem_of_mem_erase hc
      · exact hc
    refine ⟨hin, ?_⟩
    rintro rfl
    obtain ⟨cr, hcr, hpar⟩ := h.down hq hin
    rw [hd] at hcr
    rw [if_pos (by rw [← hpar, ← Option.some.inj hcr])] at hc
    exact (h.nodup hq).not_mem_erase hc
  refine ⟨⟨?_, ?_, ?_, ?_, hnd.2, ?_, ?_⟩, ?_⟩
  · intro p q' c hp hc
    obtain ⟨hpd, q, hq, rfl⟩ := record_teardown_some hd hp
    obtain ⟨hin, hcd⟩ := hmem hq hc
    obtain ⟨cr, hcr, hpar⟩ := h.down hq hin
    exact ⟨_, hkeep hcr hcd, hpar⟩
  · intro p q' hp
    obtain ⟨hpd, q, hq, rfl⟩ := record_teardown_some hd hp
    simp only
    split_ifs
    · exact (h.nodup hq).erase d
    · exact h.nodup hq
  · intro p q' c cr' hp hdead hc hcr'
    obtain ⟨hpd, q, hq, rfl⟩ := record_teardown_some hd hp
    obtain ⟨hcd, cr, hcr, rfl⟩ := record_teardown_some hd hcr'
    exact (h.dead hq hdead (hmem hq hc).1 hcr : cr.alive = false)
  · intro x
    rw [teardown_pending]
    have hx := h.queued x
    rw [List.cons_append, List.mem_cons] at hx
    constructor
    · intro hmemx
      have hxd : x ≠ d := fun he => hnd.1 (he ▸ hmemx)
      obtain ⟨q, hq, hdead⟩ := hx.mp (Or.inr hmemx)
      exact ⟨_, hkeep hq hxd, hdead⟩
    · rintro ⟨q', hq', hdead⟩
      obtain ⟨hxd, q, hq, rfl⟩ := record_teardown_some hd hq'
      exact (hx.mpr ⟨q, hq, hdead⟩).resolve_left hxd
  · intro x q' c hxs hq' hc
    obtain ⟨hxd, q, hq, rfl⟩ := record_teardown_some hd hq'
    obtain ⟨hin, hcd⟩ := hmem hq hc
    exact (List.mem_cons.mp (h.doomed_down (List.mem_cons_of_mem _ hxs) hq hin)).resolve_left hcd
  · intro x
    refine (h.rooted x).cut (fun z => ?_)
    by_cases hz : z = d
    · refine Or.inr (parentOf_of_none ?_)
      rw [record_teardown hd, if_pos hz]
    · refine Or.inl ?_
      unfold parentOf
      rw [record_teardown hd, if_neg hz]
      cases e.record z <;> rfl
  · intro c q' hc hpar
    obtain ⟨hcd, q, hq, rfl⟩ := record_teardown_some hd hc
    by_cases hpd : q.parent = d
    · -- A child of the entity torn down is doomed with it.
      refine Or.inr ⟨?_, by show (e.teardown d).record q.parent = none; rw [record_teardown hd, if_pos hpd]⟩
      rcases h.up hq hpar with ⟨p, hp, hin⟩ | ⟨hdoomed, -⟩
      · exact (List.mem_cons.mp (h.doomed_down (hpd ▸ List.mem_cons_self) hp hin)).resolve_left hcd
      · exact (List.mem_cons.mp hdoomed).resolve_left hcd
    · rcases h.up hq hpar with ⟨p, hp, hin⟩ | ⟨hdoomed, hnone⟩
      · refine Or.inl ⟨_, hkeep hp hpd, ?_⟩
        simp only
        split_ifs
        · exact (List.mem_erase_of_ne hcd).mpr hin
        · exact hin
      · refine Or.inr ⟨(List.mem_cons.mp hdoomed).resolve_left hcd, ?_⟩
        show (e.teardown d).record q.parent = none
        rw [record_teardown hd, if_neg hpd, hnone]
        rfl

theorem issued_teardown {x : EntityId} (hx : e.table.Issued x) : (e.teardown d).table.Issued x := by
  unfold Entities.teardown
  apply SlotTable.issued_release
  split
  · exact hx
  · split_ifs
    · exact hx
    · exact (SlotTable.issued_modify x).mpr hx

theorem liveCount_teardown (hd : e.record d = some r) :
    (e.teardown d).table.liveCount + 1 = e.table.liveCount := by
  unfold Entities.teardown
  simp only [hd]
  have hd' : e.table.record d = some r := hd
  split_ifs with hpar
  · exact SlotTable.liveCount_release (by rw [hd']; rfl)
  · rw [SlotTable.liveCount_release, SlotTable.liveCount_modify]
    rw [SlotTable.record_modify]
    split_ifs with hdp
    · rw [← hdp, hd']
      rfl
    · rw [hd']
      rfl

end teardown

end Entities

end Grove
