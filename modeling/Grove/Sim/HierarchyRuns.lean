import Grove.Sim.Replay

/-! # The hierarchy over whole runs

What scripts see of the hierarchy (`Entities.Coherent`) follows from the invariant of the entity
table (`Linked`), which every call keeps.  A drain is not one call: it takes the queue, runs every
`@onEnd`, and tears down, and the handlers it runs call the table like any others.  `Draining`
takes these steps one by one, so a run stops in any of the windows between them.

The journal replays the forest (`Advances`), and in a replay a name comes and goes in turns
(`World.count_run`): that gives each destroyed entity its one destroy op. -/

namespace Grove

namespace Entities

/-- The record of `c` names the entity `p` as its parent. -/
def HasParent (e : Entities) (c p : EntityId) : Prop := p ≠ noEntity ∧ ∃ r, e.record c = some r ∧ r.parent = p

/-- The two sides of every link agree, and the links form a forest of existing entities. -/
structure Coherent (e : Entities) : Prop where
  listed : ∀ p c, (∃ r, e.record p = some r ∧ r.children.count c = 1) ↔ e.HasParent c p
  once : ∀ {p r} c, e.record p = some r → r.children.count c ≤ 1
  acyclic : ∀ x, ¬ Relation.TransGen e.HasParent x x
  parents : ∀ {x r}, e.record x = some r → r.parent ≠ noEntity → (e.record r.parent).isSome
  children : ∀ {x r} c, e.record x = some r → c ∈ r.children → (e.record c).isSome
  alive : ∀ {x r}, e.record x = some r → r.alive = true → r.parent ≠ noEntity → e.isAlive r.parent = true

variable {e : Entities} {doomed : List EntityId}

theorem HasParent.parentOf {c p : EntityId} (h : e.HasParent c p) : e.parentOf c = p := by
  obtain ⟨-, r, hr, hpar⟩ := h
  rw [parentOf_of_record hr, hpar]

theorem HasParent.ne {c p : EntityId} (h : e.HasParent c p) : c ≠ noEntity := by
  obtain ⟨-, r, hr, -⟩ := h
  exact ne_noEntity_of_record hr

/-- Whoever is above an entity is on its chain to the root, past the entity itself. -/
theorem mem_chain_of_above {x y : EntityId} {l : List EntityId} (h : Relation.TransGen e.HasParent x y)
    (hl : Chain e.parentOf (e.parentOf x) l) : y ∈ l := by
  induction h using Relation.TransGen.head_induction_on generalizing l with
  | @single x h =>
    rw [h.parentOf] at hl
    cases hl with
    | root => exact absurd rfl h.1
    | step _ _ => exact List.mem_cons_self
  | @head x z h _ ih =>
    rw [h.parentOf] at hl
    cases hl with
    | root => exact absurd rfl h.1
    | step _ hl => exact List.mem_cons_of_mem _ (ih hl)

theorem Shape.acyclic (h : e.Shape doomed) (x : EntityId) : ¬ Relation.TransGen e.HasParent x x := by
  intro hx
  obtain ⟨l, hl⟩ := (h.rooted (e.parentOf x)).chain
  have hne : x ≠ noEntity := by
    cases hx using Relation.TransGen.head_induction_on with
    | single hx => exact hx.ne
    | head hx _ _ => exact hx.ne
  have hnd := (Chain.step hne hl).nodup
  rw [List.nodup_cons] at hnd
  exact hnd.1 (mem_chain_of_above hx hl)

theorem Linked.coherent (h : e.Linked doomed) : e.Coherent where
  listed := by
    intro p c
    constructor
    · rintro ⟨r, hr, hcount⟩
      have hmem : c ∈ r.children := List.count_pos_iff.mp (by omega)
      obtain ⟨cr, hcr, hpar⟩ := h.down hr hmem
      exact ⟨ne_noEntity_of_record hr, cr, hcr, hpar⟩
    · rintro ⟨hp, cr, hcr, rfl⟩
      obtain ⟨r, hr, hmem⟩ := h.up hcr hp
      exact ⟨r, hr, List.count_eq_one_of_mem (h.nodup hr) hmem⟩
  once := fun c hr => List.nodup_iff_count_le_one.mp (h.nodup hr) c
  acyclic := h.acyclic
  parents := by
    intro x r hr hp
    obtain ⟨p, hp, -⟩ := h.up hr hp
    rw [hp]
    rfl
  children := by
    intro x r c hr hmem
    obtain ⟨cr, hcr, -⟩ := h.down hr hmem
    rw [hcr]
    rfl
  alive := by
    intro x r hr hal hp
    obtain ⟨p, hp, hmem⟩ := h.up hr hp
    unfold isAlive
    rw [hp]
    by_contra hdead
    have hx := h.dead hp (Bool.not_eq_true _ ▸ hdead) hmem hr
    rw [hal] at hx
    cases hx

end Entities

/-! ### Destroy ops -/

/-- The entity a destroy op is about. -/
def SingleStructuralOp.destroyed : SingleStructuralOp → Option EntityId
  | .destroy id => some id
  | _ => none

/-- The destroy ops of an entity in a stretch of the journal. -/
def destroyOps (js : List SingleStructuralOp) (id : EntityId) : ℕ :=
  (js.filterMap SingleStructuralOp.destroyed).count id

namespace Runtime

theorem destroyCount_edits (js : List SingleStructuralOp) (id : EntityId) :
    World.destroyCount (edits bare js) id = destroyOps js id := by
  unfold World.destroyCount destroyOps
  congr 1
  induction js with
  | nil => rfl
  | cons op js ih =>
    have hcons : edits bare (op :: js) = op.edits bare ++ edits bare js := List.flatMap_cons
    rw [hcons, List.filterMap_append, ih]
    cases op <;> simp [SingleStructuralOp.edits, SingleStructuralOp.destroyed, Edit.destroyed, tagEdits, bare,
      List.filterMap_cons]

/-- What is brought in by an edit was spawned by its op. -/
theorem spawned_of_edit {op : SingleStructuralOp} {a : Edit EntityId (Set String)} {x : EntityId}
    (ha : a ∈ op.edits bare) (hx : a.spawned = some x) : ∃ t, op = .spawn x t := by
  cases op <;> simp_all [SingleStructuralOp.edits, tagEdits, bare, Edit.spawned]

theorem destroyed_of_edit {op : SingleStructuralOp} {a : Edit EntityId (Set String)} {x : EntityId}
    (ha : a ∈ op.edits bare) (hx : a.destroyed = some x) : op = .destroy x := by
  cases op <;> simp_all [SingleStructuralOp.edits, tagEdits, bare, Edit.destroyed]

section balance
variable {rt rt' : Runtime} {js : List SingleStructuralOp}

theorem Advances.not_revives (h : Advances bare rt rt' js) :
    (edits bare js).Pairwise (fun a b => ¬ Edit.Revives a b) := by
  refine List.pairwise_flatMap.mpr ⟨?_, ?_⟩
  · rintro op -
    cases op <;> simp [SingleStructuralOp.edits, tagEdits, bare]
  · refine h.noRespawn.imp ?_
    rintro op op' hno a ha b hb ⟨x, hax, hbx⟩
    obtain ⟨t, rfl⟩ := spawned_of_edit hb hbx
    exact hno ⟨x, t, destroyed_of_edit ha hax, rfl⟩

theorem spawnCount_pos {x : EntityId} {t : String} (h : .spawn x t ∈ js) :
    0 < World.spawnCount (edits bare js) x := by
  refine List.count_pos_iff.mpr (List.mem_filterMap.mpr ⟨.spawn x ∅, ?_, rfl⟩)
  exact List.mem_flatMap.mpr ⟨_, h, List.mem_singleton_self _⟩

/-- **One destroy op each.**  Since a world without entities, an entity that exists has none in
the journal, and one that existed and is gone has one. -/
theorem Advances.destroyOps (h : Advances bare rt rt' js) (hrt : ∀ x, rt.entities.record x = none)
    (x : EntityId) : destroyOps js x ≤ 1 ∧ ((rt'.entities.record x).isSome → destroyOps js x = 0) ∧
      ((∃ t, .spawn x t ∈ js) → rt'.entities.record x = none → destroyOps js x = 1) := by
  classical
  have hknown : x ∉ (rt.forest bare).known := by
    show ¬ (rt.entities.record x).isSome = true
    rw [hrt]
    simp
  have hcount := World.count_run x _ h.replay
  have hone := World.spawnCount_le_one x _ h.replay h.not_revives
  rw [destroyCount_edits, if_neg hknown] at hcount
  rw [if_neg hknown] at hone
  refine ⟨?_, ?_, ?_⟩
  · omega
  · intro hx
    rw [if_pos (show x ∈ (rt'.forest bare).known from hx)] at hcount
    omega
  · rintro ⟨t, ht⟩ hx
    have hpos := spawnCount_pos ht
    rw [if_neg (show x ∉ (rt'.forest bare).known by
      show ¬ (rt'.entities.record x).isSome = true
      rw [hx]
      simp)] at hcount
    omega

end balance

/-! ### Runs -/

/-- A runtime, with the entities a drain under way has taken off the queue. -/
structure Draining where
  rt : Runtime
  doomed : List EntityId

namespace Draining

inductive Call where
  /-- A call or a template instantiation, by an `@onEnd` of the drain under way or by any other. -/
  | act (a : Act)
  /-- A drain takes the queue. -/
  | splice
  /-- The drain has run every `@onEnd` and tears down. -/
  | tearDown

/-- A drain starts when none is under way. -/
def step (s : Draining) : Call → Draining
  | .act a => { s with rt := s.rt.act a }
  | .splice =>
    match s.doomed with
    | [] =>
      ⟨{ s.rt with entities := { s.rt.entities with pendingDestroy := [] } }, s.rt.entities.pendingDestroy⟩
    | _ => s
  | .tearDown => ⟨s.doomed.foldl teardown s.rt, []⟩

theorem exec_acts (s : Draining) (as : List Act) :
    exec step s (as.map .act) = { s with rt := s.rt.acts as } := by
  induction as generalizing s with
  | nil => rfl
  | cons a as ih => exact ih _

section runs
variable {v : View} {s : Draining}

/-- Each step keeps the table in order and journals what it does. -/
theorem step_advances (hs : Sound bare s.rt s.doomed) (c : Call) :
    Sound bare (s.step c).rt (s.step c).doomed ∧ ∃ js, Advances bare s.rt (s.step c).rt js := by
  cases c with
  | act a => exact act_advances hs a (actMeets_bare s.rt a)
  | splice =>
    obtain ⟨rt, doomed⟩ := s
    cases doomed with
    | nil => exact ⟨hs.splice, [], splice_advances rt⟩
    | cons d ds => exact ⟨hs, [], (Calm.refl rt).advances⟩
  | tearDown =>
    have ht := tornDown_foldl _ _ hs.linked.tearing hs.group hs.clean
    exact ⟨⟨ht.tearing.linked, ht.group, ht.clean, ht.liveCount.trans hs.bound⟩, _,
      torn_advances hs.linked ht⟩

theorem run_advances : ∀ (calls : List Call) {s : Draining}, Sound bare s.rt s.doomed →
    Sound bare (exec step s calls).rt (exec step s calls).doomed ∧
      ∃ js, Advances bare s.rt (exec step s calls).rt js
  | [], s, hs => ⟨hs, [], (Calm.refl s.rt).advances⟩
  | c :: calls, _, hs => by
    obtain ⟨hs', js, hadv⟩ := step_advances hs c
    obtain ⟨hs'', js', hadv'⟩ := run_advances calls hs'
    exact ⟨hs'', _, hadv.trans hadv'⟩

end runs

/-- An empty world, with no drain under way. -/
def start (persisted : Option SessionRecords) (facadeMembers : HostKey → List String) (simRate : ℚ) : Draining :=
  ⟨Runtime.new persisted facadeMembers simRate, []⟩

section reach
variable (persisted : Option SessionRecords) (facadeMembers : HostKey → List String) (simRate : ℚ)

/-- What every run from the empty world keeps. -/
theorem reached (calls : List Call) :
    let s := exec step (start persisted facadeMembers simRate) calls
    Sound bare s.rt s.doomed ∧
      Advances bare (Runtime.new persisted facadeMembers simRate) s.rt s.rt.channels.journal := by
  have hstart : Sound bare (start persisted facadeMembers simRate).rt [] :=
    new_sound bare persisted facadeMembers simRate
  obtain ⟨hs, js, hadv⟩ := run_advances (s := start persisted facadeMembers simRate) calls hstart
  refine ⟨hs, ?_⟩
  have hj := hadv.journal
  rw [show (start persisted facadeMembers simRate).rt.channels.journal = [] from rfl, List.nil_append] at hj
  rw [hj]
  exact hadv

end reach

end Draining

end Runtime

end Grove
