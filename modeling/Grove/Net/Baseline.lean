import Grove.Sim.Snapshot
import Grove.Client.Apply

/-! # The join snapshot replays the world

`ancestorsFirst` lists every existing entity once and its parent ahead of it
(`ancestorsFirst_listed`): the walk's stack holds, at any time, exactly the entities not yet
listed whose parent is, so an entity is pushed once and the fuel is never used up.  The spawns
of the snapshot, as edits on an empty world, therefore run to the forest they were read from
(`run_snapshot`). -/

namespace Grove

/-- Every element of `l` not listed as a root has its parent earlier in the list. -/
def ParentsFirst (par : EntityId → EntityId) (l : List EntityId) : Prop :=
  ∀ before y after, l = before ++ y :: after → par y = noEntity ∨ par y ∈ before

theorem ParentsFirst.concat {par : EntityId → EntityId} {l : List EntityId} {x : EntityId}
    (h : ParentsFirst par l) (hx : par x = noEntity ∨ par x ∈ l) : ParentsFirst par (l ++ [x]) := by
  intro before y after heq
  rcases List.eq_nil_or_concat after with rfl | ⟨after, z, rfl⟩
  · obtain ⟨rfl, hyx⟩ := List.append_inj' heq rfl
    obtain rfl := (List.cons.inj hyx).1
    exact hx
  · rw [List.concat_eq_append, ← List.cons_append, ← List.append_assoc] at heq
    exact h before y after (List.append_inj' heq rfl).1

section walk
variable {rt : Runtime}

/-- The walk's state: the stack holds what is not listed yet and has its parent listed. -/
structure Walking (rt : Runtime) (stack out : List EntityId) : Prop where
  nodup : (stack ++ out).Nodup
  mem : ∀ z, z ∈ stack ++ out ↔ z ∈ rt.entities.ids ∧ (liveParent rt z = noEntity ∨ liveParent rt z ∈ out)
  first : ParentsFirst (liveParent rt) out

theorem nodup_ids (rt : Runtime) : rt.entities.ids.Nodup := rt.entities.table.nodup_liveIds

theorem mem_listedChildren {p z : EntityId} :
    z ∈ listedChildren rt p ↔ z ∈ rt.entities.ids ∧ liveParent rt z = p := by
  simp [listedChildren, List.mem_filter]

theorem mem_ids_iff {x : EntityId} : x ∈ rt.entities.ids ↔ (rt.entities.record x).isSome :=
  rt.entities.table.mem_liveIds

theorem ne_noEntity_of_mem_ids {x : EntityId} (h : x ∈ rt.entities.ids) : x ≠ noEntity := by
  obtain ⟨r, hr⟩ := Option.isSome_iff_exists.mp (mem_ids_iff.mp h)
  exact Entities.ne_noEntity_of_record hr

/-- Popping an entity lists it and pushes its children. -/
theorem Walking.pop {id : EntityId} {stack out : List EntityId} (h : Walking rt (id :: stack) out) :
    id ∉ out ∧ Walking rt (listedChildren rt id ++ stack) (out ++ [id]) := by
  have hnd := h.nodup
  rw [List.cons_append, List.nodup_cons] at hnd
  have hid := (h.mem id).mp List.mem_cons_self
  have hout : id ∉ out := fun hmem => hnd.1 (List.mem_append_right _ hmem)
  -- A child of `id` is nowhere yet, its parent not being listed.
  have hchild : ∀ z ∈ listedChildren rt id, z ∉ id :: stack ++ out := by
    intro z hz hmem
    obtain ⟨-, hpar⟩ := mem_listedChildren.mp hz
    rcases ((h.mem z).mp hmem).2 with h0 | hp
    · exact ne_noEntity_of_mem_ids hid.1 (hpar ▸ h0)
    · exact hout (hpar ▸ hp)
  refine ⟨hout, ⟨?_, ?_, h.first.concat hid.2⟩⟩
  · have hperm : (listedChildren rt id ++ stack ++ (out ++ [id])).Perm
        (listedChildren rt id ++ (id :: stack ++ out)) := by
      rw [List.append_assoc]
      refine List.Perm.append_left _ ?_
      rw [← List.append_assoc]
      exact List.perm_append_comm
    rw [hperm.nodup_iff, List.nodup_append]
    refine ⟨(nodup_ids rt).filter _, h.nodup, ?_⟩
    rintro a ha b hb rfl
    exact hchild a ha hb
  · intro z
    have hz := h.mem z
    simp only [List.mem_append, List.mem_cons, mem_listedChildren, List.not_mem_nil, or_false] at hz ⊢
    constructor
    · rintro ((⟨hids, hpar⟩ | hs) | (ho | rfl))
      · exact ⟨hids, Or.inr (Or.inr hpar)⟩
      · obtain ⟨hids, h0 | hp⟩ := hz.mp (Or.inl (Or.inr hs))
        · exact ⟨hids, Or.inl h0⟩
        · exact ⟨hids, Or.inr (Or.inl hp)⟩
      · obtain ⟨hids, h0 | hp⟩ := hz.mp (Or.inr ho)
        · exact ⟨hids, Or.inl h0⟩
        · exact ⟨hids, Or.inr (Or.inl hp)⟩
      · obtain ⟨hids, h0 | hp⟩ := hid
        · exact ⟨hids, Or.inl h0⟩
        · exact ⟨hids, Or.inr (Or.inl hp)⟩
    · rintro ⟨hids, h0 | hp | hp⟩
      · rcases hz.mpr ⟨hids, Or.inl h0⟩ with (rfl | hs) | ho
        · exact Or.inr (Or.inr rfl)
        · exact Or.inl (Or.inr hs)
        · exact Or.inr (Or.inl ho)
      · rcases hz.mpr ⟨hids, Or.inr hp⟩ with (rfl | hs) | ho
        · exact Or.inr (Or.inr rfl)
        · exact Or.inl (Or.inr hs)
        · exact Or.inr (Or.inl ho)
      · exact Or.inl (Or.inl ⟨hids, hp⟩)

theorem Walking.length_out_le {stack out : List EntityId} (h : Walking rt stack out) :
    out.length ≤ rt.entities.ids.length := by
  have hsub : out ⊆ rt.entities.ids := fun z hz => ((h.mem z).mp (List.mem_append_right _ hz)).1
  exact ((List.nodup_append.mp h.nodup).2.1.subperm hsub).length_le

/-- With fuel for every entity not listed yet, the walk ends with an empty stack. -/
theorem walkStack_done : ∀ (fuel : ℕ) {stack out : List EntityId}, Walking rt stack out →
    rt.entities.ids.length < fuel + out.length →
    Walking rt [] (walkStack (listedChildren rt) fuel stack out)
  | 0, stack, out, h, hfuel => absurd h.length_out_le (by omega)
  | fuel + 1, [], out, h, _ => h
  | fuel + 1, id :: stack, out, h, hfuel => by
    obtain ⟨hout, hpop⟩ := h.pop
    unfold walkStack
    rw [if_neg hout]
    refine walkStack_done fuel hpop ?_
    rw [List.length_append, List.length_singleton]
    omega

theorem walking_start (rt : Runtime) : Walking rt (listedChildren rt noEntity) [] := by
  refine ⟨?_, ?_, ?_⟩
  · rw [List.append_nil]
    exact (nodup_ids rt).filter _
  · intro z
    rw [List.append_nil, mem_listedChildren]
    simp
  · intro before y after heq
    cases before <;> cases heq

/-- **The snapshot's order**: every existing entity, once, its parent ahead of it. -/
theorem ancestorsFirst_listed {doomed : List EntityId} (h : rt.entities.Linked doomed) :
    (ancestorsFirst rt).Nodup ∧ (∀ x, x ∈ ancestorsFirst rt ↔ (rt.entities.record x).isSome) ∧
      ParentsFirst rt.entities.parentOf (ancestorsFirst rt) := by
  have hwalk := walkStack_done (2 * rt.entities.ids.length + 1) (walking_start rt)
    (by simp only [List.length_nil]; omega)
  -- Under the invariant a parent is always live, so the listing parent is the parent.
  have hpar : ∀ {x}, x ∈ rt.entities.ids → liveParent rt x = rt.entities.parentOf x := by
    intro x hx
    obtain ⟨r, hr⟩ := Option.isSome_iff_exists.mp (mem_ids_iff.mp hx)
    unfold liveParent
    simp only
    split_ifs with hmem
    · rfl
    · by_contra hne
      rw [Entities.parentOf_of_record hr] at hmem hne
      obtain ⟨p, hp, -⟩ := h.up hr (Ne.symm hne)
      exact hmem (mem_ids_iff.mpr (by rw [hp]; rfl))
  have hall : ∀ x, x ∈ rt.entities.ids →
      x ∈ walkStack (listedChildren rt) (2 * rt.entities.ids.length + 1) (listedChildren rt noEntity) [] := by
    intro x
    induction h.rooted x with
    | root =>
      intro hx
      exact absurd rfl (ne_noEntity_of_mem_ids hx)
    | @step z _ ih =>
      intro hz
      refine (hwalk.mem z).mpr ⟨hz, ?_⟩
      by_cases h0 : rt.entities.parentOf z = noEntity
      · exact Or.inl ((hpar hz).trans h0)
      · refine Or.inr ?_
        rw [hpar hz]
        refine ih ?_
        obtain ⟨r, hr⟩ := Option.isSome_iff_exists.mp (mem_ids_iff.mp hz)
        rw [Entities.parentOf_of_record hr] at h0 ⊢
        obtain ⟨p, hp, -⟩ := h.up hr h0
        exact mem_ids_iff.mpr (by rw [hp]; rfl)
  have heq : ancestorsFirst rt =
      walkStack (listedChildren rt) (2 * rt.entities.ids.length + 1) (listedChildren rt noEntity) [] := by
    unfold ancestorsFirst
    simp only
    rw [List.filter_eq_nil_iff.mpr, List.append_nil]
    intro x hx
    simpa using hall x hx
  have hmem : ∀ x, x ∈ ancestorsFirst rt ↔ x ∈ rt.entities.ids := by
    intro x
    rw [heq]
    exact ⟨fun hx => ((hwalk.mem x).mp hx).1, hall x⟩
  refine ⟨?_, fun x => (hmem x).trans mem_ids_iff, ?_⟩
  · rw [heq]
    exact hwalk.nodup
  · intro before y after hsplit
    have hy : y ∈ rt.entities.ids := by
      rw [← hmem, hsplit]
      simp
    rw [← hpar hy]
    exact hwalk.first before y after (heq ▸ hsplit)

end walk

/-! ### The spawns of a snapshot, as edits -/

section snapshot
variable {v : View} {rt : Runtime}

/-- The nodes of `F` listed so far. -/
def listedPart (F : World EntityId (Set String)) (listed : List EntityId) : World EntityId (Set String) where
  node := fun x => if x ∈ listed then F.node x else none
  known := {x | x ∈ listed}

theorem run_tags {W : World EntityId (Set String)} {n : EntityId} {p : Option EntityId} :
    ∀ (tags : List String) {d : Set String}, W.node n = some (p, d) →
    W.run (tags.map (fun t => .modify n (retagged t true))) =
      some ⟨Function.update W.node n (some (p, {t | t ∈ tags} ∪ d)), W.known⟩ := by
  intro tags
  induction tags generalizing W with
  | nil =>
    intro d h
    have hself : Function.update W.node n (some (p, {t | t ∈ ([] : List String)} ∪ d)) = W.node := by
      rw [Function.update_eq_self_iff, h]
      simp
    rw [hself]
    rfl
  | cons t tags ih =>
    intro d h
    simp only [List.map_cons, World.run, World.step, h, Option.bind_some]
    rw [ih (Function.update_self ..), Function.update_idem]
    congr 5
    ext u
    simp only [retagged, if_true, Set.mem_union, Set.mem_ofPred_eq, Set.mem_insert_iff, List.mem_cons]
    tauto

/-- Nothing listed lies beneath what is not. -/
theorem not_below_of_unlisted {W : World EntityId (Set String)} {listed : List EntityId} {y z : EntityId}
    (hclosed : ∀ a b, W.Under a b → a ∈ listed → b ∈ listed) (hy : y ∉ listed) (hz : z ∈ listed) :
    ¬ W.Below z y := by
  intro hb
  induction hb using Relation.ReflTransGen.head_induction_on with
  | refl => exact hy hz
  | @head a b hab _ ih => exact ih (hclosed a b hab hz)

/-- One entity of the snapshot, its parent being listed. -/
theorem run_entity {listed : List EntityId} {y : EntityId} {r : EntityRecord} {s : EntitySnapshot}
    (hr : rt.entities.record y = some r) (hs : rt.readEntitySnapshot y true = some s) (hy : y ∉ listed)
    (hpar : r.parent = noEntity ∨ r.parent ∈ listed)
    (hex : ∀ z ∈ listed, (rt.entities.record z).isSome)
    (hclosed : ∀ a b, (rt.forest v).Under a b → a ∈ listed → b ∈ listed) :
    (listedPart (rt.forest v) listed).run ((WireSingleStructuralOp.spawn s).edits v) =
      some (listedPart (rt.forest v) (listed ++ [y])) := by
  have hsnap : s.netId = y ∧ s.parent = (if r.parent = noEntity then none else some r.parent) ∧
      s.tags = rt.tags.tagsOf y := by
    unfold Runtime.readEntitySnapshot at hs
    rw [hr] at hs
    obtain rfl := Option.some.inj hs
    refine ⟨rfl, ?_, by simp⟩
    by_cases h0 : r.parent = noEntity <;> simp [h0]
  obtain ⟨hn, hp, ht⟩ := hsnap
  have hfree : (listedPart (rt.forest v) listed).node y = none := if_neg hy
  -- The fresh root.
  have hspawn : (listedPart (rt.forest v) listed).step (.spawn y ∅) =
      some ⟨Function.update (listedPart (rt.forest v) listed).node y (some (none, ∅)),
        insert y (listedPart (rt.forest v) listed).known⟩ := if_pos ⟨hfree, hy⟩
  -- Beneath its parent.
  have hlink : World.run
      ⟨Function.update (listedPart (rt.forest v) listed).node y (some (none, ∅)),
        insert y (listedPart (rt.forest v) listed).known⟩
      (s.parent.toList.map (fun q => .reparent y (some q))) =
      some ⟨Function.update (listedPart (rt.forest v) listed).node y (some (s.parent, ∅)),
        insert y (listedPart (rt.forest v) listed).known⟩ := by
    by_cases h0 : r.parent = noEntity
    · rw [if_pos h0] at hp
      rw [hp]
      rfl
    · rw [if_neg h0] at hp
      have hmem := hpar.resolve_left h0
      have hne : r.parent ≠ y := fun he => hy (he ▸ hmem)
      rw [hp]
      simp only [Option.toList_some, List.map_cons, List.map_nil, World.run_singleton, World.step,
        Function.update_self]
      rw [if_pos, Function.update_idem]
      intro q hq
      obtain rfl := Option.some.inj hq
      refine ⟨?_, ?_⟩
      · rw [Function.update_of_ne hne]
        show (if r.parent ∈ listed then (rt.forest v).node r.parent else none).isSome
        rw [if_pos hmem]
        obtain ⟨pr, hpr⟩ := Option.isSome_iff_exists.mp (hex _ hmem)
        rw [Runtime.forest_node_of_record hpr]
        rfl
      · refine not_below_of_unlisted ?_ hy hmem
        rintro a b ⟨d, hd⟩ ha
        have hay : a ≠ y := fun he => hy (he ▸ ha)
        simp only [Function.update_of_ne hay] at hd
        have hd' : (rt.forest v).node a = some (some b, d) := by
          rw [← hd]
          exact (if_pos ha).symm
        exact hclosed a b ⟨d, hd'⟩ ha
  -- Its tags.
  have htags : World.run
      ⟨Function.update (listedPart (rt.forest v) listed).node y (some (s.parent, ∅)),
        insert y (listedPart (rt.forest v) listed).known⟩
      (if v.tags then s.tags.map (fun t => .modify y (retagged t true)) else []) =
      some ⟨Function.update (listedPart (rt.forest v) listed).node y (some (s.parent, rt.shownTags v y)),
        insert y (listedPart (rt.forest v) listed).known⟩ := by
    by_cases hv : v.tags = true
    · rw [if_pos hv, run_tags s.tags (Function.update_self ..), Function.update_idem, ht]
      congr 4
      rw [Set.union_empty]
      congr 2
      ext t
      simp [hv]
    · rw [if_neg hv]
      have hempty : rt.shownTags v y = ∅ := by
        ext t
        simp [Runtime.mem_shownTags, hv]
      rw [hempty]
      rfl
  simp only [WireSingleStructuralOp.edits, World.run, hn, hspawn, Option.bind_some]
  rw [World.run_append, hlink, Option.bind_some, htags]
  congr 1
  ext1
  · funext x
    simp only [listedPart, List.mem_append, List.mem_singleton]
    by_cases hx : x = y
    · rw [hx, Function.update_self, if_pos (Or.inr rfl), Runtime.forest_node_of_record hr, Runtime.nodeOf, hp]
    · rw [Function.update_of_ne hx]
      simp only [hx, or_false]
  · ext x
    simp only [listedPart, Set.mem_insert_iff, Set.mem_ofPred_eq, List.mem_append, List.mem_singleton]
    tauto

/-- The spawn ops of a list of entities. -/
def spawnsOf (rt : Runtime) (ids : List EntityId) : List WireSingleStructuralOp :=
  (ids.filterMap (fun id => rt.readEntitySnapshot id true)).map .spawn

theorem run_spawnsOf {doomed : List EntityId} (h : rt.entities.Linked doomed) :
    ∀ (rest listed : List EntityId), (listed ++ rest).Nodup →
    (∀ x ∈ listed ++ rest, (rt.entities.record x).isSome) →
    ParentsFirst rt.entities.parentOf (listed ++ rest) →
    (listedPart (rt.forest v) listed).run (wireEdits v (spawnsOf rt rest)) =
      some (listedPart (rt.forest v) (listed ++ rest))
  | [], listed, _, _, _ => by
    rw [List.append_nil]
    rfl
  | y :: rest, listed, hnd, hex, hfirst => by
    obtain ⟨r, hr⟩ := Option.isSome_iff_exists.mp (hex y (by simp))
    obtain ⟨s, hs⟩ : ∃ s, rt.readEntitySnapshot y true = some s := by
      unfold Runtime.readEntitySnapshot
      rw [hr]
      exact ⟨_, rfl⟩
    have hy : y ∉ listed := by
      rw [List.nodup_append] at hnd
      exact fun hmem => hnd.2.2 y hmem y List.mem_cons_self rfl
    have hpar : r.parent = noEntity ∨ r.parent ∈ listed := by
      rw [← Entities.parentOf_of_record hr]
      exact hfirst listed y rest rfl
    have hclosed : ∀ a b, (rt.forest v).Under a b → a ∈ listed → b ∈ listed := by
      rintro a b ⟨d, hd⟩ ha
      obtain ⟨ra, hra⟩ := Option.isSome_iff_exists.mp (hex a (List.mem_append_left _ ha))
      rw [Runtime.forest_node_of_record hra, Runtime.nodeOf] at hd
      have hb := congrArg Prod.fst (Option.some.inj hd)
      simp only at hb
      split_ifs at hb with h0
      obtain rfl := Option.some.inj hb
      obtain ⟨before, after, rfl⟩ := List.append_of_mem ha
      have := hfirst before a (after ++ y :: rest) (by simp)
      rw [Entities.parentOf_of_record hra] at this
      exact List.mem_append_left _ (this.resolve_left h0)
    have hstep := run_entity (v := v) hr hs hy hpar
      (fun z hz => hex z (List.mem_append_left _ hz)) hclosed
    have hsplit : spawnsOf rt (y :: rest) = .spawn s :: spawnsOf rt rest := by
      simp only [spawnsOf, List.filterMap_cons, hs, List.map_cons]
    have hassoc : listed ++ y :: rest = listed ++ [y] ++ rest := by simp
    rw [hassoc] at hnd hex hfirst ⊢
    rw [hsplit, wireEdits, List.flatMap_cons, World.run_append, hstep, Option.bind_some]
    exact run_spawnsOf h rest (listed ++ [y]) hnd hex hfirst

/-- **The snapshot replays the world**: its spawns, on nothing, run to the forest. -/
theorem run_snapshot {doomed : List EntityId} (h : rt.entities.Linked doomed) (player : PlayerId) :
    World.nothing.run (wireEdits v ((buildSnapshot rt player).entities.map .spawn)) = some (rt.forest v) := by
  obtain ⟨hnd, hmem, hfirst⟩ := ancestorsFirst_listed h
  have hrun := run_spawnsOf (v := v) h (ancestorsFirst rt) [] hnd (fun x hx => (hmem x).mp hx) hfirst
  have hstart : listedPart (rt.forest v) [] = World.nothing := by
    ext1
    · funext x
      simp [listedPart, World.nothing]
    · ext x
      simp [listedPart, World.nothing]
  have hend : listedPart (rt.forest v) ([] ++ ancestorsFirst rt) = rt.forest v := by
    ext1
    · funext x
      simp only [listedPart, List.nil_append]
      split_ifs with hx
      · rfl
      · rw [hmem] at hx
        rw [Runtime.forest_node_of_none (by simpa using hx)]
    · ext x
      exact hmem x
  rw [hstart, hend] at hrun
  exact hrun

end snapshot

end Grove
