import Grove.Core.ActionStates

/-! # Coalescing a batch of edges

What `#flushInput` of `packages/client/src/client.ts` puts in a frame: one entry for each action and
phase, where the first of them stood and with the value of the last.  `heldAfter_coalesce` says
which batches still say the same about what is held. -/

namespace Grove

/-- The key an edge is coalesced under. -/
def coalesceKey (edge : InputAction) : String := edge.action ++ " " ++
  match edge.on with
  | .press => "press"
  | .release => "release"
  | .hold => "hold"

/-- One entry per action and phase: the place of the first, the value of the last. -/
def coalesce (edges : List InputAction) : List InputAction :=
  (edges.foldl (fun (byAction : OrderedMap String InputAction) edge => byAction.set (coalesceKey edge) edge)
    OrderedMap.empty).values

/-! ### The entries of a frame -/

theorem coalesceKey_inj {e e' : InputAction} (h : coalesceKey e = coalesceKey e') : (e.action, e.on) = (e'.action, e'.on) := by
  rcases e with ⟨action, on, value⟩
  rcases e' with ⟨action', on', value'⟩
  unfold coalesceKey at h
  simp only at h
  have hlist := congrArg String.toList h
  simp only [String.toList_append] at hlist
  have hon : on = on' := by
    have hlast := congrArg List.getLast? hlist
    cases on <;> cases on' <;> first | rfl | (simp at hlast)
  subst hon
  have haction : action = action' := by
    simp only [List.append_assoc] at hlist
    exact String.toList_inj.mp (List.append_cancel_right hlist)
  rw [haction]

theorem get_foldl_set {α : Type} (key : α → String) (k : String) : ∀ (l : List α) (m : OrderedMap String α),
    (l.foldl (fun m x => m.set (key x) x) m).get k = ((l.filter (fun x => key x = k)).getLast?).or (m.get k)
  | [], m => by simp
  | x :: l, m => by
    rw [List.foldl_cons, get_foldl_set key k l, OrderedMap.get_set]
    by_cases hk : key x = k
    · rw [if_pos hk.symm, List.filter_cons_of_pos (by simpa using hk), List.getLast?_cons]
      cases (l.filter (fun x => key x = k)).getLast? <;> rfl
    · rw [if_neg (Ne.symm hk), List.filter_cons_of_neg (by simpa using hk)]

/-- The map a batch is coalesced into. -/
theorem get_byAction (edges : List InputAction) (k : String) :
    (edges.foldl (fun (byAction : OrderedMap String InputAction) edge => byAction.set (coalesceKey edge) edge)
      OrderedMap.empty).get k = (edges.filter (fun e => coalesceKey e = k)).getLast? := by
  rw [get_foldl_set coalesceKey k edges]
  simp

theorem mem_coalesce {edges : List InputAction} {a : InputAction} (h : a ∈ coalesce edges) : a ∈ edges := by
  obtain ⟨⟨k, v⟩, he, rfl⟩ := List.mem_map.mp h
  have hget := (OrderedMap.mem_entries_iff _).mp he
  rw [get_byAction] at hget
  exact List.mem_of_mem_filter (List.mem_of_getLast? hget)

/-- Every edge has an entry of its action and phase. -/
theorem exists_coalesce {edges : List InputAction} {e : InputAction} (h : e ∈ edges) :
    ∃ a ∈ coalesce edges, a.action = e.action ∧ a.on = e.on := by
  have hne : edges.filter (fun x => coalesceKey x = coalesceKey e) ≠ [] :=
    List.ne_nil_of_mem (List.mem_filter.mpr ⟨h, by simp⟩)
  obtain ⟨a, ha⟩ := List.getLast?_isSome.mpr hne |> Option.isSome_iff_exists.mp
  have hkey : coalesceKey a = coalesceKey e := by simpa using (List.mem_filter.mp (List.mem_of_getLast? ha)).2
  refine ⟨a, ?_, (Prod.mk.inj (coalesceKey_inj hkey)).1, (Prod.mk.inj (coalesceKey_inj hkey)).2⟩
  refine List.mem_map.mpr ⟨(coalesceKey e, a), (OrderedMap.mem_entries_iff _).mpr ?_, rfl⟩
  rw [get_byAction]
  exact ha

/-- There is an entry for each action and phase that is pending. -/
theorem length_coalesce (edges : List InputAction) :
    (coalesce edges).length = (edges.map (fun e => (e.action, e.on))).dedup.length := by
  set m := edges.foldl (fun (byAction : OrderedMap String InputAction) edge => byAction.set (coalesceKey edge) edge)
    OrderedMap.empty with hm
  have hkeys : m.keys.toFinset = (edges.map coalesceKey).toFinset := by
    ext k
    rw [List.mem_toFinset, List.mem_toFinset, OrderedMap.mem_keys_iff]
    simp only [hm, get_byAction, List.mem_map]
    rw [← Option.isSome_iff_exists, List.getLast?_isSome, ne_eq, List.filter_eq_nil_iff]
    simp
  have hpairs : (edges.map (fun e => (e.action, e.on))).toFinset.card = (edges.map coalesceKey).toFinset.card := by
    have himage : (edges.map (fun e => (e.action, e.on))).toFinset.image (fun p => coalesceKey ⟨p.1, p.2, none⟩) =
        (edges.map coalesceKey).toFinset := by
      ext k
      simp [coalesceKey]
    rw [← himage]
    refine (Finset.card_image_of_injective _ ?_).symm
    intro p p' h
    exact @coalesceKey_inj ⟨p.1, p.2, none⟩ ⟨p'.1, p'.2, none⟩ h
  calc (coalesce edges).length = m.keys.length := by
        unfold coalesce OrderedMap.values OrderedMap.keys
        rw [List.length_map, List.length_map]
    _ = m.keys.toFinset.card := (List.toFinset_card_of_nodup m.nodup).symm
    _ = (edges.map (fun e => (e.action, e.on))).toFinset.card := by rw [hkeys, hpairs]
    _ = _ := List.card_toFinset _

/-! ### What a frame says is held -/

/-- The press or release of `action` an edge is. -/
def phaseOf (action : String) (p : String × InputPhase) : Option InputPhase :=
  if p.1 = action ∧ p.2 ≠ .hold then some p.2 else none

/-- The presses and releases of one action, in order. -/
def phasesOf (action : String) (edges : List InputAction) : List InputPhase :=
  edges.filterMap (fun e => phaseOf action (e.action, e.on))

/-- Whoever presses or releases an action last, settles it. -/
theorem mem_heldAfter (action : String) (held : Set String) (edges : List InputAction) :
    action ∈ heldAfter edges held ↔ (phasesOf action edges).getLast?.elim (action ∈ held) (· = .press) := by
  induction edges using List.reverseRecOn with
  | nil => exact Iff.rfl
  | append_singleton edges e ih =>
    have happend : phasesOf action (edges ++ [e]) = phasesOf action edges ++ phasesOf action [e] :=
      List.filterMap_append
    have hone : heldAfter (edges ++ [e]) held = e.held (heldAfter edges held) := heldAfter_append _ _ _
    rw [happend, hone]
    rcases e with ⟨name, on, value⟩
    by_cases hname : name = action
    · subst hname
      cases on with
      | hold => simpa [phasesOf, phaseOf, InputAction.held] using ih
      | press | release => simp [phasesOf, phaseOf, InputAction.held]
    · have hname' : ¬ action = name := fun h => hname h.symm
      cases on with
      | hold => simpa [phasesOf, phaseOf, InputAction.held] using ih
      | press | release => simpa [phasesOf, phaseOf, InputAction.held, hname, hname'] using ih

theorem addNew_cons {α : Type} [DecidableEq α] {a b : α} (h : a ≠ b) (l : List α) : addNew (a :: l) b = a :: addNew l b := by
  unfold addNew
  by_cases hb : b ∈ l
  · rw [if_pos hb, if_pos (List.mem_cons_of_mem _ hb)]
  · rw [if_neg hb, if_neg (by simp [hb, h.symm]), List.cons_append]

/-- An edge takes the place of its like, or the last place. -/
theorem map_setEntries (e : InputAction) : ∀ l : List (String × InputAction), (∀ x ∈ l, x.1 = coalesceKey x.2) →
    (OrderedMap.setEntries (coalesceKey e) e l).map (fun x => (x.2.action, x.2.on)) =
      addNew (l.map (fun x => (x.2.action, x.2.on))) (e.action, e.on)
  | [], _ => rfl
  | (k, v) :: l, h => by
    have hk : k = coalesceKey v := h _ List.mem_cons_self
    by_cases hkey : k = coalesceKey e
    · have hpair := coalesceKey_inj (hk.symm.trans hkey)
      rw [OrderedMap.setEntries, if_pos hkey, List.map_cons, List.map_cons, addNew, if_pos (by rw [hpair]; simp), hpair]
    · have hpair : (v.action, v.on) ≠ (e.action, e.on) := by
        intro hpair
        obtain ⟨haction, hon⟩ := Prod.mk.inj hpair
        refine hkey (hk.trans ?_)
        unfold coalesceKey
        rw [haction, hon]
      rw [OrderedMap.setEntries, if_neg hkey, List.map_cons, List.map_cons, addNew_cons hpair,
        map_setEntries e l (fun x hx => h x (List.mem_cons_of_mem _ hx))]

/-- The entries stand in the order their actions and phases first came. -/
theorem coalesce_pairs (edges : List InputAction) : (coalesce edges).map (fun a => (a.action, a.on)) =
    (edges.map (fun e => (e.action, e.on))).foldl addNew [] := by
  have hfold : ∀ (l : List InputAction) (m : OrderedMap String InputAction), (∀ x ∈ m.entries, x.1 = coalesceKey x.2) →
      (l.foldl (fun (byAction : OrderedMap String InputAction) edge => byAction.set (coalesceKey edge) edge) m).values.map
          (fun a => (a.action, a.on)) =
        (l.map (fun e => (e.action, e.on))).foldl addNew (m.values.map (fun a => (a.action, a.on))) := by
    intro l
    induction l with
    | nil => exact fun m _ => rfl
    | cons e l ih =>
      intro m hm
      have hset := map_setEntries e m.entries hm
      have hm' : ∀ x ∈ (m.set (coalesceKey e) e).entries, x.1 = coalesceKey x.2 := by
        rintro ⟨k, v⟩ hx
        have hget := (OrderedMap.mem_entries_iff _).mp hx
        rw [OrderedMap.get_set] at hget
        split_ifs at hget with hk
        · cases hget
          exact hk
        · exact hm _ ((OrderedMap.mem_entries_iff _).mpr hget)
      rw [List.foldl_cons, ih _ hm', List.map_cons, List.foldl_cons]
      congr 1
      unfold OrderedMap.values
      rw [List.map_map, List.map_map]
      exact hset
  exact hfold edges OrderedMap.empty fun _ hx => absurd hx List.not_mem_nil

theorem filterMap_foldl_addNew {α β : Type} [DecidableEq α] [DecidableEq β] {f : α → Option β}
    (hf : ∀ a b x, f a = some x → f b = some x → a = b) : ∀ (l acc : List α),
    (l.foldl addNew acc).filterMap f = (l.filterMap f).foldl addNew (acc.filterMap f)
  | [], _ => rfl
  | a :: l, acc => by
    rw [List.foldl_cons, filterMap_foldl_addNew hf l]
    cases hfa : f a with
    | none =>
      rw [List.filterMap_cons_none hfa]
      congr 1
      unfold addNew
      split_ifs
      · rfl
      · simp [hfa]
    | some x =>
      rw [List.filterMap_cons_some hfa, List.foldl_cons]
      congr 1
      unfold addNew
      by_cases ha : a ∈ acc
      · rw [if_pos ha, if_pos (List.mem_filterMap.mpr ⟨a, ha, hfa⟩)]
      · have hx : x ∉ acc.filterMap f := by
          intro hx
          obtain ⟨b, hb, hfb⟩ := List.mem_filterMap.mp hx
          exact ha (hf b a x hfb hfa ▸ hb)
        rw [if_neg ha, if_neg hx, List.filterMap_append]
        simp [hfa]

theorem phasesOf_coalesce (action : String) (edges : List InputAction) :
    phasesOf action (coalesce edges) = (phasesOf action edges).foldl addNew [] := by
  have hmap : ∀ l : List InputAction,
      phasesOf action l = (l.map (fun e => (e.action, e.on))).filterMap (phaseOf action) := by
    intro l
    rw [List.filterMap_map]
    rfl
  rw [hmap, coalesce_pairs, filterMap_foldl_addNew, ← hmap, List.filterMap_nil]
  rintro ⟨a, p⟩ ⟨b, q⟩ x hp hq
  unfold phaseOf at hp hq
  split_ifs at hp with h1
  split_ifs at hq with h2
  exact Prod.ext (h1.1.trans h2.1.symm) (Option.some.inj (hp.trans hq.symm))

/-- No action's presses and releases end with the phase they began with after the other came between. -/
def Settles (edges : List InputAction) : Prop := ∀ e ∈ edges,
  (phasesOf e.action edges).head? = (phasesOf e.action edges).getLast? →
    ∀ p ∈ phasesOf e.action edges, (phasesOf e.action edges).head? = some p

instance (edges : List InputAction) : Decidable (Settles edges) := inferInstanceAs (Decidable (∀ e ∈ edges, _ → _))

theorem foldl_addNew_two {α : Type} [DecidableEq α] {a b : α} (hab : a ≠ b) : ∀ {l : List α}, (∀ x ∈ l, x = a ∨ x = b) →
    l.foldl addNew [a] = (if b ∈ l then [a, b] else [a]) ∧ l.foldl addNew [a, b] = [a, b]
  | [], _ => ⟨rfl, rfl⟩
  | x :: l, h => by
    obtain ⟨ih, ih'⟩ := foldl_addNew_two hab (fun y hy => h y (List.mem_cons_of_mem _ hy))
    rw [List.foldl_cons, List.foldl_cons]
    rcases h x List.mem_cons_self with rfl | rfl
    · rw [show addNew [x] x = [x] by simp [addNew], show addNew [x, b] x = [x, b] by simp [addNew], ih, ih']
      simp [hab.symm]
    · rw [show addNew [a] x = [a, x] by simp [addNew, hab.symm], show addNew [a, x] x = [a, x] by simp [addNew], ih']
      simp

/-- What a frame carries says what its edges said. -/
theorem heldAfter_coalesce {edges : List InputAction} (h : Settles edges) (held : Set String) :
    heldAfter (coalesce edges) held = heldAfter edges held := by
  ext action
  rw [mem_heldAfter, mem_heldAfter, phasesOf_coalesce]
  have hlast : ((phasesOf action edges).foldl addNew []).getLast? = (phasesOf action edges).getLast? := by
    rcases hphases : phasesOf action edges with _ | ⟨first, rest⟩
    · rfl
    · have hmem : first ∈ phasesOf action edges := by
        rw [hphases]
        exact List.mem_cons_self
      obtain ⟨e, he, hphase⟩ := List.mem_filterMap.mp hmem
      have haction : e.action = action := by
        unfold phaseOf at hphase
        split_ifs at hphase with heq
        exact heq.1
      have hsettled := h e he
      rw [haction, hphases] at hsettled
      have htwo : ∀ p ∈ phasesOf action edges, p = .press ∨ p = .release := by
        intro p hp
        obtain ⟨e', -, hp⟩ := List.mem_filterMap.mp hp
        unfold phaseOf at hp
        split_ifs at hp with heq
        cases hp
        cases hon : e'.on with
        | press => exact Or.inl rfl
        | release => exact Or.inr rfl
        | hold => exact absurd hon heq.2
      rw [hphases] at htwo
      obtain ⟨other, hne, htwo'⟩ : ∃ other, first ≠ other ∧ ∀ p ∈ rest, p = first ∨ p = other := by
        rcases htwo first List.mem_cons_self with rfl | rfl
        · exact ⟨.release, nofun, fun p hp => htwo p (List.mem_cons_of_mem _ hp)⟩
        · exact ⟨.press, nofun, fun p hp => (htwo p (List.mem_cons_of_mem _ hp)).symm⟩
      rw [List.foldl_cons, show addNew [] first = [first] from rfl, (foldl_addNew_two hne htwo').1]
      have hgetLast : (first :: rest).getLast? = some (rest.getLast?.getD first) := List.getLast?_cons
      by_cases hother : other ∈ rest
      · rw [if_pos hother]
        have hlastne : (first :: rest).getLast? ≠ some first := by
          intro hlast
          have hall := hsettled hlast.symm other (List.mem_cons_of_mem _ hother)
          exact hne (Option.some.inj hall)
        rw [hgetLast] at hlastne ⊢
        cases hrest : rest.getLast? with
        | none =>
          rw [hrest] at hlastne
          exact absurd rfl hlastne
        | some last =>
          rw [hrest] at hlastne
          rcases htwo' last (List.mem_of_getLast? hrest) with rfl | rfl
          · exact absurd rfl hlastne
          · rfl
      · rw [if_neg hother, hgetLast]
        cases hrest : rest.getLast? with
        | none => rfl
        | some last =>
          have hmemlast := List.mem_of_getLast? hrest
          rcases htwo' last hmemlast with rfl | rfl
          · rfl
          · exact absurd hmemlast hother
  rw [hlast]

end Grove
