import Grove.Core.Timers

/-! # Rewinding timers

What a scoped `apply` gives back after any calls on the heap since its `capture`.  `Kept` is the invariant of those
calls: a timer pending under an id from before the capture is the timer captured under it, counted down.
`timers_rewound` says when the rewind is exact: no host in scope was left with its first timer, and no callback
that has to be borrowed from the live heap is gone from it. -/

namespace Grove

/-- The same timer, at some other time. -/
structure Timer.Same (t t' : Timer) : Prop where
  object : t'.object = t.object
  id : t'.id = t.id
  kind : t'.kind = t.kind
  hostScopeId : t'.hostScopeId = t.hostScopeId
  interval : t'.interval = t.interval
  fn : t'.fn = t.fn

theorem Timer.Same.refl (t : Timer) : t.Same t := ⟨rfl, rfl, rfl, rfl, rfl, rfl⟩

theorem Timer.Same.trans {t t' t'' : Timer} (h : t.Same t') (h' : t'.Same t'') : t.Same t'' :=
  ⟨h'.object.trans h.object, h'.id.trans h.id, h'.kind.trans h.kind, h'.hostScopeId.trans h.hostScopeId,
    h'.interval.trans h.interval, h'.fn.trans h.fn⟩

namespace TimerHeap

/-! ### What every heap keeps -/

structure Ok (h : TimerHeap) : Prop where
  keyed : ∀ {k t}, h.timers.get k = some t → t.id = k
  below : ∀ {k t}, h.timers.get k = some t → k < h.nextId
  object_lt : ∀ {k t}, h.timers.get k = some t → t.object < h.nextObject
  live : ∀ {k t}, h.timers.get k = some t → t.object ∉ h.cancelled
  distinct : ∀ {k k' t t'}, h.timers.get k = some t → h.timers.get k' = some t' → t.object = t'.object → k = k'
  cancelled_lt : ∀ o ∈ h.cancelled, o < h.nextObject

/-- What any calls since `base` keep. -/
structure Kept (base h : TimerHeap) : Prop extends Ok h where
  nextId_le : base.nextId ≤ h.nextId
  same : ∀ {k t}, h.timers.get k = some t → k < base.nextId → ∃ t₀, base.timers.get k = some t₀ ∧ t₀.Same t

variable {base h h' : TimerHeap}

theorem Ok.kept (hok : Ok h) : Kept h h :=
  { hok with nextId_le := Nat.le_refl _, same := fun hget _ => ⟨_, hget, Timer.Same.refl _⟩ }

/-- Timers go, or count down, and none comes. -/
theorem Kept.fewer (hk : Kept base h) (hid : h.nextId ≤ h'.nextId) (hobject : h.nextObject = h'.nextObject)
    (hcancelled : ∀ o ∈ h'.cancelled, o < h.nextObject)
    (htimers : ∀ {k t'}, h'.timers.get k = some t' → ∃ t, h.timers.get k = some t ∧ t.Same t' ∧ t.object ∉ h'.cancelled) :
    Kept base h' where
  keyed := fun hget => by
    obtain ⟨t, ht, hsame, -⟩ := htimers hget
    rw [hsame.id, hk.keyed ht]
  below := fun hget => by
    obtain ⟨t, ht, -, -⟩ := htimers hget
    exact (hk.below ht).trans_le hid
  object_lt := fun hget => by
    obtain ⟨t, ht, hsame, -⟩ := htimers hget
    rw [hsame.object, ← hobject]
    exact hk.object_lt ht
  live := fun hget => by
    obtain ⟨t, ht, hsame, hlive⟩ := htimers hget
    rw [hsame.object]
    exact hlive
  distinct := fun hget hget' heq => by
    obtain ⟨t, ht, hsame, -⟩ := htimers hget
    obtain ⟨t', ht', hsame', -⟩ := htimers hget'
    rw [hsame.object, hsame'.object] at heq
    exact hk.distinct ht ht' heq
  cancelled_lt := fun o ho => hobject ▸ hcancelled o ho
  nextId_le := hk.nextId_le.trans hid
  same := fun hget hlt => by
    obtain ⟨t, ht, hsame, -⟩ := htimers hget
    obtain ⟨t₀, ht₀, hsame₀⟩ := hk.same ht hlt
    exact ⟨t₀, ht₀, hsame₀.trans hsame⟩

theorem Kept.add (hk : Kept base h) {timer : ℕ → ℕ → Timer} (htimer : ∀ object id, (timer object id).object = object ∧
    (timer object id).id = id) : Kept base (h.add timer) := by
  have hcases : ∀ {k t}, (h.add timer).timers.get k = some t →
      k = h.nextId ∧ t = timer h.nextObject h.nextId ∨ k ≠ h.nextId ∧ h.timers.get k = some t := by
    intro k t hget
    change (h.timers.set h.nextId (timer h.nextObject h.nextId)).get k = some t at hget
    rw [OrderedMap.get_set] at hget
    split_ifs at hget with hk
    · exact Or.inl ⟨hk, (Option.some.inj hget).symm⟩
    · exact Or.inr ⟨hk, hget⟩
  refine ⟨⟨fun hget => ?_, fun hget => ?_, fun hget => ?_, fun hget => ?_, fun hget hget' heq => ?_, fun o ho => ?_⟩, ?_,
    fun hget hlt => ?_⟩
  · rcases hcases hget with ⟨rfl, rfl⟩ | ⟨-, hold⟩
    · exact (htimer _ _).2
    · exact hk.keyed hold
  · rcases hcases hget with ⟨rfl, rfl⟩ | ⟨-, hold⟩
    · exact Nat.lt_succ_self _
    · exact (hk.below hold).trans (Nat.lt_succ_self _)
  · rcases hcases hget with ⟨rfl, rfl⟩ | ⟨-, hold⟩
    · rw [(htimer _ _).1]
      exact Nat.lt_succ_self _
    · exact (hk.object_lt hold).trans (Nat.lt_succ_self _)
  · rcases hcases hget with ⟨rfl, rfl⟩ | ⟨-, hold⟩
    · rw [(htimer _ _).1]
      exact fun hmem => absurd (hk.cancelled_lt _ hmem) (Nat.lt_irrefl _)
    · exact hk.live hold
  · rcases hcases hget with ⟨rfl, rfl⟩ | ⟨-, hold⟩ <;> rcases hcases hget' with ⟨rfl, rfl⟩ | ⟨-, hold'⟩
    · rfl
    · rw [(htimer _ _).1] at heq
      exact absurd (hk.object_lt hold') (by rw [← heq]; exact Nat.lt_irrefl _)
    · rw [(htimer _ _).1] at heq
      exact absurd (hk.object_lt hold) (by rw [heq]; exact Nat.lt_irrefl _)
    · exact hk.distinct hold hold' heq
  · exact (hk.cancelled_lt o ho).trans (Nat.lt_succ_self _)
  · exact hk.nextId_le.trans (Nat.le_succ _)
  · rcases hcases hget with ⟨rfl, rfl⟩ | ⟨-, hold⟩
    · exact absurd hk.nextId_le (not_le.mpr hlt)
    · exact hk.same hold hlt

theorem Kept.skipId (hk : Kept base h) : Kept base { h with nextId := h.nextId + 1 } :=
  hk.fewer (Nat.le_succ _) rfl hk.cancelled_lt (fun hget => ⟨_, hget, Timer.Same.refl _, hk.live hget⟩)

theorem Kept.after (hk : Kept base h) (seconds : JsNumber) (hostScopeId : ScopeId) (owner : Option GuardOwner) (fn : Callback) :
    Kept base (h.after seconds hostScopeId owner fn) := by
  unfold TimerHeap.after
  split
  · exact hk.skipId
  · exact hk.add (fun _ _ => ⟨rfl, rfl⟩)

theorem Kept.every (hk : Kept base h) (seconds : JsNumber) (hostScopeId : ScopeId) (owner : Option GuardOwner) (fn : Callback) :
    Kept base (h.every seconds hostScopeId owner fn) := by
  unfold TimerHeap.every
  split
  · exact hk.skipId
  · exact hk.add (fun _ _ => ⟨rfl, rfl⟩)

theorem Kept.sleep (hk : Kept base h) (seconds : JsNumber) (hostScopeId : ScopeId) (resolve : Callback) :
    Kept base (h.sleep seconds hostScopeId resolve) := by
  unfold TimerHeap.sleep
  split
  · exact hk
  · exact hk.add (fun _ _ => ⟨rfl, rfl⟩)

theorem get_of_delete {k id : ℕ} {t : Timer} (hget : (h.timers.delete id).get k = some t) :
    k ≠ id ∧ h.timers.get k = some t := by
  rw [OrderedMap.get_delete] at hget
  split_ifs at hget with hk
  exact ⟨hk, hget⟩

theorem Kept.delete (hk : Kept base h) (id : ℕ) : Kept base { h with timers := h.timers.delete id } :=
  hk.fewer (Nat.le_refl _) rfl hk.cancelled_lt (fun hget =>
    ⟨_, (get_of_delete hget).2, Timer.Same.refl _, hk.live (get_of_delete hget).2⟩)

theorem Kept.cancel (hk : Kept base h) (id : ℕ) : Kept base (h.cancel id) := by
  unfold TimerHeap.cancel
  cases hid : h.timers.get id with
  | none => exact hk
  | some timer =>
    refine hk.fewer (Nat.le_refl _) rfl (fun o ho => ?_) (fun hget => ?_)
    · rcases List.mem_cons.mp ho with rfl | ho
      · exact hk.object_lt hid
      · exact hk.cancelled_lt o ho
    · obtain ⟨hne, hold⟩ := get_of_delete hget
      refine ⟨_, hold, Timer.Same.refl _, fun hmem => ?_⟩
      rcases List.mem_cons.mp hmem with heq | hmem
      · exact hne (hk.distinct hold hid heq)
      · exact hk.live hold hmem

theorem Kept.cancelScope (hk : Kept base h) (hostScopeId : ScopeId) : Kept base (h.cancelScope hostScopeId) := by
  unfold TimerHeap.cancelScope
  split_ifs
  · exact hk
  have hvalues : ∀ {t}, t ∈ h.timers.values.filter (fun t => t.hostScopeId = hostScopeId) →
      t.hostScopeId = hostScopeId ∧ ∃ k, h.timers.get k = some t := by
    intro t ht
    obtain ⟨hmem, hhost⟩ := List.mem_filter.mp ht
    obtain ⟨⟨k, t⟩, hentry, rfl⟩ := List.mem_map.mp hmem
    exact ⟨of_decide_eq_true hhost, k, (h.timers.mem_entries_iff).mp hentry⟩
  refine hk.fewer (Nat.le_refl _) rfl (fun o ho => ?_) (fun {k t} hget => ?_)
  · rcases List.mem_append.mp ho with ho | ho
    · obtain ⟨t, ht, rfl⟩ := List.mem_map.mp ho
      obtain ⟨-, k, hold⟩ := hvalues ht
      exact hk.object_lt hold
    · exact hk.cancelled_lt o ho
  · change (h.timers.filter (fun _ t => t.hostScopeId ≠ hostScopeId)).get k = some t at hget
    rw [OrderedMap.get_filter, Option.filter_eq_some_iff] at hget
    obtain ⟨hold, hhost⟩ := hget
    refine ⟨t, hold, Timer.Same.refl _, fun hmem => ?_⟩
    rcases List.mem_append.mp hmem with hmem | hmem
    · obtain ⟨t', ht', heq⟩ := List.mem_map.mp hmem
      obtain ⟨hhost', k', hold'⟩ := hvalues ht'
      obtain rfl := hk.distinct hold' hold heq
      rw [hold] at hold'
      obtain rfl := Option.some.inj hold'
      exact absurd hhost' (of_decide_eq_true hhost)
    · exact hk.live hold hmem

/-- Counting down changes no timer's identity. -/
theorem Kept.mapValues (hk : Kept base h) {f : Timer → Timer} (hf : ∀ t : Timer, t.Same (f t)) :
    Kept base { h with timers := h.timers.mapValues f } := by
  refine hk.fewer (Nat.le_refl _) rfl hk.cancelled_lt (fun {k t} hget => ?_)
  change (h.timers.mapValues f).get k = some t at hget
  rw [OrderedMap.get_mapValues] at hget
  obtain ⟨t₀, ht₀, rfl⟩ := Option.map_eq_some_iff.mp hget
  exact ⟨t₀, ht₀, hf t₀, hk.live ht₀⟩

theorem Kept.tick (hk : Kept base h) : Kept base h.tick := hk.mapValues (fun _ => ⟨rfl, rfl, rfl, rfl, rfl, rfl⟩)

theorem Kept.reload (hk : Kept base h) (timer : Timer) : Kept base (h.reload timer) :=
  hk.mapValues (fun t => by
    split_ifs
    · exact ⟨rfl, rfl, rfl, rfl, rfl, rfl⟩
    · exact Timer.Same.refl t)

theorem Kept.fireDue (due : List Timer) : ∀ {h : TimerHeap}, Kept base h → Kept base (h.fireDue due).1 := by
  induction due with
  | nil => exact fun hk => hk
  | cons timer rest ih =>
    intro h hk
    rw [TimerHeap.fireDue]
    by_cases hcancelled : timer.object ∈ h.cancelled
    · rw [if_pos hcancelled]
      exact ih hk
    rw [if_neg hcancelled]
    cases timer.kind with
    | sleep => exact ih (hk.delete timer.id)
    | every =>
      simp only
      split_ifs
      · exact hk.reload timer
      · exact ih (hk.reload timer)
    | after =>
      simp only
      split_ifs
      · exact hk.delete timer.id
      · exact ih (hk.delete timer.id)

end TimerHeap

/-! ### Runs -/

namespace Clock

open TimerHeap

variable {base : TimerHeap} {c : Clock}

theorem kept_fire {heap : TimerHeap} (hheap : base.Kept heap) (due : List Timer)
    (outer : List (List Timer)) : base.Kept (c.fire heap due outer).heap := by
  have hfired := hheap.fireDue due
  unfold Clock.fire
  split <;> rename_i heq <;> rw [heq] at hfired <;> exact hfired

/-- **One call.** -/
theorem kept_step (hk : base.Kept c.heap) (e : Event) : base.Kept (c.step e).heap := by
  cases e with
  | after seconds hostScopeId owner fn => exact hk.after seconds hostScopeId owner fn
  | every seconds hostScopeId owner fn => exact hk.every seconds hostScopeId owner fn
  | sleep seconds hostScopeId resolve => exact hk.sleep seconds hostScopeId resolve
  | cancel id => exact hk.cancel id
  | cancelScope hostScopeId => exact hk.cancelScope hostScopeId
  | advance => exact kept_fire hk.tick _ _
  | returned =>
    rw [Clock.step]
    cases c.due with
    | nil => exact hk
    | cons due outer => exact kept_fire hk due outer

theorem kept_exec (hok : c.heap.Ok) (es : List Event) : c.heap.Kept (exec step c es).heap :=
  @exec_invariant _ _ step (fun c' => c.heap.Kept c'.heap) (fun _ e hk => kept_step hk e) c hok.kept es

/-! ### Ids -/

/-- The ids handed out from `c` to `c'` are the next ones. -/
def Mints (c c' : Clock) : Prop :=
  c.heap.nextId ≤ c'.heap.nextId ∧ c'.minted = c.minted ++ List.range' c.heap.nextId (c'.heap.nextId - c.heap.nextId)

theorem Mints.trans {c' c'' : Clock} (h : Mints c c') (h' : Mints c' c'') : Mints c c'' := by
  have happend := @List.range'_append_1 c.heap.nextId (c'.heap.nextId - c.heap.nextId) (c''.heap.nextId - c'.heap.nextId)
  obtain ⟨hle, hminted⟩ := h
  obtain ⟨hle', hminted'⟩ := h'
  rw [show c.heap.nextId + (c'.heap.nextId - c.heap.nextId) = c'.heap.nextId by omega,
    show c'.heap.nextId - c.heap.nextId + (c''.heap.nextId - c'.heap.nextId) = c''.heap.nextId - c.heap.nextId by omega] at happend
  refine ⟨hle.trans hle', ?_⟩
  rw [hminted', hminted, List.append_assoc, happend]

/-- A call that mints nothing. -/
theorem Mints.still {c' : Clock} (hid : c'.heap.nextId = c.heap.nextId) (hminted : c'.minted = c.minted) : Mints c c' := by
  refine ⟨hid.ge, ?_⟩
  rw [hminted, hid, Nat.sub_self]
  exact (List.append_nil _).symm

theorem nextId_fireDue (due : List Timer) : ∀ h : TimerHeap, (h.fireDue due).1.nextId = h.nextId := by
  induction due with
  | nil => exact fun _ => rfl
  | cons timer rest ih =>
    intro h
    rw [TimerHeap.fireDue]
    by_cases hcancelled : timer.object ∈ h.cancelled
    · rw [if_pos hcancelled, ih]
    rw [if_neg hcancelled]
    cases timer.kind with
    | sleep => exact ih _
    | every | after =>
      simp only
      split_ifs
      · rfl
      · exact ih _

theorem mints_fire (heap : TimerHeap) (hid : heap.nextId = c.heap.nextId) (due : List Timer) (outer : List (List Timer)) :
    Mints c (c.fire heap due outer) := by
  have hnext := nextId_fireDue due heap
  unfold Clock.fire
  split <;> rename_i heq <;> rw [heq] at hnext <;> exact Mints.still (hnext.trans hid) rfl

theorem mints_step (c : Clock) (e : Event) : Mints c (c.step e) := by
  cases e with
  | after seconds hostScopeId owner fn =>
    refine ⟨?_, rfl⟩
    show _ ≤ (c.heap.after seconds hostScopeId owner fn).nextId
    unfold TimerHeap.after
    split <;> exact Nat.le_succ _
  | every seconds hostScopeId owner fn =>
    refine ⟨?_, rfl⟩
    show _ ≤ (c.heap.every seconds hostScopeId owner fn).nextId
    unfold TimerHeap.every
    split <;> exact Nat.le_succ _
  | sleep seconds hostScopeId resolve =>
    refine ⟨?_, rfl⟩
    show _ ≤ (c.heap.sleep seconds hostScopeId resolve).nextId
    unfold TimerHeap.sleep
    split
    · exact Nat.le_refl _
    · exact Nat.le_succ _
  | cancel id =>
    refine Mints.still ?_ rfl
    show (c.heap.cancel id).nextId = _
    unfold TimerHeap.cancel
    split <;> rfl
  | cancelScope hostScopeId =>
    refine Mints.still ?_ rfl
    show (c.heap.cancelScope hostScopeId).nextId = _
    unfold TimerHeap.cancelScope
    split <;> rfl
  | advance => exact mints_fire c.heap.tick rfl _ _
  | returned =>
    rw [Clock.step]
    cases c.due with
    | nil => exact Mints.still rfl rfl
    | cons due outer => exact mints_fire c.heap rfl due outer

theorem mints_exec (c : Clock) (es : List Event) : Mints c (exec step c es) :=
  @exec_invariant _ _ step (Mints c) (fun c' e h => h.trans (mints_step c' e)) c (Mints.still rfl rfl) es

end Clock

/-! ### What a scoped restore leaves -/

namespace TimerHeap

variable {base h : TimerHeap} {scopeOwner : ScopeId → Option ℕ} {scope : List ℕ}

/-- The host scopes with a timer, of the entities in scope. -/
def capturedScopes (base : TimerHeap) (scopeOwner : ScopeId → Option ℕ) (scope : List ℕ) : List ScopeId :=
  (base.timers.values.filter (fun t => inScope scopeOwner scope t.hostScopeId)).map Timer.hostScopeId

/-- The timers of those hosts. -/
def capturedTimers (base : TimerHeap) (scopeOwner : ScopeId → Option ℕ) (scope : List ℕ) : List Timer :=
  base.timers.values.filter (fun t => decide (t.hostScopeId ∈ base.capturedScopes scopeOwner scope))

theorem capture_some : base.capture scopeOwner (some scope) =
    ⟨(base.capturedTimers scopeOwner scope).map base.toMeta, base.nextId, some (base.capturedScopes scopeOwner scope)⟩ := rfl

theorem mem_values {t : Timer} : t ∈ h.timers.values ↔ ∃ k, h.timers.get k = some t := by
  constructor
  · intro ht
    obtain ⟨⟨k, t⟩, hentry, rfl⟩ := List.mem_map.mp ht
    exact ⟨k, h.timers.mem_entries_iff.mp hentry⟩
  · rintro ⟨k, hget⟩
    exact List.mem_map.mpr ⟨(k, t), h.timers.mem_entries_iff.mpr hget, rfl⟩

theorem mem_capturedScopes {hostScopeId : ScopeId} : hostScopeId ∈ base.capturedScopes scopeOwner scope ↔
    inScope scopeOwner scope hostScopeId = true ∧ ∃ k t, base.timers.get k = some t ∧ t.hostScopeId = hostScopeId := by
  unfold capturedScopes
  rw [List.mem_map]
  constructor
  · rintro ⟨t, ht, rfl⟩
    obtain ⟨hmem, hscope⟩ := List.mem_filter.mp ht
    obtain ⟨k, hget⟩ := mem_values.mp hmem
    exact ⟨hscope, k, t, hget, rfl⟩
  · rintro ⟨hscope, k, t, hget, rfl⟩
    exact ⟨t, List.mem_filter.mpr ⟨mem_values.mpr ⟨k, hget⟩, hscope⟩, rfl⟩

/-- What is captured is every pending timer of the entities in scope. -/
theorem mem_capturedTimers {t : Timer} : t ∈ base.capturedTimers scopeOwner scope ↔
    (∃ k, base.timers.get k = some t) ∧ inScope scopeOwner scope t.hostScopeId = true := by
  unfold capturedTimers
  rw [List.mem_filter, mem_values, decide_eq_true_eq, mem_capturedScopes]
  constructor
  · rintro ⟨hmem, hscope, -⟩
    exact ⟨hmem, hscope⟩
  · rintro ⟨⟨k, hget⟩, hscope⟩
    exact ⟨⟨k, hget⟩, hscope, k, t, hget, rfl⟩

/-- New timers are added at the end. -/
theorem entries_foldl_set : ∀ (l : List Timer) (m : OrderedMap ℕ Timer), (l.map Timer.id).Nodup →
    (∀ t ∈ l, m.get t.id = none) → (l.foldl (fun m t => m.set t.id t) m).entries = m.entries ++ l.map (fun t => (t.id, t))
  | [], m, _, _ => (List.append_nil _).symm
  | t :: l, m, hnodup, hnew => by
    obtain ⟨hhead, htail⟩ := List.nodup_cons.mp hnodup
    have hset : (m.set t.id t).entries = m.entries ++ [(t.id, t)] :=
      OrderedMap.setEntries_of_none (hnew t List.mem_cons_self)
    rw [List.foldl_cons, entries_foldl_set l (m.set t.id t) htail, hset, List.append_assoc]
    · rfl
    · intro t' ht'
      rw [OrderedMap.get_set_of_ne, hnew t' (List.mem_cons_of_mem _ ht')]
      intro heq
      exact hhead (heq ▸ List.mem_map.mpr ⟨t', ht', rfl⟩)

theorem mem_restored {timers : List Timer} {t : Timer} : t ∈ h.restored (timers.map base.toMeta) ↔
    ∃ i t₀, timers[i]? = some t₀ ∧ t = h.restore (base.toMeta t₀) (h.nextObject + i) := by
  unfold restored
  rw [List.mem_map]
  constructor
  · rintro ⟨⟨timer, i⟩, hmem, rfl⟩
    have hget := List.mem_zipIdx_iff_getElem?.mp hmem
    rw [List.getElem?_map] at hget
    obtain ⟨t₀, ht₀, rfl⟩ := Option.map_eq_some_iff.mp hget
    exact ⟨i, t₀, ht₀, rfl⟩
  · rintro ⟨i, t₀, ht₀, rfl⟩
    refine ⟨(base.toMeta t₀, i), List.mem_zipIdx_iff_getElem?.mpr ?_, rfl⟩
    rw [List.getElem?_map, ht₀]
    rfl

theorem map_id_restored (timers : List Timer) :
    (h.restored (timers.map base.toMeta)).map Timer.id = timers.map Timer.id := by
  unfold restored
  rw [List.map_map]
  conv_rhs => rw [← List.zipIdx_map_fst 0 timers, List.map_map]
  rw [List.zipIdx_map, List.map_map]
  rfl

variable (scopeOwner scope) in
/-- The restored timers of a scoped capture. -/
def rewoundTimers (base h : TimerHeap) : List Timer :=
  h.restored ((base.capturedTimers scopeOwner scope).map base.toMeta)

theorem mem_rewoundTimers {t : Timer} (ht : t ∈ rewoundTimers scopeOwner scope base h) :
    ∃ t₀ ∈ base.capturedTimers scopeOwner scope, t.id = t₀.id ∧ t.kind = t₀.kind ∧ t.hostScopeId = t₀.hostScopeId ∧
      t.remaining = t₀.remaining ∧ t.interval = t₀.interval ∧ t.fn = (h.timers.get t₀.id).bind Timer.fn ∧
        h.nextObject ≤ t.object := by
  obtain ⟨i, t₀, ht₀, rfl⟩ := mem_restored.mp ht
  exact ⟨t₀, List.mem_of_getElem? ht₀, rfl, rfl, rfl, rfl, rfl, rfl, Nat.le_add_right _ _⟩

theorem rewound_of_captured {t₀ : Timer} (ht₀ : t₀ ∈ base.capturedTimers scopeOwner scope) :
    ∃ t ∈ rewoundTimers scopeOwner scope base h, t.id = t₀.id := by
  obtain ⟨i, hi⟩ := List.mem_iff_getElem?.mp ht₀
  exact ⟨_, mem_restored.mpr ⟨i, t₀, hi, rfl⟩, rfl⟩

variable (hok : base.Ok) (hk : Kept base h)
include hok

theorem nodup_capturedTimers : ((base.capturedTimers scopeOwner scope).map Timer.id).Nodup := by
  have hkeys : base.timers.values.map Timer.id = base.timers.entries.map Prod.fst := by
    unfold OrderedMap.values
    rw [List.map_map]
    refine List.map_congr_left (fun e he => ?_)
    exact hok.keyed (base.timers.mem_entries_iff.mp he)
  unfold capturedTimers
  refine List.Nodup.sublist (List.Sublist.map _ List.filter_sublist) ?_
  rw [hkeys]
  exact base.timers.nodup

theorem get_of_captured {t₀ : Timer} (ht₀ : t₀ ∈ base.capturedTimers scopeOwner scope) : base.timers.get t₀.id = some t₀ := by
  obtain ⟨⟨k, hget⟩, -⟩ := mem_capturedTimers.mp ht₀
  rw [hok.keyed hget]
  exact hget

include hk

/-- A live timer under a captured id is of a captured host. -/
theorem host_of_captured {t₀ t : Timer} (ht₀ : t₀ ∈ base.capturedTimers scopeOwner scope) (hget : h.timers.get t₀.id = some t) :
    t.hostScopeId = t₀.hostScopeId ∧ t.hostScopeId ∈ base.capturedScopes scopeOwner scope := by
  have hbase := get_of_captured hok ht₀
  obtain ⟨t₁, ht₁, hsame⟩ := hk.same hget (hok.below hbase)
  rw [hbase] at ht₁
  obtain rfl := Option.some.inj ht₁
  refine ⟨hsame.hostScopeId, ?_⟩
  rw [hsame.hostScopeId]
  exact mem_capturedScopes.mpr ⟨(mem_capturedTimers.mp ht₀).2, _, _, hbase, rfl⟩

/-- The heap after a scoped apply: the timers of the hosts that were not captured, then the captured ones. -/
theorem entries_apply : (h.apply (base.capture scopeOwner (some scope))).timers.entries =
    h.timers.entries.filter (fun e => !decide (e.2.hostScopeId ∈ base.capturedScopes scopeOwner scope)) ++
      (rewoundTimers scopeOwner scope base h).map (fun t => (t.id, t)) := by
  rw [capture_some]
  refine entries_foldl_set _ _ ?_ (fun t ht => ?_)
  · rw [map_id_restored]
    exact nodup_capturedTimers hok
  · obtain ⟨t₀, ht₀, hid, -⟩ := mem_rewoundTimers ht
    cases hget : (h.timers.filter (fun _ t => !decide (t.hostScopeId ∈ base.capturedScopes scopeOwner scope))).get t.id with
    | none => rfl
    | some t' =>
      rw [OrderedMap.get_filter, Option.filter_eq_some_iff, hid] at hget
      obtain ⟨hlive, hhost⟩ := hget
      have hcaptured := (host_of_captured hok hk ht₀ hlive).2
      simp only [hcaptured, decide_true, Bool.not_true, Bool.false_eq_true] at hhost

/-- What is pending under an id after a scoped apply. -/
theorem get_apply {k : ℕ} {t : Timer} : (h.apply (base.capture scopeOwner (some scope))).timers.get k = some t ↔
    (h.timers.get k = some t ∧ t.hostScopeId ∉ base.capturedScopes scopeOwner scope) ∨
      (t ∈ rewoundTimers scopeOwner scope base h ∧ t.id = k) := by
  rw [← OrderedMap.mem_entries_iff, entries_apply hok hk, List.mem_append, List.mem_filter, OrderedMap.mem_entries_iff]
  simp only [Bool.not_eq_true', decide_eq_false_iff_not, List.mem_map, Prod.mk.injEq]
  refine or_congr Iff.rfl ⟨?_, ?_⟩
  · rintro ⟨t', ht', hid, rfl⟩
    exact ⟨ht', hid⟩
  · rintro ⟨ht, hid⟩
    exact ⟨t, ht, hid, rfl⟩

end TimerHeap

/-! ### The rewind -/

/-- What is promised of a scoped rewind: `before` was captured, `live` is the clock just before the apply, and `after`
the heap it leaves. -/
structure Rewound (scopeOwner : ScopeId → Option ℕ) (scope : List ℕ) (before : TimerHeap) (live : Clock) (after : TimerHeap) :
    Prop where
  /-- What is pending in scope was pending at the capture, with the same timing. -/
  pending : ∀ {k t}, after.timers.get k = some t → TimerHeap.inScope scopeOwner scope t.hostScopeId = true →
    ∃ t₀, before.timers.get k = some t₀ ∧ t.id = t₀.id ∧ t.kind = t₀.kind ∧ t.hostScopeId = t₀.hostScopeId ∧
      t.remaining = t₀.remaining ∧ t.interval = t₀.interval
  /-- What was pending in scope at the capture is pending. -/
  kept : ∀ {k t₀}, before.timers.get k = some t₀ → TimerHeap.inScope scopeOwner scope t₀.hostScopeId = true →
    ∃ t, after.timers.get k = some t ∧ t.hostScopeId = t₀.hostScopeId
  /-- A callback timer is not cancelled and has its callback. -/
  callbacks : ∀ {k t₀ t}, before.timers.get k = some t₀ → TimerHeap.inScope scopeOwner scope t₀.hostScopeId = true →
    t₀.kind ≠ .sleep → after.timers.get k = some t → t.fn = t₀.fn ∧ t.object ∉ after.cancelled
  /-- Every other host's timers are as they were. -/
  others : after.timers.entries.filter (fun e => !TimerHeap.inScope scopeOwner scope e.2.hostScopeId) =
    live.heap.timers.entries.filter (fun e => !TimerHeap.inScope scopeOwner scope e.2.hostScopeId)
  /-- No id handed out since the capture is minted again. -/
  fresh : ∀ later, (exec Clock.step { live with heap := after } later).minted.Nodup

/-- When it is so: no host in scope has its first timers since the capture, and no callback that was captured is gone
from the live heap. -/
structure Undisturbed (scopeOwner : ScopeId → Option ℕ) (scope : List ℕ) (before : TimerHeap) (live : Clock) : Prop where
  hosts : ∀ {k t}, live.heap.timers.get k = some t → TimerHeap.inScope scopeOwner scope t.hostScopeId = true →
    ∃ k' t₀, before.timers.get k' = some t₀ ∧ t₀.hostScopeId = t.hostScopeId
  callbacks : ∀ {k t₀}, before.timers.get k = some t₀ → TimerHeap.inScope scopeOwner scope t₀.hostScopeId = true →
    t₀.kind ≠ .sleep → t₀.fn.isSome → (live.heap.timers.get k).isSome

section

variable {scopeOwner : ScopeId → Option ℕ} {scope : List ℕ} {before : TimerHeap} {live : Clock}

/-- A restored timer is a new object, that nobody cancelled. -/
theorem live_rewound (hok : before.Ok) (hk : before.Kept live.heap) {t : Timer}
    (ht : t ∈ TimerHeap.rewoundTimers scopeOwner scope before live.heap) :
    t.object ∉ (live.heap.apply (before.capture scopeOwner (some scope))).cancelled := by
  obtain ⟨t₀, ht₀, -, -, -, -, -, -, hobject⟩ := TimerHeap.mem_rewoundTimers ht
  intro hmem
  rcases List.mem_append.mp hmem with hmem | hmem
  · obtain ⟨⟨timer, i⟩, hfilter, -⟩ := List.mem_map.mp hmem
    obtain ⟨hzip, hflag⟩ := List.mem_filter.mp hfilter
    obtain ⟨t₁, ht₁, rfl⟩ := List.mem_map.mp (List.fst_mem_of_mem_zipIdx hzip)
    have hget := TimerHeap.get_of_captured hok ht₁
    exact hok.live hget (of_decide_eq_true hflag)
  · exact absurd (hk.cancelled_lt _ hmem) (not_lt.mpr hobject)

theorem Undisturbed.rewound (h : Undisturbed scopeOwner scope before live) (hok : before.Ok) (hk : before.Kept live.heap)
    (hminted : live.minted = List.range' before.nextId (live.heap.nextId - before.nextId)) :
    Rewound scopeOwner scope before live (live.heap.apply (before.capture scopeOwner (some scope))) where
  pending := fun {k t} hget hscope => by
    rcases (TimerHeap.get_apply hok hk).mp hget with ⟨hlive, hhost⟩ | ⟨ht, hid⟩
    · obtain ⟨k', t₀, ht₀, hsame⟩ := h.hosts hlive hscope
      exact absurd (TimerHeap.mem_capturedScopes.mpr ⟨hscope, k', t₀, ht₀, hsame⟩) hhost
    · obtain ⟨t₀, ht₀, hid₀, hkind, hhost, hremaining, hinterval, -, -⟩ := TimerHeap.mem_rewoundTimers ht
      refine ⟨t₀, ?_, hid₀, hkind, hhost, hremaining, hinterval⟩
      rw [← hid, hid₀]
      exact TimerHeap.get_of_captured hok ht₀
  kept := fun {k t₀} hget hscope => by
    have ht₀ : t₀ ∈ before.capturedTimers scopeOwner scope := TimerHeap.mem_capturedTimers.mpr ⟨⟨k, hget⟩, hscope⟩
    obtain ⟨t, ht, hid⟩ := @TimerHeap.rewound_of_captured before live.heap _ _ _ ht₀
    obtain ⟨t₁, ht₁, hid₁, -, hhost, -⟩ := TimerHeap.mem_rewoundTimers ht
    have hsame : t₁ = t₀ := by
      have hget₁ := TimerHeap.get_of_captured hok ht₁
      rw [← hid₁, hid, TimerHeap.get_of_captured hok ht₀] at hget₁
      exact (Option.some.inj hget₁).symm
    refine ⟨t, (TimerHeap.get_apply hok hk).mpr (Or.inr ⟨ht, ?_⟩), by rw [hhost, hsame]⟩
    rw [hid, hok.keyed hget]
  callbacks := fun {k t₀ t} hget hscope hkind hafter => by
    have ht₀ : t₀ ∈ before.capturedTimers scopeOwner scope := TimerHeap.mem_capturedTimers.mpr ⟨⟨k, hget⟩, hscope⟩
    have hkey : t₀.id = k := hok.keyed hget
    rcases (TimerHeap.get_apply hok hk).mp hafter with ⟨hlive, hhost⟩ | ⟨ht, hid⟩
    · rw [← hkey] at hlive
      exact absurd (TimerHeap.host_of_captured hok hk ht₀ hlive).2 hhost
    · refine ⟨?_, live_rewound hok hk ht⟩
      obtain ⟨t₁, ht₁, hid₁, -, -, -, -, hfn, -⟩ := TimerHeap.mem_rewoundTimers ht
      rw [hfn, ← hid₁, hid]
      cases hlive : live.heap.timers.get k with
      | none =>
        by_contra hne
        have hsome := h.callbacks hget hscope hkind (by
          cases hcallback : t₀.fn with
          | none => exact absurd hcallback.symm hne
          | some fn => rfl)
        rw [hlive] at hsome
        cases hsome
      | some t' =>
        obtain ⟨t₂, ht₂, hsame⟩ := hk.same hlive (hok.below hget)
        rw [hget] at ht₂
        obtain rfl := Option.some.inj ht₂
        exact hsame.fn
  others := by
    rw [TimerHeap.entries_apply hok hk, List.filter_append, List.filter_filter]
    have hrewound : ((TimerHeap.rewoundTimers scopeOwner scope before live.heap).map (fun t => (t.id, t))).filter
        (fun e => !TimerHeap.inScope scopeOwner scope e.2.hostScopeId) = [] := by
      rw [List.filter_eq_nil_iff]
      intro e he
      obtain ⟨t, ht, rfl⟩ := List.mem_map.mp he
      obtain ⟨t₀, ht₀, -, -, hhost, -⟩ := TimerHeap.mem_rewoundTimers ht
      simp only [hhost, (TimerHeap.mem_capturedTimers.mp ht₀).2, Bool.not_true, Bool.false_eq_true, not_false_eq_true]
    rw [hrewound, List.append_nil]
    refine List.filter_congr (fun e _ => ?_)
    cases hscope : TimerHeap.inScope scopeOwner scope e.2.hostScopeId with
    | true => rfl
    | false =>
      have hnot : e.2.hostScopeId ∉ before.capturedScopes scopeOwner scope := fun hmem => by
        rw [(TimerHeap.mem_capturedScopes.mp hmem).1] at hscope
        cases hscope
      rw [decide_eq_false hnot]
      rfl
  fresh := fun later => by
    obtain ⟨hle, hlater⟩ := Clock.mints_exec { live with heap := live.heap.apply (before.capture scopeOwner (some scope)) } later
    rw [hlater]
    have hnext : (live.heap.apply (before.capture scopeOwner (some scope))).nextId = live.heap.nextId :=
      max_eq_left hk.nextId_le
    show (live.minted ++ List.range' (live.heap.apply (before.capture scopeOwner (some scope))).nextId _).Nodup
    rw [hminted, hnext, List.nodup_append]
    refine ⟨List.nodup_range', List.nodup_range', fun a ha b hb => ?_⟩
    rw [List.mem_range'_1] at ha hb
    omega

/-- **Scoped rewind.**  After any calls since the capture, and whatever advances are under way, the rewind is exact if and
only if the scope was left undisturbed. -/
theorem timers_rewound (hok : before.Ok) (due : List (List Timer)) (es : List Clock.Event) (scopeOwner : ScopeId → Option ℕ)
    (scope : List ℕ) :
    Rewound scopeOwner scope before (exec Clock.step ⟨before, due, []⟩ es)
        ((exec Clock.step ⟨before, due, []⟩ es).heap.apply (before.capture scopeOwner (some scope))) ↔
      Undisturbed scopeOwner scope before (exec Clock.step ⟨before, due, []⟩ es) := by
  have hk : before.Kept (exec Clock.step ⟨before, due, []⟩ es).heap := @Clock.kept_exec ⟨before, due, []⟩ hok es
  have hminted := (Clock.mints_exec ⟨before, due, []⟩ es).2
  refine ⟨fun h => ⟨fun {k t} hget hscope => ?_, fun {k t₀} hget hscope hkind hfn => ?_⟩, fun h => h.rewound hok hk hminted⟩
  · by_cases hhost : t.hostScopeId ∈ before.capturedScopes scopeOwner scope
    · obtain ⟨-, k', t₀, ht₀, hsame⟩ := TimerHeap.mem_capturedScopes.mp hhost
      exact ⟨k', t₀, ht₀, hsame⟩
    · -- It stays, so it must have been there.
      obtain ⟨t₀, ht₀, -, -, hsame, -⟩ := h.pending ((TimerHeap.get_apply hok hk).mpr (Or.inl ⟨hget, hhost⟩)) hscope
      exact ⟨k, t₀, ht₀, hsame.symm⟩
  · obtain ⟨t, ht, -⟩ := h.kept hget hscope
    obtain ⟨hcallback, -⟩ := h.callbacks hget hscope hkind ht
    have ht₀ : t₀ ∈ before.capturedTimers scopeOwner scope := TimerHeap.mem_capturedTimers.mpr ⟨⟨k, hget⟩, hscope⟩
    have hkey : t₀.id = k := hok.keyed hget
    rcases (TimerHeap.get_apply hok hk).mp ht with ⟨hlive, -⟩ | ⟨hrewound, hid⟩
    · rw [hlive]
      rfl
    · obtain ⟨t₁, -, hid₁, -, -, -, -, hborrowed, -⟩ := TimerHeap.mem_rewoundTimers hrewound
      rw [← hid₁, hid, hcallback] at hborrowed
      cases hlive : (exec Clock.step ⟨before, due, []⟩ es).heap.timers.get k with
      | none =>
        rw [hlive] at hborrowed
        rw [hborrowed] at hfn
        cases hfn
      | some t' => rfl

end

/-! ### Two rewinds -/

/-- A heap on whose entity 5 (host scope 1) an `after` is pending; the host of entity 6 (scope 2) has none. -/
def pendingHeap : TimerHeap :=
  { timers := ⟨[(1, ⟨0, 1, .after, 1, 3, 0, some 7, none, none⟩)], by decide⟩
    nextId := 2, simRate := 60, nextObject := 1, cancelled := [] }

def twoHosts : ScopeId → Option ℕ
  | 1 => some 5
  | 2 => some 6
  | _ => none

theorem ok_pendingHeap : pendingHeap.Ok := by
  have hget : ∀ {k t}, pendingHeap.timers.get k = some t → k = 1 ∧ t = ⟨0, 1, .after, 1, 3, 0, some 7, none, none⟩ := by
    intro k t hget
    have hmem := (OrderedMap.mem_entries_iff _).mpr hget
    obtain ⟨hk, ht⟩ := Prod.mk.inj (List.mem_singleton.mp hmem)
    exact ⟨hk, ht⟩
  refine ⟨fun h => ?_, fun h => ?_, fun h => ?_, fun h => ?_, fun h h' _ => ?_, fun o ho => absurd ho List.not_mem_nil⟩
  · obtain ⟨rfl, rfl⟩ := hget h
    rfl
  · obtain ⟨rfl, -⟩ := hget h
    decide
  · obtain ⟨-, rfl⟩ := hget h
    decide
  · exact List.not_mem_nil
  · rw [(hget h).1, (hget h').1]

theorem timers_rewound_pending :
    Rewound twoHosts [5, 6] pendingHeap (exec Clock.step ⟨pendingHeap, [], []⟩ [.advance])
        ((exec Clock.step ⟨pendingHeap, [], []⟩ [.advance]).heap.apply (pendingHeap.capture twoHosts (some [5, 6]))) ↔
      Undisturbed twoHosts [5, 6] pendingHeap (exec Clock.step ⟨pendingHeap, [], []⟩ [.advance]) :=
  timers_rewound ok_pendingHeap [] [.advance] twoHosts [5, 6]

/-- In a predicted span of three ticks the `after` of entity 5 fires, and entity 6 starts its first timer: after the
rewind entity 5's timer has no callback, and entity 6's is still pending. -/
theorem rewind_loses_and_leaves :
    ¬ Rewound twoHosts [5, 6] pendingHeap
      (exec Clock.step ⟨pendingHeap, [], []⟩ [.after (.finite 1) 2 none 8, .advance, .advance, .advance, .returned])
      ((exec Clock.step ⟨pendingHeap, [], []⟩
        [.after (.finite 1) 2 none 8, .advance, .advance, .advance, .returned]).heap.apply
          (pendingHeap.capture twoHosts (some [5, 6]))) := by
  intro h
  have hfirst : ((exec Clock.step ⟨pendingHeap, [], []⟩
      [.after (.finite 1) 2 none 8, .advance, .advance, .advance, .returned]).heap.apply
        (pendingHeap.capture twoHosts (some [5, 6]))).timers.get 2 = some ⟨1, 2, .after, 2, 57, 0, some 8, none, none⟩ := by
    decide +kernel
  obtain ⟨t₀, hget, -⟩ := h.pending hfirst rfl
  have hnone : pendingHeap.timers.get 2 = none := rfl
  rw [hnone] at hget
  cases hget

end Grove
