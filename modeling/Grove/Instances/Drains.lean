import Grove.Instances.Children

/-! # A drained world is never offered again

Every instance a `Redeploy` returned is reported draining or not at all, whatever else the calls, probes
and restarts of the agent do, in whichever order. -/

namespace Grove
namespace Supervisor

/-- Draining, or gone. -/
def Instance.Fading (i : Instance) : Prop := i.state = .draining ∨ i.exited = true

/-- Its teardown has begun. -/
def Instance.Torn (i : Instance) : Prop := i.ending = .tearing ∨ i.ending = .over

theorem Instance.once_fading {i : Instance} (ending : Ending) (h : i.Fading) : (i.once ending).Fading := by
  unfold Instance.once
  split_ifs <;> exact h

theorem Instance.once_mark_fading (i : Instance) (ending : Ending) : ((i.mark .draining).once ending).Fading :=
  Instance.once_fading ending (.inl rfl)

/-- No probe overrides a drain. -/
theorem Instance.probe_fading {i : Instance} (opts : Options) (now : ℤ) (players : Option ℤ) (h : i.Fading) :
    (i.probe opts now players).Fading := by
  rcases h with hstate | hexited
  · refine .inl ?_
    cases players with
    | some players => exact if_pos hstate
    | none =>
      simp only [Instance.probe]
      rw [if_pos hstate]
      exact hstate
  · refine .inr ?_
    rw [show (i.probe opts now players).exited = i.exited from congrArg Reaping.exited (Box.probe_reaping i now players)]
    exact hexited

namespace Box

variable (s : Box)

/-! ### The invariant -/

/-- Some `Redeploy` is done with the instance, whether or not it has returned. -/
def Drained (d : String × ℕ) : Prop := d ∈ s.returned ∨ ∃ drain ∈ s.drains, d ∈ drain.marked

structure Waning : Prop where
  keyed : ∀ id rec, s.disk.get id = some rec → rec.instanceID = id
  inside : ∀ (ref : Ref) (i : Instance), s.instances[ref]? = some i → i.child < s.children.length
  single : ∀ (ref ref' : Ref) (i i' : Instance), s.instances[ref]? = some i → s.instances[ref']? = some i' → i.id = i'.id →
    i.child = i'.child → ref = ref'
  known : ∀ d, s.Drained d → d.2 < s.children.length
  marked : ∀ (ref : Ref) (i : Instance), s.instances[ref]? = some i → s.Drained (i.id, i.child) → i.Fading
  /-- A record under the id of a drained instance that another run could take its process from is stamped. -/
  stamped : ∀ d, s.Drained d → ∀ rec, s.disk.get d.1 = some rec → rec.drainingSince = none → ∀ child, s.Live d.2 child →
    child.pid ≠ rec.pid
  todo : ∀ drain ∈ s.drains, ∀ ref ∈ drain.todo, ref < s.instances.length
  heads : ∀ drain ∈ s.drains, ∀ ref rest, drain.todo = ref :: rest → drain.stage ≠ .mark → ∀ i : Instance, s.instances[ref]? = some i →
    i.Fading ∧ ∀ rec, drain.stage = .write rec → rec.instanceID = i.id
  /-- The instance being started is not yet anyone else's, and its process is under a pid of its own. -/
  starting : ∀ (ref : Ref) (i : Instance), s.starting = some ref → s.instances[ref]? = some i → (∀ d, s.Drained d → d.2 ≠ i.child) ∧
    (∀ drain ∈ s.drains, ref ∉ drain.todo) ∧ (∀ (ref' : Ref) (j : Instance), s.instances[ref']? = some j → j.child = i.child → ref' = ref) ∧
    ∀ c child, s.Live c child → child.pid = i.pid → c = i.child

section waning
variable {s} {s' : Box} {opts : Options}

theorem waning_new : new.Waning where
  keyed := fun _ _ h => by cases h
  inside := fun _ _ h => by cases h
  single := fun _ _ _ _ h => by cases h
  known := fun _ h => by rcases h with h | ⟨_, h, _⟩ <;> cases h
  marked := fun _ _ h => by cases h
  stamped := fun _ _ _ h => by cases h
  todo := fun _ h => by cases h
  heads := fun _ h => by cases h
  starting := fun _ _ h => by cases h

/-- No instance is marked otherwise, and no record is written. -/
structure Calm (s s' : Box) : Prop where
  children : s'.children.length = s.children.length
  live : ∀ c child, s'.Live c child → s.Live c child
  disk : ∀ id rec, s'.disk.get id = some rec → s.disk.get id = some rec
  starting : s'.starting = s.starting
  drains : s'.drains = s.drains
  returned : s'.returned = s.returned
  count : s'.instances.length = s.instances.length
  instances : ∀ (ref : Ref) (i' : Instance), s'.instances[ref]? = some i' → ∃ i, s.instances[ref]? = some i ∧
    i'.toSpawned = i.toSpawned ∧ (i.Fading → i'.Fading)

theorem drained_iff {d : String × ℕ} (hdrains : s'.drains = s.drains) (hreturned : s'.returned = s.returned) :
    s'.Drained d ↔ s.Drained d := by
  unfold Drained
  rw [hdrains, hreturned]

theorem Waning.calm (h : s.Waning) (hc : s.Calm s') : s'.Waning := by
  have hdrained : ∀ d, s'.Drained d → s.Drained d := fun d => (drained_iff hc.drains hc.returned).mp
  exact {
    keyed := fun id rec hrec => h.keyed id rec (hc.disk id rec hrec)
    inside := fun ref i' hi' => by
      obtain ⟨i, hi, hspawned, -⟩ := hc.instances ref i' hi'
      rw [hc.children, hspawned]
      exact h.inside ref i hi
    single := fun ref ref' i i' hi hi' hid hchild => by
      obtain ⟨j, hj, hspawned, -⟩ := hc.instances ref i hi
      obtain ⟨j', hj', hspawned', -⟩ := hc.instances ref' i' hi'
      rw [hspawned, hspawned'] at hid hchild
      exact h.single ref ref' j j' hj hj' hid hchild
    known := fun d hd => by
      rw [hc.children]
      exact h.known d (hdrained d hd)
    marked := fun ref i' hi' hd => by
      obtain ⟨i, hi, hspawned, hfade⟩ := hc.instances ref i' hi'
      rw [hspawned] at hd
      exact hfade (h.marked ref i hi (hdrained _ hd))
    stamped := fun d hd rec hrec hnone child hlive =>
      h.stamped d (hdrained d hd) rec (hc.disk _ rec hrec) hnone child (hc.live _ child hlive)
    todo := fun drain hdrain ref href => by
      rw [hc.drains] at hdrain
      rw [hc.count]
      exact h.todo drain hdrain ref href
    heads := fun drain hdrain ref rest htodo hstage i' hi' => by
      rw [hc.drains] at hdrain
      obtain ⟨i, hi, hspawned, hfade⟩ := hc.instances ref i' hi'
      obtain ⟨hfading, hwrite⟩ := h.heads drain hdrain ref rest htodo hstage i hi
      rw [hspawned]
      exact ⟨hfade hfading, hwrite⟩
    starting := fun ref i' href hi' => by
      rw [hc.starting] at href
      obtain ⟨i, hi, hspawned, -⟩ := hc.instances ref i' hi'
      obtain ⟨hown, htodo, hsingle, hpid⟩ := h.starting ref i href hi
      rw [hspawned, hc.drains]
      refine ⟨fun d hd => hown d (hdrained d hd), htodo, ?_, fun c child hlive => hpid c child (hc.live c child hlive)⟩
      intro ref' j' hj' hchild
      obtain ⟨j, hj, hspawned', -⟩ := hc.instances ref' j' hj'
      rw [hspawned'] at hchild
      exact hsingle ref' j hj hchild }

theorem calm_self : s.Calm s := ⟨rfl, fun _ _ h => h, fun _ _ h => h, rfl, rfl, rfl, rfl, fun _ i h => ⟨i, h, rfl, fun hf => hf⟩⟩

theorem get_update {ref ref' : Ref} {f : Instance → Instance} {i' : Instance} (h : (s.update ref f).instances[ref']? = some i') :
    ∃ i, s.instances[ref']? = some i ∧ (ref = ref' → i' = f i) ∧ (ref ≠ ref' → i' = i) := by
  unfold update at h
  rw [List.getElem?_modify] at h
  cases hi : s.instances[ref']? with
  | none =>
    rw [hi] at h
    cases h
  | some i =>
    rw [hi] at h
    refine ⟨i, rfl, ?_, ?_⟩
    · intro heq
      rw [← Option.some.inj h]
      exact if_pos heq
    · intro hne
      rw [← Option.some.inj h]
      exact if_neg hne

/-- One instance moves on, and is not offered again if it was not. -/
theorem calm_update (ref : Ref) (f : Instance → Instance) (hspawned : ∀ i, (f i).toSpawned = i.toSpawned)
    (hfade : ∀ i, s.instances[ref]? = some i → i.Fading → (f i).Fading) {disk : OrderedMap String Record} {issued : List ℕ}
    {stops : List Stop} {probes : List Probe} {reapedChildren : List ℕ} {answers : List (Ref × ℤ)} {teardowns : List Teardown}
    (hdisk : ∀ id rec, disk.get id = some rec → s.disk.get id = some rec) :
    s.Calm { s.update ref f with
      disk := disk, issued := issued, stops := stops, probes := probes, reapedChildren := reapedChildren, answers := answers,
      teardowns := teardowns } where
  children := rfl
  live := fun _ _ h => h
  disk := hdisk
  starting := rfl
  drains := rfl
  returned := rfl
  count := List.length_modify _ _ _
  instances := fun ref' i' hi' => by
    obtain ⟨i, hi, hself, hother⟩ := get_update hi'
    refine ⟨i, hi, ?_⟩
    by_cases heq : ref = ref'
    · subst heq
      rw [hself rfl]
      exact ⟨hspawned i, hfade i hi⟩
    · rw [hother heq]
      exact ⟨rfl, fun hf => hf⟩

/-- Only what is held, issued or waited for changes. -/
theorem calm_only {held : OrderedMap String Ref} {issued : List ℕ} {stops : List Stop} {probes : List Probe} :
    s.Calm { s with held := held, issued := issued, stops := stops, probes := probes } :=
  ⟨rfl, fun _ _ h => h, fun _ _ h => h, rfl, rfl, rfl, rfl, fun _ i h => ⟨i, h, rfl, fun hf => hf⟩⟩

theorem calm_exit (c : ℕ) : s.Calm (s.exit c) :=
  ⟨List.length_modify _ _ _, fun _ _ h => live_exit h, fun _ _ h => h, rfl, rfl, rfl, rfl, fun _ i h => ⟨i, h, rfl, fun hf => hf⟩⟩

theorem calm_note (ref : Ref) (now : ℤ) : s.Calm (s.note ref now) := by
  unfold Box.note
  cases s.instances[ref]? with
  | none => exact calm_self
  | some i =>
    dsimp only
    split_ifs
    · exact calm_update ref
        (fun i => { i with exited := true, endedAt := now, state := .unhealthy, reaped := .noted }) (fun _ => rfl)
        (fun _ _ _ => .inr rfl) (fun _ _ h => h)
    · exact calm_self

theorem calm_release (ref : Ref) : s.Calm (s.release ref) := by
  unfold Box.release
  cases s.instances[ref]? with
  | none => exact calm_self
  | some i =>
    dsimp only
    split_ifs
    · exact calm_update ref (fun i => { i with reaped := .released }) (fun _ => rfl) (fun _ _ h => h) (fun _ _ h => h)
    · exact calm_self

theorem calm_drop (ref : Ref) : s.Calm (s.drop ref) := by
  unfold Box.drop
  cases s.instances[ref]? with
  | none => exact calm_self
  | some i =>
    dsimp only
    split_ifs
    · refine calm_update ref (fun i => { i with reaped := .dropped }) (fun _ => rfl) (fun _ _ h => h) ?_
      intro id rec hrec
      rw [OrderedMap.get_delete] at hrec
      split_ifs at hrec
      exact hrec
    · exact calm_self

theorem calm_stop (id : String) : s.Calm (s.stop id) := by
  unfold Box.stop
  split_ifs
  · exact calm_self
  · cases s.held.get id with
    | none => exact calm_self
    | some ref => exact calm_only

theorem calm_ask (k : ℕ) : s.Calm (s.ask k) := by
  unfold Box.ask
  cases s.stops[k]? with
  | none => exact calm_self
  | some stop =>
    dsimp only
    cases s.instances[stop.ref]? with
    | none => exact calm_self
    | some i =>
      have hspawned : ∀ j : Instance, ({ j.once .tearing with hurry := true } : Instance).toSpawned = j.toSpawned :=
        fun j => congrArg Reaping.toSpawned (once_reaping j .tearing)
      have hfade : ∀ j : Instance, j.Fading → ({ j.once .tearing with hurry := true } : Instance).Fading :=
        fun j hj => Instance.once_fading (i := j) .tearing hj
      dsimp only
      cases i.stopOnce with
      | true | false =>
        exact calm_update stop.ref (fun j => { j.once .tearing with hurry := true }) hspawned (fun j _ => hfade j)
          (fun _ _ h => h)

theorem calm_stopped (k : ℕ) : s.Calm (s.stopped k) := by
  unfold Box.stopped
  cases s.stops[k]? with
  | none => exact calm_self
  | some stop =>
    dsimp only
    split_ifs
    · exact calm_only
    · exact calm_self

theorem calm_probe (ref : Ref) (now : ℤ) : s.Calm (s.probe ref now) := by
  unfold Box.probe
  cases hi : s.instances[ref]? with
  | none => exact calm_self
  | some i =>
    dsimp only
    split_ifs with hdone
    · refine calm_update ref (fun i => i.mark .unhealthy) (fun _ => rfl) ?_ (fun _ _ h => h)
      intro j hj _
      obtain rfl := Option.some.inj (hi.symm.trans hj)
      exact .inr hdone
    · exact calm_only

theorem calm_answer (k : ℕ) (players : Option ℤ) : s.Calm (s.answer opts k players) := by
  unfold Box.answer
  cases s.probes[k]? with
  | none => exact calm_self
  | some p =>
    dsimp only
    cases s.instances[p.ref]? with
    | none => exact calm_self
    | some i =>
      exact calm_update p.ref (fun i => i.probe opts p.now players)
        (fun i => congrArg Reaping.toSpawned (probe_reaping i p.now players))
        (fun _ _ hf => Instance.probe_fading opts p.now players hf) (fun _ _ h => h)

theorem calm_sweep (now : ℤ) : s.Calm (s.sweep opts now) := by
  unfold Box.sweep
  split_ifs
  · exact calm_self
  · exact calm_only

theorem calm_tear (ref : Ref) (i : Instance) (why : Why) : s.Calm (s.tear ref i why) :=
  calm_update ref (fun i => { i with ending := .tearing }) (fun _ => rfl) (fun _ _ h => h) (fun _ _ h => h)

theorem calm_tick (ref : Ref) (now : ℤ) : s.Calm (s.tick opts ref now) := by
  unfold Box.tick
  cases s.instances[ref]? with
  | none => exact calm_self
  | some i =>
    dsimp only
    split
    · split_ifs
      · exact calm_tear ref i _
      · exact calm_tear ref i _
      · exact calm_self
    · exact calm_self

theorem calm_hurried (ref : Ref) : s.Calm (s.hurried ref) := by
  unfold Box.hurried
  cases s.instances[ref]? with
  | none => exact calm_self
  | some i =>
    dsimp only
    split
    · split_ifs
      · exact calm_tear ref i _
      · exact calm_self
    · exact calm_self

theorem calm_ended (ref : Ref) : s.Calm (s.ended ref) := by
  unfold Box.ended
  cases s.instances[ref]? with
  | none => exact calm_self
  | some i =>
    dsimp only
    split
    · split_ifs
      · exact calm_update ref (fun i => { i with ending := .over }) (fun _ => rfl) (fun _ _ h => h) (fun _ _ h => h)
      · exact calm_self
    · exact calm_self

theorem calm_signal (ref : Ref) : s.Calm (s.signal ref) := by
  unfold Box.signal
  cases s.instances[ref]? with
  | none => exact calm_self
  | some i =>
    dsimp only
    split_ifs
    · refine calm_update ref
        (fun i => if i.done then { i with ending := .over } else { i.mark .draining with ending := .over }) ?_ ?_ (fun _ _ h => h)
      · intro j
        dsimp only
        split_ifs <;> rfl
      · intro j _ hf
        dsimp only
        split_ifs
        · exact hf
        · exact .inl rfl
    · exact calm_self

/-! ### The steps of a drain -/

theorem Waning.redeploy (h : s.Waning) (gameID : String) (at' : ℤ) : (s.redeploy gameID at').Waning := by
  unfold Box.redeploy
  split_ifs with hfree
  · exact h
  · have hdrained : ∀ d, Drained { s with drains := s.drains ++
        [⟨at', s.held.values.filter (fun ref => s.instances[ref]?.any fun i => i.gameID = gameID && !i.done), .mark, [], true⟩] } d →
        s.Drained d := by
      rintro d (hreturned | ⟨drain, hdrain, hmem⟩)
      · exact .inl hreturned
      · rcases List.mem_append.mp hdrain with hold | hnew
        · exact .inr ⟨drain, hold, hmem⟩
        · obtain rfl := List.mem_singleton.mp hnew
          cases hmem
    exact { h with
      known := fun d hd => h.known d (hdrained d hd)
      marked := fun ref i hi hd => h.marked ref i hi (hdrained _ hd)
      stamped := fun d hd => h.stamped d (hdrained d hd)
      todo := fun drain hdrain ref href => by
        rcases List.mem_append.mp hdrain with hold | hnew
        · exact h.todo drain hold ref href
        · obtain rfl := List.mem_singleton.mp hnew
          obtain ⟨-, hany⟩ := List.mem_filter.mp href
          by_contra hge
          rw [List.getElem?_eq_none (not_lt.mp hge)] at hany
          cases hany
      heads := fun drain hdrain ref rest htodo hstage => by
        rcases List.mem_append.mp hdrain with hold | hnew
        · exact h.heads drain hold ref rest htodo hstage
        · obtain rfl := List.mem_singleton.mp hnew
          exact absurd rfl hstage
      starting := fun ref i href => by
        rw [show s.starting = some ref from href] at hfree
        exact absurd rfl hfree }

theorem Waning.mark (h : s.Waning) (k : ℕ) : (s.mark k).Waning := by
  unfold Box.mark
  cases hd : s.drains[k]? with
  | none => exact h
  | some d =>
    dsimp only
    split
    · rename_i ref rest hstage htodo
      have hmem := List.mem_of_getElem? hd
      have hcalm : s.Calm (s.update ref fun i => (i.mark .draining).once (.draining d.at')) :=
        calm_update ref (fun i => (i.mark .draining).once (.draining d.at'))
          (fun i => congrArg Reaping.toSpawned (once_reaping (i.mark .draining) (.draining d.at')))
          (fun i _ _ => Instance.once_mark_fading i _) (fun _ _ h => h)
      have h' := h.calm hcalm
      have hdrained : ∀ d', Drained { s.update ref (fun i => (i.mark .draining).once (.draining d.at')) with
          drains := s.drains.set k { d with stage := .read } } d' → s.Drained d' := by
        rintro d' (hreturned | ⟨drain, hdrain, hin⟩)
        · exact .inl hreturned
        · rcases List.mem_or_eq_of_mem_set hdrain with hold | rfl
          · exact .inr ⟨drain, hold, hin⟩
          · exact .inr ⟨d, hmem, hin⟩
      exact {
        keyed := h'.keyed
        inside := h'.inside
        single := h'.single
        known := fun d' hd' => h'.known d' (hdrained d' hd')
        marked := fun ref' i hi hd' => h'.marked ref' i hi (hdrained _ hd')
        stamped := fun d' hd' => h'.stamped d' (hdrained d' hd')
        todo := fun drain hdrain ref' href' => by
          rcases List.mem_or_eq_of_mem_set hdrain with hold | rfl
          · exact h'.todo drain hold ref' href'
          · exact h'.todo d hmem ref' href'
        heads := fun drain hdrain ref' rest' htodo' hstage' i hi => by
          rcases List.mem_or_eq_of_mem_set hdrain with hold | rfl
          · exact h'.heads drain hold ref' rest' htodo' hstage' i hi
          · rw [htodo] at htodo'
            obtain ⟨rfl, rfl⟩ := List.cons.inj htodo'
            obtain ⟨j, -, hself, -⟩ := get_update hi
            rw [hself rfl]
            exact ⟨Instance.once_mark_fading j _, fun _ hwrite => by cases hwrite⟩
        starting := fun ref' i href' hi => by
          obtain ⟨hown, hnot, hsingle, hpid⟩ := h'.starting ref' i href' hi
          refine ⟨fun d' hd' => hown d' (hdrained d' hd'), ?_, hsingle, hpid⟩
          intro drain hdrain
          rcases List.mem_or_eq_of_mem_set hdrain with hold | rfl
          · exact hnot drain hold
          · exact hnot d hmem }
    · exact h

/-- A drain is done with an instance whose record is stamped, or gone. -/
theorem Waning.finish (h : s.Waning) {k : ℕ} {d : Drain} {ref : Ref} {rest : List Ref} {i : Instance}
    (hd : d ∈ s.drains) (htodo : d.todo = ref :: rest) (hstage : d.stage ≠ .mark) (hi : s.instances[ref]? = some i)
    (hstamped : ∀ rec, s.disk.get i.id = some rec → rec.drainingSince ≠ none) : (s.finish k d i rest).Waning := by
  obtain ⟨hfading, -⟩ := h.heads d hd ref rest htodo hstage i hi
  have hmarked : ∀ d', d' ∈ (if d.redeploy then d.marked ++ [(i.id, i.child)] else d.marked) →
      s.Drained d' ∨ d' = (i.id, i.child) := by
    intro d' hmem
    split_ifs at hmem
    · rcases List.mem_append.mp hmem with hold | hnew
      · exact .inl (.inr ⟨d, hd, hold⟩)
      · exact .inr (List.mem_singleton.mp hnew)
    · exact .inl (.inr ⟨d, hd, hmem⟩)
  have hdrained : ∀ d', (s.finish k d i rest).Drained d' → s.Drained d' ∨ d' = (i.id, i.child) := by
    intro d' hd'
    unfold Box.finish at hd'
    dsimp only at hd'
    by_cases hrest : rest = []
    · rw [if_pos hrest] at hd'
      rcases hd' with hreturned | ⟨drain, hdrain, hin⟩
      · rcases List.mem_append.mp hreturned with hold | hnew
        · exact .inl (.inl hold)
        · exact hmarked d' hnew
      · exact .inl (.inr ⟨drain, List.mem_of_mem_eraseIdx hdrain, hin⟩)
    · rw [if_neg hrest] at hd'
      rcases hd' with hreturned | ⟨drain, hdrain, hin⟩
      · exact .inl (.inl hreturned)
      · rcases List.mem_or_eq_of_mem_set hdrain with hold | rfl
        · exact .inl (.inr ⟨drain, hold, hin⟩)
        · exact hmarked d' hin
  have hdrains : ∀ drain ∈ (s.finish k d i rest).drains, drain ∈ s.drains ∨ (drain.todo = rest ∧ drain.stage = .mark) := by
    intro drain hdrain
    unfold Box.finish at hdrain
    dsimp only at hdrain
    by_cases hrest : rest = []
    · rw [if_pos hrest] at hdrain
      exact .inl (List.mem_of_mem_eraseIdx hdrain)
    · rw [if_neg hrest] at hdrain
      rcases List.mem_or_eq_of_mem_set hdrain with hold | rfl
      · exact .inl hold
      · exact .inr ⟨rfl, rfl⟩
  have hsame : (s.finish k d i rest).disk = s.disk ∧ (s.finish k d i rest).instances = s.instances ∧
      (s.finish k d i rest).children = s.children ∧ (s.finish k d i rest).starting = s.starting := by
    unfold Box.finish
    dsimp only
    by_cases hrest : rest = []
    · rw [if_pos hrest]
      exact ⟨rfl, rfl, rfl, rfl⟩
    · rw [if_neg hrest]
      exact ⟨rfl, rfl, rfl, rfl⟩
  obtain ⟨hdisk, hinstances, hchildren, hstarting⟩ := hsame
  have hlive : ∀ c child, (s.finish k d i rest).Live c child = s.Live c child := by
    intro c child
    unfold Live
    rw [hchildren]
  have hrest : ∀ ref' ∈ rest, ref' ∈ d.todo := fun ref' href' => htodo ▸ List.mem_cons_of_mem _ href'
  constructor <;> try simp only [hdisk, hinstances, hchildren, hstarting, hlive]
  · exact h.keyed
  · exact h.inside
  · exact h.single
  · intro d' hd'
    rcases hdrained d' hd' with hold | rfl
    · exact h.known d' hold
    · exact h.inside ref i hi
  · intro ref' j hj hd'
    rcases hdrained _ hd' with hold | hnew
    · exact h.marked ref' j hj hold
    · -- The one instance of the process under the id is the one just marked.
      obtain ⟨hid, hchild⟩ := Prod.mk.inj hnew
      obtain rfl := h.single ref' ref j i hj hi hid hchild
      obtain rfl := Option.some.inj (hj.symm.trans hi)
      exact hfading
  · intro d' hd' rec hrec hnone child hc
    rcases hdrained d' hd' with hold | rfl
    · exact h.stamped d' hold rec hrec hnone child hc
    · exact absurd hnone (hstamped rec hrec)
  · intro drain hdrain ref' href'
    rcases hdrains drain hdrain with hold | ⟨hrests, -⟩
    · exact h.todo drain hold ref' href'
    · exact h.todo d hd ref' (hrest ref' (hrests ▸ href'))
  · intro drain hdrain ref' rest' htodo' hstage'
    rcases hdrains drain hdrain with hold | ⟨-, hmark⟩
    · exact h.heads drain hold ref' rest' htodo' hstage'
    · exact absurd hmark hstage'
  · intro ref' j href' hj
    obtain ⟨hown, hnot, hsingle, hpid⟩ := h.starting ref' j href' hj
    refine ⟨?_, ?_, hsingle, hpid⟩
    · intro d' hd'
      rcases hdrained d' hd' with hold | rfl
      · exact hown d' hold
      · intro hchild
        have heq := hsingle ref i hi hchild
        exact hnot d hd (heq ▸ htodo ▸ List.mem_cons_self)
    · intro drain hdrain
      rcases hdrains drain hdrain with hold | ⟨hrests, -⟩
      · exact hnot drain hold
      · intro hmem
        exact hnot d hd (hrest ref' (hrests ▸ hmem))

theorem Waning.read (h : s.Waning) (k : ℕ) : (s.read k).Waning := by
  unfold Box.read
  cases hd : s.drains[k]? with
  | none => exact h
  | some d =>
    have hmem := List.mem_of_getElem? hd
    dsimp only
    split
    · rename_i ref rest hstage htodo
      have hnot : d.stage ≠ .mark := by
        rw [hstage]
        exact fun hne => by cases hne
      cases hi : s.instances[ref]? with
      | none => exact h
      | some i =>
        dsimp only
        cases hrec : s.disk.get i.id with
        | none =>
          refine h.finish hmem htodo hnot hi ?_
          intro rec hrec'
          rw [hrec] at hrec'
          cases hrec'
        | some rec =>
          dsimp only
          split_ifs with hstamp
          · refine h.finish hmem htodo hnot hi ?_
            intro rec' hrec' hnone
            obtain rfl := Option.some.inj (hrec.symm.trans hrec')
            rw [hnone] at hstamp
            cases hstamp
          · have hdrained : ∀ d', Drained { s with drains := s.drains.set k { d with stage := .write rec } } d' → s.Drained d' := by
              rintro d' (hreturned | ⟨drain, hdrain, hin⟩)
              · exact .inl hreturned
              · rcases List.mem_or_eq_of_mem_set hdrain with hold | rfl
                · exact .inr ⟨drain, hold, hin⟩
                · exact .inr ⟨d, hmem, hin⟩
            exact { h with
              known := fun d' hd' => h.known d' (hdrained d' hd')
              marked := fun ref' i hi hd' => h.marked ref' i hi (hdrained _ hd')
              stamped := fun d' hd' => h.stamped d' (hdrained d' hd')
              todo := fun drain hdrain ref' href' => by
                rcases List.mem_or_eq_of_mem_set hdrain with hold | rfl
                · exact h.todo drain hold ref' href'
                · exact h.todo d hmem ref' href'
              heads := fun drain hdrain ref' rest' htodo' hstage' j hj => by
                rcases List.mem_or_eq_of_mem_set hdrain with hold | rfl
                · exact h.heads drain hold ref' rest' htodo' hstage' j hj
                · obtain ⟨hfading, -⟩ := h.heads d hmem ref' rest' htodo' hnot j hj
                  refine ⟨hfading, ?_⟩
                  intro rec' hwrite
                  obtain rfl := Stage.write.inj hwrite
                  rw [htodo] at htodo'
                  obtain ⟨rfl, rfl⟩ := List.cons.inj htodo'
                  obtain rfl := Option.some.inj (hi.symm.trans hj)
                  exact h.keyed i.id rec hrec
              starting := fun ref' j href' hj => by
                obtain ⟨hown, hnot', hsingle, hpid⟩ := h.starting ref' j href' hj
                refine ⟨fun d' hd' => hown d' (hdrained d' hd'), ?_, hsingle, hpid⟩
                intro drain hdrain
                rcases List.mem_or_eq_of_mem_set hdrain with hold | rfl
                · exact hnot' drain hold
                · exact hnot' d hmem }
    · exact h

theorem Waning.write (h : s.Waning) (k : ℕ) : (s.write k).Waning := by
  unfold Box.write
  cases hd : s.drains[k]? with
  | none => exact h
  | some d =>
    have hmem := List.mem_of_getElem? hd
    dsimp only
    split
    · rename_i rec ref rest hstage htodo
      have hnot : d.stage ≠ .mark := by
        rw [hstage]
        exact fun hne => by cases hne
      cases hi : s.instances[ref]? with
      | none => exact h
      | some i =>
        have hid : rec.instanceID = i.id := (h.heads d hmem ref rest htodo hnot i hi).2 rec hstage
        have hstamp : Waning { s with disk := s.disk.set rec.instanceID { rec with drainingSince := some d.at' } } :=
          { h with
            keyed := fun id rec' hrec' => by
              dsimp only at hrec'
              rw [OrderedMap.get_set] at hrec'
              split_ifs at hrec' with hkey
              · obtain rfl := Option.some.inj hrec'
                exact hkey.symm
              · exact h.keyed id rec' hrec'
            stamped := fun d' hd' rec' hrec' hnone => by
              dsimp only at hrec'
              rw [OrderedMap.get_set] at hrec'
              split_ifs at hrec' with hkey
              · obtain rfl := Option.some.inj hrec'
                cases hnone
              · exact h.stamped d' hd' rec' hrec' hnone }
        refine hstamp.finish hmem htodo hnot hi ?_
        intro rec' hrec'
        dsimp only at hrec'
        rw [OrderedMap.get_set, if_pos hid.symm] at hrec'
        obtain rfl := Option.some.inj hrec'
        exact fun hnone => by cases hnone
    · exact h

/-! ### A start -/

theorem get_append {i i' : Instance} {ref : Ref} (h : (s.instances ++ [i])[ref]? = some i') :
    s.instances[ref]? = some i' ∨ (ref = s.instances.length ∧ i' = i) := by
  rcases lt_trichotomy ref s.instances.length with hlt | heq | hgt
  · rw [List.getElem?_append_left hlt] at h
    exact .inl h
  · rw [heq, List.getElem?_concat_length] at h
    exact .inr ⟨heq, (Option.some.inj h).symm⟩
  · rw [List.getElem?_eq_none (by simp; omega)] at h
    cases h

theorem Waning.fork (h : s.Waning) (req : InstanceStart) (port : ℕ) {pid : ℕ} (now : ℤ) (hpid : s.ownedBy pid = none) :
    (s.fork req port pid now).Waning := by
  have hcount : s.children.length < (s.fork req port pid now).children.length := by
    unfold Box.fork
    rw [List.length_append]
    exact Nat.lt_succ_self _
  have hlive : ∀ {c : ℕ} {child : Child}, (s.fork req port pid now).Live c child → s.Live c child ∨ c = s.children.length := by
    rintro c child ⟨hc, hrun⟩
    rcases live_append hc with hold | ⟨heq, -⟩
    · exact .inl ⟨hold, hrun⟩
    · exact .inr heq
  exact {
    keyed := h.keyed
    inside := fun ref i hi => by
      rcases get_append hi with hold | ⟨-, rfl⟩
      · exact (h.inside ref i hold).trans hcount
      · exact hcount
    single := fun ref ref' i i' hi hi' hid hchild => by
      rcases get_append hi with hold | ⟨rfl, rfl⟩
      · rcases get_append hi' with hold' | ⟨rfl, rfl⟩
        · exact h.single ref ref' i i' hold hold' hid hchild
        · exact absurd hchild (h.inside ref i hold).ne
      · rcases get_append hi' with hold' | ⟨rfl, rfl⟩
        · exact absurd hchild.symm (h.inside ref' i' hold').ne
        · rfl
    known := fun d hd => (h.known d hd).trans hcount
    marked := fun ref i hi hd => by
      rcases get_append hi with hold | ⟨rfl, rfl⟩
      · exact h.marked ref i hold hd
      · exact absurd (h.known _ hd) (lt_irrefl _)
    stamped := fun d hd rec hrec hnone child hc => by
      rcases hlive hc with hold | heq
      · exact h.stamped d hd rec hrec hnone child hold
      · exact absurd (heq ▸ h.known d hd) (lt_irrefl _)
    todo := fun drain hdrain ref href => (h.todo drain hdrain ref href).trans_le (List.length_append ▸ Nat.le_add_right _ _)
    heads := fun drain hdrain ref rest htodo hstage i hi => by
      rcases get_append hi with hold | ⟨rfl, rfl⟩
      · exact h.heads drain hdrain ref rest htodo hstage i hold
      · exact absurd (h.todo drain hdrain _ (htodo ▸ List.mem_cons_self)) (lt_irrefl _)
    starting := fun ref i href hi => by
      obtain rfl := Option.some.inj href
      obtain rfl := Option.some.inj (hi.symm.trans List.getElem?_concat_length)
      refine ⟨fun d hd => (h.known d hd).ne, ?_, ?_, ?_⟩
      · intro drain hdrain hmem
        exact absurd (h.todo drain hdrain _ hmem) (lt_irrefl _)
      · intro ref' j hj hchild
        rcases get_append hj with hold | ⟨rfl, -⟩
        · exact absurd hchild (h.inside ref' j hold).ne
        · rfl
      · intro c child hc hsame
        rcases hlive hc with hold | heq
        · exact absurd hsame (ownedBy_none hpid hold)
        · exact heq }

theorem Waning.start (h : s.Waning) (req : InstanceStart) (offers : List (Option ℕ)) (forked : Option ℕ) (now : ℤ) :
    (s.start opts req offers forked now).Waning := by
  unfold Box.start
  split_ifs
  · exact h
  · exact h
  · exact h
  · cases take s.issued portAttempts offers with
    | none => exact h
    | some port =>
      cases forked with
      | none => exact h.calm calm_only
      | some pid =>
        dsimp only
        split_ifs with hpid
        · exact h
        · exact h.fork req port now (Option.not_isSome_iff_eq_none.mp hpid)

/-- The record of a start names no process that is to be drained. -/
theorem Waning.record (h : s.Waning) : s.record.Waning := by
  unfold Box.record
  cases hstarting : s.starting with
  | none => exact h
  | some ref =>
    dsimp only
    cases hi : s.instances[ref]? with
    | none => exact h
    | some i =>
      obtain ⟨hown, -, -, hpid⟩ := h.starting ref i hstarting hi
      exact { h with
        keyed := fun id rec hrec => by
          dsimp only at hrec
          rw [OrderedMap.get_set] at hrec
          split_ifs at hrec with hkey
          · obtain rfl := Option.some.inj hrec
            exact hkey.symm
          · exact h.keyed id rec hrec
        stamped := fun d hd rec hrec hnone child hc => by
          dsimp only at hrec
          rw [OrderedMap.get_set] at hrec
          split_ifs at hrec with hkey
          · obtain rfl := Option.some.inj hrec
            intro hsame
            exact hown d hd (hpid d.2 child hc hsame)
          · exact h.stamped d hd rec hrec hnone child hc
        starting := fun _ _ hnone => by cases hnone }

/-! ### A new run of the agent -/

/-- Where `Adopt` is, with `todo` the records it has still to look at; each instance is of one record. -/
structure TakingBack (todo : List Record) (s' : Box) (now : ℤ) : Prop where
  children : s'.children = s.children
  starting : s'.starting = none
  returned : s'.returned = s.returned
  run : s'.run = s.run + 1
  teardowns : s'.teardowns = s.teardowns
  disk : ∀ id rec, s'.disk.get id = some rec → s.disk.get id = some rec
  ofRecord : ∀ (ref : Ref) (i : Instance), s'.instances[ref]? = some i → ∃ rec c, s.disk.get rec.instanceID = some rec ∧
    rec ∉ todo ∧ s.ownedBy rec.pid = some c ∧ i = Box.adopted rec c now
  single : ∀ (ref ref' : Ref) (i i' : Instance), s'.instances[ref]? = some i → s'.instances[ref']? = some i' → i.id = i'.id → ref = ref'
  drains : ∀ drain ∈ s'.drains, drain.marked = [] ∧ drain.stage = .read ∧ ∃ ref i, drain.todo = [ref] ∧
    s'.instances[ref]? = some i ∧ i.Fading

theorem adopted_id (rec : Record) (c : ℕ) (now : ℤ) : (Box.adopted rec c now).id = rec.instanceID ∧ (Box.adopted rec c now).child = c := by
  unfold Box.adopted
  dsimp only
  split
  · exact ⟨rfl, rfl⟩
  · exact ⟨congrArg Spawned.id (congrArg Reaping.toSpawned (once_reaping _ _)),
      congrArg Spawned.child (congrArg Reaping.toSpawned (once_reaping _ _))⟩

/-- A world whose record says it drains, or that names no revision, comes back draining. -/
theorem adopted_fading {rec : Record} {now : ℤ} (h : rec.drainingSince ≠ none ∨ rec.revision < 1) (c : ℕ) :
    (Box.adopted rec c now).Fading := by
  unfold Box.adopted Box.drainingSince
  dsimp only
  cases hsince : rec.drainingSince with
  | some since => exact Instance.once_mark_fading _ _
  | none =>
    dsimp only
    rw [if_pos (h.resolve_left (fun hne => hne hsince))]
    exact Instance.once_mark_fading _ _

theorem TakingBack.adopt {rec : Record} {todo : List Record} {now : ℤ} (ht : s.TakingBack (rec :: todo) s' now)
    (hrec : s.disk.get rec.instanceID = some rec) (hnodup : rec ∉ todo) (unread : ℕ → Bool) :
    s.TakingBack todo (s'.adopt unread now rec) now := by
  have hkept : ∀ (ref : Ref) (i : Instance), s'.instances[ref]? = some i → ∃ rec' c, s.disk.get rec'.instanceID = some rec' ∧
      rec' ∉ todo ∧ s.ownedBy rec'.pid = some c ∧ i = Box.adopted rec' c now := by
    intro ref i hi
    obtain ⟨rec', c, hrec', hnot, hown⟩ := ht.ofRecord ref i hi
    exact ⟨rec', c, hrec', fun hmem => hnot (List.mem_cons_of_mem _ hmem), hown⟩
  unfold Box.adopt
  by_cases hunread : unread rec.pid = true
  · rw [if_pos hunread]
    exact { ht with ofRecord := hkept }
  · have howned : s'.ownedBy rec.pid = s.ownedBy rec.pid := by
      unfold Box.ownedBy
      rw [ht.children]
    rw [if_neg hunread, howned]
    cases howner : s.ownedBy rec.pid with
    | none =>
      exact { ht with
        ofRecord := hkept
        disk := fun id rec' hrec' => by
          dsimp only at hrec'
          rw [OrderedMap.get_delete] at hrec'
          split_ifs at hrec'
          exact ht.disk id rec' hrec' }
    | some c =>
      have hothers : ∀ (ref : Ref) (i : Instance), s'.instances[ref]? = some i → i.id ≠ rec.instanceID := by
        intro ref i hi heq
        obtain ⟨rec', c', hrec', hnot, -, rfl⟩ := ht.ofRecord ref i hi
        rw [(adopted_id rec' c' now).1] at heq
        rw [heq] at hrec'
        exact hnot (Option.some.inj (hrec'.symm.trans hrec) ▸ List.mem_cons_self)
      have hleft : ∀ {ref : Ref} {i : Instance}, s'.instances[ref]? = some i →
          (s'.instances ++ [Box.adopted rec c now])[ref]? = some i :=
        fun hi => (List.getElem?_append_left (List.getElem?_eq_some_iff.mp hi).1).trans hi
      exact {
        children := ht.children
        starting := ht.starting
        returned := ht.returned
        run := ht.run
        teardowns := ht.teardowns
        disk := ht.disk
        ofRecord := fun ref i hi => by
          rcases get_append hi with hold | ⟨-, rfl⟩
          · exact hkept ref i hold
          · exact ⟨rec, c, hrec, hnodup, howner, rfl⟩
        single := fun ref ref' i i' hi hi' hid => by
          rcases get_append hi with hold | ⟨rfl, rfl⟩
          · rcases get_append hi' with hold' | ⟨rfl, rfl⟩
            · exact ht.single ref ref' i i' hold hold' hid
            · exact absurd (hid.trans (adopted_id rec c now).1) (hothers ref i hold)
          · rcases get_append hi' with hold' | ⟨rfl, rfl⟩
            · exact absurd (hid.symm.trans (adopted_id rec c now).1) (hothers ref' i' hold')
            · rfl
        drains := fun drain hdrain => by
          have hmem : drain ∈ s'.drains ∨ (rec.revision < 1 ∧ drain = ⟨now, [s'.instances.length], .read, [], false⟩) := by
            dsimp only at hdrain
            split_ifs at hdrain with hrevision
            · rcases List.mem_append.mp hdrain with hold | hnew
              · exact .inl hold
              · exact .inr ⟨hrevision.1, List.mem_singleton.mp hnew⟩
            · exact .inl hdrain
          rcases hmem with hold | ⟨hrevision, rfl⟩
          · obtain ⟨hmarked, hstage, ref, i, htodo, hi, hfading⟩ := ht.drains drain hold
            exact ⟨hmarked, hstage, ref, i, htodo, hleft hi, hfading⟩
          · exact ⟨rfl, rfl, _, _, rfl, List.getElem?_concat_length, adopted_fading (.inr hrevision) c⟩ }

theorem TakingBack.foldl {unread : ℕ → Bool} {now : ℤ} {todo : List Record} (ht : s.TakingBack todo s' now)
    (hnodup : todo.Nodup) (hget : ∀ rec ∈ todo, s.disk.get rec.instanceID = some rec) :
    s.TakingBack [] (todo.foldl (fun s' rec => s'.adopt unread now rec) s') now := by
  induction todo generalizing s' with
  | nil => exact ht
  | cons rec todo ih =>
    obtain ⟨hnot, hnodup⟩ := List.nodup_cons.mp hnodup
    exact ih (ht.adopt (hget rec List.mem_cons_self) hnot unread) hnodup (fun rec' hmem => hget rec' (List.mem_cons_of_mem _ hmem))

theorem takingBack_forgetful (now : ℤ) : s.TakingBack s.disk.values s.forgetful now where
  children := rfl
  starting := rfl
  returned := rfl
  run := rfl
  teardowns := rfl
  disk := fun _ _ hrec => hrec
  ofRecord := fun _ _ hi => by cases hi
  single := fun _ _ _ _ hi => by cases hi
  drains := fun _ hd => by cases hd

theorem TakingBack.waning {now : ℤ} (h : s.Waning) (ht : s.TakingBack [] s' now) : s'.Waning := by
  have hdrained : ∀ d, s'.Drained d → d ∈ s.returned := by
    rintro d (hreturned | ⟨drain, hdrain, hin⟩)
    · exact ht.returned ▸ hreturned
    · rw [(ht.drains drain hdrain).1] at hin
      cases hin
  have hlive : ∀ c child, s'.Live c child = s.Live c child := by
    intro c child
    unfold Live
    rw [ht.children]
  have hchild : ∀ {pid c : ℕ}, s.ownedBy pid = some c → c < s.children.length := by
    intro pid c hown
    obtain ⟨child, hc, -⟩ := ownedBy_live hown
    exact (List.getElem?_eq_some_iff.mp hc.1).1
  constructor <;> try simp only [ht.children, hlive]
  · exact fun id rec hrec => h.keyed id rec (ht.disk id rec hrec)
  · intro ref i hi
    obtain ⟨rec, c, -, -, hown, rfl⟩ := ht.ofRecord ref i hi
    rw [(adopted_id rec c now).2]
    exact hchild hown
  · exact fun ref ref' i i' hi hi' hid _ => ht.single ref ref' i i' hi hi' hid
  · exact fun d hd => h.known d (.inl (hdrained d hd))
  · intro ref i hi hd
    obtain ⟨rec, c, hrec, -, hown, rfl⟩ := ht.ofRecord ref i hi
    rw [(adopted_id rec c now).1, (adopted_id rec c now).2] at hd
    obtain ⟨child, hc, hpid⟩ := ownedBy_live hown
    refine adopted_fading (.inl ?_) c
    intro hnone
    exact h.stamped _ (.inl (hdrained _ hd)) rec hrec hnone child hc hpid
  · exact fun d hd rec hrec => h.stamped d (.inl (hdrained d hd)) rec (ht.disk _ rec hrec)
  · intro drain hdrain ref href
    obtain ⟨-, -, ref', i, htodo, hi, -⟩ := ht.drains drain hdrain
    rw [htodo, List.mem_singleton] at href
    subst href
    exact (List.getElem?_eq_some_iff.mp hi).1
  · intro drain hdrain ref rest htodo hstage i hi
    obtain ⟨-, hread, ref', i', htodo', hi', hfading⟩ := ht.drains drain hdrain
    rw [htodo'] at htodo
    obtain ⟨rfl, -⟩ := List.cons.inj htodo
    obtain rfl := Option.some.inj (hi.symm.trans hi')
    refine ⟨hfading, ?_⟩
    intro rec hwrite
    rw [hread] at hwrite
    cases hwrite
  · intro ref i href
    rw [ht.starting] at href
    cases href

theorem Waning.takingBack (h : s.Waning) (unread : ℕ → Bool) (now : ℤ) : s.TakingBack [] (s.restart unread now) now :=
  (takingBack_forgetful now).foldl (disk_values_nodup h.keyed) (disk_values_get h.keyed)

theorem Waning.restart (h : s.Waning) (unread : ℕ → Bool) (now : ℤ) : (s.restart unread now).Waning :=
  TakingBack.waning h (h.takingBack unread now)

theorem Waning.step (h : s.Waning) (e : Event) : (Box.step opts s e).Waning := by
  cases e with
  | start req offers forked now => exact h.start req offers forked now
  | record => exact h.record
  | exit child => exact h.calm (calm_exit child)
  | note ref now => exact h.calm (calm_note ref now)
  | release ref => exact h.calm (calm_release ref)
  | drop ref => exact h.calm (calm_drop ref)
  | stop id => exact h.calm (calm_stop id)
  | ask k => exact h.calm (calm_ask k)
  | stopped k => exact h.calm (calm_stopped k)
  | leave k => exact h.calm calm_only
  | redeploy gameID at' => exact h.redeploy gameID at'
  | mark k => exact h.mark k
  | read k => exact h.read k
  | write k => exact h.write k
  | probe ref now => exact h.calm (calm_probe ref now)
  | answer k players => exact h.calm (calm_answer k players)
  | sweep now => exact h.calm (calm_sweep now)
  | tick ref now => exact h.calm (calm_tick ref now)
  | hurried ref => exact h.calm (calm_hurried ref)
  | ended ref => exact h.calm (calm_ended ref)
  | signal ref => exact h.calm (calm_signal ref)
  | restart unread now => exact h.restart unread now

end waning

/-! ### The teardowns -/

structure Torn : Prop where
  began : ∀ t ∈ s.teardowns, t.run ≤ s.run ∧ (t.run = s.run → ∃ i, s.instances[t.ref]? = some i ∧ i.id = t.id ∧
    i.child = t.child ∧ i.stopOnce = true ∧ i.Torn)
  onced : ∀ (ref : Ref) (i : Instance), s.instances[ref]? = some i → i.ending ≠ .none → i.stopOnce = true
  distinct : (s.teardowns.map fun t => (t.run, t.id, t.child)).Nodup
  answered : ∀ (ref : Ref) (i : Instance), s.instances[ref]? = some i → i.probed = true → s.lastAnswer ref = some i.players
  roster : ∀ t ∈ s.teardowns, t.why = .emptied → t.roster = some 0

/-- An instance that moves on to `i'` keeps what a teardown rests on. -/
structure Kept (i i' : Instance) : Prop where
  spawned : i'.toSpawned = i.toSpawned
  probed : i'.probed = i.probed
  players : i'.players = i.players
  torn : i.stopOnce = true → i'.stopOnce = true ∧ (i.Torn → i'.Torn)
  onced : (i.ending ≠ .none → i.stopOnce = true) → i'.ending ≠ .none → i'.stopOnce = true

theorem Kept.refl (i : Instance) : Kept i i := ⟨rfl, rfl, rfl, fun h => ⟨h, fun ht => ht⟩, fun h => h⟩

/-- Where `i'` differs only in what no teardown rests on. -/
theorem Kept.same {i i' : Instance} (hspawned : i'.toSpawned = i.toSpawned) (hprobed : i'.probed = i.probed)
    (hplayers : i'.players = i.players) (honce : i'.stopOnce = i.stopOnce) (hending : i'.ending = i.ending) : Kept i i' := by
  refine ⟨hspawned, hprobed, hplayers, fun h => ⟨honce.trans h, ?_⟩, ?_⟩
  · unfold Instance.Torn
    rw [hending]
    exact fun ht => ht
  · rw [honce, hending]
    exact fun h => h

theorem Kept.once (i : Instance) (ending : Ending) : Kept i (i.once ending) := by
  unfold Instance.once
  split_ifs with honce
  · exact Kept.refl i
  · exact ⟨rfl, rfl, rfl, fun h => absurd h honce, fun _ _ => rfl⟩

theorem Kept.trans {i i' i'' : Instance} (h : Kept i i') (h' : Kept i' i'') : Kept i i'' where
  spawned := h'.spawned.trans h.spawned
  probed := h'.probed.trans h.probed
  players := h'.players.trans h.players
  torn := fun honce => ⟨(h'.torn (h.torn honce).1).1, fun ht => (h'.torn (h.torn honce).1).2 ((h.torn honce).2 ht)⟩
  onced := fun honced => h'.onced (h.onced honced)

structure Mild (s s' : Box) : Prop where
  run : s'.run = s.run
  teardowns : s'.teardowns = s.teardowns
  answers : s'.answers = s.answers
  back : ∀ (ref : Ref) (i' : Instance), s'.instances[ref]? = some i' → (i'.ending = .none ∧ i'.probed = false) ∨
    ∃ i, s.instances[ref]? = some i ∧ Kept i i'
  forth : ∀ (ref : Ref) (i : Instance), s.instances[ref]? = some i → ∃ i', s'.instances[ref]? = some i' ∧ Kept i i'

section torn
variable {s} {s' : Box} {opts : Options}

theorem torn_new : new.Torn where
  began := fun _ h => by cases h
  onced := fun _ _ h => by cases h
  distinct := List.nodup_nil
  answered := fun _ _ h => by cases h
  roster := fun _ h => by cases h

theorem Torn.mild (h : s.Torn) (hm : s.Mild s') : s'.Torn where
  began := fun t ht => by
    rw [hm.teardowns] at ht
    obtain ⟨hle, hown⟩ := h.began t ht
    rw [hm.run]
    refine ⟨hle, ?_⟩
    intro hrun
    obtain ⟨i, hi, hid, hchild, honce, htorn⟩ := hown hrun
    obtain ⟨i', hi', hkept⟩ := hm.forth t.ref i hi
    refine ⟨i', hi', ?_, ?_, (hkept.torn honce).1, (hkept.torn honce).2 htorn⟩
    · rw [hkept.spawned]
      exact hid
    · rw [hkept.spawned]
      exact hchild
  onced := fun ref i' hi' hending => by
    rcases hm.back ref i' hi' with ⟨hnone, -⟩ | ⟨i, hi, hkept⟩
    · exact absurd hnone hending
    · exact hkept.onced (h.onced ref i hi) hending
  distinct := by
    rw [hm.teardowns]
    exact h.distinct
  answered := fun ref i' hi' hprobed => by
    rcases hm.back ref i' hi' with ⟨-, hnot⟩ | ⟨i, hi, hkept⟩
    · rw [hnot] at hprobed
      cases hprobed
    · rw [hkept.probed] at hprobed
      rw [hkept.players]
      unfold lastAnswer
      rw [hm.answers]
      exact h.answered ref i hi hprobed
  roster := by
    rw [hm.teardowns]
    exact h.roster

theorem mild_same (hrun : s'.run = s.run) (hteardowns : s'.teardowns = s.teardowns) (hanswers : s'.answers = s.answers)
    (hinstances : s'.instances = s.instances) : s.Mild s' where
  run := hrun
  teardowns := hteardowns
  answers := hanswers
  back := fun ref i' hi' => by
    rw [hinstances] at hi'
    exact .inr ⟨i', hi', Kept.refl i'⟩
  forth := fun ref i hi => by
    rw [hinstances]
    exact ⟨i, hi, Kept.refl i⟩

theorem Mild.refl (s : Box) : s.Mild s := mild_same rfl rfl rfl rfl

theorem get_update_forth {ref ref' : Ref} {f : Instance → Instance} {i : Instance} (hi : s.instances[ref']? = some i) :
    (s.update ref f).instances[ref']? = some (if ref = ref' then f i else i) := by
  unfold update
  rw [List.getElem?_modify, hi]
  rfl

theorem mild_update (ref : Ref) (f : Instance → Instance) (hf : ∀ i, s.instances[ref]? = some i → Kept i (f i))
    {disk : OrderedMap String Record} {issued : List ℕ} {stops : List Stop} {drains : List Drain} {probes : List Probe}
    {reapedChildren : List ℕ} :
    s.Mild { s.update ref f with
      disk := disk, issued := issued, stops := stops, drains := drains, probes := probes, reapedChildren := reapedChildren } where
  run := rfl
  teardowns := rfl
  answers := rfl
  back := fun ref' i' hi' => by
    obtain ⟨i, hi, hself, hother⟩ := get_update hi'
    refine .inr ⟨i, hi, ?_⟩
    by_cases heq : ref = ref'
    · subst heq
      rw [hself rfl]
      exact hf i hi
    · rw [hother heq]
      exact Kept.refl i
  forth := fun ref' i hi => by
    refine ⟨_, get_update_forth hi, ?_⟩
    split_ifs with heq
    · subst heq
      exact hf i hi
    · exact Kept.refl i

/-- A teardown is begun for an instance that none was begun for in this run. -/
theorem Torn.begin (h : s.Torn) (hw : s.Waning) {ref : Ref} {i : Instance} (hi : s.instances[ref]? = some i) {why : Why}
    (hnot : ¬ (i.stopOnce = true ∧ i.Torn)) (f : Instance → Instance) (hspawned : (f i).toSpawned = i.toSpawned)
    (hprobed : (f i).probed = i.probed) (hplayers : (f i).players = i.players) (honce : (f i).stopOnce = true)
    (htorn : (f i).Torn) (hroster : why = .emptied → s.lastAnswer ref = some 0) {stops : List Stop} :
    Torn { (s.begin ref i why).update ref f with stops := stops } where
  began := fun t ht => by
    rcases List.mem_append.mp ht with hold | hnew
    · obtain ⟨hle, hown⟩ := h.began t hold
      refine ⟨hle, ?_⟩
      intro hrun
      obtain ⟨j, hj, hid, hchild, honce', htorn'⟩ := hown hrun
      have hne : ref ≠ t.ref := by
        intro heq
        rw [← heq] at hj
        obtain rfl := Option.some.inj (hi.symm.trans hj)
        exact hnot ⟨honce', htorn'⟩
      refine ⟨j, ?_, hid, hchild, honce', htorn'⟩
      exact (get_update_forth (s := s.begin ref i why) hj).trans (congrArg some (if_neg hne))
    · obtain rfl := List.mem_singleton.mp hnew
      refine ⟨Nat.le_refl _, fun _ => ⟨f i, ?_, ?_, ?_, honce, htorn⟩⟩
      · exact (get_update_forth (s := s.begin ref i why) hi).trans (congrArg some (if_pos rfl))
      · rw [hspawned]
      · rw [hspawned]
  onced := fun ref' j' hj' hending => by
    obtain ⟨j, hj, hself, hother⟩ := get_update (s := s.begin ref i why) hj'
    by_cases heq : ref = ref'
    · subst heq
      obtain rfl := Option.some.inj (hi.symm.trans hj)
      rw [hself rfl]
      exact honce
    · rw [hother heq] at hending ⊢
      exact h.onced ref' j hj hending
  distinct := by
    dsimp only [update, Box.begin]
    rw [List.map_append, List.map_singleton]
    refine h.distinct.append (List.nodup_singleton _) ?_
    rintro key hold hnew
    obtain rfl := List.mem_singleton.mp hnew
    obtain ⟨t, ht, hkey⟩ := List.mem_map.mp hold
    obtain ⟨hrun, hid, hchild⟩ : t.run = s.run ∧ t.id = i.id ∧ t.child = i.child := by
      simpa using hkey
    obtain ⟨j, hj, hjid, hjchild, honce', htorn'⟩ := (h.began t ht).2 hrun
    have href := hw.single t.ref ref j i hj hi (hjid.trans hid) (hjchild.trans hchild)
    rw [href] at hj
    obtain rfl := Option.some.inj (hi.symm.trans hj)
    exact hnot ⟨honce', htorn'⟩
  answered := fun ref' j' hj' hprobed' => by
    obtain ⟨j, hj, hself, hother⟩ := get_update (s := s.begin ref i why) hj'
    by_cases heq : ref = ref'
    · subst heq
      obtain rfl := Option.some.inj (hi.symm.trans hj)
      rw [hself rfl] at hprobed' ⊢
      rw [hplayers]
      exact h.answered ref i hi (hprobed.symm.trans hprobed')
    · rw [hother heq] at hprobed' ⊢
      exact h.answered ref' j hj hprobed'
  roster := fun t ht hwhy => by
    rcases List.mem_append.mp ht with hold | hnew
    · exact h.roster t hold hwhy
    · obtain rfl := List.mem_singleton.mp hnew
      exact hroster hwhy

/-- `drainOnEmpty` hands over. -/
theorem Torn.tear (h : s.Torn) (hw : s.Waning) {ref : Ref} {i : Instance} (hi : s.instances[ref]? = some i) {since : ℤ}
    (hdraining : i.ending = .draining since) {why : Why} (hroster : why = .emptied → s.lastAnswer ref = some 0) :
    (s.tear ref i why).Torn := by
  have honce : i.stopOnce = true := h.onced ref i hi (by rw [hdraining]; exact fun hne => by cases hne)
  refine h.begin hw hi ?_ (fun i => { i with ending := .tearing }) rfl rfl rfl honce (.inl rfl) hroster
  rintro ⟨-, htorn⟩
  unfold Instance.Torn at htorn
  rw [hdraining] at htorn
  rcases htorn with htorn | htorn <;> cases htorn

theorem lastAnswer_concat (answers : List (Ref × ℤ)) (ref ref' : Ref) (players : ℤ) :
    (((answers ++ [(ref, players)]).filter fun a => a.1 = ref').getLast?).map Prod.snd =
      if ref = ref' then some players else ((answers.filter fun a => a.1 = ref').getLast?).map Prod.snd := by
  rw [List.filter_append]
  split_ifs with heq
  · simp [heq]
  · simp [heq]

theorem Torn.answer (h : s.Torn) (k : ℕ) (players : Option ℤ) : (s.answer opts k players).Torn := by
  unfold Box.answer
  cases s.probes[k]? with
  | none => exact h
  | some p =>
    dsimp only
    cases hi : s.instances[p.ref]? with
    | none => exact h
    | some i =>
      cases players with
      | none =>
        refine h.mild (mild_update p.ref (fun i => i.probe opts p.now none) ?_)
        intro j _
        unfold Instance.probe
        dsimp only
        split_ifs
        · exact Kept.refl j
        · exact Kept.refl j
        · exact Kept.same rfl rfl rfl rfl rfl
      | some players =>
        have hback : ∀ (ref : Ref) (i' : Instance), (s.update p.ref fun i => i.probe opts p.now (some players)).instances[ref]? = some i' →
            ∃ i, s.instances[ref]? = some i ∧ i'.stopOnce = i.stopOnce ∧ i'.ending = i.ending ∧
              (p.ref = ref → i'.players = players) ∧ (p.ref ≠ ref → i' = i) := by
          intro ref i' hi'
          obtain ⟨i, hi, hself, hother⟩ := get_update hi'
          refine ⟨i, hi, ?_⟩
          by_cases heq : p.ref = ref
          · rw [hself heq]
            exact ⟨rfl, rfl, fun _ => rfl, fun hne => absurd heq hne⟩
          · rw [hother heq]
            exact ⟨rfl, rfl, fun hsame => absurd hsame heq, fun _ => rfl⟩
        exact {
          began := fun t ht => by
            obtain ⟨hle, hown⟩ := h.began t ht
            refine ⟨hle, ?_⟩
            intro hrun
            obtain ⟨j, hj, hid, hchild, honce, htorn⟩ := hown hrun
            refine ⟨_, get_update_forth hj, ?_⟩
            split_ifs
            · exact ⟨hid, hchild, honce, htorn⟩
            · exact ⟨hid, hchild, honce, htorn⟩
          onced := fun ref i' hi' hending => by
            obtain ⟨i, hi, honce, hsame, -⟩ := hback ref i' hi'
            rw [hsame] at hending
            rw [honce]
            exact h.onced ref i hi hending
          distinct := h.distinct
          answered := fun ref i' hi' hprobed => by
            obtain ⟨i, hi, -, -, hself, hother⟩ := hback ref i' hi'
            refine (lastAnswer_concat s.answers p.ref ref players).trans ?_
            split_ifs with heq
            · rw [hself heq]
            · rw [hother heq] at hprobed ⊢
              exact h.answered ref i hi hprobed
          roster := h.roster }

theorem Torn.ask (h : s.Torn) (hw : s.Waning) (k : ℕ) : (s.ask k).Torn := by
  unfold Box.ask
  cases s.stops[k]? with
  | none => exact h
  | some stop =>
    dsimp only
    cases hi : s.instances[stop.ref]? with
    | none => exact h
    | some i =>
      have hkept : ∀ j : Instance, Kept j { j.once .tearing with hurry := true } := fun j =>
        (Kept.once j .tearing).trans (Kept.same rfl rfl rfl rfl rfl)
      dsimp only
      cases honce : i.stopOnce with
      | true => exact h.mild (mild_update stop.ref (fun j => { j.once .tearing with hurry := true }) (fun j _ => hkept j))
      | false =>
        have hnew : i.once .tearing = { i with stopOnce := true, ending := .tearing } := by
          unfold Instance.once
          rw [honce]
          rfl
        refine h.begin hw hi ?_ (fun j => { j.once .tearing with hurry := true }) (hkept i).spawned (hkept i).probed
          (hkept i).players ?_ ?_ (fun hwhy => by cases hwhy)
        · rw [honce]
          exact fun hne => by cases hne.1
        · dsimp only
          rw [hnew]
        · dsimp only [Instance.Torn]
          rw [hnew]
          exact .inl rfl

theorem Torn.tick (h : s.Torn) (hw : s.Waning) (ref : Ref) (now : ℤ) : (s.tick opts ref now).Torn := by
  unfold Box.tick
  cases hi : s.instances[ref]? with
  | none => exact h
  | some i =>
    dsimp only
    split
    · rename_i since hdraining
      split_ifs with hempty
      · refine h.tear hw hi hdraining ?_
        intro _
        unfold Instance.empty at hempty
        rw [Bool.and_eq_true, decide_eq_true_iff] at hempty
        rw [h.answered ref i hi hempty.1, hempty.2]
      · exact h.tear hw hi hdraining (fun hwhy => by cases hwhy)
      · exact h
    · exact h

theorem Torn.hurried (h : s.Torn) (hw : s.Waning) (ref : Ref) : (s.hurried ref).Torn := by
  unfold Box.hurried
  cases hi : s.instances[ref]? with
  | none => exact h
  | some i =>
    dsimp only
    split
    · rename_i since hdraining
      split_ifs
      · exact h.tear hw hi hdraining (fun hwhy => by cases hwhy)
      · exact h
    · exact h

theorem mild_ended (ref : Ref) : s.Mild (s.ended ref) := by
  unfold Box.ended
  cases hi : s.instances[ref]? with
  | none => exact .refl s
  | some i =>
    dsimp only
    split
    · rename_i since hdraining
      split_ifs
      · refine mild_update ref (fun i => { i with ending := .over }) ?_
        intro j hj
        obtain rfl := Option.some.inj (hi.symm.trans hj)
        exact ⟨rfl, rfl, rfl, fun honce => ⟨honce, fun _ => .inr rfl⟩,
          fun honced _ => honced (by rw [hdraining]; exact fun hne => by cases hne)⟩
      · exact .refl s
    · exact .refl s

theorem mild_signal (ref : Ref) : s.Mild (s.signal ref) := by
  unfold Box.signal
  cases hi : s.instances[ref]? with
  | none => exact .refl s
  | some i =>
    dsimp only
    split_ifs with htearing
    · refine mild_update ref
        (fun i => if i.done then { i with ending := .over } else { i.mark .draining with ending := .over }) ?_
      intro j hj
      obtain rfl := Option.some.inj (hi.symm.trans hj)
      have honced : (i.ending ≠ .none → i.stopOnce = true) → i.stopOnce = true := fun honced =>
        honced (by rw [htearing]; exact fun hne => by cases hne)
      dsimp only
      split_ifs
      · exact ⟨rfl, rfl, rfl, fun honce => ⟨honce, fun _ => .inr rfl⟩, fun h _ => honced h⟩
      · exact ⟨rfl, rfl, rfl, fun honce => ⟨honce, fun _ => .inr rfl⟩, fun h _ => honced h⟩
    · exact .refl s

theorem mild_mark (k : ℕ) : s.Mild (s.mark k) := by
  unfold Box.mark
  cases s.drains[k]? with
  | none => exact .refl s
  | some d =>
    dsimp only
    split
    · rename_i ref rest hstage htodo
      exact mild_update ref (fun i => (i.mark .draining).once (.draining d.at'))
        (fun i _ => (Kept.same rfl rfl rfl rfl rfl : Kept i (i.mark .draining)).trans (Kept.once _ _))
    · exact .refl s

theorem mild_finish (k : ℕ) (d : Drain) (i : Instance) (rest : List Ref) : s.Mild (s.finish k d i rest) := by
  unfold Box.finish
  by_cases hrest : rest = []
  · rw [if_pos hrest]
    exact mild_same rfl rfl rfl rfl
  · rw [if_neg hrest]
    exact mild_same rfl rfl rfl rfl

theorem mild_read (k : ℕ) : s.Mild (s.read k) := by
  unfold Box.read
  cases s.drains[k]? with
  | none => exact .refl s
  | some d =>
    dsimp only
    split
    · rename_i ref rest hstage htodo
      cases s.instances[ref]? with
      | none => exact .refl s
      | some i =>
        dsimp only
        cases s.disk.get i.id with
        | none => exact mild_finish k d i rest
        | some rec =>
          dsimp only
          split_ifs
          · exact mild_finish k d i rest
          · exact mild_same rfl rfl rfl rfl
    · exact .refl s

theorem Torn.write (h : s.Torn) (k : ℕ) : (s.write k).Torn := by
  unfold Box.write
  cases s.drains[k]? with
  | none => exact h
  | some d =>
    dsimp only
    split
    · rename_i rec ref rest hstage htodo
      cases s.instances[ref]? with
      | none => exact h
      | some i =>
        have hput : s.Mild { s with disk := s.disk.set rec.instanceID { rec with drainingSince := some d.at' } } :=
          mild_same rfl rfl rfl rfl
        exact (h.mild hput).mild (mild_finish k d i rest)
    · exact h

theorem mild_start (req : InstanceStart) (offers : List (Option ℕ)) (forked : Option ℕ) (now : ℤ) :
    s.Mild (s.start opts req offers forked now) := by
  unfold Box.start
  split_ifs
  · exact .refl s
  · exact .refl s
  · exact .refl s
  · cases take s.issued portAttempts offers with
    | none => exact .refl s
    | some port =>
      cases forked with
      | none => exact mild_same rfl rfl rfl rfl
      | some pid =>
        dsimp only
        split_ifs
        · exact .refl s
        · refine ⟨rfl, rfl, rfl, ?_, ?_⟩
          · intro ref i' hi'
            rcases get_append hi' with hold | ⟨-, rfl⟩
            · exact .inr ⟨i', hold, Kept.refl i'⟩
            · exact .inl ⟨rfl, rfl⟩
          · intro ref i hi
            exact ⟨i, (List.getElem?_append_left (List.getElem?_eq_some_iff.mp hi).1).trans hi, Kept.refl i⟩

theorem mild_record : s.Mild s.record := by
  unfold Box.record
  cases s.starting with
  | none => exact .refl s
  | some ref =>
    dsimp only
    cases s.instances[ref]? with
    | none => exact .refl s
    | some i => exact mild_same rfl rfl rfl rfl

theorem mild_note (ref : Ref) (now : ℤ) : s.Mild (s.note ref now) := by
  unfold Box.note
  cases s.instances[ref]? with
  | none => exact .refl s
  | some i =>
    dsimp only
    split_ifs
    · exact mild_update ref (fun i => { i with exited := true, endedAt := now, state := .unhealthy, reaped := .noted })
        (fun _ _ => Kept.same rfl rfl rfl rfl rfl)
    · exact .refl s

theorem mild_release (ref : Ref) : s.Mild (s.release ref) := by
  unfold Box.release
  cases s.instances[ref]? with
  | none => exact .refl s
  | some i =>
    dsimp only
    split_ifs
    · exact mild_update ref (fun i => { i with reaped := .released }) (fun _ _ => Kept.same rfl rfl rfl rfl rfl)
    · exact .refl s

theorem mild_drop (ref : Ref) : s.Mild (s.drop ref) := by
  unfold Box.drop
  cases s.instances[ref]? with
  | none => exact .refl s
  | some i =>
    dsimp only
    split_ifs
    · exact mild_update ref (fun i => { i with reaped := .dropped }) (fun _ _ => Kept.same rfl rfl rfl rfl rfl)
    · exact .refl s

theorem mild_probe (ref : Ref) (now : ℤ) : s.Mild (s.probe ref now) := by
  unfold Box.probe
  cases s.instances[ref]? with
  | none => exact .refl s
  | some i =>
    dsimp only
    split_ifs
    · exact mild_update ref (fun i => i.mark .unhealthy) (fun _ _ => Kept.same rfl rfl rfl rfl rfl)
    · exact mild_same rfl rfl rfl rfl

theorem mild_stop (id : String) : s.Mild (s.stop id) := by
  unfold Box.stop
  split_ifs
  · exact .refl s
  · cases s.held.get id with
    | none => exact .refl s
    | some ref => exact mild_same rfl rfl rfl rfl

theorem mild_stopped (k : ℕ) : s.Mild (s.stopped k) := by
  unfold Box.stopped
  cases s.stops[k]? with
  | none => exact .refl s
  | some stop =>
    dsimp only
    split_ifs <;> exact mild_same rfl rfl rfl rfl

theorem mild_redeploy (gameID : String) (at' : ℤ) : s.Mild (s.redeploy gameID at') := by
  unfold Box.redeploy
  split_ifs <;> exact mild_same rfl rfl rfl rfl

theorem mild_sweep (now : ℤ) : s.Mild (s.sweep opts now) := by
  unfold Box.sweep
  split_ifs <;> exact mild_same rfl rfl rfl rfl

theorem adopted_once (rec : Record) (c : ℕ) (now : ℤ) : (Box.adopted rec c now).probed = false ∧
    ((Box.adopted rec c now).ending ≠ .none → (Box.adopted rec c now).stopOnce = true) := by
  unfold Box.adopted
  dsimp only
  split
  · exact ⟨rfl, fun hne => absurd rfl hne⟩
  · exact ⟨rfl, fun _ => rfl⟩

/-- The teardowns of earlier runs are those of earlier runs. -/
theorem Torn.restart (h : s.Torn) (hw : s.Waning) (unread : ℕ → Bool) (now : ℤ) : (s.restart unread now).Torn := by
  have ht := hw.takingBack unread now
  exact {
    began := fun t hmem => by
      rw [ht.teardowns] at hmem
      have hle := (h.began t hmem).1
      rw [ht.run]
      exact ⟨Nat.le_succ_of_le hle, fun heq => absurd hle (by omega)⟩
    onced := fun ref i hi => by
      obtain ⟨rec, c, -, -, -, rfl⟩ := ht.ofRecord ref i hi
      exact (adopted_once rec c now).2
    distinct := by
      rw [ht.teardowns]
      exact h.distinct
    answered := fun ref i hi hprobed => by
      obtain ⟨rec, c, -, -, -, rfl⟩ := ht.ofRecord ref i hi
      rw [(adopted_once rec c now).1] at hprobed
      cases hprobed
    roster := by
      rw [ht.teardowns]
      exact h.roster }

theorem Torn.step (h : s.Torn) (hw : s.Waning) (e : Event) : (Box.step opts s e).Torn := by
  cases e with
  | start req offers forked now => exact h.mild (mild_start req offers forked now)
  | record => exact h.mild mild_record
  | exit child => exact h.mild (mild_same rfl rfl rfl rfl)
  | note ref now => exact h.mild (mild_note ref now)
  | release ref => exact h.mild (mild_release ref)
  | drop ref => exact h.mild (mild_drop ref)
  | stop id => exact h.mild (mild_stop id)
  | ask k => exact h.ask hw k
  | stopped k => exact h.mild (mild_stopped k)
  | leave k => exact h.mild (mild_same rfl rfl rfl rfl)
  | redeploy gameID at' => exact h.mild (mild_redeploy gameID at')
  | mark k => exact h.mild (mild_mark k)
  | read k => exact h.mild (mild_read k)
  | write k => exact h.write k
  | probe ref now => exact h.mild (mild_probe ref now)
  | answer k players => exact h.answer k players
  | sweep now => exact h.mild (mild_sweep now)
  | tick ref now => exact h.tick hw ref now
  | hurried ref => exact h.hurried hw ref
  | ended ref => exact h.mild (mild_ended ref)
  | signal ref => exact h.mild (mild_signal ref)
  | restart unread now => exact h.restart hw unread now

end torn

/-! ### What is reported, and what is torn down -/

/-- A world a `Redeploy` returned is reported draining or not at all. -/
def ReportedDraining : Prop := ∀ i ∈ s.reported, (i.id, i.child) ∈ s.returned → i.view.state = .draining

/-- No teardown was begun beside another. -/
def TornOnce : Prop := (s.teardowns.map fun t => (t.id, t.child)).Nodup

/-- No teardown was begun beside another of the same run of the agent. -/
def TornOnceARun : Prop := (s.teardowns.map fun t => (t.run, t.id, t.child)).Nodup

/-- A world torn down for its roster was last answered to be empty. -/
def TornEmpty : Prop := ∀ t ∈ s.teardowns, t.why = .emptied → t.roster = some 0

/-- In every state of every run a drained world is reported draining or not at all, is torn down at most
once by each run of the agent, and for its roster only once that was answered to be empty. -/
theorem drained_not_offered (opts : Options) (es : List Event) :
    (exec (step opts) new es).ReportedDraining ∧ (exec (step opts) new es).TornOnceARun ∧ (exec (step opts) new es).TornEmpty := by
  have hstep : ∀ s e, (Waning s ∧ Torn s) → (Waning (step opts s e) ∧ Torn (step opts s e)) :=
    fun s e h => ⟨h.1.step e, h.2.step h.1 e⟩
  obtain ⟨hwaning, htorn⟩ := exec_invariant hstep ⟨waning_new, torn_new⟩ es
  refine ⟨?_, htorn.distinct, htorn.roster⟩
  intro i hi hreturned
  obtain ⟨hheld, hlive⟩ := List.mem_filter.mp hi
  obtain ⟨ref, -, hget⟩ := List.mem_filterMap.mp hheld
  rcases hwaning.marked ref i hget (.inl hreturned) with hstate | hexited
  · exact hstate
  · unfold Instance.done at hlive
    rw [hexited] at hlive
    cases hlive

/-- A drained world is torn down for its roster; the agent restarts while the process is still saving, takes
it back draining, and tears it down again. -/
def tornTwice : List Event :=
  [.start ⟨"inst-a", "session-a", "game", 3⟩ [some 7000] (some 100) 0, .record, .redeploy "game" 5, .mark 0, .read 0, .write 0,
    .probe 0 6, .answer 0 (some 0), .tick 0 7, .signal 0, .restart (fun _ => false) 10, .probe 0 11, .answer 0 (some 0), .tick 0 12]

theorem tornTwice_again : ("inst-a", 0) ∈ (exec (step twoSlots) new tornTwice).returned ∧
    ¬ (exec (step twoSlots) new tornTwice).TornOnce := by
  unfold TornOnce
  decide

end Box
end Supervisor
end Grove
