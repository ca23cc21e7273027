import Grove.Instances.Supervisor

/-! # Every live process is accounted for

What holds of the processes of a box in every state of a run: each is held by one entry, its port is
issued and its record is on disk, and no two share a session or a port. -/

namespace Grove
namespace Supervisor
namespace Box

variable (s : Box)

/-- A process whose `Wait` has not returned. -/
def Live (c : ℕ) (child : Child) : Prop := s.children[c]? = some child ∧ child.running = true

/-- What `reap` reads and writes of an instance. -/
def reaping (ref : Ref) : Option Reaping := s.instances[ref]?.map Instance.toReaping

/-! ### The claim's notions -/

/-- `Accounted` of one process: the one entry that holds it, its port and its record.  The record of a
process is written by the `Start` that forked it, before it lets go of `r.mu`. -/
structure Held (opts : Options) : Prop where
  entry : ∀ c child, s.Live c child → ∃! id, ∃ ref i, s.held.get id = some ref ∧
    s.instances[ref]? = some i ∧ i.child = c
  ownId : ∀ c child, s.Live c child → ∃ ref i, s.held.get child.id = some ref ∧
    s.instances[ref]? = some i ∧ i.child = c
  issued : ∀ c child, s.Live c child → child.port ∈ s.issued
  written : ∀ c child, s.Live c child →
    (∀ ref i, s.starting = some ref → s.instances[ref]? = some i → i.child ≠ c) →
    ∃ rec, s.disk.get child.id = some rec ∧ rec.pid = child.pid
  apart : ∀ c c' child child', s.Live c child → s.Live c' child' → c ≠ c' → child.sessionID ≠ child'.sessionID ∧ child.port ≠ child'.port
  cap : s.children.countP Child.running ≤ opts.maxInstances
  gone : ∀ id rec, s.disk.get id = some rec → rec.child ∉ s.reapedChildren

/-- A late step finds under the id what its own process left there, a new start finds no live process
under its id, and a new run of the agent finds every live process written down, under a pid it can read
and that no other record names. -/
def InOrder : Event → Prop
  | .start req _ _ _ => s.sessionHeld req.sessionID = true ∨ ∀ child ∈ s.children, child.running = true → child.id ≠ req.instanceID
  | .drop ref => ∀ i ∈ s.instances[ref]?, ∀ rec ∈ s.disk.get i.id, rec.child = i.child
  | .stopped k => ∀ stop ∈ s.stops[k]?, ∀ ref ∈ s.held.get stop.id, ref = stop.ref
  | .write k => ∀ d ∈ s.drains[k]?, ∀ rec ∈ d.stage.inHand, (s.disk.get rec.instanceID).map Record.child = some rec.child
  | .restart unread _ => s.starting = none ∧ ∀ rec ∈ s.disk.values, ∀ c ∈ s.ownedBy rec.pid, unread rec.pid = false ∧ rec.child = c
  | _ => True

instance : ∀ e, Decidable (s.InOrder e)
  | .start req _ _ _ => inferInstanceAs
      (Decidable (s.sessionHeld req.sessionID = true ∨ ∀ child ∈ s.children, child.running = true → child.id ≠ req.instanceID))
  | .drop ref => inferInstanceAs
      (Decidable (∀ i ∈ s.instances[ref]?, ∀ rec ∈ s.disk.get i.id, rec.child = i.child))
  | .stopped k => inferInstanceAs
      (Decidable (∀ stop ∈ s.stops[k]?, ∀ ref ∈ s.held.get stop.id, ref = stop.ref))
  | .write k => inferInstanceAs (Decidable (∀ d ∈ s.drains[k]?, ∀ rec ∈ d.stage.inHand,
      (s.disk.get rec.instanceID).map Record.child = some rec.child))
  | .restart unread _ => inferInstanceAs (Decidable (s.starting = none ∧
      ∀ rec ∈ s.disk.values, ∀ c ∈ s.ownedBy rec.pid, unread rec.pid = false ∧ rec.child = c))
  | .record | .exit _ | .note _ _ | .release _ | .stop _ | .ask _ | .leave _ | .redeploy _ _ | .mark _ | .read _
  | .probe _ _ | .answer _ _ | .sweep _ | .tick _ _ | .hurried _ | .ended _ | .signal _ => .isTrue trivial

/-! ### The invariant -/

/-- A record is of a process of the box, under the process's own id. -/
def Names (rec : Record) : Prop :=
  ∃ c, s.children[rec.child]? = some c ∧ c.id = rec.instanceID ∧ c.sessionID = rec.sessionID ∧ c.port = rec.port ∧
    c.pid = rec.pid

structure Sound (opts : Options) : Prop where
  linked : ∀ ref i, s.reaping ref = some i → ∃ c, s.children[i.child]? = some c ∧ c.id = i.id ∧
    c.sessionID = i.sessionID ∧ c.port = i.port ∧ c.pid = i.pid
  single : ∀ ref ref' i i', s.reaping ref = some i → s.reaping ref' = some i' → i.child = i'.child → ref = ref'
  ended : ∀ ref i, s.reaping ref = some i → i.exited = true → s.childRunning i.child = false
  noted : ∀ ref i, s.reaping ref = some i → i.reaped ≠ .waiting → i.exited = true
  entry : ∀ id ref, s.held.get id = some ref → ∃ i, s.reaping ref = some i ∧ i.id = id
  holds : ∀ c child, s.Live c child →
    ∃ ref i, s.held.get child.id = some ref ∧ s.reaping ref = some i ∧ i.child = c
  issued : ∀ ref i, s.reaping ref = some i → (i.reaped = .waiting ∨ i.reaped = .noted) → i.port ∈ s.issued
  ports : ∀ ref ref' i i', s.reaping ref = some i → s.reaping ref' = some i' → (i.reaped = .waiting ∨ i.reaped = .noted) →
    (i'.reaped = .waiting ∨ i'.reaped = .noted) → i.port = i'.port → ref = ref'
  written : ∀ c child, s.Live c child →
    (∃ rec, s.disk.get child.id = some rec ∧ rec.child = c) ∨ ∃ ref i, s.starting = some ref ∧ s.reaping ref = some i ∧ i.child = c
  files : ∀ id rec, s.disk.get id = some rec → rec.instanceID = id ∧ s.Names rec
  drains : ∀ d ∈ s.drains, ∀ rec, d.stage = .write rec → s.Names rec
  stops : ∀ stop ∈ s.stops, ∃ i, s.reaping stop.ref = some i ∧ i.id = stop.id
  starting : ∀ ref, s.starting = some ref → ∃ i, s.reaping ref = some i ∧ i.reaped = .waiting ∧ s.held.get i.id = some ref
  pids : ∀ c c' child child', s.Live c child → s.Live c' child' → child.pid = child'.pid → c = c'
  sessions : ∀ c c' child child', s.Live c child → s.Live c' child' → child.sessionID = child'.sessionID → c = c'
  cap : s.children.countP Child.running ≤ opts.maxInstances
  gone : ∀ id rec, s.disk.get id = some rec → rec.child ∉ s.reapedChildren
  reaped : ∀ c ∈ s.reapedChildren, c < s.children.length ∧ s.childRunning c = false
  dropped : ∀ ref i, s.reaping ref = some i → i.child ∈ s.reapedChildren → i.reaped = .dropped

section sound
variable {s} {s' : Box} {opts : Options}

theorem childRunning_iff {c : ℕ} : s.childRunning c = true ↔ ∃ child, s.Live c child := by
  unfold childRunning Live
  cases s.children[c]? with
  | none | some => simp

theorem Live.running {c : ℕ} {child : Child} (hc : s.Live c child) : s.childRunning c = true :=
  childRunning_iff.mpr ⟨child, hc⟩

theorem reaping_of {ref : Ref} {i : Instance} (h : s.instances[ref]? = some i) : s.reaping ref = some i.toReaping := by
  unfold reaping
  rw [h]
  rfl

theorem of_reaping {ref : Ref} {r : Reaping} (h : s.reaping ref = some r) : ∃ i, s.instances[ref]? = some i ∧ i.toReaping = r :=
  Option.map_eq_some_iff.mp h

/-- A live process has not been noted. -/
theorem Sound.waiting (h : s.Sound opts) {ref : Ref} {i : Reaping} (hi : s.reaping ref = some i)
    (hrun : s.childRunning i.child = true) : i.exited = false ∧ i.reaped = .waiting := by
  have hexited : i.exited = false := by
    cases hval : i.exited with
    | false => rfl
    | true =>
      rw [h.ended ref i hi hval] at hrun
      cases hrun
  refine ⟨hexited, ?_⟩
  by_contra hne
  rw [h.noted ref i hi hne] at hexited
  cases hexited

theorem Sound.port_mem (h : s.Sound opts) {c : ℕ} {child : Child} (hc : s.Live c child) :
    child.port ∈ s.issued := by
  obtain ⟨ref, i, -, hi, rfl⟩ := h.holds c child hc
  obtain ⟨c', hc', -, -, hport, -⟩ := h.linked ref i hi
  obtain rfl := Option.some.inj (hc.1.symm.trans hc')
  rw [hport]
  exact h.issued ref i hi (.inl (h.waiting hi hc.running).2)

theorem Sound.ports_apart (h : s.Sound opts) {c c' : ℕ} {child child' : Child} (hc : s.Live c child) (hc' : s.Live c' child')
    (hport : child.port = child'.port) : c = c' := by
  obtain ⟨ref, i, -, hi, rfl⟩ := h.holds c child hc
  obtain ⟨ref', i', -, hi', rfl⟩ := h.holds c' child' hc'
  obtain ⟨own, hown, -, -, hownPort, -⟩ := h.linked ref i hi
  obtain rfl := Option.some.inj (hc.1.symm.trans hown)
  obtain ⟨own', hown', -, -, hownPort', -⟩ := h.linked ref' i' hi'
  obtain rfl := Option.some.inj (hc'.1.symm.trans hown')
  have href : ref = ref' := h.ports ref ref' i i' hi hi' (.inl (h.waiting hi hc.running).2)
    (.inl (h.waiting hi' hc'.running).2) (hownPort.symm.trans (hport.trans hownPort'))
  subst href
  rw [Option.some.inj (hi.symm.trans hi')]

theorem Sound.held (h : s.Sound opts) : s.Held opts where
  entry := by
    intro c child hc
    obtain ⟨ref, r, hheld, hr, rfl⟩ := h.holds c child hc
    obtain ⟨i, hi, rfl⟩ := of_reaping hr
    refine ⟨child.id, ⟨ref, i, hheld, hi, rfl⟩, ?_⟩
    rintro id ⟨ref', i', hheld', hi', hchild⟩
    obtain ⟨r', hr', hid⟩ := h.entry id ref' hheld'
    have heq := Option.some.inj ((reaping_of hi').symm.trans hr')
    obtain ⟨c', hc', hid', -⟩ := h.linked ref' r' hr'
    rw [← heq, hchild, hc.1] at hc'
    rw [← hid, ← hid', Option.some.inj hc']
  ownId := by
    intro c child hc
    obtain ⟨ref, r, hheld, hr, rfl⟩ := h.holds c child hc
    obtain ⟨i, hi, rfl⟩ := of_reaping hr
    exact ⟨ref, i, hheld, hi, rfl⟩
  issued := fun c child hc => h.port_mem hc
  written := by
    intro c child hc hstarting
    rcases h.written c child hc with ⟨rec, hrec, rfl⟩ | ⟨ref, r, href, hr, hown⟩
    · obtain ⟨-, own, hown, -, -, -, hpid⟩ := h.files child.id rec hrec
      refine ⟨rec, hrec, ?_⟩
      rw [← hpid, Option.some.inj (hc.1.symm.trans hown)]
    · obtain ⟨i, hi, rfl⟩ := of_reaping hr
      exact absurd hown (hstarting ref i href hi)
  apart := fun c c' child child' hc hc' hne =>
    ⟨fun hsession => hne (h.sessions c c' child child' hc hc' hsession), fun hport => hne (h.ports_apart hc hc' hport)⟩
  cap := h.cap
  gone := h.gone

theorem sound_new (opts : Options) : new.Sound opts where
  linked := fun _ _ h => by cases h
  single := fun _ _ _ _ h => by cases h
  ended := fun _ _ h => by cases h
  noted := fun _ _ h => by cases h
  entry := fun _ _ h => by cases h
  holds := fun _ _ h => by cases h.1
  issued := fun _ _ h => by cases h
  ports := fun _ _ _ _ h => by cases h
  written := fun _ _ h => by cases h.1
  files := fun _ _ h => by cases h
  drains := fun _ h => by cases h
  stops := fun _ h => by cases h
  starting := fun _ h => by cases h
  pids := fun _ _ _ _ h => by cases h.1
  sessions := fun _ _ _ _ h => by cases h.1
  cap := Nat.zero_le _
  gone := fun _ _ h => by cases h
  reaped := fun _ h => by cases h
  dropped := fun _ _ h => by cases h

/-! ### Steps that touch nothing of this -/

structure Quiet (s s' : Box) : Prop where
  children : s'.children = s.children
  disk : s'.disk = s.disk
  held : s'.held = s.held
  issued : s'.issued = s.issued
  starting : s'.starting = s.starting
  reapedChildren : s'.reapedChildren = s.reapedChildren
  reaping : ∀ ref, s'.reaping ref = s.reaping ref
  stops : ∀ stop ∈ s'.stops, stop ∈ s.stops ∨ ∃ i, s.reaping stop.ref = some i ∧ i.id = stop.id
  drains : ∀ d ∈ s'.drains, ∀ rec, d.stage = .write rec → d ∈ s.drains ∨ s.Names rec

theorem Sound.quiet (h : s.Sound opts) (hq : s.Quiet s') : s'.Sound opts := by
  obtain ⟨hchildren, hdisk, hheld, hissued, hstarting, hreaped, hreaping, hstops, hdrains⟩ := hq
  have hrunning : ∀ c, s'.childRunning c = s.childRunning c := by
    intro c
    unfold childRunning
    rw [hchildren]
  have hlive : ∀ c child, s'.Live c child = s.Live c child := by
    intro c child
    unfold Live
    rw [hchildren]
  have hnames : ∀ rec, s'.Names rec = s.Names rec := by
    intro rec
    unfold Names
    rw [hchildren]
  constructor <;> simp only [hchildren, hdisk, hheld, hissued, hstarting, hreaped, hreaping, hrunning, hlive, hnames]
  · exact h.linked
  · exact h.single
  · exact h.ended
  · exact h.noted
  · exact h.entry
  · exact h.holds
  · exact h.issued
  · exact h.ports
  · exact h.written
  · exact h.files
  · intro d hd rec hstage
    rcases hdrains d hd rec hstage with hold | hnew
    · exact h.drains d hold rec hstage
    · exact hnew
  · intro stop hstop
    rcases hstops stop hstop with hold | hnew
    · exact h.stops stop hold
    · exact hnew
  · exact h.starting
  · exact h.pids
  · exact h.sessions
  · exact h.cap
  · exact h.gone
  · exact h.reaped
  · exact h.dropped

/-- Setting what no reap reads. -/
theorem reaping_update (ref : Ref) {f : Instance → Instance} (hf : ∀ i, (f i).toReaping = i.toReaping) (ref' : Ref) :
    (s.update ref f).reaping ref' = s.reaping ref' := by
  unfold reaping update
  dsimp only
  rw [List.getElem?_modify]
  cases s.instances[ref']? with
  | none => rfl
  | some i =>
    simp only [Option.map_some]
    split_ifs
    · exact congrArg some (hf i)
    · rfl

theorem quiet_self : s.Quiet s := ⟨rfl, rfl, rfl, rfl, rfl, rfl, fun _ => rfl, fun _ h => .inl h, fun _ h _ _ => .inl h⟩

/-- Where only what the calls in progress are at is moved on. -/
theorem quiet_update (ref : Ref) {f : Instance → Instance} (hf : ∀ i, (f i).toReaping = i.toReaping) {stops : List Stop}
    {drains : List Drain} {probes : List Probe} {returned : List (String × ℕ)} {answers : List (Ref × ℤ)}
    {teardowns : List Teardown}
    (hstops : ∀ stop ∈ stops, stop ∈ s.stops ∨ ∃ i, s.reaping stop.ref = some i ∧ i.id = stop.id)
    (hdrains : ∀ d ∈ drains, ∀ rec, d.stage = .write rec → d ∈ s.drains ∨ s.Names rec) :
    s.Quiet { s.update ref f with
      stops := stops, drains := drains, probes := probes, returned := returned, answers := answers, teardowns := teardowns } :=
  ⟨rfl, rfl, rfl, rfl, rfl, rfl, reaping_update ref hf, hstops, hdrains⟩

theorem quiet_only {stops : List Stop} {drains : List Drain} {probes : List Probe} {returned : List (String × ℕ)}
    (hstops : ∀ stop ∈ stops, stop ∈ s.stops ∨ ∃ i, s.reaping stop.ref = some i ∧ i.id = stop.id)
    (hdrains : ∀ d ∈ drains, ∀ rec, d.stage = .write rec → d ∈ s.drains ∨ s.Names rec) :
    s.Quiet { s with stops := stops, drains := drains, probes := probes, returned := returned } :=
  ⟨rfl, rfl, rfl, rfl, rfl, rfl, fun _ => rfl, hstops, hdrains⟩

theorem once_reaping (i : Instance) (ending : Ending) : (i.once ending).toReaping = i.toReaping := by
  unfold Instance.once
  split_ifs <;> rfl

theorem probe_reaping (i : Instance) (now : ℤ) (players : Option ℤ) :
    (i.probe opts now players).toReaping = i.toReaping := by
  cases players with
  | some players => rfl
  | none =>
    simp only [Instance.probe]
    split_ifs <;> rfl

theorem quiet_tear (ref : Ref) (i : Instance) (why : Why) : s.Quiet (s.tear ref i why) :=
  quiet_update ref (f := fun i => { i with ending := .tearing }) (fun _ => rfl) (fun _ h => .inl h) (fun _ h _ _ => .inl h)

theorem quiet_stop (h : s.Sound opts) (id : String) : s.Quiet (s.stop id) := by
  unfold Box.stop
  split_ifs
  · exact quiet_self
  · cases hheld : s.held.get id with
    | none => exact quiet_self
    | some ref =>
      refine quiet_only ?_ (fun _ hd _ _ => .inl hd)
      intro stop hstop
      rcases List.mem_append.mp hstop with hold | hnew
      · exact .inl hold
      · obtain rfl := List.mem_singleton.mp hnew
        exact .inr (h.entry id ref hheld)

theorem quiet_ask (h : s.Sound opts) (k : ℕ) : s.Quiet (s.ask k) := by
  unfold Box.ask
  cases hstop : s.stops[k]? with
  | none => exact quiet_self
  | some stop =>
    dsimp only
    cases hi : s.instances[stop.ref]? with
    | none => exact quiet_self
    | some i =>
      have hstops : ∀ other ∈ s.stops.set k { stop with asked := true }, other ∈ s.stops ∨
          ∃ i, s.reaping other.ref = some i ∧ i.id = other.id := by
        intro other hother
        rcases List.mem_or_eq_of_mem_set hother with hold | rfl
        · exact .inl hold
        · exact .inr (h.stops stop (List.mem_of_getElem? hstop))
      have hf : ∀ j : Instance, ({ j.once .tearing with hurry := true } : Instance).toReaping = j.toReaping :=
        fun j => once_reaping j .tearing
      dsimp only
      cases i.stopOnce with
      | true | false => exact quiet_update stop.ref hf hstops (fun _ hd _ _ => .inl hd)

theorem quiet_redeploy (gameID : String) (at' : ℤ) : s.Quiet (s.redeploy gameID at') := by
  unfold Box.redeploy
  split_ifs
  · exact quiet_self
  · refine quiet_only (fun _ hs => .inl hs) ?_
    intro d hd rec hstage
    rcases List.mem_append.mp hd with hold | hnew
    · exact .inl hold
    · obtain rfl := List.mem_singleton.mp hnew
      cases hstage

theorem quiet_mark (k : ℕ) : s.Quiet (s.mark k) := by
  unfold Box.mark
  cases hd : s.drains[k]? with
  | none => exact quiet_self
  | some d =>
    dsimp only
    split
    · rename_i ref rest hstage htodo
      refine quiet_update ref (f := fun i => (i.mark .draining).once (.draining d.at')) (fun i => once_reaping _ _)
        (fun _ hs => .inl hs) ?_
      intro d' hd' rec hstage
      rcases List.mem_or_eq_of_mem_set hd' with hold | rfl
      · exact .inl hold
      · cases hstage
    · exact quiet_self

theorem quiet_finish (k : ℕ) (d : Drain) (i : Instance) (rest : List Ref) : s.Quiet (s.finish k d i rest) := by
  unfold Box.finish
  dsimp only
  split_ifs
  all_goals
    refine quiet_only (fun _ hs => .inl hs) ?_
    intro d' hd' rec hstage
  · exact .inl (List.mem_of_mem_eraseIdx hd')
  · exact .inl (List.mem_of_mem_eraseIdx hd')
  · rcases List.mem_or_eq_of_mem_set hd' with hold | rfl
    · exact .inl hold
    · cases hstage
  · rcases List.mem_or_eq_of_mem_set hd' with hold | rfl
    · exact .inl hold
    · cases hstage

theorem quiet_read (h : s.Sound opts) (k : ℕ) : s.Quiet (s.read k) := by
  unfold Box.read
  cases hd : s.drains[k]? with
  | none => exact quiet_self
  | some d =>
    dsimp only
    split
    · rename_i ref rest hstage htodo
      cases hi : s.instances[ref]? with
      | none => exact quiet_self
      | some i =>
        dsimp only
        cases hrec : s.disk.get i.id with
        | none => exact quiet_finish k d i rest
        | some rec =>
          dsimp only
          split_ifs
          · exact quiet_finish k d i rest
          · refine quiet_only (fun _ hs => .inl hs) ?_
            intro d' hd' rec' hstage'
            rcases List.mem_or_eq_of_mem_set hd' with hold | rfl
            · exact .inl hold
            · cases hstage'
              exact .inr (h.files i.id rec hrec).2
    · exact quiet_self

theorem quiet_probe (ref : Ref) (now : ℤ) : s.Quiet (s.probe ref now) := by
  unfold Box.probe
  cases s.instances[ref]? with
  | none => exact quiet_self
  | some i =>
    dsimp only
    split_ifs
    · exact quiet_update ref (f := fun i => i.mark .unhealthy) (fun _ => rfl) (fun _ hs => .inl hs) (fun _ hd _ _ => .inl hd)
    · exact quiet_only (fun _ hs => .inl hs) (fun _ hd _ _ => .inl hd)

theorem quiet_answer (k : ℕ) (players : Option ℤ) : s.Quiet (s.answer opts k players) := by
  unfold Box.answer
  cases s.probes[k]? with
  | none => exact quiet_self
  | some p =>
    dsimp only
    cases s.instances[p.ref]? with
    | none => exact quiet_self
    | some i =>
      exact quiet_update p.ref (fun _ => probe_reaping _ _ _) (fun _ hs => .inl hs) (fun _ hd _ _ => .inl hd)

theorem quiet_tick (ref : Ref) (now : ℤ) : s.Quiet (s.tick opts ref now) := by
  unfold Box.tick
  cases s.instances[ref]? with
  | none => exact quiet_self
  | some i =>
    dsimp only
    split
    · split_ifs
      · exact quiet_tear ref i _
      · exact quiet_tear ref i _
      · exact quiet_self
    · exact quiet_self

theorem quiet_hurried (ref : Ref) : s.Quiet (s.hurried ref) := by
  unfold Box.hurried
  cases s.instances[ref]? with
  | none => exact quiet_self
  | some i =>
    dsimp only
    split
    · split_ifs
      · exact quiet_tear ref i _
      · exact quiet_self
    · exact quiet_self

theorem quiet_ended (ref : Ref) : s.Quiet (s.ended ref) := by
  unfold Box.ended
  cases s.instances[ref]? with
  | none => exact quiet_self
  | some i =>
    dsimp only
    split
    · split_ifs
      · exact quiet_update ref (f := fun i => { i with ending := .over }) (fun _ => rfl) (fun _ hs => .inl hs)
          (fun _ hd _ _ => .inl hd)
      · exact quiet_self
    · exact quiet_self

theorem quiet_signal (ref : Ref) : s.Quiet (s.signal ref) := by
  unfold Box.signal
  cases s.instances[ref]? with
  | none => exact quiet_self
  | some i =>
    dsimp only
    split_ifs
    · refine quiet_update ref ?_ (fun _ hs => .inl hs) (fun _ hd _ _ => .inl hd)
      intro i
      split_ifs <;> rfl
    · exact quiet_self

theorem quiet_leave (k : ℕ) : s.Quiet { s with stops := s.stops.eraseIdx k } :=
  quiet_only (fun _ hs => .inl (List.mem_of_mem_eraseIdx hs)) (fun _ hd _ _ => .inl hd)

/-! ### A process ends -/

theorem countP_modify_le {α : Type} {p : α → Bool} {f : α → α} (hf : ∀ a, p (f a) = true → p a = true) :
    ∀ (l : List α) (k : ℕ), (l.modify k f).countP p ≤ l.countP p
  | [], k => by cases k <;> exact Nat.le_refl _
  | a :: l, 0 => by
    rw [List.modify_zero_cons, List.countP_cons, List.countP_cons]
    have := hf a
    split_ifs <;> simp_all
  | a :: l, k + 1 => by
    rw [List.modify_succ_cons, List.countP_cons, List.countP_cons]
    exact Nat.add_le_add_right (countP_modify_le hf l k) _

theorem get_exit (c c' : ℕ) : (s.exit c).children[c']? =
    (s.children[c']?).map fun child => if c = c' then { child with running := false } else child := by
  unfold exit
  dsimp only
  rw [List.getElem?_modify]
  cases s.children[c']? with
  | none => rfl
  | some child =>
    simp only [Option.map_some]
    split_ifs <;> rfl

theorem live_exit {c c' : ℕ} {child : Child} (h : (s.exit c).Live c' child) : s.Live c' child := by
  obtain ⟨hc, hrun⟩ := h
  rw [get_exit] at hc
  obtain ⟨child', hc', rfl⟩ := Option.map_eq_some_iff.mp hc
  split_ifs at hrun ⊢ with heq
  exact ⟨hc', hrun⟩

theorem childRunning_exit {c c' : ℕ} (h : s.childRunning c' = false) : (s.exit c).childRunning c' = false := by
  by_contra hne
  obtain ⟨child, hlive⟩ := childRunning_iff.mp (Bool.eq_true_of_not_eq_false hne)
  rw [(live_exit hlive).running] at h
  cases h

theorem Sound.exit (h : s.Sound opts) (c : ℕ) : (s.exit c).Sound opts := by
  have hkept : ∀ {c' : ℕ} {child : Child}, s.children[c']? = some child → ∃ child', (s.exit c).children[c']? = some child' ∧
      child'.id = child.id ∧ child'.sessionID = child.sessionID ∧ child'.port = child.port ∧ child'.pid = child.pid := by
    intro c' child hc'
    rw [get_exit, hc']
    refine ⟨_, rfl, ?_⟩
    split_ifs <;> exact ⟨rfl, rfl, rfl, rfl⟩
  have hnames : ∀ rec, s.Names rec → (s.exit c).Names rec := by
    rintro rec ⟨child, hchild, hid, hsession, hport, hpid⟩
    obtain ⟨child', hchild', hid', hsession', hport', hpid'⟩ := hkept hchild
    exact ⟨child', hchild', hid'.trans hid, hsession'.trans hsession, hport'.trans hport, hpid'.trans hpid⟩
  exact {
    linked := fun ref i hi => by
      obtain ⟨child, hchild, hid, hsession, hport, hpid⟩ := h.linked ref i hi
      obtain ⟨child', hchild', hid', hsession', hport', hpid'⟩ := hkept hchild
      exact ⟨child', hchild', hid'.trans hid, hsession'.trans hsession, hport'.trans hport, hpid'.trans hpid⟩
    single := h.single
    ended := fun ref i hi hexited => childRunning_exit (h.ended ref i hi hexited)
    noted := h.noted
    entry := h.entry
    holds := fun c' child hlive => h.holds c' child (live_exit hlive)
    issued := h.issued
    ports := h.ports
    written := fun c' child hlive => h.written c' child (live_exit hlive)
    files := fun id rec hrec => ⟨(h.files id rec hrec).1, hnames rec (h.files id rec hrec).2⟩
    drains := fun d hd rec hstage => hnames rec (h.drains d hd rec hstage)
    stops := h.stops
    starting := h.starting
    pids := fun c' c'' child child' hlive hlive' => h.pids c' c'' child child' (live_exit hlive) (live_exit hlive')
    sessions := fun c' c'' child child' hlive hlive' => h.sessions c' c'' child child' (live_exit hlive) (live_exit hlive')
    cap := (countP_modify_le (fun _ hf => by cases hf) s.children c).trans h.cap
    gone := h.gone
    reaped := fun c' hc' => by
      obtain ⟨hlt, hstopped⟩ := h.reaped c' hc'
      exact ⟨hlt.trans_eq (List.length_modify _ _ _).symm, childRunning_exit hstopped⟩
    dropped := h.dropped }

/-! ### A process is reaped -/

theorem reaping_reap (ref : Ref) {f : Instance → Instance} {g : Reaping → Reaping}
    (hf : ∀ i, (f i).toReaping = g i.toReaping) (ref' : Ref) :
    (s.update ref f).reaping ref' = (s.reaping ref').map fun r => if ref = ref' then g r else r := by
  unfold reaping update
  dsimp only
  rw [List.getElem?_modify]
  cases s.instances[ref']? with
  | none => rfl
  | some i =>
    simp only [Option.map_some]
    split_ifs
    · exact congrArg some (hf i)
    · rfl

/-- A step of `reap`: no instance becomes another, nothing is held or let go, and at most a record that is
of no live process goes from the disk. -/
theorem Sound.reap (h : s.Sound opts) (hchildren : s'.children = s.children) (hheld : s'.held = s.held)
    (hstarting : s'.starting = s.starting) (hstops : s'.stops = s.stops) (hdrains : s'.drains = s.drains)
    (hback : ∀ ref r', s'.reaping ref = some r' → ∃ r, s.reaping ref = some r ∧ r'.toSpawned = r.toSpawned)
    (hforth : ∀ ref r, s.reaping ref = some r → ∃ r', s'.reaping ref = some r' ∧ r'.toSpawned = r.toSpawned ∧
      (s.starting = some ref → r' = r))
    (hdisk : ∀ id rec, s'.disk.get id = some rec → s.disk.get id = some rec)
    (hkept : ∀ c child rec, s.Live c child → s.disk.get child.id = some rec → rec.child = c → s'.disk.get child.id = some rec)
    (hended : ∀ ref i, s'.reaping ref = some i → i.exited = true → s.childRunning i.child = false)
    (hnoted : ∀ ref i, s'.reaping ref = some i → i.reaped ≠ .waiting → i.exited = true)
    (hunreleased : ∀ ref i, s'.reaping ref = some i → (i.reaped = .waiting ∨ i.reaped = .noted) → i.port ∈ s'.issued ∧
      ∃ r, s.reaping ref = some r ∧ (r.reaped = .waiting ∨ r.reaped = .noted))
    (hgone : ∀ id rec, s'.disk.get id = some rec → rec.child ∉ s'.reapedChildren)
    (hreaped : ∀ c ∈ s'.reapedChildren, c < s.children.length ∧ s.childRunning c = false)
    (hdropped : ∀ ref i, s'.reaping ref = some i → i.child ∈ s'.reapedChildren → i.reaped = .dropped) : s'.Sound opts := by
  have hrunning : ∀ c, s'.childRunning c = s.childRunning c := by
    intro c
    unfold childRunning
    rw [hchildren]
  have hlive : ∀ c child, s'.Live c child = s.Live c child := by
    intro c child
    unfold Live
    rw [hchildren]
  have hnames : ∀ rec, s'.Names rec = s.Names rec := by
    intro rec
    unfold Names
    rw [hchildren]
  have hown : ∀ {ref : Ref} {r : Reaping}, s.reaping ref = some r → ∃ r', s'.reaping ref = some r' ∧ r'.id = r.id ∧ r'.child = r.child := by
    intro ref r hr
    obtain ⟨r', hr', hspawned, -⟩ := hforth ref r hr
    exact ⟨r', hr', congrArg Spawned.id hspawned, congrArg Spawned.child hspawned⟩
  constructor <;> try simp only [hchildren, hheld, hstarting, hstops, hdrains, hrunning, hlive, hnames]
  · intro ref r' hr'
    obtain ⟨r, hr, hspawned⟩ := hback ref r' hr'
    rw [hspawned]
    exact h.linked ref r hr
  · intro ref ref' i i' hi hi' hchild
    obtain ⟨r, hr, hspawned⟩ := hback ref i hi
    obtain ⟨r', hr', hspawned'⟩ := hback ref' i' hi'
    rw [hspawned, hspawned'] at hchild
    exact h.single ref ref' r r' hr hr' hchild
  · exact hended
  · exact hnoted
  · intro id ref href
    obtain ⟨r, hr, hid⟩ := h.entry id ref href
    obtain ⟨r', hr', hid', -⟩ := hown hr
    exact ⟨r', hr', hid'.trans hid⟩
  · intro c child hc
    obtain ⟨ref, r, href, hr, hchild⟩ := h.holds c child hc
    obtain ⟨r', hr', -, hchild'⟩ := hown hr
    exact ⟨ref, r', href, hr', hchild'.trans hchild⟩
  · exact fun ref i hi hun => (hunreleased ref i hi hun).1
  · intro ref ref' i i' hi hi' hun hun' hport
    obtain ⟨-, r, hr, hold⟩ := hunreleased ref i hi hun
    obtain ⟨-, r', hr', hold'⟩ := hunreleased ref' i' hi' hun'
    obtain ⟨q, hq, hspawned⟩ := hback ref i hi
    obtain ⟨q', hq', hspawned'⟩ := hback ref' i' hi'
    obtain rfl := Option.some.inj (hr.symm.trans hq)
    obtain rfl := Option.some.inj (hr'.symm.trans hq')
    rw [hspawned, hspawned'] at hport
    exact h.ports ref ref' r r' hr hr' hold hold' hport
  · intro c child hc
    rcases h.written c child hc with ⟨rec, hrec, hchild⟩ | ⟨ref, r, href, hr, hchild⟩
    · exact .inl ⟨rec, hkept c child rec hc hrec hchild, hchild⟩
    · obtain ⟨r', hr', -, hchild'⟩ := hown hr
      exact .inr ⟨ref, r', href, hr', hchild'.trans hchild⟩
  · exact fun id rec hrec => h.files id rec (hdisk id rec hrec)
  · exact h.drains
  · intro stop hstop
    obtain ⟨r, hr, hid⟩ := h.stops stop hstop
    obtain ⟨r', hr', hid', -⟩ := hown hr
    exact ⟨r', hr', hid'.trans hid⟩
  · intro ref href
    obtain ⟨r, hr, hwaiting, hentry⟩ := h.starting ref href
    obtain ⟨r', hr', -, hsame⟩ := hforth ref r hr
    obtain rfl := hsame href
    exact ⟨r', hr', hwaiting, hentry⟩
  · exact h.pids
  · exact h.sessions
  · exact h.cap
  · exact hgone
  · exact hreaped
  · exact hdropped

/-- One of the three steps of `reap`, of an instance whose process has ended and that is not being started:
`g` is what the step makes of it. -/
theorem Sound.reapAt (h : s.Sound opts) {ref : Ref} {r : Reaping} (hr : s.reaping ref = some r)
    (f : Instance → Instance) (g : Reaping → Reaping) (hf : ∀ i, (f i).toReaping = g i.toReaping)
    (hg : ∀ r, (g r).toSpawned = r.toSpawned) {issued : List ℕ} {disk : OrderedMap String Record} {reapedChildren : List ℕ}
    (hnot : s.starting ≠ some ref) (hrun : s.childRunning r.child = false) (hexited : (g r).exited = true)
    (hun : ((g r).reaped = .waiting ∨ (g r).reaped = .noted) → (r.reaped = .waiting ∨ r.reaped = .noted))
    (hissued : ∀ ref' r', s.reaping ref' = some r' → (r'.reaped = .waiting ∨ r'.reaped = .noted) →
      (ref = ref' → (g r).reaped = .waiting ∨ (g r).reaped = .noted) → r'.port ∈ issued)
    (hdisk : ∀ id rec, disk.get id = some rec → s.disk.get id = some rec)
    (hkept : ∀ c child rec, s.Live c child → s.disk.get child.id = some rec → rec.child = c → disk.get child.id = some rec)
    (hgone : ∀ id rec, disk.get id = some rec → rec.child ∉ reapedChildren)
    (hreaped : ∀ c ∈ reapedChildren, c ∈ s.reapedChildren ∨ (c = r.child ∧ (g r).reaped = .dropped))
    (hundropped : r.reaped ≠ .dropped) :
    Sound { s.update ref f with issued := issued, disk := disk, reapedChildren := reapedChildren } opts := by
  have hback : ∀ {ref' : Ref} {r' : Reaping}, (s.update ref f).reaping ref' = some r' → ∃ q, s.reaping ref' = some q ∧
      r'.toSpawned = q.toSpawned ∧ (ref = ref' → q = r ∧ r' = g r) ∧ (ref ≠ ref' → r' = q) := by
    intro ref' r' hr'
    rw [reaping_reap ref hf] at hr'
    obtain ⟨q, hq, rfl⟩ := Option.map_eq_some_iff.mp hr'
    refine ⟨q, hq, ?_, ?_, fun hne => if_neg hne⟩
    · split_ifs
      · exact hg q
      · rfl
    · rintro rfl
      obtain rfl := Option.some.inj (hr.symm.trans hq)
      exact ⟨rfl, if_pos rfl⟩
  refine h.reap rfl rfl rfl rfl rfl ?_ ?_ hdisk hkept ?_ ?_ ?_ hgone ?_ ?_
  · intro ref' r' hr'
    obtain ⟨q, hq, hspawned, -⟩ := hback hr'
    exact ⟨q, hq, hspawned⟩
  · intro ref' q hq
    refine ⟨_, (reaping_reap ref hf ref').trans (congrArg _ hq), ?_, ?_⟩
    · dsimp only
      split_ifs
      · exact hg q
      · rfl
    · intro hstarting
      refine if_neg ?_
      rintro rfl
      exact hnot hstarting
  · intro ref' r' hr' hexited'
    obtain ⟨q, hq, hspawned, hself, hother⟩ := hback hr'
    rw [hspawned]
    by_cases heq : ref = ref'
    · rw [(hself heq).1]
      exact hrun
    · rw [hother heq] at hexited'
      exact h.ended ref' q hq hexited'
  · intro ref' r' hr' hreaped'
    obtain ⟨q, hq, -, hself, hother⟩ := hback hr'
    by_cases heq : ref = ref'
    · rw [(hself heq).2]
      exact hexited
    · rw [hother heq] at hreaped' ⊢
      exact h.noted ref' q hq hreaped'
  · intro ref' r' hr' hun'
    obtain ⟨q, hq, hspawned, hself, hother⟩ := hback hr'
    rw [hspawned]
    by_cases heq : ref = ref'
    · obtain ⟨rfl, rfl⟩ := hself heq
      exact ⟨hissued ref' q hq (hun hun') (fun _ => hun'), q, hq, hun hun'⟩
    · rw [hother heq] at hun'
      exact ⟨hissued ref' q hq hun' (fun hsame => absurd hsame heq), q, hq, hun'⟩
  · intro c hc
    rcases hreaped c hc with hold | ⟨rfl, -⟩
    · exact h.reaped c hold
    · obtain ⟨child, hchild, -⟩ := h.linked ref r hr
      exact ⟨(List.getElem?_eq_some_iff.mp hchild).1, hrun⟩
  · intro ref' r' hr' hchild
    obtain ⟨q, hq, hspawned, hself, hother⟩ := hback hr'
    rw [hspawned] at hchild
    by_cases heq : ref = ref'
    · obtain ⟨rfl, rfl⟩ := hself heq
      rcases hreaped q.child hchild with hold | ⟨-, hdropped⟩
      · exact absurd (h.dropped ref' q hq hold) hundropped
      · exact hdropped
    · rw [hother heq]
      rcases hreaped q.child hchild with hold | ⟨hown, -⟩
      · exact h.dropped ref' q hq hold
      · exact absurd (h.single ref' ref q r hq hr hown).symm heq

/-- An instance past `Wait` is not the one being started. -/
theorem Sound.not_starting (h : s.Sound opts) {ref : Ref} {r : Reaping} (hr : s.reaping ref = some r)
    (hreaped : r.reaped ≠ .waiting) : s.starting ≠ some ref := by
  intro hstarting
  obtain ⟨r', hr', hwaiting, -⟩ := h.starting ref hstarting
  rw [Option.some.inj (hr'.symm.trans hr)] at hwaiting
  exact hreaped hwaiting

theorem Sound.note (h : s.Sound opts) (ref : Ref) (now : ℤ) : (s.note ref now).Sound opts := by
  unfold Box.note
  cases hi : s.instances[ref]? with
  | none => exact h
  | some i =>
    dsimp only
    split_ifs with hcond
    · obtain ⟨hwaiting, hnot, hrun⟩ := hcond
      exact h.reapAt (reaping_of hi) _ (fun r => { r with exited := true, endedAt := now, reaped := .noted }) (fun _ => rfl)
        (fun _ => rfl) hnot hrun rfl (fun _ => .inl hwaiting) (fun ref' r' hr' hun _ => h.issued ref' r' hr' hun)
        (fun _ _ hrec => hrec) (fun _ _ _ _ hrec _ => hrec) h.gone (fun _ hc => .inl hc)
        (by rw [hwaiting]; exact fun hne => by cases hne)
    · exact h

theorem mem_release {issued : List ℕ} {port port' : ℕ} : port' ∈ Supervisor.release issued port ↔ port' ∈ issued ∧ port' ≠ port := by
  unfold Supervisor.release
  rw [List.mem_filter]
  simp

theorem Sound.release (h : s.Sound opts) (ref : Ref) : (s.release ref).Sound opts := by
  unfold Box.release
  cases hi : s.instances[ref]? with
  | none => exact h
  | some i =>
    dsimp only
    split_ifs with hnoted
    · have hr := reaping_of hi
      have hreaped : i.reaped ≠ .waiting := by
        rw [hnoted]
        exact fun hne => by cases hne
      have hexited := h.noted ref _ hr hreaped
      refine h.reapAt hr _ (fun r => { r with reaped := .released }) (fun _ => rfl) (fun _ => rfl) (h.not_starting hr hreaped)
        (h.ended ref _ hr hexited) hexited (fun hun => ?_) ?_ (fun _ _ hrec => hrec) (fun _ _ _ _ hrec _ => hrec) h.gone
        (fun _ hc => .inl hc) (by rw [hnoted]; exact fun hne => by cases hne)
      · rcases hun with hun | hun <;> cases hun
      · intro ref' r' hr' hun hother
        refine mem_release.mpr ⟨h.issued ref' r' hr' hun, ?_⟩
        intro hport
        have hsame := h.ports ref ref' _ r' hr hr' (.inr hnoted) hun hport.symm
        rcases hother hsame with hun' | hun' <;> cases hun'
    · exact h

theorem Sound.drop (h : s.Sound opts) (ref : Ref) (horder : s.InOrder (.drop ref)) : (s.drop ref).Sound opts := by
  unfold Box.drop
  cases hi : s.instances[ref]? with
  | none => exact h
  | some i =>
    dsimp only
    split_ifs with hreleased
    · have hr := reaping_of hi
      have hown : ∀ rec, s.disk.get i.id = some rec → rec.child = i.child := fun rec hrec => horder i hi rec hrec
      have hreaped : i.reaped ≠ .waiting := by
        rw [hreleased]
        exact fun hne => by cases hne
      have hexited := h.noted ref _ hr hreaped
      have hrun : s.childRunning i.child = false := h.ended ref _ hr hexited
      have hback : ∀ id rec, (s.disk.delete i.id).get id = some rec → id ≠ i.id ∧ s.disk.get id = some rec := by
        intro id rec hrec
        rw [OrderedMap.get_delete] at hrec
        split_ifs at hrec with hid
        exact ⟨hid, hrec⟩
      refine h.reapAt hr _ (fun r => { r with reaped := .dropped }) (fun _ => rfl) (fun _ => rfl) (h.not_starting hr hreaped)
        hrun hexited (fun hun => ?_) (fun ref' r' hr' hun _ => h.issued ref' r' hr' hun) (fun id rec hrec => (hback id rec hrec).2)
        ?_ ?_ ?_ (by rw [hreleased]; exact fun hne => by cases hne)
      · rcases hun with hun | hun <;> cases hun
      · -- A live process's record is not the one dropped, which is of a process that has ended.
        intro c child rec hlive hrec hchild
        rw [OrderedMap.get_delete, if_neg]
        · exact hrec
        · intro hid
          rw [hid] at hrec
          rw [← hchild, hown rec hrec] at hlive
          rw [hlive.running] at hrun
          cases hrun
      · intro id rec hrec
        obtain ⟨hid, hrec⟩ := hback id rec hrec
        rw [List.mem_append, List.mem_singleton, not_or]
        refine ⟨h.gone id rec hrec, ?_⟩
        intro hchild
        obtain ⟨hkey, child, hget, hname, -⟩ := h.files id rec hrec
        obtain ⟨child', hget', hname', -⟩ := h.linked ref _ hr
        rw [hchild] at hget
        obtain rfl := Option.some.inj (hget.symm.trans hget')
        exact hid (hkey.symm.trans (hname.symm.trans hname'))
      · intro c hc
        rcases List.mem_append.mp hc with hold | hnew
        · exact .inl hold
        · exact .inr ⟨List.mem_singleton.mp hnew, rfl⟩
    · exact h

/-! ### An entry is let go -/

theorem Sound.letGo (h : s.Sound opts) {held : OrderedMap String Ref} {stops : List Stop} (hfree : s.starting = none)
    (hback : ∀ id ref, held.get id = some ref → s.held.get id = some ref)
    (hkept : ∀ id ref i, s.held.get id = some ref → s.reaping ref = some i → i.exited = false → held.get id = some ref)
    (hstops : ∀ stop ∈ stops, stop ∈ s.stops) : Sound { s with held := held, stops := stops } opts :=
  { h with
    entry := fun id ref href => h.entry id ref (hback id ref href)
    holds := fun c child hlive => by
      obtain ⟨ref, i, href, hi, rfl⟩ := h.holds c child hlive
      exact ⟨ref, i, hkept child.id ref i href hi (h.waiting hi hlive.running).1, hi, rfl⟩
    stops := fun stop hstop => h.stops stop (hstops stop hstop)
    starting := fun ref href => by
      rw [show s.starting = some ref from href] at hfree
      cases hfree }

theorem Sound.stopped (h : s.Sound opts) (k : ℕ) (horder : s.InOrder (.stopped k)) : (s.stopped k).Sound opts := by
  unfold Box.stopped
  cases hstop : s.stops[k]? with
  | none => exact h
  | some stop =>
    dsimp only
    split_ifs with hcond
    · obtain ⟨hfree, -, hexited⟩ := hcond
      refine h.letGo (Option.isNone_iff_eq_none.mp hfree) ?_ ?_ (fun _ hs => List.mem_of_mem_eraseIdx hs)
      · intro id ref href
        rw [OrderedMap.get_delete] at href
        split_ifs at href
        exact href
      · intro id ref i href hi halive
        rw [OrderedMap.get_delete, if_neg]
        · exact href
        · rintro rfl
          obtain rfl := horder stop hstop ref href
          obtain ⟨i', hi', rfl⟩ := of_reaping hi
          rw [hi'] at hexited
          exact absurd (hexited.symm.trans halive) (by decide)
    · exact h

theorem Sound.sweep (h : s.Sound opts) (now : ℤ) : (s.sweep opts now).Sound opts := by
  unfold Box.sweep
  split_ifs with hfree
  · exact h
  · refine h.letGo (Option.not_isSome_iff_eq_none.mp hfree) ?_ ?_ (fun _ hs => hs)
    · intro id ref href
      rw [OrderedMap.get_filter] at href
      cases hget : s.held.get id with
      | none =>
        rw [hget] at href
        cases href
      | some ref' =>
        rw [hget] at href
        simp only [Option.filter] at href
        split_ifs at href
        exact href
    · intro id ref i href hi halive
      obtain ⟨i', hi', rfl⟩ := of_reaping hi
      rw [OrderedMap.get_filter, href]
      refine Option.filter_eq_some_iff.mpr ⟨rfl, ?_⟩
      rw [hi', Option.any_some, halive]
      rfl

/-! ### A process is written down -/

theorem Sound.put (h : s.Sound opts) (rec : Record) (starting : Option Ref)
    (hnames : s.Names rec) (hgone : rec.child ∉ s.reapedChildren)
    (hown : ∀ c child old, s.Live c child → s.disk.get child.id = some old → old.child = c → child.id = rec.instanceID →
      rec.child = c)
    (hstarting : ∀ ref, starting = some ref → s.starting = some ref)
    (hwritten : ∀ ref i, s.starting = some ref → s.reaping ref = some i → starting = some ref ∨ rec.child = i.child) :
    Sound { s with disk := s.disk.set rec.instanceID rec, starting := starting } opts :=
  { h with
    written := fun c child hlive => by
      dsimp only
      rw [OrderedMap.get_set]
      rcases h.written c child hlive with ⟨old, hold, hchild⟩ | ⟨ref, i, href, hi, rfl⟩
      · split_ifs with hid
        · exact .inl ⟨rec, rfl, hown c child old hlive hold hchild hid⟩
        · exact .inl ⟨old, hold, hchild⟩
      · rcases hwritten ref i href hi with hstill | hchild
        · exact .inr ⟨ref, i, hstill, hi, rfl⟩
        · obtain ⟨own, hget, hname, -⟩ := hnames
          rw [hchild] at hget
          obtain rfl := Option.some.inj (hget.symm.trans hlive.1)
          exact .inl ⟨rec, if_pos hname, hchild⟩
    files := fun id rec' hrec => by
      dsimp only at hrec
      rw [OrderedMap.get_set] at hrec
      split_ifs at hrec with hid
      · obtain rfl := Option.some.inj hrec
        exact ⟨hid.symm, hnames⟩
      · exact h.files id rec' hrec
    starting := fun ref href => h.starting ref (hstarting ref href)
    gone := fun id rec' hrec => by
      dsimp only at hrec
      rw [OrderedMap.get_set] at hrec
      split_ifs at hrec with hid
      · obtain rfl := Option.some.inj hrec
        exact hgone
      · exact h.gone id rec' hrec }

theorem Sound.record (h : s.Sound opts) : s.record.Sound opts := by
  unfold Box.record
  cases hstarting : s.starting with
  | none => exact h
  | some ref =>
    dsimp only
    cases hi : s.instances[ref]? with
    | none => exact h
    | some i =>
      have hr := reaping_of hi
      obtain ⟨child, hchild, hid, hsession, hport, hpid⟩ := h.linked ref _ hr
      obtain ⟨r, hr', hwaiting, hentry⟩ := h.starting ref hstarting
      obtain rfl := Option.some.inj (hr'.symm.trans hr)
      refine h.put (recordOf i) none ⟨child, hchild, hid, hsession, hport, hpid⟩ ?_ ?_ (fun _ hnone => by cases hnone) ?_
      · intro hreaped
        have hdropped := h.dropped ref _ hr hreaped
        rw [hwaiting] at hdropped
        cases hdropped
      · -- The entry under the id is the one being started, so no other live process has the id.
        intro c child' _ hlive _ _ hid'
        obtain ⟨ref', r', href', hr'', rfl⟩ := h.holds c child' hlive
        rw [hid'] at href'
        obtain rfl := Option.some.inj (hentry.symm.trans href')
        rw [Option.some.inj (hr''.symm.trans hr)]
        rfl
      · intro ref' r' href' hr''
        obtain rfl := Option.some.inj (hstarting.symm.trans href')
        rw [Option.some.inj (hr''.symm.trans hr)]
        exact .inr rfl

theorem Sound.write (h : s.Sound opts) (k : ℕ) (horder : s.InOrder (.write k)) : (s.write k).Sound opts := by
  unfold Box.write
  cases hd : s.drains[k]? with
  | none => exact h
  | some d =>
    dsimp only
    split
    · rename_i rec ref rest hstage htodo
      cases s.instances[ref]? with
      | none => exact h
      | some i =>
        dsimp only
        have hown := horder d hd rec (by rw [hstage]; rfl)
        obtain ⟨old, hold, hsame⟩ := Option.map_eq_some_iff.mp hown
        have hnames := h.drains d (List.mem_of_getElem? hd) rec hstage
        have hput := h.put { rec with drainingSince := some d.at' } s.starting hnames ?_ ?_ (fun _ href => href)
          (fun _ _ href _ => .inl href)
        · exact hput.quiet (quiet_finish k d i rest)
        · rw [show ({ rec with drainingSince := some d.at' } : Record).child = rec.child from rfl, ← hsame]
          exact h.gone _ old hold
        · -- What is stamped is still the record of the process that has the id.
          intro c child rec' _ hrec' hchild hid
          rw [hid] at hrec'
          obtain rfl := Option.some.inj (hold.symm.trans hrec')
          exact hsame.symm.trans hchild
    · exact h

/-! ### A process is forked -/

theorem take_not_mem {issued : List ℕ} {port : ℕ} : ∀ {attempts : ℕ} {offers : List (Option ℕ)},
    take issued attempts offers = some port → port ∉ issued
  | 0, _, h => by cases h
  | _ + 1, [], h => by cases h
  | _ + 1, none :: _, h => by cases h
  | attempts + 1, some offer :: offers, h => by
    rw [take] at h
    split_ifs at h with hissued
    · exact take_not_mem h
    · obtain rfl := Option.some.inj h
      exact hissued

theorem mem_hold {issued : List ℕ} {port port' : ℕ} : port' ∈ hold issued port ↔ port' ∈ issued ∨ port' = port := by
  unfold hold
  split_ifs with h
  · refine ⟨.inl, ?_⟩
    rintro (hmem | rfl)
    · exact hmem
    · exact h
  · rw [List.mem_append, List.mem_singleton]

/-- A live process is one of those the registry counts. -/
theorem Sound.mem_snapshot (h : s.Sound opts) {c : ℕ} {child : Child} (hlive : s.Live c child) :
    ∃ i ∈ s.snapshot, i.exited = false ∧ i.pid = child.pid ∧ i.sessionID = child.sessionID := by
  obtain ⟨ref, r, href, hr, rfl⟩ := h.holds c child hlive
  obtain ⟨own, hget, -, hsession, -, hpid⟩ := h.linked ref r hr
  obtain rfl := Option.some.inj (hget.symm.trans hlive.1)
  obtain ⟨i, hi, rfl⟩ := of_reaping hr
  refine ⟨i, List.mem_filterMap.mpr ⟨ref, ?_, hi⟩, (h.waiting hr hlive.running).1, hpid.symm, hsession.symm⟩
  exact List.mem_map.mpr ⟨(_, ref), s.held.mem_entries_iff.mpr href, rfl⟩

theorem Sound.live_le_running (h : s.Sound opts) : s.children.countP Child.running ≤ s.running := by
  have hdistinct : ((s.children.filter Child.running).map Child.pid).Nodup := by
    unfold List.Nodup
    rw [List.pairwise_map, List.pairwise_filter, List.pairwise_iff_getElem]
    intro c c' hc hc' hlt hrun hrun' hpid
    have heq := h.pids c c' _ _ ⟨List.getElem?_eq_getElem hc, hrun⟩ ⟨List.getElem?_eq_getElem hc', hrun'⟩ hpid
    omega
  have hsub : (s.children.filter Child.running).map Child.pid ⊆ (s.snapshot.filter fun i => !i.done).map fun i => i.pid := by
    intro pid hmem
    obtain ⟨child, hchild, rfl⟩ := List.mem_map.mp hmem
    obtain ⟨hchild, hrun⟩ := List.mem_filter.mp hchild
    obtain ⟨c, hc⟩ := List.getElem?_of_mem hchild
    obtain ⟨i, hi, hexited, hpid, -⟩ := h.mem_snapshot ⟨hc, hrun⟩
    refine List.mem_map.mpr ⟨i, List.mem_filter.mpr ⟨hi, ?_⟩, hpid⟩
    unfold Instance.done
    rw [hexited]
    rfl
  have hle := (List.subperm_of_subset hdistinct hsub).length_le
  rw [List.length_map, List.length_map, ← List.countP_eq_length_filter, ← List.countP_eq_length_filter] at hle
  exact hle

theorem reaping_append {i : Instance} {ref : Ref} {r : Reaping}
    (hr : ((s.instances ++ [i])[ref]?.map Instance.toReaping) = some r) :
    s.reaping ref = some r ∨ (ref = s.instances.length ∧ r = i.toReaping) := by
  obtain ⟨j, hj, rfl⟩ := Option.map_eq_some_iff.mp hr
  rcases lt_trichotomy ref s.instances.length with hlt | heq | hgt
  · rw [List.getElem?_append_left hlt] at hj
    exact .inl (reaping_of hj)
  · rw [heq, List.getElem?_concat_length] at hj
    exact .inr ⟨heq, congrArg _ (Option.some.inj hj).symm⟩
  · rw [List.getElem?_eq_none (by simp; omega)] at hj
    cases hj

theorem reaping_append_left {i : Instance} {ref : Ref} {r : Reaping} (hr : s.reaping ref = some r) :
    ((s.instances ++ [i])[ref]?.map Instance.toReaping) = some r := by
  obtain ⟨j, hj, rfl⟩ := of_reaping hr
  rw [List.getElem?_append_left (List.getElem?_eq_some_iff.mp hj).1, hj]
  rfl

theorem live_append {child child' : Child} {c : ℕ} (hc : (s.children ++ [child])[c]? = some child') :
    s.children[c]? = some child' ∨ (c = s.children.length ∧ child' = child) := by
  rcases lt_trichotomy c s.children.length with hlt | heq | hgt
  · rw [List.getElem?_append_left hlt] at hc
    exact .inl hc
  · rw [heq, List.getElem?_concat_length] at hc
    exact .inr ⟨heq, (Option.some.inj hc).symm⟩
  · rw [List.getElem?_eq_none (by simp; omega)] at hc
    cases hc

theorem Sound.fork (h : s.Sound opts) {req : InstanceStart} {port pid : ℕ} (now : ℤ) (hfree : s.starting = none)
    (hsession : s.sessionHeld req.sessionID = false) (hcap : s.running < opts.maxInstances) (hport : port ∉ s.issued)
    (hpid : s.ownedBy pid = none) (hid : ∀ child ∈ s.children, child.running = true → child.id ≠ req.instanceID) :
    (s.fork req port pid now).Sound opts := by
  have hget : ∀ {c : ℕ} {child : Child}, s.children[c]? = some child → (s.fork req port pid now).children[c]? = some child :=
    fun hc => (List.getElem?_append_left (List.getElem?_eq_some_iff.mp hc).1).trans hc
  have hlast : (s.fork req port pid now).children[s.children.length]? = some ⟨req.instanceID, req.sessionID, port, pid, true⟩ :=
    List.getElem?_concat_length
  have hlive : ∀ {c : ℕ} {child : Child}, (s.fork req port pid now).Live c child → s.Live c child ∨
      (c = s.children.length ∧ child = ⟨req.instanceID, req.sessionID, port, pid, true⟩) := by
    rintro c child ⟨hc, hrun⟩
    rcases live_append hc with hold | hnew
    · exact .inl ⟨hold, hrun⟩
    · exact .inr hnew
  have hlink : ∀ {ref : Ref} {r : Reaping}, s.reaping ref = some r → r.child < s.children.length := by
    intro ref r hr
    obtain ⟨child, hchild, -⟩ := h.linked ref r hr
    exact (List.getElem?_eq_some_iff.mp hchild).1
  have hnames : ∀ rec, s.Names rec → (s.fork req port pid now).Names rec := fun rec ⟨child, hchild, hown⟩ =>
    ⟨child, hget hchild, hown⟩
  have hrunning : ∀ c < s.children.length, s.childRunning c = false → (s.fork req port pid now).childRunning c = false := by
    intro c hlt hstopped
    unfold childRunning at hstopped ⊢
    rwa [show (s.fork req port pid now).children[c]? = s.children[c]? from List.getElem?_append_left hlt]
  have hfresh : ∀ {c : ℕ} {child : Child}, s.Live c child → child.pid ≠ pid := by
    intro c child hc heq
    have hno := List.findIdx?_eq_none_iff.mp hpid child (List.mem_of_getElem? hc.1)
    rw [hc.2, heq] at hno
    simp at hno
  have hother : ∀ {c : ℕ} {child : Child}, s.Live c child → child.sessionID ≠ req.sessionID := by
    intro c child hc heq
    obtain ⟨i, hi, hexited, -, hown⟩ := h.mem_snapshot hc
    have hno := List.any_eq_false.mp hsession i hi
    unfold Instance.done at hno
    rw [hown, heq, hexited] at hno
    simp at hno
  exact {
    linked := fun ref r hr => by
      rcases reaping_append hr with hold | ⟨rfl, rfl⟩
      · obtain ⟨child, hchild, hown⟩ := h.linked ref r hold
        exact ⟨child, hget hchild, hown⟩
      · exact ⟨_, hlast, rfl, rfl, rfl, rfl⟩
    single := fun ref ref' r r' hr hr' hchild => by
      rcases reaping_append hr with hold | ⟨rfl, rfl⟩
      · rcases reaping_append hr' with hold' | ⟨rfl, rfl⟩
        · exact h.single ref ref' r r' hold hold' hchild
        · exact absurd hchild (hlink hold).ne
      · rcases reaping_append hr' with hold' | ⟨rfl, rfl⟩
        · exact absurd hchild.symm (hlink hold').ne
        · rfl
    ended := fun ref r hr hexited => by
      rcases reaping_append hr with hold | ⟨rfl, rfl⟩
      · exact hrunning r.child (hlink hold) (h.ended ref r hold hexited)
      · cases hexited
    noted := fun ref r hr hreaped => by
      rcases reaping_append hr with hold | ⟨rfl, rfl⟩
      · exact h.noted ref r hold hreaped
      · exact absurd rfl hreaped
    entry := fun id ref href => by
      rw [show (s.fork req port pid now).held = s.held.set req.instanceID s.instances.length from rfl, OrderedMap.get_set] at href
      split_ifs at href with hkey
      · obtain rfl := Option.some.inj href
        exact ⟨_, congrArg (Option.map Instance.toReaping) List.getElem?_concat_length, hkey.symm⟩
      · obtain ⟨r, hr, hrid⟩ := h.entry id ref href
        exact ⟨r, reaping_append_left hr, hrid⟩
    holds := fun c child hc => by
      rw [show (s.fork req port pid now).held = s.held.set req.instanceID s.instances.length from rfl]
      rcases hlive hc with hold | ⟨rfl, rfl⟩
      · obtain ⟨ref, r, href, hr, hown⟩ := h.holds c child hold
        refine ⟨ref, r, ?_, reaping_append_left hr, hown⟩
        rw [OrderedMap.get_set_of_ne _ (hid child (List.mem_of_getElem? hold.1) hold.2)]
        exact href
      · exact ⟨_, _, OrderedMap.get_set_self _ _ _, congrArg (Option.map Instance.toReaping) List.getElem?_concat_length, rfl⟩
    issued := fun ref r hr hun => by
      refine mem_hold.mpr ?_
      rcases reaping_append hr with hold | ⟨rfl, rfl⟩
      · exact .inl (h.issued ref r hold hun)
      · exact .inr rfl
    ports := fun ref ref' r r' hr hr' hun hun' hsame => by
      rcases reaping_append hr with hold | ⟨rfl, rfl⟩
      · rcases reaping_append hr' with hold' | ⟨rfl, rfl⟩
        · exact h.ports ref ref' r r' hold hold' hun hun' hsame
        · have hmem := h.issued ref r hold hun
          rw [hsame] at hmem
          exact absurd hmem hport
      · rcases reaping_append hr' with hold' | ⟨rfl, rfl⟩
        · have hmem := h.issued ref' r' hold' hun'
          rw [← hsame] at hmem
          exact absurd hmem hport
        · rfl
    written := fun c child hc => by
      rcases hlive hc with hold | ⟨rfl, rfl⟩
      · rcases h.written c child hold with hrec | ⟨ref, r, href, -⟩
        · exact .inl hrec
        · rw [hfree] at href
          cases href
      · exact .inr ⟨_, _, rfl, congrArg (Option.map Instance.toReaping) List.getElem?_concat_length, rfl⟩
    files := fun id rec hrec => ⟨(h.files id rec hrec).1, hnames rec (h.files id rec hrec).2⟩
    drains := fun d hd rec hstage => hnames rec (h.drains d hd rec hstage)
    stops := fun stop hstop => by
      obtain ⟨r, hr, hown⟩ := h.stops stop hstop
      exact ⟨r, reaping_append_left hr, hown⟩
    starting := fun ref href => by
      obtain rfl := Option.some.inj href
      exact ⟨_, congrArg (Option.map Instance.toReaping) List.getElem?_concat_length, rfl, OrderedMap.get_set_self _ _ _⟩
    pids := fun c c' child child' hc hc' hsame => by
      rcases hlive hc with hold | ⟨rfl, rfl⟩
      · rcases hlive hc' with hold' | ⟨rfl, rfl⟩
        · exact h.pids c c' child child' hold hold' hsame
        · exact absurd hsame (hfresh hold)
      · rcases hlive hc' with hold' | ⟨rfl, rfl⟩
        · exact absurd hsame.symm (hfresh hold')
        · rfl
    sessions := fun c c' child child' hc hc' hsame => by
      rcases hlive hc with hold | ⟨rfl, rfl⟩
      · rcases hlive hc' with hold' | ⟨rfl, rfl⟩
        · exact h.sessions c c' child child' hold hold' hsame
        · exact absurd hsame (hother hold)
      · rcases hlive hc' with hold' | ⟨rfl, rfl⟩
        · exact absurd hsame.symm (hother hold')
        · rfl
    cap := by
      unfold Box.fork
      dsimp only
      rw [List.countP_append, List.countP_singleton, if_pos rfl]
      exact (Nat.succ_le_succ h.live_le_running).trans hcap
    gone := h.gone
    reaped := fun c hc => by
      obtain ⟨hlt, hstopped⟩ := h.reaped c hc
      exact ⟨hlt.trans_le (List.length_append ▸ Nat.le_add_right _ _), hrunning c hlt hstopped⟩
    dropped := fun ref r hr hmem => by
      rcases reaping_append hr with hold | ⟨rfl, rfl⟩
      · exact h.dropped ref r hold hmem
      · exact absurd (h.reaped _ hmem).1 (lt_irrefl _) }

theorem Sound.issue (h : s.Sound opts) {issued : List ℕ} (hissued : ∀ port ∈ s.issued, port ∈ issued) :
    Sound { s with issued := issued } opts :=
  { h with issued := fun ref r hr hun => hissued _ (h.issued ref r hr hun) }

theorem Sound.start (h : s.Sound opts) (req : InstanceStart) (offers : List (Option ℕ)) (forked : Option ℕ) (now : ℤ)
    (horder : s.InOrder (.start req offers forked now)) : (s.start opts req offers forked now).Sound opts := by
  unfold Box.start
  split_ifs with hfree hsession hcap
  · exact h
  · exact h
  · exact h
  · cases hport : take s.issued portAttempts offers with
    | none => exact h
    | some port =>
      cases forked with
      | none =>
        refine h.issue ?_
        intro port' hmem
        refine mem_release.mpr ⟨mem_hold.mpr (.inl hmem), ?_⟩
        rintro rfl
        exact take_not_mem hport hmem
      | some pid =>
        dsimp only
        split_ifs with hpid
        · exact h
        · have hid := horder.resolve_left hsession
          exact h.fork now (Option.not_isSome_iff_eq_none.mp hfree) (Bool.eq_false_of_not_eq_true hsession) (not_le.mp hcap)
            (take_not_mem hport) (Option.not_isSome_iff_eq_none.mp hpid) hid

/-! ### A new run of the agent -/

theorem ownedBy_live {pid c : ℕ} (h : s.ownedBy pid = some c) : ∃ child, s.Live c child ∧ child.pid = pid := by
  obtain ⟨hlt, hrun, -⟩ := List.findIdx?_eq_some_iff_getElem.mp h
  rw [Bool.and_eq_true, decide_eq_true_iff] at hrun
  exact ⟨_, ⟨List.getElem?_eq_getElem hlt, hrun.1⟩, hrun.2⟩

theorem ownedBy_none {pid : ℕ} (h : s.ownedBy pid = none) {c : ℕ} {child : Child} (hlive : s.Live c child) : child.pid ≠ pid := by
  intro heq
  have hno := List.findIdx?_eq_none_iff.mp h child (List.mem_of_getElem? hlive.1)
  rw [hlive.2, heq] at hno
  simp at hno

/-- What an instance adopted from a record is. -/
def spawnedOf (rec : Record) : Spawned :=
  ⟨rec.instanceID, rec.gameID, rec.sessionID, rec.revision, rec.port, rec.startedAt, rec.pid, rec.child⟩

theorem adopted_reaping (rec : Record) (now : ℤ) : (adopted rec rec.child now).toReaping = ⟨spawnedOf rec, false, 0, .waiting⟩ := by
  unfold adopted
  dsimp only
  split
  · rfl
  · rw [once_reaping]
    rfl

/-- Where `Adopt` is, with `todo` the records it has still to look at. -/
structure Adopting (todo : List Record) (s' : Box) : Prop where
  children : s'.children = s.children
  reapedChildren : s'.reapedChildren = s.reapedChildren
  starting : s'.starting = none
  stops : s'.stops = []
  drains : ∀ d ∈ s'.drains, d.stage = .read
  ofRecord : ∀ ref r, s'.reaping ref = some r → r.port ∈ s'.issued ∧ ∃ rec, s.disk.get rec.instanceID = some rec ∧
    rec ∉ todo ∧ r = ⟨spawnedOf rec, false, 0, .waiting⟩ ∧ s.childRunning rec.child = true
  single : ∀ ref ref' r r', s'.reaping ref = some r → s'.reaping ref' = some r' → r.id = r'.id → ref = ref'
  entry : ∀ id ref, s'.held.get id = some ref → ∃ r, s'.reaping ref = some r ∧ r.id = id
  adopted : ∀ rec, s.disk.get rec.instanceID = some rec → rec ∉ todo → s.childRunning rec.child = true →
    ∃ ref r, s'.held.get rec.instanceID = some ref ∧ s'.reaping ref = some r ∧ r.child = rec.child
  disk : ∀ id rec, s'.disk.get id = some rec → s.disk.get id = some rec
  kept : ∀ id rec, s.disk.get id = some rec → s.childRunning rec.child = true → s'.disk.get id = some rec

theorem adopting_forgetful : s.Adopting s.disk.values s.forgetful where
  children := rfl
  reapedChildren := rfl
  starting := rfl
  stops := rfl
  drains := fun _ hd => by cases hd
  ofRecord := fun _ _ hr => by cases hr
  single := fun _ _ _ _ hr => by cases hr
  entry := fun _ _ href => by cases href
  adopted := fun rec hrec hnot _ => by
    have hmem : rec ∈ s.disk.values := List.mem_map.mpr ⟨(rec.instanceID, rec), s.disk.mem_entries_iff.mpr hrec, rfl⟩
    exact absurd hmem hnot
  disk := fun _ _ hrec => hrec
  kept := fun _ _ hrec _ => hrec

theorem Adopting.adopt (h : s.Sound opts) {rec : Record} {todo : List Record} (ha : s.Adopting (rec :: todo) s')
    (hrec : s.disk.get rec.instanceID = some rec) (hnodup : rec ∉ todo) {unread : ℕ → Bool}
    (hread : ∀ c ∈ s.ownedBy rec.pid, unread rec.pid = false ∧ rec.child = c) (now : ℤ) :
    s.Adopting todo (s'.adopt unread now rec) := by
  have howned : s'.ownedBy rec.pid = s.ownedBy rec.pid := by
    unfold Box.ownedBy
    rw [ha.children]
  have hsame : ∀ rec', s.disk.get rec'.instanceID = some rec' → rec'.instanceID = rec.instanceID → rec' = rec := by
    intro rec' hrec' heq
    rw [heq] at hrec'
    exact Option.some.inj (hrec'.symm.trans hrec)
  -- A record whose process is live is adopted, so one that is not is of a process that has ended.
  have hdead : s.ownedBy rec.pid = none → s.childRunning rec.child = false := by
    intro hnone
    by_contra hne
    obtain ⟨child, hlive⟩ := childRunning_iff.mp (Bool.eq_true_of_not_eq_false hne)
    obtain ⟨-, own, hget, -, -, -, hpid⟩ := h.files _ rec hrec
    obtain rfl := Option.some.inj (hget.symm.trans hlive.1)
    exact ownedBy_none hnone hlive hpid
  have hadopted : s.childRunning rec.child = false → ∀ rec', s.disk.get rec'.instanceID = some rec' → rec' ∉ todo →
      s.childRunning rec'.child = true → rec' ∉ rec :: todo := by
    intro hstopped rec' _ hnot hrun hmem
    rcases List.mem_cons.mp hmem with rfl | hmem
    · rw [hstopped] at hrun
      cases hrun
    · exact hnot hmem
  unfold Box.adopt
  by_cases hunread : unread rec.pid = true
  · rw [if_pos hunread]
    have hnone : s.ownedBy rec.pid = none := by
      cases howner : s.ownedBy rec.pid with
      | none => rfl
      | some c =>
        rw [(hread c howner).1] at hunread
        cases hunread
    exact { ha with
      ofRecord := fun ref r hr => by
        obtain ⟨hport, rec', hrec', hnot, hown⟩ := ha.ofRecord ref r hr
        exact ⟨mem_hold.mpr (.inl hport), rec', hrec', fun hmem => hnot (List.mem_cons_of_mem _ hmem), hown⟩
      adopted := fun rec' hrec' hnot hrun => ha.adopted rec' hrec' (hadopted (hdead hnone) rec' hrec' hnot hrun) hrun }
  · rw [if_neg hunread, howned]
    cases howner : s.ownedBy rec.pid with
    | none =>
      exact { ha with
        ofRecord := fun ref r hr => by
          obtain ⟨hport, rec', hrec', hnot, hown⟩ := ha.ofRecord ref r hr
          exact ⟨hport, rec', hrec', fun hmem => hnot (List.mem_cons_of_mem _ hmem), hown⟩
        adopted := fun rec' hrec' hnot hrun => ha.adopted rec' hrec' (hadopted (hdead howner) rec' hrec' hnot hrun) hrun
        disk := fun id rec' hrec' => by
          dsimp only at hrec'
          rw [OrderedMap.get_delete] at hrec'
          split_ifs at hrec'
          exact ha.disk id rec' hrec'
        kept := fun id rec' hrec' hrun => by
          dsimp only
          rw [OrderedMap.get_delete, if_neg]
          · exact ha.kept id rec' hrec' hrun
          · rintro rfl
            rw [Option.some.inj (hrec'.symm.trans hrec), hdead howner] at hrun
            cases hrun }
    | some child =>
      obtain ⟨-, rfl⟩ := hread child howner
      obtain ⟨own, hlive, -⟩ := ownedBy_live howner
      have hnew : (s'.instances ++ [Box.adopted rec rec.child now])[s'.instances.length]?.map Instance.toReaping =
          some ⟨spawnedOf rec, false, 0, .waiting⟩ := by
        rw [List.getElem?_concat_length, Option.map_some, adopted_reaping]
      have hothers : ∀ ref r, s'.reaping ref = some r → r.id ≠ rec.instanceID := by
        intro ref r hr heq
        obtain ⟨-, rec', hrec', hnot, rfl, -⟩ := ha.ofRecord ref r hr
        exact hnot (hsame rec' hrec' heq ▸ List.mem_cons_self)
      dsimp only
      exact {
        children := ha.children
        reapedChildren := ha.reapedChildren
        starting := ha.starting
        stops := ha.stops
        drains := fun d hd => by
          dsimp only at hd
          split_ifs at hd
          · rcases List.mem_append.mp hd with hold | hnew'
            · exact ha.drains d hold
            · rw [List.mem_singleton.mp hnew']
          · exact ha.drains d hd
        ofRecord := fun ref r hr => by
          rcases reaping_append hr with hold | ⟨rfl, rfl⟩
          · obtain ⟨hport, rec', hrec', hnot, hown⟩ := ha.ofRecord ref r hold
            exact ⟨mem_hold.mpr (.inl hport), rec', hrec', fun hmem => hnot (List.mem_cons_of_mem _ hmem), hown⟩
          · rw [adopted_reaping]
            exact ⟨mem_hold.mpr (.inr rfl), rec, hrec, hnodup, rfl, hlive.running⟩
        single := fun ref ref' r r' hr hr' hid => by
          rcases reaping_append hr with hold | ⟨rfl, rfl⟩
          · rcases reaping_append hr' with hold' | ⟨rfl, rfl⟩
            · exact ha.single ref ref' r r' hold hold' hid
            · rw [adopted_reaping] at hid
              exact absurd hid (hothers ref r hold)
          · rcases reaping_append hr' with hold' | ⟨rfl, rfl⟩
            · rw [adopted_reaping] at hid
              exact absurd hid.symm (hothers ref' r' hold')
            · rfl
        entry := fun id ref href => by
          dsimp only at href
          rw [OrderedMap.get_set] at href
          split_ifs at href with hid
          · obtain rfl := Option.some.inj href
            exact ⟨_, hnew, hid.symm⟩
          · obtain ⟨r, hr, hown⟩ := ha.entry id ref href
            exact ⟨r, reaping_append_left hr, hown⟩
        adopted := fun rec' hrec' hnot hrun => by
          dsimp only
          by_cases heq : rec' = rec
          · subst heq
            exact ⟨_, _, OrderedMap.get_set_self _ _ _, hnew, rfl⟩
          · obtain ⟨ref, r, href, hr, hown⟩ := ha.adopted rec' hrec' (by
              rw [List.mem_cons, not_or]
              exact ⟨heq, hnot⟩) hrun
            refine ⟨ref, r, ?_, reaping_append_left hr, hown⟩
            rw [OrderedMap.get_set_of_ne _ (fun hid => heq (hsame rec' hrec' hid))]
            exact href
        disk := ha.disk
        kept := ha.kept }

theorem Adopting.foldl (h : s.Sound opts) {unread : ℕ → Bool} (now : ℤ) {todo : List Record} (ha : s.Adopting todo s')
    (hnodup : todo.Nodup) (hread : ∀ rec ∈ todo, s.disk.get rec.instanceID = some rec ∧
      ∀ c ∈ s.ownedBy rec.pid, unread rec.pid = false ∧ rec.child = c) :
    s.Adopting [] (todo.foldl (fun s' rec => s'.adopt unread now rec) s') := by
  induction todo generalizing s' with
  | nil => exact ha
  | cons rec todo ih =>
    obtain ⟨hnot, hnodup⟩ := List.nodup_cons.mp hnodup
    obtain ⟨hrec, hown⟩ := hread rec List.mem_cons_self
    exact ih (ha.adopt h hrec hnot hown now) hnodup (fun rec' hmem => hread rec' (List.mem_cons_of_mem _ hmem))

theorem Adopting.sound (h : s.Sound opts) (hfree : s.starting = none) (ha : s.Adopting [] s') : s'.Sound opts := by
  have hrunning : ∀ c, s'.childRunning c = s.childRunning c := by
    intro c
    unfold childRunning
    rw [ha.children]
  have hlive : ∀ c child, s'.Live c child = s.Live c child := by
    intro c child
    unfold Live
    rw [ha.children]
  have hnames : ∀ rec, s'.Names rec = s.Names rec := by
    intro rec
    unfold Names
    rw [ha.children]
  -- The instance of each record is of that record's process.
  have hchild : ∀ {ref ref' : Ref} {r r' : Reaping}, s'.reaping ref = some r → s'.reaping ref' = some r' → r.child = r'.child → ref = ref' := by
    intro ref ref' r r' hr hr' heq
    obtain ⟨-, rec, hrec, -, rfl, -⟩ := ha.ofRecord ref r hr
    obtain ⟨-, rec', hrec', -, rfl, -⟩ := ha.ofRecord ref' r' hr'
    obtain ⟨-, own, hget, hid, -⟩ := h.files _ rec hrec
    obtain ⟨-, own', hget', hid', -⟩ := h.files _ rec' hrec'
    rw [show rec.child = rec'.child from heq] at hget
    obtain rfl := Option.some.inj (hget.symm.trans hget')
    exact ha.single ref ref' _ _ hr hr' (hid.symm.trans hid')
  constructor <;> try simp only [ha.children, ha.reapedChildren, ha.starting, ha.stops, hrunning, hlive, hnames]
  · intro ref r hr
    obtain ⟨-, rec, hrec, -, rfl, -⟩ := ha.ofRecord ref r hr
    exact (h.files _ rec hrec).2
  · exact fun ref ref' r r' hr hr' heq => hchild hr hr' heq
  · intro ref r hr hexited
    obtain ⟨-, rec, -, -, rfl, -⟩ := ha.ofRecord ref r hr
    cases hexited
  · intro ref r hr hreaped
    obtain ⟨-, rec, -, -, rfl, -⟩ := ha.ofRecord ref r hr
    exact absurd rfl hreaped
  · exact ha.entry
  · intro c child hc
    rcases h.written c child hc with ⟨rec, hrec, rfl⟩ | ⟨ref, r, href, -⟩
    · obtain ⟨hkey, -⟩ := h.files _ rec hrec
      rw [← hkey] at hrec ⊢
      exact ha.adopted rec hrec List.not_mem_nil hc.running
    · rw [hfree] at href
      cases href
  · exact fun ref r hr _ => (ha.ofRecord ref r hr).1
  · intro ref ref' r r' hr hr' _ _ hport
    refine hchild hr hr' ?_
    obtain ⟨-, rec, hrec, -, rfl, hrun⟩ := ha.ofRecord ref r hr
    obtain ⟨-, rec', hrec', -, rfl, hrun'⟩ := ha.ofRecord ref' r' hr'
    obtain ⟨-, own, hget, -, -, hown, -⟩ := h.files _ rec hrec
    obtain ⟨-, own', hget', -, -, hown', -⟩ := h.files _ rec' hrec'
    obtain ⟨child, hc⟩ := childRunning_iff.mp hrun
    obtain ⟨child', hc'⟩ := childRunning_iff.mp hrun'
    obtain rfl := Option.some.inj (hget.symm.trans hc.1)
    obtain rfl := Option.some.inj (hget'.symm.trans hc'.1)
    exact h.ports_apart hc hc' (hown.trans (hport.trans hown'.symm))
  · intro c child hc
    rcases h.written c child hc with ⟨rec, hrec, rfl⟩ | ⟨ref, r, href, -⟩
    · exact .inl ⟨rec, ha.kept _ rec hrec hc.running, rfl⟩
    · rw [hfree] at href
      cases href
  · exact fun id rec hrec => h.files id rec (ha.disk id rec hrec)
  · intro d hd rec hstage
    rw [ha.drains d hd] at hstage
    cases hstage
  · exact fun _ hs => by cases hs
  · exact fun _ href => by cases href
  · exact h.pids
  · exact h.sessions
  · exact h.cap
  · exact fun id rec hrec => h.gone id rec (ha.disk id rec hrec)
  · exact h.reaped
  · intro ref r hr hmem
    obtain ⟨-, rec, -, -, rfl, hrun⟩ := ha.ofRecord ref r hr
    exact absurd ((h.reaped _ hmem).2.symm.trans hrun) (by decide)

theorem disk_values_get (hkeyed : ∀ id rec, s.disk.get id = some rec → rec.instanceID = id) :
    ∀ rec ∈ s.disk.values, s.disk.get rec.instanceID = some rec := by
  intro rec hmem
  obtain ⟨⟨id, rec'⟩, hentry, rfl⟩ := List.mem_map.mp hmem
  have hrec := s.disk.mem_entries_iff.mp hentry
  rw [hkeyed id rec' hrec]
  exact hrec

theorem disk_values_nodup (hkeyed : ∀ id rec, s.disk.get id = some rec → rec.instanceID = id) : s.disk.values.Nodup := by
  have hkeys : s.disk.values.map Record.instanceID = s.disk.keys := by
    unfold OrderedMap.values OrderedMap.keys
    rw [List.map_map]
    refine List.map_congr_left ?_
    intro e he
    exact hkeyed e.1 e.2 (s.disk.mem_entries_iff.mp he)
  exact List.Nodup.of_map _ (hkeys.symm ▸ s.disk.nodup : (s.disk.values.map Record.instanceID).Nodup)

theorem Sound.restart (h : s.Sound opts) (unread : ℕ → Bool) (now : ℤ) (horder : s.InOrder (.restart unread now)) :
    (s.restart unread now).Sound opts := by
  obtain ⟨hfree, hread⟩ := horder
  have hkeyed : ∀ id rec, s.disk.get id = some rec → rec.instanceID = id := fun id rec hrec => (h.files id rec hrec).1
  exact Adopting.sound h hfree (Adopting.foldl h now adopting_forgetful (disk_values_nodup hkeyed)
    (fun rec hmem => ⟨disk_values_get hkeyed rec hmem, hread rec hmem⟩))

theorem Sound.step (h : s.Sound opts) {e : Event} (horder : s.InOrder e) : (Box.step opts s e).Sound opts := by
  cases e with
  | start req offers forked now => exact h.start req offers forked now horder
  | record => exact h.record
  | exit child => exact h.exit child
  | note ref now => exact h.note ref now
  | release ref => exact h.release ref
  | drop ref => exact h.drop ref horder
  | stop id => exact h.quiet (quiet_stop h id)
  | ask k => exact h.quiet (quiet_ask h k)
  | stopped k => exact h.stopped k horder
  | leave k => exact h.quiet (quiet_leave k)
  | redeploy gameID at' => exact h.quiet (quiet_redeploy gameID at')
  | mark k => exact h.quiet (quiet_mark k)
  | read k => exact h.quiet (quiet_read h k)
  | write k => exact h.write k horder
  | probe ref now => exact h.quiet (quiet_probe ref now)
  | answer k players => exact h.quiet (quiet_answer k players)
  | sweep now => exact h.sweep now
  | tick ref now => exact h.quiet (quiet_tick ref now)
  | hurried ref => exact h.quiet (quiet_hurried ref)
  | ended ref => exact h.quiet (quiet_ended ref)
  | signal ref => exact h.quiet (quiet_signal ref)
  | restart unread now => exact h.restart unread now horder

end sound

/-- Where no late step meets another process under its id, every live process is accounted for in every
state of a run. -/
theorem children_accounted (opts : Options) (es : List Event) (h : Meets (step opts) InOrder new es) :
    (exec (step opts) new es).Held opts := by
  have hstep : ∀ s e, Sound s opts → InOrder s e → Sound (step opts s e) opts := fun s e hs horder => hs.step horder
  exact (Meets.invariant hstep (sound_new opts) h).held

def twoSlots : Options := ⟨2, 600, 20, 900⟩

/-- A world is put into drain, the agent restarts and takes it back, and ends it beside a world it starts. -/
def handover : List Event :=
  [.start ⟨"inst-a", "session-a", "game", 3⟩ [some 7000] (some 100) 0, .record, .redeploy "game" 5, .mark 0, .read 0, .write 0,
    .restart (fun _ => false) 10, .start ⟨"inst-b", "session-b", "game", 4⟩ [some 7000, some 7001] (some 101) 11, .record,
    .exit 0, .note 0 12, .release 0, .drop 0]

theorem children_accounted_handover :
    ∃ rec, (exec (step twoSlots) new handover).disk.get "inst-b" = some rec ∧ rec.pid = 101 :=
  (children_accounted twoSlots handover (by decide)).written 1 ⟨"inst-b", "session-b", 7001, 101, true⟩ ⟨by decide, rfl⟩
    (fun _ _ hstarting => by cases hstarting)

/-- A world ends, its start is retried under the same ids, and the reap of the process that ended then
drops the record of the one that took its place. -/
def retried : List Event :=
  [.start ⟨"inst-a", "session-a", "game", 3⟩ [some 7000] (some 100) 0, .record, .exit 0, .note 0 1,
    .start ⟨"inst-a", "session-a", "game", 3⟩ [some 7001] (some 101) 2, .record, .release 0, .drop 0]

theorem lateDrop_forgets : ¬ (exec (step twoSlots) new retried).Held twoSlots := by
  intro h
  obtain ⟨rec, hrec, -⟩ := h.written 1 ⟨"inst-a", "session-a", 7001, 101, true⟩ ⟨by decide, rfl⟩
    (fun _ _ hstarting => by cases hstarting)
  have hnone : (exec (step twoSlots) new retried).disk.get "inst-a" = none := by decide
  rw [hnone] at hrec
  cases hrec

end Box
end Supervisor
end Grove
