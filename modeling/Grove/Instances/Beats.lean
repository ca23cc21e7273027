import Grove.Instances.Supervisor

/-! # One beat among the calls of a box

`Beater.Body` of `internal/heartbeat/heartbeat.go` reads the registry twice: `Running` counts under the lock of
the registry, `Live` takes a snapshot under it and asks each instance of the snapshot afterwards.  Between any
two of these reads another goroutine of the agent may step.

An instance that is over stays over, and only a `Start` puts one into the registry.  So a beat lists no more
instances than it counts unless a `Start` comes between its two reads (`beats_consistent`,
`started_between_reads`). -/

namespace Grove
namespace Supervisor

open Fleet (InstanceReport HostHeartbeat HostId)

/-! ### The beater -/

inductive Beating where
  | idle
  /-- In `Running`, which holds `r.mu`: what it has still to look at. -/
  | counting (todo : List (String × Ref)) (live : ℕ)
  | counted (running : ℕ)
  /-- In `Live`, after the snapshot: what it has still to ask, and the instance it found running. -/
  | listing (running : ℕ) (todo : List (String × Ref)) (found : Option (String × Ref)) (out : List InstanceReport)

def Beating.isCounted : Beating → Bool
  | .counted _ => true
  | .idle | .counting _ _ | .listing _ _ _ _ => false

/-- Before the snapshot. -/
def Beating.isReading : Beating → Bool
  | .counting _ _ | .counted _ => true
  | .idle | .listing _ _ _ _ => false

structure BeatOptions where
  hostID : HostId
  region : String
  agentPort : ℕ
  incarnation : String

structure Agent where
  box : Box
  beat : Beating
  beats : List HostHeartbeat

inductive BeatEvent where
  /-- A step of another goroutine. -/
  | box (e : Event)
  /-- `Body` is called. -/
  | begin
  /-- `Running` looks at an instance; a map has no order. -/
  | count (k : ℕ)
  | counted
  | list
  /-- `Live` asks the next instance whether it is done. -/
  | ask
  | view
  | send (leaving : Bool)

/-- The steps that take `r.mu`. -/
def Event.locks : Event → Bool
  | .start _ _ _ _ | .stop _ | .stopped _ | .redeploy _ _ | .sweep _ => true
  | _ => false

/-- A new run of the agent. -/
def Event.restarts : Event → Bool
  | .restart _ _ => true
  | _ => false

namespace Box

variable (s : Box)

/-- The order of a listing: by start, then by id. -/
def older (a b : String × Ref) : Bool :=
  let startedAt (e : String × Ref) : ℤ := (s.instances[e.2]?.map (·.startedAt)).getD 0
  if startedAt a = startedAt b then a.1 ≤ b.1 else startedAt a < startedAt b

def sorted : List (String × Ref) := s.held.entries.mergeSort s.older

/-- The process of an instance has ended. -/
def finished (ref : Ref) : Bool := s.instances[ref]?.any Instance.done

/-- A `Start` puts a process into the registry. -/
def registers (opts : Options) : Event → Bool
  | .start req offers forked now => s.instances.length < (s.start opts req offers forked now).instances.length
  | _ => false

end Box

namespace Agent

variable (opts : Options) (beatOpts : BeatOptions) (s : Agent)

def boxStep (e : Event) : Agent :=
  match s.beat with
  | .counting _ _ => if e.locks then s else { s with box := s.box.step opts e, beat := if e.restarts then .idle else s.beat }
  | _ => { s with box := s.box.step opts e, beat := if e.restarts then .idle else s.beat }

def begin : Agent :=
  match s.beat with
  | .idle => if s.box.starting.isSome then s else { s with beat := .counting s.box.held.entries 0 }
  | _ => s

def count (k : ℕ) : Agent :=
  match s.beat with
  | .counting todo live =>
    match todo[k]? with
    | none => s
    | some entry => { s with beat := .counting (todo.eraseIdx k) (if s.box.finished entry.2 then live else live + 1) }
  | _ => s

def counted : Agent :=
  match s.beat with
  | .counting [] live => { s with beat := .counted live }
  | _ => s

def list : Agent :=
  match s.beat with
  | .counted running => if s.box.starting.isSome then s else { s with beat := .listing running s.box.sorted none [] }
  | _ => s

/-- A world of unknown revision is left out too: the router refuses a whole beat carrying one. -/
def ask : Agent :=
  match s.beat with
  | .listing running (entry :: todo) none out =>
    let found := s.box.instances[entry.2]?.any fun i => !i.done && decide (1 ≤ i.revision)
    { s with beat := .listing running todo (if found then some entry else none) out }
  | _ => s

def view : Agent :=
  match s.beat with
  | .listing running todo (some entry) out =>
    { s with beat := .listing running todo none (out ++ (s.box.instances[entry.2]?.map Instance.view).toList) }
  | _ => s

def send (leaving : Bool) : Agent :=
  match s.beat with
  | .listing running [] none out =>
    { s with
      beat := .idle
      beats := s.beats ++
        [⟨beatOpts.hostID, beatOpts.region, beatOpts.agentPort, ⟨running, opts.maxInstances⟩, out, beatOpts.incarnation,
          leaving⟩] }
  | _ => s

def step : Agent → BeatEvent → Agent
  | s, .box e => s.boxStep opts e
  | s, .begin => s.begin
  | s, .count k => s.count k
  | s, .counted => s.counted
  | s, .list => s.list
  | s, .ask => s.ask
  | s, .view => s.view
  | s, .send leaving => s.send opts beatOpts leaving

/-- No `Start` puts a process into the registry between the two reads of a beat. -/
def Undisturbed (s : Agent) : BeatEvent → Prop
  | .box e => ¬ (s.beat.isCounted = true ∧ s.box.registers opts e = true)
  | _ => True

instance : ∀ s e, Decidable (Undisturbed opts s e)
  | _, .box _ => inferInstanceAs (Decidable (¬ (_ ∧ _)))
  | _, .begin | _, .count _ | _, .counted | _, .list | _, .ask | _, .view | _, .send _ => inferInstanceAs (Decidable True)

end Agent

/-! ### What a step of the box can do -/

namespace Box

variable {s s' : Box} {opts : Options}

/-- What is over stays over, and nothing comes into the registry. -/
structure Later (s s' : Box) : Prop where
  held : ∀ id ref, s'.held.get id = some ref → s.held.get id = some ref
  finished : ∀ ref, s.finished ref = true → s'.finished ref = true

theorem Later.refl (s : Box) : s.Later s := ⟨fun _ _ h => h, fun _ h => h⟩

theorem Later.trans {s'' : Box} (h : s.Later s') (h' : s'.Later s'') : s.Later s'' :=
  ⟨fun id ref hget => h.held id ref (h'.held id ref hget), fun ref hfinished => h'.finished ref (h.finished ref hfinished)⟩

/-- The instances and the registry are as they were. -/
theorem later_of_eq (hheld : s'.held = s.held) (hinstances : s'.instances = s.instances) : s.Later s' :=
  ⟨fun _ _ h => hheld ▸ h, fun _ h => by rw [finished, hinstances]; exact h⟩

/-- One instance is changed, and is no less over. -/
theorem later_update {ref : Ref} {f : Instance → Instance} (hheld : s'.held = s.held)
    (hinstances : s'.instances = s.instances.modify ref f) (hf : ∀ i : Instance, i.done = true → (f i).done = true) :
    s.Later s' := by
  refine ⟨fun _ _ h => hheld ▸ h, fun ref' h => ?_⟩
  rw [finished, hinstances, List.getElem?_modify]
  rw [finished] at h
  cases hget : s.instances[ref']? with
  | none => rw [hget] at h; cases h
  | some i =>
    rw [hget] at h
    simp only [Option.map_eq_map, Option.map_some, Option.any_some]
    split_ifs
    · exact hf i h
    · exact h

theorem once_done (i : Instance) (ending : Ending) : (i.once ending).done = i.done := by
  unfold Instance.once
  split_ifs <;> rfl

theorem probe_done (i : Instance) (now : ℤ) (players : Option ℤ) : (i.probe opts now players).done = i.done := by
  cases players with
  | some players => rfl
  | none =>
    unfold Instance.probe
    dsimp only
    split_ifs <;> rfl

theorem later_note (ref : Ref) (now : ℤ) : s.Later (s.note ref now) := by
  unfold note
  split
  · exact .refl s
  · split_ifs
    · exact later_update rfl rfl fun _ _ => rfl
    · exact .refl s

theorem later_release (ref : Ref) : s.Later (s.release ref) := by
  unfold release
  split
  · exact .refl s
  · split_ifs
    · exact later_update rfl rfl fun _ h => h
    · exact .refl s

theorem later_drop (ref : Ref) : s.Later (s.drop ref) := by
  unfold drop
  split
  · exact .refl s
  · split_ifs
    · exact later_update rfl rfl fun _ h => h
    · exact .refl s

theorem later_record : s.Later s.record := by
  unfold record
  split
  · exact .refl s
  · split
    · exact .refl s
    · exact later_of_eq rfl rfl

theorem later_stop (id : String) : s.Later (s.stop id) := by
  unfold stop
  split_ifs
  · exact .refl s
  · split
    · exact .refl s
    · exact later_of_eq rfl rfl

theorem later_ask (k : ℕ) : s.Later (s.ask k) := by
  unfold ask
  split
  · exact .refl s
  · split
    · exact .refl s
    · dsimp only
      split_ifs
      · exact later_update rfl rfl fun i h => (once_done i .tearing).trans h
      · exact later_update rfl rfl fun i h => (once_done i .tearing).trans h

theorem later_stopped (k : ℕ) : s.Later (s.stopped k) := by
  unfold stopped
  split
  · exact .refl s
  · split_ifs
    · refine ⟨fun id ref h => ?_, fun _ h => h⟩
      dsimp only at h
      rw [OrderedMap.get_delete] at h
      split_ifs at h
      exact h
    · exact .refl s

theorem later_redeploy (gameID : String) (at' : ℤ) : s.Later (s.redeploy gameID at') := by
  unfold redeploy
  split_ifs
  · exact .refl s
  · exact later_of_eq rfl rfl

theorem later_mark (k : ℕ) : s.Later (s.mark k) := by
  unfold mark
  split
  · exact .refl s
  · split
    · exact later_update rfl rfl fun i h => (once_done _ _).trans h
    · exact .refl s

theorem later_finish (k : ℕ) (d : Drain) (i : Instance) (rest : List Ref) : s.Later (s.finish k d i rest) := by
  unfold finish
  dsimp only
  split_ifs
  all_goals exact later_of_eq rfl rfl

theorem later_read (k : ℕ) : s.Later (s.read k) := by
  unfold read
  split
  · exact .refl s
  · split
    · split
      · exact .refl s
      · split
        · exact later_finish _ _ _ _
        · split_ifs
          · exact later_finish _ _ _ _
          · exact later_of_eq rfl rfl
    · exact .refl s

theorem later_write (k : ℕ) : s.Later (s.write k) := by
  unfold write
  split
  · exact .refl s
  · split
    · split
      · exact .refl s
      · refine Later.trans ?_ (later_finish _ _ _ _)
        exact later_of_eq rfl rfl
    · exact .refl s

theorem later_probe (ref : Ref) (now : ℤ) : s.Later (s.probe ref now) := by
  unfold probe
  split
  · exact .refl s
  · split_ifs
    · exact later_update rfl rfl fun _ h => h
    · exact later_of_eq rfl rfl

theorem later_answer (k : ℕ) (players : Option ℤ) : s.Later (s.answer opts k players) := by
  unfold answer
  split
  · exact .refl s
  · split
    · exact .refl s
    · exact later_update rfl rfl fun i h => (probe_done i _ _).trans h

theorem later_sweep (now : ℤ) : s.Later (s.sweep opts now) := by
  unfold sweep
  split_ifs
  · exact .refl s
  · refine ⟨fun id ref h => ?_, fun _ h => h⟩
    dsimp only at h
    rw [OrderedMap.get_filter] at h
    exact (Option.filter_eq_some_iff.mp h).1

theorem later_tear (ref : Ref) (i : Instance) (why : Why) : s.Later (s.tear ref i why) :=
  later_update rfl rfl fun _ h => h

theorem later_tick (ref : Ref) (now : ℤ) : s.Later (s.tick opts ref now) := by
  unfold tick
  split
  · exact .refl s
  · split
    · split_ifs
      · exact later_tear _ _ _
      · exact later_tear _ _ _
      · exact .refl s
    · exact .refl s

theorem later_hurried (ref : Ref) : s.Later (s.hurried ref) := by
  unfold hurried
  split
  · exact .refl s
  · split
    · split_ifs
      · exact later_tear _ _ _
      · exact .refl s
    · exact .refl s

theorem later_ended (ref : Ref) : s.Later (s.ended ref) := by
  unfold ended
  split
  · exact .refl s
  · split
    · split_ifs
      · exact later_update rfl rfl fun _ h => h
      · exact .refl s
    · exact .refl s

theorem later_signal (ref : Ref) : s.Later (s.signal ref) := by
  unfold signal
  split
  · exact .refl s
  · split_ifs
    · refine later_update rfl rfl fun i h => ?_
      split_ifs
      exact h
    · exact .refl s

theorem start_cases (req : InstanceStart) (offers : List (Option ℕ)) (forked : Option ℕ) (now : ℤ) :
    (∃ issued, s.start opts req offers forked now = { s with issued := issued }) ∨
      ∃ port pid, s.start opts req offers forked now = s.fork req port pid now := by
  unfold start
  by_cases hstarting : s.starting.isSome = true
  · exact Or.inl ⟨s.issued, if_pos hstarting⟩
  rw [if_neg hstarting]
  by_cases hheld : s.sessionHeld req.sessionID = true
  · exact Or.inl ⟨s.issued, if_pos hheld⟩
  rw [if_neg hheld]
  by_cases hfull : opts.maxInstances ≤ s.running
  · exact Or.inl ⟨s.issued, if_pos hfull⟩
  rw [if_neg hfull]
  split
  · exact Or.inl ⟨s.issued, rfl⟩
  · exact Or.inl ⟨_, rfl⟩
  · split_ifs
    · exact Or.inl ⟨s.issued, rfl⟩
    · exact Or.inr ⟨_, _, rfl⟩

/-- A `Start` leaves what is finished so, and the registry too unless it registers a process. -/
theorem finished_start (req : InstanceStart) (offers : List (Option ℕ)) (forked : Option ℕ) (now : ℤ) :
    (∀ ref, s.finished ref = true → (s.start opts req offers forked now).finished ref = true) ∧
      (s.registers opts (.start req offers forked now) = false → s.Later (s.start opts req offers forked now)) := by
  rw [registers]
  obtain ⟨issued, hstart⟩ | ⟨port, pid, hstart⟩ := s.start_cases req offers forked now
  · rw [hstart]
    exact ⟨fun _ h => h, fun _ => later_of_eq rfl rfl⟩
  · rw [hstart]
    refine ⟨fun ref h => ?_, fun h => ?_⟩
    · have hlt : ref < s.instances.length := by
        by_contra hge
        rw [finished, List.getElem?_eq_none (Nat.le_of_not_lt hge)] at h
        cases h
      rw [finished, fork, List.getElem?_append_left hlt]
      exact h
    · simp [fork] at h

theorem later_step {e : Event} (hrestarts : e.restarts = false) (hregisters : s.registers opts e = false) :
    s.Later (s.step opts e) := by
  cases e with
  | start req offers forked now => exact (finished_start req offers forked now).2 hregisters
  | record => exact later_record
  | exit child => exact later_of_eq rfl rfl
  | note ref now => exact later_note ref now
  | release ref => exact later_release ref
  | drop ref => exact later_drop ref
  | stop id => exact later_stop id
  | ask k => exact later_ask k
  | stopped k => exact later_stopped k
  | leave k => exact later_of_eq rfl rfl
  | redeploy gameID at' => exact later_redeploy gameID at'
  | mark k => exact later_mark k
  | read k => exact later_read k
  | write k => exact later_write k
  | probe ref now => exact later_probe ref now
  | answer k players => exact later_answer k players
  | sweep now => exact later_sweep now
  | tick ref now => exact later_tick ref now
  | hurried ref => exact later_hurried ref
  | ended ref => exact later_ended ref
  | signal ref => exact later_signal ref
  | restart unread now => cases hrestarts

theorem finished_step {e : Event} (hrestarts : e.restarts = false) {ref : Ref} (h : s.finished ref = true) :
    (s.step opts e).finished ref = true := by
  cases hregisters : s.registers opts e with
  | false => exact (later_step hrestarts hregisters).finished ref h
  | true =>
    cases e with
    | start req offers forked now => exact (finished_start req offers forked now).1 ref h
    | _ => cases hregisters

end Box

/-! ### The two reads -/

namespace Agent

variable {opts : Options} {beatOpts : BeatOptions} {s : Agent}

/-- What a beat under way has counted accounts for what it is yet to count or to list. -/
def Accounted (s : Agent) : Prop :=
  match s.beat with
  | .idle => True
  | .counting todo live => ∃ ids : List String, ids.length = live ∧
      ∀ id ref, s.box.held.get id = some ref → (id, ref) ∈ todo ∨ id ∈ ids ∨ s.box.finished ref = true
  | .counted running => ∃ ids : List String, ids.length = running ∧
      ∀ id ref, s.box.held.get id = some ref → id ∈ ids ∨ s.box.finished ref = true
  | .listing running todo found out => ∃ ids listed : List String, ids.length = running ∧ out.length ≤ listed.length ∧
      (listed ++ (found.toList ++ todo).map Prod.fst).Nodup ∧ (∀ id ∈ listed, id ∈ ids) ∧ (∀ entry ∈ found, entry.1 ∈ ids) ∧
        ∀ entry ∈ todo, entry.1 ∈ ids ∨ s.box.finished entry.2 = true

/-- No beat has listed more instances than it counted. -/
structure Ok (s : Agent) : Prop where
  accounted : s.Accounted
  consistent : ∀ beat ∈ s.beats, beat.instances.length ≤ beat.capacity.runningInstances

/-- A step of another goroutine, which neither restarts the agent nor comes between the reads with a process. -/
theorem Accounted.box (h : s.Accounted) {box : Box} (hfinished : ∀ ref, s.box.finished ref = true → box.finished ref = true)
    (hheld : s.beat.isReading = true → ∀ key ref, box.held.get key = some ref → s.box.held.get key = some ref) :
    Accounted { s with box := box } := by
  unfold Accounted at h ⊢
  cases hbeat : s.beat with
  | idle => trivial
  | counting todo live =>
    rw [hbeat] at h hheld
    obtain ⟨ids, hids, hcounts⟩ := h
    refine ⟨ids, hids, fun key ref hget => ?_⟩
    exact (hcounts key ref (hheld rfl key ref hget)).imp id (Or.imp id (hfinished ref))
  | counted running =>
    rw [hbeat] at h hheld
    obtain ⟨ids, hids, hcounts⟩ := h
    refine ⟨ids, hids, fun key ref hget => ?_⟩
    exact (hcounts key ref (hheld rfl key ref hget)).imp id (hfinished ref)
  | listing running todo found out =>
    rw [hbeat] at h
    obtain ⟨ids, listed, hids, hout, hnodup, hlisted, hfound, htodo⟩ := h
    exact ⟨ids, listed, hids, hout, hnodup, hlisted, hfound, fun entry hentry => (htodo entry hentry).imp id (hfinished _)⟩

theorem Accounted.idle (h : s.beat = .idle) : s.Accounted := by
  rw [Accounted, h]
  trivial

theorem Ok.boxStep (h : s.Ok) (e : Event) (hundisturbed : s.Undisturbed opts (.box e)) : (s.boxStep opts e).Ok := by
  have hstep : ¬ (s.beat.isReading = true ∧ s.box.registers opts e = true) →
      Ok { s with box := s.box.step opts e, beat := if e.restarts then .idle else s.beat } := by
    intro hregisters
    refine ⟨?_, h.consistent⟩
    cases hrestarts : e.restarts with
    | true => exact Accounted.idle rfl
    | false =>
      refine h.accounted.box (fun ref => Box.finished_step hrestarts) fun hreading => ?_
      exact (Box.later_step hrestarts (Bool.eq_false_of_not_eq_true fun hreg => hregisters ⟨hreading, hreg⟩)).held
  unfold Agent.boxStep
  cases hbeat : s.beat with
  | counting todo live =>
    cases hlocks : e.locks with
    | true => exact h
    | false =>
      rw [hbeat] at hstep
      refine hstep fun hregisters => ?_
      cases e with
      | start => cases hlocks
      | _ => cases hregisters.2
  | idle | counted running | listing running todo found out =>
    rw [hbeat] at hstep
    refine hstep fun hregisters => ?_
    exact hundisturbed ⟨by rw [hbeat]; exact hregisters.1, hregisters.2⟩

theorem Ok.begin (h : s.Ok) : s.begin.Ok := by
  unfold Agent.begin
  split
  · split_ifs
    · exact h
    · refine ⟨⟨[], rfl, fun key ref hget => ?_⟩, h.consistent⟩
      exact Or.inl ((OrderedMap.mem_entries_iff _).mpr hget)
  · exact h

theorem Ok.count (h : s.Ok) (k : ℕ) : (s.count k).Ok := by
  unfold Agent.count
  split
  · next todo live hbeat =>
    split
    · exact h
    · next entry hentry =>
      have hcounts := h.accounted
      unfold Accounted at hcounts
      rw [hbeat] at hcounts
      obtain ⟨ids, hids, hcounts⟩ := hcounts
      obtain ⟨hk, rfl⟩ := List.getElem?_eq_some_iff.mp hentry
      have hperm := List.getElem_cons_eraseIdx_perm hk
      refine ⟨?_, h.consistent⟩
      by_cases hfinished : s.box.finished todo[k].2 = true
      · rw [if_pos hfinished]
        refine ⟨ids, hids, fun key ref hget => ?_⟩
        obtain htodo | hcounted := hcounts key ref hget
        · obtain heq | htodo := List.mem_cons.mp (hperm.mem_iff.mpr htodo)
          · rw [← heq] at hfinished
            exact Or.inr (Or.inr hfinished)
          · exact Or.inl htodo
        · exact Or.inr hcounted
      · rw [if_neg hfinished]
        refine ⟨todo[k].1 :: ids, congrArg (· + 1) hids, fun key ref hget => ?_⟩
        obtain htodo | hids | hfinished := hcounts key ref hget
        · obtain heq | htodo := List.mem_cons.mp (hperm.mem_iff.mpr htodo)
          · exact Or.inr (Or.inl (heq ▸ List.mem_cons_self))
          · exact Or.inl htodo
        · exact Or.inr (Or.inl (List.mem_cons_of_mem _ hids))
        · exact Or.inr (Or.inr hfinished)
  · exact h

theorem Ok.counted (h : s.Ok) : s.counted.Ok := by
  unfold Agent.counted
  split
  · next live hbeat =>
    have hcounts := h.accounted
    unfold Accounted at hcounts
    rw [hbeat] at hcounts
    obtain ⟨ids, hids, hcounts⟩ := hcounts
    exact ⟨⟨ids, hids, fun key ref hget => (hcounts key ref hget).resolve_left List.not_mem_nil⟩, h.consistent⟩
  · exact h

theorem sorted_perm (box : Box) : box.sorted.Perm box.held.entries := List.mergeSort_perm _ _

theorem Ok.list (h : s.Ok) : s.list.Ok := by
  unfold Agent.list
  split
  · next running hbeat =>
    split_ifs
    · exact h
    · have hcounts := h.accounted
      unfold Accounted at hcounts
      rw [hbeat] at hcounts
      obtain ⟨ids, hids, hcounts⟩ := hcounts
      refine ⟨⟨ids, [], hids, Nat.le_refl _, ?_, nofun, nofun, fun entry hentry => ?_⟩, h.consistent⟩
      · exact ((sorted_perm s.box).map Prod.fst).nodup_iff.mpr s.box.held.nodup
      · exact hcounts _ _ ((OrderedMap.mem_entries_iff _).mp ((sorted_perm s.box).mem_iff.mp hentry))
  · exact h

theorem Ok.ask (h : s.Ok) : s.ask.Ok := by
  unfold Agent.ask
  split
  · next running entry todo out hbeat =>
    have hlisting := h.accounted
    unfold Accounted at hlisting
    rw [hbeat] at hlisting
    obtain ⟨ids, listed, hids, hout, hnodup, hlisted, -, htodo⟩ := hlisting
    have hrest : ∀ entry ∈ todo, entry.1 ∈ ids ∨ s.box.finished entry.2 = true := fun entry hentry =>
      htodo entry (List.mem_cons_of_mem _ hentry)
    refine ⟨?_, h.consistent⟩
    dsimp only
    split_ifs with hfound
    · refine ⟨ids, listed, hids, hout, hnodup, hlisted, fun found hmem => ?_, hrest⟩
      obtain rfl := Option.some.inj hmem
      refine (htodo entry List.mem_cons_self).resolve_right fun hfinished => ?_
      rw [Box.finished] at hfinished
      cases hget : s.box.instances[entry.2]? with
      | none => rw [hget] at hfinished; cases hfinished
      | some i =>
        rw [hget] at hfinished hfound
        simp only [Option.any_some] at hfinished hfound
        rw [hfinished] at hfound
        cases hfound
    · refine ⟨ids, listed, hids, hout, hnodup.sublist ?_, hlisted, nofun, hrest⟩
      exact (List.Sublist.refl listed).append ((List.sublist_cons_self entry todo).map Prod.fst)
  · exact h

theorem Ok.view (h : s.Ok) : s.view.Ok := by
  unfold Agent.view
  split
  · next running todo entry out hbeat =>
    have hlisting := h.accounted
    unfold Accounted at hlisting
    rw [hbeat] at hlisting
    obtain ⟨ids, listed, hids, hout, hnodup, hlisted, hfound, htodo⟩ := hlisting
    refine ⟨⟨ids, listed ++ [entry.1], hids, ?_, ?_, ?_, nofun, htodo⟩, h.consistent⟩
    · have hview : (s.box.instances[entry.2]?.map Instance.view).toList.length ≤ 1 := by
        cases s.box.instances[entry.2]? <;> simp
      rw [List.length_append, List.length_append]
      exact Nat.add_le_add hout hview
    · rw [List.append_assoc]
      exact hnodup
    · intro key hkey
      obtain hkey | hkey := List.mem_append.mp hkey
      · exact hlisted key hkey
      · rw [List.mem_singleton.mp hkey]
        exact hfound entry rfl
  · exact h

theorem Ok.send (h : s.Ok) (leaving : Bool) : (s.send opts beatOpts leaving).Ok := by
  unfold Agent.send
  split
  · next running out hbeat =>
    have hlisting := h.accounted
    unfold Accounted at hlisting
    rw [hbeat] at hlisting
    obtain ⟨ids, listed, hids, hout, hnodup, hlisted, -, -⟩ := hlisting
    rw [Option.toList_none, List.nil_append, List.map_nil, List.append_nil] at hnodup
    refine ⟨Accounted.idle rfl, fun beat hbeat => ?_⟩
    obtain hbeat | hbeat := List.mem_append.mp hbeat
    · exact h.consistent beat hbeat
    · obtain rfl := List.mem_singleton.mp hbeat
      calc out.length ≤ listed.length := hout
        _ ≤ ids.length := (List.subperm_of_subset hnodup hlisted).length_le
        _ = running := hids
  · exact h

theorem Ok.step (h : s.Ok) (e : BeatEvent) (hundisturbed : s.Undisturbed opts e) : (Agent.step opts beatOpts s e).Ok := by
  cases e with
  | box e => exact h.boxStep e hundisturbed
  | begin => exact h.begin
  | count k => exact h.count k
  | counted => exact h.counted
  | list => exact h.list
  | ask => exact h.ask
  | view => exact h.view
  | send leaving => exact h.send leaving

/-- An agent that has sent nothing yet. -/
def new (box : Box) : Agent := ⟨box, .idle, []⟩

/-- **Consistent beats.**  In a run in which no `Start` comes between the two reads of a beat with a process, every
beat counts at least the instances it lists. -/
theorem beats_consistent (opts : Options) (beatOpts : BeatOptions) (box : Box) (es : List BeatEvent)
    (h : Meets (step opts beatOpts) (Undisturbed opts) (new box) es) :
    ∀ beat ∈ (exec (step opts beatOpts) (new box) es).beats, beat.instances.length ≤ beat.capacity.runningInstances :=
  (h.invariant (fun _ e hok hundisturbed => Ok.step hok e hundisturbed) ⟨Accounted.idle rfl, fun _ hbeat => absurd hbeat List.not_mem_nil⟩).consistent

end Agent

/-! ### A beat beside a start -/

def beatOfBox : BeatOptions := ⟨"box-1", "eu", 7100, "incarnation-1"⟩

def eightSlots : Options := ⟨8, 600, 20, 900⟩

def firstStart : BeatEvent := .box (.start ⟨"i1", "s1", "g1", 1⟩ [some 40000] (some 10) 0)

/-- The game starts, then the box beats while it ends. -/
def startThenBeat : List BeatEvent :=
  [firstStart, .box .record, .begin, .count 0, .box (.exit 0), .counted, .list, .ask, .box (.note 0 5), .view, .send false]

theorem startThenBeat_consistent :
    Meets (Agent.step eightSlots beatOfBox) (Agent.Undisturbed eightSlots) (Agent.new Box.new) startThenBeat ∧
      ∀ beat ∈ (exec (Agent.step eightSlots beatOfBox) (Agent.new Box.new) startThenBeat).beats,
        beat.instances.length ≤ beat.capacity.runningInstances := by
  have h : Meets (Agent.step eightSlots beatOfBox) (Agent.Undisturbed eightSlots) (Agent.new Box.new) startThenBeat := by
    decide +kernel
  exact ⟨h, Agent.beats_consistent eightSlots beatOfBox Box.new startThenBeat h⟩

/-- The game starts after the box has counted. -/
def startBetween : List BeatEvent :=
  [.begin, .counted, firstStart, .box .record, .list, .ask, .view, .send false]

theorem started_between_reads : ¬ ∀ beat ∈ (exec (Agent.step eightSlots beatOfBox) (Agent.new Box.new) startBetween).beats,
    beat.instances.length ≤ beat.capacity.runningInstances := by decide +kernel

end Supervisor
end Grove
