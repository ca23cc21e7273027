import Grove.Fleet.Registry

/-! # One world for one game version

The one worker of the line answers joins through `Router.Place`, the boxes start worlds and compose
beats, and a beat reaches the registry some time after it was composed.  A world's players stay in
one session while nothing takes the world's reservation away and no join is placed past it. -/

namespace Grove
namespace Fleet

/-- Where the worker is with the join it serves. -/
inductive Worker where
  | idle
  /-- It has reserved a world, and asks the box to start it. -/
  | ordering (req : PlacementRequest) (placed : Placement)
  /-- The box has started it, and answers with the port. -/
  | spawned (req : PlacementRequest) (placed : Placement) (port : ℕ)
  /-- `Router.Place` has returned. -/
  | answering (req : PlacementRequest) (placed : Placement)

structure System where
  reg : Registry
  /-- What each box runs. -/
  running : HostId → List InstanceReport
  /-- The beats composed so far; one may arrive late, twice or never. -/
  sent : List HostHeartbeat
  worker : Worker
  /-- What `Router.Place` has answered. -/
  answers : List (PlacementRequest × Placement)

namespace System

def new (staleAfter : ℤ) : System where
  reg := .new staleAfter
  running := fun _ => []
  sent := []
  worker := .idle
  answers := []

inductive Event where
  /-- The worker takes a join, with the order the balancer ranked and the ids minted for it. -/
  | place (req : PlacementRequest) (ordered : List Host) (instanceID : String) (sessionID : SessionId) (at' : ℤ)
  /-- The box starts the world it was asked for. -/
  | start (port : ℕ)
  /-- The box's answer is recorded. -/
  | started
  /-- The caller has its answer. -/
  | settle
  /-- The caller was gone. -/
  | abandoned
  /-- A box's world answers its first probe. -/
  | ready (hostID : HostId) (sessionID : SessionId)
  | compose (hostID : HostId) (region : String) (agentPort : ℕ) (capacity : HostCapacity) (incarnation : String)
      (leaving : Bool)
  | deliver (hb : HostHeartbeat) (addr : String) (at' : ℤ)

variable (s : System)

def place (req : PlacementRequest) (ordered : List Host) (instanceID : String) (sessionID : SessionId) (at' : ℤ) : System :=
  match s.reg.place req ordered instanceID sessionID at' with
  | (none, reg) => { s with reg := reg }
  | (some placed, reg) =>
    if placed.starts then { s with reg := reg, worker := .ordering req placed }
    else { s with reg := reg, worker := .answering req placed, answers := s.answers ++ [(req, placed)] }

/-- The instance a box runs for a start. -/
def instanceOf (req : PlacementRequest) (placed : Placement) (port : ℕ) : InstanceReport :=
  ⟨placed.instanceID, req.gameID, placed.sessionID, .starting, req.revision, port⟩

def step : Event → System
  | .place req ordered instanceID sessionID at' =>
    match s.worker with
    | .idle => s.place req ordered instanceID sessionID at'
    | _ => s
  | .start port =>
    match s.worker with
    | .ordering req placed =>
      { s with
        running := Function.update s.running placed.host.id
          (s.running placed.host.id ++ [instanceOf req placed port])
        worker := .spawned req placed port }
    | _ => s
  | .started =>
    match s.worker with
    | .spawned req placed port =>
      { s with
        reg := s.reg.started req.gameID req.revision placed.sessionID port
        worker := .answering req { placed with port := port }
        answers := s.answers ++ [(req, { placed with port := port })] }
    | _ => s
  | .settle =>
    match s.worker with
    | .answering _ _ => { s with worker := .idle }
    | _ => s
  | .abandoned =>
    match s.worker with
    | .answering req placed => { s with reg := s.reg.release req.gameID placed.sessionID, worker := .idle }
    | _ => s
  | .ready hostID sessionID =>
    { s with running := Function.update s.running hostID ((s.running hostID).map fun inst =>
        if inst.sessionID = sessionID then { inst with state := .healthy } else inst) }
  | .compose hostID region agentPort capacity incarnation leaving =>
    { s with sent := s.sent ++ [⟨hostID, region, agentPort, capacity, s.running hostID, incarnation, leaving⟩] }
  | .deliver hb addr at' => if hb ∈ s.sent then { s with reg := s.reg.beat hb addr at' } else s

/-! ### The runs in question -/

/-- The worker is about to answer with a session of a game. -/
def Worker.answers (gameID : String) (sessionID : SessionId) : Worker → Bool
  | .answering req placed => req.gameID = gameID && placed.sessionID = sessionID
  | _ => false

/-- No box is stale, suspected or leaving when it is looked at. -/
def Calm : Event → Prop
  | .place _ _ _ _ at' => ∀ e ∈ s.reg.hosts.entries, e.2.isPlaceable at' s.reg.staleAfter = true
  | .deliver hb addr at' =>
    (Registry.rowOf hb addr at' .healthy).isPlaceable at' s.reg.staleAfter = true ∧
      ∀ e ∈ s.reg.hosts.entries, e.1 ≠ hb.hostID → e.2.isPlaceable at' s.reg.staleAfter = true
  | _ => True

/-- No step takes a reservation away or places a join past one. -/
def Tidy : Event → Prop
  -- A named region does not hide the world from its join.
  | .place req _ _ _ at' => s.reg.serving req.world req.region at' = none → s.reg.held req.world req.region at' = none →
      s.reg.serving req.world "" at' = none ∧ s.reg.held req.world "" at' = none
  -- A caller that is gone was not placed on a reservation.
  | .abandoned => ∀ e ∈ s.reg.pending.entries, Worker.answers e.1.gameID e.2.sessionID s.worker = false
  -- The beat was not composed before a start that is recorded.
  | .deliver hb _ _ => ∀ e ∈ s.reg.pending.entries, e.2.hostID = hb.hostID → e.2.starting = false →
      (Registry.portOf hb.instances e.2.sessionID).isSome = true
  | _ => True

instance Calm.decidable : ∀ e, Decidable (s.Calm e)
  | .place _ _ _ _ at' =>
    inferInstanceAs (Decidable (∀ e ∈ s.reg.hosts.entries, e.2.isPlaceable at' s.reg.staleAfter = true))
  | .deliver hb addr at' => inferInstanceAs (Decidable
      ((Registry.rowOf hb addr at' .healthy).isPlaceable at' s.reg.staleAfter = true ∧
        ∀ e ∈ s.reg.hosts.entries, e.1 ≠ hb.hostID → e.2.isPlaceable at' s.reg.staleAfter = true))
  | .start _ | .started | .settle | .abandoned | .ready _ _ | .compose .. => inferInstanceAs (Decidable True)

instance Tidy.decidable : ∀ e, Decidable (s.Tidy e)
  | .place req _ _ _ at' => inferInstanceAs (Decidable
      (s.reg.serving req.world req.region at' = none → s.reg.held req.world req.region at' = none →
        s.reg.serving req.world "" at' = none ∧ s.reg.held req.world "" at' = none))
  | .abandoned => inferInstanceAs (Decidable
      (∀ e ∈ s.reg.pending.entries, Worker.answers e.1.gameID e.2.sessionID s.worker = false))
  | .deliver hb _ _ => inferInstanceAs (Decidable
      (∀ e ∈ s.reg.pending.entries, e.2.hostID = hb.hostID → e.2.starting = false →
        (Registry.portOf hb.instances e.2.sessionID).isSome = true))
  | .start _ | .started | .settle | .ready _ _ | .compose .. => inferInstanceAs (Decidable True)

/-- All joins for one game and revision were placed in one session. -/
def OneWorld : Prop :=
  ∀ req p req' p', (req, p) ∈ s.answers → (req', p') ∈ s.answers → req.world = req'.world → p.sessionID = p'.sessionID

/-! ### Every world has its session -/

/-- The session a world's reservation holds. -/
def Holds (reg : Registry) (w : World) (sessionID : SessionId) : Prop :=
  ∃ res, reg.pending.get w = some res ∧ res.sessionID = sessionID

/-- An instance that neither exits nor ails, in the session of its world. -/
def Accounted (reg : Registry) (inst : InstanceReport) : Prop :=
  (inst.state = .starting ∨ inst.state = .healthy) ∧ Holds reg ⟨inst.gameID, inst.revision⟩ inst.sessionID

/-- What the worker was told is what the reservation holds. -/
def WorkerHolds (reg : Registry) : Worker → Prop
  | .idle => True
  | .ordering req placed | .spawned req placed _ | .answering req placed => Holds reg req.world placed.sessionID

structure Shared (s : System) : Prop where
  windows : s.reg.staleAfter ≤ s.reg.retain
  named : ∀ id row, s.reg.hosts.get id = some row → row.id = id
  known : ∀ w res, s.reg.pending.get w = some res → ∃ row, s.reg.hosts.get res.hostID = some row
  rows : ∀ id row, s.reg.hosts.get id = some row → ∀ inst ∈ row.instances, Accounted s.reg inst
  running : ∀ id, ∀ inst ∈ s.running id, Accounted s.reg inst
  sent : ∀ hb ∈ s.sent, ∀ inst ∈ hb.instances, Accounted s.reg inst
  worker : WorkerHolds s.reg s.worker
  answers : ∀ req p, (req, p) ∈ s.answers → Holds s.reg req.world p.sessionID

variable {s}

theorem Holds.unique {reg : Registry} {w : World} {a b : SessionId} (ha : Holds reg w a) (hb : Holds reg w b) : a = b := by
  obtain ⟨res, hres, rfl⟩ := ha
  obtain ⟨res', hres', rfl⟩ := hb
  rw [Option.some.inj (hres.symm.trans hres')]

theorem shared_new (staleAfter : ℤ) : Shared (new staleAfter) where
  windows := le_max_right _ _
  named := fun _ _ h => by cases h
  known := fun _ _ h => by cases h
  rows := fun _ _ h => by cases h
  running := fun _ _ h => by cases h
  sent := fun _ h => by cases h
  worker := trivial
  answers := fun _ _ h => by cases h

/-- Reservations that keep their sessions. -/
def Keeps (reg reg' : Registry) : Prop := ∀ w sessionID, Holds reg w sessionID → Holds reg' w sessionID

theorem Accounted.keeps {reg reg' : Registry} (h : Keeps reg reg') {inst : InstanceReport} (hinst : Accounted reg inst) :
    Accounted reg' inst := ⟨hinst.1, h _ _ hinst.2⟩

theorem WorkerHolds.keeps {reg reg' : Registry} (h : Keeps reg reg') {worker : Worker} (hworker : WorkerHolds reg worker) :
    WorkerHolds reg' worker := by
  cases worker with
  | idle => trivial
  | ordering | spawned | answering => exact h _ _ hworker

/-- A registry that keeps every session and every row. -/
theorem Shared.reserve (h : Shared s) {reg : Registry} (hwindows : reg.staleAfter ≤ reg.retain)
    (hhosts : reg.hosts = s.reg.hosts) (hkeeps : Keeps s.reg reg)
    (hknown : ∀ w res, reg.pending.get w = some res → ∃ row, s.reg.hosts.get res.hostID = some row) :
    Shared { s with reg := reg } where
  windows := hwindows
  named := fun id row hrow => h.named id row (hhosts ▸ hrow)
  known := fun w res hres => hhosts ▸ hknown w res hres
  rows := fun id row hrow inst hinst => (h.rows id row (hhosts ▸ hrow) inst hinst).keeps hkeeps
  running := fun id inst hinst => (h.running id inst hinst).keeps hkeeps
  sent := fun hb hhb inst hinst => (h.sent hb hhb inst hinst).keeps hkeeps
  worker := h.worker.keeps hkeeps
  answers := fun req p hp => hkeeps _ _ (h.answers req p hp)

theorem Shared.withWorker (h : Shared s) {worker : Worker} (hworker : WorkerHolds s.reg worker) :
    Shared { s with worker := worker } :=
  ⟨h.windows, h.named, h.known, h.rows, h.running, h.sent, hworker, h.answers⟩

theorem Shared.answer (h : Shared s) {req : PlacementRequest} {placed : Placement}
    (hholds : Holds s.reg req.world placed.sessionID) :
    Shared { s with worker := .answering req placed, answers := s.answers ++ [(req, placed)] } where
  windows := h.windows
  named := h.named
  known := h.known
  rows := h.rows
  running := h.running
  sent := h.sent
  worker := hholds
  answers := by
    intro req' p hp
    rcases List.mem_append.mp hp with hold | hnew
    · exact h.answers req' p hold
    · rw [List.mem_singleton] at hnew
      cases hnew
      exact hholds

/-- What is served or held of a world is its session. -/
theorem Shared.holds_serving (h : Shared s) {key : World} {region : String} {now : ℤ} {p : Placement}
    (hp : s.reg.serving key region now = some p) : Holds s.reg key p.sessionID := by
  obtain ⟨id, row, hrow, -, inst, hinst, rfl⟩ := Registry.serving_some hp
  have hmatch := List.find?_some hinst
  simp only [decide_eq_true_eq] at hmatch
  have hholds := (h.rows id row hrow inst (List.mem_of_find?_eq_some hinst)).2
  rw [hmatch.1, hmatch.2.1] at hholds
  exact hholds

theorem holds_held {reg : Registry} {key : World} {region : String} {now : ℤ} {p : Placement}
    (hp : reg.held key region now = some p) : Holds reg key p.sessionID := by
  obtain ⟨res, row, hres, -, rfl⟩ := Registry.held_some hp
  exact ⟨res, hres, rfl⟩

/-- On a calm fleet a reservation is always seen by a join that names no region. -/
theorem Shared.held_of_reserved (h : Shared s) {now : ℤ}
    (hcalm : ∀ e ∈ s.reg.hosts.entries, e.2.isPlaceable now s.reg.staleAfter = true) {key : World}
    {res : Reservation} (hres : s.reg.pending.get key = some res) : s.reg.held key "" now ≠ none := by
  obtain ⟨row, hrow⟩ := h.known key res hres
  have hwell : Registry.ailing row.instances res.sessionID = false := by
    refine List.any_eq_false.mpr fun inst hinst => ?_
    rcases (h.rows _ row hrow inst hinst).1 with hstate | hstate <;> simp [hstate]
  unfold Registry.held
  rw [hres]
  dsimp only
  rw [hrow]
  simp [hcalm (_, row) (s.reg.hosts.mem_entries_iff.mpr hrow), hwell, Registry.inRegion]

theorem Shared.place (h : Shared s) {req : PlacementRequest} {ordered : List Host} {instanceID : String}
    {sessionID : SessionId} {at' : ℤ} (hcalm : s.Calm (.place req ordered instanceID sessionID at'))
    (htidy : s.Tidy (.place req ordered instanceID sessionID at')) : Shared (s.place req ordered instanceID sessionID at') := by
  unfold System.place
  rcases Registry.place_cases s.reg req ordered instanceID sessionID at' with
    ⟨p, hp, hplace⟩ | ⟨p, hp, hplace⟩ | hplace | ⟨hostID, host, hserving, hheld, -, hhost, hplace⟩
  · obtain ⟨id, row, -, -, inst, -, hfields⟩ := Registry.serving_some hp
    rw [hplace]
    simp only [hfields, Bool.false_eq_true, if_false]
    exact h.answer (hfields ▸ h.holds_serving hp)
  · obtain ⟨res, row, -, -, hfields⟩ := Registry.held_some hp
    rw [hplace]
    simp only [hfields, Bool.false_eq_true, if_false]
    exact h.answer (hfields ▸ holds_held hp)
  · rw [hplace]
    exact h
  · rw [hplace]
    simp only [if_true]
    obtain ⟨row, hrow, -, rfl, -⟩ := Registry.placeable_some hhost
    have hfree : s.reg.pending.get req.world = none := by
      rcases hres : s.reg.pending.get req.world with _ | res
      · rfl
      · exact absurd (htidy hserving hheld).2 (h.held_of_reserved hcalm hres)
    generalize hreg : ({ s.reg with
      pending := s.reg.pending.set req.world ⟨row.id, instanceID, sessionID, 0, false, true⟩ } : Registry) = reg
    have hpending : reg.pending = s.reg.pending.set req.world ⟨row.id, instanceID, sessionID, 0, false, true⟩ := by
      rw [← hreg]
    have hkeeps : Keeps s.reg reg := by
      rintro w session ⟨res, hres, hsession⟩
      have hne : w ≠ req.world := by
        rintro rfl
        cases hfree.symm.trans hres
      exact ⟨res, by rw [hpending, OrderedMap.get_set_of_ne _ hne, hres], hsession⟩
    have hreserved : Holds reg req.world sessionID := ⟨_, by rw [hpending, OrderedMap.get_set_self], rfl⟩
    refine Shared.withWorker (h.reserve (by rw [← hreg]; exact h.windows) (by rw [← hreg]) hkeeps fun w res hres => ?_) hreserved
    rw [hpending, OrderedMap.get_set] at hres
    split_ifs at hres with hw
    · cases hres
      exact ⟨row, h.named hostID row hrow ▸ hrow⟩
    · exact h.known w res hres

/-- A beat that is calm and in time takes no reservation away. -/
theorem Shared.deliver (h : Shared s) {hb : HostHeartbeat} {addr : String} {at' : ℤ} (hsent : hb ∈ s.sent)
    (hcalm : s.Calm (.deliver hb addr at')) (htidy : s.Tidy (.deliver hb addr at')) :
    Shared { s with reg := s.reg.beat hb addr at' } := by
  obtain ⟨reported, hhosts, hpending, hstale, hretain⟩ := Registry.beat_spec s.reg hb addr at'
  have hkept : ∀ row : Host, row.isPlaceable at' s.reg.staleAfter = true → ¬ s.reg.retain < at' - row.lastSeenAt := by
    intro row hrow
    have hfresh := Host.fresh_of_placeable hrow
    have hwindows := h.windows
    unfold Host.fresh at hfresh
    simp only [decide_eq_true_eq] at hfresh
    omega
  have hget : ∀ id, (s.reg.beat hb addr at').hosts.get id =
      if id = hb.hostID then some (Registry.rowOf hb addr at' reported) else s.reg.hosts.get id := by
    intro id
    rw [hhosts, Registry.evict, OrderedMap.get_filter]
    dsimp only
    rw [OrderedMap.get_set]
    split_ifs with hid
    · exact Option.filter_some_pos (by simpa using hkept (Registry.rowOf hb addr at' reported) hcalm.1)
    · rcases hrow : s.reg.hosts.get id with _ | row
      · rfl
      · exact Option.filter_some_pos (by simpa using hkept row (hcalm.2 (id, row) (s.reg.hosts.mem_entries_iff.mpr hrow) hid))
  have hknown : ∀ id, (∃ row, s.reg.hosts.get id = some row) → ∃ row, (s.reg.beat hb addr at').hosts.get id = some row := by
    rintro id ⟨row, hrow⟩
    rw [hget]
    split_ifs
    · exact ⟨_, rfl⟩
    · exact ⟨row, hrow⟩
  have hkeeps : Keeps s.reg (s.reg.beat hb addr at') := by
    rintro w session ⟨res, hres, rfl⟩
    refine ⟨Registry.answered hb res, ?_, Registry.sessionID_answered hb res⟩
    rw [hpending, Registry.get_settle]
    show ((s.reg.pending.get w).filter _).map _ = _
    rw [hres, Option.filter_some_pos]
    · rfl
    · have hhost := hknown res.hostID (h.known w res hres)
      rw [hhosts] at hhost
      unfold Registry.survives
      rw [Bool.and_eq_true_iff]
      refine ⟨(OrderedMap.has_iff _ _).mpr hhost, ?_⟩
      by_cases hbox : res.hostID = hb.hostID
      · cases hstarting : res.starting with
        | true => simp
        | false => simp [htidy (w, res) (s.reg.pending.mem_entries_iff.mpr hres) hbox hstarting]
      · simp [hbox]
  exact {
    windows := by rw [hstale, hretain]; exact h.windows
    named := by
      intro id row hrow
      dsimp only at hrow
      rw [hget] at hrow
      split_ifs at hrow with hid
      · cases hrow
        exact hid.symm
      · exact h.named id row hrow
    known := by
      intro w res hres
      dsimp only at hres
      rw [hpending, Registry.get_settle] at hres
      obtain ⟨res', hres', rfl⟩ := Option.map_eq_some_iff.mp hres
      obtain ⟨-, hsurvives⟩ := Option.filter_eq_some_iff.mp hres'
      rw [Registry.hostID_answered]
      have hhas := (Bool.and_eq_true_iff.mp hsurvives).1
      rw [← hhosts] at hhas
      exact (OrderedMap.has_iff _ _).mp hhas
    rows := by
      intro id row hrow inst hinst
      dsimp only at hrow
      rw [hget] at hrow
      split_ifs at hrow with hid
      · cases hrow
        exact (h.sent hb hsent inst hinst).keeps hkeeps
      · exact (h.rows id row hrow inst hinst).keeps hkeeps
    running := fun id inst hinst => (h.running id inst hinst).keeps hkeeps
    sent := fun hb' hhb inst hinst => (h.sent hb' hhb inst hinst).keeps hkeeps
    worker := h.worker.keeps hkeeps
    answers := fun req p hp => hkeeps _ _ (h.answers req p hp) }

/-- Every calm and tidy step keeps each world in its session. -/
theorem Shared.step (h : Shared s) {e : Event} (hcalm : s.Calm e) (htidy : s.Tidy e) : Shared (s.step e) := by
  cases e with
  | place req ordered instanceID sessionID at' =>
    simp only [System.step]
    split
    · exact h.place hcalm htidy
    · exact h
  | start port =>
    simp only [System.step]
    split
    · rename_i req placed hworker
      have hholds : Holds s.reg req.world placed.sessionID := by
        have hholds := h.worker
        rw [hworker] at hholds
        exact hholds
      refine ⟨h.windows, h.named, h.known, h.rows, fun id inst hinst => ?_, h.sent, hholds, h.answers⟩
      dsimp only at hinst
      by_cases hid : id = placed.host.id
      · rw [hid, Function.update_self, List.mem_append] at hinst
        rcases hinst with hold | hnew
        · exact h.running _ inst hold
        · rw [List.mem_singleton] at hnew
          rw [hnew]
          exact ⟨Or.inl rfl, hholds⟩
      · rw [Function.update_of_ne hid] at hinst
        exact h.running id inst hinst
    · exact h
  | started =>
    simp only [System.step]
    split
    · rename_i req placed port hworker
      have hholds : Holds s.reg req.world placed.sessionID := by
        have hholds := h.worker
        rw [hworker] at hholds
        exact hholds
      have hkeeps : Keeps s.reg (s.reg.started req.gameID req.revision placed.sessionID port) := by
        rintro w session ⟨res, hres, rfl⟩
        refine ⟨_, by rw [Registry.get_started, hres]; rfl, ?_⟩
        dsimp only
        split_ifs <;> rfl
      have hwindows : (s.reg.started req.gameID req.revision placed.sessionID port).staleAfter ≤
          (s.reg.started req.gameID req.revision placed.sessionID port).retain := by
        unfold Registry.started
        split
        · exact h.windows
        · split_ifs <;> exact h.windows
      refine (h.reserve hwindows (Registry.hosts_started _ _ _ _) hkeeps fun w res hres => ?_).answer (hkeeps _ _ hholds)
      rw [Registry.get_started] at hres
      obtain ⟨res', hres', rfl⟩ := Option.map_eq_some_iff.mp hres
      obtain ⟨row, hrow⟩ := h.known w res' hres'
      refine ⟨row, ?_⟩
      split_ifs <;> exact hrow
    · exact h
  | settle =>
    simp only [System.step]
    split
    · exact h.withWorker trivial
    · exact h
  | abandoned =>
    simp only [System.step]
    split
    · rename_i req placed hworker
      have hnone : s.reg.release req.gameID placed.sessionID = s.reg := by
        rcases Registry.release_cases s.reg req.gameID placed.sessionID with
          ⟨hsame, -⟩ | ⟨w, res, hres, hgame, hsession, -⟩
        · exact hsame
        · have hother := htidy (w, res) (s.reg.pending.mem_entries_iff.mpr hres)
          rw [hworker] at hother
          simp [Worker.answers, hgame, hsession] at hother
      rw [hnone]
      exact h.withWorker trivial
    · exact h
  | ready hostID sessionID =>
    refine ⟨h.windows, h.named, h.known, h.rows, fun id inst hinst => ?_, h.sent, h.worker, h.answers⟩
    by_cases hid : id = hostID
    · change inst ∈ Function.update s.running hostID _ id at hinst
      rw [hid, Function.update_self] at hinst
      obtain ⟨inst', hinst', rfl⟩ := List.mem_map.mp hinst
      have haccounted := h.running hostID inst' hinst'
      split_ifs
      · exact ⟨Or.inr rfl, haccounted.2⟩
      · exact haccounted
    · change inst ∈ Function.update s.running hostID _ id at hinst
      rw [Function.update_of_ne hid] at hinst
      exact h.running id inst hinst
  | compose hostID region agentPort capacity incarnation leaving =>
    refine ⟨h.windows, h.named, h.known, h.rows, h.running, fun hb hhb inst hinst => ?_, h.worker, h.answers⟩
    rcases List.mem_append.mp hhb with hold | hnew
    · exact h.sent hb hold inst hinst
    · rw [List.mem_singleton] at hnew
      rw [hnew] at hinst
      exact h.running hostID inst hinst
  | deliver hb addr at' =>
    simp only [System.step]
    split_ifs with hsent
    · exact h.deliver hsent hcalm htidy
    · exact h

/-- **One world for one game version**, over every run in which no box is stale, suspected or leaving. -/
theorem one_world (staleAfter : ℤ) (events : List Event)
    (hrun : Meets System.step (fun s e => s.Calm e ∧ s.Tidy e) (new staleAfter) events) :
    (exec System.step (new staleAfter) events).OneWorld := by
  have hstep : ∀ s e, Shared s → (s.Calm e ∧ s.Tidy e) → Shared (s.step e) := fun s e h hcond => h.step hcond.1 hcond.2
  have hshared := Meets.invariant hstep (shared_new staleAfter) hrun
  intro req p req' p' hp hp' hworld
  exact (hshared.answers req p hp).unique (hworld ▸ hshared.answers req' p' hp')

/-! ### Two runs -/

/-- A join that names no region. -/
def anywhere : PlacementRequest := ⟨"game", 1, ""⟩

def idleBeat : HostHeartbeat := ⟨"box", "eu", 7000, ⟨0, 2⟩, [], "life", false⟩

/-- The box as the balancer ranks it. -/
def idleRow : Host := Registry.rowOf idleBeat "addr" 0 .healthy

/-- Two joins, the second on the first one's reservation. -/
def sharing : List Event :=
  [.compose "box" "eu" 7000 ⟨0, 2⟩ "life" false, .deliver idleBeat "addr" 0, .place anywhere [idleRow] "i1" "s1" 1,
    .start 9000, .started, .settle, .place anywhere [idleRow] "i2" "s2" 2, .settle]

theorem one_world_sharing : (exec System.step (new 10) sharing).OneWorld :=
  one_world 10 sharing (by decide)

/-- The same joins, with a beat that was composed before the start and arrives after it. -/
def lateBeat : List Event :=
  [.compose "box" "eu" 7000 ⟨0, 2⟩ "life" false, .deliver idleBeat "addr" 0, .place anywhere [idleRow] "i1" "s1" 1,
    .start 9000, .started, .settle, .deliver idleBeat "addr" 2, .place anywhere [idleRow] "i2" "s2" 3, .start 9001, .started]

theorem lateBeat_splits : Meets System.step Calm (new 10) lateBeat ∧ ¬ (exec System.step (new 10) lateBeat).OneWorld := by
  refine ⟨by decide, fun hone => ?_⟩
  have hanswers : (exec System.step (new 10) lateBeat).answers =
      [(anywhere, ⟨idleRow, "i1", "s1", 1, 9000, true⟩), (anywhere, ⟨{ idleRow with lastSeenAt := 2 }, "i2", "s2", 1, 9001, true⟩)] := by
    decide
  have hsame := hone anywhere _ anywhere _ (hanswers ▸ List.mem_cons_self)
    (hanswers ▸ List.mem_cons_of_mem _ List.mem_cons_self) rfl
  exact absurd hsame (by decide)

end System

end Fleet
end Grove
