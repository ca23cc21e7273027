import Grove.Lib.OrderedMap
import Grove.Lib.Run

/-! # The fleet's registry

`apps/grove/server-manager/internal/fleet/registry.go`, `host.go` and `events.go`: one map of boxes
and one of the sessions placed on them that their beats have yet to account for, behind one lock.
Every method below is one critical section.  Times and durations are in nanoseconds. -/

namespace Grove
namespace Fleet

abbrev HostId := String

abbrev SessionId := String

/-! ### What a box reports -/

inductive InstanceState where
  | starting
  | healthy
  | draining
  | unhealthy
deriving DecidableEq

structure InstanceReport where
  instanceID : String
  gameID : String
  sessionID : SessionId
  state : InstanceState
  revision : ℕ
  port : ℕ
deriving DecidableEq

/-- Neither is negative in a beat that the handler lets through. -/
structure HostCapacity where
  runningInstances : ℕ
  maxInstances : ℕ
deriving DecidableEq

structure HostHeartbeat where
  hostID : HostId
  region : String
  agentPort : ℕ
  capacity : HostCapacity
  instances : List InstanceReport
  incarnation : String
  leaving : Bool
deriving DecidableEq

/-! ### Hosts -/

inductive HostLiveness where
  | healthy
  | suspected
  | left
  | failed
deriving DecidableEq

/-- One box as the last heartbeat left it, and what this service placed on it since. -/
structure Host where
  id : HostId
  region : String
  agentPort : ℕ
  capacity : HostCapacity
  instances : List InstanceReport
  addr : String
  lastSeenAt : ℤ
  /-- Filled in where the box is weighed. -/
  reserved : ℕ
  incarnation : String
  leaving : Bool
  suspected : Bool
  /-- The liveness an event was last emitted for. -/
  reported : HostLiveness
deriving DecidableEq

namespace Host

variable (h : Host)

def fresh (now staleAfter : ℤ) : Bool := now - h.lastSeenAt < staleAfter

/-- The box's own last word outranks silence. -/
def liveness (now staleAfter : ℤ) : HostLiveness :=
  if h.leaving then .left
  else if !h.fresh now staleAfter then .failed
  else if h.suspected then .suspected
  else .healthy

def isPlaceable (now staleAfter : ℤ) : Bool := h.liveness now staleAfter = .healthy

def freeSlots : ℕ := h.capacity.maxInstances - h.capacity.runningInstances - h.reserved

/-- A live session of the game that a joining player may join. -/
def serving (gameID : String) (revision : ℕ) : Option InstanceReport :=
  h.instances.find? fun inst => inst.gameID = gameID ∧ inst.revision = revision ∧ inst.state = .healthy

theorem fresh_of_placeable {h : Host} {now staleAfter : ℤ} (hplace : h.isPlaceable now staleAfter = true) :
    h.fresh now staleAfter = true := by
  unfold isPlaceable liveness at hplace
  cases hfresh : h.fresh now staleAfter with
  | true => rfl
  | false =>
    rw [hfresh] at hplace
    cases hleaving : h.leaving <;> simp [hleaving] at hplace

end Host

/-! ### The registry -/

/-- One game on one version, which is the unit a session is shared within. -/
structure World where
  gameID : String
  revision : ℕ
deriving DecidableEq

/-- One session this service handed out, on the box it was handed out for. -/
structure Reservation where
  hostID : HostId
  instanceID : String
  sessionID : SessionId
  port : ℕ
  /-- The box's own beat counts the session. -/
  reported : Bool
  /-- Until `started` or `release`. -/
  starting : Bool
deriving DecidableEq

inductive FleetEventKind where
  | registered
  | restarted
  | suspected
  | left
  | failed
  | returned
deriving DecidableEq

structure FleetEvent where
  eventID : ℕ
  hostID : HostId
  region : String
  kind : FleetEventKind
  incarnation : String
  at' : ℤ
  detail : String
deriving DecidableEq

structure Registry where
  staleAfter : ℤ
  retain : ℤ
  hosts : OrderedMap HostId Host
  pending : OrderedMap World Reservation
  /-- Transitions nobody has reported onward, oldest first. -/
  events : List FleetEvent
  /-- How many event ids were minted. -/
  minted : ℕ

/-- The box one join landed on and the ids it carries. -/
structure Placement where
  host : Host
  instanceID : String
  sessionID : SessionId
  revision : ℕ
  port : ℕ
  /-- The caller must now ask the box to start it. -/
  starts : Bool
deriving DecidableEq

structure PlacementRequest where
  gameID : String
  revision : ℕ
  /-- Empty for no preference. -/
  region : String
deriving DecidableEq

def PlacementRequest.world (req : PlacementRequest) : World := ⟨req.gameID, req.revision⟩

def retainWindows : ℤ := 120

def maxPendingEvents : ℕ := 1024

namespace Registry

/-- The product of two durations wraps, and is floored. -/
def new (staleAfter : ℤ) : Registry where
  staleAfter := staleAfter
  retain := max ((retainWindows * staleAfter).bmod (2 ^ 64)) staleAfter
  hosts := OrderedMap.empty
  pending := OrderedMap.empty
  events := []
  minted := 0

variable (reg : Registry)

/-! ### Transitions -/

def kindFor : HostLiveness → FleetEventKind
  | .suspected => .suspected
  | .left => .left
  | .failed => .failed
  | .healthy => .returned

/-- Appends one transition, dropping the oldest of too many. -/
def note (h : Host) (kind : FleetEventKind) (at' : ℤ) (detail : String) : Registry :=
  let events := reg.events ++ [⟨reg.minted, h.id, h.region, kind, h.incarnation, at', detail⟩]
  { reg with events := events.drop (events.length - maxPendingEvents), minted := reg.minted + 1 }

/-- Records a liveness that changed; the host with the new one recorded. -/
def observe (h : Host) (at' : ℤ) (detail : String) : Registry × Host :=
  let current := h.liveness at' reg.staleAfter
  if current = h.reported then (reg, h)
  else (reg.note { h with reported := current } (kindFor current) at' detail, { h with reported := current })

/-! ### Beats -/

/-- The port of a session that the beat accounts for, in any state. -/
def portOf (instances : List InstanceReport) (sessionID : SessionId) : Option ℕ :=
  (instances.find? fun inst => inst.sessionID = sessionID).map InstanceReport.port

/-- Drops a box gone far past the staleness window. -/
def evict (at' : ℤ) : Registry :=
  { reg with hosts := reg.hosts.filter fun _ h => !(reg.retain < at' - h.lastSeenAt) }

/-- A reservation survives the beat of its own box when the beat names its session or comes while it is
starting, and any other beat while its box is known. -/
def survives (hb : HostHeartbeat) (res : Reservation) : Bool :=
  reg.hosts.has res.hostID && (res.hostID ≠ hb.hostID || (portOf hb.instances res.sessionID).isSome || res.starting)

/-- The reservation after a beat that it survives. -/
def answered (hb : HostHeartbeat) (res : Reservation) : Reservation :=
  if res.hostID = hb.hostID then
    match portOf hb.instances res.sessionID with
    | some port => { res with reported := true, port := port }
    | none => res
  else res

/-- Answers the placements that this beat accounts for. -/
def settle (hb : HostHeartbeat) : Registry :=
  { reg with pending := (reg.pending.filter fun _ res => reg.survives hb res).mapValues (answered hb) }

/-- The row a beat writes, before its liveness is recorded. -/
def rowOf (hb : HostHeartbeat) (addr : String) (at' : ℤ) (reported : HostLiveness) : Host where
  id := hb.hostID
  region := hb.region
  agentPort := hb.agentPort
  capacity := hb.capacity
  instances := hb.instances
  addr := addr
  lastSeenAt := at'
  reserved := 0
  incarnation := hb.incarnation
  leaving := hb.leaving
  suspected := false
  reported := reported

/-- Records what one box reported, from the address it reported over. -/
def beat (hb : HostHeartbeat) (addr : String) (at' : ℤ) : Registry :=
  let row := rowOf hb addr at'
  let (reg, h) : Registry × Host :=
    match reg.hosts.get hb.hostID with
    | none =>
      let h := row .failed
      let h := { h with reported := h.liveness at' reg.staleAfter }
      (reg.note h .registered at' "", h)
    | some previous =>
      if previous.incarnation ≠ hb.incarnation then
        let h := row previous.reported
        let h := { h with reported := h.liveness at' reg.staleAfter }
        (reg.note h .restarted at' "", h)
      else reg.observe (row previous.reported) at' ""
  (({ reg with hosts := reg.hosts.set hb.hostID h }).evict at').settle hb

/-! ### Placements -/

/-- A named region is a hard filter. -/
def inRegion (h : Host) (region : String) : Bool := region = "" || h.region = region

/-- How many sessions were placed on a box that its own beats have yet to account for. -/
def reservedOn (hostID : HostId) : ℕ :=
  reg.pending.entries.countP fun e => e.2.hostID = hostID && !e.2.reported

/-- The loop of `serving`, at one box. -/
def weigh (key : World) (region : String) (now : ℤ) (best : Option Placement) (h : Host) : Option Placement :=
  if h.isPlaceable now reg.staleAfter && inRegion h region then
    match h.serving key.gameID key.revision with
    | none => best
    | some inst =>
      if best.all fun b => h.id < b.host.id then
        some ⟨h, inst.instanceID, inst.sessionID, inst.revision, inst.port, false⟩
      else best
  else best

/-- The running session a joiner of the world joins: of those on placeable boxes, the one on the box
with the lowest id. -/
def serving (key : World) (region : String) (now : ℤ) : Option Placement :=
  reg.hosts.values.foldl (reg.weigh key region now) none

/-- The beat names the session draining or unhealthy. -/
def ailing (instances : List InstanceReport) (sessionID : SessionId) : Bool :=
  instances.any fun inst => inst.sessionID = sessionID && (inst.state = .draining || inst.state = .unhealthy)

/-- The placement this world was already given. -/
def held (key : World) (region : String) (now : ℤ) : Option Placement :=
  match reg.pending.get key with
  | none => none
  | some res =>
    match reg.hosts.get res.hostID with
    | none => none
    | some h =>
      if !h.isPlaceable now reg.staleAfter then none
      else if !inRegion h region then none
      else if ailing h.instances res.sessionID then none
      else some ⟨h, res.instanceID, res.sessionID, key.revision, res.port, false⟩

/-- A box the balancer ranked, re-read, if it will still take a session. -/
def placeable (hostID : HostId) (region : String) (now : ℤ) : Option Host :=
  match reg.hosts.get hostID with
  | none => none
  | some h =>
    if !h.isPlaceable now reg.staleAfter then none
    else if !inRegion h region then none
    else
      let h := { h with reserved := reg.reservedOn hostID }
      if 0 < h.freeSlots then some h else none

/-- Answers one join; the ids are those `NewUUID` mints for it, used when nothing holds its world. -/
def place (req : PlacementRequest) (ordered : List Host) (instanceID : String) (sessionID : SessionId) (at' : ℤ) :
    Option Placement × Registry :=
  match reg.serving req.world req.region at' with
  | some running => (some running, reg)
  | none =>
    match reg.held req.world req.region at' with
    | some held => (some held, reg)
    | none =>
      match ordered.findSome? fun ranked => reg.placeable ranked.id req.region at' with
      | none => (none, reg)
      | some host =>
        (some ⟨host, instanceID, sessionID, req.revision, 0, true⟩,
          { reg with pending := reg.pending.set req.world ⟨host.id, instanceID, sessionID, 0, false, true⟩ })

/-- Records the port a box bound for a session that it was asked to start. -/
def started (gameID : String) (revision : ℕ) (sessionID : SessionId) (port : ℕ) : Registry :=
  match reg.pending.get ⟨gameID, revision⟩ with
  | none => reg
  | some res =>
    if res.sessionID = sessionID then
      { reg with pending := reg.pending.set ⟨gameID, revision⟩ { res with port := port, starting := false } }
    else reg

/-- Hands back the slot a placement held.  No two entries hold one session of one game. -/
def release (gameID : String) (sessionID : SessionId) : Registry :=
  match reg.pending.entries.find? fun e => e.1.gameID = gameID ∧ e.2.sessionID = sessionID with
  | none => reg
  | some e => { reg with pending := reg.pending.delete e.1 }

/-! ### What else is heard of a box -/

/-- A box answered a redeploy with these instances. -/
def draining (hostID : HostId) (instanceIDs : List String) : Registry :=
  match reg.hosts.get hostID with
  | none => reg
  | some h =>
    let instances := h.instances.map fun inst =>
      if inst.instanceID ∈ instanceIDs then { inst with state := .draining } else inst
    { reg with hosts := reg.hosts.set hostID { h with instances := instances } }

/-- Work this service dispatched failed against the box. -/
def suspect (hostID : HostId) (detail : String) (at' : ℤ) : Registry :=
  match reg.hosts.get hostID with
  | none => reg
  | some h =>
    if h.suspected then reg
    else
      let (reg, h) := reg.observe { h with suspected := true } at' detail
      { reg with hosts := reg.hosts.set hostID h }

/-- Records the boxes that have gone quiet. -/
def sweep (now : ℤ) : Registry :=
  reg.hosts.entries.foldl (fun reg e =>
    let (reg, h) := reg.observe e.2 now ""
    { reg with hosts := reg.hosts.set e.1 h }) reg

/-! ### What each method does -/

variable {reg}

/-- A transition is noted in the events alone. -/
theorem note_eq (reg : Registry) (h : Host) (kind : FleetEventKind) (at' : ℤ) (detail : String) :
    ∃ events, reg.note h kind at' detail = { reg with events := events, minted := reg.minted + 1 } := ⟨_, rfl⟩

/-- A row that is observed has its liveness recorded, and no other change. -/
theorem observe_eq (reg : Registry) (h : Host) (at' : ℤ) (detail : String) :
    ∃ events minted reported,
      reg.observe h at' detail = ({ reg with events := events, minted := minted }, { h with reported := reported }) := by
  unfold observe
  dsimp only
  split_ifs
  · exact ⟨reg.events, reg.minted, h.reported, rfl⟩
  · obtain ⟨events, hnote⟩ := note_eq reg
      { h with reported := h.liveness at' reg.staleAfter } (kindFor (h.liveness at' reg.staleAfter)) at' detail
    rw [hnote]
    exact ⟨events, reg.minted + 1, _, rfl⟩

/-- A beat replaces the row of its box, drops the boxes long gone and settles the reservations. -/
theorem beat_spec (reg : Registry) (hb : HostHeartbeat) (addr : String) (at' : ℤ) :
    ∃ reported, (reg.beat hb addr at').hosts =
        ({ reg with hosts := reg.hosts.set hb.hostID (rowOf hb addr at' reported) }.evict at').hosts ∧
      (reg.beat hb addr at').pending =
        (({ reg with hosts := reg.hosts.set hb.hostID (rowOf hb addr at' reported) }.evict at').settle hb).pending ∧
      (reg.beat hb addr at').staleAfter = reg.staleAfter ∧ (reg.beat hb addr at').retain = reg.retain := by
  unfold beat
  rcases hprevious : reg.hosts.get hb.hostID with _ | previous
  · dsimp only
    obtain ⟨events, hnote⟩ := note_eq reg { rowOf hb addr at' .failed with
      reported := (rowOf hb addr at' .failed).liveness at' reg.staleAfter } .registered at' ""
    rw [hnote]
    exact ⟨_, rfl, rfl, rfl, rfl⟩
  · dsimp only
    split_ifs with hrestarted
    · obtain ⟨events, hnote⟩ := note_eq reg { rowOf hb addr at' previous.reported with
        reported := (rowOf hb addr at' previous.reported).liveness at' reg.staleAfter } .restarted at' ""
      rw [hnote]
      exact ⟨_, rfl, rfl, rfl, rfl⟩
    · obtain ⟨events, minted, reported, hobserve⟩ := observe_eq reg (rowOf hb addr at' previous.reported) at' ""
      rw [hobserve]
      exact ⟨reported, rfl, rfl, rfl, rfl⟩

/-- A reservation after a beat. -/
theorem get_settle (hb : HostHeartbeat) (w : World) :
    (reg.settle hb).pending.get w = ((reg.pending.get w).filter (reg.survives hb)).map (answered hb) := by
  unfold settle
  rw [OrderedMap.get_mapValues, OrderedMap.get_filter]

theorem sessionID_answered (hb : HostHeartbeat) (res : Reservation) : (answered hb res).sessionID = res.sessionID := by
  unfold answered
  split_ifs
  · cases portOf hb.instances res.sessionID <;> rfl
  · rfl

theorem hostID_answered (hb : HostHeartbeat) (res : Reservation) : (answered hb res).hostID = res.hostID := by
  unfold answered
  split_ifs
  · cases portOf hb.instances res.sessionID <;> rfl
  · rfl

/-- A placement on a session that a placeable box reports healthy. -/
def Serves (reg : Registry) (key : World) (now : ℤ) (row : Host) (p : Placement) : Prop :=
  row.isPlaceable now reg.staleAfter = true ∧ ∃ inst, row.serving key.gameID key.revision = some inst ∧
    p = ⟨row, inst.instanceID, inst.sessionID, inst.revision, inst.port, false⟩

theorem weigh_some {key : World} {region : String} {now : ℤ} {best : Option Placement} {row : Host} {p : Placement}
    (h : reg.weigh key region now best row = some p) : best = some p ∨ reg.Serves key now row p := by
  unfold weigh at h
  by_cases hplace : (row.isPlaceable now reg.staleAfter && inRegion row region) = true
  · rw [if_pos hplace] at h
    rcases hinst : row.serving key.gameID key.revision with _ | inst
    · rw [hinst] at h
      exact Or.inl h
    · rw [hinst] at h
      dsimp only at h
      split_ifs at h with hless
      · exact Or.inr ⟨(Bool.and_eq_true_iff.mp hplace).1, inst, hinst, (Option.some.inj h).symm⟩
      · exact Or.inl h
  · rw [if_neg hplace] at h
    exact Or.inl h

theorem serving_some {key : World} {region : String} {now : ℤ} {p : Placement} (h : reg.serving key region now = some p) :
    ∃ id row, reg.hosts.get id = some row ∧ reg.Serves key now row p := by
  have hfold : ∀ (rows : List Host) (best : Option Placement), rows.foldl (reg.weigh key region now) best = some p →
      best = some p ∨ ∃ row ∈ rows, reg.Serves key now row p := by
    intro rows
    induction rows with
    | nil => exact fun best h => Or.inl h
    | cons row rows ih =>
      intro best h
      rcases ih _ h with hbest | ⟨row', hmem, hrow'⟩
      · rcases weigh_some hbest with hbest | hrow
        · exact Or.inl hbest
        · exact Or.inr ⟨row, List.mem_cons_self, hrow⟩
      · exact Or.inr ⟨row', List.mem_cons_of_mem _ hmem, hrow'⟩
  rcases hfold _ _ h with hnone | ⟨row, hmem, hrow⟩
  · cases hnone
  · obtain ⟨⟨id, row'⟩, hentry, rfl⟩ := List.mem_map.mp hmem
    exact ⟨id, row', reg.hosts.mem_entries_iff.mp hentry, hrow⟩

theorem held_some {key : World} {region : String} {now : ℤ} {p : Placement} (h : reg.held key region now = some p) :
    ∃ res row, reg.pending.get key = some res ∧ reg.hosts.get res.hostID = some row ∧
      p = ⟨row, res.instanceID, res.sessionID, key.revision, res.port, false⟩ := by
  unfold held at h
  rcases hres : reg.pending.get key with _ | res
  · rw [hres] at h
    cases h
  · rw [hres] at h
    dsimp only at h
    rcases hrow : reg.hosts.get res.hostID with _ | row
    · rw [hrow] at h
      cases h
    · rw [hrow] at h
      dsimp only at h
      split_ifs at h
      exact ⟨res, row, rfl, hrow, (Option.some.inj h).symm⟩

theorem placeable_some {hostID : HostId} {region : String} {now : ℤ} {host : Host}
    (h : reg.placeable hostID region now = some host) :
    ∃ row, reg.hosts.get hostID = some row ∧ row.isPlaceable now reg.staleAfter = true ∧
      host = { row with reserved := reg.reservedOn hostID } ∧ 0 < host.freeSlots := by
  unfold placeable at h
  rcases hrow : reg.hosts.get hostID with _ | row
  · rw [hrow] at h
    cases h
  · rw [hrow] at h
    dsimp only at h
    split_ifs at h with hplace hregion hfree
    obtain rfl := Option.some.inj h
    exact ⟨row, rfl, by simpa using hplace, rfl, hfree⟩

/-- A placement on a running world, on a reservation, or on a box with a slot to spare. -/
theorem place_cases (reg : Registry) (req : PlacementRequest) (ordered : List Host) (instanceID : String) (sessionID : SessionId) (at' : ℤ) :
    (∃ p, reg.serving req.world req.region at' = some p ∧ reg.place req ordered instanceID sessionID at' = (some p, reg)) ∨
    (∃ p, reg.held req.world req.region at' = some p ∧ reg.place req ordered instanceID sessionID at' = (some p, reg)) ∨
    reg.place req ordered instanceID sessionID at' = (none, reg) ∨
    ∃ hostID host, reg.serving req.world req.region at' = none ∧ reg.held req.world req.region at' = none ∧
      (ordered.findSome? fun ranked => reg.placeable ranked.id req.region at').isSome = true ∧
      reg.placeable hostID req.region at' = some host ∧ reg.place req ordered instanceID sessionID at' =
        (some ⟨host, instanceID, sessionID, req.revision, 0, true⟩,
          { reg with pending := reg.pending.set req.world ⟨host.id, instanceID, sessionID, 0, false, true⟩ }) := by
  unfold place
  rcases hserving : reg.serving req.world req.region at' with _ | running
  · rcases hheld : reg.held req.world req.region at' with _ | held
    · dsimp only
      rcases hfound : ordered.findSome? fun ranked => reg.placeable ranked.id req.region at' with _ | host
      · rw [hfound]
        exact Or.inr (Or.inr (Or.inl rfl))
      · rw [hfound]
        obtain ⟨ranked, -, hranked⟩ := List.exists_of_findSome?_eq_some hfound
        exact Or.inr (Or.inr (Or.inr ⟨ranked.id, host, rfl, rfl, rfl, hranked, rfl⟩))
    · exact Or.inr (Or.inl ⟨held, rfl, rfl⟩)
  · exact Or.inl ⟨running, rfl, rfl⟩

theorem get_started (gameID : String) (revision : ℕ) (sessionID : SessionId) (port : ℕ) (w : World) :
    (reg.started gameID revision sessionID port).pending.get w = (reg.pending.get w).map fun res =>
      if w = ⟨gameID, revision⟩ ∧ res.sessionID = sessionID then { res with port := port, starting := false } else res := by
  unfold started
  rcases hres : reg.pending.get ⟨gameID, revision⟩ with _ | res
  · dsimp only
    by_cases hw : w = ⟨gameID, revision⟩
    · rw [hw, hres]
      rfl
    · simp [hw]
  · dsimp only
    by_cases hw : w = ⟨gameID, revision⟩
    · subst hw
      rw [hres]
      split_ifs with hsession
      · simp [hsession]
      · simp [hsession, hres]
    · split_ifs with hsession
      · simp [hw, OrderedMap.get_set_of_ne _ hw]
      · simp [hw]

theorem hosts_started (gameID : String) (revision : ℕ) (sessionID : SessionId) (port : ℕ) :
    (reg.started gameID revision sessionID port).hosts = reg.hosts := by
  unfold started
  split
  · rfl
  · split_ifs <;> rfl

/-- What is handed back is a reservation of that session. -/
theorem release_cases (reg : Registry) (gameID : String) (sessionID : SessionId) :
    (reg.release gameID sessionID = reg ∧ ∀ w res, reg.pending.get w = some res →
      ¬ (w.gameID = gameID ∧ res.sessionID = sessionID)) ∨
    ∃ w res, reg.pending.get w = some res ∧ w.gameID = gameID ∧ res.sessionID = sessionID ∧
      reg.release gameID sessionID = { reg with pending := reg.pending.delete w } := by
  unfold release
  rcases hfound : reg.pending.entries.find? fun e => e.1.gameID = gameID ∧ e.2.sessionID = sessionID with _ | ⟨w, res⟩
  · rw [hfound]
    refine Or.inl ⟨rfl, fun w res hres => ?_⟩
    simpa using List.find?_eq_none.mp hfound (w, res) (reg.pending.mem_entries_iff.mpr hres)
  · rw [hfound]
    have hmatch := List.find?_some hfound
    simp only [decide_eq_true_eq] at hmatch
    exact Or.inr ⟨w, res, reg.pending.mem_entries_iff.mp (List.mem_of_find?_eq_some hfound), hmatch.1, hmatch.2, rfl⟩

end Registry

end Fleet
end Grove
