import Grove.Fleet.Registry

/-! # The slots of a box

A placement that starts a world spends a slot of its box until the box's own beats count the world.
The slots spent are the entries of a map keyed by world, so an entry that is written over gives back
a slot that is still in use. -/

namespace Grove
namespace Fleet

/-- One call of the registry. -/
inductive Call where
  | beat (hb : HostHeartbeat) (addr : String) (at' : ℤ)
  | place (req : PlacementRequest) (ordered : List Host) (instanceID : String) (sessionID : SessionId) (at' : ℤ)
  | started (gameID : String) (revision : ℕ) (sessionID : SessionId) (port : ℕ)
  | release (gameID : String) (sessionID : SessionId)
  | draining (hostID : HostId) (instanceIDs : List String)
  | suspect (hostID : HostId) (detail : String) (at' : ℤ)
  | sweep (now : ℤ)

namespace Registry

variable (reg : Registry)

def call : Call → Registry
  | .beat hb addr at' => reg.beat hb addr at'
  | .place req ordered instanceID sessionID at' => (reg.place req ordered instanceID sessionID at').2
  | .started gameID revision sessionID port => reg.started gameID revision sessionID port
  | .release gameID sessionID => reg.release gameID sessionID
  | .draining hostID instanceIDs => reg.draining hostID instanceIDs
  | .suspect hostID detail at' => reg.suspect hostID detail at'
  | .sweep now => reg.sweep now

/-- No call takes away a reservation whose slot is still in use. -/
def Spares : Call → Prop
  -- A world is placed anew only when its reservation is reported and started, or there is none.
  | .place req ordered _ _ at' => reg.serving req.world req.region at' = none → reg.held req.world req.region at' = none →
      (ordered.findSome? fun ranked => reg.placeable ranked.id req.region at').isSome = true →
      (reg.pending.get req.world).all (fun res => res.reported && !res.starting) = true
  -- No box is evicted while it starts a world.
  | .beat hb addr at' => ∀ e ∈ reg.pending.entries, e.2.starting = true →
      ((reg.hosts.set hb.hostID (rowOf hb addr at' .healthy)).get e.2.hostID).all
        (fun row => !(reg.retain < at' - row.lastSeenAt)) = true
  | _ => True

instance Spares.decidable : ∀ c, Decidable (reg.Spares c)
  | .place req ordered _ _ at' => inferInstanceAs (Decidable
      (reg.serving req.world req.region at' = none → reg.held req.world req.region at' = none →
        (ordered.findSome? fun ranked => reg.placeable ranked.id req.region at').isSome = true →
        (reg.pending.get req.world).all (fun res => res.reported && !res.starting) = true))
  | .beat hb addr at' => inferInstanceAs (Decidable (∀ e ∈ reg.pending.entries, e.2.starting = true →
      ((reg.hosts.set hb.hostID (rowOf hb addr at' .healthy)).get e.2.hostID).all
        (fun row => !(reg.retain < at' - row.lastSeenAt)) = true))
  | .started .. | .release .. | .draining .. | .suspect .. | .sweep _ => inferInstanceAs (Decidable True)

/-- A reservation whose world is still being started outlives the call, unless it is the one handed back. -/
def Kept (c : Call) : Prop :=
  ∀ w res, reg.pending.get w = some res → res.starting = true → c ≠ .release w.gameID res.sessionID →
    ∃ res', (reg.call c).pending.get w = some res' ∧ res'.sessionID = res.sessionID ∧ res'.hostID = res.hostID

end Registry

/-! ### What a box was given since its last beat -/

structure Tally where
  reg : Registry
  /-- The capacity that the box's last beat named. -/
  opened : HostCapacity
  /-- The placements that answered it to be started there since then, and were not released. -/
  starts : List (World × SessionId)

namespace Tally

def new (staleAfter : ℤ) : Tally := ⟨.new staleAfter, ⟨0, 0⟩, []⟩

/-- The starts of box `hostID` after a call. -/
def startsAfter (hostID : HostId) (t : Tally) : Call → List (World × SessionId)
  | .beat hb _ _ => if hb.hostID = hostID then [] else t.starts
  | .place req ordered instanceID sessionID at' =>
    match (t.reg.place req ordered instanceID sessionID at').1 with
    | none => t.starts
    | some placed =>
      if placed.starts = true ∧ placed.host.id = hostID then t.starts ++ [(req.world, placed.sessionID)] else t.starts
  | .release gameID sessionID => t.starts.filter fun e => ¬ (e.1.gameID = gameID ∧ e.2 = sessionID)
  | .started .. | .draining .. | .suspect .. | .sweep _ => t.starts

def openedAfter (hostID : HostId) (t : Tally) : Call → HostCapacity
  | .beat hb _ _ => if hb.hostID = hostID then hb.capacity else t.opened
  | _ => t.opened

def step (hostID : HostId) (t : Tally) (c : Call) : Tally :=
  ⟨t.reg.call c, t.openedAfter hostID c, t.startsAfter hostID c⟩

theorem reg_exec (hostID : HostId) (calls : List Call) (t : Tally) :
    (exec (step hostID) t calls).reg = exec Registry.call t.reg calls := by
  induction calls generalizing t with
  | nil => rfl
  | cons c calls ih => exact ih (step hostID t c)

end Tally

/-! ### Rows and reservations -/

namespace Registry

variable {reg reg' : Registry}

/-- What the slots of a box are reckoned from. -/
def reckoned (reg : Registry) (id : HostId) : Option (HostId × HostCapacity) :=
  (reg.hosts.get id).map fun row => (row.id, row.capacity)

/-- The call changed neither the reservations nor what slots are reckoned from. -/
structure Aside (reg reg' : Registry) : Prop where
  pending : reg'.pending = reg.pending
  reckoned : ∀ id, reg'.reckoned id = reg.reckoned id

theorem Aside.refl (reg : Registry) : Aside reg reg := ⟨rfl, fun _ => rfl⟩

theorem Aside.trans {reg'' : Registry} (h : Aside reg reg') (h' : Aside reg' reg'') : Aside reg reg'' :=
  ⟨h'.pending.trans h.pending, fun id => (h'.reckoned id).trans (h.reckoned id)⟩

/-- A row that was written again, with what is reckoned left alone. -/
theorem Aside.set (id : HostId) {row : Host} (row' : Host) (hrow : reg.reckoned id = some (row.id, row.capacity))
    (hid : row'.id = row.id) (hcapacity : row'.capacity = row.capacity) (events : List FleetEvent) (minted : ℕ) :
    Aside reg { reg with hosts := reg.hosts.set id row', events := events, minted := minted } := by
  refine ⟨rfl, fun id' => ?_⟩
  unfold Registry.reckoned
  dsimp only
  rw [OrderedMap.get_set]
  split_ifs with hsame
  · rw [hsame]
    rw [Registry.reckoned] at hrow
    rw [hrow, Option.map_some, hid, hcapacity]
  · rfl

theorem reckoned_some {id : HostId} {row : Host} (h : reg.hosts.get id = some row) :
    reg.reckoned id = some (row.id, row.capacity) := by
  rw [reckoned, h]
  rfl

theorem aside_draining (hostID : HostId) (instanceIDs : List String) : Aside reg (reg.draining hostID instanceIDs) := by
  unfold draining
  split
  · exact .refl reg
  · rename_i row hrow
    dsimp only
    refine .set hostID _ (reckoned_some hrow) ?_ ?_ _ _
    · rfl
    · rfl

theorem aside_suspect (hostID : HostId) (detail : String) (at' : ℤ) : Aside reg (reg.suspect hostID detail at') := by
  unfold suspect
  split
  · exact .refl reg
  · rename_i row hrow
    split_ifs with hsuspected
    · exact .refl reg
    · obtain ⟨events, minted, reported, hobserve⟩ := observe_eq reg { row with suspected := true } at' detail
      rw [hobserve]
      dsimp only
      refine .set hostID _ (reckoned_some hrow) ?_ ?_ _ _
      · rfl
      · rfl

theorem aside_sweep (now : ℤ) : Aside reg (reg.sweep now) := by
  have hfold : ∀ (rows : List (HostId × Host)) (reg' : Registry), Aside reg reg' →
      (∀ e ∈ rows, reg.reckoned e.1 = some (e.2.id, e.2.capacity)) →
      Aside reg (rows.foldl (fun reg e =>
        { (reg.observe e.2 now "").1 with hosts := (reg.observe e.2 now "").1.hosts.set e.1 (reg.observe e.2 now "").2 }) reg') := by
    intro rows
    induction rows with
    | nil => exact fun _ h _ => h
    | cons e rows ih =>
      intro reg' haside hrows
      refine ih _ (haside.trans ?_) fun e' he' => hrows e' (List.mem_cons_of_mem _ he')
      obtain ⟨events, minted, reported, hobserve⟩ := observe_eq reg' e.2 now ""
      dsimp only
      rw [hobserve]
      refine .set e.1 _ ((haside.reckoned e.1).trans (hrows e List.mem_cons_self)) ?_ ?_ _ _
      · rfl
      · rfl
  exact hfold reg.hosts.entries reg (.refl reg) fun e he => reckoned_some (reg.hosts.mem_entries_iff.mp he)

theorem reckoned_beat (reg : Registry) (hb : HostHeartbeat) (addr : String) (at' : ℤ) (id : HostId) :
    (reg.beat hb addr at').reckoned id = none ∨ (reg.beat hb addr at').reckoned id =
      if id = hb.hostID then some (hb.hostID, hb.capacity) else reg.reckoned id := by
  obtain ⟨reported, hhosts, -⟩ := beat_spec reg hb addr at'
  unfold reckoned
  rw [hhosts, evict, OrderedMap.get_filter]
  dsimp only
  rw [OrderedMap.get_set]
  split_ifs with hid
  · cases hkept : Option.filter _ (some (rowOf hb addr at' reported)) with
    | none => exact Or.inl rfl
    | some row =>
      obtain rfl := Option.some.inj (Option.filter_eq_some_iff.mp hkept).1
      exact Or.inr rfl
  · cases hkept : Option.filter _ (reg.hosts.get id) with
    | none => exact Or.inl rfl
    | some row =>
      rw [(Option.filter_eq_some_iff.mp hkept).1]
      exact Or.inr rfl

theorem has_beat (reg : Registry) (hb : HostHeartbeat) (addr : String) (at' : ℤ) (id : HostId) :
    (reg.beat hb addr at').hosts.has id = ((reg.beat hb addr at').reckoned id).isSome := by
  unfold reckoned
  rw [Option.isSome_map]
  rfl

/-- A reservation after a beat is one before it, on a box that is still known. -/
theorem pending_beat {hb : HostHeartbeat} {addr : String} {at' : ℤ} {w : World} {res' : Reservation}
    (h : (reg.beat hb addr at').pending.get w = some res') :
    ∃ res, reg.pending.get w = some res ∧ res' = answered hb res ∧
      ((reg.beat hb addr at').reckoned res.hostID).isSome = true := by
  obtain ⟨reported, hhosts, hpending, -⟩ := beat_spec reg hb addr at'
  rw [hpending, get_settle] at h
  obtain ⟨res, hres, rfl⟩ := Option.map_eq_some_iff.mp h
  obtain ⟨hget, hsurvives⟩ := Option.filter_eq_some_iff.mp hres
  refine ⟨res, hget, rfl, ?_⟩
  rw [← has_beat, hhosts]
  exact (Bool.and_eq_true_iff.mp hsurvives).1

/-- A reservation on a known box is kept by the beats of other boxes, and by its own while it starts. -/
theorem pending_beat_kept {hb : HostHeartbeat} {addr : String} {at' : ℤ} {w : World} {res : Reservation}
    (h : reg.pending.get w = some res) (hknown : ((reg.beat hb addr at').reckoned res.hostID).isSome = true)
    (hother : res.hostID ≠ hb.hostID ∨ res.starting = true) :
    (reg.beat hb addr at').pending.get w = some (answered hb res) := by
  rw [← has_beat] at hknown
  obtain ⟨reported, hhosts, hpending, -⟩ := beat_spec reg hb addr at'
  rw [hhosts] at hknown
  rw [hpending, get_settle]
  show ((reg.pending.get w).filter _).map _ = _
  rw [h, Option.filter_some_pos]
  · rfl
  · refine Bool.and_eq_true_iff.mpr ⟨hknown, ?_⟩
    rcases hother with hother | hother <;> simp [hother]

end Registry

/-! ### The starts of an interval are slots still spent -/

structure Balanced (hostID : HostId) (t : Tally) : Prop where
  named : ∀ id p, t.reg.reckoned id = some p → p.1 = id
  known : ∀ w res, t.reg.pending.get w = some res → (t.reg.reckoned res.hostID).isSome = true
  bound : t.starts.length ≤ t.opened.maxInstances - t.opened.runningInstances
  capacity : ∀ p, t.reg.reckoned hostID = some p → p.2 = t.opened
  distinct : (t.starts.map Prod.fst).Nodup
  /-- While the box is known, each start still holds its slot. -/
  spent : (t.reg.reckoned hostID).isSome = true → ∀ e ∈ t.starts, ∃ res, t.reg.pending.get e.1 = some res ∧
    res.hostID = hostID ∧ res.sessionID = e.2 ∧ res.reported = false

variable {hostID : HostId} {t : Tally}

theorem balanced_new (hostID : HostId) (staleAfter : ℤ) : Balanced hostID (.new staleAfter) where
  named := fun _ _ h => by cases h
  known := fun _ _ h => by cases h
  bound := Nat.le_refl 0
  capacity := fun _ h => by cases h
  distinct := List.nodup_nil
  spent := fun _ _ h => by cases h

theorem Balanced.starts_le (h : Balanced hostID t) (hknown : (t.reg.reckoned hostID).isSome = true) :
    t.starts.length ≤ t.reg.reservedOn hostID := by
  have hsub : t.starts.map Prod.fst ⊆
      (t.reg.pending.entries.filter fun e => e.2.hostID = hostID && !e.2.reported).map Prod.fst := by
    intro w hw
    obtain ⟨e, he, rfl⟩ := List.mem_map.mp hw
    obtain ⟨res, hres, hhost, -, hreported⟩ := h.spent hknown e he
    exact List.mem_map.mpr ⟨(e.1, res), List.mem_filter.mpr ⟨t.reg.pending.mem_entries_iff.mpr hres, by simp [hhost, hreported]⟩, rfl⟩
  have hle := (List.subperm_of_subset h.distinct hsub).length_le
  rw [List.length_map, List.length_map, ← List.countP_eq_length_filter] at hle
  exact hle

theorem Balanced.aside (h : Balanced hostID t) {reg : Registry} (haside : t.reg.Aside reg) :
    Balanced hostID { t with reg := reg } where
  named := fun id p hp => h.named id p ((haside.reckoned id).symm.trans hp)
  known := fun w res hres => by
    rw [haside.pending] at hres
    rw [haside.reckoned]
    exact h.known w res hres
  bound := h.bound
  capacity := fun p hp => h.capacity p ((haside.reckoned hostID).symm.trans hp)
  distinct := h.distinct
  spent := fun hknown e he => by
    rw [haside.reckoned] at hknown
    rw [haside.pending]
    exact h.spent hknown e he

theorem reckoned_started (reg : Registry) (gameID : String) (revision : ℕ) (sessionID : SessionId) (port : ℕ) (id : HostId) :
    (reg.started gameID revision sessionID port).reckoned id = reg.reckoned id := by
  unfold Registry.reckoned
  rw [Registry.hosts_started]

theorem Balanced.started (h : Balanced hostID t) (gameID : String) (revision : ℕ) (sessionID : SessionId) (port : ℕ) :
    Balanced hostID { t with reg := t.reg.started gameID revision sessionID port } where
  named := fun id p hp => h.named id p ((reckoned_started _ _ _ _ _ id).symm.trans hp)
  known := fun w res hres => by
    rw [reckoned_started]
    dsimp only at hres
    rw [Registry.get_started] at hres
    obtain ⟨res', hres', rfl⟩ := Option.map_eq_some_iff.mp hres
    split_ifs <;> exact h.known w res' hres'
  bound := h.bound
  capacity := fun p hp => h.capacity p ((reckoned_started _ _ _ _ _ hostID).symm.trans hp)
  distinct := h.distinct
  spent := fun hknown e he => by
    rw [reckoned_started] at hknown
    obtain ⟨res, hres, hhost, hsession, hreported⟩ := h.spent hknown e he
    refine ⟨_, by rw [Registry.get_started, hres]; rfl, ?_⟩
    dsimp only
    split_ifs <;> exact ⟨hhost, hsession, hreported⟩

theorem Balanced.release (h : Balanced hostID t) (gameID : String) (sessionID : SessionId) :
    Balanced hostID (t.step hostID (.release gameID sessionID)) := by
  have hdistinct : ((t.startsAfter hostID (.release gameID sessionID)).map Prod.fst).Nodup :=
    h.distinct.sublist (List.Sublist.map _ List.filter_sublist)
  have hbound : (t.startsAfter hostID (.release gameID sessionID)).length ≤
      t.opened.maxInstances - t.opened.runningInstances := (List.length_filter_le _ _).trans h.bound
  have hstarts : ∀ e ∈ t.startsAfter hostID (.release gameID sessionID),
      e ∈ t.starts ∧ ¬ (e.1.gameID = gameID ∧ e.2 = sessionID) := by
    intro e he
    obtain ⟨hold, hkept⟩ := List.mem_filter.mp he
    exact ⟨hold, of_decide_eq_true hkept⟩
  rcases Registry.release_cases t.reg gameID sessionID with ⟨hsame, -⟩ | ⟨w, res, hres, hgame, hsession, hrelease⟩
  · unfold Tally.step Registry.call
    simp only [hsame]
    exact ⟨h.named, h.known, hbound, h.capacity, hdistinct, fun hknown e he => h.spent hknown e (hstarts e he).1⟩
  · unfold Tally.step Registry.call
    simp only [hrelease]
    refine ⟨h.named, fun w' res' hres' => ?_, hbound, h.capacity, hdistinct, fun hknown e he => ?_⟩
    · dsimp only at hres'
      rw [OrderedMap.get_delete] at hres'
      split_ifs at hres' with hw
      exact h.known w' res' hres'
    · obtain ⟨hold, hkept⟩ := hstarts e he
      obtain ⟨res', hres', hhost, hsession', hreported⟩ := h.spent hknown e hold
      have hne : e.1 ≠ w := by
        rintro rfl
        rw [Option.some.inj (hres.symm.trans hres')] at hsession
        exact hkept ⟨hgame, hsession'.symm.trans hsession⟩
      exact ⟨res', (OrderedMap.get_delete_of_ne _ hne).trans hres', hhost, hsession', hreported⟩

theorem Balanced.place (h : Balanced hostID t) {req : PlacementRequest} {ordered : List Host} {instanceID : String}
    {sessionID : SessionId} {at' : ℤ} (hspares : t.reg.Spares (.place req ordered instanceID sessionID at')) :
    Balanced hostID (t.step hostID (.place req ordered instanceID sessionID at')) := by
  unfold Tally.step Registry.call Tally.startsAfter Tally.openedAfter
  rcases Registry.place_cases t.reg req ordered instanceID sessionID at' with
    ⟨p, hp, hplace⟩ | ⟨p, hp, hplace⟩ | hplace | ⟨ranked, host, hserving, hheld, hfound, hhost, hplace⟩
  · obtain ⟨id, row, -, -, inst, -, hfields⟩ := Registry.serving_some hp
    simp only [hplace, hfields, Bool.false_eq_true, false_and, if_false]
    exact h
  · obtain ⟨res, row, -, -, hfields⟩ := Registry.held_some hp
    simp only [hplace, hfields, Bool.false_eq_true, false_and, if_false]
    exact h
  · simp only [hplace]
    exact h
  · obtain ⟨row, hrow, -, rfl, hfree⟩ := Registry.placeable_some hhost
    simp only [hplace, true_and]
    have hrecorded : t.reg.reckoned ranked = some (row.id, row.capacity) := Registry.reckoned_some hrow
    have hid : row.id = ranked := h.named _ _ hrecorded
    have hfresh : ∀ e ∈ t.starts, (t.reg.reckoned hostID).isSome = true → e.1 ≠ req.world := by
      rintro e he hknown hworld
      obtain ⟨res, hres, -, -, hreported⟩ := h.spent hknown e he
      have hspent := hspares hserving hheld hfound
      rw [← hworld, hres] at hspent
      simp [hreported] at hspent
    have hget : ∀ e ∈ t.starts, (t.reg.reckoned hostID).isSome = true → ∃ res,
        (t.reg.pending.set req.world ⟨row.id, instanceID, sessionID, 0, false, true⟩).get e.1 = some res ∧
          res.hostID = hostID ∧ res.sessionID = e.2 ∧ res.reported = false := by
      intro e he hknown
      rw [OrderedMap.get_set_of_ne _ (hfresh e he hknown)]
      exact h.spent hknown e he
    have hreserved : ∀ w res,
        (t.reg.pending.set req.world ⟨row.id, instanceID, sessionID, 0, false, true⟩).get w = some res →
          (t.reg.reckoned res.hostID).isSome = true := by
      intro w res hres
      rw [OrderedMap.get_set] at hres
      split_ifs at hres with hw
      · cases hres
        rw [hid, hrecorded]
        rfl
      · exact h.known w res hres
    split_ifs with hbox
    · have hranked : hostID = ranked := hbox.symm.trans hid
      have hknown : (t.reg.reckoned hostID).isSome = true := by
        rw [hranked, hrecorded]
        rfl
      have hcapacity : row.capacity = t.opened := h.capacity (row.id, row.capacity) (hranked ▸ hrecorded)
      refine ⟨h.named, hreserved, ?_, h.capacity, ?_, fun _ e he => ?_⟩
      · have hstarts := h.starts_le hknown
        unfold Host.freeSlots at hfree
        rw [hcapacity, ← hranked] at hfree
        rw [List.length_append, List.length_singleton]
        dsimp only at hfree ⊢
        omega
      · rw [List.map_append, List.map_singleton, List.nodup_append]
        refine ⟨h.distinct, List.nodup_singleton _, ?_⟩
        rintro w hw w' hw' rfl
        rw [List.mem_singleton] at hw'
        obtain ⟨e, he, hfst⟩ := List.mem_map.mp hw
        exact hfresh e he hknown (hfst.trans hw')
      · rcases List.mem_append.mp he with hold | hnew
        · exact hget e hold hknown
        · rw [List.mem_singleton] at hnew
          rw [hnew]
          exact ⟨_, OrderedMap.get_set_self _ _ _, hbox, rfl, rfl⟩
    · exact ⟨h.named, hreserved, h.bound, h.capacity, h.distinct, fun hknown e he => hget e he hknown⟩

/-- The box's own beat opens an interval; another's leaves its reservations alone while it is known. -/
theorem Balanced.beat (h : Balanced hostID t) (hb : HostHeartbeat) (addr : String) (at' : ℤ) :
    Balanced hostID (t.step hostID (.beat hb addr at')) := by
  unfold Tally.step Registry.call Tally.startsAfter Tally.openedAfter
  have hnamed : ∀ id p, (t.reg.beat hb addr at').reckoned id = some p → p.1 = id := by
    intro id p hp
    rcases Registry.reckoned_beat t.reg hb addr at' id with hnone | hrow
    · cases hnone.symm.trans hp
    · rw [hp] at hrow
      split_ifs at hrow with hid
      · cases hrow
        exact hid.symm
      · exact h.named id p hrow.symm
  have hknown : ∀ w res, (t.reg.beat hb addr at').pending.get w = some res →
      ((t.reg.beat hb addr at').reckoned res.hostID).isSome = true := by
    intro w res hres
    obtain ⟨res', -, rfl, hbox⟩ := Registry.pending_beat hres
    rw [Registry.hostID_answered]
    exact hbox
  dsimp only
  split_ifs with hown
  · refine ⟨hnamed, hknown, Nat.zero_le _, fun p hp => ?_, List.nodup_nil, fun _ e he => by cases he⟩
    rcases Registry.reckoned_beat t.reg hb addr at' hostID with hnone | hrow
    · cases hnone.symm.trans hp
    · rw [hp, if_pos hown.symm] at hrow
      cases hrow
      rfl
  · have hsame : ∀ p, (t.reg.beat hb addr at').reckoned hostID = some p → t.reg.reckoned hostID = some p := by
      intro p hp
      rcases Registry.reckoned_beat t.reg hb addr at' hostID with hnone | hrow
      · cases hnone.symm.trans hp
      · rw [hp, if_neg fun hid => hown hid.symm] at hrow
        exact hrow.symm
    refine ⟨hnamed, hknown, h.bound, fun p hp => h.capacity p (hsame p hp), h.distinct, fun hbox e he => ?_⟩
    obtain ⟨p, hp⟩ := Option.isSome_iff_exists.mp hbox
    obtain ⟨res, hres, hhost, hsession, hreported⟩ := h.spent (by rw [hsame p hp]; rfl) e he
    have hother : res.hostID ≠ hb.hostID := fun heq => hown (heq.symm.trans hhost)
    refine ⟨_, Registry.pending_beat_kept hres (hhost ▸ hbox) (Or.inl hother), ?_⟩
    unfold Registry.answered
    rw [if_neg hother]
    exact ⟨hhost, hsession, hreported⟩

theorem Balanced.step (h : Balanced hostID t) {c : Call} (hspares : t.reg.Spares c) : Balanced hostID (t.step hostID c) := by
  cases c with
  | beat hb addr at' => exact h.beat hb addr at'
  | place req ordered instanceID sessionID at' => exact h.place hspares
  | started gameID revision sessionID port => exact h.started gameID revision sessionID port
  | release gameID sessionID => exact h.release gameID sessionID
  | draining id instanceIDs => exact h.aside (Registry.aside_draining id instanceIDs)
  | suspect id detail at' => exact h.aside (Registry.aside_suspect id detail at')
  | sweep now => exact h.aside (Registry.aside_sweep now)

/-! ### A world that is being started keeps its reservation -/

namespace Registry

variable {reg : Registry}

theorem isSome_filter {row : Host} {p : Host → Bool} (h : p row = true) : (Option.filter p (some row)).isSome = true := by
  rw [Option.filter_some_pos h]
  rfl

theorem known_beat {hb : HostHeartbeat} {addr : String} {at' : ℤ} {id : HostId} (hknown : (reg.reckoned id).isSome = true)
    (hstay : ((reg.hosts.set hb.hostID (rowOf hb addr at' .healthy)).get id).all
      (fun row => !(reg.retain < at' - row.lastSeenAt)) = true) : ((reg.beat hb addr at').reckoned id).isSome = true := by
  obtain ⟨reported, hhosts, -⟩ := beat_spec reg hb addr at'
  unfold reckoned at hknown ⊢
  rw [Option.isSome_map] at hknown
  obtain ⟨row, hrow⟩ := Option.isSome_iff_exists.mp hknown
  rw [Option.isSome_map, hhosts, evict, OrderedMap.get_filter]
  dsimp only
  rw [OrderedMap.get_set] at hstay ⊢
  split_ifs at hstay ⊢ with hid
  · exact isSome_filter hstay
  · rw [hrow] at hstay ⊢
    exact isSome_filter hstay

theorem Aside.kept {reg' : Registry} (h : Aside reg reg') {w : World} {res : Reservation} (hres : reg.pending.get w = some res) :
    ∃ res', reg'.pending.get w = some res' ∧ res'.sessionID = res.sessionID ∧ res'.hostID = res.hostID :=
  ⟨res, by rw [h.pending, hres], rfl, rfl⟩

end Registry

theorem Balanced.kept (h : Balanced hostID t) {c : Call} (hspares : t.reg.Spares c) : t.reg.Kept c := by
  intro w res hres hstarting hother
  cases c with
  | beat hb addr at' =>
    have hstay := hspares (w, res) (t.reg.pending.mem_entries_iff.mpr hres) hstarting
    have hknown := Registry.known_beat (h.known w res hres) hstay
    exact ⟨_, Registry.pending_beat_kept hres hknown (Or.inr hstarting), Registry.sessionID_answered hb res,
      Registry.hostID_answered hb res⟩
  | place req ordered instanceID sessionID at' =>
    unfold Registry.call
    rcases Registry.place_cases t.reg req ordered instanceID sessionID at' with
      ⟨p, -, hplace⟩ | ⟨p, -, hplace⟩ | hplace | ⟨ranked, host, hserving, hheld, hfound, -, hplace⟩
    · simp only [hplace]
      exact ⟨res, hres, rfl, rfl⟩
    · simp only [hplace]
      exact ⟨res, hres, rfl, rfl⟩
    · simp only [hplace]
      exact ⟨res, hres, rfl, rfl⟩
    · simp only [hplace]
      have hne : w ≠ req.world := by
        rintro rfl
        have hspent := hspares hserving hheld hfound
        rw [hres] at hspent
        simp [hstarting] at hspent
      exact ⟨res, (OrderedMap.get_set_of_ne _ hne _).trans hres, rfl, rfl⟩
  | started gameID revision sessionID port =>
    refine ⟨_, by unfold Registry.call; rw [Registry.get_started, hres]; rfl, ?_⟩
    dsimp only
    split_ifs <;> exact ⟨rfl, rfl⟩
  | release gameID sessionID =>
    unfold Registry.call
    rcases Registry.release_cases t.reg gameID sessionID with ⟨hsame, -⟩ | ⟨w', res', hres', hgame, hsession, hrelease⟩
    · simp only [hsame]
      exact ⟨res, hres, rfl, rfl⟩
    · simp only [hrelease]
      have hne : w ≠ w' := by
        rintro rfl
        obtain rfl := Option.some.inj (hres.symm.trans hres')
        exact hother (by rw [hgame, hsession])
      exact ⟨res, (OrderedMap.get_delete_of_ne _ hne).trans hres, rfl, rfl⟩
  | draining id instanceIDs => exact (Registry.aside_draining id instanceIDs).kept hres
  | suspect id detail at' => exact (Registry.aside_suspect id detail at').kept hres
  | sweep now => exact (Registry.aside_sweep now).kept hres

/-! ### Runs -/

theorem balanced_run (hostID : HostId) {t : Tally} (h : Balanced hostID t) : ∀ {calls : List Call},
    Meets Registry.call Registry.Spares t.reg calls → Balanced hostID (exec (Tally.step hostID) t calls) := by
  intro calls hrun
  induction calls generalizing t with
  | nil => exact h
  | cons c calls ih => exact ih (h.step hrun.1) hrun.2

/-- **Placements never oversubscribe a box**, and none is dropped while it is being started, in every run
whose calls take no reservation away that is still in use. -/
theorem never_oversubscribed (staleAfter : ℤ) (hostID : HostId) (calls : List Call)
    (hrun : Meets Registry.call Registry.Spares (.new staleAfter) calls) :
    let t := exec (Tally.step hostID) (.new staleAfter) calls
    t.starts.length ≤ t.opened.maxInstances - t.opened.runningInstances ∧
      ∀ pre c post, calls = pre ++ c :: post → (exec Registry.call (.new staleAfter) pre).Kept c := by
  refine ⟨(balanced_run hostID (balanced_new hostID staleAfter) hrun).bound, ?_⟩
  rintro pre c post rfl
  obtain ⟨hpre, hc, -⟩ := Meets.append.mp hrun
  have hbalanced := balanced_run hostID (balanced_new hostID staleAfter) hpre
  have hreg : (exec (Tally.step hostID) (.new staleAfter) pre).reg = exec Registry.call (.new staleAfter) pre :=
    Tally.reg_exec hostID pre (.new staleAfter)
  rw [← hreg] at hc ⊢
  exact hbalanced.kept hc

/-! ### Two runs -/

def boxBeat (id region : String) : HostHeartbeat := ⟨id, region, 7000, ⟨0, 1⟩, [], "life", false⟩

/-- A box of one slot, as the balancer ranks it. -/
def boxRow (id region : String) : Host := Registry.rowOf (boxBeat id region) "addr" 0 .healthy

/-- The box is given one world, and a second game finds it full. -/
def oneSlot : List Call :=
  [.beat (boxBeat "a" "eu") "addr" 0, .place ⟨"g", 1, "eu"⟩ [boxRow "a" "eu"] "i1" "s1" 1,
    .place ⟨"h", 1, "eu"⟩ [boxRow "a" "eu"] "i2" "s2" 2, .started "g" 1 "s1" 9000]

theorem never_oversubscribed_oneSlot :
    let t := exec (Tally.step "a") (.new 10) oneSlot
    t.starts.length ≤ t.opened.maxInstances - t.opened.runningInstances ∧
      ∀ pre c post, oneSlot = pre ++ c :: post → (exec Registry.call (.new 10) pre).Kept c :=
  never_oversubscribed 10 "a" oneSlot (by decide)

/-- A join from another region writes over the reservation of the first, and its slot is given again. -/
def secondRegion : List Call :=
  [.beat (boxBeat "a" "eu") "addr" 0, .beat (boxBeat "b" "us") "addr" 0,
    .place ⟨"g", 1, "eu"⟩ [boxRow "a" "eu"] "i1" "s1" 1, .place ⟨"g", 1, "us"⟩ [boxRow "b" "us"] "i2" "s2" 2,
    .place ⟨"h", 1, "eu"⟩ [boxRow "a" "eu"] "i3" "s3" 3]

theorem secondRegion_oversubscribes :
    let t := exec (Tally.step "a") (.new 10) secondRegion
    t.starts = [(⟨"g", 1⟩, "s1"), (⟨"h", 1⟩, "s3")] ∧ t.opened = ⟨0, 1⟩ ∧
      ¬ t.starts.length ≤ t.opened.maxInstances - t.opened.runningInstances := by
  decide

end Fleet
end Grove
