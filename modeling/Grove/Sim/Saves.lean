import Grove.Sim.Seats

/-! # The progress of an identified session

A session admitted while the cache held its record owes the store one save when it is released; a
session whose load was answered with nothing owes none.  What can break this is an acknowledgement
or an answer that reaches the cache while such a session is in the world (`KeepsRecords`). -/

namespace Grove

namespace Sim

/-- The acknowledgement of a key finds no session of it that was admitted with its record; a load's
answer files nothing under the key of an open session whose own load found nothing; and an empty
answer finds nothing under the key of the session waiting on it. -/
def KeepsRecords (s : Sim) : Call → Prop
  | .saved key _ => ∀ ref < s.next, (s.sessions ref).player.isSome → (s.sessions ref).identity.isSome →
      s.history.held ref = some true → s.keyOf ref ≠ key
  | .record connectionId (some _) _ => ∀ waiting, s.registry.get connectionId = some waiting →
      ∀ ref < s.next, (s.sessions ref).closed = false → s.history.unread ref = true →
        s.keyOf ref ≠ s.keyOf waiting
  | .record connectionId none _ => ∀ waiting, s.registry.get connectionId = some waiting →
      (s.sessions waiting).awaitingRecord.isSome → s.records.has (s.keyOf waiting) = false
  | _ => True

/-- Every order belongs to one departure: a session admitted with its record departed with exactly
one, of its record as the leave left it, and one whose load found nothing with none. -/
structure Saved (s : Sim) : Prop where
  kept : ∀ ref, (s.sessions ref).identity.isSome → s.history.held ref = some true →
    (s.sessions ref).closed = true → ∃ record, ∃ d ∈ s.history.departed, d.ref = ref ∧ d.record = some record ∧
      d.orders = [⟨s.keyOf ref, encodeRecord record⟩] ∧ ∀ d' ∈ s.history.departed, d'.ref = ref → d' = d
  withheld : ∀ d ∈ s.history.departed, s.history.unread d.ref = true → d.orders = []
  issued : s.history.issued = s.history.departed.flatMap Departure.orders
  handed : s.history.issued = s.history.handed ++ s.saves

/-- What carries `Saved` through a run. -/
structure Owed (s : Sim) : Prop where
  seats : Seats s
  fresh : ∀ ref, s.next ≤ ref → s.history.unread ref = false
  present : ∀ ref, (s.history.held ref).isSome → (s.sessions ref).closed = false → (s.sessions ref).player.isSome
  cached : ∀ ref, (s.sessions ref).player.isSome → (s.sessions ref).identity.isSome →
    s.history.held ref = some true → s.records.has (s.keyOf ref) = true
  uncached : ∀ ref, (s.sessions ref).closed = false → s.history.unread ref = true →
    s.records.has (s.keyOf ref) = false
  left : ∀ d ∈ s.history.departed, d.ref < s.next ∧ (s.sessions d.ref).closed = true
  owes : ∀ d ∈ s.history.departed, (s.sessions d.ref).identity.isSome → s.history.held d.ref = some true →
    ∃ record, d.record = some record ∧ d.orders = [⟨s.keyOf d.ref, encodeRecord record⟩]
  withheld : ∀ d ∈ s.history.departed, s.history.unread d.ref = true → d.orders = []
  once : (s.history.departed.map Departure.ref).Nodup
  accounted : ∀ ref, (s.sessions ref).closed = true → (s.history.held ref).isSome →
    ∃ d ∈ s.history.departed, d.ref = ref
  issued : s.history.issued = s.history.departed.flatMap Departure.orders
  handed : s.history.issued = s.history.handed ++ s.saves

section owed
variable {s s' : Sim}

theorem Owed.saved (h : Owed s) : Saved s where
  kept := by
    intro ref hid hheld hclosed
    obtain ⟨d, hd, rfl⟩ := h.accounted ref hclosed (by rw [hheld]; rfl)
    obtain ⟨record, hrecord, horders⟩ := h.owes d hd hid hheld
    exact ⟨record, d, hd, rfl, hrecord, horders, fun d' hd' he => List.inj_on_of_nodup_map h.once hd' hd he⟩
  withheld := h.withheld
  issued := h.issued
  handed := h.handed

theorem has_set (records : SessionRecords) (key key' : HostKey) (fields : Fields) :
    (OrderedMap.set records key fields).has key' = (decide (key' = key) || records.has key') := by
  unfold OrderedMap.has
  rw [OrderedMap.get_set]
  split_ifs with h <;> simp [h]

theorem has_delete (records : SessionRecords) (key key' : HostKey) :
    (OrderedMap.delete records key).has key' = (decide (key' ≠ key) && records.has key') := by
  unfold OrderedMap.has
  rw [OrderedMap.get_delete]
  split_ifs with h <;> simp [h]

/-! ### The moves -/

theorem keyOf_congr {ref : SessionRef} (hid : (s'.sessions ref).identity = (s.sessions ref).identity)
    (hconn : (s'.sessions ref).connectionId = (s.sessions ref).connectionId) : s'.keyOf ref = s.keyOf ref :=
  congrArg HostKey.player (Session.playerId_congr hid hconn)

theorem Idle.keyOf (h : Idle s s') (ref : SessionRef) : s'.keyOf ref = s.keyOf ref :=
  keyOf_congr (h.sessions ref).identity (h.sessions ref).connectionId

theorem Owed.idle (h : Owed s) (hidle : Idle s s') : Owed s' where
  seats := h.seats.idle hidle
  fresh := by
    intro ref hle
    rw [hidle.unread]
    exact h.fresh ref (hidle.next ▸ hle)
  present := by
    intro ref hheld hopen
    rw [hidle.held] at hheld
    rw [(hidle.sessions ref).closed] at hopen
    rw [(hidle.sessions ref).player]
    exact h.present ref hheld hopen
  cached := by
    intro ref
    rw [(hidle.sessions ref).player, (hidle.sessions ref).identity, hidle.held, hidle.records, hidle.keyOf]
    exact h.cached ref
  uncached := by
    intro ref
    rw [(hidle.sessions ref).closed, hidle.unread, hidle.records, hidle.keyOf]
    exact h.uncached ref
  left := by
    intro d hd
    rw [hidle.departed] at hd
    rw [hidle.next, (hidle.sessions d.ref).closed]
    exact h.left d hd
  owes := by
    intro d hd
    rw [hidle.departed] at hd
    rw [(hidle.sessions d.ref).identity, hidle.held, hidle.keyOf]
    exact h.owes d hd
  withheld := by
    rw [hidle.departed, hidle.unread]
    exact h.withheld
  once := by
    rw [hidle.departed]
    exact h.once
  accounted := by
    intro ref
    rw [(hidle.sessions ref).closed, hidle.held, hidle.departed]
    exact h.accounted ref
  issued := by
    rw [hidle.issued, hidle.departed]
    exact h.issued
  handed := by
    rw [hidle.issued, hidle.handed, hidle.saves]
    exact h.handed

theorem Owed.opened (h : Owed s) (connectionId : ConnectionId) (identity : Option PlayerId) :
    Owed (s.register connectionId identity) := by
  have hfresh := h.seats.fresh s.next le_rfl
  -- what is said of one session is said of the new one, or of one it leaves alone
  have hsplit : ∀ {P : Session → SessionRef → Prop}, P (Session.new connectionId identity s.rt.tick) s.next →
      (∀ ref, ref ≠ s.next → P (s.sessions ref) ref) → ∀ ref,
      P (Function.update s.sessions s.next (Session.new connectionId identity s.rt.tick) ref) ref := by
    intro P hnew hold ref
    rw [Function.update_apply]
    split_ifs with hx
    · rw [hx]
      exact hnew
    · exact hold ref hx
  have hleft : ∀ d ∈ s.history.departed,
      Function.update s.sessions s.next (Session.new connectionId identity s.rt.tick) d.ref = s.sessions d.ref :=
    fun d hd => Function.update_of_ne (Nat.ne_of_lt (h.left d hd).1) _ _
  constructor
  · exact h.seats.opened connectionId identity
  · exact fun ref hle => h.fresh ref (Nat.le_of_succ_le hle)
  · refine hsplit (P := fun session ref => (s.history.held ref).isSome → session.closed = false →
      session.player.isSome) (fun hheld => ?_) (fun ref _ => h.present ref)
    rw [hfresh.2] at hheld
    cases hheld
  · refine hsplit (P := fun session ref => session.player.isSome → session.identity.isSome →
      s.history.held ref = some true → s.records.has (.player session.playerId) = true) (fun hp => ?_)
      (fun ref _ => h.cached ref)
    cases hp
  · refine hsplit (P := fun session ref => session.closed = false → s.history.unread ref = true →
      s.records.has (.player session.playerId) = false) (fun _ hun => ?_) (fun ref _ => h.uncached ref)
    rw [h.fresh s.next le_rfl] at hun
    cases hun
  · intro d hd
    obtain ⟨hlt, hclosed⟩ := h.left d hd
    exact ⟨Nat.lt_succ_of_lt hlt, (congrArg Session.closed (hleft d hd)).trans hclosed⟩
  · intro d hd hid hheld
    have hself := hleft d hd
    have hid' : (s.sessions d.ref).identity.isSome := by
      rw [← hself]
      exact hid
    obtain ⟨record, hrecord, horders⟩ := h.owes d hd hid' hheld
    refine ⟨record, hrecord, horders.trans ?_⟩
    show [(⟨.player (s.sessions d.ref).playerId, _⟩ : SaveOrder)] =
      [⟨.player (Function.update s.sessions s.next _ d.ref).playerId, _⟩]
    rw [hself]
  · exact h.withheld
  · exact h.once
  · refine hsplit (P := fun session ref => session.closed = true → (s.history.held ref).isSome →
      ∃ d ∈ s.history.departed, d.ref = ref) (fun hclosed => ?_) (fun ref _ => h.accounted ref)
    cases hclosed
  · exact h.issued
  · exact h.handed

theorem Owed.entered (h : Owed s) {ref : SessionRef} (request : JoinRequest) (handler : List Runtime.Act)
    (hreg : ∃ connectionId, s.registry.get connectionId = some ref) (hopen : (s.sessions ref).closed = false)
    (hout : (s.sessions ref).player = none)
    (hfree : (s.rt.playerManager.byId (s.sessions ref).playerId).isSome = false) :
    Owed (s.enter ref request handler) := by
  have hstanding := enter_standing s ref request handler
  have hkey : ∀ x, (s.enter ref request handler).keyOf x = s.keyOf x :=
    fun x => keyOf_congr (hstanding x).2.1 (hstanding x).2.2
  have hheld : ∀ x, (s.enter ref request handler).history.held x =
      if x = ref then some (s.records.has (s.keyOf ref)) else s.history.held x :=
    fun x => Function.update_apply _ _ _ x
  have hne : ∀ d ∈ s.history.departed, d.ref ≠ ref := by
    intro d hd he
    have hclosed := (h.left d hd).2
    rw [he, hopen] at hclosed
    cases hclosed
  have hrecords : (s.enter ref request handler).records = s.records := rfl
  have hunread : (s.enter ref request handler).history.unread = s.history.unread := rfl
  have hdeparted : (s.enter ref request handler).history.departed = s.history.departed := rfl
  constructor
  · exact h.seats.entered request handler hreg hopen hout hfree
  · exact h.fresh
  · intro x hx hxopen
    rw [hheld] at hx
    rw [(hstanding x).1] at hxopen
    rw [enter_player]
    split_ifs at hx ⊢ with hxr
    · rfl
    · exact h.present x hx hxopen
  · intro x hp hid hx
    rw [enter_player] at hp
    rw [(hstanding x).2.1] at hid
    rw [hheld] at hx
    rw [hrecords, hkey]
    split_ifs at hp hx with hxr
    · rw [hxr]
      exact Option.some.inj hx
    · exact h.cached x hp hid hx
  · intro x hx
    rw [(hstanding x).1] at hx
    rw [hunread, hrecords, hkey]
    exact h.uncached x hx
  · intro d hd
    rw [(hstanding d.ref).1]
    exact h.left d hd
  · intro d hd hid hx
    rw [(hstanding d.ref).2.1] at hid
    rw [hheld, if_neg (hne d hd)] at hx
    rw [hkey]
    exact h.owes d hd hid hx
  · exact h.withheld
  · exact h.once
  · intro x hclosed hx
    rw [(hstanding x).1] at hclosed
    have hxr : x ≠ ref := by
      rintro rfl
      rw [hopen] at hclosed
      cases hclosed
    rw [hheld, if_neg hxr] at hx
    exact h.accounted x hclosed hx
  · exact h.issued
  · exact h.handed

/-- The departure a release of a player's session adds. -/
structure Departs (s s' : Sim) (ref : SessionRef) (record : HostRecord) (orders : List SaveOrder) : Prop where
  departed : s'.history.departed = s.history.departed ++ [⟨ref, some record, orders⟩]
  issued : s'.history.issued = s.history.issued ++ orders
  saves : s'.saves = s.saves ++ orders
  outcome :
    ((s.sessions ref).identity.isSome ∧ s.records.has (s.keyOf ref) = true ∧
      orders = [⟨s.keyOf ref, encodeRecord record⟩] ∧
      s'.records = OrderedMap.set s.records (s.keyOf ref) (encodeRecord record) ∧
      s'.history.writer = Function.update s.history.writer (s.keyOf ref)
        (some (.captured s.history.issued.length))) ∨
    (¬ ((s.sessions ref).identity.isSome ∧ s.records.has (s.keyOf ref) = true) ∧ orders = [] ∧
      s'.records = s.records ∧ s'.history.writer = s.history.writer)

/-- The record of a seated player is still there when the leave has run. -/
theorem lastRecord_of_seats (h : Seats s) {ref : SessionRef} {player : Player} (onLeave : List Runtime.Act)
    (hin : (s.sessions ref).player = some player) :
    ∃ record, (s.shut ref).lastRecord player onLeave = some record ∧ record.hostId = s.keyOf ref := by
  obtain ⟨rid, hrid⟩ := h.hosted ref player hin
  obtain ⟨hlt, hhost⟩ := h.keyed _ rid hrid
  obtain ⟨entities, hentities⟩ := destroyOwned_entities (s.shut ref).world player.id
  have hlisted : player.id ∈ (destroyOwned (s.shut ref).world player.id).playerManager.ids := by
    rw [hentities]
    exact h.listed ref player hin
  have hlost := (Runtime.leavePlayer_spec onLeave hlisted).2.hostId rid
  have hhosts : (destroyOwned (s.shut ref).world player.id).hosts = s.rt.hosts := by
    rw [hentities]
    rfl
  rw [hhosts] at hlost
  refine ⟨((s.shut ref).departing player onLeave).hosts.heap rid, ?_, ?_⟩
  · unfold lastRecord
    rw [hhosts, hrid]
    rfl
  · show (((destroyOwned (s.shut ref).world player.id).leavePlayer player.id onLeave).hosts.heap rid).hostId = _
    rw [hlost hlt, hhost, (h.seated ref player hin).2.1]
    rfl

theorem release_departs (h : Seats s) {ref : SessionRef} {player : Player} (onLeave : List Runtime.Act)
    (hopen : (s.sessions ref).closed = false) (hin : (s.sessions ref).player = some player) :
    ∃ record orders, Departs s (s.release ref onLeave) ref record orders := by
  obtain ⟨record, hlast, hhost⟩ := lastRecord_of_seats h onLeave hin
  have hidentity : ((s.shut ref).sessions ref).identity = (s.sessions ref).identity := by
    show (Function.update s.sessions ref { s.sessions ref with closed := true } ref).identity = _
    rw [Function.update_self]
  rw [release_of_player onLeave hopen hin]
  unfold releasePlayer captureDeparture
  rw [hlast]
  simp only
  rw [hidentity, hhost]
  by_cases hcap : (s.sessions ref).identity.isSome ∧ s.records.has (s.keyOf ref) = true
  · refine ⟨record, [⟨s.keyOf ref, encodeRecord record⟩], ?_⟩
    rw [if_pos (by exact hcap)]
    unfold SessionRecords.capture
    rw [hhost]
    exact ⟨rfl, rfl, rfl, Or.inl ⟨hcap.1, hcap.2, rfl, rfl, rfl⟩⟩
  · refine ⟨record, [], ?_⟩
    rw [if_neg (by exact hcap)]
    exact ⟨rfl, (List.append_nil _).symm, (List.append_nil _).symm, Or.inr ⟨hcap, rfl, rfl, rfl⟩⟩

/-- The cache of a departing player's key is refreshed, or was not there; no other key changes. -/
theorem Departs.has {ref : SessionRef} {record : HostRecord} {orders : List SaveOrder}
    (h : Departs s s' ref record orders) (key : HostKey) : s'.records.has key = s.records.has key := by
  rcases h.outcome with ⟨-, hhas, -, hrecords, -⟩ | ⟨-, -, hrecords, -⟩
  · rw [hrecords, has_set]
    by_cases hk : key = s.keyOf ref
    · rw [hk, hhas]
      simp
    · simp [hk]
  · rw [hrecords]

theorem Owed.released (h : Owed s) {ref : SessionRef} (onLeave : List Runtime.Act)
    (hopen : (s.sessions ref).closed = false) : Owed (s.release ref onLeave) := by
  have hv := release_vacated onLeave hopen
  have hseats := h.seats.released onLeave hopen
  have hkey : ∀ x, (s.release ref onLeave).keyOf x = s.keyOf x :=
    fun x => keyOf_congr (hv.identity x) (hv.connectionId x)
  have hne : ∀ d ∈ s.history.departed, d.ref ≠ ref := by
    intro d hd he
    have hclosed := (h.left d hd).2
    rw [he, hopen] at hclosed
    cases hclosed
  -- the departures, the orders and the cache, whichever way the release went
  have hout : (∀ key, (s.release ref onLeave).records.has key = s.records.has key) ∧
      ∃ ds, (s.release ref onLeave).history.departed = s.history.departed ++ ds ∧
        (s.release ref onLeave).history.issued = s.history.issued ++ ds.flatMap Departure.orders ∧
        (s.release ref onLeave).saves = s.saves ++ ds.flatMap Departure.orders ∧
        (∀ d ∈ ds, d.ref = ref ∧ ((s.sessions ref).identity.isSome → s.history.held ref = some true →
          ∃ record, d.record = some record ∧ d.orders = [⟨s.keyOf ref, encodeRecord record⟩]) ∧
          (s.history.unread ref = true → d.orders = [])) ∧
        (ds.map Departure.ref).Nodup ∧ ((s.history.held ref).isSome → ds ≠ []) := by
    cases hin : (s.sessions ref).player with
    | none =>
      rw [release_of_none onLeave hopen hin]
      refine ⟨fun _ => rfl, [], (List.append_nil _).symm, (List.append_nil _).symm, (List.append_nil _).symm,
        (fun d hd => by cases hd), List.nodup_nil, fun hheld => ?_⟩
      have hp := h.present ref hheld hopen
      rw [hin] at hp
      cases hp
    | some player =>
      obtain ⟨record, orders, hdep⟩ := release_departs h.seats onLeave hopen hin
      refine ⟨hdep.has, [⟨ref, some record, orders⟩], hdep.departed, ?_, ?_, ?_, ?_, ?_⟩
      · rw [hdep.issued]
        simp
      · rw [hdep.saves]
        simp
      · intro d hd
        obtain rfl := List.mem_singleton.mp hd
        refine ⟨rfl, fun hid hheld => ?_, fun hun => ?_⟩
        · have hhas := h.cached ref (by rw [hin]; rfl) hid hheld
          rcases hdep.outcome with ⟨-, -, horders, -⟩ | ⟨hnot, -⟩
          · exact ⟨record, rfl, horders⟩
          · exact absurd ⟨hid, hhas⟩ hnot
        · have hhas := h.uncached ref hopen hun
          rcases hdep.outcome with ⟨-, hhas', -⟩ | ⟨-, horders, -⟩
          · rw [hhas] at hhas'
            cases hhas'
          · exact horders
      · exact List.nodup_singleton _
      · exact fun _ => List.cons_ne_nil _ _
  obtain ⟨hhas, ds, hdeparted, hissued, hsaves, hds, hnodup, hsome⟩ := hout
  have hmem : ∀ d, d ∈ (s.release ref onLeave).history.departed ↔ d ∈ s.history.departed ∨ d ∈ ds := by
    intro d
    rw [hdeparted, List.mem_append]
  constructor
  · exact hseats
  · intro x hle
    rw [hv.unread]
    exact h.fresh x (hv.next ▸ hle)
  · intro x hx hxopen
    rw [hv.held] at hx
    rw [hv.closed] at hxopen
    rw [hv.player]
    split_ifs at hxopen ⊢ with hxr
    exact h.present x hx hxopen
  · intro x hp hid hx
    rw [hv.player] at hp
    split_ifs at hp with hxr
    · cases hp
    · rw [hv.identity] at hid
      rw [hv.held] at hx
      rw [hhas, hkey]
      exact h.cached x hp hid hx
  · intro x hx hun
    rw [hv.closed] at hx
    rw [hv.unread] at hun
    split_ifs at hx with hxr
    rw [hhas, hkey]
    exact h.uncached x hx hun
  · intro d hd
    rw [hv.next, hv.closed]
    rcases (hmem d).mp hd with hd | hd
    · rw [if_neg (hne d hd)]
      exact h.left d hd
    · rw [(hds d hd).1, if_pos rfl]
      refine ⟨?_, rfl⟩
      by_contra hge
      obtain ⟨hp, hheld⟩ := h.seats.fresh ref (Nat.le_of_not_lt hge)
      rw [release_of_none onLeave hopen hp] at hdeparted
      have hnil : ds = [] := by simpa [shut, put] using hdeparted
      rw [hnil] at hd
      cases hd
  · intro d hd hid hx
    rw [hv.identity] at hid
    rw [hv.held] at hx
    rw [hkey]
    rcases (hmem d).mp hd with hd | hd
    · exact h.owes d hd hid hx
    · have href := (hds d hd).1
      rw [href] at hid hx ⊢
      exact (hds d hd).2.1 hid hx
  · intro d hd hun
    rw [hv.unread] at hun
    rcases (hmem d).mp hd with hd | hd
    · exact h.withheld d hd hun
    · rw [(hds d hd).1] at hun
      exact (hds d hd).2.2 hun
  · rw [hdeparted, List.map_append, List.nodup_append]
    refine ⟨h.once, hnodup, ?_⟩
    intro a ha b hb
    obtain ⟨d, hd, rfl⟩ := List.mem_map.mp ha
    obtain ⟨d', hd', rfl⟩ := List.mem_map.mp hb
    rw [(hds d' hd').1]
    exact hne d hd
  · intro x hclosed hx
    rw [hv.closed] at hclosed
    rw [hv.held] at hx
    by_cases hxr : x = ref
    · obtain ⟨d, hd⟩ := List.exists_mem_of_ne_nil ds (hsome (hxr ▸ hx))
      exact ⟨d, (hmem d).mpr (Or.inr hd), by rw [(hds d hd).1, hxr]⟩
    · rw [if_neg hxr] at hclosed
      obtain ⟨d, hd, he⟩ := h.accounted x hclosed hx
      exact ⟨d, (hmem d).mpr (Or.inl hd), he⟩
  · rw [hissued, hdeparted, List.flatMap_append, h.issued]
  · rw [hissued, hv.handed, hsaves, h.handed, List.append_assoc]

theorem Owed.move (h : Owed s) (hmove : Move s s') : Owed s' := by
  cases hmove with
  | idle hidle => exact h.idle hidle
  | entered ref request handler hreg hopen hout hroom hfree => exact h.entered request handler hreg hopen hout hfree
  | released ref onLeave hlt hopen => exact h.released onLeave hopen

/-! ### The acknowledgement and the load's answer -/

theorem Owed.acknowledged (h : Owed s) (key : HostKey) (order : ℕ) (hcond : KeepsRecords s (.saved key order)) :
    Owed (s.acknowledge key order) := by
  have hhas : ∀ key', (s.acknowledge key order).records.has key' = (decide (key' ≠ key) && s.records.has key') :=
    has_delete s.records key
  constructor
  · exact h.seats.beside (.saved key order)
  · exact h.fresh
  · exact h.present
  · intro ref hp hid hheld
    have hlt : ref < s.next := by
      by_contra hge
      have hnone := (h.seats.fresh ref (Nat.le_of_not_lt hge)).1
      have hsome : (s.sessions ref).player.isSome := hp
      rw [hnone] at hsome
      cases hsome
    have hne : s.keyOf ref ≠ key := hcond ref hlt hp hid hheld
    rw [hhas]
    simpa [show (s.acknowledge key order).keyOf ref = s.keyOf ref from rfl, hne] using h.cached ref hp hid hheld
  · intro ref hopen hun
    rw [hhas]
    have huncached : s.records.has ((s.acknowledge key order).keyOf ref) = false := h.uncached ref hopen hun
    rw [huncached, Bool.and_false]
  · exact h.left
  · exact h.owes
  · exact h.withheld
  · exact h.once
  · exact h.accounted
  · exact h.issued
  · exact h.handed

/-- The answer filed under the waiting session's key. -/
theorem Owed.seeded (h : Owed s) (key : HostKey) (fields : Fields)
    (hcond : ∀ ref < s.next, (s.sessions ref).closed = false → s.history.unread ref = true → s.keyOf ref ≠ key) :
    Owed (s.fileRecord key fields) := by
  constructor
  · exact ⟨h.seats.keyed, h.seats.named, h.seats.fresh, h.seats.seated, h.seats.hosted, h.seats.listed, h.seats.apart⟩
  · exact h.fresh
  · exact h.present
  · intro ref hp hid hheld
    refine (has_set s.records key _ fields).trans ?_
    have hcached : s.records.has (s.keyOf ref) = true := h.cached ref hp hid hheld
    show (decide (s.keyOf ref = key) || s.records.has (s.keyOf ref)) = true
    rw [hcached, Bool.or_true]
  · intro ref hopen hun
    have hlt : ref < s.next := by
      by_contra hge
      have hfalse := h.fresh ref (Nat.le_of_not_lt hge)
      have htrue : s.history.unread ref = true := hun
      rw [hfalse] at htrue
      cases htrue
    have hne : s.keyOf ref ≠ key := hcond ref hlt hopen hun
    refine (has_set s.records key _ fields).trans ?_
    have huncached : s.records.has (s.keyOf ref) = false := h.uncached ref hopen hun
    show (decide (s.keyOf ref = key) || s.records.has (s.keyOf ref)) = false
    rw [huncached, Bool.or_false]
    exact decide_eq_false hne
  · exact h.left
  · exact h.owes
  · exact h.withheld
  · exact h.once
  · exact h.accounted
  · exact h.issued
  · exact h.handed

/-- The answer that found nothing. -/
theorem Owed.unseeded (h : Owed s) {waiting : SessionRef} (unread : Bool) (hlt : waiting < s.next)
    (hopen : (s.sessions waiting).closed = false)
    (hcond : unread = true → s.records.has (s.keyOf waiting) = false) :
    Owed (s.noteUnread waiting unread) := by
  have hunread : ∀ ref, (s.noteUnread waiting unread).history.unread ref =
      if ref = waiting then unread else s.history.unread ref := fun ref => Function.update_apply _ _ _ ref
  have hne : ∀ d ∈ s.history.departed, d.ref ≠ waiting := by
    intro d hd he
    have hclosed := (h.left d hd).2
    rw [he, hopen] at hclosed
    cases hclosed
  constructor
  · exact ⟨h.seats.keyed, h.seats.named, h.seats.fresh, h.seats.seated, h.seats.hosted, h.seats.listed, h.seats.apart⟩
  · intro ref hle
    rw [hunread, if_neg (Nat.ne_of_gt (lt_of_lt_of_le hlt hle))]
    exact h.fresh ref hle
  · exact h.present
  · exact h.cached
  · intro ref hropen hun
    rw [hunread] at hun
    split_ifs at hun with hx
    · rw [hx]
      exact hcond hun
    · exact h.uncached ref hropen hun
  · exact h.left
  · exact h.owes
  · intro d hd hun
    rw [hunread, if_neg (hne d hd)] at hun
    exact h.withheld d hd hun
  · exact h.once
  · exact h.accounted
  · exact h.issued
  · exact h.handed

theorem Owed.taken (h : Owed s) : Owed s.takeOutput.2 := by
  constructor
  · exact h.seats.beside (.taken .takeOutput)
  · exact h.fresh
  · exact h.present
  · exact h.cached
  · exact h.uncached
  · exact h.left
  · exact h.owes
  · exact h.withheld
  · exact h.once
  · exact h.accounted
  · exact h.issued
  · show s.history.issued = (s.history.handed ++ s.saves) ++ []
    rw [List.append_nil]
    exact h.handed

/-! ### The runs -/

theorem Owed.step (h : Owed s) {call : Call} (hcond : KeepsRecords s call) : Owed (s.step call) := by
  refine step_keeps (fun _ _ h => h.move) h.seats.bounded (fun s₁ hbeside => ?_)
  cases hbeside with
  | still => exact h
  | opened connectionId identity => exact h.opened connectionId identity
  | saved key order => exact h.acknowledged key order hcond
  | filed fields handler hreg => exact h.seeded _ fields (hcond _ hreg)
  | noted handler hreg =>
    rename_i connectionId waiting
    obtain ⟨hlt, -, hopen⟩ := h.seats.named connectionId waiting hreg
    refine h.unseeded _ hlt hopen ?_
    rw [Bool.or_eq_true]
    rintro (hun | hwaits)
    · exact h.uncached waiting hopen hun
    · exact hcond waiting hreg hwaits
  | taken => exact h.taken

end owed

theorem owed_new (config : SimConfig) (facadeMembers : HostKey → List String) (simRate : ℚ)
    (visuals : RenderManifest) (boot : List Runtime.Act) : Owed (new config facadeMembers simRate visuals boot) where
  seats := seats_new config facadeMembers simRate visuals boot
  fresh := fun _ _ => rfl
  present := fun _ h => by cases h
  cached := fun _ h => by cases h
  uncached := fun _ _ h => by cases h
  left := fun _ h => by cases h
  owes := fun _ h => by cases h
  withheld := fun _ h => by cases h
  once := List.nodup_nil
  accounted := fun _ h => by cases h
  issued := rfl
  handed := rfl

/-- **No progress is lost.**  In a run whose acknowledgements and load answers all keep off the
records of the sessions in the world, every session admitted with its record departs with one save
of it, and one whose load found nothing with none. -/
theorem progress_saved (config : SimConfig) (facadeMembers : HostKey → List String) (simRate : ℚ)
    (visuals : RenderManifest) (boot : List Runtime.Act) (calls : List Call)
    (hkeeps : Meets Sim.step KeepsRecords (new config facadeMembers simRate visuals boot) calls) :
    Saved (exec Sim.step (new config facadeMembers simRate visuals boot) calls) := by
  have hstep : ∀ s call, Owed s → KeepsRecords s call → Owed (Sim.step s call) := fun _ _ h hcond => h.step hcond
  have hnew := owed_new config facadeMembers simRate visuals boot
  exact (Meets.invariant hstep hnew hkeeps).saved

/-! ### The late acknowledgement -/

instance (s : Sim) : ∀ call, Decidable (KeepsRecords s call)
  | .saved key _ => inferInstanceAs (Decidable (∀ ref < s.next, (s.sessions ref).player.isSome →
      (s.sessions ref).identity.isSome → s.history.held ref = some true → s.keyOf ref ≠ key))
  | .record connectionId (some _) _ => inferInstanceAs (Decidable (∀ waiting ∈ s.registry.get connectionId,
      ∀ ref < s.next, (s.sessions ref).closed = false → s.history.unread ref = true →
        s.keyOf ref ≠ s.keyOf waiting))
  | .record connectionId none _ => inferInstanceAs (Decidable (∀ waiting ∈ s.registry.get connectionId,
      (s.sessions waiting).awaitingRecord.isSome → s.records.has (s.keyOf waiting) = false))
  | .opened .. | .frame .. | .closed .. | .stepOnce .. | .sweepJoinDeadline | .drain .. | .takeOutput | .close _
  | .declareVisuals _ | .setSimRate _ => inferInstanceAs (Decidable True)

/-- A peer joins and leaves; the store confirms the save; the peer joins and leaves again. -/
def promptAck : List Batch :=
  [{ Batch.quiet with opened := [("c", some "u")], frames := [("c", some joining, [])] },
    { Batch.quiet with records := [("c", some [], [])] },
    { Batch.quiet with closed := [("c", [])] },
    { Batch.quiet with saved := [(.player "u", 0)] },
    { Batch.quiet with opened := [("d", some "u")], frames := [("d", some joining, [])] },
    { Batch.quiet with records := [("d", some [], [])] },
    { Batch.quiet with closed := [("d", [])] }]

/-- The same, but the peer is back before the store confirms, and leaves after. -/
def lateAck : List Batch :=
  [{ Batch.quiet with opened := [("c", some "u")], frames := [("c", some joining, [])] },
    { Batch.quiet with records := [("c", some [], [])] },
    { Batch.quiet with closed := [("c", [])] },
    { Batch.quiet with opened := [("d", some "u")], frames := [("d", some joining, [])] },
    { Batch.quiet with saved := [(.player "u", 0)] },
    { Batch.quiet with closed := [("d", [])] }]

theorem progress_saved_promptAck : Saved (exec Sim.step lobby (batchCalls promptAck)) ∧
    (exec Sim.step lobby (batchCalls promptAck)).history.issued.map SaveOrder.hostKey = [.player "u", .player "u"] :=
  ⟨progress_saved _ _ _ _ _ (batchCalls promptAck) (by decide +kernel), by decide +kernel⟩

/-- The second session was admitted with its record and departed with no order. -/
theorem progress_lost_lateAck : ¬ ∀ (config : SimConfig) (facadeMembers : HostKey → List String) (simRate : ℚ)
    (visuals : RenderManifest) (boot : List Runtime.Act) (calls : List Call),
    Saved (exec Sim.step (new config facadeMembers simRate visuals boot) calls) := by
  intro h
  have hsaved : Saved (exec Sim.step lobby (batchCalls lateAck)) := h _ _ _ _ _ (batchCalls lateAck)
  obtain ⟨record, d, hd, href, -, horders, -⟩ := hsaved.kept 1 (by decide +kernel) (by decide +kernel) (by decide +kernel)
  have hnone : ((exec Sim.step lobby (batchCalls lateAck)).history.departed.filter (fun d => d.ref = 1)).all
      (fun d => d.orders.isEmpty) = true := by decide +kernel
  have hmem : d ∈ (exec Sim.step lobby (batchCalls lateAck)).history.departed.filter (fun d => d.ref = 1) :=
    List.mem_filter.mpr ⟨hd, by simpa using href⟩
  have hempty := List.all_eq_true.mp hnone d hmem
  rw [horders] at hempty
  cases hempty

end Sim

end Grove
