import Grove.Fleet.Registry
import Mathlib.Data.List.DropRight

/-! # The fleet's history

The other half of `events.go`, with `Reporter.Send` of `reporter.go`: the transitions the registry
has noted are drained into a report, and put back ahead of those noted meanwhile when the report
fails.  One goroutine reports, so at most one report is under way.

A `History` carries, beside the registry, every transition that was ever noted and those that were
dropped.  What is handed over and what is pending are the transitions in order, less the dropped ones
(`step_complete`).  The last transition of a box says of it what the registry holds as reported, as
long as no box enters the registry with the beat that it leaves on (`step_told`, `not_told_step`). -/

namespace Grove
namespace Fleet

namespace Registry

variable (reg : Registry)

/-! ### Draining and restoring -/

/-- Takes every transition recorded since the last call. -/
def drain : List FleetEvent × Registry := (reg.events, { reg with events := [] })

/-- Puts events back after a failed report, oldest first. -/
def restore (events : List FleetEvent) : Registry :=
  if events = [] then reg
  else
    let events := events ++ reg.events
    { reg with events := events.drop (events.length - maxPendingEvents) }

/-- One round of the loop of `Sweep`. -/
def look (now : ℤ) (hostID : HostId) : Registry :=
  match reg.hosts.get hostID with
  | none => reg
  | some h =>
    let (reg, h) := reg.observe h now ""
    { reg with hosts := reg.hosts.set hostID h }

/-- `Sweep`, on the order the map gave the boxes in. -/
def sweepIn (order : List HostId) (now : ℤ) : Registry := order.foldl (fun reg id => reg.look now id) reg

/-! ### The transitions of one call -/

def eventOf (h : Host) (kind : FleetEventKind) (at' : ℤ) (detail : String) : FleetEvent :=
  ⟨reg.minted, h.id, h.region, kind, h.incarnation, at', detail⟩

def observed (h : Host) (at' : ℤ) (detail : String) : List FleetEvent :=
  let current := h.liveness at' reg.staleAfter
  if current = h.reported then [] else [reg.eventOf h (kindFor current) at' detail]

def beaten (hb : HostHeartbeat) (addr : String) (at' : ℤ) : List FleetEvent :=
  match reg.hosts.get hb.hostID with
  | none => [reg.eventOf (rowOf hb addr at' .failed) .registered at' ""]
  | some previous =>
    if previous.incarnation ≠ hb.incarnation then
      [reg.eventOf (rowOf hb addr at' previous.reported) .restarted at' ""]
    else reg.observed (rowOf hb addr at' previous.reported) at' ""

def doubted (hostID : HostId) (detail : String) (at' : ℤ) : List FleetEvent :=
  match reg.hosts.get hostID with
  | none => []
  | some h => if h.suspected then [] else reg.observed { h with suspected := true } at' detail

def looked (now : ℤ) (hostID : HostId) : List FleetEvent :=
  match reg.hosts.get hostID with
  | none => []
  | some h => reg.observed h now ""

def swept (now : ℤ) : Registry → List HostId → List FleetEvent
  | _, [] => []
  | reg, id :: order => reg.looked now id ++ swept now (reg.look now id) order

end Registry

/-! ### Histories -/

/-- The registry with its reporter, and what became of every transition. -/
structure History where
  reg : Registry
  /-- The events of the report under way. -/
  flight : Option (List FleetEvent)
  /-- Those of the reports that succeeded. -/
  handed : List FleetEvent
  /-- Every transition noted. -/
  recorded : List FleetEvent
  /-- The oldest of too many pending, when there were too many. -/
  lost : List FleetEvent

inductive History.Call where
  | beat (hb : HostHeartbeat) (addr : String) (at' : ℤ)
  | suspect (hostID : HostId) (detail : String) (at' : ℤ)
  | sweep (order : List HostId) (now : ℤ)
  /-- A report is sent, with what is pending. -/
  | send
  | accepted
  | refused

namespace History

def start (staleAfter : ℤ) : History := ⟨Registry.new staleAfter, none, [], [], []⟩

/-- The registry notes some transitions, on top of those pending. -/
def noting (s : History) (notes : List FleetEvent) (reg : Registry) : History :=
  { s with
    reg := reg
    recorded := s.recorded ++ notes
    lost := s.lost ++ (s.reg.events ++ notes).rdrop maxPendingEvents }

def step (s : History) : Call → History
  | .beat hb addr at' => s.noting (s.reg.beaten hb addr at') (s.reg.beat hb addr at')
  | .suspect hostID detail at' => s.noting (s.reg.doubted hostID detail at') (s.reg.suspect hostID detail at')
  | .sweep order now => s.noting (Registry.swept now s.reg order) (s.reg.sweepIn order now)
  | .send =>
    match s.flight with
    | some _ => s
    | none => { s with reg := s.reg.drain.2, flight := some s.reg.drain.1 }
  | .accepted =>
    match s.flight with
    | none => s
    | some events => { s with flight := none, handed := s.handed ++ events }
  | .refused =>
    match s.flight with
    | none => s
    | some events =>
      { s with
        reg := s.reg.restore events
        flight := none
        lost := s.lost ++ (events ++ s.reg.events).rdrop maxPendingEvents }

/-- What was handed over, what is being sent and what waits. -/
def kept (s : History) : List FleetEvent := s.handed ++ s.flight.getD [] ++ s.reg.events

end History

/-! ### What a history says -/

/-- The liveness that an event says its box has come to. -/
def FleetEvent.implied (e : FleetEvent) : HostLiveness :=
  match e.kind with
  | .registered => .healthy
  | .restarted => .healthy
  | .returned => .healthy
  | .suspected => .suspected
  | .left => .left
  | .failed => .failed

/-- An event that may follow another of its box. -/
def FleetEvent.Turns (e e' : FleetEvent) : Prop :=
  e.implied ≠ e'.implied ∨ e'.kind = .registered ∨ e'.kind = .restarted

def eventsOf (id : HostId) (events : List FleetEvent) : List FleetEvent := events.filter fun e => e.hostID = id

/-- Nothing is out of order, twice there, or missing, but for the oldest of too many. -/
structure History.Complete (s : History) : Prop where
  order : s.kept.Sublist s.recorded
  nodup : (s.recorded.map FleetEvent.eventID).Nodup
  all : s.recorded.Perm (s.kept ++ s.lost)
  oldest : ∀ e ∈ s.lost, e.eventID + maxPendingEvents < s.recorded.length

/-- The registry's rows agree with the last of the transitions that were recorded. -/
structure Told (hosts : OrderedMap HostId Host) (recorded : List FleetEvent) : Prop where
  id : ∀ id h, hosts.get id = some h → h.id = id
  reported : ∀ id h, hosts.get id = some h →
    (eventsOf id recorded).getLast?.map FleetEvent.implied = some h.reported
  turns : ∀ id, (eventsOf id recorded).IsChain FleetEvent.Turns

/-! ### The newest of the pending -/

theorem rdrop_append_rtake {α : Type} (l : List α) (n : ℕ) : l.rdrop n ++ l.rtake n = l := List.take_append_drop _ l

theorem rtake_sublist {α : Type} (l : List α) (n : ℕ) : (l.rtake n).Sublist l := List.drop_sublist _ l

/-- What is dropped on the way is dropped at the end. -/
theorem rtake_rtake_append {α : Type} (l l' : List α) (n : ℕ) : (l.rtake n ++ l').rtake n = (l ++ l').rtake n := by
  unfold List.rtake
  rcases Nat.le_total l.length n with hle | hle
  · rw [Nat.sub_eq_zero_of_le hle, List.drop_zero]
  · have hcut : (l ++ l').length - n = (l.length - n) + l'.length := by
      rw [List.length_append]
      omega
    have hcut' : (l.drop (l.length - n) ++ l').length - n = l'.length := by
      rw [List.length_append, List.length_drop]
      omega
    rw [hcut, hcut', ← List.drop_drop, List.drop_append_of_le_length (Nat.sub_le _ _)]

/-- One that is dropped has the newest that are kept behind it. -/
theorem length_rtake_of_mem_rdrop {α : Type} {l : List α} {n : ℕ} {x : α} (h : x ∈ l.rdrop n) : (l.rtake n).length = n := by
  have hne : l.length - n ≠ 0 := by
    intro hzero
    rw [List.rdrop, hzero, List.take_zero] at h
    exact absurd h List.not_mem_nil
  rw [List.rtake, List.length_drop]
  omega

/-- As many numbers as the list has lie between a number below all of an increasing list and one above. -/
theorem add_length_lt {l : List ℕ} {low high : ℕ} (hsorted : l.Pairwise (· < ·)) (hlow : ∀ k ∈ l, low < k)
    (hhigh : ∀ k ∈ l, k < high) (hlt : low < high) : low + l.length < high := by
  induction l generalizing low with
  | nil => exact hlt
  | cons k l ih =>
    have hk := hlow k List.mem_cons_self
    have hrest := ih (List.pairwise_cons.mp hsorted).2 (List.pairwise_cons.mp hsorted).1
      (fun m hm => hhigh m (List.mem_cons_of_mem _ hm)) (hhigh k List.mem_cons_self)
    rw [List.length_cons]
    omega

/-! ### What one call notes -/

namespace Registry

/-- A call that notes these transitions, with ids minted one after the other. -/
structure Notes (reg : Registry) (notes : List FleetEvent) (reg' : Registry) : Prop where
  events : reg'.events = (reg.events ++ notes).rtake maxPendingEvents
  ids : notes.map FleetEvent.eventID = List.range' reg.minted notes.length
  minted : reg'.minted = reg.minted + notes.length
  staleAfter : reg'.staleAfter = reg.staleAfter
  retain : reg'.retain = reg.retain

variable {reg reg' reg'' : Registry} {notes notes' : List FleetEvent}

theorem Notes.bounded (h : Notes reg notes reg') : reg'.events.length ≤ maxPendingEvents := by
  rw [h.events, List.rtake, List.length_drop]
  omega

theorem Notes.refl (hbounded : reg.events.length ≤ maxPendingEvents) : Notes reg [] reg where
  events := by rw [List.append_nil, List.rtake, Nat.sub_eq_zero_of_le hbounded, List.drop_zero]
  ids := rfl
  minted := rfl
  staleAfter := rfl
  retain := rfl

theorem Notes.trans (h : Notes reg notes reg') (h' : Notes reg' notes' reg'') : Notes reg (notes ++ notes') reg'' where
  events := by rw [h'.events, h.events, rtake_rtake_append, List.append_assoc]
  ids := by rw [List.map_append, h.ids, h'.ids, h.minted, List.length_append, List.range'_append_1]
  minted := by rw [h'.minted, h.minted, List.length_append, Nat.add_assoc]
  staleAfter := h'.staleAfter.trans h.staleAfter
  retain := h'.retain.trans h.retain

theorem note_spec (reg : Registry) (h : Host) (kind : FleetEventKind) (at' : ℤ) (detail : String) :
    reg.note h kind at' detail =
      { reg with
        events := (reg.events ++ [reg.eventOf h kind at' detail]).rtake maxPendingEvents
        minted := reg.minted + 1 } := by
  simp only [note, List.rtake, eventOf]

theorem notes_note (reg : Registry) (h : Host) (kind : FleetEventKind) (at' : ℤ) (detail : String) :
    Notes reg [reg.eventOf h kind at' detail] (reg.note h kind at' detail) := by
  rw [note_spec]
  exact ⟨by dsimp only, rfl, rfl, rfl, rfl⟩

theorem notes_observe (hbounded : reg.events.length ≤ maxPendingEvents) (h : Host) (at' : ℤ) (detail : String) :
    Notes reg (reg.observed h at' detail) (reg.observe h at' detail).1 := by
  unfold observed observe
  dsimp only
  split_ifs with hsame
  · exact Notes.refl hbounded
  · exact notes_note reg { h with reported := h.liveness at' reg.staleAfter } _ at' detail

/-- Which boxes there are has no part in it. -/
theorem Notes.withHosts (h : Notes reg notes reg') (hosts : OrderedMap HostId Host) :
    Notes reg notes { reg' with hosts := hosts } := ⟨h.events, h.ids, h.minted, h.staleAfter, h.retain⟩

theorem notes_look (hbounded : reg.events.length ≤ maxPendingEvents) (now : ℤ) (hostID : HostId) :
    Notes reg (reg.looked now hostID) (reg.look now hostID) := by
  unfold looked look
  cases reg.hosts.get hostID with
  | none => exact Notes.refl hbounded
  | some h => exact (notes_observe hbounded h now "").withHosts _

theorem notes_sweepIn (now : ℤ) (order : List HostId) : ∀ {reg : Registry}, reg.events.length ≤ maxPendingEvents →
    Notes reg (swept now reg order) (reg.sweepIn order now) := by
  induction order with
  | nil => exact fun hbounded => Notes.refl hbounded
  | cons id order ih =>
    intro reg hbounded
    have hlook := notes_look hbounded now id
    exact hlook.trans (ih hlook.bounded)

theorem notes_suspect (hbounded : reg.events.length ≤ maxPendingEvents) (hostID : HostId) (detail : String) (at' : ℤ) :
    Notes reg (reg.doubted hostID detail at') (reg.suspect hostID detail at') := by
  unfold doubted suspect
  cases reg.hosts.get hostID with
  | none => exact Notes.refl hbounded
  | some h =>
    dsimp only
    split_ifs with hsuspected
    · exact Notes.refl hbounded
    · exact (notes_observe hbounded _ at' detail).withHosts _

/-- Settling the reservations has no part in it either. -/
theorem Notes.settled (h : Notes reg notes reg') (hosts : OrderedMap HostId Host) (at' : ℤ) (hb : HostHeartbeat) :
    Notes reg notes (({ reg' with hosts := hosts }.evict at').settle hb) :=
  ⟨h.events, h.ids, h.minted, h.staleAfter, h.retain⟩

theorem notes_beat (hbounded : reg.events.length ≤ maxPendingEvents) (hb : HostHeartbeat) (addr : String) (at' : ℤ) :
    Notes reg (reg.beaten hb addr at') (reg.beat hb addr at') := by
  unfold beaten beat
  cases reg.hosts.get hb.hostID with
  | none => exact (notes_note reg _ .registered at' "").settled _ at' hb
  | some previous =>
    dsimp only
    split_ifs with hrestarted
    · exact (notes_note reg _ .restarted at' "").settled _ at' hb
    · exact (notes_observe hbounded _ at' "").settled _ at' hb

/-- A report that is put back goes ahead of what was noted meanwhile. -/
theorem restore_spec (hbounded : reg.events.length ≤ maxPendingEvents) (events : List FleetEvent) :
    reg.restore events = { reg with events := (events ++ reg.events).rtake maxPendingEvents } := by
  unfold restore
  split_ifs with hnone
  · have hall : (events ++ reg.events).rtake maxPendingEvents = reg.events := by
      rw [hnone, List.nil_append, List.rtake, Nat.sub_eq_zero_of_le hbounded, List.drop_zero]
    rw [hall]
  · simp only [List.rtake]

end Registry

/-! ### Nothing goes missing -/

/-- What is dropped of a pending list goes to the dropped. -/
theorem perm_spill (handed pending lost notes : List FleetEvent) (n : ℕ) :
    (handed ++ pending ++ lost ++ notes).Perm
      (handed ++ (pending ++ notes).rtake n ++ (lost ++ (pending ++ notes).rdrop n)) := by
  rw [List.perm_iff_count]
  intro e
  have hsplit : (pending ++ notes).count e = ((pending ++ notes).rdrop n).count e + ((pending ++ notes).rtake n).count e := by
    rw [← List.count_append, rdrop_append_rtake]
  simp only [List.count_append] at hsplit ⊢
  omega

/-- Behind one that is dropped from a pending list there are as many newer ones as the list may hold. -/
theorem oldest_of_sublist {pending recorded : List FleetEvent} {e : FleetEvent} (hpending : pending.Sublist recorded)
    (hids : recorded.map FleetEvent.eventID = List.range recorded.length) (he : e ∈ pending.rdrop maxPendingEvents) :
    e.eventID + maxPendingEvents < recorded.length := by
  have hbelow : ∀ e ∈ pending, e.eventID < recorded.length := by
    intro e he
    rw [← List.mem_range, ← hids]
    exact List.mem_map_of_mem (hpending.subset he)
  have hsorted : (pending.map FleetEvent.eventID).Pairwise (· < ·) := by
    refine List.Pairwise.sublist (hpending.map _) ?_
    rw [hids]
    exact List.pairwise_lt_range
  rw [← rdrop_append_rtake pending maxPendingEvents, List.map_append, List.pairwise_append] at hsorted
  obtain ⟨-, hkept, hacross⟩ := hsorted
  have hnewer := add_length_lt hkept
    (fun k hk => hacross e.eventID (List.mem_map_of_mem he) k hk)
    (fun k hk => by
      obtain ⟨e', he', rfl⟩ := List.mem_map.mp hk
      exact hbelow e' ((rtake_sublist _ _).subset he'))
    (hbelow e ((List.take_sublist _ _).subset he))
  rwa [List.length_map, length_rtake_of_mem_rdrop he] at hnewer

namespace History

/-- What a run keeps of its events, whatever is said of the boxes. -/
structure Ledger (s : History) : Prop extends Complete s where
  bounded : s.reg.events.length ≤ maxPendingEvents
  ids : s.recorded.map FleetEvent.eventID = List.range s.reg.minted

variable {s : History}

theorem Ledger.minted (h : Ledger s) : s.reg.minted = s.recorded.length := by
  rw [← List.length_range (n := s.reg.minted), ← h.ids, List.length_map]

theorem nodup_of_ids {recorded : List FleetEvent} {n : ℕ} (hids : recorded.map FleetEvent.eventID = List.range n) :
    (recorded.map FleetEvent.eventID).Nodup := by
  rw [hids]
  exact List.nodup_range

theorem ledger_start (staleAfter : ℤ) : Ledger (start staleAfter) where
  order := List.Sublist.refl _
  nodup := List.nodup_nil
  all := List.Perm.refl _
  oldest := fun _ he => absurd he List.not_mem_nil
  bounded := Nat.zero_le _
  ids := rfl

theorem Ledger.noting (h : Ledger s) {notes : List FleetEvent} {reg : Registry} (hnotes : Registry.Notes s.reg notes reg) :
    Ledger (s.noting notes reg) := by
  have hids : (s.recorded ++ notes).map FleetEvent.eventID = List.range (s.reg.minted + notes.length) := by
    rw [List.map_append, h.ids, hnotes.ids, List.range_eq_range', List.range_eq_range', ← List.range'_append_1, Nat.zero_add]
  have hlength : (s.recorded ++ notes).length = s.reg.minted + notes.length := by
    rw [List.length_append, h.minted]
  have hpending : (s.reg.events ++ notes).Sublist (s.recorded ++ notes) :=
    ((List.sublist_append_right _ _).trans h.order).append_right notes
  refine ⟨⟨?_, nodup_of_ids hids, ?_, ?_⟩, hnotes.bounded, ?_⟩
  · show (s.handed ++ s.flight.getD [] ++ reg.events).Sublist (s.recorded ++ notes)
    rw [hnotes.events]
    refine ((rtake_sublist _ _).append_left _).trans ?_
    rw [← List.append_assoc]
    exact h.order.append_right notes
  · show (s.recorded ++ notes).Perm (s.handed ++ s.flight.getD [] ++ reg.events ++ _)
    rw [hnotes.events]
    exact (h.all.append_right notes).trans (perm_spill _ _ _ _ _)
  · intro e he
    show e.eventID + maxPendingEvents < (s.recorded ++ notes).length
    rcases List.mem_append.mp he with hold | hnew
    · exact (h.oldest e hold).trans_le (by rw [List.length_append]; exact Nat.le_add_right _ _)
    · exact oldest_of_sublist hpending (by rw [hids, hlength]) hnew
  · show (s.recorded ++ notes).map FleetEvent.eventID = List.range reg.minted
    rw [hnotes.minted]
    exact hids

theorem Ledger.send (h : Ledger s) : Ledger (step s .send) := by
  unfold step
  cases hflight : s.flight with
  | some events => exact h
  | none =>
    have hkept : (s.handed ++ s.reg.events ++ []) = s.kept := by
      rw [kept, hflight, Option.getD_none, List.append_nil, List.append_nil]
    refine ⟨⟨?_, h.nodup, ?_, h.oldest⟩, Nat.zero_le _, h.ids⟩
    · show (s.handed ++ s.reg.events ++ []).Sublist s.recorded
      rw [hkept]
      exact h.order
    · show s.recorded.Perm (s.handed ++ s.reg.events ++ [] ++ s.lost)
      rw [hkept]
      exact h.all

theorem Ledger.accepted (h : Ledger s) : Ledger (step s .accepted) := by
  unfold step
  cases hflight : s.flight with
  | none => exact h
  | some events =>
    have hkept : (s.handed ++ events ++ [] ++ s.reg.events) = s.kept := by
      rw [kept, hflight, Option.getD_some, List.append_nil]
    refine ⟨⟨?_, h.nodup, ?_, h.oldest⟩, h.bounded, h.ids⟩
    · show (s.handed ++ events ++ [] ++ s.reg.events).Sublist s.recorded
      rw [hkept]
      exact h.order
    · show s.recorded.Perm (s.handed ++ events ++ [] ++ s.reg.events ++ s.lost)
      rw [hkept]
      exact h.all

theorem Ledger.refused (h : Ledger s) : Ledger (step s .refused) := by
  unfold step
  cases hflight : s.flight with
  | none => exact h
  | some events =>
    dsimp only
    rw [Registry.restore_spec h.bounded]
    have hkept : s.handed ++ (events ++ s.reg.events) = s.kept := by
      rw [kept, hflight, Option.getD_some, List.append_assoc]
    have hpending : (events ++ s.reg.events).Sublist s.recorded := by
      refine (List.sublist_append_right s.handed _).trans ?_
      rw [hkept]
      exact h.order
    refine ⟨⟨?_, h.nodup, ?_, ?_⟩, ?_, h.ids⟩
    · unfold kept
      dsimp only
      rw [Option.getD_none, List.append_nil]
      refine ((rtake_sublist _ _).append_left _).trans ?_
      rw [hkept]
      exact h.order
    · unfold kept
      dsimp only
      rw [Option.getD_none, List.append_nil]
      have hspill := perm_spill s.handed (events ++ s.reg.events) s.lost [] maxPendingEvents
      rw [hkept, List.append_nil, List.append_nil] at hspill
      exact h.all.trans hspill
    · intro e he
      rcases List.mem_append.mp he with hold | hnew
      · exact h.oldest e hold
      · exact oldest_of_sublist hpending (by rw [h.ids, h.minted]) hnew
    · rw [List.rtake, List.length_drop]
      omega

/-- No step loses an event but the oldest of too many. -/
theorem step_complete (s : History) (c : Call) (h : Ledger s) : Ledger (step s c) := by
  cases c with
  | beat hb addr at' => exact h.noting (Registry.notes_beat h.bounded hb addr at')
  | suspect hostID detail at' => exact h.noting (Registry.notes_suspect h.bounded hostID detail at')
  | sweep order now => exact h.noting (Registry.notes_sweepIn now order h.bounded)
  | send => exact h.send
  | accepted => exact h.accepted
  | refused => exact h.refused

end History

/-! ### What the history says of a box -/

theorem eventsOf_concat (id : HostId) (recorded : List FleetEvent) (e : FleetEvent) :
    eventsOf id (recorded ++ [e]) = if e.hostID = id then eventsOf id recorded ++ [e] else eventsOf id recorded := by
  unfold eventsOf
  rw [List.filter_append, List.filter_singleton]
  by_cases hid : e.hostID = id
  · simp [hid]
  · simp [hid]

theorem implied_kindFor (reg : Registry) (h : Host) (current : HostLiveness) (at' : ℤ) (detail : String) :
    (reg.eventOf h (Registry.kindFor current) at' detail).implied = current := by
  cases current <;> rfl

namespace Told

variable {hosts : OrderedMap HostId Host} {recorded : List FleetEvent} {id : HostId} {row old : Host}

/-- One transition more, which the new row of its box agrees with. -/
theorem write (h : Told hosts recorded) {e : FleetEvent} (he : e.hostID = id) (hrow : row.id = id)
    (hreported : row.reported = e.implied) (hturns : ∀ last ∈ (eventsOf id recorded).getLast?, last.Turns e) :
    Told (hosts.set id row) (recorded ++ [e]) := by
  refine ⟨fun id' h' hget => ?_, fun id' h' hget => ?_, fun id' => ?_⟩
  · rw [OrderedMap.get_set] at hget
    split_ifs at hget with hid
    · obtain rfl := Option.some.inj hget
      rw [hrow, hid]
    · exact h.id id' h' hget
  · rw [eventsOf_concat]
    rw [OrderedMap.get_set] at hget
    split_ifs at hget with hid
    · obtain rfl := Option.some.inj hget
      rw [if_pos (he.trans hid.symm), List.getLast?_concat, Option.map_some, hreported]
    · rw [if_neg fun heq => hid (heq.symm.trans he)]
      exact h.reported id' h' hget
  · rw [eventsOf_concat]
    split_ifs with hid
    · obtain rfl : id = id' := he.symm.trans hid
      refine List.isChain_append.mpr ⟨h.turns id, List.isChain_singleton e, fun last hlast e' he' => ?_⟩
      obtain rfl : e = e' := by simpa using he'
      exact hturns last hlast
    · exact h.turns id'

/-- The row of a box replaced, with no transition. -/
theorem rewrite (h : Told hosts recorded) (hold : hosts.get id = some old) (hrow : row.id = id)
    (hreported : row.reported = old.reported) : Told (hosts.set id row) recorded := by
  refine ⟨fun id' h' hget => ?_, fun id' h' hget => ?_, h.turns⟩
  · rw [OrderedMap.get_set] at hget
    split_ifs at hget with hid
    · obtain rfl := Option.some.inj hget
      rw [hrow, hid]
    · exact h.id id' h' hget
  · rw [OrderedMap.get_set] at hget
    split_ifs at hget with hid
    · obtain rfl := Option.some.inj hget
      rw [hreported, hid]
      exact h.reported id old hold
    · exact h.reported id' h' hget

/-- Boxes dropped. -/
theorem filter (h : Told hosts recorded) (p : HostId → Host → Bool) : Told (hosts.filter p) recorded := by
  have hkept : ∀ id' h', (hosts.filter p).get id' = some h' → hosts.get id' = some h' := by
    intro id' h' hget
    rw [OrderedMap.get_filter] at hget
    exact (Option.filter_eq_some_iff.mp hget).1
  exact ⟨fun id' h' hget => h.id id' h' (hkept id' h' hget), fun id' h' hget => h.reported id' h' (hkept id' h' hget), h.turns⟩

/-- A row that is observed: its last transition was into what it is reported as, so one more is into
something else. -/
theorem observe (h : Told hosts recorded) (hold : hosts.get id = some old) (hrow : row.id = id)
    (hreported : row.reported = old.reported) (reg : Registry) (at' : ℤ) (detail : String) :
    Told (hosts.set id (reg.observe row at' detail).2) (recorded ++ reg.observed row at' detail) := by
  unfold Registry.observe Registry.observed
  dsimp only
  split_ifs with hsame
  · rw [List.append_nil]
    exact h.rewrite hold hrow hreported
  · refine h.write hrow hrow (implied_kindFor reg row _ at' detail).symm fun last hlast => Or.inl ?_
    have hlast' := h.reported id old hold
    rw [Option.mem_def.mp hlast, Option.map_some, ← hreported] at hlast'
    rw [Option.some.inj hlast', implied_kindFor]
    exact fun heq => hsame heq.symm

end Told

namespace Registry

variable {reg : Registry} {recorded : List FleetEvent}

theorem hosts_observe (reg : Registry) (h : Host) (at' : ℤ) (detail : String) :
    (reg.observe h at' detail).1.hosts = reg.hosts := by
  obtain ⟨events, minted, reported, hobserve⟩ := observe_eq reg h at' detail
  rw [hobserve]

theorem told_look (h : Told reg.hosts recorded) (now : ℤ) (id : HostId) :
    Told (reg.look now id).hosts (recorded ++ reg.looked now id) := by
  unfold look looked
  cases hold : reg.hosts.get id with
  | none =>
    rw [List.append_nil]
    exact h
  | some old =>
    dsimp only
    rw [hosts_observe]
    exact h.observe hold (h.id id old hold) rfl reg now ""

theorem told_sweepIn (now : ℤ) (order : List HostId) : ∀ {reg : Registry} {recorded : List FleetEvent},
    Told reg.hosts recorded → Told (reg.sweepIn order now).hosts (recorded ++ swept now reg order) := by
  induction order with
  | nil =>
    intro reg recorded h
    rw [swept, List.append_nil]
    exact h
  | cons id order ih =>
    intro reg recorded h
    rw [swept, ← List.append_assoc]
    exact ih (told_look h now id)

theorem told_suspect (h : Told reg.hosts recorded) (hostID : HostId) (detail : String) (at' : ℤ) :
    Told (reg.suspect hostID detail at').hosts (recorded ++ reg.doubted hostID detail at') := by
  unfold suspect doubted
  cases hold : reg.hosts.get hostID with
  | none =>
    rw [List.append_nil]
    exact h
  | some old =>
    dsimp only
    split_ifs with hsuspected
    · rw [List.append_nil]
      exact h
    · dsimp only
      rw [hosts_observe]
      have hrow : { old with suspected := true }.id = hostID := h.id hostID old hold
      exact h.observe hold hrow rfl reg at' detail

/-- A box is in its own beat, or gone by its own word. -/
theorem liveness_rowOf {staleAfter : ℤ} (hstale : 0 < staleAfter) (hb : HostHeartbeat) (addr : String) (at' : ℤ)
    (reported : HostLiveness) :
    (rowOf hb addr at' reported).liveness at' staleAfter = if hb.leaving then .left else .healthy := by
  have hfresh : (rowOf hb addr at' reported).fresh at' staleAfter = true := by
    show decide (at' - at' < staleAfter) = true
    rw [sub_self, decide_eq_true hstale]
  have hleaving : (rowOf hb addr at' reported).leaving = hb.leaving := rfl
  have hsuspected : (rowOf hb addr at' reported).suspected = false := rfl
  unfold Host.liveness
  rw [hfresh, hleaving, hsuspected]
  cases hb.leaving <;> rfl

/-- The box was known, in this life of its agent. -/
def knows (reg : Registry) (hb : HostHeartbeat) : Bool :=
  (reg.hosts.get hb.hostID).any fun previous => previous.incarnation = hb.incarnation

/-- The rows after a beat, and its transition: of a box that is known its liveness is observed, and
that of any other is reported under the transition that brings the box in. -/
theorem beat_cases (reg : Registry) (hb : HostHeartbeat) (addr : String) (at' : ℤ) :
    (∃ previous, reg.hosts.get hb.hostID = some previous ∧ reg.knows hb = true ∧
      (reg.beat hb addr at').hosts = (reg.hosts.set hb.hostID (reg.observe (rowOf hb addr at' previous.reported) at' "").2).filter
        (fun _ h => !(reg.retain < at' - h.lastSeenAt)) ∧
      reg.beaten hb addr at' = reg.observed (rowOf hb addr at' previous.reported) at' "") ∨
    (∃ reported kind, reg.knows hb = false ∧ (kind = .registered ∨ kind = .restarted) ∧
      (reg.beat hb addr at').hosts = (reg.hosts.set hb.hostID
          (rowOf hb addr at' ((rowOf hb addr at' reported).liveness at' reg.staleAfter))).filter
        (fun _ h => !(reg.retain < at' - h.lastSeenAt)) ∧
      reg.beaten hb addr at' = [reg.eventOf (rowOf hb addr at' reported) kind at' ""]) := by
  unfold beat beaten knows
  cases hprevious : reg.hosts.get hb.hostID with
  | none =>
    refine Or.inr ⟨.failed, .registered, rfl, Or.inl rfl, ?_, rfl⟩
    obtain ⟨events, hnote⟩ := note_eq reg { rowOf hb addr at' .failed with
      reported := (rowOf hb addr at' .failed).liveness at' reg.staleAfter } .registered at' ""
    dsimp only
    rw [hnote]
    rfl
  | some previous =>
    dsimp only
    split_ifs with hrestarted
    · refine Or.inr ⟨previous.reported, .restarted, by simpa using hrestarted, Or.inr rfl, ?_, rfl⟩
      obtain ⟨events, hnote⟩ := note_eq reg { rowOf hb addr at' previous.reported with
        reported := (rowOf hb addr at' previous.reported).liveness at' reg.staleAfter } .restarted at' ""
      rw [hnote]
      rfl
    · refine Or.inl ⟨previous, rfl, by simpa using hrestarted, ?_, rfl⟩
      obtain ⟨events, minted, reported, hobserve⟩ := observe_eq reg (rowOf hb addr at' previous.reported) at' ""
      rw [hobserve]
      rfl

/-- A beat that brings a box in says it is healthy, which it is when it is not leaving. -/
theorem told_beat (h : Told reg.hosts recorded) (hstale : 0 < reg.staleAfter) (hb : HostHeartbeat) (addr : String)
    (at' : ℤ) (hknown : hb.leaving = true → reg.knows hb = true) :
    Told (reg.beat hb addr at').hosts (recorded ++ reg.beaten hb addr at') := by
  obtain ⟨previous, hprevious, -, hhosts, hbeaten⟩ | ⟨reported, kind, hnew, hkind, hhosts, hbeaten⟩ := reg.beat_cases hb addr at'
  · rw [hhosts, hbeaten]
    have hrow : (rowOf hb addr at' previous.reported).id = hb.hostID := rfl
    exact (h.observe hprevious hrow rfl reg at' "").filter _
  · rw [hhosts, hbeaten]
    have hstays : hb.leaving = false := by
      cases hleaving : hb.leaving with
      | false => rfl
      | true => rw [hknown hleaving] at hnew; cases hnew
    have hevent : (reg.eventOf (rowOf hb addr at' reported) kind at' "").implied = .healthy := by
      obtain rfl | rfl := hkind
      · rfl
      · rfl
    have hrow : (rowOf hb addr at' ((rowOf hb addr at' reported).liveness at' reg.staleAfter)).reported = .healthy := by
      rw [liveness_rowOf hstale, hstays]
      rfl
    have hid : (reg.eventOf (rowOf hb addr at' reported) kind at' "").hostID = hb.hostID := rfl
    exact (h.write hid rfl (hrow.trans hevent.symm) fun last _ => Or.inr hkind).filter _

/-- One that is leaving it does not describe. -/
theorem not_told_beat (hstale : 0 < reg.staleAfter) (hretain : reg.staleAfter ≤ reg.retain) (hb : HostHeartbeat) (addr : String)
    (at' : ℤ) (hleaving : hb.leaving = true) (hnew : reg.knows hb = false) :
    ¬ Told (reg.beat hb addr at').hosts (recorded ++ reg.beaten hb addr at') := by
  intro h
  obtain ⟨previous, -, hknown, -⟩ | ⟨reported, kind, -, hkind, hhosts, hbeaten⟩ := reg.beat_cases hb addr at'
  · rw [hknown] at hnew
    cases hnew
  · rw [hhosts, hbeaten, liveness_rowOf hstale, hleaving, if_pos rfl] at h
    have hrow : ((reg.hosts.set hb.hostID (rowOf hb addr at' .left)).filter
        fun _ h => !(reg.retain < at' - h.lastSeenAt)).get hb.hostID = some (rowOf hb addr at' .left) := by
      have hseen : ¬ reg.retain < at' - (rowOf hb addr at' .left).lastSeenAt := by
        show ¬ reg.retain < at' - at'
        omega
      rw [OrderedMap.get_filter, OrderedMap.get_set_self, Option.filter_some, if_pos (by simpa using hseen)]
    have hlast := h.reported hb.hostID _ hrow
    have hid : (reg.eventOf (rowOf hb addr at' reported) kind at' "").hostID = hb.hostID := rfl
    rw [eventsOf_concat, if_pos hid, List.getLast?_concat, Option.map_some] at hlast
    obtain rfl | rfl := hkind
    · cases hlast
    · cases hlast

end Registry

/-! ### Runs -/

namespace History

/-- What the history is to say: complete, and in agreement with the rows the registry holds. -/
structure IsHistory (s : History) : Prop extends Complete s, Told s.reg.hosts s.recorded

/-- A box that leaves was known, in this life of its agent. -/
def LeavesKnown (s : History) : Call → Prop
  | .beat hb _ _ => hb.leaving = true → s.reg.knows hb = true
  | _ => True

instance (s : History) (c : Call) : Decidable (LeavesKnown s c) := by
  cases c <;> unfold LeavesKnown <;> infer_instance

/-- A ledger kept by a registry that was built with a window. -/
structure Kept (s : History) : Prop extends Ledger s where
  stale : 0 < s.reg.staleAfter
  retain : s.reg.staleAfter ≤ s.reg.retain

theorem kept_start {staleAfter : ℤ} (hstale : 0 < staleAfter) : Kept (start staleAfter) :=
  ⟨ledger_start staleAfter, hstale, le_max_right _ _⟩

theorem window_step {s : History} (h : Ledger s) (c : Call) :
    (step s c).reg.staleAfter = s.reg.staleAfter ∧ (step s c).reg.retain = s.reg.retain := by
  cases c with
  | beat hb addr at' =>
    have hnotes := Registry.notes_beat h.bounded hb addr at'
    exact ⟨hnotes.staleAfter, hnotes.retain⟩
  | suspect hostID detail at' =>
    have hnotes := Registry.notes_suspect h.bounded hostID detail at'
    exact ⟨hnotes.staleAfter, hnotes.retain⟩
  | sweep order now =>
    have hnotes := Registry.notes_sweepIn now order h.bounded
    exact ⟨hnotes.staleAfter, hnotes.retain⟩
  | send | accepted =>
    unfold step
    cases s.flight with
    | none | some => exact ⟨rfl, rfl⟩
  | refused =>
    unfold step
    cases s.flight with
    | none => exact ⟨rfl, rfl⟩
    | some events =>
      dsimp only
      rw [Registry.restore_spec h.bounded]
      exact ⟨rfl, rfl⟩

theorem kept_step (s : History) (c : Call) (h : Kept s) : Kept (step s c) := by
  obtain ⟨hstale, hretain⟩ := window_step h.toLedger c
  refine ⟨step_complete s c h.toLedger, ?_, ?_⟩
  · rw [hstale]
    exact h.stale
  · rw [hstale, hretain]
    exact h.retain

/-- A step that meets the condition keeps the rows and the history in agreement. -/
theorem step_told (s : History) (c : Call) (h : Kept s) (htold : Told s.reg.hosts s.recorded) (hc : LeavesKnown s c) :
    Told (step s c).reg.hosts (step s c).recorded := by
  cases c with
  | beat hb addr at' => exact Registry.told_beat htold h.stale hb addr at' hc
  | suspect hostID detail at' => exact Registry.told_suspect htold hostID detail at'
  | sweep order now => exact Registry.told_sweepIn now order htold
  | send | accepted =>
    unfold step
    cases s.flight with
    | none | some => exact htold
  | refused =>
    unfold step
    cases s.flight with
    | none => exact htold
    | some events =>
      dsimp only
      rw [Registry.restore_spec h.bounded]
      exact htold

/-- And one that does not ends the agreement. -/
theorem not_told_step {s : History} {c : Call} (h : Kept s) (hc : ¬ LeavesKnown s c) :
    ¬ Told (step s c).reg.hosts (step s c).recorded := by
  cases c with
  | beat hb addr at' =>
    simp only [LeavesKnown, Classical.not_imp, Bool.not_eq_true] at hc
    exact Registry.not_told_beat h.stale h.retain hb addr at' hc.1 hc.2
  | suspect | sweep | send | accepted | refused => exact absurd trivial hc

/-- What holds at every point of a run that meets the condition. -/
structure Agrees (s : History) : Prop extends Kept s, Told s.reg.hosts s.recorded

theorem agrees_start {staleAfter : ℤ} (hstale : 0 < staleAfter) : Agrees (start staleAfter) := by
  refine ⟨kept_start hstale, fun id h hget => ?_, fun id h hget => ?_, fun id => List.isChain_nil⟩
  · cases hget
  · cases hget

theorem agrees_step (s : History) (c : Call) (h : Agrees s) (hc : LeavesKnown s c) : Agrees (step s c) :=
  ⟨kept_step s c h.toKept, step_told s c h.toKept h.toTold hc⟩

theorem meets_of_prefixes {s : History} {calls : List Call}
    (h : ∀ pre c, pre ++ [c] <+: calls → LeavesKnown (exec step s pre) c) : Meets step LeavesKnown s calls := by
  induction calls generalizing s with
  | nil => trivial
  | cons c calls ih =>
    refine ⟨h [] c ⟨calls, rfl⟩, ih fun pre c' hpre => ?_⟩
    exact h (c :: pre) c' (List.cons_prefix_cons.mpr ⟨rfl, hpre⟩)

/-- **The history of the fleet is complete**, and agrees with the registry at every point of a run
exactly when no box enters the registry on its way out. -/
theorem history_of_run {staleAfter : ℤ} (hstale : 0 < staleAfter) (calls : List Call) :
    (exec step (start staleAfter) calls).Complete ∧
      ((∀ pre, pre <+: calls → (exec step (start staleAfter) pre).IsHistory) ↔
        Meets step LeavesKnown (start staleAfter) calls) := by
  have hkept : ∀ pre, Kept (exec step (start staleAfter) pre) := exec_invariant kept_step (kept_start hstale)
  refine ⟨(hkept calls).toComplete, fun h => ?_, ?_⟩
  · refine meets_of_prefixes fun pre c hpre => ?_
    by_contra hc
    have htold := (h (pre ++ [c]) hpre).toTold
    rw [exec_append] at htold
    exact not_told_step (hkept pre) hc htold
  · rintro hmeets pre ⟨post, rfl⟩
    have hagrees := Meets.invariant agrees_step (agrees_start hstale) (Meets.append.mp hmeets).1
    exact ⟨hagrees.toComplete, hagrees.toTold⟩

/-- A report that fails, while a sweep finds its box gone, and is sent again. -/
def retried : List Call :=
  [.beat ⟨"box", "eu", 9000, ⟨0, 4⟩, [], "boot", false⟩ "10.0.0.1" 0, .send, .sweep ["box"] 40, .refused, .send, .accepted]

theorem history_of_retried :
    (exec step (start 20) retried).Complete ∧ ∀ pre, pre <+: retried → (exec step (start 20) pre).IsHistory :=
  have hrun := history_of_run (by decide : (0 : ℤ) < 20) retried
  ⟨hrun.1, hrun.2.mpr (by decide)⟩

/-- A box whose first beat here is its goodbye is written down as a box that came. -/
def goodbye : List Call := [.beat ⟨"box", "eu", 9000, ⟨0, 4⟩, [], "boot", true⟩ "10.0.0.1" 0]

theorem goodbye_says_healthy : ¬ (exec step (start 20) goodbye).IsHistory := by
  intro h
  have hrow : ((exec step (start 20) goodbye).reg.hosts.get "box").map Host.reported = some .left := by decide
  have hlast : (eventsOf "box" (exec step (start 20) goodbye).recorded).getLast?.map FleetEvent.implied = some .healthy := by
    decide
  obtain ⟨row, hget, hreported⟩ := Option.map_eq_some_iff.mp hrow
  have htold := h.reported "box" row hget
  rw [hlast, hreported] at htold
  cases htold

end History

end Fleet
end Grove
