import Grove.Lib.Run
import Grove.Lib.Shedding
import Grove.Sim.Batch

/-! # The peers of a game box

`apply` of `apps/grove/game-instance/src/session.rs` and `serve` of `net.rs`: the session thread offers each
envelope of a batch to a bounded queue per peer, and a writer per socket empties it.  The orders of a batch are
carried out one at a time, and anything the async half does may fall between two of them.  `fates` notes, for each
connection the session knows of, what it was addressed and what became of it.

`peers_fed` is the result: what a writer has handed its socket is short of what was addressed by frames that
may be dropped, and by nothing else. -/

namespace Grove
namespace Peers

open Shedding

/-- Frames one peer may fall behind by. -/
def writeQueueDepth : ℕ := 64

/-- An envelope as the sim ordered it sent to one peer. -/
structure Frame where
  text : ServerToClient
  cls : SendClass
deriving DecidableEq

/-- The frames no later one supersedes. -/
def Frame.reliable (frame : Frame) : Bool := frame.cls = .reliable

inductive Outgoing where
  | frame (frame : Frame)
  /-- What the session died of, written as a close frame. -/
  | death (reason : String)
deriving DecidableEq

/-- Where the session's two ends of a peer are: what drops them closes the queue and hangs the socket up. -/
inductive Holder where
  /-- In the event queue, inside `Opened`. -/
  | opening
  /-- In the table of peers. -/
  | held
  | dropped
deriving DecidableEq

inductive Reader where
  | reading
  /-- Hung up by the session: the writer gets its grace. -/
  | flushing
  | ended
deriving DecidableEq

/-- One peer's task and its writer. -/
structure Conn where
  ends : Holder
  queue : List Outgoing
  /-- The writer still has the receiving end of the queue. -/
  receiver : Bool
  reader : Reader
  /-- What the sink has taken, in order. -/
  socket : List Outgoing

/-- As `serve` makes it. -/
def Conn.new : Conn := ⟨.opening, [], true, .reading, []⟩

/-- What a socket has been handed, the close frame apart. -/
def Conn.handed (c : Conn) : List Frame := c.socket.filterMap fun
  | .frame frame => some frame
  | .death _ => none

inductive TrySend where
  | ok
  | full
  | closed
deriving DecidableEq

/-- `try_send` on the bounded queue. -/
def Conn.trySend (c : Conn) (outgoing : Outgoing) : TrySend × Conn :=
  if !c.receiver then (.closed, c)
  else if writeQueueDepth ≤ c.queue.length then (.full, c)
  else (.ok, { c with queue := c.queue ++ [outgoing] })

/-- `peers.remove`: both ends of the peer go. -/
def Conn.remove (c : Conn) : Conn := if c.ends = .held then { c with ends := .dropped } else c

inductive HostEvent where
  | opened (connectionId : ConnectionId)
  | closed (connectionId : ConnectionId)
deriving DecidableEq

/-- What is left to do of a batch. -/
inductive Order where
  | offer (connectionId : ConnectionId) (frame : Frame)
  | close (connectionId : ConnectionId)
deriving DecidableEq

/-- A batch, in the order its parts happen: every recipient of every send, then the closes. -/
def ordersOf (out : OutputBatch) : List Order :=
  out.sends.flatMap (fun send => send.recipients.map fun id => .offer id ⟨send.envelope, send.cls⟩) ++
    out.closes.map fun order => .close order.connectionId

structure Host where
  conns : ConnectionId → Option Conn
  events : List HostEvent
  todo : List Order
  fates : ConnectionId → List (Frame × Fate)

namespace Host

variable (h : Host)

def new : Host := ⟨fun _ => none, [], [], fun _ => []⟩

def put (id : ConnectionId) (c : Conn) : Host := { h with conns := Function.update h.conns id (some c) }

def note (id : ConnectionId) (frame : Frame) (fate : Fate) : Host :=
  { h with fates := Function.update h.fates id (h.fates id ++ [(frame, fate)]) }

def remove (id : ConnectionId) : Host :=
  match h.conns id with
  | none => h
  | some c => h.put id c.remove

/-- One recipient of one send. -/
def offer (id : ConnectionId) (frame : Frame) : Host :=
  match h.conns id with
  | none => h
  | some c =>
    match c.ends with
    -- The session has not heard of it, so no world can have addressed it.
    | .opening => h
    | .dropped => h.note id frame .gone
    | .held =>
      match c.trySend (.frame frame) with
      | (.ok, c) => (h.put id c).note id frame .taken
      -- A droppable frame is superseded by the next of its kind; a peer that misses a reliable one has to go.
      | (.full, c) => if frame.reliable then (h.put id c.remove).note id frame .refused else h.note id frame .shed
      | (.closed, c) => (h.put id c.remove).note id frame .refused

/-- The tick threw: every peer is told why, and the table is cleared. -/
def die (reason : String) : Host :=
  { h with
    conns := fun id => (h.conns id).map fun c =>
      if c.ends = .held then (c.trySend (.death reason)).2.remove else c }

/-! ### Moves -/

inductive Move where
  /-- A socket was accepted, under an id off the counter. -/
  | upgrade (connectionId : ConnectionId)
  /-- The session takes the next event off its queue. -/
  | takeEvent
  /-- A tick answered with a batch, or the close did. -/
  | apply (out : OutputBatch)
  /-- The next order of the batch under way. -/
  | next
  | die (reason : String)
  /-- The session ends and clears its table. -/
  | clear
  /-- The writer takes one off its queue and the sink takes it. -/
  | write (connectionId : ConnectionId)
  /-- The writer takes one off its queue and the sink fails. -/
  | writeFails (connectionId : ConnectionId)
  /-- Nothing is left in a queue whose sender has gone. -/
  | writerEnds (connectionId : ConnectionId)
  /-- The reader sees that it was hung up. -/
  | hungUp (connectionId : ConnectionId)
  /-- The reader ends of itself: idle, a flood, a frame too large, a peer that left. -/
  | readerEnds (connectionId : ConnectionId)
  /-- The grace of a hung-up peer is over, or its writer is. -/
  | graceEnds (connectionId : ConnectionId)

/-- The writer is aborted, and the session told. -/
def abort (id : ConnectionId) (c : Conn) : Host :=
  { h.put id { c with receiver := false, reader := .ended } with events := h.events ++ [.closed id] }

/-- What a move of one peer's own task does to it; `none` when it cannot be made now. -/
def task (c : Conn) : Move → Option Conn
  | .write _ =>
    match c.receiver, c.queue with
    -- Nothing follows a close frame.
    | true, .death reason :: queue => some { c with queue := queue, receiver := false, socket := c.socket ++ [.death reason] }
    | true, .frame frame :: queue => some { c with queue := queue, socket := c.socket ++ [.frame frame] }
    | _, _ => none
  | .writeFails _ =>
    match c.receiver, c.queue with
    | true, _ :: queue => some { c with queue := queue, receiver := false }
    | _, _ => none
  | .writerEnds _ => if c.ends = .dropped ∧ c.queue = [] then some { c with receiver := false } else none
  | .hungUp _ => if c.ends = .dropped ∧ c.reader = .reading then some { c with reader := .flushing } else none
  | _ => none

def takeEvent : Host :=
  match h.todo, h.events with
  | [], .opened id :: events =>
    match h.conns id with
    | none => { h with events := events }
    | some c => { h.put id { c with ends := .held } with events := events }
  | [], .closed id :: events => { h.remove id with events := events }
  | _, _ => h

def step (h : Host) (move : Move) : Host :=
  match move with
  | .upgrade id =>
    match h.conns id with
    | none => { h.put id .new with events := h.events ++ [.opened id] }
    | some _ => h
  | .takeEvent => h.takeEvent
  | .apply out => if h.todo = [] then { h with todo := ordersOf out } else h
  | .next =>
    match h.todo with
    | [] => h
    | .offer id frame :: todo => { h.offer id frame with todo := todo }
    | .close id :: todo => { h.remove id with todo := todo }
  | .die reason => if h.todo = [] then h.die reason else h
  | .clear => if h.todo = [] then { h with conns := fun id => (h.conns id).map Conn.remove } else h
  | .write id | .writeFails id | .writerEnds id | .hungUp id =>
    match (h.conns id).bind (task · move) with
    | none => h
    | some c => h.put id c
  | .readerEnds id =>
    match h.conns id with
    | some c => if c.reader = .reading then h.abort id c else h
    | none => h
  | .graceEnds id =>
    match h.conns id with
    | some c => if c.reader = .flushing then h.abort id c else h
    | none => h

end Host

/-! ### One connection -/

/-- What is on its way to a socket is what was taken for it, a close frame last. -/
structure Conn.Flows (c : Conn) (taken : List Frame) : Prop where
  flow : ∃ lost last, c.socket ++ lost = taken.map .frame ++ last ∧ (c.receiver = true → lost = c.queue) ∧
    (last = [] ∨ (∃ reason, last = [.death reason]) ∧ c.ends = .dropped)

structure Conn.Ok (c : Conn) (fates : List (Frame × Fate)) : Prop where
  accounted : Accounted Frame.reliable fates (c.ends = .dropped)
  flows : c.Flows (takenOf fates)

theorem takenOf_snoc (fates : List (Frame × Fate)) (frame : Frame) {fate : Fate} (h : fate ≠ .taken) :
    takenOf (fates ++ [(frame, fate)]) = takenOf fates := by
  simp [takenOf, offeredOf, List.filter_append, h]

theorem takenOf_taken (fates : List (Frame × Fate)) (frame : Frame) :
    takenOf (fates ++ [(frame, .taken)]) = takenOf fates ++ [frame] := by
  simp [takenOf, offeredOf, List.filter_append]

namespace Conn

variable {c : Conn} {fates : List (Frame × Fate)} {taken : List Frame}

theorem ok_new : Conn.new.Ok [] := ⟨.nil, ⟨[], [], rfl, fun _ => rfl, .inl rfl⟩⟩

/-- A socket has been handed a prefix of what was taken for it. -/
theorem Flows.handed (h : c.Flows taken) : c.handed <+: taken := by
  obtain ⟨lost, last, hflow, -, hlast⟩ := h.flow
  have hnone : last.filterMap (fun | .frame frame => some frame | .death _ => none) = ([] : List Frame) := by
    rcases hlast with rfl | ⟨⟨reason, rfl⟩, -⟩ <;> rfl
  have hall : taken = c.handed ++ lost.filterMap fun
      | .frame frame => some frame
      | .death _ => none := by
    have h := congrArg (List.filterMap fun | .frame frame => some frame | .death _ => none) hflow
    rw [List.filterMap_append, List.filterMap_append, hnone, List.append_nil, List.filterMap_map] at h
    rw [Conn.handed, h]
    exact (List.filterMap_some (l := taken)).symm
  rw [hall]
  exact List.prefix_append _ _

theorem Flows.remove (h : c.Flows taken) : c.remove.Flows taken := by
  unfold Conn.remove
  split_ifs
  · obtain ⟨lost, last, hflow, hlost, hlast⟩ := h.flow
    exact ⟨lost, last, hflow, hlost, hlast.imp id fun h => ⟨h.1, rfl⟩⟩
  · exact h

theorem ends_remove (h : c.ends = .held) : c.remove.ends = .dropped := by
  rw [Conn.remove, if_pos h]

theorem ends_trySend (c : Conn) (outgoing : Outgoing) : (c.trySend outgoing).2.ends = c.ends := by
  unfold trySend
  split_ifs <;> rfl

theorem Ok.remove (h : c.Ok fates) : c.remove.Ok fates := by
  refine ⟨h.accounted.mono fun hdropped => ?_, h.flows.remove⟩
  unfold Conn.remove
  split_ifs
  · rfl
  · exact hdropped

/-- What `try_send` answers, and what it leaves. -/
theorem trySend_cases (c : Conn) (outgoing : Outgoing) :
    (c.trySend outgoing = (.closed, c) ∧ c.receiver = false) ∨ (c.trySend outgoing = (.full, c)) ∨
      (c.trySend outgoing = (.ok, { c with queue := c.queue ++ [outgoing] }) ∧ c.receiver = true) := by
  unfold trySend
  split_ifs with hreceiver hfull
  · exact .inl ⟨rfl, by simpa using hreceiver⟩
  · exact .inr (.inl rfl)
  · exact .inr (.inr ⟨rfl, by simpa using hreceiver⟩)

theorem Flows.push (h : c.Flows taken) (hheld : c.ends = .held) (hreceiver : c.receiver = true) (outgoing : Outgoing) :
    c.socket ++ (c.queue ++ [outgoing]) = taken.map .frame ++ [outgoing] := by
  obtain ⟨lost, last, hflow, hlost, hlast⟩ := h.flow
  obtain rfl | ⟨-, hdropped⟩ := hlast
  · rw [hlost hreceiver, List.append_nil] at hflow
    rw [← List.append_assoc, hflow]
  · rw [hheld] at hdropped
    cases hdropped

/-- One frame offered to a peer in the table. -/
theorem Ok.take (h : c.Ok fates) (hheld : c.ends = .held) (hreceiver : c.receiver = true) (frame : Frame) :
    Ok { c with queue := c.queue ++ [.frame frame] } (fates ++ [(frame, .taken)]) := by
  refine ⟨h.accounted.snoc_live (by rw [hheld]; nofun) (.inl rfl), ?_⟩
  rw [takenOf_taken]
  refine ⟨_, [], ?_, fun _ => rfl, .inl rfl⟩
  rw [h.flows.push hheld hreceiver, List.map_append, List.append_nil]
  rfl

theorem Ok.shed (h : c.Ok fates) (hheld : c.ends = .held) {frame : Frame} (hframe : frame.reliable = false) :
    c.Ok (fates ++ [(frame, .shed)]) := by
  refine ⟨h.accounted.snoc_live (by rw [hheld]; nofun) (.inr ⟨rfl, hframe⟩), ?_⟩
  have hshed : Fate.shed ≠ .taken := nofun
  rw [takenOf_snoc fates frame hshed]
  exact h.flows

theorem Ok.lost (h : c.Ok fates) (hdropped : c.ends = .dropped) (frame : Frame) {fate : Fate}
    (hfate : fate = .refused ∨ fate = .gone) : c.Ok (fates ++ [(frame, fate)]) := by
  refine ⟨h.accounted.snoc_dead hdropped hfate, ?_⟩
  rw [takenOf_snoc _ _ (by rcases hfate with rfl | rfl <;> nofun)]
  exact h.flows

theorem Ok.death (h : c.Ok fates) (hheld : c.ends = .held) (reason : String) :
    (c.trySend (.death reason)).2.remove.Ok fates := by
  rcases c.trySend_cases (.death reason) with ⟨hsend, -⟩ | hsend | ⟨hsend, hreceiver⟩ <;> rw [hsend]
  · exact h.remove
  · exact h.remove
  · have hpush := h.flows.push hheld hreceiver (.death reason)
    have hremove : ({ c with queue := c.queue ++ [.death reason] } : Conn).remove =
        { c with queue := c.queue ++ [.death reason], ends := .dropped } := by
      rw [Conn.remove, if_pos hheld]
    rw [hremove]
    exact ⟨h.accounted.mono fun _ => rfl, ⟨_, _, hpush, fun _ => rfl, .inr ⟨⟨reason, rfl⟩, rfl⟩⟩⟩

/-- What a peer's own task does leaves what was taken for it as it was. -/
theorem Ok.task (h : c.Ok fates) {move : Host.Move} {c' : Conn} (hc' : Host.task c move = some c') :
    c'.Ok fates ∧ c'.ends = c.ends := by
  obtain ⟨haccounted, lost, last, hflow, hlost, hlast⟩ := h
  cases move with
  | write id =>
    unfold Host.task at hc'
    simp only at hc'
    split at hc'
    · rename_i reason queue hreceiver hqueue
      obtain rfl := Option.some.inj hc'
      rw [hlost hreceiver, hqueue] at hflow
      exact ⟨⟨haccounted, queue, last, by rw [← hflow]; simp, nofun, hlast⟩, rfl⟩
    · rename_i frame queue hreceiver hqueue
      obtain rfl := Option.some.inj hc'
      rw [hlost hreceiver, hqueue] at hflow
      exact ⟨⟨haccounted, queue, last, by rw [← hflow]; simp, fun _ => rfl, hlast⟩, rfl⟩
    · cases hc'
  | writeFails id =>
    unfold Host.task at hc'
    simp only at hc'
    split at hc'
    · obtain rfl := Option.some.inj hc'
      exact ⟨⟨haccounted, lost, last, hflow, nofun, hlast⟩, rfl⟩
    · cases hc'
  | writerEnds id =>
    unfold Host.task at hc'
    simp only at hc'
    split_ifs at hc'
    obtain rfl := Option.some.inj hc'
    exact ⟨⟨haccounted, lost, last, hflow, nofun, hlast⟩, rfl⟩
  | hungUp id =>
    unfold Host.task at hc'
    simp only at hc'
    split_ifs at hc'
    obtain rfl := Option.some.inj hc'
    exact ⟨⟨haccounted, lost, last, hflow, hlost, hlast⟩, rfl⟩
  | _ => cases hc'

theorem Ok.abort (h : c.Ok fates) : Ok { c with receiver := false, reader := .ended } fates := by
  obtain ⟨haccounted, lost, last, hflow, -, hlast⟩ := h
  exact ⟨haccounted, lost, last, hflow, nofun, hlast⟩

/-- The session takes a peer into its table. -/
theorem Ok.held (h : c.Ok fates) (hopening : c.ends = .opening) : Ok { c with ends := .held } fates := by
  obtain ⟨haccounted, lost, last, hflow, hlost, hlast⟩ := h
  refine ⟨haccounted.mono fun hdropped => ?_, lost, last, hflow, hlost, hlast.imp id fun hlast => ?_⟩
  · rw [hopening] at hdropped
    cases hdropped
  · rw [hopening] at hlast
    exact absurd hlast.2 fun h => by cases h

end Conn

/-! ### Every connection -/

structure Host.Sound (h : Host) : Prop where
  conns : ∀ id c, h.conns id = some c → c.Ok (h.fates id)
  fresh : ∀ id, h.conns id = none → h.fates id = []
  /-- An `Opened` waits for exactly those the session has not heard of. -/
  opening : ∀ id, h.events.count (.opened id) = if (h.conns id).any (fun c => c.ends = .opening) then 1 else 0

namespace Host

theorem sound_new : new.Sound := ⟨nofun, fun _ _ => rfl, fun _ => rfl⟩

variable {h : Host} {id : ConnectionId} {c : Conn}

theorem Sound.waiting (hs : h.Sound) (hc : h.conns id = some c) :
    h.events.count (.opened id) = if c.ends = .opening then 1 else 0 := by
  rw [hs.opening, hc]
  simp

theorem Sound.change (hs : h.Sound) {c' : Conn} {h' : Host} (hconns : h'.conns = Function.update h.conns id (some c'))
    (hfates : ∀ other ≠ id, h'.fates other = h.fates other)
    (hevents : ∀ other ≠ id, h'.events.count (.opened other) = h.events.count (.opened other))
    (hok : c'.Ok (h'.fates id)) (hopening : h'.events.count (.opened id) = if c'.ends = .opening then 1 else 0) :
    h'.Sound := by
  refine ⟨fun other d hd => ?_, fun other hnone => ?_, fun other => ?_⟩
  · rw [hconns] at hd
    by_cases heq : other = id
    · subst heq
      rw [Function.update_self] at hd
      obtain rfl := Option.some.inj hd
      exact hok
    · rw [Function.update_of_ne heq] at hd
      rw [hfates other heq]
      exact hs.conns other d hd
  · rw [hconns] at hnone
    by_cases heq : other = id
    · subst heq
      rw [Function.update_self] at hnone
      cases hnone
    · rw [Function.update_of_ne heq] at hnone
      rw [hfates other heq]
      exact hs.fresh other hnone
  · rw [hconns]
    by_cases heq : other = id
    · subst heq
      rw [Function.update_self, hopening]
      simp
    · rw [Function.update_of_ne heq, hevents other heq, hs.opening]

theorem Sound.put (hs : h.Sound) (hc : h.conns id = some c) {c' : Conn} (hok : c'.Ok (h.fates id))
    (hends : c'.ends = .opening ↔ c.ends = .opening) : (h.put id c').Sound := by
  refine hs.change rfl (fun _ _ => rfl) (fun _ _ => rfl) hok ?_
  rw [show (h.put id c').events = h.events from rfl, hs.waiting hc]
  simp only [hends]

theorem Sound.putNote (hs : h.Sound) (hc : h.conns id = some c) {c' : Conn} {frame : Frame} {fate : Fate}
    (hok : c'.Ok (h.fates id ++ [(frame, fate)])) (hends : c'.ends = .opening ↔ c.ends = .opening) :
    ((h.put id c').note id frame fate).Sound := by
  refine hs.change rfl (fun other hne => ?_) (fun _ _ => rfl) ?_ ?_
  · exact Function.update_of_ne hne _ _
  · show c'.Ok (Function.update h.fates id _ id)
    rw [Function.update_self]
    exact hok
  · rw [show ((h.put id c').note id frame fate).events = h.events from rfl, hs.waiting hc]
    simp only [hends]

theorem Sound.note (hs : h.Sound) (hc : h.conns id = some c) {frame : Frame} {fate : Fate}
    (hok : c.Ok (h.fates id ++ [(frame, fate)])) : (h.note id frame fate).Sound := by
  have hput : h.put id c = h := by
    unfold Host.put
    rw [← hc, Function.update_eq_self]
  have hs' := hs.putNote hc hok Iff.rfl
  rwa [hput] at hs'

theorem opening_remove (c : Conn) : c.remove.ends = .opening ↔ c.ends = .opening := by
  unfold Conn.remove
  split_ifs with hheld
  · exact ⟨nofun, fun h => by rw [hheld] at h; cases h⟩
  · rfl

theorem Sound.remove (hs : h.Sound) (id : ConnectionId) : (h.remove id).Sound := by
  unfold Host.remove
  cases hc : h.conns id with
  | none => exact hs
  | some c => exact hs.put hc (hs.conns id c hc).remove (opening_remove c)

theorem Sound.offer (hs : h.Sound) (id : ConnectionId) (frame : Frame) : (h.offer id frame).Sound := by
  unfold Host.offer
  cases hc : h.conns id with
  | none => exact hs
  | some c =>
    have hok := hs.conns id c hc
    simp only
    cases hends : c.ends with
    | opening => exact hs
    | dropped => exact hs.note hc (hok.lost hends frame (.inr rfl))
    | held =>
      have hremoved := hok.remove.lost (Conn.ends_remove hends) frame (.inl rfl)
      rcases c.trySend_cases (.frame frame) with ⟨hsend, -⟩ | hsend | ⟨hsend, hreceiver⟩ <;> rw [hsend]
      · exact hs.putNote hc hremoved (opening_remove c)
      · simp only
        by_cases hreliable : frame.reliable = true
        · rw [if_pos hreliable]
          exact hs.putNote hc hremoved (opening_remove c)
        · rw [if_neg hreliable]
          exact hs.note hc (hok.shed hends (by simpa using hreliable))
      · exact hs.putNote hc (hok.take hends hreceiver frame) Iff.rfl

/-- Every peer in the table at once: what is done to each keeps it sound. -/
theorem Sound.map (hs : h.Sound) {f : Conn → Conn} (hok : ∀ {c : Conn} {fates}, c.Ok fates → (f c).Ok fates)
    (hends : ∀ c, (f c).ends = .opening ↔ c.ends = .opening) :
    Sound { h with conns := fun id => (h.conns id).map f } := by
  refine ⟨fun id d hd => ?_, fun id hnone => hs.fresh id (Option.map_eq_none_iff.mp hnone), fun id => ?_⟩
  · obtain ⟨c, hc, rfl⟩ := Option.map_eq_some_iff.mp hd
    exact hok (hs.conns id c hc)
  · rw [show h.events.count (.opened id) = _ from hs.opening id]
    have hany : ((h.conns id).map f).any (fun c => c.ends = .opening) = (h.conns id).any fun c => c.ends = .opening := by
      cases h.conns id with
      | none => rfl
      | some c => simp [hends c]
    simp only [hany]

theorem Sound.events (hs : h.Sound) {events : List HostEvent}
    (h' : ∀ id, events.count (.opened id) = h.events.count (.opened id)) : Sound { h with events := events } :=
  ⟨hs.conns, hs.fresh, fun id => (h' id).trans (hs.opening id)⟩

theorem events_remove (h : Host) (id : ConnectionId) : (h.remove id).events = h.events := by
  unfold Host.remove
  cases h.conns id <;> rfl

theorem Sound.takeEvent (hs : h.Sound) : h.takeEvent.Sound := by
  unfold Host.takeEvent
  split
  · rename_i id events htodo hevents
    have hcount := hs.opening id
    rw [hevents, List.count_cons_self] at hcount
    have hopening : ((h.conns id).any fun c => c.ends = .opening) = true := by
      by_contra hnot
      rw [if_neg hnot] at hcount
      omega
    obtain ⟨c, hc, hends⟩ := (Option.any_eq_true _ _).mp hopening
    have hends : c.ends = .opening := by simpa using hends
    rw [hc]
    simp only
    rw [if_pos hopening] at hcount
    refine hs.change rfl (fun _ _ => rfl) (fun other hne => ?_) ((hs.conns id c hc).held hends) ?_
    · rw [hevents, List.count_cons_of_ne (fun heq => hne (HostEvent.opened.inj heq).symm)]
    · simp only [reduceCtorEq, if_false]
      omega
  · rename_i id events htodo hevents
    refine (hs.remove id).events fun other => ?_
    rw [events_remove, hevents, List.count_cons_of_ne (fun heq => HostEvent.noConfusion heq)]
  · exact hs

theorem Sound.abort (hs : h.Sound) (hc : h.conns id = some c) : (h.abort id c).Sound := by
  refine (hs.put hc (hs.conns id c hc).abort Iff.rfl).events fun other => ?_
  rw [List.count_append, List.count_singleton]
  simp [Host.put]

theorem Sound.task (hs : h.Sound) (id : ConnectionId) (move : Move) :
    (match (h.conns id).bind (Host.task · move) with
      | none => h
      | some c => h.put id c).Sound := by
  cases hc : h.conns id with
  | none => exact hs
  | some c =>
    rw [Option.bind_some]
    cases htask : Host.task c move with
    | none => exact hs
    | some c' =>
      obtain ⟨hok, hends⟩ := (hs.conns id c hc).task htask
      exact hs.put hc hok (by rw [hends])

/-- **Step.** -/
theorem Sound.step (hs : h.Sound) (move : Move) : (h.step move).Sound := by
  cases move with
  | upgrade id =>
    unfold Host.step
    simp only
    cases hc : h.conns id with
    | some c => exact hs
    | none =>
      have hcount := hs.opening id
      rw [hc] at hcount
      refine hs.change rfl (fun _ _ => rfl) (fun other hne => ?_) ?_ ?_
      · rw [List.count_append, List.count_singleton]
        simpa using fun heq => hne heq.symm
      · show Conn.new.Ok (h.fates id)
        rw [hs.fresh id hc]
        exact Conn.ok_new
      · rw [List.count_append, hcount]
        simp [Conn.new]
  | takeEvent => exact hs.takeEvent
  | apply out =>
    unfold Host.step
    simp only
    split_ifs
    · exact ⟨hs.conns, hs.fresh, hs.opening⟩
    · exact hs
  | next =>
    unfold Host.step
    simp only
    split
    · exact hs
    · rename_i id frame todo htodo
      have hs' := hs.offer id frame
      exact ⟨hs'.conns, hs'.fresh, hs'.opening⟩
    · rename_i id todo htodo
      have hs' := hs.remove id
      exact ⟨hs'.conns, hs'.fresh, hs'.opening⟩
  | die reason =>
    unfold Host.step
    simp only
    split_ifs
    · refine hs.map (f := fun c => if c.ends = .held then (c.trySend (.death reason)).2.remove else c) ?_ ?_
      · intro c fates hok
        split_ifs with hheld
        · exact hok.death hheld reason
        · exact hok
      · intro c
        split_ifs with hheld
        · rw [opening_remove, Conn.ends_trySend]
        · rfl
    · exact hs
  | clear =>
    unfold Host.step
    simp only
    split_ifs
    · exact hs.map (fun hok => hok.remove) opening_remove
    · exact hs
  | write id | writeFails id | writerEnds id | hungUp id => exact hs.task id _
  | readerEnds id | graceEnds id =>
    unfold Host.step
    simp only
    cases hc : h.conns id with
    | none => exact hs
    | some c =>
      simp only
      split_ifs
      · exact hs.abort hc
      · exact hs

theorem sound_exec (moves : List Move) : (exec Host.step new moves).Sound :=
  exec_invariant (fun _ move hs => hs.step move) sound_new moves

end Host

/-- What the session orders a connection it knows of, and what reaches its socket of that. -/
structure Fed (h : Host) (id : ConnectionId) (c : Conn) : Prop where
  gapless : Gapless Frame.reliable (h.fates id) c.handed (c.ends = .dropped)
  /-- Every recipient of every send is noted. -/
  noted : c.ends ≠ .opening → ∀ frame, offeredOf ((h.offer id frame).fates id) = offeredOf (h.fates id) ++ [frame]

theorem noted_offer {h : Host} {id : ConnectionId} {c : Conn} (hc : h.conns id = some c) (hknown : c.ends ≠ .opening)
    (frame : Frame) : offeredOf ((h.offer id frame).fates id) = offeredOf (h.fates id) ++ [frame] := by
  have hnote : ∀ (h' : Host) fate, h'.fates = h.fates →
      offeredOf ((h'.note id frame fate).fates id) = offeredOf (h.fates id) ++ [frame] := by
    intro h' fate hfates
    simp [Host.note, offeredOf, hfates]
  unfold Host.offer
  rw [hc]
  simp only
  cases hends : c.ends with
  | opening => exact absurd hends hknown
  | dropped => exact hnote _ _ rfl
  | held =>
    simp only
    rcases c.trySend_cases (.frame frame) with ⟨hsend, -⟩ | hsend | ⟨hsend, -⟩ <;> rw [hsend]
    · exact hnote _ _ rfl
    · simp only
      split_ifs <;> exact hnote _ _ rfl
    · exact hnote _ _ rfl

/-- Whatever falls between two orders of a batch, a peer is handed no gap of what it is owed, and is in no table
once it was refused a frame. -/
theorem peers_fed (moves : List Host.Move) {id : ConnectionId} {c : Conn}
    (hc : (exec Host.step Host.new moves).conns id = some c) : Fed (exec Host.step Host.new moves) id c := by
  have hok := (Host.sound_exec moves).conns id c hc
  exact ⟨hok.accounted.gapless hok.flows.handed, noted_offer hc⟩

end Peers
end Grove
