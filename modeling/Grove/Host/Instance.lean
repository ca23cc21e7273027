import Grove.Host.Peers

/-! # The sockets of an in-process world

`GameInstance.#apply` of `packages/glue/src/server/instance.ts` over the ends of
`packages/transport/src/websocket.ts`.  Nothing runs inside a batch but the loop over it, and still a socket's
state is read anew at every send: what it has buffered, and whether it is open, are the network's to say.

A send that a transport refuses closes that transport and tells the instance nothing, so a connection may stay in
the table for a while after it is over: `sockets_fed` is about the transport, not the table. -/

namespace Grove
namespace GameInstance

open Shedding
open Peers (Frame Order ordersOf)

/-- `MAX_FRAME_BYTES`, the transport's default cap on unsent bytes. -/
def maxFrameBytes : ℕ := 4194304

/-- Send-side backlog past which a droppable frame is shed. -/
def droppableBacklogBytes : ℕ := maxFrameBytes / 2

inductive EndState where
  | isOpen
  /-- This end asked for the close. -/
  | closing
  | closed
deriving DecidableEq

/-- A `WebSocketEnd` and the socket under it. -/
structure WebSocketEnd where
  state : EndState
  /-- The socket's `readyState` is `OPEN`. -/
  ready : Bool
  bufferedAmount : ℕ
  /-- What the socket was sent, in order. -/
  sent : List Frame

namespace WebSocketEnd

variable (t : WebSocketEnd)

def established : WebSocketEnd := ⟨.isOpen, true, 0, []⟩

def close : WebSocketEnd := if t.state = .isOpen then { t with state := .closing } else t

/-- Sends after this are no-ops. -/
def Over : Prop := t.state ≠ .isOpen ∨ t.ready = false

instance : Decidable t.Over := inferInstanceAs (Decidable (_ ∨ _))

/-- A silent no-op once it is over; a backlog past the cap ends it. -/
def sendEncoded (maxBufferedBytes : ℕ) (frame : Frame) : WebSocketEnd :=
  if t.Over then t
  else if maxBufferedBytes < t.bufferedAmount then t.close
  else { t with sent := t.sent ++ [frame] }

end WebSocketEnd

/-- A connection the instance ever accepted: its transport, and whether the table still names it. -/
structure Accepted where
  transport : WebSocketEnd
  named : Bool

structure Instance where
  conns : ConnectionId → Option Accepted
  /-- What the next batch is told is gone. -/
  closed : List ConnectionId
  todo : List Order
  fates : ConnectionId → List (Frame × Fate)

namespace Instance

-- `encodes`: the codec takes the envelope; else `encode` throws, for each peer of a broadcast in turn.
variable (encodes : ServerToClient → Bool) (maxBufferedBytes : ℕ) (s : Instance)

def new : Instance := ⟨fun _ => none, [], [], fun _ => []⟩

def put (id : ConnectionId) (c : Accepted) : Instance := { s with conns := Function.update s.conns id (some c) }

def note (id : ConnectionId) (frame : Frame) (fate : Fate) : Instance :=
  { s with fates := Function.update s.fates id (s.fates id ++ [(frame, fate)]) }

def closeConnection (id : ConnectionId) : Instance :=
  match s.conns id with
  | none => s
  | some c => if c.named then { s.put id ⟨c.transport.close, false⟩ with closed := s.closed ++ [id] } else s

/-- What becomes of a frame that is given to a transport (`given`), or kept from it. -/
def fateOf (t : WebSocketEnd) (given : Bool) : Fate :=
  if t.Over then .gone
  else if given = false then .shed
  else if maxBufferedBytes < t.bufferedAmount then .refused
  else .taken

def offer (id : ConnectionId) (frame : Frame) : Instance :=
  match s.conns id with
  | none => s
  | some c =>
    if c.named then
      -- A peer that is not keeping up loses this one.
      if frame.cls = .droppable ∧ droppableBacklogBytes < c.transport.bufferedAmount then
        s.note id frame (fateOf maxBufferedBytes c.transport false)
      else if encodes frame.text then
        (s.put id { c with transport := c.transport.sendEncoded maxBufferedBytes frame }).note id frame
          (fateOf maxBufferedBytes c.transport true)
      else (s.closeConnection id).note id frame .refused
    else s.note id frame .gone

inductive Move where
  | accept (connectionId : ConnectionId)
  | apply (out : OutputBatch)
  | next
  /-- A flood of frames, or an order of the next batch's. -/
  | close (connectionId : ConnectionId)
  /-- The transport ends itself: silence, or a frame it cannot read. -/
  | fail (connectionId : ConnectionId)
  /-- The socket's own unsent bytes. -/
  | buffers (connectionId : ConnectionId) (bytes : ℕ)
  /-- The socket leaves `OPEN`, for good. -/
  | leaves (connectionId : ConnectionId)
  /-- The socket's close event. -/
  | onClose (connectionId : ConnectionId)

/-- What happens to a transport apart from what it is sent. -/
def disturb (t : WebSocketEnd) : Move → WebSocketEnd
  | .fail _ => t.close
  | .buffers _ bytes => { t with bufferedAmount := bytes }
  | .leaves _ => { t with ready := false }
  | .onClose _ => { t with state := .closed, ready := false }
  | _ => t

def disturbed (id : ConnectionId) (move : Move) : Instance :=
  match s.conns id with
  | none => s
  | some c => s.put id { c with transport := disturb c.transport move }

def step (s : Instance) (move : Move) : Instance :=
  match move with
  | .accept id =>
    match s.conns id with
    | none => s.put id ⟨.established, true⟩
    | some _ => s
  | .apply out => if s.todo = [] then { s with todo := ordersOf out } else s
  | .next =>
    match s.todo with
    | [] => s
    | .offer id frame :: todo => { s.offer encodes maxBufferedBytes id frame with todo := todo }
    | .close id :: todo => { s.closeConnection id with todo := todo }
  | .close id => s.closeConnection id
  | .fail id | .buffers id _ | .leaves id => s.disturbed id move
  | .onClose id =>
    match s.conns id with
    | none => s
    | some _ => { s.disturbed id move with closed := s.closed ++ [id] }

end Instance

/-! ### One connection -/

namespace WebSocketEnd

variable {t : WebSocketEnd}

theorem sent_close (t : WebSocketEnd) : t.close.sent = t.sent := by
  unfold close
  split_ifs <;> rfl

theorem over_close (t : WebSocketEnd) : t.close.Over := by
  unfold close
  split_ifs with hopen
  · exact .inl nofun
  · exact .inl hopen

theorem sent_disturb (t : WebSocketEnd) (move : Instance.Move) : (Instance.disturb t move).sent = t.sent := by
  cases move <;> first | rfl | exact t.sent_close

theorem Over.disturb (h : t.Over) (move : Instance.Move) : (Instance.disturb t move).Over := by
  cases move with
  | fail id => exact t.over_close
  | leaves | onClose => exact .inr rfl
  | _ => exact h

end WebSocketEnd

/-- A socket was sent what was taken for it, and a connection out of the table is over. -/
structure Accepted.Ok (c : Accepted) (fates : List (Frame × Fate)) : Prop where
  accounted : Accounted Frame.reliable fates c.transport.Over
  sent : takenOf fates = c.transport.sent
  unnamed : c.named = false → c.transport.Over

namespace Accepted.Ok

variable {c : Accepted} {fates : List (Frame × Fate)}

theorem disturb (h : c.Ok fates) (move : Instance.Move) :
    Accepted.Ok { c with transport := Instance.disturb c.transport move } fates :=
  ⟨h.accounted.mono fun hover => hover.disturb move, h.sent.trans (c.transport.sent_disturb move).symm,
    fun hnamed => (h.unnamed hnamed).disturb move⟩

theorem close (h : c.Ok fates) (named : Bool) : Accepted.Ok ⟨c.transport.close, named⟩ fates :=
  ⟨h.accounted.mono fun _ => c.transport.over_close, h.sent.trans c.transport.sent_close.symm,
    fun _ => c.transport.over_close⟩

theorem lost (h : c.Ok fates) (hover : c.transport.Over) (frame : Frame) {fate : Fate}
    (hfate : fate = .refused ∨ fate = .gone) : c.Ok (fates ++ [(frame, fate)]) :=
  ⟨h.accounted.snoc_dead hover hfate,
    (Peers.takenOf_snoc _ _ (by rcases hfate with rfl | rfl <;> nofun)).trans h.sent, h.unnamed⟩

theorem shed (h : c.Ok fates) (maxBufferedBytes : ℕ) {frame : Frame} (hframe : frame.cls = .droppable) :
    c.Ok (fates ++ [(frame, Instance.fateOf maxBufferedBytes c.transport false)]) := by
  unfold Instance.fateOf
  by_cases hover : c.transport.Over
  · rw [if_pos hover]
    exact h.lost hover frame (.inr rfl)
  · rw [if_neg hover, if_pos rfl]
    have hshed : Fate.shed ≠ .taken := nofun
    refine ⟨h.accounted.snoc_live hover (.inr ⟨rfl, ?_⟩), ?_, h.unnamed⟩
    · simp [Frame.reliable, hframe]
    · exact (Peers.takenOf_snoc fates frame hshed).trans h.sent

theorem give (h : c.Ok fates) (maxBufferedBytes : ℕ) (frame : Frame) :
    Accepted.Ok { c with transport := c.transport.sendEncoded maxBufferedBytes frame }
      (fates ++ [(frame, Instance.fateOf maxBufferedBytes c.transport true)]) := by
  unfold Instance.fateOf WebSocketEnd.sendEncoded
  by_cases hover : c.transport.Over
  · rw [if_pos hover, if_pos hover]
    exact h.lost hover frame (.inr rfl)
  rw [if_neg hover, if_neg hover, if_neg (show ¬true = false from nofun)]
  by_cases hfull : maxBufferedBytes < c.transport.bufferedAmount
  · rw [if_pos hfull, if_pos hfull]
    exact (h.close c.named).lost c.transport.over_close frame (.inl rfl)
  · rw [if_neg hfull, if_neg hfull]
    refine ⟨h.accounted.snoc_live hover (.inl rfl), ?_, fun hnamed => absurd (h.unnamed hnamed) hover⟩
    rw [Peers.takenOf_taken, h.sent]

end Accepted.Ok

/-! ### Every connection -/

structure Instance.Sound (s : Instance) : Prop where
  conns : ∀ id c, s.conns id = some c → c.Ok (s.fates id)
  fresh : ∀ id, s.conns id = none → s.fates id = []

namespace Instance

variable {encodes : ServerToClient → Bool} {maxBufferedBytes : ℕ} {s : Instance} {id : ConnectionId} {c : Accepted}

theorem sound_new : new.Sound := ⟨nofun, fun _ _ => rfl⟩

theorem Sound.change (hs : s.Sound) {c' : Accepted} {s' : Instance}
    (hconns : s'.conns = Function.update s.conns id (some c')) (hfates : ∀ other ≠ id, s'.fates other = s.fates other)
    (hok : c'.Ok (s'.fates id)) : s'.Sound := by
  refine ⟨fun other d hd => ?_, fun other hnone => ?_⟩
  · rw [hconns] at hd
    by_cases heq : other = id
    · subst heq
      rw [Function.update_self] at hd
      obtain rfl := Option.some.inj hd
      exact hok
    · rw [Function.update_of_ne heq] at hd
      rw [hfates other heq]
      exact hs.conns other d hd
  · rw [hconns] at hnone
    by_cases heq : other = id
    · subst heq
      rw [Function.update_self] at hnone
      cases hnone
    · rw [Function.update_of_ne heq] at hnone
      rw [hfates other heq]
      exact hs.fresh other hnone

theorem Sound.put (hs : s.Sound) {c' : Accepted} (hok : c'.Ok (s.fates id)) : (s.put id c').Sound :=
  hs.change rfl (fun _ _ => rfl) hok

theorem Sound.putNote (hs : s.Sound) {c' : Accepted} {frame : Frame} {fate : Fate}
    (hok : c'.Ok (s.fates id ++ [(frame, fate)])) {s' : Instance}
    (hconns : s'.conns = Function.update s.conns id (some c')) (hfates : s'.fates = s.fates) :
    (s'.note id frame fate).Sound := by
  have hfates' : (s'.note id frame fate).fates = Function.update s.fates id (s.fates id ++ [(frame, fate)]) := by
    unfold note
    rw [hfates]
  refine hs.change hconns (fun other hne => ?_) ?_
  · rw [hfates', Function.update_of_ne hne]
  · rw [hfates', Function.update_self]
    exact hok

theorem Sound.note (hs : s.Sound) (hc : s.conns id = some c) {frame : Frame} {fate : Fate}
    (hok : c.Ok (s.fates id ++ [(frame, fate)])) : (s.note id frame fate).Sound :=
  hs.putNote hok (by rw [← hc, Function.update_eq_self]) rfl

theorem Sound.closeConnection (hs : s.Sound) (id : ConnectionId) : (s.closeConnection id).Sound := by
  unfold Instance.closeConnection
  cases hc : s.conns id with
  | none => exact hs
  | some c =>
    simp only
    split_ifs
    · exact hs.change rfl (fun _ _ => rfl) ((hs.conns id c hc).close false)
    · exact hs

theorem Sound.offer (hs : s.Sound) (id : ConnectionId) (frame : Frame) :
    (s.offer encodes maxBufferedBytes id frame).Sound := by
  unfold Instance.offer
  cases hc : s.conns id with
  | none => exact hs
  | some c =>
    have hok := hs.conns id c hc
    simp only
    by_cases hnamed : c.named = true
    · rw [if_pos hnamed]
      split_ifs with hslow hencodes
      · exact hs.note hc (hok.shed maxBufferedBytes hslow.1)
      · exact hs.putNote (hok.give maxBufferedBytes frame) rfl rfl
      · have hclosed : s.closeConnection id =
            { s.put id ⟨c.transport.close, false⟩ with closed := s.closed ++ [id] } := by
          unfold Instance.closeConnection
          rw [hc]
          simp only
          rw [if_pos hnamed]
        rw [hclosed]
        exact hs.putNote ((hok.close false).lost c.transport.over_close frame (.inl rfl)) rfl rfl
    · rw [if_neg hnamed]
      exact hs.note hc (hok.lost (hok.unnamed (by simpa using hnamed)) frame (.inr rfl))

theorem Sound.disturbed (hs : s.Sound) (id : ConnectionId) (move : Move) : (s.disturbed id move).Sound := by
  unfold Instance.disturbed
  cases hc : s.conns id with
  | none => exact hs
  | some c => exact hs.put ((hs.conns id c hc).disturb move)

/-- **Step.** -/
theorem Sound.step (hs : s.Sound) (move : Move) : (step encodes maxBufferedBytes s move).Sound := by
  cases move with
  | accept id =>
    unfold Instance.step
    simp only
    cases hc : s.conns id with
    | some c => exact hs
    | none =>
      refine hs.put ?_
      rw [hs.fresh id hc]
      exact ⟨.nil, rfl, nofun⟩
  | apply out =>
    unfold Instance.step
    simp only
    split_ifs
    · exact ⟨hs.conns, hs.fresh⟩
    · exact hs
  | next =>
    unfold Instance.step
    simp only
    split
    · exact hs
    · rename_i id frame todo htodo
      have hs' : (s.offer encodes maxBufferedBytes id frame).Sound := hs.offer id frame
      exact ⟨hs'.conns, hs'.fresh⟩
    · rename_i id todo htodo
      have hs' := hs.closeConnection id
      exact ⟨hs'.conns, hs'.fresh⟩
  | close id => exact hs.closeConnection id
  | fail id => exact hs.disturbed id _
  | buffers id bytes => exact hs.disturbed id _
  | leaves id => exact hs.disturbed id _
  | onClose id =>
    have hs' := hs.disturbed id (.onClose id)
    unfold Instance.step
    simp only
    cases s.conns id with
    | none => exact hs
    | some c => exact ⟨hs'.conns, hs'.fresh⟩

theorem sound_exec (moves : List Move) : (exec (step encodes maxBufferedBytes) new moves).Sound :=
  exec_invariant (fun _ move hs => hs.step move) sound_new moves

end Instance

/-- What an instance orders a connection it accepted, and what reaches its socket of that. -/
structure Fed (encodes : ServerToClient → Bool) (maxBufferedBytes : ℕ) (s : Instance) (id : ConnectionId)
    (c : Accepted) : Prop where
  gapless : Gapless Frame.reliable (s.fates id) c.transport.sent c.transport.Over
  /-- Every recipient of every send is noted. -/
  noted : ∀ frame, offeredOf ((s.offer encodes maxBufferedBytes id frame).fates id) = offeredOf (s.fates id) ++ [frame]

theorem noted_offer {encodes : ServerToClient → Bool} {maxBufferedBytes : ℕ} {s : Instance} {id : ConnectionId}
    {c : Accepted} (hc : s.conns id = some c) (frame : Frame) :
    offeredOf ((s.offer encodes maxBufferedBytes id frame).fates id) = offeredOf (s.fates id) ++ [frame] := by
  have hnote : ∀ (s' : Instance) fate, s'.fates = s.fates →
      offeredOf ((s'.note id frame fate).fates id) = offeredOf (s.fates id) ++ [frame] := by
    intro s' fate hfates
    simp [Instance.note, offeredOf, hfates]
  have hclosed : (s.closeConnection id).fates = s.fates := by
    unfold Instance.closeConnection
    rw [hc]
    simp only
    split_ifs <;> rfl
  unfold Instance.offer
  rw [hc]
  simp only
  split_ifs
  · exact hnote _ _ rfl
  · exact hnote _ _ rfl
  · exact hnote _ _ hclosed
  · exact hnote _ _ rfl

theorem sockets_fed (encodes : ServerToClient → Bool) (maxBufferedBytes : ℕ) (moves : List Instance.Move)
    {id : ConnectionId} {c : Accepted}
    (hc : (exec (Instance.step encodes maxBufferedBytes) Instance.new moves).conns id = some c) :
    Fed encodes maxBufferedBytes (exec (Instance.step encodes maxBufferedBytes) Instance.new moves) id c := by
  have hsound : (exec (Instance.step encodes maxBufferedBytes) Instance.new moves).Sound := Instance.sound_exec moves
  have hok := hsound.conns id c hc
  exact ⟨hok.accounted.gapless (by rw [hok.sent]), noted_offer hc⟩

end GameInstance

/-- **No peer misses a reliable frame and stays connected**, on the game box and in process. -/
theorem no_reliable_gap :
    (∀ (moves : List Peers.Host.Move) (id : ConnectionId) (c : Peers.Conn),
      (exec Peers.Host.step Peers.Host.new moves).conns id = some c →
        Peers.Fed (exec Peers.Host.step Peers.Host.new moves) id c) ∧
      ∀ (encodes : ServerToClient → Bool) (maxBufferedBytes : ℕ) (moves : List GameInstance.Instance.Move)
        (id : ConnectionId) (c : GameInstance.Accepted),
        (exec (GameInstance.Instance.step encodes maxBufferedBytes) GameInstance.Instance.new moves).conns id = some c →
          GameInstance.Fed encodes maxBufferedBytes
            (exec (GameInstance.Instance.step encodes maxBufferedBytes) GameInstance.Instance.new moves) id c :=
  ⟨fun moves _ _ hc => Peers.peers_fed moves hc,
    fun encodes maxBufferedBytes moves _ _ hc => GameInstance.sockets_fed encodes maxBufferedBytes moves hc⟩

/-- A tick that orders one connection three envelopes. -/
def threeSends : OutputBatch where
  tick := 1
  simRate := 60
  sendRate := 20
  sends := List.replicate 3 ⟨["c1"], .reject .full protocolVersion, .reliable⟩
  closes := []
  loads := []
  saves := []
  log := []
  dropped := 0
  stale := 0

/-- A peer whose writer has ended is out of the table at the first of the three, and a transport past its cap is
over at it. -/
theorem no_reliable_gap_refused :
    (∃ c, (exec Peers.Host.step Peers.Host.new
        [.upgrade "c1", .takeEvent, .readerEnds "c1", .apply threeSends, .next, .next, .next]).conns "c1" = some c ∧
      c.ends = .dropped ∧ Peers.Fed (exec Peers.Host.step Peers.Host.new
        [.upgrade "c1", .takeEvent, .readerEnds "c1", .apply threeSends, .next, .next, .next]) "c1" c) ∧
    ∃ c, (exec (GameInstance.Instance.step (fun _ => true) 4) GameInstance.Instance.new
        [.accept "c1", .apply threeSends, .next, .buffers "c1" 5, .next, .next]).conns "c1" = some c ∧
      c.transport.sent.length = 1 ∧ GameInstance.Fed (fun _ => true) 4
        (exec (GameInstance.Instance.step (fun _ => true) 4) GameInstance.Instance.new
          [.accept "c1", .apply threeSends, .next, .buffers "c1" 5, .next, .next]) "c1" c :=
  ⟨⟨_, rfl, rfl, no_reliable_gap.1 _ _ _ rfl⟩, _, rfl, rfl, no_reliable_gap.2 _ _ _ _ _ rfl⟩

end Grove
