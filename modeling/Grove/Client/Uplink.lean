import Grove.Client.Bindings
import Grove.Client.Coalesce
import Grove.Client.Request
import Grove.Client.Ring

/-! # The client's way up

The part of `packages/client/src/client.ts` that turns device events, HUD presses and requests
into frames: the queues, their flushes, and what each move of the lifecycle does to them.  `frame`
makes the calls in the order `drainInbox` (`openSession`, `onState`, `onRateChange`, `fail`),
`advance`, `checkNotBehind`, `checkLiveness`; here they may come in any order. -/

namespace Grove
open JsonCodec (Heap Property)

inductive SessionState where
  | connecting
  | loading
  | live
  | stalled
  | resyncing
  | disconnected
  | failed
deriving DecidableEq

namespace SessionState

/-- Whether input may be captured. -/
def acceptsInput (s : SessionState) : Bool := s = .live

def isTerminal (s : SessionState) : Bool := s = .failed || s = .disconnected

end SessionState

/-- What a flush reads of the clock. -/
structure ClientClock where
  localTick : ℤ
  currentLeadTicks : ℚ
  epoch : ℕ
deriving DecidableEq

/-- The requests one frame may carry; the receiver has the same bound. -/
def requestsPerFrame : ℕ := 16

structure Uplink where
  lifecycle : SessionState
  bindings : BindingTable
  ring : InputRing
  /-- The local player's live action state. -/
  actions : ActionStates
  clock : Option ClientClock
  seq : ℤ
  /-- Edges resolved but not yet framed. -/
  pending : List ResolvedEdge
  interactions : List Interaction
  requests : List GameRequest
  ackSeq : ℤ
  /-- Set by a resync, cleared when input resumes. -/
  rejoined : Bool
  /-- What the flushes handed to the transport, oldest first. -/
  sent : List ClientToServer

namespace Uplink

def start (bindings : List Binding) : Uplink where
  lifecycle := .connecting
  bindings := BindingTable.new bindings
  ring := InputRing.new
  actions := createActionStates
  clock := none
  seq := 0
  pending := []
  interactions := []
  requests := []
  ackSeq := -1
  rejoined := false
  sent := []

variable (c : Uplink)

/-- Moves to `state` unless already terminal. -/
def moveTo (state : SessionState) : Uplink := if c.lifecycle.isTerminal then c else { c with lifecycle := state }

/-- A session ends for good; nothing reads the device after it. -/
def fail : Uplink := { c with lifecycle := .failed }

def send (e : ClientToServer) : Uplink := { c with sent := c.sent ++ [e] }

/-- The pending edges, framed, folded and sent. -/
def frameInput (clock : ClientClock) (tick : ℤ) : Uplink :=
  let frame : InputFrame := ⟨tick, c.seq, coalesce c.pending⟩
  { c with
    actions := c.pending.foldl ActionStates.applyEdge c.actions.advanceTick
    pending := []
    seq := c.seq + 1
    ring := c.ring.push ⟨frame, clock.currentLeadTicks, clock.epoch⟩ }.send (.input frame)

/-- Sends what is pending, stamped with the newest tick; `exempt` for the release a lost focus makes. -/
def flushInput (tick : Option ℤ) (exempt : Bool) : Uplink :=
  match c.clock with
  | none => c
  | some clock =>
    -- Dropped, not held: they are stamped against a tick the server will refuse as too old.
    if !exempt ∧ !c.lifecycle.acceptsInput then { c with pending := [] }
    else
      match tick with
      | none => c
      | some tick => if c.pending = [] then { c with actions := c.actions.advanceTick } else c.frameInput clock tick

def flushInteractions : Uplink :=
  match c.clock with
  | none => c
  | some clock =>
    if c.interactions = [] then c
    else if !c.lifecycle.acceptsInput then { c with interactions := [] }
    else { c with interactions := [] }.send (.interaction clock.localTick c.interactions)

/-- Chunked rather than sent whole: the receiver refuses an over-cap frame entire. -/
def flushRequests : Uplink :=
  match c.clock with
  | none => c
  | some clock =>
    if c.requests = [] then c
    else if !c.lifecycle.acceptsInput then { c with requests := [] }
    else { c with requests := c.requests.drop requestsPerFrame }.send
      (.request clock.localTick (c.requests.take requestsPerFrame))

/-- The clock stepped by a display frame, and what is owed sent. -/
def advance (ticks : ℕ) (lead : ℚ) : Uplink :=
  match c.clock with
  | none => c
  | some clock =>
    if c.lifecycle = .failed then c
    else
      let localTick := clock.localTick + ticks
      let c := { c with clock := some { clock with localTick := localTick, currentLeadTicks := lead } }
      ((c.flushInput (if ticks = 0 then none else some localTick) false).flushInteractions).flushRequests

def onRaw (event : RawInputEvent) (viewport : ViewportExtent) : Uplink :=
  let (bindings, edges) := c.bindings.resolve viewport event
  let c := { c with bindings := bindings }
  if edges = [] then c
  else if event = .focusLost then
    -- At once, not from the frame loop: a hidden tab stops being driven.
    { c with pending := c.pending ++ edges }.flushInput (c.clock.map ClientClock.localTick) true
  else if !c.lifecycle.acceptsInput then c
  else { c with pending := c.pending ++ edges }

/-- A HUD press; its local half reaches nothing here. -/
def pressWidget (widget : String) (screen : Option String) : Uplink :=
  if !c.lifecycle.acceptsInput then c else { c with interactions := c.interactions ++ [.press widget screen] }

inductive PointerEdge where
  | click
  | hoverEnter
  | hoverExit
deriving DecidableEq

def PointerEdge.wire (netId : NetId) : PointerEdge → Interaction
  | .click => .click netId
  | .hoverEnter => .hoverEnter netId
  | .hoverExit => .hoverExit netId

/-- A pointer hit; `net` is what the mirror's index answers for the entity. -/
def pointer (edge : PointerEdge) (net : Option NetId) : Uplink :=
  if !c.lifecycle.acceptsInput then c
  else
    match net with
    | none => c
    | some net => { c with interactions := c.interactions ++ [edge.wire net] }

/-- Queues a creator's request, gated like input. -/
def queueRequest (heap : Heap) (name : String) (payload : Option (List (String × Property))) : Uplink :=
  if !c.lifecycle.acceptsInput then c
  else { c with requests := c.requests ++ [⟨name, payload.map (requestFields heap)⟩] }

/-- Input resumed: axes are said again always, presses after a re-join. -/
def resumeInput : Uplink :=
  let c := { c with
    bindings := c.bindings.forgetSentValues
    pending := c.pending ++ c.actions.axisValues.map (fun e => ⟨e.1, .hold, some e.2⟩) }
  if !c.rejoined then c
  else { c with
    rejoined := false
    pending := c.pending ++ c.actions.heldActions.map (fun action => ⟨action, .press, none⟩) }

/-- A welcome is taken up, which no terminal session does: the clock is seeded and input resumes. -/
def openSession (localTick : ℤ) (lead : ℚ) : Uplink :=
  if c.lifecycle.isTerminal ∨ c.clock.isSome then c
  else ({ c with clock := some ⟨localTick, lead, 0⟩ }.moveTo .live).resumeInput

/-- The ack of a state envelope. -/
def onState (ackSeq : ℤ) : Uplink :=
  if c.clock.isNone ∨ ackSeq ≤ c.ackSeq then c
  else { c with ackSeq := ackSeq, ring := (c.ring.ack ackSeq).2 }

/-- Re-runs the join; the world and what is owed to it go. -/
def resync : Uplink :=
  { c.moveTo .resyncing with
    ring := c.ring.reset c.actions
    pending := []
    interactions := []
    requests := []
    ackSeq := -1
    clock := none
    rejoined := true }

def onRateChange : Uplink := if c.clock.isNone then c else c.resync

/-- The counter must lead the depicted tick. -/
def checkNotBehind (depictedTick : ℤ) : Uplink :=
  match c.clock with
  | none => c
  | some clock =>
    if c.lifecycle ≠ .live ∧ c.lifecycle ≠ .stalled then c
    else if clock.localTick < depictedTick then c.resync
    else c

def stall : Uplink :=
  if c.lifecycle = .stalled then c
  else
    let c := c.moveTo .stalled
    { c with clock := c.clock.map (fun clock => { clock with epoch := clock.epoch + 1 }) }

/-- The one decider for `stalled`: a drought, or an ack overdue with frames retained. -/
def checkLiveness (drought overdue : Bool) : Uplink :=
  if c.clock.isNone ∨ (c.lifecycle ≠ .live ∧ c.lifecycle ≠ .stalled) then c
  else if drought || (!c.ring.entries.isEmpty && overdue) then c.stall
  else if c.lifecycle = .stalled then (c.moveTo .live).resumeInput
  else c

/-- Everything that happens to a client. -/
inductive Call where
  | onRaw (event : RawInputEvent) (viewport : ViewportExtent)
  | pressWidget (widget : String) (screen : Option String)
  | pointer (edge : PointerEdge) (net : Option NetId)
  | queueRequest (heap : Heap) (name : String) (payload : Option (List (String × Property)))
  | advance (ticks : ℕ) (lead : ℚ)
  | load
  | openSession (localTick : ℤ) (lead : ℚ)
  | onState (ackSeq : ℤ)
  | onRateChange
  | checkNotBehind (depictedTick : ℤ)
  | checkLiveness (drought overdue : Bool)
  /-- The transport closed. -/
  | disconnect
  | fail

def step : Call → Uplink
  -- A failed session has let go of the device.
  | .onRaw event viewport => if c.lifecycle = .failed then c else c.onRaw event viewport
  | .pressWidget widget screen => c.pressWidget widget screen
  | .pointer edge net => c.pointer edge net
  | .queueRequest heap name payload => c.queueRequest heap name payload
  | .advance ticks lead => c.advance ticks lead
  | .load => if c.clock.isNone then c.moveTo .loading else c
  | .openSession localTick lead => c.openSession localTick lead
  | .onState ackSeq => c.onState ackSeq
  | .onRateChange => c.onRateChange
  | .checkNotBehind depictedTick => c.checkNotBehind depictedTick
  | .checkLiveness drought overdue => c.checkLiveness drought overdue
  | .disconnect => c.moveTo .disconnected
  | .fail => c.fail

/-! ### What a flush does -/

/-- The three things a flush of input can do. -/
theorem flushInput_cases (tick : Option ℤ) (exempt : Bool) :
    ((c.clock = none ∨ tick = none) ∧ c.flushInput tick exempt = c) ∨
      ((∃ clock, c.clock = some clock) ∧ exempt = false ∧ c.lifecycle ≠ .live ∧
        c.flushInput tick exempt = { c with pending := [] }) ∨
      ∃ clock t, c.clock = some clock ∧ tick = some t ∧ (exempt = true ∨ c.lifecycle = .live) ∧
        ((c.pending = [] ∧ c.flushInput tick exempt = { c with actions := c.actions.advanceTick }) ∨
          (c.pending ≠ [] ∧ c.flushInput tick exempt = c.frameInput clock t)) := by
  unfold flushInput
  cases hclock : c.clock with
  | none => exact Or.inl ⟨Or.inl rfl, rfl⟩
  | some clock =>
    simp only [SessionState.acceptsInput, Bool.not_eq_true', decide_eq_false_iff_not]
    by_cases hdrop : exempt = false ∧ ¬ c.lifecycle = .live
    · rw [if_pos hdrop]
      exact Or.inr (Or.inl ⟨⟨clock, rfl⟩, hdrop.1, hdrop.2, rfl⟩)
    · rw [if_neg hdrop]
      cases tick with
      | none => exact Or.inl ⟨Or.inr rfl, rfl⟩
      | some t =>
        have hopen : exempt = true ∨ c.lifecycle = .live := by
          rw [not_and_or, not_not, Bool.not_eq_false] at hdrop
          exact hdrop
        refine Or.inr (Or.inr ⟨clock, t, rfl, rfl, hopen, ?_⟩)
        simp only
        by_cases hpending : c.pending = []
        · rw [if_pos hpending]
          exact Or.inl ⟨hpending, rfl⟩
        · rw [if_neg hpending]
          exact Or.inr ⟨hpending, rfl⟩

/-- The table takes every event in; what becomes of the edges is another matter. -/
theorem onRaw_cases (event : RawInputEvent) (viewport : ViewportExtent) :
    let edges := (c.bindings.resolve viewport event).2
    let c' := { c with bindings := (c.bindings.resolve viewport event).1 }
    (edges = [] ∧ c.onRaw event viewport = c') ∨
      (edges ≠ [] ∧ event = .focusLost ∧ c.onRaw event viewport =
        { c' with pending := c.pending ++ edges }.flushInput (c.clock.map ClientClock.localTick) true) ∨
      (edges ≠ [] ∧ event ≠ .focusLost ∧ c.lifecycle ≠ .live ∧ c.onRaw event viewport = c') ∨
      (edges ≠ [] ∧ event ≠ .focusLost ∧ c.lifecycle = .live ∧
        c.onRaw event viewport = { c' with pending := c.pending ++ edges }) := by
  intro edges c'
  have heq : c.onRaw event viewport = if edges = [] then c'
      else if event = .focusLost then
        { c' with pending := c.pending ++ edges }.flushInput (c.clock.map ClientClock.localTick) true
      else if !c.lifecycle.acceptsInput then c'
      else { c' with pending := c.pending ++ edges } := rfl
  rw [heq]
  by_cases hnone : edges = []
  · exact Or.inl ⟨hnone, if_pos hnone⟩
  · rw [if_neg hnone]
    by_cases hfocus : event = .focusLost
    · exact Or.inr (Or.inl ⟨hnone, hfocus, if_pos hfocus⟩)
    · rw [if_neg hfocus]
      by_cases hlive : c.lifecycle = .live
      · exact Or.inr (Or.inr (Or.inr ⟨hnone, hfocus, hlive, if_neg (by simp [SessionState.acceptsInput, hlive])⟩))
      · exact Or.inr (Or.inr (Or.inl ⟨hnone, hfocus, hlive, if_pos (by simp [SessionState.acceptsInput, hlive])⟩))

/-! ### What was sent stays sent -/

theorem flushInput_sent (tick : Option ℤ) (exempt : Bool) : c.sent <+: (c.flushInput tick exempt).sent := by
  rcases c.flushInput_cases tick exempt with ⟨-, heq⟩ | ⟨-, -, -, heq⟩ | ⟨clock, t, -, -, -, ⟨-, heq⟩ | ⟨-, heq⟩⟩
  · rw [heq]
  · rw [heq]
  · rw [heq]
  · rw [heq]
    exact List.prefix_append _ _

theorem flushInteractions_sent : c.sent <+: c.flushInteractions.sent := by
  unfold flushInteractions
  split
  · exact List.prefix_rfl
  · split_ifs
    · exact List.prefix_rfl
    · exact List.prefix_rfl
    · exact List.prefix_append _ _

theorem flushRequests_sent : c.sent <+: c.flushRequests.sent := by
  unfold flushRequests
  split
  · exact List.prefix_rfl
  · split_ifs
    · exact List.prefix_rfl
    · exact List.prefix_rfl
    · exact List.prefix_append _ _

theorem moveTo_sent (state : SessionState) : (c.moveTo state).sent = c.sent := by
  unfold moveTo
  split <;> rfl

theorem resumeInput_sent : c.resumeInput.sent = c.sent := by
  unfold resumeInput
  simp only
  split <;> rfl

theorem resync_sent : c.resync.sent = c.sent := c.moveTo_sent .resyncing

theorem sent_step (call : Call) : c.sent <+: (c.step call).sent := by
  cases call with
  | onRaw event viewport =>
    rw [step]
    split
    · exact List.prefix_rfl
    · rcases c.onRaw_cases event viewport with ⟨-, heq⟩ | ⟨-, -, heq⟩ | ⟨-, -, -, heq⟩ | ⟨-, -, -, heq⟩
      · rw [heq]
      · rw [heq]
        exact flushInput_sent { c with
          bindings := (c.bindings.resolve viewport event).1
          pending := c.pending ++ (c.bindings.resolve viewport event).2 } _ _
      · rw [heq]
      · rw [heq]
  | advance ticks lead =>
    rw [step]
    unfold advance
    split
    · exact List.prefix_rfl
    · split
      · exact List.prefix_rfl
      · rename_i clock _ _
        exact ((flushInput_sent { c with
          clock := some { clock with localTick := clock.localTick + ticks, currentLeadTicks := lead } } _ _).trans
            (flushInteractions_sent _)).trans (flushRequests_sent _)
  | pressWidget widget screen =>
    rw [step]
    unfold pressWidget
    split <;> exact List.prefix_rfl
  | pointer edge net =>
    rw [step]
    unfold pointer
    split
    · exact List.prefix_rfl
    · split <;> exact List.prefix_rfl
  | queueRequest heap name payload =>
    rw [step]
    unfold queueRequest
    split <;> exact List.prefix_rfl
  | load =>
    rw [step]
    split
    · rw [moveTo_sent]
    · exact List.prefix_rfl
  | openSession localTick lead =>
    rw [step]
    unfold openSession
    split
    · exact List.prefix_rfl
    · rw [resumeInput_sent, moveTo_sent]
  | onState ackSeq =>
    rw [step]
    unfold onState
    split <;> exact List.prefix_rfl
  | onRateChange =>
    rw [step]
    unfold onRateChange
    split
    · exact List.prefix_rfl
    · rw [resync_sent]
  | checkNotBehind depictedTick =>
    rw [step]
    unfold checkNotBehind
    split
    · exact List.prefix_rfl
    · split_ifs
      · exact List.prefix_rfl
      · rw [resync_sent]
      · exact List.prefix_rfl
  | checkLiveness drought overdue =>
    rw [step]
    unfold checkLiveness
    split_ifs
    · exact List.prefix_rfl
    · unfold stall
      split
      · exact List.prefix_rfl
      · exact (c.moveTo_sent .stalled).symm ▸ List.prefix_rfl
    · rw [resumeInput_sent, moveTo_sent]
    · exact List.prefix_rfl
  | disconnect => exact (c.moveTo_sent .disconnected).symm ▸ List.prefix_rfl
  | fail => exact List.prefix_rfl

end Uplink

end Grove
