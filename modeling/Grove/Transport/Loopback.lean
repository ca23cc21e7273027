import Grove.Transport.Inbox

/-! # The loopback pair

`packages/transport/src/loopback.ts`: two ends, each with an inbox its peer writes into, and `deliver()`, which
ages both queues and then drains both.  `World.step` is one call of a run whose two ends keep the handlers they
were wired with: a send or a close, from outside or from the handler that is running, a `deliver()`, or the end
of that handler.  Beside the pair, the world notes what was sent, handled and closed, each with the number of
`deliver()` calls begun by then. -/

namespace Grove
namespace Loopback

open FrameInbox

variable {F M E : Type}

inductive Side where
  | client
  | server
deriving DecidableEq

def Side.other : Side → Side
  | .client => .server
  | .server => .client

/-- Drain passes that a `deliver()` makes at latency 0. -/
def maxQuiescencePasses : ℕ := 1000

/-- What the overflow message reports. -/
structure Overflow where
  retained : ℕ
  bytes : ℕ
deriving DecidableEq

structure LoopbackEnd (F : Type) where
  inbox : Inbox F
  closed : Bool
  /-- Latched when a frame is refused, thrown from the next drain. -/
  overflow : Option Overflow

namespace LoopbackEnd

variable (policy : Policy F M E) (latency : ℕ) (e : LoopbackEnd F)

/-- The peer's frame, sealed after close. -/
def receive (frame : F) : LoopbackEnd F :=
  if e.closed then e
  else
    match e.inbox.enqueue policy frame latency with
    | none => { e with overflow := e.overflow <|> some ⟨e.inbox.queuedBytes, policy.byteLength frame⟩ }
    | some inbox => { e with inbox := inbox }

/-- Exempt from the seal. -/
def receiveClose : LoopbackEnd F := { e with inbox := e.inbox.queueClose latency }

/-- True while anything is eligible and a handler exists. -/
def deliverable : Bool :=
  match e.inbox.entries[e.inbox.head]? with
  | none => false
  | some next =>
    if 0 < next.due then false
    else
      match next.item with
      | .closeMarker => e.inbox.onClose.isSome
      | .frame _ => e.inbox.onMessage.isSome

end LoopbackEnd

/-- A frame sent, after so many `deliver()` calls; whether neither end had closed. -/
structure Sent (F : Type) where
  frame : F
  after : ℕ
  wasOpen : Bool

inductive Phase where
  | idle
  /-- In a handler of this end, with so many passes left at latency 0. -/
  | handling (side : Side) (left : ℕ)
deriving DecidableEq

structure World (F M : Type) where
  ends : Side → LoopbackEnd F
  phase : Phase
  /-- The `deliver()` calls begun. -/
  delivers : ℕ
  sent : Side → List (Sent F)
  /-- What the message handler of an end was called with, and in which `deliver()`. -/
  handled : Side → List (M × ℕ)
  /-- The `deliver()` calls in which `onClose` of an end was called. -/
  fired : Side → List ℕ
  /-- After how many `deliver()` calls the first close was. -/
  closedAfter : Option ℕ

/-- A pair whose ends were given these handlers. -/
def World.wired (onMessage onClose : Side → Handler) : World F M where
  ends := fun side =>
    { inbox := { Inbox.create with onMessage := some (onMessage side), onClose := some (onClose side) }
      closed := false
      overflow := none }
  phase := .idle
  delivers := 0
  sent := fun _ => []
  handled := fun _ => []
  fired := fun _ => []
  closedAfter := none

namespace World

variable (policy : Policy F M E) (latency : ℕ) (s : World F M)

def setInbox (side : Side) (inbox : Inbox F) : World F M :=
  { s with ends := Function.update s.ends side { s.ends side with inbox := inbox } }

/-! ### The ends -/

/-- Neither end has closed. -/
def isOpen : Bool := !(s.ends .client).closed && !(s.ends .server).closed

def sendEncoded (side : Side) (frame : F) : World F M :=
  let noted := Function.update s.sent side (s.sent side ++ [⟨frame, s.delivers, s.isOpen⟩])
  if (s.ends side).closed then { s with sent := noted }
  else
    { s with
      sent := noted
      ends := Function.update s.ends side.other ((s.ends side.other).receive policy latency frame) }

def close (side : Side) : World F M :=
  if (s.ends side).closed then s
  else
    { s with
      ends := Function.update
        (Function.update s.ends side { s.ends side with closed := true, inbox := (s.ends side).inbox.queueClose 0 })
        side.other ((s.ends side.other).receiveClose latency)
      closedAfter := s.closedAfter <|> some s.delivers }

/-- How a drain comes back to the pump. -/
inductive Drained where
  | finished
  /-- A handler is running. -/
  | suspended
  | threw
deriving DecidableEq

theorem shorter_setInbox {codec : FrameCodec F M E} {s : World F M} {side : Side} {next : Queued F} {inbox : Inbox F}
    (h : (s.ends side).inbox.turn codec = .skipped next inbox) :
    ((s.setInbox side inbox).ends side).inbox.entries.length - ((s.setInbox side inbox).ends side).inbox.head <
      (s.ends side).inbox.entries.length - (s.ends side).inbox.head := by
  have hspec := Inbox.turn_spec codec (s.ends side).inbox
  rw [h] at hspec
  cases hspec with
  | skipped htaken =>
    simp only [setInbox, Function.update_self]
    exact htaken.shorter

/-- The loop of an end's drain, up to its end or its next call out. -/
def drainLoop (codec : FrameCodec F M E) (side : Side) (s : World F M) : World F M × Drained :=
  match _ : (s.ends side).inbox.turn codec with
  | .left inbox => (s.setInbox side inbox, .finished)
  | .skipped _ inbox => drainLoop codec side (s.setInbox side inbox)
  | .closing _ inbox _ =>
    ({ s.setInbox side inbox with fired := Function.update s.fired side (s.fired side ++ [s.delivers]) }, .suspended)
  | .message _ inbox _ m =>
    ({ s.setInbox side inbox with handled := Function.update s.handled side (s.handled side ++ [(m, s.delivers)]) },
      .suspended)
  | .failed _ inbox _ => (s.setInbox side inbox, .threw)
termination_by (s.ends side).inbox.entries.length - (s.ends side).inbox.head
decreasing_by exact shorter_setInbox (by assumption)

/-- Reports an overflow, else drains. -/
def drain (codec : FrameCodec F M E) (side : Side) : World F M × Drained :=
  if (s.ends side).overflow.isSome then
    ({ s with ends := Function.update s.ends side { s.ends side with overflow := none } }, .threw)
  else s.drainLoop codec side

/-! ### The pump -/

def atIdle : World F M := { s with phase := .idle }

/-- The loop to quiescence at latency 0. -/
def quiesce (codec : FrameCodec F M E) : ℕ → World F M → World F M
  | left, s =>
    if (s.ends .client).deliverable || (s.ends .server).deliverable then
      match left with
      | 0 => s.atIdle
      | left + 1 =>
        match s.drain codec .client with
        | (s, .threw) => s.atIdle
        | (s, .suspended) => { s with phase := .handling .client left }
        | (s, .finished) =>
          match s.drain codec .server with
          | (s, .threw) => s.atIdle
          | (s, .suspended) => { s with phase := .handling .server left }
          | (s, .finished) => quiesce codec left s
    else s.atIdle

/-- What follows the drain of the server. -/
def serverDrained (codec : FrameCodec F M E) (left : ℕ) : World F M × Drained → World F M
  | (s, .threw) => s.atIdle
  | (s, .suspended) => { s with phase := .handling .server left }
  | (s, .finished) => if 0 < latency then s.atIdle else s.quiesce codec left

def clientDrained (codec : FrameCodec F M E) (left : ℕ) : World F M × Drained → World F M
  | (s, .threw) => s.atIdle
  | (s, .suspended) => { s with phase := .handling .client left }
  | (s, .finished) => serverDrained latency codec left (s.drain codec .server)

/-- Both ends age before either delivers. -/
def aged : World F M :=
  { s with ends := fun side => { s.ends side with inbox := (s.ends side).inbox.age }, delivers := s.delivers + 1 }

def pump (codec : FrameCodec F M E) : World F M :=
  clientDrained latency codec maxQuiescencePasses (s.aged.drain codec .client)

/-! ### The calls -/

inductive Event (F : Type) where
  | send (side : Side) (frame : F)
  | close (side : Side)
  | deliver
  | returned
  | threw

def step (policy : Policy F M E) (latency : ℕ) (s : World F M) : Event F → World F M
  | .send side frame => s.sendEncoded policy latency side frame
  | .close side => s.close latency side
  | .deliver =>
    match s.phase with
    | .idle => s.pump latency policy.toFrameCodec
    -- Refused from inside a handler.
    | .handling _ _ => s
  | .returned =>
    match s.phase with
    | .idle => s
    | .handling .client left => clientDrained latency policy.toFrameCodec left (s.drainLoop policy.toFrameCodec .client)
    | .handling .server left => serverDrained latency policy.toFrameCodec left (s.drainLoop policy.toFrameCodec .server)
  | .threw => s.atIdle

end World

end Loopback
end Grove
