import Grove.Core.Script
import Grove.Lib.Run

/-! # The dispatcher

`packages/core/src/dispatch/dispatcher.ts` and `breaker.ts`, with the ambient slots of `ambient.ts` and
`acting-player.ts`.  Creator code runs in the middle of a dispatch, a handler and a guarded callback, and may call
the engine again, so the calls under way are a stack of frames.  `Dispatcher.step` is one call the engine receives
or one way the creator code on top of the stack ends; a promise's reactions are jobs, which find the stack empty.

The error log is left out: no branch reads it. -/

namespace Grove

/-- Consecutive throws after which a handler is disabled. -/
def breakerThreshold : ℕ := 100

/-- How deep dispatches may nest. -/
def maxSendDepth : ℕ := 64

/-- An instance and a method. -/
abbrev BreakerKey := ℕ × String

/-! ### Breaker counters -/

abbrev BreakerCounters := OrderedMap BreakerKey ℕ

namespace BreakerCounters

variable (c : BreakerCounters)

def count (key : BreakerKey) : ℕ := (c.get key).getD 0

def recordThrow (key : BreakerKey) : BreakerCounters := c.set key (c.count key + 1)

def recordSuccess (key : BreakerKey) : BreakerCounters := c.delete key

def forgetInstance (instanceId : ℕ) : BreakerCounters := c.filter (fun key _ => decide (key.1 ≠ instanceId))

end BreakerCounters

/-! ### The state -/

structure DispatchOptions where
  activeLocations : List ScriptLocation
  replay : Bool
  tick : ℤ
  phase : Option EventPhase

/-- The arguments of a dispatch its handlers share. -/
structure DispatchCall where
  kind : HandlerKind
  event : String
  /-- `ctx.player`. -/
  player : Option ℕ
  opts : DispatchOptions

inductive CallFrame where
  /-- A dispatch between two handlers, with those still to be called. -/
  | dispatch (call : DispatchCall) (todo : List (DispatchInstance × HandlerDecl))
  /-- A handler's body, with the ambient it displaced. -/
  | handler (owner : GuardOwner) (method : String) (scope : ScopeId) (outer : Option ScopeId) (outerPlayer : Option ℕ)
  /-- A guarded callback; an unowned one has no invocation. -/
  | guard (owner : Option (GuardOwner × ScopeId)) (method : String) (outer : Option ScopeId)

/-- A promise that a handler returned, waited for. -/
structure Parked where
  owner : GuardOwner
  method : String
  scope : ScopeId
  overran : Bool

/-- What a run did with its methods. -/
inductive Note where
  | ran (key : BreakerKey)
  | refused (key : BreakerKey)
  /-- A charged failure. -/
  | failed (key : BreakerKey)
  /-- A success, of a live invocation or a dead one. -/
  | succeeded (key : BreakerKey) (live : Bool)
  /-- The host's `onTrip` listener is called. -/
  | tripped (key : BreakerKey)
  | forgot (instanceId : ℕ)
  | applied (counts : BreakerCounters)

structure Dispatcher where
  scopes : ScopeTree
  breaker : BreakerCounters
  depth : ℕ
  /-- `currentInvocation`. -/
  current : Option ScopeId
  actingPlayer : Option ℕ
  nextInstanceId : ℕ
  /-- The instances made. -/
  instances : List DispatchInstance
  stack : List CallFrame
  parked : List Parked
  /-- The history, newest first. -/
  journal : List Note

namespace Dispatcher

def create : Dispatcher := ⟨.create, .empty, 0, none, none, 1, [], [], [], []⟩

variable (d : Dispatcher)

def note (n : Note) : Dispatcher := { d with journal := n :: d.journal }

/-! ### Charging -/

/-- The breaker's half of `#recordThrow`. -/
def recordThrow (key : BreakerKey) : Dispatcher :=
  let breaker := d.breaker.recordThrow key
  let d := { d with breaker := breaker }.note (.failed key)
  if breaker.count key = breakerThreshold then d.note (.tripped key) else d

def recordSuccess (key : BreakerKey) (live : Bool) : Dispatcher :=
  { d with breaker := d.breaker.recordSuccess key }.note (.succeeded key live)

/-- A throw when it overran, else a success. -/
def charge (key : BreakerKey) (overran live : Bool) : Dispatcher :=
  if overran then d.recordThrow key else d.recordSuccess key live

/-! ### Dispatching -/

/-- The handlers of one instance a dispatch calls. -/
def handlersOf (call : DispatchCall) (si : DispatchInstance) : List (DispatchInstance × HandlerDecl) :=
  if si.location ∉ call.opts.activeLocations then []
  else if call.opts.replay ∧ si.location = .client then []
  else (si.handlers.filter (fun decl => decl.matches call.kind call.event call.opts.phase)).map (fun decl => (si, decl))

/-- `#invoke` from the new invocation to the handler's body. -/
def enter (call : DispatchCall) (si : DispatchInstance) (decl : HandlerDecl) : Dispatcher × Option CallFrame :=
  let (scope, scopes) :=
    d.scopes.createInvocation si.hostScopeId call.opts.tick (.handler si.id decl.methodName) (some si.toGuardOwner)
  ({ d with scopes := scopes, current := some scope, actingPlayer := call.player }.note (.ran (si.id, decl.methodName)),
    some (.handler si.toGuardOwner decl.methodName scope d.current d.actingPlayer))

/-- `#invoke` up to the handler's body; `none` when it does not run. -/
def invoke (call : DispatchCall) (si : DispatchInstance) (decl : HandlerDecl) : Dispatcher × Option CallFrame :=
  if breakerThreshold ≤ d.breaker.count (si.id, decl.methodName) then (d.note (.refused (si.id, decl.methodName)), none)
  else
    match d.scopes.findRunning si.hostScopeId (.handler si.id decl.methodName) with
    | none => d.enter call si decl
    | some running =>
      match decl.concurrency with
      | .ignore => (d, none)
      | .restart => { d with scopes := d.scopes.cancelInvocation running }.enter call si decl
      | .concurrent => d.enter call si decl

/-- Goes on with a dispatch's handlers, up to the next one that runs. -/
def proceed (call : DispatchCall) : Dispatcher → List (DispatchInstance × HandlerDecl) → Dispatcher
  | d, [] => { d with depth := d.depth - 1 }
  | d, (si, decl) :: todo =>
    match d.invoke call si decl with
    | (d, none) => proceed call d todo
    | (d, some frame) => { d with stack := frame :: .dispatch call todo :: d.stack }

/-- Back in the dispatch that called the handler. -/
def backIn (d : Dispatcher) : Dispatcher :=
  match d.stack with
  | .dispatch call todo :: stack => proceed call { d with stack := stack } todo
  | _ => d

/-- The handler's frame is left, and the ambient is as the handler found it. -/
def restore (stack : List CallFrame) (outer : Option ScopeId) (outerPlayer : Option ℕ) : Dispatcher :=
  { d with stack := stack, current := outer, actingPlayer := outerPlayer }

def complete (scope : ScopeId) : Dispatcher := { d with scopes := d.scopes.completeInvocation scope }

/-- The instance of an id. -/
def instance? (id : ℕ) : Option DispatchInstance := d.instances.find? (fun si => decide (si.id = id))

inductive Event where
  | createHostScope
  /-- An instance for a host scope that was handed out. -/
  | makeInstance (hostScopeId : ScopeId) (className : String) (location : ScriptLocation) (handlers : List HandlerDecl)
  | dispatch (instances : List ℕ) (call : DispatchCall)
  /-- The list of instances a dispatch is going through gets one more; `frame` counts from the top. -/
  | attached (frame : ℕ) (id : ℕ)
  | guard (owner : Option ℕ) (method : String) (tick : ℤ)
  /-- The creator code on top returns, no promise if it is a handler. -/
  | returned (overran : Bool)
  /-- The handler on top returns a promise. -/
  | parks (overran : Bool)
  | threw
  /-- The method of the handler on top is no function. -/
  | missing
  /-- A promise that a handler returned settles. -/
  | settle (i : ℕ) (fulfilled : Bool)
  /-- A job of an engine awaitable sets the ambient. -/
  | resume (made : Option ScopeId)
  | destroyHostScope (hostId : ScopeId)
  | sweepAfterTick (tick : ℤ)
  | clear
  | forgetInstance (instanceId : ℕ)
  | applyBreaker (counts : BreakerCounters)

/-- One more instance for a dispatch frame. -/
def grow (si : DispatchInstance) : CallFrame → CallFrame
  | .dispatch call todo => .dispatch call (todo ++ handlersOf call si)
  | frame => frame

def startGuard (owner : Option DispatchInstance) (method : String) (tick : ℤ) : Dispatcher :=
  match owner with
  | none => { d with current := none, stack := .guard none method d.current :: d.stack }
  | some si =>
    if breakerThreshold ≤ d.breaker.count (si.id, method) then d.note (.refused (si.id, method))
    else
      let (scope, scopes) := d.scopes.createInvocation si.hostScopeId tick (.guard method) (some si.toGuardOwner)
      { d with
        scopes := scopes
        current := some scope
        stack := .guard (some (si.toGuardOwner, scope)) method d.current :: d.stack }.note (.ran (si.id, method))

/-- The creator code on top of the stack returns. -/
def finish (overran : Bool) : Dispatcher :=
  match d.stack with
  | .handler owner method scope outer outerPlayer :: stack =>
    (((d.restore stack outer outerPlayer).charge (owner.id, method) overran (!d.scopes.isDead scope)).complete scope).backIn
  | .guard none _ outer :: stack => { d with stack := stack, current := outer }
  | .guard (some (owner, scope)) method outer :: stack =>
    ({ d with stack := stack, current := outer }.complete scope).charge (owner.id, method) overran (!d.scopes.isDead scope)
  | _ => d

/-- The creator code on top of the stack throws. -/
def throw : Dispatcher :=
  match d.stack with
  | .handler owner method scope outer outerPlayer :: stack =>
    (((d.recordThrow (owner.id, method)).complete scope).restore stack outer outerPlayer).backIn
  | .guard none _ outer :: stack => { d with stack := stack, current := outer }
  | .guard (some (owner, scope)) method outer :: stack =>
    { d.recordThrow (owner.id, method) with stack := stack, current := outer }.complete scope
  | _ => d

/-- The handler on top of the stack returns a promise. -/
def park (overran : Bool) : Dispatcher :=
  match d.stack with
  | .handler owner method scope outer outerPlayer :: stack =>
    let d := d.restore stack outer outerPlayer
    let d := if overran then d.recordThrow (owner.id, method) else d
    let p : Parked := ⟨owner, method, scope, overran⟩
    { d with parked := d.parked ++ [p] }.backIn
  | _ => d

/-- There was no method to call. -/
def skip : Dispatcher :=
  match d.stack with
  | .handler _ _ scope outer outerPlayer :: stack => ((d.restore stack outer outerPlayer).complete scope).backIn
  | _ => d

/-- The reaction to a handler's promise. -/
def settled (p : Parked) (fulfilled : Bool) : Dispatcher :=
  if fulfilled then
    (if p.overran then d else d.recordSuccess (p.owner.id, p.method) (!d.scopes.isDead p.scope)).complete p.scope
  else if d.scopes.isDead p.scope then d
  else (d.recordThrow (p.owner.id, p.method)).complete p.scope

def step (d : Dispatcher) : Event → Dispatcher
  | .createHostScope => { d with scopes := d.scopes.createHostScope.2 }
  | .makeInstance hostScopeId className location handlers =>
    if hostScopeId < d.scopes.nextId then
      let si : DispatchInstance := ⟨⟨d.nextInstanceId, className, hostScopeId⟩, location, handlers⟩
      { d with nextInstanceId := d.nextInstanceId + 1, instances := d.instances ++ [si] }
    else d
  | .dispatch instances call =>
    if maxSendDepth ≤ d.depth then d
    else proceed call { d with depth := d.depth + 1 } ((instances.filterMap d.instance?).flatMap (handlersOf call))
  | .attached frame id =>
    match d.instance? id with
    | none => d
    | some si => { d with stack := d.stack.modify frame (grow si) }
  | .guard owner method tick =>
    match owner with
    | none => d.startGuard none method tick
    | some id =>
      match d.instance? id with
      | none => d
      | some si => d.startGuard (some si) method tick
  | .returned overran => d.finish overran
  | .parks overran => d.park overran
  | .threw => d.throw
  | .missing => d.skip
  | .settle i fulfilled =>
    match d.stack, d.parked[i]? with
    | [], some p => { d with parked := d.parked.eraseIdx i }.settled p fulfilled
    | _, _ => d
  | .resume made =>
    match d.stack with
    | [] => { d with current := made }
    | _ => d
  | .destroyHostScope hostId => { d with scopes := d.scopes.destroyHostScope hostId }
  | .sweepAfterTick tick => { d with scopes := d.scopes.sweepAfterTick tick }
  | .clear => { d with scopes := d.scopes.clear }
  | .forgetInstance instanceId => { d with breaker := d.breaker.forgetInstance instanceId }.note (.forgot instanceId)
  | .applyBreaker counts => { d with breaker := counts }.note (.applied counts)

end Dispatcher
end Grove
