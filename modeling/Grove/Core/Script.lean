import Grove.Core.ScopeTree

/-! # Scripts

What the dispatcher reads of a script: its declarations (`packages/core/src/script/`), and the attached instance
(`packages/core/src/dispatch/instances.ts`). -/

namespace Grove

/-- Which processes a script runs in. -/
inductive ScriptLocation where
  | server
  | client
  | synced
deriving DecidableEq

inductive Concurrency where
  | concurrent
  | ignore
  | restart
deriving DecidableEq

inductive EventPhase where
  | press
  | release
  | hold
deriving DecidableEq

inductive HandlerKind where
  | onStart
  | onEnd
  | onUpdate
  | onEvent
  | onCollide
  | onEnter
  | onExit
  | onClick
  | onHoverEnter
  | onHoverExit
  | onPlayerJoin
  | onPlayerLeave
  | onPress
  | onRequest
deriving DecidableEq

structure HandlerOptions where
  concurrency : Option Concurrency
  on : Option EventPhase
deriving DecidableEq

structure HandlerDecl where
  event : String
  kind : HandlerKind
  methodName : String
  opts : HandlerOptions
deriving DecidableEq

def defaultConcurrency : HandlerKind → Concurrency
  | .onCollide | .onEnter | .onExit => .concurrent
  | _ => .ignore

/-- What a declaration says, or its kind's default. -/
def HandlerDecl.concurrency (decl : HandlerDecl) : Concurrency :=
  decl.opts.concurrency.getD (defaultConcurrency decl.kind)

/-- Whether a declaration answers a dispatch; an unphased dispatch matches every phase. -/
def HandlerDecl.matches (decl : HandlerDecl) (kind : HandlerKind) (event : String) (phase : Option EventPhase) : Bool :=
  if decl.kind ≠ kind then false
  else
    match kind with
    | .onEvent =>
      if decl.event ≠ event then false
      else
        match phase with
        | none => true
        | some phase => decide (decl.opts.on.getD .press = phase)
    | .onCollide | .onEnter | .onExit | .onPress | .onRequest => decide (decl.event = event)
    | _ => true

/-- A `ScriptInstance`, as the dispatcher reads it. -/
structure DispatchInstance extends GuardOwner where
  location : ScriptLocation
  /-- The handlers its class declares. -/
  handlers : List HandlerDecl
deriving DecidableEq

end Grove
