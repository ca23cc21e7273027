import Grove.Lib.OrderedMap

/-! # The scope tree

`packages/core/src/dispatch/scope-tree.ts`: runtime → host → invocation.  An invocation object outlives its
place in the tree (a parked handler's continuation still reads whether it is dead), so the objects are kept
apart from the two indexes, under their ids.  Nothing in the repository sets an invocation's `cancel`, so it
stays null and is left out. -/

namespace Grove

abbrev ScopeId := ℕ

/-- The scope of nothing; ids start at 1. -/
def noScope : ScopeId := 0

/-- Who a contained throw is charged to. -/
structure GuardOwner where
  id : ℕ
  className : String
  hostScopeId : ScopeId
deriving DecidableEq

/-- What makes two invocations one another's: `` <instance>#<method> `` of a handler, `` guard:<method> `` of a callback. -/
inductive ConcurrencyKey where
  | handler (instanceId : ℕ) (method : String)
  | guard (method : String)
deriving DecidableEq

structure InvocationScope where
  id : ScopeId
  hostId : ScopeId
  startTick : ℤ
  owner : Option GuardOwner
  dead : Bool
  concurrencyKey : ConcurrencyKey
deriving DecidableEq

structure ScopeTree where
  nextId : ScopeId
  /-- Every invocation made. -/
  scope : ScopeId → Option InvocationScope
  hostScopes : OrderedMap ScopeId (List ScopeId)
  invocations : List ScopeId

namespace ScopeTree

def create : ScopeTree := ⟨1, fun _ => none, .empty, []⟩

variable (t : ScopeTree)

def createHostScope : ScopeId × ScopeTree :=
  (t.nextId, { t with nextId := t.nextId + 1, hostScopes := t.hostScopes.set t.nextId [] })

/-- Whether the invocation is dead; an unknown one is. -/
def isDead (id : ScopeId) : Bool :=
  match t.scope id with
  | some s => s.dead
  | none => true

def markDead (id : ScopeId) : ScopeTree :=
  { t with scope := fun i => if i = id then (t.scope i).map (fun s => { s with dead := true }) else t.scope i }

/-- Out of the invocations, not out of its host's set. -/
def dropInvocation (id : ScopeId) : ScopeTree := { t with invocations := t.invocations.filter (· ≠ id) }

def dropFromHost (hostId id : ScopeId) : ScopeTree :=
  match t.hostScopes.get hostId with
  | none => t
  | some invocations => { t with hostScopes := t.hostScopes.set hostId (invocations.filter (· ≠ id)) }

def destroyHostScope (hostId : ScopeId) : ScopeTree :=
  match t.hostScopes.get hostId with
  | none => t
  | some invocations =>
    let t := invocations.foldl (fun t id => (t.markDead id).dropInvocation id) t
    { t with hostScopes := t.hostScopes.delete hostId }

def createInvocation (hostId : ScopeId) (tick : ℤ) (key : ConcurrencyKey) (owner : Option GuardOwner) : ScopeId × ScopeTree :=
  let id := t.nextId
  (id, { t with
    nextId := t.nextId + 1
    scope := fun i => if i = id then some ⟨id, hostId, tick, owner, false, key⟩ else t.scope i
    hostScopes :=
      match t.hostScopes.get hostId with
      | none => t.hostScopes
      | some invocations => t.hostScopes.set hostId (invocations ++ [id])
    invocations := t.invocations ++ [id] })

/-- Both `cancelInvocation` and `completeInvocation`, with no `cancel` to call. -/
def endInvocation (id : ScopeId) : ScopeTree :=
  match t.scope id with
  | none => t
  | some s => if s.dead then t else ((t.markDead id).dropFromHost s.hostId id).dropInvocation id

def cancelInvocation (id : ScopeId) : ScopeTree := t.endInvocation id

def completeInvocation (id : ScopeId) : ScopeTree := t.endInvocation id

/-- Cancels what started after `tick`. -/
def sweepAfterTick (tick : ℤ) : ScopeTree :=
  t.invocations.foldl (fun t id =>
    match t.scope id with
    | none => t
    | some s => if tick < s.startTick then t.cancelInvocation id else t) t

def findRunning (hostId : ScopeId) (key : ConcurrencyKey) : Option ScopeId :=
  match t.hostScopes.get hostId with
  | none => none
  | some invocations =>
    invocations.find? (fun id =>
      match t.scope id with
      | none => false
      | some s => !s.dead && decide (s.concurrencyKey = key))

def clear : ScopeTree :=
  let t := (t.hostScopes.entries.map Prod.snd).flatten.foldl markDead t
  { t with hostScopes := .empty, invocations := [] }

end ScopeTree
end Grove
