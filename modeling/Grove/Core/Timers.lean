import Grove.Core.ScopeTree
import Grove.Core.Value
import Grove.Lib.Run
import Grove.Math.SlotTable

/-! # Timers

`TimerHeap` of `packages/core/src/loop/timers.ts`.  A due timer's callback runs creator code, which may start and
cancel timers and advance the heap again, so an `advance` that is under way is a list of due timers still to be
fired (`Clock.due`); `Clock.step` is one call of a run, from outside or from the callback that is running.

A timer is an object that the due list of a running `advance` may hold after the heap dropped it, so it has an
identity, and the cancelled ones are remembered by it. -/

namespace Grove

inductive TimerKind where
  | sleep
  | every
  | after
deriving DecidableEq

/-- A function value. -/
abbrev Callback := ℕ

structure Timer where
  /-- Which object it is. -/
  object : ℕ
  id : ℕ
  kind : TimerKind
  hostScopeId : ScopeId
  remaining : ℤ
  /-- Reload interval, `every` only. -/
  interval : ℤ
  fn : Option Callback
  resolve : Option Callback
  owner : Option GuardOwner
deriving DecidableEq

/-- A captured timer: its timing alone. -/
structure TimerMeta where
  id : ℕ
  kind : TimerKind
  hostScopeId : ScopeId
  remaining : ℤ
  interval : ℤ
  cancelled : Bool
deriving DecidableEq

structure TimerBuffer where
  timers : List TimerMeta
  nextId : ℕ
  /-- The host scopes it covers, or `none` for every timer. -/
  scopes : Option (List ScopeId)
deriving DecidableEq

structure TimerHeap where
  timers : OrderedMap ℕ Timer
  nextId : ℕ
  simRate : ℚ
  nextObject : ℕ
  /-- The objects whose `cancelled` was set. -/
  cancelled : List ℕ

namespace TimerHeap

variable (h : TimerHeap)

/-- `none` for a duration that is not finite, which throws. -/
def toTicks : JsNumber → Option ℤ
  | .finite seconds => some (max 1 ⌊seconds * h.simRate + 1 / 2⌋)
  | .nan | .posInfinity | .negInfinity => none

/-! ### Starting and cancelling -/

/-- Mints an id for a timer, and adds it. -/
def add (timer : ℕ → ℕ → Timer) : TimerHeap :=
  { h with
    timers := h.timers.set h.nextId (timer h.nextObject h.nextId)
    nextId := h.nextId + 1
    nextObject := h.nextObject + 1 }

/-- The id is minted before a bad duration throws. -/
def after (seconds : JsNumber) (hostScopeId : ScopeId) (owner : Option GuardOwner) (fn : Callback) : TimerHeap :=
  match h.toTicks seconds with
  | none => { h with nextId := h.nextId + 1 }
  | some ticks => h.add (fun object id => ⟨object, id, .after, hostScopeId, ticks, 0, some fn, none, owner⟩)

def every (seconds : JsNumber) (hostScopeId : ScopeId) (owner : Option GuardOwner) (fn : Callback) : TimerHeap :=
  match h.toTicks seconds with
  | none => { h with nextId := h.nextId + 1 }
  | some ticks => h.add (fun object id => ⟨object, id, .every, hostScopeId, ticks, ticks, some fn, none, owner⟩)

/-- A bad duration throws before the id is minted. -/
def sleep (seconds : JsNumber) (hostScopeId : ScopeId) (resolve : Callback) : TimerHeap :=
  match h.toTicks seconds with
  | none => h
  | some ticks => h.add (fun object id => ⟨object, id, .sleep, hostScopeId, ticks, 0, none, some resolve, none⟩)

def cancel (id : ℕ) : TimerHeap :=
  match h.timers.get id with
  | none => h
  | some timer => { h with cancelled := timer.object :: h.cancelled, timers := h.timers.delete id }

/-- Cancels every timer of a host. -/
def cancelScope (hostScopeId : ScopeId) : TimerHeap :=
  if hostScopeId = noScope then h
  else
    { h with
      cancelled := ((h.timers.values.filter (fun t => t.hostScopeId = hostScopeId)).map Timer.object) ++ h.cancelled
      timers := h.timers.filter (fun _ t => t.hostScopeId ≠ hostScopeId) }

/-! ### Advancing -/

/-- Every timer is a tick nearer. -/
def tick : TimerHeap := { h with timers := h.timers.mapValues (fun t => { t with remaining := t.remaining - 1 }) }

/-- The due ones, in ascending id order. -/
def dueTimers : List Timer :=
  (h.timers.values.filter (fun t => t.remaining ≤ 0)).mergeSort (fun a b => a.id ≤ b.id)

/-- `remaining += interval` on the object `timer`, wherever it is. -/
def reload (timer : Timer) : TimerHeap :=
  { h with timers := h.timers.mapValues (fun t => if t.object = timer.object then { t with remaining := t.remaining + t.interval } else t) }

/-- Fires the due timers up to the next callback, with those still to be fired; `none` when they are all done. -/
def fireDue : TimerHeap → List Timer → TimerHeap × Option (List Timer)
  | h, [] => (h, none)
  | h, timer :: rest =>
    if timer.object ∈ h.cancelled then fireDue h rest
    else
      match timer.kind with
      | .every =>
        if timer.fn.isSome then (h.reload timer, some rest) else fireDue (h.reload timer) rest
      | .after =>
        if timer.fn.isSome then ({ h with timers := h.timers.delete timer.id }, some rest)
        else fireDue { h with timers := h.timers.delete timer.id } rest
      -- It resolves a promise, whose reactions are jobs of their own.
      | .sleep => fireDue { h with timers := h.timers.delete timer.id } rest

/-! ### Capturing and restoring -/

def toMeta (timer : Timer) : TimerMeta :=
  ⟨timer.id, timer.kind, timer.hostScopeId, timer.remaining, timer.interval, decide (timer.object ∈ h.cancelled)⟩

/-- Whether a host scope belongs to an entity of the scope; `scopeOwner` gives the slot of the entity a host scope is
for. -/
def inScope (scopeOwner : ScopeId → Option ℕ) (scope : List ℕ) (hostScopeId : ScopeId) : Bool :=
  match scopeOwner hostScopeId with
  | none => false
  | some owner => decide (owner ∈ scope.map handleIndex)

/-- `none` is the whole world. -/
def capture (scopeOwner : ScopeId → Option ℕ) : Option (List ℕ) → TimerBuffer
  | none => ⟨h.timers.values.map h.toMeta, h.nextId, none⟩
  | some scope =>
    let scopes := (h.timers.values.filter (fun t => inScope scopeOwner scope t.hostScopeId)).map Timer.hostScopeId
    ⟨(h.timers.values.filter (fun t => decide (t.hostScopeId ∈ scopes))).map h.toMeta, h.nextId, some scopes⟩

/-- A restored timer, with what the live timer of its id still holds. -/
def restore (timer : TimerMeta) (object : ℕ) : Timer :=
  let live := h.timers.get timer.id
  ⟨object, timer.id, timer.kind, timer.hostScopeId, timer.remaining, timer.interval, live.bind Timer.fn,
    live.bind Timer.resolve, live.bind Timer.owner⟩

/-- The captured timers as new objects. -/
def restored (timers : List TimerMeta) : List Timer :=
  timers.zipIdx.map (fun (timer, i) => h.restore timer (h.nextObject + i))

def apply (buffer : TimerBuffer) : TimerHeap :=
  let restored := h.restored buffer.timers
  let kept := match buffer.scopes with
    | none => OrderedMap.empty
    | some scopes => h.timers.filter (fun _ t => !decide (t.hostScopeId ∈ scopes))
  { h with
    timers := restored.foldl (fun timers t => timers.set t.id t) kept
    nextId := if buffer.scopes.isNone then buffer.nextId else max h.nextId buffer.nextId
    nextObject := h.nextObject + buffer.timers.length
    cancelled := ((buffer.timers.zipIdx.filter (fun e => e.1.cancelled)).map (fun e => h.nextObject + e.2)) ++ h.cancelled }

end TimerHeap

/-! ### Runs -/

/-- A heap, the advances under way on it, and the ids it handed out. -/
structure Clock where
  heap : TimerHeap
  /-- The due timers of each running `advance`, the innermost first. -/
  due : List (List Timer)
  minted : List ℕ

namespace Clock

inductive Event where
  | after (seconds : JsNumber) (hostScopeId : ScopeId) (owner : Option GuardOwner) (fn : Callback)
  | every (seconds : JsNumber) (hostScopeId : ScopeId) (owner : Option GuardOwner) (fn : Callback)
  | sleep (seconds : JsNumber) (hostScopeId : ScopeId) (resolve : Callback)
  | cancel (id : ℕ)
  | cancelScope (hostScopeId : ScopeId)
  | advance
  /-- The callback that is running returns, or throws under its guard. -/
  | returned

/-- Goes on with a due list. -/
def fire (c : Clock) (heap : TimerHeap) (due : List Timer) (outer : List (List Timer)) : Clock :=
  match heap.fireDue due with
  | (heap, none) => { c with heap := heap, due := outer }
  | (heap, some rest) => { c with heap := heap, due := rest :: outer }

/-- The heap after a call that mints, and what it minted. -/
def start (c : Clock) (heap : TimerHeap) : Clock :=
  { c with heap := heap, minted := c.minted ++ List.range' c.heap.nextId (heap.nextId - c.heap.nextId) }

def step (c : Clock) : Event → Clock
  | .after seconds hostScopeId owner fn => c.start (c.heap.after seconds hostScopeId owner fn)
  | .every seconds hostScopeId owner fn => c.start (c.heap.every seconds hostScopeId owner fn)
  | .sleep seconds hostScopeId resolve => c.start (c.heap.sleep seconds hostScopeId resolve)
  | .cancel id => { c with heap := c.heap.cancel id }
  | .cancelScope hostScopeId => { c with heap := c.heap.cancelScope hostScopeId }
  | .advance => c.fire c.heap.tick c.heap.tick.dueTimers c.due
  | .returned =>
    match c.due with
    | [] => c
    | due :: outer => c.fire c.heap due outer

end Clock
end Grove
