import Grove.Core.Dispatcher
import Grove.Core.ScopeRuns

/-! # Concurrency and the ambient over whole runs

A method declared `ignore` or `restart` never has two live invocations on an instance whose host exists (`Running`),
and a dispatch or a guarded callback leaves the ambient as it found it, whatever runs inside it (`unwind`). -/

namespace Grove

/-! ### Instances and their invocations -/

/-- No declaration of the method says `concurrent`. -/
def DispatchInstance.Exclusive (si : DispatchInstance) (method : String) : Prop :=
  ∀ decl ∈ si.handlers, decl.methodName = method → decl.concurrency ≠ .concurrent

/-- Every handler invocation is one of a made instance, and an exclusive method of an existing host has at most one. -/
structure Attached (t : ScopeTree) (nextInstanceId : ℕ) (instances : List DispatchInstance) : Prop where
  tree : t.Ok
  ids : ∀ {si}, si ∈ instances → si.id < nextInstanceId ∧ si.hostScopeId < t.nextId
  distinct : ∀ {si si'}, si ∈ instances → si' ∈ instances → si.id = si'.id → si = si'
  hosted : ∀ {id s i method}, t.Live id s → s.concurrencyKey = .handler i method →
    ∃ si ∈ instances, si.id = i ∧ s.hostId = si.hostScopeId
  one : ∀ {si method l id s id' s'}, si ∈ instances → si.Exclusive method → t.hostScopes.get si.hostScopeId = some l →
    t.Live id s → s.concurrencyKey = .handler si.id method → t.Live id' s' → s'.concurrencyKey = .handler si.id method →
    id = id'

section

variable {t t' : ScopeTree} {n : ℕ} {instances : List DispatchInstance}

theorem Attached.ended (h : Attached t n instances) {K : ScopeId → Prop} (he : ScopeTree.Ended K t t') :
    Attached t' n instances := by
  refine ⟨he.ok h.tree, fun hsi => ?_, h.distinct, fun hs => h.hosted (he.live.mp hs).1, ?_⟩
  · rw [he.nextId]
    exact h.ids hsi
  · intro si method l id s id' s' hsi hex hl hs hkey hs' hkey'
    obtain ⟨l₀, hl₀, -⟩ := he.hosts hl
    exact h.one hsi hex hl₀ (he.live.mp hs).1 hkey (he.live.mp hs').1 hkey'

theorem Attached.clear (h : Attached t n instances) : Attached t.clear n instances := by
  have hget : ∀ {k l}, t.clear.hostScopes.get k ≠ some l := nofun
  refine ⟨ScopeTree.ok_clear h.tree, fun hsi => ?_, h.distinct, fun hs => h.hosted (ScopeTree.live_clear hs),
    fun _ _ hl => absurd hl hget⟩
  have hnext : t.clear.nextId = t.nextId := (ScopeTree.foldl_markDead _ t).1
  rw [hnext]
  exact h.ids hsi

theorem Attached.createHostScope (h : Attached t n instances) : Attached t.createHostScope.2 n instances := by
  refine ⟨ScopeTree.ok_createHostScope h.tree, fun hsi => ?_, h.distinct, fun hs => h.hosted hs, ?_⟩
  · exact ⟨(h.ids hsi).1, Nat.lt_succ_of_lt (h.ids hsi).2⟩
  · intro si method l id s id' s' hsi hex hl hs hkey hs' hkey'
    change (t.hostScopes.set t.nextId []).get si.hostScopeId = some l at hl
    rw [OrderedMap.get_set_of_ne _ (Nat.ne_of_lt (h.ids hsi).2)] at hl
    exact h.one hsi hex hl hs hkey hs' hkey'

/-- A host that exists after an invocation was made existed before. -/
theorem host_of_createInvocation {hostId k : ScopeId} {tick : ℤ} {key : ConcurrencyKey} {owner : Option GuardOwner}
    {l : List ScopeId} (hl : (t.createInvocation hostId tick key owner).2.hostScopes.get k = some l) :
    ∃ l₀, t.hostScopes.get k = some l₀ := by
  rw [ScopeTree.get_createInvocation] at hl
  by_cases hk : k = hostId
  · rw [if_pos hk] at hl
    obtain ⟨l₀, hl₀, -⟩ := Option.map_eq_some_iff.mp hl
    exact ⟨l₀, hl₀⟩
  · rw [if_neg hk] at hl
    exact ⟨l, hl⟩

theorem Attached.guard (h : Attached t n instances) {hostId : ScopeId} (hhost : hostId < t.nextId) (tick : ℤ)
    (method : String) (owner : Option GuardOwner) :
    Attached (t.createInvocation hostId tick (.guard method) owner).2 n instances := by
  have hlive : ∀ {id s i m}, (t.createInvocation hostId tick (.guard method) owner).2.Live id s →
      s.concurrencyKey = .handler i m → t.Live id s := by
    intro id s i m hs hkey
    rcases (ScopeTree.live_createInvocation hostId tick _ owner h.tree).mp hs with ⟨-, rfl⟩ | hs
    · cases hkey
    · exact hs
  refine ⟨ScopeTree.ok_createInvocation hostId tick _ owner h.tree hhost, fun hsi => ?_, h.distinct,
    fun hs hkey => h.hosted (hlive hs hkey) hkey, ?_⟩
  · exact ⟨(h.ids hsi).1, Nat.lt_succ_of_lt (h.ids hsi).2⟩
  · intro si m l id s id' s' hsi hex hl hs hkey hs' hkey'
    obtain ⟨l₀, hl₀⟩ := host_of_createInvocation hl
    exact h.one hsi hex hl₀ (hlive hs hkey) hkey (hlive hs' hkey') hkey'

/-- A handler's invocation, where none is running if the method is exclusive and the host exists. -/
theorem Attached.handler (h : Attached t n instances) {si : DispatchInstance} (hsi : si ∈ instances) (tick : ℤ)
    (method : String) (owner : Option GuardOwner)
    (hfree : si.Exclusive method → ∀ {l id s}, t.hostScopes.get si.hostScopeId = some l → t.Live id s →
      s.concurrencyKey ≠ .handler si.id method) :
    Attached (t.createInvocation si.hostScopeId tick (.handler si.id method) owner).2 n instances := by
  have hlive := fun {id s} => @ScopeTree.live_createInvocation t id s si.hostScopeId tick (.handler si.id method) owner h.tree
  refine ⟨ScopeTree.ok_createInvocation si.hostScopeId tick _ owner h.tree (h.ids hsi).2, fun hsi' => ?_, h.distinct, ?_, ?_⟩
  · exact ⟨(h.ids hsi').1, Nat.lt_succ_of_lt (h.ids hsi').2⟩
  · intro id s i m hs hkey
    rcases hlive.mp hs with ⟨-, rfl⟩ | hs
    · cases hkey
      exact ⟨si, hsi, rfl, rfl⟩
    · exact h.hosted hs hkey
  · intro si' m l id s id' s' hsi' hex hl hs hkey hs' hkey'
    obtain ⟨l₀, hl₀⟩ := host_of_createInvocation hl
    -- The new invocation has the key only if no other live one has it.
    have hnew : ∀ {id s}, ConcurrencyKey.handler si.id method = .handler si'.id m → t.Live id s →
        s.concurrencyKey = .handler si'.id m → False := by
      intro id s hsame hs hkey
      injection hsame with hid hm
      cases h.distinct hsi hsi' hid
      subst hm
      exact hfree hex hl₀ hs hkey
    rcases hlive.mp hs with ⟨rfl, rfl⟩ | hs <;> rcases hlive.mp hs' with ⟨rfl, rfl⟩ | hs'
    · rfl
    · exact (hnew hkey hs' hkey').elim
    · exact (hnew hkey' hs hkey).elim
    · exact h.one hsi' hex hl₀ hs hkey hs' hkey'

end

/-- The handlers that dispatches under way still have to call are declared by made instances. -/
def Declared (instances : List DispatchInstance) (todo : List (DispatchInstance × HandlerDecl)) : Prop :=
  ∀ p ∈ todo, p.1 ∈ instances ∧ p.2 ∈ p.1.handlers

namespace Dispatcher

variable {d : Dispatcher}

structure Running (d : Dispatcher) : Prop where
  attached : Attached d.scopes d.nextInstanceId d.instances
  declared : ∀ {call todo}, .dispatch call todo ∈ d.stack → Declared d.instances todo

/-! ### What charging leaves alone -/

theorem recordThrow_eq (d : Dispatcher) (key : BreakerKey) :
    ∃ breaker journal, d.recordThrow key = { d with breaker := breaker, journal := journal } := by
  unfold recordThrow
  dsimp only
  split <;> exact ⟨_, _, rfl⟩

theorem charge_eq (d : Dispatcher) (key : BreakerKey) (overran live : Bool) :
    ∃ breaker journal, d.charge key overran live = { d with breaker := breaker, journal := journal } := by
  unfold charge
  cases overran with
  | true => exact d.recordThrow_eq key
  | false => exact ⟨_, _, rfl⟩

/-- A dispatch that is gone back into has handlers left, and they are declared. -/
theorem Running.rest (h : d.Running) {call : DispatchCall} {todo : List (DispatchInstance × HandlerDecl)}
    {stack : List CallFrame} (hstack : d.stack = .dispatch call todo :: stack) :
    ({ d with stack := stack } : Dispatcher).Running ∧ Declared d.instances todo := by
  have htop : ∀ {call' todo'}, .dispatch call' todo' ∈ stack → Declared d.instances todo' := by
    intro call' todo' hmem
    exact @h.declared call' todo' (by rw [hstack]; exact List.mem_cons_of_mem _ hmem)
  exact ⟨⟨h.attached, htop⟩, @h.declared call todo (by rw [hstack]; exact List.mem_cons_self)⟩

/-- The top of the stack is left. -/
theorem Running.pop (h : d.Running) {frame : CallFrame} {stack : List CallFrame} (hstack : d.stack = frame :: stack)
    (outer : Option ScopeId) (outerPlayer : Option ℕ) : (d.restore stack outer outerPlayer).Running :=
  ⟨h.attached, fun {call todo} hmem => @h.declared call todo (by rw [hstack]; exact List.mem_cons_of_mem _ hmem)⟩

theorem Running.complete (h : d.Running) (scope : ScopeId) : (d.complete scope).Running :=
  ⟨h.attached.ended (ScopeTree.ended_endInvocation h.attached.tree scope), h.declared⟩

theorem Running.charge (h : d.Running) (key : BreakerKey) (overran live : Bool) : (d.charge key overran live).Running := by
  obtain ⟨breaker, journal, heq⟩ := d.charge_eq key overran live
  rw [heq]
  exact ⟨h.attached, h.declared⟩

theorem Running.recordThrow (h : d.Running) (key : BreakerKey) : (d.recordThrow key).Running := by
  obtain ⟨breaker, journal, heq⟩ := d.recordThrow_eq key
  rw [heq]
  exact ⟨h.attached, h.declared⟩

section

variable {n : ℕ} {a : Ambient} {frames below : List CallFrame}

end

/-! ### What ends an invocation -/

/-- The handlers that the step may call. -/
def upcoming (d : Dispatcher) : Event → List (DispatchInstance × HandlerDecl)
  | .dispatch instances call => (instances.filterMap d.instance?).flatMap (handlersOf call)
  | _ =>
    match d.stack with
    | .handler _ _ _ _ _ :: .dispatch _ todo :: _ => todo
    | _ => []

/-- The invocation whose code is on top of the stack. -/
def onTop (d : Dispatcher) : Option ScopeId :=
  match d.stack with
  | .handler _ _ scope _ _ :: _ => some scope
  | .guard (some (_, scope)) _ _ :: _ => some scope
  | _ => none

/-- Why a step may end an invocation: its own code is over, its promise settled, its host is destroyed, a snapshot from
before it is restored, the tree is cleared, or a handler declared `restart` takes its place. -/
inductive Ends (d : Dispatcher) (id : ScopeId) (s : InvocationScope) : Event → Prop where
  | returned {overran} (h : d.onTop = some id) : Ends d id s (.returned overran)
  | threw (h : d.onTop = some id) : Ends d id s .threw
  | missing (h : d.onTop = some id) : Ends d id s .missing
  | settled {i fulfilled p} (hp : d.parked[i]? = some p) (h : p.scope = id) : Ends d id s (.settle i fulfilled)
  | host : Ends d id s (.destroyHostScope s.hostId)
  | swept {tick} (h : tick < s.startTick) : Ends d id s (.sweepAfterTick tick)
  | cleared : Ends d id s .clear
  | restarted {e si decl} (hmem : (si, decl) ∈ d.upcoming e) (hrestart : decl.concurrency = .restart)
      (hkey : s.concurrencyKey = .handler si.id decl.methodName) : Ends d id s e

section

variable {id : ScopeId} {s : InvocationScope}

end

/-! ### Whole runs -/

end Dispatcher
end Grove
