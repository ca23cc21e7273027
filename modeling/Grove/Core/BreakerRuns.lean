import Grove.Core.Dispatcher

/-! # What the circuit breaker counts

The journal of a run says what was charged; `streak` and `disabled` read from it alone what the breaker is for.  The
counters agree with them in every run that records a success only for a live invocation of a method that is not
disabled, or where there is nothing to reset (`Clean`). -/

namespace Grove

/-- The charged failures of a method with no success of a live invocation since. -/
def streak (key : BreakerKey) : List Note → ℕ
  | [] => 0
  | .failed k :: js => if k = key then streak key js + 1 else streak key js
  | .succeeded k live :: js => if k = key ∧ live = true then 0 else streak key js
  | .forgot instanceId :: js => if key.1 = instanceId then 0 else streak key js
  | .applied counts :: _ => counts.count key
  | .ran _ :: js | .refused _ :: js | .tripped _ :: js => streak key js

theorem streak_failed (key k : BreakerKey) (js : List Note) :
    streak key (.failed k :: js) = if k = key then streak key js + 1 else streak key js := rfl

/-- Whether a method had that many failures in a row, since its instance was last forgotten or a snapshot applied. -/
def disabled (key : BreakerKey) : List Note → Bool
  | [] => false
  | .failed k :: js => if k = key ∧ streak key js + 1 = breakerThreshold then true else disabled key js
  | .forgot instanceId :: js => if key.1 = instanceId then false else disabled key js
  | .applied counts :: _ => decide (breakerThreshold ≤ counts.count key)
  | .ran _ :: js | .refused _ :: js | .tripped _ :: js | .succeeded _ _ :: js => disabled key js

/-- The failure that disables a method. -/
def Disabling (key : BreakerKey) (js : List Note) : Prop :=
  disabled key js = false ∧ disabled key (.failed key :: js) = true

/-- A method runs when it is not disabled and is refused when it is, and a trip is reported for each failure that
disables a method, at that failure. -/
def SoundJournal : List Note → Prop
  | [] => True
  | .ran key :: js => disabled key js = false ∧ SoundJournal js
  | .refused key :: js => disabled key js = true ∧ SoundJournal js
  | .tripped key :: .failed k :: js => k = key ∧ Disabling key js ∧ SoundJournal js
  | .tripped _ :: _ => False
  | .failed key :: js => ¬ Disabling key js ∧ SoundJournal js
  | .succeeded _ _ :: js | .forgot _ :: js | .applied _ :: js => SoundJournal js

theorem ran_head {js : List Note} (h : SoundJournal js) {key : BreakerKey} (hhead : js.head? = some (.ran key)) :
    disabled key js.tail = false := by
  cases js with
  | nil => cases hhead
  | cons n js =>
    cases Option.some.inj hhead
    exact h.1

/-! ### Counters that agree with the journal -/

structure Counted (breaker : BreakerCounters) (journal : List Note) : Prop where
  count : ∀ key, breaker.count key = streak key journal
  disabled : ∀ key, disabled key journal = true ↔ breakerThreshold ≤ streak key journal
  sound : SoundJournal journal

namespace BreakerCounters

variable (c : BreakerCounters) (key k : BreakerKey)

theorem count_recordThrow : (c.recordThrow key).count k = if k = key then c.count key + 1 else c.count k := by
  unfold recordThrow count
  rw [OrderedMap.get_set]
  split <;> rfl

theorem count_recordSuccess : (c.recordSuccess key).count k = if k = key then 0 else c.count k := by
  unfold recordSuccess count
  rw [OrderedMap.get_delete]
  split <;> rfl

theorem count_forgetInstance (instanceId : ℕ) :
    (c.forgetInstance instanceId).count k = if k.1 = instanceId then 0 else c.count k := by
  unfold forgetInstance count
  rw [OrderedMap.get_filter]
  by_cases h : k.1 = instanceId <;> cases c.get k <;> simp [h, Option.filter]

end BreakerCounters

section

variable {breaker : BreakerCounters} {js : List Note} {key : BreakerKey}

theorem breakerThreshold_pos : 0 < breakerThreshold := by decide

theorem counted_empty : Counted .empty [] :=
  ⟨fun _ => rfl, fun _ => ⟨nofun, fun h => absurd breakerThreshold_pos (not_lt.mpr h)⟩, trivial⟩

theorem Counted.disabled_iff (h : Counted breaker js) (key : BreakerKey) :
    Grove.disabled key js = true ↔ breakerThreshold ≤ breaker.count key := by
  rw [h.count key]
  exact h.disabled key

theorem Counted.ran (h : Counted breaker js) (hcount : ¬ breakerThreshold ≤ breaker.count key) :
    Counted breaker (.ran key :: js) :=
  ⟨h.count, h.disabled, Bool.eq_false_iff.mpr (fun hd => hcount ((h.disabled_iff key).mp hd)), h.sound⟩

theorem Counted.refused (h : Counted breaker js) (hcount : breakerThreshold ≤ breaker.count key) :
    Counted breaker (.refused key :: js) :=
  ⟨h.count, h.disabled, (h.disabled_iff key).mpr hcount, h.sound⟩

theorem count_failed (h : Counted breaker js) (k : BreakerKey) :
    (breaker.recordThrow key).count k = streak k (.failed key :: js) := by
  rw [BreakerCounters.count_recordThrow, streak_failed]
  by_cases hk : k = key
  · rw [if_pos hk, if_pos hk.symm, h.count, hk]
  · rw [if_neg hk, if_neg (Ne.symm hk), h.count]

theorem disabled_failed (h : Counted breaker js) (k : BreakerKey) :
    Grove.disabled k (.failed key :: js) = true ↔ breakerThreshold ≤ streak k (.failed key :: js) := by
  rw [streak_failed]
  simp only [Grove.disabled]
  by_cases hk : key = k
  · rw [if_pos hk]
    by_cases heq : streak k js + 1 = breakerThreshold
    · simp [hk, heq]
    · simp only [hk, heq, and_false, if_false, h.disabled k]
      omega
  · simp [hk, h.disabled k]

/-- The failure that disables a method is the one whose count is the threshold. -/
theorem disabling_iff (h : Counted breaker js) : Disabling key js ↔ streak key js + 1 = breakerThreshold := by
  unfold Disabling
  rw [Bool.eq_false_iff, Ne, h.disabled key, disabled_failed h, streak_failed, if_pos rfl]
  omega

end

namespace Dispatcher

variable {d : Dispatcher} {key : BreakerKey}

/-- The counters agree with the journal. -/
def Counts (d : Dispatcher) : Prop := Counted d.breaker d.journal

/-- What the breaker is for, of a whole run: the methods run and refused and the trips are those the journal's failures
call for, the counters refuse exactly the disabled methods, and a dead invocation's settling changes no count. -/
structure BreakerSound (es : List Event) : Prop where
  journal : SoundJournal (exec step create es).journal
  refuses : ∀ key, breakerThreshold ≤ (exec step create es).breaker.count key ↔
    disabled key (exec step create es).journal = true
  settles : ∀ {before i fulfilled after}, es = before ++ .settle i fulfilled :: after →
    ∀ {p}, (exec step create before).stack = [] → (exec step create before).parked[i]? = some p →
      (exec step create before).scopes.isDead p.scope = true →
      ∀ key, (exec step create (before ++ [.settle i fulfilled])).breaker.count key =
        (exec step create before).breaker.count key

theorem counts_recordThrow (h : d.Counts) (key : BreakerKey) : (d.recordThrow key).Counts := by
  have hcount : (d.breaker.recordThrow key).count key = streak key d.journal + 1 := by
    rw [count_failed h key, streak_failed, if_pos rfl]
  unfold recordThrow
  dsimp only
  by_cases htrip : (d.breaker.recordThrow key).count key = breakerThreshold
  · rw [if_pos htrip]
    have hdisabling := (disabling_iff h).mpr (hcount.symm.trans htrip)
    exact ⟨count_failed h, disabled_failed h, rfl, hdisabling, h.sound⟩
  · rw [if_neg htrip]
    have hdisabling := fun hd => htrip (hcount.trans ((disabling_iff h).mp hd))
    exact ⟨count_failed h, disabled_failed h, hdisabling, h.sound⟩

/-- Where a success may be recorded. -/
def Resets (d : Dispatcher) (key : BreakerKey) (live : Bool) : Prop :=
  d.breaker.count key = 0 ∨ live = true ∧ d.breaker.count key < breakerThreshold

theorem counts_recordSuccess (h : d.Counts) {live : Bool} (hresets : d.Resets key live) :
    (d.recordSuccess key live).Counts := by
  have hcount := h.count key
  have hdisabled := h.disabled key
  refine ⟨fun k => ?_, fun k => ?_, h.sound⟩
  · show (d.breaker.recordSuccess key).count k = _
    rw [BreakerCounters.count_recordSuccess]
    show _ = streak k (.succeeded key live :: d.journal)
    simp only [streak]
    by_cases hk : k = key
    · subst hk
      rcases hresets with hzero | ⟨hlive, -⟩
      · rw [if_pos rfl]
        split <;> omega
      · rw [if_pos rfl, if_pos ⟨rfl, hlive⟩]
    · rw [if_neg hk, if_neg (fun e => hk e.1.symm), h.count]
  · simp only [recordSuccess, note, disabled, streak, h.disabled k]
    by_cases hk : key = k ∧ live = true
    · rw [if_pos hk]
      have hsmall : d.breaker.count key < breakerThreshold := by
        rcases hresets with hzero | ⟨-, hlt⟩
        · rw [hzero]
          exact breakerThreshold_pos
        · exact hlt
      have hpos := breakerThreshold_pos
      rw [← hk.1]
      omega
    · rw [if_neg hk]

theorem counts_enter (h : d.Counts) (call : DispatchCall) (si : DispatchInstance) (decl : HandlerDecl)
    (hcount : ¬ breakerThreshold ≤ d.breaker.count (si.id, decl.methodName)) : (d.enter call si decl).1.Counts :=
  Counted.ran h hcount

theorem counts_invoke (h : d.Counts) (call : DispatchCall) (si : DispatchInstance) (decl : HandlerDecl) :
    (d.invoke call si decl).1.Counts := by
  unfold invoke
  split
  · exact Counted.refused h ‹_›
  · split
    · exact counts_enter h call si decl ‹_›
    · split
      · exact h
      · exact counts_enter (d := { d with scopes := _ }) h call si decl ‹_›
      · exact counts_enter h call si decl ‹_›

theorem counts_proceed (call : DispatchCall) (todo : List (DispatchInstance × HandlerDecl)) (h : d.Counts) :
    (proceed call d todo).Counts := by
  induction todo generalizing d with
  | nil => exact h
  | cons p todo ih =>
    obtain ⟨si, decl⟩ := p
    have hinvoke := counts_invoke h call si decl
    unfold proceed
    cases hres : d.invoke call si decl with
    | mk d' frame =>
      rw [hres] at hinvoke
      cases frame with
      | none => exact ih hinvoke
      | some frame => exact hinvoke

theorem counts_backIn (h : d.Counts) : d.backIn.Counts := by
  unfold backIn
  split
  · exact counts_proceed _ _ h
  · exact h

/-- The success that a step is to record, if it is to record one. -/
def success (d : Dispatcher) : Event → Option (BreakerKey × Bool)
  | .returned false =>
    match d.stack with
    | .handler owner method scope _ _ :: _ => some ((owner.id, method), !d.scopes.isDead scope)
    | .guard (some (owner, scope)) method _ :: _ => some ((owner.id, method), !d.scopes.isDead scope)
    | _ => none
  | .settle i true =>
    match d.stack, d.parked[i]? with
    | [], some p => if p.overran then none else some ((p.owner.id, p.method), !d.scopes.isDead p.scope)
    | _, _ => none
  | _ => none

/-- A success is recorded for a live invocation of a method that is not disabled, or resets nothing. -/
def Clean (d : Dispatcher) (e : Event) : Prop := ∀ key live, d.success e = some (key, live) → d.Resets key live

theorem counts_charge (h : d.Counts) {overran live : Bool} (hresets : overran = false → d.Resets key live) :
    (d.charge key overran live).Counts := by
  unfold charge
  cases overran with
  | true => exact counts_recordThrow h key
  | false => exact counts_recordSuccess h (hresets rfl)

theorem counts_finish (h : d.Counts) {overran : Bool} (hclean : d.Clean (.returned overran)) : (d.finish overran).Counts := by
  unfold finish
  split
  · rename_i owner method scope outer outerPlayer stack hstack
    refine counts_backIn (d := ((d.restore stack outer outerPlayer).charge _ _ _).complete scope) ?_
    refine counts_charge (d := d.restore stack outer outerPlayer) h (fun hover => ?_)
    subst hover
    exact hclean _ _ (by simp only [success, hstack])
  · exact h
  · rename_i owner scope method outer stack hstack
    refine counts_charge (d := { d with stack := stack, current := outer }.complete scope) h (fun hover => ?_)
    subst hover
    exact hclean _ _ (by simp only [success, hstack])
  · exact h

theorem counts_throw (h : d.Counts) : d.throw.Counts := by
  unfold throw
  split
  · exact counts_backIn (counts_recordThrow h _)
  · exact h
  · exact counts_recordThrow h _
  · exact h

theorem counts_park (h : d.Counts) (overran : Bool) : (d.park overran).Counts := by
  unfold park
  split
  · refine counts_backIn ?_
    rename_i owner method scope outer outerPlayer stack hstack
    cases overran with
    | true => exact counts_recordThrow (d := d.restore stack outer outerPlayer) h (owner.id, method)
    | false => exact h
  · exact h

theorem counts_settled (h : d.Counts) {p : Parked} {fulfilled : Bool}
    (hclean : fulfilled = true → p.overran = false → d.Resets (p.owner.id, p.method) (!d.scopes.isDead p.scope)) :
    (d.settled p fulfilled).Counts := by
  unfold settled
  cases fulfilled with
  | true =>
    rw [if_pos rfl]
    cases hover : p.overran with
    | true => exact h
    | false => exact counts_recordSuccess h (hclean rfl hover)
  | false =>
    rw [if_neg (by simp)]
    split
    · exact h
    · exact counts_recordThrow h _

theorem counts_step {e : Event} (h : d.Counts) (hclean : d.Clean e) : (d.step e).Counts := by
  cases e with
  | dispatch instances call =>
    simp only [step]
    split
    · exact h
    · exact counts_proceed (d := { d with depth := d.depth + 1 }) call _ h
  | attached | makeInstance =>
    simp only [step]
    split <;> exact h
  | guard owner method tick =>
    have hguard : ∀ owner, (d.startGuard owner method tick).Counts := by
      intro owner
      unfold startGuard
      split
      · exact h
      · split
        · exact Counted.refused h ‹_›
        · exact Counted.ran h ‹_›
    simp only [step]
    split
    · exact hguard none
    · split
      · exact h
      · exact hguard _
  | returned overran => exact counts_finish h hclean
  | parks overran => exact counts_park h overran
  | threw => exact counts_throw h
  | missing =>
    simp only [step]
    unfold skip
    split
    · exact counts_backIn (d := (d.restore _ _ _).complete _) h
    · exact h
  | settle i fulfilled =>
    simp only [step]
    split
    · rename_i p hstack hparked
      refine counts_settled (d := { d with parked := d.parked.eraseIdx i }) h (fun hful hover => ?_)
      subst hful
      exact hclean _ _ (by simp only [success, hstack, hparked, hover, Bool.false_eq_true, if_false])
    · exact h
  | resume made =>
    simp only [step]
    split <;> exact h
  | forgetInstance instanceId =>
    refine ⟨fun key => ?_, fun key => ?_, h.sound⟩
    · show (d.breaker.forgetInstance instanceId).count key = streak key (.forgot instanceId :: d.journal)
      rw [BreakerCounters.count_forgetInstance, h.count key]
      rfl
    · simp only [step, note, streak, disabled]
      have hpos := breakerThreshold_pos
      split
      · simp only [Bool.false_eq_true, false_iff]
        omega
      · exact h.disabled key
  | applyBreaker counts => exact ⟨fun _ => rfl, fun key => by simp [step, note, streak, disabled], h.sound⟩
  | createHostScope | destroyHostScope | sweepAfterTick | clear => exact h

/-- The settling of a dead invocation changes no count. -/
theorem count_settled_dead {p : Parked} (hdead : d.scopes.isDead p.scope = true) {fulfilled : Bool}
    (hclean : fulfilled = true → p.overran = false → d.Resets (p.owner.id, p.method) (!d.scopes.isDead p.scope))
    (key : BreakerKey) : (d.settled p fulfilled).breaker.count key = d.breaker.count key := by
  unfold settled
  cases fulfilled with
  | false => simp [hdead]
  | true =>
    rw [if_pos rfl]
    cases hover : p.overran with
    | true => rfl
    | false =>
      show (d.breaker.recordSuccess (p.owner.id, p.method)).count key = _
      rw [BreakerCounters.count_recordSuccess]
      rcases hclean rfl hover with hzero | ⟨hlive, -⟩
      · split
        · rename_i hk
          rw [hk, hzero]
        · rfl
      · rw [hdead] at hlive
        cases hlive

/-- **The breaker is sound** in a run whose successes are recorded for live invocations of methods that are not
disabled, or reset nothing. -/
theorem breaker_sound (es : List Event) (hclean : Meets step Clean create es) : BreakerSound es := by
  have h : (exec step create es).Counts :=
    hclean.invariant (fun _ _ hd hc => counts_step hd hc) counted_empty
  refine ⟨h.sound, fun key => (h.disabled_iff key).symm, ?_⟩
  intro before i fulfilled after hes p hstack hparked hdead key
  have hc : (exec step create before).Clean (.settle i fulfilled) := by
    rw [hes] at hclean
    exact (Meets.append.mp hclean).2.1
  rw [exec_append, exec_cons, exec_nil]
  generalize exec step create before = d at *
  simp only [step, hstack, hparked]
  refine count_settled_dead (d := { d with stack := [], parked := d.parked.eraseIdx i }) hdead (fun hful hover => ?_) key
  subst hful
  exact hc _ _ (by simp only [success, hstack, hparked, hover, Bool.false_eq_true, if_false])

/-- One handler, declared to restart. -/
def restartHandler : HandlerDecl := ⟨"go", .onEvent, "go", ⟨some .restart, none⟩⟩

def sendGo : Event := .dispatch [1] ⟨.onEvent, "go", none, ⟨[.server], false, 0, none⟩⟩

theorem breaker_sound_throw :
    BreakerSound [.createHostScope, .makeInstance 1 "Door" .server [restartHandler], sendGo, .threw] :=
  breaker_sound _ ⟨nofun, nofun, nofun, nofun, trivial⟩

/-- With 99 failures counted, a parked handler is restarted; the cancelled one settles, and then the hundredth failure
in a row does not disable the method, which runs again. -/
theorem dead_success_resets :
    ¬ BreakerSound
      [.createHostScope, .makeInstance 1 "Door" .server [restartHandler], .applyBreaker ⟨[((1, "go"), 99)], by decide⟩,
        sendGo, .parks false, sendGo, .parks false, .settle 0 true, .settle 0 false, sendGo] := by
  intro h
  have hran := ran_head h.journal (rfl : _ = some (Note.ran (1, "go")))
  have hdisabled : disabled (1, "go") (exec step create
      [.createHostScope, .makeInstance 1 "Door" .server [restartHandler], .applyBreaker ⟨[((1, "go"), 99)], by decide⟩,
        sendGo, .parks false, sendGo, .parks false, .settle 0 true, .settle 0 false, sendGo]).journal.tail = true := by
    decide +kernel
  rw [hdisabled] at hran
  cases hran

end Dispatcher
end Grove
