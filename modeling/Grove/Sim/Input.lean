import Grove.Sim.Session

/-! # The input buffer and the input pass

`packages/sim/src/input.ts`.  A frame is admitted by the tick window and the rate limiter,
filed under the tick it applies on, and drained by the pass of that tick.  Sessions are
objects in the source and are shared by the registry and by the buffer's entries; here they
live in a heap `ℕ → Session` and a buffered entry holds its session's address.

`InputWorld` is the part of the sim the input path reads and writes; `InputCall` lists the
calls made on it.  `drainThrough_perm` says that a drain moves frames and loses none. -/

namespace Grove

/-- The address of a session. -/
abbrev SessionRef := ℕ

/-- A frame and the session it arrived on. -/
structure BufferedInput where
  session : SessionRef
  frame : InputFrame
deriving DecidableEq

/-- What admission decided. -/
inductive AdmitResult where
  | buffered (tick : ℤ)
  /-- Past the horizon but inside the clamp band, so applied at the horizon. -/
  | clamped (tick : ℤ)
  | refused (reason : RefusalReason)
deriving DecidableEq

/-- Arrivals waiting for their intended tick. -/
structure InputBuffer where
  byTick : OrderedMap ℤ (List BufferedInput)
deriving DecidableEq

namespace InputBuffer

def empty : InputBuffer := ⟨OrderedMap.empty⟩

variable (b : InputBuffer)

/-- Every waiting frame, slot by slot. -/
def waiting : List BufferedInput := b.byTick.entries.flatMap Prod.snd

def file (tick : ℤ) (entry : BufferedInput) : InputBuffer :=
  ⟨b.byTick.set tick ((b.byTick.get tick).getD [] ++ [entry])⟩

/-- Runs the window and rate checks, then files the frame under the tick it applies on. -/
def admitInput (ref : SessionRef) (session : Session) (frame : InputFrame) (currentTick : ℤ)
    (simRate : ℚ) : AdmitResult × Session × InputBuffer :=
  let a := session.admission
  -- A duplicate the frontier has not reached is left unresolved: the copy filed may not have applied.
  if frame.seq ≤ a.ackSeq ∨ a.seen frame.seq then
    (.refused .tooOld, { session with admission := a.noteTraffic currentTick }, b)
  -- Not resolved either: resolving a seq this far ahead would drag the frontier with it.
  else if a.highestSeen + maxSeqGap simRate < frame.seq then
    (.refused .tooFarFuture, { session with admission := a.noteTraffic currentTick }, b)
  else
    let a := a.noteArrival frame.seq frame.tick currentTick
    let floor := currentTick - pastGraceTicks simRate
    let horizon := currentTick + futureHorizonTicks simRate
    if frame.tick < floor then
      (.refused .tooOld, { session with admission := a.resolve frame.seq }, b)
    else if horizon + horizonClampTicks < frame.tick then
      (.refused .tooFarFuture, { session with admission := a.resolve frame.seq }, b)
    else
      match a.takeToken with
      | (false, a) => (.refused .rate, { session with admission := a.resolve frame.seq }, b)
      | (true, a) =>
        if horizon < frame.tick then
          (.clamped horizon, { session with admission := a }, b.file horizon ⟨ref, frame⟩)
        else
          (.buffered frame.tick, { session with admission := a }, b.file frame.tick ⟨ref, frame⟩)

/-- The ticks with frames due at or before `tick`, ascending. -/
def due (tick : ℤ) : List ℤ := (b.byTick.keys.filter (· ≤ tick)).insertionSort (· ≤ ·)

/-- Drains every entry scheduled at or before `tick`, oldest tick first. -/
def drainThrough (tick : ℤ) : List BufferedInput × InputBuffer :=
  ((b.due tick).flatMap (fun t => (b.byTick.get t).getD []),
    ⟨b.byTick.filter (fun t _ => ¬ t ≤ tick)⟩)

/-- Forgets a dropped session's pending frames; a slot left empty goes. -/
def dropSession (ref : SessionRef) : InputBuffer :=
  ⟨⟨(b.byTick.entries.map (fun e => (e.1, e.2.filter (fun i => i.session ≠ ref)))).filter
      (fun e => ¬ e.2.isEmpty),
    (List.Nodup.sublist (List.Sublist.map _ List.filter_sublist)
      (by simpa [Function.comp_def] using b.byTick.nodup))⟩⟩

/-- Everything an admission can do: note the traffic alone; settle the arrival; or file it. -/
theorem admitInput_cases (ref : SessionRef) (s : Session) (frame : InputFrame) (tick : ℤ) (simRate : ℚ) :
    ∃ a b', (b.admitInput ref s frame tick simRate).2 = ({ s with admission := a }, b') ∧
      ((a = s.admission.noteTraffic tick ∧ b' = b) ∨
        (s.admission.ackSeq < frame.seq ∧ s.admission.seen frame.seq = false ∧
          ((∃ arrived, (arrived = s.admission.noteArrival frame.seq frame.tick tick ∨
              arrived = (s.admission.noteArrival frame.seq frame.tick tick).takeToken.2) ∧
              a = arrived.resolve frame.seq ∧ b' = b) ∨
            ∃ filed, a = (s.admission.noteArrival frame.seq frame.tick tick).takeToken.2 ∧
              b' = b.file filed ⟨ref, frame⟩))) := by
  unfold admitInput
  simp only
  split_ifs with hdup hfar hold hfut
  · exact ⟨_, _, rfl, Or.inl ⟨rfl, rfl⟩⟩
  · exact ⟨_, _, rfl, Or.inl ⟨rfl, rfl⟩⟩
  all_goals
    rw [not_or, not_le, Bool.not_eq_true] at hdup
  · exact ⟨_, _, rfl, Or.inr ⟨hdup.1, hdup.2, Or.inl ⟨_, Or.inl rfl, rfl, rfl⟩⟩⟩
  · exact ⟨_, _, rfl, Or.inr ⟨hdup.1, hdup.2, Or.inl ⟨_, Or.inl rfl, rfl, rfl⟩⟩⟩
  all_goals
    rcases htok : (s.admission.noteArrival frame.seq frame.tick tick).takeToken with ⟨ok, a⟩
    cases ok with
    | false =>
      exact ⟨_, _, rfl, Or.inr ⟨hdup.1, hdup.2, Or.inl ⟨_, Or.inr rfl, rfl, rfl⟩⟩⟩
    | true => exact ⟨_, _, rfl, Or.inr ⟨hdup.1, hdup.2, Or.inr ⟨_, rfl, rfl⟩⟩⟩

/-! ### What waits after each operation -/

theorem waiting_setEntries {ν : Type} (k : ℤ) (x : ν) : ∀ l : List (ℤ × List ν),
    (l.map Prod.fst).Nodup →
      ((OrderedMap.setEntries k ((OrderedMap.lookup k l).getD [] ++ [x]) l).flatMap Prod.snd).Perm
        (x :: l.flatMap Prod.snd)
  | [], _ => by simp [OrderedMap.setEntries]
  | (k', v) :: rest, hnd => by
    rw [List.map_cons, List.nodup_cons] at hnd
    by_cases hk : k' = k
    · simp only [OrderedMap.setEntries, OrderedMap.lookup, hk, if_true, Option.getD_some,
        List.flatMap_cons, List.append_assoc, List.singleton_append]
      exact List.perm_middle
    · simp only [OrderedMap.setEntries, OrderedMap.lookup, hk, if_false, List.flatMap_cons]
      exact ((waiting_setEntries k x rest hnd.2).append_left v).trans List.perm_middle

/-- Filing adds the one frame. -/
theorem waiting_file (tick : ℤ) (entry : BufferedInput) :
    (b.file tick entry).waiting.Perm (entry :: b.waiting) :=
  waiting_setEntries tick entry b.byTick.entries b.byTick.nodup

theorem flatMap_due_entries {ν : Type} (p : ℤ → Bool) : ∀ (l full : List (ℤ × List ν)),
    (full.map Prod.fst).Nodup → (∀ e ∈ l, e ∈ full) →
      ((l.map Prod.fst).filter p).flatMap (fun t => (OrderedMap.lookup t full).getD []) =
        (l.filter (fun e => p e.1)).flatMap Prod.snd
  | [], _, _, _ => by simp
  | (k, v) :: rest, full, hnd, hsub => by
    have ih := flatMap_due_entries p rest full hnd (fun e he => hsub e (List.mem_cons_of_mem _ he))
    have hget : OrderedMap.lookup k full = some v :=
      OrderedMap.lookup_of_mem hnd (hsub _ List.mem_cons_self)
    by_cases hp : p k
    · simp [hp, ih, hget]
    · simp [hp, ih]

/-- A drain splits what waits into what it returns and what is left. -/
theorem drainThrough_perm (tick : ℤ) :
    ((b.drainThrough tick).1 ++ (b.drainThrough tick).2.waiting).Perm b.waiting := by
  have hsort : ((b.due tick).flatMap (fun t => (b.byTick.get t).getD [])).Perm
      ((b.byTick.entries.filter (fun e => e.1 ≤ tick)).flatMap Prod.snd) := by
    refine ((List.perm_insertionSort (· ≤ ·) _).flatMap_right _).trans (List.Perm.of_eq ?_)
    exact flatMap_due_entries (· ≤ tick) b.byTick.entries b.byTick.entries b.byTick.nodup
      (fun _ h => h)
  refine (hsort.append_right _).trans ?_
  unfold waiting drainThrough OrderedMap.filter
  rw [← List.flatMap_append]
  refine List.Perm.flatMap_right _ ?_
  have := List.filter_append_perm (fun e : ℤ × List BufferedInput => decide (e.1 ≤ tick))
    b.byTick.entries
  simpa only [decide_not] using this

theorem mem_waiting_drainThrough {tick : ℤ} {e : BufferedInput} (h : e ∈ (b.drainThrough tick).2.waiting) :
    e ∈ b.waiting := (b.drainThrough_perm tick).mem_iff.mp (List.mem_append_right _ h)

theorem waiting_dropSession_sublist (ref : SessionRef) :
    (b.dropSession ref).waiting.Sublist b.waiting := by
  unfold waiting dropSession
  simp only
  generalize b.byTick.entries = l
  induction l with
  | nil => simp
  | cons e l ih =>
    rw [List.map_cons, List.filter_cons]
    split_ifs with h
    · simp only [List.flatMap_cons]
      exact List.Sublist.append List.filter_sublist ih
    · simp only [List.flatMap_cons]
      exact ih.trans (List.sublist_append_right _ _)

theorem mem_waiting_dropSession {ref : SessionRef} {e : BufferedInput} (h : e ∈ (b.dropSession ref).waiting) :
    e ∈ b.waiting ∧ e.session ≠ ref := by
  refine ⟨(b.waiting_dropSession_sublist ref).subset h, ?_⟩
  unfold waiting dropSession at h
  obtain ⟨slot, hslot, he⟩ := List.mem_flatMap.mp h
  obtain ⟨slot', -, rfl⟩ := List.mem_map.mp (List.mem_of_mem_filter hslot)
  simpa using (List.mem_filter.mp he).2

/-! ### Slot by slot -/

/-- The frames filed under a tick. -/
def slotAt (tick : ℤ) : List BufferedInput := (b.byTick.get tick).getD []

theorem slotAt_file (tick tick' : ℤ) (entry : BufferedInput) :
    (b.file tick entry).slotAt tick' = if tick' = tick then b.slotAt tick ++ [entry] else b.slotAt tick' := by
  unfold slotAt file
  rw [OrderedMap.get_set]
  split_ifs <;> rfl

theorem slotAt_drainThrough (tick tick' : ℤ) :
    (b.drainThrough tick).2.slotAt tick' = if tick' ≤ tick then [] else b.slotAt tick' := by
  unfold slotAt drainThrough
  rw [OrderedMap.get_filter]
  split_ifs with h
  · cases b.byTick.get tick' with
    | none => rfl
    | some slot => simp [Option.filter, h]
  · cases b.byTick.get tick' with
    | none => rfl
    | some slot => simp [Option.filter, h]

theorem slotAt_dropSession (ref : SessionRef) (tick : ℤ) :
    (b.dropSession ref).slotAt tick = (b.slotAt tick).filter (fun e => e.session ≠ ref) := by
  have hlookup : ∀ l : List (ℤ × List BufferedInput), (l.map Prod.fst).Nodup →
      (OrderedMap.lookup tick ((l.map (fun e => (e.1, e.2.filter (fun i => i.session ≠ ref)))).filter
        (fun e => ¬ e.2.isEmpty))).getD [] =
        ((OrderedMap.lookup tick l).getD []).filter (fun e => e.session ≠ ref) := by
    intro l hnd
    induction l with
    | nil => rfl
    | cons e l ih =>
      rw [List.map_cons, List.nodup_cons] at hnd
      have ih := ih hnd.2
      rw [List.map_cons, List.filter_cons]
      by_cases hk : e.1 = tick
      · have hnone : OrderedMap.lookup tick l = none := by
          cases hl : OrderedMap.lookup tick l with
          | none => rfl
          | some slot =>
            exact absurd (List.mem_map.mpr ⟨_, OrderedMap.mem_of_lookup hl, hk.symm⟩) hnd.1
        rw [hnone] at ih
        simp only [OrderedMap.lookup, hk, if_true, Option.getD_some]
        split_ifs with hempty
        · simp only [OrderedMap.lookup, if_true, Option.getD_some]
        · rw [ih]
          have hnil : e.2.filter (fun i => i.session ≠ ref) = [] := by simpa using hempty
          rw [hnil]
          rfl
      · simp only [OrderedMap.lookup, hk, if_false]
        split_ifs
        · simp only [OrderedMap.lookup, hk, if_false]
          exact ih
        · exact ih
  exact hlookup b.byTick.entries b.byTick.nodup

theorem mem_due {tick tick' : ℤ} : tick' ∈ b.due tick ↔ tick' ∈ b.byTick.keys ∧ tick' ≤ tick := by
  unfold due
  rw [(List.perm_insertionSort (· ≤ ·) _).mem_iff, List.mem_filter, decide_eq_true_eq]

/-- The ticks due, each once and ascending. -/
theorem due_pairwise (tick : ℤ) : (b.due tick).Pairwise (· < ·) := by
  have hsorted : (b.due tick).Pairwise (· ≤ ·) := List.pairwise_insertionSort (· ≤ ·) _
  have hnodup : (b.due tick).Nodup :=
    (List.perm_insertionSort (· ≤ ·) _).nodup_iff.mpr (b.byTick.nodup.filter _)
  exact (hsorted.and hnodup).imp (fun h => lt_of_le_of_ne h.1 h.2)

/-- What a drain returns was filed at or before its tick. -/
theorem mem_drainThrough {tick : ℤ} {e : BufferedInput} :
    e ∈ (b.drainThrough tick).1 ↔ ∃ tick' ≤ tick, e ∈ b.slotAt tick' := by
  show e ∈ (b.due tick).flatMap b.slotAt ↔ _
  rw [List.mem_flatMap]
  constructor
  · rintro ⟨tick', hdue, he⟩
    exact ⟨tick', (b.mem_due.mp hdue).2, he⟩
  · rintro ⟨tick', hle, he⟩
    refine ⟨tick', b.mem_due.mpr ⟨?_, hle⟩, he⟩
    cases hget : b.byTick.get tick' with
    | none =>
      unfold slotAt at he
      rw [hget] at he
      cases he
    | some slot => exact b.byTick.mem_keys_iff.mpr ⟨slot, hget⟩

end InputBuffer

/-! ### Standing -/

/-- The same connection in the same standing; what it has queued and its admission state aside. -/
structure SameStanding (a b : Session) : Prop where
  player : b.player = a.player
  closed : b.closed = a.closed
  identity : b.identity = a.identity
  connectionId : b.connectionId = a.connectionId

theorem SameStanding.refl (a : Session) : SameStanding a a := ⟨rfl, rfl, rfl, rfl⟩

theorem SameStanding.trans {a b c : Session} (h : SameStanding a b) (h' : SameStanding b c) : SameStanding a c :=
  ⟨h'.1.trans h.1, h'.2.trans h.2, h'.3.trans h.3, h'.4.trans h.4⟩

theorem SameStanding.update {f : SessionRef → Session} {ref : SessionRef} {session : Session}
    (h : SameStanding (f ref) session) (x : SessionRef) : SameStanding (f x) (Function.update f ref session x) := by
  by_cases hx : x = ref
  · rw [hx, Function.update_self]
    exact h
  · rw [Function.update_of_ne hx]
    exact SameStanding.refl _

theorem Session.playerId_congr {a b : Session} (hid : b.identity = a.identity)
    (hconn : b.connectionId = a.connectionId) : b.playerId = a.playerId := by
  unfold Session.playerId
  rw [hid, hconn]

theorem SameStanding.playerId {a b : Session} (h : SameStanding a b) : b.playerId = a.playerId :=
  Session.playerId_congr h.identity h.connectionId

/-! ### The pass -/

/-- What the input path reads and writes. -/
structure InputWorld where
  sessions : SessionRef → Session
  /-- Every live session, in registry order. -/
  live : List SessionRef
  buffer : InputBuffer

namespace InputWorld

variable (w : InputWorld)

/-- Writes one session back. -/
def put (ref : SessionRef) (s : Session) : InputWorld :=
  { w with sessions := Function.update w.sessions ref s }

/-- Folds one frame and resolves its seq at the apply. -/
def applyBuffered (player : Player) (s : Session) (frame : InputFrame) :
    Session × List InputDispatch :=
  let (actions, admission, out) :=
    foldInputEdges player.id AdmissionState.admitsAction frame.actions s.actions s.admission
  ({ s with actions := actions, admission := admission.resolve frame.seq }, out)

/-- Applies the drained frames in order; a session no longer live drops its own. -/
def applyAll : List BufferedInput → InputWorld → InputWorld × List InputDispatch
  | [], w => (w, [])
  | e :: rest, w =>
    match (w.sessions e.session).livePlayer with
    | none => applyAll rest w
    | some player =>
      let (s, out) := applyBuffered player (w.sessions e.session) e.frame
      let (w', out') := applyAll rest (w.put e.session s)
      (w', out ++ out')

/-- Releases what a silent connection holds, then the synthesized holds and the queued
interactions and requests. -/
def settleSession (tick stale : ℤ) (player : Player) (s : Session) : Session × List InputDispatch :=
  let silent := stale ≤ tick - s.admission.lastInputTick
  let released := if silent then s.actions.heldActions else []
  let actions := released.foldl (fun a action => a.applyEdge ⟨action, .release, none⟩) s.actions
  -- Axes separately: a hold never enters `held`, so the releases cannot reach one.
  let actions := if silent then
      (actions.axisValues.map Prod.fst).foldl (fun a action => a.applyEdge ⟨action, .hold, some 0⟩) actions
    else actions
  ({ s with actions := actions, interactions := [], requests := [] },
    released.map (fun action => .event player.id action .release none) ++
      synthesizeHolds player.id actions ++
      s.interactions.map (fun
        | .press widget screen => .pressWidget player.id widget screen
        | .click netId => .onClick player.id netId
        | .hoverEnter netId => .onHoverEnter player.id netId
        | .hoverExit netId => .onHoverExit player.id netId) ++
      s.requests.map (fun call => .deliverRequest player.id call.name call.data))

/-- Settles every live joined session in registry order. -/
def settleAll (tick stale : ℤ) : List SessionRef → InputWorld → InputWorld × List InputDispatch
  | [], w => (w, [])
  | ref :: rest, w =>
    match (w.sessions ref).livePlayer with
    | none => settleAll tick stale rest w
    | some player =>
      let (s, out) := settleSession tick stale player (w.sessions ref)
      let (w', out') := settleAll tick stale rest (w.put ref s)
      (w', out ++ out')

/-- Starts a tick: the one-tick-wide edges of every joined session go. -/
def advanceAll (w : InputWorld) : InputWorld :=
  w.live.foldl (fun w ref =>
    if (w.sessions ref).joined then
      w.put ref { w.sessions ref with actions := (w.sessions ref).actions.advanceTick }
    else w) w

/-- Drain this tick's frames, fold, dispatch. -/
def runInputPass (w : InputWorld) (tick : ℤ) (simRate : ℚ) : InputWorld × List InputDispatch :=
  let w := w.advanceAll
  let (out, buffer) := w.buffer.drainThrough tick
  let (w, d) := applyAll out { w with buffer := buffer }
  let (w, d') := settleAll tick (holdStaleTicks simRate) w.live w
  (w, d ++ d')

/-! #### What a pass leaves waiting -/

theorem applyAll_buffer : ∀ (out : List BufferedInput) (w : InputWorld),
    (applyAll out w).1.buffer = w.buffer ∧ (applyAll out w).1.live = w.live
  | [], _ => ⟨rfl, rfl⟩
  | e :: out, w => by
    unfold applyAll
    split
    · exact applyAll_buffer out w
    · exact applyAll_buffer out _

theorem settleAll_buffer (tick stale : ℤ) : ∀ (refs : List SessionRef) (w : InputWorld),
    (settleAll tick stale refs w).1.buffer = w.buffer
  | [], _ => rfl
  | ref :: refs, w => by
    unfold settleAll
    split
    · exact settleAll_buffer tick stale refs w
    · exact settleAll_buffer tick stale refs _

theorem advanceAll_buffer (w : InputWorld) : w.advanceAll.buffer = w.buffer := by
  unfold advanceAll
  generalize w.live = refs
  induction refs generalizing w with
  | nil => rfl
  | cons ref refs ih =>
    rw [List.foldl_cons, ih]
    split_ifs <;> rfl

/-- A pass takes from the buffer what is due, and files nothing. -/
theorem runInputPass_buffer (w : InputWorld) (tick : ℤ) (simRate : ℚ) :
    (w.runInputPass tick simRate).1.buffer = (w.buffer.drainThrough tick).2 := by
  unfold runInputPass
  simp only
  rw [settleAll_buffer, (applyAll_buffer _ _).1, advanceAll_buffer]

/-! #### Who is there after a pass -/

/-- Every session of `w'` is in the standing it has in `w`. -/
def AllSame (w w' : InputWorld) : Prop := ∀ ref, SameStanding (w.sessions ref) (w'.sessions ref)

theorem AllSame.trans {w w' w'' : InputWorld} (h : AllSame w w') (h' : AllSame w' w'') : AllSame w w'' :=
  fun ref => (h ref).trans (h' ref)

theorem allSame_applyAll : ∀ (out : List BufferedInput) (w : InputWorld), AllSame w (applyAll out w).1
  | [], w => fun _ => SameStanding.refl _
  | e :: out, w => by
    unfold applyAll
    split
    · exact allSame_applyAll out w
    · have hput : ∀ player, AllSame w
          (w.put e.session (applyBuffered player (w.sessions e.session) e.frame).1) :=
        fun player => SameStanding.update ⟨rfl, rfl, rfl, rfl⟩
      exact (hput _).trans (allSame_applyAll out _)

theorem allSame_settleAll (tick stale : ℤ) : ∀ (refs : List SessionRef) (w : InputWorld),
    AllSame w (settleAll tick stale refs w).1
  | [], w => fun _ => SameStanding.refl _
  | ref :: refs, w => by
    unfold settleAll
    split
    · exact allSame_settleAll tick stale refs w
    · have hput : ∀ player, AllSame w
          (w.put ref (settleSession tick stale player (w.sessions ref)).1) :=
        fun player => SameStanding.update ⟨rfl, rfl, rfl, rfl⟩
      exact (hput _).trans (allSame_settleAll tick stale refs _)

theorem allSame_advanceAll (w : InputWorld) : AllSame w w.advanceAll := by
  have hfold : ∀ (refs : List SessionRef) (w : InputWorld), AllSame w (refs.foldl (fun w ref =>
      if (w.sessions ref).joined then
        w.put ref { w.sessions ref with actions := (w.sessions ref).actions.advanceTick }
      else w) w) := by
    intro refs
    induction refs with
    | nil => exact fun w _ => SameStanding.refl _
    | cons ref refs ih =>
      intro w
      refine AllSame.trans ?_ (ih _)
      show AllSame w (if (w.sessions ref).joined then _ else w)
      split_ifs
      · exact SameStanding.update ⟨rfl, rfl, rfl, rfl⟩
      · exact fun _ => SameStanding.refl _
  exact hfold w.live w

theorem allSame_runInputPass (w : InputWorld) (tick : ℤ) (simRate : ℚ) :
    AllSame w (w.runInputPass tick simRate).1 := by
  have hdrain : AllSame w.advanceAll { w.advanceAll with buffer := (w.advanceAll.buffer.drainThrough tick).2 } :=
    fun _ => SameStanding.refl _
  exact (allSame_advanceAll w).trans (hdrain.trans ((allSame_applyAll _ _).trans (allSame_settleAll _ _ _ _)))

/-- The calls the sim makes on the input path, with the tick it makes them on. -/
inductive Call where
  | admitInput (ref : SessionRef) (frame : InputFrame) (tick : ℤ) (simRate : ℚ)
  | runInputPass (tick : ℤ) (simRate : ℚ)
  | abandonStale (ref : SessionRef) (tick pastGrace : ℤ)
  | takeAck (ref : SessionRef)
  | dropSession (ref : SessionRef)
  | refill (ref : SessionRef) (simRate : ℚ)
  /-- An interaction or request frame is paid for. -/
  | takeToken (ref : SessionRef)
  | noteTraffic (ref : SessionRef) (tick : ℤ)
  /-- The session's player is made. -/
  | join (ref : SessionRef) (player : Player) (tick : ℤ)
  /-- The session closes: its player and its waiting frames go. -/
  | release (ref : SessionRef)

/-- One call. -/
def step (w : InputWorld) : Call → InputWorld
  | .admitInput ref frame tick simRate =>
    let (_, s, buffer) := w.buffer.admitInput ref (w.sessions ref) frame tick simRate
    { w.put ref s with buffer := buffer }
  | .runInputPass tick simRate => (w.runInputPass tick simRate).1
  | .abandonStale ref tick pastGrace =>
    w.put ref { w.sessions ref with
      admission := (w.sessions ref).admission.abandonStale tick pastGrace }
  | .takeAck ref =>
    w.put ref { w.sessions ref with admission := (w.sessions ref).admission.takeAck.1 }
  | .dropSession ref => { w with buffer := w.buffer.dropSession ref }
  | .refill ref simRate =>
    w.put ref { w.sessions ref with admission := (w.sessions ref).admission.refill simRate }
  | .takeToken ref => w.put ref { w.sessions ref with admission := (w.sessions ref).admission.takeToken.2 }
  | .noteTraffic ref tick => w.put ref { w.sessions ref with admission := (w.sessions ref).admission.noteTraffic tick }
  | .join ref player tick =>
    w.put ref { w.sessions ref with
      player := some player
      admission := (w.sessions ref).admission.noteTraffic tick }
  | .release ref =>
    { w.put ref { w.sessions ref with closed := true, player := none } with
      live := w.live.filter (· ≠ ref)
      buffer := w.buffer.dropSession ref }

end InputWorld

end Grove
