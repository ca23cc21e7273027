import Grove.Sim.Input
import Grove.Lib.Run

/-! # The ack and the frames still waiting

A client prunes its ring at `ackSeq`, so an ack that passes a frame still waiting in the
buffer discards input the authority has yet to apply.  The invariant: every waiting frame is
`Ahead` of its session's frontier (above it, unresolved, and counted as arrived), and no two
waiting frames are one session's same seq, so that resolving one frame at its apply resolves
no other (`Pending`).

Every call keeps it but one.  `noteArrival` dates the seqs a frame skips and does not take
the date back when a skipped seq arrives after all; `abandonStale` then settles that seq by
its old date while its frame waits for a later tick.  `SparesWaiting` says that a call
abandons no seq that waits; runs of such calls never let the ack overtake
(`waiting_above_ackSeq`), and one call that does not can (`waiting_below_ackSeq`). -/

namespace Grove

namespace AdmissionState

/-- `seq` has arrived and is still to be applied. -/
structure Ahead (a : AdmissionState) (seq : ℤ) : Prop where
  above : a.frontier < seq
  unresolved : seq ∉ a.resolved
  arrived : a.headroom.has seq = true

variable {a : AdmissionState} {seq seq' : ℤ}

theorem Ahead.seen (h : a.Ahead seq) : a.seen seq = true := by
  unfold AdmissionState.seen
  rw [h.arrived, Bool.true_or]

theorem Ahead.noteTraffic (h : a.Ahead seq) (tick : ℤ) : (a.noteTraffic tick).Ahead seq :=
  ⟨h.above, h.unresolved, h.arrived⟩

theorem Ahead.noteArrival (h : a.Ahead seq) (seq' frameTick tick : ℤ) :
    (a.noteArrival seq' frameTick tick).Ahead seq := by
  refine ⟨h.above, h.unresolved, ?_⟩
  have harr := h.arrived
  unfold AdmissionState.noteArrival
  simp only
  split_ifs
  · rw [OrderedMap.has_iff] at harr ⊢
    rw [OrderedMap.get_set]
    split_ifs
    · exact ⟨_, rfl⟩
    · exact harr
  · exact harr

/-- An arrival above the frontier and not settled is ahead. -/
theorem ahead_noteArrival (habove : a.frontier < seq) (hres : seq ∉ a.resolved) (frameTick tick : ℤ) :
    (a.noteArrival seq frameTick tick).Ahead seq := by
  refine ⟨habove, hres, ?_⟩
  unfold AdmissionState.noteArrival
  simp only
  rw [if_pos habove, OrderedMap.has_iff]
  exact ⟨_, OrderedMap.get_set_self _ _ _⟩

theorem Ahead.resolve (h : a.Ahead seq) (hne : seq ≠ seq') : (a.resolve seq').Ahead seq := by
  refine ⟨by rw [frontier_resolve]; exact h.above, ?_, by rw [headroom_resolve]; exact h.arrived⟩
  rw [mem_resolved_resolve]
  rintro (hmem | ⟨heq, -⟩)
  · exact h.unresolved hmem
  · exact hne heq

theorem Ahead.takeToken (h : a.Ahead seq) : a.takeToken.2.Ahead seq := by
  unfold AdmissionState.takeToken
  split_ifs <;> exact ⟨h.above, h.unresolved, h.arrived⟩

theorem Ahead.refill (h : a.Ahead seq) (simRate : ℚ) : (a.refill simRate).Ahead seq := by
  unfold AdmissionState.refill
  simp only
  split_ifs <;> exact ⟨h.above, h.unresolved, h.arrived⟩

theorem Ahead.admitsAction (h : a.Ahead seq) (action : String) : (a.admitsAction action).2.Ahead seq := by
  unfold AdmissionState.admitsAction
  split_ifs <;> exact ⟨h.above, h.unresolved, h.arrived⟩

theorem Ahead.takeAck (h : a.Ahead seq) : a.takeAck.1.Ahead seq := by
  obtain ⟨h1, h2, h3⟩ := takeAckLoop_keeps a.resolved.length a none h.above h.unresolved
  refine ⟨h1, h2, ?_⟩
  have harr := h.arrived
  rw [OrderedMap.has_iff] at harr ⊢
  rw [show a.takeAck.1.headroom.get seq = a.headroom.get seq from h3]
  exact harr

theorem Ahead.abandonStale (h : a.Ahead seq) {tick grace : ℤ}
    (hspared : seq ∉ a.staleGaps (tick - grace)) : (a.abandonStale tick grace).Ahead seq := by
  refine ⟨h.above, ?_, h.arrived⟩
  rw [mem_resolved_abandonStale]
  rintro (hmem | hmem)
  · exact h.unresolved hmem
  · exact hspared hmem

end AdmissionState

theorem ahead_foldInputEdges {seq : ℤ} (player : PlayerId) (edges : List InputAction) (acts : ActionStates)
    (a : AdmissionState) : a.Ahead seq → (foldInputEdges player AdmissionState.admitsAction edges acts a).2.1.Ahead seq :=
  @foldInputEdges_keeps _ _ (·.Ahead seq) (fun _ name h => h.admitsAction name) player edges acts a

namespace InputWorld

/-- What a frame is known by. -/
def frameKey (e : BufferedInput) : SessionRef × ℤ := (e.session, e.frame.seq)

/-- Each frame of `es` is ahead of its own session's frontier, and no two are the same. -/
structure Pending (sessions : SessionRef → Session) (es : List BufferedInput) : Prop where
  nodup : (es.map frameKey).Nodup
  ahead : ∀ e ∈ es, (sessions e.session).admission.Ahead e.frame.seq

variable {sessions : SessionRef → Session} {es es' : List BufferedInput}

theorem Pending.perm (h : Pending sessions es) (hp : es'.Perm es) : Pending sessions es' :=
  ⟨(hp.map frameKey).nodup_iff.mpr h.nodup, fun e he => h.ahead e (hp.mem_iff.mp he)⟩

theorem Pending.sublist (h : Pending sessions es) (hs : es'.Sublist es) : Pending sessions es' :=
  ⟨h.nodup.sublist (hs.map frameKey), fun e he => h.ahead e (hs.subset he)⟩

/-- Writing one session back keeps what waits, when its own waiting frames stay ahead. -/
theorem Pending.update (h : Pending sessions es) {ref : SessionRef} {s : Session}
    (hs : ∀ e ∈ es, e.session = ref → s.admission.Ahead e.frame.seq) :
    Pending (Function.update sessions ref s) es := by
  refine ⟨h.nodup, ?_⟩
  intro e he
  by_cases hr : e.session = ref
  · rw [hr, Function.update_self]
    exact hs e he hr
  · rw [Function.update_of_ne hr]
    exact h.ahead e he

/-- A session whose admission state does not change may be written back. -/
theorem Pending.update_same (h : Pending sessions es) {ref : SessionRef} {s : Session}
    (hs : s.admission = (sessions ref).admission) : Pending (Function.update sessions ref s) es :=
  h.update (fun e he hr => by rw [hs, ← hr]; exact h.ahead e he)

/-- The invariant of the buffer. -/
def AckBehind (w : InputWorld) : Prop := Pending w.sessions w.buffer.waiting

variable {w : InputWorld}

/-- A session handed to `admitInput` keeps its waiting frames ahead; the frame filed is ahead and new. -/
theorem ackBehind_admitInput (h : w.AckBehind) (ref : SessionRef) (frame : InputFrame) (tick : ℤ)
    (simRate : ℚ) : (w.step (.admitInput ref frame tick simRate)).AckBehind := by
  have hwait : ∀ e ∈ w.buffer.waiting, e.session = ref →
      (w.sessions ref).admission.Ahead e.frame.seq := fun e he hr => hr ▸ h.ahead e he
  obtain ⟨a, b', hadm, hcases⟩ := w.buffer.admitInput_cases ref (w.sessions ref) frame tick simRate
  show Pending (Function.update w.sessions ref
    (w.buffer.admitInput ref (w.sessions ref) frame tick simRate).2.1)
    (w.buffer.admitInput ref (w.sessions ref) frame tick simRate).2.2.waiting
  rw [hadm]
  rcases hcases with ⟨rfl, rfl⟩ | ⟨habove, hseen, hcases⟩
  · exact Pending.update h (fun e he hr => (hwait e he hr).noteTraffic tick)
  -- The seq has not been seen, so it is none of the waiting ones.
  have hne : ∀ e ∈ w.buffer.waiting, e.session = ref → e.frame.seq ≠ frame.seq := by
    intro e he hr heq
    have := (hwait e he hr).seen
    rw [heq, hseen] at this
    cases this
  rcases hcases with ⟨arrived, harrived, rfl, rfl⟩ | ⟨filed, rfl, rfl⟩
  · refine Pending.update h (fun e he hr => ?_)
    rcases harrived with rfl | rfl
    · exact ((hwait e he hr).noteArrival _ _ _).resolve (hne e he hr)
    · exact ((hwait e he hr).noteArrival _ _ _).takeToken.resolve (hne e he hr)
  · have hres : frame.seq ∉ (w.sessions ref).admission.resolved := by
      intro hmem
      simp [AdmissionState.seen, hmem] at hseen
    have hold := Pending.update h (fun e he hr => ((hwait e he hr).noteArrival _ _ _).takeToken)
      (s := { w.sessions ref with
        admission := ((w.sessions ref).admission.noteArrival frame.seq frame.tick tick).takeToken.2 })
    refine Pending.perm ⟨?_, ?_⟩ (w.buffer.waiting_file filed ⟨ref, frame⟩)
    · rw [List.map_cons, List.nodup_cons]
      refine ⟨?_, h.nodup⟩
      intro hmem
      obtain ⟨e, he, hkey⟩ := List.mem_map.mp hmem
      obtain ⟨hr, hseq⟩ := Prod.mk.inj hkey
      exact hne e he hr hseq
    · intro e he
      rcases List.mem_cons.mp he with rfl | he
      · rw [Function.update_self]
        exact (AdmissionState.ahead_noteArrival habove hres _ _).takeToken
      · exact hold.ahead e he

/-- Applying the drained frames leaves the rest ahead. -/
theorem pending_applyAll : ∀ (out : List BufferedInput) (w : InputWorld) (rest : List BufferedInput),
    Pending w.sessions (out ++ rest) → Pending (applyAll out w).1.sessions rest
  | [], _, _, h => h
  | e :: out, w, rest, h => by
    have htail : Pending w.sessions (out ++ rest) := h.sublist (List.sublist_cons_self _ _)
    unfold applyAll
    split
    · exact pending_applyAll out w rest htail
    · rename_i player _
      refine pending_applyAll out _ rest ?_
      -- The frame applied is resolved; the others of its session have other seqs.
      refine htail.update ?_
      intro e' he' hr
      have hkey : frameKey e ∉ (out ++ rest).map frameKey := (List.nodup_cons.mp h.nodup).1
      have hseq : e'.frame.seq ≠ e.frame.seq := fun heq =>
        hkey (List.mem_map.mpr ⟨e', he', by rw [frameKey, frameKey, hr, heq]⟩)
      have hahead := htail.ahead e' he'
      rw [hr] at hahead
      exact (ahead_foldInputEdges player.id e.frame.actions _ _ hahead).resolve hseq

theorem pending_settleAll (tick stale : ℤ) : ∀ (refs : List SessionRef) (w : InputWorld),
    Pending w.sessions es → Pending (settleAll tick stale refs w).1.sessions es
  | [], _, h => h
  | ref :: refs, w, h => by
    unfold settleAll
    split
    · exact pending_settleAll tick stale refs w h
    · exact pending_settleAll tick stale refs _ (h.update_same rfl)

theorem pending_advanceAll (h : Pending w.sessions es) : Pending w.advanceAll.sessions es := by
  unfold advanceAll
  generalize w.live = refs
  induction refs generalizing w with
  | nil => exact h
  | cons ref refs ih =>
    rw [List.foldl_cons]
    split_ifs
    · exact ih (h.update_same rfl)
    · exact ih h

theorem ackBehind_runInputPass (h : w.AckBehind) (tick : ℤ) (simRate : ℚ) :
    (w.step (.runInputPass tick simRate)).AckBehind := by
  show Pending (w.runInputPass tick simRate).1.sessions (w.runInputPass tick simRate).1.buffer.waiting
  unfold runInputPass
  simp only
  rw [settleAll_buffer, (applyAll_buffer _ _).1]
  refine pending_settleAll _ _ _ _ (pending_applyAll _ _ _ ?_)
  exact Pending.perm (pending_advanceAll h)
    (by rw [← advanceAll_buffer w]; exact w.advanceAll.buffer.drainThrough_perm tick)

/-- The call abandons no gap seq whose frame is waiting in the buffer. -/
def SparesWaiting (w : InputWorld) : Call → Prop
  | .abandonStale ref tick pastGrace =>
    ∀ e ∈ w.buffer.waiting, e.session = ref →
      e.frame.seq ∉ (w.sessions ref).admission.staleGaps (tick - pastGrace)
  | _ => True

instance (w : InputWorld) : ∀ c, Decidable (SparesWaiting w c)
  | .abandonStale ref tick pastGrace => inferInstanceAs (Decidable (∀ e ∈ w.buffer.waiting,
      e.session = ref → e.frame.seq ∉ (w.sessions ref).admission.staleGaps (tick - pastGrace)))
  | .admitInput .. => inferInstanceAs (Decidable True)
  | .runInputPass .. => inferInstanceAs (Decidable True)
  | .takeAck .. | .dropSession .. | .refill .. | .takeToken .. | .noteTraffic .. | .join .. | .release .. =>
    inferInstanceAs (Decidable True)

/-- Every call that spares the waiting frames keeps the ack behind them. -/
theorem ackBehind_step (w : InputWorld) (c : Call) (h : w.AckBehind) (hc : SparesWaiting w c) :
    (w.step c).AckBehind := by
  cases c with
  | admitInput ref frame tick simRate => exact ackBehind_admitInput h ref frame tick simRate
  | runInputPass tick simRate => exact ackBehind_runInputPass h tick simRate
  | abandonStale ref tick pastGrace =>
    exact Pending.update h (fun e he hr =>
      (hr ▸ h.ahead e he : (w.sessions ref).admission.Ahead e.frame.seq).abandonStale (hc e he hr))
  | takeAck ref =>
    exact Pending.update h (fun e he hr =>
      (hr ▸ h.ahead e he : (w.sessions ref).admission.Ahead e.frame.seq).takeAck)
  | dropSession ref => exact Pending.sublist h (w.buffer.waiting_dropSession_sublist ref)
  | refill ref simRate =>
    exact Pending.update h (fun e he hr =>
      (hr ▸ h.ahead e he : (w.sessions ref).admission.Ahead e.frame.seq).refill simRate)
  | takeToken ref =>
    exact Pending.update h (fun e he hr =>
      (hr ▸ h.ahead e he : (w.sessions ref).admission.Ahead e.frame.seq).takeToken)
  | noteTraffic ref tick =>
    exact Pending.update h (fun e he hr =>
      (hr ▸ h.ahead e he : (w.sessions ref).admission.Ahead e.frame.seq).noteTraffic tick)
  | join ref player tick =>
    exact Pending.update h (fun e he hr =>
      (hr ▸ h.ahead e he : (w.sessions ref).admission.Ahead e.frame.seq).noteTraffic tick)
  | release ref =>
    have hput : Pending (Function.update w.sessions ref { w.sessions ref with closed := true, player := none })
        w.buffer.waiting := Pending.update_same h rfl
    exact Pending.sublist hput (w.buffer.waiting_dropSession_sublist ref)

/-- A world in which no frame has arrived yet. -/
structure Fresh (w : InputWorld) : Prop where
  admission : ∀ ref, (w.sessions ref).admission = AdmissionState.new
  buffer : w.buffer = InputBuffer.empty

/-- The server ticks of a run never go back. -/
def ticksFrom : ℤ → List Call → Bool
  | _, [] => true
  | now, .admitInput _ _ tick _ :: rest => decide (now ≤ tick) && ticksFrom tick rest
  | now, .runInputPass tick _ :: rest => decide (now ≤ tick) && ticksFrom tick rest
  | now, .abandonStale _ tick _ :: rest => decide (now ≤ tick) && ticksFrom tick rest
  | now, .noteTraffic _ tick :: rest => decide (now ≤ tick) && ticksFrom tick rest
  | now, .join _ _ tick :: rest => decide (now ≤ tick) && ticksFrom tick rest
  | now, .takeAck _ :: rest | now, .dropSession _ :: rest | now, .refill _ _ :: rest | now, .takeToken _ :: rest
  | now, .release _ :: rest => ticksFrom now rest

/-- **The ack stays behind the waiting input.**  In every state a run reaches whose calls
abandon no waiting seq, every waiting frame's seq is above its session's `ackSeq`. -/
theorem waiting_above_ackSeq (w : InputWorld) (hw : w.Fresh) (calls : List Call)
    (hcalls : Meets step SparesWaiting w calls) :
    ∀ e ∈ (exec step w calls).buffer.waiting,
      ((exec step w calls).sessions e.session).admission.ackSeq < e.frame.seq := by
  have hinit : w.AckBehind := by
    unfold AckBehind
    rw [hw.buffer]
    exact ⟨List.nodup_nil, fun e he => by cases he⟩
  have hrun : (exec step w calls).AckBehind := hcalls.invariant ackBehind_step hinit
  exact fun e he => (hrun.ahead e he).above

/-- One joined session and nothing arrived. -/
def oneSession : InputWorld where
  sessions := fun _ => { Session.new "conn-1" none 0 with player := some ⟨"conn-1", 0, "player"⟩ }
  live := [0]
  buffer := InputBuffer.empty

theorem oneSession_fresh : oneSession.Fresh := ⟨fun _ => rfl, rfl⟩

/-- Frame `1` skips `0` and is refused, frame `0` then arrives for tick `5`. -/
def lateGap : List Call :=
  [.admitInput 0 ⟨-1000, 1, []⟩ 0 60, .admitInput 0 ⟨5, 0, []⟩ 0 60, .runInputPass 1 60,
    .abandonStale 0 1 (pastGraceTicks 60), .takeAck 0]

/-- The ack reports `1` while frame `0` waits for its tick. -/
theorem waiting_below_ackSeq :
    oneSession.Fresh ∧ ticksFrom 0 lateGap = true ∧
      ∃ e ∈ (exec step oneSession lateGap).buffer.waiting,
        ¬ ((exec step oneSession lateGap).sessions e.session).admission.ackSeq < e.frame.seq := by
  refine ⟨oneSession_fresh, by decide, ⟨0, ⟨5, 0, []⟩⟩, ?_, ?_⟩
  · decide +kernel
  · decide +kernel

/-- A frame in order, and the frame after it waiting for a later tick. -/
def inOrder : List Call :=
  [.admitInput 0 ⟨1, 0, []⟩ 0 60, .admitInput 0 ⟨5, 1, []⟩ 0 60, .runInputPass 1 60,
    .abandonStale 0 1 (pastGraceTicks 60), .takeAck 0]

theorem waiting_above_ackSeq_inOrder :
    (exec step oneSession inOrder).buffer.waiting = [⟨0, ⟨5, 1, []⟩⟩] ∧
      ((exec step oneSession inOrder).sessions 0).admission.ackSeq = 0 ∧
      ∀ e ∈ (exec step oneSession inOrder).buffer.waiting,
        ((exec step oneSession inOrder).sessions e.session).admission.ackSeq < e.frame.seq :=
  ⟨by decide +kernel, by decide +kernel,
    waiting_above_ackSeq oneSession oneSession_fresh inOrder (by decide +kernel)⟩

end InputWorld

end Grove
