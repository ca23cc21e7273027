import Grove.Client.Uplink
import Grove.Sim.Session

/-! # What the client holds

The client's held actions against the codes that are down, and against the frames it has sent.  The
binding table takes in every device event; the edges it answers with are dropped while input is
refused, a frame carries them coalesced, and a resync leaves out what was still pending.  `Steady`
is the run in which none of this loses an edge, and `holding_step` what each call of such a run
keeps. -/

namespace Grove

/-- The input frames among what was sent. -/
def inputFrames (sent : List ClientToServer) : List InputFrame :=
  sent.filterMap (fun
    | .input frame => some frame
    | .joinRequest _ | .interaction .. | .request .. | .timeSync _ => none)

namespace Uplink

/-- The edges make a frame that says what they say, not stamped behind an earlier one, and bring no
more names than the server admits. -/
structure Frames (sent : List ClientToServer) (tick : ℤ) (edges : List ResolvedEdge) : Prop where
  settles : Settles edges
  forward : ∀ frame ∈ inputFrames sent, frame.tick ≤ tick
  names : ((edgesOf (inputFrames sent) ++ edges).map InputAction.action).dedup.length ≤ maxActionNames

/-- The call loses no press and no release. -/
def Steady (c : Uplink) : Call → Prop
  | .onRaw event viewport => c.lifecycle ≠ .failed → ¬ c.bindings.Shared event ∧
      if event = .focusLost then
        match c.clock with
        | none => Sampled (c.bindings.resolve viewport event).2
        | some clock => (c.bindings.resolve viewport event).2 ≠ [] →
            Frames c.sent clock.localTick (c.pending ++ (c.bindings.resolve viewport event).2)
      else c.lifecycle ≠ .live → Sampled (c.bindings.resolve viewport event).2
  | .advance ticks _ => ∀ clock ∈ c.clock, c.lifecycle ≠ .failed →
      if c.lifecycle = .live then ticks ≠ 0 → c.pending ≠ [] → Frames c.sent (clock.localTick + ticks) c.pending
      else Sampled c.pending
  | .onRateChange => c.clock.isSome → Sampled c.pending
  | .checkNotBehind depictedTick => ∀ clock ∈ c.clock, c.lifecycle = .live ∨ c.lifecycle = .stalled →
      clock.localTick < depictedTick → Sampled c.pending
  | _ => True

/-- What is held and what is pending, against the codes that are down and the frames sent. -/
structure Holding (bindings : List Binding) (device : List String) (c : Uplink) : Prop where
  table : c.bindings.bindings = bindings
  down : c.lifecycle ≠ .failed → c.bindings.down = device
  driven : heldAfter c.pending c.actions.heldSet = BindingTable.drivenBy bindings c.bindings.down
  sent : heldAfter (edgesOf (inputFrames c.sent)) ∅ = c.actions.heldSet
  still : c.clock = none → Sampled c.pending
  joined : c.clock.isSome → c.rejoined = false
  clocked : c.lifecycle = .live ∨ c.lifecycle = .stalled → c.clock.isSome
  seqs : ∀ frame ∈ inputFrames c.sent, frame.seq < c.seq
  ordered : (inputFrames c.sent).Pairwise (fun f g => f.seq < g.seq ∧ f.tick ≤ g.tick)
  names : ((edgesOf (inputFrames c.sent)).map InputAction.action).dedup.length ≤ maxActionNames

section holding
variable {bindings : List Binding} {device : List String} {c : Uplink}

theorem inputFrames_append (sent sent' : List ClientToServer) :
    inputFrames (sent ++ sent') = inputFrames sent ++ inputFrames sent' := List.filterMap_append

theorem holding_start (bindings : List Binding) : Holding bindings [] (start bindings) where
  table := rfl
  down := fun _ => rfl
  driven := by
    ext a
    constructor
    · rintro ⟨⟩
    · rintro ⟨code, hcode, -⟩
      cases hcode
  sent := by
    ext a
    exact ⟨nofun, nofun⟩
  still := fun _ => nofun
  joined := nofun
  clocked := by
    rintro (h | h) <;> cases h
  seqs := nofun
  ordered := List.Pairwise.nil
  names := Nat.zero_le _

/-- Calls that touch neither the device nor what is held, pending or sent. -/
theorem Holding.congr {c' : Uplink} (h : Holding bindings device c) (hlifecycle : c'.lifecycle = c.lifecycle)
    (hbindings : c'.bindings.bindings = c.bindings.bindings) (hdown : c'.bindings.down = c.bindings.down)
    (hpending : c'.pending = c.pending) (hactions : c'.actions.heldSet = c.actions.heldSet)
    (hsent : inputFrames c'.sent = inputFrames c.sent) (hclock : c'.clock.isSome = c.clock.isSome)
    (hrejoined : c'.rejoined = c.rejoined) (hseq : c'.seq = c.seq) : Holding bindings device c' := by
  obtain ⟨h1, h2, h3, h4, h5, h6, h7, h8, h9, h10⟩ := h
  refine ⟨hbindings.trans h1, fun hf => hdown.trans (h2 (hlifecycle ▸ hf)), ?_, ?_, ?_, ?_, ?_, ?_, ?_, ?_⟩
  · rw [hpending, hactions, hdown]
    exact h3
  · rw [hsent, hactions]
    exact h4
  · intro hnone
    rw [hpending]
    refine h5 (Option.isNone_iff_eq_none.mp ?_)
    rw [← Option.not_isSome, ← hclock, hnone]
    rfl
  · rw [hclock, hrejoined]
    exact h6
  · rw [hlifecycle, hclock]
    exact h7
  · rw [hsent, hseq]
    exact h8
  · rw [hsent]
    exact h9
  · rw [hsent]
    exact h10

theorem Holding.lifecycle (h : Holding bindings device c) {state : SessionState}
    (hfailed : state ≠ .failed → c.lifecycle ≠ .failed) (hclocked : state = .live ∨ state = .stalled → c.clock.isSome) :
    Holding bindings device { c with lifecycle := state } :=
  ⟨h.table, fun hf => h.down (hfailed hf), h.driven, h.sent, h.still, h.joined, hclocked, h.seqs, h.ordered, h.names⟩

theorem Holding.moveTo (h : Holding bindings device c) {state : SessionState}
    (hclocked : state = .live ∨ state = .stalled → c.clock.isSome) : Holding bindings device (c.moveTo state) := by
  unfold Uplink.moveTo
  split
  · exact h
  · rename_i hterminal
    refine h.lifecycle (fun _ hfailed => hterminal ?_) hclocked
    rw [hfailed]
    rfl

/-- The pending edges framed: what they said is now held, and what the frames say. -/
theorem Holding.frameInput (h : Holding bindings device c) {clock : ClientClock} (hclock : c.clock = some clock) {tick : ℤ}
    (hframes : Frames c.sent tick c.pending) : Holding bindings device (c.frameInput clock tick) := by
  have hsent : inputFrames (c.frameInput clock tick).sent = inputFrames c.sent ++ [⟨tick, c.seq, coalesce c.pending⟩] :=
    inputFrames_append _ _
  have hheld : (c.frameInput clock tick).actions.heldSet = heldAfter c.pending c.actions.heldSet :=
    heldSet_foldl c.pending c.actions.advanceTick
  have hedges : edgesOf (inputFrames c.sent ++ [⟨tick, c.seq, coalesce c.pending⟩]) =
      edgesOf (inputFrames c.sent) ++ coalesce c.pending := by
    rw [edgesOf_append]
    simp [edgesOf]
  refine ⟨h.table, h.down, ?_, ?_, ?_, ?_, h.clocked, ?_, ?_, ?_⟩
  · exact hheld.trans h.driven
  · rw [hsent, hedges, heldAfter_append, h.sent, heldAfter_coalesce hframes.settles, hheld]
  · exact fun hnone => absurd (hclock.symm.trans hnone) nofun
  · exact h.joined
  · rw [hsent]
    intro frame hframe
    rcases List.mem_append.mp hframe with hframe | hframe
    · exact (h.seqs frame hframe).trans (Int.lt_succ _)
    · rw [List.mem_singleton.mp hframe]
      exact Int.lt_succ _
  · rw [hsent, List.pairwise_append]
    refine ⟨h.ordered, List.pairwise_singleton _ _, fun f hf g hg => ?_⟩
    rw [List.mem_singleton.mp hg]
    exact ⟨h.seqs f hf, hframes.forward f hf⟩
  · rw [hsent, hedges]
    refine le_trans ?_ hframes.names
    refine (List.Nodup.subperm (List.nodup_dedup _) (fun name hname => ?_)).length_le
    rw [List.mem_dedup, List.map_append, List.mem_append] at hname ⊢
    refine hname.imp_right (fun hname => ?_)
    obtain ⟨a, ha, rfl⟩ := List.mem_map.mp hname
    exact List.mem_map_of_mem (mem_coalesce ha)

/-- Dropping samples loses nothing. -/
theorem Holding.drop (h : Holding bindings device c) (hsampled : Sampled c.pending) :
    Holding bindings device { c with pending := [] } := by
  refine ⟨h.table, h.down, ?_, h.sent, fun _ => nofun, h.joined, h.clocked, h.seqs, h.ordered, h.names⟩
  exact (heldAfter_sampled hsampled c.actions.heldSet).symm.trans h.driven

theorem Holding.flushInput (h : Holding bindings device c) {tick : Option ℤ} {exempt : Bool}
    (hdrop : exempt = false → c.clock.isSome → c.lifecycle ≠ .live → Sampled c.pending)
    (hframes : (exempt = true ∨ c.lifecycle = .live) → c.clock.isSome → ∀ t ∈ tick, c.pending ≠ [] → Frames c.sent t c.pending) :
    Holding bindings device (c.flushInput tick exempt) := by
  rcases c.flushInput_cases tick exempt with ⟨-, heq⟩ | ⟨⟨clock, hclock⟩, hexempt, hlive, heq⟩ |
    ⟨clock, t, hclock, htick, hopen, ⟨-, heq⟩ | ⟨hpending, heq⟩⟩
  · rw [heq]
    exact h
  · rw [heq]
    exact h.drop (hdrop hexempt (by rw [hclock]; rfl) hlive)
  · rw [heq]
    exact h.congr rfl rfl rfl rfl rfl rfl rfl rfl rfl
  · rw [heq]
    exact h.frameInput hclock (hframes hopen (by rw [hclock]; rfl) t htick hpending)

/-- The table has taken the event in, and the edges it answered with are still to be heard of. -/
theorem Holding.resolved (h : Holding bindings device c) (event : RawInputEvent) (viewport : ViewportExtent)
    (hfailed : c.lifecycle ≠ .failed) (hshared : ¬ c.bindings.Shared event) {pending : List ResolvedEdge}
    (hpending : heldAfter (c.bindings.resolve viewport event).2 (heldAfter c.pending c.actions.heldSet) =
      heldAfter pending c.actions.heldSet) (hstill : c.clock = none → Sampled pending) :
    Holding bindings (event.device device)
      { c with bindings := (c.bindings.resolve viewport event).1, pending := pending } := by
  obtain ⟨hbindings, hdown, hheld⟩ := c.bindings.resolve_resolves viewport event
  refine ⟨hbindings.trans h.table, fun _ => hdown.trans (by rw [h.down hfailed]), ?_, h.sent, hstill, h.joined, h.clocked,
    h.seqs, h.ordered, h.names⟩
  refine hpending.symm.trans ?_
  rw [h.driven, ← h.table]
  exact hheld hshared

theorem Holding.onRaw (h : Holding bindings device c) {event : RawInputEvent} {viewport : ViewportExtent}
    (hfailed : c.lifecycle ≠ .failed) (hsteady : c.Steady (.onRaw event viewport)) :
    Holding bindings (event.device device) (c.onRaw event viewport) := by
  obtain ⟨hshared, hsteady⟩ := hsteady hfailed
  have hquiet : Sampled (c.bindings.resolve viewport event).2 → Holding bindings (event.device device)
      { c with bindings := (c.bindings.resolve viewport event).1 } := fun hsampled =>
    h.resolved event viewport hfailed hshared (heldAfter_sampled hsampled _) h.still
  have htaken : (c.clock = none → Sampled (c.bindings.resolve viewport event).2) → Holding bindings (event.device device)
      { c with
        bindings := (c.bindings.resolve viewport event).1
        pending := c.pending ++ (c.bindings.resolve viewport event).2 } := by
    intro hsampled
    refine h.resolved event viewport hfailed hshared (heldAfter_append _ _ _).symm (fun hnone e he => ?_)
    exact (List.mem_append.mp he).elim (h.still hnone e) (hsampled hnone e)
  rcases c.onRaw_cases event viewport with ⟨hnone, heq⟩ | ⟨hedges, rfl, heq⟩ | ⟨-, hfocus, hlive, heq⟩ |
    ⟨-, hfocus, hlive, heq⟩
  · rw [heq]
    exact hquiet (by rw [hnone]; nofun)
  · rw [heq]
    rw [if_pos rfl] at hsteady
    refine (htaken (fun hnone => ?_)).flushInput (fun hfalse => by cases hfalse) ?_
    · rw [hnone] at hsteady
      exact hsteady
    · intro _ _ t ht _
      obtain ⟨clock, hclock, rfl⟩ := Option.map_eq_some_iff.mp ht
      rw [hclock] at hsteady
      exact hsteady hedges
  · rw [heq]
    rw [if_neg hfocus] at hsteady
    exact hquiet (hsteady hlive)
  · rw [heq]
    refine htaken (fun hnone => ?_)
    have hsome := h.clocked (Or.inl hlive)
    rw [hnone] at hsome
    cases hsome

/-- Handing over a frame that is no input. -/
theorem Holding.sendOther (h : Holding bindings device c) {c' : Uplink} {e : ClientToServer} (he : inputFrames [e] = [])
    (hc : c' = { c with interactions := c'.interactions, requests := c'.requests, sent := c.sent ++ [e] }) :
    Holding bindings device c' := by
  rw [hc]
  refine h.congr rfl rfl rfl rfl rfl ?_ rfl rfl rfl
  show inputFrames (c.sent ++ [e]) = inputFrames c.sent
  rw [inputFrames_append, he, List.append_nil]

theorem Holding.flushInteractions (h : Holding bindings device c) : Holding bindings device c.flushInteractions := by
  unfold Uplink.flushInteractions
  split
  · exact h
  · split_ifs
    · exact h
    · exact h.congr rfl rfl rfl rfl rfl rfl rfl rfl rfl
    · exact h.sendOther rfl rfl

theorem Holding.flushRequests (h : Holding bindings device c) : Holding bindings device c.flushRequests := by
  unfold Uplink.flushRequests
  split
  · exact h
  · split_ifs
    · exact h
    · exact h.congr rfl rfl rfl rfl rfl rfl rfl rfl rfl
    · exact h.sendOther rfl rfl

theorem Holding.advance (h : Holding bindings device c) {ticks : ℕ} {lead : ℚ}
    (hsteady : c.Steady (.advance ticks lead)) : Holding bindings device (c.advance ticks lead) := by
  unfold Uplink.advance
  cases hclock : c.clock with
  | none => exact h
  | some clock =>
    by_cases hfailed : c.lifecycle = .failed
    · simp only [if_pos hfailed]
      exact h
    · simp only [if_neg hfailed]
      have hsteady := hsteady clock hclock hfailed
      have hticked : Holding bindings device { c with
          clock := some { clock with localTick := clock.localTick + ticks, currentLeadTicks := lead } } :=
        h.congr rfl rfl rfl rfl rfl rfl (by rw [hclock]; rfl) rfl rfl
      refine (hticked.flushInput ?_ ?_).flushInteractions.flushRequests
      · rintro - - hlive
        rw [if_neg hlive] at hsteady
        exact hsteady
      · rintro (hfalse | hlive) - t ht hpending
        · cases hfalse
        · have hlive' : c.lifecycle = .live := hlive
          rw [if_pos hlive'] at hsteady
          by_cases hticks : ticks = 0
          · rw [if_pos hticks] at ht
            cases ht
          · rw [if_neg hticks] at ht
            cases ht
            exact hsteady hticks hpending

theorem Holding.resumeInput (h : Holding bindings device { c with rejoined := false }) (hopen : c.rejoined = true → Sampled c.pending)
    (hclock : c.clock.isSome) : Holding bindings device c.resumeInput := by
  have haxes : Sampled (c.actions.axisValues.map (fun e => (⟨e.1, .hold, some e.2⟩ : InputAction))) := by
    intro e he
    obtain ⟨v, -, rfl⟩ := List.mem_map.mp he
    rfl
  have hnone : ∀ pending, c.clock = none → Sampled pending := by
    intro pending hnone
    rw [hnone] at hclock
    cases hclock
  unfold Uplink.resumeInput
  simp only
  by_cases hrejoined : c.rejoined = true
  · rw [if_neg (by simp [hrejoined])]
    refine ⟨h.table, h.down, ?_, h.sent, hnone _, fun _ => rfl, h.clocked, h.seqs, h.ordered, h.names⟩
    -- what is pressed again was held, and nothing else was pending
    have hpresses : ∀ (l : List String) (held : Set String),
        heldAfter (l.map (fun action => ⟨action, .press, none⟩)) held = held ∪ {a | a ∈ l} := by
      intro l
      induction l with
      | nil => exact fun held => by simp
      | cons name l ih =>
        intro held
        rw [List.map_cons, heldAfter_cons, ih]
        ext a
        simp only [InputAction.held, Set.mem_union, Set.mem_insert_iff, Set.mem_ofPred_eq, List.mem_cons]
        tauto
    show heldAfter ((c.pending ++ _) ++ c.actions.heldActions.map (fun action => ⟨action, .press, none⟩))
      c.actions.heldSet = _
    rw [heldAfter_append, heldAfter_append, heldAfter_sampled haxes, hpresses, heldAfter_sampled (hopen hrejoined)]
    refine Eq.trans ?_ ((heldAfter_sampled (hopen hrejoined) _).symm.trans h.driven)
    exact Set.union_self _
  · rw [if_pos (by simpa using hrejoined)]
    refine ⟨h.table, h.down, ?_, h.sent, hnone _, fun _ => by simpa using hrejoined, h.clocked, h.seqs, h.ordered, h.names⟩
    show heldAfter (c.pending ++ _) c.actions.heldSet = _
    rw [heldAfter_append, heldAfter_sampled haxes]
    exact h.driven

theorem Holding.openSession (h : Holding bindings device c) (localTick : ℤ) (lead : ℚ) :
    Holding bindings device (c.openSession localTick lead) := by
  unfold Uplink.openSession
  by_cases hopen : c.lifecycle.isTerminal = true ∨ c.clock.isSome = true
  · rw [if_pos hopen]
    exact h
  · rw [if_neg hopen]
    rw [not_or] at hopen
    have hnone : c.clock = none := by simpa using hopen.2
    have hstill := h.still hnone
    have hmove : ({ c with clock := some ⟨localTick, lead, 0⟩ } : Uplink).moveTo .live =
        { c with clock := some ⟨localTick, lead, 0⟩, lifecycle := .live } := if_neg hopen.1
    rw [hmove]
    have hfailed : c.lifecycle ≠ .failed := by
      intro hfailed
      rw [hfailed] at hopen
      exact hopen.1 rfl
    have hopened : Holding bindings device
        { c with clock := some ⟨localTick, lead, 0⟩, lifecycle := .live, rejoined := false } :=
      ⟨h.table, fun _ => h.down hfailed, h.driven, h.sent, nofun, fun _ => rfl, fun _ => rfl, h.seqs, h.ordered, h.names⟩
    exact hopened.resumeInput (fun _ => h.still hnone) rfl

theorem Holding.resync (h : Holding bindings device c) (hsampled : Sampled c.pending) :
    Holding bindings device c.resync := by
  have hmoved : Holding bindings device (c.moveTo .resyncing) := h.moveTo (by rintro (h | h) <;> cases h)
  have hpending : (c.moveTo .resyncing).pending = c.pending := by
    unfold Uplink.moveTo
    split <;> rfl
  have hlifecycle : (c.moveTo .resyncing).lifecycle ≠ .live ∧ (c.moveTo .resyncing).lifecycle ≠ .stalled := by
    unfold Uplink.moveTo
    split
    · rename_i hterminal
      constructor
      all_goals
        intro heq
        rw [heq] at hterminal
        cases hterminal
    · exact ⟨nofun, nofun⟩
  refine ⟨hmoved.table, hmoved.down, ?_, hmoved.sent, fun _ => nofun, nofun, ?_, hmoved.seqs, hmoved.ordered,
    hmoved.names⟩
  · exact ((heldAfter_sampled (hpending ▸ hsampled) _).symm.trans hmoved.driven)
  · rintro (heq | heq)
    · exact absurd heq hlifecycle.1
    · exact absurd heq hlifecycle.2

theorem Holding.stall (h : Holding bindings device c) (hclock : c.clock.isSome) : Holding bindings device c.stall := by
  unfold Uplink.stall
  split
  · exact h
  · have hmoved : Holding bindings device (c.moveTo .stalled) := h.moveTo (fun _ => hclock)
    refine hmoved.congr rfl rfl rfl rfl rfl rfl ?_ rfl rfl
    simp

theorem Holding.checkLiveness (h : Holding bindings device c) (drought overdue : Bool) :
    Holding bindings device (c.checkLiveness drought overdue) := by
  unfold Uplink.checkLiveness
  by_cases hidle : c.clock.isNone = true ∨ (c.lifecycle ≠ .live ∧ c.lifecycle ≠ .stalled)
  · rw [if_pos hidle]
    exact h
  · rw [if_neg hidle]
    rw [not_or] at hidle
    have hclock : c.clock.isSome := Option.isSome_iff_ne_none.mpr (by simpa using hidle.1)
    split_ifs with hstall hstalled
    · exact h.stall hclock
    · have hmove : c.moveTo .live = { c with lifecycle := .live } := by
        unfold Uplink.moveTo
        rw [hstalled]
        rfl
      rw [hmove]
      have hlive : Holding bindings device { c with lifecycle := .live, rejoined := false } :=
        (h.lifecycle (fun _ hfailed => by rw [hfailed] at hstalled; cases hstalled) (fun _ => hclock)).congr
          rfl rfl rfl rfl rfl rfl rfl (h.joined hclock).symm rfl
      refine hlive.resumeInput (fun hrejoined => ?_) hclock
      have := h.joined hclock
      rw [show c.rejoined = true from hrejoined] at this
      cases this
    · exact h

/-- What the device reports after a call. -/
def Call.reported (codes : List String) : Call → List String
  | .onRaw event _ => event.device codes
  | _ => codes

/-- A steady call keeps what is held and pending in step with the device and with the frames. -/
theorem holding_step (h : Holding bindings device c) {call : Call} (hsteady : c.Steady call) :
    Holding bindings (call.reported device) (c.step call) := by
  cases call with
  | onRaw event viewport =>
    rw [step]
    by_cases hfailed : c.lifecycle = .failed
    · rw [if_pos hfailed]
      exact ⟨h.table, fun hf => absurd hfailed hf, h.driven, h.sent, h.still, h.joined, h.clocked, h.seqs, h.ordered,
        h.names⟩
    · rw [if_neg hfailed]
      exact h.onRaw hfailed hsteady
  | pressWidget widget screen =>
    rw [step]
    unfold pressWidget
    split
    · exact h
    · exact h.congr rfl rfl rfl rfl rfl rfl rfl rfl rfl
  | pointer edge net =>
    rw [step]
    unfold pointer
    split
    · exact h
    · split
      · exact h
      · exact h.congr rfl rfl rfl rfl rfl rfl rfl rfl rfl
  | queueRequest heap name payload =>
    rw [step]
    unfold queueRequest
    split
    · exact h
    · exact h.congr rfl rfl rfl rfl rfl rfl rfl rfl rfl
  | advance ticks lead => exact h.advance hsteady
  | load =>
    rw [step]
    split
    · exact h.moveTo (by rintro (h | h) <;> cases h)
    · exact h
  | openSession localTick lead => exact h.openSession localTick lead
  | onState ackSeq =>
    rw [step]
    unfold onState
    split
    · exact h
    · exact h.congr rfl rfl rfl rfl rfl rfl rfl rfl rfl
  | onRateChange =>
    rw [step]
    unfold onRateChange
    split
    · exact h
    · rename_i hclock
      exact h.resync (hsteady (Option.isSome_iff_ne_none.mpr (by simpa using hclock)))
  | checkNotBehind depictedTick =>
    rw [step]
    unfold checkNotBehind
    split
    · exact h
    · rename_i clock hclock
      split_ifs with hidle hbehind
      · exact h
      · refine h.resync (hsteady clock hclock ?_ hbehind)
        rw [not_and_or, not_not, not_not] at hidle
        exact hidle
      · exact h
  | checkLiveness drought overdue => exact h.checkLiveness drought overdue
  | disconnect => exact h.moveTo (by rintro (h | h) <;> cases h)
  | fail => exact h.lifecycle (fun hf => absurd rfl hf) (by rintro (h | h) <;> cases h)

end holding

end Uplink
end Grove
