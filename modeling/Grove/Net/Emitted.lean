import Grove.Client.Uplink
import Grove.Lib.Run
import Grove.Sim.Narrow

/-! # What the client emits, the server accepts

The flushes of the client against the narrowing of the server.  Requests go out in frames of as
many as the server takes, and `requestFields` keeps their keys clean; what no side of the client
bounds is how many actions and interactions one frame carries, how long a name is and how many
values a payload holds.  `emitted_accepted` says that these are all: every frame of a run is
accepted exactly when each flush finds its queue within the server's bounds. -/

namespace Grove
namespace Uplink

/-! ### The bounds a flush has to keep -/

/-- What is pending makes a frame within the server's bounds. -/
structure InputFits (tick seq : ℤ) (edges : List ResolvedEdge) : Prop where
  tick : SafeInteger tick
  seq : SafeInteger seq
  actions : (edges.map (fun e => (e.action, e.on))).dedup.length ≤ maxActionsPerFrame
  names : ∀ e ∈ edges, boundedName maxActionNameLength e.action = true

structure InteractionsFit (tick : ℤ) (events : List Interaction) : Prop where
  tick : SafeInteger tick
  length : events.length ≤ maxInteractionsPerFrame
  each : ∀ i ∈ events, i.Fits

/-- How many there are does not matter: the rest waits. -/
structure RequestsFit (tick : ℤ) (requests : List GameRequest) : Prop where
  tick : SafeInteger tick
  each : ∀ r ∈ requests.take maxRequestsPerFrame, r.Fits

theorem accepted_frame (tick seq : ℤ) (edges : List ResolvedEdge) :
    (ClientToServer.input ⟨tick, seq, coalesce edges⟩).Accepted ↔ InputFits tick seq edges := by
  rw [accepted_input, length_coalesce]
  constructor
  · rintro ⟨htick, hseq, hlength, hnames⟩
    refine ⟨htick, hseq, hlength, fun e he => ?_⟩
    obtain ⟨a, ha, haction, -⟩ := exists_coalesce he
    rw [← haction]
    exact hnames a ha
  · rintro ⟨htick, hseq, hlength, hnames⟩
    exact ⟨htick, hseq, hlength, fun a ha => hnames a (mem_coalesce ha)⟩

/-! ### What each flush hands over -/

variable (c : Uplink)

/-- What is handed over is accepted exactly where `cond` holds. -/
def Hands (sent sent' : List ClientToServer) (cond : Prop) : Prop :=
  ∃ new, sent' = sent ++ new ∧ ((∀ e ∈ new, e.Accepted) ↔ cond)

theorem Hands.none {sent : List ClientToServer} {cond : Prop} (h : cond) : Hands sent sent cond :=
  ⟨[], (List.append_nil _).symm, by simp [h]⟩

theorem Hands.one {sent : List ClientToServer} {e : ClientToServer} {cond : Prop} (h : e.Accepted ↔ cond) :
    Hands sent (sent ++ [e]) cond := ⟨[e], rfl, by simp [h]⟩

theorem Hands.trans {sent sent' sent'' : List ClientToServer} {cond cond' : Prop} (h : Hands sent sent' cond)
    (h' : Hands sent' sent'' cond') : Hands sent sent'' (cond ∧ cond') := by
  obtain ⟨new, rfl, hnew⟩ := h
  obtain ⟨new', rfl, hnew'⟩ := h'
  refine ⟨new ++ new', List.append_assoc _ _ _, ?_⟩
  rw [← hnew, ← hnew', List.forall_mem_append]

theorem Hands.congr {sent sent' : List ClientToServer} {cond cond' : Prop} (h : Hands sent sent' cond)
    (hcond : cond ↔ cond') : Hands sent sent' cond' := by
  obtain ⟨new, hsent, hnew⟩ := h
  exact ⟨new, hsent, hnew.trans hcond⟩

/-- No queued payload has a reserved key. -/
def Unreserved (c : Uplink) : Prop := ∀ r ∈ c.requests, r.Unreserved

/-- What a flush of input leaves alone. -/
structure SameQueues (c c' : Uplink) : Prop where
  clock : c'.clock = c.clock
  lifecycle : c'.lifecycle = c.lifecycle
  interactions : c'.interactions = c.interactions
  requests : c'.requests = c.requests

theorem hands_flushInput (tick : Option ℤ) (exempt : Bool) :
    Hands c.sent (c.flushInput tick exempt).sent (c.clock.isSome → (exempt = true ∨ c.lifecycle = .live) →
      ∀ t ∈ tick, c.pending ≠ [] → InputFits t c.seq c.pending) ∧ SameQueues c (c.flushInput tick exempt) := by
  rcases c.flushInput_cases tick exempt with ⟨hnone, heq⟩ | ⟨-, hexempt, hlive, heq⟩ | ⟨clock, t, hclock, rfl, hopen, hc⟩
  · rw [heq]
    refine ⟨Hands.none ?_, rfl, rfl, rfl, rfl⟩
    rintro hsome - t rfl
    rcases hnone with hnone | hnone
    · rw [hnone] at hsome
      cases hsome
    · cases hnone
  · rw [heq]
    refine ⟨Hands.none ?_, rfl, rfl, rfl, rfl⟩
    rintro - (h | h)
    · rw [h] at hexempt
      cases hexempt
    · exact absurd h hlive
  · rcases hc with ⟨hpending, heq⟩ | ⟨hpending, heq⟩
    · rw [heq]
      exact ⟨Hands.none (fun _ _ t _ hne => absurd hpending hne), rfl, rfl, rfl, rfl⟩
    · rw [heq]
      refine ⟨(Hands.one (accepted_frame t c.seq c.pending)).congr ⟨?_, ?_⟩, rfl, rfl, rfl, rfl⟩
      · rintro h - - t' ht' -
        cases ht'
        exact h
      · intro h
        exact h (by rw [hclock]; rfl) hopen t rfl hpending

theorem hands_flushInteractions : Hands c.sent c.flushInteractions.sent (∀ clock ∈ c.clock, c.lifecycle = .live →
      c.interactions ≠ [] → InteractionsFit clock.localTick c.interactions) ∧
    c.flushInteractions.clock = c.clock ∧ c.flushInteractions.lifecycle = c.lifecycle ∧
      c.flushInteractions.requests = c.requests := by
  unfold flushInteractions
  cases hclock : c.clock with
  | none => exact ⟨Hands.none (by simp), hclock, rfl, rfl⟩
  | some clock =>
    simp only [SessionState.acceptsInput, Bool.not_eq_true', decide_eq_false_iff_not]
    by_cases hempty : c.interactions = []
    · rw [if_pos hempty]
      exact ⟨Hands.none (fun _ _ _ h => absurd hempty h), hclock, rfl, rfl⟩
    · rw [if_neg hempty]
      by_cases hlive : c.lifecycle = .live
      · rw [if_neg (not_not.mpr hlive)]
        refine ⟨(Hands.one (accepted_interaction clock.localTick c.interactions)).congr ⟨?_, ?_⟩, rfl, rfl, rfl⟩
        · rintro ⟨htick, hlength, heach⟩ clock' hclock' - -
          cases hclock'
          exact ⟨htick, hlength, heach⟩
        · intro h
          obtain ⟨htick, hlength, heach⟩ := h clock rfl hlive hempty
          exact ⟨htick, hlength, heach⟩
      · rw [if_pos hlive]
        exact ⟨Hands.none (fun _ _ h => absurd h hlive), rfl, rfl, rfl⟩

theorem hands_flushRequests (hclean : c.Unreserved) : Hands c.sent c.flushRequests.sent (∀ clock ∈ c.clock,
      c.lifecycle = .live → c.requests ≠ [] → RequestsFit clock.localTick c.requests) ∧ c.flushRequests.Unreserved := by
  unfold flushRequests
  cases hclock : c.clock with
  | none => exact ⟨Hands.none (by simp), hclean⟩
  | some clock =>
    simp only [SessionState.acceptsInput, Bool.not_eq_true', decide_eq_false_iff_not]
    by_cases hempty : c.requests = []
    · rw [if_pos hempty]
      exact ⟨Hands.none (fun _ _ _ h => absurd hempty h), hclean⟩
    · rw [if_neg hempty]
      by_cases hlive : c.lifecycle = .live
      · rw [if_neg (not_not.mpr hlive)]
        have hfirst : ∀ r ∈ c.requests.take requestsPerFrame, r.Unreserved := fun r hr => hclean r (List.mem_of_mem_take hr)
        refine ⟨(Hands.one (accepted_request hfirst)).congr ⟨?_, ?_⟩, fun r hr => hclean r (List.mem_of_mem_drop hr)⟩
        · rintro ⟨htick, -, heach⟩ clock' hclock' - -
          cases hclock'
          exact ⟨htick, heach⟩
        · intro h
          obtain ⟨htick, heach⟩ := h clock rfl hlive hempty
          exact ⟨htick, List.length_take_le _ _, heach⟩
      · rw [if_pos hlive]
        refine ⟨Hands.none (fun _ _ h => absurd h hlive), ?_⟩
        rintro r ⟨⟩

/-! ### Runs -/

/-- Each flush the call makes finds its queue within the server's bounds. -/
def Fits (c : Uplink) : Call → Prop
  | .onRaw .focusLost viewport => c.lifecycle ≠ .failed → ∀ clock ∈ c.clock,
      (c.bindings.resolve viewport .focusLost).2 ≠ [] →
        InputFits clock.localTick c.seq (c.pending ++ (c.bindings.resolve viewport .focusLost).2)
  | .advance ticks _ => ∀ clock ∈ c.clock, c.lifecycle = .live →
      (ticks ≠ 0 → c.pending ≠ [] → InputFits (clock.localTick + ticks) c.seq c.pending) ∧
        (c.interactions ≠ [] → InteractionsFit (clock.localTick + ticks) c.interactions) ∧
          (c.requests ≠ [] → RequestsFit (clock.localTick + ticks) c.requests)
  | _ => True

/-- A call that hands nothing over and queues nothing. -/
theorem hands_quiet {c c' : Uplink} (hclean : c.Unreserved) (hsent : c'.sent = c.sent)
    (hrequests : ∀ r ∈ c'.requests, r ∈ c.requests) : Hands c.sent c'.sent True ∧ c'.Unreserved := by
  rw [hsent]
  exact ⟨Hands.none trivial, fun r hr => hclean r (hrequests r hr)⟩

theorem hands_onRaw (hclean : c.Unreserved) (hfailed : c.lifecycle ≠ .failed) (event : RawInputEvent)
    (viewport : ViewportExtent) : Hands c.sent (c.onRaw event viewport).sent (c.Fits (.onRaw event viewport)) ∧
      (c.onRaw event viewport).Unreserved := by
  have hother : event ≠ .focusLost → c.Fits (.onRaw event viewport) := by
    intro h
    cases event with
    | focusLost => exact absurd rfl h
    | _ => trivial
  rcases c.onRaw_cases event viewport with ⟨hnone, heq⟩ | ⟨hedges, rfl, heq⟩ | ⟨-, hfocus, -, heq⟩ | ⟨-, hfocus, -, heq⟩
  · rw [heq]
    refine ⟨Hands.none ?_, hclean⟩
    by_cases hfocus : event = .focusLost
    · subst hfocus
      exact fun _ clock _ hne => absurd hnone hne
    · exact hother hfocus
  · rw [heq]
    obtain ⟨hhands, hsame⟩ := hands_flushInput { c with
      bindings := (c.bindings.resolve viewport .focusLost).1
      pending := c.pending ++ (c.bindings.resolve viewport .focusLost).2 } (c.clock.map ClientClock.localTick) true
    refine ⟨hhands.congr ⟨?_, ?_⟩, ?_⟩
    · intro h _ clock hclock _
      have hclock' : c.clock = some clock := hclock
      refine h (by rw [hclock']; rfl) (Or.inl rfl) clock.localTick (by rw [hclock']; rfl) ?_
      exact fun hempty => hedges (List.append_eq_nil_iff.mp hempty).2
    · intro h _ _ t ht _
      obtain ⟨clock, hclock, rfl⟩ := Option.map_eq_some_iff.mp ht
      exact h hfailed clock hclock hedges
    · intro r hr
      rw [hsame.requests] at hr
      exact hclean r hr
  · rw [heq]
    exact ⟨Hands.none (hother hfocus), hclean⟩
  · rw [heq]
    exact ⟨Hands.none (hother hfocus), hclean⟩

theorem hands_advance (hclean : c.Unreserved) (ticks : ℕ) (lead : ℚ) :
    Hands c.sent (c.advance ticks lead).sent (c.Fits (.advance ticks lead)) ∧ (c.advance ticks lead).Unreserved := by
  unfold advance
  cases hclock : c.clock with
  | none => exact ⟨Hands.none (fun clock hsome => absurd (hclock ▸ hsome) nofun), hclean⟩
  | some clock =>
    by_cases hfailed : c.lifecycle = .failed
    · simp only [if_pos hfailed]
      refine ⟨Hands.none (fun _ _ hlive => ?_), hclean⟩
      rw [hfailed] at hlive
      cases hlive
    · simp only [if_neg hfailed]
      set c₁ : Uplink := { c with
        clock := some { clock with localTick := clock.localTick + ticks, currentLeadTicks := lead } } with hc₁
      set tick : Option ℤ := if ticks = 0 then none else some (clock.localTick + ticks) with htick
      obtain ⟨hinput, hsame⟩ := hands_flushInput c₁ tick false
      set c₂ := c₁.flushInput tick false
      obtain ⟨hinter, hclock₂, hlife₂, hreq₂⟩ := hands_flushInteractions c₂
      set c₃ := c₂.flushInteractions
      have hclean₃ : c₃.Unreserved := by
        intro r hr
        rw [hreq₂, hsame.requests] at hr
        exact hclean r hr
      obtain ⟨hrequest, hclean₄⟩ := hands_flushRequests c₃ hclean₃
      refine ⟨((hinput.trans hinter).trans hrequest).congr ?_, hclean₄⟩
      rw [hclock₂, hlife₂, hreq₂, hsame.clock, hsame.lifecycle, hsame.interactions, hsame.requests]
      constructor
      · rintro ⟨⟨hin, hint⟩, hreq⟩ clock' hclock' hlive
        have : clock' = clock := Option.some.inj (hclock'.symm.trans hclock)
        subst this
        refine ⟨fun hticks hpending => ?_, hint _ rfl hlive, hreq _ rfl hlive⟩
        exact hin rfl (Or.inr hlive) _ (by rw [htick, if_neg hticks]; rfl) hpending
      · intro h
        refine ⟨⟨?_, ?_⟩, ?_⟩
        · rintro - (hfalse | hlive) t ht hpending
          · cases hfalse
          · by_cases hticks : ticks = 0
            · rw [htick, if_pos hticks] at ht
              cases ht
            · rw [htick, if_neg hticks] at ht
              cases ht
              exact (h clock hclock hlive).1 hticks hpending
        · rintro clock' hclock' hlive
          cases hclock'
          exact (h clock hclock hlive).2.1
        · rintro clock' hclock' hlive
          cases hclock'
          exact (h clock hclock hlive).2.2

/-- What a call hands over is accepted exactly when it finds the queues within bounds. -/
theorem hands_step (hclean : c.Unreserved) (call : Call) :
    Hands c.sent (c.step call).sent (c.Fits call) ∧ (c.step call).Unreserved := by
  have hmove : ∀ state, (c.moveTo state).sent = c.sent ∧ (c.moveTo state).requests = c.requests := by
    intro state
    unfold moveTo
    split <;> exact ⟨rfl, rfl⟩
  have hresume : ∀ d : Uplink, d.resumeInput.sent = d.sent ∧ d.resumeInput.requests = d.requests := by
    intro d
    unfold resumeInput
    simp only
    split <;> exact ⟨rfl, rfl⟩
  have hlive : ∀ d : Uplink, (d.moveTo .live).resumeInput.sent = d.sent ∧
      (d.moveTo .live).resumeInput.requests = d.requests := by
    intro d
    rw [(hresume _).1, (hresume _).2]
    unfold moveTo
    split <;> exact ⟨rfl, rfl⟩
  have hsame : ∀ {c' : Uplink}, c'.sent = c.sent → c'.requests = c.requests →
      Hands c.sent c'.sent True ∧ c'.Unreserved := fun hsent hrequests => hands_quiet hclean hsent fun _ hr => hrequests ▸ hr
  have hresync : Hands c.sent c.resync.sent True ∧ c.resync.Unreserved :=
    hands_quiet hclean (hmove .resyncing).1 nofun
  cases call with
  | onRaw event viewport =>
    rw [step]
    by_cases hfailed : c.lifecycle = .failed
    · rw [if_pos hfailed]
      refine ⟨Hands.none ?_, hclean⟩
      cases event with
      | focusLost => exact fun h => absurd hfailed h
      | _ => trivial
    · rw [if_neg hfailed]
      exact c.hands_onRaw hclean hfailed event viewport
  | advance ticks lead => exact c.hands_advance hclean ticks lead
  | pressWidget widget screen =>
    rw [step]
    unfold pressWidget
    split <;> exact hsame rfl rfl
  | pointer edge net =>
    rw [step]
    unfold pointer
    split
    · exact hsame rfl rfl
    · split <;> exact hsame rfl rfl
  | queueRequest heap name payload =>
    rw [step]
    unfold queueRequest
    split
    · exact hsame rfl rfl
    · refine ⟨Hands.none trivial, ?_⟩
      intro r hr
      rcases List.mem_append.mp hr with hr | hr
      · exact hclean r hr
      · obtain rfl := List.mem_singleton.mp hr
        intro data hdata
        obtain ⟨fields, -, rfl⟩ := Option.map_eq_some_iff.mp hdata
        exact unreserved_requestFields heap fields
  | load =>
    rw [step]
    split
    · exact hsame (hmove _).1 (hmove _).2
    · exact hsame rfl rfl
  | openSession localTick lead =>
    rw [step]
    unfold openSession
    split
    · exact hsame rfl rfl
    · exact hsame (hlive _).1 (hlive _).2
  | onState ackSeq =>
    rw [step]
    unfold onState
    split <;> exact hsame rfl rfl
  | onRateChange =>
    rw [step]
    unfold onRateChange
    split
    · exact hsame rfl rfl
    · exact hresync
  | checkNotBehind depictedTick =>
    rw [step]
    unfold checkNotBehind
    split
    · exact hsame rfl rfl
    · split_ifs
      · exact hsame rfl rfl
      · exact hresync
      · exact hsame rfl rfl
  | checkLiveness drought overdue =>
    rw [step]
    unfold checkLiveness
    split_ifs
    · exact hsame rfl rfl
    · unfold stall
      split
      · exact hsame rfl rfl
      · exact hsame (hmove _).1 (hmove _).2
    · exact hsame (hlive c).1 (hlive c).2
    · exact hsame rfl rfl
  | disconnect => exact hsame (hmove _).1 (hmove _).2
  | fail => exact hsame rfl rfl

theorem accepted_run (calls : List Call) : ∀ c : Uplink, c.Unreserved →
    ((∀ e ∈ (exec step c calls).sent, e.Accepted) ↔ (∀ e ∈ c.sent, e.Accepted) ∧ Meets step Fits c calls) := by
  induction calls with
  | nil => exact fun c _ => by simp [Meets]
  | cons call calls ih =>
    intro c hclean
    obtain ⟨⟨new, hsent, hnew⟩, hclean'⟩ := c.hands_step hclean call
    rw [exec_cons, ih _ hclean', hsent, List.forall_mem_append, hnew, Meets, and_assoc]

/-- Every frame of every run is accepted as it was sent, exactly when each flush of the run finds its
queue within the server's bounds. -/
theorem emitted_accepted (bindings : List Binding) (calls : List Call) :
    (∀ e ∈ (exec step (start bindings) calls).sent, e.Accepted) ↔ Meets step Fits (start bindings) calls := by
  rw [accepted_run calls (start bindings) nofun]
  simp [start]

/-- Seventeen presses of one HUD widget within one frame. -/
def burst : List Call :=
  .openSession 0 0 :: (List.replicate 17 (.pressWidget "fire" none) ++ [.advance 1 0])

/-- The frame they are sent in is refused whole. -/
theorem burst_refused : ¬ ∀ (bindings : List Binding) (calls : List Call),
    ∀ e ∈ (exec step (start bindings) calls).sent, e.Accepted := by
  intro h
  have hsent : (exec step (start []) burst).sent =
      [.interaction 1 (List.replicate 17 (.press "fire" none))] := by decide +kernel
  have haccepted := h [] burst (.interaction 1 (List.replicate 17 (.press "fire" none))) (by rw [hsent]; simp)
  have hlength := ((accepted_interaction _ _).mp haccepted).2.1
  exact absurd hlength (by decide)

end Uplink
end Grove
