import Grove.Core.Frame
import Grove.Sim.Sim

/-! # What a call can do to the sessions and the records

Most calls of the sim are a chain of a few moves (`perform_moves`): something the save path does not
read changes (`Idle`), a session enters the world, a session is released.  Three calls do more: a
connection opens, an acknowledgement drops a cached record, and the answer to a load files one.
Every invariant of whole runs is proved of the moves and of these three. -/

namespace Grove

namespace Sim

/-- Nothing that decides who is joined, what is cached or what is owed has changed. -/
structure Idle (s s' : Sim) : Prop where
  sessions : ∀ ref, SameStanding (s.sessions ref) (s'.sessions ref)
  next : s'.next = s.next
  registry : s'.registry = s.registry
  records : s'.records = s.records
  playerManager : s'.rt.playerManager = s.rt.playerManager
  hosts : s.rt.hosts.Extends s'.rt.hosts
  saves : s'.saves = s.saves
  held : s'.history.held = s.history.held
  unread : s'.history.unread = s.history.unread
  departed : s'.history.departed = s.history.departed
  issued : s'.history.issued = s.history.issued
  handed : s'.history.handed = s.history.handed
  acked : s'.history.acked = s.history.acked
  writer : s'.history.writer = s.history.writer
  config : s'.config = s.config
  /-- A frame that has come to wait is a registered player's. -/
  waiting : ∀ e ∈ s'.buffer.waiting, e ∈ s.buffer.waiting ∨
    (∃ connectionId, s.registry.get connectionId = some e.session) ∧ (s.sessions e.session).player.isSome

section idle
variable {s s' s'' : Sim}

theorem Idle.trans (h : Idle s s') (h' : Idle s' s'') : Idle s s'' where
  sessions := fun ref => (h.sessions ref).trans (h'.sessions ref)
  next := h'.next.trans h.next
  registry := h'.registry.trans h.registry
  records := h'.records.trans h.records
  playerManager := h'.playerManager.trans h.playerManager
  hosts := h.hosts.trans h'.hosts
  saves := h'.saves.trans h.saves
  held := h'.held.trans h.held
  unread := h'.unread.trans h.unread
  departed := h'.departed.trans h.departed
  issued := h'.issued.trans h.issued
  handed := h'.handed.trans h.handed
  acked := h'.acked.trans h.acked
  writer := h'.writer.trans h.writer
  config := h'.config.trans h.config
  waiting := by
    intro e he
    rcases h'.waiting e he with he | ⟨⟨c, hc⟩, hp⟩
    · exact h.waiting e he
    · rw [h.registry] at hc
      rw [(h.sessions e.session).player] at hp
      exact Or.inr ⟨⟨c, hc⟩, hp⟩

/-- A state that differs outside the sessions, the registry, the world and the history. -/
theorem Idle.of_same (h1 : s'.sessions = s.sessions) (h2 : s'.next = s.next) (h3 : s'.registry = s.registry)
    (h4 : s'.records = s.records) (h5 : s'.rt.playerManager = s.rt.playerManager) (h6 : s'.rt.hosts = s.rt.hosts)
    (h7 : s'.saves = s.saves) (h8 : s'.history = s.history) (h9 : s'.config = s.config)
    (h10 : s'.buffer = s.buffer) : Idle s s' := by
  constructor <;> first
    | exact h2
    | exact h3
    | exact h4
    | exact h5
    | exact h7
    | exact h9
    | (rw [h8])
    | (rw [h10]; exact fun e he => Or.inl he)
    | (rw [h6]; exact HostTable.Extends.refl _)
    | (intro ref; rw [h1]; exact SameStanding.refl _)

theorem Idle.refl (s : Sim) : Idle s s := Idle.of_same rfl rfl rfl rfl rfl rfl rfl rfl rfl rfl

/-- A session that differs in what it has queued, or in its admission state. -/
theorem idle_put {ref : SessionRef} {session : Session} (h : SameStanding (s.sessions ref) session) :
    Idle s (s.put ref session) :=
  ⟨h.update, rfl, rfl, rfl, rfl, HostTable.Extends.refl _, rfl, rfl, rfl, rfl, rfl, rfl, rfl, rfl, rfl,
    fun _ he => Or.inl he⟩

theorem idle_send (s : Sim) (recipients : List ConnectionId) (envelope : ServerToClient) (cls : SendClass) :
    Idle s (s.send recipients envelope cls) := by
  unfold send
  split_ifs
  · exact Idle.refl s
  · exact Idle.of_same rfl rfl rfl rfl rfl rfl rfl rfl rfl rfl

theorem idle_deny (s : Sim) (event : String) (session : Session) (reason : String) :
    Idle s (s.deny event session reason) := Idle.of_same rfl rfl rfl rfl rfl rfl rfl rfl rfl rfl

theorem Idle.foldl {α : Type} {f : Sim → α → Sim} (hf : ∀ s a, Idle s (f s a)) :
    ∀ (l : List α) (s : Sim), Idle s (l.foldl f s)
  | [], s => Idle.refl s
  | a :: l, s => (hf s a).trans (Idle.foldl hf l (f s a))

theorem idle_eachAdmission (s : Sim) (f : AdmissionState → AdmissionState) : Idle s (s.eachAdmission f) := by
  unfold eachAdmission
  refine Idle.foldl (fun s ref => ?_) _ s
  exact idle_put ⟨rfl, rfl, rfl, rfl⟩

end idle

/-! ### The moves -/

/-- One move; none of these needs a condition. -/
inductive Move : Sim → Sim → Prop where
  | idle {s s' : Sim} (h : Idle s s') : Move s s'
  | entered (s : Sim) (ref : SessionRef) (request : JoinRequest) (handler : List Runtime.Act)
      (hreg : ∃ connectionId, s.registry.get connectionId = some ref)
      (hopen : (s.sessions ref).closed = false) (hout : (s.sessions ref).player = none)
      (hroom : s.rt.playerManager.players.length < s.config.maxPlayers)
      (hfree : (s.rt.playerManager.byId (s.sessions ref).playerId).isSome = false) :
      Move s (s.enter ref request handler)
  | released (s : Sim) (ref : SessionRef) (onLeave : List Runtime.Act) (hlt : ref < s.next)
      (hopen : (s.sessions ref).closed = false) : Move s (s.release ref onLeave)

/-- A session of this world, and registered. -/
def Known (s : Sim) (ref : SessionRef) : Prop :=
  ref < s.next ∧ ∃ connectionId, s.registry.get connectionId = some ref

/-- Every registered session is one of this world's. -/
def Bounded (s : Sim) : Prop := ∀ connectionId ref, s.registry.get connectionId = some ref → ref < s.next

/-- A chain of moves. -/
abbrev Moves : Sim → Sim → Prop := Relation.ReflTransGen Move

section moves
variable {s s' : Sim}

theorem Idle.moves (h : Idle s s') : Moves s s' := .single (.idle h)

theorem moves_put {ref : SessionRef} {session : Session} (h : SameStanding (s.sessions ref) session) :
    Moves s (s.put ref session) := (idle_put h).moves

/-- A chain that starts by writing a session back. -/
theorem moves_of_put {ref : SessionRef} {session : Session} (h : Moves (s.put ref session) s')
    (hs : SameStanding (s.sessions ref) session) : Moves s s' := (moves_put hs).trans h

theorem release_next (s : Sim) (ref : SessionRef) (onLeave : List Runtime.Act) :
    (s.release ref onLeave).next = s.next := by
  unfold release
  split_ifs
  · rfl
  · split
    · rfl
    · unfold releasePlayer captureDeparture
      split
      · rfl
      · simp only
        split_ifs <;> rfl

theorem Moves.next (h : Moves s s') : s'.next = s.next := by
  induction h with
  | refl => rfl
  | tail _ hmove ih =>
    rw [← ih]
    cases hmove with
    | idle hidle => exact hidle.next
    | entered ref request handler => rfl
    | released ref onLeave => exact release_next _ ref onLeave

/-- A pass over sessions of this world. -/
theorem Moves.foldl {α : Type} {g : α → SessionRef} {f : Sim → α → Sim}
    (hf : ∀ s a, g a < s.next → Moves s (f s a)) :
    ∀ (l : List α) (s : Sim), (∀ a ∈ l, g a < s.next) → Moves s (l.foldl f s)
  | [], _, _ => .refl
  | a :: l, s, hl => by
    have hfirst := hf s a (hl a List.mem_cons_self)
    refine hfirst.trans (Moves.foldl hf l (f s a) (fun b hb => ?_))
    rw [hfirst.next]
    exact hl b (List.mem_cons_of_mem _ hb)

theorem mem_live {ref : SessionRef} : ref ∈ s.live ↔ ∃ connectionId, s.registry.get connectionId = some ref := by
  simp only [live, OrderedMap.values, List.mem_map, Prod.exists, exists_eq_right]
  exact exists_congr fun c => s.registry.mem_entries_iff

theorem Bounded.live (h : Bounded s) {ref : SessionRef} (href : ref ∈ s.live) : ref < s.next := by
  obtain ⟨c, hc⟩ := mem_live.mp href
  exact h c ref hc

theorem moves_release {ref : SessionRef} (hlt : ref < s.next) (onLeave : List Runtime.Act) :
    Moves s (s.release ref onLeave) := by
  by_cases hclosed : (s.sessions ref).closed = true
  · unfold release
    rw [if_pos hclosed]
  · exact .single (.released s ref onLeave hlt (by simpa using hclosed))

theorem moves_closeFor {ref : SessionRef} (hlt : ref < s.next) (reason : String) (onLeave : List Runtime.Act) :
    Moves s (s.closeFor ref reason onLeave) := by
  have hidle : Idle s { s.deny "close" (s.sessions ref) reason with
      closes := (s.deny "close" (s.sessions ref) reason).closes ++ [⟨(s.sessions ref).connectionId, reason⟩] } :=
    Idle.of_same rfl rfl rfl rfl rfl rfl rfl rfl rfl rfl
  exact hidle.moves.trans (moves_release (by exact hlt) onLeave)

theorem moves_reject {ref : SessionRef} (hlt : ref < s.next) (reason : RejectReason) (onLeave : List Runtime.Act) :
    Moves s (s.reject ref reason onLeave) := by
  have hdeny := idle_deny s "reject" (s.sessions ref) (rejectReason reason)
  have hsend := idle_send (s.deny "reject" (s.sessions ref) (rejectReason reason))
    [(s.sessions ref).connectionId] (.reject reason protocolVersion) .reliable
  have hclose : ∀ (s : Sim) (c : CloseOrder), Idle s { s with closes := s.closes ++ [c] } :=
    fun s c => Idle.of_same rfl rfl rfl rfl rfl rfl rfl rfl rfl rfl
  have hidle := (hdeny.trans hsend).trans (hclose _ ⟨(s.sessions ref).connectionId, rejectReason reason⟩)
  exact hidle.moves.trans (moves_release (by rw [hidle.next]; exact hlt) onLeave)

theorem moves_admitPlayer {ref : SessionRef} (hreg : Known s ref) (request : JoinRequest)
    (handler : List Runtime.Act) : Moves s (s.admitPlayer ref request handler) := by
  unfold admitPlayer
  simp only
  split_ifs with hskip hfull htaken
  · exact .refl
  · exact moves_reject hreg.1 .full handler
  · have hwarn : Idle s (s.warn ("refusing a second connection claiming " ++ (s.sessions ref).playerId)) :=
      Idle.of_same rfl rfl rfl rfl rfl rfl rfl rfl rfl rfl
    exact hwarn.moves.trans (moves_reject (by exact hreg.1) .full handler)
  · rw [not_or, not_or, Bool.not_eq_true, Session.joined, Option.not_isSome_iff_eq_none] at hskip
    exact .single (.entered s ref request handler hreg.2 hskip.1 hskip.2.2 (Nat.lt_of_not_le hfull)
      (by simpa using htaken))

theorem moves_join {ref : SessionRef} (hreg : Known s ref) (request : JoinRequest)
    (handler : List Runtime.Act) : Moves s (s.join ref request handler) := by
  unfold join
  simp only
  split_ifs
  · exact moves_reject hreg.1 .version handler
  · exact moves_reject hreg.1 .identity handler
  · exact moves_put ⟨rfl, rfl, rfl, rfl⟩
  · exact .refl
  · have hput : Idle s (s.put ref { s.sessions ref with admitting := true, awaitingRecord := some request }) :=
      idle_put ⟨rfl, rfl, rfl, rfl⟩
    refine Idle.moves (hput.trans ?_)
    exact Idle.of_same rfl rfl rfl rfl rfl rfl rfl rfl rfl rfl
  · exact moves_admitPlayer hreg request handler

theorem moves_resume {ref : SessionRef} (hreg : Known s ref) (handler : List Runtime.Act) :
    Moves s (s.resume ref handler) := by
  unfold resume
  simp only
  split
  · exact moves_put ⟨rfl, rfl, rfl, rfl⟩
  · exact moves_of_put (moves_admitPlayer (by exact hreg) _ handler) ⟨rfl, rfl, rfl, rfl⟩

theorem moves_takeInputToken {ref : SessionRef} (hreg : Known s ref) (onLeave : List Runtime.Act) :
    Moves s (s.takeInputToken ref onLeave).2 := by
  unfold takeInputToken
  simp only
  split_ifs
  · exact moves_put ⟨rfl, rfl, rfl, rfl⟩
  · exact moves_of_put (moves_closeFor (by exact hreg.1) _ onLeave) ⟨rfl, rfl, rfl, rfl⟩
  · exact moves_put ⟨rfl, rfl, rfl, rfl⟩

theorem moves_input {ref : SessionRef} (hreg : Known s ref) (frame : InputFrame)
    (onLeave : List Runtime.Act) : Moves s (s.input ref frame onLeave) := by
  unfold input
  simp only
  split_ifs with hjoined
  · exact .refl
  all_goals
    obtain ⟨a, b', hout, hb⟩ := s.buffer.admitInput_cases ref (s.sessions ref) frame s.rt.tick s.rt.simRate
    have hwaiting : ∀ e ∈ b'.waiting, e ∈ s.buffer.waiting ∨
        (∃ connectionId, s.registry.get connectionId = some e.session) ∧ (s.sessions e.session).player.isSome := by
      intro e he
      rcases hb with ⟨-, rfl⟩ | ⟨-, -, ⟨-, -, -, rfl⟩ | ⟨filed, -, rfl⟩⟩
      · exact Or.inl he
      · exact Or.inl he
      · rcases List.mem_cons.mp ((s.buffer.waiting_file filed ⟨ref, frame⟩).mem_iff.mp he) with rfl | he
        · exact Or.inr ⟨hreg.2, by simpa [Session.joined, Option.isSome_iff_ne_none] using hjoined⟩
        · exact Or.inl he
    have hidle : Idle s { s.put ref (s.buffer.admitInput ref (s.sessions ref) frame s.rt.tick s.rt.simRate).2.1 with
        buffer := (s.buffer.admitInput ref (s.sessions ref) frame s.rt.tick s.rt.simRate).2.2 } := by
      rw [hout]
      have hsame : ∀ x, SameStanding (s.sessions x)
          (Function.update s.sessions ref { s.sessions ref with admission := a } x) :=
        SameStanding.update ⟨rfl, rfl, rfl, rfl⟩
      exact ⟨hsame, rfl, rfl, rfl, rfl, HostTable.Extends.refl _, rfl, rfl, rfl, rfl, rfl, rfl, rfl, rfl, rfl,
        hwaiting⟩
  · exact hidle.moves.trans (moves_closeFor (by exact hreg.1) _ onLeave)
  · exact hidle.moves

theorem moves_interaction {ref : SessionRef} (hreg : Known s ref) (events : List Interaction)
    (onLeave : List Runtime.Act) : Moves s (s.interaction ref events onLeave) := by
  have h := moves_takeInputToken hreg onLeave
  unfold interaction
  split_ifs
  · exact .refl
  · rcases hout : s.takeInputToken ref onLeave with ⟨_ | _, s'⟩
    · rw [hout] at h
      exact h
    · rw [hout] at h
      exact h.trans (moves_put ⟨rfl, rfl, rfl, rfl⟩)

theorem moves_request {ref : SessionRef} (hreg : Known s ref) (calls : List GameRequest)
    (onLeave : List Runtime.Act) : Moves s (s.request ref calls onLeave) := by
  have h := moves_takeInputToken hreg onLeave
  unfold request
  split_ifs
  · exact .refl
  · rcases hout : s.takeInputToken ref onLeave with ⟨_ | _, s'⟩
    · rw [hout] at h
      exact h
    · rw [hout] at h
      exact h.trans (moves_put ⟨rfl, rfl, rfl, rfl⟩)

theorem moves_dispatchFrame {ref : SessionRef} (hreg : Known s ref)
    (handler : List Runtime.Act) (envelope : ClientToServer) : Moves s (s.dispatchFrame ref handler envelope) := by
  cases envelope with
  | joinRequest request => exact moves_join hreg request handler
  | input frame => exact moves_input hreg frame handler
  | interaction tick events => exact moves_interaction hreg events handler
  | request tick calls => exact moves_request hreg calls handler
  | timeSync sync => exact moves_put ⟨rfl, rfl, rfl, rfl⟩

theorem moves_receive (hb : Bounded s) (connectionId : ConnectionId) (message : Option ClientToServer)
    (handler : List Runtime.Act) : Moves s (s.receive connectionId message handler) := by
  unfold receive
  split
  · rename_i ref envelope hreg
    simp only
    split_ifs
    all_goals first
      | exact .refl
      | exact moves_put ⟨rfl, rfl, rfl, rfl⟩
      | exact moves_of_put (moves_dispatchFrame (by exact ⟨hb connectionId ref hreg, connectionId, hreg⟩)
          handler envelope) ⟨rfl, rfl, rfl, rfl⟩
  · exact .refl

theorem moves_drop (hb : Bounded s) (connectionId : ConnectionId) (onLeave : List Runtime.Act) :
    Moves s (s.drop connectionId onLeave) := by
  unfold drop
  split
  · exact .refl
  · rename_i ref hreg
    exact moves_release (hb connectionId ref hreg) onLeave

/-- A connection is refused, or registered. -/
theorem openConnection_cases (s : Sim) (connectionId : ConnectionId) (identity : Option PlayerId) :
    Idle s (s.openConnection connectionId identity) ∨
      s.openRefusal identity = none ∧ s.openConnection connectionId identity = s.register connectionId identity := by
  unfold openConnection
  split
  · refine Or.inl ?_
    exact Idle.of_same rfl rfl rfl rfl rfl rfl rfl rfl rfl rfl
  · rename_i hopen
    exact Or.inr ⟨hopen, rfl⟩

theorem moves_sweepJoinDeadline (hb : Bounded s) : Moves s s.sweepJoinDeadline := by
  refine Moves.foldl (g := fun ref => ref) (fun s ref hlt => moves_closeFor hlt _ []) _ s (fun ref href => ?_)
  exact hb.live (List.mem_of_mem_filter href)

/-! #### The step -/

theorem idle_stepOnce (s : Sim) (acts onEnd : List Runtime.Act) : Idle s (s.stepOnce acts onEnd) := by
  unfold stepOnce
  simp only
  refine (idle_eachAdmission s (fun a => a.refill s.rt.simRate)).trans (Idle.trans ?_ (idle_eachAdmission _ _))
  have hworld := ((Runtime.acts_frame acts { (s.eachAdmission (fun a => a.refill s.rt.simRate)).world with
      tick := (s.eachAdmission (fun a => a.refill s.rt.simRate)).rt.tick + 1 }).trans
    (Runtime.drainDestroyed_frame _ onEnd))
  refine ⟨InputWorld.allSame_runInputPass ⟨_, _, _⟩ _ _, rfl, rfl, rfl, hworld.playerManager, hworld.hosts, rfl, rfl, rfl, rfl,
    rfl, rfl, rfl, rfl, rfl, fun e he => Or.inl ?_⟩
  have hbuffer := InputWorld.runInputPass_buffer ⟨(s.eachAdmission (fun a => a.refill s.rt.simRate)).sessions,
    (s.eachAdmission (fun a => a.refill s.rt.simRate)).live, (s.eachAdmission (fun a => a.refill s.rt.simRate)).buffer⟩
    ((s.eachAdmission (fun a => a.refill s.rt.simRate)).rt.tick + 1) s.rt.simRate
  change e ∈ (InputWorld.runInputPass _ _ _).1.buffer.waiting at he
  rw [hbuffer] at he
  exact InputBuffer.mem_waiting_drainThrough _ he

/-! #### The drain -/

theorem idle_welcome (s : Sim) (ref : SessionRef) (player : Player) (pending : JoinRequest) (nowMs : ℚ) :
    Idle s (s.welcome ref player pending nowMs) := by
  unfold welcome
  simp only
  split_ifs
  · exact idle_send s _ _ _
  · refine Idle.trans (Idle.trans ?_ (Idle.foldl (fun s chunk => ?_) _ _)) (idle_send _ _ _ _)
    · exact Idle.of_same rfl rfl rfl rfl rfl rfl rfl rfl rfl rfl
    · exact idle_send s _ _ _

theorem moves_drainSession (set : SendSet) (nowMs : ℚ) (faults : ConnectionId → Option (List Runtime.Act))
    (s : Sim) (ref : SessionRef) (hlt : ref < s.next) : Moves s (drainSession set nowMs faults s ref) := by
  unfold drainSession
  simp only
  split
  · exact .refl
  · split_ifs
    · exact moves_of_put (idle_send _ _ _ _).moves ⟨rfl, rfl, rfl, rfl⟩
    · split
      · exact .refl
      · split
        · exact moves_of_put (moves_closeFor (by exact hlt) _ _) ⟨rfl, rfl, rfl, rfl⟩
        · refine Idle.moves (Idle.trans ?_ (idle_put ⟨rfl, rfl, rfl, rfl⟩))
          refine Idle.trans ?_ (idle_welcome _ _ _ _ _)
          exact idle_put ⟨rfl, rfl, rfl, rfl⟩

theorem idle_answerTimeSync (nowMs : ℚ) (s : Sim) (ref : SessionRef) : Idle s (answerTimeSync nowMs s ref) := by
  unfold answerTimeSync
  simp only
  split
  · exact Idle.refl s
  · refine Idle.trans ?_ (idle_send _ _ _ _)
    exact idle_put ⟨rfl, rfl, rfl, rfl⟩

theorem idle_openDrain (s : Sim) : Idle s s.openDrain.2 := by
  have hset : ∀ (s' : Sim), s'.sessions = s.sessions → s'.next = s.next → s'.registry = s.registry →
      s'.records = s.records → s'.rt.playerManager = s.rt.playerManager → s'.rt.hosts = s.rt.hosts →
      s'.saves = s.saves → s'.history.held = s.history.held → s'.history.unread = s.history.unread →
      s'.history.departed = s.history.departed → s'.history.issued = s.history.issued →
      s'.history.handed = s.history.handed → s'.history.acked = s.history.acked →
      s'.history.writer = s.history.writer → s'.config = s.config → s'.buffer = s.buffer → Idle s s' := by
    intro s' h1 h2 h3 h4 h5 h6 h7 h8 h9 h10 h11 h12 h13 h14 h15 h16
    exact ⟨fun ref => h1 ▸ SameStanding.refl _, h2, h3, h4, h5, h6 ▸ HostTable.Extends.refl _, h7, h8, h9, h10, h11,
      h12, h13, h14, h15, fun e he => Or.inl (h16 ▸ he)⟩
  unfold openDrain
  simp only
  split
  · exact hset _ rfl rfl rfl rfl rfl rfl rfl rfl rfl rfl rfl rfl rfl rfl rfl rfl
  · refine Idle.trans ?_ (idle_send _ _ _ _)
    exact hset _ rfl rfl rfl rfl rfl rfl rfl rfl rfl rfl rfl rfl rfl rfl rfl rfl

theorem moves_drain (hb : Bounded s) (nowMs : ℚ) (faults : ConnectionId → Option (List Runtime.Act)) :
    Moves s (s.drain nowMs faults) := by
  unfold drain
  simp only
  have hsessions : Moves s.openDrain.2
      (s.openDrain.2.live.foldl (drainSession s.openDrain.1 nowMs faults) s.openDrain.2) :=
    Moves.foldl (g := fun ref => ref) (moves_drainSession s.openDrain.1 nowMs faults) _ _ (fun ref href => by
      rw [(idle_openDrain s).next]
      rw [show s.openDrain.2.live = s.live from congrArg OrderedMap.values (idle_openDrain s).registry] at href
      exact hb.live href)
  have htransform := idle_send (s.openDrain.2.live.foldl (drainSession s.openDrain.1 nowMs faults) s.openDrain.2)
    s.openDrain.2.broadcasting (.transform (transformEnvelope s.openDrain.1)) .droppable
  exact (idle_openDrain s).moves.trans (hsessions.trans
    (htransform.trans (Idle.foldl (idle_answerTimeSync nowMs) _ _)).moves)

theorem moves_close (hb : Bounded s) (onLeave : ConnectionId → List Runtime.Act) : Moves s (s.close onLeave) := by
  have hidle : Idle s { s with closed := true } := Idle.of_same rfl rfl rfl rfl rfl rfl rfl rfl rfl rfl
  unfold close
  simp only
  refine hidle.moves.trans (Moves.foldl (g := Prod.snd) (fun s e hlt => ?_) _ _ (fun e he => ?_))
  · exact moves_release hlt _
  · exact hb e.1 e.2 (s.registry.mem_entries_iff.mp he)

/-! #### The calls -/

/-- A call that opens no connection, acknowledges no save, answers no load and takes no output. -/
def Call.plain : Call → Bool
  | .opened _ _ | .saved _ _ | .record _ _ _ | .takeOutput => false
  | _ => true

theorem perform_moves (hb : Bounded s) {call : Call} (h : call.plain = true) : Moves s (s.perform call) := by
  have hidle : ∀ {s' : Sim}, s'.sessions = s.sessions → s'.next = s.next → s'.registry = s.registry →
      s'.records = s.records → s'.rt.playerManager = s.rt.playerManager → s'.rt.hosts = s.rt.hosts →
      s'.saves = s.saves → s'.history = s.history → s'.config = s.config → s'.buffer = s.buffer → Moves s s' :=
    fun h1 h2 h3 h4 h5 h6 h7 h8 h9 h10 => (Idle.of_same h1 h2 h3 h4 h5 h6 h7 h8 h9 h10).moves
  cases call with
  | frame connectionId message handler => exact moves_receive hb connectionId message handler
  | closed connectionId onLeave => exact moves_drop hb connectionId onLeave
  | stepOnce acts onEnd => exact (idle_stepOnce s acts onEnd).moves
  | sweepJoinDeadline => exact moves_sweepJoinDeadline hb
  | drain nowMs faults => exact moves_drain hb nowMs faults
  | close onLeave => exact moves_close hb onLeave
  | declareVisuals manifest => exact hidle rfl rfl rfl rfl rfl rfl rfl rfl rfl rfl
  | setSimRate simRate =>
    have hrate : Idle s { s with rt.simRate := simRate } := Idle.of_same rfl rfl rfl rfl rfl rfl rfl rfl rfl rfl
    exact (hrate.trans (idle_send _ _ _ _)).moves
  | opened | saved | record | takeOutput => cases h

/-- What a call does that is no chain of moves. -/
inductive Beside (s : Sim) : Call → Sim → Prop where
  | still (call : Call) : Beside s call s
  | opened (connectionId : ConnectionId) (identity : Option PlayerId) (hroom : s.openRefusal identity = none) :
      Beside s (.opened connectionId identity) (s.register connectionId identity)
  | saved (key : HostKey) (order : ℕ) : Beside s (.saved key order) (s.acknowledge key order)
  | filed {connectionId : ConnectionId} {waiting : SessionRef} (fields : Fields) (handler : List Runtime.Act)
      (hreg : s.registry.get connectionId = some waiting) :
      Beside s (.record connectionId (some fields) handler) (s.fileRecord (s.keyOf waiting) fields)
  | noted {connectionId : ConnectionId} {waiting : SessionRef} (handler : List Runtime.Act)
      (hreg : s.registry.get connectionId = some waiting) : Beside s (.record connectionId none handler)
        (s.noteUnread waiting (s.history.unread waiting || (s.sessions waiting).awaitingRecord.isSome))
  | taken (call : Call) : Beside s call s.takeOutput.2

/-- **What a call can do**: one thing beside the moves, then a chain of these. -/
theorem step_moves (hb : Bounded s) (call : Call) : ∃ s₁, Beside s call s₁ ∧ Moves s₁ (s.step call) := by
  have hperform : ∃ s₁, Beside s call s₁ ∧ Moves s₁ (s.perform call) := by
    cases call with
    | opened connectionId identity =>
      show ∃ s₁, _ ∧ Moves s₁ (s.openConnection connectionId identity)
      rcases openConnection_cases s connectionId identity with hidle | ⟨hroom, hout⟩
      · exact ⟨s, .still _, hidle.moves⟩
      · rw [hout]
        exact ⟨_, .opened connectionId identity hroom, .refl⟩
    | saved key order => exact ⟨_, .saved key order, .refl⟩
    | record connectionId fields handler =>
      show ∃ s₁, _ ∧ Moves s₁ (s.seed connectionId fields handler)
      unfold seed
      cases hreg : s.registry.get connectionId with
      | none => exact ⟨s, .still _, .refl⟩
      | some waiting =>
        have hknown : Known s waiting := ⟨hb connectionId waiting hreg, connectionId, hreg⟩
        cases fields with
        | some fields => exact ⟨_, .filed fields handler hreg, moves_resume (by exact hknown) handler⟩
        | none => exact ⟨_, .noted handler hreg, moves_resume (by exact hknown) handler⟩
    | takeOutput => exact ⟨_, .taken _, .refl⟩
    | _ => exact ⟨s, .still _, perform_moves hb rfl⟩
  unfold step
  split_ifs
  · split
    · exact ⟨_, .taken _, .refl⟩
    · exact ⟨s, .still _, .refl⟩
  · exact hperform

/-- What a move keeps, and each thing a call does beside them, the call keeps. -/
theorem step_keeps {P : Sim → Prop} (hmove : ∀ s s', P s → Move s s' → P s') (hb : Bounded s) {call : Call}
    (hbeside : ∀ s₁, Beside s call s₁ → P s₁) : P (s.step call) := by
  obtain ⟨s₁, h₁, hmoves⟩ := step_moves hb call
  generalize s.step call = s₂ at hmoves ⊢
  induction hmoves with
  | refl => exact hbeside s₁ h₁
  | tail _ hmoved ih => exact hmove _ _ ih hmoved

end moves

end Sim

end Grove
