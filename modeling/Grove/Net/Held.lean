import Grove.Client.Holding
import Grove.Sim.Folded

/-! # Held input agrees end to end

One client and its session on the server: the client's calls, the arrival of its input frames in the
order they were sent, and every other call on the input path.  `held_agrees` says when both ends
hold exactly what the codes that are down drive.  It fails where an edge is dropped after the
binding table took it in (input refused, a resync with edges pending), where one code of an action
is let go of while another is down, where a batch is coalesced out of order, where a frame names
more actions than the server admits, and where the server releases what a silent connection holds. -/

namespace Grove

structure HeldWorld where
  client : Uplink
  /-- The codes that are down, by what the device reports. -/
  device : List String
  server : InputWorld.Traced
  /-- How many of the client's input frames have arrived. -/
  arrived : ℕ
  /-- The server's tick. -/
  now : ℤ

namespace HeldWorld
open InputWorld (Traced traced Lined InOrder framesOf foldedSeqs Claims Silent)

def start (bindings : List Binding) (w : InputWorld) (now : ℤ) : HeldWorld where
  client := Uplink.start bindings
  device := []
  server := traced w
  arrived := 0
  now := now

inductive Step where
  | client (call : Uplink.Call)
  /-- The next input frame on its way arrives. -/
  | arrive
  | server (call : InputWorld.Call)

variable (ref : SessionRef) (simRate : ℚ)

/-- A call a server with this rate makes from its tick on, that brings no frame of the session. -/
def Made (now : ℤ) (call : InputWorld.Call) : Prop := now ≤ call.tickAfter now ∧
  match call with
  | .admitInput r _ _ rate => r ≠ ref ∧ rate = simRate
  | _ => True

instance (now : ℤ) (call : InputWorld.Call) : Decidable (Made ref simRate now call) := by
  unfold Made
  cases call <;> infer_instance

def step (w : HeldWorld) : Step → HeldWorld
  | .client call => { w with client := w.client.step call, device := call.reported w.device }
  | .arrive =>
    match (inputFrames w.client.sent)[w.arrived]? with
    | none => w
    | some frame => { w with
        server := w.server.step (.admitInput ref frame w.now simRate)
        arrived := w.arrived + 1 }
  | .server call =>
    if Made ref simRate w.now call then
      { w with server := w.server.step call, now := call.tickAfter w.now }
    else w

/-- The step loses no press and no release, at either end. -/
def Steady (w : HeldWorld) : Step → Prop
  | .client call => w.client.Steady call
  | .arrive => True
  | .server (.runInputPass tick rate) => Silent tick (holdStaleTicks rate) (w.server.world.sessions ref) →
      (w.server.world.sessions ref).actions.held = [] ∧
        ∀ e ∈ (w.server.world.buffer.drainThrough tick).1, e.session ≠ ref
  | .server _ => True

/-- The client is live and has flushed, and the server has applied every frame it sent. -/
structure CaughtUp (w : HeldWorld) : Prop where
  live : w.client.lifecycle = .live
  flushed : w.client.pending = []
  applied : ∀ frame ∈ inputFrames w.client.sent, frame ∈ framesOf ref w.server.folded

/-! ### The invariant -/

/-- The names the client has used. -/
def namesUsed (w : HeldWorld) : List String := (edgesOf (inputFrames w.client.sent)).map InputAction.action

structure Ok (bindings : List Binding) (w : HeldWorld) : Prop where
  client : Uplink.Holding bindings w.device w.client
  held : (w.server.world.sessions ref).actions.heldSet = heldAfter (edgesOf (framesOf ref w.server.folded)) ∅
  claims : Claims w.namesUsed (w.server.world.sessions ref)
  waiting : ∀ slot, ∀ e ∈ w.server.world.buffer.slotAt slot, e.session = ref → e.frame ∈ inputFrames w.client.sent
  folded : ∀ frame ∈ framesOf ref w.server.folded, frame ∈ inputFrames w.client.sent
  count : w.arrived ≤ (inputFrames w.client.sent).length
  /-- Whatever else may come in order, the frames that arrived are in line before it. -/
  lined : ∀ ahead, InOrder ((inputFrames w.client.sent).take w.arrived ++ ahead) →
    Lined ref simRate w.server w.now ahead

/-- A server on which nothing has happened to the session. -/
structure Fresh (w : InputWorld) : Prop where
  buffer : w.buffer = InputBuffer.empty
  actions : (w.sessions ref).actions = createActionStates
  names : (w.sessions ref).admission.actionNames = []

variable {ref simRate} {bindings : List Binding} {w : HeldWorld}

theorem ok_start {w : InputWorld} (hw : Fresh ref w) (now : ℤ) : Ok ref simRate bindings (start bindings w now) where
  client := Uplink.holding_start bindings
  held := by
    show (w.sessions ref).actions.heldSet = _
    rw [hw.actions]
    ext a
    exact ⟨nofun, nofun⟩
  claims := by
    have hnames : ((start bindings w now).server.world.sessions ref).admission.actionNames = [] := hw.names
    exact ⟨by rw [hnames]; nofun, by rw [hnames]; exact List.nodup_nil⟩
  waiting := by
    intro slot e he
    change e ∈ w.buffer.slotAt slot at he
    rw [hw.buffer] at he
    cases he
  folded := nofun
  count := Nat.zero_le _
  lined := by
    intro ahead hahead
    have hempty : ∀ s, (traced w).world.buffer.slotAt s = [] := by
      intro s
      show w.buffer.slotAt s = []
      rw [hw.buffer]
      rfl
    refine ⟨?_, ?_, List.Pairwise.nil, nofun, ?_, fun _ _ => nofun, hahead⟩
    · intro s s' e e' _ he
      change e ∈ (traced w).world.buffer.slotAt s at he
      rw [hempty] at he
      cases he
    · intro s
      show ((traced w).world.buffer.slotAt s).Pairwise _
      rw [hempty]
      exact List.Pairwise.nil
    · intro a _ s e he
      change e ∈ (traced w).world.buffer.slotAt s at he
      rw [hempty] at he
      cases he

/-! ### One step -/

theorem inputFrames_prefix {sent sent' : List ClientToServer} (h : sent <+: sent') :
    inputFrames sent <+: inputFrames sent' := by
  obtain ⟨more, rfl⟩ := h
  rw [Uplink.inputFrames_append]
  exact List.prefix_append _ _

theorem Claims.mono {names names' : List String} {s : Session} (h : Claims names s) (hsub : names ⊆ names') :
    Claims names' s := ⟨fun name hname => hsub (h.among name hname), h.distinct⟩

theorem mem_edgesOf {frames : List InputFrame} {frame : InputFrame} {a : InputAction} (hframe : frame ∈ frames)
    (ha : a ∈ frame.actions) : a ∈ edgesOf frames := List.mem_flatMap.mpr ⟨frame, hframe, ha⟩

theorem Ok.client_step (h : Ok ref simRate bindings w) {call : Uplink.Call} (hsteady : w.client.Steady call) :
    Ok ref simRate bindings (w.step ref simRate (.client call)) := by
  have hext : inputFrames w.client.sent <+: inputFrames (w.client.step call).sent :=
    inputFrames_prefix (w.client.sent_step call)
  refine ⟨Uplink.holding_step h.client hsteady, h.held, ?_, ?_, ?_, ?_, ?_⟩
  · refine Claims.mono h.claims (fun name hname => ?_)
    obtain ⟨a, ha, rfl⟩ := List.mem_map.mp hname
    obtain ⟨frame, hframe, ha⟩ := List.mem_flatMap.mp ha
    exact List.mem_map_of_mem (mem_edgesOf (hext.subset hframe) ha)
  · exact fun slot e he hr => hext.subset (h.waiting slot e he hr)
  · exact fun frame hframe => hext.subset (h.folded frame hframe)
  · exact h.count.trans hext.length_le
  · intro ahead hahead
    refine h.lined ahead ?_
    obtain ⟨more, hmore⟩ := hext
    change InOrder ((inputFrames (w.client.step call).sent).take w.arrived ++ ahead) at hahead
    rw [← hmore, List.take_append_of_le_length h.count] at hahead
    exact hahead

theorem Ok.arrive_step (h : Ok ref simRate bindings w) : Ok ref simRate bindings (w.step ref simRate .arrive) := by
  unfold step
  simp only
  cases hframe : (inputFrames w.client.sent)[w.arrived]? with
  | none => exact h
  | some frame =>
    simp only
    have hfolded : (w.server.step (.admitInput ref frame w.now simRate)).folded = w.server.folded := List.append_nil _
    obtain ⟨hactions, hnames⟩ := w.server.world.step_keeps (c := .admitInput ref frame w.now simRate) nofun ref
    obtain ⟨hlt, hget⟩ := List.getElem?_eq_some_iff.mp hframe
    refine ⟨h.client, ?_, ?_, ?_, ?_, hlt, ?_⟩
    · show ((w.server.world.step (.admitInput ref frame w.now simRate)).sessions ref).actions.heldSet =
        heldAfter (edgesOf (framesOf ref (w.server.step (.admitInput ref frame w.now simRate)).folded)) ∅
      rw [hactions, hfolded]
      exact h.held
    · exact h.claims.of_eq hnames
    · intro slot e he hr
      change e ∈ (w.server.world.step (.admitInput ref frame w.now simRate)).buffer.slotAt slot at he
      rcases InputWorld.filedBy_cases w.server.world ref frame w.now simRate with
        ⟨g, hentry, -, -, -, hbuffer, -⟩ | ⟨-, hbuffer⟩
      · rw [hbuffer, InputBuffer.slotAt_file] at he
        split_ifs at he with hslot
        · rcases List.mem_append.mp he with he | he
          · exact h.waiting _ e he hr
          · rw [List.mem_singleton.mp he, hentry]
            exact List.mem_of_getElem? hframe
        · exact h.waiting slot e he hr
      · rw [hbuffer] at he
        exact h.waiting slot e he hr
    · show ∀ frame ∈ framesOf ref (w.server.step _).folded, _
      rw [hfolded]
      exact h.folded
    · intro ahead hahead
      refine (h.lined (frame :: ahead) ?_).arrive le_rfl
      change InOrder ((inputFrames w.client.sent).take (w.arrived + 1) ++ ahead) at hahead
      rw [List.take_add_one, hframe, List.append_assoc] at hahead
      exact hahead

/-- A pass folds the frames that are due, and nothing else changes what is held. -/
theorem Ok.pass_step (h : Ok ref simRate bindings w) {tick : ℤ} {rate : ℚ} (hnow : w.now ≤ tick)
    (hsteady : w.Steady ref (.server (.runInputPass tick rate))) :
    Ok ref simRate bindings { w with server := w.server.step (.runInputPass tick rate), now := tick } := by
  have hmade : ∀ slot, ∀ e ∈ w.server.world.buffer.slotAt slot, e.session = ref →
      ∀ a ∈ e.frame.actions, a.action ∈ w.namesUsed := fun slot e he hr a ha =>
    List.mem_map_of_mem (mem_edgesOf (h.waiting slot e he hr) ha)
  obtain ⟨hheld, hclaims⟩ := @InputWorld.heldSet_runInputPass _ ref h.client.names _ tick rate hmade h.claims hsteady
  have hfolded : framesOf ref (w.server.step (.runInputPass tick rate)).folded =
      framesOf ref w.server.folded ++ framesOf ref (w.server.world.foldedBy (.runInputPass tick rate)) :=
    InputWorld.framesOf_append ref _ _
  refine ⟨h.client, ?_, hclaims, ?_, ?_, h.count, fun ahead hahead => (h.lined ahead hahead).pass hnow rate⟩
  · show ((w.server.world.step _).sessions ref).actions.heldSet = heldAfter (edgesOf (framesOf ref (Traced.step _ _).folded)) ∅
    rw [hfolded, edgesOf_append, heldAfter_append, ← h.held]
    exact hheld
  · intro slot e he hr
    change e ∈ (w.server.world.step _).buffer.slotAt slot at he
    rw [InputWorld.step_pass_buffer, InputBuffer.slotAt_drainThrough] at he
    split_ifs at he
    · cases he
    · exact h.waiting slot e he hr
  · show ∀ frame ∈ framesOf ref (Traced.step _ _).folded, _
    rw [hfolded]
    intro frame hframe
    rcases List.mem_append.mp hframe with hframe | hframe
    · exact h.folded frame hframe
    · obtain ⟨f, hf, rfl⟩ := List.mem_map.mp hframe
      obtain ⟨hf, hr⟩ := List.mem_filter.mp hf
      obtain ⟨-, -, slot, -, hslot⟩ := InputWorld.mem_foldedBy_pass.mp hf
      exact h.waiting slot f.entry hslot (by simpa using hr)

/-- Calls that fold nothing, and file nothing of the session. -/
theorem Ok.still_step (h : Ok ref simRate bindings w) {call : InputWorld.Call} {now : ℤ}
    (hpass : ∀ tick rate, call ≠ .runInputPass tick rate)
    (hslots : ∀ slot, ∀ e ∈ (w.server.world.step call).buffer.slotAt slot, e.session = ref →
      e ∈ w.server.world.buffer.slotAt slot)
    (hlined : ∀ ahead, Lined ref simRate w.server w.now ahead → Lined ref simRate (w.server.step call) now ahead) :
    Ok ref simRate bindings { w with server := w.server.step call, now := now } := by
  have hfolded : (w.server.step call).folded = w.server.folded := by
    show w.server.folded ++ w.server.world.foldedBy call = _
    cases call with
    | runInputPass tick rate => exact absurd rfl (hpass tick rate)
    | _ => exact List.append_nil _
  obtain ⟨hactions, hnames⟩ := w.server.world.step_keeps hpass ref
  refine ⟨h.client, ?_, h.claims.of_eq hnames, ?_, ?_, h.count, fun ahead hahead => hlined ahead (h.lined ahead hahead)⟩
  · show ((w.server.world.step call).sessions ref).actions.heldSet = heldAfter (edgesOf (framesOf ref (Traced.step _ _).folded)) ∅
    rw [hactions, hfolded]
    exact h.held
  · exact fun slot e he hr => h.waiting slot e (hslots slot e he hr) hr
  · show ∀ frame ∈ framesOf ref (Traced.step _ _).folded, _
    rw [hfolded]
    exact h.folded

theorem Ok.quiet_step (h : Ok ref simRate bindings w) {call : InputWorld.Call} (hquiet : call.quiet = true) {now : ℤ}
    (hnow : w.now ≤ now) : Ok ref simRate bindings { w with server := w.server.step call, now := now } := by
  obtain ⟨-, -, hbuffer⟩ := InputWorld.step_quiet w.server.world hquiet
  refine h.still_step (by rintro tick rate rfl; cases hquiet) (fun slot e he _ => ?_)
    (fun ahead hahead => hahead.quiet hquiet hnow)
  rcases hbuffer with hb | ⟨r, hb⟩
  · rw [hb] at he
    exact he
  · rw [hb, InputBuffer.slotAt_dropSession] at he
    exact List.mem_of_mem_filter he

theorem ok_step (h : Ok ref simRate bindings w) {s : Step} (hsteady : w.Steady ref s) :
    Ok ref simRate bindings (w.step ref simRate s) := by
  cases s with
  | client call => exact h.client_step hsteady
  | arrive => exact h.arrive_step
  | server call =>
    unfold step
    simp only
    split_ifs with hmade
    · obtain ⟨hnow, hmade⟩ := hmade
      cases call with
      | admitInput r frame tick rate =>
        obtain ⟨hr, rfl⟩ := hmade
        refine h.still_step nofun (fun slot e he href => ?_) (fun ahead hahead => hahead.other hr frame hnow rate)
        rcases InputWorld.filedBy_cases w.server.world r frame tick rate with
          ⟨g, hentry, -, -, -, hbuffer, -⟩ | ⟨-, hbuffer⟩
        · rw [hbuffer, InputBuffer.slotAt_file] at he
          split_ifs at he with hslot
          · rcases List.mem_append.mp he with he | he
            · exact hslot ▸ he
            · rw [List.mem_singleton.mp he, hentry] at href
              exact absurd href hr
          · exact he
        · rw [hbuffer] at he
          exact he
      | runInputPass tick rate => exact h.pass_step hnow hsteady
      | _ => exact h.quiet_step rfl hnow
    · exact h

/-! ### Both ends -/

/-- Once everything is applied, what was folded is what was sent. -/
theorem Ok.framesOf_eq (h : Ok ref simRate bindings w) (hcaught : w.CaughtUp ref) :
    framesOf ref w.server.folded = inputFrames w.client.sent := by
  have hsent : (inputFrames w.client.sent).Pairwise (fun f g => f.seq < g.seq) := h.client.ordered.imp (fun h => h.1)
  have hline : Lined ref simRate w.server w.now [] := by
    refine h.lined [] ?_
    rw [List.append_nil]
    exact h.client.ordered.sublist (List.take_sublist _ _)
  have hfolded : (framesOf ref w.server.folded).Pairwise (fun f g => f.seq < g.seq) := by
    have hpast := hline.past
    unfold foldedSeqs at hpast
    unfold framesOf
    rw [List.pairwise_map] at hpast ⊢
    exact hpast
  have hdistinct : ∀ {l : List InputFrame}, l.Pairwise (fun f g => f.seq < g.seq) → l.Nodup := fun hl =>
    hl.imp (fun hlt => by rintro rfl; exact lt_irrefl _ hlt)
  have hperm : (framesOf ref w.server.folded).Perm (inputFrames w.client.sent) :=
    (List.perm_ext_iff_of_nodup (hdistinct hfolded) (hdistinct hsent)).mpr
      (fun frame => ⟨h.folded frame, hcaught.applied frame⟩)
  exact hperm.eq_of_pairwise (fun f g _ _ hlt hlt' => absurd hlt' (lt_asymm hlt)) hfolded hsent

/-- **Held input agrees end to end.**  Along a steady run, whenever the client is live and flushed
and the server has applied every frame, both ends hold what the codes that are down drive. -/
theorem held_agrees (ref : SessionRef) (simRate : ℚ) (bindings : List Binding) (w : InputWorld) (hw : Fresh ref w) (now : ℤ)
    (steps : List Step) (hsteady : Meets (step ref simRate) (Steady ref) (start bindings w now) steps)
    (hcaught : (exec (step ref simRate) (start bindings w now) steps).CaughtUp ref) :
    let w' := exec (step ref simRate) (start bindings w now) steps
    w'.client.actions.heldSet = BindingTable.drivenBy bindings w'.device ∧
      (w'.server.world.sessions ref).actions.heldSet = BindingTable.drivenBy bindings w'.device := by
  intro w'
  have hstep : ∀ w s, Ok ref simRate bindings w → Steady ref w s → Ok ref simRate bindings (w.step ref simRate s) :=
    fun _ _ h hs => ok_step h hs
  have hok : Ok ref simRate bindings w' := Meets.invariant hstep (ok_start hw now) hsteady
  have hclient : w'.client.actions.heldSet = BindingTable.drivenBy bindings w'.device := by
    have hdriven := hok.client.driven
    rw [hcaught.flushed, heldAfter_nil, hok.client.down (by rw [hcaught.live]; nofun)] at hdriven
    exact hdriven
  refine ⟨hclient, ?_⟩
  rw [hok.held, hok.framesOf_eq hcaught, hok.client.sent]
  exact hclient

/-- A key that goes down, flushed, applied. -/
def pressed : List Step :=
  [.client (.openSession 0 0), .client (.onRaw (.key "KeyW" true) ⟨1, 1⟩), .client (.advance 1 0), .arrive,
    .server (.runInputPass 1 60)]

theorem held_agrees_pressed :
    let w' := exec (step 0 60) (start [.button "KeyW" "jump"] InputWorld.oneSession 0) pressed
    w'.client.actions.heldSet = BindingTable.drivenBy [.button "KeyW" "jump"] w'.device ∧
      (w'.server.world.sessions 0).actions.heldSet = BindingTable.drivenBy [.button "KeyW" "jump"] w'.device := by
  refine held_agrees 0 60 [.button "KeyW" "jump"] InputWorld.oneSession ⟨rfl, rfl, rfl⟩ 0 pressed ?_ ⟨?_, ?_, ?_⟩
  · refine ⟨trivial, ?_, ?_, trivial, ?_, trivial⟩
    · intro _
      refine ⟨?_, ?_⟩
      · rintro ⟨code, hcode, -⟩
        cases hcode
      · rw [if_neg (by decide)]
        exact fun hlive => absurd (by decide) hlive
    · intro clock hclock _
      rw [if_pos (by decide)]
      exact fun _ _ => ⟨by decide, nofun, by decide⟩
    · exact fun hsilent => absurd hsilent (by decide +kernel)
  · decide
  · decide
  · decide +kernel

/-- A key that goes down while the client is stalled. -/
def pressedStalled : List Step :=
  [.client (.openSession 0 0), .client (.checkLiveness true false), .client (.onRaw (.key "KeyW" true) ⟨1, 1⟩),
    .client (.checkLiveness false false), .client (.advance 1 0), .server (.runInputPass 1 60)]

/-- The key is down, every frame is applied, and neither end holds its action. -/
theorem lost_while_stalled :
    let w := exec (step 0 60) (start [.button "KeyW" "jump"] InputWorld.oneSession 0) pressedStalled
    w.CaughtUp 0 ∧ "jump" ∈ BindingTable.drivenBy [.button "KeyW" "jump"] w.device ∧ w.client.actions.held = [] ∧
      (w.server.world.sessions 0).actions.held = [] := by
  refine ⟨⟨?_, ?_, ?_⟩, ?_, ?_, ?_⟩
  · decide
  · decide
  · decide
  · exact ⟨"KeyW", by decide, by decide⟩
  · decide
  · decide +kernel

end HeldWorld
end Grove
