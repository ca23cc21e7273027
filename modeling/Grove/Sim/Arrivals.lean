import Grove.Sim.AckFrontier

/-! # What becomes of an arrival

A frame that is filed is folded once at most, never before the tick it was filed under, and at the
first pass from then on if its session is still there; frames of one session that arrive in order
are folded in order.

`Traced` runs the input path with two logs beside it: the frames filed, with the tick each was filed
under, and the frames folded, with the tick of the pass.  `applyAll_eq_foldl` says that what a pass
logs is what it folds. -/

namespace Grove

/-! ### What an admission state remembers -/

namespace AdmissionState

/-- A copy of `seq` would be refused: it arrived and no ack has passed it, or one has. -/
def Known (a : AdmissionState) (seq : ℤ) : Prop := seq ≤ a.frontier ∨ a.headroom.has seq = true

variable {a : AdmissionState} {seq : ℤ}

theorem Known.of_same {a' : AdmissionState} (h : a.Known seq) (h1 : a'.frontier = a.frontier)
    (h2 : a'.headroom = a.headroom) : a'.Known seq := by
  unfold Known
  rw [h1, h2]
  exact h

theorem Known.noteArrival (h : a.Known seq) (seq' frameTick tick : ℤ) :
    (a.noteArrival seq' frameTick tick).Known seq := by
  rcases h with h | h
  · exact Or.inl h
  · refine Or.inr ?_
    show (if a.frontier < seq' then a.headroom.set seq' (frameTick - tick) else a.headroom).has seq = true
    split_ifs
    · rw [OrderedMap.has_iff] at h ⊢
      rw [OrderedMap.get_set]
      split_ifs
      · exact ⟨_, rfl⟩
      · exact h
    · exact h

/-- An arrival not refused as a copy is known from then on. -/
theorem known_noteArrival (seq frameTick tick : ℤ) : (a.noteArrival seq frameTick tick).Known seq := by
  by_cases hle : seq ≤ a.frontier
  · exact Or.inl hle
  · refine Or.inr ?_
    show (if a.frontier < seq then a.headroom.set seq (frameTick - tick) else a.headroom).has seq = true
    rw [if_pos (not_le.mp hle), OrderedMap.has_iff]
    exact ⟨_, OrderedMap.get_set_self _ _ _⟩

theorem Known.resolve (h : a.Known seq) (seq' : ℤ) : (a.resolve seq').Known seq :=
  h.of_same (a.frontier_resolve seq') (a.headroom_resolve seq')

theorem Known.takeToken (h : a.Known seq) : a.takeToken.2.Known seq := by
  unfold AdmissionState.takeToken
  split_ifs <;> exact h

theorem Known.admitsAction (h : a.Known seq) (action : String) : (a.admitsAction action).2.Known seq := by
  unfold AdmissionState.admitsAction
  split_ifs <;> exact h

theorem Known.refill (h : a.Known seq) (simRate : ℚ) : (a.refill simRate).Known seq := by
  unfold AdmissionState.refill
  simp only
  split_ifs <;> exact h

/-- The loop forgets the headroom of the seqs it passes, and of no other. -/
theorem known_takeAckLoop : ∀ (fuel : ℕ) (a : AdmissionState) (e : Option ℤ), a.Known seq →
    (takeAckLoop fuel a e).1.Known seq
  | 0, _, _, h => h
  | fuel + 1, a, e, h => by
    unfold takeAckLoop
    simp only
    split_ifs
    · refine known_takeAckLoop fuel _ _ ?_
      rcases h with h | h
      · exact Or.inl (Int.le_add_one h)
      · by_cases hseq : seq = a.frontier + 1
        · exact Or.inl (le_of_eq hseq)
        · refine Or.inr ?_
          show (a.headroom.delete (a.frontier + 1)).has seq = true
          rw [OrderedMap.has_iff] at h ⊢
          rw [OrderedMap.get_delete_of_ne _ hseq]
          exact h
    · exact h

theorem Known.takeAck (h : a.Known seq) : a.takeAck.1.Known seq := known_takeAckLoop _ a none h

theorem known_of_not_refused (h : ¬ (seq ≤ a.ackSeq ∨ a.seen seq = true)) : ¬ a.Known seq := by
  rintro (hle | hhas)
  · exact h (Or.inl hle)
  · refine h (Or.inr ?_)
    unfold seen
    rw [hhas, Bool.true_or]

end AdmissionState

theorem known_foldInputEdges {seq : ℤ} (player : PlayerId) (edges : List InputAction) (acts : ActionStates)
    (a : AdmissionState) : a.Known seq → (foldInputEdges player AdmissionState.admitsAction edges acts a).2.1.Known seq :=
  @foldInputEdges_keeps _ _ (·.Known seq) (fun _ name h => h.admitsAction name) player edges acts a

namespace InputWorld

/-- No session forgets a seq. -/
def Remembers (f g : SessionRef → Session) : Prop :=
  ∀ ref seq, (f ref).admission.Known seq → (g ref).admission.Known seq

theorem Remembers.refl (f : SessionRef → Session) : Remembers f f := fun _ _ h => h

theorem Remembers.trans {f g k : SessionRef → Session} (h : Remembers f g) (h' : Remembers g k) : Remembers f k :=
  fun ref seq hk => h' ref seq (h ref seq hk)

theorem Remembers.update {f : SessionRef → Session} {ref : SessionRef} {s : Session}
    (h : ∀ seq, (f ref).admission.Known seq → s.admission.Known seq) : Remembers f (Function.update f ref s) := by
  intro x seq hx
  by_cases hxr : x = ref
  · rw [hxr] at hx
    rw [hxr, Function.update_self]
    exact h seq hx
  · rw [Function.update_of_ne hxr]
    exact hx

theorem remembers_applyAll : ∀ (out : List BufferedInput) (w : InputWorld),
    Remembers w.sessions (applyAll out w).1.sessions
  | [], w => Remembers.refl _
  | e :: out, w => by
    unfold applyAll
    split
    · exact remembers_applyAll out w
    · rename_i player _
      have hput : Remembers w.sessions
          (w.put e.session (applyBuffered player (w.sessions e.session) e.frame).1).sessions :=
        Remembers.update (fun seq h => (known_foldInputEdges player.id e.frame.actions _ _ h).resolve _)
      exact hput.trans (remembers_applyAll out _)

theorem remembers_settleAll (tick stale : ℤ) : ∀ (refs : List SessionRef) (w : InputWorld),
    Remembers w.sessions (settleAll tick stale refs w).1.sessions
  | [], w => Remembers.refl _
  | ref :: refs, w => by
    unfold settleAll
    split
    · exact remembers_settleAll tick stale refs w
    · rename_i player _
      have hput : Remembers w.sessions
          (w.put ref (settleSession tick stale player (w.sessions ref)).1).sessions :=
        Remembers.update (fun _ h => h)
      exact hput.trans (remembers_settleAll tick stale refs _)

theorem remembers_advanceAll (w : InputWorld) : Remembers w.sessions w.advanceAll.sessions := by
  unfold advanceAll
  generalize w.live = refs
  induction refs generalizing w with
  | nil => exact Remembers.refl _
  | cons ref refs ih =>
    rw [List.foldl_cons]
    split_ifs
    · have hput : Remembers w.sessions
          (w.put ref { w.sessions ref with actions := (w.sessions ref).actions.advanceTick }).sessions :=
        Remembers.update (fun _ h => h)
      exact hput.trans (ih _)
    · exact ih w

theorem remembers_step (w : InputWorld) (c : Call) : Remembers w.sessions (w.step c).sessions := by
  cases c with
  | admitInput ref frame tick simRate =>
    obtain ⟨a, b', hout, hcases⟩ := w.buffer.admitInput_cases ref (w.sessions ref) frame tick simRate
    show Remembers w.sessions (Function.update w.sessions ref
      (w.buffer.admitInput ref (w.sessions ref) frame tick simRate).2.1)
    rw [hout]
    refine Remembers.update (fun seq h => ?_)
    rcases hcases with ⟨rfl, -⟩ | ⟨-, -, ⟨arrived, harrived, rfl, -⟩ | ⟨filed, rfl, -⟩⟩
    · exact h
    · rcases harrived with rfl | rfl
      · exact (h.noteArrival _ _ _).resolve _
      · exact (h.noteArrival _ _ _).takeToken.resolve _
    · exact (h.noteArrival _ _ _).takeToken
  | runInputPass tick simRate =>
    show Remembers w.sessions (w.runInputPass tick simRate).1.sessions
    unfold runInputPass
    simp only
    have happly := remembers_applyAll (w.advanceAll.buffer.drainThrough tick).1
      { w.advanceAll with buffer := (w.advanceAll.buffer.drainThrough tick).2 }
    exact (remembers_advanceAll w).trans (happly.trans (remembers_settleAll _ _ _ _))
  | abandonStale ref tick pastGrace => exact Remembers.update (fun _ h => h)
  | takeAck ref => exact Remembers.update (fun _ h => h.takeAck)
  | dropSession ref => exact Remembers.refl _
  | refill ref simRate => exact Remembers.update (fun _ h => h.refill simRate)
  | takeToken ref => exact Remembers.update (fun _ h => h.takeToken)
  | noteTraffic | join | release => exact Remembers.update (fun _ h => h)

/-! ### What a pass folds -/

/-- Folds one drained frame, if its session has a live player. -/
def foldOne (w : InputWorld) (e : BufferedInput) : InputWorld :=
  match (w.sessions e.session).livePlayer with
  | none => w
  | some player => w.put e.session (applyBuffered player (w.sessions e.session) e.frame).1

/-- The session has a player and is open. -/
def Present (w : InputWorld) (ref : SessionRef) : Prop := (w.sessions ref).livePlayer.isSome

instance (w : InputWorld) (ref : SessionRef) : Decidable (w.Present ref) :=
  inferInstanceAs (Decidable (_ = true))

theorem livePlayer_congr {a b : Session} (h : SameStanding a b) : b.livePlayer = a.livePlayer := by
  unfold Session.livePlayer
  rw [h.closed, h.player]

theorem AllSame.present {w w' : InputWorld} (h : AllSame w w') (ref : SessionRef) : w'.Present ref ↔ w.Present ref := by
  unfold Present
  rw [livePlayer_congr (h ref)]

/-- A pass folds the drained frames whose sessions are present, in order, and no other. -/
theorem applyAll_eq_foldl : ∀ (out : List BufferedInput) (w : InputWorld),
    (applyAll out w).1 = (out.filter (fun e => w.Present e.session)).foldl foldOne w
  | [], _ => rfl
  | e :: out, w => by
    unfold applyAll
    cases hlive : (w.sessions e.session).livePlayer with
    | none =>
      have hout : ¬ w.Present e.session := by
        unfold Present
        rw [hlive]
        exact Bool.false_ne_true
      rw [List.filter_cons_of_neg (by simpa using hout)]
      exact applyAll_eq_foldl out w
    | some player =>
      have hin : w.Present e.session := by
        unfold Present
        rw [hlive]
        rfl
      have hfold : foldOne w e = w.put e.session (applyBuffered player (w.sessions e.session) e.frame).1 := by
        unfold foldOne
        rw [hlive]
      have hsame : AllSame w (foldOne w e) := by
        rw [hfold]
        exact SameStanding.update ⟨rfl, rfl, rfl, rfl⟩
      rw [List.filter_cons_of_pos (by simpa using hin), List.foldl_cons, hfold]
      refine (applyAll_eq_foldl out _).trans ?_
      rw [← hfold]
      congr 1
      refine List.filter_congr (fun x _ => ?_)
      rw [decide_eq_decide]
      exact hsame.present x.session

/-! ### The logs -/

/-- A frame that was filed: under which tick, and the server's tick then. -/
structure Filing where
  entry : BufferedInput
  slot : ℤ
  arrived : ℤ
deriving DecidableEq

/-- A frame that was folded, and the tick of the pass. -/
structure Folding where
  entry : BufferedInput
  tick : ℤ
deriving DecidableEq

/-- The input path with its logs. -/
structure Traced where
  world : InputWorld
  filed : List Filing
  folded : List Folding

def filedBy (w : InputWorld) : Call → List Filing
  | .admitInput ref frame tick simRate =>
    match (w.buffer.admitInput ref (w.sessions ref) frame tick simRate).1 with
    | .buffered slot | .clamped slot => [⟨⟨ref, frame⟩, slot, tick⟩]
    | .refused _ => []
  | _ => []

def foldedBy (w : InputWorld) : Call → List Folding
  | .runInputPass tick _ =>
    ((w.buffer.drainThrough tick).1.filter (fun e => w.Present e.session)).map (fun e => ⟨e, tick⟩)
  | _ => []

def Traced.step (t : Traced) (c : Call) : Traced where
  world := t.world.step c
  filed := t.filed ++ t.world.filedBy c
  folded := t.folded ++ t.world.foldedBy c

/-- A world whose logs begin. -/
def traced (w : InputWorld) : Traced := ⟨w, [], []⟩

/-- The frames a pass logs are those it folds. -/
theorem runInputPass_folds (w : InputWorld) (tick : ℤ) (simRate : ℚ) :
    (applyAll (w.buffer.drainThrough tick).1 { w.advanceAll with buffer := (w.buffer.drainThrough tick).2 }).1 =
      ((w.foldedBy (.runInputPass tick simRate)).map Folding.entry).foldl foldOne
        { w.advanceAll with buffer := (w.buffer.drainThrough tick).2 } := by
  rw [applyAll_eq_foldl]
  have hentries : (w.foldedBy (.runInputPass tick simRate)).map Folding.entry =
      (w.buffer.drainThrough tick).1.filter (fun e => w.Present e.session) := by
    unfold foldedBy
    rw [List.map_map]
    exact List.map_id _
  rw [hentries]
  congr 1
  refine List.filter_congr (fun e _ => ?_)
  rw [decide_eq_decide]
  exact (allSame_advanceAll w).present e.session

/-! ### One call -/

/-- An admission files the frame under its own tick or the horizon, whichever is first, and only a
frame not known; or it files nothing. -/
theorem admitInput_files (b : InputBuffer) (ref : SessionRef) (s : Session) (frame : InputFrame) (tick : ℤ)
    (simRate : ℚ) :
    (¬ s.admission.Known frame.seq ∧ (b.admitInput ref s frame tick simRate).2.1.admission.Known frame.seq ∧
      ((b.admitInput ref s frame tick simRate).1 = .buffered (min frame.tick (tick + futureHorizonTicks simRate)) ∨
        (b.admitInput ref s frame tick simRate).1 = .clamped (min frame.tick (tick + futureHorizonTicks simRate))) ∧
      (b.admitInput ref s frame tick simRate).2.2 =
        b.file (min frame.tick (tick + futureHorizonTicks simRate)) ⟨ref, frame⟩) ∨
    (∃ reason, (b.admitInput ref s frame tick simRate).1 = .refused reason) ∧
      (b.admitInput ref s frame tick simRate).2.2 = b := by
  unfold InputBuffer.admitInput
  simp only
  have hknown := (AdmissionState.known_noteArrival (a := s.admission) frame.seq frame.tick tick).takeToken
  split_ifs with hdup hfar hold hfut hclamp
  · exact Or.inr ⟨⟨_, rfl⟩, rfl⟩
  · exact Or.inr ⟨⟨_, rfl⟩, rfl⟩
  · exact Or.inr ⟨⟨_, rfl⟩, rfl⟩
  · exact Or.inr ⟨⟨_, rfl⟩, rfl⟩
  · rcases htok : (s.admission.noteArrival frame.seq frame.tick tick).takeToken with ⟨_ | _, a⟩
    · exact Or.inr ⟨⟨_, rfl⟩, rfl⟩
    · rw [htok] at hknown
      rw [min_eq_right (le_of_lt hclamp)]
      exact Or.inl ⟨AdmissionState.known_of_not_refused hdup, hknown, Or.inr rfl, rfl⟩
  · rcases htok : (s.admission.noteArrival frame.seq frame.tick tick).takeToken with ⟨_ | _, a⟩
    · exact Or.inr ⟨⟨_, rfl⟩, rfl⟩
    · rw [htok] at hknown
      rw [min_eq_left (not_lt.mp hclamp)]
      exact Or.inl ⟨AdmissionState.known_of_not_refused hdup, hknown, Or.inl rfl, rfl⟩

/-- What an admission does to the log and the buffer. -/
theorem filedBy_cases (w : InputWorld) (ref : SessionRef) (frame : InputFrame) (tick : ℤ) (simRate : ℚ) :
    (∃ g : Filing, g.entry = ⟨ref, frame⟩ ∧ g.arrived = tick ∧
      g.slot = min frame.tick (tick + futureHorizonTicks simRate) ∧
      w.filedBy (.admitInput ref frame tick simRate) = [g] ∧
      (w.step (.admitInput ref frame tick simRate)).buffer = w.buffer.file g.slot g.entry ∧
      ¬ (w.sessions ref).admission.Known frame.seq ∧
      ((w.step (.admitInput ref frame tick simRate)).sessions ref).admission.Known frame.seq) ∨
    w.filedBy (.admitInput ref frame tick simRate) = [] ∧
      (w.step (.admitInput ref frame tick simRate)).buffer = w.buffer := by
  have hself : ((w.step (.admitInput ref frame tick simRate)).sessions ref) =
      (w.buffer.admitInput ref (w.sessions ref) frame tick simRate).2.1 := Function.update_self _ _ _
  rcases admitInput_files w.buffer ref (w.sessions ref) frame tick simRate with
    ⟨hnew, hknown, hresult, hbuffer⟩ | ⟨⟨reason, hresult⟩, hbuffer⟩
  · refine Or.inl ⟨⟨⟨ref, frame⟩, _, tick⟩, rfl, rfl, rfl, ?_, hbuffer, hnew, by rw [hself]; exact hknown⟩
    rcases hresult with hresult | hresult
    · simp only [filedBy, hresult]
    · simp only [filedBy, hresult]
  · refine Or.inr ⟨?_, hbuffer⟩
    simp only [filedBy, hresult]

/-- A call that neither files nor drains. -/
def Call.quiet : Call → Bool
  | .admitInput .. | .runInputPass .. => false
  | _ => true

/-- Such a call logs nothing, and takes frames from the buffer at most. -/
theorem step_quiet (w : InputWorld) {c : Call} (h : c.quiet = true) :
    w.filedBy c = [] ∧ w.foldedBy c = [] ∧
      ((w.step c).buffer = w.buffer ∨ ∃ ref, (w.step c).buffer = w.buffer.dropSession ref) := by
  cases c with
  | admitInput | runInputPass => cases h
  | dropSession ref | release ref => exact ⟨rfl, rfl, Or.inr ⟨ref, rfl⟩⟩
  | _ => exact ⟨rfl, rfl, Or.inl rfl⟩

theorem step_pass_buffer (w : InputWorld) (tick : ℤ) (simRate : ℚ) :
    (w.step (.runInputPass tick simRate)).buffer = (w.buffer.drainThrough tick).2 :=
  runInputPass_buffer w tick simRate

theorem mem_foldedBy_pass {w : InputWorld} {tick : ℤ} {simRate : ℚ} {f : Folding} :
    f ∈ w.foldedBy (.runInputPass tick simRate) ↔
      f.tick = tick ∧ w.Present f.entry.session ∧ ∃ slot ≤ tick, f.entry ∈ w.buffer.slotAt slot := by
  unfold foldedBy
  rw [List.mem_map]
  constructor
  · rintro ⟨e, he, rfl⟩
    obtain ⟨hdrained, hpresent⟩ := List.mem_filter.mp he
    exact ⟨rfl, by simpa using hpresent, w.buffer.mem_drainThrough.mp hdrained⟩
  · rintro ⟨rfl, hpresent, hslot⟩
    exact ⟨f.entry, List.mem_filter.mpr ⟨w.buffer.mem_drainThrough.mpr hslot, by simpa using hpresent⟩, rfl⟩

/-! ### At most once, and not early -/

/-- Every frame filed is known and was filed once; what waits and what was folded are among them. -/
structure Sound (t : Traced) : Prop where
  known : ∀ g ∈ t.filed, (t.world.sessions g.entry.session).admission.Known g.entry.frame.seq
  distinct : (t.filed.map (fun g => frameKey g.entry)).Nodup
  slotted : ∀ slot, ∀ e ∈ t.world.buffer.slotAt slot, ∃ g ∈ t.filed, g.entry = e ∧ g.slot = slot
  accounted : (t.folded.map Folding.entry ++ t.world.buffer.waiting).Subperm (t.filed.map Filing.entry)
  notEarly : ∀ f ∈ t.folded, ∃ g ∈ t.filed, g.entry = f.entry ∧ g.slot ≤ f.tick

theorem Sound.step {t : Traced} (h : Sound t) (c : Call) : Sound (t.step c) := by
  have hkept : ∀ g ∈ t.filed, ((t.world.step c).sessions g.entry.session).admission.Known g.entry.frame.seq :=
    fun g hg => remembers_step t.world c _ _ (h.known g hg)
  by_cases hquiet : c.quiet = true
  · obtain ⟨hfiled, hfolded, hbuffer⟩ := step_quiet t.world hquiet
    have h1 : (t.step c).filed = t.filed := by
      show t.filed ++ t.world.filedBy c = t.filed
      rw [hfiled, List.append_nil]
    have h2 : (t.step c).folded = t.folded := by
      show t.folded ++ t.world.foldedBy c = t.folded
      rw [hfolded, List.append_nil]
    have hsub : (t.step c).world.buffer.waiting.Sublist t.world.buffer.waiting := by
      show (t.world.step c).buffer.waiting.Sublist _
      rcases hbuffer with hb | ⟨ref, hb⟩
      · rw [hb]
      · rw [hb]
        exact t.world.buffer.waiting_dropSession_sublist ref
    refine ⟨?_, ?_, ?_, ?_, ?_⟩
    · rw [h1]
      exact hkept
    · rw [h1]
      exact h.distinct
    · rw [h1]
      intro slot e he
      change e ∈ (t.world.step c).buffer.slotAt slot at he
      rcases hbuffer with hb | ⟨ref, hb⟩
      · rw [hb] at he
        exact h.slotted slot e he
      · rw [hb, InputBuffer.slotAt_dropSession] at he
        exact h.slotted slot e (List.mem_of_mem_filter he)
    · rw [h1, h2]
      exact (hsub.append_left _).subperm.trans h.accounted
    · rw [h1, h2]
      exact h.notEarly
  · cases c with
    | admitInput ref frame tick simRate =>
      have h2 : (t.step (.admitInput ref frame tick simRate)).folded = t.folded := List.append_nil _
      rcases filedBy_cases t.world ref frame tick simRate with
        ⟨g, hentry, -, -, hfiled, hbuffer, hnew, hknown⟩ | ⟨hfiled, hbuffer⟩
      · have h1 : (t.step (.admitInput ref frame tick simRate)).filed = t.filed ++ [g] :=
          congrArg (t.filed ++ ·) hfiled
        have hfresh : ∀ g' ∈ t.filed, frameKey g'.entry ≠ frameKey g.entry := by
          intro g' hg' he
          rw [hentry] at he
          obtain ⟨href, hseq⟩ := Prod.mk.inj he
          have hk := h.known g' hg'
          rw [href, hseq] at hk
          exact hnew hk
        refine ⟨?_, ?_, ?_, ?_, ?_⟩
        · rw [h1]
          intro g' hg'
          rcases List.mem_append.mp hg' with hg' | hg'
          · exact hkept g' hg'
          · obtain rfl := List.mem_singleton.mp hg'
            rw [hentry]
            exact hknown
        · rw [h1, List.map_append, List.nodup_append]
          refine ⟨h.distinct, List.nodup_singleton _, ?_⟩
          intro a ha b hb
          obtain ⟨g', hg', rfl⟩ := List.mem_map.mp ha
          rw [List.map_singleton, List.mem_singleton] at hb
          rw [hb]
          exact hfresh g' hg'
        · rw [h1]
          intro slot e he
          change e ∈ (t.world.step _).buffer.slotAt slot at he
          rw [hbuffer, InputBuffer.slotAt_file] at he
          have hold : e ∈ t.world.buffer.slotAt slot → ∃ g' ∈ t.filed ++ [g], g'.entry = e ∧ g'.slot = slot := by
            intro hmem
            obtain ⟨g', hg', hrest⟩ := h.slotted slot e hmem
            exact ⟨g', List.mem_append_left _ hg', hrest⟩
          split_ifs at he with hslot
          · rcases List.mem_append.mp he with he | he
            · exact hold (hslot ▸ he)
            · exact ⟨g, List.mem_append_right _ (List.mem_singleton_self g), (List.mem_singleton.mp he).symm,
                hslot.symm⟩
          · exact hold he
        · rw [h1, h2, List.map_append]
          have hperm : (t.folded.map Folding.entry ++
              (t.step (.admitInput ref frame tick simRate)).world.buffer.waiting).Perm
              ((t.folded.map Folding.entry ++ t.world.buffer.waiting) ++ [g.entry]) := by
            have hfile := t.world.buffer.waiting_file g.slot g.entry
            rw [← hbuffer] at hfile
            rw [List.append_assoc]
            exact (hfile.trans (List.perm_append_singleton g.entry _).symm).append_left _
          exact hperm.subperm.trans (h.accounted.append (List.Subperm.refl _))
        · rw [h1, h2]
          intro f hf
          obtain ⟨g', hg', hrest⟩ := h.notEarly f hf
          exact ⟨g', List.mem_append_left _ hg', hrest⟩
      · have h1 : (t.step (.admitInput ref frame tick simRate)).filed = t.filed :=
          (congrArg (t.filed ++ ·) hfiled).trans (List.append_nil _)
        have hb : (t.step (.admitInput ref frame tick simRate)).world.buffer = t.world.buffer := hbuffer
        refine ⟨?_, ?_, ?_, ?_, ?_⟩
        · rw [h1]
          exact hkept
        · rw [h1]
          exact h.distinct
        · rw [h1, hb]
          exact h.slotted
        · rw [h1, h2, hb]
          exact h.accounted
        · rw [h1, h2]
          exact h.notEarly
    | runInputPass tick simRate =>
      have h1 : (t.step (.runInputPass tick simRate)).filed = t.filed := List.append_nil _
      have hb : (t.step (.runInputPass tick simRate)).world.buffer = (t.world.buffer.drainThrough tick).2 :=
        step_pass_buffer t.world tick simRate
      have h2 : (t.step (.runInputPass tick simRate)).folded =
          t.folded ++ t.world.foldedBy (.runInputPass tick simRate) := rfl
      refine ⟨?_, ?_, ?_, ?_, ?_⟩
      · rw [h1]
        exact hkept
      · rw [h1]
        exact h.distinct
      · rw [h1, hb]
        intro slot e he
        rw [InputBuffer.slotAt_drainThrough] at he
        split_ifs at he
        · cases he
        · exact h.slotted slot e he
      · rw [h1, h2, hb, List.map_append, List.append_assoc]
        have hentries : ((t.world.foldedBy (.runInputPass tick simRate)).map Folding.entry).Sublist
            (t.world.buffer.drainThrough tick).1 := by
          unfold foldedBy
          rw [List.map_map]
          exact (List.map_id _).symm ▸ List.filter_sublist
        have hsplit : ((t.world.foldedBy (.runInputPass tick simRate)).map Folding.entry ++
            (t.world.buffer.drainThrough tick).2.waiting).Subperm t.world.buffer.waiting :=
          (hentries.append_right _).subperm.trans (t.world.buffer.drainThrough_perm tick).subperm
        exact ((List.Subperm.refl _).append hsplit).trans h.accounted
      · rw [h1, h2]
        intro f hf
        rcases List.mem_append.mp hf with hf | hf
        · exact h.notEarly f hf
        · obtain ⟨htick, -, slot, hslot, he⟩ := mem_foldedBy_pass.mp hf
          obtain ⟨g, hg, hentry, hgslot⟩ := h.slotted slot f.entry he
          exact ⟨g, hg, hentry, by rw [hgslot, htick]; exact hslot⟩
    | _ => exact absurd rfl hquiet

/-- No frame is folded twice. -/
theorem Sound.once {t : Traced} (h : Sound t) : (t.folded.map (fun f => frameKey f.entry)).Nodup := by
  have hsub : (t.folded.map Folding.entry).Subperm (t.filed.map Filing.entry) :=
    (List.sublist_append_left _ _).subperm.trans h.accounted
  obtain ⟨l, hperm, hlist⟩ := hsub
  have hdistinct : ((t.filed.map Filing.entry).map frameKey).Nodup := by
    rw [List.map_map]
    exact h.distinct
  have hfolded : ((t.folded.map Folding.entry).map frameKey).Nodup :=
    (hperm.map frameKey).nodup_iff.mp (hdistinct.sublist (hlist.map frameKey))
  rw [List.map_map] at hfolded
  exact hfolded

/-! ### At the first pass from its tick on -/

/-- The frames a session is sent, as they arrive. -/
def arrivalsOf (ref : SessionRef) (calls : List Call) : List InputFrame :=
  calls.filterMap (fun
    | .admitInput r frame _ _ => if r = ref then some frame else none
    | _ => none)

/-- A later frame has a later seq, and names no earlier tick. -/
def InOrder (frames : List InputFrame) : Prop := frames.Pairwise (fun a b => a.seq < b.seq ∧ a.tick ≤ b.tick)

/-- The simulation rate the call runs at, if it does at any. -/
def AtRate (simRate : ℚ) : Call → Prop
  | .admitInput _ _ _ r => r = simRate
  | _ => True

/-- The seqs of one session's folded frames, as they were folded. -/
def foldedSeqs (ref : SessionRef) (folded : List Folding) : List ℤ :=
  (folded.filter (fun f => f.entry.session = ref)).map (fun f => f.entry.frame.seq)

/-- The frames of one session wait in the order of their seqs, behind those folded and ahead of
those still to come. -/
structure Lined (ref : SessionRef) (simRate : ℚ) (t : Traced) (now : ℤ) (ahead : List InputFrame) : Prop where
  across : ∀ s s' e e', s < s' → e ∈ t.world.buffer.slotAt s → e' ∈ t.world.buffer.slotAt s' →
    e.session = ref → e'.session = ref → e.frame.seq < e'.frame.seq
  within : ∀ s, (t.world.buffer.slotAt s).Pairwise
    (fun e e' => e.session = ref → e'.session = ref → e.frame.seq < e'.frame.seq)
  past : (foldedSeqs ref t.folded).Pairwise (· < ·)
  behind : ∀ x ∈ foldedSeqs ref t.folded, ∀ s, ∀ e ∈ t.world.buffer.slotAt s, e.session = ref → x < e.frame.seq
  before : ∀ a ∈ ahead, ∀ s, ∀ e ∈ t.world.buffer.slotAt s, e.session = ref →
    e.frame.seq < a.seq ∧ s ≤ min a.tick (now + futureHorizonTicks simRate)
  beyond : ∀ a ∈ ahead, ∀ x ∈ foldedSeqs ref t.folded, x < a.seq
  inOrder : InOrder ahead

section lined
variable {ref : SessionRef} {simRate : ℚ} {t t' : Traced} {now now' : ℤ} {ahead : List InputFrame}

/-- Frames may leave the buffer, and time pass. -/
theorem Lined.thin (h : Lined ref simRate t now ahead) (hfolded : t'.folded = t.folded) (hnow : now ≤ now')
    (hslots : ∀ s, (t'.world.buffer.slotAt s).Sublist (t.world.buffer.slotAt s)) :
    Lined ref simRate t' now' ahead where
  across := fun s s' e e' hlt he he' => h.across s s' e e' hlt ((hslots s).subset he) ((hslots s').subset he')
  within := fun s => (h.within s).sublist (hslots s)
  past := by
    rw [hfolded]
    exact h.past
  behind := by
    rw [hfolded]
    exact fun x hx s e he => h.behind x hx s e ((hslots s).subset he)
  before := by
    intro a ha s e he hr
    obtain ⟨hseq, hslot⟩ := h.before a ha s e ((hslots s).subset he) hr
    exact ⟨hseq, hslot.trans (min_le_min le_rfl (by omega))⟩
  beyond := by
    rw [hfolded]
    exact h.beyond
  inOrder := h.inOrder

/-- What a drain returns of one session is in the order of its seqs. -/
theorem Lined.drained (h : Lined ref simRate t now ahead) (tick : ℤ) :
    (t.world.buffer.drainThrough tick).1.Pairwise
      (fun e e' => e.session = ref → e'.session = ref → e.frame.seq < e'.frame.seq) := by
  show ((t.world.buffer.due tick).flatMap t.world.buffer.slotAt).Pairwise _
  rw [List.pairwise_flatMap]
  refine ⟨fun s _ => h.within s, ?_⟩
  exact (t.world.buffer.due_pairwise tick).imp (fun hlt e he e' he' => h.across _ _ e e' hlt he he')

theorem Lined.pass (h : Lined ref simRate t now ahead) {tick : ℤ} (hnow : now ≤ tick) (rate : ℚ) :
    Lined ref simRate (t.step (.runInputPass tick rate)) tick ahead := by
  have hb : (t.step (.runInputPass tick rate)).world.buffer = (t.world.buffer.drainThrough tick).2 :=
    step_pass_buffer t.world tick rate
  have hslot : ∀ {s e}, e ∈ (t.step (.runInputPass tick rate)).world.buffer.slotAt s →
      tick < s ∧ e ∈ t.world.buffer.slotAt s := by
    intro s e he
    rw [hb, InputBuffer.slotAt_drainThrough] at he
    split_ifs at he with hs
    · cases he
    · exact ⟨not_le.mp hs, he⟩
  have hseqs : foldedSeqs ref (t.step (.runInputPass tick rate)).folded = foldedSeqs ref t.folded ++
      foldedSeqs ref (t.world.foldedBy (.runInputPass tick rate)) := by
    show foldedSeqs ref (t.folded ++ t.world.foldedBy (.runInputPass tick rate)) = _
    unfold foldedSeqs
    rw [List.filter_append, List.map_append]
  -- a seq just folded waited under a tick that is due
  have hnew : ∀ x ∈ foldedSeqs ref (t.world.foldedBy (.runInputPass tick rate)), ∃ s ≤ tick,
      ∃ e ∈ t.world.buffer.slotAt s, e.session = ref ∧ e.frame.seq = x := by
    intro x hx
    obtain ⟨f, hf, rfl⟩ := List.mem_map.mp hx
    obtain ⟨hf, hr⟩ := List.mem_filter.mp hf
    obtain ⟨-, -, s, hs, he⟩ := mem_foldedBy_pass.mp hf
    exact ⟨s, hs, f.entry, he, by simpa using hr, rfl⟩
  constructor
  · exact fun s s' e e' hlt he he' => h.across s s' e e' hlt (hslot he).2 (hslot he').2
  · intro s
    rw [hb, InputBuffer.slotAt_drainThrough]
    split_ifs
    · exact List.Pairwise.nil
    · exact h.within s
  · rw [hseqs, List.pairwise_append]
    refine ⟨h.past, ?_, ?_⟩
    · unfold foldedSeqs foldedBy
      rw [List.pairwise_map, List.filter_map, List.pairwise_map, List.filter_filter]
      have hsorted : ((t.world.buffer.drainThrough tick).1.filter (fun e =>
          ((fun f : Folding => decide (f.entry.session = ref)) ∘ fun e => ⟨e, tick⟩) e &&
            decide (t.world.Present e.session))).Pairwise
          (fun e e' => e.session = ref → e'.session = ref → e.frame.seq < e'.frame.seq) :=
        (h.drained tick).sublist List.filter_sublist
      refine hsorted.imp_of_mem (fun {e e'} he he' hlt => ?_)
      have hr : e.session = ref := by simpa using (Bool.and_eq_true_iff.mp (List.mem_filter.mp he).2).1
      have hr' : e'.session = ref := by simpa using (Bool.and_eq_true_iff.mp (List.mem_filter.mp he').2).1
      exact hlt hr hr'
    · intro x hx y hy
      obtain ⟨s, -, e, he, hr, rfl⟩ := hnew y hy
      exact h.behind x hx s e he hr
  · intro x hx s e he hr
    obtain ⟨hlt, he⟩ := hslot he
    rw [hseqs, List.mem_append] at hx
    rcases hx with hx | hx
    · exact h.behind x hx s e he hr
    · obtain ⟨s', hs', e', he', hr', rfl⟩ := hnew x hx
      exact h.across s' s e' e (lt_of_le_of_lt hs' hlt) he' he hr' hr
  · intro a ha s e he hr
    obtain ⟨hseq, hs⟩ := h.before a ha s e (hslot he).2 hr
    exact ⟨hseq, hs.trans (min_le_min le_rfl (by omega))⟩
  · intro a ha x hx
    rw [hseqs, List.mem_append] at hx
    rcases hx with hx | hx
    · exact h.beyond a ha x hx
    · obtain ⟨s, -, e, he, hr, rfl⟩ := hnew x hx
      exact (h.before a ha s e he hr).1
  · exact h.inOrder

/-- The session's next frame: filed, it is behind every other and under no earlier tick. -/
theorem Lined.arrive {frame : InputFrame} (h : Lined ref simRate t now (frame :: ahead)) {tick : ℤ}
    (hnow : now ≤ tick) : Lined ref simRate (t.step (.admitInput ref frame tick simRate)) tick ahead := by
  have hfolded : (t.step (.admitInput ref frame tick simRate)).folded = t.folded := List.append_nil _
  obtain ⟨hfirst, hrest⟩ := List.pairwise_cons.mp h.inOrder
  have hframe := h.before frame List.mem_cons_self
  rcases filedBy_cases t.world ref frame tick simRate with
    ⟨g, hentry, -, hgslot, -, hbuffer, -⟩ | ⟨-, hbuffer⟩
  · have hb : (t.step (.admitInput ref frame tick simRate)).world.buffer = t.world.buffer.file g.slot ⟨ref, frame⟩ := by
      rw [← hentry]
      exact hbuffer
    have hslot : ∀ {s e}, e ∈ (t.step (.admitInput ref frame tick simRate)).world.buffer.slotAt s →
        e ∈ t.world.buffer.slotAt s ∨ (s = g.slot ∧ e = ⟨ref, frame⟩) := by
      intro s e he
      rw [hb, InputBuffer.slotAt_file] at he
      split_ifs at he with hs
      · rcases List.mem_append.mp he with he | he
        · exact Or.inl (hs ▸ he)
        · exact Or.inr ⟨hs, List.mem_singleton.mp he⟩
      · exact Or.inl he
    -- no frame of the session waits under a later tick than the new one's
    have hlatest : ∀ s e, e ∈ t.world.buffer.slotAt s → e.session = ref → s ≤ g.slot := by
      intro s e he hr
      rw [hgslot]
      exact (hframe s e he hr).2.trans (min_le_min le_rfl (by omega))
    constructor
    · intro s s' e e' hlt he he' hr hr'
      rcases hslot he with he | ⟨hs, rfl⟩ <;> rcases hslot he' with he' | ⟨hs', rfl⟩
      · exact h.across s s' e e' hlt he he' hr hr'
      · exact (hframe s e he hr).1
      · have hle := hlatest s' e' he' hr'
        omega
      · omega
    · intro s
      rw [hb, InputBuffer.slotAt_file]
      split_ifs with hs
      · rw [List.pairwise_append]
        refine ⟨h.within g.slot, List.pairwise_singleton _ _, ?_⟩
        intro e he e' he' hr _
        rw [List.mem_singleton.mp he']
        exact (hframe g.slot e he hr).1
      · exact h.within s
    · rw [hfolded]
      exact h.past
    · rw [hfolded]
      intro x hx s e he hr
      rcases hslot he with he | ⟨-, rfl⟩
      · exact h.behind x hx s e he hr
      · exact h.beyond frame List.mem_cons_self x hx
    · intro a ha s e he hr
      rcases hslot he with he | ⟨hs, rfl⟩
      · obtain ⟨hseq, hle⟩ := h.before a (List.mem_cons_of_mem _ ha) s e he hr
        exact ⟨hseq, hle.trans (min_le_min le_rfl (by omega))⟩
      · obtain ⟨hseq, htick⟩ := hfirst a ha
        refine ⟨hseq, ?_⟩
        rw [hs, hgslot]
        exact min_le_min htick le_rfl
    · rw [hfolded]
      exact fun a ha => h.beyond a (List.mem_cons_of_mem _ ha)
    · exact hrest
  · have hb : (t.step (.admitInput ref frame tick simRate)).world.buffer = t.world.buffer := hbuffer
    have hthin : Lined ref simRate (t.step (.admitInput ref frame tick simRate)) tick (frame :: ahead) :=
      h.thin hfolded hnow (fun s => by rw [hb])
    exact ⟨hthin.across, hthin.within, hthin.past, hthin.behind,
      fun a ha => hthin.before a (List.mem_cons_of_mem _ ha), fun a ha => hthin.beyond a (List.mem_cons_of_mem _ ha),
      hrest⟩

/-- Another session's frame. -/
theorem Lined.other (h : Lined ref simRate t now ahead) {r : SessionRef} (hr : r ≠ ref) (frame : InputFrame)
    {tick : ℤ} (hnow : now ≤ tick) (rate : ℚ) :
    Lined ref simRate (t.step (.admitInput r frame tick rate)) tick ahead := by
  have hfolded : (t.step (.admitInput r frame tick rate)).folded = t.folded := List.append_nil _
  rcases filedBy_cases t.world r frame tick rate with ⟨g, hentry, -, -, -, hbuffer, -⟩ | ⟨-, hbuffer⟩
  · have hb : (t.step (.admitInput r frame tick rate)).world.buffer = t.world.buffer.file g.slot ⟨r, frame⟩ := by
      rw [← hentry]
      exact hbuffer
    have hslot : ∀ {s e}, e ∈ (t.step (.admitInput r frame tick rate)).world.buffer.slotAt s → e.session = ref →
        e ∈ t.world.buffer.slotAt s := by
      intro s e he hs
      rw [hb, InputBuffer.slotAt_file] at he
      split_ifs at he with hg
      · rcases List.mem_append.mp he with he | he
        · exact hg ▸ he
        · rw [List.mem_singleton.mp he] at hs
          exact absurd hs hr
      · exact he
    constructor
    · exact fun s s' e e' hlt he he' hs hs' => h.across s s' e e' hlt (hslot he hs) (hslot he' hs') hs hs'
    · intro s
      rw [hb, InputBuffer.slotAt_file]
      split_ifs with hg
      · rw [List.pairwise_append]
        refine ⟨h.within g.slot, List.pairwise_singleton _ _, ?_⟩
        intro e _ e' he' _ hs'
        rw [List.mem_singleton.mp he'] at hs'
        exact absurd hs' hr
      · exact h.within s
    · rw [hfolded]
      exact h.past
    · rw [hfolded]
      exact fun x hx s e he hs => h.behind x hx s e (hslot he hs) hs
    · intro a ha s e he hs
      obtain ⟨hseq, hle⟩ := h.before a ha s e (hslot he hs) hs
      exact ⟨hseq, hle.trans (min_le_min le_rfl (by omega))⟩
    · rw [hfolded]
      exact h.beyond
    · exact h.inOrder
  · have hb : (t.step (.admitInput r frame tick rate)).world.buffer = t.world.buffer := hbuffer
    exact h.thin hfolded hnow (fun s => by rw [hb])

theorem Lined.quiet (h : Lined ref simRate t now ahead) {c : Call} (hc : c.quiet = true) (hnow : now ≤ now') :
    Lined ref simRate (t.step c) now' ahead := by
  obtain ⟨-, hfolded, hbuffer⟩ := step_quiet t.world hc
  refine h.thin ?_ hnow (fun s => ?_)
  · show t.folded ++ t.world.foldedBy c = t.folded
    rw [hfolded, List.append_nil]
  · show ((t.world.step c).buffer.slotAt s).Sublist _
    rcases hbuffer with hb | ⟨r, hb⟩
    · rw [hb]
    · rw [hb, InputBuffer.slotAt_dropSession]
      exact List.filter_sublist

end lined

/-- The server's tick after the call, if the call names one. -/
def Call.tickAfter (now : ℤ) : Call → ℤ
  | .admitInput _ _ tick _ | .runInputPass tick _ | .abandonStale _ tick _ | .noteTraffic _ tick | .join _ _ tick =>
    tick
  | _ => now

/-- One call of a run, seen from one session. -/
theorem Lined.step {ref : SessionRef} {simRate : ℚ} {t : Traced} {now : ℤ} {c : Call} {calls : List Call}
    (h : Lined ref simRate t now (arrivalsOf ref (c :: calls))) (hnow : now ≤ c.tickAfter now)
    (hrate : AtRate simRate c) : Lined ref simRate (t.step c) (c.tickAfter now) (arrivalsOf ref calls) := by
  cases c with
  | admitInput r frame tick rate =>
    obtain rfl : rate = simRate := hrate
    by_cases hr : r = ref
    · subst hr
      have hcons : arrivalsOf r (.admitInput r frame tick rate :: calls) = frame :: arrivalsOf r calls := by
        simp [arrivalsOf]
      rw [hcons] at h
      exact h.arrive hnow
    · have hskip : arrivalsOf ref (.admitInput r frame tick rate :: calls) = arrivalsOf ref calls := by
        simp [arrivalsOf, hr]
      rw [hskip] at h
      exact h.other hr frame hnow rate
  | runInputPass tick rate => exact h.pass hnow rate
  | _ => exact Lined.quiet h rfl hnow

/-- Two frames in order, a copy of the second, and the passes that fold them. -/
def copied : List Call :=
  [.admitInput 0 ⟨1, 0, []⟩ 0 60, .admitInput 0 ⟨5, 1, []⟩ 0 60, .runInputPass 1 60, .admitInput 0 ⟨5, 1, []⟩ 1 60,
    .runInputPass 5 60]

end InputWorld

end Grove
