import Grove.Sim.Arrivals

/-! # What a session holds

A session's held actions are those its folded frames say, as long as every name they bring is
admitted and no silence releases them. -/

namespace Grove

namespace InputWorld

/-- The frames of one session that were folded, in the order they were. -/
def framesOf (ref : SessionRef) (folded : List Folding) : List InputFrame :=
  (folded.filter (fun f => f.entry.session = ref)).map (fun f => f.entry.frame)

theorem framesOf_append (ref : SessionRef) (folded folded' : List Folding) :
    framesOf ref (folded ++ folded') = framesOf ref folded ++ framesOf ref folded' := by
  unfold framesOf
  rw [List.filter_append, List.map_append]

/-- The names the session has claimed are among `names`. -/
structure Claims (names : List String) (s : Session) : Prop where
  among : ∀ name ∈ s.admission.actionNames, name ∈ names
  distinct : s.admission.actionNames.Nodup

variable {names : List String} {ref : SessionRef}

theorem Claims.of_eq {s s' : Session} (h : Claims names s) (heq : s'.admission.actionNames = s.admission.actionNames) :
    Claims names s' := ⟨heq ▸ h.among, heq ▸ h.distinct⟩

/-- Where there are few enough names, each of them is let through. -/
theorem admitsAction_names (hfew : names.dedup.length ≤ maxActionNames) {a : AdmissionState} {action : String}
    (haction : action ∈ names) (hamong : ∀ name ∈ a.actionNames, name ∈ names) (hdistinct : a.actionNames.Nodup) :
    (a.admitsAction action).1 = true ∧ (∀ name ∈ (a.admitsAction action).2.actionNames, name ∈ names) ∧
      (a.admitsAction action).2.actionNames.Nodup := by
  unfold AdmissionState.admitsAction
  by_cases hmem : action ∈ a.actionNames
  · rw [if_pos hmem]
    exact ⟨rfl, hamong, hdistinct⟩
  · have hnew : (a.actionNames ++ [action]).Nodup := by
      rw [List.nodup_append]
      refine ⟨hdistinct, List.nodup_singleton _, ?_⟩
      rintro x hx y hy rfl
      rw [List.mem_singleton.mp hy] at hx
      exact hmem hx
    have hsub : ∀ name ∈ a.actionNames ++ [action], name ∈ names := by
      intro name hname
      rcases List.mem_append.mp hname with hname | hname
      · exact hamong name hname
      · rw [List.mem_singleton.mp hname]
        exact haction
    have hlength : (a.actionNames ++ [action]).length ≤ names.dedup.length :=
      (hnew.subperm (fun name hname => List.mem_dedup.mpr (hsub name hname))).length_le
    rw [List.length_append, List.length_singleton] at hlength
    rw [if_neg hmem, if_neg (by omega)]
    exact ⟨rfl, hsub, hnew⟩

theorem heldSet_foldInputEdges (hfew : names.dedup.length ≤ maxActionNames) (player : PlayerId) :
    ∀ (edges : List InputAction) (acts : ActionStates) (a : AdmissionState), (∀ e ∈ edges, e.action ∈ names) →
      (∀ name ∈ a.actionNames, name ∈ names) → a.actionNames.Nodup →
        (foldInputEdges player AdmissionState.admitsAction edges acts a).1.heldSet = heldAfter edges acts.heldSet ∧
          (∀ name ∈ (foldInputEdges player AdmissionState.admitsAction edges acts a).2.1.actionNames, name ∈ names) ∧
            (foldInputEdges player AdmissionState.admitsAction edges acts a).2.1.actionNames.Nodup
  | [], _, _, _, hamong, hdistinct => ⟨rfl, hamong, hdistinct⟩
  | edge :: edges, acts, a, hnames, hamong, hdistinct => by
    obtain ⟨hadmits, hamong', hdistinct'⟩ :=
      admitsAction_names hfew (hnames edge List.mem_cons_self) hamong hdistinct
    rcases hadm : a.admitsAction edge.action with ⟨admitted, st⟩
    rw [hadm] at hadmits hamong' hdistinct'
    simp only at hadmits
    subst hadmits
    have ih := heldSet_foldInputEdges hfew player edges (acts.applyEdge edge) st
      (fun e he => hnames e (List.mem_cons_of_mem _ he)) hamong' hdistinct'
    have hedge : (acts.applyEdge edge).heldSet = heldAfter [edge] acts.heldSet := heldSet_foldl [edge] acts
    rw [hedge, ← heldAfter_append] at ih
    unfold foldInputEdges
    rw [hadm]
    simp only
    split <;> exact ih

theorem lastInputTick_foldInputEdges (player : PlayerId) (edges : List InputAction) (acts : ActionStates) (a : AdmissionState) :
    (foldInputEdges player AdmissionState.admitsAction edges acts a).2.1.lastInputTick = a.lastInputTick := by
  refine @foldInputEdges_keeps _ _ (fun st => st.lastInputTick = a.lastInputTick) (fun st name h => ?_) player edges acts a rfl
  unfold AdmissionState.admitsAction
  split_ifs <;> exact h

/-- One frame folded. -/
theorem heldSet_applyBuffered (hfew : names.dedup.length ≤ maxActionNames) (player : Player) {s : Session}
    {frame : InputFrame} (hnames : ∀ a ∈ frame.actions, a.action ∈ names) (hclaims : Claims names s) :
    (applyBuffered player s frame).1.actions.heldSet = heldAfter frame.actions s.actions.heldSet ∧
      Claims names (applyBuffered player s frame).1 ∧
        (applyBuffered player s frame).1.admission.lastInputTick = s.admission.lastInputTick := by
  obtain ⟨hheld, hamong, hdistinct⟩ := heldSet_foldInputEdges hfew player.id frame.actions s.actions s.admission hnames
    hclaims.among hclaims.distinct
  have hlast := lastInputTick_foldInputEdges player.id frame.actions s.actions s.admission
  have hadm : ∀ a : AdmissionState, (a.resolve frame.seq).actionNames = a.actionNames ∧
      (a.resolve frame.seq).lastInputTick = a.lastInputTick := by
    intro a
    unfold AdmissionState.resolve
    split_ifs <;> exact ⟨rfl, rfl⟩
  refine ⟨hheld, ⟨?_, ?_⟩, ((hadm _).2).trans hlast⟩
  · show ∀ name ∈ (AdmissionState.resolve _ frame.seq).actionNames, name ∈ names
    rw [(hadm _).1]
    exact hamong
  · show (AdmissionState.resolve _ frame.seq).actionNames.Nodup
    rw [(hadm _).1]
    exact hdistinct

/-- One session through a stretch of drained frames. -/
theorem heldSet_foldl_foldOne (hfew : names.dedup.length ≤ maxActionNames) : ∀ (out : List BufferedInput) (w : InputWorld),
    (∀ e ∈ out, e.session = ref → w.Present ref ∧ ∀ a ∈ e.frame.actions, a.action ∈ names) → Claims names (w.sessions ref) →
      ((out.foldl foldOne w).sessions ref).actions.heldSet =
          heldAfter (edgesOf ((out.filter (fun e => e.session = ref)).map BufferedInput.frame)) (w.sessions ref).actions.heldSet ∧
        Claims names ((out.foldl foldOne w).sessions ref) ∧
          ((out.foldl foldOne w).sessions ref).admission.lastInputTick = (w.sessions ref).admission.lastInputTick
  | [], _, _, hclaims => ⟨rfl, hclaims, rfl⟩
  | e :: out, w, hout, hclaims => by
    have hone : ((foldOne w e).sessions ref).actions.heldSet = heldAfter
          (edgesOf (([e].filter (fun e => e.session = ref)).map BufferedInput.frame)) (w.sessions ref).actions.heldSet ∧
        Claims names ((foldOne w e).sessions ref) ∧
          ((foldOne w e).sessions ref).admission.lastInputTick = (w.sessions ref).admission.lastInputTick ∧
            AllSame w (foldOne w e) := by
      unfold foldOne
      cases hlive : (w.sessions e.session).livePlayer with
      | none =>
        have hother : ¬ e.session = ref := by
          intro heq
          have hpresent := (hout e List.mem_cons_self heq).1
          unfold Present at hpresent
          rw [← heq, hlive] at hpresent
          cases hpresent
        rw [List.filter_cons_of_neg (by simpa using hother)]
        exact ⟨rfl, hclaims, rfl, fun _ => SameStanding.refl _⟩
      | some player =>
        have hsame : AllSame w (w.put e.session (applyBuffered player (w.sessions e.session) e.frame).1) :=
          SameStanding.update ⟨rfl, rfl, rfl, rfl⟩
        by_cases heq : e.session = ref
        · subst heq
          obtain ⟨-, hnames⟩ := hout e List.mem_cons_self rfl
          obtain ⟨hheld, hclaims', hlast⟩ := heldSet_applyBuffered hfew player hnames hclaims
          have hself : (w.put e.session (applyBuffered player (w.sessions e.session) e.frame).1).sessions e.session =
              (applyBuffered player (w.sessions e.session) e.frame).1 := Function.update_self _ _ _
          simp only [hself]
          rw [List.filter_cons_of_pos (by simp)]
          refine ⟨?_, hclaims', hlast, hsame⟩
          simpa [edgesOf] using hheld
        · have hput : (w.put e.session (applyBuffered player (w.sessions e.session) e.frame).1).sessions ref =
              w.sessions ref := Function.update_of_ne (Ne.symm heq) _ _
          simp only [hput]
          rw [List.filter_cons_of_neg (by simpa using heq)]
          exact ⟨rfl, hclaims, trivial, hsame⟩
    obtain ⟨hheld, hclaims', hlast, hsame⟩ := hone
    obtain ⟨ih, ihclaims, ihlast⟩ := heldSet_foldl_foldOne hfew out (foldOne w e) (fun e' he' href => by
      obtain ⟨hpresent, hnames⟩ := hout e' (List.mem_cons_of_mem _ he') href
      exact ⟨(hsame.present ref).mpr hpresent, hnames⟩) hclaims'
    rw [List.foldl_cons]
    refine ⟨?_, ihclaims, ihlast.trans hlast⟩
    rw [ih, hheld, ← heldAfter_append, ← edgesOf_append, ← List.map_append, ← List.filter_append]
    rfl

/-! ### A pass -/

/-- The session has been silent for too long, by the tick. -/
def Silent (tick stale : ℤ) (s : Session) : Prop := stale ≤ tick - s.admission.lastInputTick

instance (tick stale : ℤ) (s : Session) : Decidable (Silent tick stale s) :=
  inferInstanceAs (Decidable (_ ≤ _))

/-- Silence releases what is held, so it changes nothing where nothing is. -/
theorem heldSet_settleSession {tick stale : ℤ} {s : Session} (player : Player)
    (h : Silent tick stale s → s.actions.held = []) :
    (settleSession tick stale player s).1.actions.heldSet = s.actions.heldSet := by
  unfold settleSession
  simp only
  by_cases hsilent : Silent tick stale s
  · have hheld : s.actions.heldActions = [] := h hsilent
    have hsilent' : stale ≤ tick - s.admission.lastInputTick := hsilent
    rw [if_pos hsilent', if_pos hsilent', hheld]
    have hholds : ∀ (l : List String) (a : ActionStates),
        (l.foldl (fun (a : ActionStates) action => a.applyEdge ⟨action, .hold, some 0⟩) a).heldSet = a.heldSet := by
      intro l
      induction l with
      | nil => exact fun _ => rfl
      | cons name l ih => exact fun a => ih _
    exact hholds _ _
  · have hsilent' : ¬ stale ≤ tick - s.admission.lastInputTick := hsilent
    rw [if_neg hsilent', if_neg hsilent']
    rfl

theorem heldSet_settleAll (tick stale : ℤ) : ∀ (refs : List SessionRef) (w : InputWorld),
    (Silent tick stale (w.sessions ref) → (w.sessions ref).actions.heldSet = ∅) →
      ((settleAll tick stale refs w).1.sessions ref).actions.heldSet = (w.sessions ref).actions.heldSet ∧
        ((settleAll tick stale refs w).1.sessions ref).admission = (w.sessions ref).admission
  | [], _, _ => ⟨rfl, rfl⟩
  | r :: refs, w, h => by
    unfold settleAll
    cases hlive : (w.sessions r).livePlayer with
    | none => exact heldSet_settleAll tick stale refs w h
    | some player =>
      simp only
      have hput : ((w.put r (settleSession tick stale player (w.sessions r)).1).sessions ref).actions.heldSet =
            (w.sessions ref).actions.heldSet ∧
          ((w.put r (settleSession tick stale player (w.sessions r)).1).sessions ref).admission =
            (w.sessions ref).admission := by
        by_cases hr : ref = r
        · subst hr
          rw [show (w.put ref (settleSession tick stale player (w.sessions ref)).1).sessions ref =
            (settleSession tick stale player (w.sessions ref)).1 from Function.update_self _ _ _]
          refine ⟨heldSet_settleSession player (fun hsilent => ?_), rfl⟩
          exact List.eq_nil_iff_forall_not_mem.mpr (fun a ha => (h hsilent).subset ha)
        · rw [show (w.put r (settleSession tick stale player (w.sessions r)).1).sessions ref = w.sessions ref from
            Function.update_of_ne hr _ _]
          exact ⟨rfl, rfl⟩
      have ih := heldSet_settleAll tick stale refs (w.put r (settleSession tick stale player (w.sessions r)).1)
        (fun hsilent => by
          rw [hput.1]
          refine h ?_
          unfold Silent at hsilent ⊢
          rw [hput.2] at hsilent
          exact hsilent)
      exact ⟨ih.1.trans hput.1, ih.2.trans hput.2⟩

theorem heldSet_advanceAll (w : InputWorld) (ref : SessionRef) :
    (w.advanceAll.sessions ref).actions.heldSet = (w.sessions ref).actions.heldSet ∧
      (w.advanceAll.sessions ref).admission = (w.sessions ref).admission := by
  unfold advanceAll
  generalize w.live = refs
  induction refs generalizing w with
  | nil => exact ⟨rfl, rfl⟩
  | cons r refs ih =>
    rw [List.foldl_cons, (ih _).1, (ih _).2]
    split_ifs
    · by_cases hr : ref = r
      · subst hr
        rw [show (w.put ref { w.sessions ref with actions := (w.sessions ref).actions.advanceTick }).sessions ref =
          { w.sessions ref with actions := (w.sessions ref).actions.advanceTick } from Function.update_self _ _ _]
        exact ⟨rfl, rfl⟩
      · rw [show (w.put r { w.sessions r with actions := (w.sessions r).actions.advanceTick }).sessions ref =
          w.sessions ref from Function.update_of_ne hr _ _]
        exact ⟨rfl, rfl⟩
    · exact ⟨rfl, rfl⟩

/-- A pass folds into a session what it drains of it. -/
theorem heldSet_runInputPass (hfew : names.dedup.length ≤ maxActionNames) {w : InputWorld} {tick : ℤ} {rate : ℚ}
    (hnames : ∀ slot, ∀ e ∈ w.buffer.slotAt slot, e.session = ref → ∀ a ∈ e.frame.actions, a.action ∈ names)
    (hclaims : Claims names (w.sessions ref)) (hsilent : Silent tick (holdStaleTicks rate) (w.sessions ref) →
      (w.sessions ref).actions.held = [] ∧ ∀ e ∈ (w.buffer.drainThrough tick).1, e.session ≠ ref) :
    (((w.step (.runInputPass tick rate)).sessions ref).actions.heldSet = heldAfter
        (edgesOf (framesOf ref (w.foldedBy (.runInputPass tick rate)))) (w.sessions ref).actions.heldSet) ∧
      Claims names ((w.step (.runInputPass tick rate)).sessions ref) := by
  obtain ⟨hadvanced, hadmission⟩ := heldSet_advanceAll w ref
  set w₁ : InputWorld := { w.advanceAll with buffer := (w.advanceAll.buffer.drainThrough tick).2 } with hw₁
  set due := ((w.foldedBy (.runInputPass tick rate)).map Folding.entry) with hdue
  have hfolds : (applyAll (w.advanceAll.buffer.drainThrough tick).1 w₁).1 = due.foldl foldOne w₁ := by
    rw [hw₁, advanceAll_buffer]
    exact runInputPass_folds w tick rate
  have hdrained : ∀ e ∈ due, e ∈ (w.buffer.drainThrough tick).1 ∧ w.Present e.session := by
    intro e he
    obtain ⟨f, hf, rfl⟩ := List.mem_map.mp he
    obtain ⟨x, hx, rfl⟩ := List.mem_map.mp hf
    obtain ⟨hx, hpresent⟩ := List.mem_filter.mp hx
    exact ⟨hx, by simpa using hpresent⟩
  have hpresent : ∀ r, w₁.Present r ↔ w.Present r := (allSame_advanceAll w).present
  obtain ⟨hheld, hclaims', hlast⟩ := @heldSet_foldl_foldOne names ref hfew due w₁ (by
    intro e he href
    obtain ⟨hmem, hin⟩ := hdrained e he
    obtain ⟨slot, -, hslot⟩ := w.buffer.mem_drainThrough.mp hmem
    exact ⟨(hpresent ref).mpr (href ▸ hin), hnames slot e hslot href⟩) (hclaims.of_eq (by
      rw [show w₁.sessions ref = w.advanceAll.sessions ref from rfl, hadmission]))
  have hframes : (due.filter (fun e => e.session = ref)).map BufferedInput.frame =
      framesOf ref (w.foldedBy (.runInputPass tick rate)) := by
    rw [hdue, List.filter_map, List.map_map]
    rfl
  rw [hframes, show w₁.sessions ref = w.advanceAll.sessions ref from rfl, hadvanced] at hheld
  obtain ⟨hsettled, hsettledadm⟩ := @heldSet_settleAll ref tick (holdStaleTicks rate)
    (due.foldl foldOne w₁).live (due.foldl foldOne w₁) (by
      intro hs
      have hs' : Silent tick (holdStaleTicks rate) (w.sessions ref) := by
        unfold Silent at hs ⊢
        rw [hlast, show w₁.sessions ref = w.advanceAll.sessions ref from rfl, hadmission] at hs
        exact hs
      obtain ⟨hnone, hother⟩ := hsilent hs'
      have hnothing : framesOf ref (w.foldedBy (.runInputPass tick rate)) = [] := by
        rw [← hframes, List.map_eq_nil_iff, List.filter_eq_nil_iff]
        intro e he
        simpa using hother e (hdrained e he).1
      rw [hheld, hnothing]
      show (w.sessions ref).actions.heldSet = ∅
      unfold ActionStates.heldSet
      rw [hnone]
      ext a
      exact ⟨nofun, nofun⟩)
  have hpass : (w.step (.runInputPass tick rate)).sessions ref =
      (settleAll tick (holdStaleTicks rate) (due.foldl foldOne w₁).live (due.foldl foldOne w₁)).1.sessions ref := by
    show (w.runInputPass tick rate).1.sessions ref = _
    unfold runInputPass
    simp only
    rw [hfolds]
  rw [hpass]
  exact ⟨hsettled.trans hheld, hclaims'.of_eq (congrArg AdmissionState.actionNames hsettledadm)⟩

/-! ### Every other call -/

theorem actionNames_takeAckLoop : ∀ (fuel : ℕ) (a : AdmissionState) (e : Option ℤ),
    (AdmissionState.takeAckLoop fuel a e).1.actionNames = a.actionNames
  | 0, _, _ => rfl
  | fuel + 1, a, e => by
    unfold AdmissionState.takeAckLoop
    simp only
    split_ifs
    · exact actionNames_takeAckLoop fuel _ _
    · rfl

/-- Only a pass moves what a session holds and the names it has claimed. -/
theorem step_keeps (w : InputWorld) {c : Call} (hc : ∀ tick rate, c ≠ .runInputPass tick rate) (ref : SessionRef) :
    ((w.step c).sessions ref).actions = (w.sessions ref).actions ∧
      ((w.step c).sessions ref).admission.actionNames = (w.sessions ref).admission.actionNames := by
  have hput : ∀ (r : SessionRef) (s : Session), s.actions = (w.sessions r).actions →
      s.admission.actionNames = (w.sessions r).admission.actionNames →
        ((Function.update w.sessions r s) ref).actions = (w.sessions ref).actions ∧
          ((Function.update w.sessions r s) ref).admission.actionNames = (w.sessions ref).admission.actionNames := by
    intro r s hactions hnames
    by_cases hr : ref = r
    · subst hr
      rw [Function.update_self]
      exact ⟨hactions, hnames⟩
    · rw [Function.update_of_ne hr]
      exact ⟨rfl, rfl⟩
  have htoken : ∀ a : AdmissionState, a.takeToken.2.actionNames = a.actionNames := by
    intro a
    unfold AdmissionState.takeToken
    split_ifs <;> rfl
  have hresolve : ∀ (a : AdmissionState) (seq : ℤ), (a.resolve seq).actionNames = a.actionNames := by
    intro a seq
    unfold AdmissionState.resolve
    split_ifs <;> rfl
  cases c with
  | runInputPass tick rate => exact absurd rfl (hc tick rate)
  | admitInput r frame tick rate =>
    obtain ⟨a, b', hout, hcases⟩ := w.buffer.admitInput_cases r (w.sessions r) frame tick rate
    have hs : (w.buffer.admitInput r (w.sessions r) frame tick rate).2.1 = { w.sessions r with admission := a } :=
      congrArg Prod.fst hout
    have hstep : (w.step (.admitInput r frame tick rate)).sessions =
        Function.update w.sessions r (w.buffer.admitInput r (w.sessions r) frame tick rate).2.1 := rfl
    rw [hstep, hs]
    refine hput r _ rfl ?_
    show a.actionNames = _
    rcases hcases with ⟨rfl, -⟩ | ⟨-, -, ⟨arrived, harrived, rfl, -⟩ | ⟨filed, rfl, -⟩⟩
    · rfl
    · rw [hresolve]
      rcases harrived with rfl | rfl
      · rfl
      · exact htoken _
    · exact htoken _
  | abandonStale r tick pastGrace => exact hput r _ rfl rfl
  | takeAck r => exact hput r _ rfl (actionNames_takeAckLoop _ _ _)
  | dropSession r => exact ⟨rfl, rfl⟩
  | refill r rate =>
    refine hput r _ rfl ?_
    show (AdmissionState.refill _ rate).actionNames = _
    unfold AdmissionState.refill
    simp only
    split_ifs <;> rfl
  | takeToken r => exact hput r _ rfl (htoken _)
  | noteTraffic r tick => exact hput r _ rfl rfl
  | join r player tick => exact hput r _ rfl rfl
  | release r => exact hput r _ rfl rfl

end InputWorld
end Grove
