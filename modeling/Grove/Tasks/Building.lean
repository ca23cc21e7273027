import Grove.Tasks.Attempts

/-! # A build that does not fail

When no box loses or throws away the work it took up, every claim of a live task keeps a box
at work on it, and the steps still ahead of that box settle the task `SUCCESSFUL`.  This is
the other half of what the attempt count is for: `builds_fail_when_failed` joins the two, and
`build_gave_up_unfailed` is four announcements of one build read by four boxes at once, each
of which could have built it. -/

namespace Grove.Tasks

open Grove.Api Workshop

/-- No box dies, throws or gives up on an answer, the task's source compiles, and the clock
its row is written by does not go back. -/
def Healthy (t : TaskId) (s : Workshop) : Step → Prop
  | .lose _ | .throws _ | .die _ => False
  | .produce b result =>
    match s.boxes[b]? with
    | some ⟨_, .building _ _ task _⟩ => task = t → result = .built
    | _ => True
  | .effect c now => ∀ call ∈ s.calls[c]?, call.task = t →
      ∀ row ∈ s.tasks[t]?, ∀ started ∈ row.startedAt, started ≤ now
  | _ => True

instance (t : TaskId) (s : Workshop) (e : Step) : Decidable (Healthy t s e) := by
  unfold Healthy
  split
  case h_4 => split <;> infer_instance
  all_goals infer_instance

structure Hale (limit : ℕ) (t : TaskId) (s : Workshop) : Prop where
  call : ∀ call ∈ s.calls, call.task = t → (call.update = claimUpdate ∨ call.update.status = .SUCCESSFUL) ∧
    call.outcome ≠ some .failed
  attempts : ∀ (c : ℕ) (row : TaskRow), s.calls[c]? = some ⟨t, claimUpdate, some (.advanced row)⟩ → OfKind s .BUILD t →
    row.attempts ≤ limit
  status : ∀ row, s.tasks[t]? = some row → row.status = .SUCCESSFUL ∨ row.status ∈ LIVE
  atWork : ∀ row, s.tasks[t]? = some row → row.status ∈ LIVE → ∀ (c : ℕ) call, s.calls[c]? = some call →
    call.task = t → call.update = claimUpdate → running s c = true

variable {limit : ℕ} {t : TaskId} {s s' : Workshop} {e : Step} {b c : ℕ}

theorem Hale.start : Hale limit t Workshop.start where
  call _ h := by cases h
  attempts c _ h := by simp [Workshop.start] at h
  status _ h := by simp [Workshop.start] at h
  atWork _ h := by simp [Workshop.start] at h

/-- The status route writes down what a claim or a verdict says of a live task. -/
theorem advance_isSome {row : TaskRow} {update : TaskStatusUpdate} {now : ℕ} (hfinished : row.finishedAt = none)
    (hupdate : update = claimUpdate ∨ isTerminal update.status = true)
    (hclock : ∀ started ∈ row.startedAt, started ≤ now) : ∃ row', row.advance update row.startedAt now = some row' := by
  suffices h : row.advance update row.startedAt now ≠ none from Option.ne_none_iff_exists'.mp h
  unfold TaskRow.advance
  rcases hupdate with rfl | hterminal
  · simp [claimUpdate, isTerminal, hfinished, finishAfterStart]
  · have hne : update.status ≠ .IN_PROGRESS := fun heq => by
      rw [heq] at hterminal
      cases hterminal
    cases hstarted : row.startedAt with
    | none => simp [hterminal, hne, finishAfterStart]
    | some started => simp [hterminal, hne, finishAfterStart, hclock started hstarted]

theorem not_done_of_live {row : TaskRow} (ht : s.tasks[t]? = some row) (hlive : row.status ∈ LIVE) : ¬ Done s t := by
  rintro ⟨row', ht', hterminal⟩
  rw [ht] at ht'
  cases ht'
  rw [mem_LIVE_iff, hterminal] at hlive
  cases hlive

/-- A box leaves no claim of a live task. -/
theorem Hale.turns (h : Hale limit t s) (hc : Counted limit s) (hh : Healthy t s e) {box : Box} {phase : Phase}
    (hbox : s.boxes[b]? = some box) (why : Turns limit s b e box phase) {row : TaskRow} (ht : s.tasks[t]? = some row)
    (hlive : row.status ∈ LIVE) {call : StatusCall} (hcall : s.calls[c]? = some call) (htask : call.task = t)
    (hclaim : box.phase.claim = some c) : phase.claim = some c := by
  have hworks := hc.box box (List.mem_of_getElem? hbox)
  have hdone := not_done_of_live ht hlive
  -- the task a claim being settled or built is of
  have hof : ∀ {u : TaskId}, c ∈ claims s u → u = t := by
    intro u hu
    obtain ⟨row', hrow'⟩ := mem_claims.mp hu
    rw [hcall] at hrow'
    cases hrow'
    exact htask
  cases why with
  | lost | threw | died => exact hh.elim
  | @failed _ entry claim k u update hphase hanswer =>
    rcases hphase with hphase | hphase
    · rw [hphase] at hclaim
      cases hclaim
      rw [hcall] at hanswer
      cases hanswer
      exact absurd rfl (h.call _ (List.mem_of_getElem? hcall) htask).2
    · simp only [Works, hphase, hanswer, Option.some.injEq, exists_eq_left'] at hworks
      rw [hphase] at hclaim
      cases hclaim
      exact absurd rfl (h.call _ (List.mem_of_getElem? hanswer) (hof hworks.2)).2
  | @refused _ entry k u update hphase hanswer =>
    rw [hphase] at hclaim
    cases hclaim
    rw [hcall] at hanswer
    cases hanswer
    have hfits := (hc.call _ (List.mem_of_getElem? hcall)).answer
    exact absurd (htask ▸ hfits) hdone
  | @settled _ entry claim k u update out hphase hanswer hout =>
    simp only [Works, hphase, hanswer, Option.some.injEq, exists_eq_left'] at hworks
    rw [hphase] at hclaim
    cases hclaim
    obtain rfl := hof hworks.2
    have hfits := (hc.call _ (List.mem_of_getElem? hanswer)).answer
    cases out with
    | advanced row' => exact absurd (hfits.2 hworks.1) hdone
    | refused => exact absurd hfits hdone
    | failed => exact absurd rfl hout
  | builds hphase _ _ _ =>
    rw [hphase] at hclaim
    exact hclaim
  | @unavailable _ entry claim u attempts text hphase =>
    simp only [Works, hphase] at hworks
    rw [hphase] at hclaim
    cases hclaim
    obtain ⟨kind, _⟩ := box
    subst hphase
    simp only [Healthy, hbox] at hh
    cases hh (hof hworks)
  | acked hphase =>
    rw [hphase] at hclaim
    cases hclaim

/-- What goes out of a task no box fails claims it or settles it `SUCCESSFUL`. -/
theorem Hale.sends (h : Hale limit t s) (hc : Counted limit s) (hh : Healthy t s e) {box : Box}
    {update : TaskStatusUpdate} {phase : ℕ → Phase} (hbox : s.boxes[b]? = some box)
    (why : Sends limit s b e box t update phase) : update = claimUpdate ∨ update.status = .SUCCESSFUL := by
  have hworks := hc.box box (List.mem_of_getElem? hbox)
  cases why with
  | takes _ _ _ => exact .inl rfl
  | @givesUp _ entry call t update row hphase hkind hcall hspent =>
    simp only [Works, hphase, hcall, hkind, Option.some.injEq, exists_eq_left'] at hworks
    obtain ⟨rfl, hbuild⟩ := hworks
    exact absurd hspent (Nat.not_lt_of_le (h.attempts call row hcall hbuild))
  | uploads _ _ _ => exact .inr rfl
  | @produced result _ entry claim t attempts update hphase _ hbuilt _ =>
    obtain ⟨kind, _⟩ := box
    subst hphase
    simp only [Healthy, hbox] at hh
    exact .inr (hbuilt (hh trivial))

/-- A box that sends keeps the claim it is at work on. -/
theorem Sends.claim {box : Box} {u : TaskId} {update : TaskStatusUpdate} {phase : ℕ → Phase}
    (why : Sends limit s b e box u update phase) (hclaim : box.phase.claim = some c) (n : ℕ) : (phase n).claim = some c := by
  cases why with
  | takes _ hphase _ =>
    rw [hphase] at hclaim
    cases hclaim
  | givesUp hphase _ _ _ => rw [hphase] at hclaim; exact hclaim
  | uploads hphase _ _ => rw [hphase] at hclaim; exact hclaim
  | produced hphase _ _ _ => rw [hphase] at hclaim; exact hclaim

/-- A box that sends a claim is at work on it. -/
theorem Sends.claims {box : Box} {u : TaskId} {update : TaskStatusUpdate} {phase : ℕ → Phase}
    (why : Sends limit s b e box u update phase) (hclaim : update = claimUpdate) (n : ℕ) : (phase n).claim = some n := by
  cases why with
  | takes _ _ _ => rfl
  | givesUp | uploads => cases hclaim
  | produced _ hterminal _ _ =>
    rw [hclaim] at hterminal
    cases hterminal

theorem getElem?_setPhase {box : Box} {phase : Phase} (hbox : s.boxes[b]? = some box) :
    (s.setPhase b phase).boxes[b]? = some { box with phase } := by
  simp [setPhase, hbox]

theorem running_setPhase {box : Box} {phase : Phase} (hbox : s.boxes[b]? = some box)
    (hkeep : box.phase.claim = some c → phase.claim = some c) (hboxes : s'.boxes = (s.setPhase b phase).boxes)
    (h : running s c = true) : running s' c = true := by
  obtain ⟨box', hmem, hclaim⟩ := running_iff.mp h
  obtain ⟨i, hi⟩ := List.mem_iff_getElem?.mp hmem
  rw [running_iff, hboxes]
  by_cases hib : b = i
  · subst hib
    rw [hbox] at hi
    cases hi
    exact ⟨_, List.mem_of_getElem? (getElem?_setPhase hbox), hkeep hclaim⟩
  · refine ⟨box', List.mem_of_getElem? (i := i) ?_, hclaim⟩
    simp only [setPhase, List.getElem?_modify, if_neg hib, hi]
    rfl

/-- What a move has to keep that answers no call. -/
theorem Hale.of_quiet (h : Hale limit t s) (hc : Counted limit s) (hg : Grows s s')
    (htask : ∀ row, s'.tasks[t]? = some row → s.tasks[t]? = some row ∨ s.tasks.length ≤ t ∧ row.status = .NOT_STARTED)
    (hcalls : s'.calls = s.calls)
    (hrun : ∀ row, s.tasks[t]? = some row → row.status ∈ LIVE → ∀ (c : ℕ) call, s.calls[c]? = some call → call.task = t →
      running s c = true → running s' c = true) : Hale limit t s' where
  call call hmem := h.call call (hcalls ▸ hmem)
  attempts c row hcall hkind := by
    rw [hcalls] at hcall
    exact h.attempts c row hcall (hkind.shrink hg (hc.call _ (List.mem_of_getElem? hcall)).task)
  status row ht := by
    obtain hold | ⟨_, hnew⟩ := htask row ht
    · exact h.status row hold
    · exact .inr (by rw [hnew]; decide)
  atWork row ht hlive c call hcall hof hclaim := by
    rw [hcalls] at hcall
    obtain hold | ⟨hge, _⟩ := htask row ht
    · exact hrun row hold hlive c call hcall hof (h.atWork row hold hlive c call hcall hof hclaim)
    · exact (hc.none_new hge (List.mem_of_getElem? hcall) hof).elim

/-- An answer of the status route, in a state whose tasks it left alone. -/
theorem Hale.answered (h : Hale limit t s) {u : TaskId} {update : TaskStatusUpdate} {out : Answer}
    (hcall : s.calls[c]? = some ⟨u, update, none⟩) (hadvanced : ∀ row, out ≠ .advanced row) (hfailed : out = .failed → u ≠ t) :
    Hale limit t { s with calls := s.calls.set c ⟨u, update, some out⟩ } where
  call call hmem hof := by
    obtain hmem | rfl := List.mem_or_eq_of_mem_set hmem
    · exact h.call call hmem hof
    · refine ⟨(h.call _ (List.mem_of_getElem? hcall) hof).1, fun heq => ?_⟩
      exact hfailed (Option.some.inj heq) hof
  attempts c' row hcall' hkind := by
    obtain hbefore | ⟨_, heq⟩ := (getElem?_answered hcall (by simp)).mp hcall'
    · exact h.attempts c' row hbefore hkind
    · cases heq
      exact absurd rfl (hadvanced row)
  status := h.status
  atWork row ht hlive c' call hcall' hof hclaim := by
    change running s c' = true
    by_cases hsame : c = c'
    · subst hsame
      simp only [List.getElem?_set_self (List.getElem?_eq_some_iff.mp hcall).1, Option.some.injEq] at hcall'
      subst hcall'
      exact h.atWork row ht hlive c _ hcall hof hclaim
    · simp only [List.getElem?_set, if_neg hsame] at hcall'
      exact h.atWork row ht hlive c' call hcall' hof hclaim

/-- A claim of a task no box fails is accepted within the limit. -/
theorem Hale.within (hlimit : 0 < limit) (h : Hale limit t s) (hc : Counted limit s) {now : ℕ}
    (hin : InTurn limit s (.effect c now)) {row : TaskRow} (hcall : s.calls[c]? = some ⟨t, claimUpdate, none⟩)
    (ht : s.tasks[t]? = some row) (hbuild : row.work = .BUILD) (hlive : row.status ∈ LIVE) : row.attempts < limit := by
  by_contra hge
  have hidle := hin _ hcall rfl rfl row ht hbuild hlive (Nat.le_of_not_lt hge)
  -- every claim of the task is running and none is, so there is none
  have hnone : claims s t = ∅ := by
    rw [Finset.eq_empty_iff_forall_notMem]
    intro d hd
    obtain ⟨row', hrow'⟩ := mem_claims.mp hd
    have hrun := h.atWork row ht hlive d _ hrow' rfl rfl
    rw [hidle d hd] at hrun
    cases hrun
  have hzero := hc.attempts t row ht
  rw [hnone, Finset.card_empty] at hzero
  omega

theorem Hale.updated (hlimit : 0 < limit) (h : Hale limit t s) (hc : Counted limit s) {u : TaskId} {now : ℕ}
    {update : TaskStatusUpdate} {row row' : TaskRow} (hin : InTurn limit s (.effect c now))
    (hcall : s.calls[c]? = some ⟨u, update, none⟩) (hu : s.tasks[u]? = some row) (hlive : row.status ∈ LIVE)
    (hnext : row.advance update row.startedAt now = some row') :
    Hale limit t { s with tasks := s.tasks.set u row', calls := s.calls.set c ⟨u, update, some (.advanced row')⟩ } := by
  have hg : Grows s
      { s with tasks := s.tasks.set u row', calls := s.calls.set c ⟨u, update, some (.advanced row')⟩ } :=
    resolved_grows hcall rfl (.advanced row') (updated_task hu hlive hnext)
  obtain ⟨_, hstatus, hattempts, _⟩ := TaskRow.advance_eq_some hnext
  refine ⟨fun call hmem hof => ?_, fun c' new hcall' hkind => ?_, fun new ht => ?_, fun new ht hnew c' call hcall' hof hclaim => ?_⟩
  · obtain hmem | rfl := List.mem_or_eq_of_mem_set hmem
    · exact h.call call hmem hof
    · exact ⟨(h.call _ (List.mem_of_getElem? hcall) hof).1, nofun⟩
  · obtain hbefore | ⟨rfl, heq⟩ := (getElem?_answered hcall (by simp)).mp hcall'
    · exact h.attempts c' new hbefore (hkind.shrink hg (hc.call _ (List.mem_of_getElem? hbefore)).task)
    · cases heq
      have hbuild : row.work = .BUILD := by
        obtain ⟨old, hold, hwork⟩ := hkind.shrink hg ⟨row, hu⟩
        rw [hu] at hold
        cases hold
        exact (TaskWork.eq_build_iff _).mp hwork
      have hwithin := h.within hlimit hc hin hcall hu hbuild hlive
      simp only [hattempts, claimUpdate, if_true]
      omega
  · by_cases hut : u = t
    · subst hut
      simp only [List.getElem?_set_self (List.getElem?_eq_some_iff.mp hu).1, Option.some.injEq] at ht
      subst ht
      rw [hstatus]
      obtain rfl | hsettles := (h.call _ (List.mem_of_getElem? hcall) rfl).1
      · exact .inr (by decide)
      · exact .inl hsettles
    · simp only [List.getElem?_set, if_neg hut] at ht
      exact h.status new ht
  · -- the same boxes are at work, on calls that name what they named
    change running s c' = true
    obtain ⟨old, hold, holdlive⟩ : ∃ old, s.tasks[t]? = some old ∧ old.status ∈ LIVE := by
      by_cases hut : u = t
      · exact ⟨row, hut ▸ hu, hlive⟩
      · simp only [List.getElem?_set, if_neg hut] at ht
        exact ⟨new, ht, hnew⟩
    by_cases hsame : c = c'
    · subst hsame
      simp only [List.getElem?_set_self (List.getElem?_eq_some_iff.mp hcall).1, Option.some.injEq] at hcall'
      subst hcall'
      exact h.atWork old hold holdlive c _ hcall hof hclaim
    · simp only [List.getElem?_set, if_neg hsame] at hcall'
      exact h.atWork old hold holdlive c' call hcall' hof hclaim

theorem Hale.moves (hlimit : 0 < limit) (h : Hale limit t s) (hc : Counted limit s) (hm : Moves limit s e s')
    (hg : Grows s s') (hin : InTurn limit s e) (hh : Healthy t s e) : Hale limit t s' := by
  cases hm with
  | still htasks hcalls hboxes _ =>
    refine h.of_quiet hc hg (fun row ht => .inl (htasks ▸ ht)) hcalls fun _ _ _ c _ _ _ hrun => ?_
    rwa [running, hboxes]
  | created hpos =>
    refine h.of_quiet hc hg (fun row ht => (getElem?_created ht).imp_right ?_) rfl fun _ _ _ c _ _ _ hrun => hrun
    rintro ⟨hge, rfl⟩
    exact ⟨hge, rfl⟩
  | joined =>
    refine h.of_quiet hc hg (fun row ht => .inl ht) rfl fun _ _ _ c _ _ _ hrun => ?_
    obtain ⟨box, hmem, hclaim⟩ := running_iff.mp hrun
    exact running_iff.mpr ⟨box, List.mem_append_left _ hmem, hclaim⟩
  | turned hbox why htasks hcalls hboxes _ =>
    exact h.of_quiet hc hg (fun row ht => .inl (htasks ▸ ht)) hcalls fun row ht hlive c call hcall hof hrun =>
      running_setPhase hbox (h.turns hc hh hbox why ht hlive hcall hof) hboxes hrun
  | @sent _ _ b box u update phase hbox why htasks hcalls hboxes _ =>
    refine ⟨fun call hmem hof => ?_, fun c row hcall hkind => ?_, fun row ht => h.status row (htasks ▸ ht),
      fun row ht hlive c call hcall hof hclaim => ?_⟩
    · rw [hcalls] at hmem
      obtain hmem | hmem := List.mem_append.mp hmem
      · exact h.call call hmem hof
      · rw [List.mem_singleton.mp hmem] at hof ⊢
        obtain rfl : u = t := hof
        exact ⟨h.sends hc hh hbox why, fun heq => by cases heq⟩
    · rw [hcalls, getElem?_sent (by simp)] at hcall
      exact h.attempts c row hcall (hkind.shrink hg (hc.call _ (List.mem_of_getElem? hcall)).task)
    · rw [htasks] at ht
      rw [hcalls] at hcall
      rcases lt_or_ge c s.calls.length with hlt | hge
      · rw [List.getElem?_append_left hlt] at hcall
        exact running_setPhase hbox (fun hsame => why.claim hsame _) hboxes
          (h.atWork row ht hlive c call hcall hof hclaim)
      · rw [List.getElem?_append_right hge, List.getElem?_singleton] at hcall
        simp only [Option.ite_none_right_eq_some, Option.some.injEq] at hcall
        obtain ⟨hlast, rfl⟩ := hcall
        obtain rfl : c = s.calls.length := by omega
        rw [running_iff, hboxes]
        exact ⟨_, List.mem_of_getElem? (getElem?_setPhase hbox), why.claims hclaim _⟩
  | refused hcall _ => exact h.answered hcall (fun _ heq => by cases heq) fun heq => by cases heq
  | @failed c now u update row hcall hu hlive hnone =>
    refine h.answered hcall (fun _ heq => by cases heq) fun _ hut => ?_
    subst hut
    obtain ⟨_, hfinished, _⟩ := hc.live row (List.mem_of_getElem? hu) hlive
    obtain ⟨row', hsome⟩ := advance_isSome hfinished (hc.call _ (List.mem_of_getElem? hcall)).update
      (hh _ hcall rfl row hu)
    rw [hnone] at hsome
    cases hsome
  | advanced hcall hu hlive hnext => exact h.updated hlimit hc hin hcall hu hlive hnext

/-! ### The steps still ahead of a box -/

/-- What a step has to be on the way to a build that does not fail. -/
def Sound (limit : ℕ) (t : TaskId) (s : Workshop) (e : Step) : Prop := InTurn limit s e ∧ Healthy t s e

/-- Some steps of the kind settle the task `SUCCESSFUL`. -/
def CanSucceed (limit : ℕ) (t : TaskId) (s : Workshop) : Prop :=
  ∃ es, Meets (Workshop.step limit) (Sound limit t) s es ∧
    ∃ row, (exec (Workshop.step limit) s es).tasks[t]? = some row ∧ row.status = .SUCCESSFUL

/-- Some box is at work on the task. -/
def AtWork (s : Workshop) (t : TaskId) : Prop :=
  ∃ box ∈ s.boxes, ∃ (c : ℕ) (call : StatusCall), box.phase.claim = some c ∧ s.calls[c]? = some call ∧ call.task = t

/-- What is known of the workers in every state of a run of the kind. -/
structure Steady (limit : ℕ) (t : TaskId) (s : Workshop) : Prop where
  counted : Counted limit s
  hale : Hale limit t s

theorem Steady.step (hlimit : 0 < limit) (h : Steady limit t s) (hs : Sound limit t s e) :
    Steady limit t (Workshop.step limit s e) :=
  ⟨h.counted.step hs.1, h.hale.moves hlimit h.counted (step_moves limit s e) (step_grows limit s e) hs.1 hs.2⟩

theorem CanSucceed.of_step (hs : Sound limit t s e) (h : CanSucceed limit t (Workshop.step limit s e)) :
    CanSucceed limit t s := by
  obtain ⟨es, hmeets, hdone⟩ := h
  exact ⟨e :: es, ⟨hs, hmeets⟩, hdone⟩

variable {entry claim k attempts : ℕ} {kind : TaskKind} {row : TaskRow}

/-- What the status route makes of a call on the way. -/
theorem Steady.effect (h : Steady limit t s) {update : TaskStatusUpdate} (ht : s.tasks[t]? = some row)
    (hlive : row.status ∈ LIVE) (hcall : s.calls[c]? = some ⟨t, update, none⟩) :
    Healthy t s (.effect c (row.startedAt.getD 0)) ∧ ∃ row' : TaskRow, row'.status = update.status ∧
      s.effect c (row.startedAt.getD 0) =
        { s with tasks := s.tasks.set t row', calls := s.calls.set c ⟨t, update, some (.advanced row')⟩ } := by
  have hclock : ∀ started ∈ row.startedAt, started ≤ row.startedAt.getD 0 := by
    intro started hstarted
    rw [Option.mem_def.mp hstarted]
    exact le_rfl
  obtain ⟨_, hfinished, _⟩ := h.counted.live row (List.mem_of_getElem? ht) hlive
  obtain ⟨row', hnext⟩ := advance_isSome hfinished (h.counted.call _ (List.mem_of_getElem? hcall)).update hclock
  refine ⟨fun call _ _ row₁ hrow₁ => ?_, row', (TaskRow.advance_eq_some hnext).2.1, ?_⟩
  · rw [ht] at hrow₁
    cases hrow₁
    exact hclock
  · unfold Workshop.effect
    simp only [hcall, ht, if_pos hlive, hnext]

/-- The verdict of a box that settles the task is still on its way, and good. -/
theorem Steady.settling (h : Steady limit t s) (ht : s.tasks[t]? = some row) (hlive : row.status ∈ LIVE)
    (hbox : s.boxes[b]? = some ⟨kind, .settling entry claim k⟩) (hclaim : claim ∈ claims s t) : CanSucceed limit t s := by
  obtain ⟨⟨u, update, outcome⟩, hcall, hterminal, hworks⟩ := h.counted.box _ (List.mem_of_getElem? hbox)
  simp only at hterminal hworks
  obtain rfl : t = u := by
    obtain ⟨_, hrow⟩ := mem_claims.mp hclaim
    obtain ⟨_, hrow'⟩ := mem_claims.mp hworks
    rw [hrow] at hrow'
    cases hrow'
    rfl
  obtain ⟨hupdate, hfailed⟩ := h.hale.call _ (List.mem_of_getElem? hcall) rfl
  have hne : update ≠ claimUpdate := by
    rintro rfl
    cases hterminal
  have hanswer := (h.counted.call _ (List.mem_of_getElem? hcall)).answer
  have hdone := not_done_of_live ht hlive
  match outcome, hanswer with
  | some .failed, _ => exact absurd rfl hfailed
  | some .refused, hrefused => exact absurd hrefused hdone
  | some (.advanced _), hadvanced => exact absurd (hadvanced.2 hterminal) hdone
  | none, _ =>
    obtain ⟨hhealthy, row', hstatus, heffect⟩ := h.effect ht hlive hcall
    have hin : InTurn limit s (.effect k (row.startedAt.getD 0)) := by
      intro call hmem _ hclaims
      rw [hcall] at hmem
      cases hmem
      exact absurd hclaims hne
    refine .of_step ⟨hin, hhealthy⟩ ⟨[], trivial, row', ?_, by rw [hstatus]; exact hupdate.resolve_left hne⟩
    change (s.effect k (row.startedAt.getD 0)).tasks[t]? = some row'
    rw [heffect]
    exact List.getElem?_set_self (List.getElem?_eq_some_iff.mp ht).1

/-- A box that builds the task builds it. -/
theorem Steady.building (hlimit : 0 < limit) (h : Steady limit t s) (ht : s.tasks[t]? = some row)
    (hlive : row.status ∈ LIVE) (hbox : s.boxes[b]? = some ⟨kind, .building entry claim t attempts⟩) :
    CanSucceed limit t s := by
  have hclaim : claim ∈ claims s t := h.counted.box _ (List.mem_of_getElem? hbox)
  have hsound : Sound limit t s (.produce b .built) := by
    refine ⟨trivial, ?_⟩
    simp only [Healthy, hbox]
    exact fun _ => trivial
  have hstep : Workshop.step limit s (.produce b .built) =
      s.send b t (settleUpdate .SUCCESSFUL none (by decide)) (.settling entry claim) := by
    simp only [Workshop.step, Workshop.produce, hbox]
  have hsteady := h.step hlimit hsound
  refine .of_step hsound ?_
  rw [hstep] at hsteady ⊢
  exact hsteady.settling ht hlive (getElem?_setPhase hbox) (claims_sub (send_grows _ _ _ _ _) hclaim)

/-- A box whose claim was accepted goes on to the work, and does it. -/
theorem Steady.claimed (hlimit : 0 < limit) (h : Steady limit t s) (ht : s.tasks[t]? = some row)
    (hlive : row.status ∈ LIVE) (hbox : s.boxes[b]? = some ⟨kind, .claiming entry c⟩) {row₁ : TaskRow}
    (hcall : s.calls[c]? = some ⟨t, claimUpdate, some (.advanced row₁)⟩) : CanSucceed limit t s := by
  have hclaim : c ∈ claims s t := mem_claims.mpr ⟨row₁, hcall⟩
  have hsound : Sound limit t s (.answer b) := ⟨trivial, trivial⟩
  have hstep : Workshop.step limit s (.answer b) = s.claimed limit b kind entry c t row₁ := by
    simp only [Workshop.step, Workshop.answer, hbox, hcall]
  have hsteady := h.step hlimit hsound
  refine .of_step hsound ?_
  rw [hstep] at hsteady ⊢
  cases kind with
  | BUILD =>
    obtain ⟨call, hcall', _, hkind⟩ := h.counted.box _ (List.mem_of_getElem? hbox)
    rw [hcall] at hcall'
    cases hcall'
    have hleft := h.hale.attempts c row₁ hcall hkind
    simp only [Workshop.claimed, if_neg (Nat.not_lt_of_le hleft)] at hsteady ⊢
    exact hsteady.building hlimit ht hlive (getElem?_setPhase hbox)
  | ASSET_UPLOAD =>
    exact hsteady.settling ht hlive (getElem?_setPhase hbox) (claims_sub (send_grows _ _ _ _ _) hclaim)

/-- The claim of a task no box has claimed yet is accepted. -/
theorem Steady.claiming (hlimit : 0 < limit) (h : Steady limit t s) (ht : s.tasks[t]? = some row)
    (hnew : row.status = .NOT_STARTED) (hbox : s.boxes[b]? = some ⟨kind, .claiming entry c⟩)
    (hcall : s.calls[c]? = some ⟨t, claimUpdate, none⟩) : CanSucceed limit t s := by
  have hlive : row.status ∈ LIVE := by rw [hnew]; decide
  obtain ⟨_, _, hattempts⟩ := h.counted.live row (List.mem_of_getElem? ht) hlive
  have hzero := hattempts.mp hnew
  obtain ⟨hhealthy, row', hstatus, heffect⟩ := h.effect ht hlive hcall
  have hin : InTurn limit s (.effect c (row.startedAt.getD 0)) := by
    intro call hmem _ _ row₁ hrow₁ _ _ hspent
    rw [hcall] at hmem
    cases hmem
    rw [ht] at hrow₁
    cases hrow₁
    omega
  have hsteady := h.step hlimit ⟨hin, hhealthy⟩
  refine .of_step ⟨hin, hhealthy⟩ ?_
  change Steady limit t (s.effect c _) at hsteady
  change CanSucceed limit t (s.effect c _)
  rw [heffect] at hsteady ⊢
  have hlive' : row'.status ∈ LIVE := by rw [hstatus]; decide
  exact hsteady.claimed hlimit (List.getElem?_set_self (List.getElem?_eq_some_iff.mp ht).1) hlive' hbox
    (List.getElem?_set_self (List.getElem?_eq_some_iff.mp hcall).1)

/-- A task some box is at work on can succeed. -/
theorem Steady.canSucceed (hlimit : 0 < limit) (h : Steady limit t s) (ht : s.tasks[t]? = some row)
    (hlive : row.status ∈ LIVE) (hwork : AtWork s t) : CanSucceed limit t s := by
  obtain ⟨_, _, hattempts⟩ := h.counted.live row (List.mem_of_getElem? ht) hlive
  have hcount := h.counted.attempts t row ht
  by_cases hnew : row.status = .NOT_STARTED
  · have hnone : ∀ c, c ∉ claims s t := by
      have hempty : claims s t = ∅ := Finset.card_eq_zero.mp (by rw [← hcount, hattempts.mp hnew])
      simp [hempty]
    obtain ⟨⟨kind, phase⟩, hmem, c, ⟨u, update, outcome⟩, hclaim, hcall, rfl⟩ := hwork
    obtain ⟨b, hbox⟩ := List.mem_iff_getElem?.mp hmem
    have hworks := h.counted.box _ hmem
    have hof : ∀ {v : TaskId}, c ∈ claims s v → c ∈ claims s u := by
      intro v hv
      obtain ⟨row', hrow'⟩ := mem_claims.mp hv
      rw [hcall] at hrow'
      cases hrow'
      exact hv
    cases phase with
    | idle | acking | gone => cases hclaim
    | building entry claim v attempts =>
      cases hclaim
      exact absurd (hof hworks) (hnone c)
    | settling entry claim k =>
      cases hclaim
      obtain ⟨_, _, _, hsettled⟩ := hworks
      exact absurd (hof hsettled) (hnone c)
    | claiming entry call =>
      cases hclaim
      obtain ⟨_, hcall', hupdate, _⟩ := hworks
      rw [hcall] at hcall'
      cases hcall'
      obtain rfl : update = claimUpdate := hupdate
      have hanswer := (h.counted.call _ (List.mem_of_getElem? hcall)).answer
      match outcome, hanswer with
      | none, _ => exact h.claiming hlimit ht hnew hbox hcall
      | some .failed, _ => exact absurd rfl (h.hale.call _ (List.mem_of_getElem? hcall) rfl).2
      | some .refused, hrefused => exact absurd hrefused (not_done_of_live ht hlive)
      | some (.advanced row'), _ => exact absurd (mem_claims.mpr ⟨row', hcall⟩) (hnone c)
  · obtain ⟨c, hc⟩ : (claims s t).Nonempty := by
      rw [← Finset.card_pos, ← hcount]
      exact Nat.pos_of_ne_zero fun hzero => hnew (hattempts.mpr hzero)
    obtain ⟨row₁, hcall⟩ := mem_claims.mp hc
    obtain ⟨⟨kind, phase⟩, hmem, hclaim⟩ := running_iff.mp (h.hale.atWork row ht hlive c _ hcall rfl rfl)
    obtain ⟨b, hbox⟩ := List.mem_iff_getElem?.mp hmem
    have hworks := h.counted.box _ hmem
    cases phase with
    | idle | acking | gone => cases hclaim
    | claiming entry call =>
      cases hclaim
      exact h.claimed hlimit ht hlive hbox hcall
    | settling entry claim k =>
      cases hclaim
      exact h.settling ht hlive hbox hc
    | building entry claim v attempts =>
      cases hclaim
      obtain ⟨_, hrow⟩ := mem_claims.mp hworks
      rw [hcall] at hrow
      cases hrow
      exact h.building hlimit ht hlive hbox

/-! ### Builds that do not fail -/

/-- A task of a run no box fails ends `SUCCESSFUL`: it is so, or is live, claimed only with a
box still at work on it, and then the steps ahead of the boxes can settle it `SUCCESSFUL`. -/
def EndsBuilt (limit : ℕ) (es : List Step) : Prop :=
  ∀ t, Meets (Workshop.step limit) (Healthy t) Workshop.start es → ∀ row, (Workshop.run limit es).tasks[t]? = some row →
    row.status = .SUCCESSFUL ∨ row.status ∈ LIVE ∧ (row.status = .IN_PROGRESS → AtWork (Workshop.run limit es) t) ∧
      (AtWork (Workshop.run limit es) t → CanSucceed limit t (Workshop.run limit es))

theorem ends_built (hlimit : 0 < limit) {es : List Step}
    (h : Meets (Workshop.step limit) (InTurn limit) Workshop.start es) : EndsBuilt limit es := by
  intro t hhealthy row ht
  have hstep : ∀ s e, Steady limit t s → Sound limit t s e → Steady limit t (Workshop.step limit s e) :=
    fun s e hs he => hs.step hlimit he
  have hsteady : Steady limit t (Workshop.run limit es) := Meets.invariant hstep ⟨.start, .start⟩ (h.and hhealthy)
  refine (hsteady.hale.status row ht).imp_right fun hlive => ⟨hlive, fun hclaimed => ?_, hsteady.canSucceed hlimit ht hlive⟩
  obtain ⟨_, _, hattempts⟩ := hsteady.counted.live row (List.mem_of_getElem? ht) hlive
  obtain ⟨c, hc⟩ : (claims (Workshop.run limit es) t).Nonempty := by
    rw [← Finset.card_pos, ← hsteady.counted.attempts t row ht]
    refine Nat.pos_of_ne_zero fun hzero => ?_
    rw [hattempts.mpr hzero] at hclaimed
    cases hclaimed
  obtain ⟨row₁, hcall⟩ := mem_claims.mp hc
  obtain ⟨box, hmem, hclaim⟩ := running_iff.mp (hsteady.hale.atWork row ht hlive c _ hcall rfl rfl)
  exact ⟨box, hmem, c, _, hclaim, hcall, rfl⟩

/-- **A build fails only when it failed**, along every run in which no claim past the limit
takes effect while a box is at work on an earlier one. -/
theorem builds_fail_when_failed (limit : ℕ) (hlimit : 0 < limit) (es : List Step)
    (h : Meets (Workshop.step limit) (InTurn limit) Workshop.start es) : FailsWhenFailed limit es ∧ EndsBuilt limit es :=
  ⟨fails_when_failed h, ends_built hlimit h⟩

/-- A build announced twice, which two boxes read and one of them builds. -/
def builtByTwo : List Step :=
  [.create "game" "ada" .BUILD 1, .join .BUILD, .join .BUILD, .createGroup .BUILD, .push 0 0, .push 0 0, .read 0, .read 1,
    .effect 0 5, .effect 1 6, .answer 0, .answer 1, .produce 0 .built, .effect 2 7]

theorem builds_fail_when_failed_two : FailsWhenFailed 3 builtByTwo ∧ EndsBuilt 3 builtByTwo :=
  builds_fail_when_failed 3 (by decide) builtByTwo (by decide)

/-- Four publishes of one revision announce its build, four boxes claim it at once, and the
last of them hears that its attempts are spent. -/
def claimedByFour : List Step :=
  [.create "game" "ada" .BUILD 1, .join .BUILD, .join .BUILD, .join .BUILD, .join .BUILD, .createGroup .BUILD,
    .push 0 0, .push 0 0, .push 0 0, .push 0 0, .read 0, .read 1, .read 2, .read 3,
    .effect 0 5, .effect 1 5, .effect 2 5, .effect 3 5, .answer 0, .answer 1, .answer 2, .answer 3, .effect 4 6]

/-- The build is given up with no claim of it ended, and no box fails it. -/
theorem build_gave_up_unfailed : ¬ FailsWhenFailed 3 claimedByFour ∧ ¬ EndsBuilt 3 claimedByFour := by
  obtain ⟨row, ht, hfailed, hdetail⟩ : SettledGivenUp 3 (Workshop.run 3 claimedByFour) 0 := ⟨_, rfl, rfl, rfl⟩
  constructor
  · intro h
    obtain ⟨pre, e, post, hsplit, _, c, _, hcard⟩ := h 0 ⟨row, ht, hfailed, hdetail⟩
    have hended : ∀ n ≤ claimedByFour.length, ended (Workshop.run 3 (claimedByFour.take n)) 0 = ∅ := by decide
    have hpre := hended pre.length (by rw [hsplit]; simp)
    rw [hsplit, List.take_left] at hpre
    simp [hpre] at hcard
  · intro h
    rcases h 0 (by decide) row ht with hdone | ⟨hlive, _⟩
    · rw [hfailed] at hdone
      cases hdone
    · rw [hfailed] at hlive
      revert hlive
      decide

end Grove.Tasks
