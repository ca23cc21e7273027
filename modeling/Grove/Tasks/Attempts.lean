import Grove.Tasks.Moves
import Grove.Tasks.Stranding

/-! # Attempts at a build

A build is given up after `BUILD_ATTEMPTS` attempts, and the count is the row's: it grows with
every claim the status route accepts.  A claim is an attempt that failed once its box has
left it unsettled, so the count tells failures only while no claim past the limit is accepted
with a box still at work on an earlier one.  Along the runs of that kind a build is given up
only after so many claims of it have ended (`fails_when_failed`). -/

namespace Grove.Tasks

open Grove.Api Workshop

/-- Call `c` is a claim of the task that the status route accepted. -/
def accepted (s : Workshop) (t : TaskId) (c : ℕ) : Bool :=
  match s.calls[c]? with
  | some ⟨task, update, some (.advanced _)⟩ => task = t && update = claimUpdate
  | _ => false

/-- Some box is still at work on claim `c`. -/
def running (s : Workshop) (c : ℕ) : Bool := s.boxes.any fun box => box.phase.claim = some c

/-- The claims of a task accepted so far. -/
def claims (s : Workshop) (t : TaskId) : Finset ℕ := (Finset.range s.calls.length).filter fun c => accepted s t c = true

/-- Those no box is at work on any more. -/
def ended (s : Workshop) (t : TaskId) : Finset ℕ := (claims s t).filter fun c => running s c = false

/-- Once as many claims of a build were accepted as it has attempts, no further one takes
effect while a box is at work on any of them. -/
def InTurn (limit : ℕ) (s : Workshop) : Step → Prop
  | .effect c _ => ∀ call ∈ s.calls[c]?, call.outcome = none → call.update = claimUpdate →
      ∀ row ∈ s.tasks[call.task]?, row.work = .BUILD → row.status ∈ LIVE → limit ≤ row.attempts →
        ∀ c' ∈ claims s call.task, running s c' = false
  | _ => True

instance (limit : ℕ) (s : Workshop) (e : Step) : Decidable (InTurn limit s e) :=
  match e with
  | .effect .. => by unfold InTurn; infer_instance
  | .create .. | .push .. | .join .. | .createGroup .. | .destroyGroup .. | .read .. | .reclaim .. | .answer .. | .lose .. |
    .produce .. | .throws .. | .ack .. | .die .. => isTrue trivial

/-- Some claim of the task came after `limit` others had ended. -/
def GivenUp (limit : ℕ) (s : Workshop) (t : TaskId) : Prop := ∃ c ∈ claims s t, limit ≤ ((ended s t).erase c).card

/-! ### Claims and the boxes at work on them -/

variable {limit : ℕ} {s s' : Workshop} {t : TaskId} {c : ℕ} {e : Step}

theorem accepted_iff : accepted s t c = true ↔ ∃ row, s.calls[c]? = some ⟨t, claimUpdate, some (.advanced row)⟩ := by
  unfold accepted
  constructor
  · intro h
    split at h
    case h_1 task update row hcall =>
      simp only [Bool.and_eq_true, decide_eq_true_eq] at h
      obtain ⟨rfl, rfl⟩ := h
      exact ⟨row, hcall⟩
    case h_2 => cases h
  · rintro ⟨row, hcall⟩
    simp [hcall]

theorem mem_claims : c ∈ claims s t ↔ ∃ row, s.calls[c]? = some ⟨t, claimUpdate, some (.advanced row)⟩ := by
  rw [claims, Finset.mem_filter, accepted_iff, Finset.mem_range]
  refine ⟨fun h => h.2, fun h => ⟨?_, h⟩⟩
  obtain ⟨row, hcall⟩ := h
  exact (List.getElem?_eq_some_iff.mp hcall).1

theorem mem_ended : c ∈ ended s t ↔ c ∈ claims s t ∧ running s c = false := by
  rw [ended, Finset.mem_filter]

theorem running_iff : running s c = true ↔ ∃ box ∈ s.boxes, box.phase.claim = some c := by
  simp [running]

/-- A box is at work on a claim it was at work on before, or has just sent. -/
def Follows (s s' : Workshop) : Prop :=
  ∀ box ∈ s'.boxes, ∀ c, box.phase.claim = some c → c < s.calls.length → ∃ old ∈ s.boxes, old.phase.claim = some c

theorem claims_sub (hg : Grows s s') : claims s t ⊆ claims s' t := by
  intro c hc
  obtain ⟨row, hcall⟩ := mem_claims.mp hc
  obtain ⟨⟨task, update, outcome⟩, hcall', htask, hupdate, hout⟩ := hg.calls c _ hcall
  simp only at htask hupdate hout
  rw [htask, hupdate, hout _ rfl] at hcall'
  exact mem_claims.mpr ⟨row, hcall'⟩

/-- What has ended stays ended. -/
theorem ended_sub (hg : Grows s s') (hf : Follows s s') : ended s t ⊆ ended s' t := by
  intro c hc
  obtain ⟨hclaim, hrunning⟩ := mem_ended.mp hc
  refine mem_ended.mpr ⟨claims_sub hg hclaim, ?_⟩
  rw [Bool.eq_false_iff]
  intro hrun
  obtain ⟨box, hbox, hphase⟩ := running_iff.mp hrun
  obtain ⟨row, hcall⟩ := mem_claims.mp hclaim
  obtain ⟨old, hold, hsame⟩ := hf box hbox c hphase (List.getElem?_eq_some_iff.mp hcall).1
  rw [running_iff.mpr ⟨old, hold, hsame⟩] at hrunning
  cases hrunning

theorem GivenUp.grow (hg : Grows s s') (hf : Follows s s') (h : GivenUp limit s t) : GivenUp limit s' t := by
  obtain ⟨c, hc, hcard⟩ := h
  exact ⟨c, claims_sub hg hc, hcard.trans (Finset.card_le_card (Finset.erase_subset_erase c (ended_sub hg hf)))⟩

theorem claims_congr (h : ∀ (c : ℕ) (row : TaskRow), s'.calls[c]? = some ⟨t, claimUpdate, some (.advanced row)⟩ ↔
    s.calls[c]? = some ⟨t, claimUpdate, some (.advanced row)⟩) : claims s' t = claims s t := by
  ext c
  simp only [mem_claims, h]

/-- A call on its way is no claim yet. -/
theorem getElem?_sent {task : TaskId} {update : TaskStatusUpdate} {call : StatusCall} (hne : call.outcome ≠ none) (c : ℕ) :
    (s.calls ++ [⟨task, update, none⟩])[c]? = some call ↔ s.calls[c]? = some call := by
  rcases lt_or_ge c s.calls.length with hlt | hge
  · rw [List.getElem?_append_left hlt]
  · rw [List.getElem?_append_right hge, List.getElem?_singleton, List.getElem?_eq_none hge]
    simp only [Option.ite_none_right_eq_some, Option.some.injEq, reduceCtorEq, iff_false, not_and]
    rintro _ rfl
    exact hne rfl

/-- The calls answered are those answered before and the one just answered. -/
theorem getElem?_answered {c' : ℕ} {task : TaskId} {update : TaskStatusUpdate} {out : Answer} {call : StatusCall}
    (hcall : s.calls[c]? = some ⟨task, update, none⟩) (hne : call.outcome ≠ none) :
    (s.calls.set c ⟨task, update, some out⟩)[c']? = some call ↔
      s.calls[c']? = some call ∨ c' = c ∧ call = ⟨task, update, some out⟩ := by
  by_cases hsame : c = c'
  · subst hsame
    rw [List.getElem?_set_self (List.getElem?_eq_some_iff.mp hcall).1, hcall, Option.some.injEq, Option.some.injEq]
    constructor
    · exact fun h => .inr ⟨rfl, h.symm⟩
    · rintro (rfl | ⟨_, rfl⟩)
      · exact absurd rfl hne
      · rfl
  · rw [List.getElem?_set, if_neg hsame]
    simp [Ne.symm hsame]

/-- An answer that moves no task on is no claim. -/
theorem claims_answered {task : TaskId} {update : TaskStatusUpdate} {out : Answer} {tasks : List TaskRow}
    (hcall : s.calls[c]? = some ⟨task, update, none⟩)
    (hout : ∀ row, out = .advanced row → update = claimUpdate → task ≠ t) :
    claims { s with tasks, calls := s.calls.set c ⟨task, update, some out⟩ } t = claims s t := by
  refine claims_congr fun c' row => ?_
  rw [getElem?_answered hcall (by simp)]
  refine ⟨fun h => h.resolve_right ?_, .inl⟩
  rintro ⟨_, heq⟩
  simp only [StatusCall.mk.injEq, Option.some.injEq] at heq
  obtain ⟨htask, hupdate, hadvanced⟩ := heq
  exact hout row hadvanced.symm hupdate.symm htask.symm

/-- The claim the route has just accepted is new. -/
theorem claims_accepted (row : TaskRow) (tasks : List TaskRow) (hcall : s.calls[c]? = some ⟨t, claimUpdate, none⟩) :
    claims { s with tasks, calls := s.calls.set c ⟨t, claimUpdate, some (.advanced row)⟩ } t = insert c (claims s t) ∧
      c ∉ claims s t := by
  constructor
  · ext c'
    have hanswered : ∀ row', (s.calls.set c ⟨t, claimUpdate, some (.advanced row)⟩)[c']? =
          some ⟨t, claimUpdate, some (.advanced row')⟩ ↔
        s.calls[c']? = some ⟨t, claimUpdate, some (.advanced row')⟩ ∨
          c' = c ∧ StatusCall.mk t claimUpdate (some (.advanced row')) = ⟨t, claimUpdate, some (.advanced row)⟩ :=
      fun row' => getElem?_answered hcall (by simp)
    rw [mem_claims, Finset.mem_insert, mem_claims]
    simp only [hanswered, StatusCall.mk.injEq, true_and, Option.some.injEq, Answer.advanced.injEq]
    constructor
    · rintro ⟨row', h | ⟨rfl, _⟩⟩
      · exact .inr ⟨row', h⟩
      · exact .inl rfl
    · rintro (rfl | ⟨row', h⟩)
      · exact ⟨row, .inr ⟨rfl, rfl⟩⟩
      · exact ⟨row', .inl h⟩
  · intro hc
    obtain ⟨row', hrow'⟩ := mem_claims.mp hc
    rw [hcall] at hrow'
    cases hrow'

theorem Moves.follows (h : Moves limit s e s') : Follows s s' := by
  intro box hmem c hclaim hlt
  cases h with
  | still _ _ hboxes _ => exact ⟨box, hboxes ▸ hmem, hclaim⟩
  | created _ => exact ⟨box, hmem, hclaim⟩
  | joined =>
    obtain hmem | hmem := List.mem_append.mp hmem
    · exact ⟨box, hmem, hclaim⟩
    · rw [List.mem_singleton.mp hmem] at hclaim
      cases hclaim
  | turned hbox why _ _ hboxes _ =>
    obtain hmem | ⟨old, hold, rfl⟩ := mem_setPhase (hboxes ▸ hmem)
    · exact ⟨box, hmem, hclaim⟩
    · refine ⟨old, List.mem_of_getElem? hold, ?_⟩
      rw [hbox] at hold
      cases hold
      cases why with
      | builds hphase _ _ _ => rw [hphase]; exact hclaim
      | _ => cases hclaim
  | sent hbox why _ _ hboxes _ =>
    obtain hmem | ⟨old, hold, rfl⟩ := mem_setPhase (hboxes ▸ hmem)
    · exact ⟨box, hmem, hclaim⟩
    · refine ⟨old, List.mem_of_getElem? hold, ?_⟩
      rw [hbox] at hold
      cases hold
      cases why with
      | takes _ _ _ =>
        cases hclaim
        exact absurd hlt (Nat.lt_irrefl _)
      | givesUp hphase _ _ _ => rw [hphase]; exact hclaim
      | uploads hphase _ _ => rw [hphase]; exact hclaim
      | produced hphase _ _ _ => rw [hphase]; exact hclaim
  | refused | failed | advanced => exact ⟨box, hmem, hclaim⟩

/-! ### What is counted -/

/-- The task is there, and of this kind. -/
def OfKind (s : Workshop) (kind : TaskKind) (t : TaskId) : Prop := ∃ row, s.tasks[t]? = some row ∧ row.work.kind = kind

/-- The calls a box at work has sent. -/
def Works (s : Workshop) (box : Box) : Prop :=
  match box.phase with
  | .claiming _ c => ∃ call, s.calls[c]? = some call ∧ call.update = claimUpdate ∧ OfKind s box.kind call.task
  | .building _ c t _ => c ∈ claims s t
  | .settling _ c k => ∃ call, s.calls[k]? = some call ∧ isTerminal call.update.status = true ∧ c ∈ claims s call.task
  | _ => True

/-- A call claims its task or settles it, and gives it up only after `limit` claims have ended. -/
structure CallFits (limit : ℕ) (s : Workshop) (call : StatusCall) : Prop where
  task : ∃ row, s.tasks[call.task]? = some row
  update : call.update = claimUpdate ∨ isTerminal call.update.status = true
  answer : CallOk s call
  gaveUp : call.update.detail = some ⟨some (.gaveUp limit)⟩ → GivenUp limit s call.task

structure Counted (limit : ℕ) (s : Workshop) : Prop where
  box : ∀ box ∈ s.boxes, Works s box
  entry : ∀ kind, ∀ x ∈ (s.stream kind).entries, OfKind s kind x.2
  call : ∀ call ∈ s.calls, CallFits limit s call
  attempts : ∀ (t : ℕ) (row : TaskRow), s.tasks[t]? = some row → row.attempts = (claims s t).card
  live : ∀ row ∈ s.tasks, row.status ∈ LIVE → row.detail = none ∧ row.finishedAt = none ∧
    (row.status = .NOT_STARTED ↔ row.attempts = 0)
  late : ∀ (t c : ℕ) (row : TaskRow), s.calls[c]? = some ⟨t, claimUpdate, some (.advanced row)⟩ → OfKind s .BUILD t →
    limit < row.attempts → limit ≤ ((ended s t).erase c).card

theorem Counted.start : Counted limit Workshop.start where
  box _ h := by cases h
  entry kind _ h := by cases kind <;> cases h
  call _ h := by cases h
  attempts t _ h := by simp [Workshop.start] at h
  live _ h := by cases h
  late _ c _ h := by simp [Workshop.start] at h

section grow

variable (hg : Grows s s')

include hg

theorem OfKind.grow {kind : TaskKind} (h : OfKind s kind t) : OfKind s' kind t := by
  obtain ⟨row, ht, hkind⟩ := h
  obtain ⟨row', ht', hwork, _⟩ := hg.tasks t row ht
  exact ⟨row', ht', by rw [hwork, hkind]⟩

/-- The kind of a task there already was. -/
theorem OfKind.shrink {kind : TaskKind} (ht : ∃ row, s.tasks[t]? = some row) (h : OfKind s' kind t) : OfKind s kind t := by
  obtain ⟨row, ht⟩ := ht
  obtain ⟨row', ht', hkind⟩ := h
  obtain ⟨new, hnew, hwork, _⟩ := hg.tasks t row ht
  rw [ht'] at hnew
  cases hnew
  exact ⟨row, ht, by rw [← hwork, hkind]⟩

theorem Works.grow {box : Box} (h : Works s box) : Works s' box := by
  obtain ⟨kind, phase⟩ := box
  cases phase with
  | idle | gone | acking => trivial
  | claiming entry c =>
    obtain ⟨call, hc, hupdate, hkind⟩ := h
    obtain ⟨call', hc', htask, hupdate', _⟩ := hg.calls c call hc
    exact ⟨call', hc', hupdate'.trans hupdate, htask ▸ hkind.grow hg⟩
  | building entry c t attempts => exact claims_sub hg h
  | settling entry c k =>
    obtain ⟨call, hk, hterminal, hc⟩ := h
    obtain ⟨call', hk', htask, hupdate, _⟩ := hg.calls k call hk
    exact ⟨call', hk', by rw [hupdate, hterminal], htask ▸ claims_sub hg hc⟩

theorem CallFits.grow (hf : Follows s s') {call : StatusCall} (h : CallFits limit s call) : CallFits limit s' call := by
  obtain ⟨row, ht⟩ := h.task
  obtain ⟨row', ht', _⟩ := hg.tasks _ row ht
  exact ⟨⟨row', ht'⟩, h.update, h.answer.grow hg, fun hdetail => (h.gaveUp hdetail).grow hg hf⟩

end grow

theorem getElem?_created {row new : TaskRow} (ht : (s.tasks ++ [row])[t]? = some new) :
    s.tasks[t]? = some new ∨ s.tasks.length ≤ t ∧ new = row := by
  rcases lt_or_ge t s.tasks.length with hlt | hge
  · exact .inl (by rwa [List.getElem?_append_left hlt] at ht)
  · rw [List.getElem?_append_right hge, List.getElem?_singleton] at ht
    simp only [Option.ite_none_right_eq_some, Option.some.injEq] at ht
    exact .inr ⟨hge, ht.2.symm⟩

/-- What a move that answers no call has to show for itself. -/
theorem Counted.of_quiet (h : Counted limit s) (hg : Grows s s') (hf : Follows s s')
    (hcalls : ∀ (c : ℕ) (t : TaskId) (row : TaskRow), s'.calls[c]? = some ⟨t, claimUpdate, some (.advanced row)⟩ ↔
      s.calls[c]? = some ⟨t, claimUpdate, some (.advanced row)⟩)
    (hbox : ∀ box ∈ s'.boxes, box ∈ s.boxes ∨ Works s' box)
    (hentry : ∀ kind, ∀ x ∈ (s'.stream kind).entries, x ∈ (s.stream kind).entries ∨ OfKind s' kind x.2)
    (hcall : ∀ call ∈ s'.calls, call ∈ s.calls ∨ CallFits limit s' call)
    (htask : ∀ (t : ℕ) (row : TaskRow), s'.tasks[t]? = some row →
      s.tasks[t]? = some row ∨ claims s' t = ∅ ∧ ∃ game account work revision hpos,
        row = .queued game account work revision hpos) : Counted limit s' where
  box box hmem := (hbox box hmem).elim (fun hold => (h.box box hold).grow hg) id
  entry kind x hx := (hentry kind x hx).elim (fun hold => (h.entry kind x hold).grow hg) id
  call call hmem := (hcall call hmem).elim (fun hold => (h.call call hold).grow hg hf) id
  attempts t row ht := by
    obtain hold | ⟨hnone, _, _, _, _, _, rfl⟩ := htask t row ht
    · have hsame : claims s' t = claims s t := claims_congr fun c row => hcalls c t row
      rw [h.attempts t row hold, hsame]
    · rw [hnone]
      rfl
  live row hmem hlive := by
    obtain ⟨t, ht⟩ := List.mem_iff_getElem?.mp hmem
    obtain hold | ⟨_, _, _, _, _, _, rfl⟩ := htask t row ht
    · exact h.live row (List.mem_of_getElem? hold) hlive
    · simp [TaskRow.queued]
  late t c row hc hkind hlate := by
    have hold := (hcalls c t row).mp hc
    have hbuild := hkind.shrink hg (h.call _ (List.mem_of_getElem? hold)).task
    exact (h.late t c row hold hbuild hlate).trans
      (Finset.card_le_card (Finset.erase_subset_erase c (ended_sub hg hf)))

/-- No call is on a task there is none of. -/
theorem Counted.none_new (h : Counted limit s) (ht : s.tasks.length ≤ t) {call : StatusCall} (hmem : call ∈ s.calls)
    (htask : call.task = t) : False := by
  obtain ⟨old, hold⟩ := (h.call call hmem).task
  rw [htask] at hold
  exact Nat.not_le_of_lt (List.getElem?_eq_some_iff.mp hold).1 ht

/-- An answer that moves no task on. -/
theorem Counted.answered (h : Counted limit s) {task : TaskId} {update : TaskStatusUpdate} {out : Answer}
    (hcall : s.calls[c]? = some ⟨task, update, none⟩) (hout : ∀ row, out ≠ .advanced row)
    (hok : CallOk s ⟨task, update, some out⟩) : Counted limit { s with calls := s.calls.set c ⟨task, update, some out⟩ } := by
  have hg : Grows s { s with calls := s.calls.set c ⟨task, update, some out⟩ } :=
    resolved_grows hcall rfl out fun t row ht => ⟨row, ht, rfl, id, fun _ => rfl⟩
  have hf : Follows s { s with calls := s.calls.set c ⟨task, update, some out⟩ } := fun box hmem _ hclaim _ =>
    ⟨box, hmem, hclaim⟩
  refine h.of_quiet hg hf (fun c' t row => ?_) (fun box hmem => .inl hmem) (fun kind x hx => ?_) (fun call hmem => ?_)
    fun t row ht => .inl ht
  · rw [getElem?_answered hcall (by simp)]
    refine ⟨fun hc' => hc'.resolve_right ?_, .inl⟩
    rintro ⟨_, heq⟩
    simp only [StatusCall.mk.injEq, Option.some.injEq] at heq
    exact hout row heq.2.2.symm
  · cases kind <;> exact .inl hx
  · obtain hmem | rfl := List.mem_or_eq_of_mem_set hmem
    · exact .inl hmem
    · have hfits := (h.call _ (List.mem_of_getElem? hcall)).grow hg hf
      exact .inr ⟨hfits.task, hfits.update, hok.grow hg, hfits.gaveUp⟩

/-- The words of a guarded update, and the finish it writes. -/
theorem written_of_advance {row row' : TaskRow} {update : TaskStatusUpdate} {startedAt : Option ℕ} {now : ℕ}
    (h : row.advance update startedAt now = some row') : row'.detail = update.detail.or row.detail ∧
      row'.finishedAt = if isTerminal update.status = true then some now else row.finishedAt := by
  unfold TaskRow.advance at h
  simp only [Option.dite_none_right_eq_some, Option.some.injEq] at h
  obtain ⟨_, rfl⟩ := h
  exact ⟨rfl, rfl⟩

/-- An update of a live task. -/
theorem Counted.updated (h : Counted limit s) {update : TaskStatusUpdate} {row row' : TaskRow} {now : ℕ}
    (hcall : s.calls[c]? = some ⟨t, update, none⟩) (ht : s.tasks[t]? = some row) (hlive : row.status ∈ LIVE)
    (hnext : row.advance update row.startedAt now = some row') (hcond : InTurn limit s (.effect c now)) :
    Counted limit { s with tasks := s.tasks.set t row', calls := s.calls.set c ⟨t, update, some (.advanced row')⟩ } := by
  set s' : Workshop :=
    { s with tasks := s.tasks.set t row', calls := s.calls.set c ⟨t, update, some (.advanced row')⟩ } with hs'
  have hg : Grows s s' := resolved_grows hcall rfl (.advanced row') (updated_task ht hlive hnext)
  have hf : Follows s s' := fun box hmem _ hclaim _ => ⟨box, hmem, hclaim⟩
  have hold := h.call _ (List.mem_of_getElem? hcall)
  obtain ⟨_, hstatus, hattempts, _⟩ := TaskRow.advance_eq_some hnext
  have hnew : s'.tasks[t]? = some row' := List.getElem?_set_self (List.getElem?_eq_some_iff.mp ht).1
  refine ⟨fun box hmem => (h.box box hmem).grow hg, fun kind x hx => ?_, fun call hmem => ?_, fun u new hu => ?_,
    fun new hmem hnewlive => ?_, fun u c' new hc' hkind hlate => ?_⟩
  · exact (h.entry kind x (by cases kind <;> exact hx)).grow hg
  · obtain hmem | rfl := List.mem_or_eq_of_mem_set hmem
    · exact (h.call call hmem).grow hg hf
    · have hfits := hold.grow hg hf
      refine ⟨hfits.task, hfits.update, ⟨⟨row', hnew, ?_⟩, fun hterminal => ⟨row', hnew, by rw [hstatus, hterminal]⟩⟩,
        hfits.gaveUp⟩
      rw [hstatus]
      exact update.leaves
  · by_cases hut : t = u
    · subst hut
      rw [hnew] at hu
      cases hu
      rw [hattempts]
      by_cases hclaim : update = claimUpdate
      · subst hclaim
        obtain ⟨hinsert, hfresh⟩ := claims_accepted row' (s.tasks.set t row') hcall
        rw [hs', hinsert, Finset.card_insert_of_notMem hfresh, ← h.attempts t row ht]
        rfl
      · have hterminal := hold.update.resolve_left hclaim
        have hne : update.status ≠ .IN_PROGRESS := fun heq => by
          rw [heq] at hterminal
          cases hterminal
        rw [if_neg hne, hs', claims_answered hcall fun _ _ heq => absurd heq hclaim, h.attempts t row ht]
    · rw [hs', claims_answered hcall fun _ _ _ => hut]
      refine h.attempts u new ?_
      rwa [hs', List.getElem?_set, if_neg hut] at hu
  · obtain hmem | rfl := List.mem_or_eq_of_mem_set hmem
    · exact h.live new hmem hnewlive
    · rw [hstatus, mem_LIVE_iff] at hnewlive
      obtain rfl : update = claimUpdate := hold.update.resolve_right (by rw [hnewlive]; simp)
      obtain ⟨hdetail, hfinished, _⟩ := h.live row (List.mem_of_getElem? ht) hlive
      obtain ⟨hdetail', hfinished'⟩ := written_of_advance hnext
      refine ⟨by rw [hdetail', hdetail]; rfl, by rw [hfinished', hfinished]; rfl, ?_⟩
      rw [hstatus, hattempts]
      simp [claimUpdate]
  · rcases (getElem?_answered hcall (by simp)).mp hc' with hbefore | ⟨rfl, heq⟩
    · have hbuild := hkind.shrink hg (h.call _ (List.mem_of_getElem? hbefore)).task
      exact (h.late u c' new hbefore hbuild hlate).trans
        (Finset.card_le_card (Finset.erase_subset_erase c' (ended_sub hg hf)))
    · -- a claim past the limit finds every earlier one ended
      cases heq
      have hbuild : row.work = .BUILD := by
        obtain ⟨old, hold', hwork⟩ := hkind.shrink hg ⟨row, ht⟩
        rw [ht] at hold'
        cases hold'
        exact (TaskWork.eq_build_iff _).mp hwork
      have hspent : limit ≤ row.attempts := by
        simp only [hattempts, claimUpdate, if_true] at hlate
        omega
      have hended : claims s t ⊆ (ended s' t).erase c' := by
        intro d hd
        have hidle := hcond _ hcall rfl rfl row ht hbuild hlive hspent d hd
        refine Finset.mem_erase.mpr ⟨?_, ended_sub hg hf (mem_ended.mpr ⟨hd, hidle⟩)⟩
        rintro rfl
        exact (claims_accepted row' (s.tasks.set t row') hcall).2 hd
      exact (h.attempts t row ht ▸ hspent).trans (Finset.card_le_card hended)

/-- What a box turns to. -/
theorem Counted.turns (h : Counted limit s) (hg : Grows s s') {b : ℕ} {box : Box} {phase : Phase}
    (hbox : s.boxes[b]? = some box) (why : Turns limit s b e box phase) : Works s' { box with phase } := by
  have hworks := h.box box (List.mem_of_getElem? hbox)
  cases why with
  | @builds _ entry call t update row hphase hkind hcall hleft =>
    simp only [Works, hphase, hcall, Option.some.injEq, exists_eq_left'] at hworks
    obtain ⟨rfl, _⟩ := hworks
    exact claims_sub hg (mem_claims.mpr ⟨row, hcall⟩)
  | _ => trivial

/-- What a box sends, and is at work on then. -/
theorem Counted.sends (h : Counted limit s) (hg : Grows s s') (hf : Follows s s') {b : ℕ} {box : Box}
    {update : TaskStatusUpdate} {phase : ℕ → Phase} (hbox : s.boxes[b]? = some box)
    (why : Sends limit s b e box t update phase) (hcalls : s'.calls = s.calls ++ [⟨t, update, none⟩]) :
    Works s' { box with phase := phase s.calls.length } ∧ CallFits limit s' ⟨t, update, none⟩ := by
  have hworks := h.box box (List.mem_of_getElem? hbox)
  have hnew : s'.calls[s.calls.length]? = some ⟨t, update, none⟩ := by
    rw [hcalls]
    exact List.getElem?_concat_length
  have hthere : (∃ row, s.tasks[t]? = some row) → ∃ row, s'.tasks[t]? = some row := by
    rintro ⟨row, ht⟩
    obtain ⟨row', ht', _⟩ := hg.tasks t row ht
    exact ⟨row', ht'⟩
  cases why with
  | @takes _ _ entry _ _ hentry =>
    have hkind := h.entry box.kind entry hentry
    refine ⟨⟨_, hnew, rfl, hkind.grow hg⟩, hthere ?_, .inl rfl, trivial, nofun⟩
    obtain ⟨row, ht, _⟩ := hkind
    exact ⟨row, ht⟩
  | @givesUp _ entry call t update row hphase hkind hcall hspent =>
    simp only [Works, hphase, hcall, hkind, Option.some.injEq, exists_eq_left'] at hworks
    obtain ⟨rfl, hbuild⟩ := hworks
    have hclaim : call ∈ claims s t := mem_claims.mpr ⟨row, hcall⟩
    refine ⟨⟨_, hnew, rfl, claims_sub hg hclaim⟩, hthere ?_, .inr rfl, trivial, fun _ => ?_⟩
    · exact (h.call _ (List.mem_of_getElem? hcall)).task
    · exact GivenUp.grow hg hf ⟨call, hclaim, h.late t call row hcall hbuild hspent⟩
  | @uploads _ entry call t update row hphase hkind hcall =>
    simp only [Works, hphase, hcall, Option.some.injEq, exists_eq_left'] at hworks
    obtain ⟨rfl, _⟩ := hworks
    refine ⟨⟨_, hnew, rfl, claims_sub hg (mem_claims.mpr ⟨row, hcall⟩)⟩, hthere ?_, .inr rfl, trivial, nofun⟩
    exact (h.call _ (List.mem_of_getElem? hcall)).task
  | @produced result _ entry claim t attempts update hphase hterminal _ hdetail =>
    simp only [Works, hphase] at hworks
    refine ⟨⟨_, hnew, hterminal, claims_sub hg hworks⟩, hthere ?_, .inr hterminal, trivial, fun heq => absurd heq (hdetail _)⟩
    obtain ⟨row, hcall⟩ := mem_claims.mp hworks
    exact (h.call _ (List.mem_of_getElem? hcall)).task

theorem Counted.moves (h : Counted limit s) (hm : Moves limit s e s') (hg : Grows s s') (hcond : InTurn limit s e) :
    Counted limit s' := by
  have hf := hm.follows
  cases hm with
  | still htasks hcalls hboxes hentry =>
    refine h.of_quiet hg hf (fun c t row => by rw [hcalls]) (fun box hmem => .inl (hboxes ▸ hmem)) (fun kind x hx => ?_)
      (fun call hmem => .inl (hcalls ▸ hmem)) fun t row ht => .inl (htasks ▸ ht)
    exact (hentry kind x hx).imp_right fun hkind => OfKind.grow hg hkind
  | @created game account work revision hpos =>
    refine h.of_quiet hg hf (fun c t row => Iff.rfl) (fun box hmem => .inl hmem) (fun kind x hx => ?_)
      (fun call hmem => .inl hmem) fun t row ht => ?_
    · cases kind <;> exact .inl hx
    · refine (getElem?_created ht).imp_right ?_
      rintro ⟨hge, rfl⟩
      refine ⟨?_, _, _, _, _, hpos, rfl⟩
      rw [Finset.eq_empty_iff_forall_notMem]
      intro c hc
      obtain ⟨row, hcall⟩ := mem_claims.mp hc
      exact h.none_new hge (List.mem_of_getElem? hcall) rfl
  | joined =>
    refine h.of_quiet hg hf (fun c t row => Iff.rfl) (fun box hmem => ?_) (fun kind x hx => ?_)
      (fun call hmem => .inl hmem) fun t row ht => .inl ht
    · obtain hmem | hmem := List.mem_append.mp hmem
      · exact .inl hmem
      · rw [List.mem_singleton.mp hmem]
        exact .inr trivial
    · cases kind <;> exact .inl hx
  | turned hbox why htasks hcalls hboxes hentry =>
    refine h.of_quiet hg hf (fun c t row => by rw [hcalls]) (fun box hmem => ?_) (fun kind x hx => .inl (hentry kind x hx))
      (fun call hmem => .inl (hcalls ▸ hmem)) fun t row ht => .inl (htasks ▸ ht)
    obtain hmem | ⟨old, hold, rfl⟩ := mem_setPhase (hboxes ▸ hmem)
    · exact .inl hmem
    · rw [hbox] at hold
      cases hold
      exact .inr (h.turns hg hbox why)
  | sent hbox why htasks hcalls hboxes hentry =>
    obtain ⟨hworks, hfits⟩ := h.sends hg hf hbox why hcalls
    refine h.of_quiet hg hf (fun c t row => ?_) (fun box hmem => ?_) (fun kind x hx => .inl (hentry kind x hx))
      (fun call hmem => ?_) fun t row ht => .inl (htasks ▸ ht)
    · rw [hcalls]
      exact getElem?_sent (by simp) c
    · obtain hmem | ⟨old, hold, rfl⟩ := mem_setPhase (hboxes ▸ hmem)
      · exact .inl hmem
      · rw [hbox] at hold
        cases hold
        exact .inr hworks
    · rw [hcalls] at hmem
      obtain hmem | hmem := List.mem_append.mp hmem
      · exact .inl hmem
      · rw [List.mem_singleton.mp hmem]
        exact .inr hfits
  | refused hcall hdead =>
    obtain ⟨row, ht⟩ := (h.call _ (List.mem_of_getElem? hcall)).task
    exact h.answered hcall (fun _ heq => nomatch heq) ⟨row, ht, hdead row ht⟩
  | failed hcall _ _ _ => exact h.answered hcall (fun _ heq => nomatch heq) trivial
  | advanced hcall ht hlive hnext => exact h.updated hcall ht hlive hnext hcond

theorem Counted.step (h : Counted limit s) (hcond : InTurn limit s e) : Counted limit (Workshop.step limit s e) :=
  h.moves (step_moves limit s e) (step_grows limit s e) hcond

theorem Counted.run {es : List Step} (h : Meets (Workshop.step limit) (InTurn limit) Workshop.start es) :
    Counted limit (Workshop.run limit es) :=
  Meets.invariant (fun _ _ hs hc => hs.step hc) .start h

/-! ### Giving a build up -/

/-- The build is settled `FAILED` in the words for attempts spent. -/
def SettledGivenUp (limit : ℕ) (s : Workshop) (t : TaskId) : Prop :=
  ∃ row, s.tasks[t]? = some row ∧ row.status = .FAILED ∧ row.detail = some ⟨some (.gaveUp limit)⟩

/-- A task settled in those words was live until then, and some claim of it came after `limit`
others had ended. -/
def FailsWhenFailed (limit : ℕ) (es : List Step) : Prop :=
  ∀ t, SettledGivenUp limit (Workshop.run limit es) t → ∃ pre e post, es = pre ++ e :: post ∧
    (∃ row, (Workshop.run limit pre).tasks[t]? = some row ∧ row.status ∈ LIVE) ∧ GivenUp limit (Workshop.run limit pre) t

theorem Counted.settles (h : Counted limit s) (hbefore : ¬ SettledGivenUp limit s t)
    (hafter : SettledGivenUp limit (Workshop.step limit s e) t) :
    (∃ row, s.tasks[t]? = some row ∧ row.status ∈ LIVE) ∧ GivenUp limit s t := by
  obtain ⟨new, ht, hfailed, hdetail⟩ := hafter
  have hm := step_moves limit s e
  generalize Workshop.step limit s e = s' at hm ht
  have hsame : s'.tasks = s.tasks → False := fun heq => hbefore ⟨new, heq ▸ ht, hfailed, hdetail⟩
  cases hm with
  | still htasks _ _ _ => exact (hsame htasks).elim
  | turned _ _ htasks | sent _ _ htasks => exact (hsame htasks).elim
  | joined | refused | failed => exact (hsame rfl).elim
  | created hpos =>
    obtain hold | ⟨_, rfl⟩ := getElem?_created ht
    · exact absurd ⟨new, hold, hfailed, hdetail⟩ hbefore
    · cases hfailed
  | @advanced c now u update row row' hcall hu hlive hnext =>
    by_cases hut : u = t
    · subst hut
      simp only [List.getElem?_set_self (List.getElem?_eq_some_iff.mp hu).1, Option.some.injEq] at ht
      subst ht
      have hwords := (written_of_advance hnext).1
      rw [(h.live row (List.mem_of_getElem? hu) hlive).1, Option.or_none, hdetail] at hwords
      exact ⟨⟨row, hu, hlive⟩, (h.call _ (List.mem_of_getElem? hcall)).gaveUp hwords.symm⟩
    · simp only [List.getElem?_set, if_neg hut] at ht
      exact absurd ⟨new, ht, hfailed, hdetail⟩ hbefore

theorem fails_when_failed {es : List Step} (h : Meets (Workshop.step limit) (InTurn limit) Workshop.start es) :
    FailsWhenFailed limit es := by
  intro t hsettled
  have hstart : ¬ SettledGivenUp limit Workshop.start t := by
    rintro ⟨row, ht, _⟩
    simp [Workshop.start] at ht
  obtain ⟨pre, e, post, rfl, hbefore, hafter⟩ := exec_becomes (SettledGivenUp limit · t) hstart hsettled
  have hpre := Counted.run (Meets.append.mp h).1
  refine ⟨pre, e, post, rfl, hpre.settles hbefore (e := e) ?_⟩
  rwa [exec_append] at hafter

end Grove.Tasks
