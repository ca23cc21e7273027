import Grove.Tasks.Workers

/-! # Stranded tasks

A task the sweeper no longer announces, because it has left `NOT_STARTED`, is carried by its
stream alone: by an entry some box can still read or reclaim.  A box acknowledges an entry
only once the outcome of its task is written down, so the one step that can leave a task
behind is the trimming of a push.

`no_task_stranded` is for the runs whose pushes trim no such entry, and `task_stranded` is a
run in which ten thousand announcements of one task push out the entry of another. -/

namespace Grove.Tasks

open Grove.Api Workshop

/-- A status call on the task is on its way. -/
def InHand (s : Workshop) (t : TaskId) : Prop := ∃ call ∈ s.calls, call.task = t ∧ call.outcome = none

/-- The task has left the sweeper's care, or is about to. -/
def Carried (s : Workshop) (t : TaskId) (row : TaskRow) : Prop :=
  s.tasks[t]? = some row ∧ row.status ∈ LIVE ∧ (row.status = .IN_PROGRESS ∨ InHand s t)

/-- The trimming of a push leaves every task carried by its stream an entry there. -/
def KeepsEntries (s : Workshop) : Step → Prop
  | .push task drop => ∀ t row, Carried s t row → (s.stream row.work.kind).Owes t →
      ((s.push task drop).stream row.work.kind).Owes t
  | _ => True

/-! ### What the boxes rest on -/

/-- The entry of this id, while the stream has it, is of task `t`. -/
def EntryOf (s : Workshop) (kind : TaskKind) (entry : ℕ) (t : TaskId) : Prop :=
  entry < (s.stream kind).nextId ∧ ∀ e ∈ (s.stream kind).entries, e.1 = entry → e.2 = t

/-- The task is settled. -/
def Done (s : Workshop) (t : TaskId) : Prop := ∃ row, s.tasks[t]? = some row ∧ isTerminal row.status = true

/-- The task has been claimed. -/
def Started (s : Workshop) (t : TaskId) : Prop := ∃ row, s.tasks[t]? = some row ∧ row.status ≠ .NOT_STARTED

/-- What a box knows of the task it works on. -/
def BoxOk (s : Workshop) (box : Box) : Prop :=
  match box.phase with
  | .idle | .gone => True
  | .claiming entry c => ∃ call, s.calls[c]? = some call ∧ call.update = claimUpdate ∧ EntryOf s box.kind entry call.task
  | .building entry _ t _ => EntryOf s box.kind entry t ∧ Started s t
  | .settling entry _ c => ∃ call, s.calls[c]? = some call ∧ isTerminal call.update.status = true ∧
      EntryOf s box.kind entry call.task
  | .acking entry => ∃ t, EntryOf s box.kind entry t ∧ Done s t

/-- What the answer to a call says of its task. -/
def CallOk (s : Workshop) (call : StatusCall) : Prop :=
  match call.outcome with
  | some (.advanced _) => Started s call.task ∧ (isTerminal call.update.status = true → Done s call.task)
  | some .refused => Done s call.task
  | _ => True

structure Ok (s : Workshop) : Prop where
  box : ∀ box ∈ s.boxes, BoxOk s box
  call : ∀ call ∈ s.calls, CallOk s call ∧ ∃ row, s.tasks[call.task]? = some row
  entry : ∀ kind, ∀ e ∈ (s.stream kind).entries, ∃ row, s.tasks[e.2]? = some row ∧ row.work.kind = kind
  carried : ∀ t row, Carried s t row → (s.stream row.work.kind).Owes t

theorem Ok.start : Ok Workshop.start where
  box _ h := by cases h
  call _ h := by cases h
  entry kind _ h := by cases kind <;> cases h
  carried t _ h := by
    obtain ⟨h, _⟩ := h
    simp [Workshop.start] at h

section grow

variable {s s' : Workshop} (hg : Grows s s')

include hg

theorem EntryOf.grow {kind : TaskKind} {entry : ℕ} {t : TaskId} (h : EntryOf s kind entry t) : EntryOf s' kind entry t :=
  ⟨h.1.trans_le (hg.ids kind), fun e he heq => h.2 e (hg.entries kind e he (heq ▸ h.1)) heq⟩

theorem Done.grow {t : TaskId} (h : Done s t) : Done s' t := by
  obtain ⟨row, ht, hterminal⟩ := h
  obtain ⟨row', ht', _, _, hsame⟩ := hg.tasks t row ht
  exact ⟨row', ht', by rw [hsame hterminal, hterminal]⟩

theorem Started.grow {t : TaskId} (h : Started s t) : Started s' t := by
  obtain ⟨row, ht, hstarted⟩ := h
  obtain ⟨row', ht', _, hkept, _⟩ := hg.tasks t row ht
  exact ⟨row', ht', hkept hstarted⟩

theorem BoxOk.grow {box : Box} (h : BoxOk s box) : BoxOk s' box := by
  obtain ⟨kind, phase⟩ := box
  cases phase with
  | idle | gone => trivial
  | claiming entry c =>
    obtain ⟨call, hc, hupdate, hentry⟩ := h
    obtain ⟨call', hc', htask, hupdate', _⟩ := hg.calls c call hc
    exact ⟨call', hc', hupdate'.trans hupdate, htask ▸ hentry.grow hg⟩
  | building entry claim t attempts => exact ⟨h.1.grow hg, h.2.grow hg⟩
  | settling entry claim c =>
    obtain ⟨call, hc, hterminal, hentry⟩ := h
    obtain ⟨call', hc', htask, hupdate, _⟩ := hg.calls c call hc
    exact ⟨call', hc', by rw [hupdate, hterminal], htask ▸ hentry.grow hg⟩
  | acking entry =>
    obtain ⟨t, hentry, hdone⟩ := h
    exact ⟨t, hentry.grow hg, hdone.grow hg⟩

theorem CallOk.grow {call : StatusCall} (h : CallOk s call) : CallOk s' call := by
  obtain ⟨t, update, outcome⟩ := call
  match outcome, h with
  | none, _ => trivial
  | some .failed, _ => trivial
  | some .refused, h => exact Done.grow hg h
  | some (.advanced row), h => exact ⟨h.1.grow hg, fun hterminal => (h.2 hterminal).grow hg⟩

end grow

/-! ### Steps -/

variable {s : Workshop} {b : ℕ} {phase : Phase}

theorem mem_setPhase {box : Box} (h : box ∈ (s.setPhase b phase).boxes) :
    box ∈ s.boxes ∨ ∃ old, s.boxes[b]? = some old ∧ box = { old with phase } := by
  obtain ⟨i, hi⟩ := List.mem_iff_getElem?.mp h
  simp only [setPhase, List.getElem?_modify] at hi
  split at hi
  case isTrue heq =>
    obtain ⟨old, hold, rfl⟩ := Option.map_eq_some_iff.mp hi
    exact .inr ⟨old, heq ▸ hold, rfl⟩
  case isFalse =>
    exact .inl (List.mem_of_getElem? (by simpa using hi))

/-- A box goes on to a phase that is right for it. -/
theorem Ok.setPhase (h : Ok s) (hbox : ∀ box, s.boxes[b]? = some box → BoxOk s { box with phase }) :
    Ok (s.setPhase b phase) where
  box box hmem := by
    rcases mem_setPhase hmem with hmem | ⟨old, hold, rfl⟩
    · exact (h.box box hmem).grow (setPhase_grows _ _ _)
    · exact (hbox old hold).grow (setPhase_grows _ _ _)
  call call hmem := ⟨(h.call call hmem).1.grow (setPhase_grows _ _ _), (h.call call hmem).2⟩
  entry kind e he := h.entry kind e (by rwa [setPhase_stream] at he)
  carried t row hc := by
    rw [setPhase_stream]
    exact h.carried t row hc

/-- A call on a task its stream carries goes out. -/
theorem Ok.sent (h : Ok s) {t : TaskId} {update : TaskStatusUpdate} (htask : ∃ row, s.tasks[t]? = some row)
    (howes : ∀ row, s.tasks[t]? = some row → row.status ∈ LIVE → (s.stream row.work.kind).Owes t) :
    Ok { s with calls := s.calls ++ [⟨t, update, none⟩] } where
  box box hmem := (h.box box hmem).grow (s.sent_grows _)
  call call hmem := by
    rcases List.mem_append.mp hmem with hmem | hmem
    · exact ⟨(h.call call hmem).1.grow (s.sent_grows _), (h.call call hmem).2⟩
    · rw [List.mem_singleton.mp hmem]
      exact ⟨trivial, htask⟩
  entry kind e he := by cases kind <;> exact h.entry _ e he
  carried t' row hc := by
    obtain ⟨ht', hlive, hcarried⟩ := hc
    have hstream : Workshop.stream { s with calls := s.calls ++ [⟨t, update, none⟩] } row.work.kind =
        s.stream row.work.kind := by
      cases row.work.kind <;> rfl
    rw [hstream]
    rcases hcarried with hstatus | ⟨call, hmem, rfl, hnone⟩
    · exact h.carried t' row ⟨ht', hlive, .inl hstatus⟩
    · rcases List.mem_append.mp hmem with hmem | hmem
      · exact h.carried _ row ⟨ht', hlive, .inr ⟨call, hmem, rfl, hnone⟩⟩
      · rw [List.mem_singleton.mp hmem] at ht' ⊢
        exact howes row ht' hlive

theorem Ok.send (h : Ok s) {t : TaskId} {update : TaskStatusUpdate} {phase : ℕ → Phase}
    (htask : ∃ row, s.tasks[t]? = some row)
    (howes : ∀ row, s.tasks[t]? = some row → row.status ∈ LIVE → (s.stream row.work.kind).Owes t)
    (hbox : ∀ box, s.boxes[b]? = some box →
      BoxOk { s with calls := s.calls ++ [⟨t, update, none⟩] } { box with phase := phase s.calls.length }) :
    Ok (s.send b t update phase) :=
  (h.sent htask howes).setPhase hbox

/-- A stream operation that keeps what is owed of every carried task. -/
theorem Ok.setStream (h : Ok s) {kind : TaskKind} {st : EntryStream TaskId}
    (hid : (s.stream kind).nextId ≤ st.nextId)
    (hentries : ∀ e ∈ st.entries, e.1 < (s.stream kind).nextId → e ∈ (s.stream kind).entries)
    (hnew : ∀ e ∈ st.entries, ∃ row, s.tasks[e.2]? = some row ∧ row.work.kind = kind)
    (howes : ∀ t row, Carried s t row → row.work.kind = kind → (s.stream kind).Owes t → st.Owes t) :
    Ok (s.setStream kind st) where
  box box hmem := (h.box box ((setStream_rest kind st).2.2 ▸ hmem)).grow (setStream_grows hid hentries)
  call call hmem := by
    obtain ⟨hok, htask⟩ := h.call call ((setStream_rest kind st).2.1 ▸ hmem)
    exact ⟨hok.grow (setStream_grows hid hentries), by simpa using htask⟩
  entry kind' e he := by
    rw [stream_setStream] at he
    rw [(setStream_rest kind st).1]
    split at he
    case isTrue heq => exact heq ▸ hnew e he
    case isFalse => exact h.entry kind' e he
  carried t row hc := by
    have hc' : Carried s t row := by
      simpa only [Carried, InHand, (setStream_rest kind st).1, (setStream_rest kind st).2.1] using hc
    have howed := h.carried t row hc'
    rw [stream_setStream]
    split
    case isTrue heq => exact howes t row hc' heq (heq ▸ howed)
    case isFalse => exact howed

/-- What a claimed task its stream carries has there. -/
theorem Ok.owes_started (h : Ok s) {t : TaskId} (hstarted : Started s t) (row : TaskRow) (ht : s.tasks[t]? = some row)
    (hlive : row.status ∈ LIVE) : (s.stream row.work.kind).Owes t := by
  obtain ⟨row', ht', hstatus⟩ := hstarted
  rw [ht] at ht'
  cases ht'
  refine h.carried t row ⟨ht, hlive, .inl ?_⟩
  cases hs : row.status with
  | NOT_STARTED => exact absurd hs hstatus
  | IN_PROGRESS => rfl
  | SUCCESSFUL | FAILED | CANCELLED => simp [hs, LIVE] at hlive

/-- A box takes up an entry its stream has just handed it. -/
theorem Ok.take {kind : TaskKind} {e : ℕ × TaskId} (h : Ok s) (hkind : ∀ box, s.boxes[b]? = some box → box.kind = kind)
    (hmem : e ∈ (s.stream kind).entries) (howes : (s.stream kind).Owes e.2) : Ok (s.take b e) := by
  obtain ⟨row, ht, hwork⟩ := h.entry kind e hmem
  refine h.send ⟨row, ht⟩ (fun row' ht' _ => ?_) fun box hbox => ?_
  · rw [ht] at ht'
    cases ht'
    rw [hwork]
    exact howes
  · refine ⟨⟨e.2, claimUpdate, none⟩, List.getElem?_concat_length, rfl, ?_⟩
    rw [hkind box hbox]
    have hentry : EntryOf s kind e.1 e.2 :=
      ⟨(s.stream kind).bounded e hmem, fun e' he' heq => by rw [(s.stream kind).eq_of_id he' hmem heq]⟩
    exact hentry.grow (s.sent_grows _)

theorem Ok.read (h : Ok s) (b : ℕ) : Ok (s.read b) := by
  unfold Workshop.read
  split
  case h_2 => exact h
  case h_1 kind hbox =>
    cases hread : (s.stream kind).read b with
    | none => exact h
    | some pair =>
      obtain ⟨e, st⟩ := pair
      obtain ⟨hentries, hid⟩ := EntryStream.entries_of_read hread
      obtain ⟨hmem, howes, hkept⟩ := EntryStream.owes_of_read hread
      have hst : Ok (s.setStream kind st) :=
        h.setStream (le_of_eq hid.symm) (fun e he _ => hentries ▸ he) (fun e he => h.entry kind e (hentries ▸ he))
          fun t _ _ _ => hkept t
      refine hst.take (fun box hbox' => ?_) (by rwa [stream_setStream_self, hentries]) (by rwa [stream_setStream_self])
      rw [(setStream_rest kind st).2.2, hbox] at hbox'
      cases hbox'
      rfl

theorem Ok.reclaim (h : Ok s) (b entry : ℕ) : Ok (s.reclaim b entry) := by
  unfold Workshop.reclaim
  split
  case h_2 => exact h
  case h_1 kind hbox =>
    obtain ⟨hgot, hkept⟩ := (s.stream kind).owes_of_claim b entry
    obtain ⟨hentries, hid⟩ := (s.stream kind).entries_claim b entry
    have hst : Ok (s.setStream kind ((s.stream kind).claim b entry).2) :=
      h.setStream (le_of_eq hid.symm) (fun e he _ => hentries ▸ he) (fun e he => h.entry kind e (hentries ▸ he))
        fun t _ _ _ => hkept t
    cases hclaim : (s.stream kind).claim b entry with
    | mk got st =>
      rw [hclaim] at hentries hst hgot
      cases got with
      | none => exact hst
      | some e =>
        obtain ⟨hmem, _, howes⟩ := hgot e rfl
        have hkind : ∀ box, (s.setStream kind st).boxes[b]? = some box → box.kind = kind := by
          intro box hbox'
          rw [(setStream_rest kind st).2.2, hbox] at hbox'
          cases hbox'
          rfl
        exact hst.take hkind (by rwa [stream_setStream_self, hentries]) (by rwa [stream_setStream_self])

theorem Ok.push (h : Ok s) {task : TaskId} {drop : ℕ} (hcond : KeepsEntries s (.push task drop)) : Ok (s.push task drop) := by
  cases ht : s.tasks[task]? with
  | none => simpa only [Workshop.push, ht] using h
  | some row =>
    simp only [Workshop.push, ht]
    obtain ⟨hid, hsub⟩ := ((s.stream row.work.kind).add task).trim_sub STREAM_LENGTH drop
    have hadded : ∀ e ∈ (((s.stream row.work.kind).add task).trim STREAM_LENGTH drop).entries,
        e ∈ (s.stream row.work.kind).entries ∨ e = ((s.stream row.work.kind).nextId, task) := by
      intro e he
      exact (List.mem_append.mp (hsub e he)).imp_right List.mem_singleton.mp
    refine h.setStream ?_ (fun e he hlt => ?_) (fun e he => ?_) fun t row' hc hkind howes => ?_
    · rw [hid]
      exact Nat.le_succ _
    · rcases hadded e he with hmem | rfl
      · exact hmem
      · exact absurd hlt (Nat.lt_irrefl _)
    · rcases hadded e he with hmem | rfl
      · exact h.entry _ e hmem
      · exact ⟨row, ht, rfl⟩
    · have hkept := hcond t row' hc (by rw [hkind]; exact howes)
      simpa only [Workshop.push, ht, hkind, stream_setStream_self] using hkept

theorem Ok.createGroup (h : Ok s) (kind : TaskKind) : Ok (s.setStream kind (s.stream kind).createGroup) :=
  h.setStream le_rfl (fun _ he _ => he) (h.entry kind) fun _ _ _ _ howes => howes.createGroup

theorem Ok.destroyGroup (h : Ok s) (kind : TaskKind) : Ok (s.setStream kind (s.stream kind).destroyGroup) :=
  h.setStream le_rfl (fun _ he _ => he) (h.entry kind) fun _ _ _ _ howes => howes.destroyGroup

/-- An entry is acknowledged when its task is settled, so no carried task loses one. -/
theorem Ok.ack (h : Ok s) (b : ℕ) : Ok (s.ack b) := by
  unfold Workshop.ack
  split
  case h_2 => exact h
  case h_1 kind entry hbox =>
    obtain ⟨t, ⟨_, hentry⟩, row, ht, hterminal⟩ := h.box _ (List.mem_of_getElem? hbox)
    refine Ok.setPhase (h.setStream le_rfl (fun _ he _ => he) (h.entry kind) ?_) fun _ _ => trivial
    rintro u row' ⟨hu, hlive, _⟩ _ howes
    refine howes.ack fun e he heq hpayload => ?_
    obtain rfl : t = u := (hentry e he heq).symm.trans hpayload
    rw [ht] at hu
    cases hu
    rw [mem_LIVE_iff, hterminal] at hlive
    cases hlive

/-- The call is answered, its task as the table says. -/
theorem Ok.resolved (h : Ok s) {c : ℕ} {call : StatusCall} (hcall : s.calls[c]? = some call)
    (hnone : call.outcome = none) {out : Answer} (hout : CallOk s { call with outcome := some out }) :
    Ok { s with calls := s.calls.set c { call with outcome := some out } } := by
  have hgrows : Grows s { s with calls := s.calls.set c { call with outcome := some out } } :=
    resolved_grows hcall hnone out fun t row h => ⟨row, h, rfl, id, fun _ => rfl⟩
  refine ⟨fun box hmem => (h.box box hmem).grow hgrows, fun call' hmem => ?_, fun kind e he => ?_, ?_⟩
  · rcases List.mem_or_eq_of_mem_set hmem with hmem | rfl
    · exact ⟨(h.call call' hmem).1.grow hgrows, (h.call call' hmem).2⟩
    · exact ⟨hout.grow hgrows, (h.call call (List.mem_of_getElem? hcall)).2⟩
  · cases kind <;> exact h.entry _ e he
  · rintro t row ⟨ht, hlive, hcarried⟩
    have howes : (s.stream row.work.kind).Owes t := by
      refine h.carried t row ⟨ht, hlive, hcarried.imp_right ?_⟩
      rintro ⟨call', hmem, htask, hnone'⟩
      rcases List.mem_or_eq_of_mem_set hmem with hmem | rfl
      · exact ⟨call', hmem, htask, hnone'⟩
      · cases hnone'
    cases hkind : row.work.kind <;> (rw [hkind] at howes; exact howes)

/-- The update of a live task, by a call on its way: its stream carried it already. -/
theorem Ok.updated (h : Ok s) {c now : ℕ} {t : TaskId} {update : TaskStatusUpdate} {row row' : TaskRow}
    (hcall : s.calls[c]? = some ⟨t, update, none⟩) (ht : s.tasks[t]? = some row) (hlive : row.status ∈ LIVE)
    (hnext : row.advance update row.startedAt now = some row') :
    Ok { s with tasks := s.tasks.set t row', calls := s.calls.set c ⟨t, update, some (.advanced row')⟩ } := by
  have hgrows : Grows s
      { s with tasks := s.tasks.set t row', calls := s.calls.set c ⟨t, update, some (.advanced row')⟩ } :=
    resolved_grows hcall rfl (.advanced row') (updated_task ht hlive hnext)
  obtain ⟨hpinned, hstatus, _⟩ := TaskRow.advance_eq_some hnext
  have hnew : (s.tasks.set t row')[t]? = some row' := List.getElem?_set_self (List.getElem?_eq_some_iff.mp ht).1
  refine ⟨fun box hmem => (h.box box hmem).grow hgrows, fun call' hmem => ?_, fun kind e he => ?_, ?_⟩
  · rcases List.mem_or_eq_of_mem_set hmem with hmem | rfl
    · obtain ⟨hok, old, hold⟩ := h.call call' hmem
      obtain ⟨new, hnew, _⟩ := hgrows.tasks _ old hold
      exact ⟨hok.grow hgrows, new, hnew⟩
    · refine ⟨⟨⟨row', hnew, ?_⟩, fun hterminal => ⟨row', hnew, by rw [hstatus, hterminal]⟩⟩, row', hnew⟩
      rw [hstatus]
      exact update.leaves
  · obtain ⟨old, hold, hkind⟩ : ∃ old, s.tasks[e.2]? = some old ∧ old.work.kind = kind := by
      cases kind <;> exact h.entry _ e he
    obtain ⟨new, hnew, hwork, _⟩ := hgrows.tasks _ old hold
    exact ⟨new, hnew, by rw [hwork, hkind]⟩
  · rintro u new ⟨hu, hulive, hcarried⟩
    have howes : (s.stream new.work.kind).Owes u := by
      by_cases hut : t = u
      · subst hut
        obtain rfl : new = row' := Option.some.inj (hu.symm.trans hnew)
        have hwork : new.work = row.work := congrArg (fun p => p.2.1) hpinned
        rw [hwork]
        exact h.carried t row ⟨ht, hlive, .inr ⟨_, List.mem_of_getElem? hcall, rfl, rfl⟩⟩
      · refine h.carried u new ⟨?_, hulive, hcarried.imp_right ?_⟩
        · simpa only [List.getElem?_set, hut, if_false] using hu
        · rintro ⟨call', hmem, htask, hnone⟩
          rcases List.mem_or_eq_of_mem_set hmem with hmem | rfl
          · exact ⟨call', hmem, htask, hnone⟩
          · cases hnone
    cases hkind : new.work.kind <;> (rw [hkind] at howes; exact howes)

theorem Ok.effect (h : Ok s) (c now : ℕ) : Ok (s.effect c now) := by
  unfold Workshop.effect
  split
  case h_2 => exact h
  case h_1 t update hcall =>
    obtain ⟨_, row, ht⟩ := h.call _ (List.mem_of_getElem? hcall)
    simp only [ht]
    split
    case isFalse hdead =>
      refine h.resolved hcall rfl ⟨row, ht, ?_⟩
      rw [mem_LIVE_iff] at hdead
      simpa using hdead
    case isTrue hlive =>
      cases hnext : row.advance update row.startedAt now with
      | none => exact h.resolved hcall rfl trivial
      | some row' => exact h.updated hcall ht hlive hnext

/-- The settling call of a box whose task has been claimed. -/
theorem Ok.settle (h : Ok s) {box : Box} (hbox : s.boxes[b]? = some box) {entry claim : ℕ} {t : TaskId}
    {update : TaskStatusUpdate} (hupdate : isTerminal update.status = true) (hentry : EntryOf s box.kind entry t)
    (hstarted : Started s t) : Ok (s.send b t update (.settling entry claim)) := by
  obtain ⟨row, ht, hstatus⟩ := hstarted
  refine h.send ⟨row, ht⟩ (fun row' ht' hlive => h.owes_started ⟨row, ht, hstatus⟩ row' ht' hlive) fun box' hbox' => ?_
  rw [hbox] at hbox'
  cases hbox'
  exact ⟨⟨t, update, none⟩, List.getElem?_concat_length, hupdate, hentry.grow (s.sent_grows _)⟩

theorem Ok.answer (h : Ok s) (limit b : ℕ) : Ok (s.answer limit b) := by
  unfold Workshop.answer
  split
  case h_3 => exact h
  case h_1 kind entry c hbox =>
    obtain ⟨call, hcall, _, hentry⟩ := h.box _ (List.mem_of_getElem? hbox)
    have hcallOk := (h.call call (List.mem_of_getElem? hcall)).1
    rw [hcall]
    obtain ⟨t, update, outcome⟩ := call
    rcases outcome with _ | row | _ | _
    case none => exact h
    case some.failed => exact h.setPhase fun _ _ => trivial
    case some.refused =>
        refine h.setPhase fun box hbox' => ?_
        rw [hbox] at hbox'
        cases hbox'
        exact ⟨t, hentry, hcallOk⟩
    case some.advanced =>
        simp only
        unfold claimed
        split
        · split
          · exact h.settle hbox rfl hentry hcallOk.1
          · refine h.setPhase fun box hbox' => ?_
            rw [hbox] at hbox'
            cases hbox'
            exact ⟨hentry, hcallOk.1⟩
        · exact h.settle hbox rfl hentry hcallOk.1
  case h_2 kind entry claim c hbox =>
    obtain ⟨call, hcall, hterminal, hentry⟩ := h.box _ (List.mem_of_getElem? hbox)
    have hcallOk := (h.call call (List.mem_of_getElem? hcall)).1
    rw [hcall]
    have hacking : ∀ {t}, EntryOf s kind entry t → Done s t → Ok (s.setPhase b (.acking entry)) := by
      intro t hentry hdone
      refine h.setPhase fun box hbox' => ?_
      rw [hbox] at hbox'
      cases hbox'
      exact ⟨t, hentry, hdone⟩
    obtain ⟨t, update, outcome⟩ := call
    rcases outcome with _ | row | _ | _
    case none => exact h
    case some.failed => exact h.setPhase fun _ _ => trivial
    case some.refused => exact hacking hentry hcallOk
    case some.advanced => exact hacking hentry (hcallOk.2 hterminal)

theorem Ok.produce (h : Ok s) (limit b : ℕ) (result : Produced) : Ok (s.produce limit b result) := by
  unfold Workshop.produce
  split
  case h_2 => exact h
  case h_1 kind entry claim t attempts hbox =>
    obtain ⟨hentry, hstarted⟩ := h.box _ (List.mem_of_getElem? hbox)
    split
    · exact h.settle hbox rfl hentry hstarted
    · exact h.settle hbox rfl hentry hstarted
    · split
      · exact h.setPhase fun _ _ => trivial
      · exact h.settle hbox rfl hentry hstarted

theorem Ok.create (h : Ok s) (game : GameId) (account : PlayerId) (work : TaskWork) (revision : ℕ) :
    Ok (s.create game account work revision) := by
  have hgrows := s.create_grows game account work revision
  unfold Workshop.create at hgrows ⊢
  split
  case isFalse => exact h
  case isTrue hpos =>
    rw [dif_pos hpos] at hgrows
    have hkept : ∀ {t row}, s.tasks[t]? = some row → (s.tasks ++ [.queued game account work revision hpos])[t]? = some row :=
      fun ht => (List.getElem?_append_left (List.getElem?_eq_some_iff.mp ht).1).trans ht
    refine ⟨fun box hmem => (h.box box hmem).grow hgrows, fun call hmem => ?_, fun kind e he => ?_, ?_⟩
    · obtain ⟨hok, row, ht⟩ := h.call call hmem
      exact ⟨hok.grow hgrows, row, hkept ht⟩
    · obtain ⟨row, ht, hkind⟩ : ∃ row, s.tasks[e.2]? = some row ∧ row.work.kind = kind := by
        cases kind <;> exact h.entry _ e he
      exact ⟨row, hkept ht, hkind⟩
    · rintro t row ⟨ht, hlive, hcarried⟩
      have ht₀ : s.tasks[t]? = some row := by
        rcases lt_or_ge t s.tasks.length with hlt | hge
        · rwa [List.getElem?_append_left hlt] at ht
        · -- the new row is not started, and no call is on a task there was none of
          rw [List.getElem?_append_right hge, List.getElem?_singleton] at ht
          simp only [Option.ite_none_right_eq_some, Option.some.injEq] at ht
          obtain ⟨_, rfl⟩ := ht
          rcases hcarried with hstatus | ⟨call, hmem, rfl, _⟩
          · cases hstatus
          · obtain ⟨_, old, hold⟩ := h.call call hmem
            exact absurd hge (Nat.not_le_of_lt (List.getElem?_eq_some_iff.mp hold).1)
      have howes := h.carried t row ⟨ht₀, hlive, hcarried⟩
      cases hkind : row.work.kind <;> (rw [hkind] at howes; exact howes)

theorem Ok.step (limit : ℕ) (h : Ok s) (e : Step) (hcond : KeepsEntries s e) : Ok (Workshop.step limit s e) := by
  cases e with
  | create game account work revision => exact h.create game account work revision
  | push task drop => exact h.push hcond
  | join kind =>
    refine ⟨fun box hmem => ?_, h.call, fun kind e he => by cases kind <;> exact h.entry _ e he, fun t row hc => ?_⟩
    · have hgrows := s.step_grows limit (.join kind)
      rcases List.mem_append.mp hmem with hmem | hmem
      · exact (h.box box hmem).grow hgrows
      · rw [List.mem_singleton.mp hmem]
        trivial
    · have howes := h.carried t row hc
      cases hkind : row.work.kind <;> (rw [hkind] at howes; exact howes)
  | createGroup kind => exact h.createGroup kind
  | destroyGroup kind => exact h.destroyGroup kind
  | read b => exact h.read b
  | reclaim b entry => exact h.reclaim b entry
  | effect c now => exact h.effect c now
  | answer b => exact h.answer limit b
  | lose b =>
    change Ok (s.lose b)
    unfold Workshop.lose
    split
    · exact h.setPhase fun _ _ => trivial
    · exact h.setPhase fun _ _ => trivial
    · exact h
  | produce b result => exact h.produce limit b result
  | throws b =>
    change Ok (s.throws b)
    unfold Workshop.throws
    split
    · exact h
    · exact h.setPhase fun _ _ => trivial
  | ack b => exact h.ack b
  | die b => exact h.setPhase fun _ _ => trivial

/-- No task is stranded: one that is neither settled nor the sweeper's to announce has an
entry some box can still read or reclaim. -/
def NoneStranded (limit : ℕ) (es : List Step) : Prop :=
  ∀ (t : ℕ) row, (Workshop.run limit es).tasks[t]? = some row →
    isTerminal row.status = true ∨ row.status = .NOT_STARTED ∨ ((Workshop.run limit es).stream row.work.kind).Owes t

/-- **No queued task is stranded**, along every run whose pushes trim no entry a claimed task
is carried by. -/
theorem no_task_stranded (limit : ℕ) (es : List Step)
    (h : Meets (Workshop.step limit) KeepsEntries Workshop.start es) : NoneStranded limit es := by
  intro t row ht
  have hok : Ok (Workshop.run limit es) := Meets.invariant (fun _ e hs hc => hs.step limit e hc) Ok.start h
  cases hterminal : isTerminal row.status with
  | true => exact .inl rfl
  | false =>
    refine .inr ?_
    have hlive : row.status ∈ LIVE := (mem_LIVE_iff _).mpr hterminal
    by_cases hstatus : row.status = .NOT_STARTED
    · exact .inl hstatus
    · exact .inr (hok.owes_started ⟨row, ht, hstatus⟩ row ht hlive)

/-- A push that trims nothing keeps every entry. -/
theorem keepsEntries_of_untrimmed (s : Workshop) (task : TaskId) : KeepsEntries s (.push task 0) := by
  intro t row _ howes
  unfold Workshop.push
  split
  case h_2 => exact howes
  case h_1 pushed _ =>
    rw [EntryStream.trim_zero, stream_setStream]
    split
    case isTrue heq => exact (heq ▸ howes).add task
    case isFalse => exact howes

/-- A build is announced, claimed, and left by a box that dies. -/
def claimedAndLeft : List Step :=
  [.create "game" "ada" .BUILD 1, .create "game" "ada" .BUILD 2, .join .BUILD, .createGroup .BUILD, .push 0 0, .read 0,
    .effect 0 5, .die 0]

theorem no_task_stranded_left : NoneStranded 3 claimedAndLeft :=
  no_task_stranded 3 claimedAndLeft
    ⟨trivial, trivial, trivial, trivial, keepsEntries_of_untrimmed _ 0, trivial, trivial, trivial, trivial⟩

/-! ### The announcements that push an entry out -/

/-- Announcements of a build, nothing trimmed yet. -/
theorem exec_pushes (limit : ℕ) {task : TaskId} {row : TaskRow} (n : ℕ) {s : Workshop} (ht : s.tasks[task]? = some row)
    (hkind : row.work.kind = .BUILD) :
    (exec (Workshop.step limit) s (List.replicate n (.push task 0))).tasks = s.tasks ∧
      (exec (Workshop.step limit) s (List.replicate n (.push task 0))).builds.entries =
        s.builds.entries ++ (List.range' s.builds.nextId n).map fun id => (id, task) := by
  induction n generalizing s with
  | zero => simp
  | succ n ih =>
    have hpush : Workshop.step limit s (.push task 0) = { s with builds := s.builds.add task } := by
      simp only [Workshop.step, Workshop.push, ht, hkind, EntryStream.trim_zero]
      rfl
    rw [List.replicate_succ, exec_cons, hpush]
    obtain ⟨htasks, hentries⟩ := ih (s := { s with builds := s.builds.add task }) ht
    refine ⟨htasks, ?_⟩
    rw [hentries, List.range'_succ, List.map_cons]
    exact List.append_assoc s.builds.entries [(s.builds.nextId, task)] _

/-- The build of revision one is claimed, and the sweeper and the publishes announce the
build of revision two `n` times, and once more, before a box comes to reclaim the first. -/
def pushedOut (n : ℕ) : List Step := claimedAndLeft ++ List.replicate n (.push 1 0) ++ [.push 1 1]

/-- The last of as many announcements as the stream may keep trims the claimed build's entry. -/
theorem pushed_out {n : ℕ} (hn : n + 1 = STREAM_LENGTH) : ¬ NoneStranded 3 (pushedOut n) := by
  intro h
  have hclaimed : (Workshop.run 3 claimedAndLeft).builds.entries = [(0, 0)] ∧
      (Workshop.run 3 claimedAndLeft).builds.nextId = 1 := by decide
  obtain ⟨row, ht, hkind⟩ : ∃ row, (Workshop.run 3 claimedAndLeft).tasks[1]? = some row ∧ row.work.kind = .BUILD :=
    ⟨_, rfl, rfl⟩
  obtain ⟨htasks, hentries⟩ := exec_pushes 3 n ht hkind
  rw [hclaimed.1, hclaimed.2] at hentries
  generalize hs : exec (Workshop.step 3) (Workshop.run 3 claimedAndLeft) (List.replicate n (.push 1 0)) = s
    at htasks hentries
  have hrun : Workshop.run 3 (pushedOut n) = s.push 1 1 := by
    rw [Workshop.run, pushedOut, exec_append, exec_append]
    change exec (Workshop.step 3) (exec (Workshop.step 3) (Workshop.run 3 claimedAndLeft) _) [.push 1 1] = _
    rw [hs]
    rfl
  have htrim : (((s.stream .BUILD).add 1).trim STREAM_LENGTH 1).entries =
      ((List.range' 1 n).map fun id => (id, 1)) ++ [(s.builds.nextId, 1)] := by
    have hadd : ((s.stream .BUILD).add 1).entries = (0, 0) :: ((List.range' 1 n).map (fun id => (id, 1)) ++
        [(s.builds.nextId, 1)]) := congrArg (· ++ [(s.builds.nextId, 1)]) hentries
    have hlen : STREAM_LENGTH + 1 ≤ ((s.stream .BUILD).add 1).entries.length := by
      rw [hadd, ← hn]
      simp
    rw [EntryStream.trim, if_pos hlen]
    change ((s.stream .BUILD).add 1).entries.drop 1 = _
    rw [hadd, List.drop_one, List.tail_cons]
  have hpush : s.push 1 1 = s.setStream .BUILD (((s.stream .BUILD).add 1).trim STREAM_LENGTH 1) := by
    simp only [Workshop.push, htasks, ht, hkind]
  obtain ⟨first, hfirst, hstatus, hwork⟩ : ∃ first, (Workshop.run 3 claimedAndLeft).tasks[0]? = some first ∧
      first.status = .IN_PROGRESS ∧ first.work = .BUILD := ⟨_, rfl, rfl, rfl⟩
  rcases h 0 first (by rw [hrun, hpush, (setStream_rest _ _).1, htasks, hfirst]) with hdone | hnew | howes
  · rw [hstatus] at hdone
    cases hdone
  · rw [hstatus] at hnew
    cases hnew
  · rw [hrun, hpush, hwork] at howes
    obtain ⟨e, he, hpayload, _⟩ := howes
    simp only [TaskWork.kind, stream_setStream_self, htrim, List.mem_append, List.mem_map, List.mem_singleton] at he
    rcases he with ⟨_, _, rfl⟩ | rfl
    · cases hpayload
    · cases hpayload

/-- The claimed build is stranded: `IN_PROGRESS`, and no entry of its stream is its own. -/
theorem task_stranded : ¬ ∀ limit es, NoneStranded limit es := fun h => pushed_out (n := 9999) rfl (h 3 _)

end Grove.Tasks
