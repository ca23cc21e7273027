import Grove.Tasks.Workers

/-! # What a step of the workers does

Every step of the boxes, of the streams and of the status route is one of a few moves: a box
turns to another phase, a box sends a status call, or the route answers one.  `step_moves`
says which, with all the box knew when it did; the invariants over runs go by its cases. -/

namespace Grove.Tasks

open Grove.Api Workshop

/-- The call that claimed the task a box is at work on. -/
def Phase.claim : Phase → Option ℕ
  | claiming _ call => some call
  | building _ claim _ _ => some claim
  | settling _ claim _ => some claim
  | idle | acking _ | gone => none

/-- Box `b` goes on to another phase, and sends nothing. -/
inductive Turns (limit : ℕ) (s : Workshop) (b : ℕ) : Step → Box → Phase → Prop where
  | lost {box} : Turns limit s b (.lose b) box .idle
  | threw {box} : Turns limit s b (.throws b) box .idle
  | died {box} : Turns limit s b (.die b) box .gone
  | failed {box entry claim call t update} : box.phase = .claiming entry call ∨ box.phase = .settling entry claim call →
      s.calls[call]? = some ⟨t, update, some .failed⟩ → Turns limit s b (.answer b) box .idle
  | refused {box entry call t update} : box.phase = .claiming entry call →
      s.calls[call]? = some ⟨t, update, some .refused⟩ → Turns limit s b (.answer b) box (.acking entry)
  | settled {box entry claim call t update out} : box.phase = .settling entry claim call →
      s.calls[call]? = some ⟨t, update, some out⟩ → out ≠ .failed → Turns limit s b (.answer b) box (.acking entry)
  | builds {box entry call t update row} : box.phase = .claiming entry call → box.kind = .BUILD →
      s.calls[call]? = some ⟨t, update, some (.advanced row)⟩ → row.attempts ≤ limit →
      Turns limit s b (.answer b) box (.building entry call t row.attempts)
  | unavailable {box entry claim t attempts text} : box.phase = .building entry claim t attempts →
      Turns limit s b (.produce b (.unavailable text)) box .idle
  | acked {box entry} : box.phase = .acking entry → Turns limit s b (.ack b) box .idle

/-- Box `b` sends a status call. -/
inductive Sends (limit : ℕ) (s : Workshop) (b : ℕ) : Step → Box → TaskId → TaskStatusUpdate → (ℕ → Phase) → Prop where
  | takes {e box entry} : e = .read b ∨ e = .reclaim b entry.1 → box.phase = .idle →
      entry ∈ (s.stream box.kind).entries → Sends limit s b e box entry.2 claimUpdate (.claiming entry.1)
  | givesUp {box entry call t update row} : box.phase = .claiming entry call → box.kind = .BUILD →
      s.calls[call]? = some ⟨t, update, some (.advanced row)⟩ → limit < row.attempts →
      Sends limit s b (.answer b) box t (settleUpdate .FAILED (some (.gaveUp limit)) (by decide)) (.settling entry call)
  | uploads {box entry call t update row} : box.phase = .claiming entry call → box.kind = .ASSET_UPLOAD →
      s.calls[call]? = some ⟨t, update, some (.advanced row)⟩ →
      Sends limit s b (.answer b) box t ⟨.SUCCESSFUL, none, by decide⟩ (.settling entry call)
  | produced {result box entry claim t attempts update} : box.phase = .building entry claim t attempts →
      isTerminal update.status = true → (result = .built → update.status = .SUCCESSFUL) →
      (∀ n, update.detail ≠ some ⟨some (.gaveUp n)⟩) →
      Sends limit s b (.produce b result) box t update (.settling entry claim)

/-- Nothing enters a stream. -/
def NoEntry (s s' : Workshop) : Prop := ∀ kind, ∀ x ∈ (s'.stream kind).entries, x ∈ (s.stream kind).entries

/-- What one step does. -/
inductive Moves (limit : ℕ) (s : Workshop) : Step → Workshop → Prop where
  | still {e s'} : s'.tasks = s.tasks → s'.calls = s.calls → s'.boxes = s.boxes →
      (∀ kind, ∀ x ∈ (s'.stream kind).entries, x ∈ (s.stream kind).entries ∨
        ∃ row, s.tasks[x.2]? = some row ∧ row.work.kind = kind) → Moves limit s e s'
  | created {game account work revision} (h : 0 < revision) : Moves limit s (.create game account work revision)
      { s with tasks := s.tasks ++ [.queued game account work revision h] }
  | joined {kind} : Moves limit s (.join kind) { s with boxes := s.boxes ++ [⟨kind, .idle⟩] }
  | turned {e s' b box phase} : s.boxes[b]? = some box → Turns limit s b e box phase →
      s'.tasks = s.tasks → s'.calls = s.calls → s'.boxes = (s.setPhase b phase).boxes → NoEntry s s' → Moves limit s e s'
  | sent {e s' b box t update phase} : s.boxes[b]? = some box → Sends limit s b e box t update phase →
      s'.tasks = s.tasks → s'.calls = s.calls ++ [⟨t, update, none⟩] →
      s'.boxes = (s.setPhase b (phase s.calls.length)).boxes → NoEntry s s' → Moves limit s e s'
  | refused {c now t update} : s.calls[c]? = some ⟨t, update, none⟩ →
      (∀ row, s.tasks[t]? = some row → isTerminal row.status = true) →
      Moves limit s (.effect c now) { s with calls := s.calls.set c ⟨t, update, some .refused⟩ }
  | failed {c now t update row} : s.calls[c]? = some ⟨t, update, none⟩ → s.tasks[t]? = some row →
      row.status ∈ LIVE → row.advance update row.startedAt now = none →
      Moves limit s (.effect c now) { s with calls := s.calls.set c ⟨t, update, some .failed⟩ }
  | advanced {c now t update row row'} : s.calls[c]? = some ⟨t, update, none⟩ → s.tasks[t]? = some row →
      row.status ∈ LIVE → row.advance update row.startedAt now = some row' →
      Moves limit s (.effect c now)
        { s with tasks := s.tasks.set t row', calls := s.calls.set c ⟨t, update, some (.advanced row')⟩ }

variable {limit : ℕ} {s : Workshop} {e : Step} {b : ℕ}

theorem Moves.refl (s : Workshop) (e : Step) : Moves limit s e s := .still rfl rfl rfl fun _ _ hx => .inl hx

/-- A box goes on to another phase, once the entry it held may have left its stream. -/
theorem Moves.turn {box : Box} {phase : Phase} (hbox : s.boxes[b]? = some box) (h : Turns limit s b e box phase) :
    Moves limit s e (s.setPhase b phase) :=
  .turned hbox h rfl rfl rfl fun _ x hx => by rwa [setPhase_stream] at hx

/-- There is no such box. -/
theorem Moves.turn_none {phase : Phase} (hbox : s.boxes[b]? = none) : Moves limit s e (s.setPhase b phase) := by
  refine .still rfl rfl (List.modify_eq_self (List.getElem?_eq_none_iff.mp hbox)) fun kind x hx => ?_
  rw [setPhase_stream] at hx
  exact .inl hx

theorem Moves.send {box : Box} {t : TaskId} {update : TaskStatusUpdate} {phase : ℕ → Phase} (hbox : s.boxes[b]? = some box)
    (h : Sends limit s b e box t update phase) : Moves limit s e (s.send b t update phase) :=
  .sent hbox h rfl rfl rfl fun kind x hx => by cases kind <;> exact hx

theorem Moves.ofStream {kind : TaskKind} {st : EntryStream TaskId} (hentries : ∀ x ∈ st.entries,
    x ∈ (s.stream kind).entries ∨ ∃ row, s.tasks[x.2]? = some row ∧ row.work.kind = kind) :
    Moves limit s e (s.setStream kind st) := by
  obtain ⟨htasks, hcalls, hboxes⟩ := s.setStream_rest kind st
  refine .still htasks hcalls hboxes fun kind' x hx => ?_
  rw [stream_setStream] at hx
  split at hx
  case isTrue heq => exact heq ▸ hentries x hx
  case isFalse => exact .inl hx

/-- A box takes up an entry of its stream. -/
theorem Moves.take {kind : TaskKind} {st : EntryStream TaskId} {x : ℕ × TaskId} (hbox : s.boxes[b]? = some ⟨kind, .idle⟩)
    (he : e = .read b ∨ e = .reclaim b x.1) (hentries : st.entries = (s.stream kind).entries)
    (hx : x ∈ (s.stream kind).entries) : Moves limit s e ((s.setStream kind st).take b x) := by
  obtain ⟨htasks, hcalls, hboxes⟩ := s.setStream_rest kind st
  refine .sent hbox (.takes he rfl hx) htasks ?_ ?_ fun kind' y hy => ?_
  · rw [← hcalls]
    rfl
  · change (s.setStream kind st).boxes.modify b _ = s.boxes.modify b _
    rw [hboxes, hcalls]
  · have hy' : y ∈ ((s.setStream kind st).stream kind').entries := by cases kind' <;> exact hy
    rw [stream_setStream] at hy'
    split at hy'
    case isTrue heq => rwa [heq, ← hentries]
    case isFalse => exact hy'

theorem read_moves (limit : ℕ) (s : Workshop) (b : ℕ) : Moves limit s (.read b) (s.read b) := by
  unfold Workshop.read
  split
  case h_2 => exact .refl _ _
  case h_1 kind hbox =>
    cases hread : (s.stream kind).read b with
    | none => exact .refl _ _
    | some pair => exact .take hbox (.inl rfl) (EntryStream.entries_of_read hread).1 (EntryStream.owes_of_read hread).1

theorem reclaim_moves (limit : ℕ) (s : Workshop) (b entry : ℕ) : Moves limit s (.reclaim b entry) (s.reclaim b entry) := by
  unfold Workshop.reclaim
  split
  case h_2 => exact .refl _ _
  case h_1 kind hbox =>
    obtain ⟨hentries, _⟩ := (s.stream kind).entries_claim b entry
    obtain ⟨hgot, _⟩ := (s.stream kind).owes_of_claim b entry
    cases hclaim : (s.stream kind).claim b entry with
    | mk got st =>
      rw [hclaim] at hentries hgot
      cases got with
      | some x =>
        obtain ⟨hx, hid, _⟩ := hgot x rfl
        exact .take hbox (.inr (by rw [hid])) hentries hx
      | none => exact .ofStream fun x hx => .inl (hentries ▸ hx)

theorem effect_moves (limit : ℕ) (s : Workshop) (c now : ℕ) : Moves limit s (.effect c now) (s.effect c now) := by
  unfold Workshop.effect
  split
  case h_2 => exact .refl _ _
  case h_1 t update hcall =>
    cases ht : s.tasks[t]? with
    | none => exact .refused hcall fun row hrow => by rw [ht] at hrow; cases hrow
    | some row =>
      simp only
      split
      case isFalse hdead =>
        refine .refused hcall fun row' hrow => ?_
        rw [ht] at hrow
        cases hrow
        simpa [mem_LIVE_iff] using hdead
      case isTrue hlive =>
        cases hnext : row.advance update row.startedAt now with
        | none => exact .failed hcall ht hlive hnext
        | some row' => exact .advanced hcall ht hlive hnext

theorem answer_moves (limit : ℕ) (s : Workshop) (b : ℕ) : Moves limit s (.answer b) (s.answer limit b) := by
  unfold Workshop.answer
  split
  case h_3 => exact .refl _ _
  case h_1 kind entry call hbox =>
    split
    case h_1 t update row hcall =>
      cases kind with
      | BUILD =>
        simp only [claimed]
        split
        case isTrue hspent => exact .send hbox (.givesUp rfl rfl hcall hspent)
        case isFalse hleft => exact .turn hbox (.builds rfl rfl hcall (Nat.le_of_not_lt hleft))
      | ASSET_UPLOAD => exact .send hbox (.uploads rfl rfl hcall)
    case h_2 t update hcall => exact .turn hbox (.refused rfl hcall)
    case h_3 t update hcall => exact .turn hbox (.failed (Or.inl (b := _ = Phase.settling _ 0 _) rfl) hcall)
    case h_4 => exact .refl _ _
  case h_2 kind entry claim call hbox =>
    split
    case h_1 t update hcall => exact .turn hbox (.failed (.inr rfl) hcall)
    case h_2 t update out hfailed hcall => exact .turn hbox (.settled rfl hcall fun heq => hfailed (heq ▸ rfl))
    case h_3 => exact .refl _ _

theorem produce_moves (limit : ℕ) (s : Workshop) (b : ℕ) (result : Produced) :
    Moves limit s (.produce b result) (s.produce limit b result) := by
  unfold Workshop.produce
  split
  case h_2 => exact .refl _ _
  case h_1 kind entry claim t attempts hbox =>
    cases result with
    | built => exact .send hbox (.produced rfl rfl (fun _ => rfl) fun _ heq => by cases heq)
    | rejected text => exact .send hbox (.produced rfl rfl (fun heq => by cases heq) fun _ heq => by cases heq)
    | unavailable text =>
      simp only
      split
      · exact .turn hbox (.unavailable rfl)
      · exact .send hbox (.produced rfl rfl (fun heq => by cases heq) fun _ heq => by cases heq)

/-- Every step is one of the moves. -/
theorem step_moves (limit : ℕ) (s : Workshop) (e : Step) : Moves limit s e (step limit s e) := by
  cases e with
  | create game account work revision =>
    change Moves limit s _ (s.create game account work revision)
    unfold Workshop.create
    split
    case isTrue hpos => exact .created hpos
    case isFalse => exact .refl _ _
  | push task drop =>
    change Moves limit s _ (s.push task drop)
    unfold Workshop.push
    split
    case h_2 => exact .refl _ _
    case h_1 row ht =>
      refine .ofStream fun x hx => ?_
      obtain hx | hx := List.mem_append.mp ((((s.stream row.work.kind).add task).trim_sub STREAM_LENGTH drop).2 x hx)
      · exact .inl hx
      · rw [List.mem_singleton.mp hx]
        exact .inr ⟨row, ht, rfl⟩
  | join kind => exact .joined
  | createGroup | destroyGroup => exact .ofStream fun x hx => .inl hx
  | read b => exact read_moves limit s b
  | reclaim b entry => exact reclaim_moves limit s b entry
  | effect c now => exact effect_moves limit s c now
  | answer b => exact answer_moves limit s b
  | lose b =>
    change Moves limit s _ (s.lose b)
    unfold Workshop.lose
    split
    case h_1 hbox => exact .turn hbox .lost
    case h_2 hbox => exact .turn hbox .lost
    case h_3 => exact .refl _ _
  | produce b result => exact produce_moves limit s b result
  | throws b =>
    change Moves limit s _ (s.throws b)
    unfold Workshop.throws
    split
    · exact .refl _ _
    · cases hbox : s.boxes[b]? with
      | some box => exact .turn hbox .threw
      | none => exact .turn_none hbox
  | ack b =>
    change Moves limit s _ (s.ack b)
    unfold Workshop.ack
    split
    case h_2 => exact .refl _ _
    case h_1 kind entry hbox =>
      obtain ⟨htasks, hcalls, hboxes⟩ := s.setStream_rest kind ((s.stream kind).ack entry)
      refine .turned hbox (.acked rfl) htasks hcalls ?_ fun kind' x hx => ?_
      · change (s.setStream kind ((s.stream kind).ack entry)).boxes.modify b _ = s.boxes.modify b _
        rw [hboxes]
      · rw [setPhase_stream, stream_setStream] at hx
        split at hx
        case isTrue heq => exact heq ▸ hx
        case isFalse => exact hx
  | die b =>
    change Moves limit s _ (s.setPhase b .gone)
    cases hbox : s.boxes[b]? with
    | some box => exact .turn hbox .died
    | none => exact .turn_none hbox

end Grove.Tasks
