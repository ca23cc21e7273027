import Grove.Api.Records
import Grove.Lib.Run
import Grove.Lib.Stream

/-! # Workers on the task streams

The two services that do queued work, over the streams their tasks are announced on and the
status route they settle them through.  `@grove/game-builder` and
`@grove/asset-upload-service` are one machine with two bodies: a box reads or reclaims an
entry, claims its task, does the work, settles, and acknowledges the entry once the outcome
is written down.  A box that throws, is not answered or dies leaves its entry pending.

A status call takes effect at most once, at any moment after it is sent, whether or not the
box that sent it still waits for the answer. -/

namespace Grove.Tasks

open Grove.Api

/-- How long a stream may keep the ids of work already settled. -/
def STREAM_LENGTH : ℕ := 10000

/-- What the status route answered. -/
inductive Answer where
  | advanced (row : TaskRow)
  | refused
  /-- The route failed, and nothing was written. -/
  | failed
deriving DecidableEq

/-- A status call: the task it names, what it writes, and its answer once it took effect. -/
structure StatusCall where
  task : TaskId
  update : TaskStatusUpdate
  outcome : Option Answer
deriving DecidableEq

/-- What a box is doing with the entry it holds.  `claim` is the call that claimed the task. -/
inductive Phase where
  | idle
  | claiming (entry call : ℕ)
  | building (entry claim : ℕ) (task : TaskId) (attempts : ℕ)
  | settling (entry claim call : ℕ)
  | acking (entry : ℕ)
  | gone
deriving DecidableEq

/-- A consumer of one kind of work. -/
structure Box where
  kind : TaskKind
  phase : Phase
deriving DecidableEq

/-- What `produce` came to. -/
inductive Produced where
  | built
  | rejected (text : String)
  | unavailable (text : String)
deriving DecidableEq

/-- The task table, the two streams, every status call sent, and the boxes. -/
structure Workshop where
  tasks : List TaskRow
  builds : EntryStream TaskId
  uploads : EntryStream TaskId
  calls : List StatusCall
  boxes : List Box

inductive Step where
  | create (game : GameId) (account : PlayerId) (work : TaskWork) (revision : ℕ)
  /-- A save, a publish or the sweeper announces a task, and the stream trims `drop` entries. -/
  | push (task : TaskId) (drop : ℕ)
  | join (kind : TaskKind)
  | createGroup (kind : TaskKind)
  | destroyGroup (kind : TaskKind)
  | read (box : ℕ)
  | reclaim (box entry : ℕ)
  /-- A status call takes effect. -/
  | effect (call : ℕ) (now : ℕ)
  | answer (box : ℕ)
  /-- The box gives up on the answer it waits for. -/
  | lose (box : ℕ)
  | produce (box : ℕ) (result : Produced)
  | throws (box : ℕ)
  | ack (box : ℕ)
  | die (box : ℕ)
deriving DecidableEq

def claimUpdate : TaskStatusUpdate := ⟨.IN_PROGRESS, none, by decide⟩

/-- A settled outcome and its message, as `settle` sends it. -/
def settleUpdate (status : TaskStatus) (message : Option TaskMessage) (h : status ≠ .NOT_STARTED) : TaskStatusUpdate :=
  ⟨status, some ⟨message⟩, h⟩

namespace Workshop

def start : Workshop := ⟨[], .empty, .empty, [], []⟩

variable (s : Workshop)

/-- `streamOf`. -/
def stream : TaskKind → EntryStream TaskId
  | .BUILD => s.builds
  | .ASSET_UPLOAD => s.uploads

def setStream (kind : TaskKind) (stream : EntryStream TaskId) : Workshop :=
  match kind with
  | .BUILD => { s with builds := stream }
  | .ASSET_UPLOAD => { s with uploads := stream }

def setPhase (b : ℕ) (phase : Phase) : Workshop :=
  { s with boxes := s.boxes.modify b fun box => { box with phase } }

/-- A box sends a status call, and goes to `phase` knowing its number. -/
def send (b : ℕ) (task : TaskId) (update : TaskStatusUpdate) (phase : ℕ → Phase) : Workshop :=
  setPhase { s with calls := s.calls ++ [⟨task, update, none⟩] } b (phase s.calls.length)

/-- A new row, as a save or a publish inserts it. -/
def create (game : GameId) (account : PlayerId) (work : TaskWork) (revision : ℕ) : Workshop :=
  if h : 0 < revision then { s with tasks := s.tasks ++ [.queued game account work revision h] } else s

def push (task : TaskId) (drop : ℕ) : Workshop :=
  match s.tasks[task]? with
  | some row => s.setStream row.work.kind (((s.stream row.work.kind).add task).trim STREAM_LENGTH drop)
  | none => s

/-- Box `b` takes up an entry: it claims the task the entry names. -/
def take (b : ℕ) (entry : ℕ × TaskId) : Workshop :=
  s.send b entry.2 claimUpdate (.claiming entry.1)

def read (b : ℕ) : Workshop :=
  match s.boxes[b]? with
  | some ⟨kind, .idle⟩ =>
    match (s.stream kind).read b with
    | some (entry, stream) => (s.setStream kind stream).take b entry
    | none => s
  | _ => s

def reclaim (b entry : ℕ) : Workshop :=
  match s.boxes[b]? with
  | some ⟨kind, .idle⟩ =>
    match (s.stream kind).claim b entry with
    | (some entry, stream) => (s.setStream kind stream).take b entry
    | (none, stream) => s.setStream kind stream
  | _ => s

/-- The status route runs a call, its guard and its update together. -/
def effect (c : ℕ) (now : ℕ) : Workshop :=
  match s.calls[c]? with
  | some ⟨task, update, none⟩ =>
    match s.tasks[task]? with
    | none => { s with calls := s.calls.set c ⟨task, update, some .refused⟩ }
    | some row =>
      if row.status ∈ LIVE then
        match row.advance update row.startedAt now with
        | some row' =>
          { s with tasks := s.tasks.set task row', calls := s.calls.set c ⟨task, update, some (.advanced row')⟩ }
        | none => { s with calls := s.calls.set c ⟨task, update, some .failed⟩ }
      else { s with calls := s.calls.set c ⟨task, update, some .refused⟩ }
  | _ => s

/-- The claim was accepted: what each service does next.  `limit` is `BUILD_ATTEMPTS`. -/
def claimed (limit b : ℕ) (kind : TaskKind) (entry claim : ℕ) (task : TaskId) (row : TaskRow) : Workshop :=
  match kind with
  | .BUILD =>
    if row.attempts > limit then
      s.send b task (settleUpdate .FAILED (some (.gaveUp limit)) TaskStatus.failed_leaves) (.settling entry claim)
    else s.setPhase b (.building entry claim task row.attempts)
  | .ASSET_UPLOAD => s.send b task ⟨.SUCCESSFUL, none, TaskStatus.successful_leaves⟩ (.settling entry claim)

/-- The box hears the answer it waits for. -/
def answer (limit b : ℕ) : Workshop :=
  match s.boxes[b]? with
  | some ⟨kind, .claiming entry call⟩ =>
    match s.calls[call]? with
    | some ⟨task, _, some (.advanced row)⟩ => s.claimed limit b kind entry call task row
    | some ⟨_, _, some .refused⟩ => s.setPhase b (.acking entry)
    | some ⟨_, _, some .failed⟩ => s.setPhase b .idle
    | _ => s
  | some ⟨_, .settling entry _ call⟩ =>
    match s.calls[call]? with
    | some ⟨_, _, some .failed⟩ => s.setPhase b .idle
    | some ⟨_, _, some _⟩ => s.setPhase b (.acking entry)
    | _ => s
  | _ => s

def lose (b : ℕ) : Workshop :=
  match s.boxes[b]? with
  | some ⟨_, .claiming _ _⟩ | some ⟨_, .settling _ _ _⟩ => s.setPhase b .idle
  | _ => s

def produce (limit b : ℕ) (result : Produced) : Workshop :=
  match s.boxes[b]? with
  | some ⟨_, .building entry claim task attempts⟩ =>
    match result with
    | .built => s.send b task (settleUpdate .SUCCESSFUL none TaskStatus.successful_leaves) (.settling entry claim)
    | .rejected text => s.send b task (settleUpdate .FAILED (some (.said text)) TaskStatus.failed_leaves) (.settling entry claim)
    | .unavailable text =>
      if attempts < limit then s.setPhase b .idle
      else s.send b task (settleUpdate .FAILED (some (.said text)) TaskStatus.failed_leaves) (.settling entry claim)
  | _ => s

/-- Whatever the box was at throws; a box that is gone does nothing more. -/
def throws (b : ℕ) : Workshop :=
  match s.boxes[b]? with
  | some ⟨_, .gone⟩ => s
  | _ => s.setPhase b .idle

def ack (b : ℕ) : Workshop :=
  match s.boxes[b]? with
  | some ⟨kind, .acking entry⟩ => (s.setStream kind ((s.stream kind).ack entry)).setPhase b .idle
  | _ => s

def step (limit : ℕ) (s : Workshop) : Step → Workshop
  | .create game account work revision => s.create game account work revision
  | .push task drop => s.push task drop
  | .join kind => { s with boxes := s.boxes ++ [⟨kind, .idle⟩] }
  | .createGroup kind => s.setStream kind (s.stream kind).createGroup
  | .destroyGroup kind => s.setStream kind (s.stream kind).destroyGroup
  | .read b => s.read b
  | .reclaim b entry => s.reclaim b entry
  | .effect c now => s.effect c now
  | .answer b => s.answer limit b
  | .lose b => s.lose b
  | .produce b result => s.produce limit b result
  | .throws b => s.throws b
  | .ack b => s.ack b
  | .die b => s.setPhase b .gone

def run (limit : ℕ) (es : List Step) : Workshop := exec (step limit) start es

end Workshop

/-! ### What a step leaves in place -/

/-- What every step keeps: a call sent keeps its task, its update and the answer it has, a
task its work, its having been claimed and its outcome, and an entry its payload. -/
structure Grows (s s' : Workshop) : Prop where
  calls : ∀ (c : ℕ) call, s.calls[c]? = some call → ∃ call', s'.calls[c]? = some call' ∧ call'.task = call.task ∧
    call'.update = call.update ∧ ∀ out, call.outcome = some out → call'.outcome = some out
  tasks : ∀ (t : ℕ) row, s.tasks[t]? = some row → ∃ row', s'.tasks[t]? = some row' ∧ row'.work = row.work ∧
    (row.status ≠ .NOT_STARTED → row'.status ≠ .NOT_STARTED) ∧ (isTerminal row.status = true → row' = row)
  ids : ∀ kind, (s.stream kind).nextId ≤ (s'.stream kind).nextId
  entries : ∀ kind, ∀ e ∈ (s'.stream kind).entries, e.1 < (s.stream kind).nextId → e ∈ (s.stream kind).entries

theorem Grows.refl (s : Workshop) : Grows s s where
  calls _ call h := ⟨call, h, rfl, rfl, fun _ h => h⟩
  tasks _ row h := ⟨row, h, rfl, id, fun _ => rfl⟩
  ids _ := le_rfl
  entries _ _ h _ := h

theorem Grows.trans {s s' s'' : Workshop} (h : Grows s s') (h' : Grows s' s'') : Grows s s'' where
  calls c call hc := by
    obtain ⟨call', hc', htask, hupdate, hout⟩ := h.calls c call hc
    obtain ⟨call'', hc'', htask', hupdate', hout'⟩ := h'.calls c call' hc'
    exact ⟨call'', hc'', htask'.trans htask, hupdate'.trans hupdate, fun out ho => hout' out (hout out ho)⟩
  tasks t row ht := by
    obtain ⟨row', ht', hwork, hstarted, hterminal⟩ := h.tasks t row ht
    obtain ⟨row'', ht'', hwork', hstarted', hterminal'⟩ := h'.tasks t row' ht'
    refine ⟨row'', ht'', hwork'.trans hwork, fun hs => hstarted' (hstarted hs), fun hs => ?_⟩
    have heq := hterminal hs
    rw [heq] at hterminal'
    exact hterminal' hs
  ids kind := (h.ids kind).trans (h'.ids kind)
  entries kind e he hlt := h.entries kind e (h'.entries kind e he (hlt.trans_le (h.ids kind))) hlt

namespace Workshop

variable {s : Workshop} {b : ℕ} {phase : Phase}

@[simp] theorem setPhase_stream (kind : TaskKind) : (s.setPhase b phase).stream kind = s.stream kind := by
  cases kind <;> rfl

@[simp] theorem stream_setStream_self (kind : TaskKind) (st : EntryStream TaskId) :
    (s.setStream kind st).stream kind = st := by
  cases kind <;> rfl

theorem stream_setStream (kind kind' : TaskKind) (st : EntryStream TaskId) :
    (s.setStream kind st).stream kind' = if kind' = kind then st else s.stream kind' := by
  cases kind <;> cases kind' <;> rfl

@[simp] theorem setStream_rest (kind : TaskKind) (st : EntryStream TaskId) :
    (s.setStream kind st).tasks = s.tasks ∧ (s.setStream kind st).calls = s.calls ∧
      (s.setStream kind st).boxes = s.boxes := by
  cases kind <;> exact ⟨rfl, rfl, rfl⟩

theorem setPhase_grows (s : Workshop) (b : ℕ) (phase : Phase) : Grows s (s.setPhase b phase) where
  calls _ call h := ⟨call, h, rfl, rfl, fun _ h => h⟩
  tasks _ row h := ⟨row, h, rfl, id, fun _ => rfl⟩
  ids kind := by rw [setPhase_stream]
  entries kind e he _ := by rwa [setPhase_stream] at he

theorem sent_grows (s : Workshop) (call : StatusCall) : Grows s { s with calls := s.calls ++ [call] } where
  calls c call' h := ⟨call', (List.getElem?_append_left (List.getElem?_eq_some_iff.mp h).1).trans h, rfl, rfl,
    fun _ h => h⟩
  tasks _ row h := ⟨row, h, rfl, id, fun _ => rfl⟩
  ids kind := by cases kind <;> exact le_rfl
  entries kind e he _ := by cases kind <;> exact he

theorem send_grows (s : Workshop) (b : ℕ) (task : TaskId) (update : TaskStatusUpdate) (phase : ℕ → Phase) :
    Grows s (s.send b task update phase) := (s.sent_grows _).trans (setPhase_grows _ _ _)

theorem setStream_grows {kind : TaskKind} {st : EntryStream TaskId} (hid : (s.stream kind).nextId ≤ st.nextId)
    (hentries : ∀ e ∈ st.entries, e.1 < (s.stream kind).nextId → e ∈ (s.stream kind).entries) :
    Grows s (s.setStream kind st) where
  calls _ call h := ⟨call, by simpa using h, rfl, rfl, fun _ h => h⟩
  tasks _ row h := ⟨row, by simpa using h, rfl, id, fun _ => rfl⟩
  ids kind' := by
    rw [stream_setStream]
    split
    case isTrue heq => exact heq ▸ hid
    case isFalse => exact le_rfl
  entries kind' e he hlt := by
    rw [stream_setStream] at he
    split at he
    case isTrue heq =>
      rw [heq] at hlt ⊢
      exact hentries e he hlt
    case isFalse => exact he

theorem create_grows (s : Workshop) (game : GameId) (account : PlayerId) (work : TaskWork) (revision : ℕ) :
    Grows s (s.create game account work revision) := by
  unfold create
  split
  · refine ⟨fun _ call h => ⟨call, h, rfl, rfl, fun _ h => h⟩, fun t row h => ?_, fun kind => ?_, fun kind e he _ => ?_⟩
    · exact ⟨row, (List.getElem?_append_left (List.getElem?_eq_some_iff.mp h).1).trans h, rfl, id, fun _ => rfl⟩
    · cases kind <;> exact le_rfl
    · cases kind <;> exact he
  · exact .refl s

theorem push_grows (s : Workshop) (task : TaskId) (drop : ℕ) : Grows s (s.push task drop) := by
  unfold push
  split
  case h_2 => exact .refl s
  case h_1 row _ =>
    obtain ⟨hid, hsub⟩ := ((s.stream row.work.kind).add task).trim_sub STREAM_LENGTH drop
    refine setStream_grows ?_ fun e he hlt => ?_
    · rw [hid]
      exact Nat.le_succ _
    · rcases List.mem_append.mp (hsub e he) with hmem | hmem
      · exact hmem
      · rw [List.mem_singleton.mp hmem] at hlt
        exact absurd hlt (Nat.lt_irrefl _)

theorem take_grows {kind : TaskKind} {st : EntryStream TaskId} (hentries : st.entries = (s.stream kind).entries)
    (hid : st.nextId = (s.stream kind).nextId) (b : ℕ) (entry : ℕ × TaskId) :
    Grows s ((s.setStream kind st).take b entry) :=
  (setStream_grows (le_of_eq hid.symm) fun _ he _ => hentries ▸ he).trans (send_grows _ _ _ _ _)

theorem read_grows (s : Workshop) (b : ℕ) : Grows s (s.read b) := by
  unfold read
  split
  case h_2 => exact .refl s
  case h_1 kind _ =>
    cases hread : (s.stream kind).read b with
    | none => exact .refl s
    | some pair =>
      obtain ⟨hentries, hid⟩ := EntryStream.entries_of_read hread
      exact take_grows hentries hid _ _

theorem reclaim_grows (s : Workshop) (b entry : ℕ) : Grows s (s.reclaim b entry) := by
  unfold reclaim
  split
  case h_2 => exact .refl s
  case h_1 kind _ =>
    obtain ⟨hentries, hid⟩ := (s.stream kind).entries_claim b entry
    cases hclaim : (s.stream kind).claim b entry with
    | mk got st =>
      rw [hclaim] at hentries hid
      cases got with
      | some e => exact take_grows hentries hid _ _
      | none => exact setStream_grows (le_of_eq hid.symm) fun _ he _ => hentries ▸ he

/-- What is left of a call once it is answered. -/
theorem resolved_grows {c : ℕ} {call : StatusCall} (hcall : s.calls[c]? = some call) (hnone : call.outcome = none)
    (out : Answer) {tasks : List TaskRow}
    (htasks : ∀ (t : ℕ) row, s.tasks[t]? = some row → ∃ row', tasks[t]? = some row' ∧ row'.work = row.work ∧
      (row.status ≠ .NOT_STARTED → row'.status ≠ .NOT_STARTED) ∧ (isTerminal row.status = true → row' = row)) :
    Grows s { s with tasks, calls := s.calls.set c { call with outcome := some out } } := by
  refine ⟨fun c' call' hc' => ?_, htasks, fun kind => ?_, fun kind e he _ => ?_⟩
  · by_cases hsame : c = c'
    · subst hsame
      rw [hcall] at hc'
      cases hc'
      refine ⟨_, List.getElem?_set_self (List.getElem?_eq_some_iff.mp hcall).1, rfl, rfl, fun out' hout => ?_⟩
      rw [hnone] at hout
      cases hout
    · exact ⟨call', by rw [List.getElem?_set, if_neg hsame, hc'], rfl, rfl, fun _ h => h⟩
  · cases kind <;> exact le_rfl
  · cases kind <;> exact he

/-- The update of a live row. -/
theorem updated_task {t : ℕ} {row row' : TaskRow} {update : TaskStatusUpdate} {startedAt : Option ℕ} {now : ℕ}
    (htask : s.tasks[t]? = some row) (hlive : row.status ∈ LIVE) (hnext : row.advance update startedAt now = some row')
    (t' : ℕ) (old : TaskRow) (ht' : s.tasks[t']? = some old) : ∃ new, (s.tasks.set t row')[t']? = some new ∧
      new.work = old.work ∧ (old.status ≠ .NOT_STARTED → new.status ≠ .NOT_STARTED) ∧
      (isTerminal old.status = true → new = old) := by
  by_cases hsame : t = t'
  · subst hsame
    rw [htask] at ht'
    cases ht'
    obtain ⟨hpinned, hstatus, _⟩ := TaskRow.advance_eq_some hnext
    refine ⟨row', List.getElem?_set_self (List.getElem?_eq_some_iff.mp htask).1, ?_, fun _ => ?_, fun hterminal => ?_⟩
    · exact congrArg (fun p => p.2.1) hpinned
    · rw [hstatus]
      exact update.leaves
    · rw [mem_LIVE_iff, hterminal] at hlive
      cases hlive
  · exact ⟨old, by rw [List.getElem?_set, if_neg hsame, ht'], rfl, id, fun _ => rfl⟩

theorem effect_grows (s : Workshop) (c now : ℕ) : Grows s (s.effect c now) := by
  unfold effect
  split
  case h_2 => exact .refl s
  case h_1 task update hcall =>
    have hsame : ∀ out, Grows s { s with calls := s.calls.set c ⟨task, update, some out⟩ } := fun out =>
      resolved_grows hcall rfl out fun t row h => ⟨row, h, rfl, id, fun _ => rfl⟩
    cases htask : s.tasks[task]? with
    | none => exact hsame _
    | some row =>
      simp only
      split
      case isFalse => exact hsame _
      case isTrue hlive =>
        cases hnext : row.advance update row.startedAt now with
        | none => exact hsame _
        | some row' => exact resolved_grows hcall rfl _ (updated_task htask hlive hnext)

theorem answer_grows (s : Workshop) (limit b : ℕ) : Grows s (s.answer limit b) := by
  unfold answer
  split
  · split
    · unfold claimed
      split
      · split
        · exact send_grows _ _ _ _ _
        · exact setPhase_grows _ _ _
      · exact send_grows _ _ _ _ _
    · exact setPhase_grows _ _ _
    · exact setPhase_grows _ _ _
    · exact .refl s
  · split
    · exact setPhase_grows _ _ _
    · exact setPhase_grows _ _ _
    · exact .refl s
  · exact .refl s

theorem produce_grows (s : Workshop) (limit b : ℕ) (result : Produced) : Grows s (s.produce limit b result) := by
  unfold produce
  split
  · split
    · exact send_grows _ _ _ _ _
    · exact send_grows _ _ _ _ _
    · split
      · exact setPhase_grows _ _ _
      · exact send_grows _ _ _ _ _
  · exact .refl s

theorem step_grows (limit : ℕ) (s : Workshop) (e : Step) : Grows s (step limit s e) := by
  cases e with
  | create game account work revision => exact s.create_grows game account work revision
  | push task drop => exact s.push_grows task drop
  | join kind =>
    exact ⟨fun _ call h => ⟨call, h, rfl, rfl, fun _ h => h⟩, fun _ row h => ⟨row, h, rfl, id, fun _ => rfl⟩,
      fun kind => by cases kind <;> exact le_rfl, fun kind e he _ => by cases kind <;> exact he⟩
  | createGroup | destroyGroup => exact setStream_grows le_rfl fun _ he _ => he
  | read b => exact s.read_grows b
  | reclaim b entry => exact s.reclaim_grows b entry
  | effect c now => exact s.effect_grows c now
  | answer b => exact s.answer_grows limit b
  | lose b =>
    change Grows s (s.lose b)
    unfold lose
    split
    · exact setPhase_grows _ _ _
    · exact setPhase_grows _ _ _
    · exact .refl s
  | produce b result => exact s.produce_grows limit b result
  | throws b =>
    change Grows s (s.throws b)
    unfold throws
    split
    · exact .refl s
    · exact setPhase_grows _ _ _
  | ack b =>
    change Grows s (s.ack b)
    unfold ack
    split
    case h_1 kind entry _ =>
      have hacked : Grows s (s.setStream kind ((s.stream kind).ack entry)) := setStream_grows le_rfl fun _ he _ => he
      exact hacked.trans (setPhase_grows _ _ _)
    case h_2 => exact .refl s
  | die b => exact setPhase_grows _ _ _

end Workshop

end Grove.Tasks
