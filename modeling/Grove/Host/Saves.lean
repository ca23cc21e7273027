import Grove.Lib.Run
import Grove.Manager.State

/-! # The saves of one process

`apps/grove/game-instance/src/store.rs` and the save and load tasks of `session.rs`: every order is a
task of its own, all of them over one map of the revisions the keys were last seen at.  A request may
reach the manager late or not at all, and a call may fail before its answer is heard or after its
write was applied. -/

namespace Grove
namespace Saving

open Manager

/-- The fields of a record, as the bytes the game wrote. -/
abbrev RawValue := String

structure SaveOrder where
  hostKey : String
  fields : RawValue
deriving DecidableEq

structure LoadOrder where
  connectionId : String
  hostKey : String
deriving DecidableEq

/-- What a task sends back into the session's queue. -/
inductive HostEvent where
  | loaded (connectionId : String) (fields : Option RawValue)
  | saved (hostKey : String)
deriving DecidableEq

def saveAttempts : ℕ := 3

/-- `SAVE_BACKOFF`, in milliseconds. -/
def saveBackoff : ℕ := 200

/-! ### The store's client -/

/-- The revision each host key was last seen at. -/
structure Store where
  revisions : OrderedMap String ℕ

namespace Store

variable (st : Store) (key : String)

def new : Store := ⟨.empty⟩

def revision : ℕ := (st.revisions.get key).getD 0

def remember (revision : ℕ) : Store := ⟨st.revisions.set key revision⟩

/-- `reqwest::StatusCode::is_success`. -/
def isSuccess (status : ℕ) : Bool := 200 ≤ status && status < 300

/-- What `load` makes of an answer: the outer `none` is a failure, the inner one a key holding nothing. -/
def load (response : Response) : Option (Option RawValue) × Store :=
  if response.status = 404 then (some none, st.remember key 0)
  else if isSuccess response.status then
    match response.body with
    | .record record => (some (some record.value), st.remember key record.revision)
    | _ => (none, st)
  else (none, st)

/-- The body of one attempt: the whole record, against the revision this process last saw. -/
def write (fields : RawValue) : StateWrite := ⟨fields, some (st.revision key)⟩

/-- What `put` makes of an answer: `none` is a failure, and `some false` a refused compare-and-set. -/
def put (response : Response) : Option Bool × Store :=
  if response.status = 409 then (some false, st)
  else if isSuccess response.status then
    match response.body with
    | .written revision => (some true, st.remember key revision)
    | _ => (none, st)
  else (none, st)

theorem revision_remember (revision : ℕ) (key' : String) :
    (st.remember key revision).revision key' = if key' = key then revision else st.revision key' := by
  unfold Store.revision remember
  rw [OrderedMap.get_set]
  split_ifs <;> rfl

/-- A read moves no revision but its key's, to none past the one it was answered. -/
theorem load_cases (response : Response) :
    (st.load key response).2 = st ∨ (st.load key response).2 = st.remember key 0 ∨
      ∃ record, response.body = .record record ∧ (st.load key response).2 = st.remember key record.revision := by
  unfold load
  split_ifs
  · exact .inr (.inl rfl)
  · cases hbody : response.body with
    | record record => exact .inr (.inr ⟨record, rfl, rfl⟩)
    | written | error => exact .inl rfl
  · exact .inl rfl

/-- A write that was not told it landed leaves the revisions as they were. -/
theorem put_cases (response : Response) :
    (st.put key response = (none, st) ∨ st.put key response = (some false, st)) ∨
      ∃ revision, response.body = .written revision ∧ st.put key response = (some true, st.remember key revision) := by
  unfold put
  split_ifs
  · exact .inl (.inr rfl)
  · cases hbody : response.body with
    | record record => exact .inl (.inl rfl)
    | written revision => exact .inr ⟨revision, rfl, rfl⟩
    | error => exact .inl (.inl rfl)
  · exact .inl (.inl rfl)

end Store

/-! ### The tasks -/

/-- Where a save is: about to send a write, with `reread` the second of its attempt, or waiting. -/
inductive Stage where
  | ready (reread : Bool)
  | putting (reread : Bool) (call : ℕ)
  | rereading (call : ℕ)
  | sleeping
  | saved
  | gaveUp
deriving DecidableEq

structure SaveTask where
  order : SaveOrder
  attempt : ℕ
  wait : ℕ
  stage : Stage
deriving DecidableEq

structure LoadTask where
  order : LoadOrder
  /-- The request it waits on, until its answer is sent. -/
  call : Option ℕ
deriving DecidableEq

inductive Task where
  | save (task : SaveTask)
  | load (task : LoadTask)
deriving DecidableEq

def SaveTask.spawn (order : SaveOrder) : SaveTask := ⟨order, 1, saveBackoff, .ready false⟩

/-- The attempt ended in an error. -/
def SaveTask.failed (t : SaveTask) : SaveTask :=
  if t.attempt = saveAttempts then { t with stage := .gaveUp } else { t with stage := .sleeping }

def SaveTask.wake (t : SaveTask) : SaveTask :=
  { t with attempt := t.attempt + 1, wait := t.wait * 2, stage := .ready false }

def Task.order : Task → Option SaveOrder
  | .save t => some t.order
  | .load _ => none

/-- The request a task waits on. -/
def Task.call : Task → Option ℕ
  | .save t =>
    match t.stage with
    | .putting _ call => some call
    | .rereading call => some call
    | _ => none
  | .load t => t.call

/-- The task has returned. -/
def Task.finished : Task → Bool
  | .save t => t.stage = .saved || t.stage = .gaveUp
  | .load t => t.call.isNone

inductive Request where
  | get (key : String)
  | put (key : String) (write : StateWrite)
deriving DecidableEq

/-- What a task waits on is a request of its own order's key. -/
def Task.Asks : Task → Request → Prop
  | .save t, request =>
    match t.stage with
    | .putting _ _ => ∃ write, request = .put t.order.hostKey write
    | .rereading _ => request = .get t.order.hostKey
    | _ => False
  | .load t, request => request = .get t.order.hostKey

structure Call where
  task : ℕ
  request : Request
  /-- What the manager answered, once the request has reached it. -/
  answer : Option Response
deriving DecidableEq

/-- A write the manager applied: which task's, and the revision it landed at. -/
structure Landed where
  task : ℕ
  key : String
  value : RawValue
  revision : ℕ
deriving DecidableEq

structure Session where
  memory : Memory
  store : Store
  tasks : List Task
  calls : List Call
  /-- What was sent back to the session, with the task that sent it. -/
  events : List (ℕ × HostEvent)
  landed : List Landed

namespace Session

/-- A process over the rows earlier ones left. -/
def new (memory : Memory) : Session := ⟨memory, .new, [], [], [], []⟩

inductive Event where
  /-- `apply` spawns the task of a save order. -/
  | save (order : SaveOrder)
  | load (order : LoadOrder)
  /-- A save reads the revision map and sends its write. -/
  | put (i : ℕ)
  /-- A request reaches the manager. -/
  | reach (c : ℕ)
  /-- A task hears the answer to its request. -/
  | hear (i : ℕ)
  /-- A task's call fails, whether or not its request has reached the manager. -/
  | fail (i : ℕ)
  /-- A save's backoff is over. -/
  | wake (i : ℕ)
deriving DecidableEq

variable (s : Session)

def send (i : ℕ) (request : Request) (task : Task) : Session :=
  { s with tasks := s.tasks.set i task, calls := s.calls ++ [⟨i, request, none⟩] }

def spawnLoad (order : LoadOrder) : Session :=
  { s with
    tasks := s.tasks ++ [.load ⟨order, some s.calls.length⟩]
    calls := s.calls ++ [⟨s.tasks.length, .get order.hostKey, none⟩] }

def put (i : ℕ) (t : SaveTask) (reread : Bool) : Session :=
  s.send i (.put t.order.hostKey (s.store.write t.order.hostKey t.order.fields))
    (.save { t with stage := .putting reread s.calls.length })

/-- The manager serves a request: a write it applies is one that landed. -/
def reach (c : ℕ) (call : Call) : Session :=
  match call.request with
  | .get key => { s with calls := s.calls.set c { call with answer := some (readState s.memory key) } }
  | .put key write =>
    { s with
      memory := (writeState s.memory key write).2
      calls := s.calls.set c { call with answer := some (writeState s.memory key write).1 }
      landed :=
        match (writeState s.memory key write).1.body with
        | .written revision => s.landed ++ [⟨call.task, key, write.value, revision⟩]
        | _ => s.landed }

def hearSave (i : ℕ) (t : SaveTask) (response : Response) : Session :=
  match t.stage with
  | .putting reread _ =>
    match s.store.put t.order.hostKey response with
    | (none, _) => { s with tasks := s.tasks.set i (.save t.failed) }
    | (some true, st) =>
      { s with
        store := st
        tasks := s.tasks.set i (.save { t with stage := .saved })
        events := s.events ++ [(i, .saved t.order.hostKey)] }
    | (some false, _) =>
      -- Two refusals in one attempt are an error of it.
      if reread then { s with tasks := s.tasks.set i (.save t.failed) }
      else s.send i (.get t.order.hostKey) (.save { t with stage := .rereading s.calls.length })
  | .rereading _ =>
    match s.store.load t.order.hostKey response with
    | (none, _) => { s with tasks := s.tasks.set i (.save t.failed) }
    | (some _, st) => { s with store := st, tasks := s.tasks.set i (.save { t with stage := .ready true }) }
  | _ => s

/-- `{}` for a store that held nothing. -/
def answered : Option (Option RawValue) → Option RawValue
  | some (some fields) => some fields
  | some none => some "\x7b\x7d"
  | none => none

def hearLoad (i : ℕ) (t : LoadTask) (response : Response) : Session :=
  { s with
    store := (s.store.load t.order.hostKey response).2
    tasks := s.tasks.set i (.load { t with call := none })
    events := s.events ++ [(i, .loaded t.order.connectionId (answered (s.store.load t.order.hostKey response).1))] }

/-- The answer to the request a task waits on, once there is one. -/
def answerOf (task : Task) : Option Response :=
  task.call.bind fun c => s.calls[c]?.bind Call.answer

def hear (i : ℕ) (task : Task) : Session :=
  match task, s.answerOf task with
  | .save t, some response => s.hearSave i t response
  | .load t, some response => s.hearLoad i t response
  | _, none => s

def fail (i : ℕ) : Task → Session
  | .save t =>
    match t.stage with
    | .putting _ _ | .rereading _ => { s with tasks := s.tasks.set i (.save t.failed) }
    | _ => s
  | .load t =>
    if t.call.isSome then
      { s with
        tasks := s.tasks.set i (.load { t with call := none })
        events := s.events ++ [(i, .loaded t.order.connectionId none)] }
    else s

def step : Event → Session
  | .save order => { s with tasks := s.tasks ++ [.save (.spawn order)] }
  | .load order => s.spawnLoad order
  | .put i =>
    match s.tasks[i]? with
    | some (.save t) =>
      match t.stage with
      | .ready reread => s.put i t reread
      | _ => s
    | _ => s
  | .reach c =>
    match s.calls[c]? with
    | some call => if call.answer.isNone then s.reach c call else s
    | none => s
  | .hear i =>
    match s.tasks[i]? with
    | some task => s.hear i task
    | none => s
  | .fail i =>
    match s.tasks[i]? with
    | some task => s.fail i task
    | none => s
  | .wake i =>
    match s.tasks[i]? with
    | some (.save t) => if t.stage = .sleeping then { s with tasks := s.tasks.set i (.save t.wake) } else s
    | _ => s

/-! ### The claim's notions -/

/-- The save order a task was spawned for. -/
def orderOf (i : ℕ) : Option SaveOrder := s.tasks[i]?.bind Task.order

/-- `i` is the task of the last save order of a key. -/
def LastOf (key : String) (i : ℕ) : Prop :=
  ∀ j order, s.orderOf j = some order → order.hostKey = key → j ≤ i

/-- If every save of a key has ended and the last of them succeeded, the row holds its fields. -/
def NewestWins : Prop :=
  ∀ key i t, s.tasks[i]? = some (.save t) → t.order.hostKey = key → s.LastOf key i →
    (∀ (j : ℕ) (task : Task) (order : SaveOrder), s.tasks[j]? = some task → task.order = some order →
      order.hostKey = key → task.finished) →
    t.stage = .saved → (s.memory.read key).map StateRecord.value = some t.order.fields

/-- A `Saved` was sent by a task whose write the manager had applied. -/
def SavedLanded : Prop :=
  ∀ i key, (i, .saved key) ∈ s.events → ∃ l ∈ s.landed, l.task = i ∧ l.key = key ∧
    s.orderOf i = some ⟨key, l.value⟩

/-- No save sends its write against a revision that a later order of its key has moved the row to, or
past. -/
def InTurn : Event → Prop
  | .put i => ∀ order ∈ s.orderOf i, ∀ l ∈ s.landed, l.key = order.hostKey → i < l.task →
      s.store.revision order.hostKey < l.revision
  | _ => True

instance : ∀ e, Decidable (s.InTurn e)
  | .put i => inferInstanceAs (Decidable (∀ order ∈ s.orderOf i, ∀ l ∈ s.landed, l.key = order.hostKey → i < l.task →
      s.store.revision order.hostKey < l.revision))
  | .save _ | .load _ | .reach _ | .hear _ | .fail _ | .wake _ => .isTrue trivial

/-! ### What is accounted for -/

/-- A write was sent against a revision its key had reached, with its order's fields; an answer names no
revision its key has not reached, and one that names the revision written has a write behind it. -/
structure Sound (call : Call) : Prop where
  put : ∀ key write, call.request = .put key write → ∃ r, write.ifRevision = some r ∧
    r ≤ s.memory.revisionAt key ∧ s.orderOf call.task = some ⟨key, write.value⟩
  read : ∀ response record key, call.answer = some response → response.body = .record record →
    call.request = .get key → record.revision ≤ s.memory.revisionAt key
  written : ∀ response revision, call.answer = some response → response.body = .written revision →
    ∃ key write, call.request = .put key write ∧ revision ≤ s.memory.revisionAt key ∧
      ∃ l ∈ s.landed, l.task = call.task ∧ l.key = key ∧ l.value = write.value

/-- The request a task waits on is its own, and a save that succeeded has a write behind it. -/
structure Placed (calls : List Call) (i : ℕ) (task : Task) : Prop where
  waits : ∀ c, task.call = some c → ∃ call, calls[c]? = some call ∧ call.task = i ∧ task.Asks call.request
  saved : ∀ t, task = .save t → t.stage = .saved → ∃ l ∈ s.landed, l.task = i

structure Accounted : Prop where
  remembered : ∀ key, s.store.revision key ≤ s.memory.revisionAt key
  sound : ∀ call ∈ s.calls, s.Sound call
  placed : ∀ i task, s.tasks[i]? = some task → s.Placed s.calls i task
  landed : ∀ l ∈ s.landed, l.revision ≤ s.memory.revisionAt l.key ∧ s.orderOf l.task = some ⟨l.key, l.value⟩
  savedLanded : s.SavedLanded

/-- What a step leaves standing. -/
structure Extends (s s' : Session) : Prop where
  orders : ∀ i order, s.orderOf i = some order → s'.orderOf i = some order
  landed : ∀ l ∈ s.landed, l ∈ s'.landed
  revisions : ∀ key, s.memory.revisionAt key ≤ s'.memory.revisionAt key

section accounted
variable {s} {s' : Session}

theorem Sound.extends {call : Call} (h : s.Sound call) (hext : s.Extends s') : s'.Sound call where
  put := fun key write hrequest => by
    obtain ⟨r, hr, hle, horder⟩ := h.put key write hrequest
    exact ⟨r, hr, hle.trans (hext.revisions key), hext.orders _ _ horder⟩
  read := fun response record key hanswer hbody hrequest =>
    (h.read response record key hanswer hbody hrequest).trans (hext.revisions key)
  written := fun response revision hanswer hbody => by
    obtain ⟨key, write, hrequest, hle, l, hl, hown⟩ := h.written response revision hanswer hbody
    exact ⟨key, write, hrequest, hle.trans (hext.revisions key), l, hext.landed l hl, hown⟩

theorem accounted_new (memory : Memory) : (new memory).Accounted where
  remembered := fun _ => Nat.zero_le _
  sound := fun _ h => by cases h
  placed := fun _ _ h => by cases h
  landed := fun _ h => by cases h
  savedLanded := fun _ _ h => by cases h

/-- A step that the manager takes no part in: tasks are spawned or move on, requests are sent, and
answers heard. -/
theorem Accounted.move (h : s.Accounted) (st : Store) (tasks : List Task) (asked : List Call)
    (sent : List (ℕ × HostEvent))
    (hst : ∀ key, st.revision key ≤ s.memory.revisionAt key)
    (horders : ∀ i order, s.orderOf i = some order → tasks[i]?.bind Task.order = some order)
    (htasks : ∀ i task, tasks[i]? = some task → s.tasks[i]? = some task ∨ s.Placed (s.calls ++ asked) i task)
    (hasked : ∀ call ∈ asked, call.answer = none ∧ ∀ key write, call.request = .put key write →
      ∃ r, write.ifRevision = some r ∧ r ≤ s.memory.revisionAt key ∧
        tasks[call.task]?.bind Task.order = some ⟨key, write.value⟩)
    (hsent : ∀ i key, (i, .saved key) ∈ sent → ∃ l ∈ s.landed, l.task = i ∧ l.key = key) :
    Accounted { s with store := st, tasks := tasks, calls := s.calls ++ asked, events := s.events ++ sent } := by
  have hext : s.Extends { s with store := st, tasks := tasks, calls := s.calls ++ asked, events := s.events ++ sent } :=
    ⟨horders, fun _ hl => hl, fun _ => Nat.le_refl _⟩
  refine ⟨hst, ?_, ?_, ?_, ?_⟩
  · intro call hcall
    rcases List.mem_append.mp hcall with hold | hnew
    · exact (h.sound call hold).extends hext
    · obtain ⟨hnone, hput⟩ := hasked call hnew
      refine ⟨hput, ?_, ?_⟩
      · intro response record key hanswer
        rw [hnone] at hanswer
        cases hanswer
      · intro response revision hanswer
        rw [hnone] at hanswer
        cases hanswer
  · intro i task htask
    rcases htasks i task htask with hold | hnew
    · obtain ⟨hwaits, hsaved⟩ := h.placed i task hold
      refine ⟨?_, hsaved⟩
      intro c hc
      obtain ⟨call, hcall, hown⟩ := hwaits c hc
      exact ⟨call, (List.getElem?_append_left (List.getElem?_eq_some_iff.mp hcall).1).trans hcall, hown⟩
    · exact ⟨hnew.waits, hnew.saved⟩
  · intro l hl
    obtain ⟨hle, horder⟩ := h.landed l hl
    exact ⟨hle, horders _ _ horder⟩
  · intro i key hmem
    rcases List.mem_append.mp hmem with hold | hnew
    · obtain ⟨l, hl, htask, hkey, horder⟩ := h.savedLanded i key hold
      exact ⟨l, hl, htask, hkey, horders _ _ horder⟩
    · obtain ⟨l, hl, rfl, rfl⟩ := hsent i key hnew
      exact ⟨l, hl, rfl, rfl, horders _ _ (h.landed l hl).2⟩

/-- Setting a task to one of the same order loses no order. -/
theorem orderOf_set {i : ℕ} {task task' : Task} (htask : s.tasks[i]? = some task) (hsame : task'.order = task.order)
    (j : ℕ) : (s.tasks.set i task')[j]?.bind Task.order = s.orderOf j := by
  unfold orderOf
  by_cases hij : i = j
  · subst hij
    rw [List.getElem?_set_self (List.getElem?_eq_some_iff.mp htask).1, htask]
    exact hsame
  · rw [List.getElem?_set_ne hij]

/-- A task moves on. -/
theorem Accounted.task (h : s.Accounted) {i : ℕ} {task : Task} (task' : Task) (st : Store) (asked : List Call)
    (sent : List (ℕ × HostEvent)) (htask : s.tasks[i]? = some task) (hsame : task'.order = task.order)
    (hst : ∀ key, st.revision key ≤ s.memory.revisionAt key)
    (hplaced : s.Placed (s.calls ++ asked) i task')
    (hasked : ∀ call ∈ asked, call.answer = none ∧ ∀ key write, call.request = .put key write →
      ∃ r, write.ifRevision = some r ∧ r ≤ s.memory.revisionAt key ∧ s.orderOf call.task = some ⟨key, write.value⟩)
    (hsent : ∀ j key, (j, .saved key) ∈ sent → ∃ l ∈ s.landed, l.task = j ∧ l.key = key) :
    Accounted { s with store := st, tasks := s.tasks.set i task', calls := s.calls ++ asked, events := s.events ++ sent } := by
  have horder := orderOf_set (s := s) htask hsame
  refine h.move st _ asked sent hst ?_ ?_ ?_ hsent
  · intro j order hj
    exact (horder j).trans hj
  · intro j other hj
    by_cases hij : i = j
    · subst hij
      rw [List.getElem?_set_self (List.getElem?_eq_some_iff.mp htask).1] at hj
      obtain rfl := Option.some.inj hj
      exact .inr hplaced
    · rw [List.getElem?_set_ne hij] at hj
      exact .inl hj
  · intro call hcall
    obtain ⟨hnone, hput⟩ := hasked call hcall
    refine ⟨hnone, ?_⟩
    intro key write hrequest
    obtain ⟨r, hr, hle, hown⟩ := hput key write hrequest
    exact ⟨r, hr, hle, (horder _).trans hown⟩

theorem getElem?_append_one {α : Type} {l : List α} {a b : α} {i : ℕ} (h : (l ++ [a])[i]? = some b) :
    l[i]? = some b ∨ (i = l.length ∧ b = a) := by
  rcases lt_trichotomy i l.length with hlt | heq | hgt
  · exact .inl ((List.getElem?_append_left hlt).symm.trans h)
  · rw [heq, List.getElem?_concat_length] at h
    exact .inr ⟨heq, (Option.some.inj h).symm⟩
  · rw [List.getElem?_eq_none (by simp; omega)] at h
    cases h

theorem orderOf_append {task : Task} {i : ℕ} {order : SaveOrder} (h : s.orderOf i = some order) :
    (s.tasks ++ [task])[i]?.bind Task.order = some order := by
  obtain ⟨old, hold, horder⟩ := Option.bind_eq_some_iff.mp h
  rw [List.getElem?_append_left (List.getElem?_eq_some_iff.mp hold).1, hold]
  exact horder

/-- A task that neither asks nor answers anything. -/
theorem Accounted.quiet (h : s.Accounted) {i : ℕ} {task task' : Task} (st : Store) (htask : s.tasks[i]? = some task)
    (hsame : task'.order = task.order) (hst : ∀ key, st.revision key ≤ s.memory.revisionAt key)
    (hcall : task'.call = none) (hsaved : ∀ t, task' = .save t → t.stage ≠ .saved) :
    Accounted { s with store := st, tasks := s.tasks.set i task' } := by
  have hplaced : s.Placed (s.calls ++ []) i task' := by
    refine ⟨?_, ?_⟩
    · intro c hc
      rw [hcall] at hc
      cases hc
    · intro t ht hstage
      exact absurd hstage (hsaved t ht)
  have hmove := h.task task' st [] [] htask hsame hst hplaced (fun _ hc => by cases hc) (fun _ _ hs => by cases hs)
  rwa [List.append_nil, List.append_nil] at hmove

theorem failed_call (t : SaveTask) : (Task.save t.failed).call = none := by
  unfold SaveTask.failed
  split_ifs <;> rfl

theorem failed_order (t : SaveTask) : (Task.save t.failed).order = (Task.save t).order := by
  unfold SaveTask.failed
  split_ifs <;> rfl

theorem failed_stage (t : SaveTask) (t' : SaveTask) (h : Task.save t.failed = .save t') : t'.stage ≠ .saved := by
  obtain rfl := Task.save.inj h
  unfold SaveTask.failed
  split_ifs <;> exact fun hstage => by cases hstage

theorem Accounted.failed (h : s.Accounted) {i : ℕ} {t : SaveTask} (htask : s.tasks[i]? = some (.save t)) :
    Accounted { s with tasks := s.tasks.set i (.save t.failed) } :=
  h.quiet s.store htask (failed_order t) h.remembered (failed_call t) (failed_stage t)

/-- A request a task has just sent is the one it waits on. -/
theorem placed_asked {i : ℕ} {request : Request} {task : Task} (hcall : task.call = some s.calls.length)
    (hasks : task.Asks request) (hsaved : ∀ t, task = .save t → t.stage ≠ .saved) :
    s.Placed (s.calls ++ [⟨i, request, none⟩]) i task where
  waits := fun c hc => by
    rw [hcall] at hc
    obtain rfl := Option.some.inj hc
    exact ⟨_, List.getElem?_concat_length, rfl, hasks⟩
  saved := fun t ht hstage => absurd hstage (hsaved t ht)

/-- A save sends a request and waits on it. -/
theorem Accounted.send (h : s.Accounted) {i : ℕ} {t t' : SaveTask} {request : Request}
    (htask : s.tasks[i]? = some (.save t)) (hsame : t'.order = t.order)
    (hcall : (Task.save t').call = some s.calls.length) (hasks : (Task.save t').Asks request)
    (hput : ∀ key write, request = .put key write → ∃ r, write.ifRevision = some r ∧
      r ≤ s.memory.revisionAt key ∧ t.order = ⟨key, write.value⟩) :
    (s.send i request (.save t')).Accounted := by
  have hstage : ∀ t'', Task.save t' = .save t'' → t''.stage ≠ .saved := by
    intro t'' ht'' hstage
    obtain rfl := Task.save.inj ht''
    simp only [Task.call, hstage] at hcall
    cases hcall
  have hmove := h.task (.save t') s.store [⟨i, request, none⟩] [] htask
    (congrArg some hsame) h.remembered (placed_asked hcall hasks hstage) ?_ (fun _ _ hs => by cases hs)
  · rw [List.append_nil] at hmove
    exact hmove
  · intro call hc
    obtain rfl := List.mem_singleton.mp hc
    refine ⟨rfl, ?_⟩
    intro key write hrequest
    obtain ⟨r, hr, hle, horder⟩ := hput key write hrequest
    refine ⟨r, hr, hle, ?_⟩
    unfold orderOf
    rw [htask]
    exact congrArg some horder

theorem Accounted.put (h : s.Accounted) {i : ℕ} {t : SaveTask} (htask : s.tasks[i]? = some (.save t)) (reread : Bool) :
    (s.put i t reread).Accounted := by
  refine h.send htask rfl rfl ⟨_, rfl⟩ ?_
  intro key write hrequest
  cases hrequest
  exact ⟨_, rfl, h.remembered _, rfl⟩

theorem Accounted.spawnSave (h : s.Accounted) (order : SaveOrder) :
    Accounted { s with tasks := s.tasks ++ [.save (.spawn order)] } := by
  have hmove := h.move s.store (s.tasks ++ [.save (.spawn order)]) [] []
    h.remembered ?_ ?_ (fun _ hc => by cases hc) (fun _ _ hs => by cases hs)
  · rwa [List.append_nil, List.append_nil] at hmove
  · intro i o ho
    exact orderOf_append ho
  · intro i task htask
    rcases getElem?_append_one htask with hold | ⟨rfl, rfl⟩
    · exact .inl hold
    · refine .inr ⟨?_, ?_⟩
      · intro c hc
        cases hc
      · intro t ht hstage
        obtain rfl := Task.save.inj ht
        cases hstage

theorem Accounted.spawnLoad (h : s.Accounted) (order : LoadOrder) : (s.spawnLoad order).Accounted := by
  have hmove := h.move s.store (s.tasks ++ [.load ⟨order, some s.calls.length⟩])
    [⟨s.tasks.length, .get order.hostKey, none⟩] [] h.remembered ?_ ?_ ?_ (fun _ _ hs => by cases hs)
  · rw [List.append_nil] at hmove
    exact hmove
  · intro i o ho
    exact orderOf_append ho
  · intro i task htask
    rcases getElem?_append_one htask with hold | ⟨rfl, rfl⟩
    · exact .inl hold
    · exact .inr (placed_asked rfl rfl (fun t ht => by cases ht))
  · intro call hc
    obtain rfl := List.mem_singleton.mp hc
    exact ⟨rfl, fun key write hrequest => by cases hrequest⟩

/-! ### An answer is heard -/

/-- The answer a task hears is to a request of its own. -/
theorem Accounted.heard (h : s.Accounted) {i : ℕ} {task : Task} {response : Response}
    (htask : s.tasks[i]? = some task) (hanswer : s.answerOf task = some response) :
    ∃ call, s.Sound call ∧ call.task = i ∧ task.Asks call.request ∧ call.answer = some response := by
  obtain ⟨c, hc, hresponse⟩ := Option.bind_eq_some_iff.mp hanswer
  obtain ⟨call, hcall, hown, hasks⟩ := (h.placed i task htask).waits c hc
  rw [hcall] at hresponse
  exact ⟨call, h.sound call (List.mem_of_getElem? hcall), hown, hasks, hresponse⟩

theorem Accounted.remember (h : s.Accounted) {key : String} {revision : ℕ} (hle : revision ≤ s.memory.revisionAt key)
    (key' : String) : (s.store.remember key revision).revision key' ≤ s.memory.revisionAt key' := by
  rw [Store.revision_remember]
  split_ifs with hkey
  · rw [hkey]
    exact hle
  · exact h.remembered key'

/-- A read its task hears leaves the revisions within what their keys have reached. -/
theorem Accounted.load (h : s.Accounted) {key : String} {call : Call} {response : Response} (hsound : s.Sound call)
    (hrequest : call.request = .get key) (hanswer : call.answer = some response) (key' : String) :
    (s.store.load key response).2.revision key' ≤ s.memory.revisionAt key' := by
  rcases s.store.load_cases key response with hst | hst | ⟨record, hbody, hst⟩
  · rw [hst]
    exact h.remembered key'
  · rw [hst]
    exact h.remember (Nat.zero_le _) key'
  · rw [hst]
    exact h.remember (hsound.read response record key hanswer hbody hrequest) key'

theorem Accounted.hearSave (h : s.Accounted) {i : ℕ} {t : SaveTask} {response : Response}
    (htask : s.tasks[i]? = some (.save t)) (hanswer : s.answerOf (.save t) = some response) :
    (s.hearSave i t response).Accounted := by
  obtain ⟨call, hsound, hown, hasks, hcall⟩ := h.heard htask hanswer
  unfold Session.hearSave
  cases hstage : t.stage with
  | putting reread c =>
    rw [Task.Asks, hstage] at hasks
    obtain ⟨write, hrequest⟩ := hasks
    rcases s.store.put_cases t.order.hostKey response with (hput | hput) | ⟨revision, hbody, hput⟩
    · simp only [hput]
      exact h.failed htask
    · simp only [hput]
      cases reread with
      | true => exact h.failed htask
      | false =>
        exact h.send htask rfl rfl rfl (fun key write hr => by cases hr)
    · simp only [hput]
      obtain ⟨key, write', hrequest', hle, l, hl, hltask, hlkey, -⟩ := hsound.written response revision hcall hbody
      rw [hrequest] at hrequest'
      cases hrequest'
      have hmove := h.task (.save { t with stage := .saved }) _ [] [(i, .saved t.order.hostKey)] htask rfl (h.remember hle) ?_ (fun _ hc => by cases hc) ?_
      · rw [List.append_nil] at hmove
        exact hmove
      · exact ⟨(fun c hc => by cases hc), fun _ _ _ => ⟨l, hl, hltask.trans hown⟩⟩
      · intro j key hmem
        cases List.mem_singleton.mp hmem
        exact ⟨l, hl, hltask.trans hown, hlkey⟩
  | rereading c =>
    rw [Task.Asks, hstage] at hasks
    have hst := h.load hsound hasks hcall
    dsimp only
    rcases hload : s.store.load t.order.hostKey response with ⟨result, st⟩
    rw [hload] at hst
    cases result with
    | none => exact h.failed htask
    | some fields => exact h.quiet st htask rfl hst rfl (fun t' ht' => by cases ht'; exact fun hs => by cases hs)
  | ready | sleeping | saved | gaveUp => exact h

/-- A load's task ends, and sends what it has. -/
theorem Accounted.loaded (h : s.Accounted) {i : ℕ} {t : LoadTask} {st : Store} {fields : Option RawValue}
    (htask : s.tasks[i]? = some (.load t)) (hst : ∀ key, st.revision key ≤ s.memory.revisionAt key) :
    Accounted { s with
      store := st
      tasks := s.tasks.set i (.load { t with call := none })
      events := s.events ++ [(i, .loaded t.order.connectionId fields)] } := by
  have hmove := h.task (.load { t with call := none }) st [] [(i, .loaded t.order.connectionId fields)] htask rfl hst ?_ (fun _ hc => by cases hc) ?_
  · rw [List.append_nil] at hmove
    exact hmove
  · exact ⟨(fun c hc => by cases hc), (fun _ ht => by cases ht)⟩
  · intro j key hmem
    cases List.mem_singleton.mp hmem

theorem Accounted.hear (h : s.Accounted) {i : ℕ} {task : Task} (htask : s.tasks[i]? = some task) :
    (s.hear i task).Accounted := by
  unfold Session.hear
  cases hanswer : s.answerOf task with
  | none =>
    cases task <;> exact h
  | some response =>
    cases task with
    | save t => exact h.hearSave htask hanswer
    | load t =>
      obtain ⟨call, hsound, -, hasks, hcall⟩ := h.heard htask hanswer
      exact h.loaded htask (h.load hsound hasks hcall)

theorem Accounted.fail (h : s.Accounted) {i : ℕ} {task : Task} (htask : s.tasks[i]? = some task) :
    (s.fail i task).Accounted := by
  unfold Session.fail
  cases task with
  | save t =>
    dsimp only
    cases t.stage with
    | putting | rereading => exact h.failed htask
    | ready | sleeping | saved | gaveUp => exact h
  | load t =>
    dsimp only
    split_ifs
    · exact h.loaded htask h.remembered
    · exact h

/-! ### A request is served -/

theorem mem_set {α : Type} {l : List α} {c : ℕ} {a b : α} (h : b ∈ l.set c a) : b ∈ l ∨ b = a :=
  List.mem_or_eq_of_mem_set h

/-- A request is served: the rows reach `memory`, and `landed` gains the write that was applied. -/
theorem Accounted.serve (h : s.Accounted) {c : ℕ} {call : Call} {response : Response} {memory : Memory}
    {landed : List Landed} (hcall : s.calls[c]? = some call)
    (hmono : ∀ key, s.memory.revisionAt key ≤ memory.revisionAt key)
    (hkept : ∀ l ∈ s.landed, l ∈ landed)
    (hlanded : ∀ l ∈ landed, l ∈ s.landed ∨ (l.revision ≤ memory.revisionAt l.key ∧ s.orderOf l.task = some ⟨l.key, l.value⟩))
    (hread : ∀ record key, response.body = .record record → call.request = .get key →
      record.revision ≤ memory.revisionAt key)
    (hwritten : ∀ revision, response.body = .written revision → ∃ key write, call.request = .put key write ∧
      revision ≤ memory.revisionAt key ∧ ∃ l ∈ landed, l.task = call.task ∧ l.key = key ∧ l.value = write.value) :
    Accounted { s with memory := memory, calls := s.calls.set c { call with answer := some response }, landed := landed } := by
  have hext : s.Extends { s with
      memory := memory, calls := s.calls.set c { call with answer := some response }, landed := landed } :=
    ⟨fun _ _ ho => ho, hkept, hmono⟩
  refine ⟨fun key => (h.remembered key).trans (hmono key), ?_, ?_, ?_, ?_⟩
  · intro other hother
    rcases mem_set hother with hold | rfl
    · exact (h.sound other hold).extends hext
    · have hsound := (h.sound call (List.mem_of_getElem? hcall)).extends hext
      refine ⟨hsound.put, ?_, ?_⟩
      · intro answer record key hanswer
        obtain rfl := Option.some.inj hanswer
        exact hread record key
      · intro answer revision hanswer
        obtain rfl := Option.some.inj hanswer
        exact hwritten revision
  · intro i task htask
    obtain ⟨hwaits, hsaved⟩ := h.placed i task htask
    refine ⟨?_, ?_⟩
    · intro c' hc'
      obtain ⟨old, hold, hown, hasks⟩ := hwaits c' hc'
      by_cases hcc : c = c'
      · subst hcc
        obtain rfl := Option.some.inj (hcall.symm.trans hold)
        exact ⟨_, List.getElem?_set_self (List.getElem?_eq_some_iff.mp hcall).1, hown, hasks⟩
      · exact ⟨old, (List.getElem?_set_ne hcc).trans hold, hown, hasks⟩
    · intro t ht hstage
      obtain ⟨l, hl, hown⟩ := hsaved t ht hstage
      exact ⟨l, hkept l hl, hown⟩
  · intro l hl
    rcases hlanded l hl with hold | hnew
    · obtain ⟨hle, horder⟩ := h.landed l hold
      exact ⟨hle.trans (hmono l.key), horder⟩
    · exact hnew
  · intro i key hmem
    obtain ⟨l, hl, hown⟩ := h.savedLanded i key hmem
    exact ⟨l, hkept l hl, hown⟩

/-- What the manager makes of a request: it reads, or refuses, or applies a write that then is the row. -/
theorem reach_cases (c : ℕ) (call : Call) :
    (∃ response, s.reach c call = { s with calls := s.calls.set c { call with answer := some response } } ∧
      (∀ revision, response.body ≠ .written revision) ∧
      ∀ record key, response.body = .record record → call.request = .get key →
        record.revision = s.memory.revisionAt key) ∨
    ∃ key write memory, call.request = .put key write ∧
      (∀ r, write.ifRevision = some r → r = s.memory.revisionAt key) ∧
      memory.state = s.memory.state.set key ⟨key, write.value, s.memory.revisionAt key + 1⟩ ∧
      s.reach c call = { s with
        memory := memory
        calls := s.calls.set c { call with answer := some ⟨200, .written (s.memory.revisionAt key + 1)⟩ }
        landed := s.landed ++ [⟨call.task, key, write.value, s.memory.revisionAt key + 1⟩] } := by
  unfold Session.reach
  cases hrequest : call.request with
  | get key =>
    refine .inl ⟨_, rfl, readState_written s.memory key, ?_⟩
    intro record key' hbody hkey
    cases hkey
    exact readState_record hbody
  | put key write =>
    rcases writeState_cases s.memory key write with ⟨status, hwrite⟩ | ⟨memory, hwrite, hstate, hrevision⟩
    · refine .inl ⟨⟨status, .error⟩, ?_, (fun _ hb => by cases hb), fun _ _ hb => by cases hb⟩
      simp only [hwrite]
    · refine .inr ⟨key, write, memory, rfl, hrevision, hstate, ?_⟩
      simp only [hwrite]

theorem Accounted.reach (h : s.Accounted) {c : ℕ} {call : Call} (hcall : s.calls[c]? = some call) :
    (s.reach c call).Accounted := by
  obtain ⟨response, hreach, hwritten, hread⟩ | ⟨key, write, memory, hrequest, -, hstate, hreach⟩ :=
    s.reach_cases c call
  · rw [hreach]
    exact h.serve hcall (fun _ => Nat.le_refl _) (fun _ hl => hl) (fun _ hl => .inl hl)
      (fun record key hbody hget => (hread record key hbody hget).le) (fun revision hbody => absurd hbody (hwritten revision))
  · rw [hreach]
    have hat := revisionAt_set hstate
    have hself : memory.revisionAt key = s.memory.revisionAt key + 1 := (hat key).trans (if_pos rfl)
    obtain ⟨-, -, -, horder⟩ := (h.sound call (List.mem_of_getElem? hcall)).put key write hrequest
    refine h.serve hcall ?_ (fun l hl => List.mem_append_left _ hl) ?_ (fun _ _ hb => by cases hb) ?_
    · intro key'
      rw [hat key']
      split_ifs with hkey
      · subst hkey
        exact Nat.le_succ _
      · exact Nat.le_refl _
    · intro l hl
      rcases List.mem_append.mp hl with hold | hnew
      · exact .inl hold
      · obtain rfl := List.mem_singleton.mp hnew
        exact .inr ⟨hself.ge, horder⟩
    · intro revision hbody
      cases hbody
      exact ⟨key, write, hrequest, hself.ge, _, List.mem_append_right _ (List.mem_singleton_self _), rfl, rfl, rfl⟩

theorem Accounted.step (h : s.Accounted) (e : Event) : (s.step e).Accounted := by
  cases e with
  | save order => exact h.spawnSave order
  | load order => exact h.spawnLoad order
  | put i =>
    unfold Session.step
    dsimp only
    split
    · rename_i t htask
      split
      · exact h.put htask _
      · exact h
    · exact h
  | reach c =>
    unfold Session.step
    dsimp only
    split
    · rename_i call hcall
      split_ifs
      · exact h.reach hcall
      · exact h
    · exact h
  | hear i =>
    unfold Session.step
    dsimp only
    split
    · rename_i task htask
      exact h.hear htask
    · exact h
  | fail i =>
    unfold Session.step
    dsimp only
    split
    · rename_i task htask
      exact h.fail htask
    · exact h
  | wake i =>
    unfold Session.step
    dsimp only
    split
    · rename_i t htask
      split_ifs
      · exact h.quiet s.store htask rfl h.remembered rfl (fun t' ht' => by cases ht'; exact fun hs => by cases hs)
      · exact h
    · exact h

end accounted

/-! ### The order of the writes -/

/-- A write still on its way that is of an older order than one that landed cannot land any more, and the
row of a key holds the newest order's write of those that landed. -/
structure Ordered : Prop where
  carried : ∀ call ∈ s.calls, call.answer = none → ∀ key write r, call.request = .put key write →
    write.ifRevision = some r → ∀ l ∈ s.landed, l.key = key → call.task < l.task → r < l.revision
  newest : ∀ l ∈ s.landed, ∃ l' ∈ s.landed, l'.key = l.key ∧ l.task ≤ l'.task ∧
    (s.memory.read l.key).map StateRecord.value = some l'.value

/-- No write is applied, and none is sent. -/
structure Still (s' : Session) : Prop where
  memory : s'.memory = s.memory
  landed : s'.landed = s.landed
  calls : ∀ call ∈ s'.calls, call ∈ s.calls ∨ ∀ key write, call.request ≠ .put key write

section ordered
variable {s} {s' : Session}

theorem still_self : s.Still s := ⟨rfl, rfl, fun _ hc => .inl hc⟩

theorem still_get (i : ℕ) (key : String) (task : Task) : s.Still (s.send i (.get key) task) where
  memory := rfl
  landed := rfl
  calls := fun call hc => by
    rcases List.mem_append.mp hc with hold | hnew
    · exact .inl hold
    · obtain rfl := List.mem_singleton.mp hnew
      exact .inr (fun key write hrequest => by cases hrequest)

theorem still_hearSave (i : ℕ) (t : SaveTask) (response : Response) : s.Still (s.hearSave i t response) := by
  unfold hearSave
  cases t.stage with
  | putting reread c =>
    rcases s.store.put_cases t.order.hostKey response with (hput | hput) | ⟨revision, -, hput⟩
    · simp only [hput]
      exact ⟨rfl, rfl, fun _ hc => .inl hc⟩
    · simp only [hput]
      cases reread with
      | true => exact ⟨rfl, rfl, fun _ hc => .inl hc⟩
      | false => exact still_get i _ _
    · simp only [hput]
      exact ⟨rfl, rfl, fun _ hc => .inl hc⟩
  | rereading c =>
    dsimp only
    rcases s.store.load t.order.hostKey response with ⟨_ | fields, st⟩
    · exact ⟨rfl, rfl, fun _ hc => .inl hc⟩
    · exact ⟨rfl, rfl, fun _ hc => .inl hc⟩
  | ready | sleeping | saved | gaveUp => exact still_self

theorem still_hear (i : ℕ) (task : Task) : s.Still (s.hear i task) := by
  unfold hear
  cases s.answerOf task with
  | none => cases task <;> exact still_self
  | some response =>
    cases task with
    | save t => exact still_hearSave i t response
    | load t => exact ⟨rfl, rfl, fun _ hc => .inl hc⟩

theorem still_fail (i : ℕ) (task : Task) : s.Still (s.fail i task) := by
  unfold fail
  cases task with
  | save t =>
    dsimp only
    cases t.stage <;> exact ⟨rfl, rfl, fun _ hc => .inl hc⟩
  | load t =>
    dsimp only
    split_ifs <;> exact ⟨rfl, rfl, fun _ hc => .inl hc⟩

theorem still_spawnLoad (order : LoadOrder) : s.Still (s.spawnLoad order) where
  memory := rfl
  landed := rfl
  calls := fun call hc => by
    rcases List.mem_append.mp hc with hold | hnew
    · exact .inl hold
    · obtain rfl := List.mem_singleton.mp hnew
      exact .inr (fun key write hrequest => by cases hrequest)

theorem Ordered.still (h : s.Ordered) (hstill : s.Still s') : s'.Ordered where
  carried := by
    intro call hcall hanswer key write r hrequest hr l hl
    rw [hstill.landed] at hl
    rcases hstill.calls call hcall with hold | hnew
    · exact h.carried call hold hanswer key write r hrequest hr l hl
    · exact absurd hrequest (hnew key write)
  newest := by
    rw [hstill.landed, hstill.memory]
    exact h.newest

theorem ordered_new (memory : Memory) : (new memory).Ordered := ⟨(fun _ h => by cases h), (fun _ h => by cases h)⟩

/-- A write sent in turn. -/
theorem Ordered.put (h : s.Ordered) {i : ℕ} {t : SaveTask} (reread : Bool)
    (hturn : ∀ l ∈ s.landed, l.key = t.order.hostKey → i < l.task → s.store.revision t.order.hostKey < l.revision) :
    (s.put i t reread).Ordered where
  carried := by
    intro call hcall hanswer key write r hrequest hr
    rcases List.mem_append.mp hcall with hold | hnew
    · exact h.carried call hold hanswer key write r hrequest hr
    · obtain rfl := List.mem_singleton.mp hnew
      cases hrequest
      obtain rfl := Option.some.inj hr
      exact hturn
  newest := h.newest

/-- Only the newest order's write of those that landed can land. -/
theorem Ordered.reach (h : s.Ordered) (hacc : s.Accounted) {c : ℕ} {call : Call} (hcall : s.calls[c]? = some call)
    (hanswer : call.answer = none) : (s.reach c call).Ordered := by
  have hmem := List.mem_of_getElem? hcall
  have hserved : ∀ {other : Call} {response : Response},
      other ∈ s.calls.set c { call with answer := some response } → other.answer = none → other ∈ s.calls := by
    intro other response hother hnone
    rcases mem_set hother with hold | rfl
    · exact hold
    · cases hnone
  obtain ⟨response, hreach, -, -⟩ | ⟨key, write, memory, hrequest, hrevision, hstate, hreach⟩ :=
    s.reach_cases c call
  · rw [hreach]
    exact ⟨fun other hother hnone => h.carried other (hserved hother hnone) hnone, h.newest⟩
  · rw [hreach]
    obtain ⟨r, hr, -, -⟩ := (hacc.sound call hmem).put key write hrequest
    have hcurrent := hrevision r hr
    refine ⟨?_, ?_⟩
    · intro other hother hnone key' write' r' hrequest' hr' l hl hkey hlt
      rcases List.mem_append.mp hl with hold | hnew
      · exact h.carried other (hserved hother hnone) hnone key' write' r' hrequest' hr' l hold hkey hlt
      · -- What is still on its way was sent against a revision the key had reached before.
        obtain rfl := List.mem_singleton.mp hnew
        obtain ⟨r'', hr'', hle, -⟩ := (hacc.sound other (hserved hother hnone)).put key' write' hrequest'
        obtain rfl := Option.some.inj (hr'.symm.trans hr'')
        cases hkey
        exact Nat.lt_succ_of_le hle
    · have hrow : ∀ key', (memory.read key').map StateRecord.value =
          if key' = key then some write.value else (s.memory.read key').map StateRecord.value := by
        intro key'
        unfold Memory.read
        rw [hstate, OrderedMap.get_set]
        split_ifs <;> rfl
      intro l hl
      by_cases hkey : l.key = key
      · refine ⟨_, List.mem_append_right _ (List.mem_singleton_self _), hkey.symm, ?_, ?_⟩
        · rcases List.mem_append.mp hl with hold | hnew
          · by_contra hlt
            have hpast := h.carried call hmem hanswer key write r hrequest hr l hold hkey (not_le.mp hlt)
            have hle := (hacc.landed l hold).1
            rw [hkey] at hle
            omega
          · obtain rfl := List.mem_singleton.mp hnew
            exact Nat.le_refl _
        · exact (hrow l.key).trans (if_pos hkey)
      · rcases List.mem_append.mp hl with hold | hnew
        · obtain ⟨l', hl', hsame, hle, hvalue⟩ := h.newest l hold
          exact ⟨l', List.mem_append_left _ hl', hsame, hle, ((hrow l.key).trans (if_neg hkey)).trans hvalue⟩
        · obtain rfl := List.mem_singleton.mp hnew
          exact absurd rfl hkey

theorem Ordered.step (h : s.Ordered) (hacc : s.Accounted) {e : Event} (hturn : s.InTurn e) : (s.step e).Ordered := by
  cases e with
  | save order => exact h.still ⟨rfl, rfl, fun _ hc => .inl hc⟩
  | load order => exact h.still (still_spawnLoad order)
  | put i =>
    unfold Session.step
    dsimp only
    split
    · rename_i t htask
      split
      · refine h.put _ (hturn t.order ?_)
        unfold orderOf
        rw [htask]
        rfl
      · exact h
    · exact h
  | reach c =>
    unfold Session.step
    dsimp only
    split
    · rename_i call hcall
      split_ifs with hanswer
      · exact h.reach hacc hcall (Option.isNone_iff_eq_none.mp hanswer)
      · exact h
    · exact h
  | hear i =>
    unfold Session.step
    dsimp only
    split
    · exact h.still (still_hear i _)
    · exact h
  | fail i =>
    unfold Session.step
    dsimp only
    split
    · exact h.still (still_fail i _)
    · exact h
  | wake i =>
    unfold Session.step
    dsimp only
    split
    · split_ifs
      · exact h.still ⟨rfl, rfl, fun _ hc => .inl hc⟩
      · exact h
    · exact h

theorem lastOf_of_length {key : String} {i : ℕ} (h : s.tasks.length = i + 1) : s.LastOf key i := by
  intro j order horder _
  obtain ⟨task, htask, -⟩ := Option.bind_eq_some_iff.mp horder
  have hlt := (List.getElem?_eq_some_iff.mp htask).1
  omega

/-- The last save of a key that succeeded is the newest of those that landed. -/
theorem Ordered.newestWins (h : s.Ordered) (hacc : s.Accounted) : s.NewestWins := by
  intro key i t htask hkey hlast _ hstage
  obtain ⟨l, hl, rfl⟩ := (hacc.placed i (.save t) htask).saved t rfl hstage
  have horder : s.orderOf l.task = some t.order := by
    unfold orderOf
    rw [htask]
    rfl
  have hown := (hacc.landed l hl).2
  have hlkey : l.key = key := by
    rw [horder] at hown
    rw [← hkey, Option.some.inj hown]
  obtain ⟨l', hl', hsame, hle, hvalue⟩ := h.newest l hl
  have hown' := (hacc.landed l' hl').2
  have heq : l'.task = l.task := le_antisymm (hlast l'.task _ hown' (hsame.trans hlkey)) hle
  rw [heq, horder] at hown'
  rw [← hlkey, hvalue, Option.some.inj hown']

end ordered

/-- While every save sends its write in turn, the newest save wins; and whatever the order, a save is
only ever reported for a write that landed. -/
theorem newest_save_wins (memory : Memory) (es : List Event) (h : Meets step InTurn (new memory) es) :
    (exec step (new memory) es).NewestWins ∧ (exec step (new memory) es).SavedLanded := by
  have hstep : ∀ s e, (Accounted s ∧ Ordered s) → InTurn s e → (Accounted (step s e) ∧ Ordered (step s e)) :=
    fun s e hinv hturn => ⟨hinv.1.step e, hinv.2.step hinv.1 hturn⟩
  obtain ⟨hacc, hordered⟩ := Meets.invariant hstep ⟨accounted_new memory, ordered_new memory⟩ h
  exact ⟨hordered.newestWins hacc, hacc.savedLanded⟩

def older : SaveOrder := ⟨"player:ada", "\x7b\"coins\":3\x7d"⟩

def newer : SaveOrder := ⟨"player:ada", "\x7b\"coins\":9\x7d"⟩

/-- The older save waits out a failed call first; the newer one's write is refused, and lands on the
record it re-reads. -/
def inTurn : List Event :=
  [.save older, .put 0, .fail 0, .wake 0, .put 0, .save newer, .put 1, .reach 1, .hear 0, .reach 2, .hear 1,
    .reach 3, .hear 1, .put 1, .reach 4, .hear 1]

theorem newest_save_wins_inTurn :
    ((exec step (new .new) inTurn).memory.read "player:ada").map StateRecord.value = some newer.fields := by
  have hlast : (exec step (new .new) inTurn).LastOf "player:ada" 1 := lastOf_of_length (by decide)
  have hfinished : ∀ task ∈ (exec step (new .new) inTurn).tasks, task.finished = true := by decide
  exact (newest_save_wins .new inTurn (by decide)).1 "player:ada" 1 ⟨newer, 1, saveBackoff, .saved⟩ (by decide) rfl hlast
    (fun j task order htask _ _ => hfinished task (List.mem_of_getElem? htask)) rfl

/-- The older save's first call fails; the newer one lands while it sleeps, and its retry then writes
against the revision the newer one has just been told. -/
def overtaken : List Event :=
  [.save older, .put 0, .fail 0, .save newer, .put 1, .reach 1, .hear 1, .wake 0, .put 0, .reach 2, .hear 0]

theorem older_retry_overwrites : ¬ (exec step (new .new) overtaken).NewestWins := by
  intro h
  have hlast : (exec step (new .new) overtaken).LastOf "player:ada" 1 := lastOf_of_length (by decide)
  have hfinished : ∀ task ∈ (exec step (new .new) overtaken).tasks, task.finished = true := by decide
  have hrow := h "player:ada" 1 ⟨newer, 1, saveBackoff, .saved⟩ (by decide) rfl hlast
    (fun j task order htask _ _ => hfinished task (List.mem_of_getElem? htask)) rfl
  revert hrow
  decide

end Session

end Saving
end Grove
