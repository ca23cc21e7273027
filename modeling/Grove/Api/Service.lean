import Grove.Api.Records
import Grove.Lib.Run

/-! # The service over its tables

The calls in flight on the tables of `Records`, each at the database statement it has
reached.  `advanceTask` reads its task outside any transaction and then runs the guarded
update, the re-read with the verdict on the file, and the commit, each behind the lock of
the row it wrote; `queueTask` looks for a live task, inserts, and looks again when the index
refused it; a save is one transaction.  A statement that meets a held row waits, which is a
step that changes nothing, and any transaction may be rolled back.

`Moves` says once what a step can do to the tables. -/

namespace Grove.Api

/-- An `advanceTask` call, by the statement it has reached. -/
inductive Advance where
  /-- The unguarded read found the task live, with this `startedAt`, at `now`. -/
  | read (task : TaskId) (update : TaskStatusUpdate) (startedAt : Option ℕ) (now : ℕ)
  /-- The guarded update ran; it matched the row or it did not. -/
  | guarded (task : TaskId) (moved : Bool)
  /-- The verdict was written on the file, when there was one to write. -/
  | judged (task : TaskId) (file : Option (GameId × WorkspacePath))
  | answered
deriving DecidableEq

inductive TaskAdvanced where
  | missing
  | backwards (task : TaskId) (row : TaskRow)
  | advanced (task : TaskId) (row : TaskRow)
  /-- The transaction was rolled back and the call throws. -/
  | thrown
deriving DecidableEq

/-- What a `queueTask` call asks for. -/
structure QueueTask where
  gameId : GameId
  accountId : PlayerId
  kind : TaskKind
  manifestRevision : ℕ
deriving DecidableEq

inductive TaskQueued where
  | existing (task : TaskId)
  | queued (task : TaskId)
  | missing
  | thrown
deriving DecidableEq

/-- A `queueTask` call, by the statement it has reached. -/
inductive Queueing where
  | asked
  | creating
  /-- The index refused the insert. -/
  | refused
  | answered (out : TaskQueued)
deriving DecidableEq

/-- The tables, the calls on them, and what `advanceTask` has answered, in order. -/
structure Service where
  db : Records
  advances : List Advance
  answers : List (ℕ × TaskAdvanced)
  queues : List (QueueTask × Queueing)

inductive Event where
  | createGame (game : GameId)
  | save (game : GameId) (plan : SavePlan) (freeze : Bool)
  | advance (task : TaskId) (update : TaskStatusUpdate) (now : ℕ)
  | guard (call : ℕ)
  | verdict (call : ℕ)
  | commit (call : ℕ)
  | rollback (call : ℕ)
  | queue (request : QueueTask)
  | find (call : ℕ)
  | create (call : ℕ)
  | again (call : ℕ)
deriving DecidableEq

namespace Service

/-- Tables nothing has been written to. -/
def start : Service := ⟨⟨.empty, .empty, [], .empty⟩, [], [], []⟩

variable (s : Service)

/-- Call `i` of `advanceTask` reaches another statement. -/
def reach (i : ℕ) (at' : Advance) : Service := { s with advances := s.advances.set i at' }

/-- Call `i` of `advanceTask` returns. -/
def answer (i : ℕ) (out : TaskAdvanced) : Service :=
  { s with advances := s.advances.set i .answered, answers := s.answers ++ [(i, out)] }

def setTask (t : TaskId) (row : Versioned TaskRow) : Service :=
  { s with db := { s.db with tasks := s.db.tasks.set t row } }

def setFile (k : GameId × WorkspacePath) (row : Versioned GameFile) : Service :=
  { s with db := { s.db with files := s.db.files.set k row } }

/-- Rewrite the row of a task, when there is one. -/
def onTask (t : TaskId) (f : Versioned TaskRow → Versioned TaskRow) : Service :=
  match s.db.tasks[t]? with
  | some row => s.setTask t (f row)
  | none => s

/-- Rewrite the row of a file, when there is one. -/
def onFile (key : Option (GameId × WorkspacePath)) (f : Versioned GameFile → Versioned GameFile) : Service :=
  match key with
  | none => s
  | some k =>
    match s.db.files.get k with
    | some row => s.setFile k (f row)
    | none => s

def createGame (game : GameId) : Service :=
  match s.db.games.get game with
  | some _ => s
  | none => { s with db := { s.db with games := s.db.games.set game 0 } }

def save (game : GameId) (plan : SavePlan) (freeze : Bool) : Service :=
  if s.db.waits game plan then s else { s with db := (s.db.saveWorkspace game plan freeze).1 }

/-- The unguarded read of `advanceTask`. -/
def advance (task : TaskId) (update : TaskStatusUpdate) (now : ℕ) : Service :=
  match s.db.tasks[task]? with
  | none => { s with advances := s.advances ++ [.answered], answers := s.answers ++ [(s.advances.length, .missing)] }
  | some row =>
    if isTerminal row.committed.status then
      { s with advances := s.advances ++ [.answered],
               answers := s.answers ++ [(s.advances.length, .backwards task row.committed)] }
    else { s with advances := s.advances ++ [.read task update row.committed.startedAt now] }

/-- The guarded update. -/
def guard (i : ℕ) : Service :=
  match s.advances[i]? with
  | some (.read task update startedAt now) =>
    match s.db.tasks[task]? with
    | none => s
    | some row =>
      if row.locked then s
      else if row.committed.status ∈ LIVE then
        match row.committed.advance update startedAt now with
        | some row' => (s.setTask task (row.write i row')).reach i (.guarded task true)
        | none => s.answer i .thrown
      else s.reach i (.guarded task false)
  | _ => s

/-- The re-read, and the update of the file a settled upload vouches for. -/
def verdict (i : ℕ) : Service :=
  match s.advances[i]? with
  | some (.guarded task false) =>
    match s.db.tasks[task]? with
    | some row => s.answer i (.backwards task row.committed)
    | none => s
  | some (.guarded task true) =>
    match s.db.tasks[task]?.bind (·.mine i) with
    | none => s
    | some settled =>
      match settled.work, settled.status with
      | .ASSET_UPLOAD path version, .SUCCESSFUL =>
        match s.db.files.get (settled.gameId, path) with
        | none => s.reach i (.judged task none)
        | some file =>
          if file.committed.versionId ≠ version then s.reach i (.judged task none)
          else if file.locked then s
          else match file.committed.validate version with
            | some file' =>
              (s.setFile (settled.gameId, path) (file.write i file')).reach i
                (.judged task (some (settled.gameId, path)))
            | none => (s.onTask task (·.rollback i)).answer i .thrown
      | _, _ => s.reach i (.judged task none)
  | _ => s

/-- The commit: the rows the transaction wrote become the tables' rows, together. -/
def commit (i : ℕ) : Service :=
  match s.advances[i]? with
  | some (.judged task file) =>
    match s.db.tasks[task]?.bind (·.mine i) with
    | some settled =>
      ((s.onTask task (·.commit i)).onFile file (·.commit i)).answer i (.advanced task settled)
    | none => s
  | _ => s

/-- The transaction fails: nothing it wrote stays. -/
def rollback (i : ℕ) : Service :=
  match s.advances[i]? with
  | some (.read _ _ _ _) => s.answer i .thrown
  | some (.guarded task _) => (s.onTask task (·.rollback i)).answer i .thrown
  | some (.judged task file) => ((s.onTask task (·.rollback i)).onFile file (·.rollback i)).answer i .thrown
  | _ => s

def reachQueue (j : ℕ) (request : QueueTask) (at' : Queueing) : Service :=
  { s with queues := s.queues.set j (request, at') }

/-- A `queueTask` call begins. -/
def queue (request : QueueTask) : Service := { s with queues := s.queues ++ [(request, .asked)] }

/-- Its look for a live task. -/
def find (j : ℕ) : Service :=
  match s.queues[j]? with
  | some (request, .asked) =>
    match s.db.liveTask request.gameId request.kind request.manifestRevision with
    | some task => s.reachQueue j request (.answered (.existing task))
    | none => s.reachQueue j request .creating
  | _ => s

/-- The insert.  A live row of the same entry that is held makes it wait on the holder. -/
def create (j : ℕ) : Service :=
  match s.queues[j]? with
  | some (request, .creating) =>
    if h : request.kind = .BUILD ∧ 0 < request.manifestRevision then
      match s.db.games.get request.gameId with
      | none => s.reachQueue j request (.answered .missing)
      | some _ =>
        let row := TaskRow.queued request.gameId request.accountId .BUILD request.manifestRevision h.2
        if s.db.tasks.any (fun task =>
            task.committed.status ∈ LIVE && task.committed.sameEntry row && task.locked) then s
        else match insertTask s.db.tasks row with
          | some tasks =>
            { s with db := { s.db with tasks }
                     queues := s.queues.set j (request, .answered (.queued s.db.tasks.length)) }
          | none => s.reachQueue j request .refused
    else s.reachQueue j request (.answered .thrown)
  | _ => s

/-- The second look, after the index refused the insert. -/
def again (j : ℕ) : Service :=
  match s.queues[j]? with
  | some (request, .refused) =>
    match s.db.liveTask request.gameId request.kind request.manifestRevision with
    | some task => s.reachQueue j request (.answered (.existing task))
    | none => s.reachQueue j request (.answered .thrown)
  | _ => s

def step : Event → Service
  | .createGame game => s.createGame game
  | .save game plan freeze => s.save game plan freeze
  | .advance task update now => s.advance task update now
  | .guard i => s.guard i
  | .verdict i => s.verdict i
  | .commit i => s.commit i
  | .rollback i => s.rollback i
  | .queue request => s.queue request
  | .find j => s.find j
  | .create j => s.create j
  | .again j => s.again j

/-- The service after a run from empty tables. -/
def run (es : List Event) : Service := exec step start es

end Service

/-! ### What a step can do -/

/-- The updates accepted so far: the task each wrote and the row it left, in commit order. -/
def advancedRows (answers : List (ℕ × TaskAdvanced)) : List (TaskId × TaskRow) :=
  answers.filterMap fun a =>
    match a.2 with
    | .advanced task row => some (task, row)
    | _ => none

/-- The calls holding a file keep it, apart from `i`, and no update is accepted. -/
structure Keeps (i : ℕ → Prop) (s s' : Service) : Prop where
  judged : ∀ j t k, ¬ i j → s.advances[j]? = some (.judged t (some k)) → s'.advances[j]? = some (.judged t (some k))
  answers : advancedRows s'.answers = advancedRows s.answers

namespace Keeps

variable {s s' : Service} {i : ℕ} {at' : Advance}

theorem refl (p : ℕ → Prop) (s : Service) : Keeps p s s := ⟨fun _ _ _ _ h => h, rfl⟩

theorem of_eq {p : ℕ → Prop} (hadvances : s'.advances = s.advances)
    (hanswers : advancedRows s'.answers = advancedRows s.answers) : Keeps p s s' :=
  ⟨fun _ _ _ _ h => hadvances ▸ h, hanswers⟩

theorem of_append (hadvances : s'.advances = s.advances ++ [at'])
    (hanswers : advancedRows s'.answers = advancedRows s.answers) : Keeps (fun _ => False) s s' := by
  refine ⟨fun j t k _ h => ?_, hanswers⟩
  obtain ⟨hlt, _⟩ := List.getElem?_eq_some_iff.mp h
  rw [hadvances, List.getElem?_append_left hlt, h]

theorem of_set_self (at' : Advance) (hadvances : s'.advances = s.advances.set i at')
    (hanswers : advancedRows s'.answers = advancedRows s.answers) : Keeps (· = i) s s' := by
  refine ⟨fun j t k hj h => ?_, hanswers⟩
  rw [hadvances, List.getElem?_set, if_neg (Ne.symm hj), h]

theorem of_set (hcall : ∀ t k, s.advances[i]? ≠ some (.judged t (some k)))
    (hadvances : s'.advances = s.advances.set i at')
    (hanswers : advancedRows s'.answers = advancedRows s.answers) : Keeps (fun _ => False) s s' := by
  refine ⟨fun j t k _ h => ?_, hanswers⟩
  have hj : j ≠ i := by
    rintro rfl
    exact hcall t k h
  exact (of_set_self at' hadvances hanswers).judged j t k hj h

end Keeps

/-- What the step of one event does to the tables, with what its call had found there. -/
inductive Moves (s : Service) (e : Event) (s' : Service) : Prop
  | idle (db : s'.db = s.db) (calls : Keeps (fun _ => False) s s')
  | game (g : GameId) (fresh : s.db.games.get g = none)
      (db : s'.db = { s.db with games := s.db.games.set g 0 }) (calls : Keeps (fun _ => False) s s')
  | save (g : GameId) (plan : SavePlan) (files : Files) (tasks : List (Versioned TaskRow))
      (event : e = .save g plan true)
      (base : s.db.games.get g = some plan.baseRevision) (free : s.db.waits g plan = false)
      (upserts : upsertFiles g (deleteFiles g s.db.files plan.deletes) plan.upserts = some files)
      (uploads : queueUploads g plan.accountId plan.baseRevision s.db.tasks plan.upserts = some tasks)
      (db : s'.db = { games := s.db.games.set g (plan.baseRevision + 1), files, tasks,
                      frozen := s.db.frozen.set (g, plan.baseRevision + 1) (filesOf files g) })
      (calls : Keeps (fun _ => False) s s')
  | build (j : ℕ) (request : QueueTask) (h : 0 < request.manifestRevision) (tasks : List (Versioned TaskRow))
      (call : s.queues[j]? = some (request, .creating)) (kind : request.kind = .BUILD)
      (insert : insertTask s.db.tasks
        (.queued request.gameId request.accountId .BUILD request.manifestRevision h) = some tasks)
      (db : s'.db = { s.db with tasks }) (calls : Keeps (fun _ => False) s s')
  | claim (i t : ℕ) (row : Versioned TaskRow) (row' : TaskRow) (update : TaskStatusUpdate)
      (startedAt : Option ℕ) (now : ℕ) (task : s.db.tasks[t]? = some row) (free : row.pending = none)
      (live : row.committed.status ∈ LIVE) (next : row.committed.advance update startedAt now = some row')
      (db : s'.db = (s.setTask t (row.write i row')).db) (calls : Keeps (fun _ => False) s s')
  | judge (i t : ℕ) (row : Versioned TaskRow) (settled : TaskRow) (path : WorkspacePath)
      (file : Versioned GameFile) (file' : GameFile)
      (task : s.db.tasks[t]? = some row) (mine : row.pending = some (i, settled))
      (status : settled.status = .SUCCESSFUL)
      (work : settled.work = .ASSET_UPLOAD path file.committed.versionId)
      (found : s.db.files.get (settled.gameId, path) = some file) (free : file.pending = none)
      (next : file.committed.validate file.committed.versionId = some file')
      (db : s'.db = (s.setFile (settled.gameId, path) (file.write i file')).db)
      (call : s'.advances[i]? = some (.judged t (some (settled.gameId, path))))
      (calls : Keeps (fun _ => False) s s')
  | commit (i t : ℕ) (key : Option (GameId × WorkspacePath)) (row : Versioned TaskRow) (settled : TaskRow)
      (call : s.advances[i]? = some (.judged t key))
      (task : s.db.tasks[t]? = some row) (mine : row.pending = some (i, settled))
      (db : s'.db = ((s.onTask t (·.commit i)).onFile key (·.commit i)).db)
      (judged : ∀ j t k, j ≠ i → s.advances[j]? = some (.judged t (some k)) →
        s'.advances[j]? = some (.judged t (some k)))
      (answers : advancedRows s'.answers = advancedRows s.answers ++ [(t, settled)])
  | rollback (i t : ℕ) (key : Option (GameId × WorkspacePath))
      (call : ∀ t' k, s.advances[i]? = some (.judged t' (some k)) → t' = t ∧ key = some k)
      (db : s'.db = ((s.onTask t (·.rollback i)).onFile key (·.rollback i)).db)
      (calls : Keeps (· = i) s s')

namespace Service

variable {s : Service}

theorem get_onTask (t t' : TaskId) (f : Versioned TaskRow → Versioned TaskRow) :
    (s.onTask t f).db.tasks[t']? = if t' = t then s.db.tasks[t']?.map f else s.db.tasks[t']? := by
  unfold onTask
  cases hrow : s.db.tasks[t]? with
  | none =>
    by_cases ht : t' = t
    · subst ht
      simp [hrow]
    · simp [ht]
  | some row =>
    obtain ⟨hlt, _⟩ := List.getElem?_eq_some_iff.mp hrow
    by_cases ht : t' = t
    · subst ht
      rw [if_pos rfl, hrow]
      simp only [setTask, List.getElem?_set_self hlt, Option.map_some]
    · simp only [setTask, List.getElem?_set, Ne.symm ht, ht, if_false]

theorem length_onTask (t : TaskId) (f : Versioned TaskRow → Versioned TaskRow) :
    (s.onTask t f).db.tasks.length = s.db.tasks.length := by
  unfold onTask
  cases s.db.tasks[t]? with
  | none => rfl
  | some row => exact List.length_set

theorem get_onFile (key : Option (GameId × WorkspacePath)) (k : GameId × WorkspacePath)
    (f : Versioned GameFile → Versioned GameFile) :
    (s.onFile key f).db.files.get k = if key = some k then (s.db.files.get k).map f else s.db.files.get k := by
  unfold onFile
  cases key with
  | none => simp
  | some k' =>
    simp only [Option.some.injEq]
    cases hrow : s.db.files.get k' with
    | none =>
      by_cases hk : k' = k
      · subst hk
        simp [hrow]
      · simp only [hk, if_false]
    | some row =>
      by_cases hk : k' = k
      · subst hk
        simp [setFile, hrow]
      · simp only [setFile, OrderedMap.get_set_of_ne _ (Ne.symm hk), hk, if_false]

@[simp] theorem onTask_files (t : TaskId) (f : Versioned TaskRow → Versioned TaskRow) :
    (s.onTask t f).db.files = s.db.files := by
  unfold onTask
  split <;> rfl

@[simp] theorem onTask_games (t : TaskId) (f : Versioned TaskRow → Versioned TaskRow) :
    (s.onTask t f).db.games = s.db.games ∧ (s.onTask t f).db.frozen = s.db.frozen := by
  unfold onTask
  split <;> exact ⟨rfl, rfl⟩

@[simp] theorem onFile_tasks (key : Option (GameId × WorkspacePath)) (f : Versioned GameFile → Versioned GameFile) :
    (s.onFile key f).db.tasks = s.db.tasks := by
  unfold onFile
  split
  · rfl
  · split <;> rfl

@[simp] theorem onFile_games (key : Option (GameId × WorkspacePath)) (f : Versioned GameFile → Versioned GameFile) :
    (s.onFile key f).db.games = s.db.games ∧ (s.onFile key f).db.frozen = s.db.frozen := by
  unfold onFile
  split
  · exact ⟨rfl, rfl⟩
  · split <;> exact ⟨rfl, rfl⟩

@[simp] theorem onTask_calls (t : TaskId) (f : Versioned TaskRow → Versioned TaskRow) :
    (s.onTask t f).advances = s.advances ∧ (s.onTask t f).answers = s.answers ∧
      (s.onTask t f).queues = s.queues := by
  unfold onTask
  split <;> exact ⟨rfl, rfl, rfl⟩

@[simp] theorem onFile_calls (key : Option (GameId × WorkspacePath)) (f : Versioned GameFile → Versioned GameFile) :
    (s.onFile key f).advances = s.advances ∧ (s.onFile key f).answers = s.answers ∧
      (s.onFile key f).queues = s.queues := by
  unfold onFile
  split
  · exact ⟨rfl, rfl, rfl⟩
  · split <;> exact ⟨rfl, rfl, rfl⟩

theorem createGame_moves (s : Service) (game : GameId) : Moves s (.createGame game) (s.createGame game) := by
  unfold createGame
  cases hgame : s.db.games.get game with
  | some revision => exact .idle rfl (.refl _ s)
  | none => exact .game game hgame rfl (.of_eq rfl rfl)

theorem save_moves (s : Service) (game : GameId) (plan : SavePlan) (freeze : Bool) :
    Moves s (.save game plan freeze) (s.save game plan freeze) := by
  unfold save
  cases hwaits : s.db.waits game plan with
  | true => exact .idle rfl (.refl _ s)
  | false =>
    rcases s.db.saveWorkspace_cases game plan freeze with ⟨hsame, _⟩ | ⟨hbase, rfl, files, tasks, hfiles, htasks, hsave⟩
    · refine .idle ?_ (.of_eq rfl rfl)
      simp [hsame]
    · refine .save game plan files tasks rfl hbase hwaits hfiles htasks ?_ (.of_eq rfl rfl)
      simp [hsave]

theorem advance_moves (s : Service) (task : TaskId) (update : TaskStatusUpdate) (now : ℕ) :
    Moves s (.advance task update now) (s.advance task update now) := by
  unfold advance
  cases s.db.tasks[task]? with
  | none => exact .idle rfl (.of_append rfl (by simp [advancedRows]))
  | some row =>
    simp only
    split
    · exact .idle rfl (.of_append rfl (by simp [advancedRows]))
    · exact .idle rfl (.of_append rfl rfl)

theorem guard_moves (s : Service) (i : ℕ) : Moves s (.guard i) (s.guard i) := by
  unfold guard
  split
  case h_2 => exact .idle rfl (.refl _ s)
  case h_1 t update startedAt now hcall =>
    have hfree : ∀ t' k, s.advances[i]? ≠ some (.judged t' (some k)) := by simp [hcall]
    cases hrow : s.db.tasks[t]? with
    | none => exact .idle rfl (.refl _ s)
    | some row =>
      simp only
      by_cases hlocked : row.locked = true
      · rw [if_pos hlocked]
        exact .idle rfl (.refl _ s)
      rw [if_neg hlocked]
      by_cases hlive : row.committed.status ∈ LIVE
      · rw [if_pos hlive]
        cases hnext : row.committed.advance update startedAt now with
        | none => exact .idle rfl (.of_set hfree rfl (by simp [answer, advancedRows]))
        | some row' =>
          exact .claim i t row row' update startedAt now hrow
            (Versioned.pending_of_not_locked (by simpa using hlocked)) hlive hnext rfl (.of_set hfree rfl rfl)
      · rw [if_neg hlive]
        exact .idle rfl (.of_set hfree rfl rfl)

/-- The answers of a call that throws, or is told its task moved on, accept no update. -/
theorem answers_answer (s : Service) (i : ℕ) {out : TaskAdvanced} (hout : ∀ t row, out ≠ .advanced t row) :
    advancedRows (s.answer i out).answers = advancedRows s.answers := by
  cases out with
  | advanced t row => exact absurd rfl (hout t row)
  | missing | backwards | thrown => simp [answer, advancedRows]

theorem verdict_moves (s : Service) (i : ℕ) : Moves s (.verdict i) (s.verdict i) := by
  unfold verdict
  split
  case h_3 => exact .idle rfl (.refl _ s)
  case h_1 t hcall =>
    have hfree : ∀ t' k, s.advances[i]? ≠ some (.judged t' (some k)) := by simp [hcall]
    cases s.db.tasks[t]? with
    | none => exact .idle rfl (.refl _ s)
    | some row => exact .idle rfl (.of_set hfree rfl (answers_answer s i (by simp)))
  case h_2 t hcall =>
    have hfree : ∀ t' k, s.advances[i]? ≠ some (.judged t' (some k)) := by simp [hcall]
    have hreach : ∀ at', Moves s (.verdict i) (s.reach i at') := fun at' => .idle rfl (.of_set hfree rfl rfl)
    cases hsettled : s.db.tasks[t]?.bind (·.mine i) with
    | none => exact .idle rfl (.refl _ s)
    | some settled =>
      obtain ⟨row, hrow, hmine⟩ := Option.bind_eq_some_iff.mp hsettled
      simp only
      split
      case h_2 => exact hreach _
      case h_1 path version hwork hstatus =>
        cases hfound : s.db.files.get (settled.gameId, path) with
        | none => exact hreach _
        | some file =>
          simp only
          by_cases hversion : file.committed.versionId = version
          · subst hversion
            simp only [ne_eq, not_true_eq_false, if_false]
            by_cases hlocked : file.locked = true
            · rw [if_pos hlocked]
              exact .idle rfl (.refl _ s)
            rw [if_neg hlocked]
            cases hnext : file.committed.validate file.committed.versionId with
            | none =>
              refine .rollback i t none (by simp [hcall]) rfl (.of_set_self .answered ?_ ?_)
              · simp [answer]
              · rw [answers_answer _ i (by simp), (onTask_calls ..).2.1]
            | some file' =>
              refine .judge i t row settled path file file' hrow (Versioned.mine_eq_some.mp hmine) hstatus hwork
                hfound (Versioned.pending_of_not_locked (by simpa using hlocked)) hnext rfl ?_ (.of_set hfree rfl rfl)
              obtain ⟨hlt, _⟩ := List.getElem?_eq_some_iff.mp hcall
              exact List.getElem?_set_self hlt
          · simp only [ne_eq, hversion, not_false_eq_true, if_true]
            exact hreach _

theorem commit_moves (s : Service) (i : ℕ) : Moves s (.commit i) (s.commit i) := by
  unfold commit
  split
  case h_2 => exact .idle rfl (.refl _ s)
  case h_1 t key hcall =>
    cases hsettled : s.db.tasks[t]?.bind (·.mine i) with
    | none => exact .idle rfl (.refl _ s)
    | some settled =>
      obtain ⟨row, hrow, hmine⟩ := Option.bind_eq_some_iff.mp hsettled
      refine .commit i t key row settled hcall hrow (Versioned.mine_eq_some.mp hmine) rfl ?_ ?_
      · intro j t' k hj hj'
        simp only [answer, onFile_calls, onTask_calls, List.getElem?_set, Ne.symm hj, if_false, hj']
      · simp [answer, advancedRows]

theorem rollback_moves (s : Service) (i : ℕ) : Moves s (.rollback i) (s.rollback i) := by
  unfold rollback
  split
  case h_4 => exact .idle rfl (.refl _ s)
  case h_1 t update startedAt now hcall =>
    exact .idle rfl (.of_set (by simp [hcall]) rfl (answers_answer s i (by simp)))
  case h_2 t moved hcall =>
    refine .rollback i t none (by simp [hcall]) rfl (.of_set_self .answered ?_ ?_)
    · simp [answer]
    · rw [answers_answer _ i (by simp), (onTask_calls ..).2.1]
  case h_3 t key hcall =>
    refine .rollback i t key ?_ rfl (.of_set_self .answered ?_ ?_)
    · simp only [hcall, Option.some.injEq, Advance.judged.injEq]
      exact fun t' k h => ⟨h.1.symm, h.2⟩
    · simp [answer]
    · rw [answers_answer _ i (by simp), (onFile_calls ..).2.1, (onTask_calls ..).2.1]

theorem find_moves (s : Service) (j : ℕ) : Moves s (.find j) (s.find j) := by
  unfold find
  split
  · split <;> exact .idle rfl (.of_eq rfl rfl)
  · exact .idle rfl (.refl _ s)

theorem again_moves (s : Service) (j : ℕ) : Moves s (.again j) (s.again j) := by
  unfold again
  split
  · split <;> exact .idle rfl (.of_eq rfl rfl)
  · exact .idle rfl (.refl _ s)

theorem create_moves (s : Service) (j : ℕ) : Moves s (.create j) (s.create j) := by
  unfold create
  split
  case h_2 => exact .idle rfl (.refl _ s)
  case h_1 request hcall =>
    split
    case isFalse => exact .idle rfl (.of_eq rfl rfl)
    case isTrue h =>
      cases s.db.games.get request.gameId with
      | none => exact .idle rfl (.of_eq rfl rfl)
      | some revision =>
        simp only
        split
        · exact .idle rfl (.refl _ s)
        · cases hinsert : insertTask s.db.tasks
              (.queued request.gameId request.accountId .BUILD request.manifestRevision h.2) with
          | none => exact .idle rfl (.of_eq rfl rfl)
          | some tasks => exact .build j request h.2 tasks hcall h.1 hinsert rfl (.of_eq rfl rfl)

/-- **The inversion lemma.**  Every step of the service is one of `Moves`. -/
theorem step_moves (s : Service) (e : Event) : Moves s e (s.step e) := by
  cases e with
  | createGame game => exact s.createGame_moves game
  | save game plan freeze => exact s.save_moves game plan freeze
  | advance task update now => exact s.advance_moves task update now
  | guard i => exact s.guard_moves i
  | verdict i => exact s.verdict_moves i
  | commit i => exact s.commit_moves i
  | rollback i => exact s.rollback_moves i
  | queue request => exact .idle rfl (.of_eq rfl rfl)
  | find j => exact s.find_moves j
  | create j => exact s.create_moves j
  | again j => exact s.again_moves j

end Service

end Grove.Api
