import Grove.Lib.OrderedMap
import Grove.Lib.Versioned

/-! # The game and task tables

The rows the API service keeps of a game (its draft revision, the files of its workspace)
and of queued work, with the constraints the migrations put on them as fields of the rows:
only an asset is validated, a task names an asset exactly when it is an upload, its revision
has been saved, and it finishes after it started.  A statement that would break one throws,
which is `none` here.

`saveWorkspace` is one transaction, so it is one function of the tables: it claims the
revision, reconciles the file rows, queues one upload task for each asset it names, reads
the workspace back and freezes it. -/

namespace Grove.Api

abbrev GameId := String
abbrev PlayerId := String
abbrev WorkspacePath := String
abbrev VersionId := String
abbrev TaskId := ℕ

inductive FileKind where
  | source
  | asset
deriving DecidableEq, Repr

/-- A file of a workspace: a path and the version of the bytes at it. -/
structure WorkspaceFile where
  path : WorkspacePath
  kind : FileKind
  versionId : VersionId
  byteLength : ℕ
  contentType : String
deriving DecidableEq, Repr

/-- A `GameFile` row, kept under its game and path. -/
structure GameFile where
  kind : FileKind
  versionId : VersionId
  byteLength : ℕ
  contentType : String
  validatedVersionId : Option VersionId
  only_assets_are_validated : validatedVersionId ≠ none → kind = .asset
deriving DecidableEq

namespace GameFile

/-- The row as a workspace shows it. -/
def asFile (path : WorkspacePath) (row : GameFile) : WorkspaceFile :=
  ⟨path, row.kind, row.versionId, row.byteLength, row.contentType⟩

/-- The `create` half of an upsert. -/
def create (file : WorkspaceFile) : GameFile :=
  ⟨file.kind, file.versionId, file.byteLength, file.contentType, none, by simp⟩

/-- The `update` half of an upsert: the verdict column is not among those it writes. -/
def update (row : GameFile) (file : WorkspaceFile) : Option GameFile :=
  if h : row.validatedVersionId ≠ none → file.kind = .asset then
    some ⟨file.kind, file.versionId, file.byteLength, file.contentType, row.validatedVersionId, h⟩
  else none

/-- The verdict of a settled upload. -/
def validate (row : GameFile) (version : VersionId) : Option GameFile :=
  if h : row.kind = .asset then some { row with
    validatedVersionId := some version, only_assets_are_validated := fun _ => h }
  else none

theorem update_eq_some {row row' : GameFile} {file : WorkspaceFile} (h : row.update file = some row') :
    row'.kind = file.kind ∧ row'.versionId = file.versionId ∧ row'.validatedVersionId = row.validatedVersionId := by
  unfold update at h
  split at h
  · cases h
    exact ⟨rfl, rfl, rfl⟩
  · cases h

theorem validate_eq_some {row row' : GameFile} {version : VersionId} (h : row.validate version = some row') :
    row'.versionId = row.versionId ∧ row'.kind = row.kind ∧ row'.validatedVersionId = some version ∧
      ∀ path, row'.asFile path = row.asFile path := by
  unfold validate at h
  split at h
  · cases h
    exact ⟨rfl, rfl, rfl, fun _ => rfl⟩
  · cases h

end GameFile

/-! ### Tasks -/

inductive TaskKind where
  | BUILD
  | ASSET_UPLOAD
deriving DecidableEq, Repr

inductive TaskStatus where
  | NOT_STARTED
  | IN_PROGRESS
  | SUCCESSFUL
  | FAILED
  | CANCELLED
deriving DecidableEq, Repr

/-- Nothing moves out of one of these. -/
def isTerminal (status : TaskStatus) : Bool :=
  status = .SUCCESSFUL || status = .FAILED || status = .CANCELLED

/-- The set a task is live in, which the partial unique index is built over. -/
def LIVE : List TaskStatus := [.NOT_STARTED, .IN_PROGRESS]

theorem mem_LIVE_iff (status : TaskStatus) : status ∈ LIVE ↔ isTerminal status = false := by
  cases status <;> decide

/-- What a task is for: a build names no asset, an upload names the byte-set it vouches for. -/
inductive TaskWork where
  | BUILD
  | ASSET_UPLOAD (assetPath : WorkspacePath) (assetVersionId : VersionId)
deriving DecidableEq, Repr

namespace TaskWork

def kind : TaskWork → TaskKind
  | BUILD => .BUILD
  | ASSET_UPLOAD _ _ => .ASSET_UPLOAD

def assetPath : TaskWork → Option WorkspacePath
  | BUILD => none
  | ASSET_UPLOAD path _ => some path

theorem eq_build_iff (work : TaskWork) : work.kind = .BUILD ↔ work = .BUILD := by
  cases work <;> simp [kind]

end TaskWork

/-- `Task_finish_after_start`. -/
def finishAfterStart : Option ℕ → Option ℕ → Bool
  | _, none => true
  | some started, some finished => started ≤ finished
  | none, some _ => false

/-- What a worker says of a task in words a creator can read. -/
inductive TaskMessage where
  /-- "gave up after `attempts` attempts". -/
  | gaveUp (attempts : ℕ)
  | said (text : String)
deriving DecidableEq, Repr

/-- What a worker reports of a task it settled, its message apart from what it produced. -/
structure TaskDetail where
  message : Option TaskMessage
deriving DecidableEq, Repr

/-- A `Task` row, kept under its id. -/
structure TaskRow where
  gameId : GameId
  accountId : PlayerId
  work : TaskWork
  status : TaskStatus
  manifestRevision : ℕ
  attempts : ℕ
  detail : Option TaskDetail
  startedAt : Option ℕ
  finishedAt : Option ℕ
  revision_saved : 0 < manifestRevision
  finish_after_start : finishAfterStart startedAt finishedAt = true
deriving DecidableEq

/-- What a worker writes back; `NOT_STARTED` is not among what it can say. -/
structure TaskStatusUpdate where
  status : TaskStatus
  detail : Option TaskDetail
  leaves : status ≠ .NOT_STARTED
deriving DecidableEq

theorem TaskStatus.successful_leaves : TaskStatus.SUCCESSFUL ≠ .NOT_STARTED := by decide

theorem TaskStatus.failed_leaves : TaskStatus.FAILED ≠ .NOT_STARTED := by decide

namespace TaskRow

/-- A row as `create` leaves it, its columns at their defaults. -/
def queued (gameId : GameId) (accountId : PlayerId) (work : TaskWork) (manifestRevision : ℕ)
    (h : 0 < manifestRevision) : TaskRow :=
  ⟨gameId, accountId, work, .NOT_STARTED, manifestRevision, 0, none, none, none, h, rfl⟩

/-- The two rows are one entry of `Task_one_live_per_revision`. -/
def sameEntry (row row' : TaskRow) : Bool :=
  row.gameId = row'.gameId && row.work.kind = row'.work.kind &&
    row.manifestRevision = row'.manifestRevision && row.work.assetPath = row'.work.assetPath

/-- The data of the guarded update.  `startedAt` is what the unguarded read found in that
column, and `now` the moment of that read. -/
def advance (row : TaskRow) (update : TaskStatusUpdate) (startedAt : Option ℕ) (now : ℕ) : Option TaskRow :=
  let startedAt' := if update.status = .IN_PROGRESS then some now
    else if isTerminal update.status then some (startedAt.getD now) else row.startedAt
  let finishedAt' := if isTerminal update.status then some now else row.finishedAt
  if h : finishAfterStart startedAt' finishedAt' = true then some { row with
    status := update.status
    detail := update.detail.or row.detail
    attempts := if update.status = .IN_PROGRESS then row.attempts + 1 else row.attempts
    startedAt := startedAt'
    finishedAt := finishedAt'
    finish_after_start := h }
  else none

/-- What identifies a task: nothing rewrites these columns. -/
def pinned (row : TaskRow) : GameId × TaskWork × ℕ := (row.gameId, row.work, row.manifestRevision)

/-- What the guarded update leaves, whichever status it carries. -/
theorem advance_eq_some {row row' : TaskRow} {update : TaskStatusUpdate} {startedAt : Option ℕ} {now : ℕ}
    (h : row.advance update startedAt now = some row') :
    row'.pinned = row.pinned ∧ row'.status = update.status ∧
      row'.attempts = (if update.status = .IN_PROGRESS then row.attempts + 1 else row.attempts) ∧
      (isTerminal update.status = true → row'.startedAt ≠ none ∧ row'.finishedAt ≠ none) := by
  unfold advance at h
  simp only [Option.dite_none_right_eq_some, Option.some.injEq] at h
  obtain ⟨_, rfl⟩ := h
  refine ⟨rfl, rfl, rfl, fun hterminal => ?_⟩
  have hclaim : update.status ≠ .IN_PROGRESS := by
    intro e
    rw [e] at hterminal
    cases hterminal
  simp [hterminal, hclaim]

end TaskRow

/-- The insert of one task row; `none` is the unique index refusing it. -/
def insertTask (tasks : List (Versioned TaskRow)) (row : TaskRow) : Option (List (Versioned TaskRow)) :=
  if tasks.any (fun task => task.committed.status ∈ LIVE && task.committed.sameEntry row) then none
  else some (tasks ++ [.fresh row])

/-! ### Tables -/

/-- The tables, and the file set each committed revision froze. -/
structure Records where
  games : OrderedMap GameId ℕ
  files : OrderedMap (GameId × WorkspacePath) (Versioned GameFile)
  tasks : List (Versioned TaskRow)
  frozen : OrderedMap (GameId × ℕ) (List WorkspaceFile)

abbrev Files := OrderedMap (GameId × WorkspacePath) (Versioned GameFile)

/-- The files of one game. -/
def shown (files : Files) (game : GameId) : List WorkspaceFile :=
  files.entries.filterMap fun e => if e.1.1 = game then some (e.2.committed.asFile e.1.2) else none

/-- The `WORKSPACE_SELECT` of one game: its files in path order. -/
def filesOf (files : Files) (game : GameId) : List WorkspaceFile :=
  (shown files game).insertionSort fun left right => left.path ≤ right.path

/-- A save of a workspace; the request names no path twice. -/
structure SavePlan where
  baseRevision : ℕ
  accountId : PlayerId
  upserts : List WorkspaceFile
  deletes : List WorkspacePath
  distinct : (upserts.map WorkspaceFile.path ++ deletes).Nodup
deriving DecidableEq

/-- The paths a save names, whose rows its statements lock. -/
def SavePlan.named (plan : SavePlan) : List WorkspacePath := plan.upserts.map WorkspaceFile.path ++ plan.deletes

/-- The `deleteMany`. -/
def deleteFiles (game : GameId) : Files → List WorkspacePath → Files
  | files, [] => files
  | files, path :: paths => deleteFiles game (files.delete (game, path)) paths

/-- One upsert. -/
def upsertFile (game : GameId) (files : Files) (file : WorkspaceFile) : Option Files :=
  match files.get (game, file.path) with
  | none => some (files.set (game, file.path) (.fresh (.create file)))
  | some row => (row.committed.update file).map fun row' => files.set (game, file.path) (.fresh row')

/-- The upserts, one statement a path. -/
def upsertFiles (game : GameId) : Files → List WorkspaceFile → Option Files
  | files, [] => some files
  | files, file :: rest => (upsertFile game files file).bind fun files' => upsertFiles game files' rest

/-- The upload tasks of the assets a save names, pinned to the revision it landed in. -/
def queueUploads (game : GameId) (accountId : PlayerId) (baseRevision : ℕ) :
    List (Versioned TaskRow) → List WorkspaceFile → Option (List (Versioned TaskRow))
  | tasks, [] => some tasks
  | tasks, file :: rest =>
    if file.kind = .asset then
      (insertTask tasks (.queued game accountId (.ASSET_UPLOAD file.path file.versionId)
        (baseRevision + 1) (Nat.succ_pos _))).bind fun tasks' =>
          queueUploads game accountId baseRevision tasks' rest
    else queueUploads game accountId baseRevision tasks rest

inductive WorkspaceSaved where
  | missing
  | stale (revision : ℕ) (files : List WorkspaceFile)
  | saved (revision : ℕ) (files : List WorkspaceFile)
  | unfrozen
  /-- A statement the tables refused: the transaction rolls back and the call throws. -/
  | thrown
deriving DecidableEq

namespace Records

variable (db : Records) (game : GameId)

/-- `workspaceOf`: the revision a game is at, and the files it holds. -/
def workspaceOf : Option (ℕ × List WorkspaceFile) :=
  (db.games.get game).map fun revision => (revision, filesOf db.files game)

/-- `saveWorkspace`.  `freeze` is whether the manifest's PUT was reported written. -/
def saveWorkspace (plan : SavePlan) (freeze : Bool) : Records × WorkspaceSaved :=
  match db.games.get game with
  | none => (db, .missing)
  | some revision =>
    if revision ≠ plan.baseRevision then (db, .stale revision (filesOf db.files game))
    else match upsertFiles game (deleteFiles game db.files plan.deletes) plan.upserts,
        queueUploads game plan.accountId plan.baseRevision db.tasks plan.upserts with
      | some files, some tasks =>
        if freeze then
          ({ games := db.games.set game (plan.baseRevision + 1), files, tasks,
             frozen := db.frozen.set (game, plan.baseRevision + 1) (filesOf files game) },
           .saved (plan.baseRevision + 1) (filesOf files game))
        else (db, .unfrozen)
      | _, _ => (db, .thrown)

/-- The assets of a game whose verdict does not name the bytes held. -/
def unvalidated : List WorkspacePath :=
  db.files.entries.filterMap fun e =>
    if e.1.1 = game ∧ e.2.committed.kind = .asset ∧ e.2.committed.validatedVersionId ≠ some e.2.committed.versionId
    then some e.1.2 else none

/-- `unvalidatedAssets`: in path order, and no more than `limit` of them. -/
def unvalidatedAssets (limit : ℕ) : List WorkspacePath :=
  ((db.unvalidated game).insertionSort fun left right => left ≤ right).take limit

/-- A row some transaction holds stands among those the save writes: its statement waits. -/
def waits (plan : SavePlan) : Bool :=
  plan.named.any fun path => ((db.files.get (game, path)).map Versioned.locked).getD false

/-- The `findFirst` of a live task of one game, kind and revision. -/
def liveTask (kind : TaskKind) (revision : ℕ) : Option TaskId :=
  db.tasks.findIdx? fun task => task.committed.gameId = game && task.committed.work.kind = kind &&
    task.committed.manifestRevision = revision && task.committed.status ∈ LIVE

end Records

/-! ### What a save does to the tables -/

/-- The file a row shows, when there is one. -/
def shownAt (files : Files) (k : GameId × WorkspacePath) : Option WorkspaceFile :=
  (files.get k).map fun row => row.committed.asFile k.2

theorem mem_filesOf {files : Files} {game : GameId} {file : WorkspaceFile} :
    file ∈ filesOf files game ↔ shownAt files (game, file.path) = some file := by
  simp only [filesOf, List.mem_insertionSort, shown, List.mem_filterMap, Option.ite_none_right_eq_some,
    Option.some.injEq, shownAt, Option.map_eq_some_iff]
  constructor
  · rintro ⟨⟨⟨g, path⟩, row⟩, hmem, rfl, rfl⟩
    exact ⟨row, files.mem_entries_iff.mp hmem, rfl⟩
  · rintro ⟨row, hget, hrow⟩
    exact ⟨((game, file.path), row), files.mem_entries_iff.mpr hget, rfl, hrow⟩

/-- A read that names no asset found none, whatever its limit. -/
theorem Records.validated_of_unvalidatedAssets {db : Records} {game : GameId} {limit : ℕ} (hlimit : 0 < limit)
    (h : db.unvalidatedAssets game limit = []) {path : WorkspacePath} {row : Versioned GameFile}
    (hget : db.files.get (game, path) = some row) (hkind : row.committed.kind = .asset) :
    row.committed.validatedVersionId = some row.committed.versionId := by
  have hnone : db.unvalidated game = [] := by
    have hsorted : (db.unvalidated game).insertionSort (fun left right => left ≤ right) = [] := by
      rcases List.take_eq_nil_iff.mp h with hzero | hnil
      · omega
      · exact hnil
    exact List.length_eq_zero_iff.mp (by rw [← List.length_insertionSort (fun left right => left ≤ right), hsorted]; rfl)
  by_contra hne
  have hmem : path ∈ db.unvalidated game :=
    List.mem_filterMap.mpr ⟨((game, path), row), db.files.mem_entries_iff.mpr hget, by simp [hkind, hne]⟩
  rw [hnone] at hmem
  cases hmem

theorem get_deleteFiles (game : GameId) (k : GameId × WorkspacePath) (paths : List WorkspacePath) (files : Files) :
    (deleteFiles game files paths).get k = if k.1 = game ∧ k.2 ∈ paths then none else files.get k := by
  induction paths generalizing files with
  | nil => simp [deleteFiles]
  | cons path paths ih =>
    simp only [deleteFiles, ih, OrderedMap.get_delete, List.mem_cons]
    obtain ⟨g, p⟩ := k
    by_cases hg : g = game
    · subst hg
      by_cases hp : p = path
      · simp [hp]
      · simp [hp]
    · simp [hg]

/-- One upsert rewrites the row it names and no other, and carries the verdict over. -/
theorem upsertFile_get {game : GameId} {files files' : Files} {file : WorkspaceFile}
    (h : upsertFile game files file = some files') (k : GameId × WorkspacePath) :
    (k ≠ (game, file.path) ∧ files'.get k = files.get k) ∨
      (k = (game, file.path) ∧ ∃ row, files'.get k = some (.fresh row) ∧ row.kind = file.kind ∧
        row.versionId = file.versionId ∧ ∀ v, row.validatedVersionId = some v →
          ∃ old, files.get k = some old ∧ old.committed.validatedVersionId = some v) := by
  by_cases hk : k = (game, file.path)
  · subst hk
    refine .inr ⟨rfl, ?_⟩
    unfold upsertFile at h
    cases hget : files.get (game, file.path) with
    | none =>
      simp only [hget, Option.some.injEq] at h
      subst h
      refine ⟨_, OrderedMap.get_set_self .., rfl, rfl, ?_⟩
      intro v hv
      cases hv
    | some row =>
      simp only [hget, Option.map_eq_some_iff] at h
      obtain ⟨row', hrow', rfl⟩ := h
      obtain ⟨hkind, hversion, hvalid⟩ := GameFile.update_eq_some hrow'
      exact ⟨row', OrderedMap.get_set_self .., hkind, hversion, fun v hv => ⟨row, rfl, hvalid ▸ hv⟩⟩
  · refine .inl ⟨hk, ?_⟩
    unfold upsertFile at h
    cases hget : files.get (game, file.path) with
    | none =>
      simp only [hget, Option.some.injEq] at h
      subst h
      exact OrderedMap.get_set_of_ne _ hk _
    | some row =>
      simp only [hget, Option.map_eq_some_iff] at h
      obtain ⟨row', _, rfl⟩ := h
      exact OrderedMap.get_set_of_ne _ hk _

/-- The upserts of a save, together. -/
theorem upsertFiles_get {game : GameId} {upserts : List WorkspaceFile} {files files' : Files}
    (h : upsertFiles game files upserts = some files') (k : GameId × WorkspacePath) :
    ((∀ file ∈ upserts, k ≠ (game, file.path)) ∧ files'.get k = files.get k) ∨
      (∃ file ∈ upserts, k = (game, file.path) ∧ ∃ row, files'.get k = some (.fresh row) ∧ row.kind = file.kind ∧
        row.versionId = file.versionId ∧ ∀ v, row.validatedVersionId = some v →
          ∃ old, files.get k = some old ∧ old.committed.validatedVersionId = some v) := by
  induction upserts generalizing files with
  | nil =>
    cases h
    exact .inl ⟨by simp, rfl⟩
  | cons file rest ih =>
    obtain ⟨files₁, h₁, hrest⟩ := Option.bind_eq_some_iff.mp h
    rcases ih hrest with ⟨hno, hsame⟩ | ⟨file', hmem, hk, row, hrow, hkind, hversion, hvalid⟩
    · rcases upsertFile_get h₁ k with ⟨hne, hsame₁⟩ | ⟨hk, row, hrow, hrest⟩
      · refine .inl ⟨?_, hsame.trans hsame₁⟩
        intro file' hmem
        obtain rfl | hmem := List.mem_cons.mp hmem
        · exact hne
        · exact hno file' hmem
      · exact .inr ⟨file, List.mem_cons_self, hk, row, hsame.trans hrow, hrest⟩
    · refine .inr ⟨file', List.mem_cons_of_mem _ hmem, hk, row, hrow, hkind, hversion, ?_⟩
      intro v hv
      obtain ⟨old, hold, holdv⟩ := hvalid v hv
      rcases upsertFile_get h₁ k with ⟨_, hsame₁⟩ | ⟨_, row₁, hrow₁, _, _, hvalid₁⟩
      · exact ⟨old, hsame₁ ▸ hold, holdv⟩
      · rw [hrow₁] at hold
        cases hold
        exact hvalid₁ v holdv

/-- No two live tasks are one entry of the unique index. -/
def OneLive (tasks : List (Versioned TaskRow)) : Prop :=
  ∀ t t' : ℕ, ∀ task task', tasks[t]? = some task → tasks[t']? = some task' →
    task.committed.status ∈ LIVE → task'.committed.status ∈ LIVE →
    task.committed.sameEntry task'.committed = true → t = t'

theorem TaskRow.sameEntry_symm {row row' : TaskRow} (h : row.sameEntry row' = true) : row'.sameEntry row = true := by
  simp only [TaskRow.sameEntry, Bool.and_eq_true, decide_eq_true_eq] at h ⊢
  obtain ⟨⟨⟨hgame, hkind⟩, hrevision⟩, hpath⟩ := h
  exact ⟨⟨⟨hgame.symm, hkind.symm⟩, hrevision.symm⟩, hpath.symm⟩

/-- An insert the index accepts appends the row, and the index still holds. -/
theorem insertTask_eq_some {tasks tasks' : List (Versioned TaskRow)} {row : TaskRow}
    (h : insertTask tasks row = some tasks') : tasks' = tasks ++ [.fresh row] ∧ (OneLive tasks → OneLive tasks') := by
  unfold insertTask at h
  simp only [Option.ite_none_left_eq_some, Option.some.injEq] at h
  obtain ⟨hfree, rfl⟩ := h
  refine ⟨rfl, fun hone t t' task task' ht ht' hlive hlive' hsame => ?_⟩
  -- the new row shares its entry with no live row before it
  have hclash : ∀ {t : ℕ} {task}, tasks[t]? = some task → task.committed.status ∈ LIVE →
      task.committed.sameEntry row = true → False := by
    intro t task ht hlive hsame
    exact hfree (List.any_eq_true.mpr ⟨task, List.mem_of_getElem? ht, by simp [hlive, hsame]⟩)
  rcases lt_or_ge t tasks.length with hlt | hge
  · rw [List.getElem?_append_left hlt] at ht
    rcases lt_or_ge t' tasks.length with hlt' | hge'
    · rw [List.getElem?_append_left hlt'] at ht'
      exact hone t t' task task' ht ht' hlive hlive' hsame
    · rw [List.getElem?_append_right hge', List.getElem?_singleton] at ht'
      simp only [Option.ite_none_right_eq_some, Option.some.injEq] at ht'
      obtain ⟨_, rfl⟩ := ht'
      exact (hclash ht hlive hsame).elim
  · rw [List.getElem?_append_right hge, List.getElem?_singleton] at ht
    simp only [Option.ite_none_right_eq_some, Option.some.injEq] at ht
    obtain ⟨hlast, rfl⟩ := ht
    rcases lt_or_ge t' tasks.length with hlt' | hge'
    · rw [List.getElem?_append_left hlt'] at ht'
      exact (hclash ht' hlive' (TaskRow.sameEntry_symm hsame)).elim
    · rw [List.getElem?_append_right hge', List.getElem?_singleton] at ht'
      simp only [Option.ite_none_right_eq_some] at ht'
      omega

/-- The upload tasks of a save go at the end of the table, not started. -/
theorem queueUploads_eq_some {game : GameId} {accountId : PlayerId} {base : ℕ} {files : List WorkspaceFile}
    {tasks tasks' : List (Versioned TaskRow)} (h : queueUploads game accountId base tasks files = some tasks') :
    (OneLive tasks → OneLive tasks') ∧ ∃ new, tasks' = tasks ++ new ∧ ∀ task ∈ new, ∃ path version,
      task = .fresh (.queued game accountId (.ASSET_UPLOAD path version) (base + 1) (Nat.succ_pos _)) := by
  induction files generalizing tasks with
  | nil =>
    cases h
    exact ⟨id, [], by simp⟩
  | cons file rest ih =>
    unfold queueUploads at h
    split at h
    · obtain ⟨tasks₁, h₁, hrest⟩ := Option.bind_eq_some_iff.mp h
      obtain ⟨rfl, hone₁⟩ := insertTask_eq_some h₁
      obtain ⟨hone, new, rfl, hnew⟩ := ih hrest
      refine ⟨fun h => hone (hone₁ h), _ :: new, List.append_assoc .., ?_⟩
      intro task hmem
      obtain rfl | hmem := List.mem_cons.mp hmem
      · exact ⟨_, _, rfl⟩
      · exact hnew task hmem
    · exact ih h

/-- A save either leaves the tables as they were, or lands whole at the revision it claimed. -/
theorem Records.saveWorkspace_cases (db : Records) (game : GameId) (plan : SavePlan) (freeze : Bool) :
    ((db.saveWorkspace game plan freeze).1 = db ∧
        ∀ revision files, (db.saveWorkspace game plan freeze).2 ≠ .saved revision files) ∨
      (db.games.get game = some plan.baseRevision ∧ freeze = true ∧ ∃ files tasks,
        upsertFiles game (deleteFiles game db.files plan.deletes) plan.upserts = some files ∧
        queueUploads game plan.accountId plan.baseRevision db.tasks plan.upserts = some tasks ∧
        db.saveWorkspace game plan freeze =
          ({ games := db.games.set game (plan.baseRevision + 1), files, tasks,
             frozen := db.frozen.set (game, plan.baseRevision + 1) (filesOf files game) },
           .saved (plan.baseRevision + 1) (filesOf files game))) := by
  unfold Records.saveWorkspace
  cases hgame : db.games.get game with
  | none => exact .inl ⟨rfl, nofun⟩
  | some revision =>
    by_cases hbase : revision = plan.baseRevision
    · subst hbase
      simp only [ne_eq, not_true_eq_false, if_false]
      cases hfiles : upsertFiles game (deleteFiles game db.files plan.deletes) plan.upserts with
      | none => exact .inl ⟨rfl, nofun⟩
      | some files =>
        cases htasks : queueUploads game plan.accountId plan.baseRevision db.tasks plan.upserts with
        | none => exact .inl ⟨rfl, nofun⟩
        | some tasks =>
          cases freeze with
          | false => exact .inl ⟨rfl, nofun⟩
          | true => exact .inr ⟨trivial, rfl, files, tasks, rfl, rfl, rfl⟩
    · simp only [ne_eq, hbase, not_false_eq_true, if_true]
      exact .inl ⟨trivial, nofun⟩

end Grove.Api
