import Grove.Api.Service

/-! # The life of a task

What every interleaving of `advanceTask` calls, `queueTask` calls and saves keeps of a task:
its statuses, its attempts, the call that settled it, the entry it holds of the unique
index, and what a verdict on a file rests on.

The argument is the row locks: a version a transaction has written is the guarded update of
the committed row it holds (`Ok.held`), and a file it vouches for is held with the task whose
success it records (`Ok.vouched`), so a commit publishes one accepted update of a row that
was live, and a verdict on bytes the file still holds. -/

namespace Grove.Api

open Service

/-- The statuses the accepted updates of a task carried, in commit order. -/
def accepted (t : TaskId) (answers : List (ℕ × TaskAdvanced)) : List TaskStatus :=
  (advancedRows answers).filterMap fun u => if u.1 = t then some u.2.status else none

/-- `next` is the guarded update of the live row `row`. -/
def Advances (row next : TaskRow) : Prop :=
  row.status ∈ LIVE ∧ ∃ update startedAt now, row.advance update startedAt now = some next

/-- Where a row of the task table stands after a step. -/
inductive RowMove (s s' : Service) (t : ℕ) (row' : Versioned TaskRow) : Prop
  /-- It was there and its committed version stays; what is pending was pending, or a
  transaction has just found it free and updated it. -/
  | stays (row : Versioned TaskRow) (old : s.db.tasks[t]? = some row) (committed : row'.committed = row.committed)
      (pending : ∀ i next, row'.pending = some (i, next) → row.pending = some (i, next) ∨ Advances row.committed next)
      (accepted : accepted t s'.answers = accepted t s.answers)
  /-- Its holder committed. -/
  | commits (row : Versioned TaskRow) (i : ℕ) (next : TaskRow) (old : s.db.tasks[t]? = some row)
      (mine : row.pending = some (i, next)) (new : row' = .fresh next)
      (accepted : accepted t s'.answers = accepted t s.answers ++ [next.status])
  /-- It is new. -/
  | inserts (row : TaskRow) (new : row' = .fresh row) (last : s.db.tasks.length ≤ t) (status : row.status = .NOT_STARTED)
      (attempts : row.attempts = 0) (accepted : accepted t s'.answers = accepted t s.answers)
      (build : row.work = .BUILD → ∃ (j : ℕ) (request : QueueTask), s.queues[j]? = some (request, .creating) ∧
        request.kind = .BUILD ∧ request.gameId = row.gameId ∧ request.manifestRevision = row.manifestRevision)

/-- A row nothing touched. -/
theorem RowMove.same {s s' : Service} {t : ℕ} {row : Versioned TaskRow} (old : s.db.tasks[t]? = some row)
    (h : advancedRows s'.answers = advancedRows s.answers) : RowMove s s' t row :=
  .stays row old rfl (fun _ _ h => .inl h) (by simp only [accepted, h])

theorem Moves.length_le {s s' : Service} {e : Event} (h : Moves s e s') : s.db.tasks.length ≤ s'.db.tasks.length := by
  cases h with
  | idle db calls => rw [db]
  | game g hfresh db calls => rw [db]
  | save g plan files tasks event base free upserts uploads db calls =>
    obtain ⟨_, new, rfl, _⟩ := queueUploads_eq_some uploads
    simp [db]
  | build j request hpos tasks call kind insert db calls =>
    obtain ⟨rfl, _⟩ := insertTask_eq_some insert
    simp [db]
  | claim i t row next update startedAt now task free live hnext db calls => simp [db, setTask]
  | judge i t row settled path file file' task mine status work found free next db call calls =>
    simp [db, setFile]
  | commit i t key row settled call task mine db judged answers => simp [db, length_onTask]
  | rollback i t key call db calls => simp [db, length_onTask]

/-- The step lemma for the task table. -/
theorem Moves.task {s s' : Service} {e : Event} (h : Moves s e s') {t : ℕ} {row' : Versioned TaskRow}
    (ht : s'.db.tasks[t]? = some row') : RowMove s s' t row' := by
  cases h with
  | idle db calls => exact .same (by rw [← db, ht]) calls.answers
  | game g hfresh db calls =>
    rw [db] at ht
    exact .same ht calls.answers
  | save g plan files tasks event base free upserts uploads db calls =>
    rw [db] at ht
    obtain ⟨_, new, rfl, hnew⟩ := queueUploads_eq_some uploads
    rcases lt_or_ge t s.db.tasks.length with hlt | hge
    · simp only [List.getElem?_append_left hlt] at ht
      exact .same ht calls.answers
    · simp only [List.getElem?_append_right hge] at ht
      obtain ⟨path, version, rfl⟩ := hnew row' (List.mem_of_getElem? ht)
      exact .inserts _ rfl hge rfl rfl (by simp only [accepted, calls.answers]) nofun
  | build j request hpos tasks call kind insert db calls =>
    rw [db] at ht
    obtain ⟨rfl, _⟩ := insertTask_eq_some insert
    rcases lt_or_ge t s.db.tasks.length with hlt | hge
    · simp only [List.getElem?_append_left hlt] at ht
      exact .same ht calls.answers
    · simp only [List.getElem?_append_right hge, List.getElem?_singleton, Option.ite_none_right_eq_some,
        Option.some.injEq] at ht
      obtain ⟨_, rfl⟩ := ht
      exact .inserts _ rfl hge rfl rfl (by simp only [accepted, calls.answers])
        fun _ => ⟨j, request, call, kind, rfl, rfl⟩
  | claim i t' row next update startedAt now task free live hnext db calls =>
    rw [db] at ht
    simp only [setTask, List.getElem?_set] at ht
    by_cases hsame : t' = t
    · subst hsame
      obtain ⟨hlt, _⟩ := List.getElem?_eq_some_iff.mp task
      simp only [if_true, hlt, Option.some.injEq] at ht
      subst ht
      refine .stays row task rfl ?_ (by simp only [accepted, calls.answers])
      rintro i' next' hpending
      cases hpending
      exact .inr ⟨live, update, startedAt, now, hnext⟩
    · simp only [hsame, if_false] at ht
      exact .same ht calls.answers
  | judge i t' row settled path file file' task mine status work found free next db call calls =>
    rw [db] at ht
    exact .same ht calls.answers
  | commit i t' key row settled call task mine db judged answers =>
    have haccepted : accepted t s'.answers = accepted t s.answers ++ if t' = t then [settled.status] else [] := by
      simp only [accepted, answers, List.filterMap_append]
      by_cases hsame : t' = t
      · simp [hsame]
      · simp [hsame]
    rw [db, onFile_tasks, get_onTask] at ht
    by_cases hsame : t = t'
    · subst hsame
      simp only [if_true, task, Option.map_some, Option.some.injEq] at ht
      rcases row.commit_cases i with ⟨next, hnext, hcommit⟩ | ⟨hno, _⟩
      · rw [mine] at hnext
        cases hnext
        exact .commits row i settled task mine (ht.symm.trans hcommit) (by simpa using haccepted)
      · exact absurd mine (hno settled)
    · simp only [hsame, if_false] at ht
      exact .stays row' ht rfl (fun _ _ h => .inl h) (by simpa [Ne.symm hsame] using haccepted)
  | rollback i t' key call db calls =>
    rw [db, onFile_tasks, get_onTask] at ht
    by_cases hsame : t = t'
    · subst hsame
      simp only [if_true, Option.map_eq_some_iff] at ht
      obtain ⟨row, hrow, rfl⟩ := ht
      refine .stays row hrow Versioned.rollback_committed ?_ (by simp only [accepted, calls.answers])
      intro j next hpending
      obtain ⟨hback, _⟩ := Versioned.pending_of_rollback hpending
      exact .inl (hback ▸ hpending)
    · simp only [hsame, if_false] at ht
      exact .same ht calls.answers

/-! ### What holds between steps -/

/-- The life of a task so far, against the updates accepted of it. -/
structure Lived (row : TaskRow) (statuses : List TaskStatus) : Prop where
  shape : statuses = List.replicate row.attempts .IN_PROGRESS ++ if isTerminal row.status then [row.status] else []
  status : (TaskStatus.NOT_STARTED :: statuses).getLast? = some row.status
  finish : isTerminal row.status = true → row.startedAt ≠ none ∧ row.finishedAt ≠ none

/-- An accepted update of a live row continues its life. -/
theorem Lived.advance {row next : TaskRow} {statuses : List TaskStatus} (h : Lived row statuses)
    (hnext : Advances row next) : Lived next (statuses ++ [next.status]) := by
  obtain ⟨hlive, update, startedAt, now, hadvance⟩ := hnext
  obtain ⟨_, hstatus, hattempts, hfinish⟩ := TaskRow.advance_eq_some hadvance
  have hshape : statuses = List.replicate row.attempts .IN_PROGRESS := by
    rw [h.shape, (mem_LIVE_iff _).mp hlive]
    simp
  refine ⟨?_, by rw [← List.cons_append, List.getLast?_concat], fun hterminal => hfinish (hstatus ▸ hterminal)⟩
  rw [hshape, hstatus, hattempts]
  cases hupdate : update.status with
  | NOT_STARTED => exact absurd hupdate update.leaves
  | IN_PROGRESS => simp [isTerminal, List.replicate_succ']
  | SUCCESSFUL | FAILED | CANCELLED => simp [isTerminal]

/-- What the rows held by transactions are, and the life of every task. -/
structure Ok (s : Service) : Prop where
  held : ∀ (t : ℕ) (row : Versioned TaskRow) (i : ℕ) (next : TaskRow), s.db.tasks[t]? = some row → row.pending = some (i, next) → Advances row.committed next
  vouched : ∀ g p file i file', s.db.files.get (g, p) = some file → file.pending = some (i, file') →
    ∃ (t : ℕ) (row : Versioned TaskRow) (settled : TaskRow), s.advances[i]? = some (.judged t (some (g, p))) ∧ s.db.tasks[t]? = some row ∧
      row.pending = some (i, settled) ∧ settled.status = .SUCCESSFUL ∧ settled.gameId = g ∧
      settled.work = .ASSET_UPLOAD p file.committed.versionId ∧
      file.committed.validate file.committed.versionId = some file'
  lived : ∀ (t : ℕ) (row : Versioned TaskRow), s.db.tasks[t]? = some row → Lived row.committed (accepted t s.answers)
  unborn : ∀ t, s.db.tasks.length ≤ t → accepted t s.answers = []
  oneLive : OneLive s.db.tasks

theorem Ok.start : Ok Service.start where
  held t row i next h := by simp [Service.start] at h
  vouched g p file i file' h := by simp [Service.start] at h
  lived t row h := by simp [Service.start] at h
  unborn t _ := rfl
  oneLive t t' task task' h := by simp [Service.start] at h

variable {s s' : Service} {e : Event}

theorem Ok.held_step (hok : Ok s) (h : Moves s e s') {t : ℕ} {row' : Versioned TaskRow} {i : ℕ} {next : TaskRow}
    (ht : s'.db.tasks[t]? = some row') (hpending : row'.pending = some (i, next)) :
    Advances row'.committed next := by
  cases h.task ht with
  | stays row old committed pending _ =>
    rw [committed]
    exact (pending i next hpending).elim (hok.held t row i next old) id
  | commits row j settled old mine new _ =>
    rw [new] at hpending
    cases hpending
  | inserts row new last status attempts _ build =>
    rw [new] at hpending
    cases hpending

theorem Ok.lived_step (hok : Ok s) (h : Moves s e s') {t : ℕ} {row' : Versioned TaskRow}
    (ht : s'.db.tasks[t]? = some row') : Lived row'.committed (accepted t s'.answers) := by
  cases h.task ht with
  | stays row old committed pending same =>
    rw [committed, same]
    exact hok.lived t row old
  | commits row i settled old mine new grows =>
    rw [new, grows]
    exact (hok.lived t row old).advance (hok.held t row i settled old mine)
  | inserts row new last status attempts same build =>
    rw [same, hok.unborn t last, new]
    exact ⟨by simp [status, attempts, isTerminal], by simp [status], by simp [status, isTerminal]⟩

/-- A task keeps its game, its work and its revision, and a row is never taken away. -/
theorem Ok.pinned_step (hok : Ok s) (h : Moves s e s') {t : ℕ} {row : Versioned TaskRow}
    (ht : s.db.tasks[t]? = some row) : ∃ row', s'.db.tasks[t]? = some row' ∧
      row'.committed.pinned = row.committed.pinned ∧
      (isTerminal row.committed.status = true → row'.committed = row.committed) := by
  obtain ⟨hlt, _⟩ := List.getElem?_eq_some_iff.mp ht
  obtain ⟨row', ht'⟩ : ∃ row', s'.db.tasks[t]? = some row' := by
    have hlen : s.db.tasks.length ≤ s'.db.tasks.length := h.length_le
    exact ⟨_, List.getElem?_eq_getElem (hlt.trans_le hlen)⟩
  refine ⟨row', ht', ?_⟩
  cases h.task ht' with
  | stays row₀ old committed pending _ =>
    rw [ht] at old
    cases old
    exact ⟨by rw [committed], fun _ => committed⟩
  | commits row₀ i settled old mine new _ =>
    rw [ht] at old
    cases old
    obtain ⟨hlive, update, startedAt, now, hadvance⟩ := hok.held t row i settled ht mine
    rw [new]
    refine ⟨(TaskRow.advance_eq_some hadvance).1, fun hterminal => ?_⟩
    rw [mem_LIVE_iff, hterminal] at hlive
    cases hlive
  | inserts row₀ new last status attempts _ build => omega

/-- A save takes over the rows it upserts, and every other row it leaves is one it found. -/
theorem saved_file {db : Records} {g : GameId} {plan : SavePlan} {files : Files}
    (h : upsertFiles g (deleteFiles g db.files plan.deletes) plan.upserts = some files)
    {k : GameId × WorkspacePath} {file : Versioned GameFile} (hget : files.get k = some file) :
    db.files.get k = some file ∨ ∃ row, file = .fresh row ∧ ∀ v, row.validatedVersionId = some v →
      ∃ old, db.files.get k = some old ∧ old.committed.validatedVersionId = some v := by
  have hdelete : ∀ {old}, (deleteFiles g db.files plan.deletes).get k = some old → db.files.get k = some old := by
    intro old hold
    rw [get_deleteFiles] at hold
    split at hold
    · cases hold
    · exact hold
  rcases upsertFiles_get h k with ⟨_, hsame⟩ | ⟨_, _, _, row, hrow, _, _, hvalid⟩
  · exact .inl (hdelete (hsame ▸ hget))
  · rw [hget] at hrow
    cases hrow
    refine .inr ⟨row, rfl, fun v hv => ?_⟩
    obtain ⟨old, hold, holdv⟩ := hvalid v hv
    exact ⟨old, hdelete hold, holdv⟩

/-- The task a held file is held with stays as it is while its call does not end. -/
theorem task_of_append {tasks : List (Versioned TaskRow)} {t : ℕ} {row : Versioned TaskRow}
    (h : tasks[t]? = some row) (new : List (Versioned TaskRow)) : (tasks ++ new)[t]? = some row := by
  obtain ⟨hlt, _⟩ := List.getElem?_eq_some_iff.mp h
  rw [List.getElem?_append_left hlt, h]

theorem Ok.vouched_step (hok : Ok s) (h : Moves s e s') {g : GameId} {p : WorkspacePath} {file : Versioned GameFile}
    {i : ℕ} {file' : GameFile} (hget : s'.db.files.get (g, p) = some file) (hpending : file.pending = some (i, file')) :
    ∃ (t : ℕ) (row : Versioned TaskRow) (settled : TaskRow), s'.advances[i]? = some (.judged t (some (g, p))) ∧
      s'.db.tasks[t]? = some row ∧ row.pending = some (i, settled) ∧ settled.status = .SUCCESSFUL ∧
      settled.gameId = g ∧ settled.work = .ASSET_UPLOAD p file.committed.versionId ∧
      file.committed.validate file.committed.versionId = some file' := by
  cases h with
  | idle db calls =>
    rw [db] at hget ⊢
    obtain ⟨t, row, settled, hcall, hrest⟩ := hok.vouched g p file i file' hget hpending
    exact ⟨t, row, settled, calls.judged i t _ (fun h => h) hcall, hrest⟩
  | game g' hfresh db calls =>
    rw [db] at hget ⊢
    obtain ⟨t, row, settled, hcall, hrest⟩ := hok.vouched g p file i file' hget hpending
    exact ⟨t, row, settled, calls.judged i t _ (fun h => h) hcall, hrest⟩
  | save g' plan files tasks event base free upserts uploads db calls =>
    rw [db] at hget ⊢
    obtain ⟨_, new, rfl, _⟩ := queueUploads_eq_some uploads
    rcases saved_file upserts hget with hold | ⟨row, rfl, _⟩
    · obtain ⟨t, row, settled, hcall, htask, hrest⟩ := hok.vouched g p file i file' hold hpending
      exact ⟨t, row, settled, calls.judged i t _ (fun h => h) hcall, task_of_append htask new, hrest⟩
    · cases hpending
  | build j request hpos tasks call kind insert db calls =>
    rw [db] at hget ⊢
    obtain ⟨rfl, _⟩ := insertTask_eq_some insert
    obtain ⟨t, row, settled, hcall, htask, hrest⟩ := hok.vouched g p file i file' hget hpending
    exact ⟨t, row, settled, calls.judged i t _ (fun h => h) hcall, task_of_append htask _, hrest⟩
  | claim j t' row' next update startedAt now task free live hnext db calls =>
    rw [db] at hget ⊢
    obtain ⟨t, row, settled, hcall, htask, hmine, hrest⟩ := hok.vouched g p file i file' hget hpending
    refine ⟨t, row, settled, calls.judged i t _ (fun h => h) hcall, ?_, hmine, hrest⟩
    -- the row claimed was free, and the one held is not
    have hne : t' ≠ t := by
      rintro rfl
      rw [task] at htask
      cases htask
      rw [free] at hmine
      cases hmine
    simp only [setTask, List.getElem?_set, hne, if_false, htask]
  | judge j t' row' settled' path found file₁ task mine status work got free next db call calls =>
    rw [db] at hget ⊢
    simp only [setFile, OrderedMap.get_set] at hget ⊢
    by_cases hk : (g, p) = (settled'.gameId, path)
    · cases hk
      simp only [if_true, Option.some.injEq] at hget
      subst hget
      cases hpending
      exact ⟨t', row', settled', call, task, mine, status, rfl, work, next⟩
    · rw [if_neg hk] at hget
      obtain ⟨t, row, settled, hcall, hrest⟩ := hok.vouched g p file i file' hget hpending
      exact ⟨t, row, settled, calls.judged i t _ (fun h => h) hcall, hrest⟩
  | commit j t' key row' settled' call task mine db judged answers =>
    rw [db] at hget ⊢
    rw [get_onFile, onTask_files] at hget
    obtain ⟨hold, hne⟩ : s.db.files.get (g, p) = some file ∧ i ≠ j := by
      by_cases hk : key = some (g, p)
      · simp only [hk, if_true, Option.map_eq_some_iff] at hget
        obtain ⟨old, hold, rfl⟩ := hget
        obtain ⟨hsame, hne⟩ := Versioned.pending_of_commit hpending
        exact ⟨by rw [hsame, hold], hne⟩
      · rw [if_neg hk] at hget
        refine ⟨hget, ?_⟩
        rintro rfl
        obtain ⟨t, _, _, hcall, _⟩ := hok.vouched g p file i file' hget hpending
        rw [call] at hcall
        cases hcall
        exact hk rfl
    obtain ⟨t, row, settled, hcall, htask, hmine, hrest⟩ := hok.vouched g p file i file' hold hpending
    refine ⟨t, row, settled, judged i t _ hne hcall, ?_, hmine, hrest⟩
    have hne' : t ≠ t' := by
      rintro rfl
      rw [task] at htask
      cases htask
      rw [mine] at hmine
      cases hmine
      exact hne rfl
    rw [onFile_tasks, get_onTask, if_neg hne', htask]
  | rollback j t' key call db calls =>
    rw [db] at hget ⊢
    rw [get_onFile, onTask_files] at hget
    obtain ⟨hold, hne⟩ : s.db.files.get (g, p) = some file ∧ i ≠ j := by
      by_cases hk : key = some (g, p)
      · simp only [hk, if_true, Option.map_eq_some_iff] at hget
        obtain ⟨old, hold, rfl⟩ := hget
        obtain ⟨hsame, hne⟩ := Versioned.pending_of_rollback hpending
        exact ⟨by rw [hsame, hold], hne⟩
      · rw [if_neg hk] at hget
        refine ⟨hget, ?_⟩
        rintro rfl
        obtain ⟨t, _, _, hcall, _⟩ := hok.vouched g p file i file' hget hpending
        exact hk (call t _ hcall).2
    obtain ⟨t, row, settled, hcall, htask, hmine, hrest⟩ := hok.vouched g p file i file' hold hpending
    refine ⟨t, row, settled, calls.judged i t _ hne hcall, ?_, hmine, hrest⟩
    rw [onFile_tasks, get_onTask]
    split
    · rcases row.rollback_cases j with ⟨_, hj, _⟩ | ⟨_, hsame⟩
      · rw [hmine] at hj
        cases hj
        exact absurd rfl hne
      · rw [htask, Option.map_some, hsame]
    · exact htask

theorem sameEntry_of_pinned {row row' next next' : TaskRow} (h : next.pinned = row.pinned)
    (h' : next'.pinned = row'.pinned) (hsame : next.sameEntry next' = true) : row.sameEntry row' = true := by
  simp only [TaskRow.pinned, Prod.mk.injEq] at h h'
  obtain ⟨hgame, hwork, hrevision⟩ := h
  obtain ⟨hgame', hwork', hrevision'⟩ := h'
  simpa only [TaskRow.sameEntry, hgame, hwork, hrevision, hgame', hwork', hrevision'] using hsame

/-- Updates in place keep the index, for they only ever take tasks out of it. -/
theorem OneLive.mono {tasks tasks' : List (Versioned TaskRow)} (h : OneLive tasks)
    (hback : ∀ (t : ℕ) row', tasks'[t]? = some row' → row'.committed.status ∈ LIVE → ∃ row, tasks[t]? = some row ∧
      row.committed.status ∈ LIVE ∧ row'.committed.pinned = row.committed.pinned) : OneLive tasks' := by
  intro t t' task task' ht ht' hlive hlive' hsame
  obtain ⟨row, hrow, hrowlive, hpinned⟩ := hback t task ht hlive
  obtain ⟨row', hrow', hrowlive', hpinned'⟩ := hback t' task' ht' hlive'
  exact h t t' row row' hrow hrow' hrowlive hrowlive' (sameEntry_of_pinned hpinned hpinned' hsame)

/-- A live row of a table that has not grown was live before the step. -/
theorem Ok.live_back (hok : Ok s) (h : Moves s e s') (hlen : s'.db.tasks.length = s.db.tasks.length) (t : ℕ)
    (row' : Versioned TaskRow) (ht : s'.db.tasks[t]? = some row') (hlive : row'.committed.status ∈ LIVE) :
    ∃ row, s.db.tasks[t]? = some row ∧ row.committed.status ∈ LIVE ∧
      row'.committed.pinned = row.committed.pinned := by
  cases h.task ht with
  | stays row old committed pending _ => exact ⟨row, old, committed ▸ hlive, by rw [committed]⟩
  | commits row i next old mine new _ =>
    obtain ⟨hrow, update, startedAt, now, hadvance⟩ := hok.held t row i next old mine
    refine ⟨row, old, hrow, ?_⟩
    rw [new]
    exact (TaskRow.advance_eq_some hadvance).1
  | inserts row new last status attempts _ build =>
    obtain ⟨hlt, _⟩ := List.getElem?_eq_some_iff.mp ht
    omega

theorem Ok.oneLive_step (hok : Ok s) (h : Moves s e s') : OneLive s'.db.tasks := by
  have hsame := fun hlen => hok.oneLive.mono (hok.live_back h hlen)
  cases h with
  | save g plan files tasks event base free upserts uploads db calls =>
    rw [db]
    exact (queueUploads_eq_some uploads).1 hok.oneLive
  | build j request hpos tasks call kind insert db calls =>
    rw [db]
    exact (insertTask_eq_some insert).2 hok.oneLive
  | idle db calls => exact hsame (by rw [db])
  | game g fresh db calls => exact hsame (by rw [db])
  | claim i t row next update startedAt now task free live hnext db calls => exact hsame (by simp [db, setTask])
  | judge i t row settled path file file' task mine status work found free next db call calls =>
    exact hsame (by simp [db, setFile])
  | commit i t key row settled call task mine db judged answers => exact hsame (by simp [db, length_onTask])
  | rollback i t key call db calls => exact hsame (by simp [db, length_onTask])

/-- An id no row has yet has no history. -/
theorem Ok.unborn_step (hok : Ok s) (h : Moves s e s') {t : ℕ} (ht : s'.db.tasks.length ≤ t) :
    accepted t s'.answers = [] := by
  have hbefore := hok.unborn t (h.length_le.trans ht)
  cases h with
  | commit i t' key row settled call task mine db judged answers =>
    obtain ⟨hlt, _⟩ := List.getElem?_eq_some_iff.mp task
    have hne : t' ≠ t := by
      rintro rfl
      simp only [db, onFile_tasks, length_onTask] at ht
      omega
    rw [← hbefore]
    simp [accepted, answers, hne]
  | idle db calls => simpa only [accepted, calls.answers] using hbefore
  | game g fresh db calls => simpa only [accepted, calls.answers] using hbefore
  | save g plan files tasks event base free upserts uploads db calls =>
    simpa only [accepted, calls.answers] using hbefore
  | build j request hpos tasks call kind insert db calls => simpa only [accepted, calls.answers] using hbefore
  | claim i t row next update startedAt now task free live hnext db calls =>
    simpa only [accepted, calls.answers] using hbefore
  | judge i t row settled path file file' task mine status work found free next db call calls =>
    simpa only [accepted, calls.answers] using hbefore
  | rollback i t key call db calls => simpa only [accepted, calls.answers] using hbefore

theorem Ok.step (hok : Ok s) (e : Event) : Ok (s.step e) where
  held _ _ _ _ ht := hok.held_step (s.step_moves e) ht
  vouched _ _ _ _ _ := hok.vouched_step (s.step_moves e)
  lived _ _ := hok.lived_step (s.step_moves e)
  unborn _ := hok.unborn_step (s.step_moves e)
  oneLive := hok.oneLive_step (s.step_moves e)

theorem Ok.run (es : List Event) : Ok (Service.run es) :=
  exec_invariant (fun _ e h => h.step e) Ok.start es

/-! ### Verdicts -/

/-- The file row shows a verdict for `v`. -/
def Validated (s : Service) (g : GameId) (p : WorkspacePath) (v : VersionId) : Prop :=
  ∃ file, s.db.files.get (g, p) = some file ∧ file.committed.validatedVersionId = some v

/-- Between the two states an upload task of this path and version was settled `SUCCESSFUL`,
and the file held the version. -/
def Settles (s s' : Service) (g : GameId) (p : WorkspacePath) (v : VersionId) : Prop :=
  ∃ (t : ℕ) (row row' : Versioned TaskRow) (file : Versioned GameFile),
    s.db.tasks[t]? = some row ∧ row.committed.status ∈ LIVE ∧
    s'.db.tasks[t]? = some row' ∧ row'.committed.status = .SUCCESSFUL ∧
    row'.committed.gameId = g ∧ row'.committed.work = .ASSET_UPLOAD p v ∧
    s.db.files.get (g, p) = some file ∧ file.committed.versionId = v

/-- A verdict appears on a file at the step that settles the upload it rests on. -/
theorem Ok.validated_step (hok : Ok s) (h : Moves s e s') {g : GameId} {p : WorkspacePath} {v : VersionId}
    (hv : Validated s' g p v) : Validated s g p v ∨ Settles s s' g p v := by
  obtain ⟨file, hget, hfile⟩ := hv
  cases h with
  | idle db calls => exact .inl ⟨file, db ▸ hget, hfile⟩
  | game g' fresh db calls =>
    rw [db] at hget
    exact .inl ⟨file, hget, hfile⟩
  | save g' plan files tasks event base free upserts uploads db calls =>
    rw [db] at hget
    rcases saved_file upserts hget with hold | ⟨row, rfl, hvalid⟩
    · exact .inl ⟨file, hold, hfile⟩
    · exact .inl (hvalid v hfile)
  | build j request hpos tasks call kind insert db calls =>
    rw [db] at hget
    exact .inl ⟨file, hget, hfile⟩
  | claim i t row next update startedAt now task free live hnext db calls =>
    rw [db] at hget
    exact .inl ⟨file, hget, hfile⟩
  | judge i t row settled path found file' task mine status work got free next db call calls =>
    rw [db] at hget
    simp only [setFile, OrderedMap.get_set] at hget
    split at hget
    case isFalse => exact .inl ⟨file, hget, hfile⟩
    case isTrue hk =>
      cases hk
      cases hget
      exact .inl ⟨found, got, hfile⟩
  | rollback i t key call db calls =>
    rw [db, get_onFile, onTask_files] at hget
    split at hget
    case isFalse => exact .inl ⟨file, hget, hfile⟩
    case isTrue hk =>
      obtain ⟨old, hold, rfl⟩ := Option.map_eq_some_iff.mp hget
      exact .inl ⟨old, hold, by simpa using hfile⟩
  | commit i t key row settled call task mine db judged answers =>
    rw [db, get_onFile, onTask_files] at hget
    split at hget
    case isFalse => exact .inl ⟨file, hget, hfile⟩
    case isTrue hk =>
      obtain ⟨old, hold, rfl⟩ := Option.map_eq_some_iff.mp hget
      rcases old.commit_cases i with ⟨next, hmine, hcommit⟩ | ⟨_, hcommit⟩
      · -- the file is held by this call, so with the task it settles
        obtain ⟨t', row', settled', hcall, htask, hmine', hstatus, hgame, hwork, hnext⟩ :=
          hok.vouched g p old i next hold hmine
        rw [call] at hcall
        cases hcall
        rw [task] at htask
        cases htask
        rw [mine] at hmine'
        cases hmine'
        obtain ⟨_, _, hvalid, _⟩ := GameFile.validate_eq_some hnext
        rw [hcommit] at hfile
        obtain rfl : old.committed.versionId = v := Option.some.inj (hvalid.symm.trans hfile)
        refine .inr ⟨t, row, .fresh settled, old, task, (hok.held t row i settled task mine).1, ?_, hstatus, hgame,
          hwork, hold, rfl⟩
        rcases row.commit_cases i with ⟨next', hnext', hrow⟩ | ⟨hno, _⟩
        · rw [mine] at hnext'
          cases hnext'
          rw [db, onFile_tasks, get_onTask, if_pos rfl, task, Option.map_some, hrow]
        · exact absurd mine (hno settled)
      · rw [hcommit] at hfile
        exact .inl ⟨old, hold, hfile⟩

/-! ### Answers -/

/-- Every answer is of a call that has returned, and no call has answered twice. -/
structure Once (s : Service) : Prop where
  returned : ∀ i out, (i, out) ∈ s.answers → s.advances[i]? = some .answered
  nodup : (s.answers.map Prod.fst).Nodup

namespace Once

variable {i : ℕ} {at' : Advance} {out : TaskAdvanced}

theorem of_eq (h : Once s) (hadvances : s'.advances = s.advances) (hanswers : s'.answers = s.answers) : Once s' :=
  ⟨by rw [hadvances, hanswers]; exact h.returned, by rw [hanswers]; exact h.nodup⟩

theorem of_append (h : Once s) (hadvances : s'.advances = s.advances ++ [at']) (hanswers : s'.answers = s.answers) :
    Once s' := by
  refine ⟨fun j out' hmem => ?_, by rw [hanswers]; exact h.nodup⟩
  have hcall := h.returned j out' (hanswers ▸ hmem)
  obtain ⟨hlt, _⟩ := List.getElem?_eq_some_iff.mp hcall
  rw [hadvances, List.getElem?_append_left hlt, hcall]

theorem of_set (h : Once s) (hcall : s.advances[i]? ≠ some .answered) (hadvances : s'.advances = s.advances.set i at')
    (hanswers : s'.answers = s.answers) : Once s' := by
  refine ⟨fun j out' hmem => ?_, by rw [hanswers]; exact h.nodup⟩
  have hj := h.returned j out' (hanswers ▸ hmem)
  have hne : i ≠ j := by
    rintro rfl
    exact hcall hj
  rw [hadvances, List.getElem?_set, if_neg hne, hj]

/-- A call that had not returned returns. -/
theorem of_answer (h : Once s) (hcall : s.advances[i]? ≠ some .answered) (hlt : i < s'.advances.length)
    (hadvances : ∀ j, s'.advances[j]? = if j = i then some .answered else s.advances[j]?)
    (hanswers : s'.answers = s.answers ++ [(i, out)]) : Once s' := by
  have hnew : i ∉ s.answers.map Prod.fst := by
    intro hmem
    obtain ⟨⟨_, out'⟩, hanswer, rfl⟩ := List.mem_map.mp hmem
    exact hcall (h.returned _ out' hanswer)
  constructor
  · intro j out' hmem
    rw [hanswers, List.mem_append, List.mem_singleton] at hmem
    rw [hadvances]
    rcases hmem with hmem | hmem
    · split
      · rfl
      · exact h.returned j out' hmem
    · cases hmem
      exact if_pos rfl
  · rw [hanswers, List.map_append, List.nodup_append]
    refine ⟨h.nodup, by simp, ?_⟩
    rintro a ha b hb rfl
    obtain rfl : a = i := by simpa using hb
    exact hnew ha

/-- The same of a call answering through `Service.answer`, its rows written or dropped first. -/
theorem answer (h : Once s) {s₁ : Service} (hadvances : s₁.advances = s.advances) (hanswers : s₁.answers = s.answers)
    {a : Advance} (hcall : s.advances[i]? = some a) (ha : a ≠ .answered) (out : TaskAdvanced) : Once (s₁.answer i out) := by
  obtain ⟨hlt, _⟩ := List.getElem?_eq_some_iff.mp hcall
  have hreturned : (s₁.answer i out).answers = s.answers ++ [(i, out)] := by simp only [Service.answer, hanswers]
  refine h.of_answer (by rw [hcall]; exact fun e => ha (Option.some.inj e)) ?_ ?_ hreturned
  · simpa [Service.answer, hadvances] using hlt
  · intro j
    simp only [Service.answer, hadvances, List.getElem?_set, hlt, if_true, eq_comm]

theorem guard (h : Once s) (i : ℕ) : Once (s.guard i) := by
  unfold Service.guard
  split
  case h_2 => exact h
  case h_1 t update startedAt now hcall =>
    cases s.db.tasks[t]? with
    | none => exact h
    | some row =>
      simp only
      split
      · exact h
      split
      · cases row.committed.advance update startedAt now with
        | none => exact h.answer rfl rfl hcall (by simp) _
        | some next => exact h.of_set (by simp [hcall]) rfl rfl
      · exact h.of_set (by simp [hcall]) rfl rfl

theorem verdict (h : Once s) (i : ℕ) : Once (s.verdict i) := by
  unfold Service.verdict
  split
  case h_3 => exact h
  case h_1 t hcall =>
    cases s.db.tasks[t]? with
    | none => exact h
    | some row => exact h.answer rfl rfl hcall (by simp) _
  case h_2 t hcall =>
    have hreach : ∀ at', Once (s.reach i at') := fun at' => h.of_set (by simp [hcall]) rfl rfl
    cases s.db.tasks[t]?.bind (·.mine i) with
    | none => exact h
    | some settled =>
      simp only
      split
      case h_2 => exact hreach _
      case h_1 path version _ _ =>
        cases s.db.files.get (settled.gameId, path) with
        | none => exact hreach _
        | some file =>
          simp only
          split
          · exact hreach _
          split
          · exact h
          cases file.committed.validate version with
          | none => exact h.answer (by simp) (by simp) hcall (by simp) _
          | some file' => exact h.of_set (by simp [hcall]) rfl rfl

theorem commit (h : Once s) (i : ℕ) : Once (s.commit i) := by
  unfold Service.commit
  split
  case h_2 => exact h
  case h_1 t key hcall =>
    cases s.db.tasks[t]?.bind (·.mine i) with
    | none => exact h
    | some settled => exact h.answer (by simp) (by simp) hcall (by simp) _

theorem rollback (h : Once s) (i : ℕ) : Once (s.rollback i) := by
  unfold Service.rollback
  split
  case h_4 => exact h
  case h_1 hcall => exact h.answer rfl rfl hcall (by simp) _
  case h_2 hcall => exact h.answer (by simp) (by simp) hcall (by simp) _
  case h_3 hcall => exact h.answer (by simp) (by simp) hcall (by simp) _

theorem advance (h : Once s) (t : TaskId) (update : TaskStatusUpdate) (now : ℕ) : Once (s.advance t update now) := by
  have hreturn : ∀ out, Once { s with advances := s.advances ++ [.answered],
                                      answers := s.answers ++ [(s.advances.length, out)] } := by
    intro out
    have hnew : s.advances[s.advances.length]? ≠ some .answered := by simp
    refine h.of_answer hnew (by simp) ?_ rfl
    intro j
    rcases lt_trichotomy j s.advances.length with hlt | rfl | hgt
    · rw [List.getElem?_append_left hlt, if_neg (Nat.ne_of_lt hlt)]
    · simp
    · rw [List.getElem?_eq_none (by simp; omega), List.getElem?_eq_none (Nat.le_of_lt hgt), if_neg (Nat.ne_of_gt hgt)]
  unfold Service.advance
  cases s.db.tasks[t]? with
  | none => exact hreturn _
  | some row =>
    simp only
    split
    · exact hreturn _
    · exact h.of_append rfl rfl

theorem step (h : Once s) (e : Event) : Once (s.step e) := by
  cases e with
  | createGame game =>
    change Once (s.createGame game)
    unfold Service.createGame
    split
    · exact h
    · exact h.of_eq rfl rfl
  | save game plan freeze =>
    change Once (s.save game plan freeze)
    unfold Service.save
    split
    · exact h
    · exact h.of_eq rfl rfl
  | advance t update now => exact h.advance t update now
  | guard i => exact h.guard i
  | verdict i => exact h.verdict i
  | commit i => exact h.commit i
  | rollback i => exact h.rollback i
  | queue request => exact h.of_eq rfl rfl
  | find j =>
    change Once (s.find j)
    unfold Service.find
    split
    · split <;> exact h.of_eq rfl rfl
    · exact h
  | again j =>
    change Once (s.again j)
    unfold Service.again
    split
    · split <;> exact h.of_eq rfl rfl
    · exact h
  | create j =>
    change Once (s.create j)
    unfold Service.create
    split
    case h_2 => exact h
    case h_1 request hcall =>
      split
      case isFalse => exact h.of_eq rfl rfl
      case isTrue =>
        cases s.db.games.get request.gameId with
        | none => exact h.of_eq rfl rfl
        | some revision =>
          simp only
          split
          · exact h
          · split <;> exact h.of_eq rfl rfl

theorem run (es : List Event) : Once (Service.run es) :=
  exec_invariant (fun _ e h => h.step e) ⟨by simp [Service.start], by simp [Service.start]⟩ es

end Once

/-- A call was told it settled task `t`. -/
def settles (t : TaskId) (a : ℕ × TaskAdvanced) : Bool :=
  match a.2 with
  | .advanced task row => task = t && isTerminal row.status
  | _ => false

theorem countP_settles (t : TaskId) (answers : List (ℕ × TaskAdvanced)) :
    answers.countP (settles t) = (accepted t answers).countP isTerminal := by
  induction answers with
  | nil => rfl
  | cons a answers ih =>
    obtain ⟨i, out⟩ := a
    cases out with
    | advanced task row =>
      by_cases ht : task = t
      · simp_all [settles, accepted, advancedRows, List.countP_cons]
      · simp_all [settles, accepted, advancedRows]
    | missing | backwards | thrown => simpa [settles, accepted, advancedRows, List.countP_cons] using ih

/-- A settled task stays as it was settled. -/
theorem Ok.settled_forever {s : Service} (hok : Ok s) {t : ℕ} {row : Versioned TaskRow} (ht : s.db.tasks[t]? = some row)
    (hterminal : isTerminal row.committed.status = true) (es : List Event) :
    ∃ row', (exec Service.step s es).db.tasks[t]? = some row' ∧ row'.committed = row.committed := by
  induction es generalizing s row with
  | nil => exact ⟨row, ht, rfl⟩
  | cons e es ih =>
    obtain ⟨next, hnext, _, hsame⟩ := hok.pinned_step (s.step_moves e) ht
    have hsame := hsame hterminal
    obtain ⟨row', hrow', heq⟩ := ih (hok.step e) hnext (by rw [hsame]; exact hterminal)
    exact ⟨row', hrow', heq.trans hsame⟩

/-- **The task lifecycle.**  Along every interleaving a task is accepted `IN_PROGRESS` any
number of times and then at most one terminal status, which stays; its status is the last of
these, and its attempts are the first; the call that settled it is one and the only one told
so; a settled task has a start and a finish.  No two live builds are of one game and revision,
and a verdict on a file appeared when an upload of that version was settled `SUCCESSFUL` with
the file holding it. -/
theorem task_lifecycle (es : List Event) :
    (∀ (t : ℕ) (row : Versioned TaskRow), (Service.run es).db.tasks[t]? = some row →
      (∃ (n : ℕ) (last : Option TaskStatus), (∀ status ∈ last, isTerminal status = true) ∧
        accepted t (Service.run es).answers = List.replicate n .IN_PROGRESS ++ last.toList) ∧
      (TaskStatus.NOT_STARTED :: accepted t (Service.run es).answers).getLast? = some row.committed.status ∧
      row.committed.attempts = (accepted t (Service.run es).answers).count .IN_PROGRESS ∧
      (Service.run es).answers.countP (settles t) = (if isTerminal row.committed.status then 1 else 0) ∧
      (isTerminal row.committed.status = true →
        row.committed.startedAt ≠ none ∧ row.committed.finishedAt ≠ none ∧
        ∀ es', ∃ row', (exec Service.step (Service.run es) es').db.tasks[t]? = some row' ∧ row'.committed = row.committed)) ∧
    ((Service.run es).answers.map Prod.fst).Nodup ∧
    (∀ (t t' : ℕ) (row row' : Versioned TaskRow), (Service.run es).db.tasks[t]? = some row → (Service.run es).db.tasks[t']? = some row' →
      row.committed.status ∈ LIVE → row'.committed.status ∈ LIVE →
      row.committed.work = .BUILD → row'.committed.work = .BUILD →
      row.committed.gameId = row'.committed.gameId →
      row.committed.manifestRevision = row'.committed.manifestRevision → t = t') ∧
    (∀ g p v, Validated (Service.run es) g p v → ∃ pre e post, es = pre ++ e :: post ∧
      Settles (Service.run pre) (Service.run (pre ++ [e])) g p v) := by
  have hok := Ok.run es
  refine ⟨fun t row ht => ?_, (Once.run es).nodup, ?_, ?_⟩
  · have hlife := hok.lived t row ht
    have hcount := countP_settles t (Service.run es).answers
    rw [hlife.shape] at hcount
    refine ⟨⟨row.committed.attempts, if isTerminal row.committed.status then some row.committed.status else none, ?_, ?_⟩,
      hlife.status, ?_, ?_, fun hterminal => ⟨(hlife.finish hterminal).1, (hlife.finish hterminal).2,
        fun es' => hok.settled_forever ht hterminal es'⟩⟩
    · intro status hstatus
      split at hstatus
      case isTrue h => exact Option.mem_some.mp hstatus ▸ h
      case isFalse => cases hstatus
    · rw [hlife.shape]
      split <;> rfl
    · rw [hlife.shape]
      cases row.committed.status <;> simp [isTerminal]
    · rw [hcount]
      cases row.committed.status <;> simp [isTerminal, List.countP_replicate]
  · intro t t' row row' ht ht' hlive hlive' hwork hwork' hgame hrevision
    refine hok.oneLive t t' row row' ht ht' hlive hlive' ?_
    simp [TaskRow.sameEntry, hwork, hwork', hgame, hrevision]
  · intro g p v hv
    obtain ⟨pre, e, post, hsplit, hno, hyes⟩ := exec_becomes (fun s => Validated s g p v)
      (s := Service.start) (by rintro ⟨file, hget, _⟩; cases hget) (show Validated (exec Service.step _ es) g p v from hv)
    refine ⟨pre, e, post, hsplit, ?_⟩
    have hmoves := (Service.run pre).step_moves e
    have hlast : Service.run (pre ++ [e]) = (Service.run pre).step e := exec_append ..
    change Validated (Service.run (pre ++ [e])) g p v at hyes
    rw [hlast] at hyes ⊢
    exact ((Ok.run pre).validated_step hmoves hyes).resolve_left hno

end Grove.Api
