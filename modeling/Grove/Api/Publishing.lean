import Grove.Api.Lifecycle

/-! # Publishing

`POST /games/:gameId/versions` over the service: it reads the workspace, then the verdicts,
then asks `queueTask` for a build of the revision it read, in three statements with
everything else running between them.

The verdicts are those of the rows as they stand at the second read, so what they say of the
revision read first is what no save has taken away in between: `publish_verified` is for the
runs where no save drops an asset still unverified out from under a publish, and
`publish_unverified` is a run with such a save. -/

namespace Grove.Api

/-- How many unverified assets a refusal names. -/
def NAMED_ASSETS : ℕ := 10

/-- The refusal of a publish, naming the assets it waits for. -/
def stillVerified (unverified : List WorkspacePath) : String :=
  "these assets are still being verified: " ++ ", ".intercalate unverified

/-- A publish request, by the read it has reached. -/
inductive Publish where
  /-- It has read the workspace: the revision a build would be of, and its files. -/
  | read (game : GameId) (account : PlayerId) (revision : ℕ) (files : List WorkspaceFile)
  /-- Its build has been asked for, in this `queueTask` call. -/
  | queueing (call : ℕ)
  | refused (status : ℕ) (message : String)
deriving DecidableEq

/-- The service, and the publish requests on it. -/
structure Publishing where
  service : Service
  publishes : List Publish

namespace Publishing

/-- Everything else the service does, a `queueTask` call of no publish apart. -/
inductive Step where
  | other (e : Event)
  | publish (game : GameId) (account : PlayerId)
  | verdicts (i : ℕ)
deriving DecidableEq

def start : Publishing := ⟨.start, []⟩

variable (d : Publishing)

/-- The first read of a publish. -/
def publish (game : GameId) (account : PlayerId) : Publishing :=
  match d.service.db.workspaceOf game with
  | none => { d with publishes := d.publishes ++ [.refused 404 "no such game"] }
  | some (revision, files) =>
    if revision = 0 then { d with publishes := d.publishes ++ [.refused 409 "save before publishing"] }
    else { d with publishes := d.publishes ++ [.read game account revision files] }

/-- The second read, and the build it lets through. -/
def verdicts (i : ℕ) : Publishing :=
  match d.publishes[i]? with
  | some (.read game account revision _) =>
    let unverified := d.service.db.unvalidatedAssets game NAMED_ASSETS
    if unverified ≠ [] then
      { d with publishes := d.publishes.set i (.refused 409 (stillVerified unverified)) }
    else
      { service := d.service.queue ⟨game, account, .BUILD, revision⟩
        publishes := d.publishes.set i (.queueing d.service.queues.length) }
  | _ => d

def step : Step → Publishing
  | .other (.queue _) => d
  | .other e => { d with service := d.service.step e }
  | .publish game account => d.publish game account
  | .verdicts i => d.verdicts i

def run (es : List Step) : Publishing := exec step start es

end Publishing

/-- The save takes the file out of the workspace, or puts other bytes in its place. -/
def SavePlan.drops (plan : SavePlan) (file : WorkspaceFile) : Bool :=
  file.path ∈ plan.deletes ||
    plan.upserts.any fun upsert =>
      upsert.path = file.path && !(upsert.kind = .asset && upsert.versionId = file.versionId)

/-- The workspace holds the asset, and no verdict names its bytes. -/
def Records.holdsUnverified (db : Records) (game : GameId) (file : WorkspaceFile) : Bool :=
  match db.files.get (game, file.path) with
  | some row => row.committed.kind = .asset && row.committed.versionId = file.versionId &&
      row.committed.validatedVersionId ≠ some file.versionId
  | none => false

/-- A save that lands drops no asset still unverified that a publish between its two reads
has read. -/
def Undropped (d : Publishing) : Publishing.Step → Prop
  | .other (.save game plan freeze) =>
    d.service.db.games.get game = some plan.baseRevision → freeze = true →
    ∀ p ∈ d.publishes, match p with
      | .read g _ _ files => g = game → ∀ file ∈ files, file.kind = .asset → plan.drops file = true →
          d.service.db.holdsUnverified game file = false
      | _ => True
  | _ => True

/-- An upload of exactly this path and version has been settled `SUCCESSFUL`. -/
def SettledFor (s : Service) (g : GameId) (p : WorkspacePath) (v : VersionId) : Prop :=
  ∃ (t : ℕ) (row : Versioned TaskRow), s.db.tasks[t]? = some row ∧ row.committed.status = .SUCCESSFUL ∧
    row.committed.gameId = g ∧ row.committed.work = .ASSET_UPLOAD p v

/-- Every asset of the file set committed at a revision has been verified. -/
def Verified (s : Service) (g : GameId) (r : ℕ) : Prop :=
  ∃ files, s.db.frozen.get (g, r) = some files ∧
    ∀ file ∈ files, file.kind = .asset → SettledFor s g file.path file.versionId

/-- Every build task names a revision that was verified when the task was created. -/
def BuildsVerified (es : List Publishing.Step) : Prop :=
  ∀ (t : ℕ) (row : Versioned TaskRow), (Publishing.run es).service.db.tasks[t]? = some row →
    row.committed.work = .BUILD → ∃ pre e post, es = pre ++ e :: post ∧
      (Publishing.run pre).service.db.tasks.length ≤ t ∧
      t < (Publishing.run (pre ++ [e])).service.db.tasks.length ∧
      Verified (Publishing.run pre).service row.committed.gameId row.committed.manifestRevision

/-! ### What verification rests on -/

variable {s s' : Service} {e : Event}

theorem SettledFor.step (hok : Ok s) (h : Moves s e s') {g : GameId} {p : WorkspacePath} {v : VersionId}
    (hs : SettledFor s g p v) : SettledFor s' g p v := by
  obtain ⟨t, row, ht, hstatus, hgame, hwork⟩ := hs
  obtain ⟨row', ht', _, hsame⟩ := hok.pinned_step h ht
  have hsame := hsame (by rw [hstatus]; rfl)
  exact ⟨t, row', ht', by rw [hsame, hstatus], by rw [hsame, hgame], by rw [hsame, hwork]⟩

/-- What the tables say of the revisions committed, and of the verdicts on the files. -/
structure Frozen (s : Service) : Prop where
  current : ∀ g r, s.db.games.get g = some r → 0 < r → ∃ files, s.db.frozen.get (g, r) = some files ∧
    ∀ file, file ∈ files ↔ shownAt s.db.files (g, file.path) = some file
  bound : ∀ g r files, s.db.frozen.get (g, r) = some files → ∃ n, s.db.games.get g = some n ∧ r ≤ n
  vouched : ∀ g p v, Validated s g p v → SettledFor s g p v

theorem Frozen.start : Frozen Service.start where
  current g r h := by cases h
  bound g r files h := by cases h
  vouched g p v h := by
    obtain ⟨file, hget, _⟩ := h
    cases hget

/-- What a commit publishes of a file shows the file it was. -/
theorem Ok.commit_shows (hok : Ok s) {k : GameId × WorkspacePath} {row : Versioned GameFile} (i : ℕ)
    (hget : s.db.files.get k = some row) :
    (row.commit i).committed.asFile k.2 = row.committed.asFile k.2 := by
  rcases row.commit_cases i with ⟨next, hmine, hcommit⟩ | ⟨_, hcommit⟩
  · obtain ⟨_, _, _, _, _, _, _, _, _, hnext⟩ := hok.vouched k.1 k.2 row i next hget hmine
    obtain ⟨_, _, _, hshow⟩ := GameFile.validate_eq_some hnext
    rw [hcommit]
    exact hshow k.2
  · rw [hcommit]

/-- What a step does to the games, the manifests and the files shown: a save of one game
that lands, a new game, or nothing at all. -/
inductive Shows (s : Service) (e : Event) (s' : Service) : Prop
  | same (games : s'.db.games = s.db.games) (frozen : s'.db.frozen = s.db.frozen)
      (shown : ∀ k, shownAt s'.db.files k = shownAt s.db.files k)
  | game (g : GameId) (fresh : s.db.games.get g = none) (games : s'.db.games = s.db.games.set g 0)
      (frozen : s'.db.frozen = s.db.frozen) (shown : ∀ k, shownAt s'.db.files k = shownAt s.db.files k)
  | save (g : GameId) (plan : SavePlan) (event : e = .save g plan true) (base : s.db.games.get g = some plan.baseRevision)
      (games : s'.db.games = s.db.games.set g (plan.baseRevision + 1))
      (frozen : s'.db.frozen = s.db.frozen.set (g, plan.baseRevision + 1) (filesOf s'.db.files g))
      (upserts : upsertFiles g (deleteFiles g s.db.files plan.deletes) plan.upserts = some s'.db.files)

theorem Ok.shows (hok : Ok s) (h : Moves s e s') : Shows s e s' := by
  cases h with
  | idle db calls => exact .same (by rw [db]) (by rw [db]) (by simp [db])
  | game g fresh db calls => exact .game g fresh (by rw [db]) (by rw [db]) (by simp [db])
  | save g plan files tasks event base free upserts uploads db calls =>
    exact .save g plan event base (by rw [db]) (by rw [db]) (by rw [db]; exact upserts)
  | build j request hpos tasks call kind insert db calls => exact .same (by rw [db]) (by rw [db]) (by simp [db])
  | claim i t row next update startedAt now task free live hnext db calls =>
    exact .same (by rw [db]; rfl) (by rw [db]; rfl) (by simp [db, Service.setTask])
  | judge i t row settled path file file' task mine status work found free next db call calls =>
    refine .same (by rw [db]; rfl) (by rw [db]; rfl) fun k => ?_
    simp only [db, Service.setFile, shownAt, OrderedMap.get_set]
    split
    case isTrue hk => rw [hk, found]; rfl
    case isFalse => rfl
  | commit i t key row settled call task mine db judged answers =>
    refine .same (by simp [db]) (by simp [db]) fun k => ?_
    simp only [db, shownAt, Service.get_onFile, Service.onTask_files]
    split
    · cases hget : s.db.files.get k with
      | none => rfl
      | some file => simp [hok.commit_shows i hget]
    · rfl
  | rollback i t key call db calls =>
    refine .same (by simp [db]) (by simp [db]) fun k => ?_
    simp only [db, shownAt, Service.get_onFile, Service.onTask_files]
    split
    · cases s.db.files.get k <;> simp
    · rfl

/-- A save touches no other game's files. -/
theorem saved_other {db : Records} {g g' : GameId} {plan : SavePlan} {files : Files} (hg : g' ≠ g)
    (h : upsertFiles g (deleteFiles g db.files plan.deletes) plan.upserts = some files) (p : WorkspacePath) :
    files.get (g', p) = db.files.get (g', p) := by
  rcases upsertFiles_get h (g', p) with ⟨_, hsame⟩ | ⟨_, _, hk, _⟩
  · rw [hsame, get_deleteFiles, if_neg (by simp [hg])]
  · exact absurd (Prod.mk.inj hk).1 hg

theorem Frozen.bound_step (hfrozen : Frozen s) (h : Shows s e s') {g : GameId} {r : ℕ} {files : List WorkspaceFile}
    (hget : s'.db.frozen.get (g, r) = some files) : ∃ n, s'.db.games.get g = some n ∧ r ≤ n := by
  cases h with
  | same games frozen shown =>
    rw [frozen] at hget
    rw [games]
    exact hfrozen.bound g r files hget
  | game g' fresh games frozen shown =>
    rw [frozen] at hget
    obtain ⟨n, hn, hle⟩ := hfrozen.bound g r files hget
    have hne : g ≠ g' := by
      rintro rfl
      rw [fresh] at hn
      cases hn
    exact ⟨n, by rw [games, OrderedMap.get_set_of_ne _ hne, hn], hle⟩
  | save g' plan event base games frozen upserts =>
    rw [frozen, OrderedMap.get_set] at hget
    rw [games, OrderedMap.get_set]
    by_cases hg : g = g'
    · subst hg
      refine ⟨plan.baseRevision + 1, if_pos rfl, ?_⟩
      split at hget
      case isTrue hk => exact le_of_eq (Prod.mk.inj hk).2
      case isFalse =>
        obtain ⟨n, hn, hle⟩ := hfrozen.bound g r files hget
        rw [base] at hn
        cases hn
        omega
    · rw [if_neg (by simp [hg])] at hget
      rw [if_neg hg]
      exact hfrozen.bound g r files hget

/-- What a revision froze stays: a save that lands freezes the one after all of them. -/
theorem Frozen.kept (hfrozen : Frozen s) (h : Shows s e s') {g : GameId} {r : ℕ} {files : List WorkspaceFile}
    (hget : s.db.frozen.get (g, r) = some files) : s'.db.frozen.get (g, r) = some files := by
  cases h with
  | same games frozen shown => rw [frozen, hget]
  | game g' fresh games frozen shown => rw [frozen, hget]
  | save g' plan event base games frozen upserts =>
    rw [frozen, OrderedMap.get_set_of_ne _ _, hget]
    rintro hk
    obtain ⟨rfl, rfl⟩ := Prod.mk.inj hk
    obtain ⟨n, hn, hle⟩ := hfrozen.bound _ _ _ hget
    rw [base] at hn
    cases hn
    omega

theorem Frozen.current_step (hfrozen : Frozen s) (h : Shows s e s') {g : GameId} {r : ℕ}
    (hr : s'.db.games.get g = some r) (hpos : 0 < r) : ∃ files, s'.db.frozen.get (g, r) = some files ∧
      ∀ file, file ∈ files ↔ shownAt s'.db.files (g, file.path) = some file := by
  cases h with
  | same games frozen shown =>
    rw [games] at hr
    simpa only [frozen, shown] using hfrozen.current g r hr hpos
  | game g' fresh games frozen shown =>
    rw [games, OrderedMap.get_set] at hr
    split at hr
    · cases hr
      omega
    · simpa only [frozen, shown] using hfrozen.current g r hr hpos
  | save g' plan event base games frozen upserts =>
    rw [games, OrderedMap.get_set] at hr
    split at hr
    case isTrue hg =>
      cases hr
      subst hg
      exact ⟨_, by rw [frozen, OrderedMap.get_set_self], fun file => mem_filesOf⟩
    case isFalse hg =>
      obtain ⟨files, hget, hmem⟩ := hfrozen.current g r hr hpos
      refine ⟨files, by rw [frozen, OrderedMap.get_set_of_ne _ (by simp [hg]), hget], fun file => ?_⟩
      rw [hmem, shownAt, shownAt, saved_other hg upserts]

theorem Frozen.step (hfrozen : Frozen s) (hok : Ok s) (h : Moves s e s') : Frozen s' where
  current _ _ := hfrozen.current_step (hok.shows h)
  bound _ _ _ := hfrozen.bound_step (hok.shows h)
  vouched g p v hv := by
    rcases hok.validated_step h hv with hbefore | ⟨t, _, row, file, _, _, ht, hstatus, hgame, hwork, _⟩
    · exact (hfrozen.vouched g p v hbefore).step hok h
    · exact ⟨t, row, ht, hstatus, hgame, hwork⟩

theorem Verified.step (hfrozen : Frozen s) (hok : Ok s) (h : Moves s e s') {g : GameId} {r : ℕ} (hv : Verified s g r) :
    Verified s' g r := by
  obtain ⟨files, hget, hall⟩ := hv
  exact ⟨files, hfrozen.kept (hok.shows h) hget, fun file hmem hkind => (hall file hmem hkind).step hok h⟩

/-! ### What a publish has read -/

/-- The workspace holds the bytes of this asset. -/
def Held (s : Service) (g : GameId) (file : WorkspaceFile) : Prop :=
  ∃ row, s.db.files.get (g, file.path) = some row ∧ row.committed.kind = .asset ∧ row.committed.versionId = file.versionId

theorem held_of_shown {g : GameId} {file : WorkspaceFile} (hkind : file.kind = .asset)
    (h : shownAt s.db.files (g, file.path) = some file) : Held s g file := by
  obtain ⟨row, hget, hrow⟩ := Option.map_eq_some_iff.mp h
  rw [← hrow] at hkind
  exact ⟨row, hget, hkind, by rw [← hrow]; rfl⟩

theorem Held.of_same {g : GameId} {file : WorkspaceFile} (h : Held s g file)
    (hshown : shownAt s'.db.files (g, file.path) = shownAt s.db.files (g, file.path)) : Held s' g file := by
  obtain ⟨row, hget, hkind, hversion⟩ := h
  rw [shownAt, shownAt, hget, Option.map_some] at hshown
  obtain ⟨row', hget', hrow'⟩ := Option.map_eq_some_iff.mp hshown
  simp only [GameFile.asFile, WorkspaceFile.mk.injEq, true_and] at hrow'
  obtain ⟨hkind', hversion', _⟩ := hrow'
  exact ⟨row', hget', hkind'.trans hkind, hversion'.trans hversion⟩

/-- A save keeps an asset it does not drop. -/
theorem Held.of_kept {g : GameId} {plan : SavePlan} {file : WorkspaceFile} (h : Held s g file)
    (hkept : plan.drops file = false)
    (hfiles : upsertFiles g (deleteFiles g s.db.files plan.deletes) plan.upserts = some s'.db.files) : Held s' g file := by
  simp only [SavePlan.drops, Bool.or_eq_false_iff, decide_eq_false_iff_not, List.any_eq_false, Bool.and_eq_true,
    decide_eq_true_eq, Bool.not_eq_true', Bool.and_eq_false_iff, not_and, not_or, Decidable.not_not] at hkept
  obtain ⟨hdeletes, hupserts⟩ := hkept
  rcases upsertFiles_get hfiles (g, file.path) with ⟨_, hsame⟩ | ⟨upsert, hmem, hk, row, hrow, hkind, hversion, _⟩
  · obtain ⟨row, hget, hrest⟩ := h
    refine ⟨row, ?_, hrest⟩
    rw [hsame, get_deleteFiles, if_neg (by simp [hdeletes]), hget]
  · obtain ⟨hasset, hbytes⟩ := hupserts upsert hmem (Prod.mk.inj hk).2.symm
    exact ⟨_, hrow, hkind.trans hasset, hversion.trans hbytes⟩

/-- An asset held and not unverified has been verified. -/
theorem Frozen.settled_of_held (hfrozen : Frozen s) {g : GameId} {file : WorkspaceFile} (h : Held s g file)
    (hverified : s.db.holdsUnverified g file = false) : SettledFor s g file.path file.versionId := by
  obtain ⟨row, hget, hkind, hversion⟩ := h
  refine hfrozen.vouched g file.path file.versionId ⟨row, hget, ?_⟩
  simpa [Records.holdsUnverified, hget, hkind, hversion] using hverified

/-- An asset a publish has read stays held, or has been verified. -/
theorem Frozen.held_step (hfrozen : Frozen s) (hok : Ok s) (h : Moves s e s') {g : GameId} {file : WorkspaceFile}
    (hheld : Held s g file)
    (hdrop : ∀ plan, e = .save g plan true → s.db.games.get g = some plan.baseRevision → plan.drops file = true →
      s.db.holdsUnverified g file = false) :
    Held s' g file ∨ SettledFor s' g file.path file.versionId := by
  cases hok.shows h with
  | same games frozen shown => exact .inl (hheld.of_same (shown _))
  | game g' fresh games frozen shown => exact .inl (hheld.of_same (shown _))
  | save g' plan event base games frozen upserts =>
    by_cases hg : g = g'
    · subst hg
      cases hkept : plan.drops file with
      | false => exact .inl (hheld.of_kept hkept upserts)
      | true => exact .inr ((hfrozen.settled_of_held hheld (hdrop plan event base hkept)).step hok h)
    · refine .inl (hheld.of_same ?_)
      rw [shownAt, shownAt, saved_other hg upserts]

/-- What the publishes on the service, and the builds asked for, rest on. -/
structure Sound (d : Publishing) : Prop where
  ok : Ok d.service
  frozen : Frozen d.service
  read : ∀ g account r files, Publish.read g account r files ∈ d.publishes →
    (∃ files', d.service.db.frozen.get (g, r) = some files' ∧ ∀ file, file ∈ files' ↔ file ∈ files) ∧
    ∀ file ∈ files, file.kind = .asset → Held d.service g file ∨ SettledFor d.service g file.path file.versionId
  asked : ∀ request at', (request, at') ∈ d.service.queues → request.kind = .BUILD →
    Verified d.service request.gameId request.manifestRevision

theorem Sound.start : Sound Publishing.start where
  ok := Ok.start
  frozen := Frozen.start
  read _ _ _ _ h := by simp [Publishing.start] at h
  asked _ _ h := by simp [Publishing.start, Service.start] at h

/-- The statements of `advanceTask` leave the `queueTask` calls alone. -/
theorem advance_queues (s : Service) (i : ℕ) :
    (s.guard i).queues = s.queues ∧ (s.verdict i).queues = s.queues ∧ (s.commit i).queues = s.queues ∧
      (s.rollback i).queues = s.queues := by
  have honTask : ∀ t f, (s.onTask t f).queues = s.queues := fun t f => (Service.onTask_calls t f).2.2
  refine ⟨?_, ?_, ?_, ?_⟩
  · unfold Service.guard
    repeat' first | rfl | split
  · unfold Service.verdict
    repeat' first | rfl | exact honTask _ _ | split
  · unfold Service.commit
    repeat' first | rfl | split
    exact (Service.onFile_calls _ _).2.2.trans (honTask _ _)
  · unfold Service.rollback
    repeat' first | rfl | exact honTask _ _ | split
    exact (Service.onFile_calls _ _).2.2.trans (honTask _ _)

/-- A `queueTask` call moving on asks for what it asked for. -/
theorem request_of_set {queues : List (QueueTask × Queueing)} {j : ℕ} {request₀ request : QueueTask}
    {at₀ at₁ at' : Queueing} (hcall : queues[j]? = some (request₀, at₀))
    (h : (request, at') ∈ queues.set j (request₀, at₁)) : ∃ at₂, (request, at₂) ∈ queues := by
  rcases List.mem_or_eq_of_mem_set h with hmem | heq
  · exact ⟨at', hmem⟩
  · cases heq
    exact ⟨at₀, List.mem_of_getElem? hcall⟩

/-- No step but the start of a `queueTask` call asks for anything new. -/
theorem requests_step (s : Service) (e : Event) (he : ∀ request, e ≠ .queue request) {request : QueueTask}
    {at' : Queueing} (h : (request, at') ∈ (s.step e).queues) : ∃ at₀, (request, at₀) ∈ s.queues := by
  cases e with
  | createGame game =>
    change _ ∈ (s.createGame game).queues at h
    unfold Service.createGame at h
    split at h <;> exact ⟨_, h⟩
  | save game plan freeze =>
    change _ ∈ (s.save game plan freeze).queues at h
    unfold Service.save at h
    split at h <;> exact ⟨_, h⟩
  | advance task update now =>
    change _ ∈ (s.advance task update now).queues at h
    unfold Service.advance at h
    split at h
    · exact ⟨_, h⟩
    · split at h <;> exact ⟨_, h⟩
  | guard i => exact ⟨_, (advance_queues s i).1 ▸ h⟩
  | verdict i => exact ⟨_, (advance_queues s i).2.1 ▸ h⟩
  | commit i => exact ⟨_, (advance_queues s i).2.2.1 ▸ h⟩
  | rollback i => exact ⟨_, (advance_queues s i).2.2.2 ▸ h⟩
  | queue request => exact absurd rfl (he request)
  | find j =>
    change _ ∈ (s.find j).queues at h
    unfold Service.find at h
    split at h
    case h_2 => exact ⟨_, h⟩
    case h_1 hcall => split at h <;> exact request_of_set hcall h
  | again j =>
    change _ ∈ (s.again j).queues at h
    unfold Service.again at h
    split at h
    case h_2 => exact ⟨_, h⟩
    case h_1 hcall => split at h <;> exact request_of_set hcall h
  | create j =>
    change _ ∈ (s.create j).queues at h
    unfold Service.create at h
    split at h
    case h_2 => exact ⟨_, h⟩
    case h_1 request₀ hcall =>
      split at h
      case isFalse => exact request_of_set hcall h
      case isTrue =>
        cases hgame : s.db.games.get request₀.gameId with
        | none =>
          simp only [hgame] at h
          exact request_of_set hcall h
        | some revision =>
          simp only [hgame] at h
          split at h
          · exact ⟨_, h⟩
          · split at h <;> exact request_of_set hcall h

/-- The step of the service under the publishes. -/
theorem Sound.service_step {d : Publishing} (hd : Sound d) {e : Event} (hcond : Undropped d (.other e))
    (he : ∀ request, e ≠ .queue request) : Sound { d with service := d.service.step e } where
  ok := hd.ok.step e
  frozen := hd.frozen.step hd.ok (d.service.step_moves e)
  read g account r files hmem := by
    have hmoves := d.service.step_moves e
    obtain ⟨⟨files', hget, hfiles⟩, hall⟩ := hd.read g account r files hmem
    refine ⟨⟨files', hd.frozen.kept (hd.ok.shows hmoves) hget, hfiles⟩, fun file hfile hkind => ?_⟩
    rcases hall file hfile hkind with hheld | hsettled
    · refine hd.frozen.held_step hd.ok hmoves hheld ?_
      rintro plan rfl hbase hdrop
      exact hcond hbase rfl _ hmem rfl file hfile hkind hdrop
    · exact .inr (hsettled.step hd.ok hmoves)
  asked request at' hmem hkind := by
    obtain ⟨at₀, hbefore⟩ := requests_step d.service e he hmem
    exact (hd.asked request at₀ hbefore hkind).step hd.frozen hd.ok (d.service.step_moves e)

/-- The first read finds the file set its revision froze. -/
theorem Sound.publish_step {d : Publishing} (hd : Sound d) (game : GameId) (account : PlayerId) :
    Sound (d.publish game account) := by
  have hrefused : ∀ status message, Sound { d with publishes := d.publishes ++ [.refused status message] } := by
    intro status message
    refine ⟨hd.ok, hd.frozen, fun g a r files hmem => hd.read g a r files ?_, hd.asked⟩
    simpa using hmem
  unfold Publishing.publish Records.workspaceOf
  cases hgame : d.service.db.games.get game with
  | none => exact hrefused _ _
  | some revision =>
    simp only [Option.map_some]
    split
    · exact hrefused _ _
    case isFalse hzero =>
      refine ⟨hd.ok, hd.frozen, fun g a r files hmem => ?_, hd.asked⟩
      rw [List.mem_append, List.mem_singleton] at hmem
      rcases hmem with hmem | hmem
      · exact hd.read g a r files hmem
      · cases hmem
        obtain ⟨files', hget, hfiles⟩ := hd.frozen.current game revision hgame (Nat.pos_of_ne_zero hzero)
        exact ⟨⟨files', hget, fun file => (hfiles file).trans mem_filesOf.symm⟩,
          fun file hfile hkind => .inl (held_of_shown hkind (mem_filesOf.mp hfile))⟩

/-- The second read lets a build through only when the revision read first is verified. -/
theorem Sound.verdicts_step {d : Publishing} (hd : Sound d) (i : ℕ) : Sound (d.verdicts i) := by
  have hsub : ∀ {p : Publish} {g account r files}, Publish.read g account r files ∈ d.publishes.set i p →
      (∀ g account r files, p ≠ .read g account r files) → Publish.read g account r files ∈ d.publishes := by
    intro p g account r files hmem hp
    rcases List.mem_or_eq_of_mem_set hmem with hmem | heq
    · exact hmem
    · exact absurd heq.symm (hp g account r files)
  unfold Publishing.verdicts
  split
  case h_2 => exact hd
  case h_1 game account revision files hpublish =>
    simp only
    split
    · exact ⟨hd.ok, hd.frozen, fun g a r f hmem => hd.read g a r f (hsub hmem (by simp)), hd.asked⟩
    case isFalse hnone =>
      have hmoves := d.service.step_moves (.queue ⟨game, account, .BUILD, revision⟩)
      obtain ⟨⟨files', hget, hfiles⟩, hall⟩ :=
        hd.read game account revision files (List.mem_of_getElem? hpublish)
      refine ⟨hd.ok.step (.queue ⟨game, account, .BUILD, revision⟩), hd.frozen.step hd.ok hmoves, fun g a r f hmem => hd.read g a r f (hsub hmem (by simp)), ?_⟩
      intro request at' hmem hkind
      rcases List.mem_append.mp hmem with hmem | hmem
      · exact hd.asked request at' hmem hkind
      · cases List.mem_singleton.mp hmem
        refine ⟨files', hget, fun file hfile hasset => ?_⟩
        rcases hall file ((hfiles file).mp hfile) hasset with ⟨row, hrow, hkind', hversion⟩ | hsettled
        · have hvalid := Records.validated_of_unvalidatedAssets (by decide) (Decidable.not_not.mp hnone) hrow hkind'
          exact hd.frozen.vouched _ _ _ ⟨row, hrow, by rw [hvalid, hversion]⟩
        · exact hsettled

theorem Sound.step {d : Publishing} (hd : Sound d) (e : Publishing.Step) (hcond : Undropped d e) : Sound (d.step e) := by
  cases e with
  | publish game account => exact hd.publish_step game account
  | verdicts i => exact hd.verdicts_step i
  | other e =>
    cases e with
    | queue request => exact hd
    | createGame | save => exact hd.service_step hcond nofun
    | advance | guard | verdict | commit | rollback | find | create | again => exact hd.service_step hcond nofun

/-! ### Runs -/

/-- Every step is one of the service's, or leaves it alone. -/
theorem Publishing.service_step (d : Publishing) (e : Publishing.Step) :
    (d.step e).service = d.service ∨ ∃ e', (d.step e).service = d.service.step e' := by
  cases e with
  | publish game account =>
    left
    change (d.publish game account).service = d.service
    unfold Publishing.publish
    split
    · rfl
    · split <;> rfl
  | verdicts i =>
    change (d.verdicts i).service = d.service ∨ ∃ e', (d.verdicts i).service = d.service.step e'
    unfold Publishing.verdicts
    split
    case h_2 => exact .inl rfl
    case h_1 =>
      simp only
      split
      · exact .inl rfl
      · exact .inr ⟨.queue _, rfl⟩
  | other e =>
    cases e with
    | queue request => exact .inl rfl
    | createGame game => exact .inr ⟨.createGame game, rfl⟩
    | save game plan freeze => exact .inr ⟨.save game plan freeze, rfl⟩
    | advance task update now => exact .inr ⟨.advance task update now, rfl⟩
    | guard j => exact .inr ⟨.guard j, rfl⟩
    | verdict j => exact .inr ⟨.verdict j, rfl⟩
    | commit j => exact .inr ⟨.commit j, rfl⟩
    | rollback j => exact .inr ⟨.rollback j, rfl⟩
    | find j => exact .inr ⟨.find j, rfl⟩
    | create j => exact .inr ⟨.create j, rfl⟩
    | again j => exact .inr ⟨.again j, rfl⟩

/-- What every step of the service keeps, a run of publishes keeps. -/
theorem Publishing.run_keeps {Inv : Service → Prop} (hInv : ∀ s e, Inv s → Inv (s.step e)) {d : Publishing}
    (hd : Inv d.service) (es : List Publishing.Step) : Inv (exec Publishing.step d es).service := by
  have hstep : ∀ (d : Publishing) e, Inv d.service → Inv (d.step e).service := by
    intro d e h
    obtain hsame | ⟨e', hstep⟩ := d.service_step e
    · rw [hsame]
      exact h
    · rw [hstep]
      exact hInv _ e' h
  exact exec_invariant hstep hd es

/-- A task keeps its game, its work and its revision along a run. -/
theorem pinned_run {d : Publishing} (hok : Ok d.service) {t : ℕ} {row : Versioned TaskRow}
    (ht : d.service.db.tasks[t]? = some row) (es : List Publishing.Step) :
    ∃ row', (exec Publishing.step d es).service.db.tasks[t]? = some row' ∧
      row'.committed.pinned = row.committed.pinned := by
  have hstep : ∀ (s : Service) e,
      (Ok s ∧ ∃ row', s.db.tasks[t]? = some row' ∧ row'.committed.pinned = row.committed.pinned) →
      Ok (s.step e) ∧ ∃ row', (s.step e).db.tasks[t]? = some row' ∧
        row'.committed.pinned = row.committed.pinned := by
    rintro s e ⟨hs, row₁, ht₁, hpinned⟩
    obtain ⟨row₂, ht₂, hsame, _⟩ := hs.pinned_step (s.step_moves e) ht₁
    exact ⟨hs.step e, row₂, ht₂, hsame.trans hpinned⟩
  exact (Publishing.run_keeps hstep ⟨hok, row, ht, rfl⟩ es).2

/-- **Published builds hold only verified assets**, along every run whose landed saves drop no
unverified asset out from under a publish. -/
theorem publish_verified (es : List Publishing.Step) (h : Meets Publishing.step Undropped .start es) :
    BuildsVerified es := by
  intro t row ht hbuild
  obtain ⟨hlt, _⟩ := List.getElem?_eq_some_iff.mp ht
  obtain ⟨pre, e, post, rfl, hpre, hpost⟩ := exec_becomes (s := Publishing.start)
    (fun d => t < d.service.db.tasks.length) (by simp [Publishing.start, Service.start])
    (show t < (exec Publishing.step _ es).service.db.tasks.length from hlt)
  refine ⟨pre, e, post, rfl, Nat.le_of_not_lt hpre, hpost, ?_⟩
  obtain ⟨hmeets, hcond, _⟩ := Meets.append.mp h
  have hsound : Sound (Publishing.run pre) := Meets.invariant (fun _ e hd hc => hd.step e hc) Sound.start hmeets
  have hlast : exec Publishing.step .start (pre ++ [e]) = (Publishing.run pre).step e := exec_append ..
  rw [hlast] at hpost
  obtain ⟨row₁, ht₁⟩ : ∃ row₁, ((Publishing.run pre).step e).service.db.tasks[t]? = some row₁ :=
    ⟨_, List.getElem?_eq_getElem hpost⟩
  -- the row at the end is the one this step inserts
  obtain ⟨row₂, ht₂, hpinned⟩ := pinned_run (hsound.step e hcond).ok ht₁ post
  rw [Publishing.run, exec_append, exec_cons] at ht
  obtain rfl : row = row₂ := Option.some.inj (ht.symm.trans ht₂)
  simp only [TaskRow.pinned, Prod.mk.injEq] at hpinned
  obtain ⟨hgame, hwork, hrevision⟩ := hpinned
  rw [hgame, hrevision]
  rcases (Publishing.run pre).service_step e with hsame | ⟨e', hstep⟩
  · rw [hsame] at hpost
    exact absurd hpost hpre
  · rw [hstep] at ht₁
    cases ((Publishing.run pre).service.step_moves e').task ht₁ with
    | stays row₀ old _ _ _ => exact absurd (List.getElem?_eq_some_iff.mp old).1 hpre
    | commits row₀ i next old _ _ _ => exact absurd (List.getElem?_eq_some_iff.mp old).1 hpre
    | inserts new hnew _ _ _ _ build =>
      rw [hnew] at hwork ⊢
      obtain ⟨j, request, hcall, hkind, hgame', hrevision'⟩ := build (hwork.symm.trans hbuild)
      change Verified _ new.gameId new.manifestRevision
      rw [← hgame', ← hrevision']
      exact hsound.asked request .creating (List.mem_of_getElem? hcall) hkind

theorem Verified.run {d : Publishing} (hok : Ok d.service) (hfrozen : Frozen d.service) {g : GameId} {r : ℕ}
    (hv : Verified d.service g r) (es : List Publishing.Step) :
    Verified (exec Publishing.step d es).service g r := by
  have hstep : ∀ (s : Service) e, Ok s ∧ Frozen s ∧ Verified s g r →
      Ok (s.step e) ∧ Frozen (s.step e) ∧ Verified (s.step e) g r := by
    rintro s e ⟨hs, hf, hv⟩
    exact ⟨hs.step e, hf.step hs (s.step_moves e), hv.step hf hs (s.step_moves e)⟩
  exact (Publishing.run_keeps hstep ⟨hok, hfrozen, hv⟩ es).2.2

/-! ### The save between the two reads -/

/-- A save of one new asset. -/
def addAsset : SavePlan := ⟨0, "ada", [⟨"art/hero.png", .asset, "v1", 4, "image/png"⟩], [], by decide⟩

/-- The save that deletes it again. -/
def dropAsset : SavePlan := ⟨1, "ada", [], ["art/hero.png"], by decide⟩

/-- A publish reads revision one, the asset is deleted, and the publish reads the verdicts. -/
def droppedBetween : List Publishing.Step :=
  [.other (.createGame "game"), .other (.save "game" addAsset true), .publish "game" "ada",
    .other (.save "game" dropAsset true), .verdicts 0, .other (.find 0), .other (.create 0)]

/-- The build of revision one is queued, with the upload of its asset not started. -/
theorem publish_unverified : ¬ ∀ es, BuildsVerified es := by
  intro h
  obtain ⟨pre, e, post, hes, _, _, hv⟩ := h droppedBetween 1
    (.fresh (.queued "game" "ada" .BUILD 1 (by decide))) (by decide) rfl
  have hok : Ok (Publishing.run pre).service := Publishing.run_keeps (fun _ e h => h.step e) Ok.start pre
  have hstep : ∀ (s : Service) e, Ok s ∧ Frozen s → Ok (s.step e) ∧ Frozen (s.step e) :=
    fun s e h => ⟨h.1.step e, h.2.step h.1 (s.step_moves e)⟩
  have hfrozen : Frozen (Publishing.run pre).service := (Publishing.run_keeps hstep ⟨Ok.start, Frozen.start⟩ pre).2
  have hfinal := hv.run hok hfrozen (e :: post)
  rw [Publishing.run, ← exec_append, ← hes] at hfinal
  obtain ⟨files, hget, hall⟩ := hfinal
  have hfiles : (Publishing.run droppedBetween).service.db.frozen.get ("game", 1) =
      some [⟨"art/hero.png", .asset, "v1", 4, "image/png"⟩] := by decide
  obtain rfl := Option.some.inj (hget.symm.trans hfiles)
  obtain ⟨t, row, ht, hstatus, _⟩ := hall _ (List.mem_singleton.mpr rfl) rfl
  have hnone : ∀ row ∈ (Publishing.run droppedBetween).service.db.tasks, row.committed.status ≠ .SUCCESSFUL := by
    decide
  exact hnone row (List.mem_of_getElem? ht) hstatus

/-- A publish that reads both before the asset is touched again, with its upload settled. -/
def settledFirst : List Publishing.Step :=
  [.other (.createGame "game"), .other (.save "game" addAsset true),
    .other (.advance 0 ⟨.SUCCESSFUL, none, by decide⟩ 5), .other (.guard 0), .other (.verdict 0), .other (.commit 0),
    .publish "game" "ada", .verdicts 0, .other (.find 0), .other (.create 0)]

theorem publish_verified_settled : BuildsVerified settledFirst :=
  publish_verified settledFirst (by
    refine ⟨trivial, ?_, trivial, trivial, trivial, trivial, trivial, trivial, trivial, trivial, trivial⟩
    intro _ _ p hp
    simp [Publishing.step, Publishing.start] at hp)

example : (Publishing.run settledFirst).service.db.tasks[1]?.map (·.committed.work) = some .BUILD := by decide

end Grove.Api
