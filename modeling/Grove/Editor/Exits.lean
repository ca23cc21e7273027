import Grove.Editor.Saving

/-! # A tab that goes away and comes back

`useWorkspace` waits for one save at a time, and `useAutosave` fires another on the way out, which
nobody waits for: `flush` sends `exitSaveOf` whenever the tab is hidden with something pending.  A save
whose answer never comes is given up on, wherever its request has got to.  The service takes a save that
is based on the revision it holds, and answers any other with a conflict, on which the tab reloads.

In a run in which a save reaches the service only when the tab had been answered every save that landed
before, as it sent this one (`Current`), there is no conflict and nothing typed is lost; in any other run
there is a conflict (`typed_work_is_kept`). -/

namespace Grove
namespace Editor

/-- The save a closing tab sends: its text and its deletes, and none of its assets. -/
def exitSaveOf (baseRevision : ℕ) (drafts : OrderedMap String DraftFile) (pending : Pending) : WorkspaceSave :=
  { (saveOf baseRevision drafts pending).1 with assets := [] }

/-- Where a request has got to. -/
inductive Travel where
  | onWay
  | landed (workspace : Workspace)
  | stale
  | lost
deriving DecidableEq

/-- A save that was sent, with the state it was sent from. -/
structure Request where
  baseRevision : ℕ
  sent : Pending
  drafts : OrderedMap String DraftFile
  /-- Fired on the way out, and not waited on. -/
  exit : Bool
  /-- The saves whose answers the tab had when it sent this one. -/
  heard : List ℕ
  travel : Travel
deriving DecidableEq

namespace Request

def save (r : Request) : WorkspaceSave :=
  if r.exit = true then exitSaveOf r.baseRevision r.drafts r.sent else (saveOf r.baseRevision r.drafts r.sent).1

def uploads (r : Request) : List AssetUpload :=
  if r.exit = true then [] else (saveOf r.baseRevision r.drafts r.sent).2

end Request

/-- What the tab waits for: nothing, the answer to a request, or the files of a reload. -/
inductive Saving where
  | idle
  | sent (request : ℕ)
  | reloading
deriving DecidableEq

/-- One tab, the service, and every request between them, numbered as they were sent. -/
structure Session where
  state : WorkspaceState
  service : GameFiles
  requests : List Request
  saving : Saving
  /-- The saves the service took, in order. -/
  landings : List ℕ
  /-- The saves the tab has the answers of. -/
  heard : List ℕ
  conflicts : ℕ
  reloads : ℕ
  /-- The drafts as the creator's actions alone leave them. -/
  typed : OrderedMap String DraftFile
deriving DecidableEq

/-- The creator's actions, a save asked for, the tab hidden, a request reaching the service or lost on
the way, the answer to the save waited for, or its failure, and a reload's files. -/
inductive Event where
  | edit (path text : String)
  | project (project : ProjectManifest)
  | add (path : String)
  | importFile (path : String) (draft : DraftFile)
  | remove (path : String)
  | save
  | hide
  | arrive (request : ℕ)
  | lose (request : ℕ)
  | answer
  | fail
  | reloaded (project : ProjectManifest)
deriving DecidableEq

namespace Session

def dispatch (s : Session) (action : WorkspaceAction) : Session :=
  { s with
    state := workspaceReducer s.state action
    typed := (workspaceReducer { s.state with files := s.typed } action).files }

def request (s : Session) (exit : Bool) : Request :=
  ⟨s.state.revision, s.state.pending, s.state.files, exit, s.heard, .onWay⟩

/-- A save asked for while another is waited for is owed, which is one asked for once that has settled. -/
def save (s : Session) : Session :=
  if isPending s.state.pending = true ∧ s.saving = .idle then
    { s with requests := s.requests ++ [s.request false], saving := .sent s.requests.length }
  else s

/-- `flushIfOwed`: the exit save goes whatever is being waited for. -/
def hide (s : Session) : Session :=
  if isPending s.state.pending = true then { s with requests := s.requests ++ [s.request true] } else s

def mark (requests : List Request) (i : ℕ) (travel : Travel) : List Request :=
  requests.modify i fun r => { r with travel }

/-- The service takes a request, from which point on its revision is the next one. -/
def land (s : Session) (i : ℕ) (r : Request) : Session :=
  { s with
    service := s.service.save r.save r.uploads
    requests := mark s.requests i (.landed (s.service.save r.save r.uploads).workspace)
    landings := s.landings ++ [i] }

/-- A request gets as far as claiming the revision.  One that is refused before that, for its size or for
an asset that is not there, is lost. -/
def arrive (s : Session) (i : ℕ) : Session :=
  match s.requests[i]? with
  | some r =>
    if r.travel = .onWay then
      if r.baseRevision = s.service.revision then s.land i r
      else { s with requests := mark s.requests i .stale, conflicts := s.conflicts + 1 }
    else s
  | none => s

def lose (s : Session) (i : ℕ) : Session :=
  match s.requests[i]? with
  | some r => if r.travel = .onWay then { s with requests := mark s.requests i .lost } else s
  | none => s

/-- The answer to the save waited for: the workspace it left, or a conflict. -/
def answer (s : Session) : Session :=
  match s.saving with
  | .sent i =>
    match s.requests[i]? with
    | some r =>
      match r.travel with
      | .landed workspace =>
        { s with
          state := workspaceReducer s.state (.saved workspace r.sent r.drafts)
          saving := .idle
          heard := s.heard ++ [i] }
      | .stale => { s with saving := .reloading }
      | .onWay | .lost => s
    | none => s
  | .idle | .reloading => s

/-- The files the service holds replace what is on the screen; the manifest is one of them, or is made
anew for a game that has none. -/
def reload (s : Session) (project : ProjectManifest) : Session :=
  if s.saving = .reloading then
    { s with
      state := workspaceReducer s.state (.reloaded s.service.revision s.service.workspace.files
        (s.service.files.map fun _ => StoredFile.draft) project)
      saving := .idle
      reloads := s.reloads + 1 }
  else s

def step (s : Session) : Event → Session
  | .edit path text => s.dispatch (.edit path text)
  | .project project => s.dispatch (.project project)
  | .add path => s.dispatch (.add path)
  | .importFile path draft => s.dispatch (.importFile path { draft with stamp := s.state.made })
  | .remove path => s.dispatch (.remove path)
  | .save => s.save
  | .hide => s.hide
  | .arrive i => s.arrive i
  | .lose i => s.lose i
  | .answer => s.answer
  | .fail => { s with saving := .idle }
  | .reloaded project => s.reload project

/-- A tab that has just opened a game. -/
def opening (held : GameFiles) (template : OrderedMap String String) (project : ProjectManifest) : Session where
  state := initialWorkspace (openGame held template project)
  service := held
  requests := []
  saving := .idle
  landings := []
  heard := []
  conflicts := 0
  reloads := 0
  typed := (openGame held template project).files

/-- No save was answered with a conflict, nothing was reloaded, and every draft is on the service, on its
way there, or pending in the tab. -/
structure Kept (s : Session) : Prop where
  conflicts : s.conflicts = 0
  reloads : s.reloads = 0
  typed : ∀ p draft, s.typed.get p = some draft →
    s.service.files.get p = some draft.stored ∨
      (∃ r ∈ s.requests, r.travel = .onWay ∧ p ∈ r.sent.upserted ∧ r.drafts.get p = some draft) ∨
      (p ∈ s.state.pending.upserted ∧ s.state.files.get p = some draft)

/-- A request reaches the service only if the tab, as it sent this one, had been answered every save that
has landed. -/
def Current (s : Session) : Event → Prop
  | .arrive i => ∀ r, s.requests[i]? = some r → r.travel = .onWay → ∀ j ∈ s.landings, j ∈ r.heard
  | _ => True

end Session

/-! ### What a save does at one path -/

namespace Request

variable {r : Request} {held : GameFiles} {p : String}

@[simp] theorem save_baseRevision : r.save.baseRevision = r.baseRevision := by
  unfold save
  split_ifs
  · rfl
  · rfl

/-- A save leaves what it neither writes nor deletes. -/
theorem get_save_of_not_sent (hupserted : p ∉ r.sent.upserted) (hremoved : p ∉ r.sent.removed) :
    (held.save r.save r.uploads).files.get p = held.files.get p := by
  by_cases hexit : r.exit = true
  · have hnot : ∀ file, (p, file) ∉ (saveOf r.baseRevision r.drafts r.sent).1.sources.map SourceUpsert.entry := by
      intro file hmem
      exact hupserted (mem_written_iff.mp (List.mem_append_left _ hmem)).1
    have hfiles : (held.save r.save r.uploads).files =
        (held.files.filter fun path _ => path ∉ r.sent.removed).setAll
          ((saveOf r.baseRevision r.drafts r.sent).1.sources.map SourceUpsert.entry) := by
      rw [save, uploads, if_pos hexit, if_pos hexit]
      rfl
    rw [hfiles, OrderedMap.get_setAll_of_notMem _ hnot, OrderedMap.get_filter]
    cases held.files.get p with
    | none => rfl
    | some file => simp only [Option.filter_some, hremoved, not_false_eq_true, decide_true, if_true]
  · rw [save, uploads, if_neg hexit, if_neg hexit, get_save_of_none fun h => absurd h hupserted, if_neg hremoved]

/-- A save that is waited for writes every draft it was sent with. -/
theorem get_save_of_sent (hexit : r.exit = false) (hupserted : p ∈ r.sent.upserted) {draft : DraftFile}
    (hdraft : r.drafts.get p = some draft) : (held.save r.save r.uploads).files.get p = some draft.stored := by
  have hnot : ¬ r.exit = true := Bool.eq_false_iff.mp hexit
  rw [save, uploads, if_neg hnot, if_neg hnot, get_save_of_mem hupserted]
  rw [hdraft, Option.map_some]

end Request

/-! ### What the creator does -/

/-- What one of the creator's actions does to the drafts and to what is owed. -/
structure Creates (state state' : WorkspaceState) : Prop where
  revision : state'.revision = state.revision
  made : state.made ≤ state'.made
  held : ∀ p draft, state'.files.get p = some draft →
    state.files.get p = some draft ∨
      draft.stamp = state.made ∧ state.made < state'.made ∧ p ∈ state'.pending.upserted
  pending : ∀ p, state'.files.get p ≠ none → p ∈ state.pending.upserted → p ∈ state'.pending.upserted
  gone : ∀ p ∈ state'.pending.removed, (p ∈ state.pending.removed → state.files.get p = none) → state'.files.get p = none

section
variable {state : WorkspaceState} {path : String}

/-- The three actions that set a draft set a new object. -/
theorem creates_set {files : OrderedMap String DraftFile} {project : ProjectManifest} {draft : DraftFile}
    (hfiles : ∀ p, p ≠ path → files.get p = state.files.get p) (hnew : draft.stamp = state.made) :
    Creates state { state with
      files := files.set path draft
      project := project
      pending := touched state.pending path
      made := state.made + 1 } where
  revision := rfl
  made := Nat.le_succ _
  held := by
    intro p draft' hdraft'
    change (files.set path draft).get p = some draft' at hdraft'
    by_cases hp : p = path
    · rw [hp, OrderedMap.get_set_self] at hdraft'
      obtain rfl := Option.some.inj hdraft'
      exact Or.inr ⟨hnew, Nat.lt_succ_self _, mem_touched_upserted.mpr (Or.inr hp)⟩
    · rw [OrderedMap.get_set_of_ne _ hp, hfiles p hp] at hdraft'
      exact Or.inl hdraft'
  pending := fun _ _ hp => mem_touched_upserted.mpr (Or.inl hp)
  gone := by
    intro p hp hgone
    obtain ⟨hremoved, hne⟩ := mem_touched_removed.mp hp
    exact (OrderedMap.get_set_of_ne _ hne _).trans ((hfiles p hne).trans (hgone hremoved))

theorem creates_edit (text : String) : Creates state (workspaceReducer state (.edit path text)) where
  revision := rfl
  made := Nat.le_succ _
  held := by
    intro p draft hdraft
    change (state.files.map _).get p = some draft at hdraft
    rw [OrderedMap.get_map, Option.map_eq_some_iff] at hdraft
    obtain ⟨file, hfile, rfl⟩ := hdraft
    by_cases hp : p = path
    · rw [if_pos hp]
      cases hcontent : file.content with
      | text old =>
        right
        refine ⟨?_, Nat.lt_succ_self _, mem_touched_upserted.mpr (Or.inr hp)⟩
        simp only [DraftFile.retyped, hcontent]
      | bytes bytes =>
        have hsame : file.retyped state.made text = file := by simp only [DraftFile.retyped, hcontent]
        rw [hsame]
        exact Or.inl hfile
    · rw [if_neg hp]
      exact Or.inl hfile
  pending := fun _ _ hp => mem_touched_upserted.mpr (Or.inl hp)
  gone := by
    intro p hp hgone
    obtain ⟨hremoved, -⟩ := mem_touched_removed.mp hp
    change (state.files.map _).get p = none
    rw [OrderedMap.get_map, hgone hremoved, Option.map_none]

theorem creates_add : Creates state (workspaceReducer state (.add path)) := by
  by_cases h : path = "" ∨ state.files.has path = true
  · have hsame : workspaceReducer state (.add path) = state := if_pos h
    rw [hsame]
    exact ⟨rfl, le_rfl, fun _ _ hdraft => Or.inl hdraft, fun _ _ hp => hp, fun _ hp hgone => hgone hp⟩
  · have hset : workspaceReducer state (.add path) = { state with
        files := state.files.set path (draftFromText state.made path "")
        pending := touched state.pending path
        made := state.made + 1 } := if_neg h
    rw [hset]
    exact creates_set (fun _ _ => rfl) rfl

theorem creates_remove : Creates state (workspaceReducer state (.remove path)) where
  revision := rfl
  made := le_rfl
  held := by
    intro p draft hdraft
    change (state.files.delete path).get p = some draft at hdraft
    rw [OrderedMap.get_delete] at hdraft
    split_ifs at hdraft
    exact Or.inl hdraft
  pending := by
    intro p hfile hp
    refine mem_dropped_upserted.mpr ⟨hp, fun heq => hfile ?_⟩
    rw [heq]
    exact OrderedMap.get_delete_self _ _
  gone := by
    intro p hp hgone
    change (state.files.delete path).get p = none
    rw [OrderedMap.get_delete]
    split_ifs with heq
    · rfl
    · obtain hremoved | ⟨-, heq'⟩ := mem_dropped_removed.mp hp
      · exact hgone hremoved
      · exact absurd heq' heq

end

namespace Session

variable {base : ℕ} {s : Session}

theorem getElem?_mark (requests : List Request) (i j : ℕ) (travel : Travel) :
    (mark requests i travel)[j]? = requests[j]?.map fun r => { r with travel := if i = j then travel else r.travel } := by
  rw [mark, List.getElem?_modify]
  split_ifs with h
  · rfl
  · simp only [Option.map_eq_map, Option.map_id']

/-! ### The order of the answers -/

/-- In a run with no conflict: every revision counts the saves it is of, and the tab is at most one answer
behind the service. -/
structure Ordered (base : ℕ) (s : Session) : Prop where
  served : s.service.revision = base + s.landings.length
  known : s.state.revision = base + s.heard.length
  based : ∀ (i : ℕ) (r : Request), s.requests[i]? = some r → r.baseRevision = base + r.heard.length
  earlier : ∀ (i : ℕ) (r : Request), s.requests[i]? = some r → r.heard <+: s.heard
  heard : s.heard <+: s.landings
  behind : s.landings.length ≤ s.heard.length + 1
  nodup : s.landings.Nodup
  sent : ∀ i ∈ s.landings, i < s.requests.length
  onWay : ∀ (i : ℕ) (r : Request), s.requests[i]? = some r → r.travel = .onWay → i ∉ s.landings
  landed : ∀ (i : ℕ) (r : Request) (workspace : Workspace), s.requests[i]? = some r →
    r.travel = .landed workspace → i ∈ s.landings ∧ (i ∉ s.heard → workspace = s.service.workspace)
  current : ∀ (i : ℕ) (r : Request), s.requests[i]? = some r → r.travel ≠ .stale
  waits : ∀ i, s.saving = .sent i → i ∉ s.heard ∧ ∃ r, s.requests[i]? = some r ∧ r.exit = false
  calm : s.saving ≠ .reloading

/-- A request the tab had every answer for as it sent it was sent after the last landing. -/
theorem Ordered.heard_of_current (h : s.Ordered base) {i : ℕ} {r : Request} (hr : s.requests[i]? = some r)
    (hcurrent : ∀ j ∈ s.landings, j ∈ r.heard) : r.heard = s.heard ∧ s.heard = s.landings := by
  have hearlier := h.earlier i r hr
  have hlength : s.landings.length ≤ r.heard.length := (h.nodup.subperm hcurrent).length_le
  have hheard : s.heard = s.landings := h.heard.eq_of_length (le_antisymm h.heard.length_le (hlength.trans hearlier.length_le))
  exact ⟨hearlier.eq_of_length (le_antisymm hearlier.length_le (by rw [hheard]; exact hlength)), hheard⟩

/-- The service holds the revision a request is based on exactly when the request is current. -/
theorem Ordered.based_iff (h : s.Ordered base) {i : ℕ} {r : Request} (hr : s.requests[i]? = some r) :
    r.baseRevision = s.service.revision ↔ ∀ j ∈ s.landings, j ∈ r.heard := by
  have hsofar : r.heard <+: s.landings := (h.earlier i r hr).trans h.heard
  rw [h.based i r hr, h.served]
  constructor
  · intro hlength j hj
    rw [hsofar.eq_of_length (Nat.add_left_cancel hlength)]
    exact hj
  · intro hcurrent
    obtain ⟨hr', hheard⟩ := h.heard_of_current hr hcurrent
    rw [hr', hheard]

/-- An answer waited for is that of the last landing. -/
theorem Ordered.landings_of_waits (h : s.Ordered base) {i : ℕ} (hheard : i ∉ s.heard) (hlanded : i ∈ s.landings) :
    s.landings = s.heard ++ [i] := by
  obtain ⟨rest, hrest⟩ := h.heard
  rw [← hrest, List.mem_append] at hlanded
  have hi := hlanded.resolve_left hheard
  have hbehind := h.behind
  rw [← hrest, List.length_append] at hbehind
  obtain ⟨j, rfl⟩ : ∃ j, rest = [j] := List.length_eq_one_iff.mp (by
    have hpos := List.length_pos_of_mem hi
    omega)
  rw [← hrest, List.mem_singleton.mp hi]

/-! ### Where the drafts are -/

/-- What is known of a request: a path it is about that is held now is pending if nothing was answered since,
and an object it carries is one the tab made. -/
structure Sent (s : Session) (r : Request) : Prop where
  since : r.heard = s.heard → ∀ p, p ∈ r.sent.upserted ∨ p ∈ r.sent.removed → s.state.files.get p ≠ none →
    p ∈ s.state.pending.upserted
  older : ∀ p draft, r.drafts.get p = some draft → draft.stamp < s.state.made
  same : ∀ p draft draft', s.state.files.get p = some draft → r.drafts.get p = some draft' →
    draft.stamp = draft'.stamp → draft = draft'

/-- Every draft is pending or is what the service holds. -/
structure Holds (s : Session) : Prop where
  conflicts : s.conflicts = 0
  reloads : s.reloads = 0
  typed : s.typed = s.state.files
  kept : ∀ p draft, s.state.files.get p = some draft →
    s.service.files.get p = some draft.stored ∨ p ∈ s.state.pending.upserted
  gone : ∀ p ∈ s.state.pending.removed, s.state.files.get p = none
  older : ∀ p draft, s.state.files.get p = some draft → draft.stamp < s.state.made
  sent : ∀ (i : ℕ) (r : Request), s.requests[i]? = some r → s.Sent r
  written : ∀ (i : ℕ) (r : Request) (workspace : Workspace), s.requests[i]? = some r → r.travel = .landed workspace →
    i ∉ s.heard → r.exit = false → ∀ p ∈ r.sent.upserted, ∀ draft, r.drafts.get p = some draft →
      s.service.files.get p = some draft.stored

/-! ### The creator's actions -/

theorem Ordered.creates (h : s.Ordered base) {action : WorkspaceAction}
    (hcreates : Creates s.state (workspaceReducer s.state action)) : (s.dispatch action).Ordered base :=
  { h with known := hcreates.revision.trans h.known }

theorem Holds.creates (h : s.Holds) {action : WorkspaceAction}
    (hcreates : Creates s.state (workspaceReducer s.state action)) : (s.dispatch action).Holds where
  conflicts := h.conflicts
  reloads := h.reloads
  typed := by
    show (workspaceReducer { s.state with files := s.typed } action).files = _
    rw [h.typed]
    rfl
  kept := by
    intro p draft hdraft
    obtain hheld | ⟨-, -, hpending⟩ := hcreates.held p draft hdraft
    · obtain hserved | hpending := h.kept p draft hheld
      · exact Or.inl hserved
      · refine Or.inr (hcreates.pending p ?_ hpending)
        rw [show (workspaceReducer s.state action).files.get p = some draft from hdraft]
        exact Option.some_ne_none _
    · exact Or.inr hpending
  gone := fun p hp => hcreates.gone p hp (h.gone p)
  older := by
    intro p draft hdraft
    obtain hheld | ⟨hnew, hmade, -⟩ := hcreates.held p draft hdraft
    · exact (h.older p draft hheld).trans_le hcreates.made
    · exact hnew.trans_lt hmade
  sent := by
    intro i r hr
    have hsent := h.sent i r hr
    exact
      { since := by
          intro hheard p hp hfile
          obtain ⟨draft, hdraft⟩ := Option.ne_none_iff_exists'.mp hfile
          obtain hheld | ⟨-, -, hpending⟩ := hcreates.held p draft hdraft
          · refine hcreates.pending p hfile (hsent.since hheard p hp ?_)
            rw [hheld]
            exact Option.some_ne_none _
          · exact hpending
        older := fun p draft hdraft => (hsent.older p draft hdraft).trans_le hcreates.made
        same := by
          intro p draft draft' hdraft hdraft' hstamp
          obtain hheld | ⟨hnew, -, -⟩ := hcreates.held p draft hdraft
          · exact hsent.same p draft draft' hheld hdraft' hstamp
          · have hlt := hsent.older p draft' hdraft'
            omega }
  written := h.written

/-! ### Sending -/

theorem of_getElem?_append {requests : List Request} {r r' : Request} {i : ℕ} (h : (requests ++ [r'])[i]? = some r) :
    requests[i]? = some r ∨ i = requests.length ∧ r = r' := by
  by_cases hi : i < requests.length
  · rw [List.getElem?_append_left hi] at h
    exact Or.inl h
  · rw [List.getElem?_append_right (Nat.le_of_not_lt hi)] at h
    obtain ⟨hlt, hr⟩ := List.getElem?_eq_some_iff.mp h
    rw [List.length_singleton] at hlt
    have hi' : i = requests.length := by omega
    subst hi'
    rw [List.getElem_of_eq rfl, List.getElem_singleton] at hr
    exact Or.inr ⟨rfl, hr.symm⟩

/-- A request is sent, and waited for or not. -/
def send (s : Session) (exit : Bool) (saving : Saving) : Session :=
  { s with requests := s.requests ++ [s.request exit], saving }

theorem Ordered.send (h : s.Ordered base) {exit : Bool} {saving : Saving}
    (hsaving : saving = s.saving ∨ saving = .sent s.requests.length ∧ exit = false) : (s.send exit saving).Ordered base where
  served := h.served
  known := h.known
  based := by
    intro i r hr
    obtain hr | ⟨-, rfl⟩ := of_getElem?_append hr
    · exact h.based i r hr
    · exact h.known
  earlier := by
    intro i r hr
    obtain hr | ⟨-, rfl⟩ := of_getElem?_append hr
    · exact h.earlier i r hr
    · exact List.prefix_rfl
  heard := h.heard
  behind := h.behind
  nodup := h.nodup
  sent := by
    intro i hi
    rw [Session.send, List.length_append]
    exact (h.sent i hi).trans_le (Nat.le_add_right _ _)
  onWay := by
    intro i r hr htravel hi
    obtain hr | ⟨rfl, -⟩ := of_getElem?_append hr
    · exact h.onWay i r hr htravel hi
    · exact absurd (h.sent _ hi) (lt_irrefl _)
  landed := by
    intro i r workspace hr htravel
    obtain hr | ⟨-, rfl⟩ := of_getElem?_append hr
    · exact h.landed i r workspace hr htravel
    · cases htravel
  current := by
    intro i r hr
    obtain hr | ⟨-, rfl⟩ := of_getElem?_append hr
    · exact h.current i r hr
    · exact nofun
  waits := by
    intro i hi
    obtain rfl | ⟨rfl, hexit⟩ := hsaving
    · obtain ⟨hheard, r, hr, hexit⟩ := h.waits i hi
      refine ⟨hheard, r, ?_, hexit⟩
      rw [Session.send, List.getElem?_append_left (List.getElem?_eq_some_iff.mp hr).1]
      exact hr
    · obtain rfl := Saving.sent.inj hi
      refine ⟨fun hheard => lt_irrefl _ (h.sent _ (h.heard.subset hheard)), s.request exit, ?_, hexit⟩
      exact List.getElem?_concat_length
  calm := by
    obtain rfl | ⟨rfl, -⟩ := hsaving
    · exact h.calm
    · exact nofun

theorem Holds.send (h : s.Holds) (exit : Bool) (saving : Saving) : (s.send exit saving).Holds where
  conflicts := h.conflicts
  reloads := h.reloads
  typed := h.typed
  kept := h.kept
  gone := h.gone
  older := h.older
  sent := by
    intro i r hr
    obtain hr | ⟨-, rfl⟩ := of_getElem?_append hr
    · obtain ⟨since, older, same⟩ := h.sent i r hr
      exact ⟨since, older, same⟩
    · exact
        { since := by
            rintro - p (hp | hp) hfile
            · exact hp
            · exact absurd (h.gone p hp) hfile
          older := h.older
          same := fun p draft draft' hdraft hdraft' _ => Option.some.inj (hdraft.symm.trans hdraft') }
  written := by
    intro i r workspace hr htravel
    obtain hr | ⟨-, rfl⟩ := of_getElem?_append hr
    · exact h.written i r workspace hr htravel
    · cases htravel

/-! ### On the way -/

theorem of_getElem?_mark {requests : List Request} {i j : ℕ} {travel : Travel} {r : Request}
    (h : (mark requests i travel)[j]? = some r) :
    ∃ r₀, requests[j]? = some r₀ ∧ r = { r₀ with travel := if i = j then travel else r₀.travel } := by
  rw [getElem?_mark, Option.map_eq_some_iff] at h
  obtain ⟨r₀, hr₀, rfl⟩ := h
  exact ⟨r₀, hr₀, rfl⟩

theorem exists_mark {requests : List Request} {j : ℕ} {r : Request} (i : ℕ) (travel : Travel) (h : requests[j]? = some r) :
    ∃ r', (mark requests i travel)[j]? = some r' ∧ r'.exit = r.exit := by
  rw [getElem?_mark, h, Option.map_some]
  exact ⟨_, rfl, rfl⟩

theorem length_mark (requests : List Request) (i : ℕ) (travel : Travel) :
    (mark requests i travel).length = requests.length := List.length_modify ..

/-- A request lost on its way is as if it had not been sent. -/
theorem Ordered.lost (h : s.Ordered base) (i : ℕ) :
    Ordered base { s with requests := mark s.requests i .lost } where
  served := h.served
  known := h.known
  based := by
    intro j r hr
    obtain ⟨r₀, hr₀, rfl⟩ := of_getElem?_mark hr
    exact h.based j r₀ hr₀
  earlier := by
    intro j r hr
    obtain ⟨r₀, hr₀, rfl⟩ := of_getElem?_mark hr
    exact h.earlier j r₀ hr₀
  heard := h.heard
  behind := h.behind
  nodup := h.nodup
  sent := fun j hj => (h.sent j hj).trans_eq (length_mark _ _ _).symm
  onWay := by
    intro j r hr htravel
    obtain ⟨r₀, hr₀, rfl⟩ := of_getElem?_mark hr
    by_cases hi : i = j
    · rw [if_pos hi] at htravel
      cases htravel
    · rw [if_neg hi] at htravel
      exact h.onWay j r₀ hr₀ htravel
  landed := by
    intro j r workspace hr htravel
    obtain ⟨r₀, hr₀, rfl⟩ := of_getElem?_mark hr
    by_cases hi : i = j
    · rw [if_pos hi] at htravel
      cases htravel
    · rw [if_neg hi] at htravel
      exact h.landed j r₀ workspace hr₀ htravel
  current := by
    intro j r hr htravel
    obtain ⟨r₀, hr₀, rfl⟩ := of_getElem?_mark hr
    by_cases hi : i = j
    · rw [if_pos hi] at htravel
      cases htravel
    · rw [if_neg hi] at htravel
      exact h.current j r₀ hr₀ htravel
  waits := by
    intro j hj
    obtain ⟨hheard, r, hr, hexit⟩ := h.waits j hj
    obtain ⟨r', hr', hexit'⟩ := exists_mark i .lost hr
    exact ⟨hheard, r', hr', hexit'.trans hexit⟩
  calm := h.calm

theorem Holds.lost (h : s.Holds) (i : ℕ) : Holds { s with requests := mark s.requests i .lost } where
  conflicts := h.conflicts
  reloads := h.reloads
  typed := h.typed
  kept := h.kept
  gone := h.gone
  older := h.older
  sent := by
    intro j r hr
    obtain ⟨r₀, hr₀, rfl⟩ := of_getElem?_mark hr
    obtain ⟨since, older, same⟩ := h.sent j r₀ hr₀
    exact ⟨since, older, same⟩
  written := by
    intro j r workspace hr htravel
    obtain ⟨r₀, hr₀, rfl⟩ := of_getElem?_mark hr
    by_cases hi : i = j
    · rw [if_pos hi] at htravel
      cases htravel
    · rw [if_neg hi] at htravel
      exact h.written j r₀ workspace hr₀ htravel

/-- A current request lands: it becomes the one save the tab has not been answered. -/
theorem Ordered.land (h : s.Ordered base) {i : ℕ} {r : Request} (hr : s.requests[i]? = some r) (htravel : r.travel = .onWay)
    (hcurrent : ∀ j ∈ s.landings, j ∈ r.heard) : (s.land i r).Ordered base := by
  obtain ⟨hrheard, hheard⟩ := h.heard_of_current hr hcurrent
  have hnew : i ∉ s.landings := h.onWay i r hr htravel
  exact
    { served := by
        show r.save.baseRevision + 1 = base + (s.landings ++ [i]).length
        rw [Request.save_baseRevision, h.based i r hr, hrheard, hheard, List.length_append, List.length_singleton, Nat.add_assoc]
      known := h.known
      based := by
        intro j r' hr'
        obtain ⟨r₀, hr₀, rfl⟩ := of_getElem?_mark hr'
        exact h.based j r₀ hr₀
      earlier := by
        intro j r' hr'
        obtain ⟨r₀, hr₀, rfl⟩ := of_getElem?_mark hr'
        exact h.earlier j r₀ hr₀
      heard := h.heard.trans (List.prefix_append _ _)
      behind := by
        show (s.landings ++ [i]).length ≤ s.heard.length + 1
        rw [hheard, List.length_append, List.length_singleton]
      nodup := List.nodup_append.mpr ⟨h.nodup, List.nodup_singleton i, fun j hj j' hj' heq =>
        hnew (List.mem_singleton.mp hj' ▸ heq ▸ hj)⟩
      sent := by
        intro j hj
        show j < (mark s.requests i _).length
        rw [length_mark]
        obtain hj | hj := List.mem_append.mp hj
        · exact h.sent j hj
        · rw [List.mem_singleton.mp hj]
          exact (List.getElem?_eq_some_iff.mp hr).1
      onWay := by
        intro j r' hr' htravel' hj
        obtain ⟨r₀, hr₀, rfl⟩ := of_getElem?_mark hr'
        by_cases hi : i = j
        · rw [if_pos hi] at htravel'
          cases htravel'
        · rw [if_neg hi] at htravel'
          obtain hj | hj := List.mem_append.mp hj
          · exact h.onWay j r₀ hr₀ htravel' hj
          · exact hi (List.mem_singleton.mp hj).symm
      landed := by
        intro j r' workspace hr' htravel'
        obtain ⟨r₀, hr₀, rfl⟩ := of_getElem?_mark hr'
        by_cases hi : i = j
        · rw [if_pos hi] at htravel'
          exact ⟨List.mem_append_right _ (List.mem_singleton.mpr hi.symm), fun _ => (Travel.landed.inj htravel').symm⟩
        · rw [if_neg hi] at htravel'
          have hj := (h.landed j r₀ workspace hr₀ htravel').1
          -- every earlier landing was answered
          exact ⟨List.mem_append_left _ hj, fun hnot => absurd (hheard ▸ hj) hnot⟩
      current := by
        intro j r' hr' htravel'
        obtain ⟨r₀, hr₀, rfl⟩ := of_getElem?_mark hr'
        by_cases hi : i = j
        · rw [if_pos hi] at htravel'
          cases htravel'
        · rw [if_neg hi] at htravel'
          exact h.current j r₀ hr₀ htravel'
      waits := by
        intro j hj
        obtain ⟨hjheard, r', hr', hexit⟩ := h.waits j hj
        obtain ⟨r'', hr'', hexit'⟩ := exists_mark i (.landed (s.service.save r.save r.uploads).workspace) hr'
        exact ⟨hjheard, r'', hr'', hexit'.trans hexit⟩
      calm := h.calm }

theorem Holds.land (h : s.Holds) (hordered : s.Ordered base) {i : ℕ} {r : Request} (hr : s.requests[i]? = some r)
    (hcurrent : ∀ j ∈ s.landings, j ∈ r.heard) : (s.land i r).Holds := by
  obtain ⟨hrheard, hheard⟩ := hordered.heard_of_current hr hcurrent
  exact
    { conflicts := h.conflicts
      reloads := h.reloads
      typed := h.typed
      kept := by
        intro p draft hdraft
        change s.state.files.get p = some draft at hdraft
        by_cases hpending : p ∈ s.state.pending.upserted
        · exact Or.inr hpending
        -- what is held and not pending was not sent either
        · have hnot : ¬ (p ∈ r.sent.upserted ∨ p ∈ r.sent.removed) := fun hp =>
            hpending ((h.sent i r hr).since hrheard p hp (by rw [hdraft]; exact Option.some_ne_none _))
          rw [not_or] at hnot
          left
          show (s.service.save r.save r.uploads).files.get p = _
          rw [Request.get_save_of_not_sent hnot.1 hnot.2]
          exact (h.kept p draft hdraft).resolve_right hpending
      gone := h.gone
      older := h.older
      sent := by
        intro j r' hr'
        obtain ⟨r₀, hr₀, rfl⟩ := of_getElem?_mark hr'
        obtain ⟨since, older, same⟩ := h.sent j r₀ hr₀
        exact ⟨since, older, same⟩
      written := by
        intro j r' workspace hr' htravel' hnot hexit p hp draft hdraft
        obtain ⟨r₀, hr₀, rfl⟩ := of_getElem?_mark hr'
        by_cases hi : i = j
        · obtain rfl : r = r₀ := Option.some.inj (hr.symm.trans (hi ▸ hr₀))
          exact Request.get_save_of_sent hexit hp hdraft
        · rw [if_neg hi] at htravel'
          exact absurd (hheard ▸ (hordered.landed j r₀ workspace hr₀ htravel').1) hnot }

/-! ### The answer -/

/-- The answer to the save waited for, which is the last that landed. -/
def hear (s : Session) (i : ℕ) (r : Request) (workspace : Workspace) : Session :=
  { s with
    state := workspaceReducer s.state (.saved workspace r.sent r.drafts)
    saving := .idle
    heard := s.heard ++ [i] }

theorem Ordered.hear (h : s.Ordered base) {i : ℕ} {r : Request} {workspace : Workspace} (hwaits : s.saving = .sent i)
    (hr : s.requests[i]? = some r) (htravel : r.travel = .landed workspace) : (s.hear i r workspace).Ordered base := by
  obtain ⟨hheard, -⟩ := h.waits i hwaits
  obtain ⟨hlanded, hworkspace⟩ := h.landed i r workspace hr htravel
  have hlandings := h.landings_of_waits hheard hlanded
  exact
    { served := h.served
      known := by
        show workspace.revision = base + (s.heard ++ [i]).length
        rw [hworkspace hheard, ← hlandings]
        exact h.served
      based := h.based
      earlier := fun j r' hr' => (h.earlier j r' hr').trans (List.prefix_append _ _)
      heard := by
        show s.heard ++ [i] <+: s.landings
        rw [hlandings]
      behind := by
        show s.landings.length ≤ (s.heard ++ [i]).length + 1
        rw [hlandings]
        exact Nat.le_succ _
      nodup := h.nodup
      sent := h.sent
      onWay := h.onWay
      landed := by
        intro j r' workspace' hr' htravel'
        obtain ⟨hj, hworkspace'⟩ := h.landed j r' workspace' hr' htravel'
        exact ⟨hj, fun hnot => hworkspace' fun hmem => hnot (List.mem_append_left _ hmem)⟩
      current := h.current
      waits := nofun
      calm := nofun }

theorem Holds.hear (h : s.Holds) (hordered : s.Ordered base) {i : ℕ} {r : Request} {workspace : Workspace}
    (hwaits : s.saving = .sent i) (hr : s.requests[i]? = some r) (htravel : r.travel = .landed workspace) :
    (s.hear i r workspace).Holds := by
  obtain ⟨hheard, r', hr', hexit⟩ := hordered.waits i hwaits
  obtain rfl : r = r' := Option.some.inj (hr.symm.trans hr')
  exact
    { conflicts := h.conflicts
      reloads := h.reloads
      typed := h.typed
      kept := by
        intro p draft hdraft
        change s.state.files.get p = some draft at hdraft
        obtain hserved | hpending := h.kept p draft hdraft
        · exact Or.inl hserved
        by_cases hsent : p ∈ r.sent.upserted ∧ s.state.edited r.drafts p = false
        -- the object sent is the one held, and it landed
        · obtain ⟨hsent, hsame⟩ := hsent
          rw [WorkspaceState.edited, decide_eq_false_iff_not, not_not, hdraft, Option.map_some] at hsame
          obtain ⟨draft', hdraft', hstamp⟩ := Option.map_eq_some_iff.mp hsame.symm
          obtain rfl := (h.sent i r hr).same p draft draft' hdraft hdraft' hstamp.symm
          exact Or.inl (h.written i r workspace hr htravel hheard hexit p hsent draft hdraft')
        · right
          refine List.mem_filter.mpr ⟨hpending, decide_eq_true ?_⟩
          rw [not_and_or, Bool.not_eq_false] at hsent
          exact hsent
      gone := fun p hp => h.gone p (List.mem_of_mem_filter hp)
      older := h.older
      sent := by
        intro j r' hr'
        obtain ⟨-, older, same⟩ := h.sent j r' hr'
        refine ⟨fun heq => ?_, older, same⟩
        -- a request sent before cannot have heard this answer
        have hle := (hordered.earlier j r' hr').length_le
        rw [heq] at hle
        change (s.heard ++ [i]).length ≤ s.heard.length at hle
        rw [List.length_append, List.length_singleton] at hle
        omega
      written := fun j r' workspace' hr' htravel' hnot =>
        h.written j r' workspace' hr' htravel' fun hmem => hnot (List.mem_append_left _ hmem) }

/-! ### Runs -/

theorem Ordered.fail (h : s.Ordered base) : Ordered base { s with saving := .idle } :=
  { h with waits := nofun, calm := nofun }

theorem Holds.fail (h : s.Holds) : Holds { s with saving := .idle } :=
  { h with sent := fun i r hr => ⟨(h.sent i r hr).since, (h.sent i r hr).older, (h.sent i r hr).same⟩ }

/-- What a current step does to a state with no conflict behind it. -/
theorem step_of_current (hordered : s.Ordered base) (h : s.Holds) {e : Event} (hcurrent : s.Current e) :
    (s.step e).Ordered base ∧ (s.step e).Holds := by
  cases e with
  | edit path text => exact ⟨hordered.creates (creates_edit text), h.creates (creates_edit text)⟩
  | project project => exact ⟨hordered.creates (creates_set (fun _ _ => rfl) rfl), h.creates (creates_set (fun _ _ => rfl) rfl)⟩
  | add path => exact ⟨hordered.creates creates_add, h.creates creates_add⟩
  | importFile path draft =>
    have hcreates : Creates s.state (workspaceReducer s.state (.importFile path { draft with stamp := s.state.made })) :=
      creates_set (fun _ hp => OrderedMap.get_delete_of_ne _ hp) rfl
    exact ⟨hordered.creates hcreates, h.creates hcreates⟩
  | remove path => exact ⟨hordered.creates creates_remove, h.creates creates_remove⟩
  | save =>
    show s.save.Ordered base ∧ s.save.Holds
    unfold save
    split_ifs
    · exact ⟨hordered.send (Or.inr ⟨rfl, rfl⟩), h.send _ _⟩
    · exact ⟨hordered, h⟩
  | hide =>
    show s.hide.Ordered base ∧ s.hide.Holds
    unfold hide
    split_ifs
    · exact ⟨hordered.send (Or.inl rfl), h.send _ _⟩
    · exact ⟨hordered, h⟩
  | arrive i =>
    show (s.arrive i).Ordered base ∧ (s.arrive i).Holds
    unfold arrive
    split
    · next r hr =>
      split_ifs with htravel hbased
      · have hall := (hordered.based_iff hr).mp hbased
        exact ⟨hordered.land hr htravel hall, h.land hordered hr hall⟩
      · exact absurd ((hordered.based_iff hr).mpr (hcurrent r hr htravel)) hbased
      · exact ⟨hordered, h⟩
    · exact ⟨hordered, h⟩
  | lose i =>
    show (s.lose i).Ordered base ∧ (s.lose i).Holds
    unfold lose
    split
    · split_ifs
      · exact ⟨hordered.lost i, h.lost i⟩
      · exact ⟨hordered, h⟩
    · exact ⟨hordered, h⟩
  | answer =>
    show s.answer.Ordered base ∧ s.answer.Holds
    unfold answer
    split
    · next i hwaits =>
      split
      · next r hr =>
        split
        · next workspace htravel => exact ⟨hordered.hear hwaits hr htravel, h.hear hordered hwaits hr htravel⟩
        · next htravel => exact absurd htravel (hordered.current i r hr)
        · exact ⟨hordered, h⟩
        · exact ⟨hordered, h⟩
      · exact ⟨hordered, h⟩
    · exact ⟨hordered, h⟩
    · exact ⟨hordered, h⟩
  | fail => exact ⟨hordered.fail, h.fail⟩
  | reloaded project =>
    have hsame : s.step (.reloaded project) = s := if_neg hordered.calm
    rw [hsame]
    exact ⟨hordered, h⟩

theorem Holds.kept_typed (h : s.Holds) : s.Kept where
  conflicts := h.conflicts
  reloads := h.reloads
  typed := by
    intro p draft hdraft
    rw [h.typed] at hdraft
    exact (h.kept p draft hdraft).imp_right fun hpending => Or.inr ⟨hpending, hdraft⟩

theorem conflicts_le_step (s : Session) (e : Event) : s.conflicts ≤ (s.step e).conflicts := by
  cases e with
  | edit | project | add | importFile | remove | fail => exact le_rfl
  | save =>
    show s.conflicts ≤ s.save.conflicts
    unfold save
    split_ifs
    · exact le_rfl
    · exact le_rfl
  | hide =>
    show s.conflicts ≤ s.hide.conflicts
    unfold hide
    split_ifs
    · exact le_rfl
    · exact le_rfl
  | arrive i =>
    show s.conflicts ≤ (s.arrive i).conflicts
    unfold arrive
    split
    · split_ifs
      · exact le_rfl
      · exact Nat.le_succ _
      · exact le_rfl
    · exact le_rfl
  | lose i =>
    show s.conflicts ≤ (s.lose i).conflicts
    unfold lose
    split
    · split_ifs
      · exact le_rfl
      · exact le_rfl
    · exact le_rfl
  | answer =>
    show s.conflicts ≤ s.answer.conflicts
    unfold answer
    repeat' split
    all_goals exact le_rfl
  | reloaded project =>
    show s.conflicts ≤ (s.reload project).conflicts
    unfold reload
    split_ifs
    · exact le_rfl
    · exact le_rfl

/-- A request that is not current is answered with a conflict. -/
theorem conflicts_of_not_current (hordered : s.Ordered base) {e : Event} (h : ¬ s.Current e) :
    0 < (s.step e).conflicts := by
  cases e with
  | arrive i =>
    obtain ⟨r, hr⟩ := not_forall.mp h
    obtain ⟨hr, hr'⟩ := Classical.not_imp.mp hr
    obtain ⟨htravel, hstale⟩ := Classical.not_imp.mp hr'
    have hbased : r.baseRevision ≠ s.service.revision := fun heq => hstale ((hordered.based_iff hr).mp heq)
    show 0 < (s.arrive i).conflicts
    simp only [arrive, hr, htravel, if_true, if_neg hbased]
    exact Nat.succ_pos _
  | _ => exact absurd trivial h

theorem conflicts_le (s : Session) (steps : List Event) : s.conflicts ≤ (exec step s steps).conflicts := by
  have hstep : ∀ (t : Session) (e : Event), s.conflicts ≤ t.conflicts → s.conflicts ≤ (t.step e).conflicts :=
    fun t e h => h.trans (conflicts_le_step t e)
  exact exec_invariant hstep le_rfl steps

/-- A run without a conflict has only current steps. -/
theorem meets_of_conflicts {steps : List Event} (hordered : s.Ordered base) (h : s.Holds)
    (hnone : (exec step s steps).conflicts = 0) : Meets step Current s steps := by
  induction steps generalizing s with
  | nil => trivial
  | cons e steps ih =>
    have hcurrent : s.Current e := by
      by_contra hnot
      have hpos := conflicts_of_not_current hordered hnot
      have hle := conflicts_le (s.step e) steps
      rw [exec_cons] at hnone
      omega
    obtain ⟨hordered', h'⟩ := step_of_current hordered h hcurrent
    exact ⟨hcurrent, ih hordered' h' hnone⟩

theorem opening_ordered (held : GameFiles) (template : OrderedMap String String) (project : ProjectManifest) :
    (opening held template project).Ordered held.revision where
  served := rfl
  known := by
    show (openGame held template project).revision = held.revision
    unfold openGame
    split_ifs
    · rfl
    · rfl
  based := nofun
  earlier := nofun
  heard := List.prefix_rfl
  behind := Nat.zero_le _
  nodup := List.nodup_nil
  sent := nofun
  onWay := nofun
  landed := nofun
  current := nofun
  waits := nofun
  calm := nofun

theorem opening_holds (held : GameFiles) (template : OrderedMap String String) (project : ProjectManifest) :
    (opening held template project).Holds := by
  have ha : ∀ p, (Tab.opening held template project).Accounted p := fun _ => Tab.accounted_opening
  exact
    { conflicts := rfl
      reloads := rfl
      typed := rfl
      kept := by
        intro p draft hdraft
        obtain hagree | hupsert | hdelete := (ha p).agree
        · left
          rw [Tab.draftAt, show (Tab.opening held template project).state.files.get p = some draft from hdraft] at hagree
          exact hagree
        · exact Or.inr hupsert.1
        · have hnone := (ha p).removed hdelete.1
          rw [show (Tab.opening held template project).state.files.get p = some draft from hdraft] at hnone
          cases hnone
      gone := fun p => (ha p).removed
      older := fun p => (ha p).older
      sent := nofun
      written := nofun }

/-- **A tab that comes back**: no save meets a conflict and nothing typed is lost, in exactly the runs in
which a save reaches the service only if every landing before it had been answered when it was sent. -/
theorem typed_work_is_kept (held : GameFiles) (template : OrderedMap String String) (project : ProjectManifest)
    (steps : List Event) :
    (∀ before, before <+: steps → (exec step (opening held template project) before).Kept) ↔
      Meets step Current (opening held template project) steps := by
  have hordered := opening_ordered held template project
  have hholds := opening_holds held template project
  constructor
  · intro h
    exact meets_of_conflicts hordered hholds (h steps List.prefix_rfl).conflicts
  · rintro h before ⟨after, rfl⟩
    have hstep : ∀ (s : Session) (e : Event), s.Ordered held.revision ∧ s.Holds → s.Current e →
        (s.step e).Ordered held.revision ∧ (s.step e).Holds := fun _ _ hs hcurrent => step_of_current hs.1 hs.2 hcurrent
    exact ((Meets.append.mp h).1.invariant hstep ⟨hordered, hholds⟩).2.kept_typed

/-- One tab on a game nobody else edits is hidden with something typed, shown, and typed in again. -/
def hidden_and_shown : List Event :=
  [.edit "main.ts" "a", .hide, .arrive 0, .edit "main.ts" "ab", .save, .arrive 1, .answer, .reloaded ⟨""⟩]

/-- The save after the exit save meets a conflict, and the reload takes back what was typed. -/
theorem typed_work_is_reloaded_away :
    let s := exec step (opening Tab.mainOnly .empty ⟨""⟩) hidden_and_shown
    s.conflicts = 1 ∧ s.reloads = 1 ∧ s.typed.get "main.ts" = some (draftFromText 2 "main.ts" "ab") ∧
      s.service.files.get "main.ts" = some (draftFromText 1 "main.ts" "a").stored ∧
      s.state.files.get "main.ts" = some (draftFromText 0 "main.ts" "a") ∧ isPending s.state.pending = false ∧
      ¬ s.Kept := by
  have hconflicts : (exec step (opening Tab.mainOnly .empty ⟨""⟩) hidden_and_shown).conflicts = 1 := by decide
  refine ⟨hconflicts, by decide, by decide, by decide, by decide, by decide, ?_⟩
  intro h
  rw [h.conflicts] at hconflicts
  cases hconflicts

end Session
end Editor
end Grove
