import Grove.Editor.Workspace
import Grove.Lib.Run

/-! # Saving a workspace

A tab sends one save at a time, of the state at its sending.  The service applies it, and its
answer reaches the tab as a `saved` action; in between the creator goes on editing.

`drafts_reach_service` is for the runs in which the tab always knows whether the service has heard
of the path an action is about (`Heard`): every path on which the tab and the service differ is
pending, or carried by the save in flight.  A file removed while the first save of it is in flight
is dropped as one the service never heard of, and stays there (`removed_file_stays`). -/

namespace Grove
namespace Editor

/-- A save on its way, with what the tab kept of the state it was sent from. -/
structure Flight where
  baseRevision : ℕ
  sent : Pending
  drafts : OrderedMap String DraftFile
  /-- What the service answered, once it has applied the save. -/
  answer : Option Workspace
deriving DecidableEq

namespace Flight

def save (f : Flight) : WorkspaceSave := (saveOf f.baseRevision f.drafts f.sent).1

def uploads (f : Flight) : List AssetUpload := (saveOf f.baseRevision f.drafts f.sent).2

/-- The save names the path as one to write. -/
def Upserts (f : Flight) (path : String) : Prop :=
  path ∈ f.save.sources.map (·.path) ∨ path ∈ f.save.assets

def Carries (f : Flight) (path : String) : Prop := f.Upserts path ∨ path ∈ f.save.deletes

instance (f : Flight) (path : String) : Decidable (f.Upserts path) := inferInstanceAs (Decidable (_ ∨ _))

instance (f : Flight) (path : String) : Decidable (f.Carries path) := inferInstanceAs (Decidable (_ ∨ _))

end Flight

/-- One editor and the service it saves to. -/
structure Tab where
  state : WorkspaceState
  service : GameFiles
  flight : Option Flight
deriving DecidableEq

/-- What happens to a tab and its service: the creator's five actions, a save asked for, the service
applying the save in flight, and its answer arriving. -/
inductive Step where
  | edit (path text : String)
  | project (project : ProjectManifest)
  | add (path : String)
  | importFile (path : String) (draft : DraftFile)
  | remove (path : String)
  | save
  | apply
  | answer
deriving DecidableEq

namespace Tab

def dispatch (t : Tab) (action : WorkspaceAction) : Tab := { t with state := workspaceReducer t.state action }

/-- Nothing is sent while nothing is owed or a save is in flight. -/
def save (t : Tab) : Tab :=
  if isPending t.state.pending = true ∧ t.flight = none then
    { t with flight := some ⟨t.state.revision, t.state.pending, t.state.files, none⟩ }
  else t

/-- The service applies the save in flight. -/
def apply (t : Tab) : Tab :=
  match t.flight with
  | some f =>
    if f.answer = none then
      { t with
        service := t.service.save f.save f.uploads
        flight := some { f with answer := some (t.service.save f.save f.uploads).workspace } }
    else t
  | none => t

/-- The answer to the save in flight arrives. -/
def answer (t : Tab) : Tab :=
  match t.flight with
  | some f =>
    match f.answer with
    | some workspace => { t.dispatch (.saved workspace f.sent f.drafts) with flight := none }
    | none => t
  | none => t

/-- A picked file is a new object. -/
def step (t : Tab) : Step → Tab
  | .edit path text => t.dispatch (.edit path text)
  | .project project => t.dispatch (.project project)
  | .add path => t.dispatch (.add path)
  | .importFile path draft => t.dispatch (.importFile path { draft with stamp := t.state.made })
  | .remove path => t.dispatch (.remove path)
  | .save => t.save
  | .apply => t.apply
  | .answer => t.answer

/-- A tab that has just opened a game. -/
def opening (held : GameFiles) (template : OrderedMap String String) (project : ProjectManifest) : Tab :=
  ⟨initialWorkspace (openGame held template project), held, none⟩

/-- The draft at a path, as the file it is stored as. -/
def draftAt (t : Tab) (path : String) : Option StoredFile := (t.state.files.get path).map DraftFile.stored

def Converged (t : Tab) : Prop :=
  (isPending t.state.pending = false → t.flight = none → ∀ path, t.service.files.get path = t.draftAt path) ∧
    ∀ path, t.service.files.get path ≠ t.draftAt path →
      path ∈ t.state.pending.upserted ∨ path ∈ t.state.pending.removed ∨ ∃ f, t.flight = some f ∧ f.Carries path

/-- No edit is of a path whose delete is still to be sent, and no path is removed that the save in
flight writes and the service has not answered with yet. -/
def Heard (t : Tab) : Step → Prop
  | .edit path _ => path ∈ t.state.pending.removed → ∃ f ∈ t.flight, path ∈ f.save.deletes
  | .remove path => ∀ f ∈ t.flight, f.Upserts path → path ∈ t.state.saved.map (·.path)
  | _ => True

instance (t : Tab) : DecidablePred t.Heard
  | .edit path _ =>
    inferInstanceAs (Decidable (path ∈ t.state.pending.removed → ∃ f ∈ t.flight, path ∈ f.save.deletes))
  | .remove path =>
    inferInstanceAs (Decidable (∀ f ∈ t.flight, f.Upserts path → path ∈ t.state.saved.map (·.path)))
  | .project _ | .add _ | .importFile _ _ | .save | .apply | .answer => inferInstanceAs (Decidable True)

/-! ### What the service holds once it has applied the save in flight -/

def landed (t : Tab) : GameFiles :=
  match t.flight with
  | some f => if f.answer = none then t.service.save f.save f.uploads else t.service
  | none => t.service

/-- The path is owed a write after the save in flight has been answered. -/
def OwesUpsert (t : Tab) (p : String) : Prop :=
  p ∈ t.state.pending.upserted ∧
    ∀ f, t.flight = some f → p ∈ f.sent.upserted → t.state.edited f.drafts p = true

def OwesDelete (t : Tab) (p : String) : Prop :=
  p ∈ t.state.pending.removed ∧ ∀ f, t.flight = some f → p ∉ f.sent.removed

/-- What is known of the save in flight at one path. -/
structure Sent (t : Tab) (f : Flight) (p : String) : Prop where
  older : ∀ draft, f.drafts.get p = some draft → draft.stamp < t.state.made
  same : ∀ draft draft', t.state.files.get p = some draft → f.drafts.get p = some draft' →
    draft.stamp = draft'.stamp → draft = draft'
  written : ∀ draft, p ∈ f.sent.upserted → f.drafts.get p = some draft → t.landed.files.get p = some draft.stored
  deleted : p ∈ f.sent.removed → t.landed.files.get p = none
  answered : ∀ workspace, f.answer = some workspace → workspace = t.service.workspace

/-- Where the tab and the service stand on one path. -/
structure Accounted (t : Tab) (p : String) : Prop where
  agree : t.landed.files.get p = t.draftAt p ∨ t.OwesUpsert p ∨ t.OwesDelete p
  phantom : t.OwesUpsert p → t.state.files.get p = none → t.landed.files.get p = none
  removed : p ∈ t.state.pending.removed → t.state.files.get p = none
  known : p ∉ t.state.saved.map (·.path) → t.landed.files.get p = none ∨ ∃ f, t.flight = some f ∧ f.Upserts p
  older : ∀ draft, t.state.files.get p = some draft → draft.stamp < t.state.made
  sent : ∀ f, t.flight = some f → t.Sent f p

end Tab

/-- The save names what was pending and held when it was sent. -/
theorem Flight.upserts_iff {f : Flight} {p : String} :
    f.Upserts p ↔ p ∈ f.sent.upserted ∧ ∃ draft, f.drafts.get p = some draft := by
  have hkeys : f.Upserts p ↔ ∃ file, (p, file) ∈ f.save.sources.map SourceUpsert.entry ++
      f.uploads.map AssetUpload.entry := by
    simp only [Flight.Upserts, Flight.save, Flight.uploads, saveOf, SourceUpsert.entry, AssetUpload.entry,
      List.mem_append, List.mem_map, Prod.mk.injEq]
    constructor
    · rintro (⟨s, hs, rfl⟩ | ⟨u, hu, rfl⟩)
      · exact ⟨_, .inl ⟨s, hs, rfl, rfl⟩⟩
      · exact ⟨_, .inr ⟨u, hu, rfl, rfl⟩⟩
    · rintro ⟨file, ⟨s, hs, rfl, -⟩ | ⟨u, hu, rfl, -⟩⟩
      · exact .inl ⟨s, hs, rfl⟩
      · exact .inr ⟨u, hu, rfl⟩
  rw [hkeys]
  simp only [Flight.save, Flight.uploads, mem_written_iff, Option.map_eq_some_iff]
  constructor
  · rintro ⟨file, hp, draft, hdraft, -⟩
    exact ⟨hp, draft, hdraft⟩
  · rintro ⟨hp, draft, hdraft⟩
    exact ⟨draft.stored, hp, draft, hdraft, rfl⟩

namespace Tab

variable {t t' : Tab} {p path : String}

/-! ### The creator's actions -/

/-- What an action does at the path it is about. -/
inductive Change (t t' : Tab) (path : String) : Prop
  | wrote (draft : DraftFile) (held : t'.state.files.get path = some draft) (new : draft.stamp = t.state.made)
      (made : t.state.made < t'.state.made) (pending : t'.state.pending = touched t.state.pending path)
  | marked (held : t'.state.files.get path = t.state.files.get path)
      (pending : t'.state.pending = touched t.state.pending path)
      (heard : path ∈ t.state.pending.removed → ∃ f, t.flight = some f ∧ path ∈ f.sent.removed)
  | removed (held : t'.state.files.get path = none)
      (pending : t'.state.pending = dropped t.state.pending path (t.state.saved.any (·.path = path)))
      (heard : ∀ f, t.flight = some f → f.Upserts path → path ∈ t.state.saved.map (·.path))
  | nothing (same : t'.state = t.state)

/-- An action is about one path, and leaves the service and the save in flight alone. -/
structure Acts (t t' : Tab) (path : String) : Prop where
  service : t'.service = t.service
  flight : t'.flight = t.flight
  saved : t'.state.saved = t.state.saved
  made : t.state.made ≤ t'.state.made
  others : ∀ p, p ≠ path → t'.state.files.get p = t.state.files.get p
  change : Change t t' path

theorem acts_edit {text : String} (h : t.Heard (.edit path text)) : Acts t (t.step (.edit path text)) path where
  service := rfl
  flight := rfl
  saved := rfl
  made := Nat.le_succ _
  others p hp := by
    change (t.state.files.map _).get p = _
    rw [OrderedMap.get_map]
    simp only [hp, if_false]
    exact Option.map_id'
  change := by
    have hget : (t.step (.edit path text)).state.files.get path =
        (t.state.files.get path).map (DraftFile.retyped t.state.made text) := by
      change (t.state.files.map _).get path = _
      rw [OrderedMap.get_map]
      simp
    have hheard : path ∈ t.state.pending.removed → ∃ f, t.flight = some f ∧ path ∈ f.sent.removed := h
    cases hfile : t.state.files.get path with
    | none =>
      rw [hfile] at hget
      exact .marked (hget.trans hfile.symm) rfl hheard
    | some file =>
      rw [hfile] at hget
      cases hcontent : file.content with
      | text old =>
        refine .wrote _ hget ?_ (Nat.lt_succ_self _) rfl
        simp [DraftFile.retyped, hcontent]
      | bytes bytes =>
        have hsame : file.retyped t.state.made text = file := by simp [DraftFile.retyped, hcontent]
        rw [Option.map_some, hsame] at hget
        exact .marked (hget.trans hfile.symm) rfl hheard

/-- The three actions that set a draft set a new object. -/
theorem acts_set {files : OrderedMap String DraftFile} {project : ProjectManifest} {draft : DraftFile}
    (hfiles : ∀ p, p ≠ path → files.get p = t.state.files.get p) (hnew : draft.stamp = t.state.made) :
    Acts t { t with state := { t.state with
        files := files.set path draft
        project := project
        pending := touched t.state.pending path
        made := t.state.made + 1 } } path where
  service := rfl
  flight := rfl
  saved := rfl
  made := Nat.le_succ _
  others p hp := by
    change (files.set path draft).get p = _
    rw [OrderedMap.get_set_of_ne _ hp, hfiles p hp]
  change := .wrote draft (OrderedMap.get_set_self _ _ _) hnew (Nat.lt_succ_self _) rfl

theorem acts_project (project : ProjectManifest) : Acts t (t.step (.project project)) PROJECT_PATH :=
  acts_set (fun _ _ => rfl) rfl

theorem acts_importFile (draft : DraftFile) : Acts t (t.step (.importFile path draft)) path :=
  acts_set (fun _ hp => OrderedMap.get_delete_of_ne _ hp) rfl

theorem acts_add : Acts t (t.step (.add path)) path := by
  by_cases h : path = "" ∨ t.state.files.has path = true
  · have hsame : t.step (.add path) = t := by simp only [step, dispatch, workspaceReducer, if_pos h]
    rw [hsame]
    exact ⟨rfl, rfl, rfl, le_rfl, fun _ _ => rfl, .nothing rfl⟩
  · have hset : t.step (.add path) = { t with state := { t.state with
        files := t.state.files.set path (draftFromText t.state.made path "")
        pending := touched t.state.pending path
        made := t.state.made + 1 } } := by
      simp only [step, dispatch, workspaceReducer, if_neg h]
    rw [hset]
    exact acts_set (fun _ _ => rfl) rfl

theorem acts_remove (h : t.Heard (.remove path)) : Acts t (t.step (.remove path)) path where
  service := rfl
  flight := rfl
  saved := rfl
  made := le_rfl
  others _ hp := OrderedMap.get_delete_of_ne _ hp
  change := .removed (OrderedMap.get_delete_self _ _) rfl (fun f hf => h f hf)

/-! ### What an action leaves accounted for -/

namespace Acts

variable (h : Acts t t' path)
include h

theorem landed_eq : t'.landed = t.landed := by simp only [landed, h.service, h.flight]

/-- At every other path nothing has changed. -/
theorem pending_iff (hp : p ≠ path) :
    (p ∈ t'.state.pending.upserted ↔ p ∈ t.state.pending.upserted) ∧
      (p ∈ t'.state.pending.removed ↔ p ∈ t.state.pending.removed) := by
  cases h.change with
  | wrote _ _ _ _ pending => simp [pending, hp]
  | marked _ pending | removed _ pending => simp [pending, hp]
  | nothing same => simp [same]

theorem owesDelete_iff (hp : p ≠ path) : t'.OwesDelete p ↔ t.OwesDelete p := by
  simp only [OwesDelete, (h.pending_iff hp).2, h.flight]

theorem owesUpsert_iff (hp : p ≠ path) : t'.OwesUpsert p ↔ t.OwesUpsert p := by
  simp only [OwesUpsert, (h.pending_iff hp).1, h.flight, WorkspaceState.edited, h.others p hp]

/-- The save in flight is none of an action's business, unless a path holds a new object. -/
theorem sent {f : Flight} (hs : t.Sent f p)
    (hsame : ∀ draft, t'.state.files.get p = some draft →
      t.state.files.get p = some draft ∨ draft.stamp = t.state.made) : t'.Sent f p where
  older draft hdraft := (hs.older draft hdraft).trans_le h.made
  same draft draft' hdraft hdraft' hstamp := by
    obtain hold | hnew := hsame draft hdraft
    · exact hs.same draft draft' hold hdraft' hstamp
    · have hlt := hs.older draft' hdraft'
      omega
  written := by rw [h.landed_eq]; exact hs.written
  deleted := by rw [h.landed_eq]; exact hs.deleted
  answered := by rw [h.service]; exact hs.answered

theorem accounted_other (hp : p ≠ path) (ha : t.Accounted p) : t'.Accounted p where
  agree := by
    rw [h.landed_eq, draftAt, h.others p hp, h.owesUpsert_iff hp, h.owesDelete_iff hp]
    exact ha.agree
  phantom := by
    rw [h.landed_eq, h.others p hp, h.owesUpsert_iff hp]
    exact ha.phantom
  removed := by
    rw [h.others p hp, (h.pending_iff hp).2]
    exact ha.removed
  known := by
    rw [h.landed_eq, h.saved, h.flight]
    exact ha.known
  older draft hdraft := by
    rw [h.others p hp] at hdraft
    exact (ha.older draft hdraft).trans_le h.made
  sent f hf := by
    rw [h.flight] at hf
    apply h.sent (ha.sent f hf)
    intro draft hdraft
    rw [h.others p hp] at hdraft
    exact .inl hdraft

theorem known (ha : t.Accounted p) :
    p ∉ t'.state.saved.map (·.path) → t'.landed.files.get p = none ∨ ∃ f, t'.flight = some f ∧ f.Upserts p := by
  rw [h.landed_eq, h.saved, h.flight]
  exact ha.known

/-- A path with a new object is owed a write. -/
theorem accounted_wrote {draft : DraftFile} (ha : t.Accounted path)
    (held : t'.state.files.get path = some draft) (new : draft.stamp = t.state.made)
    (made : t.state.made < t'.state.made) (pending : t'.state.pending = touched t.state.pending path) :
    t'.Accounted path := by
  have hdraft : ∀ draft', t'.state.files.get path = some draft' → draft'.stamp = t.state.made := by
    intro draft' hdraft'
    rw [held, Option.some.injEq] at hdraft'
    rw [← hdraft', new]
  have howes : t'.OwesUpsert path := by
    refine ⟨by simp [pending], fun f hf _ => ?_⟩
    rw [h.flight] at hf
    rw [WorkspaceState.edited, held, decide_eq_true_iff]
    cases hsent : f.drafts.get path with
    | none => nofun
    | some draft' =>
      have hlt := (ha.sent f hf).older draft' hsent
      simp only [Option.map_some, ne_eq, Option.some.injEq]
      omega
  exact
    { agree := .inr (.inl howes)
      phantom := fun _ hnone => by rw [held] at hnone; cases hnone
      removed := fun hp => by simp [pending] at hp
      known := h.known ha
      older := fun draft' hdraft' => (hdraft draft' hdraft').trans_lt made
      sent := fun f hf => h.sent (ha.sent f (h.flight ▸ hf)) (fun draft' hdraft' => .inr (hdraft draft' hdraft')) }

/-- A path written to with nothing new there is owed a write, unless the save in flight has it. -/
theorem accounted_marked (ha : t.Accounted path) (held : t'.state.files.get path = t.state.files.get path)
    (pending : t'.state.pending = touched t.state.pending path)
    (heard : path ∈ t.state.pending.removed → ∃ f, t.flight = some f ∧ path ∈ f.sent.removed) :
    t'.Accounted path := by
  have hnone : t.state.files.get path = none → t.landed.files.get path = none := by
    intro hfile
    by_cases hremoved : path ∈ t.state.pending.removed
    · obtain ⟨f, hf, hdelete⟩ := heard hremoved
      exact (ha.sent f hf).deleted hdelete
    · obtain hagree | hupsert | hdelete := ha.agree
      · rw [hagree, draftAt, hfile]
        rfl
      · exact ha.phantom hupsert hfile
      · exact absurd hdelete.1 hremoved
  have hagree : ¬ t'.OwesUpsert path → t.landed.files.get path = t.draftAt path := by
    intro howes
    have hmem : path ∈ t'.state.pending.upserted := by simp [pending]
    simp only [OwesUpsert, hmem, true_and, not_forall] at howes
    obtain ⟨f, hf, hsent, hedited⟩ := howes
    rw [h.flight] at hf
    rw [WorkspaceState.edited, held, decide_eq_true_iff, not_not] at hedited
    cases hfile : t.state.files.get path with
    | none => rw [hnone hfile, draftAt, hfile]; rfl
    | some draft =>
      cases hdrafts : f.drafts.get path with
      | none => simp [hfile, hdrafts] at hedited
      | some draft' =>
        simp only [hfile, hdrafts, Option.map_some, Option.some.injEq] at hedited
        obtain rfl := (ha.sent f hf).same draft draft' hfile hdrafts hedited
        rw [(ha.sent f hf).written draft hsent hdrafts, draftAt, hfile]
        rfl
  exact
    { agree := by
        rw [h.landed_eq, show t'.draftAt path = t.draftAt path by simp only [draftAt, held]]
        by_cases howes : t'.OwesUpsert path
        · exact .inr (.inl howes)
        · exact .inl (hagree howes)
      phantom := fun _ hfile => by rw [h.landed_eq]; exact hnone (held ▸ hfile)
      removed := fun hp => by simp [pending] at hp
      known := h.known ha
      older := fun draft hdraft => (ha.older draft (held ▸ hdraft)).trans_le h.made
      sent := fun f hf => h.sent (ha.sent f (h.flight ▸ hf)) (fun draft hdraft => .inl (held ▸ hdraft)) }

/-- A removed path is owed a delete, unless the service holds nothing there to delete. -/
theorem accounted_removed (ha : t.Accounted path) (held : t'.state.files.get path = none)
    (pending : t'.state.pending = dropped t.state.pending path (t.state.saved.any (·.path = path)))
    (heard : ∀ f, t.flight = some f → f.Upserts path → path ∈ t.state.saved.map (·.path)) :
    t'.Accounted path := by
  have hagree : t.landed.files.get path = none ∨ t'.OwesDelete path := by
    by_cases hsaved : path ∈ t.state.saved.map (·.path)
    · have hmem : path ∈ t'.state.pending.removed := by
        have hany : t.state.saved.any (·.path = path) = true := by simpa using hsaved
        simp [pending, hany]
      by_cases hdelete : ∃ f, t.flight = some f ∧ path ∈ f.sent.removed
      · obtain ⟨f, hf, hsent⟩ := hdelete
        exact .inl ((ha.sent f hf).deleted hsent)
      · exact .inr ⟨hmem, fun f hf hsent => hdelete ⟨f, h.flight ▸ hf, hsent⟩⟩
    · obtain hnone | ⟨f, hf, hupserts⟩ := ha.known hsaved
      · exact .inl hnone
      · exact absurd (heard f hf hupserts) hsaved
  exact
    { agree := by
        rw [h.landed_eq, show t'.draftAt path = none by simp only [draftAt, held, Option.map_none]]
        exact hagree.imp_right .inr
      phantom := fun howes _ => by simp [OwesUpsert, pending] at howes
      removed := fun _ => held
      known := h.known ha
      older := fun draft hdraft => by rw [held] at hdraft; cases hdraft
      sent := fun f hf => h.sent (ha.sent f (h.flight ▸ hf))
        (fun draft hdraft => by rw [held] at hdraft; cases hdraft) }

/-- Every path an action meets accounted for, it leaves accounted for. -/
theorem accounted (ha : ∀ p, t.Accounted p) (p : String) : t'.Accounted p := by
  by_cases hp : p = path
  · subst hp
    cases h.change with
    | wrote draft held new made pending => exact h.accounted_wrote (ha p) held new made pending
    | marked held pending heard => exact h.accounted_marked (ha p) held pending heard
    | removed held pending heard => exact h.accounted_removed (ha p) held pending heard
    | nothing same =>
      have hsame : t' = t := by
        obtain ⟨state, service, flight⟩ := t'
        exact (Tab.mk.injEq ..).mpr ⟨same, h.service, h.flight⟩
      rw [hsame]
      exact ha p
  · exact h.accounted_other hp (ha p)

end Acts

/-! ### A save, from its sending to its answer -/

/-- A path the state before a save accounts for is one the save brings up to date. -/
theorem get_landed_save (ha : t.Accounted p) (hidle : t.flight = none) :
    (t.service.save (saveOf t.state.revision t.state.files t.state.pending).1
      (saveOf t.state.revision t.state.files t.state.pending).2).files.get p = t.draftAt p := by
  have hlanded : t.landed = t.service := by simp only [landed, hidle]
  have howes : t.OwesUpsert p ↔ p ∈ t.state.pending.upserted := by simp [OwesUpsert, hidle]
  have howes' : t.OwesDelete p ↔ p ∈ t.state.pending.removed := by simp [OwesDelete, hidle]
  by_cases hupsert : p ∈ t.state.pending.upserted
  · cases hfile : t.state.files.get p with
    | some draft => rw [get_save_of_mem hupsert (by rw [hfile]; rfl), draftAt, hfile]; rfl
    | none =>
      have hnone := ha.phantom (howes.mpr hupsert) hfile
      rw [hlanded] at hnone
      rw [get_save_of_none (fun _ => hfile), hnone, ite_self, draftAt, hfile]
      rfl
  · rw [get_save_of_none (fun hp => absurd hp hupsert)]
    by_cases hremoved : p ∈ t.state.pending.removed
    · rw [if_pos hremoved, draftAt, ha.removed hremoved]
      rfl
    · rw [if_neg hremoved]
      have hagree := ha.agree
      rw [howes, howes', hlanded] at hagree
      exact (hagree.resolve_right (fun h => h.elim hupsert hremoved))

/-- A path the tab had no answer for is one the save writes, or the service lacks. -/
theorem known_save (ha : t.Accounted p) (hidle : t.flight = none) (hsaved : p ∉ t.state.saved.map (·.path)) :
    (t.service.save (saveOf t.state.revision t.state.files t.state.pending).1
        (saveOf t.state.revision t.state.files t.state.pending).2).files.get p = none ∨
      ∃ f, some (Flight.mk t.state.revision t.state.pending t.state.files none) = some f ∧ f.Upserts p := by
  have hnone : t.service.files.get p = none := by
    obtain hnone | ⟨f, hf, -⟩ := ha.known hsaved
    · simpa only [landed, hidle] using hnone
    · rw [hidle] at hf
      cases hf
  by_cases hwrites : p ∈ t.state.pending.upserted ∧ ∃ draft, t.state.files.get p = some draft
  · exact .inr ⟨_, rfl, Flight.upserts_iff.mpr hwrites⟩
  · left
    rw [get_save_of_none, hnone, ite_self]
    intro hp
    rw [Option.eq_none_iff_forall_ne_some]
    exact fun draft hdraft => hwrites ⟨hp, draft, hdraft⟩

/-- Sending a save leaves every path as the state it was sent from has it. -/
theorem accounted_save (ha : ∀ p, t.Accounted p) (p : String) : t.save.Accounted p := by
  unfold save
  split_ifs with hsend
  · obtain ⟨-, hidle⟩ := hsend
    have hlanded := get_landed_save (ha p) hidle
    exact
      { agree := .inl hlanded
        phantom := fun _ hfile => hlanded.trans (by rw [draftAt, hfile]; rfl)
        removed := (ha p).removed
        known := fun hsaved => known_save (ha p) hidle hsaved
        older := (ha p).older
        sent := fun f hf => by
          obtain rfl := Option.some.inj hf
          exact
            { older := (ha p).older
              same := fun draft draft' hdraft hdraft' _ => Option.some.inj (hdraft.symm.trans hdraft')
              written := fun draft hp hdraft => get_save_of_mem hp (by rw [hdraft]; rfl)
              deleted := fun hp => hlanded.trans (by rw [draftAt, (ha p).removed hp]; rfl)
              answered := nofun } }
  · exact ha p

/-- The service applying the save changes nothing of what it holds once it has. -/
theorem accounted_apply (ha : t.Accounted p) : t.apply.Accounted p := by
  cases hf : t.flight with
  | none =>
    have hsame : t.apply = t := by simp only [apply, hf]
    rw [hsame]
    exact ha
  | some f =>
    by_cases hanswer : f.answer = none
    · have happly : t.apply = { t with
          service := t.service.save f.save f.uploads
          flight := some { f with answer := some (t.service.save f.save f.uploads).workspace } } := by
        simp only [apply, hf, if_pos hanswer]
      have hlanded : t.apply.landed = t.landed := by simp [happly, landed, hf, hanswer]
      have hupsert : t.apply.OwesUpsert p ↔ t.OwesUpsert p := by simp [happly, OwesUpsert, hf]
      have hdelete : t.apply.OwesDelete p ↔ t.OwesDelete p := by simp [happly, OwesDelete, hf]
      have hstate : t.apply.state = t.state := by rw [happly]
      have hsent := ha.sent f hf
      exact
        { agree := by
            rw [hlanded, hupsert, hdelete, draftAt, hstate]
            exact ha.agree
          phantom := by rw [hlanded, hupsert, hstate]; exact ha.phantom
          removed := by rw [hstate]; exact ha.removed
          known := by
            rw [hlanded, hstate]
            intro hsaved
            obtain hnone | ⟨f', hf', hupserts⟩ := ha.known hsaved
            · exact .inl hnone
            · obtain rfl := Option.some.inj (hf.symm.trans hf')
              exact .inr ⟨{ f with answer := some (t.service.save f.save f.uploads).workspace },
                by rw [happly], hupserts⟩
          older := by rw [hstate]; exact ha.older
          sent := fun f' hf' => by
            rw [happly] at hf'
            obtain rfl := Option.some.inj hf'
            exact
              { older := by rw [hstate]; exact hsent.older
                same := by rw [hstate]; exact hsent.same
                written := by rw [hlanded]; exact hsent.written
                deleted := by rw [hlanded]; exact hsent.deleted
                answered := fun workspace hworkspace => by
                  rw [happly]
                  exact (Option.some.inj hworkspace).symm } }
    · have hsame : t.apply = t := by simp only [apply, hf, if_neg hanswer]
      rw [hsame]
      exact ha

theorem mem_workspace_files {held : GameFiles} : p ∈ held.workspace.files.map (·.path) ↔ held.files.get p ≠ none := by
  rw [← OrderedMap.mem_keys_iff_ne_none]
  simp [GameFiles.workspace, OrderedMap.keys]

/-- What is pending after an answer is what was owed before it. -/
theorem accounted_answer (ha : t.Accounted p) : t.answer.Accounted p := by
  unfold answer
  split
  · next f hf =>
    split
    · next workspace hanswer =>
      have hworkspace := (ha.sent f hf).answered workspace hanswer
      have hlanded : t.landed = t.service := by simp [landed, hf, hanswer]
      have hupsert : p ∈ (workspaceReducer t.state (.saved workspace f.sent f.drafts)).pending.upserted ↔
          t.OwesUpsert p := by
        simp [workspaceReducer, OwesUpsert, hf, ← imp_iff_not_or]
      have hdelete : p ∈ (workspaceReducer t.state (.saved workspace f.sent f.drafts)).pending.removed ↔
          t.OwesDelete p := by
        simp [workspaceReducer, OwesDelete, hf]
      have hagree := ha.agree
      rw [hlanded, ← hupsert, ← hdelete] at hagree
      exact
        { agree := hagree.imp_right (Or.imp (fun h => ⟨h, nofun⟩) (fun h => ⟨h, nofun⟩))
          phantom := fun howes hfile => by
            have hnone := ha.phantom (hupsert.mp howes.1) hfile
            rw [hlanded] at hnone
            exact hnone
          removed := fun hp => ha.removed (hdelete.mp hp).1
          known := fun hsaved => by
            change p ∉ workspace.files.map _ at hsaved
            rw [hworkspace, mem_workspace_files, not_not] at hsaved
            exact .inl hsaved
          older := ha.older
          sent := nofun }
    · exact ha
  · exact ha

/-! ### Runs -/

theorem accounted_step (ha : ∀ p, t.Accounted p) {e : Step} (h : t.Heard e) (p : String) : (t.step e).Accounted p := by
  cases e with
  | edit path text => exact (acts_edit h).accounted ha p
  | project project => exact (acts_project project).accounted ha p
  | add path => exact acts_add.accounted ha p
  | importFile path draft => exact (acts_importFile draft).accounted ha p
  | remove path => exact (acts_remove h).accounted ha p
  | save => exact accounted_save ha p
  | apply => exact accounted_apply (ha p)
  | answer => exact accounted_answer (ha p)

/-- A tab that has just opened a game agrees with the service, or owes it the whole template. -/
theorem accounted_opening {held : GameFiles} {template : OrderedMap String String} {project : ProjectManifest} :
    (opening held template project).Accounted p := by
  have hlanded : (opening held template project).landed = held := rfl
  by_cases hsize : held.files.size = 0
  · have hopen : openGame held template project = ⟨held.revision, [], seedFrom template project, project, true⟩ :=
      if_pos hsize
    have hnone : held.files.get p = none := OrderedMap.get_of_size_eq_zero _ hsize p
    have hfiles : (opening held template project).state.files = seedFrom template project := by
      rw [opening, hopen, initialWorkspace]
    have hpending : (opening held template project).state.pending = ⟨(seedFrom template project).keys, []⟩ := by
      rw [opening, hopen, initialWorkspace]
      rfl
    exact
      { agree := by
          cases hfile : (seedFrom template project).get p with
          | none => exact .inl (by rw [hlanded, hnone, draftAt, hfiles, hfile]; rfl)
          | some draft =>
            refine .inr (.inl ⟨?_, nofun⟩)
            rw [hpending]
            exact OrderedMap.mem_keys_iff _ |>.mpr ⟨draft, hfile⟩
        phantom := fun _ _ => hnone
        removed := fun hp => by rw [hpending] at hp; cases hp
        known := fun _ => .inl hnone
        older := fun draft hdraft => by
          rw [hfiles] at hdraft
          rw [stamp_seedFrom hdraft]
          exact Nat.one_pos
        sent := nofun }
  · have hopen : openGame held template project =
        ⟨held.revision, held.workspace.files, held.files.map (fun _ => StoredFile.draft), project, false⟩ :=
      if_neg hsize
    have hfiles : (opening held template project).state.files = held.files.map (fun _ => StoredFile.draft) := by
      rw [opening, hopen, initialWorkspace]
    have hpending : (opening held template project).state.pending = NOTHING_PENDING := by
      rw [opening, hopen, initialWorkspace]
      rfl
    have hsaved : (opening held template project).state.saved = held.workspace.files := by
      rw [opening, hopen, initialWorkspace]
    exact
      { agree := by
          left
          rw [hlanded, draftAt, hfiles, OrderedMap.get_map, Option.map_map]
          cases held.files.get p with
          | none => rfl
          | some file => simp
        phantom := fun howes _ => by
          have hp := howes.1
          rw [hpending] at hp
          cases hp
        removed := fun hp => by rw [hpending] at hp; cases hp
        known := fun hp => by
          rw [hsaved, mem_workspace_files, not_not] at hp
          exact .inl hp
        older := fun draft hdraft => by
          rw [hfiles, OrderedMap.get_map, Option.map_eq_some_iff] at hdraft
          obtain ⟨file, -, rfl⟩ := hdraft
          rw [StoredFile.stamp_draft]
          exact Nat.one_pos
        sent := nofun }

/-- A save in flight changes the service on the paths it carries only. -/
theorem landed_of_not_carried (h : ∀ f, t.flight = some f → ¬ f.Carries p) :
    t.landed.files.get p = t.service.files.get p := by
  unfold landed
  split
  · next f hf =>
    split_ifs with hanswer
    · have hcarries := h f hf
      rw [Flight.Carries, not_or, Flight.upserts_iff] at hcarries
      have hnone : p ∈ f.sent.upserted → f.drafts.get p = none := by
        intro hp
        rw [Option.eq_none_iff_forall_ne_some]
        exact fun draft hdraft => hcarries.1 ⟨hp, draft, hdraft⟩
      exact (get_save_of_none hnone).trans (if_neg hcarries.2)
    · rfl
  · rfl

/-- Where every path is accounted for, what differs is pending or on its way. -/
theorem converged_of_accounted (ha : ∀ p, t.Accounted p) : t.Converged := by
  refine ⟨fun hpending hidle path => ?_, fun path hdiffers => ?_⟩
  · obtain ⟨hupserted, hremoved⟩ := isPending_eq_false.mp hpending
    have hlanded : t.landed = t.service := by simp only [landed, hidle]
    obtain hagree | howes | howes := (ha path).agree
    · rw [← hlanded]
      exact hagree
    · rw [OwesUpsert, hupserted] at howes
      cases howes.1
    · rw [OwesDelete, hremoved] at howes
      cases howes.1
  · by_cases hcarried : ∃ f, t.flight = some f ∧ f.Carries path
    · exact .inr (.inr hcarried)
    · have hlanded : t.landed.files.get path = t.service.files.get path :=
        landed_of_not_carried fun f hf hcarries => hcarried ⟨f, hf, hcarries⟩
      obtain hagree | howes | howes := (ha path).agree
      · rw [hlanded] at hagree
        exact absurd hagree hdiffers
      · exact .inl howes.1
      · exact .inr (.inl howes.1)

/-- In every run in which the tab knows what the service has heard of, the editor and the service
converge. -/
theorem drafts_reach_service (held : GameFiles) (template : OrderedMap String String) (project : ProjectManifest)
    (steps : List Step) (h : Meets step Heard (opening held template project) steps) :
    (exec step (opening held template project) steps).Converged := by
  have hstep : ∀ (t : Tab) (e : Step), (∀ p, t.Accounted p) → t.Heard e → ∀ p, (t.step e).Accounted p :=
    fun _ _ ha hheard => accounted_step ha hheard
  exact converged_of_accounted (h.invariant hstep fun _ => accounted_opening)

/-- One TypeScript file, saved. -/
def mainOnly : GameFiles := ⟨1, OrderedMap.empty.set "main.ts" (.source "text/typescript" "" rfl)⟩

theorem drafts_reach_service_main :
    Meets step Heard (opening mainOnly .empty ⟨""⟩)
        [.edit "main.ts" "a", .save, .edit "main.ts" "b", .apply, .answer, .save, .apply, .answer] ∧
      (exec step (opening mainOnly .empty ⟨""⟩)
        [.edit "main.ts" "a", .save, .edit "main.ts" "b", .apply, .answer, .save, .apply, .answer]).Converged := by
  have h : Meets step Heard (opening mainOnly .empty ⟨""⟩)
      [.edit "main.ts" "a", .save, .edit "main.ts" "b", .apply, .answer, .save, .apply, .answer] := by
    decide
  exact ⟨h, drafts_reach_service _ _ _ _ h⟩

/-- A file added, saved, and removed before the answer stays with the service, with nothing pending;
so does one whose delete an edit took back, which has nothing to send. -/
theorem removed_file_stays :
    ¬ (exec step (opening mainOnly .empty ⟨""⟩) [.add "a.ts", .save, .remove "a.ts", .apply, .answer]).Converged ∧
      ¬ (exec step (opening mainOnly .empty ⟨""⟩)
        [.remove "main.ts", .edit "main.ts" "", .save, .apply, .answer]).Converged := by
  constructor
  · intro h
    exact absurd (h.1 (by decide) (by decide) "a.ts") (by decide)
  · intro h
    exact absurd (h.1 (by decide) (by decide) "main.ts") (by decide)

end Tab
end Editor
end Grove
