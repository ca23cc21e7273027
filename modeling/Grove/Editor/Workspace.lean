import Grove.Lib.OrderedMap
import Mathlib

/-! # The workspace of an editor

`WorkspaceState` is the game as one tab holds it: the drafts, what the service last saved, and
what is still owed.  `workspaceReducer` is the only thing that changes it, and `saveOf` is what
one save sends of it.

Drafts are kept by path, in the order they were added.  An edit makes a new object of a draft, and
what a finished save has settled is decided by which object a path holds, so a draft carries a
stamp that no other object at its path has: `made` counts the objects a tab has made. -/

namespace Grove
namespace Editor

def TYPES : List (String × String) :=
  [("ts", "text/typescript"), ("js", "text/javascript"), ("json", "application/json"),
    ("md", "text/markdown"), ("txt", "text/plain"), ("css", "text/css"), ("html", "text/html"),
    ("png", "image/png"), ("jpg", "image/jpeg"), ("jpeg", "image/jpeg"), ("gif", "image/gif"),
    ("webp", "image/webp"), ("svg", "image/svg+xml"), ("wav", "audio/wav"), ("mp3", "audio/mpeg"),
    ("ogg", "audio/ogg")]

def UNKNOWN_TYPE : String := "application/octet-stream"

/-- What a path is stored under: only ASCII letters lower to a known extension. -/
def mediaTypeOf (path : String) : String :=
  let extension := (path.toList.reverse.takeWhile (· ≠ '.')).reverse.map Char.toLower
  (TYPES.lookup (String.ofList extension)).getD UNKNOWN_TYPE

def isText (contentType : String) : Bool :=
  "text/".toList.isPrefixOf contentType.toList || contentType == "application/json"

/-- The text of a draft or its bytes: one of the two is set. -/
inductive Content where
  | text (text : String)
  | bytes (bytes : ByteArray)
deriving DecidableEq

def Content.text? : Content → Option String
  | .text t => some t
  | .bytes _ => none

/-- One file as the editor holds it.  What arrived as bytes of a text type was decoded. -/
structure DraftFile where
  stamp : ℕ
  contentType : String
  content : Content
  textual : isText contentType = true → content.text?.isSome = true
deriving DecidableEq

def draftFromText (stamp : ℕ) (path text : String) : DraftFile :=
  ⟨stamp, mediaTypeOf path, .text text, fun _ => rfl⟩

def bytesOf (draft : DraftFile) : ByteArray :=
  match draft.content with
  | .text text => text.toUTF8
  | .bytes bytes => bytes

/-- A new object with other text; an asset has no text to replace. -/
def DraftFile.retyped (stamp : ℕ) (text : String) (draft : DraftFile) : DraftFile :=
  match draft.content with
  | .text _ => ⟨stamp, draft.contentType, .text text, fun _ => rfl⟩
  | .bytes _ => draft

/-- A project's manifest, as the text `writeProject` gives it: nothing here reads its fields. -/
structure ProjectManifest where
  written : String
deriving DecidableEq

def PROJECT_PATH : String := "project.json"

def writeProject (project : ProjectManifest) : String := project.written

def projectDraft (stamp : ℕ) (project : ProjectManifest) : DraftFile :=
  draftFromText stamp PROJECT_PATH (writeProject project)

/-! ### What a save still owes -/

structure Pending where
  upserted : List String
  removed : List String
deriving DecidableEq

def NOTHING_PENDING : Pending := ⟨[], []⟩

def isPending (pending : Pending) : Bool := !pending.upserted.isEmpty || !pending.removed.isEmpty

/-- A path was written to, which takes back a delete of it that has not been saved yet. -/
def touched (pending : Pending) (path : String) : Pending :=
  ⟨addNew pending.upserted path, pending.removed.filter (· ≠ path)⟩

/-- A path was removed; a path the service never saved is not sent as a delete. -/
def dropped (pending : Pending) (path : String) (saved : Bool) : Pending :=
  ⟨pending.upserted.filter (· ≠ path), if saved then addNew pending.removed path else pending.removed⟩

section
variable {pending : Pending} {path q : String}

theorem isPending_eq_false : isPending pending = false ↔ pending.upserted = [] ∧ pending.removed = [] := by
  simp [isPending]

@[simp] theorem mem_touched_upserted :
    q ∈ (touched pending path).upserted ↔ q ∈ pending.upserted ∨ q = path := mem_addNew

@[simp] theorem mem_touched_removed :
    q ∈ (touched pending path).removed ↔ q ∈ pending.removed ∧ q ≠ path := by
  simp [touched]

@[simp] theorem mem_dropped_upserted {saved : Bool} :
    q ∈ (dropped pending path saved).upserted ↔ q ∈ pending.upserted ∧ q ≠ path := by
  simp [dropped]

@[simp] theorem mem_dropped_removed {saved : Bool} :
    q ∈ (dropped pending path saved).removed ↔ q ∈ pending.removed ∨ saved = true ∧ q = path := by
  cases saved <;> simp [dropped]

end

/-! ### What the service holds -/

/-- A file as a workspace lists it. -/
structure WorkspaceFile where
  path : String
  contentType : String
deriving DecidableEq

structure Workspace where
  revision : ℕ
  files : List WorkspaceFile
deriving DecidableEq

/-- A source is text and an asset is bytes. -/
inductive StoredFile where
  | source (contentType text : String) (isSource : isText contentType = true)
  | asset (contentType : String) (bytes : ByteArray) (isAsset : isText contentType = false)
deriving DecidableEq

def StoredFile.contentType : StoredFile → String
  | source contentType _ _ | asset contentType _ _ => contentType

/-- The file a draft is stored as. -/
def DraftFile.stored (draft : DraftFile) : StoredFile :=
  if h : isText draft.contentType = true then
    .source draft.contentType (draft.content.text?.getD "") h
  else .asset draft.contentType (bytesOf draft) (Bool.eq_false_iff.mpr h)

/-- A source file as a save carries it. -/
structure SourceUpsert where
  path : String
  contentType : String
  text : String
  isSource : isText contentType = true
deriving DecidableEq

/-- An asset's bytes, put in the bucket before the save that names its path. -/
structure AssetUpload where
  path : String
  contentType : String
  bytes : ByteArray
  isAsset : isText contentType = false
deriving DecidableEq

def SourceUpsert.entry (s : SourceUpsert) : String × StoredFile := (s.path, .source s.contentType s.text s.isSource)

def AssetUpload.entry (u : AssetUpload) : String × StoredFile := (u.path, .asset u.contentType u.bytes u.isAsset)

structure WorkspaceSave where
  baseRevision : ℕ
  sources : List SourceUpsert
  assets : List String
  deletes : List String
deriving DecidableEq

/-- What one save sends: the text of every source written since the last one, the assets uploaded
beside it, and the paths removed. -/
def saveOf (baseRevision : ℕ) (drafts : OrderedMap String DraftFile) (pending : Pending) :
    WorkspaceSave × List AssetUpload :=
  let upserted := drafts.filter (fun path _ => path ∈ pending.upserted)
  let sources := upserted.entries.filterMap fun (path, draft) =>
    if h : isText draft.contentType = true then
      some ⟨path, draft.contentType, draft.content.text?.getD "", h⟩
    else none
  let assets := upserted.entries.filterMap fun (path, draft) =>
    if h : isText draft.contentType = false then some ⟨path, draft.contentType, bytesOf draft, h⟩ else none
  (⟨baseRevision, sources, assets.map (·.path), pending.removed⟩, assets)

/-- The files of one game, as the service holds them. -/
structure GameFiles where
  revision : ℕ
  files : OrderedMap String StoredFile
deriving DecidableEq

namespace GameFiles

def workspace (held : GameFiles) : Workspace :=
  ⟨held.revision, held.files.entries.map (fun e => ⟨e.1, e.2.contentType⟩)⟩

/-- A save whose assets have landed: the deletes, then the sources and the assets it names. -/
def save (held : GameFiles) (save : WorkspaceSave) (uploads : List AssetUpload) : GameFiles where
  revision := save.baseRevision + 1
  files :=
    ((held.files.filter (fun path _ => path ∉ save.deletes)).setAll (save.sources.map SourceUpsert.entry)).setAll
      ((uploads.filter (fun u => u.path ∈ save.assets)).map AssetUpload.entry)

end GameFiles

section
variable {base : ℕ} {drafts : OrderedMap String DraftFile} {pending : Pending} {p : String} {file : StoredFile}

theorem mem_upserted_iff {draft : DraftFile} :
    (p, draft) ∈ (drafts.filter (fun path _ => path ∈ pending.upserted)).entries ↔
      p ∈ pending.upserted ∧ drafts.get p = some draft := by
  rw [OrderedMap.mem_entries_iff, OrderedMap.get_filter, Option.filter_eq_some_iff]
  simp [and_comm]

/-- A save names every asset that was put beside it. -/
theorem uploads_named :
    (saveOf base drafts pending).2.filter (fun u => u.path ∈ (saveOf base drafts pending).1.assets) =
      (saveOf base drafts pending).2 := by
  apply List.filter_eq_self.mpr
  intro u hu
  exact decide_eq_true (List.mem_map.mpr ⟨u, hu, rfl⟩)

/-- What a save writes is the upserted drafts, as the files they are stored as. -/
theorem mem_written_iff :
    (p, file) ∈ (saveOf base drafts pending).1.sources.map SourceUpsert.entry ++
        (saveOf base drafts pending).2.map AssetUpload.entry ↔
      p ∈ pending.upserted ∧ (drafts.get p).map DraftFile.stored = some file := by
  simp only [saveOf, List.mem_append, List.mem_map, List.mem_filterMap, Prod.exists, mem_upserted_iff,
    Option.map_eq_some_iff]
  constructor
  · rintro (⟨s, ⟨path, draft, ⟨hp, hdraft⟩, hs⟩, heq⟩ | ⟨u, ⟨path, draft, ⟨hp, hdraft⟩, hu⟩, heq⟩)
    · by_cases h : isText draft.contentType = true
      · simp only [h, dite_true, Option.some.injEq] at hs
        subst hs
        obtain ⟨rfl, rfl⟩ := Prod.mk.inj heq
        exact ⟨hp, draft, hdraft, by simp [DraftFile.stored, h]⟩
      · simp [h] at hs
    · by_cases h : isText draft.contentType = false
      · simp only [h, dite_true, Option.some.injEq] at hu
        subst hu
        obtain ⟨rfl, rfl⟩ := Prod.mk.inj heq
        exact ⟨hp, draft, hdraft, by simp [DraftFile.stored, h]⟩
      · simp [h] at hu
  · rintro ⟨hp, draft, hdraft, rfl⟩
    by_cases h : isText draft.contentType = true
    · left
      refine ⟨⟨p, draft.contentType, draft.content.text?.getD "", h⟩, ⟨p, draft, ⟨hp, hdraft⟩, by simp [h]⟩, ?_⟩
      simp [SourceUpsert.entry, DraftFile.stored, h]
    · right
      have h' : isText draft.contentType = false := Bool.eq_false_iff.mpr h
      refine ⟨⟨p, draft.contentType, bytesOf draft, h'⟩, ⟨p, draft, ⟨hp, hdraft⟩, by simp [h']⟩, ?_⟩
      simp [AssetUpload.entry, DraftFile.stored, h']

variable {held : GameFiles}

theorem save_files :
    (held.save (saveOf base drafts pending).1 (saveOf base drafts pending).2).files =
      (held.files.filter (fun path _ => path ∉ pending.removed)).setAll
        ((saveOf base drafts pending).1.sources.map SourceUpsert.entry ++
          (saveOf base drafts pending).2.map AssetUpload.entry) := by
  unfold GameFiles.save OrderedMap.setAll
  rw [uploads_named, List.foldl_append]
  rfl

/-- A save writes every draft it upserts. -/
theorem get_save_of_mem (hp : p ∈ pending.upserted) (hfile : (drafts.get p).map DraftFile.stored = some file) :
    (held.save (saveOf base drafts pending).1 (saveOf base drafts pending).2).files.get p = some file := by
  rw [save_files]
  apply OrderedMap.get_setAll_of_mem _ (mem_written_iff.mpr ⟨hp, hfile⟩)
  intro file' hmem
  have hfile' := (mem_written_iff.mp hmem).2
  rw [hfile, Option.some.injEq] at hfile'
  exact hfile'.symm

/-- A save deletes what it was told to, and leaves every other path as it is. -/
theorem get_save_of_none (h : p ∈ pending.upserted → drafts.get p = none) :
    (held.save (saveOf base drafts pending).1 (saveOf base drafts pending).2).files.get p =
      if p ∈ pending.removed then none else held.files.get p := by
  have hnot : ∀ file, (p, file) ∉ (saveOf base drafts pending).1.sources.map SourceUpsert.entry ++
      (saveOf base drafts pending).2.map AssetUpload.entry := by
    intro file hmem
    obtain ⟨hp, hfile⟩ := mem_written_iff.mp hmem
    rw [h hp] at hfile
    cases hfile
  rw [save_files, OrderedMap.get_setAll_of_notMem _ hnot, OrderedMap.get_filter]
  by_cases hp : p ∈ pending.removed
  · cases held.files.get p <;> simp [hp]
  · cases held.files.get p <;> simp [hp]

end

/-! ### The state of a tab -/

structure WorkspaceState where
  files : OrderedMap String DraftFile
  /-- The set the service last saved, which is what a delete is measured against. -/
  saved : List WorkspaceFile
  revision : ℕ
  project : ProjectManifest
  pending : Pending
  made : ℕ
deriving DecidableEq

inductive WorkspaceAction where
  | edit (path text : String)
  | project (project : ProjectManifest)
  | add (path : String)
  | importFile (path : String) (draft : DraftFile)
  | remove (path : String)
  | saved (workspace : Workspace) (sent : Pending) (drafts : OrderedMap String DraftFile)
  | reloaded (revision : ℕ) (saved : List WorkspaceFile) (files : OrderedMap String DraftFile)
      (project : ProjectManifest)

/-- The path holds another object than the one sent. -/
def WorkspaceState.edited (state : WorkspaceState) (drafts : OrderedMap String DraftFile) (path : String) : Bool :=
  (state.files.get path).map DraftFile.stamp ≠ (drafts.get path).map DraftFile.stamp

def workspaceReducer (state : WorkspaceState) : WorkspaceAction → WorkspaceState
  | .edit path text =>
    { state with
      files := state.files.map fun p file => if p = path then file.retyped state.made text else file
      pending := touched state.pending path
      made := state.made + 1 }
  | .project project =>
    -- `set` replaces the manifest in place, or appends it
    { state with
      project := project
      files := state.files.set PROJECT_PATH (projectDraft state.made project)
      pending := touched state.pending PROJECT_PATH
      made := state.made + 1 }
  | .add path =>
    if path = "" ∨ state.files.has path = true then state
    else
      { state with
        files := state.files.set path (draftFromText state.made path "")
        pending := touched state.pending path
        made := state.made + 1 }
  | .importFile path draft =>
    { state with
      files := (state.files.delete path).set path draft
      pending := touched state.pending path
      made := state.made + 1 }
  | .remove path =>
    { state with
      files := state.files.delete path
      pending := dropped state.pending path (state.saved.any (·.path = path)) }
  | .saved workspace sent drafts =>
    { state with
      revision := workspace.revision
      saved := workspace.files
      pending :=
        { upserted := state.pending.upserted.filter fun path =>
            path ∉ sent.upserted ∨ state.edited drafts path = true
          removed := state.pending.removed.filter (· ∉ sent.removed) } }
  | .reloaded revision saved files project =>
    { state with files, saved, revision, project, pending := NOTHING_PENDING }

/-! ### Opening a game -/

/-- A file read back as a draft. -/
def StoredFile.draft : StoredFile → DraftFile
  | source contentType text _ => ⟨0, contentType, .text text, fun _ => rfl⟩
  | asset contentType bytes isAsset => ⟨0, contentType, .bytes bytes, fun h => by simp [isAsset] at h⟩

structure OpenGame where
  revision : ℕ
  saved : List WorkspaceFile
  files : OrderedMap String DraftFile
  project : ProjectManifest
  seeded : Bool

/-- A template's sources, and the manifest beside them. -/
def seedFrom (template : OrderedMap String String) (project : ProjectManifest) : OrderedMap String DraftFile :=
  (template.map (draftFromText 0)).set PROJECT_PATH (projectDraft 0 project)

@[simp] theorem StoredFile.stored_draft (file : StoredFile) : file.draft.stored = file := by
  cases file with
  | source contentType text isSource => simp [StoredFile.draft, DraftFile.stored, Content.text?, isSource]
  | asset contentType bytes isAsset => simp [StoredFile.draft, DraftFile.stored, bytesOf, isAsset]

@[simp] theorem StoredFile.stamp_draft (file : StoredFile) : file.draft.stamp = 0 := by cases file <;> rfl

theorem stamp_seedFrom {template : OrderedMap String String} {project : ProjectManifest} {p : String} {draft : DraftFile}
    (h : (seedFrom template project).get p = some draft) : draft.stamp = 0 := by
  rw [seedFrom, OrderedMap.get_set] at h
  split_ifs at h
  · obtain rfl := Option.some.inj h
    rfl
  · rw [OrderedMap.get_map, Option.map_eq_some_iff] at h
    obtain ⟨text, -, rfl⟩ := h
    rfl

/-- A game with nothing saved is seeded from a template in memory and left unsaved. -/
def openGame (held : GameFiles) (template : OrderedMap String String) (project : ProjectManifest) : OpenGame :=
  if held.files.size = 0 then ⟨held.revision, [], seedFrom template project, project, true⟩
  else ⟨held.revision, held.workspace.files, held.files.map (fun _ => StoredFile.draft), project, false⟩

/-- The objects of the opened files come first. -/
def initialWorkspace (opened : OpenGame) : WorkspaceState where
  files := opened.files
  saved := opened.saved
  revision := opened.revision
  project := opened.project
  pending := if opened.seeded then ⟨opened.files.keys, []⟩ else NOTHING_PENDING
  made := 1

end Editor
end Grove
