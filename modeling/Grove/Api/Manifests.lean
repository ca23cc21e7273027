import Grove.Api.Records
import Grove.Lib.Run
import Grove.Transport.Json

/-! # Manifests

A save of a workspace freezes its file set: inside its transaction it PUTs the manifest at
the key of the revision it claimed, and it commits when the bucket reports the PUT written.
The database serialises the saves of a game on its row, so the attempts at one revision come
one after the other; the bucket serialises nothing, and a PUT takes effect at any moment
after it is issued, whatever became of the transaction that issued it.

`manifest_prevails` is for the runs where no PUT lands over that of a later attempt at its
key, and `manifest_overwritten` is a run where one does. -/

namespace Grove.Api

/-! ### Encoding -/

structure Manifest where
  gameId : GameId
  revision : ℕ
  files : List WorkspaceFile
deriving DecidableEq

def FileKind.text : FileKind → String
  | source => "source"
  | asset => "asset"

def fileJson (file : WorkspaceFile) : JsonValue :=
  .object [("path", .string file.path), ("kind", .string file.kind.text), ("versionId", .string file.versionId),
    ("byteLength", .number file.byteLength), ("contentType", .string file.contentType)]

/-- `encodeManifest`, before `JSON.stringify`: member by member, in path order. -/
def encodeManifest (manifest : Manifest) : JsonValue :=
  .object [("gameId", .string manifest.gameId), ("revision", .number manifest.revision),
    ("files", .array ((manifest.files.insertionSort fun left right => left.path ≤ right.path).map fileJson))]

def parseString : JsonValue → Option String
  | .string s => some s
  | _ => none

/-- `z.int().nonnegative()`. -/
def parseInt : JsonValue → Option ℕ
  | .number q => if q.den = 1 ∧ 0 ≤ q.num then some q.num.toNat else none
  | _ => none

def parseKind : JsonValue → Option FileKind
  | .string s => if s = "source" then some .source else if s = "asset" then some .asset else none
  | _ => none

/-- A member of an object. -/
def member (name : String) : JsonValue → Option JsonValue
  | .object entries => OrderedMap.lookup name entries
  | _ => none

def parseFile (value : JsonValue) : Option WorkspaceFile := do
  let path ← (member "path" value).bind parseString
  let kind ← (member "kind" value).bind parseKind
  let versionId ← (member "versionId" value).bind parseString
  let byteLength ← (member "byteLength" value).bind parseInt
  let contentType ← (member "contentType" value).bind parseString
  pure ⟨path, kind, versionId, byteLength, contentType⟩

def parseFiles : JsonValue → Option (List WorkspaceFile)
  | .array items => items.mapM parseFile
  | _ => none

/-- `Manifest.safeParse` of the stored object: its revision is positive and no path stands twice. -/
def parseManifest (value : JsonValue) : Option Manifest := do
  let gameId ← (member "gameId" value).bind parseString
  let revision ← (member "revision" value).bind parseInt
  let files ← (member "files" value).bind parseFiles
  if 0 < revision ∧ (files.map WorkspaceFile.path).Nodup then pure ⟨gameId, revision, files⟩ else none

theorem parseInt_number (n : ℕ) : parseInt (.number n) = some n := by simp [parseInt]

theorem parseKind_text (kind : FileKind) : parseKind (.string kind.text) = some kind := by
  cases kind <;> rfl

theorem parseFile_fileJson (file : WorkspaceFile) : parseFile (fileJson file) = some file := by
  simp [parseFile, fileJson, member, parseString, parseInt_number, parseKind_text]

theorem parseFiles_array (files : List WorkspaceFile) : parseFiles (.array (files.map fileJson)) = some files := by
  unfold parseFiles
  induction files with
  | nil => rfl
  | cons file files ih => simp only [List.map_cons, List.mapM_cons, parseFile_fileJson, ih, Option.pure_def,
      Option.bind_eq_bind, Option.bind_some]

/-- What is read back is the manifest written, its files in path order. -/
theorem parse_encodeManifest {m : Manifest} (hpos : 0 < m.revision) (hpaths : (m.files.map WorkspaceFile.path).Nodup) :
    ∃ files, parseManifest (encodeManifest m) = some ⟨m.gameId, m.revision, files⟩ ∧ files.Perm m.files := by
  have hperm := List.perm_insertionSort (fun left right : WorkspaceFile => left.path ≤ right.path) m.files
  refine ⟨_, ?_, hperm⟩
  have hsorted := (hperm.map WorkspaceFile.path).nodup_iff.mpr hpaths
  simp [parseManifest, encodeManifest, member, parseString, parseInt_number, parseFiles_array,
    hpos, hsorted]

/-- Where the manifest of a revision is kept. -/
def manifestKey (game : GameId) (revision : ℕ) : String := game ++ "/manifests/" ++ toString revision ++ ".json"

theorem manifestKey_injective {game : GameId} {r r' : ℕ} (h : manifestKey game r = manifestKey game r') : r = r' := by
  unfold manifestKey at h
  rw [String.append_left_inj, String.append_right_inj] at h
  have hdigits : Nat.toDigits 10 r = Nat.toDigits 10 r' := String.ofList_injective h
  rw [← Nat.ofDigitChars_toDigits (b := 10) (n := r) (by decide) (by decide), hdigits,
    Nat.ofDigitChars_toDigits (by decide) (by decide)]

/-! ### Saves -/

/-- A `saveWorkspace` call, by where its transaction stands. -/
inductive Save where
  | asked (plan : SavePlan)
  /-- It has claimed the revision and written its rows, which nothing else reads yet, and
  its manifest is on the way in this PUT. -/
  | freezing (db : Records) (revision : ℕ) (files : List WorkspaceFile) (put : ℕ)
  | answered (out : WorkspaceSaved)

/-- The call holds the game's row. -/
def Save.holds : Save → Bool
  | freezing _ _ _ _ => true
  | _ => false

structure Put where
  key : String
  body : JsonValue

/-- The tables, the saves on one game, the PUTs issued so far, those that have taken effect,
and the one whose body each key holds. -/
structure Saves where
  db : Records
  saves : List Save
  puts : List Put
  landed : List ℕ
  bucket : OrderedMap String ℕ

namespace Saves

inductive Step where
  | save (plan : SavePlan)
  | claim (i : ℕ)
  /-- A PUT takes effect, which a client that resends it can make happen again. -/
  | land (put : ℕ)
  | written (i : ℕ)
  | unavailable (i : ℕ)
  /-- The transaction is over its time, or lost its connection. -/
  | expire (i : ℕ)
deriving DecidableEq

variable (game : GameId)

/-- A game nothing has been saved to. -/
def start : Saves := ⟨⟨OrderedMap.empty.set game 0, .empty, [], .empty⟩, [], [], [], .empty⟩

variable (d : Saves)

def answer (i : ℕ) (out : WorkspaceSaved) : Saves := { d with saves := d.saves.set i (.answered out) }

/-- The claim of the revision and the rows behind it; a claim while the row is held waits. -/
def claim (i : ℕ) : Saves :=
  match d.saves[i]? with
  | some (.asked plan) =>
    if d.saves.any Save.holds then d
    else match d.db.saveWorkspace game plan true with
      | (db, .saved revision files) =>
        { d with saves := d.saves.set i (.freezing db revision files d.puts.length)
                 puts := d.puts ++ [⟨manifestKey game revision, encodeManifest ⟨game, revision, files⟩⟩] }
      | (_, out) => d.answer i out
  | _ => d

def land (k : ℕ) : Saves :=
  match d.puts[k]? with
  | some put => { d with landed := addNew d.landed k, bucket := d.bucket.set put.key k }
  | none => d

/-- The bucket reports the PUT written, which it has taken effect by then, and the save commits. -/
def written (i : ℕ) : Saves :=
  match d.saves[i]? with
  | some (.freezing db revision files put) =>
    if put ∈ d.landed then { d with db, saves := d.saves.set i (.answered (.saved revision files)) } else d
  | _ => d

/-- `freeze` answers false, and the transaction is rolled back. -/
def unavailable (i : ℕ) : Saves :=
  match d.saves[i]? with
  | some (.freezing _ _ _ _) => d.answer i .unfrozen
  | _ => d

def expire (i : ℕ) : Saves :=
  match d.saves[i]? with
  | some (.answered _) => d
  | some _ => d.answer i .thrown
  | none => d

def step (d : Saves) : Step → Saves
  | .save plan => { d with saves := d.saves ++ [.asked plan] }
  | .claim i => d.claim game i
  | .land k => d.land k
  | .written i => d.written i
  | .unavailable i => d.unavailable i
  | .expire i => d.expire i

def run (es : List Step) : Saves := exec (step game) (start game) es

/-- What is at a key. -/
def object (key : String) : Option JsonValue := ((d.bucket.get key).bind fun k => d.puts[k]?).map Put.body

end Saves

/-- No PUT takes effect over that of a later attempt at its key. -/
def Unclobbered (d : Saves) : Saves.Step → Prop
  | .land k => ∀ put ∈ d.puts[k]?, ∀ k' ∈ d.bucket.get put.key, k' ≤ k
  | _ => True

instance (d : Saves) (e : Saves.Step) : Decidable (Unclobbered d e) :=
  match e with
  | .land k => inferInstanceAs (Decidable (∀ put ∈ d.puts[k]?, ∀ k' ∈ d.bucket.get put.key, k' ≤ k))
  | .save _ | .claim _ | .written _ | .unavailable _ | .expire _ => inferInstanceAs (Decidable True)

/-! ### What holds between steps -/

/-- The rows of one game are of distinct paths. -/
theorem filesOf_nodup (files : Files) (game : GameId) : ((filesOf files game).map WorkspaceFile.path).Nodup := by
  have hperm := List.perm_insertionSort (fun left right : WorkspaceFile => left.path ≤ right.path) (shown files game)
  refine ((hperm.map WorkspaceFile.path).nodup_iff).mpr ?_
  have hpaths : (shown files game).map WorkspaceFile.path =
      (files.entries.map Prod.fst).filterMap fun k => if k.1 = game then some k.2 else none := by
    rw [shown, List.map_filterMap, List.filterMap_map]
    refine List.filterMap_congr fun e _ => ?_
    by_cases hg : e.1.1 = game
    · simp [hg, GameFile.asFile]
    · simp [hg]
  rw [hpaths]
  refine List.Nodup.filterMap ?_ files.nodup
  rintro ⟨g, p⟩ ⟨g', p'⟩ path h h'
  simp only [Option.mem_def, Option.ite_none_right_eq_some, Option.some.injEq] at h h'
  obtain ⟨rfl, rfl⟩ := h
  obtain ⟨rfl, rfl⟩ := h'
  rfl

variable {game : GameId}

/-- The tables of the game, after its first `n` revisions. -/
structure Numbered (game : GameId) (db : Records) (n : ℕ) : Prop where
  revision : db.games.get game = some n
  keys : db.frozen.keys = (List.range n).map fun i => (game, i + 1)
  current : 0 < n → db.frozen.get (game, n) = some (filesOf db.files game)

/-- What a save writes behind the row it holds are the tables of the next revision. -/
theorem Numbered.save {db db' : Records} {n : ℕ} (h : Numbered game db n) {plan : SavePlan} {revision : ℕ}
    {files : List WorkspaceFile} (hsave : db.saveWorkspace game plan true = (db', .saved revision files)) :
    revision = n + 1 ∧ Numbered game db' (n + 1) ∧ db'.frozen = db.frozen.set (game, n + 1) files ∧
      files = filesOf db'.files game := by
  rcases db.saveWorkspace_cases game plan true with ⟨_, hnot⟩ | ⟨hbase, _, files', tasks, _, _, heq⟩
  · rw [hsave] at hnot
    exact absurd rfl (hnot revision files)
  · rw [hsave] at heq
    cases heq
    rw [h.revision] at hbase
    cases hbase
    refine ⟨rfl, ⟨OrderedMap.get_set_self .., ?_, fun _ => OrderedMap.get_set_self ..⟩, rfl, rfl⟩
    have hfresh : db.frozen.get (game, plan.baseRevision + 1) = none := by
      refine Option.eq_none_iff_forall_ne_some.mpr fun files hget => ?_
      have hmem : (game, plan.baseRevision + 1) ∈ db.frozen.keys := db.frozen.mem_keys_iff.mpr ⟨files, hget⟩
      rw [h.keys] at hmem
      obtain ⟨i, hi, heq⟩ := List.mem_map.mp hmem
      rw [List.mem_range] at hi
      cases heq
      omega
    change (OrderedMap.setEntries _ _ db.frozen.entries).map Prod.fst = _
    rw [OrderedMap.setEntries_of_none hfresh, List.map_append, List.range_succ, List.map_append]
    exact congrArg (· ++ _) h.keys

theorem Numbered.mem_keys {db : Records} {n r : ℕ} (h : Numbered game db n) {files : List WorkspaceFile}
    (hget : db.frozen.get (game, r) = some files) : 0 < r ∧ r ≤ n := by
  have hmem : (game, r) ∈ db.frozen.keys := db.frozen.mem_keys_iff.mpr ⟨files, hget⟩
  rw [h.keys] at hmem
  obtain ⟨i, hi, heq⟩ := List.mem_map.mp hmem
  rw [List.mem_range] at hi
  cases heq
  omega

/-- The PUT of a manifest of this game. -/
def Put.isOf (put : Put) (game : GameId) (revision : ℕ) (files : List WorkspaceFile) : Prop :=
  put = ⟨manifestKey game revision, encodeManifest ⟨game, revision, files⟩⟩

/-- What holds of the saves of one game, whatever the bucket does. -/
structure Orderly (game : GameId) (d : Saves) (n : ℕ) : Prop where
  numbered : Numbered game d.db n
  distinct : ∀ r files, d.db.frozen.get (game, r) = some files → (files.map WorkspaceFile.path).Nodup
  opened : ∀ (i : ℕ) db revision files k, d.saves[i]? = some (Save.freezing db revision files k) →
    revision = n + 1 ∧ Numbered game db (n + 1) ∧ db.frozen = d.db.frozen.set (game, n + 1) files ∧
    files = filesOf db.files game ∧ k + 1 = d.puts.length ∧
    ∃ put : Put, d.puts[k]? = some put ∧ put.isOf game (n + 1) files
  alone : ∀ (i j : ℕ) (s s' : Save), d.saves[i]? = some s → d.saves[j]? = some s' → s.holds = true →
    s'.holds = true → i = j
  keyed : ∀ (k : ℕ) (put : Put), d.puts[k]? = some put → ∃ r files, put.isOf game r files ∧ r ≤ n + 1
  stored : ∀ key k, d.bucket.get key = some k → ∃ put : Put, d.puts[k]? = some put ∧ put.key = key

/-- What holds of the bucket when no PUT clobbers a later one. -/
structure Prevailing (game : GameId) (d : Saves) : Prop where
  landed : ∀ k ∈ d.landed, ∃ put : Put, d.puts[k]? = some put ∧ ∃ k', d.bucket.get put.key = some k' ∧ k ≤ k'
  committed : ∀ r files, d.db.frozen.get (game, r) = some files →
    ∃ (k : ℕ) (put : Put), d.bucket.get (manifestKey game r) = some k ∧ d.puts[k]? = some put ∧
      put.isOf game r files ∧ ∀ (k' : ℕ) (put' : Put), d.puts[k']? = some put' → put'.key = manifestKey game r → k' ≤ k

theorem Orderly.start (game : GameId) : Orderly game (Saves.start game) 0 where
  numbered := ⟨OrderedMap.get_set_self .., rfl, nofun⟩
  distinct _ _ h := by cases h
  opened i _ _ _ _ h := by simp [Saves.start] at h
  alone i _ _ _ h := by simp [Saves.start] at h
  keyed k _ h := by simp [Saves.start] at h
  stored _ _ h := by cases h

theorem Prevailing.start (game : GameId) : Prevailing game (Saves.start game) where
  landed k h := by simp [Saves.start] at h
  committed _ _ h := by cases h

variable {d d' : Saves} {n : ℕ}

/-- A step that moves calls on, the one that holds the row at most letting go of it. -/
theorem Orderly.of_saves (h : Orderly game d n) (hdb : d'.db = d.db) (hputs : d'.puts = d.puts)
    (hbucket : d'.bucket = d.bucket)
    (hsaves : ∀ (i : ℕ) s, d'.saves[i]? = some s → s.holds = true → d.saves[i]? = some s) : Orderly game d' n where
  numbered := hdb ▸ h.numbered
  distinct := hdb ▸ h.distinct
  opened i db revision files k hi := by
    rw [hdb, hputs]
    exact h.opened i db revision files k (hsaves i _ hi rfl)
  alone i j s s' hi hj hs hs' := h.alone i j s s' (hsaves i s hi hs) (hsaves j s' hj hs') hs hs'
  keyed := hputs ▸ h.keyed
  stored := by
    rw [hbucket, hputs]
    exact h.stored

/-- What answering a call leaves of the calls that hold the row. -/
theorem holds_of_answer {saves : List Save} {i j : ℕ} {out : WorkspaceSaved} {s : Save}
    (h : (saves.set i (.answered out))[j]? = some s) (hs : s.holds = true) : j ≠ i ∧ saves[j]? = some s := by
  rw [List.getElem?_set] at h
  by_cases hij : i = j
  · rw [if_pos hij] at h
    split at h
    · cases h
      cases hs
    · cases h
  · exact ⟨Ne.symm hij, by simpa [hij] using h⟩

theorem Orderly.answer (h : Orderly game d n) (i : ℕ) (out : WorkspaceSaved) : Orderly game (d.answer i out) n :=
  h.of_saves rfl rfl rfl fun _ _ hj hs => (holds_of_answer hj hs).2

theorem Orderly.claim (h : Orderly game d n) (i : ℕ) : Orderly game (d.claim game i) n := by
  unfold Saves.claim
  split
  case h_2 => exact h
  case h_1 plan hcall =>
    split
    · exact h
    case isFalse hfree =>
      have hfree' : ∀ (j : ℕ) s, d.saves[j]? = some s → s.holds = false := by
        intro j s hj
        rw [Bool.eq_false_iff]
        exact fun hs => hfree (List.any_eq_true.mpr ⟨s, List.mem_of_getElem? hj, hs⟩)
      split
      case h_2 => exact h.answer i _
      case h_1 db revision files hsave =>
        obtain ⟨rfl, hnumbered, hfrozen, hfiles⟩ := h.numbered.save hsave
        -- the only call to hold the row is the one that has just claimed it
        have hopen : ∀ (j : ℕ) s, (d.saves.set i (.freezing db (n + 1) files d.puts.length))[j]? = some s →
            s.holds = true → j = i ∧ s = .freezing db (n + 1) files d.puts.length := by
          intro j s hj hs
          rw [List.getElem?_set] at hj
          split at hj
          case isTrue hij =>
            split at hj
            · cases hj
              exact ⟨hij.symm, rfl⟩
            · cases hj
          case isFalse =>
            rw [hfree' j s hj] at hs
            cases hs
        refine ⟨h.numbered, h.distinct, ?_, ?_, ?_, ?_⟩
        · intro j db' revision files' k hj
          obtain ⟨_, heq⟩ := hopen j _ hj rfl
          cases heq
          exact ⟨rfl, hnumbered, hfrozen, hfiles, by simp, _, List.getElem?_concat_length, rfl⟩
        · intro j j' s s' hj hj' hs hs'
          rw [(hopen j s hj hs).1, (hopen j' s' hj' hs').1]
        · intro k put hk
          rcases lt_or_ge k d.puts.length with hlt | hge
          · rw [List.getElem?_append_left hlt] at hk
            exact h.keyed k put hk
          · rw [List.getElem?_append_right hge, List.getElem?_singleton] at hk
            simp only [Option.ite_none_right_eq_some, Option.some.injEq] at hk
            exact ⟨n + 1, files, hk.2.symm, le_rfl⟩
        · intro key k hk
          obtain ⟨put, hput, hkey⟩ := h.stored key k hk
          exact ⟨put, (List.getElem?_append_left (List.getElem?_eq_some_iff.mp hput).1).trans hput, hkey⟩

theorem Orderly.land (h : Orderly game d n) (k : ℕ) : Orderly game (d.land k) n := by
  unfold Saves.land
  split
  case h_2 => exact h
  case h_1 put hput =>
    refine ⟨h.numbered, h.distinct, h.opened, h.alone, h.keyed, fun key k' hk' => ?_⟩
    rw [OrderedMap.get_set] at hk'
    split at hk'
    case isTrue hkey =>
      cases hk'
      exact ⟨put, hput, hkey.symm⟩
    case isFalse => exact h.stored key k' hk'

theorem Orderly.written (h : Orderly game d n) (i : ℕ) : ∃ n', Orderly game (d.written i) n' := by
  unfold Saves.written
  split
  case h_2 => exact ⟨n, h⟩
  case h_1 db revision files k hcall =>
    split
    case isFalse => exact ⟨n, h⟩
    case isTrue =>
      obtain ⟨rfl, hnumbered, hfrozen, hfiles, _, _⟩ := h.opened i db revision files k hcall
      refine ⟨n + 1, hnumbered, ?_, ?_, ?_, ?_, h.stored⟩
      · intro r files' hget
        rw [hfrozen, OrderedMap.get_set] at hget
        split at hget
        · cases hget
          rw [hfiles]
          exact filesOf_nodup db.files game
        · exact h.distinct r files' hget
      · intro j db' revision files' k' hj
        obtain ⟨hne, hj'⟩ := holds_of_answer hj rfl
        exact absurd (h.alone j i _ _ hj' hcall rfl rfl) hne
      · intro j j' s s' hj hj' hs hs'
        exact h.alone j j' s s' (holds_of_answer hj hs).2 (holds_of_answer hj' hs').2 hs hs'
      · intro k' put hput
        obtain ⟨r, files', hisOf, hle⟩ := h.keyed k' put hput
        exact ⟨r, files', hisOf, by omega⟩

theorem Orderly.step (h : Orderly game d n) (e : Saves.Step) : ∃ n', Orderly game (Saves.step game d e) n' := by
  cases e with
  | save plan =>
    refine ⟨n, h.of_saves rfl rfl rfl fun i s hi hs => ?_⟩
    change (d.saves ++ [.asked plan])[i]? = some s at hi
    rcases lt_or_ge i d.saves.length with hlt | hge
    · rwa [List.getElem?_append_left hlt] at hi
    · rw [List.getElem?_append_right hge, List.getElem?_singleton] at hi
      simp only [Option.ite_none_right_eq_some, Option.some.injEq] at hi
      rw [← hi.2] at hs
      cases hs
  | claim i => exact ⟨n, h.claim i⟩
  | land k => exact ⟨n, h.land k⟩
  | written i => exact h.written i
  | unavailable i =>
    change ∃ n', Orderly game (d.unavailable i) n'
    unfold Saves.unavailable
    split
    · exact ⟨n, h.answer i _⟩
    · exact ⟨n, h⟩
  | expire i =>
    change ∃ n', Orderly game (d.expire i) n'
    unfold Saves.expire
    split
    · exact ⟨n, h⟩
    · exact ⟨n, h.answer i _⟩
    · exact ⟨n, h⟩

theorem Prevailing.of_same (h : Prevailing game d) (hdb : d'.db = d.db) (hputs : d'.puts = d.puts)
    (hbucket : d'.bucket = d.bucket) (hlanded : d'.landed = d.landed) : Prevailing game d' := by
  refine ⟨fun k hk => ?_, fun r files hget => ?_⟩
  · rw [hputs, hbucket]
    exact h.landed k (hlanded ▸ hk)
  · rw [hputs, hbucket]
    exact h.committed r files (hdb ▸ hget)

/-- A new attempt PUTs at a key no committed revision has. -/
theorem Prevailing.claim (ho : Orderly game d n) (h : Prevailing game d) (i : ℕ) : Prevailing game (d.claim game i) := by
  unfold Saves.claim
  split
  case h_2 => exact h
  case h_1 plan hcall =>
    split
    · exact h
    split
    case h_2 => exact h.of_same rfl rfl rfl rfl
    case h_1 db revision files hsave =>
      obtain ⟨rfl, _⟩ := ho.numbered.save hsave
      have hkept : ∀ {k : ℕ} {put : Put}, d.puts[k]? = some put →
          (d.puts ++ [⟨manifestKey game (n + 1), encodeManifest ⟨game, n + 1, files⟩⟩])[k]? = some put :=
        fun hput => (List.getElem?_append_left (List.getElem?_eq_some_iff.mp hput).1).trans hput
      refine ⟨fun k hk => ?_, fun r files' hget => ?_⟩
      · obtain ⟨put, hput, hrest⟩ := h.landed k hk
        exact ⟨put, hkept hput, hrest⟩
      · obtain ⟨k, put, hbucket, hput, hisOf, hlast⟩ := h.committed r files' hget
        refine ⟨k, put, hbucket, hkept hput, hisOf, fun k' put' hput' hkey => ?_⟩
        rcases lt_or_ge k' d.puts.length with hlt | hge
        · rw [List.getElem?_append_left hlt] at hput'
          exact hlast k' put' hput' hkey
        · rw [List.getElem?_append_right hge, List.getElem?_singleton] at hput'
          simp only [Option.ite_none_right_eq_some, Option.some.injEq] at hput'
          rw [← hput'.2] at hkey
          have := manifestKey_injective hkey
          have := (ho.numbered.mem_keys hget).2
          omega

/-- A PUT that clobbers none lands behind those that have landed at its key, and over the
manifest of a committed revision only as that manifest again. -/
theorem Prevailing.land (h : Prevailing game d) {k : ℕ} (hcond : Unclobbered d (.land k)) :
    Prevailing game (d.land k) := by
  unfold Saves.land
  split
  case h_2 => exact h
  case h_1 put hput =>
    refine ⟨fun k' hk' => ?_, fun r files hget => ?_⟩
    · rcases mem_addNew.mp hk' with hk' | rfl
      · obtain ⟨put', hput', k'', hbucket, hle⟩ := h.landed k' hk'
        refine ⟨put', hput', ?_⟩
        rw [OrderedMap.get_set]
        split
        case isTrue hkey => exact ⟨k, rfl, hle.trans (hcond put hput k'' (hkey ▸ hbucket))⟩
        case isFalse => exact ⟨k'', hbucket, hle⟩
      · exact ⟨put, hput, k', OrderedMap.get_set_self .., le_rfl⟩
    · obtain ⟨k₀, put₀, hbucket, hput₀, hisOf, hlast⟩ := h.committed r files hget
      refine ⟨k₀, put₀, ?_, hput₀, hisOf, hlast⟩
      rw [OrderedMap.get_set]
      split
      case isTrue hkey =>
        have hge := hcond put hput k₀ (hkey ▸ hbucket)
        have hle := hlast k put hput hkey.symm
        exact congrArg some (le_antisymm hle hge)
      case isFalse => exact hbucket

/-- The save that commits is the last attempt at its revision, so its PUT is what its key holds. -/
theorem Prevailing.written (ho : Orderly game d n) (h : Prevailing game d) (i : ℕ) : Prevailing game (d.written i) := by
  unfold Saves.written
  split
  case h_2 => exact h
  case h_1 db revision files k hcall =>
    split
    case isFalse => exact h
    case isTrue hlanded =>
      obtain ⟨rfl, _, hfrozen, _, hlast, put, hput, hisOf⟩ := ho.opened i db revision files k hcall
      refine ⟨h.landed, fun r files' hget => ?_⟩
      rw [hfrozen, OrderedMap.get_set] at hget
      split at hget
      case isFalse => exact h.committed r files' hget
      case isTrue hr =>
        cases hget
        cases hr
        obtain ⟨put', hput', k', hbucket, hle⟩ := h.landed k hlanded
        rw [hput] at hput'
        cases hput'
        have hbound : ∀ {j : ℕ} {p : Put}, d.puts[j]? = some p → j ≤ k := by
          intro j p hj
          have := (List.getElem?_eq_some_iff.mp hj).1
          omega
        obtain ⟨_, hput'', _⟩ := ho.stored put.key k' hbucket
        obtain rfl := le_antisymm hle (hbound hput'')
        refine ⟨k, put, ?_, hput, hisOf, fun _ _ hj _ => hbound hj⟩
        rw [← hbucket, hisOf]

theorem Prevailing.step (ho : Orderly game d n) (h : Prevailing game d) (e : Saves.Step) (hcond : Unclobbered d e) :
    Prevailing game (Saves.step game d e) := by
  cases e with
  | save plan => exact h.of_same rfl rfl rfl rfl
  | claim i => exact h.claim ho i
  | land k => exact h.land hcond
  | written i => exact h.written ho i
  | unavailable i =>
    change Prevailing game (d.unavailable i)
    unfold Saves.unavailable
    split
    · exact h.of_same rfl rfl rfl rfl
    · exact h
  | expire i =>
    change Prevailing game (d.expire i)
    unfold Saves.expire
    split
    · exact h
    · exact h.of_same rfl rfl rfl rfl
    · exact h

/-- The tables move only when a save is answered `saved`. -/
theorem Saves.db_step (game : GameId) (d : Saves) (e : Saves.Step) : (Saves.step game d e).db = d.db ∨
    ∃ i db revision files k, e = .written i ∧ d.saves[i]? = some (.freezing db revision files k) ∧
      (Saves.step game d e).saves = d.saves.set i (.answered (.saved revision files)) := by
  cases e with
  | save plan => exact .inl rfl
  | claim i =>
    left
    change (d.claim game i).db = d.db
    unfold Saves.claim
    split
    · split
      · rfl
      · split <;> rfl
    · rfl
  | land k =>
    left
    change (d.land k).db = d.db
    unfold Saves.land
    split <;> rfl
  | written i =>
    change (d.written i).db = d.db ∨ ∃ i' db revision files k, Saves.Step.written i = .written i' ∧
      d.saves[i']? = some (.freezing db revision files k) ∧
      (d.written i).saves = d.saves.set i' (.answered (.saved revision files))
    unfold Saves.written
    split
    case h_2 => exact .inl rfl
    case h_1 db revision files k hcall =>
      split
      case isFalse => exact .inl rfl
      case isTrue => exact .inr ⟨i, db, revision, files, k, rfl, hcall, rfl⟩
  | unavailable i =>
    left
    change (d.unavailable i).db = d.db
    unfold Saves.unavailable
    split <;> rfl
  | expire i =>
    left
    change (d.expire i).db = d.db
    unfold Saves.expire
    split <;> rfl

/-- A save answered anything but `saved` leaves the tables as they were. -/
theorem Saves.refused_step (game : GameId) (d : Saves) (e : Saves.Step) {i : ℕ} {out : WorkspaceSaved}
    (hafter : (Saves.step game d e).saves[i]? = some (.answered out)) (hbefore : d.saves[i]? ≠ some (.answered out))
    (hout : ∀ revision files, out ≠ .saved revision files) : (Saves.step game d e).db = d.db := by
  rcases d.db_step game e with hsame | ⟨j, db, revision, files, k, _, hcall, hsaves⟩
  · exact hsame
  · rw [hsaves, List.getElem?_set] at hafter
    split at hafter
    case isFalse => exact absurd hafter hbefore
    case isTrue =>
      split at hafter
      · cases hafter
        exact absurd rfl (hout revision files)
      · cases hafter

/-- What is asked of the saves of one game: the revisions committed are numbered from one, a
refused save leaves the tables alone, the last revision froze the rows there are, and the
object of a committed revision decodes to the rows it froze. -/
def FrozenAsCommitted (game : GameId) (es : List Saves.Step) : Prop :=
  (∃ n, (Saves.run game es).db.games.get game = some n ∧
    (Saves.run game es).db.frozen.keys = (List.range n).map (fun i => (game, i + 1)) ∧
    (0 < n → (Saves.run game es).db.frozen.get (game, n) = some (filesOf (Saves.run game es).db.files game))) ∧
  (∀ e (i : ℕ) out, (Saves.step game (Saves.run game es) e).saves[i]? = some (.answered out) →
    (Saves.run game es).saves[i]? ≠ some (.answered out) → (∀ revision files, out ≠ .saved revision files) →
    (Saves.step game (Saves.run game es) e).db = (Saves.run game es).db) ∧
  ∀ r files, (Saves.run game es).db.frozen.get (game, r) = some files →
    ∃ m, ((Saves.run game es).object (manifestKey game r)).bind parseManifest = some m ∧
      m.gameId = game ∧ m.revision = r ∧ m.files.Perm files

/-- **A frozen manifest is the file set its revision committed**, along every run in which no
PUT takes effect over that of a later attempt at its key. -/
theorem manifest_prevails (game : GameId) (es : List Saves.Step)
    (h : Meets (Saves.step game) Unclobbered (Saves.start game) es) : FrozenAsCommitted game es := by
  have hstep : ∀ (d : Saves) e, (∃ n, Orderly game d n) ∧ Prevailing game d → Unclobbered d e →
      (∃ n, Orderly game (d.step game e) n) ∧ Prevailing game (d.step game e) :=
    fun d e ⟨⟨_, ho⟩, hp⟩ hc => ⟨ho.step e, hp.step ho e hc⟩
  obtain ⟨⟨n, horderly⟩, hprevailing⟩ := h.invariant hstep ⟨⟨0, Orderly.start game⟩, Prevailing.start game⟩
  refine ⟨⟨n, horderly.numbered.revision, horderly.numbered.keys, horderly.numbered.current⟩,
    fun e i out => Saves.refused_step game _ e, fun r files hget => ?_⟩
  obtain ⟨k, put, hbucket, hput, hisOf, _⟩ := hprevailing.committed r files hget
  obtain ⟨files', hparse, hperm⟩ := parse_encodeManifest (m := ⟨game, r, files⟩)
    (horderly.numbered.mem_keys hget).1 (horderly.distinct r files hget)
  refine ⟨⟨game, r, files'⟩, ?_, rfl, rfl, hperm⟩
  rw [Saves.object, show (Saves.run game es).bucket.get (manifestKey game r) = some k from hbucket, Option.bind_some,
    show (Saves.run game es).puts[k]? = some put from hput, Option.map_some, Option.bind_some, hisOf]
  exact hparse

/-! ### The PUT of an attempt rolled back -/

def saveOf (path : WorkspacePath) (version : VersionId) : SavePlan :=
  ⟨0, "ada", [⟨path, .source, version, 4, "text/plain"⟩], [], by simp⟩

/-- The first attempt at revision one runs out of time with its PUT on the way; the second
commits, and then that PUT takes effect. -/
def lateLanding : List Saves.Step :=
  [.save (saveOf "a.ts" "v1"), .save (saveOf "b.ts" "v2"), .claim 0, .expire 0, .claim 1, .land 1, .written 1, .land 0]

/-- Revision one committed `b.ts`, and its manifest names `a.ts`. -/
theorem manifest_overwritten : ¬ ∀ game es, FrozenAsCommitted game es := by
  intro h
  obtain ⟨m, hparse, _, _, hperm⟩ :=
    (h "game" lateLanding).2.2 1 [⟨"b.ts", .source, "v2", 4, "text/plain"⟩] (by decide)
  have hstored : ((Saves.run "game" lateLanding).object (manifestKey "game" 1)).bind parseManifest =
      some ⟨"game", 1, [⟨"a.ts", .source, "v1", 4, "text/plain"⟩]⟩ := by decide
  rw [hstored] at hparse
  cases hparse
  exact absurd (hperm.mem_iff.mp (List.mem_singleton.mpr rfl)) (by decide)

/-- The same two attempts, the first PUT landing before the second attempt's. -/
def earlyLanding : List Saves.Step :=
  [.save (saveOf "a.ts" "v1"), .save (saveOf "b.ts" "v2"), .claim 0, .expire 0, .claim 1, .land 0, .land 1, .written 1]

theorem manifest_prevails_early : FrozenAsCommitted "game" earlyLanding :=
  manifest_prevails "game" earlyLanding (by decide)

end Grove.Api
