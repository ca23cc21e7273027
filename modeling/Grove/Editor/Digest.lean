import Grove.Lib.Decimal
import Grove.Lib.OrderedMap
import Grove.Transport.JsonInjective

/-! # The content hash of a project

`apps/grove/editor/src/project/manifest.ts`: `stamp` puts the two parts on a manifest that a compile
derives, and `digest` takes the SHA-256 of the manifest's JSON and of every source's path and text, one
after the other on lines of their own.

Any order of the sources gives one hash (`stamp_of_get_eq`).  Two inputs have one hash when their
manifests are the same and so are the lines, which a path and a text may share between them
(`contentHash_eq_iff`).  And a manifest that was stamped has its hash digested with it
(`sameStamp_restamp_iff`). -/

namespace Grove
namespace Editor
namespace Digest

open JsonCodec (jsonText NumberText Ends jsonText_append_inj)

/-! ### Strings and bytes -/

abbrev CodeUnit := Fin 0x10000

/-- A string of the language, in UTF-16. -/
abbrev JsString := List CodeUnit

def lineFeed : CodeUnit := 0x0a

def isHigh (u : CodeUnit) : Bool := 0xd800 ≤ u.val && u.val < 0xdc00

def isLow (u : CodeUnit) : Bool := 0xdc00 ≤ u.val && u.val < 0xe000

/-- A unit outside a pair: one of a pair's halves is replaced. -/
def single (u : CodeUnit) : Char := if isHigh u || isLow u then Char.ofNat 0xfffd else Char.ofNat u.val

/-- The characters that `TextEncoder` encodes a string as. -/
def scalars : JsString → List Char
  | [] => []
  | [u] => [single u]
  | u :: v :: rest =>
    if isHigh u && isLow v then Char.ofNat (0x10000 + (u.val - 0xd800) * 0x400 + (v.val - 0xdc00)) :: scalars rest
    else single u :: scalars (v :: rest)

/-- A character in UTF-16. -/
def unitsOf (c : Char) : JsString :=
  if c.toNat < 0x10000 then [Fin.ofNat _ c.toNat]
  else [Fin.ofNat _ (0xd800 + (c.toNat - 0x10000) / 0x400), Fin.ofNat _ (0xdc00 + (c.toNat - 0x10000) % 0x400)]

def units (text : List Char) : JsString := text.flatMap unitsOf

def utf8 (text : List Char) : List UInt8 := (String.ofList text).toUTF8.data.toList

/-- Two hexadecimal digits a byte. -/
def hex (bytes : List UInt8) : String :=
  String.ofList (bytes.flatMap fun byte => [Nat.digitChar (byte.toNat / 16), Nat.digitChar (byte.toNat % 16)])

/-! ### Stamping -/

abbrev Project := OrderedMap String JsonValue

def PROJECT_FORMAT_VERSION : ℚ := 1

/-- What `stamp` is called with: a manifest, whichever members it carries, the script modules and the text
of every source. -/
structure Authored where
  project : Project
  scriptModules : List JsonValue
  sources : OrderedMap JsString JsString

namespace Authored

variable (sha256 : List UInt8 → List UInt8) (number : ℚ → List Char) (a : Authored)

/-- The manifest less its hash. -/
def unhashed : Project :=
  (a.project.set "formatVersion" (.number PROJECT_FORMAT_VERSION)).set "scriptModules" (.array a.scriptModules)

/-- The paths, by code units. -/
def paths : List JsString := a.sources.keys.insertionSort (· ≤ ·)

def canonical : JsString :=
  [lineFeed].intercalate
    (units (jsonText number (.object a.unhashed.entries)) ::
      a.paths.map fun path => path ++ lineFeed :: (a.sources.get path).getD [])

def digest : String := hex (sha256 (utf8 (scalars (a.canonical number))))

def stamp : Project := a.unhashed.set "contentHash" (.string (a.digest sha256 number))

/-- The stamped manifest with the same modules and sources. -/
def stamped : Authored := { a with project := a.stamp sha256 number }

end Authored

/-- Whether two manifests differ in anything a compile stamps. -/
def sameStamp (number : ℚ → List Char) (left right : Project) : Prop :=
  left.get "contentHash" = right.get "contentHash" ∧
    (left.get "scriptModules").map (jsonText number) = (right.get "scriptModules").map (jsonText number)

/-! ### Lines -/

/-- The lines of every path and every text, in the order of the paths. -/
def Authored.lines (a : Authored) : List (List Char) :=
  a.paths.flatMap fun path =>
    List.splitOn '\n' (scalars path) ++ List.splitOn '\n' (scalars ((a.sources.get path).getD []))

/-- Two maps from path to text. -/
def sameSources (a b : Authored) : Prop := ∀ path, a.sources.get path = b.sources.get path

/-- Different settings, or different sources, have different hashes. -/
def Distinguished (sha256 : List UInt8 → List UInt8) (number : ℚ → List Char) (a b : Authored) : Prop :=
  a.project.get "settings" ≠ b.project.get "settings" ∨ ¬ sameSources a b →
    (a.stamp sha256 number).get "contentHash" ≠ (b.stamp sha256 number).get "contentHash"

/-! ### What the encoder makes of a string -/

theorem scalars_cons_of_not_high {u : CodeUnit} (h : isHigh u = false) (rest : JsString) :
    scalars (u :: rest) = single u :: scalars rest := by
  cases rest with
  | nil => rfl
  | cons v rest => rw [scalars, h, Bool.false_and, if_neg Bool.false_ne_true]

theorem single_of_toNat {u : CodeUnit} {c : Char} (hu : u.val = c.toNat) : isHigh u = false ∧ single u = c := by
  have hvalid := c.valid
  have hc : c.toNat < 0xd800 ∨ 0xdfff < c.toNat := hvalid.imp id And.left
  have hhigh : isHigh u = false := by
    simp only [isHigh, Bool.and_eq_false_iff, decide_eq_false_iff_not]
    omega
  have hlow : isLow u = false := by
    simp only [isLow, Bool.and_eq_false_iff, decide_eq_false_iff_not]
    omega
  refine ⟨hhigh, ?_⟩
  rw [single, hhigh, hlow, Bool.false_or, if_neg Bool.false_ne_true, hu, Char.ofNat_toNat]

/-- A character that was written is read. -/
theorem scalars_unitsOf (c : Char) (rest : JsString) : scalars (unitsOf c ++ rest) = c :: scalars rest := by
  unfold unitsOf
  split_ifs with hbasic
  · have hu : (Fin.ofNat 0x10000 c.toNat).val = c.toNat := Nat.mod_eq_of_lt hbasic
    obtain ⟨hhigh, hsingle⟩ := single_of_toNat hu
    rw [List.singleton_append, scalars_cons_of_not_high hhigh, hsingle]
  · have hlt : c.toNat < 0x110000 := by
      have hvalid : c.toNat < 0xd800 ∨ 0xdfff < c.toNat ∧ c.toNat < 0x110000 := c.valid
      omega
    have hhigh : (Fin.ofNat 0x10000 (0xd800 + (c.toNat - 0x10000) / 0x400)).val = 0xd800 + (c.toNat - 0x10000) / 0x400 :=
      Nat.mod_eq_of_lt (by omega)
    have hlow : (Fin.ofNat 0x10000 (0xdc00 + (c.toNat - 0x10000) % 0x400)).val = 0xdc00 + (c.toNat - 0x10000) % 0x400 :=
      Nat.mod_eq_of_lt (by omega)
    have hpair : (isHigh (Fin.ofNat 0x10000 (0xd800 + (c.toNat - 0x10000) / 0x400)) &&
        isLow (Fin.ofNat 0x10000 (0xdc00 + (c.toNat - 0x10000) % 0x400))) = true := by
      simp only [isHigh, isLow, hhigh, hlow, Bool.and_eq_true, decide_eq_true_eq]
      omega
    have hjoined : 0x10000 + (0xd800 + (c.toNat - 0x10000) / 0x400 - 0xd800) * 0x400 +
        (0xdc00 + (c.toNat - 0x10000) % 0x400 - 0xdc00) = c.toNat := by omega
    rw [List.cons_append, List.singleton_append, scalars, if_pos hpair, hhigh, hlow, hjoined, Char.ofNat_toNat]

theorem scalars_units (text : List Char) (rest : JsString) : scalars (units text ++ rest) = text ++ scalars rest := by
  induction text with
  | nil => rfl
  | cons c text ih => rw [units, List.flatMap_cons, List.append_assoc, scalars_unitsOf, ← units, ih, List.cons_append]

/-- A line break is no part of a pair. -/
theorem scalars_append_lineFeed (text rest : JsString) :
    scalars (text ++ lineFeed :: rest) = scalars text ++ '\n' :: scalars rest := by
  have hbreak : scalars (lineFeed :: rest) = '\n' :: scalars rest := scalars_cons_of_not_high (by decide) rest
  induction text using scalars.induct with
  | case1 => exact hbreak
  | case2 u =>
    have hlow : (isHigh u && isLow lineFeed) = false := Bool.and_false _
    show scalars (u :: lineFeed :: rest) = [single u] ++ '\n' :: scalars rest
    rw [scalars, hlow, if_neg Bool.false_ne_true, hbreak]
    rfl
  | case3 u v text hpair ih =>
    rw [List.cons_append, List.cons_append, scalars, if_pos hpair, ih, scalars, if_pos hpair, List.cons_append]
  | case4 u v text hpair ih =>
    rw [List.cons_append, List.cons_append, scalars, if_neg hpair, ← List.cons_append, ih, scalars, if_neg hpair,
      List.cons_append]

/-! ### What the digest is of -/

section

variable {sha256 : List UInt8 → List UInt8} {number : ℚ → List Char}

theorem hexDigit_inj : ∀ n < 16, ∀ m < 16, Nat.digitChar n = Nat.digitChar m → n = m := by decide

theorem hex_injective : Function.Injective hex := by
  intro bytes bytes' h
  have hchars := String.ofList_injective h
  induction bytes generalizing bytes' with
  | nil =>
    cases bytes' with
    | nil => rfl
    | cons b' bytes' => cases hchars
  | cons b bytes ih =>
    cases bytes' with
    | nil => cases hchars
    | cons b' bytes' =>
      simp only [List.flatMap_cons, List.cons_append, List.nil_append, List.cons.injEq] at hchars
      obtain ⟨hhigh, hlow, hrest⟩ := hchars
      have hb := b.toNat_lt
      have hb' := b'.toNat_lt
      have hhigh' := hexDigit_inj _ (by omega) _ (by omega) hhigh
      have hlow' := hexDigit_inj _ (by omega) _ (by omega) hlow
      obtain rfl : b = b' := UInt8.toNat_inj.mp (by omega)
      rw [ih (congrArg String.ofList hrest) hrest]

theorem utf8_injective : Function.Injective utf8 := by
  intro text text' h
  have hbytes : (String.ofList text).toUTF8 = (String.ofList text').toUTF8 := ByteArray.ext (Array.toList_inj.mp h)
  exact String.ofList_injective (String.toByteArray_inj.mp hbytes)

/-- Texts that each follow a line break are split into their own lines. -/
theorem splitOn_pieces (pieces : List (List Char)) : ∀ text : List Char,
    List.splitOn '\n' (text ++ pieces.flatMap fun piece => '\n' :: piece) =
      List.splitOn '\n' text ++ pieces.flatMap (List.splitOn '\n') := by
  induction pieces with
  | nil => exact fun text => by rw [List.flatMap_nil, List.flatMap_nil, List.append_nil, List.append_nil]
  | cons piece pieces ih =>
    intro text
    rw [List.flatMap_cons, List.cons_append, List.splitOn_append_cons_self, ih piece, List.flatMap_cons]

theorem pieces_eq_iff (pieces pieces' : List (List Char)) :
    (pieces.flatMap fun piece => '\n' :: piece) = (pieces'.flatMap fun piece => '\n' :: piece) ↔
      pieces.flatMap (List.splitOn '\n') = pieces'.flatMap (List.splitOn '\n') := by
  have hsplit := splitOn_pieces pieces []
  have hsplit' := splitOn_pieces pieces' []
  rw [List.nil_append] at hsplit hsplit'
  constructor
  · intro h
    rw [h, hsplit'] at hsplit
    exact (List.append_cancel_left hsplit).symm
  · intro h
    have hlines := congrArg (['\n'].intercalate) (hsplit.trans (h ▸ hsplit'.symm))
    rwa [List.intercalate_splitOn, List.intercalate_splitOn] at hlines

theorem intercalate_lineFeed (head : JsString) (files : List JsString) :
    [lineFeed].intercalate (head :: files) = head ++ files.flatMap fun file => lineFeed :: file := by
  induction files generalizing head with
  | nil => rw [List.intercalate_singleton, List.flatMap_nil, List.append_nil]
  | cons file files ih =>
    rw [List.intercalate_cons_cons, ih file, List.flatMap_cons, List.append_assoc, List.cons_append]
    rfl

theorem scalars_files (files : List JsString) :
    scalars (files.flatMap fun file => lineFeed :: file) = files.flatMap fun file => '\n' :: scalars file := by
  have hafter : ∀ (files : List JsString) (text : JsString), scalars (text ++ files.flatMap fun file => lineFeed :: file) =
      scalars text ++ files.flatMap fun file => '\n' :: scalars file := by
    intro files
    induction files with
    | nil => exact fun text => by rw [List.flatMap_nil, List.flatMap_nil, List.append_nil, List.append_nil]
    | cons file files ih =>
      intro text
      rw [List.flatMap_cons, List.cons_append, scalars_append_lineFeed, ih file, List.flatMap_cons, List.cons_append]
  exact hafter files []

namespace Authored

/-- Every path and every text, in the order of the paths. -/
def pieces (a : Authored) : List (List Char) :=
  a.paths.flatMap fun path => [scalars path, scalars ((a.sources.get path).getD [])]

theorem lines_eq (a : Authored) : a.lines = a.pieces.flatMap (List.splitOn '\n') := by
  rw [lines, pieces, List.flatMap_assoc]
  simp only [List.flatMap_cons, List.flatMap_nil, List.append_nil]

/-- What is digested: the JSON, and each path and text on new lines. -/
theorem scalars_canonical (a : Authored) :
    scalars (a.canonical number) =
      jsonText number (.object a.unhashed.entries) ++ a.pieces.flatMap fun piece => '\n' :: piece := by
  rw [canonical, intercalate_lineFeed, scalars_units, scalars_files, pieces, List.flatMap_map, List.flatMap_assoc]
  simp only [scalars_append_lineFeed, List.flatMap_cons, List.flatMap_nil, List.append_nil, List.cons_append]

/-- **Two inputs have one digest exactly when the manifests and the lines are the same.** -/
theorem digest_eq_iff (hsha : Function.Injective sha256) (hnumber : NumberText number) (a b : Authored) :
    a.digest sha256 number = b.digest sha256 number ↔ a.unhashed.entries = b.unhashed.entries ∧ a.lines = b.lines := by
  have hends : ∀ pieces : List (List Char), Ends (pieces.flatMap fun piece => '\n' :: piece) := by
    intro pieces c hc
    cases pieces with
    | nil => cases hc
    | cons piece pieces =>
      obtain rfl : '\n' = c := Option.some.inj hc
      decide
  rw [lines_eq, lines_eq, ← pieces_eq_iff]
  constructor
  · intro h
    have htext := utf8_injective (hsha (hex_injective h))
    rw [scalars_canonical, scalars_canonical] at htext
    obtain ⟨hobject, hpieces⟩ := jsonText_append_inj hnumber _ _ _ _ (hends _) (hends _) htext
    exact ⟨JsonValue.object.inj hobject, hpieces⟩
  · rintro ⟨hentries, hpieces⟩
    rw [digest, digest, scalars_canonical, scalars_canonical, hentries, hpieces]

/-! ### The order the files are held in -/

theorem paths_of_get_eq {a b : Authored} (h : sameSources a b) : a.paths = b.paths := by
  have hmem : ∀ path, path ∈ a.sources.keys ↔ path ∈ b.sources.keys := by
    intro path
    rw [OrderedMap.mem_keys_iff_ne_none, OrderedMap.mem_keys_iff_ne_none, h path]
  have hkeys : a.sources.keys.Perm b.sources.keys :=
    (List.perm_ext_iff_of_nodup a.sources.nodup b.sources.nodup).mpr hmem
  have hperm : a.paths.Perm b.paths :=
    (List.perm_insertionSort _ _).trans (hkeys.trans (List.perm_insertionSort _ _).symm)
  exact hperm.eq_of_pairwise (fun _ _ _ _ hle hge => le_antisymm hle hge) (List.pairwise_insertionSort _ _)
    (List.pairwise_insertionSort _ _)

theorem canonical_of_get_eq {a b : Authored} (h : sameSources a b) (hunhashed : a.unhashed = b.unhashed) :
    a.canonical number = b.canonical number := by
  have htext : (fun path => path ++ lineFeed :: (a.sources.get path).getD []) =
      fun path => path ++ lineFeed :: (b.sources.get path).getD [] := funext fun path => by rw [h path]
  rw [canonical, canonical, paths_of_get_eq h, hunhashed, htext]

/-- The stamp is one for every order the sources are held in. -/
theorem stamp_of_get_eq (a : Authored) {sources : OrderedMap JsString JsString}
    (h : ∀ path, sources.get path = a.sources.get path) :
    stamp sha256 number { a with sources := sources } = a.stamp sha256 number := by
  have hcanonical : canonical number { a with sources := sources } = a.canonical number := canonical_of_get_eq h rfl
  rw [stamp, stamp, digest, digest, hcanonical]
  rfl

/-! ### Stamping what was stamped -/

theorem get_stamp_contentHash (a : Authored) :
    (a.stamp sha256 number).get "contentHash" = some (.string (a.digest sha256 number)) := OrderedMap.get_set_self ..

theorem get_unhashed_of_ne (a : Authored) {key : String} (hversion : key ≠ "formatVersion") (hmodules : key ≠ "scriptModules") :
    a.unhashed.get key = a.project.get key := by
  rw [unhashed, OrderedMap.get_set_of_ne _ hmodules, OrderedMap.get_set_of_ne _ hversion]

end Authored

/-- Writing what a map holds leaves it as it is. -/
theorem set_of_get {κ ν : Type} [DecidableEq κ] {m : OrderedMap κ ν} {k : κ} {v : ν} (h : m.get k = some v) : m.set k v = m := by
  have hentries : ∀ l : List (κ × ν), OrderedMap.lookup k l = some v → OrderedMap.setEntries k v l = l := by
    intro l
    induction l with
    | nil => exact fun h => by cases h
    | cons e l ih =>
      obtain ⟨k', v'⟩ := e
      intro h
      by_cases hk : k' = k
      · simp only [OrderedMap.lookup, hk, if_true, Option.some.injEq] at h
        simp only [OrderedMap.setEntries, hk, if_true, h]
      · simp only [OrderedMap.lookup, hk, if_false] at h
        simp only [OrderedMap.setEntries, hk, if_false, ih h]
  cases m with
  | mk entries nodup =>
    unfold OrderedMap.set
    congr 1
    exact hentries entries h

namespace Authored

/-- Stamping a stamped manifest changes nothing but the hash that goes into the digest. -/
theorem unhashed_stamped (a : Authored) : (a.stamped sha256 number).unhashed = a.stamp sha256 number := by
  have hversion : (a.stamp sha256 number).get "formatVersion" = some (.number PROJECT_FORMAT_VERSION) := by
    rw [stamp, OrderedMap.get_set_of_ne _ (by decide), unhashed, OrderedMap.get_set_of_ne _ (by decide), OrderedMap.get_set_self]
  have hmodules : (a.stamp sha256 number).get "scriptModules" = some (.array a.scriptModules) := by
    rw [stamp, OrderedMap.get_set_of_ne _ (by decide), unhashed, OrderedMap.get_set_self]
  have hset : (a.stamp sha256 number).set "formatVersion" (.number PROJECT_FORMAT_VERSION) = a.stamp sha256 number :=
    set_of_get hversion
  rw [unhashed]
  show ((a.stamp sha256 number).set "formatVersion" (.number PROJECT_FORMAT_VERSION)).set "scriptModules" (.array a.scriptModules) = _
  rw [hset, set_of_get hmodules]

theorem entries_inj {m m' : Project} (h : m.entries = m'.entries) : m = m' := by
  cases m
  cases m'
  cases h
  rfl

/-- The second hash is the first one only of a manifest that carries it already. -/
theorem digest_stamped_iff (hsha : Function.Injective sha256) (hnumber : NumberText number) (a : Authored) :
    (a.stamped sha256 number).digest sha256 number = a.digest sha256 number ↔
      a.project.get "contentHash" = some (.string (a.digest sha256 number)) := by
  have hlines : (a.stamped sha256 number).lines = a.lines := rfl
  rw [digest_eq_iff hsha hnumber, unhashed_stamped, hlines, and_iff_left rfl,
    ← a.get_unhashed_of_ne (by decide) (by decide)]
  constructor
  · intro h
    rw [← entries_inj h, get_stamp_contentHash]
  · intro h
    rw [stamp, set_of_get h]

theorem sameStamp_restamp_iff (hsha : Function.Injective sha256) (hnumber : NumberText number) (a : Authored) :
    sameStamp number (a.stamp sha256 number) ((a.stamped sha256 number).stamp sha256 number) ↔
      a.project.get "contentHash" = some (.string (a.digest sha256 number)) := by
  have hmodules : ∀ b : Authored, (b.stamp sha256 number).get "scriptModules" = some (.array b.scriptModules) := by
    intro b
    rw [stamp, OrderedMap.get_set_of_ne _ (by decide), unhashed, OrderedMap.get_set_self]
  have hsame : (a.stamped sha256 number).scriptModules = a.scriptModules := rfl
  unfold sameStamp
  rw [get_stamp_contentHash, get_stamp_contentHash, hmodules, hmodules, hsame, and_iff_left rfl,
    ← digest_stamped_iff hsha hnumber, Option.some.injEq, JsonValue.string.injEq, eq_comm]

end Authored

/-! ### What was authored -/

/-- Different settings or sources are told apart, unless what differs is only where in the lines of one
project its paths and texts begin. -/
theorem distinguished_iff (hsha : Function.Injective sha256) (hnumber : NumberText number) (a b : Authored) :
    Distinguished sha256 number a b ↔ ¬ (a.unhashed = b.unhashed ∧ a.lines = b.lines ∧ ¬ sameSources a b) := by
  have hhash : (a.stamp sha256 number).get "contentHash" = (b.stamp sha256 number).get "contentHash" ↔
      a.unhashed = b.unhashed ∧ a.lines = b.lines := by
    rw [Authored.get_stamp_contentHash, Authored.get_stamp_contentHash, Option.some.injEq, JsonValue.string.injEq,
      Authored.digest_eq_iff hsha hnumber]
    exact and_congr_left fun _ => ⟨Authored.entries_inj, congrArg OrderedMap.entries⟩
  have hhashes : (a.stamp sha256 number).get "contentHash" ≠ (b.stamp sha256 number).get "contentHash" ↔
      ¬ (a.unhashed = b.unhashed ∧ a.lines = b.lines) := not_congr hhash
  unfold Distinguished
  rw [hhashes]
  constructor
  · rintro h ⟨hproject, hlines, hsources⟩
    exact h (Or.inr hsources) ⟨hproject, hlines⟩
  · rintro h hdiffer ⟨hproject, hlines⟩
    obtain hsettings | hsources := hdiffer
    · refine hsettings ?_
      rw [← a.get_unhashed_of_ne (by decide) (by decide), hproject, b.get_unhashed_of_ne (by decide) (by decide)]
    · exact h ⟨hproject, hlines, hsources⟩

/-- **The content hash**: when a stamp is the stamp of what it stamped, that it is one for every order of
the files, and when it tells two inputs apart. -/
theorem stamp_names_what_was_authored (hsha : Function.Injective sha256) (hnumber : NumberText number) (a b : Authored) :
    (sameStamp number (a.stamp sha256 number) ((a.stamped sha256 number).stamp sha256 number) ↔
      a.project.get "contentHash" = some (.string (a.digest sha256 number))) ∧
    (∀ sources : OrderedMap JsString JsString, (∀ path, sources.get path = a.sources.get path) →
      Authored.stamp sha256 number { a with sources := sources } = a.stamp sha256 number) ∧
    (Distinguished sha256 number a b ↔ ¬ (a.unhashed = b.unhashed ∧ a.lines = b.lines ∧ ¬ sameSources a b)) :=
  ⟨a.sameStamp_restamp_iff hsha hnumber, fun _ h => a.stamp_of_get_eq h, distinguished_iff hsha hnumber a b⟩

end

/-! ### One file that reads as two -/

def ascii (s : String) : JsString := s.toList.map fun c => Fin.ofNat _ c.toNat

def thirtyHertz : Project := OrderedMap.empty.set "settings" (.object [("simRate", .number 30)])

def oneFile : Authored := ⟨thirtyHertz, [], OrderedMap.empty.set (ascii "a.ts") (ascii "x\nb.ts\ny")⟩

def twoFiles : Authored :=
  ⟨thirtyHertz, [], (OrderedMap.empty.set (ascii "a.ts") (ascii "x")).set (ascii "b.ts") (ascii "y")⟩

theorem oneFile_lines : oneFile.lines = twoFiles.lines := by decide +kernel

theorem one_file_reads_as_two :
    (∀ (sha256 : List UInt8 → List UInt8) (number : ℚ → List Char),
      (oneFile.stamp sha256 number).get "contentHash" = (twoFiles.stamp sha256 number).get "contentHash") ∧
    ¬ sameSources oneFile twoFiles := by
  constructor
  · intro sha256 number
    have hpieces := (pieces_eq_iff oneFile.pieces twoFiles.pieces).mpr (by
      rw [← Authored.lines_eq, ← Authored.lines_eq]
      exact oneFile_lines)
    have hproject : oneFile.unhashed = twoFiles.unhashed := rfl
    rw [Authored.get_stamp_contentHash, Authored.get_stamp_contentHash, Authored.digest, Authored.digest,
      Authored.scalars_canonical, Authored.scalars_canonical, hpieces, hproject]
  · intro h
    have hb : oneFile.sources.get (ascii "b.ts") ≠ twoFiles.sources.get (ascii "b.ts") := by decide +kernel
    exact hb (h _)

/-- SHA-256 on what is digested below, and one to one. -/
def shaOf (bytes : List UInt8) : List UInt8 :=
  if bytes = Decimal.ascii "\x7b\"settings\":\x7b\"simRate\":30\x7d,\"formatVersion\":1,\"scriptModules\":[]\x7d\na.ts\nx\nb.ts\ny" then
    [0xff, 0xeb, 0xb9, 0x14, 0x19, 0xf2, 0xf9, 0x62, 0x7b, 0xae, 0xcd, 0xd8, 0x33, 0xcd, 0x58, 0xd5,
    0xe5, 0x77, 0xe2, 0x41, 0xf5, 0x90, 0xd5, 0xb0, 0xbd, 0x8e, 0x40, 0x4a, 0xd0, 0xe1, 0xa8, 0x2d]
  else if bytes = Decimal.ascii "\x7b\"settings\":\x7b\"simRate\":30\x7d,\"formatVersion\":1,\"scriptModules\":[],\"contentHash\":\"ffebb91419f2f9627baecdd833cd58d5e577e241f590d5b0bd8e404ad0e1a82d\"\x7d\na.ts\nx\nb.ts\ny" then
    [0x8c, 0x2f, 0xdc, 0xbd, 0xe1, 0x8d, 0x3c, 0x7d, 0x59, 0x51, 0xb4, 0x35, 0x25, 0x91, 0xfd, 0x97,
    0x5c, 0x78, 0x0f, 0x32, 0x25, 0xbe, 0x7b, 0xa6, 0xc2, 0x70, 0x37, 0x74, 0x4f, 0x8f, 0x55, 0x69]
  else List.replicate 33 0 ++ bytes

theorem shaOf_injective : Function.Injective shaOf := by
  have hlong : ∀ {digest : List UInt8} {bytes : List UInt8}, digest.length = 32 → digest ≠ List.replicate 33 0 ++ bytes := by
    intro digest bytes hdigest h
    rw [h, List.length_append, List.length_replicate] at hdigest
    omega
  intro bytes bytes' h
  unfold shaOf at h
  split_ifs at h with hone hone' htwo' htwo hone' htwo' hone' htwo'
  · exact hone.trans hone'.symm
  · exact absurd h (by decide)
  · exact absurd h (hlong rfl)
  · exact absurd h (by decide)
  · exact htwo.trans htwo'.symm
  · exact absurd h (hlong rfl)
  · exact absurd h.symm (hlong rfl)
  · exact absurd h.symm (hlong rfl)
  · exact List.append_cancel_left h

/-- The numbers below as they are printed, and any other number as itself alone. -/
def numberOf (q : ℚ) : List Char :=
  if q = 1 then ['1'] else if q = 30 then ['3', '0'] else '-' :: List.replicate (Encodable.encode q) '1'

theorem numberText_numberOf : NumberText numberOf where
  injective := by
    intro q q' h
    unfold numberOf at h
    split_ifs at h with hone hone' hthirty' hthirty hone' hthirty' hone' hthirty'
    · exact hone.trans hone'.symm
    · cases h
    · cases h
    · cases h
    · exact hthirty.trans hthirty'.symm
    · cases h
    · cases h
    · cases h
    · have hlength := congrArg List.length h
      rw [List.length_cons, List.length_cons, List.length_replicate, List.length_replicate] at hlength
      exact Encodable.encode_injective (Nat.succ.inj hlength)
  nonempty := by
    intro q
    unfold numberOf
    split_ifs
    · exact List.cons_ne_nil _ _
    · exact List.cons_ne_nil _ _
    · exact List.cons_ne_nil _ _
  numeric := by
    intro q c hc
    unfold numberOf at hc
    split_ifs at hc
    · obtain rfl := List.mem_singleton.mp hc
      decide
    · obtain rfl | hc := List.mem_cons.mp hc
      · decide
      · obtain rfl := List.mem_singleton.mp hc
        decide
    · obtain rfl | hc := List.mem_cons.mp hc
      · decide
      · obtain rfl := List.eq_of_mem_replicate hc
        decide

theorem stamp_names_one_file :
    ¬ sameStamp numberOf (oneFile.stamp shaOf numberOf) ((oneFile.stamped shaOf numberOf).stamp shaOf numberOf) ∧
      ¬ Distinguished shaOf numberOf oneFile twoFiles := by
  obtain ⟨hrestamp, -, hdistinguished⟩ := stamp_names_what_was_authored shaOf_injective numberText_numberOf oneFile twoFiles
  constructor
  · rw [hrestamp]
    exact nofun
  · rw [hdistinguished, not_not]
    exact ⟨rfl, oneFile_lines, one_file_reads_as_two.2⟩

end Digest
end Editor
end Grove
