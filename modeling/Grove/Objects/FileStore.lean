import Mathlib
import Grove.Lib.Run

/-! # The file store

`apps/grove/asset-upload-service/src/store.rs`: objects named by the SHA-256 of their bytes,
each a file under its own name beside a sidecar that holds its content type, and `incoming/`
for uploads that have not earned their name yet.

Every call is a run of file operations with the other calls' operations in between, so a step
is one operation of one call, or one chunk of the body a put reads.  Any operation may fail.  A
rename either happens or changes nothing; a write or a flush that fails leaves whatever it
likes of its own file; and a flush that answers has left the file what was written to it.
SHA-256 is a parameter, fed the chunks one after the other. -/

namespace Grove
namespace Objects

/-- A content address: 64 lowercase hex characters. -/
structure ObjectHash where
  text : String
  is_hash : text.toList.length = 64 ∧ ∀ c ∈ text.toList, '0' ≤ c ∧ c ≤ '9' ∨ 'a' ≤ c ∧ c ≤ 'f'
deriving DecidableEq

/-- The name of the shard an object is kept in. -/
def ObjectHash.shard (hash : ObjectHash) : String := String.ofList (hash.text.toList.take 2)

def hexDigits : List Char := "0123456789abcdef".toList

def hex (bytes : ByteArray) : String :=
  String.join (bytes.data.toList.map fun byte =>
    String.ofList [hexDigits.getD (byte.toNat / 16) '0', hexDigits.getD (byte.toNat % 16) '0'])

def DEFAULT_CONTENT_TYPE : String := "application/octet-stream"

structure PutRequest where
  hash : ObjectHash
  contentType : String
  maxBytes : ℕ
deriving DecidableEq

inductive Stored where
  | Created
  | AlreadyPresent
deriving DecidableEq

inductive PutError where
  | HashMismatch (computed : String)
  | TooLarge
  | Lost
  | Source
  | Storage
deriving DecidableEq

/-- What a put is about to do. -/
inductive PutPhase where
  /-- `try_exists` of the object. -/
  | looking
  | creating
  /-- The next chunk of the body. -/
  | reading
  | writing (chunk : ByteArray)
  | syncing
  /-- `verify`. -/
  | verifying
  /-- `try_exists` of the shard, and the rest of `commit`. -/
  | sharding
  | makingShard
  /-- `publish_type`, to the removal of its temp file when one of its operations failed. -/
  | typeCreating
  | typeWriting
  | typeSyncing
  | typePublishing
  | typeDropping
  /-- The rename that publishes the object, and what follows one that lost. -/
  | publishing
  | dropping
  | lookingAgain
  | syncingShard
  | syncingObjects
  /-- The removal of the temp file of a put that failed. -/
  | failing (error : PutError)
  | answered (answer : Except PutError Stored)
deriving DecidableEq

/-- A put in progress: its request, the temp files it was given for its bytes and for its
content type, the bytes it has hashed, and whether it found no shard. -/
structure Put where
  request : PutRequest
  temp : Option ℕ
  typeTemp : Option ℕ
  body : ByteArray
  shardIsNew : Bool
  phase : PutPhase

/-- What a reader is about to do with the file it opened or measured. -/
inductive ReadPhase where
  | opening
  /-- `file.metadata()` of the file a get has open. -/
  | measuring (bytes : ByteArray)
  /-- The content type of an object of this length. -/
  | typing (length : ℕ)
  | answered (head : Option (ℕ × String))
  | failed
deriving DecidableEq

/-- A get, or a head, which measures the object without opening it. -/
structure Reader where
  hash : ObjectHash
  opens : Bool
  phase : ReadPhase
deriving DecidableEq

inductive DeletePhase where
  | removing
  | typeRemoving
  | answered (removed : Bool)
  | failed
deriving DecidableEq

structure Delete where
  hash : ObjectHash
  phase : DeletePhase
deriving DecidableEq

/-- The files, the ordinal of the next temp file, and the calls. -/
structure FileStore where
  objects : ObjectHash → Option ByteArray
  types : ObjectHash → Option ByteArray
  incoming : ℕ → Option ByteArray
  shards : List String
  nextTemp : ℕ
  puts : List Put
  readers : List Reader
  deletes : List Delete

/-- What earlier stores left under a root: objects under the names of their bytes. -/
structure Root (sha256 : ByteArray → ByteArray) where
  objects : ObjectHash → Option ByteArray
  types : ObjectHash → Option ByteArray
  shards : List String
  addressed : ∀ hash bytes, objects hash = some bytes → hex (sha256 bytes) = hash.text

def Root.empty (sha256 : ByteArray → ByteArray) : Root sha256 := ⟨fun _ => none, fun _ => none, [], nofun⟩

/-- How a file operation ends: one that fails leaves `left` of the file it was writing. -/
inductive Outcome where
  | ok
  | fails (left : Option ByteArray)
deriving DecidableEq

inductive Step where
  | put (request : PutRequest)
  /-- The body of a put yields a chunk, an error or its end. -/
  | body (p : ℕ) (next : Option (Except Unit ByteArray))
  | putOp (p : ℕ) (outcome : Outcome)
  | read (hash : ObjectHash) (opens : Bool)
  | readOp (r : ℕ) (outcome : Outcome)
  | delete (hash : ObjectHash)
  | deleteOp (d : ℕ) (outcome : Outcome)
deriving DecidableEq

/-- Unicode white space, as `str::trim` takes it away. -/
def isWhitespace (c : Char) : Bool :=
  0x9 ≤ c.toNat && c.toNat ≤ 0xD || c.toNat ∈ [0x20, 0x85, 0xA0, 0x1680, 0x2028, 0x2029, 0x202F, 0x205F, 0x3000] ||
    0x2000 ≤ c.toNat && c.toNat ≤ 0x200A

def trim (text : String) : String :=
  String.ofList (((text.toList.dropWhile isWhitespace).reverse.dropWhile isWhitespace).reverse)

/-- What a sidecar says: one that is missing, no text or blank says nothing. -/
def contentTypeOf (sidecar : Option ByteArray) : String :=
  match (sidecar.bind String.fromUTF8?).map trim with
  | some value => if value = "" then DEFAULT_CONTENT_TYPE else value
  | none => DEFAULT_CONTENT_TYPE

namespace FileStore

/-- `FileStore::open`: no file of this process's own in `incoming/` yet. -/
def «open» {sha256 : ByteArray → ByteArray} (root : Root sha256) : FileStore :=
  ⟨root.objects, root.types, fun _ => none, root.shards, 0, [], [], []⟩

variable (s : FileStore)

def setPut (p : ℕ) (put : Put) : FileStore := { s with puts := s.puts.set p put }

def setObject (hash : ObjectHash) (file : Option ByteArray) : FileStore :=
  { s with objects := Function.update s.objects hash file }

def setType (hash : ObjectHash) (file : Option ByteArray) : FileStore :=
  { s with types := Function.update s.types hash file }

def setIncoming (temp : ℕ) (file : Option ByteArray) : FileStore :=
  { s with incoming := Function.update s.incoming temp file }

/-- `temp_path`. -/
def tempPath : ℕ × FileStore := (s.nextTemp, { s with nextTemp := s.nextTemp + 1 })

/-- A file operation on a temp file of a put leaves `file` of it. -/
def leave (temp : Option ℕ) (file : Option ByteArray) : FileStore :=
  match temp with
  | some k => s.setIncoming k file
  | none => s

/-- What a temp file of a put holds. -/
def held (temp : Option ℕ) : Option ByteArray := temp.bind s.incoming

/-- A put on its way to another operation. -/
def goTo (p : ℕ) (put : Put) (phase : PutPhase) : FileStore := s.setPut p { put with phase }

/-- A put that failed takes its temp file with it, when it was given one. -/
def fail (p : ℕ) (put : Put) (error : PutError) : FileStore :=
  match put.temp with
  | some _ => s.goTo p put (.failing error)
  | none => s.goTo p put (.answered (.error error))

/-- The hash of the whole body is checked before anything is kept. -/
def check (sha256 : ByteArray → ByteArray) (p : ℕ) (put : Put) (phase : PutPhase) : FileStore :=
  if hex (sha256 put.body) = put.request.hash.text then s.goTo p put phase
  else s.fail p put (.HashMismatch (hex (sha256 put.body)))

/-- The body of a put: `absorb` hashes it, and writes it where there is a file to write to. -/
def absorb (sha256 : ByteArray → ByteArray) (p : ℕ) (put : Put) : Option (Except Unit ByteArray) → FileStore
  | some (.error _) => s.fail p put .Source
  | some (.ok chunk) =>
    let put := { put with body := put.body ++ chunk }
    if put.request.maxBytes < put.body.size then s.fail p put .TooLarge
    else match put.temp with
      | some _ => s.goTo p put (.writing chunk)
      | none => s.goTo p put .reading
  | none =>
    match put.temp with
    | some _ => s.goTo p put .syncing
    | none => s.check sha256 p put .verifying

/-- The operation a put is at. -/
def operate (sha256 : ByteArray → ByteArray) (p : ℕ) (put : Put) : PutPhase → Outcome → FileStore
  | .looking, .ok =>
    if (s.objects put.request.hash).isSome then s.goTo p put .reading
    else s.tempPath.2.goTo p { put with temp := some s.tempPath.1 } .creating
  | .looking, .fails _ => s.fail p put .Storage
  | .creating, .ok => (s.leave put.temp (some .empty)).goTo p put .reading
  | .creating, .fails left => (s.leave put.temp left).fail p put .Storage
  | .writing chunk, .ok => (s.leave put.temp ((s.held put.temp).map (· ++ chunk))).goTo p put .reading
  | .writing _, .fails left => (s.leave put.temp left).fail p put .Storage
  | .syncing, .ok => s.check sha256 p put .sharding
  | .syncing, .fails left => (s.leave put.temp left).fail p put .Storage
  | .verifying, .ok =>
    if (s.objects put.request.hash).map ByteArray.size = some put.body.size then
      s.goTo p put (.answered (.ok .AlreadyPresent))
    else s.fail p put .Lost
  | .verifying, .fails _ => s.fail p put .Storage
  | .sharding, .ok => s.goTo p { put with shardIsNew := put.request.hash.shard ∉ s.shards } .makingShard
  | .sharding, .fails _ => s.goTo p { put with shardIsNew := true } .makingShard
  | .makingShard, .ok =>
    let s := { s with shards := put.request.hash.shard :: s.shards }
    s.tempPath.2.goTo p { put with typeTemp := some s.tempPath.1 } .typeCreating
  | .makingShard, .fails _ => s.fail p put .Storage
  | .typeCreating, .ok => (s.leave put.typeTemp (some .empty)).goTo p put .typeWriting
  | .typeCreating, .fails left => (s.leave put.typeTemp left).goTo p put .typeDropping
  | .typeWriting, .ok =>
    (s.leave put.typeTemp ((s.held put.typeTemp).map (· ++ put.request.contentType.toUTF8))).goTo p put .typeSyncing
  | .typeWriting, .fails left => (s.leave put.typeTemp left).goTo p put .typeDropping
  | .typeSyncing, .ok => s.goTo p put .typePublishing
  | .typeSyncing, .fails left => (s.leave put.typeTemp left).goTo p put .typeDropping
  | .typePublishing, .ok =>
    match s.held put.typeTemp with
    | some file => ((s.setType put.request.hash (some file)).leave put.typeTemp none).goTo p put .publishing
    | none => s.goTo p put .typeDropping
  | .typePublishing, .fails _ => s.goTo p put .typeDropping
  | .typeDropping, .ok => (s.leave put.typeTemp none).fail p put .Storage
  | .typeDropping, .fails _ => s.fail p put .Storage
  | .publishing, .ok =>
    match s.held put.temp with
    | some file => ((s.setObject put.request.hash (some file)).leave put.temp none).goTo p put .syncingShard
    | none => s.goTo p put .dropping
  | .publishing, .fails _ => s.goTo p put .dropping
  | .dropping, .ok => (s.leave put.temp none).goTo p put .lookingAgain
  | .dropping, .fails _ => s.goTo p put .lookingAgain
  | .lookingAgain, .ok =>
    if (s.objects put.request.hash).isSome then s.goTo p put (.answered (.ok .AlreadyPresent))
    else s.fail p put .Storage
  | .lookingAgain, .fails _ => s.fail p put .Storage
  | .syncingShard, .ok => s.goTo p put (if put.shardIsNew then .syncingObjects else .answered (.ok .Created))
  | .syncingShard, .fails _ => s.fail p put .Storage
  | .syncingObjects, .ok => s.goTo p put (.answered (.ok .Created))
  | .syncingObjects, .fails _ => s.fail p put .Storage
  | .failing error, .ok => (s.leave put.temp none).goTo p put (.answered (.error error))
  | .failing error, .fails _ => s.goTo p put (.answered (.error error))
  | .reading, _ => s
  | .answered _, _ => s

def putBody (sha256 : ByteArray → ByteArray) (p : ℕ) (next : Option (Except Unit ByteArray)) : FileStore :=
  match s.puts[p]? with
  | some put => if put.phase = .reading then s.absorb sha256 p put next else s
  | none => s

def putOp (sha256 : ByteArray → ByteArray) (p : ℕ) (outcome : Outcome) : FileStore :=
  match s.puts[p]? with
  | some put => s.operate sha256 p put put.phase outcome
  | none => s

/-- What a reader goes on to; the content type of an object is never a failure. -/
def Reader.next (s : FileStore) (reader : Reader) : Outcome → ReadPhase
  | .ok =>
    match reader.phase with
    | .opening =>
      match s.objects reader.hash with
      | some bytes => if reader.opens then .measuring bytes else .typing bytes.size
      | none => .answered none
    | .measuring bytes => .typing bytes.size
    | .typing length => .answered (some (length, contentTypeOf (s.types reader.hash)))
    | phase => phase
  | .fails _ =>
    match reader.phase with
    | .opening | .measuring _ => .failed
    | .typing length => .answered (some (length, DEFAULT_CONTENT_TYPE))
    | phase => phase

def readOp (r : ℕ) (outcome : Outcome) : FileStore :=
  { s with readers := s.readers.modify r fun reader => { reader with phase := Reader.next s reader outcome } }

/-- The blob goes first: its absence is the object's absence. -/
def deleteOp (d : ℕ) (outcome : Outcome) : FileStore :=
  match s.deletes[d]?, outcome with
  | some ⟨hash, .removing⟩, .ok =>
    if (s.objects hash).isSome then
      { s.setObject hash none with deletes := s.deletes.set d ⟨hash, .typeRemoving⟩ }
    else { s with deletes := s.deletes.set d ⟨hash, .answered false⟩ }
  | some ⟨hash, .removing⟩, .fails _ => { s with deletes := s.deletes.set d ⟨hash, .failed⟩ }
  | some ⟨hash, .typeRemoving⟩, .ok => { s.setType hash none with deletes := s.deletes.set d ⟨hash, .answered true⟩ }
  | some ⟨hash, .typeRemoving⟩, .fails _ => { s with deletes := s.deletes.set d ⟨hash, .answered true⟩ }
  | _, _ => s

def step (sha256 : ByteArray → ByteArray) (s : FileStore) : Step → FileStore
  | .put request => { s with puts := s.puts ++ [⟨request, none, none, .empty, false, .looking⟩] }
  | .body p next => s.putBody sha256 p next
  | .putOp p outcome => s.putOp sha256 p outcome
  | .read hash opens => { s with readers := s.readers ++ [⟨hash, opens, .opening⟩] }
  | .readOp r outcome => s.readOp r outcome
  | .delete hash => { s with deletes := s.deletes ++ [⟨hash, .removing⟩] }
  | .deleteOp d outcome => s.deleteOp d outcome

def run {sha256 : ByteArray → ByteArray} (root : Root sha256) (es : List Step) : FileStore :=
  exec (step sha256) (.open root) es

end FileStore

end Objects
end Grove
