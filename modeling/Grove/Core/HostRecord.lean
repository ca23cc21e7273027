import Grove.Core.Value
import Grove.Core.Player
import Grove.Lib.OrderedMap

/-! # Host records and bound wrappers

`packages/core/src/state/host-record.ts`, `runtime/hosts.ts` and the wrappers of
`runtime/wrappers.ts`.  A host is the game, a player, an entity, a camera or a screen; its
`@serverState` values live on one record.  A field may instead hold a bound wrapper, which
travels as its serialized form and is restored in place on the receiving side.

A mark on the state channel names a record object, not a key: two records of one key, an old
one and its successor, are different marks.  Records therefore live in a heap and the host
table maps a key to a `RecordId`. -/

namespace Grove

/-- Which host a record belongs to, as the host key names it. -/
inductive HostKey where
  | game
  | player (id : PlayerId)
  | entity (id : ℕ)
  | camera (playerId : PlayerId)
  | screen (name : String)
deriving DecidableEq

/-- A data wrapper's contents: its constructor arguments and what it holds. -/
inductive Wrapper where
  | scoreboard (scores : OrderedMap String JsNumber)
  | leaderboard (low : Bool) (scores : OrderedMap String JsNumber)
  | inventory (player : PlayerId) (items : OrderedMap String JsNumber)
  | team (name : String) (members : List String)

/-- What a field holds. -/
inductive FieldValue where
  | plain (v : JsValue)
  | wrapper (w : Wrapper)

/-- Field values of one host.  The type tags serve restore validation at the hoist alone.  The
names defined on the host's facade are kept here too: the two live and die together. -/
structure HostRecord where
  hostId : HostKey
  values : OrderedMap String FieldValue
  tags : OrderedMap String TypeTag
  wrappers : List String
  /-- Fields whose accessor an attach put on the facade. -/
  hoisted : List String
  /-- Fields whose read-only accessor a replicated value put there. -/
  replicated : List String

def createHostRecord (hostId : HostKey) : HostRecord :=
  ⟨hostId, OrderedMap.empty, OrderedMap.empty, [], [], []⟩

namespace Wrapper

/-- Entry pairs, as every count map travels. -/
def countsToJs (m : OrderedMap String JsNumber) : JsValue :=
  .array (m.entries.map (fun e => .array [.string e.1, .number e.2]))

def serialize : Wrapper → JsValue
  | .scoreboard scores => .object [("kind", .string "Scoreboard"), ("scores", countsToJs scores)]
  | .leaderboard low scores =>
    .object [("kind", .string "Leaderboard"), ("order", .string (if low then "low" else "high")),
      ("scores", countsToJs scores)]
  | .inventory player items =>
    .object [("kind", .string "Inventory"), ("player", .string player), ("items", countsToJs items)]
  | .team name members =>
    .object [("kind", .string "Team"), ("name", .string name), ("members", .array (members.map .string))]

/-- A property of a payload, `none` when it is absent or the payload is no object. -/
def prop (data : JsonValue) (name : String) : Option JsonValue :=
  match data with
  | .object entries => OrderedMap.lookup name entries
  | _ => none

/-- The pairs of a count map; `none` for a list no wrapper serializes. -/
def readCounts : List JsonValue → OrderedMap String JsNumber → Option (OrderedMap String JsNumber)
  | [], m => some m
  | .array (.string k :: .number n :: _) :: rest, m => readCounts rest (m.set k (.finite n))
  | _ :: _, _ => none

/-- Refills a count map from `data[field]`; a payload of another kind is left alone. -/
def restoreCounts (held : OrderedMap String JsNumber) (data : JsonValue) (kind field : String) :
    Option (OrderedMap String JsNumber) :=
  if prop data "kind" = some (.string kind) then
    match prop data field with
    | none | some .null => some OrderedMap.empty
    | some (.array entries) => readCounts entries OrderedMap.empty
    | some _ => none
  else some held

def readMembers : List JsonValue → List String → Option (List String)
  | [], m => some m
  | .string s :: rest, m => readMembers rest (addNew m s)
  | _ :: _, _ => none

/-- Refills a wrapper in place from a payload of its own kind. -/
def restore (data : JsonValue) : Wrapper → Option Wrapper
  | .scoreboard scores => (restoreCounts scores data "Scoreboard" "scores").map .scoreboard
  | .leaderboard low scores => (restoreCounts scores data "Leaderboard" "scores").map (.leaderboard low)
  | .inventory player items => (restoreCounts items data "Inventory" "items").map (.inventory player)
  | .team name members =>
    if prop data "kind" = some (.string "Team") then
      match prop data "members" with
      | none | some .null => some (.team name [])
      | some (.array ms) => (readMembers ms []).map (.team name)
      | some _ => none
    else some (.team name members)

/-- Rebuilds an empty wrapper from a payload's `kind`, or `none`. -/
def reviveWrapper (byId : PlayerId → Option Player) (data : JsonValue) : Option Wrapper :=
  let kind := prop data "kind"
  if kind = some (.string "Scoreboard") then some (.scoreboard OrderedMap.empty)
  else if kind = some (.string "Leaderboard") then
    some (.leaderboard (prop data "order" = some (.string "low")) OrderedMap.empty)
  else if kind = some (.string "Team") then
    match prop data "name" with
    | some (.string name) => some (.team name [])
    | _ => none
  else if kind = some (.string "Inventory") then
    match prop data "player" with
    | some (.string id) => (byId id).map (fun p => .inventory p.id OrderedMap.empty)
    | _ => none
  else none

end Wrapper

namespace HostRecord

variable (r : HostRecord)

/-- A host field as the wire carries it: a bound wrapper's serialized form, else the raw value. -/
def serializeHostField (field : String) : JsValue :=
  match r.values.get field with
  | some (.plain v) => v
  | some (.wrapper w) => w.serialize
  | none => .undefined

/-- Lands a replicated value; a wrapper already there is restored, not replaced.  `none` is a
payload that claims a wrapper's kind and is none a wrapper serializes, which the restore does
not survive. -/
def restoreHostField (byId : PlayerId → Option Player) (field : String) (value : JsonValue) :
    Option HostRecord :=
  match r.values.get field with
  | some (.wrapper held) =>
    (held.restore value).map (fun w => { r with values := r.values.set field (.wrapper w) })
  | _ =>
    match Wrapper.reviveWrapper byId value with
    | none => some { r with values := r.values.set field (.plain value.toJs) }
    | some revived =>
      (revived.restore value).map (fun w =>
        { r with
          values := r.values.set field (.wrapper w)
          wrappers := addNew r.wrappers field })

/-- Whether the facade answers to the name; `members` are those it answers to by itself. -/
def answersTo (members : List String) (field : String) : Bool :=
  field ∈ members ∨ field ∈ r.hoisted ∨ field ∈ r.replicated

/-- Puts a replicated field on the facade; false for a name it already owns. -/
def hoistReplicated (members : List String) (field : String) : Bool × HostRecord :=
  if field ∈ r.replicated then (true, r)
  else if r.answersTo members field then (false, r)
  else (true, { r with replicated := r.replicated ++ [field] })

end HostRecord

/-! ### The host table -/

/-- The address of a record object. -/
abbrev RecordId := ℕ

/-- The records ever made, and the key table of those in use. -/
structure HostTable where
  byKey : OrderedMap HostKey RecordId
  heap : RecordId → HostRecord
  /-- The next unused address. -/
  next : RecordId

namespace HostTable

def empty : HostTable := ⟨OrderedMap.empty, fun _ => createHostRecord .game, 0⟩

variable (t : HostTable)

/-- Registers a host, creating its record.  Idempotent per key. -/
def ensure (key : HostKey) : HostTable :=
  match t.byKey.get key with
  | some _ => t
  | none =>
    { byKey := t.byKey.set key t.next
      heap := Function.update t.heap t.next (createHostRecord key)
      next := t.next + 1 }

def get (key : HostKey) : Option RecordId := t.byKey.get key

def record (key : HostKey) : Option HostRecord := (t.get key).map t.heap

/-- Drops the entry; the record object stays with whoever holds it. -/
def remove (key : HostKey) : HostTable := { t with byKey := t.byKey.delete key }

def put (rid : RecordId) (r : HostRecord) : HostTable := { t with heap := Function.update t.heap rid r }

end HostTable

end Grove
