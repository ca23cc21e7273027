import Grove.Core.Cascade

/-! # The runtime

The world both endpoints hold (`packages/core`): the entity table and its manager, the stores
beside it, the host records, the roster.  The functions here are the calls a script, the sim or
the mirror make on it, with every store each of them touches.

A creator's handler is unknown code; what it can do to the world is a list of `Act`s, each one
engine call or one template instantiation, whose calls are journaled as one group.  A call that
throws ends the group it is in; what it did before stays. -/

namespace Grove

/-- A host record's saved fields. -/
abbrev Fields := List (String × JsonValue)

/-- The persisted fields by host (`SessionRecords`): what a hoist is seeded from. -/
abbrev SessionRecords := OrderedMap HostKey Fields

/-- One script attached to a host: its bundle id, if it has one, and its props. -/
structure ScriptInstance where
  script : Option ScriptId
  props : Option ScriptProps
deriving DecidableEq

structure Runtime where
  entities : Entities
  tags : TagIndex
  transforms : SimTransformStore
  channels : ReplicationChannels
  hosts : HostTable
  /-- Attached scripts by host, in attachment order. -/
  instances : OrderedMap HostKey (List ScriptInstance)
  playerManager : PlayerManager
  /-- `none` on an endpoint that persists nothing. -/
  persisted : Option SessionRecords
  /-- The names each host's facade answers to by itself. -/
  facadeMembers : HostKey → List String
  tick : ℤ
  simRate : ℚ

namespace Runtime

variable (rt : Runtime)

def markStructural (op : SingleStructuralOp) : Runtime :=
  { rt with channels := rt.channels.markStructural op }

/-! ### Entities -/

/-- Spawns an entity from a template, at `(x, y)`. -/
def spawn (template : String) (x y : JsNumber) (ownerId : String) : Except LoadError (EntityId × Runtime) :=
  match rt.entities.create template ownerId with
  | .error err => .error err
  | .ok (id, entities) =>
    .ok (id,
      { rt with
        entities := entities
        transforms := (rt.transforms.initSlot id).setPosition id x y (.finite 0)
        channels := rt.channels.markStructural (.spawn id template) })

def destroy (id : EntityId) : Runtime := { rt with entities := rt.entities.destroy id }

def attachTo (id parent : EntityId) : Except LoadError Runtime :=
  match rt.entities.attachTo id parent with
  | .error err => .error err
  | .ok none => .ok rt
  | .ok (some entities) =>
    .ok { rt with
      entities := entities
      channels := rt.channels.markStructural (.reparent id parent) }

def detach (id : EntityId) : Runtime :=
  match rt.entities.unlink id with
  | (false, entities) => { rt with entities := entities }
  | (true, entities) =>
    { rt with
      entities := entities
      channels := rt.channels.markStructural (.reparent id noEntity) }

/-- Neither this nor `untag` asks whether the entity still exists. -/
def tag (id : EntityId) (name : String) : Runtime :=
  { rt with
    tags := rt.tags.add id name
    channels := rt.channels.markStructural (.tag id name true) }

def untag (id : EntityId) (name : String) : Runtime :=
  { rt with
    tags := rt.tags.remove id name
    channels := rt.channels.markStructural (.tag id name false) }

/-! ### Hosts and scripts -/

/-- The value a persisted record holds for a field. -/
def persistedField (key : HostKey) (field : String) : Option JsonValue :=
  (rt.persisted.bind (fun records => records.get key)).bind (OrderedMap.lookup field)

def setField (rid : RecordId) (field : String) (v : FieldValue) : Runtime :=
  { rt with
    hosts := rt.hosts.put rid
      { rt.hosts.heap rid with values := (rt.hosts.heap rid).values.set field v } }

/-- A write through a hoisted accessor, or a wrapper's own method: the field and its mark.
A record object outlives its host, so the write lands whether or not the key is in use. -/
def writeState (rid : RecordId) (field : String) (v : FieldValue) : Runtime :=
  if rid < rt.hosts.next then
    { rt.setField rid field v with channels := rt.channels.markState rid field }
  else rt

/-- Moves one declared field onto the host record, seeded from the persisted value when its tag
still matches.  Nothing is marked. -/
def hoistField (rid : RecordId) (field : String) (authored : JsValue) : Except LoadError Runtime :=
  let record := rt.hosts.heap rid
  if record.values.has field ∧ field ∉ record.wrappers then .error (.wiring field)
  else if record.answersTo (rt.facadeMembers record.hostId) field then .error (.wiring field)
  else
    let seed :=
      match rt.persistedField record.hostId field with
      | some v => if tagsMatch v.toJs.tagOf authored.tagOf then v.toJs else authored
      | none => authored
    .ok { rt with
      hosts := rt.hosts.put rid
        { record with
          values := record.values.set field (.plain seed)
          tags := record.tags.set field authored.tagOf
          hoisted := addNew record.hoisted field } }

/-- Puts one wrapper on the host record, refilled from the persisted payload. -/
def bindWrapper (rid : RecordId) (field : String) (w : Wrapper) : Except LoadError Runtime :=
  let record := rt.hosts.heap rid
  let restored :=
    match rt.persistedField record.hostId field with
    | some v => w.restore v
    | none => some w
  match restored with
  | none => .error (.wiring field)
  | some w =>
    .ok { rt with
      hosts := rt.hosts.put rid
        { record with
          values := record.values.set field (.wrapper w)
          wrappers := addNew record.wrappers field } }

def hoistState (rid : RecordId) : List (String × JsValue) → Runtime → Runtime × Option LoadError
  | [], rt => (rt, none)
  | (field, authored) :: rest, rt =>
    match rt.hoistField rid field authored with
    | .error err => (rt, some err)
    | .ok rt => hoistState rid rest rt

def bindWrappers (rid : RecordId) : List (String × Wrapper) → Runtime → Runtime × Option LoadError
  | [], rt => (rt, none)
  | (field, w) :: rest, rt =>
    match rt.bindWrapper rid field w with
    | .error err => (rt, some err)
    | .ok rt => bindWrappers rid rest rt

/-- A script class, as an attach uses it: its declared state and its wrapper fields. -/
structure ScriptClass where
  fields : List (String × JsValue)
  wrappers : List (String × Wrapper)

/-- Attaches a script to a host.  A failure leaves the record half hoisted. -/
def attach (key : HostKey) (klass : ScriptClass) (inst : ScriptInstance) : Runtime × Option LoadError :=
  let rt := { rt with hosts := rt.hosts.ensure key }
  match rt.hosts.get key with
  | none => (rt, none)
  | some rid =>
    match hoistState rid klass.fields rt with
    | (rt, some err) => (rt, some err)
    | (rt, none) =>
      match bindWrappers rid klass.wrappers rt with
      | (rt, some err) => (rt, some err)
      | (rt, none) =>
        ({ rt with instances := rt.instances.set key ((rt.instances.get key).getD [] ++ [inst]) }, none)

/-- Attaches to an entity and journals it; a class with no bundle id attaches locally only. -/
def attachToEntity (id : EntityId) (klass : ScriptClass) (inst : ScriptInstance) :
    Runtime × Option LoadError :=
  match rt.attach (.entity id) klass inst with
  | (rt, some err) => (rt, some err)
  | (rt, none) =>
    match inst.script with
    | none => (rt, none)
    | some script => (rt.markStructural (.attach id script inst.props), none)

def removeHost (key : HostKey) : Runtime :=
  { rt with instances := rt.instances.delete key, hosts := rt.hosts.remove key }

/-! ### Acts -/

/-- One engine call. -/
inductive Op where
  | spawn (template : String) (x y : JsNumber) (ownerId : String)
  | destroy (id : EntityId)
  | attachTo (id parent : EntityId)
  | detach (id : EntityId)
  | tag (id : EntityId) (name : String)
  | untag (id : EntityId) (name : String)
  /-- `say` and `clearSay`: a `say:` tag op in the journal and in no index. -/
  | bubble (id : EntityId) (text : String) (added : Bool)
  | setPosition (id : EntityId) (x y z : JsNumber)
  | setRotation (id : EntityId) (degrees : JsNumber)
  | setScale (id : EntityId) (scale : JsNumber)
  | setOpacity (id : EntityId) (opacity : JsNumber)
  | setLayer (id : EntityId) (layer : JsNumber)
  | writeState (rid : RecordId) (field : String) (v : FieldValue)
  /-- A timer or a tween takes the host's scope, which makes its record. -/
  | ensureHost (key : HostKey)
  | attachToEntity (id : EntityId) (klass : ScriptClass) (inst : ScriptInstance)
  /-- An attach to the game, a player, a camera or a screen: nothing is journaled. -/
  | attach (key : HostKey) (klass : ScriptClass) (inst : ScriptInstance)

/-- The call, and whether it threw. -/
def step (rt : Runtime) : Op → Runtime × Bool
  | .spawn template x y ownerId =>
    match rt.spawn template x y ownerId with
    | .ok (_, rt) => (rt, false)
    | .error _ => (rt, true)
  | .destroy id => (rt.destroy id, false)
  | .attachTo id parent =>
    match rt.attachTo id parent with
    | .ok rt => (rt, false)
    | .error _ => (rt, true)
  | .detach id => (rt.detach id, false)
  | .tag id name => (rt.tag id name, false)
  | .untag id name => (rt.untag id name, false)
  | .bubble id text added => (rt.markStructural (.tag id ("say:" ++ text) added), false)
  | .setPosition id x y z => ({ rt with transforms := rt.transforms.setPosition id x y z }, false)
  | .setRotation id degrees => ({ rt with transforms := rt.transforms.setRotation id degrees }, false)
  | .setScale id scale => ({ rt with transforms := rt.transforms.setScale id scale }, false)
  | .setOpacity id opacity => ({ rt with transforms := rt.transforms.setOpacity id opacity }, false)
  | .setLayer id layer => ({ rt with transforms := rt.transforms.setLayer id layer }, false)
  | .writeState rid field v => (rt.writeState rid field v, false)
  | .ensureHost key => ({ rt with hosts := rt.hosts.ensure key }, false)
  | .attachToEntity id klass inst =>
    match rt.attachToEntity id klass inst with
    | (rt, err) => (rt, err.isSome)
  | .attach key klass inst =>
    match rt.attach key klass inst with
    | (rt, err) => (rt, err.isSome)

/-- One engine call, or a template instantiation: calls journaled as one. -/
inductive Act where
  | op (op : Op)
  | group (ops : List Op)

/-- The calls in order, up to the first that throws. -/
def stepAll : List Op → Runtime → Runtime
  | [], rt => rt
  | op :: ops, rt =>
    match rt.step op with
    | (rt, false) => stepAll ops rt
    | (rt, true) => rt

def act (rt : Runtime) : Act → Runtime
  | .op op => (rt.step op).1
  | .group ops =>
    let rt := stepAll ops { rt with channels := rt.channels.beginGroup }
    { rt with channels := rt.channels.endGroup }

/-- What a handler did. -/
def acts (rt : Runtime) (as : List Act) : Runtime := as.foldl act rt

/-! ### The destroy drain -/

/-- Removes one doomed entity from every index. -/
def teardown (rt : Runtime) (id : EntityId) : Runtime :=
  let rt :=
    { rt with
      tags := rt.tags.removeAll id
      transforms := rt.transforms.releaseSlot id
      channels := rt.channels.markStructural (.destroy id)
      entities := rt.entities.teardown id }
  rt.removeHost (.entity id)

/-- Removes queued entities from every index.  Every `@onEnd` runs before any teardown; what
the handlers do is `onEnd`. -/
def drainDestroyed (rt : Runtime) (onEnd : List Act) : Runtime :=
  match rt.entities.pendingDestroy with
  | [] => rt
  | doomed =>
    doomed.foldl teardown
      ({ rt with entities := { rt.entities with pendingDestroy := [] } }.acts onEnd)

/-! ### Players -/

/-- Creates the player and its host record, then lets `@onPlayerJoin` act. -/
def joinPlayer (rt : Runtime) (id : PlayerId) (name : String) (onJoin : List Act) : Runtime :=
  { rt with
    playerManager := rt.playerManager.create id name
    hosts := rt.hosts.ensure (.player id) }.acts onJoin

def removePlayer (rt : Runtime) (id : PlayerId) : Runtime :=
  match rt.playerManager.byId id with
  | none => rt
  | some _ =>
    ({ rt with playerManager := rt.playerManager.remove id }.removeHost (.player id)).removeHost (.camera id)

/-- The player's hosts wind up and the game is told (`onLeave`), then the roster drops them. -/
def leavePlayer (rt : Runtime) (id : PlayerId) (onLeave : List Act) : Runtime :=
  match rt.playerManager.byId id with
  | none => rt
  | some _ => (rt.acts onLeave).removePlayer id

/-- A world with nothing in it. -/
def new (persisted : Option SessionRecords) (facadeMembers : HostKey → List String) (simRate : ℚ) : Runtime where
  entities := Entities.empty
  tags := TagIndex.empty
  transforms := SimTransformStore.empty
  channels := ReplicationChannels.empty
  hosts := HostTable.empty
  instances := OrderedMap.empty
  playerManager := PlayerManager.empty
  persisted := persisted
  facadeMembers := facadeMembers
  tick := 0
  simRate := simRate

end Runtime

end Grove
