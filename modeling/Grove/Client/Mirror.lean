import Grove.Core.Runtime
import Grove.Core.Script

/-! # The client's mirror

`packages/client/src/mirror.ts` and `index-map.ts`.  A mirror is a runtime of its own, kept in
step with the authority's by the envelopes it applies; its handles are its own too, so an index
pairs each server identity with a local one.

The scripts the wire attaches run on the client's own ticks.  What their handlers do is not part
of the model: the drain of `applyState` runs none. -/

namespace Grove

/-- Cardinality cap on an array a server sends. -/
def maxWireItems : ℕ := 65536

/-- Scripts one entity's spawn snapshot may carry. -/
def maxEntityScripts : ℕ := 64

/-- The bundle's classes by wire id; what an attach hoists may depend on the props. -/
structure ScriptIndex where
  resolve : ScriptId → Option (Option ScriptProps → Runtime.ScriptClass)
  locationOf : ScriptId → Option ScriptLocation

/-! ### The index -/

/-- Server identities to local handles and back. -/
structure MirrorIndex where
  toLocal : OrderedMap NetId EntityId
  toNet : OrderedMap EntityId NetId

namespace MirrorIndex

def empty : MirrorIndex := ⟨OrderedMap.empty, OrderedMap.empty⟩

variable (i : MirrorIndex)

/-- Binds a server identity to a local one, overwriting a stale pairing. -/
def set (netId : NetId) (loc : EntityId) : MirrorIndex where
  toLocal := i.toLocal.set netId loc
  toNet :=
    (match i.toLocal.get netId with
      | some previous => i.toNet.delete previous
      | none => i.toNet).set loc netId

def localOf (netId : NetId) : Option EntityId := i.toLocal.get netId

/-- Drops both directions. -/
def delete (netId : NetId) : MirrorIndex :=
  match i.toLocal.get netId with
  | none => i
  | some loc => ⟨i.toLocal.delete netId, i.toNet.delete loc⟩

theorem localOf_set (netId x : NetId) (loc : EntityId) :
    (i.set netId loc).localOf x = if x = netId then some loc else i.localOf x :=
  i.toLocal.get_set netId x loc

theorem localOf_delete (netId x : NetId) :
    (i.delete netId).localOf x = if x = netId then none else i.localOf x := by
  unfold delete localOf
  cases h : i.toLocal.get netId with
  | none =>
    simp only
    split_ifs with hx
    · rw [hx, h]
    · rfl
  | some loc => exact i.toLocal.get_delete netId x

theorem localOf_foldl_delete (netIds : List NetId) (x : NetId) :
    (netIds.foldl MirrorIndex.delete i).localOf x = if x ∈ netIds then none else i.localOf x := by
  induction netIds generalizing i with
  | nil => simp
  | cons n netIds ih =>
    rw [List.foldl_cons, ih, localOf_delete]
    by_cases hx : x ∈ netIds
    · simp [hx]
    · by_cases hn : x = n
      · simp [hn]
      · simp [hx, hn]

end MirrorIndex

/-! ### The mirror -/

/-- Ops the mirror declined to apply. -/
structure MirrorCounters where
  unknownNetId : ℕ
  outOfOrderParent : ℕ
  droppedAttach : ℕ
  supersededTransforms : ℕ
  invalidNetId : ℕ
  oversizedList : ℕ
  reservedField : ℕ
deriving DecidableEq

def MirrorCounters.zero : MirrorCounters := ⟨0, 0, 0, 0, 0, 0, 0⟩

/-- What a batch of applied ops changed, in order and in local handles. -/
structure MirrorDelta where
  added : List EntityId
  removed : List EntityId
  /-- `none` for a detach to the root. -/
  reparented : List (EntityId × Option EntityId)
  joined : List PlayerId
  left : List PlayerId
deriving DecidableEq

def MirrorDelta.empty : MirrorDelta := ⟨[], [], [], [], []⟩

structure Mirror where
  rt : Runtime
  index : MirrorIndex
  scripts : Option ScriptIndex
  /-- Where the server was when the wire last described it. -/
  depictedTick : ℤ
  heldTransforms : Option TransformEnvelope
  /-- Highest tick whose state envelope has been applied. -/
  stateAppliedTick : ℤ
  /-- Identities whose teardown is queued; unmapped once the drain has read them. -/
  pendingUnmap : List NetId
  counters : MirrorCounters
  /-- What the batch being applied has changed so far. -/
  delta : MirrorDelta

namespace Mirror

/-- A mirror of nothing. -/
def new (scripts : Option ScriptIndex) (facadeMembers : HostKey → List String) (simRate : ℚ) : Mirror where
  rt := Runtime.new none facadeMembers simRate
  index := MirrorIndex.empty
  scripts := scripts
  depictedTick := 0
  heldTransforms := none
  stateAppliedTick := -1
  pendingUnmap := []
  counters := MirrorCounters.zero
  delta := MirrorDelta.empty

variable (m : Mirror)

def countUnknown : Mirror := { m with counters.unknownNetId := m.counters.unknownNetId + 1 }

def countOversized : Mirror := { m with counters.oversizedList := m.counters.oversizedList + 1 }

/-- The local handle of an identity; an unknown one is dropped and counted. -/
def resolve (netId : NetId) : Option EntityId × Mirror :=
  match m.index.localOf netId with
  | some loc => (some loc, m)
  | none => (none, m.countUnknown)

def writeTransform (loc : EntityId) (t : WireTransform) : Mirror :=
  { m with
    rt.transforms :=
      ((((m.rt.transforms.setPosition loc (.finite t.posX) (.finite t.posY) (.finite t.posZ)).setRotation
        loc (.finite t.rot)).setScale loc (.finite t.scale)).setOpacity loc (.finite t.opacity)).setLayer
        loc (.finite t.layer) }

/-- Attaches one script named by the wire, or counts the miss; a server script is skipped. -/
def attach (loc : EntityId) (attachment : WireScriptAttachment) : Mirror × Option LoadError :=
  match m.scripts with
  | none => ({ m with counters.droppedAttach := m.counters.droppedAttach + 1 }, none)
  | some registry =>
    if registry.locationOf attachment.script = some .server then (m, none)
    else
      match registry.resolve attachment.script with
      | none => ({ m with counters.droppedAttach := m.counters.droppedAttach + 1 }, none)
      | some klass =>
        let (rt, err) := m.rt.attachToEntity loc (klass attachment.props)
          ⟨some attachment.script, attachment.props⟩
        ({ m with rt := rt }, err)

def attachAll (loc : EntityId) : List WireScriptAttachment → Mirror → Mirror × Option LoadError
  | [], m => (m, none)
  | a :: rest, m =>
    match m.attach loc a with
    | (m, some err) => (m, some err)
    | (m, none) => attachAll loc rest m

/-- Hangs a fresh entity beneath its parent; one the mirror does not hold leaves it a root. -/
def linkParent (loc : EntityId) : Option NetId → Mirror × Option LoadError
  | none => (m, none)
  | some netId =>
    match m.resolve netId with
    | (none, m) => ({ m with counters.outOfOrderParent := m.counters.outOfOrderParent + 1 }, none)
    | (some parent, m) =>
      match m.rt.attachTo loc parent with
      | .error err => (m, some err)
      | .ok rt => ({ m with rt := rt }, none)

/-- The tags of a spawn, refused whole past the cap. -/
def applyTags (loc : EntityId) (tags : List String) : Mirror :=
  if maxWireItems < tags.length then m.countOversized
  else { m with rt := tags.foldl (fun rt tag => rt.tag loc tag) m.rt }

/-- The scripts of a spawn, refused whole past the cap. -/
def applyScripts (loc : EntityId) (attachments : List WireScriptAttachment) : Mirror × Option LoadError :=
  if maxEntityScripts < attachments.length then (m.countOversized, none)
  else attachAll loc attachments m

def spawn (s : EntitySnapshot) : Mirror × Option LoadError :=
  if maxSafeInteger < s.netId then
    ({ m with counters.invalidNetId := m.counters.invalidNetId + 1 }, none)
  else
    match m.rt.spawn s.template (.finite s.transform.posX) (.finite s.transform.posY) (s.owner.getD "") with
    | .error err => (m, some err)
    | .ok (loc, rt) =>
      match { m with rt := rt, index := m.index.set s.netId loc }.linkParent loc s.parent with
      | (m, some err) => (m, some err)
      | (m, none) =>
        match (m.applyTags loc s.tags).applyScripts loc ((s.overrides.bind EntityOverrides.scripts).getD []) with
        | (m, some err) => (m, some err)
        | (m, none) =>
          let m := m.writeTransform loc s.transform
          ({ m with delta.added := m.delta.added ++ [loc] }, none)

def destroy (netId : NetId) : Mirror :=
  match m.resolve netId with
  | (none, m) => m
  | (some loc, m) =>
    { m with
      rt := m.rt.destroy loc
      pendingUnmap := m.pendingUnmap ++ [netId]
      delta.removed := m.delta.removed ++ [loc] }

/-- Minted directly, with the wire's index; one already here only takes the name. -/
def joinPlayer (player : PlayerSnapshot) : Mirror :=
  let m := { m with delta.joined := m.delta.joined ++ [player.id] }
  match m.rt.playerManager.byId player.id with
  | some _ => { m with rt.playerManager := m.rt.playerManager.rename player.id player.name }
  | none =>
    { m with
      rt.playerManager := m.rt.playerManager.adopt ⟨player.id, player.index, player.name⟩
      rt.hosts := m.rt.hosts.ensure (.player player.id) }

def leavePlayer (id : PlayerId) : Mirror :=
  match m.rt.playerManager.byId id with
  | none => m.countUnknown
  | some _ =>
    { m with
      rt.playerManager := m.rt.playerManager.remove id
      rt.hosts := m.rt.hosts.remove (.player id)
      delta.left := m.delta.left ++ [id] }

def reparent (netId : NetId) (parent : Option NetId) : Mirror × Option LoadError :=
  match m.resolve netId with
  | (none, m) => (m, none)
  | (some loc, m) =>
    match parent with
    | none =>
      ({ m with rt := m.rt.detach loc, delta.reparented := m.delta.reparented ++ [(loc, none)] }, none)
    | some p =>
      match m.resolve p with
      | (none, m) => (m, none)
      | (some parent, m) =>
        match m.rt.attachTo loc parent with
        | .error err => (m, some err)
        | .ok rt =>
          ({ m with rt := rt, delta.reparented := m.delta.reparented ++ [(loc, some parent)] }, none)

def applySingle (m : Mirror) : WireSingleStructuralOp → Mirror × Option LoadError
  | .spawn snapshot | .enterInterest snapshot => m.spawn snapshot
  | .destroy netId | .leaveInterest netId => (m.destroy netId, none)
  | .reparent netId parent => m.reparent netId parent
  | .tag netId tag added =>
    match m.resolve netId with
    | (none, m) => (m, none)
    | (some loc, m) => ({ m with rt := if added then m.rt.tag loc tag else m.rt.untag loc tag }, none)
  | .playerJoin player => (m.joinPlayer player, none)
  | .playerLeave id => (m.leavePlayer id, none)
  | .attach netId attachment =>
    match m.resolve netId with
    | (none, m) => (m, none)
    | (some loc, m) => m.attach loc attachment

def applySingles : List WireSingleStructuralOp → Mirror → Mirror × Option LoadError
  | [], m => (m, none)
  | op :: ops, m =>
    match m.applySingle op with
    | (m, some err) => (m, some err)
    | (m, none) => applySingles ops m

/-- A group is bounded before the walk, then applied verbatim and in order. -/
def applyStructural (m : Mirror) : WireStructuralOp → Mirror × Option LoadError
  | .single op => m.applySingle op
  | .group ops => if maxWireItems < ops.length then (m.countOversized, none) else applySingles ops m

def applyJournal : List WireStructuralOp → Mirror → Mirror × Option LoadError
  | [], m => (m, none)
  | op :: ops, m =>
    match m.applyStructural op with
    | (m, some err) => (m, some err)
    | (m, none) => applyJournal ops m

/-! ### State and transforms -/

/-- The host record a diff addresses; `none` for an entity the mirror does not hold. -/
def hostKey : StateHostAddr → Option HostKey × Mirror
  | .game => (some .game, m)
  | .player id => (some (.player id), m)
  | .entity netId =>
    match m.resolve netId with
    | (none, m) => (none, m)
    | (some loc, m) => (some (.entity loc), m)

/-- Whether a creator-facing object stands for the host here. -/
def hasFacade : StateHostAddr → Bool
  | .game => true
  | .player id => (m.rt.playerManager.byId id).isSome
  | .entity netId => (m.index.localOf netId).isSome

/-- Lands one field on the record and on the facade; `none` where the restore throws. -/
def applyField (rid : RecordId) (facade : Bool) (field : String) (value : JsonValue) : Option Mirror :=
  let record := m.rt.hosts.heap rid
  match record.restoreHostField m.rt.playerManager.byId field value with
  | none => none
  | some record =>
    if facade then
      match record.hoistReplicated (m.rt.facadeMembers record.hostId) field with
      | (true, record) => some { m with rt.hosts := m.rt.hosts.put rid record }
      | (false, record) =>
        some { m with
          rt.hosts := m.rt.hosts.put rid record
          counters.reservedField := m.counters.reservedField + 1 }
    else some { m with rt.hosts := m.rt.hosts.put rid record }

def applyFields (rid : RecordId) (facade : Bool) :
    List (String × JsonValue) → Mirror → Mirror × Option LoadError
  | [], m => (m, none)
  | (field, value) :: rest, m =>
    match m.applyField rid facade field value with
    | none => (m, some (.wiring field))
    | some m => applyFields rid facade rest m

def applyStateField (diff : StateDiff) : Mirror × Option LoadError :=
  match m.hostKey diff.host with
  | (none, m) => (m, none)
  | (some key, m) =>
    let m := { m with rt.hosts := m.rt.hosts.ensure key }
    match m.rt.hosts.get key with
    | none => (m, none)
    | some rid => applyFields rid (m.hasFacade diff.host) diff.fields m

def applyDiffs : List StateDiff → Mirror → Mirror × Option LoadError
  | [], m => (m, none)
  | diff :: rest, m =>
    match m.applyStateField diff with
    | (m, some err) => (m, some err)
    | (m, none) => applyDiffs rest m

def writeDiff (diff : TransformDiff) : Mirror :=
  match m.resolve diff.netId with
  | (none, m) => m
  | (some loc, m) => m.writeTransform loc diff.transform

def writeTransforms (envelope : TransformEnvelope) : Mirror := envelope.transform.foldl writeDiff m

def releaseHeldTransforms (tick : ℤ) : Mirror :=
  match m.heldTransforms with
  | none => m
  | some held => if tick < held.tick then m else { m with heldTransforms := none }.writeTransforms held

/-- Clears marks the client has no consumer for. -/
def discardMarks : Mirror := { m with rt.channels := ReplicationChannels.clear }

/-- The teardown of what the journal destroyed, once per envelope. -/
def drain : Mirror :=
  { m with
    rt := m.rt.drainDestroyed []
    index := m.pendingUnmap.foldl MirrorIndex.delete m.index
    pendingUnmap := [] }

theorem localOf_drain (n : NetId) :
    m.drain.index.localOf n = if n ∈ m.pendingUnmap then none else m.index.localOf n :=
  MirrorIndex.localOf_foldl_delete m.index m.pendingUnmap n

/-- The mirror as an envelope's journal finds it: both clocks are the envelope's. -/
def opening (envelope : StateEnvelope) : Mirror :=
  { m with depictedTick := envelope.tick, rt.tick := envelope.tick, delta := MirrorDelta.empty }

/-- The reliable envelope: the journal, then the state diffs, then a held transform. -/
def applyState (envelope : StateEnvelope) : Mirror × Option LoadError :=
  match applyJournal envelope.structural (m.opening envelope) with
  | (m, some err) => (m, some err)
  | (m, none) =>
    match applyDiffs envelope.state m.drain with
    | (m, some err) => (m, some err)
    | (m, none) =>
      ({ m with stateAppliedTick := envelope.tick }.discardMarks.releaseHeldTransforms envelope.tick, none)

/-- Holds the droppable envelope until its tick's state envelope has landed. -/
def applyTransforms (envelope : TransformEnvelope) : Mirror :=
  if m.stateAppliedTick < envelope.tick then
    { m with
      heldTransforms := some envelope
      counters.supersededTransforms :=
        m.counters.supersededTransforms + if m.heldTransforms.isSome then 1 else 0 }
  else m.writeTransforms envelope

/-- The envelope a snapshot is applied as. -/
def snapshotEnvelope (snapshot : WorldSnapshot) : StateEnvelope where
  tick := snapshot.tick
  ackSeq := 0
  earliestHeadroom := none
  structural :=
    snapshot.players.map (fun p => .single (.playerJoin p)) ++
      snapshot.entities.map (fun s => .single (.spawn s))
  state := snapshot.state

/-- The initial snapshot, through the same appliers. -/
def applySnapshot (snapshot : WorldSnapshot) : Mirror × Option LoadError :=
  m.applyState (snapshotEnvelope snapshot)

end Mirror

end Grove
