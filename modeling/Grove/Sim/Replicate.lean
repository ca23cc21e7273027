import Grove.Sim.Encode
import Grove.Sim.Session

/-! # The send drain

`packages/sim/src/replicate.ts`.  One send-tick drains the structural journal, the dirty
transforms and the state marks, converts them to wire form against the world as it stands, and
cuts the structural part to the budget; the rest waits in the spill, already converted. -/

namespace Grove

/-- Whether the tag belongs to a speech bubble, which is in no tag index. -/
def isSay (tag : String) : Bool := "say:".toList.isPrefixOf tag.toList

/-- The seven transform fields, non-finite cells degraded to the slot defaults. -/
def readTransform (c : TransformCells) : WireTransform where
  posX := c.posX.finiteOr 0
  posY := c.posY.finiteOr 0
  posZ := c.posZ.finiteOr 0
  rot := c.rot.finiteOr 0
  scale := c.scale.finiteOr 1
  opacity := c.opacity.finiteOr 1
  layer := c.layer

namespace Runtime

variable (rt : Runtime)

/-- The transform a joiner or a diff carries for an entity. -/
def wireTransform (id : EntityId) : WireTransform := readTransform (rt.transforms.cells (handleIndex id))

/-- The scripts on one entity that have a bundle id. -/
def overridesOf (id : EntityId) : Option EntityOverrides :=
  let scripts := ((rt.instances.get (.entity id)).getD []).filterMap
    (fun inst => inst.script.map (fun script => ⟨script, inst.props⟩))
  if scripts.isEmpty then none else some ⟨some scripts⟩

/-- One entity as a joiner (`hierarchy`) or a spawn must receive it. -/
def readEntitySnapshot (id : EntityId) (hierarchy : Bool) : Option EntitySnapshot :=
  (rt.entities.record id).map (fun record =>
    { netId := id
      template := record.template
      parent := if hierarchy ∧ record.parent ≠ noEntity then some record.parent else none
      owner := if record.ownerId = "" then none else some record.ownerId
      tags := if hierarchy then rt.tags.tagsOf id else []
      transform := rt.wireTransform id
      overrides := if hierarchy then rt.overridesOf id else none })

end Runtime

def readPlayerSnapshot (player : Player) : PlayerSnapshot := ⟨player.id, player.index, player.name⟩

/-! ### Structural conversion -/

/-- What became of one journal entry. -/
inductive Converted (α : Type) where
  | sent (a : α)
  /-- Left out by design. -/
  | elided
  | unsendable

/-- Ids spawned and released inside this one journal, whose ops are dropped as a pair. -/
def ephemeralIds (rt : Runtime) (journal : List StructuralOp) : List EntityId :=
  (journal.flatMap StructuralOp.singles).filterMap (fun
    | .spawn id _ => if (rt.entities.record id).isNone then some id else none
    | _ => none)

def toWireSingle (rt : Runtime) (ephemeral : List EntityId) (op : SingleStructuralOp) :
    Converted WireSingleStructuralOp :=
  if op.id ∈ ephemeral then .elided
  else
    match op with
    | .spawn id _ =>
      match rt.readEntitySnapshot id false with
      | none => .unsendable
      | some snapshot => .sent (.spawn snapshot)
    | .destroy id => .sent (.destroy id)
    | .reparent id parent => .sent (.reparent id (if parent = noEntity then none else some parent))
    | .tag id tag added => if isSay tag then .elided else .sent (.tag id tag added)
    | .attach id script props => .sent (.attach id ⟨script, props⟩)

/-- A group's ops, whole or not at all. -/
def toWireSingles (rt : Runtime) (ephemeral : List EntityId) :
    List SingleStructuralOp → Option (List WireSingleStructuralOp)
  | [] => some []
  | op :: ops =>
    match toWireSingle rt ephemeral op with
    | .unsendable => none
    | .elided => toWireSingles rt ephemeral ops
    | .sent wire => (toWireSingles rt ephemeral ops).map (wire :: ·)

def toWireStructural (rt : Runtime) (ephemeral : List EntityId) : StructuralOp → Converted WireStructuralOp
  | .single op =>
    match toWireSingle rt ephemeral op with
    | .sent wire => .sent (.single wire)
    | .elided => .elided
    | .unsendable => .unsendable
  | .group ops =>
    match toWireSingles rt ephemeral ops with
    | none => .unsendable
    | some [] => .elided
    | some [only] => .sent (.single only)
    | some ops => .sent (.group ops)

/-- The journal in wire form, and how many entries were left out. -/
def toWire (rt : Runtime) (ephemeral : List EntityId) : List StructuralOp → List WireStructuralOp × ℕ
  | [] => ([], 0)
  | op :: ops =>
    let (wire, dropped) := toWire rt ephemeral ops
    match toWireStructural rt ephemeral op with
    | .sent w => (w :: wire, dropped)
    | .elided | .unsendable => (wire, dropped + 1)

/-- What an entry costs of the budget: a group counts by what it holds. -/
def WireStructuralOp.weight : WireStructuralOp → ℕ
  | .single _ => 1
  | .group ops => ops.length

/-- The entries from `index` on that fit beside `weight`. -/
def budgetCutFrom (budget : ℕ) : ℕ → ℕ → List WireStructuralOp → ℕ
  | index, _, [] => index
  | index, weight, op :: ops =>
    if budget < weight + op.weight then (if index = 0 then 1 else index)
    else budgetCutFrom budget (index + 1) (weight + op.weight) ops

/-- How many entries fit in this send; the first always goes. -/
def budgetCut (ordered : List WireStructuralOp) (budget : ℕ) : ℕ := budgetCutFrom budget 0 0 ordered

/-! ### The state channel -/

/-- The wire address of a host that exists. -/
def hostAddress (rt : Runtime) : HostKey → Option StateHostAddr
  | .game => some .game
  | .player id => if (rt.playerManager.byId id).isSome then some (.player id) else none
  | .entity id => if (rt.entities.record id).isSome then some (.entity id) else none
  | .camera _ | .screen _ => none

/-- The state part of a send, while it is collected. -/
structure StateBuckets where
  shared : OrderedMap HostKey StateDiff
  perPlayer : OrderedMap PlayerId StateDiff
  dropped : ℕ
  staleMarks : ℕ

/-- Adds one field to a host's diff. -/
def putField {κ : Type} [DecidableEq κ] (m : OrderedMap κ StateDiff) (key : κ) (host : StateHostAddr)
    (field : String) (value : JsonValue) : OrderedMap κ StateDiff :=
  let diff := (m.get key).getD ⟨host, []⟩
  m.set key { diff with fields := OrderedMap.setEntries field value diff.fields }

/-- One mark: the field's current value, under its host. -/
def collectMark (rt : Runtime) (b : StateBuckets) (mark : RecordId × String) : StateBuckets :=
  let record := rt.hosts.heap mark.1
  match hostAddress rt record.hostId with
  | none => { b with staleMarks := b.staleMarks + 1 }
  | some host =>
    match encodeHostField record mark.2 with
    | none => { b with dropped := b.dropped + 1 }
    | some value =>
      match host with
      | .player id => { b with perPlayer := putField b.perPlayer id host mark.2 value }
      | .game | .entity _ => { b with shared := putField b.shared record.hostId host mark.2 value }

def collectMarks (rt : Runtime) (marks : List (RecordId × String)) : StateBuckets :=
  marks.foldl (collectMark rt) ⟨OrderedMap.empty, OrderedMap.empty, 0, 0⟩

/-! ### The drain -/

/-- Everything one send-tick drains. -/
structure SendSet where
  tick : ℤ
  structural : List WireStructuralOp
  /-- Game- and entity-hosted marks: every connection sees these. -/
  sharedState : List StateDiff
  /-- Each player's own marks. -/
  playerState : OrderedMap PlayerId StateDiff
  transform : List TransformDiff
  dropped : ℕ
  staleMarks : ℕ

/-- Roster ops the server synthesizes. -/
structure RosterOps where
  /-- Prepended: a join must precede the spawns its own handler produced. -/
  joins : List PlayerSnapshot
  /-- Appended: a leave must follow the destroys of that player's entities. -/
  leaves : List PlayerId
deriving DecidableEq

/-- The journal of this send after what was held over, between the joins and the leaves. -/
def orderedOps (rt : Runtime) (roster : RosterOps) (spill : List WireStructuralOp) : List WireStructuralOp :=
  spill ++ roster.joins.map (fun p => .single (.playerJoin p)) ++
    (toWire rt (ephemeralIds rt rt.channels.structural) rt.channels.structural).1 ++
    roster.leaves.map (fun id => .single (.playerLeave id))

/-- The diff of one dirty slot, unless nothing occupies it. -/
def transformDiff (rt : Runtime) (index : ℕ) : Option TransformDiff :=
  let id := rt.entities.table.idAt index
  if id = noEntity then none else some ⟨id, rt.wireTransform id⟩

/-- Drains all three channels once and assembles the send set; what is over the budget is the
new spill. -/
def drainOnce (rt : Runtime) (tick : ℤ) (roster : RosterOps) (spill : List WireStructuralOp)
    (budget : ℕ) : SendSet × Runtime × List WireStructuralOp :=
  let ordered := orderedOps rt roster spill
  let unsent := (toWire rt (ephemeralIds rt rt.channels.structural) rt.channels.structural).2
  let cut := budgetCut ordered budget
  let (dirty, transforms) := rt.transforms.consumeDirty
  let buckets := collectMarks rt rt.channels.marks
  ({ tick := tick
     structural := ordered.take cut
     sharedState := buckets.shared.values
     playerState := buckets.perPlayer
     transform := dirty.filterMap (transformDiff rt)
     dropped := unsent + buckets.dropped
     staleMarks := buckets.staleMarks },
    { rt with
      channels := { rt.channels with structural := [], state := OrderedMap.empty }
      transforms := transforms },
    ordered.drop cut)

/-- One session's reliable envelope; it takes the ack, and the skip it still owes. -/
def stateEnvelopeFor (session : Session) (player : Player) (set : SendSet) : StateEnvelope × Session :=
  let (admission, ack) := session.admission.takeAck
  let skip := min session.structuralSkip set.structural.length
  ({ tick := set.tick
     ackSeq := ack.ackSeq
     earliestHeadroom := ack.earliestHeadroom
     structural := set.structural.drop skip
     state := set.sharedState ++ (set.playerState.get player.id).toList },
    { session with
      admission := admission
      structuralSkip := session.structuralSkip - skip })

def transformEnvelope (set : SendSet) : TransformEnvelope := ⟨set.tick, set.transform⟩

end Grove
