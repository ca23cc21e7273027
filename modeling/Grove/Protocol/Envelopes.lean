import Grove.Transport.Json

/-! # The wire contract

`packages/protocol/src/envelopes.ts`: what a client may send and what the server may send.
A `NetId` is numerically the server's entity handle.  An optional field of the source is an
`Option` here, `none` meaning that the key is absent. -/

namespace Grove

/-- Server-minted entity identity. -/
abbrev NetId := ℕ

abbrev PlayerId := String

abbrev TemplateId := String

abbrev ScriptId := String

/-- Configured props of one attachment. -/
abbrev ScriptProps := List (String × JsonValue)

def protocolVersion : ℕ := 3

/-! ### Client to server -/

structure JoinRequest where
  protocolVersion : ℕ
  name : String
  clientSentMs : ℚ
  projectId : String
  projectHash : String
  bundleHash : String
deriving DecidableEq

/-- Which edge of a sustained input this is. -/
inductive InputPhase where
  | press
  | release
  | hold
deriving DecidableEq

/-- One action's edge on one tick. -/
structure InputAction where
  action : String
  on : InputPhase
  value : Option ℚ
deriving DecidableEq

/-- Tick-indexed input; both numbers are safe integers of the peer's choosing. -/
structure InputFrame where
  tick : ℤ
  seq : ℤ
  actions : List InputAction
deriving DecidableEq

inductive Interaction where
  | press (widget : String) (screen : Option String)
  | click (netId : NetId)
  | hoverEnter (netId : NetId)
  | hoverExit (netId : NetId)
deriving DecidableEq

structure GameRequest where
  name : String
  data : Option (List (String × JsonValue))
deriving DecidableEq

structure TimeSync where
  clientSentMs : ℚ
deriving DecidableEq

/-- Everything a client may send. -/
inductive ClientToServer where
  | joinRequest (request : JoinRequest)
  | input (frame : InputFrame)
  | interaction (tick : ℤ) (events : List Interaction)
  | request (tick : ℤ) (requests : List GameRequest)
  | timeSync (sync : TimeSync)
deriving DecidableEq

/-! ### Server to client -/

/-- The seven fields core's transform store holds per entity. -/
structure WireTransform where
  posX : ℚ
  posY : ℚ
  posZ : ℚ
  rot : ℚ
  scale : ℚ
  opacity : ℚ
  layer : ℚ
deriving DecidableEq, Inhabited

/-- One dirty entity's current transform. -/
structure TransformDiff where
  netId : NetId
  transform : WireTransform
deriving DecidableEq

/-- One script on one entity. -/
structure WireScriptAttachment where
  script : ScriptId
  props : Option ScriptProps
deriving DecidableEq

/-- Per-instance deviations from a template. -/
structure EntityOverrides where
  scripts : Option (List WireScriptAttachment)
deriving DecidableEq

/-- One entity as a joiner or a spawn must receive it. -/
structure EntitySnapshot where
  netId : NetId
  template : TemplateId
  parent : Option NetId
  owner : Option PlayerId
  tags : List String
  transform : WireTransform
  overrides : Option EntityOverrides
deriving DecidableEq

structure PlayerSnapshot where
  id : PlayerId
  index : ℕ
  name : String
deriving DecidableEq

/-- One indivisible entry in the ordered structural journal. -/
inductive WireSingleStructuralOp where
  | spawn (snapshot : EntitySnapshot)
  | destroy (netId : NetId)
  | reparent (netId : NetId) (parent : Option NetId)
  | tag (netId : NetId) (tag : String) (added : Bool)
  | enterInterest (snapshot : EntitySnapshot)
  | leaveInterest (netId : NetId)
  | playerJoin (player : PlayerSnapshot)
  | playerLeave (id : PlayerId)
  | attach (netId : NetId) (attachment : WireScriptAttachment)
deriving DecidableEq

/-- One entry in the ordered structural journal: an op, or a boundary around several. -/
inductive WireStructuralOp where
  | single (op : WireSingleStructuralOp)
  | group (ops : List WireSingleStructuralOp)
deriving DecidableEq

/-- The ops an entry holds, in order. -/
def WireStructuralOp.singles : WireStructuralOp → List WireSingleStructuralOp
  | .single op => [op]
  | .group ops => ops

/-- Which host a diff addresses. -/
inductive StateHostAddr where
  | game
  | player (id : PlayerId)
  | entity (netId : NetId)
deriving DecidableEq

/-- One host's writes, field to value. -/
structure StateDiff where
  host : StateHostAddr
  fields : List (String × JsonValue)
deriving DecidableEq

/-- Every send-tick, reliable: every op must arrive, in order. -/
structure StateEnvelope where
  tick : ℤ
  ackSeq : ℤ
  earliestHeadroom : Option ℤ
  structural : List WireStructuralOp
  state : List StateDiff
deriving DecidableEq

/-- Every send-tick, droppable. -/
structure TransformEnvelope where
  tick : ℤ
  transform : List TransformDiff
deriving DecidableEq

/-- The whole world one player may see, at one tick. -/
structure WorldSnapshot where
  tick : ℤ
  entities : List EntitySnapshot
  players : List PlayerSnapshot
  state : List StateDiff
deriving DecidableEq

structure SnapshotChunk where
  index : ℚ
  entities : List EntitySnapshot
  state : List StateDiff
deriving DecidableEq

structure WireBounds where
  left : ℚ
  right : ℚ
  top : ℚ
  bottom : ℚ
deriving DecidableEq

structure WireRegion where
  name : String
  bounds : WireBounds
deriving DecidableEq

/-- An asset a client must fetch: its key, and what only the renderer reads. -/
structure WireAssetRef where
  key : String
  art : JsonValue
deriving DecidableEq

/-- How one template is drawn: its key, and what only the renderer reads. -/
structure TemplateVisual where
  template : TemplateId
  art : JsonValue
deriving DecidableEq

structure RenderManifest where
  assets : List WireAssetRef
  templates : List TemplateVisual
deriving DecidableEq

inductive RejectReason where
  | version
  | full
  | identity
deriving DecidableEq

/-- What a joiner cannot guess. -/
structure Welcome where
  protocolVersion : ℕ
  yourPlayerId : PlayerId
  yourPlayerIndex : ℕ
  projectId : String
  projectHash : String
  bundleHash : String
  bundleUrl : String
  simRate : ℚ
  sendRate : ℚ
  bounds : WireBounds
  regions : List WireRegion
  clientSentMs : ℚ
  serverSentMs : ℚ
  snapshot : WorldSnapshot
  snapshotChunks : Option ℕ
  visuals : RenderManifest
deriving DecidableEq

/-- Everything the server may send. -/
inductive ServerToClient where
  | welcome (w : Welcome)
  | snapshotChunk (c : SnapshotChunk)
  | reject (reason : RejectReason) (serverProtocolVersion : ℕ)
  | state (e : StateEnvelope)
  | transform (e : TransformEnvelope)
  | manifest (visuals : RenderManifest)
  | timeSyncReply (clientSentMs serverSentMs : ℚ)
  | rateChange (simRate : ℚ)
deriving DecidableEq

end Grove
