import Grove.Sim.Batch
import Grove.Sim.Input
import Grove.Lib.Run

/-! # The sim

`packages/sim/src/sim.ts`: one input batch in, one output batch out.  A tick takes the arrivals,
advances the world one step, sweeps the unjoined and, at the end of a send interval, drains.

Sessions are objects the registry and the input buffer share; they live in a heap, and the
registry maps a connection to its session's address.  What a creator's handlers do to the world
comes with the arrival that runs them, as a list of acts.

`History` holds what no code reads: what past steps did, for properties of whole runs to name. -/

namespace Grove

/-- What this world is running, proved against every joiner's claim. -/
structure ProjectIdentity where
  projectId : String
  projectHash : String
  bundleHash : String
  bundleUrl : String
deriving DecidableEq

/-- The parts of Unicode the display name goes through. -/
structure Unicode where
  nfc : String → String
  /-- Categories `Cc` and `Cf`. -/
  controlOrFormat : Char → Bool
  white : Char → Bool

structure SimConfig where
  sendRate : ℚ
  maxPlayers : ℕ
  bounds : WireBounds
  regions : List WireRegion
  project : ProjectIdentity
  codec : Codec
  unicode : Unicode

def trim (white : Char → Bool) (cs : List Char) : List Char :=
  ((cs.dropWhile white).reverse.dropWhile white).reverse

/-- The display name a peer asked for, as the world shows it. -/
def sanitizeName (u : Unicode) (name : String) : String :=
  let stripped := trim u.white ((u.nfc name).toList.filter (fun c => !u.controlOrFormat c))
  -- Trimmed again because the cut can land on a space.
  let capped := trim u.white (stripped.take maxNameLength)
  if capped.isEmpty then "player" else String.ofList capped

/-! ### The state -/

/-- One release of a joined session: its record as the leave left it, and the orders it led to. -/
structure Departure where
  ref : SessionRef
  record : Option HostRecord
  orders : List SaveOrder

/-- What a key's cached record was last written by. -/
inductive Writer where
  | loaded
  /-- The save order of this position. -/
  | captured (order : ℕ)
deriving DecidableEq

/-- A structural entry as it enters the stream: a join with the entities its handler made, a
leave with the entities that were the player's. -/
inductive Entry where
  | join (player : PlayerSnapshot) (produced : List EntityId)
  | op (op : WireStructuralOp)
  | leave (id : PlayerId) (owned : List EntityId)

structure History where
  /-- Whether the cache held its record when it was admitted; `none` for one that was not. -/
  held : SessionRef → Option Bool
  /-- Its load was answered with nothing. -/
  unread : SessionRef → Bool
  departed : List Departure
  /-- Every save order ever made. -/
  issued : List SaveOrder
  /-- Those a tick's output has taken. -/
  handed : List SaveOrder
  /-- The positions the host has acknowledged. -/
  acked : List ℕ
  writer : HostKey → Option Writer
  /-- What each queued join's handler made. -/
  produced : List (List EntityId)
  /-- What each queued leave's player owned. -/
  owned : List (List EntityId)
  /-- Every structural entry ever drained. -/
  stream : List Entry

def History.empty : History where
  held := fun _ => none
  unread := fun _ => false
  departed := []
  issued := []
  handed := []
  acked := []
  writer := fun _ => none
  produced := []
  owned := []
  stream := []

structure Sim where
  config : SimConfig
  sessions : SessionRef → Session
  /-- Live sessions, by connection. -/
  registry : OrderedMap ConnectionId SessionRef
  /-- The next unused session address. -/
  next : SessionRef
  buffer : InputBuffer
  rt : Runtime
  records : SessionRecords
  roster : RosterOps
  spill : List WireStructuralOp
  visuals : ManifestStore
  sends : List Send
  closes : List CloseOrder
  loads : List LoadOrder
  saves : List SaveOrder
  log : List String
  dropped : ℕ
  stale : ℕ
  closed : Bool
  history : History

namespace Sim

variable (s : Sim)

def put (ref : SessionRef) (session : Session) : Sim :=
  { s with sessions := Function.update s.sessions ref session }

def live : List SessionRef := s.registry.values

/-- The world with the persisted records it reads. -/
def world : Runtime := { s.rt with persisted := some s.records }

/-- Queues one envelope for one or many peers. -/
def send (recipients : List ConnectionId) (envelope : ServerToClient) (cls : SendClass) : Sim :=
  if recipients.isEmpty then s else { s with sends := s.sends ++ [⟨recipients, envelope, cls⟩] }

def warn (line : String) : Sim := { s with log := s.log ++ [line] }

/-- One line per denial. -/
def deny (event : String) (session : Session) (reason : String) : Sim :=
  s.warn (event ++ " conn=" ++ session.connectionId ++ " reason=" ++ reason)

/-! ### Leaving -/

/-- The entities of a player, found by owner scan. -/
def ownedBy (rt : Runtime) (id : PlayerId) : List EntityId :=
  rt.entities.ids.filter (fun x => (rt.entities.record x).any (fun r => r.ownerId = id))

/-- Destroys every entity of a leaving player. -/
def destroyOwned (rt : Runtime) (id : PlayerId) : Runtime := (ownedBy rt id).foldl (fun rt x => rt.destroy x) rt

/-- Takes the departing record as the write the host owes, if the cache holds its key. -/
def captureDeparture (ref : SessionRef) (identity : Option PlayerId) (record : Option HostRecord) : Sim :=
  match record with
  | none => { s with history.departed := s.history.departed ++ [⟨ref, none, []⟩] }
  | some record =>
    if identity.isSome ∧ s.records.has record.hostId then
      let (order, records) := SessionRecords.capture s.records record
      { s with
        records := records
        saves := s.saves ++ [order]
        history.departed := s.history.departed ++ [⟨ref, some record, [order]⟩]
        history.issued := s.history.issued ++ [order]
        history.writer :=
          Function.update s.history.writer record.hostId (some (.captured s.history.issued.length)) }
    else { s with history.departed := s.history.departed ++ [⟨ref, some record, []⟩] }

/-- The session closed, and out of the registry and the input buffer. -/
def shut (ref : SessionRef) : Sim :=
  { s.put ref { s.sessions ref with closed := true } with
    registry := s.registry.delete (s.sessions ref).connectionId
    buffer := s.buffer.dropSession ref }

/-- The world after a leave. -/
def departing (player : Player) (onLeave : List Runtime.Act) : Runtime :=
  (destroyOwned s.world player.id).leavePlayer player.id onLeave

/-- The record of a departing player: taken before the leave, read after it. -/
def lastRecord (player : Player) (onLeave : List Runtime.Act) : Option HostRecord :=
  ((destroyOwned s.world player.id).hosts.get (.player player.id)).map (s.departing player onLeave).hosts.heap

/-- The seat emptied, and the world after the leave. -/
def vacate (ref : SessionRef) (player : Player) (onLeave : List Runtime.Act) : Sim :=
  { s.put ref { s.sessions ref with player := none } with rt := s.departing player onLeave }

/-- Queues the leave, with what the player owned. -/
def noteLeave (id : PlayerId) (owned : List EntityId) : Sim :=
  { s with
    roster := { s.roster with leaves := s.roster.leaves ++ [id] }
    history.owned := s.history.owned ++ [owned] }

/-- Releases the player a closed session held. -/
def releasePlayer (ref : SessionRef) (player : Player) (onLeave : List Runtime.Act) : Sim :=
  ((s.vacate ref player onLeave).captureDeparture ref (s.sessions ref).identity
    (s.lastRecord player onLeave)).noteLeave player.id (ownedBy s.rt player.id)

/-- Drops the session from the registry, then releases the player it held. -/
def release (ref : SessionRef) (onLeave : List Runtime.Act) : Sim :=
  if (s.sessions ref).closed then s
  else
    match (s.sessions ref).player with
    | none => s.shut ref
    | some player => (s.shut ref).releasePlayer ref player onLeave

/-- Orders the host to close a session and releases it here. -/
def closeFor (ref : SessionRef) (reason : String) (onLeave : List Runtime.Act) : Sim :=
  let session := s.sessions ref
  let s := s.deny "close" session reason
  ({ s with closes := s.closes ++ [⟨session.connectionId, reason⟩] } : Sim).release ref onLeave

def rejectReason : RejectReason → String
  | .version => "version"
  | .full => "full"
  | .identity => "identity"

def reject (ref : SessionRef) (reason : RejectReason) (onLeave : List Runtime.Act) : Sim :=
  let session := s.sessions ref
  let s := s.deny "reject" session (rejectReason reason)
  let s := s.send [session.connectionId] (.reject reason protocolVersion) .reliable
  ({ s with closes := s.closes ++ [⟨session.connectionId, rejectReason reason⟩] } : Sim).release ref onLeave

/-! ### Joining -/

/-- Why this connection may not be registered, or `none` to take it. -/
def openRefusal (identity : Option PlayerId) : Option String :=
  let unjoined := s.live.filter (fun ref => !(s.sessions ref).joined)
  if maxUnjoinedConnections ≤ unjoined.length then some "unjoined-cap"
  else if identity.isSome ∧ unjoined.any (fun ref => (s.sessions ref).identity = identity) then
    some "identity-pending"
  else none

/-- The connection's session, in the registry. -/
def register (connectionId : ConnectionId) (identity : Option PlayerId) : Sim :=
  { s with
    sessions := Function.update s.sessions s.next (Session.new connectionId identity s.rt.tick)
    registry := s.registry.set connectionId s.next
    next := s.next + 1 }

/-- Takes one established connection under the identity the host resolved, or refuses it. -/
def openConnection (connectionId : ConnectionId) (identity : Option PlayerId) : Sim :=
  match s.openRefusal identity with
  | some refusal =>
    let s := s.warn ("accept-refused reason=" ++ refusal)
    { s with closes := s.closes ++ [⟨connectionId, refusal⟩] }
  | none => s.register connectionId identity

/-- Whether a joiner runs what this world runs; an empty `bundleHash` claims nothing. -/
def identityMatches (request : JoinRequest) : Bool :=
  let project := s.config.project
  request.projectId = project.projectId && request.projectHash = project.projectHash &&
    (request.bundleHash = "" || request.bundleHash = project.bundleHash)

/-- The host key of the player a session is, or would be. -/
def keyOf (ref : SessionRef) : HostKey := .player (s.sessions ref).playerId

/-- The entities a stretch of journal spawned. -/
def spawnsSince (rt rt' : Runtime) : List EntityId :=
  (rt'.channels.journal.drop rt.channels.journal.length).filterMap (fun
    | .spawn id _ => some id
    | _ => none)

/-- The admission itself: the player is made, and `@onPlayerJoin` acts. -/
def enter (ref : SessionRef) (request : JoinRequest) (handler : List Runtime.Act) : Sim :=
  let session := s.sessions ref
  let name := sanitizeName s.config.unicode request.name
  let player := s.rt.playerManager.fresh session.playerId name
  let rt := s.world.joinPlayer session.playerId name handler
  let session := { session with
    player := some player
    admission := session.admission.noteTraffic rt.tick
    pendingJoin := some request }
  { s.put ref session with
    rt := rt
    roster := { s.roster with joins := s.roster.joins ++ [readPlayerSnapshot player] }
    history.held := Function.update s.history.held ref (some (s.records.has (s.keyOf ref)))
    history.produced := s.history.produced ++ [spawnsSince s.world rt] }

/-- Allocates the player, once this session's persisted record is in the cache. -/
def admitPlayer (ref : SessionRef) (request : JoinRequest) (handler : List Runtime.Act) : Sim :=
  let session := s.sessions ref
  if session.closed ∨ s.closed ∨ session.joined then s
  else if s.config.maxPlayers ≤ s.rt.playerManager.players.length then s.reject ref .full handler
  else if (s.rt.playerManager.byId session.playerId).isSome then
    -- Two live sessions under one id would share a host record.
    (s.warn ("refusing a second connection claiming " ++ session.playerId)).reject ref .full handler
  else s.enter ref request handler

/-- The join sequence in check order. -/
def join (ref : SessionRef) (request : JoinRequest) (handler : List Runtime.Act) : Sim :=
  let session := s.sessions ref
  if request.protocolVersion ≠ protocolVersion then s.reject ref .version handler
  else if !s.identityMatches request then s.reject ref .identity handler
  -- A joined session re-sending is a resync.
  else if session.joined then s.put ref { session with pendingJoin := some request }
  else if session.admitting then s
  else if session.identity.isSome ∧ !s.records.has (s.keyOf ref) then
    { s.put ref { session with admitting := true, awaitingRecord := some request } with
      loads := s.loads ++ [⟨session.connectionId, s.keyOf ref⟩] }
  else s.admitPlayer ref request handler

/-- Resumes the join that was waiting on a record. -/
def resume (ref : SessionRef) (handler : List Runtime.Act) : Sim :=
  let session := s.sessions ref
  let s := s.put ref { session with admitting := false, awaitingRecord := none }
  match session.awaitingRecord with
  | none => s
  | some request => s.admitPlayer ref request handler

/-- The host's answer to a load, in the cache. -/
def fileRecord (key : HostKey) (fields : Fields) : Sim :=
  { s with
    records := SessionRecords.seed s.records key fields
    history.writer := Function.update s.history.writer key (some .loaded) }

/-- A load answered with nothing, by the session that waited on it. -/
def noteUnread (ref : SessionRef) (unread : Bool) : Sim :=
  { s with history.unread := Function.update s.history.unread ref unread }

/-- Files the host's answer to a load and resumes the join that was waiting on it.  A failed read
seeds nothing and is admitted anyway. -/
def seed (connectionId : ConnectionId) (fields : Option Fields) (handler : List Runtime.Act) : Sim :=
  match s.registry.get connectionId with
  | none => s
  | some ref =>
    match fields with
    | some fields => (s.fileRecord (s.keyOf ref) fields).resume ref handler
    | none =>
      (s.noteUnread ref (s.history.unread ref || (s.sessions ref).awaitingRecord.isSome)).resume ref handler

/-! ### Frames -/

/-- Spends an input token, closing a session that has sustained a breach. -/
def takeInputToken (ref : SessionRef) (onLeave : List Runtime.Act) : Bool × Sim :=
  let session := s.sessions ref
  let (ok, admission) := session.admission.takeToken
  let s := s.put ref { session with admission := admission }
  if ok then (true, s)
  else if admission.overRateBreachLimit then (false, s.closeFor ref "rate-breach" onLeave)
  else (false, s)

def input (ref : SessionRef) (frame : InputFrame) (onLeave : List Runtime.Act) : Sim :=
  let session := s.sessions ref
  if !session.joined then s
  else
    let (result, session, buffer) := s.buffer.admitInput ref session frame s.rt.tick s.rt.simRate
    let s := { s.put ref session with buffer := buffer }
    if result = .refused .rate ∧ session.admission.overRateBreachLimit then
      s.closeFor ref "rate-breach" onLeave
    else s

/-- Queues a frame's interactions for the tick pass. -/
def interaction (ref : SessionRef) (events : List Interaction) (onLeave : List Runtime.Act) : Sim :=
  if !(s.sessions ref).joined then s
  else
    match s.takeInputToken ref onLeave with
    | (false, s) => s
    | (true, s) =>
      s.put ref { s.sessions ref with interactions := (s.sessions ref).interactions ++ events }

/-- Queues a frame's requests for the tick pass. -/
def request (ref : SessionRef) (calls : List GameRequest) (onLeave : List Runtime.Act) : Sim :=
  if !(s.sessions ref).joined then s
  else
    match s.takeInputToken ref onLeave with
    | (false, s) => s
    | (true, s) => s.put ref { s.sessions ref with requests := (s.sessions ref).requests ++ calls }

/-- Whether an envelope is paid for by the input bucket. -/
def onInputBucket : ClientToServer → Bool
  | .input _ | .interaction _ _ | .request _ _ => true
  | .joinRequest _ | .timeSync _ => false

def dispatchFrame (ref : SessionRef) (handler : List Runtime.Act) : ClientToServer → Sim
  | .joinRequest request => s.join ref request handler
  | .input frame => s.input ref frame handler
  | .interaction _ events => s.interaction ref events handler
  | .request _ calls => s.request ref calls handler
  | .timeSync sync => s.put ref { s.sessions ref with pendingTimeSync := some sync }

/-- One inbound frame, `none` for one that could not be narrowed. -/
def receive (connectionId : ConnectionId) (message : Option ClientToServer) (handler : List Runtime.Act) : Sim :=
  match s.registry.get connectionId, message with
  | some ref, some envelope =>
    let session := s.sessions ref
    if session.closed then s
    else
      let (ok, admission) :=
        if onInputBucket envelope then (true, session.admission) else session.admission.takeControlToken
      if !ok then s.put ref { session with admission := admission }
      else
        let admission := if session.joined then admission.noteTraffic s.rt.tick else admission
        (s.put ref { session with admission := admission }).dispatchFrame ref handler envelope
  | _, _ => s

/-- The host reported a session gone. -/
def drop (connectionId : ConnectionId) (onLeave : List Runtime.Act) : Sim :=
  match s.registry.get connectionId with
  | none => s
  | some ref => s.release ref onLeave

/-! ### The step -/

/-- Applies `f` to the admission state of every live session. -/
def eachAdmission (f : AdmissionState → AdmissionState) : Sim :=
  s.live.foldl (fun s ref => s.put ref { s.sessions ref with admission := f (s.sessions ref).admission }) s

/-- One tick: refill the tokens, step the world, then date the gaps it outran.  The handlers' acts
come in the order the passes ran them; the destroy drain ends the step. -/
def stepOnce (acts onEnd : List Runtime.Act) : Sim :=
  let simRate := s.rt.simRate
  let s := s.eachAdmission (fun a => a.refill simRate)
  let tick := s.rt.tick + 1
  let w := (InputWorld.runInputPass ⟨s.sessions, s.live, s.buffer⟩ tick simRate).1
  let s := { s with
    sessions := w.sessions
    buffer := w.buffer
    rt := (({ s.world with tick := tick }).acts acts).drainDestroyed onEnd }
  s.eachAdmission (fun a => a.abandonStale s.rt.tick (pastGraceTicks simRate))

/-- Closes every session that has not joined in time. -/
def sweepJoinDeadline : Sim :=
  let expired := s.live.filter (fun ref =>
    !(s.sessions ref).joined && !(s.sessions ref).closed &&
      decide (joinDeadlineTicks s.rt.simRate ≤ s.rt.tick - (s.sessions ref).openedAtTick))
  expired.foldl (fun s ref => s.closeFor ref "join-deadline" []) s

/-! ### The drain -/

/-- The `Welcome`, split across chunks when the world is too big for one frame. -/
def welcome (ref : SessionRef) (player : Player) (pending : JoinRequest) (nowMs : ℚ) : Sim :=
  let session := s.sessions ref
  let welcome : Welcome :=
    { protocolVersion := protocolVersion
      yourPlayerId := player.id
      yourPlayerIndex := player.index
      projectId := s.config.project.projectId
      projectHash := s.config.project.projectHash
      bundleHash := s.config.project.bundleHash
      bundleUrl := s.config.project.bundleUrl
      simRate := s.rt.simRate
      sendRate := s.config.sendRate
      bounds := s.config.bounds
      regions := s.config.regions
      clientSentMs := pending.clientSentMs
      serverSentMs := nowMs
      snapshot := buildSnapshot s.rt player.id
      snapshotChunks := none
      visuals := s.visuals.snapshot }
  if (s.config.codec.welcome welcome).any (fun bytes => bytes ≤ maxFramePayloadBytes) then
    s.send [session.connectionId] (.welcome welcome) .reliable
  else
    let (head, chunks, lost) := splitSnapshot s.config.codec maxFramePayloadBytes welcome.snapshot
    let s := { s with dropped := s.dropped + lost }
    -- Chunks first, then the `Welcome` that closes the set.
    let s := chunks.foldl (fun s chunk => s.send [session.connectionId] (.snapshotChunk chunk) .reliable) s
    s.send [session.connectionId]
      (.welcome { welcome with snapshot := head, snapshotChunks := some chunks.length }) .reliable

/-- One session's part of a send.  `faults` says whose snapshot walk or encode throws, and what
its leave handler then does. -/
def drainSession (set : SendSet) (nowMs : ℚ) (faults : ConnectionId → Option (List Runtime.Act))
    (s : Sim) (ref : SessionRef) : Sim :=
  let session := s.sessions ref
  match session.livePlayer with
  | none => s
  | some player =>
    if session.wantsBroadcast then
      let (envelope, session) := stateEnvelopeFor session player set
      (s.put ref session).send [session.connectionId] (.state envelope) .reliable
    else
      match session.pendingJoin with
      | none => s
      | some pending =>
        let s := s.put ref { session with structuralSkip := s.spill.length }
        match faults session.connectionId with
        | some onLeave => s.closeFor ref "send-failed" onLeave
        | none =>
          let s := s.welcome ref player pending nowMs
          s.put ref { s.sessions ref with pendingJoin := none }

/-- Answers a time sync at the drain. -/
def answerTimeSync (nowMs : ℚ) (s : Sim) (ref : SessionRef) : Sim :=
  let session := s.sessions ref
  match session.pendingTimeSync with
  | none => s
  | some sync =>
    (s.put ref { session with pendingTimeSync := none }).send [session.connectionId]
      (.timeSyncReply sync.clientSentMs nowMs) .reliable

/-- The connections owed the current send. -/
def broadcasting : List ConnectionId :=
  (s.live.filter (fun ref => (s.sessions ref).wantsBroadcast)).map (fun ref => (s.sessions ref).connectionId)

/-- What this send's drain adds to the stream. -/
def drainedEntries : List Entry :=
  List.zipWith Entry.join s.roster.joins s.history.produced ++
    (toWire s.rt (ephemeralIds s.rt s.rt.channels.structural) s.rt.channels.structural).1.map .op ++
    List.zipWith Entry.leave s.roster.leaves s.history.owned

/-- Drains the three channels once, and queues the manifest additions that go ahead. -/
def openDrain : SendSet × Sim :=
  let (set, rt, spill) := drainOnce s.rt s.rt.tick s.roster s.spill maxStructuralOpsPerSend
  let history := { s.history with
    produced := []
    owned := []
    stream := s.history.stream ++ s.drainedEntries }
  let s := { s with
    rt := rt
    spill := spill
    roster := ⟨[], []⟩
    dropped := s.dropped + set.dropped
    stale := s.stale + set.staleMarks
    history := history }
  let (additions, visuals) := s.visuals.drain
  let s := { s with visuals := visuals }
  (set, match additions with
    | none => s
    | some additions => s.send s.broadcasting (.manifest additions) .reliable)

/-- A send-tick: drain the three channels once, fan them out, then answer any pending join. -/
def drain (nowMs : ℚ) (faults : ConnectionId → Option (List Runtime.Act)) : Sim :=
  let (set, s) := s.openDrain
  let broadcasting := s.broadcasting
  let s := s.live.foldl (drainSession set nowMs faults) s
  let s := s.send broadcasting (.transform (transformEnvelope set)) .droppable
  s.live.foldl (answerTimeSync nowMs) s

/-! ### The calls -/

/-- Releases the world: every session leaves inline. -/
def close (onLeave : ConnectionId → List Runtime.Act) : Sim :=
  let s := { s with closed := true }
  s.registry.entries.foldl (fun s e => s.release e.2 (onLeave e.1)) s

/-- Changes the timestep mid-session and tells every client. -/
def setSimRate (simRate : ℚ) : Sim :=
  let s := { s with rt.simRate := simRate }
  let joined := (s.live.filter (fun ref => (s.sessions ref).joined)).map (fun ref => (s.sessions ref).connectionId)
  s.send joined (.rateChange simRate) .reliable

/-- Empties every accumulator into one tick's output. -/
def takeOutput : OutputBatch × Sim :=
  ({ tick := s.rt.tick
     simRate := s.rt.simRate
     sendRate := s.config.sendRate
     sends := s.sends
     closes := s.closes
     loads := s.loads
     saves := s.saves
     log := s.log
     dropped := s.dropped
     stale := s.stale },
    { s with
      sends := []
      closes := []
      loads := []
      saves := []
      log := []
      history.handed := s.history.handed ++ s.saves })

/-- One thing a batch, or the host beside it, has the sim do.  An arrival that runs a handler
carries the handler's acts; an acknowledgement carries the position of the order it answers,
which the sim does not see. -/
inductive Call where
  | opened (connectionId : ConnectionId) (identity : Option PlayerId)
  | saved (key : HostKey) (order : ℕ)
  | record (connectionId : ConnectionId) (fields : Option Fields) (handler : List Runtime.Act)
  | frame (connectionId : ConnectionId) (message : Option ClientToServer) (handler : List Runtime.Act)
  | closed (connectionId : ConnectionId) (onLeave : List Runtime.Act)
  | stepOnce (acts onEnd : List Runtime.Act)
  | sweepJoinDeadline
  | drain (nowMs : ℚ) (faults : ConnectionId → Option (List Runtime.Act))
  | takeOutput
  | close (onLeave : ConnectionId → List Runtime.Act)
  | declareVisuals (manifest : RenderManifest)
  | setSimRate (simRate : ℚ)

/-- The host confirmed a save. -/
def acknowledge (key : HostKey) (order : ℕ) : Sim :=
  { s with
    records := SessionRecords.release s.records key
    history.acked := s.history.acked ++ [order] }

/-- One call on a live sim. -/
def perform : Call → Sim
  | .opened connectionId identity => s.openConnection connectionId identity
  | .saved key order => s.acknowledge key order
  | .record connectionId fields handler => s.seed connectionId fields handler
  | .frame connectionId message handler => s.receive connectionId message handler
  | .closed connectionId onLeave => s.drop connectionId onLeave
  | .stepOnce acts onEnd => s.stepOnce acts onEnd
  | .sweepJoinDeadline => s.sweepJoinDeadline
  | .drain nowMs faults => s.drain nowMs faults
  | .takeOutput => s.takeOutput.2
  | .close onLeave => s.close onLeave
  | .declareVisuals manifest => { s with visuals := s.visuals.declare manifest }
  | .setSimRate simRate => s.setSimRate simRate

/-- One call; a released sim only empties its accumulators. -/
def step (s : Sim) (call : Call) : Sim :=
  if s.closed then
    match call with
    | .takeOutput => s.takeOutput.2
    | _ => s
  else s.perform call

/-- A tick's arrivals. -/
structure Batch where
  nowMs : ℚ
  drain : Bool
  opened : List (ConnectionId × Option PlayerId)
  saved : List (HostKey × ℕ)
  records : List (ConnectionId × Option Fields × List Runtime.Act)
  frames : List (ConnectionId × Option ClientToServer × List Runtime.Act)
  closed : List (ConnectionId × List Runtime.Act)
  acts : List Runtime.Act
  onEnd : List Runtime.Act
  faults : ConnectionId → Option (List Runtime.Act)

/-- A batch, call by call, in the order of a tick. -/
def Batch.calls (b : Batch) : List Call :=
  b.opened.map (fun o => .opened o.1 o.2) ++ b.saved.map (fun k => .saved k.1 k.2) ++
    b.records.map (fun r => .record r.1 r.2.1 r.2.2) ++ b.frames.map (fun f => .frame f.1 f.2.1 f.2.2) ++
    b.closed.map (fun c => .closed c.1 c.2) ++ [.stepOnce b.acts b.onEnd, .sweepJoinDeadline] ++
    (if b.drain then [.drain b.nowMs b.faults] else [])

/-- One fixed step: take the arrivals, advance one tick, report what the host must act on. -/
def tick (b : Batch) : OutputBatch × Sim := (exec step s b.calls).takeOutput

/-- A world its boot has built, with nobody connected. -/
def new (config : SimConfig) (facadeMembers : HostKey → List String) (simRate : ℚ) (visuals : RenderManifest)
    (boot : List Runtime.Act) : Sim where
  config := config
  sessions := fun _ => Session.new "" none 0
  registry := OrderedMap.empty
  next := 0
  buffer := InputBuffer.empty
  rt := (Runtime.new (some OrderedMap.empty) facadeMembers simRate).acts boot
  records := OrderedMap.empty
  roster := ⟨[], []⟩
  spill := []
  visuals := ManifestStore.new visuals
  sends := []
  closes := []
  loads := []
  saves := []
  log := []
  dropped := 0
  stale := 0
  closed := false
  history := History.empty

/-! ### Sequences of ticks -/

/-- The calls of a sequence of ticks. -/
def batchCalls (batches : List Batch) : List Call := batches.flatMap (fun b => b.calls ++ [.takeOutput])

/-- A sequence of ticks is a run of their calls. -/
theorem exec_tick (s : Sim) (batches : List Batch) :
    exec (fun s b => (s.tick b).2) s batches = exec step s (batchCalls batches) := by
  induction batches generalizing s with
  | nil => rfl
  | cons b batches ih =>
    have htick : (s.tick b).2 = exec step s (b.calls ++ [.takeOutput]) := by
      rw [exec_append, exec_cons, exec_nil]
      unfold tick step
      split_ifs <;> rfl
    rw [exec_cons, ih, htick, ← exec_append]
    rfl

/-- A tick on which nothing arrives. -/
def Batch.quiet : Batch := ⟨0, false, [], [], [], [], [], [], [], fun _ => none⟩

/-- A world nobody has joined. -/
def lobby : Sim :=
  new ⟨20, 8, ⟨0, 0, 0, 0⟩, [], ⟨"p", "h", "b", "u"⟩, ⟨fun _ => some 0, fun _ => some 0, fun _ => some 0⟩,
    ⟨fun name => name, fun _ => false, fun c => c = ' '⟩⟩ (fun _ => []) 60 ⟨[], []⟩ []

def joining : ClientToServer := .joinRequest ⟨protocolVersion, "n", 0, "p", "h", "b"⟩

end Sim

end Grove
