import Grove.Core.ActionStates
import Grove.Core.Player
import Grove.Sim.Constants

/-! # Sessions and their admission state

`packages/sim/src/session.ts`.  An `AdmissionState` keeps, for one connection, the resolution
frontier its acks report, the seqs settled above it, the headroom of the arrivals above it,
and for each seq a later arrival has skipped the latest tick that seq can still name; beside
these it keeps the rate limiters.

`seqsFrom`, `dateGaps` and `takeAckLoop` are the source's loops.  The last one removes a
resolved seq at every turn, so the number of resolved seqs is fuel enough
(`takeAck_complete`). -/

namespace Grove

/-- Why a frame was refused. -/
inductive RefusalReason where
  | tooOld
  | tooFarFuture
  | rate
deriving DecidableEq

/-- What `takeAck` reports for one connection on one send-tick. -/
structure AckReport where
  ackSeq : ℤ
  earliestHeadroom : Option ℤ
deriving DecidableEq

/-- Per-connection admission state. -/
structure AdmissionState where
  /-- `-1` is nothing resolved, the client's own start. -/
  frontier : ℤ
  resolved : List ℤ
  /-- Seq to the headroom its frame had on arrival. -/
  headroom : OrderedMap ℤ ℤ
  /-- A seq above the frontier that was skipped, and the latest tick it can name. -/
  gapTickBound : OrderedMap ℤ ℤ
  highestSeen : ℤ
  actionNames : List String
  tokens : ℕ
  controlTokens : ℕ
  ticksSinceControlRefill : ℕ
  rateRefusals : ℕ
  lastInputTick : ℤ
deriving DecidableEq

namespace AdmissionState

def new : AdmissionState where
  frontier := -1
  resolved := []
  headroom := OrderedMap.empty
  gapTickBound := OrderedMap.empty
  highestSeen := -1
  actionNames := []
  tokens := inputBucketFrames
  controlTokens := controlBucketFrames
  ticksSinceControlRefill := 0
  rateRefusals := 0
  lastInputTick := 0

variable (a : AdmissionState)

/-- The number the client prunes its ring against. -/
def ackSeq : ℤ := a.frontier

/-- Whether rate refusals have reached the sustained-breach threshold. -/
def overRateBreachLimit : Bool := rateBreachClose ≤ a.rateRefusals

/-- Whether this seq arrived or settled above the frontier. -/
def seen (seq : ℤ) : Bool := a.headroom.has seq || seq ∈ a.resolved

/-- Restarts the stale-hold clock. -/
def noteTraffic (serverTick : ℤ) : AdmissionState := { a with lastInputTick := serverTick }

/-- The seqs from `lo` up to, not including, `hi`. -/
def seqsFrom (lo hi : ℤ) : List ℤ := (List.range (hi - lo).toNat).map (fun (i : ℕ) => lo + i)

/-- Dates every seq of a gap with the tick of the frame that skipped it. -/
def dateGaps (resolved : List ℤ) (frameTick : ℤ) (bounds : OrderedMap ℤ ℤ) : List ℤ → OrderedMap ℤ ℤ
  | [] => bounds
  | missing :: rest =>
    if missing ∈ resolved then dateGaps resolved frameTick bounds rest
    else dateGaps resolved frameTick (bounds.set missing frameTick) rest

/-- Records that `seq` arrived on `serverTick` naming `frameTick`, dating any gap it skipped. -/
def noteArrival (seq frameTick serverTick : ℤ) : AdmissionState :=
  { a with
    lastInputTick := serverTick
    headroom := if a.frontier < seq then a.headroom.set seq (frameTick - serverTick) else a.headroom
    gapTickBound := dateGaps a.resolved frameTick a.gapTickBound (seqsFrom (a.highestSeen + 1) seq)
    highestSeen := if a.highestSeen < seq then seq else a.highestSeen }

/-- Marks `seq` settled: applied, or definitively rejected. -/
def resolve (seq : ℤ) : AdmissionState :=
  if seq ≤ a.frontier then a
  else { a with resolved := addNew a.resolved seq, gapTickBound := a.gapTickBound.delete seq }

/-- The gap seqs whose latest possible tick is below `floor`, oldest entry first. -/
def staleGaps (floor : ℤ) : List ℤ := (a.gapTickBound.entries.filter (fun e => e.2 < floor)).map Prod.fst

/-- Abandons every gap seq whose latest possible tick is already out of the past grace. -/
def abandonStale (currentTick pastGrace : ℤ) : AdmissionState :=
  { a with
    gapTickBound := a.gapTickBound.filter (fun _ tickBound => ¬ tickBound < currentTick - pastGrace)
    resolved := (a.staleGaps (currentTick - pastGrace)).foldl addNew a.resolved }

/-- Advances the frontier as far as it is contiguous; `earliest` is the first sample met. -/
def takeAckLoop : ℕ → AdmissionState → Option ℤ → AdmissionState × Option ℤ
  | 0, a, earliest => (a, earliest)
  | fuel + 1, a, earliest =>
    let next := a.frontier + 1
    if next ∈ a.resolved then
      takeAckLoop fuel
        { a with
          resolved := a.resolved.filter (· ≠ next)
          frontier := next
          headroom := a.headroom.delete next }
        (earliest.or (a.headroom.get next))
    else (a, earliest)

/-- Advances the frontier and reports the ack. -/
def takeAck : AdmissionState × AckReport :=
  let r := takeAckLoop a.resolved.length a none
  (r.1, { ackSeq := r.1.frontier, earliestHeadroom := r.2 })

/-- Refills one input token per stepped tick, and one control token per `controlRefillMs`. -/
def refill (simRate : ℚ) : AdmissionState :=
  let a := if a.tokens < inputBucketFrames then { a with tokens := a.tokens + 1 } else a
  if ((a.ticksSinceControlRefill + 1 : ℕ) : ℤ) < controlRefillTicks simRate then
    { a with ticksSinceControlRefill := a.ticksSinceControlRefill + 1 }
  else
    { a with
      ticksSinceControlRefill := 0
      controlTokens :=
        if a.controlTokens < controlBucketFrames then a.controlTokens + 1 else a.controlTokens }

/-- Spends an input token, or reports the connection is over its ceiling. -/
def takeToken : Bool × AdmissionState :=
  if a.tokens = 0 then (false, { a with rateRefusals := a.rateRefusals + 1 })
  else (true, { a with tokens := a.tokens - 1 })

/-- Spends a token for a `join-request` or `time-sync`. -/
def takeControlToken : Bool × AdmissionState :=
  if a.controlTokens = 0 then (false, a) else (true, { a with controlTokens := a.controlTokens - 1 })

/-- Whether this connection may still name `action`; a new name claims a slot. -/
def admitsAction (action : String) : Bool × AdmissionState :=
  if action ∈ a.actionNames then (true, a)
  else if maxActionNames ≤ a.actionNames.length then (false, a)
  else (true, { a with actionNames := a.actionNames ++ [action] })

/-! ### What each operation does to the seqs -/

theorem mem_foldl_addNew {seq : ℤ} : ∀ (l resolved : List ℤ),
    seq ∈ l.foldl addNew resolved ↔ seq ∈ resolved ∨ seq ∈ l
  | [], resolved => by simp
  | x :: l, resolved => by
    rw [List.foldl_cons, mem_foldl_addNew l, mem_addNew, List.mem_cons, or_assoc]

theorem mem_resolved_resolve {seq seq' : ℤ} :
    seq' ∈ (a.resolve seq).resolved ↔ seq' ∈ a.resolved ∨ (seq' = seq ∧ a.frontier < seq) := by
  unfold resolve
  split_ifs with h
  · simp [not_lt.mpr h]
  · simp [not_le.mp h]

theorem mem_resolved_abandonStale {tick grace seq : ℤ} :
    seq ∈ (a.abandonStale tick grace).resolved ↔
      seq ∈ a.resolved ∨ seq ∈ a.staleGaps (tick - grace) := by
  rw [abandonStale, mem_foldl_addNew]

theorem frontier_resolve (seq : ℤ) : (a.resolve seq).frontier = a.frontier := by
  unfold resolve
  split_ifs <;> rfl

theorem headroom_resolve (seq : ℤ) : (a.resolve seq).headroom = a.headroom := by
  unfold resolve
  split_ifs <;> rfl

/-- The loop passes resolved seqs only: one it has not resolved and that was above the
frontier is above it still, keeps its headroom, and stays unresolved. -/
theorem takeAckLoop_keeps {seq : ℤ} : ∀ (fuel : ℕ) (a : AdmissionState) (e : Option ℤ),
    a.frontier < seq → seq ∉ a.resolved →
      (takeAckLoop fuel a e).1.frontier < seq ∧ seq ∉ (takeAckLoop fuel a e).1.resolved ∧
        (takeAckLoop fuel a e).1.headroom.get seq = a.headroom.get seq
  | 0, a, e, hlt, hres => ⟨hlt, hres, rfl⟩
  | fuel + 1, a, e, hlt, hres => by
    unfold takeAckLoop
    simp only
    split_ifs with h
    · have hne : seq ≠ a.frontier + 1 := fun he => hres (he ▸ h)
      obtain ⟨h1, h2, h3⟩ := takeAckLoop_keeps fuel
        { a with
          resolved := a.resolved.filter (· ≠ a.frontier + 1)
          frontier := a.frontier + 1
          headroom := a.headroom.delete (a.frontier + 1) }
        (e.or (a.headroom.get (a.frontier + 1)))
        (by show a.frontier + 1 < seq; omega)
        (fun hmem => hres (List.mem_of_mem_filter hmem))
      exact ⟨h1, h2, by rw [h3, OrderedMap.get_delete_of_ne _ hne]⟩
    · exact ⟨hlt, hres, rfl⟩

/-- The loop ran out of resolved seqs, not of fuel. -/
theorem takeAckLoop_complete : ∀ (fuel : ℕ) (a : AdmissionState) (e : Option ℤ),
    a.resolved.length ≤ fuel →
      (takeAckLoop fuel a e).1.frontier + 1 ∉ (takeAckLoop fuel a e).1.resolved
  | 0, a, e, hlen => by
    have : a.resolved = [] := List.length_eq_zero_iff.mp (by omega)
    simp [takeAckLoop, this]
  | fuel + 1, a, e, hlen => by
    unfold takeAckLoop
    simp only
    split_ifs with h
    · apply takeAckLoop_complete fuel
      have hlt : (a.resolved.filter (· ≠ a.frontier + 1)).length < a.resolved.length :=
        List.length_filter_lt_length_iff_exists.mpr ⟨a.frontier + 1, h, by simp⟩
      show (a.resolved.filter (· ≠ a.frontier + 1)).length ≤ fuel
      omega
    · exact h

theorem takeAck_complete : a.takeAck.1.frontier + 1 ∉ a.takeAck.1.resolved :=
  takeAckLoop_complete _ a none (le_refl _)

end AdmissionState

/-- One peer's session. -/
structure Session where
  connectionId : String
  /-- The stable player id the host named this peer, if any. -/
  identity : Option PlayerId
  admission : AdmissionState
  actions : ActionStates
  /-- HUD presses and pointer hits awaiting the next tick pass. -/
  interactions : List Interaction
  requests : List GameRequest
  /-- `none` until the first valid join request allocates it. -/
  player : Option Player
  /-- The join request still owed a welcome. -/
  pendingJoin : Option JoinRequest
  /-- The join request held until the host answers the load. -/
  awaitingRecord : Option JoinRequest
  /-- True while a persisted read is outstanding. -/
  admitting : Bool
  pendingTimeSync : Option TimeSync
  openedAtTick : ℤ
  closed : Bool
  /-- Structural ops held over from before this connection's snapshot. -/
  structuralSkip : ℕ
deriving DecidableEq

namespace Session

def new (connectionId : String) (identity : Option PlayerId) (openedAtTick : ℤ) : Session where
  connectionId := connectionId
  identity := identity
  admission := AdmissionState.new
  actions := createActionStates
  interactions := []
  requests := []
  player := none
  pendingJoin := none
  awaitingRecord := none
  admitting := false
  pendingTimeSync := none
  openedAtTick := openedAtTick
  closed := false
  structuralSkip := 0

variable (s : Session)

def joined : Bool := s.player.isSome

/-- The player of a connection both live and joined. -/
def livePlayer : Option Player := if s.closed then none else s.player

/-- What this connection's player is keyed by. -/
def playerId : PlayerId := s.identity.getD s.connectionId

/-- Whether this connection is owed the current send. -/
def wantsBroadcast : Bool := s.livePlayer.isSome && s.pendingJoin.isNone

end Session

end Grove
