import Grove.Net.Tracks

/-! # One connection

A server whose scripts act, and one peer of it.  A send drains the server once, cuts the journal to
a budget and hands the peer its envelope; the host may shed the transform envelope that goes with
it.  A send may instead answer a joiner, who is the peer from then on: nothing the server does
depends on who listens, so one peer at a time is every peer.

`Serving` is what the server keeps, `orderedOps_split` how a send divides what is still to come. -/

namespace Grove

/-- The far end of a connection: the session that feeds it, and the mirror it feeds. -/
structure Peer where
  session : Session
  player : Player
  mirror : Mirror
  /-- What an envelope threw; the client closes on it. -/
  thrown : Option LoadError
  /-- Structural ops the mirror dropped as naming an unknown identity. -/
  dropped : ℕ
  /-- Entities whose newest transform diff never reached the mirror. -/
  stale : List NetId

/-- Who waits for a `Welcome`. -/
structure Joiner where
  session : Session
  player : Player
  scripts : Option ScriptIndex
  facadeMembers : HostKey → List String

structure Link where
  rt : Runtime
  spill : List WireStructuralOp
  /-- The runtime as the last send left it. -/
  drained : Runtime
  peer : Option Peer

namespace Link

/-- The entities a journal spawned. -/
def spawnedIds (rt : Runtime) : List EntityId :=
  (rt.channels.structural.flatMap StructuralOp.singles).filterMap (fun
    | .spawn id _ => some id
    | _ => none)

/-- The entities whose newest diff is lost after a send: it was shed, or came ahead of a spawn that
had been read before it. -/
def staleAfter (rt : Runtime) (set : SendSet) (shed : Bool) (m : Mirror) (stale : List NetId) : List NetId :=
  let carried := set.transform.map TransformDiff.netId
  let reached := fun x => !shed && (m.index.localOf x).isSome
  stale.filter (fun x => !(decide (x ∈ carried) && reached x)) ++
    carried.filter (fun x => !reached x && decide (x ∉ spawnedIds rt))

/-- How many ops of an envelope's journal a mirror drops as naming an unknown identity. -/
def droppedBy (m : Mirror) (envelope : StateEnvelope) : ℕ :=
  (Mirror.applyJournal envelope.structural (m.opening envelope)).1.counters.unknownNetId -
    m.counters.unknownNetId

/-- The peer takes a send: the reliable envelope, then the transforms unless they were shed. -/
def receive (rt : Runtime) (set : SendSet) (shed : Bool) (p : Peer) : Peer :=
  if p.thrown.isSome then p
  else
    let (envelope, session) := stateEnvelopeFor p.session p.player set
    let (m, err) := p.mirror.applyState envelope
    { p with
      session := session
      mirror := if err.isSome || shed then m else m.applyTransforms (transformEnvelope set)
      thrown := err
      dropped := p.dropped + droppedBy p.mirror envelope
      stale := staleAfter rt set shed m p.stale }

/-- The joiner takes the snapshot, and will skip what the spill holds. -/
def welcome (rt : Runtime) (spill : List WireStructuralOp) (j : Joiner) : Peer :=
  let fresh := Mirror.new j.scripts j.facadeMembers rt.simRate
  let snapshot := buildSnapshot rt j.player.id
  let (m, err) := fresh.applySnapshot snapshot
  { session := { j.session with pendingJoin := none, structuralSkip := spill.length }
    player := j.player
    mirror := m
    thrown := err
    dropped := droppedBy fresh (Mirror.snapshotEnvelope snapshot)
    stale := [] }

inductive Event where
  | act (a : Runtime.Act)
  | drainDestroyed (onEnd : List Runtime.Act)
  | tick
  | send (budget : ℕ) (shed : Bool) (joining : Option Joiner)

def send (n : Link) (budget : ℕ) (shed : Bool) (joining : Option Joiner) : Link :=
  let (set, rt, spill) := drainOnce n.rt n.rt.tick ⟨[], []⟩ n.spill budget
  { rt := rt
    spill := spill
    drained := rt
    peer :=
      match joining with
      | some j => some (welcome rt spill j)
      | none => n.peer.map (receive n.rt set shed) }

def step (n : Link) : Event → Link
  | .act a => { n with rt := n.rt.act a }
  | .drainDestroyed onEnd => { n with rt := n.rt.drainDestroyed onEnd }
  | .tick => { n with rt.tick := n.rt.tick + 1 }
  | .send budget shed joining => n.send budget shed joining

/-- A server with nothing in it, and nobody connected. -/
def new (persisted : Option SessionRecords) (facadeMembers : HostKey → List String) (simRate : ℚ) : Link where
  rt := Runtime.new persisted facadeMembers simRate
  spill := []
  drained := Runtime.new persisted facadeMembers simRate
  peer := none

/-! ### The server -/

section serving
variable {v : View} {n : Link}

/-- What the server keeps: its journal replays what happened since the last send. -/
structure Serving (v : View) (n : Link) : Prop where
  sound : n.rt.Sound v []
  start : n.drained.Sound v []
  depth : n.rt.channels.groupDepth = 0
  advances : n.drained.Advances v n.rt (n.rt.channels.structural.flatMap StructuralOp.singles)
  clear : n.drained.channels.structural = [] ∧ n.drained.channels.groupDepth = 0

/-- Every call the event makes names an entity that is there, where that counts. -/
def Names (v : View) (n : Link) : Event → Prop
  | .act a => Runtime.ActMeets (fun rt op => op.Names v rt) n.rt a
  | .drainDestroyed onEnd =>
    Meets Runtime.act (Runtime.ActMeets (fun rt op => op.Names v rt))
      { n.rt with entities := { n.rt.entities with pendingDestroy := [] } } onEnd
  | .tick | .send _ _ _ => True

theorem Serving.group (h : Serving v n) : n.rt.channels.group = none := h.sound.group.mpr h.depth

theorem Serving.journal (h : Serving v n) :
    n.rt.channels.journal = n.rt.channels.structural.flatMap StructuralOp.singles := by
  rw [ReplicationChannels.journal, h.group, Option.getD_none, List.append_nil]

theorem serving_new (persisted : Option SessionRecords) (facadeMembers : HostKey → List String) (simRate : ℚ) :
    Serving v (new persisted facadeMembers simRate) := by
  have hs : (Runtime.new persisted facadeMembers simRate).Sound v [] :=
    Runtime.new_sound v persisted facadeMembers simRate
  exact ⟨hs, hs, rfl, (Runtime.Calm.refl _).advances, rfl, rfl⟩

/-- A step that is no send extends the journal. -/
theorem Serving.extend (h : Serving v n) {rt' : Runtime} {js : List SingleStructuralOp} (hs : rt'.Sound v [])
    (hadv : n.rt.Advances v rt' js) : Serving v { n with rt := rt' } := by
  have hdepth : rt'.channels.groupDepth = 0 := hadv.depth.trans h.depth
  have hgroup : rt'.channels.group = none := hs.group.mpr hdepth
  have hall := h.advances.trans hadv
  have hjs : n.rt.channels.structural.flatMap StructuralOp.singles ++ js =
      rt'.channels.structural.flatMap StructuralOp.singles := by
    have hj := hadv.journal
    rw [h.journal, ReplicationChannels.journal, hgroup, Option.getD_none, List.append_nil] at hj
    exact hj.symm
  rw [hjs] at hall
  exact ⟨hs, h.start, hdepth, hall, h.clear⟩

theorem Serving.send (h : Serving v n) (budget : ℕ) (shed : Bool) (joining : Option Joiner) :
    Serving v (n.send budget shed joining) := by
  have hs : (n.send budget shed joining).rt.Sound v [] := ⟨h.sound.linked, h.sound.group, h.sound.clean, h.sound.bound⟩
  exact ⟨hs, hs, h.depth, (Runtime.Calm.refl _).advances, rfl, h.depth⟩

theorem Serving.step (h : Serving v n) (e : Event) (he : Names v n e) : Serving v (n.step e) := by
  cases e with
  | act a =>
    obtain ⟨hs, js, hadv⟩ := Runtime.act_advances h.sound a he
    exact h.extend hs hadv
  | drainDestroyed onEnd =>
    obtain ⟨hs, js, hadv⟩ := Runtime.drainDestroyed_advances h.sound onEnd he
    exact h.extend hs hadv
  | tick =>
    have hcalm : Runtime.Calm n.rt { n.rt with tick := n.rt.tick + 1 } := ⟨rfl, rfl, rfl, rfl, rfl⟩
    exact h.extend (hcalm.sound h.sound) hcalm.advances
  | send budget shed joining => exact h.send budget shed joining

end serving

/-! ### What a send divides -/

section split
variable {v : View} {n : Link}

theorem orderedOps_nil (rt : Runtime) (spill : List WireStructuralOp) :
    orderedOps rt ⟨[], []⟩ spill =
      spill ++ (toWire rt (ephemeralIds rt rt.channels.structural) rt.channels.structural).1 := by
  simp [orderedOps]

/-- What a send takes for one peer, and what it leaves for it, are what was there past its skip. -/
theorem take_drop_skip {α : Type} (l : List α) (cut skip : ℕ) :
    (l.take cut).drop (min skip (l.take cut).length) ++
      (l.drop cut).drop (skip - min skip (l.take cut).length) = l.drop skip := by
  rcases Nat.le_total skip (l.take cut).length with h | h
  · rw [min_eq_left h, Nat.sub_self, List.drop_zero, ← List.drop_append_of_le_length h, List.take_append_drop]
  · rw [min_eq_right h, List.drop_length, List.nil_append, List.drop_drop]
    rcases Nat.le_total cut l.length with hc | hc
    · rw [List.length_take, min_eq_left hc] at h ⊢
      congr 1
      omega
    · rw [List.length_take, min_eq_right hc] at h ⊢
      rw [List.drop_eq_nil_of_le (by omega), List.drop_eq_nil_of_le (by omega)]

/-- The ops drained for a peer and not yet sent to it. -/
def todo (n : Link) (p : Peer) : List WireSingleStructuralOp :=
  (n.spill.drop p.session.structuralSkip).flatMap WireStructuralOp.singles

/-- What this send's journal adds to the wire, op by op. -/
def added (n : Link) : List WireSingleStructuralOp :=
  (n.rt.channels.structural.flatMap StructuralOp.singles).filterMap
    (sentOf n.rt (ephemeralIds n.rt n.rt.channels.structural))

/-- The send a peer's envelope is cut from. -/
def setOf (n : Link) (budget : ℕ) : SendSet := (drainOnce n.rt n.rt.tick ⟨[], []⟩ n.spill budget).1

def envelopeOf (n : Link) (budget : ℕ) (p : Peer) : StateEnvelope :=
  (stateEnvelopeFor p.session p.player (n.setOf budget)).1

/-- The peer's session after a send. -/
def sessionAfter (n : Link) (budget : ℕ) (p : Peer) : Session :=
  (stateEnvelopeFor p.session p.player (n.setOf budget)).2

/-- What the journal adds, entry by entry. -/
def entries (n : Link) : List WireStructuralOp :=
  (toWire n.rt (ephemeralIds n.rt n.rt.channels.structural) n.rt.channels.structural).1

theorem sendable (n : Link) : ∀ op ∈ n.rt.channels.structural.flatMap StructuralOp.singles,
    Sendable n.rt (ephemeralIds n.rt n.rt.channels.structural) op := by
  intro op hop
  refine sendable_of_record ?_
  rintro id t rfl hne
  cases hr : n.rt.entities.record id with
  | some r => rfl
  | none => exact absurd (mem_ephemeralIds.mpr ⟨⟨t, hop⟩, hr⟩) hne

theorem flatMap_entries (n : Link) : n.entries.flatMap WireStructuralOp.singles = n.added :=
  flatMap_toWire n.sendable

/-- The envelope, and what is still to come after it. -/
theorem orderedOps_split (budget : ℕ) {p : Peer} (hskip : p.session.structuralSkip ≤ n.spill.length)
    (shed : Bool) (joining : Option Joiner) :
    (n.envelopeOf budget p).structural ++
        ((n.send budget shed joining).spill.drop (n.sessionAfter budget p).structuralSkip) =
      n.spill.drop p.session.structuralSkip ++ n.entries := by
  have h := take_drop_skip (orderedOps n.rt ⟨[], []⟩ n.spill)
    (budgetCut (orderedOps n.rt ⟨[], []⟩ n.spill) budget) p.session.structuralSkip
  rw [orderedOps_nil, List.drop_append_of_le_length hskip] at h
  rw [← orderedOps_nil] at h
  exact h

theorem flatMap_split (budget : ℕ) {p : Peer} (hskip : p.session.structuralSkip ≤ n.spill.length)
    (shed : Bool) (joining : Option Joiner) :
    (n.envelopeOf budget p).structural.flatMap WireStructuralOp.singles ++
        ((n.send budget shed joining).spill.drop (n.sessionAfter budget p).structuralSkip).flatMap
          WireStructuralOp.singles = n.todo p ++ n.added := by
  rw [← List.flatMap_append, orderedOps_split budget hskip, List.flatMap_append, flatMap_entries]
  rfl

theorem skip_le (budget : ℕ) {p : Peer} (hskip : p.session.structuralSkip ≤ n.spill.length)
    (shed : Bool) (joining : Option Joiner) :
    (n.sessionAfter budget p).structuralSkip ≤ (n.send budget shed joining).spill.length := by
  have hlen : n.spill.length ≤ (orderedOps n.rt ⟨[], []⟩ n.spill).length := by
    rw [orderedOps_nil, List.length_append]
    omega
  show p.session.structuralSkip - min p.session.structuralSkip
      ((orderedOps n.rt ⟨[], []⟩ n.spill).take _).length ≤ ((orderedOps n.rt ⟨[], []⟩ n.spill).drop _).length
  rw [List.length_take, List.length_drop]
  omega

/-- Nothing is to come for a joiner: it skips the spill. -/
theorem todo_welcome (budget : ℕ) (shed : Bool) (j : Joiner) : (n.send budget shed (some j)).todo
    (welcome (n.send budget shed (some j)).rt (n.send budget shed (some j)).spill j) = [] := by
  show (List.drop (n.send budget shed (some j)).spill.length _).flatMap _ = []
  rw [List.drop_length]
  rfl

end split

end Link

end Grove
