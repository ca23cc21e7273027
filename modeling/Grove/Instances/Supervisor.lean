import Grove.Fleet.Registry

/-! # The game processes of one box

`apps/grove/instance-manager/internal/supervisor`: what the agent of a box holds of the processes it
started, the records it keeps of them on disk, and the steps its calls and goroutines take, one for each
stretch between two of them where another may run.  A write to disk succeeds, and is written beside and
renamed over. -/

namespace Grove
namespace Supervisor

open Fleet (InstanceState InstanceReport SessionId)

/-- An instance of the running agent, as its goroutines hold it. -/
abbrev Ref := ℕ

structure Options where
  maxInstances : ℕ
  retention : ℤ
  startGrace : ℤ
  drainDeadline : ℤ

structure InstanceStart where
  instanceID : String
  sessionID : SessionId
  gameID : String
  revision : ℕ

/-- A process this box forked, as the kernel has it; it runs until its `Wait` returns. -/
structure Child where
  id : String
  sessionID : SessionId
  port : ℕ
  pid : ℕ
  running : Bool
deriving DecidableEq

/-- What is written down of an instance.  `child` is no part of the file: it is the process meant. -/
structure Record where
  instanceID : String
  gameID : String
  sessionID : SessionId
  revision : ℕ
  pid : ℕ
  port : ℕ
  startedAt : ℤ
  drainingSince : Option ℤ
  child : ℕ
deriving DecidableEq

/-! ### An instance -/

/-- What an instance is from its start on. -/
structure Spawned where
  id : String
  gameID : String
  sessionID : SessionId
  revision : ℕ
  port : ℕ
  startedAt : ℤ
  pid : ℕ
  child : ℕ
deriving DecidableEq

/-- How far `reap` has come: `Wait` is not back, or the ending is noted, the port released, the record
dropped. -/
inductive Reaped where
  | waiting
  | noted
  | released
  | dropped
deriving DecidableEq

structure Reaping extends Spawned where
  exited : Bool
  endedAt : ℤ
  reaped : Reaped
deriving DecidableEq

/-- What the goroutine that `stopOnce` began is doing. -/
inductive Ending where
  | none
  /-- `drainOnEmpty`. -/
  | draining (since : ℤ)
  /-- `teardown`, before the child is signalled. -/
  | tearing
  | over
deriving DecidableEq

structure Instance extends Reaping where
  state : InstanceState
  players : ℤ
  probed : Bool
  stopOnce : Bool
  hurry : Bool
  ending : Ending
deriving DecidableEq

namespace Instance

variable (i : Instance)

def new (spawned : Spawned) : Instance :=
  ⟨⟨spawned, false, 0, .waiting⟩, .starting, 0, false, false, false, .none⟩

def done : Bool := i.exited

def mark (state : InstanceState) : Instance := { i with state := state }

/-- A child no probe has ever answered for is not empty but unknown. -/
def empty : Bool := i.probed && i.players = 0

def view : InstanceReport := ⟨i.id, i.gameID, i.sessionID, i.state, i.revision, i.port⟩

/-- `stopOnce.Do`. -/
def once (ending : Ending) : Instance := if i.stopOnce then i else { i with stopOnce := true, ending := ending }

/-- What one probe makes of a child: `players` if it answered. -/
def probe (opts : Options) (now : ℤ) : Option ℤ → Instance
  | some players =>
    { i with
      players := players
      probed := true
      state := if i.state = .draining then .draining else .healthy }
  | none =>
    if i.state = .draining then i
    else if i.state = .starting ∧ now - i.startedAt < opts.startGrace then i
    else { i with state := .unhealthy }

end Instance

/-! ### The ports -/

def portAttempts : ℕ := 32

/-- `Take`: the first the kernel offers that is not issued; an offer may fail, and so does the last. -/
def take (issued : List ℕ) : ℕ → List (Option ℕ) → Option ℕ
  | 0, _ => none
  | _ + 1, [] => none
  | _ + 1, none :: _ => none
  | attempts + 1, some port :: offers => if port ∈ issued then take issued attempts offers else some port

def hold (issued : List ℕ) (port : ℕ) : List ℕ := if port ∈ issued then issued else issued ++ [port]

def release (issued : List ℕ) (port : ℕ) : List ℕ := issued.filter (· ≠ port)

/-! ### The agent -/

/-- A `Stop` on its way: once it has `asked`, it waits for the process to end. -/
structure Stop where
  id : String
  ref : Ref
  asked : Bool
deriving DecidableEq

/-- Where a drain is with the first instance it still has to do. -/
inductive Stage where
  | mark
  | read
  | write (rec : Record)
deriving DecidableEq

/-- The record read and not yet written back. -/
def Stage.inHand : Stage → Option Record
  | .write rec => some rec
  | .mark | .read => none

/-- A `Redeploy` on its way, or a stamp `Adopt` owes a record. -/
structure Drain where
  at' : ℤ
  todo : List Ref
  stage : Stage
  /-- The instances it is to return, as the id and the process. -/
  marked : List (String × ℕ)
  redeploy : Bool
deriving DecidableEq

structure Probe where
  ref : Ref
  now : ℤ
deriving DecidableEq

inductive Why where
  | stopped
  | hurried
  /-- Its roster had emptied. -/
  | emptied
  | overdue
deriving DecidableEq

/-- A teardown that was begun: in which run of the agent, for which instance, and what a probe of it was
last answered. -/
structure Teardown where
  run : ℕ
  ref : Ref
  id : String
  child : ℕ
  why : Why
  roster : Option ℤ
deriving DecidableEq

structure Box where
  /-- Every process this box has forked. -/
  children : List Child
  disk : OrderedMap String Record
  instances : List Instance
  held : OrderedMap String Ref
  issued : List ℕ
  /-- The instance of the `Start` that has forked a child and not yet written it down; it holds `r.mu`. -/
  starting : Option Ref
  stops : List Stop
  drains : List Drain
  probes : List Probe
  /-- What has happened: the runs of the agent, the ids `Redeploy` returned and their processes, the
  processes whose reap has completed, the rosters this run was answered and the teardowns begun. -/
  run : ℕ
  returned : List (String × ℕ)
  reapedChildren : List ℕ
  answers : List (Ref × ℤ)
  teardowns : List Teardown

inductive Event where
  /-- `Start` up to the fork: what the kernel offers for ports, and the pid of the child if one is forked. -/
  | start (req : InstanceStart) (offers : List (Option ℕ)) (forked : Option ℕ) (now : ℤ)
  /-- `Start` writes the record and lets `reap` go. -/
  | record
  | exit (child : ℕ)
  /-- `reap`: `Wait` is back. -/
  | note (ref : Ref) (now : ℤ)
  | release (ref : Ref)
  | drop (ref : Ref)
  | stop (id : String)
  /-- A `Stop` begins or hurries the teardown. -/
  | ask (k : ℕ)
  | stopped (k : ℕ)
  /-- The caller of a `Stop` hung up. -/
  | leave (k : ℕ)
  | redeploy (gameID : String) (at' : ℤ)
  | mark (k : ℕ)
  /-- `store.draining` reads the record. -/
  | read (k : ℕ)
  | write (k : ℕ)
  | probe (ref : Ref) (now : ℤ)
  | answer (k : ℕ) (players : Option ℤ)
  | sweep (now : ℤ)
  | tick (ref : Ref) (now : ℤ)
  | hurried (ref : Ref)
  | ended (ref : Ref)
  /-- `teardown` signals the child. -/
  | signal (ref : Ref)
  /-- The agent goes and comes back; `unread` are the pids the kernel could not be asked about. -/
  | restart (unread : ℕ → Bool) (now : ℤ)

namespace Box

def new : Box := ⟨[], .empty, [], .empty, [], none, [], [], [], 0, [], [], [], []⟩

variable (s : Box)

/-- The instances the registry holds. -/
def snapshot : List Instance := s.held.values.filterMap (s.instances[·]?)

/-- The instances a heartbeat reports. -/
def reported : List Instance := s.snapshot.filter fun i => !i.done && decide (1 ≤ i.revision)

def running : ℕ := s.snapshot.countP fun i => !i.done

def sessionHeld (sessionID : SessionId) : Bool := s.snapshot.any fun i => i.sessionID = sessionID && !i.done

/-- The process the kernel runs under a pid. -/
def ownedBy (pid : ℕ) : Option ℕ := s.children.findIdx? fun c => c.running && c.pid = pid

def childRunning (child : ℕ) : Bool := s.children[child]?.any Child.running

def lastAnswer (ref : Ref) : Option ℤ := ((s.answers.filter fun a => a.1 = ref).getLast?).map Prod.snd

def update (ref : Ref) (f : Instance → Instance) : Box := { s with instances := s.instances.modify ref f }

/-- A teardown is begun for an instance. -/
def begin (ref : Ref) (i : Instance) (why : Why) : Box :=
  { s with teardowns := s.teardowns ++ [⟨s.run, ref, i.id, i.child, why, s.lastAnswer ref⟩] }

/-! ### The steps -/

def fork (req : InstanceStart) (port pid : ℕ) (now : ℤ) : Box :=
  { s with
    children := s.children ++ [⟨req.instanceID, req.sessionID, port, pid, true⟩]
    instances := s.instances ++
      [.new ⟨req.instanceID, req.gameID, req.sessionID, req.revision, port, now, pid, s.children.length⟩]
    held := s.held.set req.instanceID s.instances.length
    issued := hold s.issued port
    starting := some s.instances.length }

def start (opts : Options) (req : InstanceStart) (offers : List (Option ℕ)) (forked : Option ℕ) (now : ℤ) : Box :=
  if s.starting.isSome then s
  else if s.sessionHeld req.sessionID then s
  else if opts.maxInstances ≤ s.running then s
  else
    match take s.issued portAttempts offers, forked with
    | none, _ => s
    | some port, none => { s with issued := Supervisor.release (hold s.issued port) port }
    -- The kernel gives a child a pid that nothing it runs has.
    | some port, some pid => if (s.ownedBy pid).isSome then s else s.fork req port pid now

def recordOf (i : Instance) : Record :=
  ⟨i.id, i.gameID, i.sessionID, i.revision, i.pid, i.port, i.startedAt, none, i.child⟩

def record : Box :=
  match s.starting with
  | none => s
  | some ref =>
    match s.instances[ref]? with
    | none => s
    | some i => { s with disk := s.disk.set i.id (recordOf i), starting := none }

def exit (child : ℕ) : Box := { s with children := s.children.modify child fun c => { c with running := false } }

def note (ref : Ref) (now : ℤ) : Box :=
  match s.instances[ref]? with
  | none => s
  | some i =>
    if i.reaped = .waiting ∧ s.starting ≠ some ref ∧ s.childRunning i.child = false then
      s.update ref fun i => { i with exited := true, endedAt := now, state := .unhealthy, reaped := .noted }
    else s

def release (ref : Ref) : Box :=
  match s.instances[ref]? with
  | none => s
  | some i =>
    if i.reaped = .noted then
      { s.update ref (fun i => { i with reaped := .released }) with issued := Supervisor.release s.issued i.port }
    else s

def drop (ref : Ref) : Box :=
  match s.instances[ref]? with
  | none => s
  | some i =>
    if i.reaped = .released then
      { s.update ref (fun i => { i with reaped := .dropped }) with
        disk := s.disk.delete i.id
        reapedChildren := s.reapedChildren ++ [i.child] }
    else s

def stop (id : String) : Box :=
  if s.starting.isSome then s
  else
    match s.held.get id with
    | none => s
    | some ref => { s with stops := s.stops ++ [⟨id, ref, false⟩] }

def ask (k : ℕ) : Box :=
  match s.stops[k]? with
  | none => s
  | some stop =>
    match s.instances[stop.ref]? with
    | none => s
    | some i =>
      let s' := if i.stopOnce then s else s.begin stop.ref i .stopped
      { s'.update stop.ref (fun i => { i.once .tearing with hurry := true }) with
        stops := s.stops.set k { stop with asked := true } }

def stopped (k : ℕ) : Box :=
  match s.stops[k]? with
  | none => s
  | some stop =>
    if s.starting.isNone ∧ stop.asked ∧ (s.instances[stop.ref]?.any fun i => i.exited) then
      { s with held := s.held.delete stop.id, stops := s.stops.eraseIdx k }
    else s

def redeploy (gameID : String) (at' : ℤ) : Box :=
  if s.starting.isSome then s
  else
    { s with
      drains := s.drains ++
        [⟨at', s.held.values.filter (fun ref => s.instances[ref]?.any fun i => i.gameID = gameID && !i.done), .mark, [], true⟩] }

def mark (k : ℕ) : Box :=
  match s.drains[k]? with
  | none => s
  | some d =>
    match d.stage, d.todo with
    | .mark, ref :: _ =>
      { s.update ref (fun i => (i.mark .draining).once (.draining d.at')) with
        drains := s.drains.set k { d with stage := .read } }
    | _, _ => s

/-- The drain is done with an instance; the last one ends the call. -/
def finish (k : ℕ) (d : Drain) (i : Instance) (rest : List Ref) : Box :=
  let marked := if d.redeploy then d.marked ++ [(i.id, i.child)] else d.marked
  if rest = [] then { s with drains := s.drains.eraseIdx k, returned := s.returned ++ marked }
  else { s with drains := s.drains.set k { d with todo := rest, stage := .mark, marked := marked } }

def read (k : ℕ) : Box :=
  match s.drains[k]? with
  | none => s
  | some d =>
    match d.stage, d.todo with
    | .read, ref :: rest =>
      match s.instances[ref]? with
      | none => s
      | some i =>
        match s.disk.get i.id with
        | none => s.finish k d i rest
        | some rec =>
          -- Left at the first drain.
          if rec.drainingSince.isSome then s.finish k d i rest
          else { s with drains := s.drains.set k { d with stage := .write rec } }
    | _, _ => s

def write (k : ℕ) : Box :=
  match s.drains[k]? with
  | none => s
  | some d =>
    match d.stage, d.todo with
    | .write rec, ref :: rest =>
      match s.instances[ref]? with
      | none => s
      | some i =>
        { s with disk := s.disk.set rec.instanceID { rec with drainingSince := some d.at' } }.finish k d i rest
    | _, _ => s

def probe (ref : Ref) (now : ℤ) : Box :=
  match s.instances[ref]? with
  | none => s
  | some i =>
    if i.done then s.update ref (·.mark .unhealthy) else { s with probes := s.probes ++ [⟨ref, now⟩] }

def answer (opts : Options) (k : ℕ) (players : Option ℤ) : Box :=
  match s.probes[k]? with
  | none => s
  | some p =>
    match s.instances[p.ref]? with
    | none => s
    | some _ =>
      { s.update p.ref (fun i => i.probe opts p.now players) with
        probes := s.probes.eraseIdx k
        answers :=
          match players with
          | none => s.answers
          | some players => s.answers ++ [(p.ref, players)] }

def sweep (opts : Options) (now : ℤ) : Box :=
  if s.starting.isSome then s
  else
    { s with
      held := s.held.filter fun _ ref =>
        !(s.instances[ref]?.any fun i => i.exited && decide (opts.retention ≤ now - i.endedAt)) }

/-- `drainOnEmpty` hands over to `teardown`. -/
def tear (ref : Ref) (i : Instance) (why : Why) : Box :=
  (s.begin ref i why).update ref fun i => { i with ending := .tearing }

def tick (opts : Options) (ref : Ref) (now : ℤ) : Box :=
  match s.instances[ref]? with
  | none => s
  | some i =>
    match i.ending with
    | .draining since =>
      if i.empty then s.tear ref i .emptied
      else if opts.drainDeadline ≤ now - since then s.tear ref i .overdue
      else s
    | _ => s

def hurried (ref : Ref) : Box :=
  match s.instances[ref]? with
  | none => s
  | some i =>
    match i.ending with
    | .draining _ => if i.hurry then s.tear ref i .hurried else s
    | _ => s

def ended (ref : Ref) : Box :=
  match s.instances[ref]? with
  | none => s
  | some i =>
    match i.ending with
    | .draining _ => if i.exited then s.update ref (fun i => { i with ending := .over }) else s
    | _ => s

/-- The child is asked to end, and killed if it does not; when it ends is its own affair. -/
def signal (ref : Ref) : Box :=
  match s.instances[ref]? with
  | none => s
  | some i =>
    if i.ending = .tearing then
      s.update ref fun i => if i.done then { i with ending := .over } else { i.mark .draining with ending := .over }
    else s

/-! ### A new run of the agent -/

/-- What a new run of the agent begins with. -/
def forgetful : Box :=
  { s with
    instances := []
    held := .empty
    issued := []
    starting := none
    stops := []
    drains := []
    probes := []
    answers := []
    run := s.run + 1 }

/-- When an adopted world began to drain; one that names no revision drains from now on. -/
def drainingSince (rec : Record) (now : ℤ) : Option ℤ :=
  match rec.drainingSince with
  | some since => some since
  | none => if rec.revision < 1 then some now else none

def adopted (rec : Record) (child : ℕ) (now : ℤ) : Instance :=
  let i := Instance.new ⟨rec.instanceID, rec.gameID, rec.sessionID, rec.revision, rec.port, rec.startedAt, rec.pid, child⟩
  match drainingSince rec now with
  | none => i
  | some since => (i.mark .draining).once (.draining since)

def adopt (unread : ℕ → Bool) (now : ℤ) (rec : Record) : Box :=
  if unread rec.pid then { s with issued := hold s.issued rec.port }
  else
    match s.ownedBy rec.pid with
    | none => { s with disk := s.disk.delete rec.instanceID }
    | some child =>
      { s with
        issued := hold s.issued rec.port
        instances := s.instances ++ [adopted rec child now]
        held := s.held.set rec.instanceID s.instances.length
        drains :=
          if rec.revision < 1 ∧ rec.drainingSince.isNone then
            s.drains ++ [⟨now, [s.instances.length], .read, [], false⟩]
          else s.drains }

def restart (unread : ℕ → Bool) (now : ℤ) : Box :=
  s.disk.values.foldl (fun s rec => s.adopt unread now rec) s.forgetful

def step (opts : Options) : Box → Event → Box
  | s, .start req offers forked now => s.start opts req offers forked now
  | s, .record => s.record
  | s, .exit child => s.exit child
  | s, .note ref now => s.note ref now
  | s, .release ref => s.release ref
  | s, .drop ref => s.drop ref
  | s, .stop id => s.stop id
  | s, .ask k => s.ask k
  | s, .stopped k => s.stopped k
  | s, .leave k => { s with stops := s.stops.eraseIdx k }
  | s, .redeploy gameID at' => s.redeploy gameID at'
  | s, .mark k => s.mark k
  | s, .read k => s.read k
  | s, .write k => s.write k
  | s, .probe ref now => s.probe ref now
  | s, .answer k players => s.answer opts k players
  | s, .sweep now => s.sweep opts now
  | s, .tick ref now => s.tick opts ref now
  | s, .hurried ref => s.hurried ref
  | s, .ended ref => s.ended ref
  | s, .signal ref => s.signal ref
  | s, .restart unread now => s.restart unread now

end Box

end Supervisor
end Grove
