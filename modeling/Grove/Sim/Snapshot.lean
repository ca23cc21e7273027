import Grove.Sim.Replicate

/-! # The join snapshot

`packages/sim/src/snapshot.ts`: the world as a joiner should first see it.  `ancestorsFirst`
lists the live entities with every parent ahead of its children, by an explicit stack. -/

namespace Grove

/-- The parent an entity is listed beneath; the null handle for a root or an orphan. -/
def liveParent (rt : Runtime) (id : EntityId) : EntityId :=
  let parent := rt.entities.parentOf id
  if parent ∈ rt.entities.ids then parent else noEntity

/-- The entities listed beneath `parent`, in slot order. -/
def listedChildren (rt : Runtime) (parent : EntityId) : List EntityId :=
  rt.entities.ids.filter (fun id => liveParent rt id = parent)

/-- The stack walk: pop, note, push the children so that the first is on top.  An id comes off
the stack at most once per push and each is pushed once, so the number of ids is fuel enough. -/
def walkStack (children : EntityId → List EntityId) : ℕ → List EntityId → List EntityId → List EntityId
  | 0, _, out => out
  | _ + 1, [], out => out
  | fuel + 1, id :: stack, out =>
    if id ∈ out then walkStack children fuel stack out
    else walkStack children fuel (children id ++ stack) (out ++ [id])

/-- Live ids with every parent ahead of its children. -/
def ancestorsFirst (rt : Runtime) : List EntityId :=
  let ids := rt.entities.ids
  let out := walkStack (listedChildren rt) (2 * ids.length + 1) (listedChildren rt noEntity) []
  out ++ ids.filter (fun id => id ∉ out)

/-- The fields of one host, unless it has none. -/
def collectHost (rt : Runtime) (key : HostKey) (host : StateHostAddr) : Option StateDiff :=
  match rt.hosts.record key with
  | none => none
  | some record => if (encodeRecord record).isEmpty then none else some ⟨host, encodeRecord record⟩

/-- The state baseline: the game's, this player's own, and every entity's. -/
def snapshotState (rt : Runtime) (forPlayer : PlayerId) (ids : List EntityId) : List StateDiff :=
  (collectHost rt .game .game).toList ++ (collectHost rt (.player forPlayer) (.player forPlayer)).toList ++
    ids.filterMap (fun id => collectHost rt (.entity id) (.entity id))

/-- The world as `forPlayer` should first see it, at the current tick. -/
def buildSnapshot (rt : Runtime) (forPlayer : PlayerId) : WorldSnapshot where
  tick := rt.tick
  entities := (ancestorsFirst rt).filterMap (fun id => rt.readEntitySnapshot id true)
  players := rt.playerManager.players.map readPlayerSnapshot
  state := snapshotState rt forPlayer (ancestorsFirst rt)

end Grove
