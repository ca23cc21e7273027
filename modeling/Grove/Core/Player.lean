import Grove.Protocol.Envelopes

/-! # The roster

`packages/core/src/runtime/player.ts`: the players of a world in join order, with the index
the next one takes.  `#byId` and `#order` of the source hold the same players, so the model
keeps the order alone and reads ids off it. -/

namespace Grove

structure Player where
  id : PlayerId
  index : ℕ
  name : String
deriving DecidableEq

structure PlayerManager where
  players : List Player
  nextIndex : ℕ
deriving DecidableEq

namespace PlayerManager

def empty : PlayerManager := ⟨[], 0⟩

variable (pm : PlayerManager)

def byId (id : PlayerId) : Option Player := pm.players.find? (fun p => p.id = id)

/-- The player `create` would mint. -/
def fresh (id : PlayerId) (name : String) : Player := ⟨id, pm.nextIndex, name⟩

def create (id : PlayerId) (name : String) : PlayerManager :=
  ⟨pm.players ++ [pm.fresh id name], pm.nextIndex + 1⟩

/-- Registers a player built elsewhere, keeping its index. -/
def adopt (player : Player) : PlayerManager :=
  if (pm.byId player.id).isSome then pm
  else ⟨pm.players ++ [player], max pm.nextIndex (player.index + 1)⟩

def remove (id : PlayerId) : PlayerManager :=
  { pm with players := pm.players.filter (fun p => p.id ≠ id) }

/-- The name a rejoining peer gives replaces the one held. -/
def rename (id : PlayerId) (name : String) : PlayerManager :=
  { pm with players := pm.players.map (fun p => if p.id = id then { p with name := name } else p) }

def ids : List PlayerId := pm.players.map Player.id

theorem byId_isSome {id : PlayerId} : (pm.byId id).isSome ↔ id ∈ pm.ids := by
  simp [byId, ids, List.find?_isSome]

theorem ids_create (id : PlayerId) (name : String) : (pm.create id name).ids = pm.ids ++ [id] := by
  simp [create, ids, fresh]

theorem mem_ids_remove {id id' : PlayerId} : id' ∈ (pm.remove id).ids ↔ id' ∈ pm.ids ∧ id' ≠ id := by
  simp only [remove, ids, List.mem_map, List.mem_filter, decide_eq_true_eq]
  constructor
  · rintro ⟨p, ⟨hp, hne⟩, rfl⟩
    exact ⟨⟨p, hp, rfl⟩, hne⟩
  · rintro ⟨⟨p, hp, rfl⟩, hne⟩
    exact ⟨p, ⟨hp, hne⟩, rfl⟩

/-! ### What an index names -/

/-- Ids are apart, and indices rise in join order to the next one. -/
structure Numbered : Prop where
  apart : pm.ids.Nodup
  rising : pm.players.Pairwise (fun p q => p.index < q.index)
  below : ∀ p ∈ pm.players, p.index < pm.nextIndex

/-- What an authority does to its roster. -/
inductive Turn : PlayerManager → PlayerManager → Prop where
  | create (pm : PlayerManager) {id : PlayerId} (name : String) (hfree : (pm.byId id).isSome = false) : Turn pm (pm.create id name)
  | remove (pm : PlayerManager) (id : PlayerId) : Turn pm (pm.remove id)

variable {pm} {pm' : PlayerManager}

theorem Numbered.turn (h : pm.Numbered) (hturn : Turn pm pm') : pm'.Numbered := by
  cases hturn with
  | @create id name hfree =>
    have hnot : id ∉ pm.ids := fun hid => by simp [pm.byId_isSome.mpr hid] at hfree
    have hmem : ∀ p ∈ (pm.create id name).players, p ∈ pm.players ∨ p = pm.fresh id name := by simp [create]
    constructor
    · rw [ids_create]
      refine List.nodup_append.mpr ⟨h.apart, List.pairwise_singleton _ _, ?_⟩
      rintro x hx _ hid rfl
      exact hnot (List.mem_singleton.mp hid ▸ hx)
    · exact List.pairwise_append.mpr ⟨h.rising, List.pairwise_singleton _ _, by simpa [fresh] using h.below⟩
    · intro p hp
      rcases hmem p hp with hp | rfl
      · exact Nat.lt_succ_of_lt (h.below p hp)
      · exact Nat.lt_succ_self _
  | remove id =>
    exact ⟨h.apart.sublist (List.filter_sublist.map _), h.rising.filter _, fun p hp => h.below p (List.mem_filter.mp hp).1⟩

/-- Over any number of turns, who is there was there before, or has an index not given out before. -/
theorem onward (hturns : Relation.ReflTransGen Turn pm pm') :
    pm.nextIndex ≤ pm'.nextIndex ∧ ∀ p ∈ pm'.players, p ∈ pm.players ∨ pm.nextIndex ≤ p.index := by
  induction hturns with
  | refl => exact ⟨le_refl _, fun p hp => .inl hp⟩
  | tail _ hturn ih =>
    obtain ⟨hle, ih⟩ := ih
    cases hturn with
    | create name =>
      refine ⟨hle.trans (Nat.le_succ _), fun p hp => ?_⟩
      rcases List.mem_append.mp hp with hp | hp
      · exact ih p hp
      · rw [List.mem_singleton.mp hp]
        exact .inr hle
    | remove id => exact ⟨hle, fun p hp => ih p (List.mem_filter.mp hp).1⟩

end PlayerManager

end Grove
