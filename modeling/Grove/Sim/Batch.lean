import Grove.Sim.Snapshot

/-! # The seam, and what the sim keeps beside the world

`packages/sim/src/batch.ts`, `persisted.ts`, `manifest.ts` and `chunk.ts`: what one tick hands the
host, the persisted records the sim has been handed, the visuals declared so far, and the split of
a snapshot that is too big for one frame. -/

namespace Grove

/-- A host-minted id for one established connection. -/
abbrev ConnectionId := String

inductive SendClass where
  | reliable
  /-- Superseded by the next of its kind; a backed-up host may drop it. -/
  | droppable
deriving DecidableEq

/-- One envelope and who receives it: the source's `to`. -/
structure Send where
  recipients : List ConnectionId
  envelope : ServerToClient
  cls : SendClass
deriving DecidableEq

structure CloseOrder where
  connectionId : ConnectionId
  reason : String
deriving DecidableEq

/-- A persisted read the sim needs before it can allocate a player. -/
structure LoadOrder where
  connectionId : ConnectionId
  hostKey : HostKey
deriving DecidableEq

/-- A departing player's state, for the store. -/
structure SaveOrder where
  hostKey : HostKey
  fields : Fields
deriving DecidableEq

/-- Everything one tick produced. -/
structure OutputBatch where
  tick : ℤ
  simRate : ℚ
  sendRate : ℚ
  sends : List Send
  closes : List CloseOrder
  loads : List LoadOrder
  saves : List SaveOrder
  log : List String
  dropped : ℕ
  stale : ℕ

/-! ### The persisted records -/

namespace SessionRecords

variable (records : SessionRecords)

/-- Files the host's answer to a load. -/
def seed (key : HostKey) (fields : Fields) : SessionRecords := OrderedMap.set records key fields

/-- Captures a departing host's fields; they stay cached until `release`. -/
def capture (record : HostRecord) : SaveOrder × SessionRecords :=
  (⟨record.hostId, encodeRecord record⟩, OrderedMap.set records record.hostId (encodeRecord record))

/-- Drops a host the store confirmed. -/
def release (key : HostKey) : SessionRecords := OrderedMap.delete records key

end SessionRecords

/-! ### Visuals -/

/-- Every visual declared so far, in declaration order, with the additions since the last drain. -/
structure ManifestStore where
  assets : OrderedMap String WireAssetRef
  templates : OrderedMap TemplateId TemplateVisual
  pending : Option RenderManifest

namespace ManifestStore

def setAssets (m : OrderedMap String WireAssetRef) (assets : List WireAssetRef) : OrderedMap String WireAssetRef :=
  assets.foldl (fun m a => m.set a.key a) m

def setTemplates (m : OrderedMap TemplateId TemplateVisual) (templates : List TemplateVisual) :
    OrderedMap TemplateId TemplateVisual :=
  templates.foldl (fun m t => m.set t.template t) m

/-- The boot manifest is not pending: nobody has joined yet. -/
def new (initial : RenderManifest) : ManifestStore where
  assets := setAssets OrderedMap.empty initial.assets
  templates := setTemplates OrderedMap.empty initial.templates
  pending := none

variable (s : ManifestStore)

/-- Everything declared so far: the join payload. -/
def snapshot : RenderManifest := ⟨s.assets.values, s.templates.values⟩

/-- Declares more visuals, queueing whatever is new. -/
def declare (manifest : RenderManifest) : ManifestStore :=
  let assets := manifest.assets.filter (fun a => !s.assets.has a.key)
  let templates := manifest.templates.filter (fun t => !s.templates.has t.template)
  if assets.isEmpty ∧ templates.isEmpty then s
  else
    let pending := s.pending.getD ⟨[], []⟩
    { assets := setAssets s.assets assets
      templates := setTemplates s.templates templates
      pending := some ⟨pending.assets ++ assets, pending.templates ++ templates⟩ }

/-- The additions owed to connected peers, which it clears. -/
def drain : Option RenderManifest × ManifestStore := (s.pending, { s with pending := none })

end ManifestStore

/-! ### Chunks -/

/-- `MAX_FRAME_BYTES` of the transport is 4 MiB; a producer keeps to three quarters of it. -/
def maxFramePayloadBytes : ℕ := 3145728

/-- The byte counts of the codec the host encodes with; `none` for a value it refuses. -/
structure Codec where
  welcome : Welcome → Option ℕ
  entity : EntitySnapshot → Option ℕ
  diff : StateDiff → Option ℕ

/-- What `pack` has so far: the full groups, the group being filled and its bytes, the losses. -/
structure Packing (α : Type) where
  groups : List (List α)
  current : List α
  used : ℕ
  dropped : ℕ

section pack
variable {α : Type}

/-- One element, over any budget if the codec refuses it. -/
def packItem (size : α → Option ℕ) (budget : ℕ) (p : Packing α) (item : α) : Packing α :=
  match size item with
  | none => { p with dropped := p.dropped + 1 }
  | some bytes =>
    -- Plus the separator this element costs once it is one of several.
    if budget < bytes + 1 then { p with dropped := p.dropped + 1 }
    else if budget < p.used + (bytes + 1) ∧ !p.current.isEmpty then
      { p with groups := p.groups ++ [p.current], current := [item], used := bytes + 1 }
    else { p with current := p.current ++ [item], used := p.used + (bytes + 1) }

/-- Greedily fills groups whose bytes stay under `budget`, in the order given. -/
def pack (size : α → Option ℕ) (budget : ℕ) (items : List α) : List (List α) × ℕ :=
  let p := items.foldl (packItem size budget) ⟨[], [], 0, 0⟩
  (if p.current.isEmpty then p.groups else p.groups ++ [p.current], p.dropped)

/-- A frame under the budget can carry the element and its separator. -/
def carries (size : α → Option ℕ) (budget : ℕ) (item : α) : Bool :=
  (size item).any (fun bytes => bytes + 1 ≤ budget)

/-- What the elements of one frame take, each with its separator. -/
def packedBytes (size : α → Option ℕ) (group : List α) : ℕ := (group.map (fun item => (size item).getD 0 + 1)).sum

variable {size : α → Option ℕ} {budget : ℕ}

theorem packedBytes_append (size : α → Option ℕ) (group : List α) (item : α) :
    packedBytes size (group ++ [item]) = packedBytes size group + ((size item).getD 0 + 1) := by
  simp [packedBytes]

/-- The groups hold what could be carried of `items`, in order, and the rest is counted. -/
structure Packing.Holds (size : α → Option ℕ) (budget : ℕ) (items : List α) (p : Packing α) : Prop where
  elements : p.groups.flatten ++ p.current = items.filter (carries size budget)
  losses : p.dropped = (items.filter (fun item => !carries size budget item)).length
  filled : ∀ group ∈ p.groups, group ≠ [] ∧ packedBytes size group ≤ budget
  used : p.used = packedBytes size p.current
  filling : p.used ≤ budget

theorem Packing.Holds.item {items : List α} {p : Packing α} (h : p.Holds size budget items) (item : α) :
    (packItem size budget p item).Holds size budget (items ++ [item]) := by
  by_cases hcarry : carries size budget item = true
  · obtain ⟨bytes, hsize, hfit⟩ : ∃ bytes, size item = some bytes ∧ bytes + 1 ≤ budget := by
      unfold carries at hcarry
      rw [Option.any_eq_true] at hcarry
      simpa using hcarry
    have helements : (items ++ [item]).filter (carries size budget) = (p.groups.flatten ++ p.current) ++ [item] := by
      rw [List.filter_append, ← h.elements]
      simp [hcarry]
    have hlosses : p.dropped = ((items ++ [item]).filter (fun item => !carries size budget item)).length := by
      rw [List.filter_append, List.length_append, ← h.losses]
      simp [hcarry]
    unfold packItem
    rw [hsize]
    simp only
    rw [if_neg (not_lt.mpr hfit)]
    split_ifs with hfull
    · -- The group is full: it is closed and `item` opens the next.
      refine ⟨?_, hlosses, ?_, ?_, hfit⟩
      · rw [helements]
        simp
      · intro group hgroup
        rcases List.mem_append.mp hgroup with hgroup | hgroup
        · exact h.filled group hgroup
        · obtain rfl := List.mem_singleton.mp hgroup
          refine ⟨?_, h.used ▸ h.filling⟩
          intro hnil
          rw [hnil] at hfull
          exact absurd hfull.2 (by simp)
      · simp [packedBytes, hsize]
    · have hroom : p.used + (bytes + 1) ≤ budget := by
        by_cases hempty : p.current = []
        · have hzero : p.used = 0 := by rw [h.used, hempty]; rfl
          omega
        · exact not_lt.mp (fun hlt => hfull ⟨hlt, by simpa using hempty⟩)
      refine ⟨?_, hlosses, h.filled, ?_, hroom⟩
      · rw [helements, List.append_assoc]
      · show p.used + (bytes + 1) = packedBytes size (p.current ++ [item])
        rw [packedBytes_append, hsize, h.used]
        rfl
  · have hpack : packItem size budget p item = { p with dropped := p.dropped + 1 } := by
      unfold packItem
      unfold carries at hcarry
      rcases hsize : size item with _ | bytes
      · rfl
      · rw [hsize] at hcarry
        simp only [Option.any_some, decide_eq_true_eq, not_le] at hcarry
        exact if_pos hcarry
    rw [hpack]
    refine ⟨?_, ?_, h.filled, h.used, h.filling⟩
    · rw [List.filter_append, ← h.elements]
      simp [hcarry]
    · show p.dropped + 1 = _
      rw [List.filter_append, List.length_append, ← h.losses]
      simp [hcarry]

theorem Packing.holds_foldl : ∀ (items before : List α) {p : Packing α}, p.Holds size budget before →
    (items.foldl (packItem size budget) p).Holds size budget (before ++ items)
  | [], before, p, h => by simpa using h
  | item :: items, before, p, h => by
    have ih := holds_foldl items (before ++ [item]) (h.item item)
    rwa [List.append_assoc] at ih

/-- Nothing that fits is lost, and no group is empty or over the budget. -/
theorem pack_spec (size : α → Option ℕ) (budget : ℕ) (items : List α) :
    (pack size budget items).1.flatten = items.filter (carries size budget) ∧
      (pack size budget items).2 = (items.filter (fun item => !carries size budget item)).length ∧
      ∀ group ∈ (pack size budget items).1, group ≠ [] ∧ packedBytes size group ≤ budget := by
  have hnew : (⟨[], [], 0, 0⟩ : Packing α).Holds size budget [] :=
    ⟨rfl, rfl, fun _ h => (by cases h), rfl, Nat.zero_le _⟩
  have h := Packing.holds_foldl items [] hnew
  rw [List.nil_append] at h
  unfold pack
  simp only
  split_ifs with hcurrent
  · refine ⟨?_, h.losses, h.filled⟩
    rw [← h.elements, List.isEmpty_iff.mp hcurrent, List.append_nil]
  · refine ⟨?_, h.losses, ?_⟩
    · rw [← h.elements, List.flatten_append, List.flatten_singleton]
    · intro group hgroup
      rcases List.mem_append.mp hgroup with hgroup | hgroup
      · exact h.filled group hgroup
      · obtain rfl := List.mem_singleton.mp hgroup
        exact ⟨by simpa using hcurrent, h.used ▸ h.filling⟩

end pack

/-- The head, the chunks ahead of it, and how many elements no frame could carry. -/
def splitSnapshot (codec : Codec) (budget : ℕ) (snapshot : WorldSnapshot) :
    WorldSnapshot × List SnapshotChunk × ℕ :=
  let (entities, lostEntities) := pack codec.entity budget snapshot.entities
  let (state, lostState) := pack codec.diff budget snapshot.state
  ({ snapshot with entities := [], state := [] },
    -- Entities before state: a diff addressing an entity needs that entity to exist.
    entities.mapIdx (fun i group => ⟨i, group, []⟩) ++
      state.mapIdx (fun i group => ⟨entities.length + i, [], group⟩),
    lostEntities + lostState)

end Grove
