import Grove.Client.Handshake
import Grove.Sim.Batch

/-! # What a split snapshot arrives as

`splitSnapshot` on the server against `SnapshotChunks` on the client: under the two caps the chunks
give back the snapshot they were cut from, whatever order they arrive in. -/

namespace Grove

variable (codec : Codec) (budget : ℕ) (snapshot : WorldSnapshot)

/-- The chunks a snapshot is cut into. -/
def snapshotPieces : List SnapshotChunk := (splitSnapshot codec budget snapshot).2.1

/-- What of a snapshot a frame can carry. -/
def carried : WorldSnapshot :=
  { snapshot with
    entities := snapshot.entities.filter (carries codec.entity budget)
    state := snapshot.state.filter (carries codec.diff budget) }

def entityChunk (i : ℕ) (group : List EntitySnapshot) : SnapshotChunk := ⟨i, group, []⟩

def stateChunk (before i : ℕ) (group : List StateDiff) : SnapshotChunk := ⟨before + i, [], group⟩

theorem snapshotPieces_eq : snapshotPieces codec budget snapshot =
    (pack codec.entity budget snapshot.entities).1.mapIdx entityChunk ++
      (pack codec.diff budget snapshot.state).1.mapIdx
        (stateChunk (pack codec.entity budget snapshot.entities).1.length) := rfl

theorem index_snapshotPieces : (snapshotPieces codec budget snapshot).map SnapshotChunk.index =
    SnapshotChunks.indices (snapshotPieces codec budget snapshot).length := by
  rw [snapshotPieces_eq]
  generalize (pack codec.entity budget snapshot.entities).1 = entities
  generalize (pack codec.diff budget snapshot.state).1 = state
  apply List.ext_getElem?
  intro i
  simp only [SnapshotChunks.indices, List.map_append, List.length_append, List.length_mapIdx, List.getElem?_map]
  rcases Nat.lt_or_ge i entities.length with hlt | hge
  · rw [List.getElem?_append_left (by simpa using hlt), List.getElem?_range (by omega), List.getElem?_map,
      List.getElem?_mapIdx, List.getElem?_eq_getElem hlt]
    rfl
  · rw [List.getElem?_append_right (by simpa using hge), List.getElem?_map, List.getElem?_mapIdx, List.length_map,
      List.length_mapIdx]
    rcases Nat.lt_or_ge i (entities.length + state.length) with hlt | hge'
    · rw [List.getElem?_range hlt, List.getElem?_eq_getElem (by omega)]
      have hi : ((i - entities.length : ℕ) : ℚ) = i - entities.length := Nat.cast_sub hge
      simp [stateChunk, hi]
    · rw [List.getElem?_eq_none (by omega), List.getElem?_eq_none (by simpa using hge')]
      rfl

theorem snapshotPieces_pairwise :
    (snapshotPieces codec budget snapshot).Pairwise (fun a b => a.index < b.index) := by
  have h : ((snapshotPieces codec budget snapshot).map SnapshotChunk.index).Pairwise (· < ·) := by
    rw [index_snapshotPieces]
    unfold SnapshotChunks.indices
    rw [List.pairwise_map]
    exact List.pairwise_lt_range.imp (fun h => by exact_mod_cast h)
  exact List.pairwise_map.mp h

theorem flatMap_mapIdx {α β γ : Type} {f : ℕ → α → β} {g : β → List γ} {k : α → List γ}
    (h : ∀ i a, g (f i a) = k a) (l : List α) : (l.mapIdx f).flatMap g = l.flatMap k := by
  rw [List.mapIdx_eq_zipIdx_map, List.flatMap_map]
  simp only [h]
  rw [← List.flatMap_map (f := Prod.fst) (g := k), List.zipIdx_map_fst]

theorem flatMap_entities_snapshotPieces : (snapshotPieces codec budget snapshot).flatMap SnapshotChunk.entities =
    (carried codec budget snapshot).entities := by
  have h := (pack_spec codec.entity budget snapshot.entities).1
  rw [snapshotPieces_eq, List.flatMap_append, flatMap_mapIdx (f := entityChunk) (k := id) (fun _ _ => rfl),
    flatMap_mapIdx (f := stateChunk _) (k := fun _ => []) (fun _ _ => rfl), List.flatMap_id, h]
  simp [carried]

theorem flatMap_state_snapshotPieces : (snapshotPieces codec budget snapshot).flatMap SnapshotChunk.state =
    (carried codec budget snapshot).state := by
  have h := (pack_spec codec.diff budget snapshot.state).1
  rw [snapshotPieces_eq, List.flatMap_append,
    flatMap_mapIdx (f := entityChunk) (k := fun _ => []) (fun _ _ => rfl),
    flatMap_mapIdx (f := stateChunk _) (k := id) (fun _ _ => rfl), List.flatMap_id, h]
  simp [carried]

/-- Any arrival order sorts back to the order they were cut in. -/
theorem sorted_arrived {s : SnapshotChunks} (h : s.held.Perm (snapshotPieces codec budget snapshot)) :
    s.sorted = snapshotPieces codec budget snapshot := by
  have hlt := snapshotPieces_pairwise codec budget snapshot
  refine List.Perm.eq_of_pairwise ?_ s.sorted_pairwise (hlt.imp (fun h => h.le)) (s.sorted_perm.trans h)
  intro a b ha hb hab hba
  have hmem : a ∈ snapshotPieces codec budget snapshot := (s.sorted_perm.trans h).mem_iff.mp ha
  have hnodup : ((snapshotPieces codec budget snapshot).map SnapshotChunk.index).Nodup :=
    List.pairwise_map.mpr (hlt.imp (fun h => h.ne))
  exact List.inj_on_of_nodup_map hnodup hmem hb (le_antisymm hab hba)

/-- **The round trip of a split snapshot.** -/
structure SplitRoundTrip (size : SnapshotChunk → ℕ) : Prop where
  /-- The chunks are numbered in order. -/
  indices : (snapshotPieces codec budget snapshot).map SnapshotChunk.index =
    SnapshotChunks.indices (snapshotPieces codec budget snapshot).length
  /-- None is empty, and none goes past the budget. -/
  filled : ∀ chunk ∈ snapshotPieces codec budget snapshot, (chunk.entities ≠ [] ∨ chunk.state ≠ []) ∧
    packedBytes codec.entity chunk.entities + packedBytes codec.diff chunk.state ≤ budget
  /-- What no frame could carry is counted. -/
  dropped : (splitSnapshot codec budget snapshot).2.2 =
    (snapshot.entities.filter (fun entity => !carries codec.entity budget entity)).length +
      (snapshot.state.filter (fun diff => !carries codec.diff budget diff)).length
  /-- Everything else comes back. -/
  folded : withinSnapshotCaps size (snapshotPieces codec budget snapshot) →
    ∀ arrived, arrived.Perm (snapshotPieces codec budget snapshot) → ∀ welcome : Welcome,
      welcome.snapshot = (splitSnapshot codec budget snapshot).1 →
        welcome.snapshotChunks.getD 0 = (snapshotPieces codec budget snapshot).length →
          let folded := (SnapshotChunks.new.offerAll size arrived).foldInto welcome
          folded.1 = true ∧ folded.2.1 = { welcome with snapshot := carried codec budget snapshot }
  /-- Any other set is refused, and leaves the welcome as it is. -/
  exact : ∀ offered, withinSnapshotCaps size offered → ∀ welcome : Welcome,
    let folded := (SnapshotChunks.new.offerAll size offered).foldInto welcome
    (folded.1 = true ↔
      (offered.map SnapshotChunk.index).Perm (SnapshotChunks.indices (welcome.snapshotChunks.getD 0))) ∧
      (folded.1 = false → folded.2.1 = welcome)

theorem split_round_trip (size : SnapshotChunk → ℕ) : SplitRoundTrip codec budget snapshot size := by
  have hentities := pack_spec codec.entity budget snapshot.entities
  have hstate := pack_spec codec.diff budget snapshot.state
  constructor
  · exact index_snapshotPieces codec budget snapshot
  · intro chunk hchunk
    rw [snapshotPieces_eq, List.mem_append, List.mem_mapIdx, List.mem_mapIdx] at hchunk
    rcases hchunk with ⟨i, hi, rfl⟩ | ⟨i, hi, rfl⟩
    · obtain ⟨hne, hle⟩ := hentities.2.2 _ (List.getElem_mem hi)
      exact ⟨Or.inl hne, hle⟩
    · obtain ⟨hne, hle⟩ := hstate.2.2 _ (List.getElem_mem hi)
      refine ⟨Or.inr hne, ?_⟩
      show 0 + _ ≤ budget
      rwa [Nat.zero_add]
  · show (pack codec.entity budget snapshot.entities).2 + (pack codec.diff budget snapshot.state).2 = _
    rw [hentities.2.1, hstate.2.1]
  · intro hcaps arrived hperm welcome hhead hcount
    have hcaps' : withinSnapshotCaps size arrived :=
      ⟨hperm.length_eq ▸ hcaps.1, (hperm.map size).sum_eq ▸ hcaps.2⟩
    have hheld : (SnapshotChunks.new.offerAll size arrived).held = arrived :=
      SnapshotChunks.held_offerAll_new hcaps'
    have haccepted : ((SnapshotChunks.new.offerAll size arrived).foldInto welcome).1 = true := by
      rw [SnapshotChunks.foldInto_iff, hheld, hcount, ← index_snapshotPieces]
      exact hperm.map _
    have hsorted : (SnapshotChunks.new.offerAll size arrived).sorted = snapshotPieces codec budget snapshot :=
      sorted_arrived codec budget snapshot (by rw [hheld]; exact hperm)
    refine ⟨haccepted, ?_⟩
    rw [SnapshotChunks.foldInto_accepted haccepted, hsorted, flatMap_entities_snapshotPieces,
      flatMap_state_snapshotPieces, hhead]
    simp [splitSnapshot, carried]
  · intro offered hcaps welcome
    have hheld : (SnapshotChunks.new.offerAll size offered).held = offered := SnapshotChunks.held_offerAll_new hcaps
    refine ⟨?_, SnapshotChunks.foldInto_refused⟩
    rw [SnapshotChunks.foldInto_iff, hheld]

/-- Six entities of which a frame carries one. -/
def crowded : WorldSnapshot where
  tick := 0
  entities := (List.range 6).map (fun id => ⟨id, "rock", none, none, [], default, none⟩)
  players := []
  state := []

/-- A codec by which every element takes three megabytes. -/
def heavyCodec : Codec := ⟨fun _ => some 3000000, fun _ => some 3000000, fun _ => some 3000000⟩

/-- What arrives of `crowded`, a chunk taking sixty bytes more than its element. -/
def crowdedArrivals : SnapshotChunks :=
  SnapshotChunks.new.offerAll (fun _ => 3000060) (snapshotPieces heavyCodec maxFramePayloadBytes crowded)

/-- No element is too big for a frame, and still the chunks do not fold: the last is past the bytes
the client buffers. -/
theorem split_short_crowded : carried heavyCodec maxFramePayloadBytes crowded = crowded ∧
    ∀ welcome : Welcome, welcome.snapshot = (splitSnapshot heavyCodec maxFramePayloadBytes crowded).1 →
      welcome.snapshotChunks = some (snapshotPieces heavyCodec maxFramePayloadBytes crowded).length →
        (crowdedArrivals.foldInto welcome).1 = false ∧
          (crowdedArrivals.foldInto welcome).2.1.snapshot.entities = [] := by
  have hpieces : (snapshotPieces heavyCodec maxFramePayloadBytes crowded).length = 6 := by decide
  have hheld : crowdedArrivals.held.length = 5 := by decide
  refine ⟨by decide, fun welcome hhead hcount => ?_⟩
  have hrefused : (crowdedArrivals.foldInto welcome).1 = false := by
    rw [Bool.eq_false_iff, Ne, SnapshotChunks.foldInto_iff, hcount, hpieces]
    intro hperm
    have hlength := hperm.length_eq
    rw [List.length_map, hheld] at hlength
    simp [SnapshotChunks.indices] at hlength
  refine ⟨hrefused, ?_⟩
  rw [SnapshotChunks.foldInto_refused hrefused, hhead]
  rfl

end Grove
