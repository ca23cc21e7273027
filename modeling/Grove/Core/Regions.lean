import Grove.Core.Contacts
import Grove.Lib.Edges
import Grove.Lib.Run

/-! # Regions, and the contacts of successive ticks

`packages/core/src/runtime/regions.ts`, and `ContactSource.entered` of `runtime/contacts.ts`.  Each keeps the
membership of the last tick and reports the difference: a region the entries and the exits of the entities inside it,
the contacts the pairs that are new. -/

namespace Grove

/-- The edges of a rectangle count, whichever way it was authored. -/
def boundsContains (b : Bounds) (x y : JsNumber) : Bool :=
  let inX := (JsNumber.min b.left b.right).atMost x && x.atMost (JsNumber.max b.left b.right)
  let inY := (JsNumber.min b.top b.bottom).atMost y && y.atMost (JsNumber.max b.top b.bottom)
  inX && inY

/-- One entity crossing one region's edge. -/
structure RegionCrossing where
  region : String
  id : EntityId
  entered : Bool
deriving DecidableEq

structure RegionIndex where
  regions : OrderedMap String Bounds
  /-- The membership of the last tick. -/
  occupants : OrderedMap String (List EntityId)

/-- What a tick reads: the live ids, each once, and where they are. -/
structure RegionTick where
  ids : List EntityId
  nodup : ids.Nodup
  posX : EntityId → JsNumber
  posY : EntityId → JsNumber

/-- Who is inside a rectangle. -/
def RegionTick.inside (t : RegionTick) (bounds : Bounds) : List EntityId :=
  t.ids.filter (fun id => boundsContains bounds (t.posX id) (t.posY id))

namespace RegionIndex

def empty : RegionIndex := ⟨OrderedMap.empty, OrderedMap.empty⟩

def define (x : RegionIndex) (name : String) (bounds : Bounds) : RegionIndex :=
  ⟨x.regions.set name bounds, x.occupants.set name []⟩

/-- The regions of a manifest. -/
def build (defined : List (String × Bounds)) : RegionIndex := defined.foldl (fun x e => x.define e.1 e.2) empty

/-- The first loop over one region: who is present, and the entries. -/
def arrivals (t : RegionTick) (region : String) (bounds : Bounds) (was : List EntityId) :
    List EntityId × List RegionCrossing → List EntityId → List EntityId × List RegionCrossing
  | s, [] => s
  | (present, out), id :: ids =>
    if boundsContains bounds (t.posX id) (t.posY id) then
      arrivals t region bounds was
        (addNew present id, if id ∈ was then out else out ++ [⟨region, id, true⟩]) ids
    else arrivals t region bounds was (present, out) ids

/-- One region: its arrivals, its departures, and the membership that replaces the last. -/
def crossRegion (t : RegionTick) (s : OrderedMap String (List EntityId) × List RegionCrossing) (e : String × Bounds) :
    OrderedMap String (List EntityId) × List RegionCrossing :=
  let was := (s.1.get e.1).getD []
  let (present, out) := arrivals t e.1 e.2 was ([], s.2) t.ids
  (s.1.set e.1 present, out ++ (was.filter (· ∉ present)).map (fun id => ⟨e.1, id, false⟩))

/-- Folds the tick's membership and reports the crossings. -/
def crossings (x : RegionIndex) (t : RegionTick) : List RegionCrossing × RegionIndex :=
  let s := x.regions.entries.foldl (crossRegion t) (x.occupants, [])
  (s.2, { x with occupants := s.1 })

/-! ### One tick -/

section tick
variable {t : RegionTick} {region : String} {bounds : Bounds} {was : List EntityId}

theorem arrivals_eq : ∀ (ids : List EntityId) (present : List EntityId) (out : List RegionCrossing),
    (present ++ ids).Nodup →
    arrivals t region bounds was (present, out) ids =
      (present ++ ids.filter (fun id => boundsContains bounds (t.posX id) (t.posY id)),
        out ++ ((ids.filter (fun id => boundsContains bounds (t.posX id) (t.posY id))).filter (· ∉ was)).map
          (fun id => ⟨region, id, true⟩))
  | [], present, out, _ => by simp [arrivals]
  | id :: ids, present, out, hnodup => by
    have hfresh : id ∉ present := fun hmem =>
      (List.nodup_append.mp hnodup).2.2 id hmem id List.mem_cons_self rfl
    unfold arrivals
    split_ifs with hin hwas
    · have hadd : addNew present id = present ++ [id] := if_neg hfresh
      rw [hadd, arrivals_eq ids _ _ (by simpa using hnodup)]
      simp [hin, hwas]
    · have hadd : addNew present id = present ++ [id] := if_neg hfresh
      rw [hadd, arrivals_eq ids _ _ (by simpa using hnodup)]
      simp [hin, hwas]
    · have hrest : (present ++ ids).Nodup :=
        hnodup.sublist (List.Sublist.append_left (List.sublist_cons_self id ids) present)
      rw [arrivals_eq ids _ _ hrest]
      simp [hin]

/-- The crossings of one region, as edges of its membership. -/
def edgesIn (region : String) (cs : List RegionCrossing) : List (EntityId × Bool) :=
  (cs.filter (fun c => c.region = region)).map (fun c => (c.id, c.entered))

theorem edgesIn_append (region : String) (cs cs' : List RegionCrossing) :
    edgesIn region (cs ++ cs') = edgesIn region cs ++ edgesIn region cs' := by
  rw [edgesIn, List.filter_append, List.map_append]
  rfl

theorem edgesIn_map (region name : String) (entered : Bool) (ids : List EntityId) :
    edgesIn region (ids.map (fun id => ⟨name, id, entered⟩)) = if name = region then ids.map (·, entered) else [] := by
  rw [edgesIn, List.filter_map, List.map_map]
  split_ifs with h
  · rw [List.filter_eq_self.mpr fun _ _ => by simpa using h]
    rfl
  · rw [List.filter_eq_nil_iff.mpr fun _ _ => by simpa using h]
    rfl

theorem crossRegion_eq (s : OrderedMap String (List EntityId) × List RegionCrossing) (e : String × Bounds) :
    crossRegion t s e = (s.1.set e.1 (t.inside e.2),
      s.2 ++ ((t.inside e.2).filter (· ∉ (s.1.get e.1).getD [])).map (fun id => ⟨e.1, id, true⟩) ++
        (((s.1.get e.1).getD []).filter (· ∉ t.inside e.2)).map (fun id => ⟨e.1, id, false⟩)) := by
  rw [crossRegion, arrivals_eq t.ids [] s.2 t.nodup]
  rfl

/-- The walk over the regions reaches each once. -/
theorem crossRegions (region : String) : ∀ (entries : List (String × Bounds))
    (s : OrderedMap String (List EntityId) × List RegionCrossing), (entries.map Prod.fst).Nodup →
    let s' := entries.foldl (crossRegion t) s
    (region ∉ entries.map Prod.fst → s'.1.get region = s.1.get region ∧ edgesIn region s'.2 = edgesIn region s.2) ∧
      ∀ bounds, (region, bounds) ∈ entries → s'.1.get region = some (t.inside bounds) ∧
        edgesIn region s'.2 = edgesIn region s.2 ++ edges ((s.1.get region).getD []) (t.inside bounds)
  | [], s, _ => ⟨fun _ => ⟨rfl, rfl⟩, fun _ h => absurd h List.not_mem_nil⟩
  | (name, rect) :: entries, s, hnodup => by
    obtain ⟨hname, hrest⟩ := List.nodup_cons.mp hnodup
    obtain ⟨hout, hin⟩ := crossRegions region entries (crossRegion t s (name, rect)) hrest
    have hstep : ((crossRegion t s (name, rect)).1.get region = if region = name then some (t.inside rect) else
        s.1.get region) ∧ edgesIn region (crossRegion t s (name, rect)).2 = edgesIn region s.2 ++
        if name = region then edges ((s.1.get name).getD []) (t.inside rect) else [] := by
      rw [crossRegion_eq]
      refine ⟨OrderedMap.get_set _ _ _ _, ?_⟩
      rw [edgesIn_append, edgesIn_append, edgesIn_map, edgesIn_map, List.append_assoc]
      split_ifs
      · rfl
      · rfl
    rw [List.foldl_cons]
    constructor
    · intro hnot
      rw [List.map_cons, List.mem_cons, not_or] at hnot
      obtain ⟨hget, hedges⟩ := hout hnot.2
      rw [if_neg hnot.1] at hstep
      rw [if_neg (Ne.symm hnot.1), List.append_nil] at hstep
      exact ⟨hget.trans hstep.1, hedges.trans hstep.2⟩
    · intro bounds hmem
      obtain heq | hlater := List.mem_cons.mp hmem
      · obtain ⟨rfl, rfl⟩ := Prod.mk.inj heq
        obtain ⟨hget, hedges⟩ := hout hname
        rw [if_pos rfl] at hstep
        rw [if_pos rfl] at hstep
        exact ⟨hget.trans hstep.1, hedges.trans hstep.2⟩
      · have hne : region ≠ name := by
          rintro rfl
          exact hname (List.mem_map.mpr ⟨_, hlater, rfl⟩)
        obtain ⟨hget, hedges⟩ := hin bounds hlater
        rw [if_neg hne] at hstep
        rw [if_neg hne.symm, List.append_nil] at hstep
        rw [hstep.1, hstep.2] at hedges
        exact ⟨hget, hedges⟩

end tick

/-! ### Every tick -/

/-- An index, and all it has reported. -/
structure Reported where
  index : RegionIndex
  events : List RegionCrossing

def Reported.step (s : Reported) (t : RegionTick) : Reported :=
  ⟨(s.index.crossings t).2, s.events ++ (s.index.crossings t).1⟩

/-- Who is inside on the last tick. -/
def insideLast (bounds : Bounds) (ticks : List RegionTick) : List EntityId :=
  ticks.getLast?.elim [] (fun t => t.inside bounds)

theorem occupants_build (defined : List (String × Bounds)) (region : String) :
    ((build defined).occupants.get region).getD [] = [] := by
  have hrun : ∀ x : RegionIndex, (x.occupants.get region).getD [] = [] →
      ((defined.foldl (fun x e => x.define e.1 e.2) x).occupants.get region).getD [] = [] := by
    induction defined with
    | nil => exact fun _ h => h
    | cons e defined ih =>
      intro x hx
      refine ih _ ?_
      show ((x.occupants.set e.1 []).get region).getD [] = []
      rw [OrderedMap.get_set]
      split_ifs
      · rfl
      · exact hx
  exact hrun empty rfl

theorem nodup_insideLast (bounds : Bounds) (ticks : List RegionTick) : (insideLast bounds ticks).Nodup := by
  unfold insideLast
  cases ticks.getLast? with
  | none => exact List.nodup_nil
  | some t => exact t.nodup.filter _

/-- Each tick's crossings of a region are the edges from the membership of the tick before. -/
theorem replays_run {start : RegionIndex} {region : String} {bounds : Bounds}
    (hregion : start.regions.get region = some bounds) (hnone : (start.occupants.get region).getD [] = [])
    (ticks : List RegionTick) :
    let s := exec Reported.step ⟨start, []⟩ ticks
    s.index.regions = start.regions ∧ (s.index.occupants.get region).getD [] = insideLast bounds ticks ∧
      Replays (edgesIn region s.events) (insideLast bounds ticks) := by
  induction ticks using List.reverseRecOn with
  | nil => exact ⟨rfl, hnone, replays_nil⟩
  | append_singleton ticks t ih =>
    obtain ⟨hregions, hoccupants, hreplays⟩ := ih
    rw [exec_append, exec_cons, exec_nil]
    generalize exec Reported.step ⟨start, []⟩ ticks = s at *
    have hmem : (region, bounds) ∈ s.index.regions.entries := by
      rw [OrderedMap.mem_entries_iff, hregions]
      exact hregion
    obtain ⟨hget, hedges⟩ := (crossRegions (t := t) region s.index.regions.entries (s.index.occupants, [])
      s.index.regions.nodup).2 bounds hmem
    have hlast : insideLast bounds (ticks ++ [t]) = t.inside bounds := by
      rw [insideLast, List.getLast?_concat]
      rfl
    rw [hlast]
    refine ⟨hregions, ?_, ?_⟩
    · show ((s.index.crossings t).2.occupants.get region).getD [] = _
      exact congrArg (·.getD []) hget
    · show Replays (edgesIn region (s.events ++ (s.index.crossings t).1)) _
      have hcrossed : edgesIn region (s.index.crossings t).1 =
          edges (insideLast bounds ticks) (t.inside bounds) := by
        rw [← hoccupants]
        exact hedges
      rw [edgesIn_append, hcrossed]
      exact hreplays.append (nodup_insideLast bounds ticks) (t.nodup.filter _)

end RegionIndex

/-! ### Pairs that are new -/

/-- The membership of the last tick, by key, and the set that is filled next. -/
structure ContactSource where
  previous : List String
  current : List String

namespace ContactSource

def new : ContactSource := ⟨[], []⟩

def key (p : EntityId × EntityId) : String := toString p.1 ++ ":" ++ toString p.2

/-- The pairs that began to overlap; the two sets change places. -/
def entered (round : ℚ → JsNumber) (s : ContactSource) (w : ContactWorld) : List (EntityId × EntityId) × ContactSource :=
  ((w.pairs round).filter (fun p => key p ∉ s.previous),
    { previous := (w.pairs round).foldl (fun current p => addNew current (key p)) [], current := [] })

theorem key_injective : Function.Injective key := by
  rintro ⟨a, b⟩ ⟨a', b'⟩ h
  have hdigits : ∀ n : ℕ, ':' ∉ Nat.toDigits 10 n := fun n hmem =>
    absurd (Nat.isDigit_of_mem_toDigits (by decide) (by decide) hmem) (by decide)
  have hinj : ∀ {n m : ℕ}, Nat.toDigits 10 n = Nat.toDigits 10 m → n = m := fun {n m} heq => by
    rw [← Nat.ofDigitChars_toDigits (b := 10) (n := n) (by decide) (by decide), heq,
      Nat.ofDigitChars_toDigits (by decide) (by decide)]
  have hlist : Nat.toDigits 10 a ++ ':' :: Nat.toDigits 10 b = Nat.toDigits 10 a' ++ ':' :: Nat.toDigits 10 b' := by
    have hchars := congrArg String.toList h
    simpa [key, Nat.toList_repr] using hchars
  obtain ⟨hfirst, -, hsecond⟩ := (List.append_cons_inj_of_notMem (hdigits a) (hdigits b)).mp hlist
  rw [hinj hfirst, hinj hsecond]

theorem mem_foldl_addNew {pairs : List (EntityId × EntityId)} {k : String} : ∀ {seen : List String},
    k ∈ pairs.foldl (fun current p => addNew current (key p)) seen ↔ k ∈ seen ∨ ∃ p ∈ pairs, key p = k := by
  induction pairs with
  | nil => simp
  | cons p pairs ih =>
    intro seen
    rw [List.foldl_cons, ih, mem_addNew, or_assoc, List.exists_mem_cons_iff, eq_comm (a := k)]

/-- The two entities are in the list as a pair. -/
def Listed (pairs : List (EntityId × EntityId)) (a b : EntityId) : Prop := (a, b) ∈ pairs ∨ (b, a) ∈ pairs

/-- The pairs of the last tick. -/
def pairsLast (round : ℚ → JsNumber) (ws : List ContactWorld) : List (EntityId × EntityId) :=
  ws.getLast?.elim [] (fun w => w.pairs round)

theorem mem_previous (round : ℚ → JsNumber) (ws : List ContactWorld) (p : EntityId × EntityId) :
    key p ∈ (exec (fun s w => (entered round s w).2) new ws).previous ↔ p ∈ pairsLast round ws := by
  induction ws using List.reverseRecOn with
  | nil => simp [new, pairsLast]
  | append_singleton ws w _ =>
    rw [exec_append, exec_cons, exec_nil, pairsLast, List.getLast?_concat]
    show key p ∈ (w.pairs round).foldl (fun current p => addNew current (key p)) [] ↔ p ∈ w.pairs round
    rw [mem_foldl_addNew]
    simp [key_injective.eq_iff]

/-- A pair is listed with the lower slot first, so it is in one order on every tick. -/
theorem slots_of_pairsLast {round : ℚ → JsNumber} {ws : List ContactWorld} {a b : EntityId}
    (h : (a, b) ∈ pairsLast round ws) : handleIndex a < handleIndex b := by
  unfold pairsLast at h
  cases hlast : ws.getLast? with
  | none =>
    rw [hlast] at h
    exact absurd h List.not_mem_nil
  | some w =>
    rw [hlast] at h
    exact (ContactWorld.mem_pairs.mp h).2.2.1

theorem mem_entered {round : ℚ → JsNumber} {ws : List ContactWorld} {w : ContactWorld} {a b : EntityId} :
    (a, b) ∈ (entered round (exec (fun s w => (entered round s w).2) new ws) w).1 ↔
      (a, b) ∈ w.pairs round ∧ ¬ Listed (pairsLast round ws) a b := by
  show (a, b) ∈ (w.pairs round).filter _ ↔ _
  rw [List.mem_filter, decide_eq_true_eq, mem_previous, Listed]
  refine and_congr_right fun hpair => not_congr (or_iff_left fun hother => ?_).symm
  have hlt := (ContactWorld.mem_pairs.mp hpair).2.2.1
  have hgt := slots_of_pairsLast hother
  omega

end ContactSource

/-- **Enter and exit edges replay to membership**: over any run of ticks the crossings of a region alternate for each
entity, an entry first, and replay to who is inside on the last tick; and a pair of entities is reported when it is a
pair of this tick and was none on the last. -/
theorem edges_replay :
    (∀ (defined : List (String × Bounds)) (ticks : List RegionTick) (region : String) (bounds : Bounds),
      (RegionIndex.build defined).regions.get region = some bounds →
      let events := RegionIndex.edgesIn region
        (exec RegionIndex.Reported.step ⟨RegionIndex.build defined, []⟩ ticks).events
      ∀ id, Alternates (edgesFor id events) ∧ (id ∈ replay events ↔ id ∈ RegionIndex.insideLast bounds ticks)) ∧
    ∀ (round : ℚ → JsNumber) (ws : List ContactWorld) (w : ContactWorld) (a b : EntityId),
      ContactSource.Listed (ContactSource.entered round
          (exec (fun s w => (ContactSource.entered round s w).2) ContactSource.new ws) w).1 a b ↔
        ContactSource.Listed (w.pairs round) a b ∧ ¬ ContactSource.Listed (ContactSource.pairsLast round ws) a b := by
  refine ⟨fun defined ticks region bounds hregion => ?_, fun round ws w a b => ?_⟩
  · exact (RegionIndex.replays_run hregion (RegionIndex.occupants_build defined region) ticks).2.2
  · have hswap : ContactSource.Listed (ContactSource.pairsLast round ws) b a ↔
        ContactSource.Listed (ContactSource.pairsLast round ws) a b := or_comm
    rw [ContactSource.Listed, ContactSource.mem_entered, ContactSource.mem_entered, hswap,
      ← or_and_right]
    exact Iff.rfl

/-- One entity walks through a doorway and out of it. -/
theorem edges_replay_doorway :
    let tick (x : ℚ) : RegionTick := ⟨[16777216], by decide, fun _ => .finite x, fun _ => .finite 0⟩
    let doorway : Bounds := ⟨.finite 0, .finite 2, .finite 1, .finite (-1)⟩
    let events := RegionIndex.edgesIn "doorway"
      (exec RegionIndex.Reported.step ⟨RegionIndex.build [("doorway", doorway)], []⟩ [tick (-1), tick 1, tick 3]).events
    events.length = 2 ∧ Alternates (edgesFor 16777216 events) ∧
      (16777216 ∈ replay events ↔ 16777216 ∈ RegionIndex.insideLast doorway [tick (-1), tick 1, tick 3]) := by
  intro tick doorway events
  exact ⟨by decide +kernel, edges_replay.1 [("doorway", doorway)] [tick (-1), tick 1, tick 3] "doorway" doorway rfl 16777216⟩

end Grove
