import Grove.Core.Frame
import Grove.Sim.Batch

/-! # Saved progress

What a player's record held at the leave, through the capture, the store and the seed, and what a later join's hoist
and bind make of it.  A declared field starts with the saved value when the type tag of what was saved is that of the
authored initializer, which is so for some pairs of an initializer and a later value only; a wrapper always starts with
what it held. -/

namespace Grove

/-! ### Values through the encoder -/

namespace JsValue

mutual

/-- No entity and no player is in it. -/
def refless : JsValue → Bool
  | .entity _ | .player _ => false
  | .array items => itemsRefless items
  | .object entries => entriesRefless entries
  | _ => true

def itemsRefless : List JsValue → Bool
  | [] => true
  | v :: rest => v.refless && itemsRefless rest

def entriesRefless : List (String × JsValue) → Bool
  | [] => true
  | (_, v) :: rest => v.refless && entriesRefless rest

end

end JsValue

open JsValue

mutual

/-- What was encoded reads back as it was, but for its references. -/
theorem toJs_encode (depth : ℕ) : ∀ (v : JsValue) {j : JsonValue}, encodeStateValue depth v = some j →
    (j.toJs = v ↔ v.refless = true)
  | .null, _, h => by
    cases h
    exact ⟨fun _ => rfl, fun _ => rfl⟩
  | .number (.finite q), _, h => by
    cases h
    exact ⟨fun _ => rfl, fun _ => rfl⟩
  | .string s, _, h => by
    cases h
    exact ⟨fun _ => rfl, fun _ => rfl⟩
  | .boolean b, _, h => by
    cases h
    exact ⟨fun _ => rfl, fun _ => rfl⟩
  | .entity id, _, h => by
    cases h
    exact ⟨nofun, nofun⟩
  | .player id, _, h => by
    cases h
    exact ⟨nofun, nofun⟩
  | .array items, _, h => by
    simp only [encodeStateValue] at h
    split at h
    · cases h
    · obtain ⟨js, hjs, rfl⟩ := Option.map_eq_some_iff.mp h
      have ih := toJs_encodeItems (depth + 1) items hjs
      simp only [JsonValue.toJs, refless, JsValue.array.injEq]
      exact ih
  | .object entries, _, h => by
    simp only [encodeStateValue] at h
    split at h
    · cases h
    · obtain ⟨js, hjs, rfl⟩ := Option.map_eq_some_iff.mp h
      have ih := toJs_encodeEntries (depth + 1) entries hjs
      simp only [JsonValue.toJs, refless, JsValue.object.injEq]
      exact ih

theorem toJs_encodeItems (depth : ℕ) : ∀ (items : List JsValue) {js : List JsonValue}, encodeItems depth items = some js →
    (itemsToJs js = items ↔ itemsRefless items = true)
  | [], _, h => by
    cases h
    exact ⟨fun _ => rfl, fun _ => rfl⟩
  | v :: rest, _, h => by
    simp only [encodeItems] at h
    split at h
    · cases h
    · rename_i j hj
      obtain ⟨js, hjs, rfl⟩ := Option.map_eq_some_iff.mp h
      have ihv := toJs_encode depth v hj
      have ih := toJs_encodeItems depth rest hjs
      simp only [itemsToJs, itemsRefless, List.cons.injEq, Bool.and_eq_true]
      exact and_congr ihv ih

theorem toJs_encodeEntries (depth : ℕ) : ∀ (entries : List (String × JsValue)) {js : List (String × JsonValue)},
    encodeEntries depth entries = some js → (entriesToJs js = entries ↔ entriesRefless entries = true)
  | [], _, h => by
    cases h
    exact ⟨fun _ => rfl, fun _ => rfl⟩
  | (key, v) :: rest, _, h => by
    simp only [encodeEntries] at h
    split at h
    · cases h
    · split at h
      · cases h
      · rename_i j hj
        obtain ⟨js, hjs, rfl⟩ := Option.map_eq_some_iff.mp h
        have ihv := toJs_encode depth v hj
        have ih := toJs_encodeEntries depth rest hjs
        simp only [entriesToJs, entriesRefless, List.cons.injEq, Prod.mk.injEq, true_and, Bool.and_eq_true]
        exact and_congr ihv ih

end

/-- What a record saves of one field. -/
theorem lookup_encodeRecord (r : HostRecord) {field : String} {v : FieldValue} (hv : r.values.get field = some v) :
    OrderedMap.lookup field (encodeRecord r) = encodeHostField r field := by
  have hfield : field ∈ r.values.keys := r.values.mem_keys_iff.mpr ⟨v, hv⟩
  unfold encodeRecord
  generalize r.values.keys = keys at hfield
  have hout : ∀ keys : List String, encodeHostField r field = none →
      OrderedMap.lookup field (keys.filterMap (fun f => (encodeHostField r f).map (fun v => (f, v)))) = none := by
    intro keys hnone
    induction keys with
    | nil => rfl
    | cons k keys ih =>
      rw [List.filterMap_cons]
      cases hk : encodeHostField r k with
      | none => exact ih
      | some j =>
        have hne : k ≠ field := by
          rintro rfl
          rw [hnone] at hk
          cases hk
        simp only [Option.map_some, OrderedMap.lookup, if_neg hne]
        exact ih
  induction keys with
  | nil => exact absurd hfield List.not_mem_nil
  | cons k keys ih =>
    cases hsaved : encodeHostField r field with
    | none => exact hout _ hsaved
    | some j =>
      rw [List.filterMap_cons]
      by_cases hk : k = field
      · subst hk
        simp [hsaved]
      · have hrest := ih ((List.mem_cons.mp hfield).resolve_left (Ne.symm hk))
        rw [hsaved] at hrest
        cases hkj : encodeHostField r k with
        | none => exact hrest
        | some j' =>
          simp only [Option.map_some, OrderedMap.lookup, if_neg hk]
          exact hrest

/-! ### Wrappers through the encoder -/

namespace Wrapper

/-- Of one class, with one declaration's arguments. -/
def SameClass : Wrapper → Wrapper → Prop
  | .scoreboard _, .scoreboard _ => True
  | .leaderboard low _, .leaderboard low' _ => low = low'
  | .inventory owner _, .inventory owner' _ => owner = owner'
  | .team name _, .team name' _ => name = name'
  | _, _ => False

/-- A team's members are a set. -/
def Distinct : Wrapper → Prop
  | .team _ members => members.Nodup
  | _ => True

/-- A map read back entry by entry. -/
theorem readCounts_encode (depth : ℕ) : ∀ (entries : List (String × JsNumber)) {js : List JsonValue} {m : OrderedMap String JsNumber},
    encodeItems depth (entries.map (fun e => .array [.string e.1, .number e.2])) = some js →
    ((m.entries ++ entries).map Prod.fst).Nodup → ∃ m', readCounts js m = some m' ∧ m'.entries = m.entries ++ entries
  | [], _, m, h, _ => by
    cases h
    exact ⟨m, rfl, (List.append_nil _).symm⟩
  | (k, n) :: rest, _, m, h, hnodup => by
    simp only [List.map_cons, encodeItems] at h
    split at h
    · cases h
    · rename_i j hj
      obtain ⟨js, hjs, rfl⟩ := Option.map_eq_some_iff.mp h
      simp only [encodeStateValue] at hj
      split at hj
      · cases hj
      · cases n with
        | finite q =>
          simp only [encodeItems, encodeStateValue, Option.map_some, Option.some.injEq] at hj
          subst hj
          have hnone : OrderedMap.lookup k m.entries = none := by
            cases hl : OrderedMap.lookup k m.entries with
            | none => rfl
            | some n' =>
              have hmem := List.mem_map_of_mem (f := Prod.fst) (OrderedMap.mem_of_lookup hl)
              rw [List.map_append, List.nodup_append] at hnodup
              exact absurd rfl (hnodup.2.2 k hmem k List.mem_cons_self)
          have hset : (m.set k (.finite q)).entries = m.entries ++ [(k, .finite q)] := OrderedMap.setEntries_of_none hnone
          obtain ⟨m', hread, hentries⟩ := readCounts_encode depth rest (m := m.set k (.finite q)) hjs (by
            rw [hset, List.append_assoc]
            exact hnodup)
          refine ⟨m', hread, ?_⟩
          rw [hentries, hset, List.append_assoc]
          rfl
        | nan | posInfinity | negInfinity => simp [encodeItems, encodeStateValue] at hj

theorem readMembers_encode (depth : ℕ) : ∀ (members : List String) {js : List JsonValue} {m : List String},
    encodeItems depth (members.map .string) = some js → (m ++ members).Nodup → readMembers js m = some (m ++ members)
  | [], _, m, h, _ => by
    cases h
    rw [List.append_nil]
    rfl
  | s :: rest, _, m, h, hnodup => by
    simp only [List.map_cons, encodeItems, encodeStateValue] at h
    obtain ⟨js, hjs, rfl⟩ := Option.map_eq_some_iff.mp h
    have hnew : addNew m s = m ++ [s] := by
      unfold addNew
      rw [if_neg]
      intro hmem
      exact absurd rfl ((List.nodup_append.mp hnodup).2.2 s hmem s List.mem_cons_self)
    show readMembers js (addNew m s) = _
    rw [hnew, readMembers_encode depth rest hjs (by rw [List.append_assoc]; exact hnodup), List.append_assoc]
    rfl

theorem restoreCounts_encode (held : OrderedMap String JsNumber) {m : OrderedMap String JsNumber} {data js : JsonValue}
    {kind field : String} {depth : ℕ} (hjs : encodeStateValue depth (countsToJs m) = some js)
    (hkind : prop data "kind" = some (.string kind)) (hfield : prop data field = some js) :
    restoreCounts held data kind field = some m := by
  unfold countsToJs at hjs
  simp only [encodeStateValue] at hjs
  split at hjs
  · cases hjs
  · obtain ⟨items, hitems, rfl⟩ := Option.map_eq_some_iff.mp hjs
    obtain ⟨m', hread, hentries⟩ := readCounts_encode _ m.entries (m := OrderedMap.empty) hitems m.nodup
    unfold restoreCounts
    rw [if_pos hkind, hfield]
    show readCounts items OrderedMap.empty = some m
    rw [hread]
    cases m
    cases m'
    cases hentries
    rfl

theorem encodeEntries_cons {depth : ℕ} {key : String} {v : JsValue} {rest : List (String × JsValue)}
    {js : List (String × JsonValue)} (h : encodeEntries depth ((key, v) :: rest) = some js) :
    ∃ j js', encodeStateValue depth v = some j ∧ encodeEntries depth rest = some js' ∧ js = (key, j) :: js' := by
  simp only [encodeEntries] at h
  split at h
  · cases h
  · split at h
    · cases h
    · rename_i j hj
      obtain ⟨js', hjs', rfl⟩ := Option.map_eq_some_iff.mp h
      exact ⟨j, js', hj, hjs', rfl⟩

/-- An object that names its kind first. -/
theorem encode_kind {kind : String} {rest : List (String × JsValue)} {j : JsonValue}
    (h : encodeStateValue 0 (.object (("kind", .string kind) :: rest)) = some j) :
    ∃ js, encodeEntries 1 rest = some js ∧ j = .object (("kind", .string kind) :: js) := by
  simp only [encodeStateValue] at h
  split at h
  · cases h
  · obtain ⟨js, hjs, rfl⟩ := Option.map_eq_some_iff.mp h
    obtain ⟨k, js', hk, hjs', rfl⟩ := encodeEntries_cons hjs
    cases hk
    exact ⟨js', hjs', rfl⟩

/-- What a wrapper was saved as restores another of its class to it. -/
theorem restore_encode {w w₀ : Wrapper} (hclass : w₀.SameClass w) (hdistinct : w.Distinct) {j : JsonValue}
    (h : encodeStateValue 0 w.serialize = some j) : w₀.restore j = some w := by
  cases w with
  | scoreboard scores =>
    cases w₀ <;> try exact hclass.elim
    rename_i held
    obtain ⟨js, hjs, rfl⟩ := encode_kind h
    obtain ⟨j, js', hj, -, rfl⟩ := encodeEntries_cons hjs
    simp only [restore]
    rw [restoreCounts_encode held hj (by simp [prop]) (by simp [prop])]
    rfl
  | leaderboard owner items | inventory owner items =>
    cases w₀ <;> try exact hclass.elim
    cases hclass
    rename_i held
    obtain ⟨js, hjs, rfl⟩ := encode_kind h
    obtain ⟨jl, js, -, hjs', rfl⟩ := encodeEntries_cons hjs
    obtain ⟨j, js', hj, -, rfl⟩ := encodeEntries_cons hjs'
    simp only [restore]
    rw [restoreCounts_encode held hj (by simp [prop]) (by simp [prop])]
    rfl
  | team name members =>
    cases w₀ <;> try exact hclass.elim
    cases hclass
    obtain ⟨js, hjs, rfl⟩ := encode_kind h
    obtain ⟨jl, js, -, hjs', rfl⟩ := encodeEntries_cons hjs
    obtain ⟨j, js', hj, -, rfl⟩ := encodeEntries_cons hjs'
    simp only [encodeStateValue] at hj
    split at hj
    · cases hj
    · obtain ⟨ms, hms, rfl⟩ := Option.map_eq_some_iff.mp hj
      have hread := readMembers_encode _ members (m := []) hms hdistinct
      simp [restore, prop, hread]

end Wrapper

/-! ### The hoist and the bind -/

namespace Runtime

variable {rt rt' : Runtime} {rid : RecordId}

/-- What a hoist starts a field with. -/
def seedOf (rt : Runtime) (key : HostKey) (field : String) (authored : JsValue) : JsValue :=
  match rt.persistedField key field with
  | some v => if tagsMatch v.toJs.tagOf authored.tagOf then v.toJs else authored
  | none => authored

theorem hoistField_ok {field : String} {authored : JsValue} (h : rt.hoistField rid field authored = .ok rt') :
    field ∉ (rt.hosts.heap rid).hoisted ∧ field ∈ (rt'.hosts.heap rid).hoisted ∧
      (∀ f, f ∈ (rt.hosts.heap rid).hoisted → f ∈ (rt'.hosts.heap rid).hoisted) ∧
      rt'.persisted = rt.persisted ∧ (rt'.hosts.heap rid).hostId = (rt.hosts.heap rid).hostId ∧
      ∀ f, (rt'.hosts.heap rid).values.get f =
        if f = field then some (.plain (rt.seedOf (rt.hosts.heap rid).hostId field authored))
        else (rt.hosts.heap rid).values.get f := by
  unfold hoistField at h
  simp only at h
  split_ifs at h with hdup hname
  obtain rfl := Except.ok.inj h
  have hheap : ∀ r, (rt.hosts.put rid r).heap rid = r := fun r => Function.update_self ..
  refine ⟨fun hmem => hname ?_, ?_, ?_, rfl, ?_, ?_⟩
  · simp [HostRecord.answersTo, hmem]
  · simp [hheap]
  · intro f hf
    simp [hheap, hf]
  · simp [hheap]
  · intro f
    simp only [hheap]
    rw [OrderedMap.get_set]
    rfl

/-- A field hoisted before is never hoisted again. -/
theorem hoistState_hoisted {field : String} : ∀ {fields : List (String × JsValue)} {rt rt' : Runtime},
    hoistState rid fields rt = (rt', none) → field ∈ (rt.hosts.heap rid).hoisted →
    (rt'.hosts.heap rid).values.get field = (rt.hosts.heap rid).values.get field
  | [], _, _, h, _ => by
    cases h
    rfl
  | (f, authored) :: rest, rt, rt', h, hmem => by
    unfold hoistState at h
    split at h
    · cases h
    · rename_i rt₁ hok
      obtain ⟨hnew, -, hkeep, -, -, hget⟩ := hoistField_ok hok
      have hne : field ≠ f := fun heq => hnew (heq ▸ hmem)
      rw [hoistState_hoisted h (hkeep _ hmem), hget, if_neg hne]

/-- Each declared field starts with its seed. -/
theorem hoistState_seeds {field : String} {authored : JsValue} : ∀ {fields : List (String × JsValue)} {rt rt' : Runtime},
    hoistState rid fields rt = (rt', none) → (field, authored) ∈ fields →
    (rt'.hosts.heap rid).values.get field =
      some (.plain (rt.seedOf (rt.hosts.heap rid).hostId field authored))
  | [], _, _, _, hmem => absurd hmem List.not_mem_nil
  | (f, a) :: rest, rt, rt', h, hmem => by
    unfold hoistState at h
    split at h
    · cases h
    · rename_i rt₁ hok
      obtain ⟨-, hhoisted, -, hpersisted, hhost, hget⟩ := hoistField_ok hok
      rcases List.mem_cons.mp hmem with heq | hmem
      · cases heq
        rw [hoistState_hoisted h hhoisted, hget, if_pos rfl]
      · have hseed : ∀ key, rt₁.seedOf key field authored = rt.seedOf key field authored := by
          intro key
          unfold seedOf persistedField
          rw [hpersisted]
        rw [hoistState_seeds h hmem, hseed, hhost]

theorem hoistState_kept : ∀ {fields : List (String × JsValue)} {rt rt' : Runtime},
    hoistState rid fields rt = (rt', none) →
    rt'.persisted = rt.persisted ∧ (rt'.hosts.heap rid).hostId = (rt.hosts.heap rid).hostId
  | [], _, _, h => by
    cases h
    exact ⟨rfl, rfl⟩
  | (f, a) :: rest, rt, rt', h => by
    unfold hoistState at h
    split at h
    · cases h
    · rename_i rt₁ hok
      obtain ⟨-, -, -, hpersisted, hhost, -⟩ := hoistField_ok hok
      obtain ⟨hpersisted', hhost'⟩ := hoistState_kept h
      exact ⟨hpersisted'.trans hpersisted, hhost'.trans hhost⟩

/-- What a bind starts a wrapper with, `none` if the payload does not restore. -/
def refilled (rt : Runtime) (key : HostKey) (field : String) (w : Wrapper) : Option Wrapper :=
  match rt.persistedField key field with
  | some v => w.restore v
  | none => some w

theorem bindWrapper_ok {field : String} {w : Wrapper} (h : rt.bindWrapper rid field w = .ok rt') :
    ∃ w', rt.refilled (rt.hosts.heap rid).hostId field w = some w' ∧ rt'.persisted = rt.persisted ∧
      (rt'.hosts.heap rid).hostId = (rt.hosts.heap rid).hostId ∧
      ∀ f, (rt'.hosts.heap rid).values.get f =
        if f = field then some (.wrapper w') else (rt.hosts.heap rid).values.get f := by
  unfold bindWrapper at h
  simp only at h
  split at h
  · cases h
  · rename_i w' hw
    obtain rfl := Except.ok.inj h
    have hheap : ∀ r, (rt.hosts.put rid r).heap rid = r := fun r => Function.update_self ..
    refine ⟨w', hw, rfl, ?_, fun f => ?_⟩
    · simp [hheap]
    · simp only [hheap]
      rw [OrderedMap.get_set]

theorem bindWrappers_other {field : String} : ∀ {wrappers : List (String × Wrapper)} {rt rt' : Runtime},
    bindWrappers rid wrappers rt = (rt', none) → field ∉ wrappers.map Prod.fst →
    (rt'.hosts.heap rid).values.get field = (rt.hosts.heap rid).values.get field
  | [], _, _, h, _ => by
    cases h
    rfl
  | (f, w) :: rest, rt, rt', h, hmem => by
    unfold bindWrappers at h
    split at h
    · cases h
    · rename_i rt₁ hok
      obtain ⟨w', -, -, -, hget⟩ := bindWrapper_ok hok
      rw [List.map_cons, List.mem_cons, not_or] at hmem
      rw [bindWrappers_other h hmem.2, hget, if_neg hmem.1]

/-- Each wrapper starts with what it is refilled with. -/
theorem bindWrappers_refills {field : String} {w : Wrapper} : ∀ {wrappers : List (String × Wrapper)} {rt rt' : Runtime},
    bindWrappers rid wrappers rt = (rt', none) → (wrappers.map Prod.fst).Nodup → (field, w) ∈ wrappers →
    ∃ w', rt.refilled (rt.hosts.heap rid).hostId field w = some w' ∧
      (rt'.hosts.heap rid).values.get field = some (.wrapper w')
  | [], _, _, _, _, hmem => absurd hmem List.not_mem_nil
  | (f, w₀) :: rest, rt, rt', h, hnodup, hmem => by
    unfold bindWrappers at h
    split at h
    · cases h
    · rename_i rt₁ hok
      obtain ⟨w', hrefill, hpersisted, hhost, hget⟩ := bindWrapper_ok hok
      rw [List.map_cons, List.nodup_cons] at hnodup
      rcases List.mem_cons.mp hmem with heq | hmem
      · cases heq
        exact ⟨w', hrefill, by rw [bindWrappers_other h hnodup.1, hget, if_pos rfl]⟩
      · obtain ⟨w'', hrefill', hget'⟩ := bindWrappers_refills h hnodup.2 hmem
        refine ⟨w'', ?_, hget'⟩
        rw [hhost] at hrefill'
        unfold refilled persistedField at hrefill' ⊢
        rwa [hpersisted] at hrefill'

/-- The persisted records of a later join, seeded with what was captured at the leave. -/
def Rejoins (leaving : HostRecord) (rt : Runtime) : Prop :=
  ∃ records records', rt.persisted = some (SessionRecords.seed records leaving.hostId (SessionRecords.capture records' leaving).1.fields)

/-- Whether the hoist takes what was saved of a declared field. -/
def Taken (field : String) (authored v : JsValue) : Prop :=
  field ∉ reservedKeys ∧ ∃ j, encodeStateValue 0 v = some j ∧ tagsMatch j.toJs.tagOf authored.tagOf = true

theorem persistedField_rejoins {leaving : HostRecord} (h : Rejoins leaving rt) {field : String} {v : FieldValue}
    (hv : leaving.values.get field = some v) :
    rt.persistedField leaving.hostId field = encodeHostField leaving field := by
  obtain ⟨records, records', hp⟩ := h
  unfold persistedField
  rw [hp]
  show (OrderedMap.get (OrderedMap.set records leaving.hostId (encodeRecord leaving)) leaving.hostId).bind
    (OrderedMap.lookup field) = _
  rw [OrderedMap.get_set_self]
  exact lookup_encodeRecord leaving hv

theorem seedOf_rejoins {leaving : HostRecord} (h : Rejoins leaving rt) {field : String} {authored v : JsValue}
    (hv : leaving.values.get field = some (.plain v)) (hencoded : (encodeStateValue 0 v).isSome) :
    rt.seedOf leaving.hostId field authored = v ↔
      (Taken field authored v → v.refless = true) ∧ (¬ Taken field authored v → v = authored) := by
  obtain ⟨j, hj⟩ := Option.isSome_iff_exists.mp hencoded
  have hfield : leaving.serializeHostField field = v := by
    unfold HostRecord.serializeHostField
    rw [hv]
  unfold seedOf
  rw [persistedField_rejoins h hv]
  unfold encodeHostField
  rw [hfield, hj]
  by_cases hreserved : field ∈ reservedKeys
  · have hnot : ¬ Taken field authored v := fun ht => ht.1 hreserved
    rw [if_pos hreserved]
    exact ⟨fun he => ⟨fun ht => absurd ht hnot, fun _ => he.symm⟩, fun hc => (hc.2 hnot).symm⟩
  · rw [if_neg hreserved]
    by_cases htag : tagsMatch j.toJs.tagOf authored.tagOf = true
    · have htaken : Taken field authored v := ⟨hreserved, j, hj, htag⟩
      simp only [if_pos htag]
      rw [toJs_encode 0 v hj]
      exact ⟨fun he => ⟨fun _ => he, fun hn => absurd htaken hn⟩, fun hc => hc.1 htaken⟩
    · have hnot : ¬ Taken field authored v := by
        rintro ⟨-, j', hj', htag'⟩
        rw [hj] at hj'
        cases hj'
        exact htag htag'
      simp only [if_neg htag]
      exact ⟨fun he => ⟨fun ht => absurd ht hnot, fun _ => he.symm⟩, fun hc => (hc.2 hnot).symm⟩

theorem refilled_rejoins {leaving : HostRecord} (h : Rejoins leaving rt) {field : String} {w₀ w : Wrapper}
    (hv : leaving.values.get field = some (.wrapper w)) (hclass : w₀.SameClass w) (hdistinct : w.Distinct)
    (hencoded : (encodeStateValue 0 w.serialize).isSome) :
    rt.refilled leaving.hostId field w₀ = some (if field ∈ reservedKeys then w₀ else w) := by
  obtain ⟨j, hj⟩ := Option.isSome_iff_exists.mp hencoded
  have hfield : leaving.serializeHostField field = w.serialize := by
    unfold HostRecord.serializeHostField
    rw [hv]
  unfold refilled
  rw [persistedField_rejoins h hv]
  unfold encodeHostField
  rw [hfield, hj]
  by_cases hreserved : field ∈ reservedKeys
  · rw [if_pos hreserved, if_pos hreserved]
  · rw [if_neg hreserved, if_neg hreserved]
    exact Wrapper.restore_encode hclass hdistinct hj

/-- Which of a class's fields and wrappers a record starts with as they were at the leave: a declared field exactly when
the hoist takes what was saved and it has no reference in it, or does not take it and the value is the authored one; a
bound wrapper unless its name is never saved. -/
structure Restored (leaving : HostRecord) (klass : ScriptClass) (record : HostRecord) : Prop where
  fields : ∀ {field authored v}, (field, authored) ∈ klass.fields → field ∉ klass.wrappers.map Prod.fst →
    leaving.values.get field = some (.plain v) → (encodeStateValue 0 v).isSome →
    (record.values.get field = some (.plain v) ↔
      (Taken field authored v → v.refless = true) ∧ (¬ Taken field authored v → v = authored))
  wrappers : ∀ {field w₀ w}, (field, w₀) ∈ klass.wrappers → leaving.values.get field = some (.wrapper w) →
    w₀.SameClass w → w.Distinct → (encodeStateValue 0 w.serialize).isSome →
    (record.values.get field = some (.wrapper w) ↔ field ∉ reservedKeys ∨ w = w₀)

/-- **Saved progress.**  What a later join of the player starts with. -/
theorem progress_restored {leaving : HostRecord} {id : PlayerId} (hplayer : leaving.hostId = .player id) {klass : ScriptClass}
    {inst : ScriptInstance} (hkeyed : rt.hosts.Keyed) (hrejoins : Rejoins leaving rt)
    (hnames : (klass.wrappers.map Prod.fst).Nodup) (hattach : rt.attach (.player id) klass inst = (rt', none)) :
    ∃ record, rt'.hosts.record (.player id) = some record ∧ Restored leaving klass record := by
  unfold attach at hattach
  simp only at hattach
  split at hattach
  · rename_i hnone
    have hsome := rt.hosts.isSome_get_ensure (.player id)
    rw [hnone] at hsome
    cases hsome
  · rename_i rid hrid
    have hensured : (rt.hosts.ensure (.player id)).Keyed := (HostTable.ensure_extends _ _).keyed hkeyed
    have hhost : ((rt.hosts.ensure (.player id)).heap rid).hostId = leaving.hostId :=
      (hensured _ _ hrid).2.trans hplayer.symm
    split at hattach
    · cases hattach
    · rename_i rt₁ hhoist
      split at hattach
      · cases hattach
      · rename_i rt₂ hbind
        cases hattach
        obtain ⟨hpersisted, hhost₁⟩ := hoistState_kept hhoist
        have hframe := (hoistState_hosted rid klass.fields { rt with hosts := rt.hosts.ensure (.player id) }).hosts
        rw [hhoist] at hframe
        have hframe' := (bindWrappers_hosted rid klass.wrappers rt₁).hosts
        rw [hbind] at hframe'
        have hget := hframe'.player id rid (hframe.player id rid hrid)
        have hrejoins' : Rejoins leaving { rt with hosts := rt.hosts.ensure (.player id) } := hrejoins
        have hrejoins₁ : Rejoins leaving rt₁ := by
          obtain ⟨records, records', hp⟩ := hrejoins
          exact ⟨records, records', hpersisted.trans hp⟩
        refine ⟨rt₂.hosts.heap rid, ?_, ?_, ?_⟩
        · show (rt₂.hosts.get (.player id)).map rt₂.hosts.heap = _
          rw [hget]
          rfl
        · intro field authored v hmem hnot hv hencoded
          rw [bindWrappers_other hbind hnot, hoistState_seeds hhoist hmem]
          show some (FieldValue.plain (seedOf _ ((rt.hosts.ensure (.player id)).heap rid).hostId field authored)) = _ ↔ _
          rw [hhost, Option.some.injEq, FieldValue.plain.injEq]
          exact seedOf_rejoins hrejoins' hv hencoded
        · intro field w₀ w hmem hv hclass hdistinct hencoded
          obtain ⟨w', hrefill, hvalue⟩ := bindWrappers_refills hbind hnames hmem
          have hrid₁ : (rt₁.hosts.heap rid).hostId = leaving.hostId := hhost₁.trans hhost
          rw [hrid₁, refilled_rejoins hrejoins₁ hv hclass hdistinct hencoded, Option.some.injEq] at hrefill
          rw [hvalue, ← hrefill, Option.some.injEq, FieldValue.wrapper.injEq]
          by_cases hreserved : field ∈ reservedKeys
          · rw [if_pos hreserved]
            exact ⟨fun he => Or.inr he.symm, fun h => (h.resolve_left (fun hn => hn hreserved)).symm⟩
          · rw [if_neg hreserved]
            exact ⟨fun _ => Or.inl hreserved, fun _ => rfl⟩

/-! ### Two joins -/

/-- A player who leaves with a best time of 5, on a field declared `null`. -/
def bestTime : HostRecord :=
  { createHostRecord (.player "u") with values := ⟨[("best", .plain (.number (.finite 5)))], by decide⟩ }

/-- The world that player joins later. -/
def laterWorld : Runtime :=
  new (some (SessionRecords.seed OrderedMap.empty (.player "u") (SessionRecords.capture OrderedMap.empty bestTime).1.fields))
    (fun _ => []) 60

/-- A class that declares `best` with an initial value. -/
def declaresBest (authored : JsValue) : ScriptClass := ⟨[("best", authored)], []⟩

theorem progress_restored_zero :
    ∃ record, (laterWorld.attach (.player "u") (declaresBest (.number (.finite 0))) ⟨none, none⟩).1.hosts.record (.player "u") =
        some record ∧ Restored bestTime (declaresBest (.number (.finite 0))) record :=
  have hkeyed : laterWorld.hosts.Keyed := fun _ _ h => nomatch (show none = some _ from h)
  have hattach : laterWorld.attach (.player "u") (declaresBest (.number (.finite 0))) ⟨none, none⟩ =
    ((laterWorld.attach (.player "u") (declaresBest (.number (.finite 0))) ⟨none, none⟩).1, none) := rfl
  progress_restored rfl hkeyed ⟨_, _, rfl⟩ List.nodup_nil hattach

/-- The saved 5 is dropped: its tag is a number's, the initializer's is null's. -/
theorem later_value_lost :
    (laterWorld.attach (.player "u") (declaresBest .null) ⟨none, none⟩).2 = none ∧
      ∃ record, (laterWorld.attach (.player "u") (declaresBest .null) ⟨none, none⟩).1.hosts.record (.player "u") = some record ∧
        bestTime.values.get "best" = some (.plain (.number (.finite 5))) ∧
        record.values.get "best" ≠ some (.plain (.number (.finite 5))) := by
  refine ⟨rfl, _, rfl, rfl, ?_⟩
  intro h
  have hnull : ((laterWorld.attach (.player "u") (declaresBest .null) ⟨none, none⟩).1.hosts.heap 0).values.get "best" =
      some (.plain .null) := rfl
  have h := hnull.symm.trans h
  cases h

end Runtime

end Grove
