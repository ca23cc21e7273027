import Grove.Core.Numbers
import Grove.Sim.Progress
import Grove.Transport.CodecDirections

/-! # A host field on the mirror

What a `@serverState` field or a bound wrapper of the authority becomes on a mirror: the field's wire
form goes through the codec and lands on the mirror's record.  A wrapper that the mirror holds is
refilled and never replaced, so what a field held before decides what its next value becomes. -/

namespace Grove

/-! ### The wrappers' methods -/

namespace Wrapper

/-- A call of a mutating method. -/
inductive Mutation where
  | add (amount : JsNumber) (player : PlayerId)
  | set (amount : JsNumber) (player : PlayerId)
  | reset
  | submit (score : JsNumber) (player : PlayerId)
  | addItem (item : String) (count : JsNumber)
  | removeItem (item : String) (count : JsNumber)
  | clear
  | addMember (player : PlayerId)
  | removeMember (player : PlayerId)

/-- A class without the method is left alone. -/
def mutate (round : ℚ → JsNumber) : Mutation → Wrapper → Wrapper
  | .add amount player, .scoreboard scores =>
    .scoreboard (scores.set player (((scores.get player).getD (.finite 0)).add round amount))
  | .set amount player, .scoreboard scores => .scoreboard (scores.set player amount)
  | .reset, .scoreboard _ => .scoreboard OrderedMap.empty
  | .submit score player, .leaderboard low scores =>
    let better := match scores.get player with
      | none => true
      | some prev => if low then score.less prev else prev.less score
    if better then .leaderboard low (scores.set player score) else .leaderboard low scores
  | .addItem item count, .inventory player items =>
    .inventory player (items.set item (((items.get item).getD (.finite 0)).add round count))
  | .removeItem item count, .inventory player items =>
    let next := ((items.get item).getD (.finite 0)).add round count.neg
    if next = .finite 0 ∨ next.less (.finite 0) then .inventory player (items.delete item)
    else .inventory player (items.set item next)
  | .clear, .inventory player _ => .inventory player OrderedMap.empty
  | .addMember player, .team name members => .team name (addNew members player)
  | .removeMember player, .team name members => .team name (members.filter (· ≠ player))
  | _, w => w

/-- What a wrapper becomes, from its constructor on. -/
inductive Reachable (round : ℚ → JsNumber) : Wrapper → Prop where
  | scoreboard : Reachable round (.scoreboard OrderedMap.empty)
  | leaderboard (low : Bool) : Reachable round (.leaderboard low OrderedMap.empty)
  | inventory (player : PlayerId) : Reachable round (.inventory player OrderedMap.empty)
  | team (name : String) : Reachable round (.team name [])
  | mutate {w : Wrapper} (m : Mutation) (h : Reachable round w) : Reachable round (w.mutate round m)

/-- All its numbers are finite. -/
def Finite : Wrapper → Prop
  | .scoreboard counts | .leaderboard _ counts | .inventory _ counts => ∀ e ∈ counts.entries, e.2.isFinite = true
  | .team _ _ => True

theorem distinct_mutate (round : ℚ → JsNumber) (m : Mutation) {w : Wrapper} (h : w.Distinct) : (w.mutate round m).Distinct := by
  cases w with
  | team name members =>
    cases m with
    | addMember player => exact nodup_addNew h player
    | removeMember player => exact List.Nodup.filter _ h
    | _ => exact h
  | scoreboard scores => cases m <;> trivial
  | leaderboard low scores =>
    cases m with
    | submit score player =>
      simp only [mutate]
      split_ifs <;> trivial
    | _ => trivial
  | inventory player items =>
    cases m with
    | removeItem item count =>
      simp only [mutate]
      split_ifs <;> trivial
    | _ => trivial

theorem Reachable.distinct {round : ℚ → JsNumber} {w : Wrapper} (h : w.Reachable round) : w.Distinct := by
  induction h with
  | scoreboard | leaderboard | inventory => trivial
  | team name => exact List.nodup_nil
  | mutate m _ ih => exact distinct_mutate round m ih

/-! ### The wire forms -/

theorem encode_counts {m : OrderedMap String JsNumber} (h : ∀ e ∈ m.entries, e.2.isFinite = true) {depth : ℕ}
    (hdepth : depth + 2 ≤ maxStateDepth) : ∃ j, encodeStateValue depth (countsToJs m) = some j := by
  have hitems : ∀ entries : List (String × JsNumber), (∀ e ∈ entries, e.2.isFinite = true) →
      ∃ js, encodeItems (depth + 1) (entries.map (fun e => .array [.string e.1, .number e.2])) = some js := by
    intro entries hfinite
    induction entries with
    | nil => exact ⟨[], rfl⟩
    | cons e entries ih =>
      obtain ⟨js, hjs⟩ := ih fun e' he' => hfinite e' (List.mem_cons_of_mem _ he')
      obtain ⟨key, n⟩ := e
      have hn : n.isFinite = true := hfinite (key, n) List.mem_cons_self
      cases n with
      | finite q =>
        have hroom : ¬ maxStateDepth ≤ depth + 1 := by omega
        simp [encodeItems, encodeStateValue, hjs, hroom]
      | nan | posInfinity | negInfinity => cases hn
  obtain ⟨js, hjs⟩ := hitems m.entries h
  have hroom : ¬ maxStateDepth ≤ depth := by omega
  exact ⟨.array js, by simp [countsToJs, encodeStateValue, hjs, hroom]⟩

theorem encode_members (members : List String) (depth : ℕ) : ∃ js, encodeItems depth (members.map .string) = some js := by
  induction members with
  | nil => exact ⟨[], rfl⟩
  | cons s members ih =>
    obtain ⟨js, hjs⟩ := ih
    exact ⟨.string s :: js, by simp [encodeItems, encodeStateValue, hjs]⟩

/-- A wrapper of finite numbers has a wire form. -/
theorem encode_serialize {w : Wrapper} (h : w.Finite) : ∃ j, encodeStateValue 0 w.serialize = some j := by
  cases w with
  | scoreboard counts =>
    obtain ⟨j, hj⟩ := encode_counts h (show 1 + 2 ≤ maxStateDepth by decide)
    exact ⟨_, by simp [serialize, encodeStateValue, encodeEntries, hj, reservedKeys, maxStateDepth]; rfl⟩
  | leaderboard player counts | inventory player counts =>
    obtain ⟨j, hj⟩ := encode_counts h (show 1 + 2 ≤ maxStateDepth by decide)
    exact ⟨_, by simp [serialize, encodeStateValue, encodeEntries, hj, reservedKeys, maxStateDepth]; rfl⟩
  | team name members =>
    obtain ⟨js, hjs⟩ := encode_members members 2
    exact ⟨_, by simp [serialize, encodeStateValue, encodeEntries, hjs, reservedKeys, maxStateDepth]; rfl⟩

end Wrapper

/-! ### Through the codec -/

namespace JsonCodec

variable {heap : Heap}

theorem CopiesChildren.values {children : List (String × Child)} {copied : List (String × JsonValue)}
    (h : CopiesChildren heap children copied) {values : List MessageValue}
    (hvalues : children.map Prod.snd = values.map Child.value) :
    List.Forall₂ (Copies heap) values (copied.map Prod.snd) ∧ copied.map Prod.fst = children.map Prod.fst := by
  induction children generalizing copied values with
  | nil =>
    cases h
    cases values with
    | nil => exact ⟨.nil, rfl⟩
    | cons v values => cases hvalues
  | cons e children ih =>
    cases values with
    | nil => cases hvalues
    | cons v values =>
      obtain ⟨hv, hrest⟩ := List.cons.inj hvalues
      cases h with
      | hole h => cases hv
      | value hcopy h =>
        cases hv
        obtain ⟨hcopies, hkeys⟩ := ih h hrest
        exact ⟨.cons hcopy hcopies, congrArg (_ :: ·) hkeys⟩

theorem Copies.of_array {v : MessageValue} {ts : List JsonValue} (h : Copies heap v (.array ts)) {node : ParsedValue}
    (hh : Holds heap v node) : ∃ values items, List.Forall₂ (Copies heap) values ts ∧
      List.Forall₂ (Holds heap) values items ∧ node = .array items := by
  cases h with
  | array hslots hkids =>
    cases hh with
    | array hvalues hitems =>
      refine ⟨_, _, (hkids.values ?_).1, hitems, rfl⟩
      rw [hvalues]
      unfold MessageObject.children
      rw [List.map_map, List.zipIdx_map, List.map_map]
      conv_rhs => rw [← List.zipIdx_map_fst 0 (List.map _ _), List.zipIdx_map, List.map_map]
      exact List.map_congr_left (fun e _ => rfl)
    | object hplain => cases hslots.symm.trans hplain

theorem Copies.of_object {v : MessageValue} {es : List (String × JsonValue)} (h : Copies heap v (.object es)) {node : ParsedValue}
    (hh : Holds heap v node) : ∃ values items, List.Forall₂ (Copies heap) values (es.map Prod.snd) ∧
      List.Forall₂ (Holds heap) values items ∧ node = .object ((es.map Prod.fst).zip items) := by
  cases h with
  | object hplain _ hkids =>
    cases hh with
    | array hvalues => cases hplain.symm.trans hvalues
    | @object _ keys values items _ hvalues hlength hitems =>
      rw [hvalues] at hkids
      simp only [MessageObject.children, List.map_map] at hkids
      have hread : ((keys.zip values).map fun e => (e.1, Child.value e.2)).map Prod.snd = values.map Child.value := by
        conv_rhs => rw [← List.map_snd_zip hlength.ge]
        rw [List.map_map, List.map_map]
        exact List.map_congr_left (fun e _ => rfl)
      obtain ⟨hcopies, hkeys⟩ := hkids.values hread
      refine ⟨_, _, hcopies, hitems, ?_⟩
      rw [hkeys, List.map_map]
      congr 2
      exact (List.map_fst_zip hlength.le).symm

mutual

/-- The tree sent for a message that holds a value is the value. -/
theorem Copies.held : ∀ (t : JsonValue) {v : MessageValue} {node : ParsedValue}, Copies heap v t → Holds heap v node →
    node = .ofJson t
  | .null, _, _, hc, hh => by
    cases hc
    cases hh
    rfl
  | .boolean b, _, _, hc, hh => by
    cases hc
    cases hh
    rfl
  | .number q, _, _, hc, hh => by
    cases hc <;> cases hh <;> rfl
  | .string s, _, _, hc, hh => by
    cases hc
    cases hh
    rfl
  | .array ts, _, _, hc, hh => by
    obtain ⟨values, items, hcopies, hitems, rfl⟩ := hc.of_array hh
    exact congrArg ParsedValue.array (Copies.heldItems ts hcopies hitems)
  | .object es, _, _, hc, hh => by
    obtain ⟨values, items, hcopies, hitems, rfl⟩ := hc.of_object hh
    exact congrArg ParsedValue.object (Copies.heldEntries es hcopies hitems)

theorem Copies.heldItems : ∀ (ts : List JsonValue) {vs : List MessageValue} {nodes : List ParsedValue},
    List.Forall₂ (Copies heap) vs ts → List.Forall₂ (Holds heap) vs nodes → nodes = ParsedValue.ofItems ts
  | [], _, _, hc, hh => by
    cases hc
    cases hh
    rfl
  | t :: ts, _, _, hc, hh => by
    cases hc with
    | cons hct hcts =>
      cases hh with
      | cons hht hhts =>
        rw [Copies.held t hct hht, Copies.heldItems ts hcts hhts]
        rfl

theorem Copies.heldEntries : ∀ (es : List (String × JsonValue)) {vs : List MessageValue} {nodes : List ParsedValue},
    List.Forall₂ (Copies heap) vs (es.map Prod.snd) → List.Forall₂ (Holds heap) vs nodes →
      (es.map Prod.fst).zip nodes = ParsedValue.ofEntries es
  | [], _, _, hc, hh => by
    cases hc
    cases hh
    rfl
  | (key, t) :: es, _, _, hc, hh => by
    cases hc with
    | cons hct hcts =>
      cases hh with
      | cons hht hhts =>
        rw [List.map_cons, List.zip_cons_cons, Copies.held t hct hht, Copies.heldEntries es hcts hhts]
        rfl

end

mutual

theorem ofJson_inj : ∀ (t : JsonValue) {t' : JsonValue}, ParsedValue.ofJson t = .ofJson t' → t = t'
  | .null, t', h => by
    cases t' <;> first | rfl | cases h
  | .boolean b, t', h => by
    cases t' <;> cases h
    rfl
  | .number q, t', h => by
    cases t' <;> cases h
    rfl
  | .string s, t', h => by
    cases t' <;> cases h
    rfl
  | .array ts, t', h => by
    cases t' with
    | array ts' => exact congrArg _ (ofItems_inj ts (ParsedValue.array.inj h))
    | _ => cases h
  | .object es, t', h => by
    cases t' with
    | object es' => exact congrArg _ (ofEntries_inj es (ParsedValue.object.inj h))
    | _ => cases h

theorem ofItems_inj : ∀ (ts : List JsonValue) {ts' : List JsonValue},
    ParsedValue.ofItems ts = ParsedValue.ofItems ts' → ts = ts'
  | [], ts', h => by
    cases ts' with
    | nil => rfl
    | cons t' ts' => cases h
  | t :: ts, ts', h => by
    cases ts' with
    | nil => cases h
    | cons t' ts' =>
      obtain ⟨ht, hts⟩ := List.cons.inj h
      rw [ofJson_inj t ht, ofItems_inj ts hts]

theorem ofEntries_inj : ∀ (es : List (String × JsonValue)) {es' : List (String × JsonValue)},
    ParsedValue.ofEntries es = ParsedValue.ofEntries es' → es = es'
  | [], es', h => by
    cases es' with
    | nil => rfl
    | cons e' es' => cases h
  | (key, t) :: es, es', h => by
    cases es' with
    | nil => cases h
    | cons e' es' =>
      obtain ⟨he, hes⟩ := List.cons.inj h
      obtain ⟨rfl, ht⟩ := Prod.mk.inj he
      rw [ofJson_inj t ht, ofEntries_inj es hes]

end

/-- `j'` is what `decode` returns of the frame that `encode` makes of the message `m`, which is `j`. -/
structure Carried (stringify : JsonValue → String) (parse : String → Except String ParsedValue) (heap : Heap)
    (m : MessageValue) (j j' : JsonValue) : Prop where
  holds : Holds heap m (.ofJson j)
  frame : ∃ frame, encode stringify heap m = .ok frame ∧ decode parse frame = .ok (.ofJson j')

theorem Carried.eq {stringify : JsonValue → String} {parse : String → Except String ParsedValue} {m : MessageValue}
    {j j' : JsonValue} (h : Carried stringify parse heap m j j')
    (hparse : ∀ t, Copies heap m t → parse (stringify t) = .ok (.ofJson t)) : j' = j := by
  obtain ⟨hholds, frame, hencode, hdecode⟩ := h
  unfold encode at hencode
  rcases hwalk : admitMessage heap m with e | t
  · rw [hwalk] at hencode
    cases hencode
  · rw [hwalk] at hencode
    obtain rfl : Frame.text (stringify t) = frame := Except.ok.inj hencode
    obtain ⟨hcopies, -, -⟩ := (admit_spec heap m).2 t hwalk
    have hsent : ParsedValue.ofJson j = .ofJson t := Copies.held t hcopies hholds
    have hback : ParsedValue.ofJson j' = .ofJson t := decode_text (hparse t hcopies) hdecode
    exact ofJson_inj j' (hback.trans hsent.symm)

end JsonCodec

/-! ### The landing -/

namespace Wrapper

def kind : Wrapper → String
  | .scoreboard _ => "Scoreboard"
  | .leaderboard _ _ => "Leaderboard"
  | .inventory _ _ => "Inventory"
  | .team _ _ => "Team"

/-- The payload is tagged with a wrapper's kind. -/
def Tagged (data : JsonValue) : Prop :=
  ∃ kind ∈ ["Scoreboard", "Leaderboard", "Inventory", "Team"], prop data "kind" = some (.string kind)

theorem reviveWrapper_untagged (byId : PlayerId → Option Player) {data : JsonValue} (h : ¬ Tagged data) :
    reviveWrapper byId data = none := by
  have hkind : ∀ kind ∈ ["Scoreboard", "Leaderboard", "Inventory", "Team"], prop data "kind" ≠ some (.string kind) :=
    fun kind hmem hkind => h ⟨kind, hmem, hkind⟩
  unfold reviveWrapper
  rw [if_neg (hkind _ (by simp)), if_neg (hkind _ (by simp)), if_neg (hkind _ (by simp)), if_neg (hkind _ (by simp))]

/-- A payload of another kind changes nothing. -/
theorem restore_other {held : Wrapper} {data : JsonValue} (h : prop data "kind" ≠ some (.string held.kind)) :
    held.restore data = some held := by
  cases held with
  | scoreboard scores =>
    unfold kind at h
    rw [restore, restoreCounts, if_neg h]
    rfl
  | leaderboard player items | inventory player items =>
    unfold kind at h
    rw [restore, restoreCounts, if_neg h]
    rfl
  | team name members =>
    unfold kind at h
    rw [restore, if_neg h]

/-- What is rebuilt from a wrapper's payload is of its class, with its arguments. -/
theorem reviveWrapper_encode {byId : PlayerId → Option Player} {w : Wrapper} {j : JsonValue}
    (h : encodeStateValue 0 w.serialize = some j)
    (howner : ∀ owner items, w = .inventory owner items → ∃ p, byId owner = some p ∧ p.id = owner) :
    ∃ revived, reviveWrapper byId j = some revived ∧ revived.SameClass w := by
  cases w with
  | scoreboard scores =>
    obtain ⟨js, -, rfl⟩ := encode_kind h
    exact ⟨.scoreboard OrderedMap.empty, by simp [reviveWrapper, prop], trivial⟩
  | leaderboard low scores =>
    obtain ⟨js, hjs, rfl⟩ := encode_kind h
    obtain ⟨jl, js, hl, -, rfl⟩ := encodeEntries_cons hjs
    cases hl
    refine ⟨.leaderboard low OrderedMap.empty, ?_, rfl⟩
    cases low <;> simp [reviveWrapper, prop]
  | inventory owner items =>
    obtain ⟨js, hjs, rfl⟩ := encode_kind h
    obtain ⟨jp, js, hp, -, rfl⟩ := encodeEntries_cons hjs
    cases hp
    obtain ⟨p, hbyId, rfl⟩ := howner owner items rfl
    exact ⟨.inventory p.id OrderedMap.empty, by simp [reviveWrapper, prop, hbyId], rfl⟩
  | team name members =>
    obtain ⟨js, hjs, rfl⟩ := encode_kind h
    obtain ⟨jn, js, hn, -, rfl⟩ := encodeEntries_cons hjs
    cases hn
    exact ⟨.team name [], by simp [reviveWrapper, prop], rfl⟩

/-- An inventory of a player the roster does not have is not rebuilt. -/
theorem reviveWrapper_stranger {byId : PlayerId → Option Player} {owner : PlayerId} {items : OrderedMap String JsNumber}
    {j : JsonValue} (h : encodeStateValue 0 (Wrapper.inventory owner items).serialize = some j) (howner : byId owner = none) :
    reviveWrapper byId j = none := by
  obtain ⟨js, hjs, rfl⟩ := encode_kind h
  obtain ⟨jp, js, hp, -, rfl⟩ := encodeEntries_cons hjs
  cases hp
  simp [reviveWrapper, prop, howner]

end Wrapper

namespace HostRecord

/-- What a field holds once a value has landed on it. -/
def landed (r : HostRecord) (byId : PlayerId → Option Player) (field : String) (value : JsonValue) : Option FieldValue :=
  (r.restoreHostField byId field value).bind fun r => r.values.get field

/-- No wrapper stands in the field. -/
def Unwrapped (r : HostRecord) (field : String) : Prop := ∀ held, r.values.get field ≠ some (.wrapper held)

variable {r : HostRecord} {byId : PlayerId → Option Player} {field : String} {value : JsonValue}

theorem landed_held {held : Wrapper} (h : r.values.get field = some (.wrapper held)) :
    r.landed byId field value = (held.restore value).map .wrapper := by
  unfold landed restoreHostField
  simp only [h]
  generalize held.restore value = restored
  cases restored <;> simp

theorem restoreHostField_unwrapped (h : r.Unwrapped field) : r.restoreHostField byId field value =
    match Wrapper.reviveWrapper byId value with
    | none => some { r with values := r.values.set field (.plain value.toJs) }
    | some revived => (revived.restore value).map fun w =>
      { r with values := r.values.set field (.wrapper w), wrappers := addNew r.wrappers field } := by
  unfold restoreHostField
  rcases hget : r.values.get field with _ | ⟨x | held⟩
  · rfl
  · rfl
  · exact absurd hget (h held)

theorem landed_plain (h : r.Unwrapped field) (hrevive : Wrapper.reviveWrapper byId value = none) :
    r.landed byId field value = some (.plain value.toJs) := by
  unfold landed
  rw [restoreHostField_unwrapped h, hrevive]
  simp

theorem landed_revived (h : r.Unwrapped field) {revived : Wrapper} (hrevive : Wrapper.reviveWrapper byId value = some revived) :
    r.landed byId field value = (revived.restore value).map .wrapper := by
  unfold landed
  simp only [restoreHostField_unwrapped h, hrevive]
  generalize revived.restore value = restored
  cases restored <;> simp

end HostRecord

/-- A value as the encoder is given it. -/
def FieldValue.serialize : FieldValue → JsValue
  | .plain x => x
  | .wrapper w => w.serialize

theorem encodeHostField_eq {r : HostRecord} {field : String} (hfield : field ∉ reservedKeys) {v : FieldValue}
    (hv : r.values.get field = some v) : encodeHostField r field = encodeStateValue 0 v.serialize := by
  unfold encodeHostField HostRecord.serializeHostField
  rw [if_neg hfield]
  cases v <;> simp only [hv, FieldValue.serialize]

/-- A field's value that has a wire form: a value the encoder takes, or a wrapper its methods lead to. -/
def FieldValue.Representable (round : ℚ → JsNumber) : FieldValue → Prop
  | .plain x => ∃ j, encodeStateValue 0 x = some j
  | .wrapper w => w.Reachable round ∧ w.Finite

/-- What the mirror's field becomes when the payload of the authority's value lands on it. -/
structure Lands (byId : PlayerId → Option Player) (mirror : HostRecord) (field : String) (v : FieldValue) (j : JsonValue) :
    Prop where
  /-- The same plain value, unless it is tagged as a wrapper is; a reference stays the id it travels as. -/
  plain : ∀ x, v = .plain x → mirror.Unwrapped field → ¬ Wrapper.Tagged j →
    mirror.landed byId field j = some (.plain j.toJs) ∧ (x.refless = true → j.toJs = x)
  /-- The same wrapper, rebuilt. -/
  revived : ∀ w, v = .wrapper w → mirror.Unwrapped field →
    (∀ owner items, w = .inventory owner items → ∃ p, byId owner = some p) → mirror.landed byId field j = some v
  /-- The payload itself, for an inventory of a player the mirror does not have. -/
  declined : ∀ owner items, v = .wrapper (.inventory owner items) → mirror.Unwrapped field → byId owner = none →
    mirror.landed byId field j = some (.plain j.toJs)
  /-- The same wrapper, refilled in one of its class and arguments. -/
  refilled : ∀ w held, v = .wrapper w → mirror.values.get field = some (.wrapper held) → held.SameClass w →
    mirror.landed byId field j = some v
  /-- What it was, when it is a wrapper of another kind than the payload. -/
  leftAlone : ∀ held, mirror.values.get field = some (.wrapper held) →
    Wrapper.prop j "kind" ≠ some (.string held.kind) → mirror.landed byId field j = some (.wrapper held)

/-- A value of the authority through the encoder, the codec and the landing. -/
theorem host_field_lands {round : ℚ → JsNumber} {authority : HostRecord} (mirror : HostRecord)
    {byId : PlayerId → Option Player} (hroster : ∀ id p, byId id = some p → p.id = id) {field : String}
    (hfield : field ∉ reservedKeys) {v : FieldValue} (hv : authority.values.get field = some v)
    (hrep : v.Representable round) {stringify : JsonValue → String} {parse : String → Except String JsonCodec.ParsedValue}
    {heap : JsonCodec.Heap} {m : JsonCodec.MessageValue}
    (hparse : ∀ t, JsonCodec.Copies heap m t → parse (stringify t) = .ok (.ofJson t)) :
    ∃ j, encodeHostField authority field = some j ∧
      ∀ j', JsonCodec.Carried stringify parse heap m j j' → Lands byId mirror field v j' := by
  obtain ⟨j, hj⟩ : ∃ j, encodeStateValue 0 v.serialize = some j := by
    cases v with
    | plain x => exact hrep
    | wrapper w => exact Wrapper.encode_serialize hrep.2
  refine ⟨j, (encodeHostField_eq hfield hv).trans hj, fun j' hcarried => ?_⟩
  obtain rfl := hcarried.eq hparse
  constructor
  · rintro x rfl hunwrapped htag
    exact ⟨HostRecord.landed_plain hunwrapped (Wrapper.reviveWrapper_untagged byId htag), (toJs_encode 0 x hj).mpr⟩
  · rintro w rfl hunwrapped howner
    obtain ⟨revived, hrevive, hclass⟩ := @Wrapper.reviveWrapper_encode byId _ _ hj (by
      intro owner items hw
      obtain ⟨p, hp⟩ := howner owner items hw
      exact ⟨p, hp, hroster owner p hp⟩)
    rw [HostRecord.landed_revived hunwrapped hrevive, Wrapper.restore_encode hclass hrep.1.distinct hj]
    rfl
  · rintro owner items rfl hunwrapped howner
    exact HostRecord.landed_plain hunwrapped (Wrapper.reviveWrapper_stranger hj howner)
  · rintro w held rfl hheld hclass
    rw [HostRecord.landed_held hheld, Wrapper.restore_encode hclass hrep.1.distinct hj]
    rfl
  · intro held hheld hkind
    rw [HostRecord.landed_held hheld, Wrapper.restore_other hkind]
    rfl

/-- A host with one field. -/
def fieldRecord (field : String) (v : FieldValue) : HostRecord :=
  { createHostRecord .game with values := OrderedMap.empty.set field v }

/-- The red team, with one member. -/
def redTeam : Wrapper := (Wrapper.team "red" []).mutate .finite (.addMember "a")

/-- A message that holds its payload. -/
def redTeamHeap : JsonCodec.Heap
  | 0 => .plain [("kind", .data (.string "Team")), ("name", .data (.string "red")), ("members", .data (.reference 1))] (by decide)
  | _ => .array [some (.string "a")]

def redTeamPayload : JsonValue :=
  .object [("kind", .string "Team"), ("name", .string "red"), ("members", .array [.string "a"])]

theorem holds_redTeam : JsonCodec.Holds redTeamHeap (.reference 0) (.ofJson redTeamPayload) :=
  @JsonCodec.Holds.object _ 0 ["kind", "name", "members"] [.string "Team", .string "red", .reference 1]
    [.string "Team", .string "red", .array [.string "a"]] (by decide) rfl rfl
    (.cons (.string "Team") (.cons (.string "red")
      (.cons (@JsonCodec.Holds.array _ 1 [.string "a"] _ rfl (.cons (.string "a") .nil)) .nil)))

theorem host_field_lands_redTeam :
    ∃ j, encodeHostField (fieldRecord "side" (.wrapper redTeam)) "side" = some j ∧
      ∀ j', JsonCodec.Carried (fun _ => "") (fun _ => .ok (.ofJson redTeamPayload)) redTeamHeap (.reference 0) j j' →
        Lands (fun _ => none) (fieldRecord "side" (.wrapper (.team "red" ["b"]))) "side" (.wrapper redTeam) j' :=
  host_field_lands (fieldRecord "side" (.wrapper (.team "red" ["b"]))) (fun _ _ h => by cases h) (by decide) rfl
    (show FieldValue.Representable .finite (.wrapper redTeam) from ⟨.mutate (.addMember "a") (.team "red"), trivial⟩)
    fun t ht => congrArg Except.ok (JsonCodec.Copies.held t ht holds_redTeam)

/-- A plain value does not take the place of the wrapper that an earlier value of the field made. -/
theorem plain_behind_wrapper :
    ∃ j mirror, encodeHostField (fieldRecord "best" (.wrapper (.scoreboard OrderedMap.empty))) "best" = some j ∧
      (createHostRecord .game).restoreHostField (fun _ => none) "best" j = some mirror ∧
      encodeHostField (fieldRecord "best" (.plain (.number (.finite 5)))) "best" = some (.number 5) ∧
      mirror.landed (fun _ => none) "best" (.number 5) = some (.wrapper (.scoreboard OrderedMap.empty)) ∧
      mirror.landed (fun _ => none) "best" (.number 5) ≠ some (.plain (.number (.finite 5))) := by
  refine ⟨.object [("kind", .string "Scoreboard"), ("scores", .array [])],
    { fieldRecord "best" (.wrapper (.scoreboard OrderedMap.empty)) with wrappers := ["best"] }, rfl, rfl, rfl, rfl, ?_⟩
  intro h
  cases h

end Grove
