import Grove.Transport.Codec

/-! # The payload of a request

`packages/client/src/request.ts`: the plain fields a `request()` payload is sent as.  What cannot
be represented is left out, a field at a time at the top and a whole field below it.  No getter is
called, so the walk only reads. -/

namespace Grove
open JsonCodec

/-- Nesting past which a payload value is dropped. -/
def maxRequestDepth : ℕ := 64

/-- The value at a key, `none` for a getter; with a setter alone it is `undefined`. -/
def JsonCodec.Property.dataValue : Property → Option MessageValue
  | .data v => some v
  | .accessor getter => if getter then none else some .undefined

/-- One own property as a field: not under a reserved key, which the codec refuses, nor for a getter. -/
def sentField (encode : MessageValue → Option JsonValue) (e : String × Property) : Option (String × JsonValue) :=
  if e.1 ∈ reservedKeys then none else (e.2.dataValue.bind encode).map (fun v => (e.1, v))

/-- One payload value as JSON, `none` for one that is not representable.  `room` is what is left
of the depth, `opened` the objects being walked. -/
def encodeRequestValue (heap : Heap) : ℕ → List ObjectId → MessageValue → Option JsonValue
  | _, _, .null => some .null
  | _, _, .number (.finite q) => some (.number q)
  | _, _, .number .nan | _, _, .number .posInfinity | _, _, .number .negInfinity => none
  | _, _, .negativeZero => some (.number 0)
  | _, _, .string s => some (.string s)
  | _, _, .boolean b => some (.boolean b)
  | _, _, .undefined | _, _, .function | _, _, .symbol | _, _, .bigint _ => none
  | 0, _, .reference _ => none
  | room + 1, opened, .reference id =>
    if id ∈ opened then none
    else
      let encode := encodeRequestValue heap room (id :: opened)
      match heap id with
      | .array slots => (slots.mapM (fun slot => encode (slot.getD .undefined))).map .array
      | .plain entries _ => (entries.mapM (sentField encode)).map .object
      -- A Map round-trips to an empty object and a Date to a string.
      | .exotic _ => none

/-- One payload as wire fields; `payload` is what it has of its own, key by key. -/
def requestFields (heap : Heap) (payload : List (String × Property)) : List (String × JsonValue) :=
  payload.filterMap (sentField (encodeRequestValue heap maxRequestDepth []))

/-! ### What is sent -/

theorem mem_of_mapM {α β : Type} {f : α → Option β} : ∀ {l : List α} {out : List β}, l.mapM f = some out →
    ∀ y ∈ out, ∃ x ∈ l, f x = some y
  | [], out, h, y, hy => by
    rw [List.mapM_nil] at h
    cases h
    cases hy
  | x :: l, out, h, y, hy => by
    rw [List.mapM_cons] at h
    obtain ⟨v, hv, h⟩ := Option.bind_eq_some_iff.mp h
    obtain ⟨rest, hrest, h⟩ := Option.bind_eq_some_iff.mp h
    cases h
    rcases List.mem_cons.mp hy with rfl | hy
    · exact ⟨x, List.mem_cons_self, hv⟩
    · obtain ⟨x', hx', hf⟩ := mem_of_mapM hrest y hy
      exact ⟨x', List.mem_cons_of_mem _ hx', hf⟩

theorem sentField_some {encode : MessageValue → Option JsonValue} {e : String × Property} {out : String × JsonValue}
    (h : sentField encode e = some out) : out.1 ∉ reservedKeys ∧ ∃ v, encode v = some out.2 := by
  unfold sentField at h
  split_ifs at h with hkey
  obtain ⟨w, hw, rfl⟩ := Option.map_eq_some_iff.mp h
  obtain ⟨v, -, hv⟩ := Option.bind_eq_some_iff.mp hw
  exact ⟨hkey, v, hv⟩

/-- A payload value is sent without a reserved key. -/
theorem unreserved_encodeRequestValue (heap : Heap) : ∀ (room : ℕ) (opened : List ObjectId) {v : MessageValue}
    {json : JsonValue}, encodeRequestValue heap room opened v = some json → json.unreserved = true := by
  intro room
  induction room with
  | zero =>
    intro opened v json h
    cases v with
    | number n => cases n <;> cases h; rfl
    | _ => cases h <;> rfl
  | succ room ih =>
    intro opened v json h
    cases v with
    | number n => cases n <;> cases h; rfl
    | reference id =>
      rw [encodeRequestValue] at h
      split_ifs at h with hopen
      split at h
      · rename_i slots _
        obtain ⟨items, hitems, rfl⟩ := Option.map_eq_some_iff.mp h
        rw [JsonValue.unreserved, JsonValue.unreservedItems_iff]
        intro item hitem
        obtain ⟨slot, -, hslot⟩ := mem_of_mapM hitems item hitem
        exact ih _ hslot
      · rename_i entries _ _
        obtain ⟨fields, hfields, rfl⟩ := Option.map_eq_some_iff.mp h
        rw [JsonValue.unreserved, JsonValue.unreservedEntries_iff]
        intro e he
        obtain ⟨property, -, hentry⟩ := mem_of_mapM hfields e he
        obtain ⟨hkey, u, hu⟩ := sentField_some hentry
        exact ⟨hkey, ih _ hu⟩
      · cases h
    | _ => cases h <;> rfl

theorem unreserved_requestFields (heap : Heap) (payload : List (String × Property)) :
    (JsonValue.object (requestFields heap payload)).unreserved = true := by
  rw [JsonValue.unreserved, JsonValue.unreservedEntries_iff]
  intro e he
  obtain ⟨property, -, hentry⟩ := List.mem_filterMap.mp he
  obtain ⟨hkey, u, hu⟩ := sentField_some hentry
  exact ⟨hkey, unreserved_encodeRequestValue heap _ _ hu⟩

end Grove
