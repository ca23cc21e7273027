import Grove.Core.Runtime
import Grove.Sim.Constants

/-! # State values on the wire

The encoder of `packages/sim/src/replicate.ts`.  `encodeStateValue` answers `none` for a value
the wire cannot carry: a number that is not finite, a function, a symbol, an object with a
prototype of its own, a reserved key, a cycle, a nesting of `maxStateDepth`.  Entities and
players travel as what identifies them.  The join baseline, the per-tick delta and the saved
record all go through `encodeHostField`. -/

namespace Grove

mutual

/-- A value as JSON, or `none`; a ref travels as what identifies it. -/
def encodeStateValue (depth : ℕ) : JsValue → Option JsonValue
  | .null => some .null
  | .number (.finite q) => some (.number q)
  | .number .nan | .number .posInfinity | .number .negInfinity => none
  | .string s => some (.string s)
  | .boolean b => some (.boolean b)
  | .undefined | .callable => none
  | .entity id => some (.number id)
  | .player id => some (.string id)
  | .array items =>
    if maxStateDepth ≤ depth then none else (encodeItems (depth + 1) items).map .array
  | .object entries =>
    if maxStateDepth ≤ depth then none else (encodeEntries (depth + 1) entries).map .object
  | .classInstance _ | .ancestor => none

def encodeItems (depth : ℕ) : List JsValue → Option (List JsonValue)
  | [] => some []
  | item :: rest =>
    match encodeStateValue depth item with
    | none => none
    | some v => (encodeItems depth rest).map (v :: ·)

def encodeEntries (depth : ℕ) : List (String × JsValue) → Option (List (String × JsonValue))
  | [] => some []
  | (key, item) :: rest =>
    if key ∈ reservedKeys then none
    else
      match encodeStateValue depth item with
      | none => none
      | some v => (encodeEntries depth rest).map ((key, v) :: ·)

end

/-- One field as JSON, or `none` for one that is not representable. -/
def encodeHostField (r : HostRecord) (field : String) : Option JsonValue :=
  if field ∈ reservedKeys then none else encodeStateValue 0 (r.serializeHostField field)

/-- Every representable field of a record, in field order. -/
def encodeRecord (r : HostRecord) : Fields :=
  r.values.keys.filterMap (fun field => (encodeHostField r field).map (fun v => (field, v)))

end Grove
