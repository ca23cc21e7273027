import Grove.Protocol.Envelopes
import Mathlib.Data.List.Sort
import Mathlib.Data.Rat.Floor
import Mathlib.Data.String.Basic

/-! # Values a script may hold

A `@serverState` field holds any JavaScript value.  `JsValue` is such a value as a walk over
it meets it: a tree in which a reference back to an object still being walked is the leaf
`ancestor`, so a cycle is a finite value and a shared object is its copies.

The type tags are those of `packages/core/src/state/host-record.ts`, which decide whether a
persisted value still fits the field it was saved from. -/

namespace Grove

/-- A double, with the finite ones as rationals. -/
inductive JsNumber where
  | finite (q : ℚ)
  | nan
  | posInfinity
  | negInfinity
deriving DecidableEq

namespace JsNumber

/-- `finiteOr` of `packages/math`: the value when finite, else the default. -/
def finiteOr : JsNumber → ℚ → ℚ
  | .finite q, _ => q
  | .nan, d | .posInfinity, d | .negInfinity, d => d

/-- The conversion an `Int32Array` store makes: truncate, then wrap into 32 bits. -/
def toInt32 : JsNumber → ℤ
  | .finite q =>
    let n := if 0 ≤ q then ⌊q⌋ else ⌈q⌉
    let m := n % 4294967296
    if 2147483648 ≤ m then m - 4294967296 else m
  | .nan | .posInfinity | .negInfinity => 0

theorem toInt32_range (x : JsNumber) : -2147483648 ≤ x.toInt32 ∧ x.toInt32 < 2147483648 := by
  cases x with
  | finite q =>
    unfold toInt32
    simp only
    generalize (if 0 ≤ q then ⌊q⌋ else ⌈q⌉) = n
    split_ifs <;> omega
  | nan | posInfinity | negInfinity => decide

/-- A stored layer is stored again as itself. -/
theorem toInt32_toInt32 (x : JsNumber) : (JsNumber.finite (x.toInt32 : ℚ)).toInt32 = x.toInt32 := by
  obtain ⟨h1, h2⟩ := x.toInt32_range
  generalize x.toInt32 = n at h1 h2
  unfold toInt32
  simp only [Int.floor_intCast, Int.ceil_intCast, ite_self]
  split_ifs <;> omega

end JsNumber

/-- A value as the encoder walks it. -/
inductive JsValue where
  | undefined
  | null
  | boolean (b : Bool)
  | number (n : JsNumber)
  | string (s : String)
  /-- A function, a symbol or a bigint. -/
  | callable
  | entity (id : ℕ)
  | player (id : PlayerId)
  | array (items : List JsValue)
  /-- A plain object: its prototype is `Object.prototype`. -/
  | object (entries : List (String × JsValue))
  /-- An object with another prototype. -/
  | classInstance (entries : List (String × JsValue))
  /-- A reference to an object that encloses this place. -/
  | ancestor

mutual

/-- A decoded value, as the runtime holds it. -/
def JsonValue.toJs : JsonValue → JsValue
  | .null => .null
  | .boolean b => .boolean b
  | .number q => .number (.finite q)
  | .string s => .string s
  | .array items => .array (itemsToJs items)
  | .object entries => .object (entriesToJs entries)

def itemsToJs : List JsonValue → List JsValue
  | [] => []
  | v :: rest => v.toJs :: itemsToJs rest

def entriesToJs : List (String × JsonValue) → List (String × JsValue)
  | [] => []
  | (k, v) :: rest => (k, v.toJs) :: entriesToJs rest

end

/-! ### Type tags -/

/-- The primitive kind of a value, plus a shape for objects and arrays. -/
inductive TypeTag where
  | number
  | string
  | boolean
  | undefined
  | null
  | object (shape : String)
  | array (shape : String)
deriving DecidableEq

namespace JsValue

def primitiveKind : JsValue → String
  | .null => "null"
  | .array _ => "array"
  | .number _ => "number"
  | .string _ => "string"
  | .boolean _ => "boolean"
  | .undefined => "undefined"
  | .callable => "function"
  | .entity _ | .player _ | .object _ | .classInstance _ | .ancestor => "object"

/-- The sorted key set and the kinds, one level deep. -/
def entriesShape (entries : List (String × JsValue)) : String :=
  let sorted := entries.insertionSort (fun a b => a.1 ≤ b.1)
  "\x7b" ++ ",".intercalate (sorted.map (fun e => e.1 ++ ":" ++ e.2.primitiveKind)) ++ "\x7d"

def itemsShape (items : List JsValue) : String :=
  "[" ++ "|".intercalate ((items.map primitiveKind).dedup.insertionSort (· ≤ ·)) ++ "]"

def tagOf : JsValue → TypeTag
  | .null => .null
  | .undefined | .callable => .undefined
  | .array items => .array (itemsShape items)
  | .number _ => .number
  | .string _ => .string
  | .boolean _ => .boolean
  | .object entries | .classInstance entries => .object (entriesShape entries)
  -- A facade's own keys are the engine's, and no persisted value has them.
  | .entity _ | .player _ | .ancestor => .object ""

end JsValue

def tagsMatch (a b : TypeTag) : Bool := a = b

end Grove
