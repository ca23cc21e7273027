import Mathlib.Algebra.Field.Rat

/-! # Values that cross the wire

`packages/transport`'s `JsonValue`.  A number on the wire is finite (the codec refuses any
other), so it is a rational; an object is its list of own entries in insertion order. -/

namespace Grove

/-- A value the codec carries. -/
inductive JsonValue where
  | null
  | boolean (b : Bool)
  | number (q : ℚ)
  | string (s : String)
  | array (items : List JsonValue)
  | object (entries : List (String × JsonValue))

namespace JsonValue

mutual

/-- Structural equality test. -/
def decEq : (a b : JsonValue) → Decidable (a = b)
  | .null, .null => isTrue rfl
  | .boolean b, .boolean b' => decidable_of_iff (b = b') (by simp)
  | .number q, .number q' => decidable_of_iff (q = q') (by simp)
  | .string s, .string s' => decidable_of_iff (s = s') (by simp)
  | .array l, .array l' =>
    match decEqItems l l' with
    | isTrue h => isTrue (by rw [h])
    | isFalse h => isFalse (by simpa using h)
  | .object l, .object l' =>
    match decEqEntries l l' with
    | isTrue h => isTrue (by rw [h])
    | isFalse h => isFalse (by simpa using h)
  | .null, .boolean _ | .null, .number _ | .null, .string _ | .null, .array _ | .null, .object _
  | .boolean _, .null | .boolean _, .number _ | .boolean _, .string _ | .boolean _, .array _
  | .boolean _, .object _ | .number _, .null | .number _, .boolean _ | .number _, .string _
  | .number _, .array _ | .number _, .object _ | .string _, .null | .string _, .boolean _
  | .string _, .number _ | .string _, .array _ | .string _, .object _ | .array _, .null
  | .array _, .boolean _ | .array _, .number _ | .array _, .string _ | .array _, .object _
  | .object _, .null | .object _, .boolean _ | .object _, .number _ | .object _, .string _
  | .object _, .array _ => isFalse nofun

def decEqItems : (a b : List JsonValue) → Decidable (a = b)
  | [], [] => isTrue rfl
  | [], _ :: _ => isFalse nofun
  | _ :: _, [] => isFalse nofun
  | x :: l, y :: l' =>
    match decEq x y, decEqItems l l' with
    | isTrue h, isTrue h' => isTrue (by rw [h, h'])
    | isFalse h, _ => isFalse (fun e => h (List.cons.inj e).1)
    | _, isFalse h => isFalse (fun e => h (List.cons.inj e).2)

def decEqEntries : (a b : List (String × JsonValue)) → Decidable (a = b)
  | [], [] => isTrue rfl
  | [], _ :: _ => isFalse nofun
  | _ :: _, [] => isFalse nofun
  | (k, x) :: l, (k', y) :: l' =>
    if hk : k = k' then
      match decEq x y, decEqEntries l l' with
      | isTrue h, isTrue h' => isTrue (by rw [hk, h, h'])
      | isFalse h, _ => isFalse (fun e => h (Prod.mk.inj (List.cons.inj e).1).2)
      | _, isFalse h => isFalse (fun e => h (List.cons.inj e).2)
    else isFalse (fun e => hk (Prod.mk.inj (List.cons.inj e).1).1)

end

instance : DecidableEq JsonValue := decEq

end JsonValue

/-- Keys that reach a prototype rather than a field. -/
def reservedKeys : List String := ["__proto__", "constructor", "prototype"]

/-! ### What a value holds -/

namespace JsonValue

mutual

/-- No key of any object in it reaches a prototype. -/
def unreserved : JsonValue → Bool
  | .array items => unreservedItems items
  | .object entries => unreservedEntries entries
  | .null | .boolean _ | .number _ | .string _ => true

def unreservedItems : List JsonValue → Bool
  | [] => true
  | v :: rest => v.unreserved && unreservedItems rest

def unreservedEntries : List (String × JsonValue) → Bool
  | [] => true
  | (key, v) :: rest => decide (key ∉ reservedKeys) && v.unreserved && unreservedEntries rest

end

mutual

/-- How many values it holds, itself apart. -/
def valuesBelow : JsonValue → ℕ
  | .array items => valuesOfItems items
  | .object entries => valuesOfEntries entries
  | .null | .boolean _ | .number _ | .string _ => 0

def valuesOfItems : List JsonValue → ℕ
  | [] => 0
  | v :: rest => v.valuesBelow + 1 + valuesOfItems rest

def valuesOfEntries : List (String × JsonValue) → ℕ
  | [] => 0
  | (_, v) :: rest => v.valuesBelow + 1 + valuesOfEntries rest

end

theorem unreservedItems_iff : ∀ items : List JsonValue, unreservedItems items = true ↔ ∀ v ∈ items, v.unreserved = true
  | [] => by simp [unreservedItems]
  | v :: items => by simp [unreservedItems, unreservedItems_iff items]

theorem unreservedEntries_iff : ∀ entries : List (String × JsonValue),
    unreservedEntries entries = true ↔ ∀ e ∈ entries, e.1 ∉ reservedKeys ∧ e.2.unreserved = true
  | [] => by simp [unreservedEntries]
  | (key, v) :: entries => by simp [unreservedEntries, unreservedEntries_iff entries]

end JsonValue

end Grove
