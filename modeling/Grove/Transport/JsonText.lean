import Grove.Transport.Codec
import Mathlib.Algebra.Order.BigOperators.Group.List

/-! # What a value takes on the wire

`JSON.stringify` on a validated tree.  The text of a number is a parameter: which digits a double is
printed with is the engine's matter. -/

namespace Grove

/-! ### A tree, decoded -/

open JsonCodec (ParsedValue)

theorem ofItems_eq_map : ∀ items : List JsonValue, ParsedValue.ofItems items = items.map ParsedValue.ofJson
  | [] => rfl
  | v :: items => congrArg (ParsedValue.ofJson v :: ·) (ofItems_eq_map items)

theorem ofEntries_eq_map : ∀ entries : List (String × JsonValue),
    ParsedValue.ofEntries entries = entries.map (fun e => (e.1, ParsedValue.ofJson e.2))
  | [] => rfl
  | e :: entries => congrArg ((e.1, ParsedValue.ofJson e.2) :: ·) (ofEntries_eq_map entries)

theorem ofJson_number (q : ℚ) : ParsedValue.ofJson (.number q) = .number (.finite q) := rfl

theorem ofJson_string (s : String) : ParsedValue.ofJson (.string s) = .string s := rfl

theorem ofJson_entries (entries : List (String × JsonValue)) :
    ParsedValue.ofJson (.object entries) = .object (ParsedValue.ofEntries entries) := rfl

theorem nonFinite_ofJson (v : JsonValue) : (ParsedValue.ofJson v).nonFinite = false := by
  cases v <;> rfl

/-- What a sent value's node holds, one level down. -/
def JsonValue.nested : JsonValue → List JsonValue
  | .array items => items
  | .object entries => entries.map Prod.snd
  | .null | .boolean _ | .number _ | .string _ => []

theorem entries_ofJson (v : JsonValue) :
    (ParsedValue.ofJson v).entries.map Prod.snd = v.nested.map ParsedValue.ofJson := by
  cases v with
  | array items =>
    rw [ParsedValue.ofJson, ParsedValue.entries, List.map_map, ofItems_eq_map]
    exact List.zipIdx_map_fst 0 _
  | object entries =>
    rw [ParsedValue.ofJson, ParsedValue.entries, ofEntries_eq_map, JsonValue.nested, List.map_map, List.map_map]
    rfl
  | _ => rfl

theorem valuesBelow_eq (v : JsonValue) : v.valuesBelow = (v.nested.map (fun w => w.valuesBelow + 1)).sum := by
  have hitems : ∀ items : List JsonValue,
      JsonValue.valuesOfItems items = (items.map (fun w => w.valuesBelow + 1)).sum := by
    intro items
    induction items with
    | nil => rfl
    | cons w items ih => rw [JsonValue.valuesOfItems, List.map_cons, List.sum_cons, ih]
  have hentries : ∀ entries : List (String × JsonValue),
      JsonValue.valuesOfEntries entries = ((entries.map Prod.snd).map (fun w => w.valuesBelow + 1)).sum := by
    intro entries
    induction entries with
    | nil => rfl
    | cons e entries ih => rw [JsonValue.valuesOfEntries, List.map_cons, List.map_cons, List.sum_cons, ih]
  cases v with
  | array items => exact hitems items
  | object entries => exact hentries entries
  | _ => rfl

theorem unreserved_nested {v w : JsonValue} (h : v.unreserved = true) (hw : w ∈ v.nested) : w.unreserved = true := by
  cases v with
  | array items => exact (JsonValue.unreservedItems_iff items).mp h w hw
  | object entries =>
    obtain ⟨e, he, rfl⟩ := List.mem_map.mp hw
    exact ((JsonValue.unreservedEntries_iff entries).mp h e he).2
  | _ => cases hw

/-- The keys of a sent value's node are free and its numbers finite. -/
theorem entries_free {v : JsonValue} (h : v.unreserved = true) : ∀ e ∈ (ParsedValue.ofJson v).entries,
    ((ParsedValue.ofJson v).isArray = false → e.1 ∉ reservedKeys) ∧ e.2.nonFinite = false := by
  intro e he
  have hfinite : e.2.nonFinite = false := by
    have hmem := List.mem_map_of_mem (f := Prod.snd) he
    rw [entries_ofJson] at hmem
    obtain ⟨w, -, hw⟩ := List.mem_map.mp hmem
    rw [← hw]
    exact nonFinite_ofJson w
  refine ⟨fun harray => ?_, hfinite⟩
  cases v with
  | array items => cases harray
  | object entries =>
    rw [ParsedValue.ofJson, ParsedValue.entries, ofEntries_eq_map] at he
    obtain ⟨e', he', rfl⟩ := List.mem_map.mp he
    exact ((JsonValue.unreservedEntries_iff entries).mp h e' he').1
  | _ => cases he

namespace JsonCodec

/-! ### The text -/

/-- What escapes a character. -/
def backslash : Char := Char.ofNat 0x5c

def doubleQuote : Char := Char.ofNat 0x22

/-- One character of a string, as it stands between the quotes. -/
def escaped (c : Char) : List Char :=
  let n := c.toNat
  if n = 0x22 ∨ n = 0x5c then [backslash, c]
  else if n = 0x08 then [backslash, 'b']
  else if n = 0x09 then [backslash, 't']
  else if n = 0x0a then [backslash, 'n']
  else if n = 0x0c then [backslash, 'f']
  else if n = 0x0d then [backslash, 'r']
  else if n < 0x20 then [backslash, 'u', '0', '0', Nat.digitChar (n / 16), Nat.digitChar (n % 16)]
  else [c]

def quotedText (s : String) : List Char := doubleQuote :: s.toList.flatMap escaped ++ [doubleQuote]

section text
variable (number : ℚ → List Char)

mutual

/-- `JSON.stringify`, with the text of each number. -/
def jsonText : JsonValue → List Char
  | .null => ['n', 'u', 'l', 'l']
  | .boolean true => ['t', 'r', 'u', 'e']
  | .boolean false => ['f', 'a', 'l', 's', 'e']
  | .number q => number q
  | .string s => quotedText s
  | .array items => '[' :: itemsText items
  | .object entries => Char.ofNat 0x7b :: entriesText entries

/-- The items, the separators and the closing bracket. -/
def itemsText : List JsonValue → List Char
  | [] => [']']
  | v :: rest => jsonText v ++ (if rest.isEmpty then [] else [',']) ++ itemsText rest

def entriesText : List (String × JsonValue) → List Char
  | [] => [Char.ofNat 0x7d]
  | (key, v) :: rest =>
    quotedText key ++ ':' :: jsonText v ++ (if rest.isEmpty then [] else [',']) ++ entriesText rest

end

end text

/-- A text of one-byte characters. -/
theorem utf8ByteLength_ascii {l : List Char} (h : ∀ c ∈ l, c.toNat < 0x80) :
    utf8ByteLength (String.ofList l) = l.length := by
  unfold utf8ByteLength
  rw [String.toList_ofList]
  induction l with
  | nil => rfl
  | cons c l ih =>
    rw [List.map_cons, List.sum_cons, if_pos (h c List.mem_cons_self),
      ih (fun d hd => h d (List.mem_cons_of_mem _ hd)), List.length_cons, Nat.add_comm]

end JsonCodec
end Grove
