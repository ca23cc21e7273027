import Grove.Transport.JsonText

/-! # Texts of different values differ

`JSON.stringify` writes no two values alike, and none so that another's text could go on with it: a
text that is followed by a separator, a bracket or a line break can be read off what it starts
(`jsonText_append_inj`).  The reading is by the first character, which tells the kinds of values apart. -/

namespace Grove
namespace JsonCodec

/-! ### Strings -/

/-- What a hexadecimal digit is worth. -/
def digitValue (c : Char) : ℕ := if c.toNat < 0x3a then c.toNat - 0x30 else c.toNat - 0x57

/-- Takes one character of a string back out of its spelling. -/
def unescape : List Char → Option (Char × List Char)
  | [] => none
  | c :: rest =>
    if c = backslash then
      match rest with
      | 'b' :: rest => some (Char.ofNat 0x08, rest)
      | 't' :: rest => some (Char.ofNat 0x09, rest)
      | 'n' :: rest => some (Char.ofNat 0x0a, rest)
      | 'f' :: rest => some (Char.ofNat 0x0c, rest)
      | 'r' :: rest => some (Char.ofNat 0x0d, rest)
      | 'u' :: _ :: _ :: high :: low :: rest => some (Char.ofNat (16 * digitValue high + digitValue low), rest)
      | c :: rest => some (c, rest)
      | [] => none
    else some (c, rest)

theorem ofNat_of_toNat {c : Char} {n : ℕ} (h : c.toNat = n) : c = Char.ofNat n := by
  rw [← h, Char.ofNat_toNat]

theorem unescape_escaped (c : Char) (rest : List Char) : unescape (escaped c ++ rest) = some (c, rest) := by
  unfold escaped
  dsimp only
  split_ifs with hquote hb ht hn hf hr hcontrol
  · obtain h | h := hquote
    · rw [ofNat_of_toNat h]
      rfl
    · rw [ofNat_of_toNat h]
      rfl
  · rw [ofNat_of_toNat hb]
    rfl
  · rw [ofNat_of_toNat ht]
    rfl
  · rw [ofNat_of_toNat hn]
    rfl
  · rw [ofNat_of_toNat hf]
    rfl
  · rw [ofNat_of_toNat hr]
    rfl
  · have hdigits : ∀ n < 0x20, Char.ofNat (16 * digitValue (Nat.digitChar (n / 16)) + digitValue (Nat.digitChar (n % 16))) =
        Char.ofNat n := by decide
    show some (Char.ofNat (16 * digitValue (Nat.digitChar (c.toNat / 16)) + digitValue (Nat.digitChar (c.toNat % 16))), rest) = _
    rw [hdigits c.toNat hcontrol, Char.ofNat_toNat]
  · have hslash : c ≠ backslash := by
      rintro rfl
      exact hquote (Or.inr rfl)
    show (if c = backslash then _ else some (c, rest)) = some (c, rest)
    rw [if_neg hslash]

theorem escaped_append_inj {c c' : Char} {rest rest' : List Char} (h : escaped c ++ rest = escaped c' ++ rest') :
    c = c' ∧ rest = rest' := by
  have hread := unescape_escaped c rest
  rw [h, unescape_escaped] at hread
  obtain ⟨hc, hrest⟩ := Prod.mk.inj (Option.some.inj hread)
  exact ⟨hc.symm, hrest.symm⟩

/-- No character is spelled by a quote, or begins with one. -/
theorem escaped_ne_quote (c : Char) (rest rest' : List Char) : escaped c ++ rest ≠ doubleQuote :: rest' := by
  intro h
  have hread := unescape_escaped c rest
  rw [h] at hread
  have hquote : unescape (doubleQuote :: rest') = some (doubleQuote, rest') := rfl
  obtain ⟨rfl, rfl⟩ := Prod.mk.inj (Option.some.inj (hquote.symm.trans hread))
  have hlength := congrArg List.length h
  rw [List.length_append, List.length_cons] at hlength
  have hspelled : (escaped doubleQuote).length = 2 := rfl
  omega

theorem quotedText_append_inj {s s' : String} {rest rest' : List Char}
    (h : quotedText s ++ rest = quotedText s' ++ rest') : s = s' ∧ rest = rest' := by
  have hbody : ∀ l l' : List Char, l.flatMap escaped ++ doubleQuote :: rest = l'.flatMap escaped ++ doubleQuote :: rest' →
      l = l' ∧ rest = rest' := by
    intro l
    induction l with
    | nil =>
      intro l' h
      cases l' with
      | nil => exact ⟨rfl, (List.cons.inj h).2⟩
      | cons c' l' =>
        rw [List.flatMap_cons, List.append_assoc] at h
        exact absurd h.symm (escaped_ne_quote c' _ _)
    | cons c l ih =>
      intro l' h
      rw [List.flatMap_cons, List.append_assoc] at h
      cases l' with
      | nil => exact absurd h (escaped_ne_quote c _ _)
      | cons c' l' =>
        rw [List.flatMap_cons, List.append_assoc] at h
        obtain ⟨rfl, htail⟩ := escaped_append_inj h
        obtain ⟨rfl, hrest⟩ := ih l' htail
        exact ⟨rfl, hrest⟩
  unfold quotedText at h
  simp only [List.cons_append, List.append_assoc, List.nil_append] at h
  obtain ⟨hs, hrest⟩ := hbody _ _ (List.cons.inj h).2
  exact ⟨String.toList_inj.mp hs, hrest⟩

/-! ### Numbers -/

def numeric (c : Char) : Bool := c.isDigit || c = '-' || c = '+' || c = '.' || c = 'e'

/-- What the language says of the text of a finite number. -/
structure NumberText (number : ℚ → List Char) : Prop where
  injective : Function.Injective number
  nonempty : ∀ q, number q ≠ []
  numeric : ∀ q, ∀ c ∈ number q, numeric c = true

/-- What follows a value's text. -/
def Ends (rest : List Char) : Prop := ∀ c ∈ rest.head?, numeric c = false

variable {number : ℚ → List Char}

theorem takeWhile_number (hnumber : NumberText number) (q : ℚ) {rest : List Char} (hrest : Ends rest) :
    (number q ++ rest).takeWhile numeric = number q := by
  rw [List.takeWhile_append_of_pos (hnumber.numeric q)]
  cases rest with
  | nil => rw [List.takeWhile_nil, List.append_nil]
  | cons c rest =>
    have hc : ¬ numeric c = true := by
      rw [hrest c rfl]
      exact Bool.false_ne_true
    rw [List.takeWhile_cons_of_neg hc, List.append_nil]

/-! ### Values -/

inductive Kind where
  | null
  | true
  | false
  | number
  | string
  | array
  | object
  | none
deriving DecidableEq

def kindOf (v : JsonValue) : Kind :=
  match v with
  | .null => .null
  | .boolean .true => .true
  | .boolean .false => .false
  | .number _ => .number
  | .string _ => .string
  | .array _ => .array
  | .object _ => .object

/-- The kind of value that a text beginning so is of. -/
def kindAt (c : Char) : Kind :=
  if c = 'n' then .null
  else if c = 't' then .true
  else if c = 'f' then .false
  else if numeric c then .number
  else if c = doubleQuote then .string
  else if c = '[' then .array
  else if c = Char.ofNat 0x7b then .object
  else .none

theorem kindAt_jsonText (hnumber : NumberText number) (v : JsonValue) (rest : List Char) :
    (jsonText number v ++ rest).head?.map kindAt = some (kindOf v) := by
  cases v with
  | null => rfl
  | boolean b => cases b <;> rfl
  | number q =>
    obtain ⟨c, l, hl⟩ := List.exists_cons_of_ne_nil (hnumber.nonempty q)
    have hc := hnumber.numeric q c (hl ▸ List.mem_cons_self)
    rw [jsonText, hl]
    show some (kindAt c) = some .number
    have hletters : ∀ d, numeric d = false → c ≠ d := fun d hd heq => by
      rw [heq, hd] at hc
      cases hc
    rw [kindAt, if_neg (hletters _ (by decide)), if_neg (hletters _ (by decide)), if_neg (hletters _ (by decide)), if_pos hc]
  | string s => rfl
  | array items => rfl
  | object entries => rfl

theorem kindOf_eq (hnumber : NumberText number) {v w : JsonValue} {rest rest' : List Char}
    (h : jsonText number v ++ rest = jsonText number w ++ rest') : kindOf v = kindOf w := by
  have hv := kindAt_jsonText hnumber v rest
  rw [h, kindAt_jsonText hnumber w rest'] at hv
  exact (Option.some.inj hv).symm

/-- A value's text does not begin with a closing bracket. -/
theorem jsonText_ne_close (hnumber : NumberText number) (v : JsonValue) {c : Char} (hc : kindAt c = .none) (rest rest' : List Char) :
    jsonText number v ++ rest ≠ c :: rest' := by
  intro h
  have hv := kindAt_jsonText hnumber v rest
  rw [h, List.head?_cons, Option.map_some, hc] at hv
  cases v with
  | boolean b => cases b <;> cases hv
  | _ => cases hv

/-- After a value of a list of `rest`: a comma, or what closes the list. -/
theorem separator_inj {α β : Type} {rest : List α} {rest' : List β} {text text' : List Char} {close : Char} (hclose : close ≠ ',')
    (hlast : rest = [] → ∃ l, text = close :: l) (hlast' : rest' = [] → ∃ l, text' = close :: l)
    (h : (if rest.isEmpty then [] else [',']) ++ text = (if rest'.isEmpty then [] else [',']) ++ text') :
    (rest = [] ↔ rest' = []) ∧ text = text' := by
  cases rest with
  | nil =>
    obtain ⟨l, rfl⟩ := hlast rfl
    cases rest' with
    | nil => exact ⟨iff_of_true rfl rfl, h⟩
    | cons a' rest' => exact absurd (List.cons.inj h).1 hclose
  | cons a rest =>
    cases rest' with
    | nil =>
      obtain ⟨l, rfl⟩ := hlast' rfl
      exact absurd (List.cons.inj h).1.symm hclose
    | cons a' rest' => exact ⟨iff_of_false (List.cons_ne_nil _ _) (List.cons_ne_nil _ _), (List.cons.inj h).2⟩

theorem ends_separator {α : Type} (rest : List α) {text : List Char} (hlast : rest = [] → Ends text) :
    Ends ((if rest.isEmpty then [] else [',']) ++ text) := by
  cases rest with
  | nil => exact hlast rfl
  | cons a rest =>
    intro c hc
    obtain rfl : ',' = c := Option.some.inj hc
    decide

mutual

/-- A value's text says which value it is, and where it ends. -/
theorem jsonText_append_inj (hnumber : NumberText number) : ∀ (v w : JsonValue) (rest rest' : List Char), Ends rest → Ends rest' →
    jsonText number v ++ rest = jsonText number w ++ rest' → v = w ∧ rest = rest'
  | .null, w, rest, rest', hrest, hrest', h => by
    have hkind := kindOf_eq hnumber h
    cases w with
    | null => exact ⟨rfl, List.append_cancel_left h⟩
    | boolean b => cases b <;> cases hkind
    | _ => cases hkind
  | .boolean b, w, rest, rest', hrest, hrest', h => by
    have hkind := kindOf_eq hnumber h
    cases w with
    | boolean b' =>
      cases b with
      | false =>
        cases b' with
        | false => exact ⟨rfl, List.append_cancel_left h⟩
        | true => cases hkind
      | true =>
        cases b' with
        | false => cases hkind
        | true => exact ⟨rfl, List.append_cancel_left h⟩
    | _ => cases b <;> cases hkind
  | .number q, w, rest, rest', hrest, hrest', h => by
    have hkind := kindOf_eq hnumber h
    cases w with
    | number q' =>
      rw [jsonText, jsonText] at h
      have hq := takeWhile_number hnumber q hrest
      rw [h, takeWhile_number hnumber q' hrest'] at hq
      obtain rfl := hnumber.injective hq
      exact ⟨rfl, List.append_cancel_left h⟩
    | boolean b => cases b <;> cases hkind
    | _ => cases hkind
  | .string s, w, rest, rest', hrest, hrest', h => by
    have hkind := kindOf_eq hnumber h
    cases w with
    | string s' =>
      rw [jsonText, jsonText] at h
      obtain ⟨rfl, htail⟩ := quotedText_append_inj h
      exact ⟨rfl, htail⟩
    | boolean b => cases b <;> cases hkind
    | _ => cases hkind
  | .array items, w, rest, rest', hrest, hrest', h => by
    have hkind := kindOf_eq hnumber h
    cases w with
    | array items' =>
      rw [jsonText, jsonText] at h
      obtain ⟨rfl, htail⟩ := itemsText_append_inj hnumber items items' rest rest' (List.cons.inj h).2
      exact ⟨rfl, htail⟩
    | boolean b => cases b <;> cases hkind
    | _ => cases hkind
  | .object entries, w, rest, rest', hrest, hrest', h => by
    have hkind := kindOf_eq hnumber h
    cases w with
    | object entries' =>
      rw [jsonText, jsonText] at h
      obtain ⟨rfl, htail⟩ := entriesText_append_inj hnumber entries entries' rest rest' (List.cons.inj h).2
      exact ⟨rfl, htail⟩
    | boolean b => cases b <;> cases hkind
    | _ => cases hkind

theorem itemsText_append_inj (hnumber : NumberText number) : ∀ (items items' : List JsonValue) (rest rest' : List Char),
    itemsText number items ++ rest = itemsText number items' ++ rest' → items = items' ∧ rest = rest'
  | [], [], rest, rest', h => ⟨rfl, List.append_cancel_left h⟩
  | [], w :: items', rest, rest', h => by
    rw [itemsText, itemsText, List.append_assoc, List.append_assoc] at h
    exact absurd h.symm (jsonText_ne_close hnumber w (by decide) _ _)
  | v :: items, [], rest, rest', h => by
    rw [itemsText, itemsText, List.append_assoc, List.append_assoc] at h
    exact absurd h (jsonText_ne_close hnumber v (by decide) _ _)
  | v :: items, w :: items', rest, rest', h => by
    have hlast : ∀ (items : List JsonValue) (rest : List Char), items = [] → ∃ l, itemsText number items ++ rest = ']' :: l := by
      rintro items rest rfl
      exact ⟨rest, rfl⟩
    have hends : ∀ (items : List JsonValue) (rest : List Char), items = [] → Ends (itemsText number items ++ rest) := by
      rintro items rest rfl c hc
      obtain rfl : ']' = c := Option.some.inj hc
      decide
    rw [itemsText, itemsText, List.append_assoc, List.append_assoc, List.append_assoc, List.append_assoc] at h
    obtain ⟨rfl, htail⟩ := jsonText_append_inj hnumber v w _ _ (ends_separator items (hends items rest))
      (ends_separator items' (hends items' rest')) h
    obtain ⟨-, htext⟩ := separator_inj (by decide) (hlast items rest) (hlast items' rest') htail
    obtain ⟨rfl, hrest⟩ := itemsText_append_inj hnumber items items' rest rest' htext
    exact ⟨rfl, hrest⟩

theorem entriesText_append_inj (hnumber : NumberText number) :
    ∀ (entries entries' : List (String × JsonValue)) (rest rest' : List Char),
      entriesText number entries ++ rest = entriesText number entries' ++ rest' → entries = entries' ∧ rest = rest'
  | [], [], rest, rest', h => ⟨rfl, List.append_cancel_left h⟩
  | [], (key', w) :: entries', rest, rest', h => by
    rw [entriesText, entriesText] at h
    cases h
  | (key, v) :: entries, [], rest, rest', h => by
    rw [entriesText, entriesText] at h
    cases h
  | (key, v) :: entries, (key', w) :: entries', rest, rest', h => by
    have hlast : ∀ (entries : List (String × JsonValue)) (rest : List Char), entries = [] →
        ∃ l, entriesText number entries ++ rest = Char.ofNat 0x7d :: l := by
      rintro entries rest rfl
      exact ⟨rest, rfl⟩
    have hends : ∀ (entries : List (String × JsonValue)) (rest : List Char), entries = [] →
        Ends (entriesText number entries ++ rest) := by
      rintro entries rest rfl c hc
      obtain rfl : Char.ofNat 0x7d = c := Option.some.inj hc
      decide
    rw [entriesText, entriesText] at h
    simp only [List.append_assoc, List.cons_append] at h
    obtain ⟨rfl, hvalue⟩ := quotedText_append_inj h
    obtain ⟨rfl, htail⟩ := jsonText_append_inj hnumber v w _ _ (ends_separator entries (hends entries rest))
      (ends_separator entries' (hends entries' rest')) (List.cons.inj hvalue).2
    obtain ⟨-, htext⟩ := separator_inj (by decide) (hlast entries rest) (hlast entries' rest') htail
    obtain ⟨rfl, hrest⟩ := entriesText_append_inj hnumber entries entries' rest rest' htext
    exact ⟨rfl, hrest⟩

end

end JsonCodec
end Grove
