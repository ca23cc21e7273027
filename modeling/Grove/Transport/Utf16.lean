import Grove.Transport.Codec

/-! # Counting a text's bytes

`utf8ByteLength` of `packages/transport/src/codec.ts`, on the code units a text is held in: surrogates may stand in
any arrangement.  A socket sends the UTF-8 of the text's characters, with U+FFFD for a surrogate without its partner
(`scalars`).  A text that has none is counted as its characters are (`JsonCodec.utf8ByteLength`). -/

namespace Grove
namespace Utf16

/-- The loop of `utf8ByteLength`, from the unit at `i`. -/
def countFrom (text : List UInt16) (i bytes : ℕ) : ℕ :=
  if h : i < text.length then
    let code := text[i]
    if code < 0x80 then countFrom text (i + 1) (bytes + 1)
    else if code < 0x800 then countFrom text (i + 1) (bytes + 2)
    else if hpair : (0xd800 ≤ code ∧ code ≤ 0xdbff) ∧ i + 1 < text.length then
      let next := text[i + 1]
      if 0xdc00 ≤ next ∧ next ≤ 0xdfff then countFrom text (i + 2) (bytes + 4) else countFrom text (i + 1) (bytes + 3)
    else countFrom text (i + 1) (bytes + 3)
  else bytes
termination_by text.length - i

def utf8ByteLength (text : List UInt16) : ℕ := countFrom text 0 0

/-! ### The characters of a text -/

def isHigh (u : UInt16) : Prop := 0xd800 ≤ u ∧ u ≤ 0xdbff

def isLow (u : UInt16) : Prop := 0xdc00 ≤ u ∧ u ≤ 0xdfff

instance (u : UInt16) : Decidable (isHigh u) := inferInstanceAs (Decidable (_ ∧ _))

instance (u : UInt16) : Decidable (isLow u) := inferInstanceAs (Decidable (_ ∧ _))

/-- U+FFFD. -/
def replacement : Char := Char.ofNat 0xfffd

/-- The character of one unit that has no partner. -/
def lone (u : UInt16) : Char := if isHigh u ∨ isLow u then replacement else Char.ofNat u.toNat

/-- The character of a pair of surrogates. -/
def paired (high low : UInt16) : Char :=
  Char.ofNat (0x10000 + (high.toNat - 0xd800) * 0x400 + (low.toNat - 0xdc00))

/-- The characters of a text, the first one first. -/
def scalars : List UInt16 → List Char
  | [] => []
  | [u] => [lone u]
  | u :: v :: rest =>
    if isHigh u ∧ isLow v then paired u v :: scalars rest else lone u :: scalars (v :: rest)

/-- The bytes a text is sent as. -/
def utf8 (text : List UInt16) : List UInt8 := (scalars text).flatMap String.utf8EncodeChar

theorem scalars_pair {u v : UInt16} (hu : isHigh u) (hv : isLow v) (rest : List UInt16) :
    scalars (u :: v :: rest) = paired u v :: scalars rest := by
  rw [scalars, if_pos ⟨hu, hv⟩]

/-- A unit that starts no pair. -/
theorem scalars_lone {u : UInt16} {rest : List UInt16} (h : isHigh u → ∀ v ∈ rest.head?, ¬ isLow v) :
    scalars (u :: rest) = lone u :: scalars rest := by
  cases rest with
  | nil => rfl
  | cons v rest => rw [scalars, if_neg fun hpair => h hpair.1 v rfl hpair.2]

/-! ### Sizes -/

theorem utf8Size_eq (c : Char) : c.utf8Size =
    if c.toNat < 0x80 then 1 else if c.toNat < 0x800 then 2 else if c.toNat < 0x10000 then 3 else 4 := by
  have hval : c.toNat = c.val.toNat := rfl
  unfold Char.utf8Size
  simp only [UInt32.le_iff_toNat_le, hval]
  have h1 : (UInt32.ofNatLT 0x7F (by decide)).toNat = 127 := rfl
  have h2 : (UInt32.ofNatLT 0x7FF (by decide)).toNat = 2047 := rfl
  have h3 : (UInt32.ofNatLT 0xFFFF (by decide)).toNat = 65535 := rfl
  simp only [h1, h2, h3]
  split_ifs <;> omega

theorem utf8Size_ofNat {n : ℕ} (h : n.isValidChar) : (Char.ofNat n).utf8Size =
    if n < 0x80 then 1 else if n < 0x800 then 2 else if n < 0x10000 then 3 else 4 := by
  have hval : (Char.ofNat n).toNat = n := by
    rw [Char.ofNat, dif_pos h]
    rfl
  rw [utf8Size_eq, hval]

theorem isHigh_iff (u : UInt16) : isHigh u ↔ 0xd800 ≤ u.toNat ∧ u.toNat ≤ 0xdbff := by
  rw [isHigh, UInt16.le_iff_toNat_le, UInt16.le_iff_toNat_le]
  exact Iff.rfl

theorem isLow_iff (u : UInt16) : isLow u ↔ 0xdc00 ≤ u.toNat ∧ u.toNat ≤ 0xdfff := by
  rw [isLow, UInt16.le_iff_toNat_le, UInt16.le_iff_toNat_le]
  exact Iff.rfl

theorem utf8Size_lone (u : UInt16) : (lone u).utf8Size = if u < 0x80 then 1 else if u < 0x800 then 2 else 3 := by
  have hsmall : u < 0x80 ↔ u.toNat < 0x80 := UInt16.lt_iff_toNat_lt
  have hmiddle : u < 0x800 ↔ u.toNat < 0x800 := UInt16.lt_iff_toNat_lt
  have hlt := u.toNat_lt
  simp only [hsmall, hmiddle]
  unfold lone
  split_ifs with hsurrogate hone htwo htwo
  · rw [isHigh_iff, isLow_iff] at hsurrogate
    omega
  · rw [isHigh_iff, isLow_iff] at hsurrogate
    omega
  · rfl
  all_goals
    rw [isHigh_iff, isLow_iff] at hsurrogate
    rw [utf8Size_ofNat (by unfold Nat.isValidChar; omega)]
    split_ifs
    all_goals omega

theorem utf8Size_paired {u v : UInt16} (hu : isHigh u) (hv : isLow v) : (paired u v).utf8Size = 4 := by
  rw [isHigh_iff] at hu
  rw [isLow_iff] at hv
  unfold paired
  rw [utf8Size_ofNat (.inr ⟨by omega, by omega⟩), if_neg (by omega), if_neg (by omega), if_neg (by omega)]

theorem length_utf8_cons (c : Char) (cs : List Char) :
    ((c :: cs).flatMap String.utf8EncodeChar).length = c.utf8Size + (cs.flatMap String.utf8EncodeChar).length := by
  rw [List.flatMap_cons, List.length_append, String.length_utf8EncodeChar]

/-- A unit below `0x800` is no surrogate. -/
theorem not_isHigh {u : UInt16} (h : u < 0x800) : ¬ isHigh u := by
  rw [UInt16.lt_iff_toNat_lt] at h
  rw [isHigh_iff]
  exact fun hhigh => absurd (hhigh.1.trans_lt h) (by decide)

/-- A unit that starts no pair is sent by itself. -/
theorem length_utf8_lone {text : List UInt16} {i : ℕ} (hi : i < text.length)
    (hlone : isHigh text[i] → ∀ v ∈ (text.drop (i + 1)).head?, ¬ isLow v) :
    (utf8 (text.drop i)).length = (lone text[i]).utf8Size + (utf8 (text.drop (i + 1))).length := by
  rw [List.drop_eq_getElem_cons hi, utf8, scalars_lone hlone, length_utf8_cons]
  rfl

theorem length_utf8_pair {text : List UInt16} {i : ℕ} (hi : i + 1 < text.length) (hhigh : isHigh text[i])
    (hlow : isLow text[i + 1]) : (utf8 (text.drop i)).length = 4 + (utf8 (text.drop (i + 2))).length := by
  rw [List.drop_eq_getElem_cons (by omega), List.drop_eq_getElem_cons hi, utf8, scalars_pair hhigh hlow, length_utf8_cons,
    utf8Size_paired hhigh hlow]
  rfl

/-- The loop has counted what is before `i`, and counts the rest. -/
theorem countFrom_eq (text : List UInt16) (i bytes : ℕ) :
    countFrom text i bytes = bytes + (utf8 (text.drop i)).length := by
  fun_induction countFrom text i bytes with
  | case1 i bytes h code hone ih =>
    have hsmall : code < 0x800 := UInt16.lt_trans hone (by decide)
    rw [ih, length_utf8_lone h (fun hhigh => absurd hhigh (not_isHigh hsmall)), utf8Size_lone, if_pos hone]
    omega
  | case2 i bytes h code hone htwo ih =>
    rw [ih, length_utf8_lone h (fun hhigh => absurd hhigh (not_isHigh htwo)), utf8Size_lone, if_neg hone, if_pos htwo]
    omega
  | case3 i bytes h code hone htwo hpair next hnext ih =>
    rw [ih, length_utf8_pair hpair.2 hpair.1 hnext]
    omega
  | case4 i bytes h code hone htwo hpair next hnext ih =>
    have hlone : isHigh text[i] → ∀ v ∈ (text.drop (i + 1)).head?, ¬ isLow v := by
      intro _ v hv
      rw [List.head?_drop, List.getElem?_eq_getElem hpair.2] at hv
      obtain rfl := Option.some.inj hv
      exact hnext
    rw [ih, length_utf8_lone h hlone, utf8Size_lone, if_neg hone, if_neg htwo]
    omega
  | case5 i bytes h code hone htwo hpair ih =>
    have hlone : isHigh text[i] → ∀ v ∈ (text.drop (i + 1)).head?, ¬ isLow v := by
      intro hhigh v hv
      rw [List.head?_drop, List.getElem?_eq_none (not_lt.mp fun hlt => hpair ⟨hhigh, hlt⟩)] at hv
      cases hv
    rw [ih, length_utf8_lone h hlone, utf8Size_lone, if_neg hone, if_neg htwo]
    omega
  | case6 i bytes h =>
    rw [List.drop_eq_nil_of_le (not_lt.mp h)]
    rfl

/-- Whatever arrangement the surrogates of a text stand in, the count is the bytes it is sent as. -/
theorem utf8ByteLength_eq (text : List UInt16) : utf8ByteLength text = (utf8 text).length := by
  rw [utf8ByteLength, countFrom_eq, List.drop_zero, Nat.zero_add]

end Utf16
end Grove
