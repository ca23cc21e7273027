import Mathlib.Data.Nat.Digits.Lemmas

/-! # How a text spells a number

The decimal digits of a number, what a run of digits is worth, and the bytes an integer is written as;
`digitsValue_digitsOf` reads back what was written. -/

namespace Grove.Decimal

/-- The bytes of an ASCII text. -/
def ascii (text : String) : List UInt8 := text.toList.map fun c => UInt8.ofNat c.toNat

def minus : UInt8 := 0x2d

def digitsValue (ds : List ℕ) : ℕ := ds.foldl (fun v d => v * 10 + d) 0

/-- The digits of a number, the first one first. -/
def digitsOf (n : ℕ) : List ℕ := if n = 0 then [0] else (Nat.digits 10 n).reverse

def digitByte (d : ℕ) : UInt8 := UInt8.ofNat (0x30 + d)

def decimal (z : ℤ) : List UInt8 :=
  let digits := (digitsOf z.natAbs).map digitByte
  if z < 0 then minus :: digits else digits

theorem digitsOf_lt {n d : ℕ} (h : d ∈ digitsOf n) : d < 10 := by
  rw [digitsOf] at h
  split_ifs at h with hn
  · rw [List.mem_singleton.mp h]
    decide
  · exact Nat.digits_lt_base (by decide) (List.mem_reverse.mp h)

theorem digitsValue_digitsOf (n : ℕ) : digitsValue (digitsOf n) = n := by
  rw [digitsOf]
  split_ifs with hn
  · rw [hn]
    rfl
  · have hfold : ∀ ds : List ℕ, digitsValue ds.reverse = Nat.ofDigits 10 ds := by
      intro ds
      rw [digitsValue, List.foldl_reverse, Nat.ofDigits_eq_foldr]
      congr 1
      funext d v
      push_cast
      ring
    rw [hfold, Nat.ofDigits_digits]

end Grove.Decimal
