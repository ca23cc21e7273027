import Mathlib.Tactic

/-! # Words mixed by shifts and exclusive or

Folding a shifted copy of a word into it loses nothing, since a word that a shift leaves as it is is zero
(`eq_zero_of_ushiftRight`, `eq_zero_of_shiftLeft`); nor does a rotation, or a multiplication by a word that has an
inverse. -/

namespace Grove.Words

variable {w k : ℕ}

theorem eq_zero_of_ushiftRight (hk : 0 < k) {d : BitVec w} (h : d >>> k = d) : d = 0 := by
  apply BitVec.eq_of_toNat_eq
  have hnat : d.toNat / 2 ^ k = d.toNat := by
    rw [← Nat.shiftRight_eq_div_pow, ← BitVec.toNat_ushiftRight, h]
  by_contra hne
  have hpos : 0 < d.toNat := Nat.pos_of_ne_zero hne
  have hlt := Nat.div_lt_self hpos (Nat.one_lt_two_pow hk.ne')
  omega

theorem eq_zero_of_shiftLeft (hk : 0 < k) {d : BitVec w} (h : d <<< k = d) : d = 0 := by
  have hall : ∀ n, d <<< (k * n) = d := by
    intro n
    induction n with
    | zero => simp
    | succ n ih => rw [Nat.mul_succ, BitVec.shiftLeft_add, ih, h]
  rw [← hall w]
  exact BitVec.shiftLeft_eq_zero (Nat.le_mul_of_pos_left w hk)

/-- A linear fold loses nothing when only zero folds to itself. -/
theorem xor_injective {f : BitVec w → BitVec w} (hxor : ∀ x y, f (x ^^^ y) = f x ^^^ f y)
    (hzero : ∀ d, f d = d → d = 0) : Function.Injective fun x => x ^^^ f x := by
  intro x y h
  replace h : x ^^^ f x = y ^^^ f y := h
  have hd : f (x ^^^ y) = x ^^^ y := by
    have hsum : (x ^^^ y) ^^^ f (x ^^^ y) = 0 := by
      calc (x ^^^ y) ^^^ f (x ^^^ y) = (x ^^^ f x) ^^^ (y ^^^ f y) := by rw [hxor]; ac_rfl
        _ = 0 := by rw [h, BitVec.xor_self]; rfl
    exact (BitVec.xor_eq_zero_iff.mp hsum).symm
  exact BitVec.xor_eq_zero_iff.mp (hzero _ hd)

theorem xor_ushiftRight_injective (hk : 0 < k) : Function.Injective fun x : BitVec w => x ^^^ x >>> k :=
  xor_injective (fun x y => BitVec.ushiftRight_xor_distrib x y k) fun _ => eq_zero_of_ushiftRight hk

theorem xor_shiftLeft_injective (hk : 0 < k) : Function.Injective fun x : BitVec w => x ^^^ x <<< k :=
  xor_injective (fun x y => BitVec.shiftLeft_xor_distrib x y k) fun _ => eq_zero_of_shiftLeft hk

theorem mul_injective {c c' : BitVec w} (h : c * c' = 1#w) : Function.Injective fun x : BitVec w => x * c := by
  intro x y hxy
  replace hxy : x * c = y * c := hxy
  calc x = x * c * c' := by rw [BitVec.mul_assoc, h, BitVec.mul_one]
    _ = y := by rw [hxy, BitVec.mul_assoc, h, BitVec.mul_one]

theorem xor_right_injective (c : BitVec w) : Function.Injective fun x : BitVec w => x ^^^ c := by
  intro x y h
  replace h : x ^^^ c = y ^^^ c := h
  calc x = x ^^^ c ^^^ c := by rw [BitVec.xor_assoc, BitVec.xor_self, BitVec.xor_zero]
    _ = y := by rw [h, BitVec.xor_assoc, BitVec.xor_self, BitVec.xor_zero]

theorem rotateLeft_injective (hk : k < w) : Function.Injective fun x : BitVec w => x.rotateLeft k := by
  intro x y h
  replace h : x.rotateLeft k = y.rotateLeft k := h
  apply BitVec.eq_of_getLsbD_eq
  intro i hi
  have hbit : ∀ j, (x.rotateLeft k).getLsbD j = (y.rotateLeft k).getLsbD j := fun j => by rw [h]
  -- where the bit went
  by_cases hout : i + k < w
  · have hat := hbit (i + k)
    rw [BitVec.getLsbD_rotateLeft_of_le hk, BitVec.getLsbD_rotateLeft_of_le hk, decide_eq_false (by omega), cond_false,
      cond_false, decide_eq_true hout, Bool.true_and, Bool.true_and, Nat.add_sub_cancel] at hat
    exact hat
  · have hat := hbit (i + k - w)
    rw [BitVec.getLsbD_rotateLeft_of_le hk, BitVec.getLsbD_rotateLeft_of_le hk, decide_eq_true (by omega), cond_true,
      cond_true, show w - k + (i + k - w) = i by omega] at hat
    exact hat

end Grove.Words
