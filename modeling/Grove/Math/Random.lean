import Grove.Core.Value
import Grove.Lib.Words

/-! # The seeded generator

`packages/math/src/random.ts`.  A bitwise operator of the language reads 32 bits of a whole number and answers a whole
number again, signed or not: `bits` is what it reads.  `Xoshiro` is xoshiro128** on the bits alone, and `words` what
the generator's four numbers are as bits; `never_degenerates` says that the two go together. -/

namespace Grove.Random

/-! ### Bitwise operators -/

/-- The 32 bits a bitwise operator reads of a whole number. -/
def bits (x : ℤ) : BitVec 32 := BitVec.ofInt 32 x

def xor (x y : ℤ) : ℤ := (bits x ^^^ bits y).toInt

def or (x y : ℤ) : ℤ := (bits x ||| bits y).toInt

/-- `x << k`, for `k` below 32. -/
def shiftLeft (x : ℤ) (k : ℕ) : ℤ := (bits x <<< k).toInt

/-- `x >>> k`, for `k` below 32. -/
def shiftRight (x : ℤ) (k : ℕ) : ℤ := (bits x >>> k).toNat

/-- `Math.imul`. -/
def imul (x y : ℤ) : ℤ := (bits x * bits y).toInt

section Operators

variable (x y : ℤ) (k : ℕ)

@[simp] theorem bits_xor : bits (xor x y) = bits x ^^^ bits y := BitVec.ofInt_toInt

@[simp] theorem bits_or : bits (or x y) = bits x ||| bits y := BitVec.ofInt_toInt

@[simp] theorem bits_shiftLeft : bits (shiftLeft x k) = bits x <<< k := BitVec.ofInt_toInt

@[simp] theorem bits_shiftRight : bits (shiftRight x k) = bits x >>> k := by
  rw [bits, shiftRight, BitVec.ofInt_natCast, BitVec.ofNat_toNat, BitVec.setWidth_eq]

@[simp] theorem bits_imul : bits (imul x y) = bits x * bits y := BitVec.ofInt_toInt

@[simp] theorem bits_add : bits (x + y) = bits x + bits y := BitVec.ofInt_add ..

end Operators

def rotl (x : ℤ) (k : ℕ) : ℤ := shiftRight (or (shiftLeft x k) (shiftRight x (32 - k))) 0

/-- `0x9e3779b9`. -/
def golden : ℤ := 0x9e3779b9

def splitmix32 (seed : ℤ) : ℤ :=
  let seed := or (seed + golden) 0
  let z := seed
  let z := imul (xor z (shiftRight z 16)) 0x85ebca6b
  let z := imul (xor z (shiftRight z 13)) 0xc2b2ae35
  shiftRight (xor z (shiftRight z 16)) 0

structure SeededRandom where
  s0 : ℤ
  s1 : ℤ
  s2 : ℤ
  s3 : ℤ

namespace SeededRandom

variable (r : SeededRandom)

/-- A generator whose seed is a number; the bitwise or takes it modulo `2 ^ 32`. -/
def seed (n : JsNumber) : SeededRandom :=
  let s := n.toInt32
  let s0 := splitmix32 s
  let s := or (s + golden) 0
  let s1 := splitmix32 s
  let s := or (s + golden) 0
  let s2 := splitmix32 s
  let s := or (s + golden) 0
  ⟨s0, s1, s2, splitmix32 s⟩

/-- The number drawn, and the generator after it. -/
def next : ℚ × SeededRandom :=
  let result := shiftRight (imul (rotl (imul r.s1 5) 7) 9) 0
  let t := shiftRight (shiftLeft r.s1 9) 0
  let s2 := xor r.s2 r.s0
  let s3 := xor r.s3 r.s1
  let s1 := xor r.s1 s2
  let s0 := xor r.s0 s3
  let s2 := xor s2 t
  let s3 := rotl s3 11
  (result / 0x100000000, ⟨s0, s1, s2, s3⟩)

def capture : ℤ × ℤ × ℤ × ℤ := (r.s0, r.s1, r.s2, r.s3)

def restore (_ : SeededRandom) (state : ℤ × ℤ × ℤ × ℤ) : SeededRandom := ⟨state.1, state.2.1, state.2.2.1, state.2.2.2⟩

/-- The generator after so many draws. -/
def drawn (n : ℕ) : SeededRandom := (fun r => r.next.2)^[n] r

/-- The numbers of the first draws. -/
def draws (n : ℕ) : List ℚ := (List.range n).map fun k => (r.drawn k).next.1

end SeededRandom

/-! ### The reference -/

/-- Four words of xoshiro128**. -/
@[ext] structure Xoshiro where
  s0 : BitVec 32
  s1 : BitVec 32
  s2 : BitVec 32
  s3 : BitVec 32
deriving DecidableEq

/-- The mixer of splitmix32. -/
def mix (z : BitVec 32) : BitVec 32 :=
  let z := (z ^^^ z >>> 16) * 0x85ebca6b
  let z := (z ^^^ z >>> 13) * 0xc2b2ae35
  z ^^^ z >>> 16

namespace Xoshiro

variable (x : Xoshiro)

/-- The first four words of splitmix32. -/
def seed (s : BitVec 32) : Xoshiro :=
  ⟨mix (s + 0x9e3779b9), mix (s + 2 * 0x9e3779b9), mix (s + 3 * 0x9e3779b9), mix (s + 4 * 0x9e3779b9)⟩

def output : BitVec 32 := (x.s1 * 5).rotateLeft 7 * 9

def step : Xoshiro :=
  let s2 := x.s2 ^^^ x.s0
  let s3 := x.s3 ^^^ x.s1
  ⟨x.s0 ^^^ s3, x.s1 ^^^ s2, s2 ^^^ x.s1 <<< 9, s3.rotateLeft 11⟩

theorem mix_injective : Function.Injective mix := by
  have hinv : (0x85ebca6b : BitVec 32) * 0xa5cb9243 = 1 := by decide
  have hinv' : (0xc2b2ae35 : BitVec 32) * 0x7ed1b41d = 1 := by decide
  have hfirst : Function.Injective fun z : BitVec 32 => (z ^^^ z >>> 16) * 0x85ebca6b :=
    (Words.mul_injective hinv).comp (Words.xor_ushiftRight_injective (by decide))
  have hsecond : Function.Injective fun z : BitVec 32 => (z ^^^ z >>> 13) * 0xc2b2ae35 :=
    (Words.mul_injective hinv').comp (Words.xor_ushiftRight_injective (by decide))
  exact (Words.xor_ushiftRight_injective (by decide)).comp (hsecond.comp hfirst)

/-- No seed makes the four words zero: the first two are mixed from different numbers. -/
theorem seed_ne_zero (s : BitVec 32) : seed s ≠ ⟨0, 0, 0, 0⟩ := by
  intro h
  have hmix : mix (s + 0x9e3779b9) = mix (s + 2 * 0x9e3779b9) := by
    rw [show mix (s + 0x9e3779b9) = 0 from congrArg s0 h, show mix (s + 2 * 0x9e3779b9) = 0 from congrArg s1 h]
  have hsum := mix_injective hmix
  rw [BitVec.add_right_inj] at hsum
  exact absurd hsum (by decide)

theorem fold (a b c : BitVec 32) : a ^^^ c = (a ^^^ b) ^^^ (b ^^^ c) := by
  rw [BitVec.xor_assoc, ← BitVec.xor_assoc b b c, BitVec.xor_self, BitVec.zero_xor]

theorem step_injective : Function.Injective step := by
  intro x y h
  have h0 : x.s0 ^^^ (x.s3 ^^^ x.s1) = y.s0 ^^^ (y.s3 ^^^ y.s1) := congrArg s0 h
  have h1 : x.s1 ^^^ (x.s2 ^^^ x.s0) = y.s1 ^^^ (y.s2 ^^^ y.s0) := congrArg s1 h
  have h2 : x.s2 ^^^ x.s0 ^^^ x.s1 <<< 9 = y.s2 ^^^ y.s0 ^^^ y.s1 <<< 9 := congrArg s2 h
  have h3 : (x.s3 ^^^ x.s1).rotateLeft 11 = (y.s3 ^^^ y.s1).rotateLeft 11 := congrArg s3 h
  have hmixed := Words.rotateLeft_injective (by decide : 11 < 32) h3
  obtain ⟨x0, x1, x2, x3⟩ := x
  obtain ⟨y0, y1, y2, y3⟩ := y
  dsimp only at h0 h1 h2 hmixed
  rw [hmixed] at h0
  obtain rfl := Words.xor_right_injective _ h0
  have hs1 : x1 = y1 := by
    refine Words.xor_shiftLeft_injective (by decide : 0 < 9) ?_
    calc x1 ^^^ x1 <<< 9 = (x1 ^^^ (x2 ^^^ x0)) ^^^ (x2 ^^^ x0 ^^^ x1 <<< 9) := fold _ _ _
      _ = (y1 ^^^ (y2 ^^^ x0)) ^^^ (y2 ^^^ x0 ^^^ y1 <<< 9) := by rw [h1, h2]
      _ = y1 ^^^ y1 <<< 9 := (fold _ _ _).symm
  subst hs1
  obtain rfl := Words.xor_right_injective _ (Words.xor_right_injective _ h2)
  obtain rfl := Words.xor_right_injective _ hmixed
  rfl

instance : Finite Xoshiro :=
  .of_injective (fun x : Xoshiro => (x.s0.toFin, x.s1.toFin, x.s2.toFin, x.s3.toFin)) fun x y h => by
    simp only [Prod.mk.injEq, BitVec.toFin_inj] at h
    exact Xoshiro.ext h.1 h.2.1 h.2.2.1 h.2.2.2

/-- Each state comes after exactly one. -/
theorem exists_unique_before (x : Xoshiro) : ∃! y, step y = x :=
  (Function.bijective_iff_existsUnique step).mp ⟨step_injective, Finite.surjective_of_injective step_injective⟩ x

end Xoshiro

/-! ### The generator -/

namespace SeededRandom

/-- The words of a generator, whatever sign it holds them with. -/
def words (r : SeededRandom) : Xoshiro := ⟨bits r.s0, bits r.s1, bits r.s2, bits r.s3⟩

theorem bits_rotl {k : ℕ} (hk : 0 < k ∧ k < 32) (x : ℤ) : bits (rotl x k) = (bits x).rotateLeft k := by
  rw [rotl, BitVec.rotateLeft_def, Nat.mod_eq_of_lt hk.2]
  simp

theorem bits_splitmix32 (s : ℤ) : bits (splitmix32 s) = mix (bits s + 0x9e3779b9) := by
  unfold splitmix32 mix
  simp only [bits_shiftRight, bits_xor, bits_imul, bits_or, bits_add, BitVec.ushiftRight_zero]
  rw [show bits 0 = 0#32 from rfl, BitVec.or_zero]
  rfl

theorem words_seed (n : JsNumber) : (seed n).words = .seed (bits n.toInt32) := by
  have hgolden : ∀ s, bits (or (s + golden) 0) = bits s + 0x9e3779b9 := by
    intro s
    rw [bits_or, show bits 0 = 0#32 from rfl, BitVec.or_zero, bits_add]
    rfl
  unfold seed words Xoshiro.seed
  simp only [bits_splitmix32, hgolden]
  have htwice : ∀ s : BitVec 32, s + 0x9e3779b9 + 0x9e3779b9 = s + 2 * 0x9e3779b9 := fun s => by
    rw [BitVec.add_assoc, show (0x9e3779b9 + 0x9e3779b9 : BitVec 32) = 2 * 0x9e3779b9 by decide]
  have hthrice : ∀ s : BitVec 32, s + 2 * 0x9e3779b9 + 0x9e3779b9 = s + 3 * 0x9e3779b9 := fun s => by
    rw [BitVec.add_assoc, show (2 * 0x9e3779b9 + 0x9e3779b9 : BitVec 32) = 3 * 0x9e3779b9 by decide]
  have hfourth : ∀ s : BitVec 32, s + 3 * 0x9e3779b9 + 0x9e3779b9 = s + 4 * 0x9e3779b9 := fun s => by
    rw [BitVec.add_assoc, show (3 * 0x9e3779b9 + 0x9e3779b9 : BitVec 32) = 4 * 0x9e3779b9 by decide]
  rw [htwice, hthrice, hfourth]

variable (r : SeededRandom)

theorem words_next : r.next.2.words = r.words.step := by
  have hrotl : ∀ x, bits (rotl x 11) = (bits x).rotateLeft 11 := bits_rotl (by decide)
  unfold next words Xoshiro.step
  simp only [hrotl, bits_xor, bits_shiftRight, bits_shiftLeft, BitVec.ushiftRight_zero]

/-- The number drawn is the reference's word over `2 ^ 32`. -/
theorem next_output : r.next.1 = (r.words.output.toNat : ℚ) / 2 ^ 32 := by
  have hbits : bits (imul (rotl (imul r.s1 5) 7) 9) = r.words.output := by
    rw [bits_imul, bits_rotl (by decide), bits_imul]
    rfl
  show ((shiftRight (imul (rotl (imul r.s1 5) 7) 9) 0 : ℤ) : ℚ) / 0x100000000 = _
  rw [shiftRight, hbits, BitVec.ushiftRight_zero]
  norm_num

theorem words_drawn (n : ℕ) : (r.drawn n).words = Xoshiro.step^[n] r.words := by
  induction n with
  | zero => rfl
  | succ n ih =>
    unfold drawn at ih ⊢
    rw [Function.iterate_succ_apply', Function.iterate_succ_apply', words_next, ih]

/-- A state that is not all zero leads to none that is. -/
theorem step_ne_zero {x : Xoshiro} (h : x ≠ ⟨0, 0, 0, 0⟩) : x.step ≠ ⟨0, 0, 0, 0⟩ := by
  intro hstep
  exact h (Xoshiro.step_injective (hstep.trans (by decide : (⟨0, 0, 0, 0⟩ : Xoshiro) = Xoshiro.step ⟨0, 0, 0, 0⟩)))

theorem iterate_step_ne_zero {x : Xoshiro} (h : x ≠ ⟨0, 0, 0, 0⟩) (n : ℕ) : Xoshiro.step^[n] x ≠ ⟨0, 0, 0, 0⟩ := by
  induction n with
  | zero => exact h
  | succ n ih =>
    rw [Function.iterate_succ_apply']
    exact step_ne_zero ih

/-- From every seed and after every number of draws: the words are the reference's and never all zero, the number drawn
is a 32-bit word over `2 ^ 32`, a captured state restored anywhere draws on as this one does, and every state of the
reference comes after exactly one. -/
theorem never_degenerates (n : JsNumber) (count : ℕ) :
    ((seed n).drawn count).words = Xoshiro.step^[count] (.seed (bits n.toInt32)) ∧
      ((seed n).drawn count).words ≠ ⟨0, 0, 0, 0⟩ ∧
      (∃ k : ℕ, k < 2 ^ 32 ∧ k = ((seed n).drawn count).words.output.toNat ∧
        ((seed n).drawn count).next.1 = (k : ℚ) / 2 ^ 32) ∧
      (∀ (other : SeededRandom) (more : ℕ),
        (other.restore ((seed n).drawn count).capture).draws more = ((seed n).drawn count).draws more) ∧
      ∀ x : Xoshiro, ∃! y : Xoshiro, y.step = x := by
  have hwords : ((seed n).drawn count).words = Xoshiro.step^[count] (.seed (bits n.toInt32)) := by
    rw [words_drawn, words_seed]
  refine ⟨hwords, ?_, ⟨_, BitVec.isLt _, rfl, next_output _⟩, fun _ _ => rfl, Xoshiro.exists_unique_before⟩
  rw [hwords]
  exact iterate_step_ne_zero (Xoshiro.seed_ne_zero _) count

end SeededRandom
end Grove.Random
