import Grove.Core.Value

/-! # Arithmetic on doubles

`round` is the double nearest an exact result; the operations on infinities and on what is not a number are the
language's.  `Planar` is what a planar query computes with, so that the same query runs over doubles and, where
a result is about exact numbers, over the rationals. -/

namespace Grove

namespace JsNumber

/-- `a + b`; `round` is the double nearest an exact sum. -/
def add (round : ℚ → JsNumber) : JsNumber → JsNumber → JsNumber
  | .finite a, .finite b => round (a + b)
  | .nan, _ | _, .nan | .posInfinity, .negInfinity | .negInfinity, .posInfinity => .nan
  | .posInfinity, _ | _, .posInfinity => .posInfinity
  | .negInfinity, _ | _, .negInfinity => .negInfinity

def neg : JsNumber → JsNumber
  | .finite a => .finite (-a)
  | .nan => .nan
  | .posInfinity => .negInfinity
  | .negInfinity => .posInfinity

/-- `a < b`, false when either is not a number. -/
def less : JsNumber → JsNumber → Bool
  | .finite a, .finite b => a < b
  | .negInfinity, .finite _ | .negInfinity, .posInfinity | .finite _, .posInfinity => true
  | _, _ => false

def isFinite : JsNumber → Bool
  | .finite _ => true
  | .nan | .posInfinity | .negInfinity => false

def sub (round : ℚ → JsNumber) (a b : JsNumber) : JsNumber := add round a b.neg

/-- The sign of a number that is one. -/
def sign : JsNumber → ℤ
  | .finite a => if a < 0 then -1 else if a = 0 then 0 else 1
  | .nan => 0
  | .posInfinity => 1
  | .negInfinity => -1

/-- `a * b`; an infinity times zero is not a number. -/
def mul (round : ℚ → JsNumber) : JsNumber → JsNumber → JsNumber
  | .finite a, .finite b => round (a * b)
  | .nan, _ | _, .nan => .nan
  | a, b => if a.sign * b.sign = 0 then .nan else if 0 < a.sign * b.sign then .posInfinity else .negInfinity

/-- `a / 2`. -/
def half (round : ℚ → JsNumber) : JsNumber → JsNumber
  | .finite a => round (a / 2)
  | .nan => .nan
  | .posInfinity => .posInfinity
  | .negInfinity => .negInfinity

/-- `Math.abs`. -/
def abs : JsNumber → JsNumber
  | .finite a => .finite |a|
  | .nan => .nan
  | .posInfinity | .negInfinity => .posInfinity

/-- `a <= b`, false when either is not a number. -/
def atMost : JsNumber → JsNumber → Bool
  | .nan, _ | _, .nan => false
  | a, b => !b.less a

/-- `Math.max`. -/
def max : JsNumber → JsNumber → JsNumber
  | .nan, _ | _, .nan => .nan
  | a, b => if a.less b then b else a

/-- `Math.min`. -/
def min : JsNumber → JsNumber → JsNumber
  | .nan, _ | _, .nan => .nan
  | a, b => if a.less b then a else b

@[simp] theorem abs_neg (a : JsNumber) : a.neg.abs = a.abs := by
  cases a <;> simp [neg, abs]

theorem add_swap (round : ℚ → JsNumber) (a b : JsNumber) : add round a b = add round b a := by
  cases a <;> cases b <;> simp [add, add_comm]

/-- Where rounding is odd, two numbers are as far apart from either side. -/
theorem abs_sub_swap {round : ℚ → JsNumber} (hodd : ∀ q, round (-q) = (round q).neg) (a b : JsNumber) :
    (sub round a b).abs = (sub round b a).abs := by
  have hneg : sub round a b = (sub round b a).neg := by
    cases a with
    | finite p =>
      cases b with
      | finite q =>
        show round (p + -q) = (round (q + -p)).neg
        rw [← hodd]
        congr 1
        ring
      | nan | posInfinity | negInfinity => rfl
    | nan | posInfinity | negInfinity => cases b <;> rfl
  rw [hneg, abs_neg]

end JsNumber

/-- What a planar query computes with. -/
structure Planar (α : Type) where
  add : α → α → α
  sub : α → α → α
  mul : α → α → α
  abs : α → α
  max : α → α → α
  atMost : α → α → Bool

namespace Planar

/-- Exact numbers. -/
def exact : Planar ℚ := ⟨(· + ·), (· - ·), (· * ·), fun a => |a|, fun a b => Max.max a b, fun a b => a ≤ b⟩

def double (round : ℚ → JsNumber) : Planar JsNumber :=
  ⟨JsNumber.add round, JsNumber.sub round, JsNumber.mul round, JsNumber.abs, JsNumber.max, JsNumber.atMost⟩

end Planar

end Grove
