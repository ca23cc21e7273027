import Mathlib.Algebra.Order.Field.Basic
import Mathlib.Tactic.Linarith
import Mathlib.Tactic.Ring

/-! # Boxes and discs in the plane

An axis-aligned box is a centre and its half extents.  Its nearest point to another lies, along each axis, `beyond`
away; so it meets a disc when those distances fit the radius, and two boxes meet when their centres are within the
sum of the half extents along each axis. -/

namespace Grove

variable {α : Type} [Field α] [LinearOrder α] [IsStrictOrderedRing α]

/-- How far a segment of half length `h` stays from a point that is `d` from its middle. -/
def beyond (d h : α) : α := max (|d| - h) 0

omit [IsStrictOrderedRing α] in
theorem beyond_nonneg (d h : α) : 0 ≤ beyond d h := le_max_right _ _

@[simp] theorem beyond_zero (d : α) : beyond d 0 = |d| := by
  rw [beyond, sub_zero]
  exact max_eq_left (abs_nonneg d)

theorem beyond_le {c x p h : α} (hp : |p - c| ≤ h) : beyond (c - x) h ≤ |p - x| := by
  refine max_le ?_ (abs_nonneg _)
  have htriangle : |c - x| ≤ |p - c| + |p - x| := by
    calc |c - x| = |(p - x) - (p - c)| := by ring_nf
      _ ≤ |p - x| + |p - c| := abs_sub _ _
      _ = |p - c| + |p - x| := add_comm _ _
  linarith

theorem exists_nearest {h : α} (hh : 0 ≤ h) (c x : α) : ∃ p, |p - c| ≤ h ∧ |p - x| = beyond (c - x) h := by
  obtain hin | hout := le_or_gt |c - x| h
  · refine ⟨x, by rwa [abs_sub_comm], ?_⟩
    rw [sub_self, abs_zero, beyond, max_eq_right (by linarith)]
  · rw [beyond, max_eq_left (by linarith)]
    obtain hleft | hright := le_total c x
    · have habs : |c - x| = x - c := by rw [abs_sub_comm, abs_of_nonneg (by linarith)]
      refine ⟨c + h, by rw [add_sub_cancel_left, abs_of_nonneg hh], ?_⟩
      rw [habs] at hout ⊢
      rw [abs_of_nonpos (by linarith)]
      ring
    · have habs : |c - x| = c - x := abs_of_nonneg (by linarith)
      refine ⟨c - h, by rw [sub_sub_cancel_left, abs_neg, abs_of_nonneg hh], ?_⟩
      rw [habs] at hout ⊢
      rw [abs_of_nonneg (by linarith)]
      ring

/-- A box meets a closed disc when its nearest point is in it. -/
theorem box_meets_disc {cx cy hw hh : α} (hwidth : 0 ≤ hw) (hheight : 0 ≤ hh) (x y r : α) :
    (∃ px py, |px - cx| ≤ hw ∧ |py - cy| ≤ hh ∧ (px - x) ^ 2 + (py - y) ^ 2 ≤ r ^ 2) ↔
      beyond (cx - x) hw ^ 2 + beyond (cy - y) hh ^ 2 ≤ r ^ 2 := by
  constructor
  · rintro ⟨px, py, hpx, hpy, hdisc⟩
    have hx : beyond (cx - x) hw ^ 2 ≤ (px - x) ^ 2 := by
      rw [← sq_abs (px - x)]
      exact pow_le_pow_left₀ (beyond_nonneg _ _) (beyond_le hpx) 2
    have hy : beyond (cy - y) hh ^ 2 ≤ (py - y) ^ 2 := by
      rw [← sq_abs (py - y)]
      exact pow_le_pow_left₀ (beyond_nonneg _ _) (beyond_le hpy) 2
    linarith
  · intro hnear
    obtain ⟨px, hpx, hx⟩ := exists_nearest hwidth cx x
    obtain ⟨py, hpy, hy⟩ := exists_nearest hheight cy y
    refine ⟨px, py, hpx, hpy, ?_⟩
    rw [← sq_abs (px - x), ← sq_abs (py - y), hx, hy]
    exact hnear

/-- Two segments share a point when their middles are no further apart than the half lengths reach. -/
theorem segments_meet {a b h k : α} (hh : 0 ≤ h) (hk : 0 ≤ k) : (∃ p, |p - a| ≤ h ∧ |p - b| ≤ k) ↔ |a - b| ≤ h + k := by
  constructor
  · rintro ⟨p, hpa, hpb⟩
    have hbeyond := beyond_le (x := b) hpa
    have : |a - b| - h ≤ beyond (a - b) h := le_max_left _ _
    linarith
  · intro hab
    obtain ⟨p, hpa, hpb⟩ := exists_nearest hh a b
    refine ⟨p, hpa, ?_⟩
    rw [hpb]
    exact max_le (by linarith) hk

end Grove
