import Mathlib.Algebra.Order.Field.Basic
import Mathlib.Tactic

/-! # Levels that refill over time

A level rises at a fixed rate up to a cap and is drawn from in whole units. Refilling for two spans
of time one after the other is refilling for their sum (`refill_add`), and a span that is long
enough fills the level to the cap, whatever it was (`refill_eq_cap`). A unit that is drawn is missing
afterwards (`draw_add_drawn`), so the level is a potential for the number of units drawn. -/

namespace VestingDripStream.Lib.Refill

variable {K : Type*} [Field K] [LinearOrder K]

/-- The level after a span of time. -/
def refill (cap rate level span : K) : K := min cap (level + span * rate)

/-- The level after an attempt to draw a unit. -/
def draw (level : K) : K := if 1 ≤ level then level - 1 else level

/-- The number of units drawn in an attempt. -/
def drawn (level : K) : ℕ := if 1 ≤ level then 1 else 0

variable {cap rate level span span' : K}

theorem draw_add_drawn (level : K) : draw level + drawn level = level := by
  unfold draw drawn
  split_ifs <;> simp

theorem refill_le_cap : refill cap rate level span ≤ cap := min_le_left _ _

theorem refill_le : refill cap rate level span ≤ level + span * rate := min_le_right _ _

theorem refill_zero (h : level ≤ cap) : refill cap rate level 0 = level := by
  unfold refill
  rw [zero_mul, add_zero, min_eq_right h]

/-- **A long span fills the level.** -/
theorem refill_eq_cap (h : cap ≤ level + span * rate) : refill cap rate level span = cap :=
  min_eq_left h

variable [IsStrictOrderedRing K]

theorem draw_nonneg (h : 0 ≤ level) : 0 ≤ draw level := by
  unfold draw
  split_ifs with hone
  · exact sub_nonneg.mpr hone
  · exact h

theorem draw_le : draw level ≤ level := by
  unfold draw
  split_ifs
  · linarith
  · exact le_rfl

theorem refill_nonneg (hrate : 0 ≤ rate) (hcap : 0 ≤ cap) (h : 0 ≤ level) (hspan : 0 ≤ span) :
    0 ≤ refill cap rate level span :=
  le_min hcap (add_nonneg h (mul_nonneg hspan hrate))

/-- **Spans add up.** -/
theorem refill_add (hrate : 0 ≤ rate) (hspan : 0 ≤ span') :
    refill cap rate (refill cap rate level span) span' =
      refill cap rate level (span + span') := by
  have hmore : 0 ≤ span' * rate := mul_nonneg hspan hrate
  unfold refill
  rw [min_add, ← min_assoc, min_eq_left (le_add_of_nonneg_right hmore), add_mul, add_assoc]

end VestingDripStream.Lib.Refill
