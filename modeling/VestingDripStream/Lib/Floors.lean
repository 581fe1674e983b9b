import Mathlib.Tactic
import Mathlib.Algebra.BigOperators.Group.List.Lemmas

/-! # Sums of rounded shares

A total is paid in parts, and every part is divided by `d` and rounded down on its own. The sum of
the rounded parts is at most the rounded total and falls short of it by less than the number of
parts; nothing is lost exactly if `d` divides every part (`floors_eq_iff`). -/

namespace VestingDripStream.Lib.Floors

/-- The sum of the parts, each rounded down. -/
def floors (d : ℤ) (l : List ℤ) : ℤ := (l.map (· / d)).sum

/-- What the rounding leaves over. -/
def rests (d : ℤ) (l : List ℤ) : ℤ := (l.map (· % d)).sum

section Floors

variable {d : ℤ} {l : List ℤ}

@[simp]
theorem floors_nil : floors d [] = 0 := rfl

@[simp]
theorem floors_cons (x : ℤ) : floors d (x :: l) = x / d + floors d l := by
  simp [floors]

@[simp]
theorem floors_append (l' : List ℤ) : floors d (l ++ l') = floors d l + floors d l' := by
  simp [floors]

@[simp]
theorem rests_nil : rests d [] = 0 := rfl

@[simp]
theorem rests_cons (x : ℤ) : rests d (x :: l) = x % d + rests d l := by
  simp [rests]

theorem mul_floors_add_rests (d : ℤ) : ∀ l : List ℤ, d * floors d l + rests d l = l.sum
  | [] => by simp
  | x :: l => by
    have hx := Int.mul_ediv_add_emod x d
    have hl := mul_floors_add_rests d l
    rw [floors_cons, rests_cons, List.sum_cons, mul_add]
    omega

theorem rests_nonneg (hd : 0 < d) : 0 ≤ rests d l := by
  refine List.sum_nonneg fun y hy => ?_
  obtain ⟨x, -, rfl⟩ := List.mem_map.mp hy
  exact Int.emod_nonneg x hd.ne'

theorem rests_le (hd : 0 < d) : ∀ l : List ℤ, rests d l ≤ l.length * (d - 1)
  | [] => by simp
  | x :: l => by
    have hx := Int.emod_lt_of_pos x hd
    have hl := rests_le hd l
    rw [rests_cons, List.length_cons]
    push_cast
    linarith

theorem rests_eq_zero_iff (hd : 0 < d) : ∀ {l : List ℤ}, rests d l = 0 ↔ ∀ x ∈ l, d ∣ x
  | [] => by simp
  | x :: l => by
    have hx := Int.emod_nonneg x hd.ne'
    have hl := rests_nonneg (l := l) hd
    rw [rests_cons, List.forall_mem_cons, ← rests_eq_zero_iff hd (l := l), Int.dvd_iff_emod_eq_zero]
    constructor
    · intro h
      constructor <;> omega
    · rintro ⟨hx0, hl0⟩
      omega

/-- Rounding the parts never pays more than rounding the total. -/
theorem floors_le (hd : 0 < d) : floors d l ≤ l.sum / d := by
  rw [Int.le_ediv_iff_mul_le hd, ← mul_floors_add_rests d l, mul_comm]
  have := rests_nonneg (l := l) hd
  omega

/-- It pays less than one unit less for every part. -/
theorem div_lt (hd : 0 < d) (hl : l ≠ []) : l.sum / d < floors d l + l.length := by
  have hlen : (0 : ℤ) < l.length := Int.natCast_pos.mpr (List.length_pos_iff.mpr hl)
  have hle := rests_le hd l
  rw [Int.ediv_lt_iff_lt_mul hd, ← mul_floors_add_rests d l]
  nlinarith

/-- **When nothing is lost**, of a total that is a multiple of `d`. -/
theorem floors_eq_iff (hd : 0 < d) (h : d ∣ l.sum) : floors d l = l.sum / d ↔ ∀ x ∈ l, d ∣ x := by
  rw [← rests_eq_zero_iff hd]
  have hsum := mul_floors_add_rests d l
  have htotal : d * (l.sum / d) = l.sum := Int.mul_ediv_cancel' h
  constructor
  · intro heq
    rw [heq] at hsum
    omega
  · intro hrests
    exact Int.eq_of_mul_eq_mul_left hd.ne' (by omega)

end Floors

end VestingDripStream.Lib.Floors
