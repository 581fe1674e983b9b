import Mathlib.Data.Int.Bitwise
import Mathlib.Data.Nat.Bitwise
import Mathlib.Tactic

/-! # Words joined by bits

A word is put behind another one by a shift and a bitwise or. On integers without a width the or
works on the two's complement, so the sign of the first word stays (`lor_shift`). -/

namespace VestingDripStream.Lib.Bitwise

/-- Clearing bits of a word of ones. -/
theorem ldiff_ones {w n : ℕ} (k : ℕ) (h : n < 2 ^ w) :
    Nat.ldiff (2 ^ w * k + (2 ^ w - 1)) n = 2 ^ w * k + (2 ^ w - 1 - n) := by
  have hones : 2 ^ w - 1 < 2 ^ w := by omega
  have hrest : 2 ^ w - 1 - n < 2 ^ w := by omega
  refine Nat.eq_of_testBit_eq fun j => ?_
  rw [Nat.testBit_ldiff, Nat.testBit_two_pow_mul_add _ hones, Nat.testBit_two_pow_mul_add _ hrest]
  by_cases hj : j < w
  · have hcompl := Nat.testBit_two_pow_sub_succ h j
    rw [Nat.add_comm, Nat.sub_add_eq] at hcompl
    rw [if_pos hj, if_pos hj, hcompl, Nat.testBit_two_pow_sub_one]
  · have hhigh : n.testBit j = false :=
      Nat.testBit_lt_two_pow (h.trans_le (Nat.pow_le_pow_right two_pos (not_lt.mp hj)))
    rw [if_neg hj, if_neg hj, hhigh, Bool.not_false, Bool.and_true]

/-- **Two words**, the first one signed. -/
theorem lor_shift {w lo : ℕ} (hi : ℤ) (h : lo < 2 ^ w) :
    Int.lor (hi * 2 ^ w) lo = hi * 2 ^ w + lo := by
  cases hi with
  | ofNat a =>
    have hor : 2 ^ w * a + lo = 2 ^ w * a ||| lo := Nat.two_pow_add_eq_or_of_lt h a
    have hmul : (Int.ofNat a) * 2 ^ w = ((2 ^ w * a : ℕ) : ℤ) := by
      push_cast
      exact mul_comm _ _
    rw [hmul]
    show ((2 ^ w * a ||| lo : ℕ) : ℤ) = _
    rw [← hor]
    push_cast
    rfl
  | negSucc a =>
    -- the low bits of a negative number that was shifted are all set in its complement
    have hpos : 0 < 2 ^ w := Nat.two_pow_pos w
    have hneg : Int.negSucc a * 2 ^ w = Int.negSucc (2 ^ w * a + (2 ^ w - 1)) := by
      rw [Int.negSucc_eq, Int.negSucc_eq]
      push_cast [Nat.cast_sub (Nat.succ_le_of_lt hpos)]
      ring
    rw [hneg]
    show Int.negSucc (Nat.ldiff (2 ^ w * a + (2 ^ w - 1)) lo) = _
    rw [ldiff_ones a h, Int.negSucc_eq, Int.negSucc_eq]
    have hsub : 2 ^ w - 1 - lo + lo = 2 ^ w - 1 := by omega
    have hcast : ((2 ^ w - 1 - lo : ℕ) : ℤ) + lo = ((2 ^ w - 1 : ℕ) : ℤ) := by exact_mod_cast hsub
    push_cast at hcast ⊢
    linarith

end VestingDripStream.Lib.Bitwise
