import Mathlib.Data.Rat.Floor
import VestingDripStream.Contract.Schedule

/-! # The rate of a stream

`streamSchedule.ts` derives the rate of a new stream from the amount that the form announces,
rounded up; the contract multiplies it by the duration and rounds down. `deposit_covers` says that
the deposit is not less than the amount, and by how much it may be more. Numbers are exact here, so
all of them are finite. -/

namespace VestingDripStream.Frontend.StreamSchedule

open VestingDripStream.Lib.Checked VestingDripStream.Contract.Schedule

/-- `RATE_DECIMALS`. -/
def rateDecimals : ℤ := 10000000

/-- `I128_MAX`. -/
def i128Max : ℤ := 170141183460469231731687303715884105727

/-- `Number.isSafeInteger`. -/
def isSafeInteger (x : ℚ) : Prop := x.isInt = true ∧ |x| ≤ 2 ^ 53 - 1

instance (x : ℚ) : Decidable (isSafeInteger x) := by unfold isSafeInteger; infer_instance

/-- `deriveRate`: the rate for an amount, rounded up; `none` for what is no rate. -/
def deriveRate (amount totalLedgers : ℚ) : Option ℤ :=
  if amount ≤ 0 ∨ ¬ isSafeInteger totalLedgers ∨ totalLedgers ≤ 0 then none
  else
    let scaledAmount := amount * rateDecimals
    let rate := ⌈scaledAmount / totalLedgers⌉
    if isSafeInteger rate ∧ 0 < rate then some rate else none

/-- `depositFromRate`: what a rate amounts to over the ledgers, in tokens. -/
def depositFromRate (rate totalLedgers : ℚ) : ℚ :=
  if rate ≤ 0 ∨ totalLedgers ≤ 0 then 0 else rate * totalLedgers / rateDecimals

/-- `isRateDepositOverflow`: the product is beyond `i128`. -/
def isRateDepositOverflow (rate totalLedgers : ℚ) : Bool :=
  if rate ≤ 0 ∨ totalLedgers ≤ 0 then false else i128Max < ⌊rate⌋ * ⌊totalLedgers⌋

/-! ### The two roundings -/

variable {amount : ℚ} {totalLedgers : UInt32} {rate : ℤ}

/-- A rate that was derived is positive, safe, and the least that is enough for the amount. -/
theorem deriveRate_eq_some {totalLedgers : ℚ} (h : deriveRate amount totalLedgers = some rate) :
    0 < totalLedgers ∧ 0 < rate ∧ rate ≤ 2 ^ 53 - 1 ∧
      amount * rateDecimals ≤ rate * totalLedgers ∧
      (rate - 1) * totalLedgers < amount * rateDecimals := by
  unfold deriveRate at h
  dsimp only at h
  split_ifs at h with hrefused hsafe
  push Not at hrefused
  obtain ⟨-, -, hpos⟩ := hrefused
  obtain rfl := Option.some.inj h
  obtain ⟨⟨-, hle⟩, hrate⟩ := hsafe
  have hup := Int.le_ceil (amount * rateDecimals / totalLedgers)
  have hdown := Int.ceil_lt_add_one (amount * rateDecimals / totalLedgers)
  rw [div_le_iff₀ hpos] at hup
  rw [← sub_lt_iff_lt_add, lt_div_iff₀ hpos] at hdown
  refine ⟨hpos, hrate, ?_, hup, hdown⟩
  have habs := (le_abs_self _).trans hle
  exact_mod_cast habs

/-- A safe rate and a number of ledgers are far from the ends of an `i128`. -/
theorem inI128_of_safe (hpos : 0 < rate) (hsafe : rate ≤ 2 ^ 53 - 1) (totalLedgers : UInt32) :
    0 ≤ rate * totalLedgers.toNat ∧ InI128 (rate * totalLedgers.toNat) := by
  have hledgers : (totalLedgers.toNat : ℤ) ≤ 2 ^ 32 := by
    exact_mod_cast totalLedgers.toNat_lt.le
  have hnonneg : 0 ≤ rate * totalLedgers.toNat := mul_nonneg hpos.le (Int.natCast_nonneg _)
  have hle : rate * totalLedgers.toNat ≤ (2 ^ 53 - 1) * 2 ^ 32 :=
    mul_le_mul hsafe hledgers (Int.natCast_nonneg _) (by omega)
  exact ⟨hnonneg, inI128_of_le (by decide) hnonneg hle⟩

/-- So the contract accepts the rate, and rounds down. -/
theorem calculateTotalDeposit_of_safe (hpos : 0 < rate) (hsafe : rate ≤ 2 ^ 53 - 1) :
    calculateTotalDeposit rate totalLedgers = .ok (rate * totalLedgers.toNat / rateDecimals) := by
  obtain ⟨hnonneg, hin⟩ := inI128_of_safe hpos hsafe totalLedgers
  unfold calculateTotalDeposit asI128
  rw [checked_of_mem hin]
  show Except.ok _ = _
  rw [Int.tdiv_eq_ediv_of_nonneg hnonneg]
  rfl

theorem isRateDepositOverflow_of_safe (hpos : 0 < rate) (hsafe : rate ≤ 2 ^ 53 - 1) :
    isRateDepositOverflow rate totalLedgers.toNat = false := by
  obtain ⟨-, -, hin⟩ := inI128_of_safe hpos hsafe totalLedgers
  unfold isRateDepositOverflow
  split_ifs
  · rfl
  · have hfloor : ⌊((totalLedgers.toNat : ℕ) : ℚ)⌋ = totalLedgers.toNat := Int.floor_natCast _
    rw [Int.floor_intCast, hfloor, decide_eq_false_iff_not, not_lt]
    exact hin

/-- The form announces a rate of one's own with its exact deposit, of which the contract takes the
whole units. -/
theorem floor_depositFromRate (hpos : 0 < rate) (hledgers : 0 < totalLedgers.toNat) :
    ⌊depositFromRate rate totalLedgers.toNat⌋ = rate * totalLedgers.toNat / rateDecimals := by
  have hrate : ¬ ((rate : ℚ) ≤ 0 ∨ (totalLedgers.toNat : ℚ) ≤ 0) := by
    rintro (hle | hle)
    · have hnot : rate ≤ 0 := by exact_mod_cast hle
      omega
    · have hnot : totalLedgers.toNat ≤ 0 := by exact_mod_cast hle
      omega
  have hquotient : depositFromRate rate totalLedgers.toNat =
      ((rate * totalLedgers.toNat : ℤ) : ℚ) / (rateDecimals.toNat : ℕ) := by
    unfold depositFromRate
    rw [if_neg hrate]
    push_cast
    rfl
  rw [hquotient, Rat.floor_intCast_div_natCast]
  rfl

/-- **The deposit covers the amount** that the form announced, and exceeds it by less than what
rounding the rate adds over the duration. -/
theorem deposit_covers {amount : ℤ} (h : deriveRate amount totalLedgers.toNat = some rate) :
    ∃ deposit, calculateTotalDeposit rate totalLedgers = .ok deposit ∧ amount ≤ deposit ∧
      ((deposit - amount : ℤ) : ℚ) ≤ ((totalLedgers.toNat : ℚ) - 1) / rateDecimals := by
  obtain ⟨hledgers, hpos, hsafe, hup, hdown⟩ := deriveRate_eq_some h
  have hcovers : amount * rateDecimals ≤ rate * totalLedgers.toNat := by exact_mod_cast hup
  have hless : (rate - 1) * totalLedgers.toNat < amount * rateDecimals := by exact_mod_cast hdown
  have hround := Int.ediv_mul_le (rate * totalLedgers.toNat) (show rateDecimals ≠ 0 by decide)
  refine ⟨_, calculateTotalDeposit_of_safe hpos hsafe, ?_, ?_⟩
  · exact (Int.le_ediv_iff_mul_le (by decide)).mpr hcovers
  · have hscale : (0 : ℚ) < rateDecimals := by
      unfold rateDecimals
      norm_num
    have hexcess : (rate * totalLedgers.toNat / rateDecimals - amount) * rateDecimals ≤
        totalLedgers.toNat - 1 := by
      rw [Int.sub_mul]
      rw [Int.sub_mul] at hless
      omega
    rw [le_div_iff₀ hscale]
    exact_mod_cast hexcess

/-- Ten tokens over three days. -/
theorem deposit_covers_sample : ∃ deposit, calculateTotalDeposit 1930 51840 = .ok deposit ∧
    10 ≤ deposit ∧ ((deposit - 10 : ℤ) : ℚ) ≤ (((51840 : UInt32).toNat : ℚ) - 1) / rateDecimals :=
  deposit_covers (by decide +kernel)

end VestingDripStream.Frontend.StreamSchedule
