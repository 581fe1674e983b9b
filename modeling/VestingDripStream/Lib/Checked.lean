import Mathlib.Tactic

/-! # Fixed-width arithmetic: `u32` and `i128`

A `u32` is a `UInt32`. Its checked, saturating and plain operations are written by the test they
make on the natural numbers, and each has one lemma that says what the result is there: after
rewriting with it every goal is linear arithmetic over `toNat`.

An `i128` is an integer. A checked operation computes the exact integer and returns it if it is
`InI128`; a plain operation of a build with overflow checks makes the same test and traps. -/

namespace VestingDripStream.Lib.Checked

/-! ### Unsigned 32-bit numbers -/

/-- `u32::MAX`. -/
def u32Max : UInt32 := 4294967295

/-- `checked_add`. -/
def checkedAdd (a b : UInt32) : Option UInt32 :=
  if a.toNat + b.toNat < UInt32.size then some (a + b) else none

/-- `saturating_add`. -/
def saturatingAdd (a b : UInt32) : UInt32 :=
  if a.toNat + b.toNat < UInt32.size then a + b else u32Max

/-- `saturating_sub`. -/
def saturatingSub (a b : UInt32) : UInt32 := if b ≤ a then a - b else 0

/-- The plain `a - b`, which traps below zero. -/
def plainSub (a b : UInt32) : Option UInt32 := if b ≤ a then some (a - b) else none

theorem toNat_add_of_lt {a b : UInt32} (h : a.toNat + b.toNat < UInt32.size) :
    (a + b).toNat = a.toNat + b.toNat := by
  rw [UInt32.toNat_add]; exact Nat.mod_eq_of_lt h

theorem checkedAdd_eq_some {a b c : UInt32} :
    checkedAdd a b = some c ↔ c.toNat = a.toNat + b.toNat := by
  unfold checkedAdd
  split_ifs with h
  · rw [Option.some.injEq, ← UInt32.toNat_inj, toNat_add_of_lt h, eq_comm]
  · have := c.toNat_lt
    simp only [false_iff]
    intro hc
    exact h (by rw [← hc]; exact this)

theorem toNat_saturatingAdd {a b : UInt32} (h : a.toNat + b.toNat < UInt32.size) :
    (saturatingAdd a b).toNat = a.toNat + b.toNat := by
  unfold saturatingAdd; rw [if_pos h, toNat_add_of_lt h]

/-- A sum that does not fit is cut at `u32::MAX`. -/
theorem toNat_saturatingAdd_eq_min (a b : UInt32) :
    (saturatingAdd a b).toNat = min (a.toNat + b.toNat) u32Max.toNat := by
  have hmax : u32Max.toNat + 1 = UInt32.size := rfl
  by_cases h : a.toNat + b.toNat < UInt32.size
  · rw [toNat_saturatingAdd h]
    omega
  · unfold saturatingAdd
    rw [if_neg h]
    omega

theorem toNat_saturatingSub (a b : UInt32) :
    (saturatingSub a b).toNat = a.toNat - b.toNat := by
  unfold saturatingSub
  split_ifs with h
  · exact UInt32.toNat_sub_of_le _ _ h
  · rw [UInt32.le_iff_toNat_le] at h
    simp only [UInt32.toNat_zero]
    omega

theorem plainSub_eq_some {a b c : UInt32} :
    plainSub a b = some c ↔ a.toNat = b.toNat + c.toNat := by
  unfold plainSub
  split_ifs with h
  · rw [Option.some.injEq, ← UInt32.toNat_inj, UInt32.toNat_sub_of_le _ _ h]
    rw [UInt32.le_iff_toNat_le] at h
    omega
  · rw [UInt32.le_iff_toNat_le] at h
    simp only [false_iff]
    omega

theorem plainSub_of_le {a b : UInt32} (h : b.toNat ≤ a.toNat) :
    ∃ c, plainSub a b = some c ∧ c.toNat = a.toNat - b.toNat :=
  ⟨a - b, by unfold plainSub; rw [if_pos (UInt32.le_iff_toNat_le.mpr h)],
    UInt32.toNat_sub_of_le _ _ (UInt32.le_iff_toNat_le.mpr h)⟩

theorem toNat_min (a b : UInt32) : (min a b).toNat = min a.toNat b.toNat := by
  show (if a ≤ b then a else b).toNat = _
  split_ifs with h <;> rw [UInt32.le_iff_toNat_le] at h <;> omega

theorem toNat_max (a b : UInt32) : (max a b).toNat = max a.toNat b.toNat := by
  show (if a ≤ b then b else a).toNat = _
  split_ifs with h <;> rw [UInt32.le_iff_toNat_le] at h <;> omega

/-! ### Signed 128-bit numbers -/

/-- `i128::MAX`. -/
def i128Max : ℤ := 2 ^ 127 - 1

/-- `i128::MIN`. -/
def i128Min : ℤ := -2 ^ 127

/-- The integer is an `i128`. -/
def InI128 (x : ℤ) : Prop := i128Min ≤ x ∧ x ≤ i128Max

instance (x : ℤ) : Decidable (InI128 x) := by unfold InI128; infer_instance

/-- The result of a checked operation whose exact value is `x`. -/
def checked (x : ℤ) : Option ℤ := if InI128 x then some x else none

/-- The result of a saturating operation whose exact value is `x`. -/
def saturated (x : ℤ) : ℤ := max i128Min (min x i128Max)

/-- `x as i128`. -/
def asI128 (x : UInt32) : ℤ := x.toNat

theorem checked_eq_some {x y : ℤ} : checked x = some y ↔ InI128 x ∧ y = x := by
  unfold checked
  split_ifs with h
  · simp [h, eq_comm]
  · simp [h]

theorem checked_of_mem {x : ℤ} (h : InI128 x) : checked x = some x :=
  checked_eq_some.mpr ⟨h, rfl⟩

/-- Everything between zero and an `i128` is an `i128`. -/
theorem inI128_of_le {x y : ℤ} (hy : InI128 y) (h0 : 0 ≤ x) (h : x ≤ y) : InI128 x := by
  refine ⟨le_trans ?_ h0, le_trans h hy.2⟩
  norm_num [i128Min]

end VestingDripStream.Lib.Checked
