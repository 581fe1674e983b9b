import Mathlib.Algebra.Order.Monoid.Unbundled.Pow
import Mathlib.Algebra.Order.Group.Nat
import Mathlib.Algebra.Order.Monoid.Defs
import Mathlib.Tactic.Abel

/-! # Accrual at a piecewise constant rate

A schedule is a start and a list of pieces; a piece runs from the end of the one before until its
own end and adds its rate in each unit of time. `accrued from to` is what accrues between two
times. It is additive in the interval (`accrued_add`), grows with it (`accrued_le_accrued`), and is
all there is (`whole`) for an interval that contains every piece (`accrued_eq_whole`). Nothing after
the piece that contains the end of the interval counts (`accrued_of_le_start`), so a loop over the
pieces may stop there. -/

namespace VestingDripStream.Lib.Piecewise

/-- The length of the part of `[lo, hi]` inside the interval. -/
def overlap (fromTime toTime lo hi : ℕ) : ℕ := min toTime hi - max fromTime lo

section Overlap

variable {a b c lo hi : ℕ}

theorem overlap_add (hab : a ≤ b) (hbc : b ≤ c) (h : lo ≤ hi) :
    overlap a b lo hi + overlap b c lo hi = overlap a c lo hi := by
  unfold overlap; omega

theorem overlap_of_le_lo (h : b ≤ lo) : overlap a b lo hi = 0 := by
  unfold overlap; omega

theorem overlap_of_hi_le (h : hi ≤ a) : overlap a b lo hi = 0 := by
  unfold overlap; omega

theorem overlap_of_subset (ha : a ≤ lo) (hb : hi ≤ b) : overlap a b lo hi = hi - lo := by
  unfold overlap; omega

theorem overlap_le_overlap {a' b' : ℕ} (ha : a' ≤ a) (hb : b ≤ b') :
    overlap a b lo hi ≤ overlap a' b' lo hi := by
  unfold overlap; omega

end Overlap

variable {M : Type*} [AddCommMonoid M]

/-- What accrues in the interval. -/
def accrued (fromTime toTime : ℕ) : ℕ → List (ℕ × M) → M
  | _, [] => 0
  | start, (till, rate) :: rest =>
    overlap fromTime toTime start till • rate + accrued fromTime toTime till rest

/-- What accrues until the last piece is over. -/
def whole : ℕ → List (ℕ × M) → M
  | _, [] => 0
  | start, (till, rate) :: rest => (till - start) • rate + whole till rest

/-- When the last piece is over. -/
def finish : ℕ → List (ℕ × M) → ℕ
  | start, [] => start
  | _, (till, _) :: rest => finish till rest

/-- Every piece ends later than the one before. -/
def Ascending : ℕ → List (ℕ × M) → Prop
  | _, [] => True
  | start, (till, _) :: rest => start < till ∧ Ascending till rest

variable {a b c start : ℕ} {pieces : List (ℕ × M)}

omit [AddCommMonoid M] in
theorem Ascending.start_le_finish :
    ∀ {start : ℕ} {pieces : List (ℕ × M)}, Ascending start pieces → start ≤ finish start pieces
  | _, [], _ => le_refl _
  | _, (_, _) :: _, h => le_trans h.1.le (Ascending.start_le_finish h.2)

/-- **Accrual is additive**, wherever the interval is split. -/
theorem accrued_add (hab : a ≤ b) (hbc : b ≤ c) :
    ∀ {start : ℕ} {pieces : List (ℕ × M)}, Ascending start pieces →
      accrued a b start pieces + accrued b c start pieces = accrued a c start pieces
  | _, [], _ => add_zero 0
  | start, (till, rate) :: rest, h => by
    unfold accrued
    rw [← accrued_add hab hbc h.2, ← overlap_add hab hbc h.1.le, add_nsmul]
    abel

/-- Nothing accrues before the first piece. -/
theorem accrued_of_le_start :
    ∀ {start : ℕ} {pieces : List (ℕ × M)}, Ascending start pieces → b ≤ start →
      accrued a b start pieces = 0
  | _, [], _, _ => rfl
  | start, (till, rate) :: rest, h, hb => by
    unfold accrued
    rw [overlap_of_le_lo hb, zero_nsmul, zero_add]
    exact accrued_of_le_start h.2 (le_trans hb h.1.le)

/-- Nothing accrues in an empty interval. -/
theorem accrued_of_le (hba : b ≤ a) :
    ∀ (start : ℕ) (pieces : List (ℕ × M)), accrued a b start pieces = 0
  | _, [] => rfl
  | start, (till, rate) :: rest => by
    have hover : overlap a b start till = 0 := by unfold overlap; omega
    unfold accrued
    rw [hover, zero_nsmul, zero_add]
    exact accrued_of_le hba till rest

/-- An interval that contains every piece. -/
theorem accrued_eq_whole :
    ∀ {start : ℕ} {pieces : List (ℕ × M)}, Ascending start pieces → a ≤ start →
      finish start pieces ≤ b → accrued a b start pieces = whole start pieces
  | _, [], _, _, _ => rfl
  | start, (till, rate) :: rest, h, ha, hb => by
    unfold accrued whole
    rw [overlap_of_subset ha (le_trans h.2.start_le_finish hb),
      accrued_eq_whole h.2 (le_trans ha h.1.le) hb]

section Order

variable [PartialOrder M] [IsOrderedAddMonoid M]

theorem accrued_nonneg (a b : ℕ) :
    ∀ {start : ℕ} {pieces : List (ℕ × M)}, (∀ p ∈ pieces, 0 ≤ p.2) →
      0 ≤ accrued a b start pieces
  | _, [], _ => le_refl _
  | _, (till, rate) :: _, h =>
    add_nonneg (nsmul_nonneg (h (till, rate) List.mem_cons_self) _)
      (accrued_nonneg a b fun p hp => h p (List.mem_cons_of_mem _ hp))

/-- Something accrues as soon as the first piece has begun. -/
theorem accrued_pos (h : Ascending start pieces) (hne : pieces ≠ [])
    (hrate : ∀ p ∈ pieces, 0 < p.2) (hlt : start < b) : 0 < accrued start b start pieces := by
  match pieces with
  | [] => exact absurd rfl hne
  | (till, rate) :: rest =>
    have hover : overlap start b start till ≠ 0 := by
      have := h.1
      unfold overlap
      omega
    exact add_pos_of_pos_of_nonneg (nsmul_pos (hrate (till, rate) List.mem_cons_self) hover)
      (accrued_nonneg _ _ fun p hp => (hrate p (List.mem_cons_of_mem _ hp)).le)

/-- Something accrues in an interval that begins while the pieces last. -/
theorem accrued_pos_of_lt (hab : a < b) :
    ∀ {start : ℕ} {pieces : List (ℕ × M)}, Ascending start pieces → (∀ p ∈ pieces, 0 < p.2) →
      start ≤ a → a < finish start pieces → 0 < accrued a b start pieces
  | _, [], _, _, hstart, hfin => absurd hfin (not_lt.mpr hstart)
  | start, (till, rate) :: rest, h, hrate, hstart, hfin => by
    have hpos := hrate (till, rate) List.mem_cons_self
    have hrest : ∀ p ∈ rest, 0 < p.2 := fun p hp => hrate p (List.mem_cons_of_mem _ hp)
    by_cases htill : a < till
    · have hover : overlap a b start till ≠ 0 := by
        unfold overlap
        omega
      exact add_pos_of_pos_of_nonneg (nsmul_pos hpos hover)
        (accrued_nonneg _ _ fun p hp => (hrest p hp).le)
    · exact lt_of_lt_of_le (accrued_pos_of_lt hab h.2 hrest (not_lt.mp htill) hfin)
        (le_add_of_nonneg_left (nsmul_nonneg hpos.le _))

/-- **Accrual grows with the interval.** -/
theorem accrued_le_accrued {a' b' : ℕ} (ha : a' ≤ a) (hb : b ≤ b') :
    ∀ {start : ℕ} {pieces : List (ℕ × M)}, (∀ p ∈ pieces, 0 ≤ p.2) →
      accrued a b start pieces ≤ accrued a' b' start pieces
  | _, [], _ => le_refl _
  | _, (till, rate) :: _, h =>
    add_le_add (nsmul_le_nsmul_left (h (till, rate) List.mem_cons_self) (overlap_le_overlap ha hb))
      (accrued_le_accrued ha hb fun p hp => h p (List.mem_cons_of_mem _ hp))

theorem accrued_le_whole (h : Ascending start pieces) (hrate : ∀ p ∈ pieces, 0 ≤ p.2) :
    accrued a b start pieces ≤ whole start pieces := by
  rw [← accrued_eq_whole (a := min a start) (b := max b (finish start pieces)) h
    (min_le_right _ _) (le_max_right _ _)]
  exact accrued_le_accrued (min_le_left _ _) (le_max_left _ _) hrate

end Order

end VestingDripStream.Lib.Piecewise
