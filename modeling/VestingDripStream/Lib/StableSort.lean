import Mathlib.Data.List.Sort
import Mathlib.Order.Basic
import Mathlib.Tactic

/-! # Stable sorting by a comparator

A comparator tells with a number whether a value comes before another one (negative), behind it
(positive) or with it (zero). If it is a total preorder (`Consistent`), the result of a stable
sorting algorithm is determined (`IsSort.unique`), so any of them is `List.mergeSort`. -/

namespace VestingDripStream.Lib.StableSort

variable {α K : Type*} {cmp : α → α → ℤ}

/-- A comparator that is a total preorder. -/
structure Consistent (cmp : α → α → ℤ) : Prop where
  swap : ∀ a b, cmp b a = - cmp a b
  trans : ∀ a b c, cmp a b ≤ 0 → cmp b c ≤ 0 → cmp a c ≤ 0

/-- What a stable sorting algorithm makes of `rows`: they are in order, and those that come together
are as they were. -/
structure IsSort (cmp : α → α → ℤ) (rows out : List α) : Prop where
  perm : out.Perm rows
  sorted : out.Pairwise fun a b => cmp a b ≤ 0
  stable : ∀ a, out.filter (fun b => cmp a b = 0) = rows.filter fun b => cmp a b = 0

theorem Consistent.self (h : Consistent cmp) (a : α) : cmp a a = 0 := by
  have hswap := h.swap a a
  omega

theorem Consistent.total (h : Consistent cmp) (a b : α) : cmp a b ≤ 0 ∨ cmp b a ≤ 0 := by
  have hswap := h.swap a b
  omega

/-! ### The result is determined -/

/-- The first of a sorted list comes before all of it. -/
theorem Consistent.head_le (h : Consistent cmp) {a b : α} {out : List α}
    (hsorted : (a :: out).Pairwise fun a b => cmp a b ≤ 0) (hb : b ∈ a :: out) : cmp a b ≤ 0 := by
  rcases List.mem_cons.mp hb with rfl | hb
  · exact (h.self b).le
  · exact (List.pairwise_cons.mp hsorted).1 b hb

/-- Sorted lists with the same groups are equal. -/
theorem eq_of_filter_eq (h : Consistent cmp) {out out' : List α}
    (hsorted : out.Pairwise fun a b => cmp a b ≤ 0)
    (hsorted' : out'.Pairwise fun a b => cmp a b ≤ 0)
    (hgroups : ∀ a, out.filter (fun b => cmp a b = 0) = out'.filter fun b => cmp a b = 0) :
    out = out' := by
  -- whatever is in one of the lists is in the other one
  have hmem : ∀ {l l' : List α}, (∀ a, l.filter (fun b => cmp a b = 0) =
      l'.filter fun b => cmp a b = 0) → ∀ a ∈ l, a ∈ l' := by
    intro l l' heq a ha
    have hin : a ∈ l.filter fun b => cmp a b = 0 :=
      List.mem_filter.mpr ⟨ha, decide_eq_true (h.self a)⟩
    rw [heq] at hin
    exact (List.mem_filter.mp hin).1
  induction out generalizing out' with
  | nil =>
    refine (List.eq_nil_iff_forall_not_mem.mpr fun b hb => ?_).symm
    exact absurd (hmem (fun a => (hgroups a).symm) b hb) List.not_mem_nil
  | cons a out ih =>
    cases out' with
    | nil => exact absurd (hmem hgroups a List.mem_cons_self) List.not_mem_nil
    | cons b out' =>
      have hab := h.head_le hsorted (hmem (fun a => (hgroups a).symm) b List.mem_cons_self)
      have hba := h.head_le hsorted' (hmem hgroups a List.mem_cons_self)
      have hswap := h.swap a b
      have htie : cmp a b = 0 := by omega
      have hfirst := hgroups a
      rw [List.filter_cons_of_pos (by exact decide_eq_true (h.self a)),
        List.filter_cons_of_pos (by exact decide_eq_true htie)] at hfirst
      obtain rfl := (List.cons.inj hfirst).1
      have hrest : ∀ c, out.filter (fun b => cmp c b = 0) = out'.filter fun b => cmp c b = 0 := by
        intro c
        have hc := hgroups c
        by_cases hca : cmp c a = 0
        · rw [List.filter_cons_of_pos (by exact decide_eq_true hca),
            List.filter_cons_of_pos (by exact decide_eq_true hca)] at hc
          exact (List.cons.inj hc).2
        · rwa [List.filter_cons_of_neg (by simpa using hca),
            List.filter_cons_of_neg (by simpa using hca)] at hc
      rw [ih (List.pairwise_cons.mp hsorted).2 (List.pairwise_cons.mp hsorted').2 hrest]

/-- **Sorting leaves no choice.** -/
theorem IsSort.unique (h : Consistent cmp) {rows out out' : List α} (hout : IsSort cmp rows out)
    (hout' : IsSort cmp rows out') : out = out' :=
  eq_of_filter_eq h hout.sorted hout'.sorted fun a => (hout.stable a).trans (hout'.stable a).symm

/-- Two places of a sorted list are in order, one way or the other. -/
theorem rel_or_rel {R : α → α → Prop} {l : List α} (h : l.Pairwise R) {a b : α} (ha : a ∈ l)
    (hb : b ∈ l) (hne : a ≠ b) : R a b ∨ R b a := by
  have hsymm : Std.Symm fun a b => R a b ∨ R b a := ⟨fun a b hab => hab.symm⟩
  have hpair : l.Pairwise fun a b => R a b ∨ R b a := h.imp fun hab => Or.inl hab
  exact hpair.forall ha hb hne

/-! ### Merge sort -/

/-- The rows sorted. -/
def sort (cmp : α → α → ℤ) (rows : List α) : List α := rows.mergeSort fun a b => cmp a b ≤ 0

theorem isSort_sort (h : Consistent cmp) (rows : List α) : IsSort cmp rows (sort cmp rows) := by
  have htrans : ∀ a b c : α, decide (cmp a b ≤ 0) = true → decide (cmp b c ≤ 0) = true →
      decide (cmp a c ≤ 0) = true := by
    intro a b c hab hbc
    exact decide_eq_true (h.trans a b c (of_decide_eq_true hab) (of_decide_eq_true hbc))
  have htotal : ∀ a b : α, (decide (cmp a b ≤ 0) || decide (cmp b a ≤ 0)) = true := by
    intro a b
    rw [Bool.or_eq_true, decide_eq_true_iff, decide_eq_true_iff]
    exact h.total a b
  have hperm := List.mergeSort_perm rows fun a b => decide (cmp a b ≤ 0)
  refine ⟨hperm, (List.pairwise_mergeSort htrans htotal rows).imp of_decide_eq_true, ?_⟩
  intro a
  -- a group is sorted as it is, so it is a part of the result
  have hties : (rows.filter fun b => cmp a b = 0).Pairwise
      fun b c => decide (cmp b c ≤ 0) = true := by
    refine List.pairwise_of_forall_mem_list fun b hb c hc => decide_eq_true ?_
    have hab := of_decide_eq_true (List.mem_filter.mp hb).2
    have hac := of_decide_eq_true (List.mem_filter.mp hc).2
    have hswap := h.swap a b
    exact h.trans b a c (by omega) (by omega)
  have hsub := List.sublist_mergeSort htrans htotal hties List.filter_sublist
  have hgroup := hsub.filter fun b => cmp a b = 0
  rw [List.filter_filter] at hgroup
  simp only [Bool.and_self] at hgroup
  exact (hgroup.eq_of_length (hperm.filter _).length_eq.symm).symm

/-! ### Comparators by a key -/

/-- The comparator of a linear order. -/
def order [LinearOrder K] (x y : K) : ℤ := if x = y then 0 else if x < y then -1 else 1

section Key

variable [LinearOrder K]

theorem order_nonpos_iff {x y : K} : order x y ≤ 0 ↔ x ≤ y := by
  unfold order
  split_ifs with heq hlt
  · exact iff_of_true le_rfl heq.le
  · exact iff_of_true (by omega) hlt.le
  · exact iff_of_false (by omega) fun hle => hlt (lt_of_le_of_ne hle heq)

theorem order_swap (x y : K) : order y x = - order x y := by
  unfold order
  rcases lt_trichotomy x y with h | rfl | h
  · rw [if_neg h.ne', if_neg h.asymm, if_neg h.ne, if_pos h]
    rfl
  · rw [if_pos rfl]
    rfl
  · rw [if_neg h.ne, if_pos h, if_neg h.ne', if_neg h.asymm]

theorem order_toDual (x y : K) : order (OrderDual.toDual x) (OrderDual.toDual y) = order y x := by
  unfold order
  simp only [OrderDual.toDual_inj, OrderDual.toDual_lt_toDual, eq_comm]

/-- A comparator by a key is a total preorder. -/
theorem Consistent.of_key {key : α → K} (h : ∀ a b, cmp a b = order (key a) (key b)) :
    Consistent cmp where
  swap a b := by
    rw [h, h]
    exact order_swap (key a) (key b)
  trans a b c hab hbc := by
    rw [h, order_nonpos_iff] at hab hbc ⊢
    exact hab.trans hbc

end Key

end VestingDripStream.Lib.StableSort
