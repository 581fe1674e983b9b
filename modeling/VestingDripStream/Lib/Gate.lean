import Mathlib.Tactic

/-! # Counting the time a gate is open

A gate is open at first and is opened and shut by events `(t, g)`: from the instant `t` on it is
open if `g`. Events at one instant take effect in their order. `openCount events a b` is the number
of instants of `[a, b)` at which the gate is open; `openCount_append` says what one more event does
to it. -/

namespace VestingDripStream.Lib.Gate

/-- Whether the gate is open at the instant `t`. -/
def openAt (events : List (ℕ × Bool)) (t : ℕ) : Bool :=
  events.foldl (fun g e => if e.1 ≤ t then e.2 else g) true

/-- The number of instants of `[a, b)` at which the gate is open. -/
def openCount (events : List (ℕ × Bool)) (a b : ℕ) : ℕ :=
  ((Finset.Ico a b).filter fun t => openAt events t = true).card

variable {events : List (ℕ × Bool)} {e : ℕ × Bool} {a b t : ℕ}

theorem openAt_append (events : List (ℕ × Bool)) (e : ℕ × Bool) (t : ℕ) :
    openAt (events ++ [e]) t = if e.1 ≤ t then e.2 else openAt events t := by
  unfold openAt
  rw [List.foldl_append]
  rfl

theorem openCount_nil (a b : ℕ) : openCount [] a b = b - a := by
  unfold openCount openAt
  simp

/-- **One more event**: what was counted up to it stays, and from then on every instant counts, or
none. -/
theorem openCount_append (ha : a ≤ e.1) (hb : e.1 ≤ b) :
    openCount (events ++ [e]) a b = openCount events a e.1 + if e.2 = true then b - e.1 else 0 := by
  have hsplit : Finset.Ico a b = Finset.Ico a e.1 ∪ Finset.Ico e.1 b :=
    (Finset.Ico_union_Ico_eq_Ico ha hb).symm
  have hdisj : Disjoint (Finset.Ico a e.1) (Finset.Ico e.1 b) :=
    Finset.Ico_disjoint_Ico_consecutive a e.1 b
  have hbefore : (Finset.Ico a e.1).filter (fun t => openAt (events ++ [e]) t = true) =
      (Finset.Ico a e.1).filter fun t => openAt events t = true := by
    refine Finset.filter_congr fun t ht => ?_
    rw [Finset.mem_Ico] at ht
    rw [openAt_append, if_neg (by omega)]
  have hafter : (Finset.Ico e.1 b).filter (fun t => openAt (events ++ [e]) t = true) =
      if e.2 = true then Finset.Ico e.1 b else ∅ := by
    split_ifs with hg
    · refine Finset.filter_true_of_mem fun t ht => ?_
      rw [Finset.mem_Ico] at ht
      rw [openAt_append, if_pos ht.1, hg]
    · refine Finset.filter_false_of_mem fun t ht => ?_
      rw [Finset.mem_Ico] at ht
      rw [openAt_append, if_pos ht.1]
      exact hg
  unfold openCount
  rw [hsplit, Finset.filter_union,
    Finset.card_union_of_disjoint (Finset.disjoint_filter_filter hdisj), hbefore, hafter]
  split_ifs <;> simp

end VestingDripStream.Lib.Gate
