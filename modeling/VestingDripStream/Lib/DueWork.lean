import Mathlib.Tactic

/-! # Work that is due, done in order

`due` lists work without repetitions, `done` lists what was done so far, among it work that is not
due. `InOrder due done` says that what was done of the due work is its beginning, in order and each
item once.

`inOrder_done_concat` says when one more item may be done, `inOrder_due_concat` that new work
changes nothing, and `inOrder_iff_of_subset` what is left when everything was done. -/

namespace VestingDripStream.Lib.DueWork

variable {α : Type*} [DecidableEq α]

/-- What was done of the due work is its beginning, in order and each item once. -/
def InOrder (due done : List α) : Prop := done.filter (· ∈ due) <+: due

instance (due done : List α) : Decidable (InOrder due done) := by unfold InOrder; infer_instance

/-- The work that is due before an item. -/
def dueBefore (due : List α) (a : α) : List α := due.takeWhile (· ≠ a)

theorem inOrder_nil (done : List α) : InOrder [] done := by simp [InOrder]

variable {due done : List α} {a : α}

theorem dueBefore_append_cons {rest : List α} (ha : a ∉ done) :
    dueBefore (done ++ a :: rest) a = done := by
  have hne : ∀ b ∈ done, decide (b ≠ a) = true := fun b hb => by
    have : b ≠ a := fun h => ha (h ▸ hb)
    simpa using this
  rw [dueBefore, List.takeWhile_append_of_pos hne, List.takeWhile_cons_of_neg (by simp),
    List.append_nil]

/-- A beginning of the work goes on with `a` if all that is due before `a` is in it. -/
theorem concat_isPrefix_iff (hdue : due.Nodup) (ha : a ∈ due) (hnew : a ∉ done) :
    done ++ [a] <+: due ↔ done <+: due ∧ ∀ b ∈ dueBefore due a, b ∈ done := by
  constructor
  · rintro ⟨rest, rfl⟩
    rw [List.append_assoc, List.singleton_append, dueBefore_append_cons hnew]
    exact ⟨List.prefix_append _ _, fun b hb => hb⟩
  · rintro ⟨⟨rest, rfl⟩, hbefore⟩
    cases rest with
    | nil => exact absurd (by simpa using ha) hnew
    | cons b rest =>
      have hb : b ∉ done := fun h =>
        (List.nodup_append.mp hdue).2.2 b h b List.mem_cons_self rfl
      -- `b` is due before `a` unless it is `a`
      have hab : b = a := by
        by_contra hne
        refine hb (hbefore b ?_)
        have hne' : ∀ c ∈ done ++ [b], decide (c ≠ a) = true := fun c hc => by
          rcases List.mem_append.mp hc with hc | hc
          · have : c ≠ a := fun h => hnew (h ▸ hc)
            simpa using this
          · rw [List.mem_singleton.mp hc]
            simpa using hne
        rw [dueBefore, ← List.singleton_append, ← List.append_assoc,
          List.takeWhile_append_of_pos hne']
        simp
      rw [hab]
      exact ⟨rest, by simp⟩

/-- **One more item**: an item that is not due may be done at any time, one that is due after all
that is due before it. -/
theorem inOrder_done_concat (hdue : due.Nodup) (hnew : a ∈ due → a ∉ done) :
    InOrder due (done ++ [a]) ↔
      InOrder due done ∧ (a ∈ due → ∀ b ∈ dueBefore due a, b ∈ done) := by
  unfold InOrder
  by_cases ha : a ∈ due
  · have hnew' : a ∉ done.filter (· ∈ due) := fun h => hnew ha (List.mem_of_mem_filter h)
    have hbefore : (∀ b ∈ dueBefore due a, b ∈ done.filter (· ∈ due)) ↔
        ∀ b ∈ dueBefore due a, b ∈ done := by
      refine forall₂_congr fun b hb => ?_
      have : b ∈ due := (List.takeWhile_subset _) hb
      simp [this]
    rw [List.filter_append, List.filter_cons_of_pos (by simpa using ha), List.filter_nil,
      concat_isPrefix_iff hdue ha hnew', hbefore]
    simp [ha]
  · rw [List.filter_append, List.filter_cons_of_neg (by simpa using ha), List.filter_nil,
      List.append_nil]
    simp [ha]

/-- What is due is done once. -/
theorem InOrder.not_mem_of_concat (hdue : due.Nodup) (h : InOrder due (done ++ [a]))
    (ha : a ∈ due) : a ∉ done := by
  intro hmem
  have hnodup : ((done ++ [a]).filter (· ∈ due)).Nodup := h.sublist.nodup hdue
  rw [List.filter_append, List.filter_cons_of_pos (by simpa using ha), List.filter_nil] at hnodup
  exact (List.nodup_append.mp hnodup).2.2 a (List.mem_filter.mpr ⟨hmem, by simpa using ha⟩) a
    List.mem_cons_self rfl

/-- **New work** that was not done yet. -/
theorem inOrder_due_concat (hnew : a ∉ done) :
    InOrder (due ++ [a]) done ↔ InOrder due done := by
  have hfilter : done.filter (· ∈ due ++ [a]) = done.filter (· ∈ due) := by
    refine List.filter_congr fun b hb => ?_
    have : b ≠ a := fun h => hnew (h ▸ hb)
    simp [this]
  unfold InOrder
  rw [hfilter, List.prefix_concat_iff]
  constructor
  · rintro (h | h)
    · have : a ∈ done.filter (· ∈ due) := by rw [h]; simp
      exact absurd (List.mem_of_mem_filter this) hnew
    · exact h
  · exact Or.inr

/-- When everything was done, it was done in order exactly if it is the list of what was due. -/
theorem inOrder_iff_of_subset (hdue : due.Nodup) (hall : ∀ a ∈ due, a ∈ done) :
    InOrder due done ↔ done.filter (· ∈ due) = due := by
  constructor
  · intro h
    refine h.eq_of_length_le (hdue.subperm fun a ha => ?_).length_le
    exact List.mem_filter.mpr ⟨hall a ha, by simpa using ha⟩
  · intro h
    rw [InOrder, h]

end VestingDripStream.Lib.DueWork
