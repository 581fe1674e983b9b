import Mathlib.Tactic

/-! # Histories

A log of events, in the order in which they happened. `Each` is a condition on the events, each with
those before it; `Pending` says that something happened and has not been followed up. Both are
extended by one event at a time (`each_concat`, `pending_concat`). -/

namespace VestingDripStream.Lib.History

variable {ε : Type*}

/-- Each event of the log satisfies `P` with the events before it. -/
def Each (P : List ε → ε → Prop) (log : List ε) : Prop :=
  ∀ pre e post, log = pre ++ e :: post → P pre e

/-- Some event satisfied `A`, and no later one satisfied `R`. -/
def Pending (A R : ε → Prop) (log : List ε) : Prop :=
  ∃ pre e post, log = pre ++ e :: post ∧ A e ∧ ∀ x ∈ post, ¬ R x

theorem split_concat {log pre post : List ε} {e x : ε} (h : log ++ [e] = pre ++ x :: post) :
    (pre = log ∧ x = e ∧ post = []) ∨ ∃ post', post = post' ++ [e] ∧ log = pre ++ x :: post' := by
  rcases List.eq_nil_or_concat' post with rfl | ⟨post', y, rfl⟩
  · obtain ⟨rfl, hx⟩ := List.append_inj' h rfl
    exact Or.inl ⟨rfl, (List.singleton_inj.mp hx).symm, rfl⟩
  · rw [← List.cons_append, ← List.append_assoc] at h
    obtain ⟨rfl, hy⟩ := List.append_inj' h rfl
    rw [List.singleton_inj.mp hy]
    exact Or.inr ⟨post', rfl, rfl⟩

theorem not_split_nil {pre post : List ε} {x : ε} : [] ≠ pre ++ x :: post := by simp

/-! ### Each event with those before it -/

theorem each_nil (P : List ε → ε → Prop) : Each P [] :=
  fun _ _ _ h => absurd h not_split_nil

theorem each_concat {P : List ε → ε → Prop} {log : List ε} {e : ε} :
    Each P (log ++ [e]) ↔ Each P log ∧ P log e := by
  constructor
  · refine fun h => ⟨?_, h log e [] rfl⟩
    rintro pre x post rfl
    exact h pre x (post ++ [e]) (by simp)
  · rintro ⟨hlog, he⟩ pre x post hsplit
    rcases split_concat hsplit with ⟨rfl, rfl, -⟩ | ⟨post', -, rfl⟩
    · exact he
    · exact hlog pre x post' rfl

/-! ### What has not been followed up -/

variable {A R : ε → Prop}

theorem not_pending_nil : ¬ Pending A R [] := by
  rintro ⟨pre, e, post, h, -⟩
  exact not_split_nil h

theorem pending_concat {log : List ε} {e : ε} :
    Pending A R (log ++ [e]) ↔ A e ∨ (Pending A R log ∧ ¬ R e) := by
  constructor
  · rintro ⟨pre, x, post, hsplit, hA, hR⟩
    rcases split_concat hsplit with ⟨-, rfl, -⟩ | ⟨post', rfl, rfl⟩
    · exact Or.inl hA
    · obtain ⟨hpost, hlast⟩ := List.forall_mem_append.mp hR
      exact Or.inr ⟨⟨pre, x, post', rfl, hA, hpost⟩, hlast e (by simp)⟩
  · rintro (hA | ⟨⟨pre, x, post, rfl, hA, hR⟩, hlast⟩)
    · exact ⟨log, e, [], rfl, hA, by simp⟩
    · exact ⟨pre, x, post ++ [e], by simp, hA,
        List.forall_mem_append.mpr ⟨hR, by simpa using hlast⟩⟩

end VestingDripStream.Lib.History
