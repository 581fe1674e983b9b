import Mathlib.Data.List.Nodup
import Mathlib.Data.List.Basic
import Mathlib.Tactic.SplitIfs

/-! # Sets of members under keys

A map from keys to sets, in which a set that becomes empty is deleted with its key. A set is listed
in the order in which its members were added. `Tidy` says that no set is empty and none lists a
member twice; `mem_add`, `mem_remove` and `mem_prune` say what the operations do to the members. -/

namespace VestingDripStream.Lib.Buckets

/-- Sets of `α` under keys `κ`. -/
abbrev Sets (κ α : Type*) := κ → Option (List α)

section Operations

variable {κ α : Type*} [DecidableEq κ] [DecidableEq α]

omit [DecidableEq κ] [DecidableEq α] in
/-- The members under a key. -/
def members (b : Sets κ α) (k : κ) : List α := (b k).getD []

omit [DecidableEq κ] [DecidableEq α] in
/-- What is kept of a set: nothing if it is empty. -/
def kept (l : List α) : Option (List α) := if l.isEmpty then none else some l

/-- Add a member under a key, with a new set if the key has none. -/
def add (b : Sets κ α) (k : κ) (a : α) : Sets κ α :=
  Function.update b k (some ((members b k).insert a))

/-- Remove a member from the set of a key, if the key has one. -/
def remove (b : Sets κ α) (k : κ) (a : α) : Sets κ α :=
  match b k with
  | none => b
  | some l => Function.update b k (kept (l.filter (· ≠ a)))

/-- Remove some members from every set. -/
def prune (b : Sets κ α) (p : α → Bool) : Sets κ α :=
  fun k => (b k).bind fun l => kept (l.filter fun a => !p a)

end Operations

variable {κ α : Type*} {b : Sets κ α} {k k' : κ} {a a' : α}

/-- No set is empty, and none has a member twice. -/
structure Tidy (b : Sets κ α) : Prop where
  ne_nil : ∀ k, b k ≠ some []
  nodup : ∀ k, (members b k).Nodup

theorem members_kept (l : List α) : (kept l).getD [] = l := by
  unfold kept
  cases l <;> rfl

theorem kept_ne_nil (l : List α) : kept l ≠ some [] := by
  unfold kept
  cases l <;> simp

theorem members_prune (p : α → Bool) :
    members (prune b p) k = (members b k).filter fun a => !p a := by
  unfold members prune
  cases b k with
  | none => rfl
  | some l => exact members_kept _

theorem mem_prune {p : α → Bool} :
    a ∈ members (prune b p) k ↔ a ∈ members b k ∧ p a = false := by
  rw [members_prune]
  simp

theorem Tidy.prune (h : Tidy b) (p : α → Bool) : Tidy (prune b p) := by
  refine ⟨fun k => ?_, fun k => ?_⟩
  · unfold Buckets.prune
    cases b k with
    | none => simp
    | some l => exact kept_ne_nil _
  · rw [members_prune]
    exact (h.nodup k).filter _

variable [DecidableEq κ] [DecidableEq α]

theorem members_add : members (add b k a) k' =
    if k' = k then (members b k).insert a else members b k' := by
  unfold members add
  by_cases h : k' = k
  · subst h
    rw [Function.update_self, if_pos rfl]
    rfl
  · rw [Function.update_of_ne h, if_neg h]

theorem members_remove : members (remove b k a) k' =
    if k' = k then (members b k).filter (· ≠ a) else members b k' := by
  unfold remove
  cases hk : b k with
  | none =>
    show members b k' = _
    split_ifs with h
    · subst h
      unfold members
      rw [hk]
      rfl
    · rfl
  | some l =>
    unfold members
    by_cases h : k' = k
    · subst h
      simp only [Function.update_self, if_pos, members_kept, hk, Option.getD_some]
    · simp only [Function.update_of_ne h, if_neg h]

theorem mem_add : a' ∈ members (add b k a) k' ↔ (k' = k ∧ a' = a) ∨ a' ∈ members b k' := by
  rw [members_add]
  split_ifs with h
  · subst h
    simp
  · simp [h]

theorem mem_remove :
    a' ∈ members (remove b k a) k' ↔ a' ∈ members b k' ∧ ¬ (k' = k ∧ a' = a) := by
  rw [members_remove]
  split_ifs with h
  · subst h
    simp
  · simp [h]

theorem Tidy.add (h : Tidy b) (k : κ) (a : α) : Tidy (add b k a) := by
  refine ⟨fun k' => ?_, fun k' => ?_⟩
  · unfold Buckets.add
    by_cases hk : k' = k
    · subst hk
      rw [Function.update_self]
      intro hnil
      have hmem : a ∈ (members b k').insert a := by simp
      rw [Option.some.injEq] at hnil
      rw [hnil] at hmem
      cases hmem
    · rw [Function.update_of_ne hk]
      exact h.ne_nil k'
  · rw [members_add]
    split_ifs
    · exact (h.nodup k).insert
    · exact h.nodup k'

theorem Tidy.remove (h : Tidy b) (k : κ) (a : α) : Tidy (remove b k a) := by
  refine ⟨fun k' => ?_, fun k' => ?_⟩
  · unfold Buckets.remove
    cases hb : b k with
    | none => exact h.ne_nil k'
    | some l =>
      by_cases hk : k' = k
      · subst hk
        simp only [Function.update_self]
        exact kept_ne_nil _
      · simp only [Function.update_of_ne hk]
        exact h.ne_nil k'
  · rw [members_remove]
    split_ifs
    · exact (h.nodup k).filter _
    · exact h.nodup k'

end VestingDripStream.Lib.Buckets
