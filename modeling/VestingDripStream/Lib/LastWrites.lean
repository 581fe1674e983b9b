import Mathlib.Data.List.Dedup
import Mathlib.Algebra.BigOperators.Group.List.Basic
import Mathlib.Algebra.Order.Ring.Int
import Mathlib.Tactic

/-! # The last write to a key wins

A list of items is written to a store one after the other, each under its own key. What the store
holds afterwards under the keys of the list are the items of `lastWrites`, those that no later item
overwrites. These are all of them exactly if the keys are pairwise distinct. -/

namespace VestingDripStream.Lib.LastWrites

variable {α κ : Type} [DecidableEq κ] {key : α → κ}

/-- The items that no later one overwrites. -/
def lastWrites (key : α → κ) : List α → List α
  | [] => []
  | a :: l => if key a ∈ l.map key then lastWrites key l else a :: lastWrites key l

/-- The items that a later one overwrites. -/
def overwritten (key : α → κ) : List α → List α
  | [] => []
  | a :: l => if key a ∈ l.map key then a :: overwritten key l else overwritten key l

theorem map_key_lastWrites : ∀ l : List α, (lastWrites key l).map key = (l.map key).dedup
  | [] => rfl
  | a :: l => by
    unfold lastWrites
    rw [List.map_cons]
    split_ifs with h
    · rw [List.dedup_cons_of_mem h, map_key_lastWrites l]
    · rw [List.dedup_cons_of_notMem h, List.map_cons, map_key_lastWrites l]

theorem lastWrites_of_nodup : ∀ {l : List α}, (l.map key).Nodup → lastWrites key l = l
  | [], _ => rfl
  | a :: l, h => by
    rw [List.map_cons, List.nodup_cons] at h
    unfold lastWrites
    rw [if_neg h.1, lastWrites_of_nodup h.2]

theorem overwritten_of_nodup : ∀ {l : List α}, (l.map key).Nodup → overwritten key l = []
  | [], _ => rfl
  | a :: l, h => by
    rw [List.map_cons, List.nodup_cons] at h
    unfold overwritten
    rw [if_neg h.1, overwritten_of_nodup h.2]

/-- Every item is kept or overwritten. -/
theorem sum_eq (key : α → κ) (f : α → ℤ) : ∀ l : List α,
    (l.map f).sum = ((lastWrites key l).map f).sum + ((overwritten key l).map f).sum
  | [] => rfl
  | a :: l => by
    have ih := sum_eq key f l
    unfold lastWrites overwritten
    split_ifs
    · simp only [List.map_cons, List.sum_cons]
      omega
    · simp only [List.map_cons, List.sum_cons]
      omega

theorem mem_of_mem_lastWrites : ∀ {l : List α} {a : α}, a ∈ lastWrites key l → a ∈ l
  | b :: l, a, h => by
    unfold lastWrites at h
    split_ifs at h
    · exact List.mem_cons_of_mem _ (mem_of_mem_lastWrites h)
    · rcases List.mem_cons.mp h with rfl | h
      · exact List.mem_cons_self
      · exact List.mem_cons_of_mem _ (mem_of_mem_lastWrites h)

section Store

variable {σ β : Type} {write : σ → α → σ} {val : α → β} (get : σ → κ → β)

theorem get_of_notMem (hw : ∀ s a k, get (write s a) k = if k = key a then val a else get s k) :
    ∀ {l : List α} {s : σ} {k : κ}, k ∉ l.map key → get (l.foldl write s) k = get s k
  | [], _, _, _ => rfl
  | a :: l, s, k, h => by
    rw [List.map_cons, List.mem_cons, not_or] at h
    rw [List.foldl_cons, get_of_notMem hw h.2, hw, if_neg h.1]

/-- **The last write wins.** -/
theorem get_of_mem (hw : ∀ s a k, get (write s a) k = if k = key a then val a else get s k) :
    ∀ {l : List α} {s : σ} {a : α}, a ∈ lastWrites key l →
      get (l.foldl write s) (key a) = val a
  | b :: l, s, a, h => by
    unfold lastWrites at h
    rw [List.foldl_cons]
    split_ifs at h with hlater
    · exact get_of_mem hw h
    · rcases List.mem_cons.mp h with rfl | h
      · rw [get_of_notMem get hw hlater, hw, if_pos rfl]
      · exact get_of_mem hw h

end Store

end VestingDripStream.Lib.LastWrites
