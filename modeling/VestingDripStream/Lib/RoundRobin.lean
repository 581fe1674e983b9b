import Mathlib.Data.List.Rotate
import Mathlib.Tactic

/-! # Round robin

A search goes through `n` places in a circle, from a given one on, and stops behind the first one
that is eligible. Searches that begin where the last one stopped find the eligible places in turn
(`outputs_eq`), so in as many searches as there are eligible places each is found once. -/

namespace VestingDripStream.Lib.RoundRobin

/-- The places from `r` on, once round. -/
def places (n r : ℕ) : List ℕ := (List.range n).rotate r

/-- The eligible places from `r` on, once round. -/
def turns (p : ℕ → Bool) (n r : ℕ) : List ℕ := (places n r).filter p

/-- At most `k` places from `r` on: the first eligible one, and where the next search begins. -/
def search (p : ℕ → Bool) (n : ℕ) : ℕ → ℕ → Option ℕ × ℕ
  | 0, r => (none, r)
  | k + 1, r => if p (r % n) then (some (r % n), (r + 1) % n) else search p n k ((r + 1) % n)

section Search

variable {p : ℕ → Bool} {n r : ℕ}

theorem places_mod (n r : ℕ) : places n (r % n) = places n r := by
  have hmod := List.rotate_mod (List.range n) r
  rwa [List.length_range] at hmod

theorem length_places (n r : ℕ) : (places n r).length = n := by
  unfold places
  rw [List.length_rotate, List.length_range]

theorem getElem_places {j : ℕ} (h : j < (places n r).length) : (places n r)[j] = (r + j) % n := by
  simp only [places, List.getElem_rotate, List.getElem_range, List.length_range, Nat.add_comm]

theorem turns_mod (p : ℕ → Bool) (n r : ℕ) : turns p n (r % n) = turns p n r := by
  unfold turns
  rw [places_mod]

/-- The turns are the eligible places, in another order. -/
theorem turns_perm (p : ℕ → Bool) (n r : ℕ) : (turns p n r).Perm ((List.range n).filter p) :=
  (List.rotate_perm _ r).filter p

theorem mem_turns {i : ℕ} : i ∈ turns p n r ↔ i < n ∧ p i = true := by
  rw [(turns_perm p n r).mem_iff, List.mem_filter, List.mem_range]

/-- **A search** stops at the first eligible place, or passes all of them. -/
theorem search_cases (p : ℕ → Bool) (n k r : ℕ) :
    (∃ j < k, (∀ i < j, p ((r + i) % n) = false) ∧ p ((r + j) % n) = true ∧
      search p n k r = (some ((r + j) % n), (r + j + 1) % n)) ∨
    ((∀ i < k, p ((r + i) % n) = false) ∧ (search p n k r).1 = none) := by
  induction k generalizing r with
  | zero => exact Or.inr ⟨fun i hi => absurd hi (Nat.not_lt_zero i), rfl⟩
  | succ k ih =>
    by_cases hfirst : p (r % n) = true
    · exact Or.inl ⟨0, by omega, fun i hi => absurd hi (Nat.not_lt_zero i), hfirst, if_pos hfirst⟩
    · have hrest : search p n (k + 1) r = search p n k ((r + 1) % n) := if_neg hfirst
      have hshift : ∀ i, ((r + 1) % n + i) % n = (r + (i + 1)) % n := by
        intro i
        rw [Nat.mod_add_mod]
        congr 1
        omega
      have hpass : ∀ m, (∀ i < m, p (((r + 1) % n + i) % n) = false) →
          ∀ i < m + 1, p ((r + i) % n) = false := by
        intro m hm i hi
        cases i with
        | zero => exact Bool.eq_false_iff.mpr hfirst
        | succ i => rw [← hshift]; exact hm i (by omega)
      rw [hrest]
      rcases ih ((r + 1) % n) with ⟨j, hj, hbefore, hat, hfound⟩ | ⟨hnone, hout⟩
      · refine Or.inl ⟨j + 1, by omega, hpass j hbefore, by rwa [← hshift], ?_⟩
        rw [hfound, hshift, Nat.add_assoc ((r + 1) % n), hshift, Nat.add_assoc r]
      · exact Or.inr ⟨hpass k hnone, hout⟩

/-- A circle that begins anew behind one of its elements. -/
theorem rotate_behind {α : Type*} (l l' : List α) (a : α) :
    (l ++ a :: l').rotate (l.length + 1) = l' ++ (l ++ [a]) := by
  have hlen : l.length + 1 = (l ++ [a]).length := by
    rw [List.length_append, List.length_singleton]
  rw [hlen, ← List.singleton_append, ← List.append_assoc]
  exact List.rotate_append_length_eq _ _

/-- The search finds the first of the turns, and the next one begins with the turn after it. -/
theorem search_turns (p : ℕ → Bool) (n r : ℕ) :
    (search p n n r).1 = (turns p n r).head? ∧
      ((turns p n r) ≠ [] → turns p n (search p n n r).2 = (turns p n r).rotate 1) := by
  rcases search_cases p n n r with ⟨j, hj, hbefore, hat, hfound⟩ | ⟨hnone, hout⟩
  · have hjlen : j < (places n r).length := by rwa [length_places]
    have hsplit : places n r =
        (places n r).take j ++ (r + j) % n :: (places n r).drop (j + 1) := by
      rw [← getElem_places hjlen, List.cons_getElem_drop_succ, List.take_append_drop]
    have hpre : ((places n r).take j).filter p = [] := by
      rw [List.filter_eq_nil_iff]
      intro i hi
      obtain ⟨m, hm, rfl⟩ := List.mem_take_iff_getElem.mp hi
      rw [getElem_places, hbefore m (by omega)]
      exact Bool.false_ne_true
    have hturns : turns p n r =
        (r + j) % n :: ((places n r).drop (j + 1)).filter p := by
      conv_lhs => unfold turns; rw [hsplit]
      rw [List.filter_append, hpre, List.nil_append, List.filter_cons_of_pos hat]
    have hnext : turns p n (r + j + 1) =
        ((places n r).drop (j + 1)).filter p ++ [(r + j) % n] := by
      have hlen : ((places n r).take j).length = j := by
        rw [List.length_take]
        omega
      have hrot : places n (r + j + 1) =
          (places n r).drop (j + 1) ++ ((places n r).take j ++ [(r + j) % n]) := by
        rw [← rotate_behind, ← hsplit, hlen]
        unfold places
        rw [List.rotate_rotate, Nat.add_assoc]
      unfold turns
      rw [hrot, List.filter_append, List.filter_append, hpre, List.nil_append,
        List.filter_cons_of_pos hat, List.filter_nil]
    rw [hfound, hturns]
    refine ⟨rfl, fun _ => ?_⟩
    rw [turns_mod, hnext, List.rotate_cons_succ, List.rotate_zero]
  · have hturns : turns p n r = [] := by
      unfold turns
      rw [List.filter_eq_nil_iff]
      intro i hi
      obtain ⟨m, hm, rfl⟩ := List.mem_iff_getElem.mp hi
      rw [getElem_places, hnone m (by rwa [length_places] at hm)]
      exact Bool.false_ne_true
    rw [hturns]
    exact ⟨hout, fun h => absurd rfl h⟩

end Search

/-! ### One search after the other -/

/-- A system that searches: the place where the next search begins, which places are eligible when
it is asked to search under a label, and what it finds. -/
structure Rotor (σ α : Type*) where
  size : σ → ℕ
  index : σ → ℕ
  eligible : σ → α → ℕ → Bool
  step : σ → α → Option ℕ × σ
  size_step : ∀ s a, size (step s a).2 = size s
  step_eq : ∀ s a, ((step s a).1, index (step s a).2) =
    search (eligible s a) (size s) (size s) (index s)
  /-- A search does not tell labels apart that were alike. -/
  keeps : ∀ s a b, eligible s a = eligible s b → eligible (step s a).2 b = eligible s b

namespace Rotor

variable {σ α : Type*} (R : Rotor σ α)

/-- What the searches of a run find. -/
def outputs : σ → List α → List (Option ℕ)
  | _, [] => []
  | s, a :: l => (R.step s a).1 :: outputs (R.step s a).2 l

/-- **In turn**: searches for the same places find them in a circle. -/
theorem outputs_eq {p : ℕ → Bool} {s : σ} {l : List α} (h : ∀ a ∈ l, R.eligible s a = p) :
    R.outputs s l = (List.range l.length).map fun j =>
      (turns p (R.size s) (R.index s))[j % (turns p (R.size s) (R.index s)).length]? := by
  induction l generalizing s with
  | nil => rfl
  | cons a l ih =>
    have ha := h a List.mem_cons_self
    have hstep := R.step_eq s a
    obtain ⟨hhead, hnext⟩ := search_turns p (R.size s) (R.index s)
    rw [ha] at hstep
    rw [← hstep] at hhead hnext
    have hrest := ih (s := (R.step s a).2) fun b hb => by
      have hb := h b (List.mem_cons_of_mem a hb)
      rw [R.keeps s a b (ha.trans hb.symm), hb]
    rw [outputs, hrest, R.size_step, List.length_cons, List.range_succ_eq_map, List.map_cons,
      List.map_map]
    congr 1
    · rw [Nat.zero_mod, ← List.head?_eq_getElem?]
      exact hhead
    · refine List.map_congr_left fun j _ => ?_
      by_cases hnil : turns p (R.size s) (R.index s) = []
      · have hnil' : turns p (R.size s) (R.index (R.step s a).2) = [] := by
          rw [← List.length_eq_zero_iff, (turns_perm p _ _).length_eq,
            ← (turns_perm p _ (R.index s)).length_eq, hnil]
          rfl
        rw [hnil, hnil']
        rfl
      · have hpos := List.length_pos_iff.mpr hnil
        rw [hnext hnil, List.length_rotate, List.getElem?_rotate (Nat.mod_lt _ hpos),
          Nat.mod_add_mod]
        rfl

/-- **Fairness**: as many searches as there are eligible places find each of them once. -/
theorem outputs_perm {p : ℕ → Bool} {s : σ} {l : List α} (h : ∀ a ∈ l, R.eligible s a = p)
    (hlen : l.length = ((List.range (R.size s)).filter p).length) :
    (R.outputs s l).Perm (((List.range (R.size s)).filter p).map some) := by
  have hperm := turns_perm p (R.size s) (R.index s)
  rw [← hperm.length_eq] at hlen
  have hall : R.outputs s l = (turns p (R.size s) (R.index s)).map some := by
    rw [R.outputs_eq h, hlen]
    refine List.ext_getElem (by simp) fun j hj hj' => ?_
    rw [List.length_map] at hj'
    rw [List.getElem_map, List.getElem_map, List.getElem_range, Nat.mod_eq_of_lt hj',
      List.getElem?_eq_getElem hj']
  rw [hall]
  exact hperm.map some

end Rotor

end VestingDripStream.Lib.RoundRobin
