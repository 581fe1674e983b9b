import Mathlib.Data.List.Basic
import Mathlib.Tactic

/-! # A list in parts

A list is read in parts of `n` elements, until a part is short or tells the reader to stop. The
element at the place `i` is in the part `i / n`, so what was read is told from the number of the
last part (`mem_take_iff`, `StopsAt`). -/

namespace VestingDripStream.Lib.Chunks

variable {α : Type*} {n k m : ℕ} {l : List α} {stop : List α → Prop} {a : α}

/-- The part of the list with the number `k`. -/
def chunk (n k : ℕ) (l : List α) : List α := (l.drop (k * n)).take n

/-- A reader stops behind the part `m`: it is short or tells to stop, and those before it are full
and do not. -/
structure StopsAt (n : ℕ) (stop : List α → Prop) (l : List α) (m : ℕ) : Prop where
  goesOn : ∀ k < m, (chunk n k l).length = n ∧ ¬ stop (chunk n k l)
  ends : (chunk n m l).length < n ∨ stop (chunk n m l)

theorem chunk_zero (n : ℕ) (l : List α) : chunk n 0 l = l.take n := by
  unfold chunk
  rw [Nat.zero_mul, List.drop_zero]

theorem chunk_nil (n k : ℕ) : chunk n k ([] : List α) = [] := by
  unfold chunk
  rw [List.drop_nil, List.take_nil]

theorem chunk_succ (n k : ℕ) (l : List α) : chunk n (k + 1) l = chunk n k (l.drop n) := by
  unfold chunk
  rw [List.drop_drop, Nat.succ_mul, Nat.add_comm]

theorem length_chunk_le (n k : ℕ) (l : List α) : (chunk n k l).length ≤ n := List.length_take_le ..

/-- The last part is the one that is short. -/
theorem length_chunk_lt_iff (hn : 0 < n) : (chunk n k l).length < n ↔ l.length < (k + 1) * n := by
  unfold chunk
  rw [List.length_take, List.length_drop, Nat.succ_mul]
  omega

theorem getElem?_chunk (hn : 0 < n) (i : ℕ) (l : List α) :
    (chunk n (i / n) l)[i % n]? = l[i]? := by
  unfold chunk
  rw [List.getElem?_take_of_lt (Nat.mod_lt i hn), List.getElem?_drop, Nat.mul_comm,
    Nat.div_add_mod]

theorem mem_chunk_iff (hn : 0 < n) : a ∈ chunk n k l ↔ ∃ i, l[i]? = some a ∧ i / n = k := by
  constructor
  · intro h
    obtain ⟨j, hj⟩ := List.getElem?_of_mem h
    have hlt : j < n := by
      obtain ⟨hlen, -⟩ := List.getElem?_eq_some_iff.mp hj
      have := length_chunk_le n k l
      omega
    have hdiv : (k * n + j) / n = k := by
      rw [Nat.mul_comm, Nat.mul_add_div hn, Nat.div_eq_of_lt hlt, Nat.add_zero]
    refine ⟨k * n + j, ?_, hdiv⟩
    rw [← getElem?_chunk hn, hdiv, Nat.mul_add_mod', Nat.mod_eq_of_lt hlt, hj]
  · rintro ⟨i, hi, rfl⟩
    rw [← getElem?_chunk hn] at hi
    exact List.mem_of_getElem? hi

/-- What is in the first parts. -/
theorem mem_take_iff (hn : 0 < n) :
    a ∈ l.take ((m + 1) * n) ↔ ∃ i, l[i]? = some a ∧ i / n ≤ m := by
  rw [List.mem_take_iff_getElem]
  constructor
  · rintro ⟨i, hi, rfl⟩
    refine ⟨i, List.getElem?_eq_getElem _, ?_⟩
    have hlt : i < (m + 1) * n := by omega
    have := (Nat.div_lt_iff_lt_mul hn).mpr hlt
    omega
  · rintro ⟨i, hi, hle⟩
    obtain ⟨hlt, rfl⟩ := List.getElem?_eq_some_iff.mp hi
    have := (Nat.div_lt_iff_lt_mul hn).mp (show i / n < m + 1 by omega)
    exact ⟨i, by omega, rfl⟩

/-- The first part and the others. -/
theorem take_succ_mul (n m : ℕ) (l : List α) :
    l.take ((m + 1) * n) = chunk n 0 l ++ (l.drop n).take (m * n) := by
  rw [chunk_zero, Nat.succ_mul, Nat.add_comm, List.take_add]

theorem take_one_mul (n : ℕ) (l : List α) : l.take ((0 + 1) * n) = chunk n 0 l := by
  rw [Nat.zero_add, Nat.one_mul, chunk_zero]

/-- Behind a part that is not empty less is left. -/
theorem length_drop_lt (hn : 0 < n) (h : chunk n 0 l ≠ []) : (l.drop n).length < l.length := by
  have hne : l ≠ [] := by
    rintro rfl
    exact h (chunk_nil n 0)
  have hpos := List.length_pos_iff.mpr hne
  rw [List.length_drop]
  omega

theorem map_chunk_succ (n m : ℕ) (l : List α) :
    (List.range (m + 1 + 1)).map (chunk n · l) =
      chunk n 0 l :: (List.range (m + 1)).map (chunk n · (l.drop n)) := by
  have hmap : (List.range (m + 1)).map (chunk n · (l.drop n)) =
      (List.range (m + 1)).map ((chunk n · l) ∘ Nat.succ) :=
    List.map_congr_left fun k _ => (chunk_succ n k l).symm
  rw [hmap, List.range_succ_eq_map, List.map_cons, List.map_map]

/-- The parts one after the other. -/
theorem flatMap_chunk (n m : ℕ) (l : List α) :
    (List.range m).flatMap (fun k => chunk n k l) = l.take (m * n) := by
  induction m with
  | zero => rw [Nat.zero_mul, List.take_zero, List.range_zero, List.flatMap_nil]
  | succ m ih =>
    rw [List.range_succ, List.flatMap_append, ih, List.flatMap_singleton, Nat.succ_mul,
      List.take_add, chunk]

/-! ### Where a reader stops -/

theorem stopsAt_zero (h : (chunk n 0 l).length < n ∨ stop (chunk n 0 l)) : StopsAt n stop l 0 where
  goesOn _ hk := absurd hk (Nat.not_lt_zero _)
  ends := h

theorem stopsAt_succ (hlen : (chunk n 0 l).length = n) (hstop : ¬ stop (chunk n 0 l))
    (h : StopsAt n stop (l.drop n) m) : StopsAt n stop l (m + 1) where
  goesOn k hk := by
    cases k with
    | zero => exact ⟨hlen, hstop⟩
    | succ k =>
      rw [chunk_succ]
      exact h.goesOn k (by omega)
  ends := by
    rw [chunk_succ]
    exact h.ends

/-- A part before the last one is not the end of the list. -/
theorem StopsAt.le_length (h : StopsAt n stop l m) (hn : 0 < n) (hk : k < m) :
    (k + 1) * n ≤ l.length := by
  by_contra hlt
  have hshort := (length_chunk_lt_iff hn).mpr (not_le.mp hlt)
  have hfull := (h.goesOn k hk).1
  omega

/-- A reader that is not told to stop reads the whole list. -/
theorem StopsAt.length_lt (h : StopsAt n stop l m) (hn : 0 < n) (hstop : ¬ stop (chunk n m l)) :
    l.length < (m + 1) * n :=
  (length_chunk_lt_iff hn).mp (h.ends.resolve_right hstop)

end VestingDripStream.Lib.Chunks
