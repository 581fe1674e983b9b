import Mathlib.Order.WithBot
import Mathlib.Data.List.Basic
import Mathlib.Data.List.Sort

/-! # Reading a log page by page

A log is a list of records whose positions increase; it grows at its end. A reader holds a cursor, a
position or the beginning `⊥`, and is served the next records after it. `Covers` says that what is
asked of a record holds of all that the cursor is at or beyond: a reader that moves its cursor to
the end of a page keeps it exactly if it holds of the page (`covers_last_iff`). -/

namespace VestingDripStream.Lib.Paging

variable {ρ P : Type*} [LinearOrder P] (pos : ρ → P)

/-- The records are in the order of their positions. -/
def Increasing (log : List ρ) : Prop := log.Pairwise fun r r' => pos r < pos r'

/-- The next records after the cursor, `n` at most. -/
def page (c : WithBot P) (n : ℕ) (log : List ρ) : List ρ :=
  (log.filter fun r => c < (pos r : WithBot P)).take n

/-- The records after the cursor. -/
def after (c : WithBot P) (log : List ρ) : List ρ := log.filter fun r => c < (pos r : WithBot P)

/-- `D` holds of every record that the cursor is at or beyond. -/
def Covers (D : ρ → Prop) (log : List ρ) (c : WithBot P) : Prop :=
  ∀ r ∈ log, (pos r : WithBot P) ≤ c → D r

variable {pos} {D D' : ρ → Prop} {log new : List ρ} {c : WithBot P} {n : ℕ}

theorem mem_of_mem_page {r : ρ} (h : r ∈ page pos c n log) : r ∈ log :=
  List.mem_of_mem_filter (List.mem_of_mem_take h)

theorem lt_of_mem_page {r : ρ} (h : r ∈ page pos c n log) : c < (pos r : WithBot P) := by
  simpa using List.of_mem_filter (List.mem_of_mem_take h)

theorem Covers.imp (hD : ∀ r ∈ log, D r → D' r) (h : Covers pos D log c) : Covers pos D' log c :=
  fun r hr hle => hD r hr (h r hr hle)

/-- What is appended after the cursor is not covered yet. -/
theorem covers_append (hnew : ∀ r ∈ new, c < (pos r : WithBot P)) :
    Covers pos D (log ++ new) c ↔ Covers pos D log c := by
  constructor
  · exact fun h r hr hle => h r (List.mem_append_left new hr) hle
  · intro h r hr hle
    rcases List.mem_append.mp hr with hr | hr
    · exact h r hr hle
    · exact absurd hle (not_le.mpr (hnew r hr))

/-- A new record comes after every record of the log. -/
theorem Increasing.lt_of_append (h : Increasing pos (log ++ new)) {r r' : ρ} (hr : r ∈ log)
    (hr' : r' ∈ new) : pos r < pos r' :=
  (List.pairwise_append.mp h).2.2 r hr r' hr'

/-- What is not beyond the end of a page is in it, or the cursor was there already. -/
theorem mem_page_of_le (hinc : Increasing pos log) {last r : ρ}
    (hlast : (page pos c n log).getLast? = some last) (hr : r ∈ log) (hle : pos r ≤ pos last)
    (hc : c < (pos r : WithBot P)) : r ∈ page pos c n log := by
  have hmem : r ∈ log.filter fun r => c < (pos r : WithBot P) := by
    simpa using ⟨hr, hc⟩
  have hafter : (log.filter fun r => c < (pos r : WithBot P)).Pairwise fun r r' => pos r < pos r' :=
    List.Pairwise.filter _ hinc
  rw [← List.take_append_drop n (log.filter fun r => c < (pos r : WithBot P))] at hmem hafter
  rcases List.mem_append.mp hmem with h | h
  · exact h
  · -- the records left out of the page come after its last
    have hlt := (List.pairwise_append.mp hafter).2.2 last (List.mem_of_getLast? hlast) r h
    exact absurd hle (not_le.mpr hlt)

theorem after_bot (log : List ρ) : after pos ⊥ log = log :=
  List.filter_eq_self.mpr fun r _ => decide_eq_true (WithBot.bot_lt_coe (pos r))

/-- The last record of a page is its end. -/
theorem le_last_of_mem_page (hinc : Increasing pos log) {last r : ρ}
    (hlast : (page pos c n log).getLast? = some last) (hr : r ∈ page pos c n log) :
    pos r ≤ pos last := by
  have hsorted : (page pos c n log).Pairwise fun r r' => pos r < pos r' :=
    (List.Pairwise.filter _ hinc).sublist (List.take_sublist _ _)
  obtain ⟨init, hinit⟩ := List.getLast?_eq_some_iff.mp hlast
  rw [hinit] at hr hsorted
  rcases List.mem_append.mp hr with hr | hr
  · exact ((List.pairwise_append.mp hsorted).2.2 r hr last (by simp)).le
  · rw [List.mem_singleton.mp hr]

/-- Behind the end of a page follow the records that it left out. -/
theorem after_last (hinc : Increasing pos log) {last : ρ}
    (hlast : (page pos c n log).getLast? = some last) :
    after pos (pos last) log = (after pos c log).drop n := by
  have hsorted : (after pos c log).Pairwise fun r r' => pos r < pos r' :=
    List.Pairwise.filter _ hinc
  have hbefore : c < (pos last : WithBot P) := lt_of_mem_page (List.mem_of_getLast? hlast)
  have hafter : after pos (pos last) log = after pos (pos last) (after pos c log) := by
    unfold after
    rw [List.filter_filter]
    refine List.filter_congr fun r _ => ?_
    rw [Bool.eq_iff_iff, Bool.and_eq_true, decide_eq_true_iff, decide_eq_true_iff]
    exact ⟨fun h => ⟨h, hbefore.trans h⟩, And.left⟩
  have hpage : after pos (pos last) ((after pos c log).take n) = [] := by
    refine List.filter_eq_nil_iff.mpr fun r hr => ?_
    rw [decide_eq_true_iff, WithBot.coe_lt_coe, not_lt]
    exact le_last_of_mem_page hinc hlast hr
  have hrest : after pos (pos last) ((after pos c log).drop n) = (after pos c log).drop n := by
    rw [← List.take_append_drop n (after pos c log)] at hsorted
    refine List.filter_eq_self.mpr fun r hr => ?_
    rw [decide_eq_true_iff, WithBot.coe_lt_coe]
    exact (List.pairwise_append.mp hsorted).2.2 last (List.mem_of_getLast? hlast) r hr
  rw [hafter]
  conv_lhs => rw [← List.take_append_drop n (after pos c log)]
  unfold after at hpage hrest ⊢
  rw [List.filter_append, hpage, hrest, List.nil_append]

/-- **Moving the cursor** to the end of a page. -/
theorem covers_last_iff (hinc : Increasing pos log) {last : ρ}
    (hlast : (page pos c n log).getLast? = some last) :
    Covers pos D log (pos last) ↔ Covers pos D log c ∧ ∀ r ∈ page pos c n log, D r := by
  have hmem := List.mem_of_getLast? hlast
  constructor
  · intro h
    have hbefore : c ≤ (pos last : WithBot P) := (lt_of_mem_page hmem).le
    refine ⟨fun r hr hle => h r hr (hle.trans hbefore), fun r hr => ?_⟩
    exact h r (mem_of_mem_page hr) (WithBot.coe_le_coe.mpr (le_last_of_mem_page hinc hlast hr))
  · rintro ⟨hc, hpage⟩ r hr hle
    by_cases hafter : c < (pos r : WithBot P)
    · exact hpage r (mem_page_of_le hinc hlast hr (WithBot.coe_le_coe.mp hle) hafter)
    · exact hc r hr (not_lt.mp hafter)

end VestingDripStream.Lib.Paging
