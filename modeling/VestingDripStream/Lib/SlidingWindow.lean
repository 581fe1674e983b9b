import Mathlib.Algebra.Order.Group.Defs
import Mathlib.Tactic

/-! # Sliding windows

A log of events in the order of time, some of which count. `Bounded` says that no window of a fixed
length, half-open and anywhere on the line, holds more events that count than a maximum. An event
that is added to the log keeps this exactly if it does not count or fewer than the maximum counted
in the window that ends with it (`bounded_concat`); so the bound on all windows is a condition on
the events, each with those before it. -/

namespace VestingDripStream.Lib.SlidingWindow

variable {ε : Type*}

variable {τ : Type*} [AddCommGroup τ] [LinearOrder τ] (time : ε → τ) (counts : ε → Bool)

/-- The number of events that count in the window of length `w` from `a` on. -/
def countIn (w a : τ) (log : List ε) : ℕ :=
  log.countP fun e => decide (counts e = true ∧ a ≤ time e ∧ time e < a + w)

/-- The number of events that count less than `w` before `now`. -/
def recent (w now : τ) (log : List ε) : ℕ :=
  log.countP fun e => decide (counts e = true ∧ now < time e + w)

/-- No window holds more than `max` events that count. -/
def Bounded (w : τ) (max : ℤ) (log : List ε) : Prop := ∀ a, countIn time counts w a log ≤ max

variable {time counts} {w a now : τ} {max : ℤ} {log : List ε} {e : ε}

theorem bounded_nil : Bounded time counts w max [] ↔ 0 ≤ max :=
  ⟨fun h => h 0, fun h _ => h⟩

theorem recent_append (log' : List ε) : recent time counts w now (log ++ log') =
    recent time counts w now log + recent time counts w now log' := List.countP_append

theorem countIn_concat : countIn time counts w a (log ++ [e]) =
    countIn time counts w a log +
      if counts e = true ∧ a ≤ time e ∧ time e < a + w then 1 else 0 := by
  unfold countIn
  rw [List.countP_append, List.countP_singleton]
  simp only [decide_eq_true_eq]

variable [IsOrderedAddMonoid τ]

/-- A window that reaches beyond `now` holds recent events only. -/
theorem countIn_le_recent (h : now < a + w) :
    countIn time counts w a log ≤ recent time counts w now log := by
  refine List.countP_mono_left fun x _ hx => ?_
  simp only [decide_eq_true_eq] at hx ⊢
  exact ⟨hx.1, h.trans_le (add_le_add_left hx.2.1 w)⟩

variable (counts) in
/-- Some window that reaches beyond `now` holds all recent events. -/
theorem exists_window (hw : 0 < w) (hlast : ∀ x ∈ log, time x ≤ now) :
    ∃ a ≤ now, now < a + w ∧ recent time counts w now log ≤ countIn time counts w a log := by
  -- it starts with the first of them
  have hfin : {t | t = now ∨ ∃ x ∈ log, time x = t ∧ now < t + w}.Finite := by
    refine ((log.map time).finite_toSet.insert now).subset ?_
    rintro t (rfl | ⟨x, hx, rfl, -⟩)
    · exact Or.inl rfl
    · exact Or.inr (List.mem_map_of_mem hx)
  obtain ⟨a, ha, hmin⟩ := Set.exists_min_image _ id hfin ⟨now, Or.inl rfl⟩
  have hreach : now < a + w := by
    rcases ha with rfl | ⟨x, -, rfl, hx⟩
    · exact lt_add_of_pos_right a hw
    · exact hx
  refine ⟨a, hmin now (Or.inl rfl), hreach, List.countP_mono_left fun x hx hrec => ?_⟩
  simp only [decide_eq_true_eq] at hrec ⊢
  exact ⟨hrec.1, hmin _ (Or.inr ⟨x, hx, rfl, hrec.2⟩), (hlast x hx).trans_lt hreach⟩

theorem recent_eq_zero (hw : w ≤ 0) (hlast : ∀ x ∈ log, time x ≤ now) :
    recent time counts w now log = 0 := by
  refine List.countP_eq_zero.mpr fun x hx => ?_
  simp only [decide_eq_true_eq, not_and, not_lt]
  exact fun _ => (add_le_of_nonpos_right hw).trans (hlast x hx)

/-- **One more event**, not earlier than those in the log. -/
theorem bounded_concat (hlast : ∀ x ∈ log, time x ≤ time e) (hmax : counts e = true → 0 < max) :
    Bounded time counts w max (log ++ [e]) ↔
      Bounded time counts w max log ∧
        (counts e = true → recent time counts w (time e) log < max) := by
  constructor
  · refine fun h => ⟨fun a => ?_, fun he => ?_⟩
    · have ha := h a
      rw [countIn_concat] at ha
      push_cast at ha
      split_ifs at ha <;> linarith
    · rcases le_or_gt w 0 with hw | hw
      · rw [recent_eq_zero hw hlast]
        exact hmax he
      · obtain ⟨a, hle, hlt, hrecent⟩ := exists_window counts hw hlast
        have ha := h a
        rw [countIn_concat, if_pos ⟨he, hle, hlt⟩] at ha
        omega
  · rintro ⟨hlog, he⟩ a
    rw [countIn_concat]
    split_ifs with hin
    · have hle : countIn time counts w a log ≤ recent time counts w (time e) log :=
        countIn_le_recent hin.2.2
      have hlt := he hin.1
      omega
    · exact hlog a

end VestingDripStream.Lib.SlidingWindow
