import Mathlib.Tactic

/-! # Numerals

Numbers as they are written in a base of at most sixteen. Different numbers are written differently
(`toDigits_injective`), and a numeral begins with that of another number exactly if it is the number
with digits added (`toDigits_prefix_iff`). -/

namespace VestingDripStream.Lib.Numerals

variable {b m n : ℕ}

theorem digitChar_inj (hm : m < 16) (hn : n < 16) (h : m.digitChar = n.digitChar) : m = n := by
  have hall : ∀ m : Fin 16, ∀ n : Fin 16, m.val.digitChar = n.val.digitChar → m = n := by decide
  exact congrArg Fin.val (hall ⟨m, hm⟩ ⟨n, hn⟩ h)

/-- A numeral of one digit. -/
theorem lt_of_toDigits_singleton (hb : 1 < b) {c : Char} (h : Nat.toDigits b n = [c]) : n < b := by
  have hlen := (Nat.length_toDigits_le_iff (n := n) hb Nat.one_pos).mp (by rw [h]; rfl)
  rwa [pow_one] at hlen

theorem toDigits_injective (hb : 1 < b) (hb16 : b ≤ 16) : Function.Injective (Nat.toDigits b) := by
  intro m n h
  induction n using Nat.strong_induction_on generalizing m with
  | _ n ih =>
    by_cases hn : n < b
    · rw [Nat.toDigits_of_lt_base hn] at h
      have hm := lt_of_toDigits_singleton hb h
      rw [Nat.toDigits_of_lt_base hm] at h
      exact digitChar_inj (by omega) (by omega) (List.cons.inj h).1
    · by_cases hm : m < b
      · rw [Nat.toDigits_of_lt_base hm] at h
        exact absurd (lt_of_toDigits_singleton hb h.symm) hn
      · rw [Nat.toDigits_of_base_le hb (not_lt.mp hm),
          Nat.toDigits_of_base_le hb (not_lt.mp hn)] at h
        obtain ⟨hhigh, hlow⟩ := List.append_inj' h rfl
        have hmod_m := Nat.mod_lt m (by omega : b > 0)
        have hmod_n := Nat.mod_lt n (by omega : b > 0)
        have hlast := digitChar_inj (by omega) (by omega) (List.cons.inj hlow).1
        have hdiv := ih (n / b) (Nat.div_lt_self (by omega) hb) hhigh
        rw [← Nat.div_add_mod m b, ← Nat.div_add_mod n b, hdiv, hlast]

/-- **A numeral begins with another one**. -/
theorem toDigits_prefix_iff (hb : 1 < b) (hb16 : b ≤ 16) (hm : 0 < m) :
    Nat.toDigits b m <+: Nat.toDigits b n ↔ ∃ k, n / b ^ k = m := by
  induction n using Nat.strong_induction_on with
  | _ n ih =>
    by_cases hn : n < b
    · constructor
      · intro h
        refine ⟨0, ?_⟩
        have hlen := h.length_le
        have hpos := Nat.length_toDigits_pos (b := b) (n := m)
        rw [Nat.toDigits_of_lt_base hn, List.length_singleton] at hlen
        have heq : Nat.toDigits b m = Nat.toDigits b n := h.eq_of_length (by
          rw [Nat.toDigits_of_lt_base hn, List.length_singleton]
          omega)
        rw [pow_zero, Nat.div_one, toDigits_injective hb hb16 heq]
      · rintro ⟨k, hk⟩
        cases k with
        | zero =>
          rw [pow_zero, Nat.div_one] at hk
          rw [hk]
        | succ k =>
          have hlt : n < b ^ (k + 1) := hn.trans_le (Nat.le_self_pow (by omega) b)
          rw [Nat.div_eq_of_lt hlt] at hk
          omega
    · have hsplit := Nat.toDigits_of_base_le hb (not_lt.mp hn)
      have hnext := ih (n / b) (Nat.div_lt_self (by omega) hb)
      rw [hsplit, List.prefix_concat_iff, ← hsplit, hnext]
      constructor
      · rintro (heq | ⟨k, hk⟩)
        · exact ⟨0, by rw [pow_zero, Nat.div_one, toDigits_injective hb hb16 heq]⟩
        · exact ⟨k + 1, by rwa [pow_succ', ← Nat.div_div_eq_div_mul]⟩
      · rintro ⟨k, hk⟩
        cases k with
        | zero =>
          rw [pow_zero, Nat.div_one] at hk
          exact Or.inl (by rw [hk])
        | succ k => exact Or.inr ⟨k, by rwa [pow_succ', ← Nat.div_div_eq_div_mul] at hk⟩

end VestingDripStream.Lib.Numerals
