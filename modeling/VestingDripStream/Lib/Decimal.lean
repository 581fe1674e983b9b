import Mathlib.Data.List.DropRight
import Mathlib.Tactic

/-! # Decimal digits

How numbers are written and read: digits in groups of three (`inThrees`), texts that are split at a
separator, and fractions without their last zeros, which come back when they are filled up to a
number of places (`rightpad_rdropWhile`, `ofDigitChars_append_eq`). -/

namespace VestingDripStream.Lib.Decimal

variable {α : Type*}

/-! ### Groups of three -/

/-- The digits in groups of three, from the right. -/
def inThrees : List α → List (List α)
  | [] => []
  | a :: l =>
    match inThrees l with
    | [] => [[a]]
    | g :: gs => if g.length = 3 then [a] :: g :: gs else (a :: g) :: gs

theorem flatten_inThrees (l : List α) : (inThrees l).flatten = l := by
  induction l with
  | nil => rfl
  | cons a l ih =>
    rw [inThrees]
    cases hgroups : inThrees l with
    | nil =>
      rw [hgroups] at ih
      rw [← ih]
      rfl
    | cons g gs =>
      rw [hgroups] at ih
      dsimp only
      split_ifs
      · rw [List.flatten_cons, ih, List.singleton_append]
      · rw [List.flatten_cons, List.cons_append, ← List.flatten_cons, ih]

theorem inThrees_ne_nil {l : List α} (h : l ≠ []) : inThrees l ≠ [] := by
  intro hnil
  have hall := flatten_inThrees l
  rw [hnil] at hall
  exact h hall.symm

/-- All groups but the first are full. -/
theorem length_of_inThrees {l g : List α} {gs : List (List α)} (h : inThrees l = g :: gs) :
    (1 ≤ g.length ∧ g.length ≤ 3) ∧ ∀ g' ∈ gs, g'.length = 3 := by
  induction l generalizing g gs with
  | nil => exact absurd h.symm (List.cons_ne_nil g gs)
  | cons a l ih =>
    rw [inThrees] at h
    cases hgroups : inThrees l with
    | nil =>
      rw [hgroups] at h
      obtain ⟨rfl, rfl⟩ := List.cons.inj h
      exact ⟨⟨le_rfl, Nat.le_add_left 1 2⟩, fun g' hg' => absurd hg' List.not_mem_nil⟩
    | cons g₁ gs₁ =>
      obtain ⟨hfirst, hrest⟩ := ih hgroups
      rw [hgroups] at h
      dsimp only at h
      split_ifs at h with hfull
      · obtain ⟨rfl, rfl⟩ := List.cons.inj h
        refine ⟨⟨le_rfl, Nat.le_add_left 1 2⟩, fun g' hg' => ?_⟩
        rcases List.mem_cons.mp hg' with rfl | hg'
        · exact hfull
        · exact hrest g' hg'
      · obtain ⟨rfl, rfl⟩ := List.cons.inj h
        have hlen : (a :: g₁).length = g₁.length + 1 := List.length_cons
        exact ⟨by omega, hrest⟩

theorem mem_of_mem_inThrees {l g : List α} {a : α} (hg : g ∈ inThrees l) (ha : a ∈ g) : a ∈ l := by
  rw [← flatten_inThrees l]
  exact List.mem_flatten_of_mem hg ha

/-! ### Separators -/

variable {sep : Char} {p : Char → Bool} {l : List Char}

/-- The parts of a text have all its characters but the separators. -/
theorem filter_flatten_splitOn (hsep : p sep = false) (l : List Char) :
    (l.splitOn sep).flatten.filter p = l.filter p := by
  have hparts : ∀ parts : List (List Char),
      ([sep].intercalate parts).filter p = parts.flatten.filter p := by
    intro parts
    induction parts with
    | nil => rfl
    | cons part parts ih =>
      cases parts with
      | nil => rw [List.intercalate_singleton, List.flatten_cons, List.flatten_nil, List.append_nil]
      | cons next parts =>
        rw [List.intercalate_cons_cons, List.filter_append, List.filter_append, ih,
          List.flatten_cons, List.filter_append, List.filter_singleton, hsep]
        simp
  have hjoin := hparts (l.splitOn sep)
  rw [List.intercalate_splitOn] at hjoin
  exact hjoin.symm

theorem eq_or_mem_of_mem_intercalate {parts : List (List Char)} {c : Char}
    (h : c ∈ [sep].intercalate parts) : c = sep ∨ ∃ part ∈ parts, c ∈ part := by
  induction parts with
  | nil => exact absurd h List.not_mem_nil
  | cons part parts ih =>
    cases parts with
    | nil =>
      rw [List.intercalate_singleton] at h
      exact Or.inr ⟨part, List.mem_cons_self, h⟩
    | cons next parts =>
      rw [List.intercalate_cons_cons, List.append_assoc, List.mem_append, List.mem_append] at h
      rcases h with h | h | h
      · exact Or.inr ⟨part, List.mem_cons_self, h⟩
      · exact Or.inl (List.mem_singleton.mp h)
      · rcases ih h with hc | ⟨part', hpart', hc⟩
        · exact Or.inl hc
        · exact Or.inr ⟨part', List.mem_cons_of_mem part hpart', hc⟩

theorem length_splitOn_pos (sep : Char) (l : List Char) : 0 < (l.splitOn sep).length :=
  List.length_pos_iff.mpr (List.splitOn_ne_nil sep l)

/-- One part: there is no separator. -/
theorem length_splitOn_eq_one_iff : (l.splitOn sep).length = 1 ↔ sep ∉ l := by
  constructor
  · intro hlen hmem
    obtain ⟨a, b, rfl⟩ := List.append_of_mem hmem
    have ha := length_splitOn_pos sep a
    have hb := length_splitOn_pos sep b
    rw [List.splitOn_append_cons_self, List.length_append] at hlen
    omega
  · intro hmem
    rw [List.splitOn_eq_singleton hmem]
    rfl

/-- One separator, two parts. -/
theorem splitOn_two {a b : List Char} (ha : sep ∉ a) (hb : sep ∉ b) :
    (a ++ sep :: b).splitOn sep = [a, b] := by
  rw [List.splitOn_append_cons_self_of_not_mem ha, List.splitOn_eq_singleton hb]

/-- Characters that are left out at the ends. -/
theorem filter_dropWhile {q : Char → Bool} (h : ∀ c, q c = true → p c = false) (l : List Char) :
    (l.dropWhile q).filter p = l.filter p := by
  induction l with
  | nil => rfl
  | cons c l ih =>
    by_cases hc : q c = true
    · rw [List.dropWhile_cons_of_pos hc, ih, List.filter_cons_of_neg (by rw [h c hc]; decide)]
    · rw [List.dropWhile_cons_of_neg hc]

theorem filter_rdropWhile {q : Char → Bool} (h : ∀ c, q c = true → p c = false) (l : List Char) :
    (l.rdropWhile q).filter p = l.filter p := by
  unfold List.rdropWhile
  rw [List.filter_reverse, filter_dropWhile h, List.filter_reverse, List.reverse_reverse]

/-! ### Fractions -/

/-- What a text of digits says. -/
theorem ofDigitChars_append_eq (a b : List Char) :
    Nat.ofDigitChars 10 (a ++ b) 0 =
      Nat.ofDigitChars 10 a 0 * 10 ^ b.length + Nat.ofDigitChars 10 b 0 := by
  rw [Nat.ofDigitChars_append, Nat.ofDigitChars_eq_ofDigitChars_zero, Nat.mul_comm]

theorem ofDigitChars_leftpad (k : ℕ) (l : List Char) :
    Nat.ofDigitChars 10 (l.leftpad k '0') 0 = Nat.ofDigitChars 10 l 0 := by
  unfold List.leftpad
  rw [Nat.ofDigitChars_append, Nat.ofDigitChars_replicate_zero, Nat.mul_zero]

theorem ofDigitChars_rightpad {k : ℕ} (l : List Char) :
    Nat.ofDigitChars 10 (l.rightpad k '0') 0 =
      Nat.ofDigitChars 10 l 0 * 10 ^ (k - l.length) := by
  unfold List.rightpad
  rw [Nat.ofDigitChars_append, Nat.ofDigitChars_replicate_zero, Nat.mul_comm]

theorem length_leftpad_toDigits {n k : ℕ} (hk : 0 < k) (hn : n < 10 ^ k) :
    ((Nat.toDigits 10 n).leftpad k '0').length = k := by
  have hlen := (Nat.length_toDigits_le_iff (by decide) hk).mpr hn
  rw [List.length_leftpad]
  exact Nat.max_eq_left hlen

/-- The zeros at the end come back. -/
theorem rightpad_rdropWhile (l : List Char) :
    (l.rdropWhile fun c => c = '0').rightpad l.length '0' = l := by
  have hsplit := List.rdropWhile_append_rtakeWhile (l := l) (p := fun c : Char => c = '0')
  have hzeros : l.rtakeWhile (fun c => c = '0') =
      List.replicate (l.rtakeWhile fun c => c = '0').length '0' :=
    List.eq_replicate_of_mem fun c hc =>
      of_decide_eq_true (List.mem_rtakeWhile_imp (p := fun c : Char => c = '0') hc)
  have hlen := congrArg List.length hsplit
  rw [List.length_append] at hlen
  have hmissing : l.length - (l.rdropWhile fun c => c = '0').length =
      (l.rtakeWhile fun c => c = '0').length := by omega
  unfold List.rightpad
  rw [hmissing, ← hzeros, hsplit]

end VestingDripStream.Lib.Decimal
