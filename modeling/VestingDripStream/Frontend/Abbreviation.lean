import VestingDripStream.Frontend.TokenAmount
import VestingDripStream.Lib.Numerals

/-! # Abbreviated amounts

`abbreviateTokenAmount` writes a large amount in thousands, millions or billions with one decimal
place. The unit is chosen before the amount is rounded: an amount just below a unit is rounded up to
it and written as `1,000` of the unit below. Otherwise the text is canonical, and it is accurate and
monotone in any case (`faithful_iff`). -/

namespace VestingDripStream.Frontend.Abbreviation

open VestingDripStream.Lib.Decimal VestingDripStream.Lib.Numerals
open VestingDripStream.Frontend.TokenAmount

/-- An entry of the table of units, in whole tokens. -/
structure Threshold where
  tokens : ℕ
  suffix : String
  deriving DecidableEq, Repr

/-- The largest unit. -/
def billion : Threshold := ⟨1000000000, "B"⟩

/-- The unit below it. -/
def million : Threshold := ⟨1000000, "M"⟩

/-- The smallest unit: below it an amount is written in full. -/
def thousand : Threshold := ⟨1000, "K"⟩

/-- The table, from the largest unit on. -/
def thresholds : List Threshold := [billion, million, thousand]

/-- The unit in the smallest parts of a token. -/
def Threshold.divisor (t : Threshold) : ℕ := t.tokens * tokenScale

/-- The place that the amount is rounded to. -/
def Threshold.oneTenth (t : Threshold) : ℕ := t.divisor / 10

/-- The amount in tenths of the unit, half a tenth rounded up. -/
def Threshold.roundedTenths (t : Threshold) (absolute : ℕ) : ℕ :=
  (absolute + t.oneTenth / 2) / t.oneTenth

variable (f : NumberFormat)

/-- The text of a number of tenths. -/
def tenthsText (roundedTenths : ℕ) (suffix : String) : String :=
  let whole := roundedTenths / 10
  let remainder := roundedTenths % 10
  let fraction :=
    if remainder = 0 then "" else String.ofList (f.decimal :: (toString remainder).toList)
  f.format whole ++ fraction ++ suffix

/-- `abbreviateTokenAmount`. -/
def abbreviateTokenAmount (value : ℤ) : String :=
  let absolute := value.natAbs
  -- the loop passes over the thresholds that the amount does not reach
  match thresholds.find? fun t => t.divisor ≤ absolute with
  | some t => (if value < 0 then "-" else "") ++ tenthsText f (t.roundedTenths absolute) t.suffix
  | none => formatTokenAmount f value

/-! ### Units -/

section Units

variable {t t' : Threshold}

theorem mem_thresholds : t ∈ thresholds ↔ t = billion ∨ t = million ∨ t = thousand := by
  simp [thresholds]

theorem divisor_billion : billion.divisor = 10000000000000000 := rfl

theorem divisor_million : million.divisor = 10000000000000 := rfl

theorem divisor_thousand : thousand.divisor = 10000000000 := rfl

theorem oneTenth_billion : billion.oneTenth = 1000000000000000 := rfl

theorem oneTenth_million : million.oneTenth = 1000000000000 := rfl

theorem oneTenth_thousand : thousand.oneTenth = 1000000000 := rfl

/-- The unit of an amount is the largest one that it reaches. -/
theorem abbreviate_eq {v : ℤ} (h : 1000 * tokenScale ≤ v) : ∃ t ∈ thresholds,
    abbreviateTokenAmount f v = tenthsText f (t.roundedTenths v.natAbs) t.suffix ∧
      t.divisor ≤ v ∧ (t ≠ billion → v < 1000 * t.divisor) := by
  have hscale : tokenScale = 10000000 := rfl
  have hb := divisor_billion
  have hm := divisor_million
  have hk := divisor_thousand
  have hsign : ¬ v < 0 := by omega
  unfold abbreviateTokenAmount
  dsimp only
  rw [if_neg hsign]
  by_cases hbillion : billion.divisor ≤ v.natAbs
  · refine ⟨billion, mem_thresholds.mpr (Or.inl rfl), ?_, by omega, fun hne => absurd rfl hne⟩
    rw [thresholds, List.find?_cons_of_pos (by exact decide_eq_true hbillion)]
    exact String.empty_append
  by_cases hmillion : million.divisor ≤ v.natAbs
  · refine ⟨million, mem_thresholds.mpr (Or.inr (Or.inl rfl)), ?_, by omega, fun _ => by omega⟩
    rw [thresholds, List.find?_cons_of_neg (by simpa using hbillion),
      List.find?_cons_of_pos (by exact decide_eq_true hmillion)]
    exact String.empty_append
  · have hthousand : thousand.divisor ≤ v.natAbs := by omega
    refine ⟨thousand, mem_thresholds.mpr (Or.inr (Or.inr rfl)), ?_, by omega, fun _ => by omega⟩
    rw [thresholds, List.find?_cons_of_neg (by simpa using hbillion),
      List.find?_cons_of_neg (by simpa using hmillion),
      List.find?_cons_of_pos (by exact decide_eq_true hthousand)]
    exact String.empty_append

/-- The tenths are the amount rounded to the nearest. -/
theorem roundedTenths_near (ht : t ∈ thresholds) (n : ℕ) :
    2 * |(t.roundedTenths n * t.oneTenth - n : ℤ)| ≤ t.oneTenth := by
  unfold Threshold.roundedTenths
  rw [abs_eq_max_neg]
  rcases mem_thresholds.mp ht with rfl | rfl | rfl
  · rw [oneTenth_billion]
    omega
  · rw [oneTenth_million]
    omega
  · rw [oneTenth_thousand]
    omega

/-- Amounts in order have their texts in order, across the units as well. -/
theorem roundedTenths_le (ht : t ∈ thresholds) (ht' : t' ∈ thresholds) {m n : ℕ} (hmn : m ≤ n)
    (hm : t.divisor ≤ m) (hmax : t ≠ billion → m < 1000 * t.divisor) (hn : t'.divisor ≤ n)
    (hmax' : t' ≠ billion → n < 1000 * t'.divisor) :
    t.roundedTenths m * t.oneTenth ≤ t'.roundedTenths n * t'.oneTenth ∧ t.tokens ≤ t'.tokens := by
  have hb := divisor_billion
  have hm := divisor_million
  have hk := divisor_thousand
  have hmb : million ≠ billion := by decide
  have hkb : thousand ≠ billion := by decide
  unfold Threshold.roundedTenths
  rcases mem_thresholds.mp ht with rfl | rfl | rfl <;>
    rcases mem_thresholds.mp ht' with rfl | rfl | rfl <;>
    simp only [oneTenth_billion, oneTenth_million, oneTenth_thousand, ne_eq, hmb, hkb,
      not_true_eq_false, false_implies, not_false_eq_true, true_implies] at hmax hmax' ⊢ <;>
    refine ⟨by omega, ?_⟩ <;>
    simp only [billion, million, thousand] <;>
    omega

end Units

/-! ### Texts -/

/-- A number is read in one way: `Intl` writes different integers differently, and never with the
separator of the decimals. -/
structure Legible (f : NumberFormat) : Prop where
  format_injective : Function.Injective f.format
  decimal_not_mem : ∀ n, f.decimal ∉ (f.format n).toList

section Texts

variable {f} {t t' : Threshold}

/-- The characters behind the integer. -/
def remainderText (decimal : Char) (remainder : ℕ) : List Char :=
  if remainder = 0 then [] else decimal :: Nat.toDigits 10 remainder

theorem toList_tenthsText (tenths : ℕ) (suffix : String) :
    (tenthsText f tenths suffix).toList =
      (f.format (tenths / 10)).toList ++ remainderText f.decimal (tenths % 10) ++
        suffix.toList := by
  unfold tenthsText remainderText
  dsimp only
  split_ifs
  · rw [String.toList_append, String.toList_append]
    rfl
  · rw [String.toList_append, String.toList_append, String.toList_ofList, Nat.toString_eq_repr,
      Nat.toList_repr]

theorem remainderText_injective (decimal : Char) :
    Function.Injective (remainderText decimal) := by
  intro m n h
  unfold remainderText at h
  split_ifs at h with hm hn
  · omega
  · exact toDigits_injective (by decide) (by decide) (List.cons.inj h).2

/-- What stands before the separator is the integer. -/
theorem takeWhile_remainderText {decimal : Char} {whole : List Char} (h : decimal ∉ whole)
    (remainder : ℕ) :
    (whole ++ remainderText decimal remainder).takeWhile (fun c => c ≠ decimal) = whole := by
  have hwhole : ∀ c ∈ whole, decide (c ≠ decimal) = true := by
    intro c hc
    exact decide_eq_true fun heq => h (heq ▸ hc)
  rw [List.takeWhile_append_of_pos hwhole]
  unfold remainderText
  split_ifs
  · rw [List.takeWhile_nil, List.append_nil]
  · rw [List.takeWhile_cons_of_neg (by simp), List.append_nil]

/-- **A text denotes one number** of one unit. -/
theorem tenthsText_inj (hf : Legible f) (ht : t ∈ thresholds) (ht' : t' ∈ thresholds) {m n : ℕ}
    (h : tenthsText f m t.suffix = tenthsText f n t'.suffix) : m = n ∧ t = t' := by
  have hsuffix : ∀ {u}, u ∈ thresholds → u.suffix.toList.length = 1 := by
    intro u hu
    rcases mem_thresholds.mp hu with rfl | rfl | rfl <;> rfl
  have hlists := congrArg String.toList h
  rw [toList_tenthsText, toList_tenthsText] at hlists
  obtain ⟨hnumbers, hunits⟩ :=
    List.append_inj' hlists ((hsuffix ht).trans (hsuffix ht').symm)
  have hwhole := congrArg (List.takeWhile fun c => c ≠ f.decimal) hnumbers
  rw [takeWhile_remainderText (hf.decimal_not_mem _),
    takeWhile_remainderText (hf.decimal_not_mem _)] at hwhole
  rw [hwhole] at hnumbers
  have hten := hf.format_injective (String.toList_inj.mp hwhole)
  have hrest := remainderText_injective f.decimal (List.append_cancel_left hnumbers)
  refine ⟨by omega, ?_⟩
  rcases mem_thresholds.mp ht with rfl | rfl | rfl <;>
    rcases mem_thresholds.mp ht' with rfl | rfl | rfl <;>
    first | rfl | exact absurd hunits (by decide)

end Texts

/-! ### What an abbreviation says -/

/-- The text of an amount denotes a number within half a tenth of the unit, less than a thousand of
it if there is a larger unit, and no larger amount is shown as less or in a smaller unit. -/
def Faithful (f : NumberFormat) (v : ℤ) : Prop :=
  ∃ t ∈ thresholds, ∃ tenths, abbreviateTokenAmount f v = tenthsText f tenths t.suffix ∧
    2 * |(tenths * t.oneTenth - v : ℤ)| ≤ t.oneTenth ∧ (t ≠ billion → tenths < 1000 * 10) ∧
    ∀ w ≥ v, ∀ t' ∈ thresholds, ∀ tenths',
      abbreviateTokenAmount f w = tenthsText f tenths' t'.suffix →
        tenths * t.oneTenth ≤ tenths' * t'.oneTenth ∧ t.tokens ≤ t'.tokens

/-- The amounts that are rounded up to the unit above their own. -/
def RoundsAcross (v : ℤ) : Prop :=
  (999950 * tokenScale ≤ v ∧ v < 1000000 * tokenScale) ∨
    (999950000 * tokenScale ≤ v ∧ v < 1000000000 * tokenScale)

variable {f}

/-- The mantissa is too large for exactly these amounts. -/
theorem roundedTenths_lt_iff {t : Threshold} (ht : t ∈ thresholds) {v : ℤ} (hv : t.divisor ≤ v)
    (hmax : t ≠ billion → v < 1000 * t.divisor) :
    (t ≠ billion → t.roundedTenths v.natAbs < 1000 * 10) ↔ ¬ RoundsAcross v := by
  have hscale : tokenScale = 10000000 := rfl
  have hb := divisor_billion
  have hm := divisor_million
  have hk := divisor_thousand
  unfold RoundsAcross Threshold.roundedTenths
  rw [hscale]
  rcases mem_thresholds.mp ht with rfl | rfl | rfl
  · refine iff_of_true (fun hne => absurd rfl hne) ?_
    omega
  · have hne : million ≠ billion := by decide
    have hlt := hmax hne
    rw [oneTenth_million]
    constructor
    · intro h
      have htenths := h hne
      omega
    · intro h _
      omega
  · have hne : thousand ≠ billion := by decide
    have hlt := hmax hne
    rw [oneTenth_thousand]
    constructor
    · intro h
      have htenths := h hne
      omega
    · intro h _
      omega

/-- **An amount of at least a thousand tokens** is abbreviated faithfully, unless rounding takes it
to the next unit. -/
theorem faithful_iff (f : NumberFormat) (hf : Legible f) (v : ℤ) (h : 1000 * tokenScale ≤ v) :
    Faithful f v ↔ ¬ RoundsAcross v := by
  obtain ⟨t, ht, htext, hdiv, hmax⟩ := abbreviate_eq f h
  have hcond := roundedTenths_lt_iff ht hdiv hmax
  have habs : (v.natAbs : ℤ) = v := by omega
  constructor
  · rintro ⟨t₁, ht₁, tenths, htext₁, -, hlt, -⟩
    obtain ⟨rfl, rfl⟩ := tenthsText_inj hf ht ht₁ (htext.symm.trans htext₁)
    exact hcond.mp hlt
  · intro hnot
    have hnear := roundedTenths_near ht v.natAbs
    rw [habs] at hnear
    refine ⟨t, ht, t.roundedTenths v.natAbs, htext, hnear, hcond.mpr hnot, ?_⟩
    intro w hw t' ht' tenths' htext'
    obtain ⟨t₂, ht₂, htext₂, hdiv₂, hmax₂⟩ := abbreviate_eq f (h.trans hw)
    obtain ⟨rfl, rfl⟩ := tenthsText_inj hf ht₂ ht' (htext₂.symm.trans htext')
    refine roundedTenths_le ht ht₂ (by omega) (by omega) ?_ (by omega) ?_
    · intro hne
      have hlt := hmax hne
      omega
    · intro hne
      have hlt := hmax₂ hne
      omega

theorem legible_english : Legible english where
  format_injective := by
    intro m n h
    have hlists := congrArg String.toList h
    rw [groupsInThrees_english, groupsInThrees_english] at hlists
    have hdigits : ∀ k, ∀ c ∈ Nat.toDigits 10 k, c.isDigit = true :=
      fun _ _ hc => Nat.isDigit_of_mem_toDigits (by decide) (by decide) hc
    have hstrip := congrArg (fun l => stripGrouping l english.group) hlists
    rw [stripGrouping_grouped english.group_notDigit (hdigits m) Nat.toDigits_ne_nil,
      stripGrouping_grouped english.group_notDigit (hdigits n) Nat.toDigits_ne_nil] at hstrip
    exact toDigits_injective (by decide) (by decide) hstrip
  decimal_not_mem := by
    intro n
    rw [groupsInThrees_english]
    exact not_mem_grouped english.decimal_notDigit (by decide) fun _ hc =>
      Nat.isDigit_of_mem_toDigits (by decide) (by decide) hc

theorem faithful_iff_sample :
    Faithful english (1500 * tokenScale) ↔ ¬ RoundsAcross (1500 * tokenScale) :=
  faithful_iff english legible_english _ (by decide)

/-- 999,950 tokens are a thousand thousands. -/
theorem rounded_across : abbreviateTokenAmount english (999950 * tokenScale) = "1,000K" ∧
    ¬ ∀ v : ℤ, 1000 * tokenScale ≤ v → Faithful english v := by
  have htext : abbreviateTokenAmount english (999950 * tokenScale) =
      tenthsText english 10000 thousand.suffix := by decide +kernel
  refine ⟨htext.trans (by decide +kernel), ?_⟩
  intro hall
  obtain ⟨t, ht, tenths, htext', -, hlt, -⟩ := hall (999950 * tokenScale) (by decide)
  obtain ⟨rfl, rfl⟩ := tenthsText_inj legible_english (mem_thresholds.mpr (Or.inr (Or.inr rfl))) ht
    (htext.symm.trans htext')
  exact absurd (hlt (by decide)) (by decide)

end VestingDripStream.Frontend.Abbreviation
