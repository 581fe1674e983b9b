import VestingDripStream.Lib.Decimal
import VestingDripStream.Backend.Symbols

/-! # Token amounts

`tokenAmount.ts` writes amounts of seven decimal places in the language of the browser, and reads
what a person types. The separators are those of `Intl`, and where the text does not tell whether
one of them is that of the decimals, the parser guesses. An amount that was written is read back
(`parseTokenAmount_formatTokenAmount`), and the amount of any text that is accepted has the digits
of that text, at most seven of them behind the point (`accepted_digits`). -/

namespace VestingDripStream.Frontend.TokenAmount

open VestingDripStream.Lib.Decimal
open VestingDripStream.Backend.Decoder (isSpace trim)
open VestingDripStream.Backend.Symbols (trim_eq_self)

/-- `TOKEN_DECIMAL_PLACES`. -/
def tokenDecimalPlaces : ℕ := 7

/-- `TOKEN_SCALE`. -/
def tokenScale : ℕ := 10000000

/-- `I128_MAX`. -/
def i128Max : ℤ := 170141183460469231731687303715884105727

/-- `TokenAmountError`: why a text is no amount. -/
inductive TokenAmountError
  | negative
  | precision
  | range
  | format
  deriving DecidableEq, Repr

/-- `TokenAmountParseResult`: a value, or an error with its message, or neither. -/
structure TokenAmountParseResult where
  value : Option ℤ
  error : Option TokenAmountError
  message : Option String
  deriving DecidableEq, Repr

/-- `ERROR_MESSAGES`. -/
def errorMessages : TokenAmountError → String
  | .negative => "Amount cannot be negative."
  | .precision => "Use no more than 7 decimal places."
  | .range => "Amount exceeds the maximum supported i128 value."
  | .format => "Enter a valid token amount."

/-- What `Intl.NumberFormat` does in a language: its separators, which are no digits, and how it
writes an integer. -/
structure NumberFormat where
  decimal : Char
  group : Char
  format : ℕ → String
  decimal_notDigit : decimal.isDigit = false
  group_notDigit : group.isDigit = false

/-! ### Reading -/

/-- `count`: how often the separator occurs. -/
def count (value : List Char) (separator : Char) : ℕ := (value.splitOn separator).length - 1

/-- `/^\d*$/`. -/
def isDigits (value : List Char) : Bool := value.all Char.isDigit

/-- `isValidGrouping`: one to three digits, and then groups of three. -/
def isValidGrouping (value : List Char) (separator : Char) : Bool :=
  if count value separator = 0 then true
  else
    let groups := value.splitOn separator
    let first := groups[0]?.getD []
    if ¬ (isDigits first ∧ 1 ≤ first.length ∧ first.length ≤ 3) then false
    else groups.tail.all fun group => isDigits group && group.length = 3

/-- `stripGrouping`. -/
def stripGrouping (value : List Char) (separator : Char) : List Char :=
  (value.splitOn separator).flatten

/-- `makeResult`: an error brings its message. -/
def makeResult (value : Option ℤ) (error : Option TokenAmountError) : TokenAmountParseResult where
  value := value
  error := error
  message := error.map errorMessages

/-- The text in front of a separator, and the one behind it. -/
def halves (value : List Char) (separator : Char) : List Char × List Char :=
  let parts := value.splitOn separator
  (parts[0]?.getD [], parts[1]?.getD [])

/-- The other separator of decimals. -/
def alternateOf (decimal : Char) : Char := if decimal = '.' then ',' else '.'

/-- A text with one separator of decimals. -/
def splitDecimal (decimal group : Char) (compact : List Char) : Option (List Char × List Char) :=
  let (integer, fraction) := halves compact decimal
  if 0 < count integer group ∧ ¬ isValidGrouping integer group then none
  else some (stripGrouping integer group, fraction)

/-- A text without one: first what the separators of groups are. -/
def splitGroup (decimal group : Char) (compact : List Char) : Option (List Char × List Char) :=
  let alternate := alternateOf decimal
  let groupCount := count compact group
  let alternateCount := if alternate = group then 0 else count compact alternate
  if 0 < groupCount then
    if isValidGrouping compact group then some (stripGrouping compact group, [])
    else if groupCount = 1 ∧ alternateCount = 0 then some (halves compact group)
    else none
  else some (compact, [])

/-- Then the other separator. -/
def splitAlternate (decimal group : Char) (parts : List Char × List Char) :
    Option (List Char × List Char) :=
  let alternate := alternateOf decimal
  let (integer, fraction) := parts
  if 0 < count fraction alternate then none
  else if 0 < count integer alternate ∧ alternate ≠ group then
    if (integer.splitOn alternate).length ≠ 2 then none else some (halves integer alternate)
  else some (integer, fraction)

/-- And the groups that are left. -/
def stripRest (group : Char) (parts : List Char × List Char) : Option (List Char × List Char) :=
  let (integer, fraction) := parts
  if 0 < count integer group then
    if ¬ isValidGrouping integer group then none else some (stripGrouping integer group, fraction)
  else some (integer, fraction)

/-- The texts of the integer and the fraction; `none` is a `format` error. -/
def splitAmount (decimal group : Char) (compact : List Char) : Option (List Char × List Char) :=
  if count compact decimal = 1 then splitDecimal decimal group compact
  else if 1 < count compact decimal then none
  else ((splitGroup decimal group compact).bind (splitAlternate decimal group)).bind
    (stripRest group)

/-- `BigInt` of a text of digits. -/
def bigInt (digits : List Char) : ℤ := Nat.ofDigitChars 10 digits 0

/-- The end of `parseParts`, where the integer and the fraction are known. -/
def amountOf (integer fraction : List Char) : TokenAmountParseResult :=
  if ¬ isDigits integer ∨ ¬ isDigits fraction then makeResult none (some .format)
  else if integer = [] ∧ fraction = [] then makeResult none (some .format)
  else if tokenDecimalPlaces < fraction.length then makeResult none (some .precision)
  else
    let normalizedInteger := if integer = [] then ['0'] else integer
    let normalizedFraction := fraction.rightpad tokenDecimalPlaces '0'
    let value := bigInt (normalizedInteger ++ normalizedFraction)
    if i128Max < value then makeResult none (some .range) else makeResult (some value) none

variable (f : NumberFormat)

/-- `parseParts`; an empty input is neither a value nor an error. -/
def parseParts (input : String) : TokenAmountParseResult :=
  let trimmed := (trim input).toList
  if trimmed = [] then makeResult none none
  else if '-' ∈ trimmed then makeResult none (some .negative)
  else
    let compact := trimmed.filter fun c => ! isSpace c
    if compact = [] ∨ ¬ compact.all fun c => c.isDigit ∨ c = '.' ∨ c = ',' then
      makeResult none (some .format)
    else
      match splitAmount f.decimal f.group compact with
      | none => makeResult none (some .format)
      | some (integer, fraction) => amountOf integer fraction

/-- `parseTokenAmountResult`. -/
def parseTokenAmountResult (input : String) : TokenAmountParseResult := parseParts f input

/-- `parseTokenAmount`: the value alone. -/
def parseTokenAmount (input : String) : Option ℤ := (parseParts f input).value

/-! ### Writing -/

/-- `formatTokenAmount`: the trailing zeros of the fraction are dropped. -/
def formatTokenAmount (value : ℤ) : String :=
  let absolute := value.natAbs
  let whole := absolute / tokenScale
  let padded := (toString (absolute % tokenScale)).toList.leftpad tokenDecimalPlaces '0'
  let fraction := padded.rdropWhile fun c => c = '0'
  let formattedWhole := f.format whole
  let sign := if value < 0 then "-" else ""
  sign ++ formattedWhole ++
    (if fraction = [] then "" else String.ofList (f.decimal :: fraction))

/-! ### Texts that are split -/

variable {f} {value integer fraction compact : List Char} {sep decimal group : Char}

theorem count_eq_zero_iff : count value sep = 0 ↔ sep ∉ value := by
  rw [← length_splitOn_eq_one_iff]
  have hpos := length_splitOn_pos sep value
  unfold count
  omega

/-- One separator: the text is made of its two halves. -/
theorem splitOn_of_count (h : count value sep = 1) :
    value.splitOn sep = [(halves value sep).1, (halves value sep).2] := by
  have hlen : (value.splitOn sep).length = 2 := by
    unfold count at h
    omega
  obtain ⟨a, b, hsplit⟩ := List.length_eq_two.mp hlen
  unfold halves
  rw [hsplit]
  rfl

theorem stripGrouping_of_not_mem (h : sep ∉ value) : stripGrouping value sep = value := by
  unfold stripGrouping
  rw [List.splitOn_eq_singleton h, List.flatten_singleton]

/-- Separators are left out, and nothing else. -/
theorem filter_stripGrouping {p : Char → Bool} (hsep : p sep = false) :
    (stripGrouping value sep).filter p = value.filter p := filter_flatten_splitOn hsep value

theorem filter_halves {p : Char → Bool} (hsep : p sep = false) (h : count value sep = 1) :
    ((halves value sep).1 ++ (halves value sep).2).filter p = value.filter p := by
  have hparts := filter_flatten_splitOn hsep value
  rw [splitOn_of_count h, List.flatten_cons, List.flatten_singleton] at hparts
  exact hparts

/-! ### The digits of a text that is accepted -/

/-- The parts have the digits of the text. -/
def Kept (compact : List Char) (parts : List Char × List Char) : Prop :=
  (parts.1 ++ parts.2).filter Char.isDigit = compact.filter Char.isDigit

theorem kept_splitDecimal {parts : List Char × List Char} (hdecimal : decimal.isDigit = false)
    (hgroup : group.isDigit = false) (hcount : count compact decimal = 1)
    (h : splitDecimal decimal group compact = some parts) : Kept compact parts := by
  unfold splitDecimal at h
  dsimp only at h
  split_ifs at h with hgrouping
  obtain rfl := Option.some.inj h
  show (stripGrouping (halves compact decimal).1 group ++ (halves compact decimal).2).filter _ = _
  rw [List.filter_append, filter_stripGrouping hgroup, ← List.filter_append,
    filter_halves hdecimal hcount]

theorem alternateOf_notDigit (decimal : Char) : (alternateOf decimal).isDigit = false := by
  unfold alternateOf
  split_ifs <;> rfl

/-- A fraction that was found already is not lost later on. -/
theorem kept_splitGroup {parts : List Char × List Char} (hgroup : group.isDigit = false)
    (h : splitGroup decimal group compact = some parts) :
    Kept compact parts ∧
      (parts.2 = [] ∨ alternateOf decimal = group ∨ alternateOf decimal ∉ parts.1) := by
  have halternate : (if alternateOf decimal = group then 0
      else count compact (alternateOf decimal)) = 0 →
      alternateOf decimal = group ∨ alternateOf decimal ∉ compact := by
    intro hzero
    split_ifs at hzero with heq
    · exact Or.inl heq
    · exact Or.inr (count_eq_zero_iff.mp hzero)
  unfold splitGroup at h
  dsimp only at h
  generalize (if alternateOf decimal = group then 0
    else count compact (alternateOf decimal)) = alternateCount at h halternate
  split_ifs at h with hpos hvalid hone
  · obtain rfl := Option.some.inj h
    refine ⟨?_, Or.inl rfl⟩
    show (stripGrouping compact group ++ []).filter _ = _
    rw [List.append_nil, filter_stripGrouping hgroup]
  · obtain rfl := Option.some.inj h
    refine ⟨filter_halves hgroup hone.1, Or.inr ?_⟩
    rcases eq_or_ne (alternateOf decimal) group with heq | hne
    · exact Or.inl heq
    · -- the other separator is not in the text, and so in no part of it
      have hnone := (halternate hone.2).resolve_left hne
      have hfilter := filter_halves (p := fun c => c == alternateOf decimal)
        (beq_eq_false_iff_ne.mpr hne.symm) hone.1
      refine Or.inr fun hmem => hnone ?_
      have hkept : alternateOf decimal ∈ compact.filter fun c => c == alternateOf decimal := by
        rw [← hfilter]
        exact List.mem_filter.mpr ⟨List.mem_append_left _ hmem, beq_self_eq_true _⟩
      exact (List.mem_filter.mp hkept).1
  · obtain rfl := Option.some.inj h
    refine ⟨?_, Or.inl rfl⟩
    show (compact ++ []).filter _ = _
    rw [List.append_nil]

theorem kept_splitAlternate {parts parts' : List Char × List Char} (hkept : Kept compact parts)
    (hfraction : parts.2 = [] ∨ alternateOf decimal = group ∨ alternateOf decimal ∉ parts.1)
    (h : splitAlternate decimal group parts = some parts') : Kept compact parts' := by
  obtain ⟨integer, fraction⟩ := parts
  unfold splitAlternate at h
  dsimp only at h hfraction
  split_ifs at h with hmore hsplit hlen
  · obtain ⟨hpos, hne⟩ := hsplit
    have hmem : alternateOf decimal ∈ integer := by
      by_contra hnot
      rw [count_eq_zero_iff.mpr hnot] at hpos
      exact Nat.lt_irrefl 0 hpos
    have hnil : fraction = [] := by
      rcases hfraction with hnil | heq | hnot
      · exact hnil
      · exact absurd heq hne
      · exact absurd hmem hnot
    have hcount : count integer (alternateOf decimal) = 1 := by
      unfold count
      omega
    obtain rfl := Option.some.inj h
    have hdigits := filter_halves (alternateOf_notDigit decimal) hcount
    unfold Kept at hkept ⊢
    rw [hdigits, ← hkept, hnil, List.append_nil]
  · obtain rfl := Option.some.inj h
    exact hkept

theorem kept_stripRest {parts parts' : List Char × List Char} (hgroup : group.isDigit = false)
    (hkept : Kept compact parts) (h : stripRest group parts = some parts') :
    Kept compact parts' := by
  obtain ⟨integer, fraction⟩ := parts
  unfold stripRest at h
  dsimp only at h
  split_ifs at h with hpos hvalid
  · obtain rfl := Option.some.inj h
    unfold Kept at hkept ⊢
    rw [← hkept, List.filter_append, filter_stripGrouping hgroup, ← List.filter_append]
  · obtain rfl := Option.some.inj h
    exact hkept

/-- **Whatever is guessed**, no digit is lost, and none is moved. -/
theorem kept_splitAmount {parts : List Char × List Char} (hdecimal : decimal.isDigit = false)
    (hgroup : group.isDigit = false) (h : splitAmount decimal group compact = some parts) :
    Kept compact parts := by
  unfold splitAmount at h
  split_ifs at h with hone hmany
  · exact kept_splitDecimal hdecimal hgroup hone h
  · obtain ⟨rest, hrest, hstrip⟩ := Option.bind_eq_some_iff.mp h
    obtain ⟨first, hfirst, halternate⟩ := Option.bind_eq_some_iff.mp hrest
    obtain ⟨hkept, hfraction⟩ := kept_splitGroup hgroup hfirst
    exact kept_stripRest hgroup (kept_splitAlternate hkept hfraction halternate) hstrip

/-- The amount of digits. -/
def amount (integer fraction : List Char) : ℤ :=
  bigInt integer * 10 ^ tokenDecimalPlaces +
    bigInt fraction * 10 ^ (tokenDecimalPlaces - fraction.length)

theorem bigInt_normalized (hlen : fraction.length ≤ tokenDecimalPlaces) :
    bigInt ((if integer = [] then ['0'] else integer) ++
      fraction.rightpad tokenDecimalPlaces '0') = amount integer fraction := by
  have hzero : Nat.ofDigitChars 10 (if integer = [] then ['0'] else integer) 0 =
      Nat.ofDigitChars 10 integer 0 := by
    split_ifs with hnil
    · rw [hnil]
      rfl
    · rfl
  have hpad : (fraction.rightpad tokenDecimalPlaces '0').length = tokenDecimalPlaces := by
    rw [List.length_rightpad]
    exact Nat.max_eq_left hlen
  unfold amount bigInt
  rw [ofDigitChars_append_eq, hzero, hpad, ofDigitChars_rightpad]
  push_cast
  rfl

/-- **The end of the parser**: digits, not too many, and an amount in range. -/
theorem amountOf_value {v : ℤ} (h : (amountOf integer fraction).value = some v) :
    (isDigits integer ∧ isDigits fraction) ∧ fraction.length ≤ tokenDecimalPlaces ∧
      v = amount integer fraction ∧ v ≤ i128Max := by
  unfold amountOf at h
  dsimp only at h
  by_cases hdigits : ¬ isDigits integer ∨ ¬ isDigits fraction
  · rw [if_pos hdigits] at h
    exact absurd h.symm (Option.some_ne_none v)
  by_cases hnil : integer = [] ∧ fraction = []
  · rw [if_neg hdigits, if_pos hnil] at h
    exact absurd h.symm (Option.some_ne_none v)
  by_cases hlen : tokenDecimalPlaces < fraction.length
  · rw [if_neg hdigits, if_neg hnil, if_pos hlen] at h
    exact absurd h.symm (Option.some_ne_none v)
  have hle := Nat.le_of_not_lt hlen
  rw [if_neg hdigits, if_neg hnil, if_neg hlen, bigInt_normalized hle] at h
  by_cases hrange : i128Max < amount integer fraction
  · rw [if_pos hrange] at h
    exact absurd h.symm (Option.some_ne_none v)
  · rw [if_neg hrange] at h
    have hv : amount integer fraction = v := Option.some.inj h
    push Not at hdigits
    exact ⟨hdigits, hle, hv.symm, hv ▸ not_lt.mp hrange⟩

theorem amountOf_of_isDigits (hinteger : isDigits integer = true)
    (hfraction : isDigits fraction = true) (hne : integer ≠ [])
    (hlen : fraction.length ≤ tokenDecimalPlaces) (hrange : amount integer fraction ≤ i128Max) :
    amountOf integer fraction = makeResult (some (amount integer fraction)) none := by
  have hdigits : ¬ (¬ isDigits integer = true ∨ ¬ isDigits fraction = true) := fun h =>
    h.elim (· hinteger) (· hfraction)
  unfold amountOf
  dsimp only
  rw [if_neg hdigits, if_neg fun hnil => hne hnil.1, if_neg (Nat.not_lt.mpr hlen),
    bigInt_normalized hlen, if_neg (not_lt.mpr hrange)]

theorem isSpace_notDigit {c : Char} (h : isSpace c = true) : c.isDigit = false := by
  by_contra hdigit
  rw [Bool.not_eq_false, Char.isDigit_iff_toNat] at hdigit
  unfold isSpace at h
  simp only [List.mem_cons, List.not_mem_nil, or_false, decide_eq_true_eq] at h
  obtain ⟨hlow, hhigh⟩ := hdigit
  have hzero : '0'.toNat = 48 := rfl
  have hnine : '9'.toNat = 57 := rfl
  omega

theorem filter_trim (input : String) :
    (trim input).toList.filter Char.isDigit = input.toList.filter Char.isDigit := by
  have hspace : ∀ c, isSpace c = true → Char.isDigit c = false := fun c => isSpace_notDigit
  unfold trim
  rw [String.toList_ofList, filter_rdropWhile hspace, filter_dropWhile hspace]

theorem isDigits_iff : isDigits value = true ↔ ∀ c ∈ value, c.isDigit = true := List.all_eq_true

/-- **A text that is accepted**: its amount is that of its digits, split at one place. -/
theorem accepted_digits {input : String} {v : ℤ} (h : parseTokenAmount f input = some v) :
    v ≤ i128Max ∧ ∃ integer fraction, integer ++ fraction = input.toList.filter Char.isDigit ∧
      fraction.length ≤ tokenDecimalPlaces ∧ v = amount integer fraction := by
  unfold parseTokenAmount parseParts at h
  dsimp only at h
  by_cases hnil : (trim input).toList = []
  · rw [if_pos hnil] at h
    exact absurd h.symm (Option.some_ne_none v)
  by_cases hminus : '-' ∈ (trim input).toList
  · rw [if_neg hnil, if_pos hminus] at h
    exact absurd h.symm (Option.some_ne_none v)
  rw [if_neg hnil, if_neg hminus] at h
  have hcompact : ((trim input).toList.filter fun c => ! isSpace c).filter Char.isDigit =
      input.toList.filter Char.isDigit := by
    rw [← filter_trim input, List.filter_filter]
    refine List.filter_congr fun c _ => ?_
    cases hspace : isSpace c with
    | false => rw [Bool.not_false, Bool.and_true]
    | true => rw [isSpace_notDigit hspace, Bool.false_and]
  generalize ((trim input).toList.filter fun c => ! isSpace c) = compact at h hcompact
  split_ifs at h with hchars
  · exact absurd h.symm (Option.some_ne_none v)
  cases hsplit : splitAmount f.decimal f.group compact with
  | none =>
    rw [hsplit] at h
    exact absurd h.symm (Option.some_ne_none v)
  | some parts =>
    obtain ⟨integer, fraction⟩ := parts
    rw [hsplit] at h
    obtain ⟨⟨hinteger, hfraction⟩, hlen, hv, hrange⟩ := amountOf_value h
    refine ⟨hrange, integer, fraction, ?_, hlen, hv⟩
    have hkept := kept_splitAmount f.decimal_notDigit f.group_notDigit hsplit
    unfold Kept at hkept
    rw [← hcompact, ← hkept, List.filter_eq_self.mpr]
    intro c hc
    rcases List.mem_append.mp hc with hc | hc
    · exact isDigits_iff.mp hinteger c hc
    · exact isDigits_iff.mp hfraction c hc

theorem amount_nonneg (integer fraction : List Char) : 0 ≤ amount integer fraction := by
  unfold amount bigInt
  positivity

/-! ### An amount that was written -/

/-- One separator is a point, and the other a comma. -/
def Separated (f : NumberFormat) : Prop :=
  (f.decimal = '.' ∧ f.group = ',') ∨ (f.decimal = ',' ∧ f.group = '.')

/-- Integers are written in groups of three digits. -/
def GroupsInThrees (f : NumberFormat) : Prop :=
  ∀ n, (f.format n).toList = [f.group].intercalate (inThrees (Nat.toDigits 10 n))

section Written

variable {digits : List Char}

theorem not_mem_of_isDigits (hsep : sep.isDigit = false) (h : ∀ c ∈ digits, c.isDigit = true) :
    sep ∉ digits := by
  intro hmem
  rw [h sep hmem] at hsep
  exact absurd hsep.symm Bool.false_ne_true

/-- The groups are read back. -/
theorem splitOn_grouped (hsep : sep.isDigit = false) (hdigits : ∀ c ∈ digits, c.isDigit = true)
    (hne : digits ≠ []) :
    ([sep].intercalate (inThrees digits)).splitOn sep = inThrees digits :=
  List.splitOn_intercalate sep
    (fun _ hg hmem => not_mem_of_isDigits hsep hdigits (mem_of_mem_inThrees hg hmem))
    (inThrees_ne_nil hne)

theorem stripGrouping_grouped (hsep : sep.isDigit = false)
    (hdigits : ∀ c ∈ digits, c.isDigit = true) (hne : digits ≠ []) :
    stripGrouping ([sep].intercalate (inThrees digits)) sep = digits := by
  unfold stripGrouping
  rw [splitOn_grouped hsep hdigits hne, flatten_inThrees]

theorem isValidGrouping_grouped (hsep : sep.isDigit = false)
    (hdigits : ∀ c ∈ digits, c.isDigit = true) (hne : digits ≠ []) :
    isValidGrouping ([sep].intercalate (inThrees digits)) sep = true := by
  have hall : ∀ g ∈ inThrees digits, isDigits g = true := fun g hg =>
    isDigits_iff.mpr fun c hc => hdigits c (mem_of_mem_inThrees hg hc)
  unfold isValidGrouping
  dsimp only
  rw [splitOn_grouped hsep hdigits hne]
  cases hgroups : inThrees digits with
  | nil => exact absurd hgroups (inThrees_ne_nil hne)
  | cons g gs =>
    obtain ⟨⟨hpos, hle⟩, hfull⟩ := length_of_inThrees hgroups
    rw [hgroups] at hall
    split_ifs with hcount hfirst
    · rfl
    · refine List.all_eq_true.mpr fun g' hg' => ?_
      have hlen : decide (g'.length = 3) = true := decide_eq_true (hfull g' hg')
      rw [hall g' (List.mem_cons_of_mem g hg'), hlen]
      rfl
    · exact hfirst ⟨hall g List.mem_cons_self, hpos, hle⟩

/-- An integer in groups, and a fraction. -/
def writtenText (f : NumberFormat) (digits fraction : List Char) : List Char :=
  [f.group].intercalate (inThrees digits) ++
    (if fraction = [] then [] else f.decimal :: fraction)

theorem writtenText_ne_nil (f : NumberFormat) (hdigits : ∀ c ∈ digits, c.isDigit = true)
    (hne : digits ≠ []) (fraction : List Char) :
    writtenText f digits fraction ≠ [] := by
  intro hnil
  have hstrip := stripGrouping_grouped f.group_notDigit hdigits hne
  rw [(List.append_eq_nil_iff.mp hnil).1] at hstrip
  exact hne hstrip.symm

theorem not_mem_grouped (hdecimal : decimal.isDigit = false) (hne : decimal ≠ group)
    (hdigits : ∀ c ∈ digits, c.isDigit = true) :
    decimal ∉ [group].intercalate (inThrees digits) := by
  intro hmem
  rcases eq_or_mem_of_mem_intercalate hmem with heq | ⟨g, hg, hmem⟩
  · exact hne heq
  · exact not_mem_of_isDigits hdecimal hdigits (mem_of_mem_inThrees hg hmem)

theorem Separated.ne (h : Separated f) : f.decimal ≠ f.group := by
  rcases h with ⟨hd, hg⟩ | ⟨hd, hg⟩
  · rw [hd, hg]
    decide
  · rw [hd, hg]
    decide

/-- The other separator is that of the groups, so the parser does not guess. -/
theorem Separated.alternateOf_eq (h : Separated f) : alternateOf f.decimal = f.group := by
  rcases h with ⟨hd, hg⟩ | ⟨hd, hg⟩
  · rw [hd, hg]
    rfl
  · rw [hd, hg]
    rfl

theorem splitGroup_grouped (hgroup : group.isDigit = false)
    (hdigits : ∀ c ∈ digits, c.isDigit = true) (hne : digits ≠ []) :
    splitGroup decimal group ([group].intercalate (inThrees digits)) = some (digits, []) := by
  have hstrip := stripGrouping_grouped hgroup hdigits hne
  unfold splitGroup
  dsimp only
  rw [if_pos (isValidGrouping_grouped hgroup hdigits hne), hstrip]
  split_ifs with hpos
  · rfl
  · have hnone := count_eq_zero_iff.mp (Nat.le_zero.mp (not_lt.mp hpos))
    rw [stripGrouping_of_not_mem hnone] at hstrip
    rw [hstrip]

/-- **What was written is split** where the point was put. -/
theorem splitAmount_writtenText (h : Separated f) (hdigits : ∀ c ∈ digits, c.isDigit = true)
    (hne : digits ≠ []) (hfraction : ∀ c ∈ fraction, c.isDigit = true) :
    splitAmount f.decimal f.group (writtenText f digits fraction) = some (digits, fraction) := by
  have hnot := not_mem_grouped f.decimal_notDigit h.ne hdigits
  have hvalid := isValidGrouping_grouped f.group_notDigit hdigits hne
  unfold splitAmount writtenText
  by_cases hnil : fraction = []
  · rw [if_pos hnil, List.append_nil, count_eq_zero_iff.mpr hnot, if_neg (by decide),
      if_neg (by decide), splitGroup_grouped f.group_notDigit hdigits hne]
    have hcount : count digits f.group = 0 :=
      count_eq_zero_iff.mpr (not_mem_of_isDigits f.group_notDigit hdigits)
    have hempty : count [] f.group = 0 := count_eq_zero_iff.mpr List.not_mem_nil
    simp only [Option.bind_some, splitAlternate, stripRest, h.alternateOf_eq, hcount, hempty,
      Nat.lt_irrefl, if_false, false_and, hnil]
  · have hparts := splitOn_two hnot (not_mem_of_isDigits f.decimal_notDigit hfraction)
    have hcount : count ([f.group].intercalate (inThrees digits) ++ f.decimal :: fraction)
        f.decimal = 1 := by
      unfold count
      rw [hparts]
      rfl
    have hhalves : halves ([f.group].intercalate (inThrees digits) ++ f.decimal :: fraction)
        f.decimal = ([f.group].intercalate (inThrees digits), fraction) := by
      unfold halves
      rw [hparts]
      rfl
    rw [if_neg hnil, if_pos hcount]
    unfold splitDecimal
    rw [hhalves]
    dsimp only
    rw [if_neg fun hgrouping => hgrouping.2 hvalid,
      stripGrouping_grouped f.group_notDigit hdigits hne]

/-- Digits, points and commas are no white space. -/
theorem isSpace_of_allowed {c : Char} (h : c.isDigit = true ∨ c = '.' ∨ c = ',') :
    isSpace c = false := by
  rcases h with hdigit | rfl | rfl
  · by_contra hspace
    rw [isSpace_notDigit (Bool.not_eq_false _ ▸ hspace)] at hdigit
    exact absurd hdigit Bool.false_ne_true
  · rfl
  · rfl

/-- A text of digits and points is read as it is. -/
theorem parseParts_of_allowed {s : String} (hne : s.toList ≠ [])
    (hall : ∀ c ∈ s.toList, c.isDigit = true ∨ c = '.' ∨ c = ',')
    (hsplit : splitAmount f.decimal f.group s.toList = some (integer, fraction)) :
    parseParts f s = amountOf integer fraction := by
  have hspace : ∀ c ∈ s.toList, isSpace c = false := fun c hc => isSpace_of_allowed (hall c hc)
  have hminus : '-' ∉ s.toList := by
    intro hmem
    exact absurd (hall '-' hmem) (by decide)
  have hcompact : (s.toList.filter fun c => ! isSpace c) = s.toList := by
    refine List.filter_eq_self.mpr fun c hc => ?_
    rw [hspace c hc]
    rfl
  have hchars : (s.toList.all fun c => c.isDigit ∨ c = '.' ∨ c = ',') = true :=
    List.all_eq_true.mpr fun c hc => decide_eq_true (hall c hc)
  unfold parseParts
  dsimp only
  rw [trim_eq_self hspace, if_neg hne, if_neg hminus, hcompact,
    if_neg (not_or.mpr ⟨hne, not_not.mpr hchars⟩), hsplit]

theorem writtenText_allowed (h : Separated f) (hdigits : ∀ c ∈ digits, c.isDigit = true)
    (hfraction : ∀ c ∈ fraction, c.isDigit = true) :
    ∀ c ∈ writtenText f digits fraction, c.isDigit = true ∨ c = '.' ∨ c = ',' := by
  have hseps : (f.decimal = '.' ∨ f.decimal = ',') ∧ (f.group = '.' ∨ f.group = ',') := by
    rcases h with ⟨hd, hg⟩ | ⟨hd, hg⟩
    · exact ⟨Or.inl hd, Or.inr hg⟩
    · exact ⟨Or.inr hd, Or.inl hg⟩
  intro c hc
  rcases List.mem_append.mp hc with hc | hc
  · rcases eq_or_mem_of_mem_intercalate hc with rfl | ⟨g, hg, hmem⟩
    · exact Or.inr hseps.2
    · exact Or.inl (hdigits c (mem_of_mem_inThrees hg hmem))
  · split_ifs at hc
    · exact absurd hc List.not_mem_nil
    · rcases List.mem_cons.mp hc with rfl | hc
      · exact Or.inr hseps.1
      · exact Or.inl (hfraction c hc)

end Written

/-- The digits of the fraction that are written. -/
def fractionDigits (n : ℕ) : List Char :=
  ((Nat.toDigits 10 (n % tokenScale)).leftpad tokenDecimalPlaces '0').rdropWhile fun c => c = '0'

theorem fractionDigits_isDigit (n : ℕ) : ∀ c ∈ fractionDigits n, c.isDigit = true := by
  intro c hc
  have hmem := (List.rdropWhile_prefix _ _).subset hc
  unfold List.leftpad at hmem
  rcases List.mem_append.mp hmem with hzero | hdigit
  · rw [List.eq_of_mem_replicate hzero]
    rfl
  · exact Nat.isDigit_of_mem_toDigits (by decide) (by decide) hdigit

theorem length_padded (n : ℕ) :
    ((Nat.toDigits 10 (n % tokenScale)).leftpad tokenDecimalPlaces '0').length =
      tokenDecimalPlaces :=
  length_leftpad_toDigits (by decide) (Nat.mod_lt n (by decide))

theorem length_fractionDigits (n : ℕ) : (fractionDigits n).length ≤ tokenDecimalPlaces := by
  have hle := (List.rdropWhile_prefix (p := fun c : Char => c = '0')
    (l := (Nat.toDigits 10 (n % tokenScale)).leftpad tokenDecimalPlaces '0')).length_le
  rw [length_padded] at hle
  exact hle

/-- The whole tokens and the fraction make up the amount. -/
theorem amount_fractionDigits (n : ℕ) :
    amount (Nat.toDigits 10 (n / tokenScale)) (fractionDigits n) = n := by
  have hback := rightpad_rdropWhile
    ((Nat.toDigits 10 (n % tokenScale)).leftpad tokenDecimalPlaces '0')
  rw [length_padded] at hback
  have hfraction : Nat.ofDigitChars 10 (fractionDigits n) 0 *
      10 ^ (tokenDecimalPlaces - (fractionDigits n).length) = n % tokenScale := by
    rw [← ofDigitChars_rightpad, fractionDigits, hback, ofDigitChars_leftpad,
      Nat.ofDigitChars_ten_toDigits]
  have hsum := Nat.div_add_mod n tokenScale
  unfold amount bigInt
  rw [Nat.ofDigitChars_ten_toDigits]
  have hscale : tokenScale = 10 ^ tokenDecimalPlaces := rfl
  rw [← hfraction, hscale, Nat.mul_comm] at hsum
  exact_mod_cast hsum

theorem toList_formatTokenAmount (h : GroupsInThrees f) (v : ℤ) :
    (formatTokenAmount f v).toList = (if v < 0 then ['-'] else []) ++
      writtenText f (Nat.toDigits 10 (v.natAbs / tokenScale)) (fractionDigits v.natAbs) := by
  have hsign : (if v < 0 then "-" else "").toList = if v < 0 then ['-'] else [] := by
    split_ifs <;> rfl
  have hfraction : (if fractionDigits v.natAbs = [] then ""
      else String.ofList (f.decimal :: fractionDigits v.natAbs)).toList =
      if fractionDigits v.natAbs = [] then [] else f.decimal :: fractionDigits v.natAbs := by
    split_ifs
    · rfl
    · rw [String.toList_ofList]
  unfold formatTokenAmount writtenText
  dsimp only
  rw [String.toList_append, String.toList_append, hsign, h, Nat.toString_eq_repr, Nat.toList_repr,
    List.append_assoc]
  exact congrArg (fun text : List Char => _ ++ (_ ++ text)) hfraction

theorem wholeDigits_isDigit (n : ℕ) :
    ∀ c ∈ Nat.toDigits 10 (n / tokenScale), c.isDigit = true :=
  fun _ hc => Nat.isDigit_of_mem_toDigits (by decide) (by decide) hc

/-- **The round trip**: an amount that was written is read back. -/
theorem parseTokenAmount_formatTokenAmount (hseparated : Separated f) (hgroups : GroupsInThrees f)
    {v : ℤ} (hv : 0 ≤ v) (hmax : v ≤ i128Max) :
    parseTokenAmount f (formatTokenAmount f v) = some v := by
  have htext := toList_formatTokenAmount hgroups v
  rw [if_neg (not_lt.mpr hv), List.nil_append] at htext
  have hdigits := wholeDigits_isDigit v.natAbs
  have hfraction := fractionDigits_isDigit v.natAbs
  have hne : Nat.toDigits 10 (v.natAbs / tokenScale) ≠ [] := Nat.toDigits_ne_nil
  have hsplit := splitAmount_writtenText hseparated hdigits hne hfraction
  have hallowed := writtenText_allowed hseparated hdigits hfraction
  have hwritten := writtenText_ne_nil f hdigits hne (fractionDigits v.natAbs)
  rw [← htext] at hsplit hwritten hallowed
  have hamount : amount (Nat.toDigits 10 (v.natAbs / tokenScale)) (fractionDigits v.natAbs) = v :=
    (amount_fractionDigits v.natAbs).trans (Int.natAbs_of_nonneg hv)
  unfold parseTokenAmount
  rw [parseParts_of_allowed hwritten hallowed hsplit, amountOf_of_isDigits
    (isDigits_iff.mpr hdigits) (isDigits_iff.mpr hfraction) hne (length_fractionDigits _)
    (hamount.le.trans hmax), hamount]
  rfl

/-- A debt that was written is not read as an amount. -/
theorem parseTokenAmountResult_negative (hseparated : Separated f) (hgroups : GroupsInThrees f)
    {v : ℤ} (hv : v < 0) :
    parseTokenAmountResult f (formatTokenAmount f v) = makeResult none (some .negative) := by
  have htext := toList_formatTokenAmount hgroups v
  rw [if_pos hv, List.singleton_append] at htext
  have hallowed := writtenText_allowed hseparated (wholeDigits_isDigit v.natAbs)
    (fractionDigits_isDigit v.natAbs)
  have hspace : ∀ c ∈ (formatTokenAmount f v).toList, isSpace c = false := by
    intro c hc
    rw [htext] at hc
    rcases List.mem_cons.mp hc with rfl | hc
    · rfl
    · exact isSpace_of_allowed (hallowed c hc)
  unfold parseTokenAmountResult parseParts
  dsimp only
  rw [trim_eq_self hspace, htext, if_neg (List.cons_ne_nil _ _), if_pos List.mem_cons_self]

/-- There is an amount, or an error and its message. -/
def Settled (result : TokenAmountParseResult) : Prop :=
  ∃ value error, result = makeResult value error ∧ (value = none ↔ error ≠ none)

theorem settled_error (error : TokenAmountError) : Settled (makeResult none (some error)) :=
  ⟨none, some error, rfl, iff_of_true rfl (Option.some_ne_none error)⟩

theorem settled_value (v : ℤ) : Settled (makeResult (some v) none) :=
  ⟨some v, none, rfl, iff_of_false (Option.some_ne_none v) fun h => h rfl⟩

theorem amountOf_settled (integer fraction : List Char) : Settled (amountOf integer fraction) := by
  unfold amountOf
  dsimp only
  generalize (if integer = [] then ['0'] else integer) = normalizedInteger
  split_ifs
  · exact settled_error .format
  · exact settled_error .format
  · exact settled_error .precision
  · exact settled_error .range
  · exact settled_value _

/-- **Every text** but a blank one is settled. -/
theorem parseParts_settled {input : String} (h : (trim input).toList ≠ []) :
    Settled (parseParts f input) := by
  unfold parseParts
  dsimp only
  rw [if_neg h]
  split_ifs
  · exact settled_error .negative
  · exact settled_error .format
  · cases splitAmount f.decimal f.group ((trim input).toList.filter fun c => ! isSpace c) with
    | none => exact settled_error .format
    | some parts => exact amountOf_settled parts.1 parts.2

/-- English, as `Intl` has it. -/
def english : NumberFormat where
  decimal := '.'
  group := ','
  format n := String.ofList ([','].intercalate (inThrees (Nat.toDigits 10 n)))
  decimal_notDigit := rfl
  group_notDigit := rfl

/-- **Amounts** are read back as they were written, if `Intl` groups digits in threes with one of
the two pairs of separators; and whatever is accepted is an amount in range, of the digits of the
text, of which at most seven are those of the fraction. -/
theorem tokenAmount_roundTrip (f : NumberFormat) :
    (Separated f → GroupsInThrees f → ∀ v : ℤ, 0 ≤ v → v ≤ i128Max →
        parseTokenAmount f (formatTokenAmount f v) = some v) ∧
      ∀ (input : String) (v : ℤ), parseTokenAmount f input = some v →
        (0 ≤ v ∧ v ≤ i128Max) ∧ ∃ integer fraction : List Char,
          integer ++ fraction = input.toList.filter Char.isDigit ∧
            fraction.length ≤ tokenDecimalPlaces ∧ v = amount integer fraction := by
  constructor
  · intro hseparated hgroups v hv hmax
    exact parseTokenAmount_formatTokenAmount hseparated hgroups hv hmax
  · intro input v h
    obtain ⟨hmax, integer, fraction, hdigits, hlen, rfl⟩ := accepted_digits h
    exact ⟨⟨amount_nonneg integer fraction, hmax⟩, integer, fraction, hdigits, hlen, rfl⟩

theorem groupsInThrees_english : GroupsInThrees english := fun _ => String.toList_ofList

theorem tokenAmount_roundTrip_english :
    parseTokenAmount english (formatTokenAmount english 12345678901234500) =
        some 12345678901234500 ∧
      parseTokenAmount english "1,5" = some 15000000 ∧
      ∃ integer fraction : List Char, integer ++ fraction = ['1', '5'] ∧
        fraction.length ≤ tokenDecimalPlaces ∧ 15000000 = amount integer fraction := by
  have hread : parseTokenAmount english "1,5" = some 15000000 := by decide +kernel
  refine ⟨?_, hread, ((tokenAmount_roundTrip english).2 "1,5" 15000000 hread).2⟩
  exact (tokenAmount_roundTrip english).1 (Or.inl ⟨rfl, rfl⟩) groupsInThrees_english _
    (by decide) (by decide)

end VestingDripStream.Frontend.TokenAmount
