import Mathlib.Data.List.Basic
import Mathlib.Tactic

/-! # Simple patterns

Regular expressions without repetition: a sequence of groups, each of which is a choice of sequences
of character classes. Such a pattern stands for a finite list of words, and a text matches it at its
start exactly if one of them is a prefix (`test_start_iff`). -/

namespace VestingDripStream.Lib.Patterns

/-- The characters that are allowed at a place. -/
abbrev Class : Type := List Char

/-- A choice of sequences. -/
abbrev Group : Type := List (List Class)

/-- A regular expression that is anchored at the start. -/
structure RegExp where
  groups : List Group
  /-- `$` at the end. -/
  toEnd : Bool
  /-- The flag `i`; the pattern is in lower case. -/
  ignoreCase : Bool

/-- A literal. -/
def lit (text : String) : Group := [text.toList.map fun c => [c]]

/-- The digits, `\d`. -/
def digit : Class := "0123456789".toList

/-- What is left behind a sequence of classes. -/
def matchSeq : List Class → List Char → Option (List Char)
  | [], text => some text
  | _ :: _, [] => none
  | c :: classes, a :: text => if a ∈ c then matchSeq classes text else none

/-- What may be left behind the groups. -/
def rests : List Group → List Char → List (List Char)
  | [], text => [text]
  | g :: groups, text => (g.filterMap fun classes => matchSeq classes text).flatMap (rests groups)

/-- `test` of a pattern that is anchored at the start. -/
def RegExp.test (re : RegExp) (text : List Char) : Bool :=
  let input := if re.ignoreCase then text.map Char.toLower else text
  if re.toEnd then [] ∈ rests re.groups input else rests re.groups input ≠ []

/-! ### Words -/

/-- The words of a sequence of classes. -/
def seqWords : List Class → List (List Char)
  | [] => [[]]
  | c :: classes => c.flatMap fun a => (seqWords classes).map (a :: ·)

/-- The words of a sequence of groups. -/
def words : List Group → List (List Char)
  | [] => [[]]
  | g :: groups => (g.flatMap seqWords).flatMap fun w => (words groups).map (w ++ ·)

theorem matchSeq_eq_some_iff {classes : List Class} {text rest : List Char} :
    matchSeq classes text = some rest ↔ ∃ w ∈ seqWords classes, text = w ++ rest := by
  induction classes generalizing text with
  | nil =>
    unfold matchSeq seqWords
    constructor
    · intro h
      exact ⟨[], List.mem_singleton_self _, Option.some.inj h⟩
    · rintro ⟨w, hw, rfl⟩
      rw [List.mem_singleton.mp hw, List.nil_append]
  | cons c classes ih =>
    have hwords : ∀ w, w ∈ seqWords (c :: classes) ↔
        ∃ a ∈ c, ∃ v ∈ seqWords classes, a :: v = w := by
      intro w
      rw [seqWords, List.mem_flatMap]
      refine exists_congr fun a => and_congr_right fun _ => ?_
      rw [List.mem_map]
    cases text with
    | nil =>
      refine iff_of_false (by unfold matchSeq; exact (Option.some_ne_none rest).symm) ?_
      rintro ⟨w, hw, hnil⟩
      obtain ⟨a, -, v, -, rfl⟩ := (hwords w).mp hw
      exact List.cons_ne_nil _ _ hnil.symm
    | cons a text =>
      rw [matchSeq]
      constructor
      · intro h
        split_ifs at h with ha
        obtain ⟨v, hv, rfl⟩ := ih.mp h
        exact ⟨a :: v, (hwords _).mpr ⟨a, ha, v, hv, rfl⟩, rfl⟩
      · rintro ⟨w, hw, heq⟩
        obtain ⟨a', ha', v, hv, rfl⟩ := (hwords w).mp hw
        obtain ⟨rfl, rfl⟩ := List.cons.inj heq
        rw [if_pos ha']
        exact ih.mpr ⟨v, hv, rfl⟩

theorem mem_rests_iff {groups : List Group} {text rest : List Char} :
    rest ∈ rests groups text ↔ ∃ w ∈ words groups, text = w ++ rest := by
  induction groups generalizing text with
  | nil =>
    unfold rests words
    constructor
    · intro h
      exact ⟨[], List.mem_singleton_self _, (List.mem_singleton.mp h).symm⟩
    · rintro ⟨w, hw, rfl⟩
      rw [List.mem_singleton.mp hw, List.nil_append]
      exact List.mem_singleton_self _
  | cons g groups ih =>
    rw [rests, words, List.mem_flatMap]
    constructor
    · rintro ⟨tail, htail, hrest⟩
      obtain ⟨classes, hclasses, hmatch⟩ := List.mem_filterMap.mp htail
      obtain ⟨w, hw, rfl⟩ := matchSeq_eq_some_iff.mp hmatch
      obtain ⟨v, hv, rfl⟩ := ih.mp hrest
      refine ⟨w ++ v, ?_, (List.append_assoc _ _ _).symm⟩
      exact List.mem_flatMap.mpr ⟨w, List.mem_flatMap.mpr ⟨classes, hclasses, hw⟩,
        List.mem_map_of_mem hv⟩
    · rintro ⟨word, hword, rfl⟩
      obtain ⟨w, hfirst, hmap⟩ := List.mem_flatMap.mp hword
      obtain ⟨classes, hclasses, hw⟩ := List.mem_flatMap.mp hfirst
      obtain ⟨v, hv, rfl⟩ := List.mem_map.mp hmap
      refine ⟨v ++ rest, List.mem_filterMap.mpr ⟨classes, hclasses, ?_⟩, ih.mpr ⟨v, hv, rfl⟩⟩
      exact matchSeq_eq_some_iff.mpr ⟨w, hw, List.append_assoc _ _ _⟩

theorem seqWords_map (l : List Char) : seqWords (l.map fun c => [c]) = [l] := by
  induction l with
  | nil => rfl
  | cons c l ih => rw [List.map_cons, seqWords, ih, List.flatMap_singleton, List.map_singleton]

/-- A literal stands for itself. -/
theorem words_lit (text : String) : words [lit text] = [text.toList] := by
  unfold lit words
  rw [List.flatMap_singleton, seqWords_map, List.flatMap_singleton, words, List.map_singleton,
    List.append_nil]

/-- **A pattern at the start** of a text. -/
theorem test_start_iff {re : RegExp} (hend : re.toEnd = false) {text : List Char} :
    re.test text = true ↔ ∃ w ∈ words re.groups,
      w <+: if re.ignoreCase then text.map Char.toLower else text := by
  unfold RegExp.test
  dsimp only
  rw [hend, if_neg Bool.false_ne_true, decide_eq_true_iff, List.ne_nil_iff_exists_cons]
  constructor
  · rintro ⟨rest, more, h⟩
    have hmem : rest ∈ rests re.groups (if re.ignoreCase then text.map Char.toLower else text) := by
      rw [h]
      exact List.mem_cons_self
    obtain ⟨w, hw, heq⟩ := mem_rests_iff.mp hmem
    exact ⟨w, hw, rest, heq.symm⟩
  · rintro ⟨w, hw, rest, heq⟩
    exact List.exists_cons_of_ne_nil (List.ne_nil_of_mem (mem_rests_iff.mpr ⟨w, hw, heq.symm⟩))

/-- A pattern for the whole text. -/
theorem test_whole_iff {re : RegExp} (hend : re.toEnd = true) {text : List Char} :
    re.test text = true ↔
      (if re.ignoreCase then text.map Char.toLower else text) ∈ words re.groups := by
  unfold RegExp.test
  dsimp only
  rw [hend, if_pos rfl, decide_eq_true_iff, mem_rests_iff]
  constructor
  · rintro ⟨w, hw, heq⟩
    rwa [heq, List.append_nil]
  · intro h
    exact ⟨_, h, (List.append_nil _).symm⟩

end VestingDripStream.Lib.Patterns
