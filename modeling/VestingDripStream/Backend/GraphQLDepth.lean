import VestingDripStream.Backend.GraphQLDocument

/-! # The depth limit of GraphQL

`checkDepth` measures each definition of a document by itself, fragments and operations alike, and a
spread counts nothing. So the fields of a fragment may end up deeper than the limit, behind a chain
of spreads that each stand within it (`checkDepth_sound_iff`); without spreads the limit is sound
(`bounded_of_no_spreads`). -/

namespace VestingDripStream.Backend.GraphQLDepth

open VestingDripStream.Backend.GraphQLDocument

/-- Inline fragments are counted like fields. -/
def selectionDepth : SelectionSet → ℕ
  | .nil => 0
  | .leaf _ rest => selectionDepth rest
  | .field _ selections rest => max (1 + selectionDepth selections) (selectionDepth rest)
  | .inlineFragment _ selections rest => max (1 + selectionDepth selections) (selectionDepth rest)
  | .fragmentSpread _ rest => selectionDepth rest

/-- The validation rule: the first definition that is too deep is reported. -/
def checkDepth (document : Document) (maxDepth : ℤ) : Except String Unit :=
  let selectionSets := document.filterMap Definition.selections?
  match selectionSets.find? fun selections => maxDepth < selectionDepth selections with
  | some selections =>
    let depth := selectionDepth selections
    .error s!"Query depth {depth} exceeds maximum allowed depth of {maxDepth}"
  | none => .ok ()

/-! ### The fields around a field -/

/-- The number of fields around a selection. -/
def around : Walk ℕ where
  enter n _ := n + 1
  narrow n _ := n

/-- No field of an operation stands under more fields than `maxDepth`, once the fragments are put
in. -/
def Bounded (document : Document) (maxDepth : ℤ) : Prop :=
  ∀ o, Definition.operation o ∈ document →
    ∀ f ∈ fields around 0 (expand document o.selections), (f.1 : ℤ) ≤ maxDepth

variable {document : Document} {maxDepth : ℤ}

/-- A definition is refused for the depth of its own selections. -/
theorem checkDepth_eq_ok_iff : checkDepth document maxDepth = .ok () ↔
    ∀ d ∈ document, ∀ selections, d.selections? = some selections →
      (selectionDepth selections : ℤ) ≤ maxDepth := by
  unfold checkDepth
  dsimp only
  split
  · rename_i selections hfind
    have hmem := List.mem_of_find?_eq_some hfind
    obtain ⟨d, hd, hselections⟩ := List.mem_filterMap.mp hmem
    have hdeep : maxDepth < selectionDepth selections := by simpa using List.find?_some hfind
    refine iff_of_false (fun h => by cases h) fun hall => ?_
    have hle := hall d hd selections hselections
    omega
  · rename_i hfind
    refine iff_of_true rfl ?_
    intro d hd selections hselections
    have hmem := List.mem_filterMap.mpr ⟨d, hd, hselections⟩
    have hshallow := List.find?_eq_none.mp hfind selections hmem
    rw [decide_eq_true_iff] at hshallow
    omega

/-- What stands around a selection set stands around its fields. -/
theorem fields_around (c k : ℕ) (selections : SelectionSet) :
    fields around (c + k) selections =
      (fields around k selections).map fun f => (c + f.1, f.2) := by
  induction selections generalizing k with
  | nil => rfl
  | leaf name rest ih => rw [fields, fields, List.map_cons, ih]
  | field name selections rest ihs ihr =>
    have henter : around.enter (c + k) name = c + around.enter k name := Nat.add_assoc c k 1
    rw [fields, fields, List.map_cons, List.map_append, henter, ihs, ihr]
  | inlineFragment typeCondition selections rest ihs ihr =>
    have hnarrow : around.narrow (c + k) typeCondition = c + around.narrow k typeCondition := rfl
    rw [fields, fields, List.map_append, hnarrow, ihs, ihr]
  | fragmentSpread name rest ih => exact ih k

/-- The depth of a definition bounds that of its own fields. -/
theorem le_selectionDepth {c : ℕ} {selections : SelectionSet} {f : ℕ × String}
    (h : f ∈ fields around c selections) : f.1 ≤ c + selectionDepth selections := by
  induction selections generalizing c with
  | nil => exact absurd h List.not_mem_nil
  | leaf name rest ih =>
    rw [selectionDepth]
    rcases List.mem_cons.mp h with rfl | h
    · omega
    · exact ih h
  | field name selections rest ihs ihr =>
    rw [selectionDepth]
    rcases List.mem_cons.mp h with rfl | h
    · omega
    rcases List.mem_append.mp h with h | h
    · have hle := ihs h
      have henter : around.enter c name = c + 1 := rfl
      omega
    · have hle := ihr h
      omega
  | inlineFragment typeCondition selections rest ihs ihr =>
    rw [selectionDepth]
    rcases List.mem_append.mp h with h | h
    · have hle := ihs h
      have hnarrow : around.narrow c typeCondition = c := rfl
      omega
    · have hle := ihr h
      omega
  | fragmentSpread name rest ih => exact ih h

/-- The fields of an operation, and those behind each chain of spreads. -/
theorem bounded_iff (hok : checkDepth document maxDepth = .ok ()) : Bounded document maxDepth ↔
    ∀ o, Definition.operation o ∈ document → ∀ r ∈ reached around document 0 o.selections,
      ∀ f ∈ fields around 0 r.2.selections, (r.1 : ℤ) + f.1 ≤ maxDepth := by
  have hfields : ∀ (o : Operation) f, f ∈ fields around 0 (expand document o.selections) ↔
      f ∈ fields around 0 o.selections ∨
        ∃ r ∈ reached around document 0 o.selections, f ∈ fields around r.1 r.2.selections := by
    intro o f
    rw [(fields_expand 0 o.selections).mem_iff, List.mem_append, List.mem_flatMap]
  have hshift : ∀ (r : ℕ × Fragment), fields around r.1 r.2.selections =
      (fields around 0 r.2.selections).map fun f => (r.1 + f.1, f.2) :=
    fun r => fields_around r.1 0 r.2.selections
  constructor
  · intro h o ho r hr f hf
    have hmem : (r.1 + f.1, f.2) ∈ fields around r.1 r.2.selections := by
      rw [hshift]
      exact List.mem_map_of_mem hf
    have hle := h o ho _ ((hfields o _).mpr (Or.inr ⟨r, hr, hmem⟩))
    exact_mod_cast hle
  · intro h o ho f hf
    rcases (hfields o f).mp hf with hown | ⟨r, hr, hmem⟩
    · have hdepth := checkDepth_eq_ok_iff.mp hok _ ho o.selections rfl
      have hle := le_selectionDepth hown
      omega
    · rw [hshift] at hmem
      obtain ⟨f', hf', rfl⟩ := List.mem_map.mp hmem
      have hle := h o ho r hr f' hf'
      exact_mod_cast hle

/-- **Without spreads** in the operations the limit is sound. -/
theorem bounded_of_no_spreads (hok : checkDepth document maxDepth = .ok ())
    (h : ∀ o, Definition.operation o ∈ document → spreads around 0 o.selections = []) :
    Bounded document maxDepth := by
  refine (bounded_iff hok).mpr fun o ho r hr => ?_
  have hnone : ∀ n, reachedN around document n 0 o.selections = [] := by
    intro n
    cases n with
    | zero => rfl
    | succ n => rw [reachedN, h o ho, List.flatMap_nil]
  rw [reached, hnone] at hr
  exact absurd hr List.not_mem_nil

/-- **The depth limit** holds of the expanded operations exactly if a definition is too deep by
itself, or what a chain of spreads adds up to is within the limit: the fields around each spread of
it, and those around a field of the last fragment. -/
theorem checkDepth_sound_iff (document : Document) (maxDepth : ℤ) :
    (checkDepth document maxDepth = .ok () → Bounded document maxDepth) ↔
      (∃ d ∈ document, ∃ selections, d.selections? = some selections ∧
        maxDepth < selectionDepth selections) ∨
      ∀ o, Definition.operation o ∈ document → ∀ r ∈ reached around document 0 o.selections,
        ∀ f ∈ fields around 0 r.2.selections, (r.1 : ℤ) + f.1 ≤ maxDepth := by
  by_cases hok : checkDepth document maxDepth = .ok ()
  · have hshallow : ¬ ∃ d ∈ document, ∃ selections, d.selections? = some selections ∧
        maxDepth < selectionDepth selections := by
      rintro ⟨d, hd, selections, hselections, hdeep⟩
      have hle := checkDepth_eq_ok_iff.mp hok d hd selections hselections
      omega
    rw [or_iff_right hshallow, ← bounded_iff hok]
    exact ⟨fun h => h hok, fun h _ => h⟩
  · refine iff_of_true (fun h => absurd h hok) (Or.inl ?_)
    by_contra hnone
    refine hok (checkDepth_eq_ok_iff.mpr fun d hd selections hselections => ?_)
    by_contra hdeep
    exact hnone ⟨d, hd, selections, hselections, not_le.mp hdeep⟩

/-- `query { a { ...F } }` and `fragment F on T { b { c } }`. -/
def spreadBelow : Document :=
  [.operation ⟨.query, .field "a" (.fragmentSpread "F" .nil) .nil⟩,
    .fragment ⟨"F", "T", .field "b" (.leaf "c" .nil) .nil⟩]

/-- Its field `c` is under two fields, and each definition is of depth one. -/
theorem spreadBelow_accepted : ¬ ∀ (document : Document) (maxDepth : ℤ), Acyclic document →
    checkDepth document maxDepth = .ok () → Bounded document maxDepth := by
  intro hall
  have hacyclic : Acyclic spreadBelow := by
    refine acyclic_of_spreadNames fun F hF => ?_
    rw [List.mem_singleton.mp hF]
    rfl
  have hbounded := hall spreadBelow 1 hacyclic rfl _ List.mem_cons_self (2, "c") (by decide)
  exact absurd hbounded (by decide)

end VestingDripStream.Backend.GraphQLDepth
