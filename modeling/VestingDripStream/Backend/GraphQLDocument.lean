import Mathlib.Data.List.Chain
import Mathlib.Data.List.Perm.Subperm
import Mathlib.Logic.Relation
import Mathlib.Tactic

/-! # GraphQL documents

The limits of `graphql-depth-limit.js` are checked on a document as it was parsed, with the
fragments apart from the operations. This module says what they are about: the document with its
fragments put in (`expand`). A spread becomes an inline fragment with the type condition of the
definition.

What a field counts depends on where it stands: on the number of fields around it, or on the type of
its parent. Both are a `Walk`. The fields of an expanded selection set are its own ones and those of
every fragment that it reaches, as often as it does (`fields_expand`). -/

namespace VestingDripStream.Backend.GraphQLDocument

/-- A selection set, from its first selection on. A field without selections is a `leaf`. -/
inductive SelectionSet
  | nil
  | leaf (name : String) (rest : SelectionSet)
  | field (name : String) (selections rest : SelectionSet)
  | inlineFragment (typeCondition : Option String) (selections rest : SelectionSet)
  | fragmentSpread (name : String) (rest : SelectionSet)
  deriving DecidableEq

/-- The kinds of operations, each with a root type of its own. -/
inductive OperationType
  | query
  | mutation
  | subscription
  deriving DecidableEq

/-- An operation definition. -/
structure Operation where
  operation : OperationType
  selections : SelectionSet
  deriving DecidableEq

/-- A fragment definition. -/
structure Fragment where
  name : String
  typeCondition : String
  selections : SelectionSet
  deriving DecidableEq

/-- The definitions of a document; those of a schema have no selections. -/
inductive Definition
  | operation (o : Operation)
  | fragment (F : Fragment)
  | other
  deriving DecidableEq

/-- `def.selectionSet`. -/
def Definition.selections? : Definition → Option SelectionSet
  | .operation o => some o.selections
  | .fragment F => some F.selections
  | .other => none

/-- `document.definitions`. -/
abbrev Document : Type := List Definition

/-- The fragment definitions of a document. -/
def fragments (document : Document) : List Fragment :=
  document.filterMap fun d =>
    match d with
    | .fragment F => some F
    | _ => none

/-- The definition that a spread of this name stands for. -/
def fragment? (document : Document) (name : String) : Option Fragment :=
  (fragments document).find? fun F => F.name = name

/-! ### Walks -/

/-- What is carried down to a selection: it changes at a field and at a type condition. -/
structure Walk (C : Type) where
  enter : C → String → C
  narrow : C → Option String → C

variable {C : Type} (w : Walk C) (document : Document)

/-- The fields, each with what is carried to it. -/
def fields : C → SelectionSet → List (C × String)
  | _, .nil => []
  | c, .leaf name rest => (c, name) :: fields c rest
  | c, .field name selections rest =>
    (c, name) :: (fields (w.enter c name) selections ++ fields c rest)
  | c, .inlineFragment typeCondition selections rest =>
    fields (w.narrow c typeCondition) selections ++ fields c rest
  | c, .fragmentSpread _ rest => fields c rest

/-- The spreads, each with what is carried to it. -/
def spreads : C → SelectionSet → List (C × String)
  | _, .nil => []
  | c, .leaf _ rest => spreads c rest
  | c, .field name selections rest => spreads (w.enter c name) selections ++ spreads c rest
  | c, .inlineFragment typeCondition selections rest =>
    spreads (w.narrow c typeCondition) selections ++ spreads c rest
  | c, .fragmentSpread name rest => (c, name) :: spreads c rest

/-! ### Fragments put in -/

/-- Spreads are replaced by inline fragments, where there is a definition. -/
def SelectionSet.substitute (put : String → Option (String × SelectionSet)) :
    SelectionSet → SelectionSet
  | .nil => .nil
  | .leaf name rest => .leaf name (rest.substitute put)
  | .field name selections rest =>
    .field name (selections.substitute put) (rest.substitute put)
  | .inlineFragment typeCondition selections rest =>
    .inlineFragment typeCondition (selections.substitute put) (rest.substitute put)
  | .fragmentSpread name rest =>
    match put name with
    | some (typeCondition, selections) =>
      .inlineFragment (some typeCondition) selections (rest.substitute put)
    | none => .fragmentSpread name (rest.substitute put)

/-- Fragments are put in, and those they spread, `n` times. -/
def expandN : ℕ → SelectionSet → SelectionSet
  | 0, selections => selections
  | n + 1, selections => selections.substitute fun name =>
    (fragment? document name).map fun F => (F.typeCondition, expandN n F.selections)

/-- **The expanded selection set**: a chain of spreads without a cycle is not longer than this. -/
def expand (selections : SelectionSet) : SelectionSet :=
  expandN document document.length selections

/-- The fragments that a selection set reaches by at most `n` spreads, with repetition, and what is
carried to each of them. -/
def reachedN : ℕ → C → SelectionSet → List (C × Fragment)
  | 0, _, _ => []
  | n + 1, c, selections => (spreads w c selections).flatMap fun s =>
    match fragment? document s.2 with
    | none => []
    | some F =>
      (w.narrow s.1 F.typeCondition, F) :: reachedN n (w.narrow s.1 F.typeCondition) F.selections

/-- All fragments that a selection set reaches: a chain without a cycle is not longer. -/
def reached (c : C) (selections : SelectionSet) : List (C × Fragment) :=
  reachedN w document document.length c selections

/-! ### The fields of an expanded selection set -/

variable {w document}

/-- What is put in for a spread brings its fields. -/
theorem fields_substitute (put : String → Option (String × SelectionSet)) (c : C)
    (selections : SelectionSet) :
    (fields w c (selections.substitute put)).Perm (fields w c selections ++
      (spreads w c selections).flatMap fun s =>
        match put s.2 with
        | none => []
        | some F => fields w (w.narrow s.1 F.1) F.2) := by
  -- the fields of two selection sets, and those that their spreads bring
  have hboth : ∀ {a a' b b' x y : List (C × String)}, a.Perm (a' ++ x) → b.Perm (b' ++ y) →
      (a ++ b).Perm (a' ++ b' ++ (x ++ y)) := by
    intro a a' b b' x y ha hb
    have happ := ha.append hb
    refine happ.trans ?_
    rw [List.append_assoc, List.append_assoc]
    refine List.Perm.append_left a' ?_
    rw [← List.append_assoc, ← List.append_assoc]
    exact List.perm_append_comm.append_right y
  induction selections generalizing c with
  | nil => exact List.Perm.refl _
  | leaf name rest ih => exact (ih c).cons (c, name)
  | field name selections rest ihs ihr =>
    rw [SelectionSet.substitute, fields, fields, spreads, List.flatMap_append]
    exact (hboth (ihs _) (ihr c)).cons (c, name)
  | inlineFragment typeCondition selections rest ihs ihr =>
    rw [SelectionSet.substitute, fields, fields, spreads, List.flatMap_append]
    exact hboth (ihs _) (ihr c)
  | fragmentSpread name rest ih =>
    rw [SelectionSet.substitute, fields, spreads, List.flatMap_cons]
    cases hput : put name with
    | none =>
      rw [List.nil_append]
      exact ih c
    | some F =>
      -- the fields of the fragment come to stand behind those of the rest
      refine ((ih c).append_left _).trans ?_
      rw [← List.append_assoc, ← List.append_assoc]
      exact List.perm_append_comm.append_right _

/-- **The fields after `n` steps**: those of the selection set, and those of the fragments that it
reaches. -/
theorem fields_expandN (n : ℕ) (c : C) (selections : SelectionSet) :
    (fields w c (expandN document n selections)).Perm (fields w c selections ++
      (reachedN w document n c selections).flatMap fun r => fields w r.1 r.2.selections) := by
  induction n generalizing c selections with
  | zero => rw [expandN, reachedN, List.flatMap_nil, List.append_nil]
  | succ n ih =>
    rw [expandN, reachedN]
    refine (fields_substitute _ c selections).trans (List.Perm.append_left _ ?_)
    rw [List.flatMap_assoc]
    refine List.Perm.flatMap_left _ fun s _ => ?_
    cases hF : fragment? document s.2 with
    | none => exact List.Perm.refl _
    | some F => exact ih (w.narrow s.1 F.typeCondition) F.selections

theorem fields_expand (c : C) (selections : SelectionSet) :
    (fields w c (expand document selections)).Perm (fields w c selections ++
      (reached w document c selections).flatMap fun r => fields w r.1 r.2.selections) :=
  fields_expandN document.length c selections

/-! ### Fragments without a cycle -/

/-- The names that are spread. -/
def SelectionSet.spreadNames : SelectionSet → List String
  | .nil => []
  | .leaf _ rest => rest.spreadNames
  | .field _ selections rest => selections.spreadNames ++ rest.spreadNames
  | .inlineFragment _ selections rest => selections.spreadNames ++ rest.spreadNames
  | .fragmentSpread name rest => name :: rest.spreadNames

/-- A fragment spreads another one. -/
def Spreads (document : Document) (F G : Fragment) : Prop :=
  ∃ name ∈ F.selections.spreadNames, fragment? document name = some G

/-- No fragment comes back to itself. -/
def Acyclic (document : Document) : Prop := ∀ F, ¬ Relation.TransGen (Spreads document) F F

/-- Fragments that spread nothing have no cycle. -/
theorem acyclic_of_spreadNames (h : ∀ F ∈ fragments document, F.selections.spreadNames = []) :
    Acyclic document := by
  intro F hcycle
  obtain ⟨P, -, name, -, hF⟩ := Relation.TransGen.tail'_iff.mp hcycle
  obtain ⟨Q, ⟨name', hname', -⟩, -⟩ := Relation.TransGen.head'_iff.mp hcycle
  rw [h F (List.mem_of_find?_eq_some hF)] at hname'
  exact List.not_mem_nil hname'

/-- `name` stands where nothing was put in, or comes with what was put in for one of `names`. -/
def Stems (put : String → Option (String × SelectionSet)) (names : List String) (name : String) :
    Prop :=
  put name = none ∨ ∃ m ∈ names, ∃ F, put m = some F ∧ name ∈ F.2.spreadNames

theorem Stems.mono {put : String → Option (String × SelectionSet)} {names names' : List String}
    {name : String} (h : Stems put names name) (hsub : names ⊆ names') : Stems put names' name := by
  rcases h with hnone | ⟨m, hm, hput⟩
  · exact Or.inl hnone
  · exact Or.inr ⟨m, hsub hm, hput⟩

theorem mem_spreadNames_substitute {put : String → Option (String × SelectionSet)}
    {selections : SelectionSet} {name : String}
    (h : name ∈ (selections.substitute put).spreadNames) :
    Stems put selections.spreadNames name := by
  induction selections with
  | nil => exact absurd h List.not_mem_nil
  | leaf _ rest ih => exact ih h
  | field _ selections rest ihs ihr =>
    rcases List.mem_append.mp h with h | h
    · exact (ihs h).mono (List.subset_append_left _ _)
    · exact (ihr h).mono (List.subset_append_right _ _)
  | inlineFragment _ selections rest ihs ihr =>
    rcases List.mem_append.mp h with h | h
    · exact (ihs h).mono (List.subset_append_left _ _)
    · exact (ihr h).mono (List.subset_append_right _ _)
  | fragmentSpread spread rest ih =>
    have hrest : name ∈ (rest.substitute put).spreadNames →
        Stems put (spread :: rest.spreadNames) name :=
      fun hmem => (ih hmem).mono (List.subset_cons_self _ _)
    rw [SelectionSet.substitute] at h
    cases hput : put spread with
    | none =>
      rw [hput] at h
      rcases List.mem_cons.mp h with rfl | h
      · exact Or.inl hput
      · exact hrest h
    | some F =>
      rw [hput] at h
      rcases List.mem_append.mp h with h | h
      · exact Or.inr ⟨spread, List.mem_cons_self, F, hput, h⟩
      · exact hrest h

/-- A spread that is left after `n` steps ends a chain of as many fragments. -/
theorem exists_chain {n : ℕ} {selections : SelectionSet} {name : String} {G : Fragment}
    (h : name ∈ (expandN document n selections).spreadNames)
    (hG : fragment? document name = some G) :
    ∃ F l, l.length = n ∧ List.IsChain (Spreads document) (F :: l) ∧
      (∀ x ∈ F :: l, x ∈ fragments document) ∧
      ∃ m ∈ selections.spreadNames, fragment? document m = some F := by
  induction n generalizing selections with
  | zero =>
    refine ⟨G, [], rfl, List.isChain_singleton G, ?_, name, h, hG⟩
    intro x hx
    rw [List.mem_singleton.mp hx]
    exact List.mem_of_find?_eq_some hG
  | succ n ih =>
    rcases mem_spreadNames_substitute h with hnone | ⟨m, hm, P, hput, hmem⟩
    · dsimp only at hnone
      rw [hG] at hnone
      exact absurd hnone (Option.some_ne_none _)
    · obtain ⟨F, hF, rfl⟩ := Option.map_eq_some_iff.mp hput
      obtain ⟨F', l, hlen, hchain, hfragments, hspread⟩ := ih hmem
      refine ⟨F, F' :: l, by rw [List.length_cons, hlen], ?_, ?_, m, hm, hF⟩
      · exact List.isChain_cons_cons.mpr ⟨hspread, hchain⟩
      · intro x hx
        rcases List.mem_cons.mp hx with rfl | hx
        · exact List.mem_of_find?_eq_some hF
        · exact hfragments x hx

/-- **Nothing is left to put in** if the fragments have no cycle. -/
theorem expand_complete (hacyclic : Acyclic document) {selections : SelectionSet} {name : String}
    (h : name ∈ (expand document selections).spreadNames) : fragment? document name = none := by
  by_contra hne
  obtain ⟨G, hG⟩ := Option.ne_none_iff_exists'.mp hne
  obtain ⟨F, l, hlen, hchain, hfragments, -⟩ := exists_chain h hG
  have htrans : List.IsChain (Relation.TransGen (Spreads document)) (F :: l) :=
    hchain.imp fun _ _ => Relation.TransGen.single
  have hnodup : (F :: l).Nodup := (List.isChain_iff_pairwise.mp htrans).imp fun hab heq => by
    rw [heq] at hab
    exact hacyclic _ hab
  have hle := hnodup.length_le_of_subset hfragments
  have hfilter : (fragments document).length ≤ document.length := List.length_filterMap_le _ _
  rw [List.length_cons, hlen] at hle
  omega

end VestingDripStream.Backend.GraphQLDocument
