import VestingDripStream.Backend.GraphQLDocument

/-! # The complexity limit of GraphQL

`checkComplexity` adds up the fields of a document, ten for one of a list type. It passes over
inline fragments, counts a fragment once however often it is spread, and knows no types inside of
it. What an operation costs once its fragments are put in is therefore more than the score when what
is left out that way outweighs the other definitions (`score_covers_iff`). -/

namespace VestingDripStream.Backend.GraphQLComplexity

open VestingDripStream.Backend.GraphQLDocument

/-- `LIST_MULTIPLIER`. -/
def listMultiplier : ℕ := 10

/-- A type reference: a named type in any wrappers. -/
inductive GraphQLType
  | named (name : String)
  | list (ofType : GraphQLType)
  | nonNull (ofType : GraphQLType)

/-- A type of the schema, with `getFields` if it has any. -/
structure TypeObject where
  getFields : Option (List (String × GraphQLType))

/-- The part of a schema that the score looks at. -/
structure Schema where
  getType : String → Option TypeObject
  getQueryType : Option GraphQLType
  getMutationType : Option GraphQLType
  getSubscriptionType : Option GraphQLType

/-- `unwrapTypeName`: the name under all wrappers. -/
def unwrapTypeName : GraphQLType → String
  | .named name => name
  | .list ofType => unwrapTypeName ofType
  | .nonNull ofType => unwrapTypeName ofType

/-- `isListType`: a list under any number of non-null wrappers. -/
def isListType : GraphQLType → Bool
  | .named _ => false
  | .list _ => true
  | .nonNull ofType => isListType ofType

variable (schema : Option Schema)

/-- `fieldType`, `none` where it is unknown. -/
def fieldType (parentType : Option GraphQLType) (name : String) : Option GraphQLType := do
  let schema ← schema
  let parentType ← parentType
  let typeObj ← schema.getType (unwrapTypeName parentType)
  let fields ← typeObj.getFields
  fields.lookup name

/-- The cost of one field: `LIST_MULTIPLIER` for a list, one otherwise. -/
def fieldCost (parentType : Option GraphQLType) (name : String) : ℕ :=
  let isList := (fieldType schema parentType name).any isListType
  if isList then listMultiplier else 1

/-- What `walkSelections` adds to the score: only fields, and what is below them. -/
def walkSelections : Option GraphQLType → SelectionSet → ℕ
  | _, .nil => 0
  | parentType, .leaf name rest => fieldCost schema parentType name + walkSelections parentType rest
  | parentType, .field name selections rest =>
    fieldCost schema parentType name +
      walkSelections (fieldType schema parentType name) selections + walkSelections parentType rest
  | parentType, .inlineFragment _ _ rest => walkSelections parentType rest
  | parentType, .fragmentSpread _ rest => walkSelections parentType rest

/-- The type that the selections of an operation start from, if there is a schema. -/
def rootType (operation : OperationType) : Option GraphQLType :=
  schema.bind fun schema =>
    match operation with
    | .query => schema.getQueryType
    | .mutation => schema.getMutationType
    | .subscription => schema.getSubscriptionType

/-- What a definition adds to the score: fragments are walked without a type. -/
def definitionCost : Definition → ℕ
  | .operation o => walkSelections schema (rootType schema o.operation) o.selections
  | .fragment F => walkSelections schema none F.selections
  | .other => 0

/-- The score of a document, all its definitions taken together. -/
def totalCost (document : Document) : ℕ := (document.map (definitionCost schema)).sum

/-- `checkComplexity`: the score, or the message of the error. -/
def checkComplexity (document : Document) (maxComplexity : ℤ) : Except String ℕ :=
  let totalCost := totalCost schema document
  if maxComplexity < totalCost then
    .error s!"Query complexity {totalCost} exceeds maximum allowed complexity of {maxComplexity}"
  else .ok totalCost

/-! ### What an operation costs -/

/-- The type of the parent: that of a field below it, and inside of a fragment the type it is on. -/
def parents : Walk (Option GraphQLType) where
  enter := fieldType schema
  narrow parentType typeCondition :=
    match typeCondition with
    | some name => some (.named name)
    | none => parentType

/-- The cost of fields. -/
def cost (l : List (Option GraphQLType × String)) : ℕ :=
  (l.map fun f => fieldCost schema f.1 f.2).sum

/-- The cost of a selection set with its inline fragments; spreads are left out. -/
def selectionsCost (parentType : Option GraphQLType) (selections : SelectionSet) : ℕ :=
  cost schema (fields (parents schema) parentType selections)

/-- **The documented cost** of an operation, once the fragments are put in. -/
def operationCost (document : Document) (o : Operation) : ℕ :=
  selectionsCost schema (rootType schema o.operation) (expand document o.selections)

/-- What stands in inline fragments. -/
def inlineCost : Option GraphQLType → SelectionSet → ℕ
  | _, .nil => 0
  | parentType, .leaf _ rest => inlineCost parentType rest
  | parentType, .field name selections rest =>
    inlineCost (fieldType schema parentType name) selections + inlineCost parentType rest
  | parentType, .inlineFragment typeCondition selections rest =>
    selectionsCost schema ((parents schema).narrow parentType typeCondition) selections +
      inlineCost parentType rest
  | parentType, .fragmentSpread _ rest => inlineCost parentType rest

/-- What the fragments cost that an operation reaches, each as often as it does. -/
def spreadCost (document : Document) (o : Operation) : ℕ :=
  ((reached (parents schema) document (rootType schema o.operation) o.selections).map fun r =>
    selectionsCost schema r.1 r.2.selections).sum

/-! ### The score against the cost -/

variable {schema} {document : Document}

theorem cost_append (l l' : List (Option GraphQLType × String)) :
    cost schema (l ++ l') = cost schema l + cost schema l' := by
  unfold cost
  rw [List.map_append, List.sum_append]

theorem cost_cons (f : Option GraphQLType × String) (l : List (Option GraphQLType × String)) :
    cost schema (f :: l) = fieldCost schema f.1 f.2 + cost schema l := by
  unfold cost
  rw [List.map_cons, List.sum_cons]

theorem cost_flatMap {α : Type} (l : List α) (g : α → List (Option GraphQLType × String)) :
    cost schema (l.flatMap g) = (l.map fun a => cost schema (g a)).sum := by
  induction l with
  | nil => rfl
  | cons a l ih => rw [List.flatMap_cons, cost_append, ih, List.map_cons, List.sum_cons]

theorem cost_perm {l l' : List (Option GraphQLType × String)} (h : l.Perm l') :
    cost schema l = cost schema l' :=
  (h.map _).sum_eq

/-- The walk finds all but the inline fragments. -/
theorem selectionsCost_eq (parentType : Option GraphQLType) (selections : SelectionSet) :
    selectionsCost schema parentType selections =
      walkSelections schema parentType selections + inlineCost schema parentType selections := by
  unfold selectionsCost
  induction selections generalizing parentType with
  | nil => rfl
  | leaf name rest ih =>
    rw [fields, cost_cons, ih, walkSelections, inlineCost]
    dsimp only
    omega
  | field name selections rest ihs ihr =>
    have henter : (parents schema).enter parentType name = fieldType schema parentType name := rfl
    rw [fields, cost_cons, cost_append, ihs, ihr, walkSelections, inlineCost, henter]
    dsimp only
    omega
  | inlineFragment typeCondition selections rest _ ihr =>
    rw [fields, cost_append, ihr, walkSelections, inlineCost, selectionsCost]
    omega
  | fragmentSpread name rest ih => exact ih parentType

/-- **What an operation costs**: what the walk finds of it, what is in its inline fragments, and
what is behind its spreads. -/
theorem operationCost_eq (document : Document) (o : Operation) :
    operationCost schema document o = definitionCost schema (.operation o) +
      (inlineCost schema (rootType schema o.operation) o.selections +
        spreadCost schema document o) := by
  have hperm : (fields (parents schema) (rootType schema o.operation)
      (expand document o.selections)).Perm _ := fields_expand _ _
  have hown : selectionsCost schema (rootType schema o.operation) o.selections = _ :=
    selectionsCost_eq _ _
  have hspread : cost schema ((reached (parents schema) document (rootType schema o.operation)
      o.selections).flatMap fun r => fields (parents schema) r.1 r.2.selections) =
      spreadCost schema document o := cost_flatMap _ _
  unfold operationCost
  rw [selectionsCost, cost_perm hperm, cost_append, hspread, ← selectionsCost, hown, definitionCost]
  omega

theorem totalCost_split (before after : Document) (d : Definition) :
    totalCost schema (before ++ d :: after) =
      definitionCost schema d + totalCost schema (before ++ after) := by
  unfold totalCost
  rw [List.map_append, List.map_cons, List.sum_append, List.sum_cons, List.map_append,
    List.sum_append]
  omega

theorem checkComplexity_eq_ok {maxComplexity : ℤ} {score : ℕ}
    (h : checkComplexity schema document maxComplexity = .ok score) :
    score = totalCost schema document ∧ (score : ℤ) ≤ maxComplexity := by
  unfold checkComplexity at h
  dsimp only at h
  split_ifs at h with hover
  obtain rfl := Except.ok.inj h
  exact ⟨rfl, not_lt.mp hover⟩

/-- **The score** is not less than the cost of any operation, and no operation above the limit is
accepted, exactly if for each operation of the document what is in its inline fragments and behind
its spreads costs no more than what the walk finds of the other definitions. -/
theorem score_covers_iff (schema : Option Schema) (document : Document) :
    (∀ o, Definition.operation o ∈ document →
        operationCost schema document o ≤ totalCost schema document ∧
        ∀ (maxComplexity : ℤ) score, checkComplexity schema document maxComplexity = .ok score →
          operationCost schema document o ≤ maxComplexity) ↔
      ∀ before o after, document = before ++ .operation o :: after →
        inlineCost schema (rootType schema o.operation) o.selections +
          spreadCost schema document o ≤ totalCost schema (before ++ after) := by
  constructor
  · intro h before o after hsplit
    have hmem : Definition.operation o ∈ document := by
      rw [hsplit]
      exact List.mem_append_right _ List.mem_cons_self
    have hle := (h o hmem).1
    have htotal : totalCost schema document = _ :=
      (congrArg (totalCost schema) hsplit).trans (totalCost_split before after (.operation o))
    rw [operationCost_eq, htotal] at hle
    omega
  · intro h o ho
    obtain ⟨before, after, hsplit⟩ := List.append_of_mem ho
    have hle := h before o after hsplit
    have htotal : totalCost schema document = _ :=
      (congrArg (totalCost schema) hsplit).trans (totalCost_split before after (.operation o))
    have hcost : operationCost schema document o ≤ totalCost schema document := by
      rw [operationCost_eq, htotal]
      omega
    refine ⟨hcost, ?_⟩
    intro maxComplexity score hok
    obtain ⟨rfl, hscore⟩ := checkComplexity_eq_ok hok
    omega

/-- `query { ... on Query { a b } }`. -/
def inlineOnly : Document :=
  [.operation ⟨.query,
    .inlineFragment (some "Query") (.leaf "a" (.leaf "b" .nil)) .nil⟩]

/-- Nothing of it is counted. -/
theorem inlineOnly_uncovered : ¬ ∀ (schema : Option Schema) (document : Document),
    Acyclic document → ∀ o, Definition.operation o ∈ document →
      operationCost schema document o ≤ totalCost schema document := by
  intro hall
  have hacyclic : Acyclic inlineOnly := by
    refine acyclic_of_spreadNames fun F hF => ?_
    exact absurd hF List.not_mem_nil
  have hle := hall none inlineOnly hacyclic _ List.mem_cons_self
  exact absurd hle (by decide)

end VestingDripStream.Backend.GraphQLComplexity
