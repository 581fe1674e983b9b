import Mathlib.Data.List.Basic
import Mathlib.Tactic

/-! # Comma-separated values

A parser of RFC 4180: records are separated by line breaks, CRLF or LF alone, and fields by commas;
a quoted field may contain all of these, and quotes that are doubled. Quotes elsewhere and a CR
alone are errors. A writer that encodes each field so that the parser gets it back (`Encodes`) has
its records read as they were written (`parse_lines`). -/

namespace VestingDripStream.Lib.Csv

/-- Where the parser stands: at the start of a field, in one without quotes, in one with quotes,
behind a quote in such a field, or behind a CR. -/
inductive Mode
  | start
  | plain
  | quoted
  | closing
  | return
  deriving DecidableEq, Repr

/-- The parser: the field, the fields of the record, and the records so far. -/
structure State where
  mode : Mode := .start
  field : List Char := []
  record : List (List Char) := []
  records : List (List (List Char)) := []
  deriving DecidableEq, Repr

/-- The end of a record. -/
def State.endRecord (s : State) : State :=
  { records := s.records ++ [s.record ++ [s.field]] }

/-- What may follow a field; other characters are text, if the field may have more. -/
def delimiter (s : State) (c : Char) (text : Option State) : Option State :=
  if c = ',' then some { s with mode := .start, field := [], record := s.record ++ [s.field] }
  else if c = '\n' then some s.endRecord
  else if c = '\r' then some { s with mode := .return }
  else text

/-- One character; `none` is an error. -/
def step (s : State) (c : Char) : Option State :=
  match s.mode with
  | .start =>
    if c = '"' then some { s with mode := .quoted }
    else delimiter s c (some { s with mode := .plain, field := s.field ++ [c] })
  | .plain =>
    if c = '"' then none
    else delimiter s c (some { s with field := s.field ++ [c] })
  | .quoted =>
    if c = '"' then some { s with mode := .closing }
    else some { s with field := s.field ++ [c] }
  | .closing =>
    if c = '"' then some { s with mode := .quoted, field := s.field ++ [c] }
    else delimiter s c none
  | .return => if c = '\n' then some s.endRecord else none

/-- The end of the text: behind a line break there is no further record. -/
def finish (s : State) : Option (List (List (List Char))) :=
  match s.mode with
  | .start => some (if s.record = [] then s.records else s.endRecord.records)
  | .plain | .closing => some s.endRecord.records
  | .quoted | .return => none

/-- The records of a text. -/
def parse (l : List Char) : Option (List (List (List Char))) := (l.foldlM step {}).bind finish

/-- The parser may be behind a field with this text. -/
def Behind (field : List Char) (mode : Mode) : Prop :=
  mode = .plain ∨ mode = .closing ∨ (mode = .start ∧ field = [])

/-- From the start of a field on, the parser gets `field` out of `cell`. -/
def Encodes (cell field : List Char) : Prop :=
  ∃ mode, Behind field mode ∧ ∀ record records,
    cell.foldlM step ⟨.start, [], record, records⟩ = some ⟨mode, field, record, records⟩

/-! ### Fields -/

/-- Quotes doubled. -/
def escape (field : List Char) : List Char :=
  field.flatMap fun c => if c = '"' then ['"', '"'] else [c]

theorem foldlM_escape (field : List Char) (s : State) (hs : s.mode = .quoted) :
    (escape field).foldlM step s = some { s with field := s.field ++ field } := by
  obtain ⟨mode, text, record, records⟩ := s
  obtain rfl : mode = .quoted := hs
  induction field generalizing text with
  | nil => simp [escape]
  | cons c field ih =>
    have hcons : escape (c :: field) = (if c = '"' then ['"', '"'] else [c]) ++ escape field := rfl
    have hfirst : (if c = '"' then ['"', '"'] else [c]).foldlM step
        ⟨.quoted, text, record, records⟩ = some ⟨.quoted, text ++ [c], record, records⟩ := by
      by_cases hc : c = '"'
      · rw [if_pos hc, hc]
        rfl
      · have hstep : step ⟨.quoted, text, record, records⟩ c =
            some ⟨.quoted, text ++ [c], record, records⟩ := if_neg hc
        rw [if_neg hc, List.foldlM_cons, hstep]
        rfl
    rw [hcons, List.foldlM_append, hfirst]
    show (escape field).foldlM step _ = _
    rw [ih]
    simp

/-- **A quoted field.** -/
theorem encodes_quoted (field : List Char) : Encodes ('"' :: escape field ++ ['"']) field := by
  refine ⟨.closing, Or.inr (Or.inl rfl), fun record records => ?_⟩
  rw [List.cons_append, List.foldlM_cons]
  show (escape field ++ ['"']).foldlM step ⟨.quoted, [], record, records⟩ = _
  rw [List.foldlM_append, foldlM_escape field _ rfl]
  rfl

/-- A character that needs no quotes around it. -/
def IsText (c : Char) : Prop := c ≠ '"' ∧ c ≠ ',' ∧ c ≠ '\n' ∧ c ≠ '\r'

theorem delimiter_of_isText {s : State} {c : Char} {text : Option State} (h : IsText c) :
    delimiter s c text = text := by
  obtain ⟨-, hcomma, hlf, hcr⟩ := h
  unfold delimiter
  rw [if_neg hcomma, if_neg hlf, if_neg hcr]

theorem foldlM_text {field : List Char} (h : ∀ c ∈ field, IsText c) (text : List Char)
    (record : List (List Char)) (records : List (List (List Char))) :
    field.foldlM step ⟨.plain, text, record, records⟩ =
      some ⟨.plain, text ++ field, record, records⟩ := by
  induction field generalizing text with
  | nil => simp
  | cons c field ih =>
    have hc := h c List.mem_cons_self
    have hstep : step ⟨.plain, text, record, records⟩ c =
        some ⟨.plain, text ++ [c], record, records⟩ := by
      unfold step
      simp only [if_neg hc.1, delimiter_of_isText hc]
    rw [List.foldlM_cons, hstep]
    show field.foldlM step _ = _
    rw [ih fun c' hc' => h c' (List.mem_cons_of_mem c hc')]
    simp

/-- **A field without quotes.** -/
theorem encodes_text {field : List Char} (h : ∀ c ∈ field, IsText c) : Encodes field field := by
  cases field with
  | nil => exact ⟨.start, Or.inr (Or.inr ⟨rfl, rfl⟩), fun _ _ => rfl⟩
  | cons c field =>
    have hc := h c List.mem_cons_self
    refine ⟨.plain, Or.inl rfl, fun record records => ?_⟩
    have hstep : step ⟨.start, [], record, records⟩ c = some ⟨.plain, [c], record, records⟩ := by
      unfold step
      simp only [if_neg hc.1, delimiter_of_isText hc, List.nil_append]
    rw [List.foldlM_cons, hstep]
    exact foldlM_text (fun c' hc' => h c' (List.mem_cons_of_mem c hc')) [c] record records

/-! ### Lines -/

theorem step_comma {mode : Mode} {field : List Char} (h : Behind field mode)
    (record : List (List Char)) (records : List (List (List Char))) :
    step ⟨mode, field, record, records⟩ ',' = some ⟨.start, [], record ++ [field], records⟩ := by
  rcases h with rfl | rfl | ⟨rfl, -⟩ <;> rfl

theorem step_newline {mode : Mode} {field : List Char} (h : Behind field mode)
    (record : List (List Char)) (records : List (List (List Char))) :
    step ⟨mode, field, record, records⟩ '\n' =
      some ⟨.start, [], [], records ++ [record ++ [field]]⟩ := by
  rcases h with rfl | rfl | ⟨rfl, -⟩ <;> rfl

section Lines

variable {α : Type*} {cell field : α → List Char}

/-- **A line**: the parser is behind its last field. -/
theorem foldlM_line (h : ∀ a, Encodes (cell a) (field a)) (a : α) (row : List α)
    (record : List (List Char)) (records : List (List (List Char))) :
    ∃ mode, Behind (field ((a :: row).getLast (List.cons_ne_nil a row))) mode ∧
      ([','].intercalate ((a :: row).map cell)).foldlM step ⟨.start, [], record, records⟩ =
        some ⟨mode, field ((a :: row).getLast (List.cons_ne_nil a row)),
          record ++ (a :: row).dropLast.map field, records⟩ := by
  induction row generalizing a record with
  | nil =>
    obtain ⟨mode, hbehind, hread⟩ := h a
    refine ⟨mode, hbehind, ?_⟩
    rw [List.map_singleton, List.intercalate_singleton, hread]
    simp
  | cons b row ih =>
    obtain ⟨first, hfirst, hread⟩ := h a
    obtain ⟨mode, hbehind, hrest⟩ := ih b (record ++ [field a])
    refine ⟨mode, hbehind, ?_⟩
    rw [List.map_cons, List.map_cons, List.intercalate_cons_cons, List.foldlM_append,
      List.foldlM_append, hread]
    show ((step _ ',').bind fun s => some s).bind _ = _
    rw [step_comma hfirst]
    show (List.foldlM step _ _ : Option State) = _
    rw [← List.map_cons, hrest]
    simp

/-- The lines of the rows. -/
def lines (cell : α → List Char) (rows : List (List α)) : List Char :=
  ['\n'].intercalate (rows.map fun row => [','].intercalate (row.map cell))

/-- A row of two fields or more ends a text, or is followed by a line break. -/
theorem foldlM_row (h : ∀ a, Encodes (cell a) (field a)) {row : List α} (hrow : 2 ≤ row.length)
    (records : List (List (List Char))) : ∃ s,
    ([','].intercalate (row.map cell)).foldlM step ⟨.start, [], [], records⟩ = some s ∧
      finish s = some (records ++ [row.map field]) ∧
      step s '\n' = some ⟨.start, [], [], records ++ [row.map field]⟩ := by
  cases row with
  | nil => exact absurd hrow (by simp)
  | cons a row =>
    obtain ⟨mode, hbehind, hread⟩ := foldlM_line h a row [] records
    have hfields : (a :: row).dropLast.map field ++
        [field ((a :: row).getLast (List.cons_ne_nil a row))] = (a :: row).map field := by
      rw [← List.map_singleton (f := field), ← List.map_append, List.dropLast_append_getLast]
    have hmore : (a :: row).dropLast.map field ≠ [] := by
      intro hnil
      have hlen := congrArg List.length hnil
      simp only [List.length_map, List.length_dropLast, List.length_nil] at hlen
      omega
    refine ⟨_, hread, ?_, ?_⟩
    · have hend : records ++ [(a :: row).dropLast.map field ++
          [field ((a :: row).getLast (List.cons_ne_nil a row))]] =
          records ++ [(a :: row).map field] := by rw [hfields]
      rw [List.nil_append]
      rcases hbehind with rfl | rfl | ⟨rfl, -⟩
      · exact congrArg some hend
      · exact congrArg some hend
      · -- the last field is empty
        unfold finish
        simp only [if_neg hmore]
        exact congrArg some hend
    · rw [step_newline hbehind, List.nil_append, hfields]

theorem foldlM_lines (h : ∀ a, Encodes (cell a) (field a)) {rows : List (List α)} {row : List α}
    (hrows : ∀ r ∈ row :: rows, 2 ≤ r.length) (records : List (List (List Char))) :
    ((lines cell (row :: rows)).foldlM step ⟨.start, [], [], records⟩).bind finish =
      some (records ++ (row :: rows).map fun r => r.map field) := by
  induction rows generalizing row records with
  | nil =>
    obtain ⟨s, hread, hend, -⟩ := foldlM_row h (hrows row List.mem_cons_self) records
    unfold lines
    rw [List.map_singleton, List.intercalate_singleton, hread]
    exact hend
  | cons next rows ih =>
    obtain ⟨s, hread, -, hbreak⟩ := foldlM_row h (hrows row List.mem_cons_self) records
    have hrest := ih (fun r hr => hrows r (List.mem_cons_of_mem row hr))
      (records ++ [row.map field])
    have hsplit : lines cell (row :: next :: rows) =
        [','].intercalate (row.map cell) ++ '\n' :: lines cell (next :: rows) := by
      unfold lines
      rw [List.map_cons, List.map_cons, List.intercalate_cons_cons, List.append_assoc]
      rfl
    rw [hsplit, List.foldlM_append, hread]
    show (('\n' :: lines cell (next :: rows)).foldlM step s).bind finish = _
    rw [List.foldlM_cons, hbreak]
    show ((lines cell (next :: rows)).foldlM step _).bind finish = _
    rw [hrest, List.map_cons, List.append_assoc]
    rfl

/-- **The round trip**: the parser reads the rows as they were written. -/
theorem parse_lines (h : ∀ a, Encodes (cell a) (field a)) {rows : List (List α)}
    (hrows : ∀ row ∈ rows, 2 ≤ row.length) :
    parse (lines cell rows) = some (rows.map fun row => row.map field) := by
  cases rows with
  | nil => rfl
  | cons row rows => exact foldlM_lines h hrows []

/-- Rows that each end with a line break. -/
theorem parse_terminated (h : ∀ a, Encodes (cell a) (field a)) {rows : List (List α)}
    (hrows : ∀ row ∈ rows, 2 ≤ row.length) :
    parse (rows.flatMap fun row => [','].intercalate (row.map cell) ++ ['\n']) =
      some (rows.map fun row => row.map field) := by
  have hread : ∀ records : List (List (List Char)),
      (rows.flatMap fun row => [','].intercalate (row.map cell) ++ ['\n']).foldlM step
        ⟨.start, [], [], records⟩ =
        some ⟨.start, [], [], records ++ rows.map fun row => row.map field⟩ := by
    induction rows with
    | nil =>
      intro records
      rw [List.map_nil, List.append_nil]
      rfl
    | cons row rows ih =>
      intro records
      obtain ⟨s, hline, -, hbreak⟩ := foldlM_row h (hrows row List.mem_cons_self) records
      have hrest := ih (fun r hr => hrows r (List.mem_cons_of_mem row hr))
        (records ++ [row.map field])
      rw [List.flatMap_cons, List.foldlM_append, List.foldlM_append, hline]
      show ((step s '\n').bind fun s' => some s').bind _ = _
      rw [hbreak]
      show List.foldlM step _ _ = _
      rw [hrest, List.map_cons, List.append_assoc]
      rfl
  unfold parse
  rw [hread]
  rfl

end Lines

section Strings

variable {α : Type*} {write field : α → String}

/-- **The round trip** of strings. -/
theorem parse_join (h : ∀ a, Encodes (write a).toList (field a).toList) {rows : List (List α)}
    (hrows : ∀ row ∈ rows, 2 ≤ row.length) :
    parse ("\n".intercalate (rows.map fun row => ",".intercalate (row.map write))).toList =
      some (rows.map fun row => row.map fun a => (field a).toList) := by
  rw [← parse_lines h hrows, lines, String.toList_intercalate, List.map_map]
  congr 3
  funext row
  rw [Function.comp_apply, String.toList_intercalate, List.map_map]
  rfl

theorem parse_join_terminated (h : ∀ a, Encodes (write a).toList (field a).toList)
    {rows : List (List α)} (hrows : ∀ row ∈ rows, 2 ≤ row.length) :
    parse (String.join (rows.map fun row => ",".intercalate (row.map write) ++ "\n")).toList =
      some (rows.map fun row => row.map fun a => (field a).toList) := by
  rw [← parse_terminated h hrows, String.toList_join, List.flatMap_map]
  congr 2
  funext row
  rw [String.toList_append, String.toList_intercalate, List.map_map]
  rfl

end Strings

end VestingDripStream.Lib.Csv
