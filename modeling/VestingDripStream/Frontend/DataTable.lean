import Mathlib.Order.WithBot
import VestingDripStream.Lib.Chunks
import VestingDripStream.Lib.StableSort

/-! # The data table

`DataTable.tsx` sorts its rows by a column and shows them in pages. Cells that are blank come last
in both directions. A cell with a text that is no number (or no date) comes behind the others as
well, but that comparison is turned around with the direction: in descending order such rows come
first (`displayed_iff`).

What JavaScript makes of a text is a parameter (`Host`); its numbers other than `NaN` are a linear
order `D`, in which `0` and `-0` are one. -/

namespace VestingDripStream.Frontend.DataTable

open VestingDripStream.Lib.Chunks VestingDripStream.Lib.StableSort

/-- `SortDirection`. -/
inductive SortDirection
  | asc
  | desc
  deriving DecidableEq, Repr

/-- `SortType`: how the values of a column are compared. -/
inductive SortType
  | string
  | number
  | date
  deriving DecidableEq, Repr

/-- A cell that is not blank; `NaN`, and the time of an invalid date, are `none`. -/
inductive CellValue (D : Type)
  | string (text : String)
  | number (n : Option D)
  | date (time : Option D)
  deriving DecidableEq

/-- `null` and `undefined` are `none`: `isBlank` makes no difference between them. -/
abbrev DataTableValue (D : Type) : Type := Option (CellValue D)

/-- The conversions of the language. -/
structure Host (D : Type) where
  /-- `Number(text)`. -/
  number : String → Option D
  /-- `new Date(text).getTime()`. -/
  time : String → Option D
  /-- `String(a).localeCompare(String(b), ...)`. -/
  localeCompare : CellValue D → CellValue D → ℤ

/-- `DataTableColumn`, as far as sorting goes. -/
structure DataTableColumn (T D : Type) where
  key : String
  sortType : Option SortType
  sortValue : Option (T → DataTableValue D)

/-- `DataTableSort`: the column and the direction that were asked for. -/
structure DataTableSort where
  key : String
  direction : SortDirection

variable {T D : Type} [LinearOrder D] (host : Host D)

/-- `Number`. -/
def toNumber : CellValue D → Option D
  | .string text => host.number text
  | .number n => n
  | .date time => time

/-- `new Date(value).getTime()`. -/
def toTime : CellValue D → Option D
  | .date time => time
  | .number n => n
  | .string text => host.time text

/-- The comparison of numbers, with `NaN` behind them. -/
def compareNumbers : Option D → Option D → ℤ
  | none, none => 0
  | none, some _ => 1
  | some _, none => -1
  | some left, some right => if left = right then 0 else if left < right then -1 else 1

/-- `compareValues`: a blank value comes behind any other. -/
def compareValues (type : SortType) : DataTableValue D → DataTableValue D → ℤ
  | none, none => 0
  | none, some _ => 1
  | some _, none => -1
  | some a, some b =>
    match type with
    | .number => compareNumbers (toNumber host a) (toNumber host b)
    | .date => compareNumbers (toTime host a) (toTime host b)
    | .string => host.localeCompare a b

/-- `cellValue`: a column without `sortValue` has blank cells. -/
def cellValue (column : DataTableColumn T D) (row : T) : DataTableValue D :=
  match column.sortValue with
  | some sortValue => sortValue row
  | none => none

/-- The comparator of `sortRows`. -/
def compareRows (column : DataTableColumn T D) (direction : SortDirection) (left right : T) : ℤ :=
  let sign := if direction = .asc then 1 else -1
  match cellValue column left, cellValue column right with
  | none, none => 0
  | none, some _ => 1
  | some _, none => -1
  | some a, some b => sign * compareValues host (column.sortType.getD .string) (some a) (some b)

/-- `sortRows`: a stable sort of a copy. -/
def sortRows (rows : List T) (column : DataTableColumn T D) (direction : SortDirection) : List T :=
  sort (compareRows host column direction) rows

/-- `sortedRows`: as they come, unless a column of the table is asked for. -/
def sortedRows (columns : List (DataTableColumn T D)) (requested : Option DataTableSort)
    (rows : List T) : List T :=
  match requested with
  | none => rows
  | some requested =>
    match columns.find? fun candidate => candidate.key = requested.key with
    | none => rows
    | some column => sortRows host rows column requested.direction

/-- `total` is that of `pagination`, if the pages come from a server. -/
def totalPages (total : Option ℕ) (sorted : List T) (pageSize : ℕ) : ℕ :=
  let totalRows := total.getD sorted.length
  -- rounded up
  max 1 ((totalRows + pageSize - 1) / pageSize)

/-- `visibleRows`: with a `total` the server has cut the page already. -/
def visibleRows (total : Option ℕ) (sorted : List T) (pageSize page : ℕ) : List T :=
  let currentPage := min page (totalPages total sorted pageSize)
  if total = none then sorted.extract ((currentPage - 1) * pageSize) (currentPage * pageSize)
  else sorted

/-- The visible rows of the pages from 1 to `totalPages`. -/
def allPages (sorted : List T) (pageSize : ℕ) : List T :=
  (List.range (totalPages none sorted pageSize)).flatMap fun k =>
    visibleRows none sorted pageSize (k + 1)

/-! ### Pages -/

theorem visibleRows_eq_chunk {sorted : List T} {pageSize k : ℕ}
    (h : k < totalPages none sorted pageSize) :
    visibleRows none sorted pageSize (k + 1) = chunk pageSize k sorted := by
  have hpage : min (k + 1) (totalPages none sorted pageSize) = k + 1 := by omega
  unfold visibleRows chunk
  dsimp only
  rw [if_pos rfl, hpage, Nat.add_sub_cancel, List.extract_eq_take_drop, Nat.succ_mul,
    Nat.add_sub_cancel_left]

/-- The pages are enough for all rows. -/
theorem length_le_pages {pageSize : ℕ} (hsize : 0 < pageSize) (sorted : List T) :
    sorted.length ≤ totalPages none sorted pageSize * pageSize := by
  have hdiv := Nat.lt_div_mul_add (a := sorted.length + pageSize - 1) hsize
  have hmax : (sorted.length + pageSize - 1) / pageSize ≤ totalPages none sorted pageSize :=
    le_max_right _ _
  have hmul := Nat.mul_le_mul_right pageSize hmax
  omega

/-- **The pages one after the other** are the rows. -/
theorem allPages_eq {pageSize : ℕ} (hsize : 0 < pageSize) (sorted : List T) :
    allPages sorted pageSize = sorted := by
  have hchunks : allPages sorted pageSize = (List.range (totalPages none sorted pageSize)).flatMap
      fun k => chunk pageSize k sorted :=
    List.flatMap_congr fun k hk => visibleRows_eq_chunk (List.mem_range.mp hk)
  rw [hchunks, flatMap_chunk, List.take_of_length_le (length_le_pages hsize sorted)]

/-! ### Comparisons -/

/-- The number or the time of a cell. -/
def numeric (type : SortType) (value : CellValue D) : Option D :=
  match type with
  | .number => toNumber host value
  | .date => toTime host value
  | .string => none

/-- The value of a cell that is neither blank nor unparseable. -/
def comparable (type : SortType) (value : DataTableValue D) : Option D :=
  value.bind (numeric host type)

/-- What is not a number stands above the numbers. -/
def above {K : Type} : Option K → WithTop K
  | none => ⊤
  | some x => x

theorem compareNumbers_eq (left right : Option D) :
    compareNumbers left right = order (above left) (above right) := by
  unfold compareNumbers order above
  rcases left with _ | left <;> rcases right with _ | right <;> simp

theorem compareValues_some {type : SortType} (htype : type ≠ .string) (a b : CellValue D) :
    compareValues host type (some a) (some b) =
      order (above (numeric host type a)) (above (numeric host type b)) := by
  rw [← compareNumbers_eq]
  cases type with
  | string => exact absurd rfl htype
  | number => rfl
  | date => rfl

/-- The place of a cell in ascending order. -/
def ascKey (type : SortType) (value : DataTableValue D) : WithTop (WithTop D) :=
  above (value.map fun v => above (numeric host type v))

/-- The place of a cell in descending order. -/
def descKey (type : SortType) (value : DataTableValue D) : WithTop (WithTop D)ᵒᵈ :=
  above (value.map fun v => OrderDual.toDual (above (numeric host type v)))

theorem order_coe {K : Type} [LinearOrder K] (x y : K) :
    order (x : WithTop K) (y : WithTop K) = order x y := by
  unfold order
  simp only [WithTop.coe_inj, WithTop.coe_lt_coe]

/-- **`compareValues` is a total preorder** on numbers and dates. -/
theorem compareValues_eq {type : SortType} (htype : type ≠ .string) (a b : DataTableValue D) :
    compareValues host type a b = order (ascKey host type a) (ascKey host type b) := by
  rcases a with _ | a <;> rcases b with _ | b
  · rfl
  · simp [compareValues, ascKey, above, order]
  · simp [compareValues, ascKey, above, order]
  · rw [compareValues_some host htype, ← order_coe]
    rfl

theorem consistent_compareValues {type : SortType} (htype : type ≠ .string) :
    Consistent (compareValues host type) :=
  Consistent.of_key (compareValues_eq host htype)

section Column

variable {host} {column : DataTableColumn T D} {type : SortType} {rows : List T}

/-- Ascending, the rows are in the order of the values. -/
theorem compareRows_asc (htype : column.sortType = some type) (hnum : type ≠ .string) (r r' : T) :
    compareRows host column .asc r r' =
      order (ascKey host type (cellValue column r)) (ascKey host type (cellValue column r')) := by
  rw [← compareValues_eq host hnum]
  unfold compareRows
  rw [htype]
  dsimp only
  rw [if_pos rfl, Option.getD_some]
  split <;> simp_all [compareValues]

/-- Descending, the comparison of values is turned around, and not that of blanks. -/
theorem compareRows_desc (htype : column.sortType = some type) (hnum : type ≠ .string) (r r' : T) :
    compareRows host column .desc r r' =
      order (descKey host type (cellValue column r)) (descKey host type (cellValue column r')) := by
  unfold compareRows
  rw [htype]
  dsimp only
  rw [if_neg (by decide), Option.getD_some]
  rcases cellValue column r with _ | a <;> rcases cellValue column r' with _ | b
  · rfl
  · simp [descKey, above, order]
  · simp [descKey, above, order]
  · dsimp only
    rw [compareValues_some host hnum, neg_one_mul, ← order_swap, ← order_toDual]
    exact (order_coe _ _).symm

/-- **The comparator of the rows** is a total preorder. -/
theorem consistent_compareRows (host : Host D) (htype : column.sortType = some type)
    (hnum : type ≠ .string) (direction : SortDirection) :
    Consistent (compareRows host column direction) := by
  cases direction with
  | asc => exact Consistent.of_key (compareRows_asc htype hnum)
  | desc => exact Consistent.of_key (compareRows_desc htype hnum)

end Column

/-! ### What is shown -/

/-- The chosen order of two values. -/
def SortDirection.Le (direction : SortDirection) (x y : D) : Prop :=
  match direction with
  | .asc => x ≤ y
  | .desc => y ≤ x

/-- The rows that are shown are those of the table, the comparable ones in the chosen order and the
others behind them. -/
structure Displayed (host : Host D) (type : SortType) (direction : SortDirection)
    (value : T → DataTableValue D) (rows shown : List T) : Prop where
  perm : shown.Perm rows
  ordered : shown.Pairwise fun r r' => ∀ x y, comparable host type (value r) = some x →
    comparable host type (value r') = some y → direction.Le x y
  last : shown.Pairwise fun r r' => comparable host type (value r) = none →
    comparable host type (value r') = none

/-- A cell that is not blank and does not parse. -/
def Unparseable (host : Host D) (type : SortType) (value : DataTableValue D) : Prop :=
  value ≠ none ∧ comparable host type value = none

section Shown

variable {host} {column : DataTableColumn T D} {type : SortType} {rows : List T}

omit [LinearOrder D] in
theorem ascKey_of_comparable {v : DataTableValue D} {x : D} (h : comparable host type v = some x) :
    ascKey host type v = ((x : WithTop D) : WithTop (WithTop D)) := by
  obtain ⟨cell, rfl, hx⟩ := Option.bind_eq_some_iff.mp h
  unfold ascKey
  rw [Option.map_some, hx]
  rfl

omit [LinearOrder D] in
theorem descKey_of_some {v : DataTableValue D} (h : v ≠ none) : descKey host type v =
    ((OrderDual.toDual (above (comparable host type v)) : (WithTop D)ᵒᵈ) :
      WithTop (WithTop D)ᵒᵈ) := by
  obtain ⟨cell, rfl⟩ := Option.ne_none_iff_exists'.mp h
  rfl

omit [LinearOrder D] in
theorem ne_none_of_comparable {v : DataTableValue D} {x : D} (h : comparable host type v = some x) :
    v ≠ none := by
  rintro rfl
  exact Option.some_ne_none x h.symm

/-- What is not comparable is above all values. -/
theorem top_le_ascKey {v : DataTableValue D} :
    ((⊤ : WithTop D) : WithTop (WithTop D)) ≤ ascKey host type v ↔
      comparable host type v = none := by
  rcases v with _ | cell
  · exact iff_of_true le_top rfl
  · unfold ascKey comparable
    rw [Option.map_some, Option.bind_some]
    rcases numeric host type cell with _ | x
    · exact iff_of_true le_rfl rfl
    · refine iff_of_false ?_ (Option.some_ne_none x)
      exact fun hle => WithTop.coe_ne_top (top_le_iff.mp (WithTop.coe_le_coe.mp hle))

omit [LinearOrder D] in
/-- Only blank cells are above the others in descending order. -/
theorem descKey_eq_top_iff {v : DataTableValue D} : descKey host type v = ⊤ ↔ v = none := by
  rcases v with _ | cell
  · exact iff_of_true rfl rfl
  · exact iff_of_false WithTop.coe_ne_top (Option.some_ne_none cell)

/-- Ascending, the sorted rows are as they should be. -/
theorem displayed_asc (htype : column.sortType = some type) (hnum : type ≠ .string)
    (rows : List T) :
    Displayed host type .asc (cellValue column) rows (sortRows host rows column .asc) := by
  have hsort := isSort_sort (consistent_compareRows host htype hnum .asc) rows
  have hkeys : ∀ {r r'}, compareRows host column .asc r r' ≤ 0 →
      ascKey host type (cellValue column r) ≤ ascKey host type (cellValue column r') := by
    intro r r' h
    rw [compareRows_asc htype hnum] at h
    exact order_nonpos_iff.mp h
  refine ⟨hsort.perm, hsort.sorted.imp ?_, hsort.sorted.imp ?_⟩
  · intro r r' h x y hx hy
    have hle := hkeys h
    rw [ascKey_of_comparable hx, ascKey_of_comparable hy] at hle
    exact WithTop.coe_le_coe.mp (WithTop.coe_le_coe.mp hle)
  · intro r r' h hr
    exact top_le_ascKey.mp ((top_le_ascKey.mpr hr).trans (hkeys h))

/-- Descending, they are so unless a cell that does not parse meets one that does. -/
theorem displayed_desc (htype : column.sortType = some type) (hnum : type ≠ .string)
    (h : (∀ r ∈ rows, ¬ Unparseable host type (cellValue column r)) ∨
      ∀ r ∈ rows, comparable host type (cellValue column r) = none) :
    Displayed host type .desc (cellValue column) rows (sortRows host rows column .desc) := by
  have hsort := isSort_sort (consistent_compareRows host htype hnum .desc) rows
  have hkeys : ∀ {r r'}, compareRows host column .desc r r' ≤ 0 →
      descKey host type (cellValue column r) ≤ descKey host type (cellValue column r') := by
    intro r r' h
    rw [compareRows_desc htype hnum] at h
    exact order_nonpos_iff.mp h
  refine ⟨hsort.perm, hsort.sorted.imp ?_, hsort.sorted.imp_of_mem ?_⟩
  · intro r r' hle x y hx hy
    have hle := hkeys hle
    rw [descKey_of_some (ne_none_of_comparable hx), descKey_of_some (ne_none_of_comparable hy), hx,
      hy] at hle
    exact WithTop.coe_le_coe.mp (OrderDual.toDual_le_toDual.mp (WithTop.coe_le_coe.mp hle))
  · intro r r' hmem hmem' hle hr
    rcases h with h | h
    · have hblank : cellValue column r = none := by
        by_contra hne
        exact h r (hsort.perm.mem_iff.mp hmem) ⟨hne, hr⟩
      have htop := hkeys hle
      rw [descKey_eq_top_iff.mpr hblank] at htop
      rw [descKey_eq_top_iff.mp (top_le_iff.mp htop)]
      rfl
    · exact h r' (hsort.perm.mem_iff.mp hmem')

/-- An unparseable cell comes before a comparable one in descending order. -/
theorem compareRows_unparseable (htype : column.sortType = some type) (hnum : type ≠ .string)
    {r r' : T} (hr : Unparseable host type (cellValue column r)) {x : D}
    (hx : comparable host type (cellValue column r') = some x) :
    0 < compareRows host column .desc r' r := by
  by_contra hle
  rw [compareRows_desc htype hnum, not_lt, order_nonpos_iff,
    descKey_of_some (ne_none_of_comparable hx), descKey_of_some hr.1, hx, hr.2] at hle
  have htop := OrderDual.toDual_le_toDual.mp (WithTop.coe_le_coe.mp hle)
  exact WithTop.coe_ne_top (top_le_iff.mp htop)

/-- **What goes wrong**: such rows are not behind the others. -/
theorem not_displayed (htype : column.sortType = some type) (hnum : type ≠ .string) {r r' : T}
    (hmem : r ∈ rows) (hmem' : r' ∈ rows) (hr : Unparseable host type (cellValue column r))
    {x : D} (hx : comparable host type (cellValue column r') = some x) :
    ¬ Displayed host type .desc (cellValue column) rows (sortRows host rows column .desc) := by
  intro h
  have hsort := isSort_sort (consistent_compareRows host htype hnum .desc) rows
  have hpositive := compareRows_unparseable htype hnum hr hx
  have hne : r ≠ r' := by
    rintro rfl
    exact Option.some_ne_none x (hx.symm.trans hr.2)
  -- one of the two rows is in front of the other
  rcases rel_or_rel (hsort.sorted.and h.last) (hsort.perm.mem_iff.mpr hmem)
    (hsort.perm.mem_iff.mpr hmem') hne with ⟨-, hlast⟩ | ⟨hle, -⟩
  · exact Option.some_ne_none x (hx.symm.trans (hlast hr.2))
  · omega

end Shown

/-- **The table**: sorted by a column of numbers or dates, its pages show the rows as they should
exactly if it is ascending, or every cell parses that is not blank, or none does. The comparison of
values is a total preorder, and every stable sorting algorithm gives the same rows. -/
theorem displayed_iff (host : Host D) (columns : List (DataTableColumn T D))
    (requested : DataTableSort) (rows : List T) (pageSize : ℕ) (column : DataTableColumn T D)
    (type : SortType) (hsize : 0 < pageSize)
    (hfind : (columns.find? fun candidate => candidate.key = requested.key) = some column)
    (htype : column.sortType = some type) (hnum : type ≠ .string) :
    (Displayed host type requested.direction (cellValue column) rows
        (allPages (sortedRows host columns (some requested) rows) pageSize) ↔
      requested.direction = .asc ∨
        (∀ r ∈ rows, ¬ Unparseable host type (cellValue column r)) ∨
        ∀ r ∈ rows, comparable host type (cellValue column r) = none) ∧
    Consistent (compareValues host type) ∧
    ∀ out, IsSort (compareRows host column requested.direction) rows out →
      allPages (sortedRows host columns (some requested) rows) pageSize = out := by
  have hrows : sortedRows host columns (some requested) rows =
      sortRows host rows column requested.direction := by
    unfold sortedRows
    dsimp only
    rw [hfind]
  rw [allPages_eq hsize, hrows]
  have hconsistent := consistent_compareRows host htype hnum requested.direction
  refine ⟨?_, consistent_compareValues host hnum, fun out hout =>
    (isSort_sort hconsistent rows).unique hconsistent hout⟩
  cases hdirection : requested.direction with
  | asc => exact iff_of_true (displayed_asc htype hnum rows) (Or.inl rfl)
  | desc =>
    constructor
    · intro h
      right
      by_contra hboth
      push Not at hboth
      obtain ⟨⟨r, hmem, hr⟩, r', hmem', hr'⟩ := hboth
      obtain ⟨x, hx⟩ := Option.ne_none_iff_exists'.mp hr'
      exact not_displayed htype hnum hmem hmem' hr hx h
    · rintro (h | h)
      · cases h
      · exact displayed_desc htype hnum h

/-- A host whose texts are no numbers. -/
def words : Host ℕ where
  number _ := none
  time _ := none
  localeCompare _ _ := 0

/-- One column of numbers, whose cells are the rows themselves. -/
def amounts : DataTableColumn (DataTableValue ℕ) ℕ := ⟨"amount", some .number, some id⟩

theorem displayed_iff_sample :
    (Displayed words .number .asc (cellValue amounts) [some (.number (some 2)), none]
        (allPages (sortedRows words [amounts] (some ⟨"amount", .asc⟩)
          [some (.number (some 2)), none]) 10) ↔
      SortDirection.asc = .asc ∨
        (∀ r ∈ [some (.number (some 2)), none], ¬ Unparseable words .number (cellValue amounts r)) ∨
        ∀ r ∈ [some (.number (some 2)), none],
          comparable words .number (cellValue amounts r) = none) ∧
    Consistent (compareValues words .number) ∧
    ∀ out, IsSort (compareRows words amounts .asc) [some (.number (some 2)), none] out →
      allPages (sortedRows words [amounts] (some ⟨"amount", .asc⟩)
        [some (.number (some 2)), none]) 10 = out :=
  displayed_iff words [amounts] ⟨"amount", .asc⟩ [some (.number (some 2)), none] 10 amounts .number
    (by decide) (by simp [amounts]) rfl (by decide)

/-- A number and a text that is none, descending: the text comes first. -/
theorem unparseable_first :
    sortRows words [some (.number (some 2)), some (.string "abc")] amounts .desc =
        [some (.string "abc"), some (.number (some 2))] ∧
      ¬ ∀ (rows : List (DataTableValue ℕ)) (direction : SortDirection),
        Displayed words .number direction (cellValue amounts) rows
          (allPages (sortedRows words [amounts] (some ⟨"amount", direction⟩) rows) 10) := by
  have hrows : sortRows words [some (.number (some 2)), some (.string "abc")] amounts .desc =
      [some (.string "abc"), some (.number (some 2))] := by
    have hcompare : compareRows words amounts .desc (some (.number (some 2)))
        (some (.string "abc")) = 1 := by decide
    simp [sortRows, sort, List.mergeSort, List.MergeSort.Internal.splitInTwo, hcompare]
  refine ⟨hrows, ?_⟩
  intro hall
  have hlast := (hall [some (.number (some 2)), some (.string "abc")] .desc).last
  have hshown : allPages (sortedRows words [amounts] (some ⟨"amount", .desc⟩)
      [some (.number (some 2)), some (.string "abc")]) 10 =
      [some (.string "abc"), some (.number (some 2))] := by
    rw [allPages_eq (by decide)]
    exact hrows
  rw [hshown] at hlast
  have hpair := List.rel_of_pairwise_cons hlast List.mem_cons_self
  exact Option.some_ne_none 2 (hpair rfl)

end VestingDripStream.Frontend.DataTable
