import VestingDripStream.Lib.OffsetPaging
import VestingDripStream.Lib.Csv

/-! # The export of schedules

`schedules-export.ts` writes the streams of a sponsor as CSV or JSON. The rows are read in batches
by `LIMIT` and `OFFSET`, sorted by `created_at` alone, so Postgres may order the streams of one
moment differently for each batch, and the totals are cast to `bigint`. `exported_iff` says of which
streams every export is complete. -/

namespace VestingDripStream.Backend.ScheduleExport

open VestingDripStream.Lib VestingDripStream.Lib.Chunks VestingDripStream.Lib.OffsetPaging

/-- `BATCH_SIZE`. -/
def batchSize : ℕ := 500

/-- `CSV_COLUMNS`. -/
def csvColumns : List String :=
  ["recipient_address", "token_address", "rate_per_ledger", "cliff_ledger", "end_ledger",
    "total_deposit", "total_claimed", "status"]

/-! ### Lines -/

/-- `quoteCsv`, of `String(value)`; nothing stands for `null` and `undefined`. -/
def quoteCsv (value : Option String) : String :=
  match value with
  | none => ""
  | some s =>
    if s.toList.any (fun c => c = '"' ∨ c = ',' ∨ c = '\n' ∨ c = '\r') then
      "\"" ++ String.ofList (Csv.escape s.toList) ++ "\""
    else s

/-- A row, with the texts of its values by the names of the columns. -/
abbrev Row := String → Option String

/-- `rowToCsvLine`. -/
def rowToCsvLine (row : Row) : String :=
  ",".intercalate (csvColumns.map fun col => quoteCsv (row col))

/-- Quoted or not, a parser gets the text of the value back. -/
theorem quoteCsv_encodes (value : Option String) :
    Csv.Encodes (quoteCsv value).toList (value.getD "").toList := by
  cases value with
  | none => exact Csv.encodes_text fun c hc => absurd hc List.not_mem_nil
  | some s =>
    rw [quoteCsv]
    split_ifs with hquote
    · have htext : ("\"" ++ String.ofList (Csv.escape s.toList) ++ "\"").toList =
          '"' :: Csv.escape s.toList ++ ['"'] := by
        rw [String.toList_append, String.toList_append,
          @String.toList_ofList (Csv.escape s.toList)]
        rfl
      rw [htext]
      exact Csv.encodes_quoted s.toList
    · refine Csv.encodes_text fun c hc => ?_
      have hnone : ¬ (c = '"' ∨ c = ',' ∨ c = '\n' ∨ c = '\r') := fun h =>
        hquote (List.any_eq_true.mpr ⟨c, hc, decide_eq_true h⟩)
      push Not at hnone
      exact hnone

theorem rowToCsvLine_eq (row : Row) :
    rowToCsvLine row = ",".intercalate ((csvColumns.map row).map quoteCsv) := by
  unfold rowToCsvLine
  rw [List.map_map]
  rfl

/-! ### `EXPORT_SQL` -/

/-- A row of `vesting_streams`, without the columns that the export does not read. -/
structure VestingStream where
  id : ℕ
  sponsorAddress : String
  recipientAddress : String
  tokenAddress : String
  ratePerLedger : ℤ
  startLedger : ℤ
  cliffLedger : ℤ
  endLedger : ℤ
  status : String
  createdAt : ℤ
  deriving DecidableEq, Repr

/-- A row of `claim_events`. -/
structure ClaimEvent where
  streamId : ℕ
  amount : ℤ
  deriving DecidableEq, Repr

/-- `vesting_streams`, with its primary key. -/
structure Streams where
  rows : List VestingStream
  unique : (rows.map VestingStream.id).Nodup

/-- `total_deposit`, before the cast. -/
def totalDeposit (s : VestingStream) : ℤ := s.ratePerLedger * (s.endLedger - s.startLedger)

/-- `total_claimed`, before the cast. -/
def totalClaimed (claims : List ClaimEvent) (s : VestingStream) : ℤ :=
  ((claims.filter (·.streamId = s.id)).map ClaimEvent.amount).sum

/-- The difference of the ledgers is an `integer`, and both totals are `bigint`s; otherwise Postgres
throws. -/
def Fits (claims : List ClaimEvent) (s : VestingStream) : Prop :=
  (-2 ^ 31 ≤ s.endLedger - s.startLedger ∧ s.endLedger - s.startLedger < 2 ^ 31) ∧
    (-2 ^ 63 ≤ totalDeposit s ∧ totalDeposit s < 2 ^ 63) ∧
    (-2 ^ 63 ≤ totalClaimed claims s ∧ totalClaimed claims s < 2 ^ 63)

instance (claims : List ClaimEvent) : DecidablePred (Fits claims) := fun s => by
  unfold Fits; infer_instance

/-- The `SELECT` list. -/
def exportRow (claims : List ClaimEvent) (s : VestingStream) : Row := fun column =>
  if column = "recipient_address" then some s.recipientAddress
  else if column = "token_address" then some s.tokenAddress
  else if column = "rate_per_ledger" then some (toString s.ratePerLedger)
  else if column = "cliff_ledger" then some (toString s.cliffLedger)
  else if column = "end_ledger" then some (toString s.endLedger)
  else if column = "total_deposit" then some (toString (totalDeposit s))
  else if column = "total_claimed" then some (toString (totalClaimed claims s))
  else if column = "status" then some s.status
  else none

/-- The `WHERE` clause. -/
def matching (streams : Streams) (sponsor : String) (fromParam toParam : Option ℤ) :
    List VestingStream :=
  streams.rows.filter fun s =>
    s.sponsorAddress = sponsor ∧ fromParam.all (· ≤ s.createdAt) ∧ toParam.all (s.createdAt ≤ ·)

/-- What Postgres is free to do with the rows of the `k`-th query: it orders them by `created_at`,
the latest first, and may evaluate rows outside the batch, and throw because of them. -/
structure Postgres (claims : List ClaimEvent) (rows : List VestingStream) where
  order : ℕ → List VestingStream
  ordered : ∀ k, Ordered VestingStream.createdAt rows (order k)
  throws : ℕ → Bool
  thrown : ∀ k, throws k = true → ∃ s ∈ rows, ¬ Fits claims s

variable {claims : List ClaimEvent} {rows : List VestingStream}

/-- The `k`-th query. -/
def query (db : Postgres claims rows) (k offset : ℕ) : Option (List VestingStream) :=
  let batch := ((db.order k).drop offset).take batchSize
  if db.throws k = true ∨ ∃ s ∈ batch, ¬ Fits claims s then none else some batch

/-! ### `exportHandler` -/

/-- The formats of `?format=`. -/
inductive Format
  | csv
  | json
  deriving DecidableEq, Repr

/-- How the loop ends. -/
inductive Ending
  | done
  | dbError
  | outOfFuel
  deriving DecidableEq, Repr

/-- The variables of the loop and what has been written so far; and the streams written. -/
structure State where
  offset : ℕ := 0
  firstRow : Bool := true
  written : List String := []
  emitted : List VestingStream := []

-- `JSON.stringify` of a row.
variable (stringify : Row → String) (format : Format)

/-- One row is written. -/
def writeRow (claims : List ClaimEvent) (st : State) (s : VestingStream) : State :=
  match format with
  | .csv =>
    { st with
      written := st.written ++ [rowToCsvLine (exportRow claims s) ++ "\n"]
      emitted := st.emitted ++ [s] }
  | .json =>
    { st with
      firstRow := false
      written := st.written ++ (if st.firstRow then [] else [","]) ++
        [stringify (exportRow claims s)]
      emitted := st.emitted ++ [s] }

variable (db : Postgres claims rows)

/-- The batch loop, from the `k`-th query on. -/
def loop : ℕ → ℕ → State → Ending × State
  | 0, _, st => (.outOfFuel, st)
  | fuel + 1, k, st =>
    match query db k st.offset with
    | none => (.dbError, st)
    | some batch =>
      if batch = [] then (.done, st)
      else
        let st := batch.foldl (writeRow stringify format claims) st
        let st := { st with offset := st.offset + batch.length }
        if batch.length < batchSize then (.done, st) else loop fuel (k + 1) st

/-- What is written before the rows. -/
def head : List String :=
  match format with
  | .csv => [",".intercalate csvColumns ++ "\n"]
  | .json => ["["]

/-- What is written behind the rows; `sentinel` is the text of the error that Postgres threw. -/
def tail (sentinel : String) : Ending × State → List String
  | (.dbError, st) =>
    match format with
    | .csv => []
    | .json => (if st.firstRow then [] else [","]) ++ [sentinel]
  | (_, _) =>
    match format with
    | .csv => []
    | .json => ["]"]

/-- The rows. Every batch but the last is full, so the loop is over after as many queries as there
are rows, and one. -/
def exportRows : Ending × State :=
  loop stringify format db (rows.length + 1) 0 { written := head format }

/-- The body of the response. -/
def exportBody (sentinel : String) : List String :=
  (exportRows stringify format db).2.written ++
    tail format sentinel (exportRows stringify format db)

/-- A complete export: each row is written once. -/
def Complete (rows : List VestingStream) (result : Ending × State) : Prop :=
  result.1 = .done ∧ result.2.emitted.Perm rows

/-! ### The batches -/

variable {stringify format db} {st : State} {k : ℕ}

variable (stringify format) in
theorem foldl_writeRow (batch : List VestingStream) (st : State) :
    (batch.foldl (writeRow stringify format claims) st).offset = st.offset ∧
      (batch.foldl (writeRow stringify format claims) st).emitted = st.emitted ++ batch := by
  induction batch generalizing st with
  | nil => exact ⟨rfl, (List.append_nil _).symm⟩
  | cons s batch ih =>
    have hrow : (writeRow stringify format claims st s).offset = st.offset ∧
        (writeRow stringify format claims st s).emitted = st.emitted ++ [s] := by
      cases format <;> exact ⟨rfl, rfl⟩
    obtain ⟨hoffset, hemitted⟩ := ih (writeRow stringify format claims st s)
    rw [List.foldl_cons]
    refine ⟨hoffset.trans hrow.1, ?_⟩
    rw [hemitted, hrow.2, List.append_assoc]
    rfl

/-- The texts of the rows. -/
def texts (stringify : Row → String) (format : Format) (claims : List ClaimEvent) :
    List VestingStream → List String
  | [] => []
  | s :: emitted =>
    match format with
    | .csv => (s :: emitted).map fun s => rowToCsvLine (exportRow claims s) ++ "\n"
    | .json => stringify (exportRow claims s) ::
        emitted.flatMap fun s => [",", stringify (exportRow claims s)]

/-- The texts of the rows are what is written, behind the head. -/
structure Written (stringify : Row → String) (format : Format) (claims : List ClaimEvent)
    (st : State) : Prop where
  written : st.written = head format ++ texts stringify format claims st.emitted
  firstRow : format = .json → (st.firstRow = true ↔ st.emitted = [])

theorem Written.writeRow (h : Written stringify format claims st) (s : VestingStream) :
    Written stringify format claims (writeRow stringify format claims st s) := by
  obtain ⟨offset, firstRow, written, emitted⟩ := st
  obtain ⟨hwritten, hfirst⟩ := h
  dsimp only at hwritten hfirst
  cases format with
  | csv =>
    refine ⟨?_, fun hformat => absurd hformat (by decide)⟩
    show written ++ [_] = head .csv ++ texts stringify .csv claims (emitted ++ [s])
    rw [hwritten, List.append_assoc]
    cases emitted <;> simp [texts]
  | json =>
    refine ⟨?_, fun _ => by simp [ScheduleExport.writeRow]⟩
    show written ++ (if firstRow = true then [] else [","]) ++ [_] =
      head .json ++ texts stringify .json claims (emitted ++ [s])
    rw [if_congr (hfirst rfl) rfl rfl, hwritten, List.append_assoc, List.append_assoc]
    cases emitted <;> simp [texts]

theorem loop_written (fuel : ℕ) (hst : Written stringify format claims st) :
    Written stringify format claims (loop stringify format db fuel k st).2 := by
  induction fuel generalizing k st with
  | zero => exact hst
  | succ fuel ih =>
    rw [loop]
    cases query db k st.offset with
    | none => exact hst
    | some batch =>
      have hbatch : Written stringify format claims
          (batch.foldl (writeRow stringify format claims) st) := by
        clear ih
        induction batch generalizing st with
        | nil => exact hst
        | cons s batch ih => exact ih (hst.writeRow s)
      dsimp only
      split_ifs with hnil hshort
      · exact hst
      · exact ⟨hbatch.written, hbatch.firstRow⟩
      · exact ih ⟨hbatch.written, hbatch.firstRow⟩

/-- **What is written** is the head and the texts of the rows. -/
theorem exportRows_written : (exportRows stringify format db).2.written =
    head format ++ texts stringify format claims (exportRows stringify format db).2.emitted := by
  refine (loop_written _ ⟨?_, fun _ => ⟨fun _ => rfl, fun _ => rfl⟩⟩).written
  exact (List.append_nil _).symm

/-- **The CSV file** has the columns and the values of the rows. -/
theorem exportBody_parses (sentinel : String) :
    Csv.parse (String.join (exportBody stringify .csv db sentinel)).toList =
      some ((csvColumns :: (exportRows stringify .csv db).2.emitted.map fun s =>
        csvColumns.map fun col => (exportRow claims s col).getD "").map
          fun record => record.map String.toList) := by
  have hhead : ",".intercalate csvColumns = ",".intercalate ((csvColumns.map some).map quoteCsv) :=
    by decide +kernel
  have htail : tail .csv sentinel (exportRows stringify .csv db) = [] := by
    obtain ⟨ending, st⟩ := exportRows stringify .csv db
    cases ending <;> rfl
  have htexts : ∀ emitted, texts stringify .csv claims emitted =
      emitted.map fun s => rowToCsvLine (exportRow claims s) ++ "\n" := by
    intro emitted
    cases emitted <;> rfl
  unfold exportBody
  rw [exportRows_written, htail, List.append_nil, htexts]
  generalize (exportRows stringify .csv db).2.emitted = emitted
  have hrows : head .csv ++ emitted.map (fun s => rowToCsvLine (exportRow claims s) ++ "\n") =
      (csvColumns.map some :: emitted.map fun s => csvColumns.map (exportRow claims s)).map
        fun row => ",".intercalate (row.map quoteCsv) ++ "\n" := by
    rw [List.map_cons, ← hhead, List.map_map]
    refine congrArg (_ :: ·) (List.map_congr_left fun s _ => ?_)
    rw [rowToCsvLine_eq]
    rfl
  rw [hrows, Csv.parse_join_terminated quoteCsv_encodes]
  · simp
  · intro row hrow
    rcases List.mem_cons.mp hrow with rfl | hrow
    · decide
    · obtain ⟨s, -, rfl⟩ := List.mem_map.mp hrow
      rw [List.length_map]
      decide

/-- What the loop has done before the `k`-th query. -/
structure ReadUpTo (db : Postgres claims rows) (k : ℕ) (st : State) : Prop where
  offset : st.offset = k * batchSize
  emitted : st.emitted = (List.range k).flatMap fun i => chunk batchSize i (db.order i)
  full : k * batchSize ≤ rows.length
  fits : ∀ s ∈ st.emitted, Fits claims s

/-- What the loop has done when it is over. -/
inductive Over (db : Postgres claims rows) : Ending × State → Prop
  | error (st : State) (thrown : ∃ s ∈ rows, ¬ Fits claims s) : Over db (.dbError, st)
  | done (st : State) (m : ℕ) (short : rows.length < (m + 1) * batchSize)
      (emitted : st.emitted = batches batchSize db.order m)
      (fits : ∀ s ∈ st.emitted, Fits claims s) : Over db (.done, st)

theorem query_cases (hst : ReadUpTo db k st) :
    (query db k st.offset = none ∧ ∃ s ∈ rows, ¬ Fits claims s) ∨
      (query db k st.offset = some (chunk batchSize k (db.order k)) ∧
        ∀ s ∈ chunk batchSize k (db.order k), Fits claims s) := by
  have hbatch : ((db.order k).drop st.offset).take batchSize = chunk batchSize k (db.order k) := by
    rw [hst.offset]
    rfl
  unfold query
  rw [hbatch]
  dsimp only
  split_ifs with hthrows
  · refine Or.inl ⟨rfl, ?_⟩
    rcases hthrows with hthrows | ⟨s, hs, hfits⟩
    · exact db.thrown k hthrows
    · have hmem : s ∈ db.order k := List.mem_of_mem_drop (List.mem_of_mem_take hs)
      exact ⟨s, (db.ordered k).perm.mem_iff.mp hmem, hfits⟩
  · push Not at hthrows
    exact Or.inr ⟨rfl, hthrows.2⟩

variable (stringify format) in
/-- **One batch** is written behind the others. -/
theorem ReadUpTo.write (hst : ReadUpTo db k st)
    (hfits : ∀ s ∈ chunk batchSize k (db.order k), Fits claims s) :
    ((chunk batchSize k (db.order k)).foldl (writeRow stringify format claims) st).emitted =
        batches batchSize db.order k ∧
      ∀ s ∈ ((chunk batchSize k (db.order k)).foldl (writeRow stringify format claims) st).emitted,
        Fits claims s := by
  rw [(foldl_writeRow stringify format _ st).2]
  constructor
  · unfold batches
    rw [List.range_succ, List.flatMap_append, hst.emitted]
    simp
  · intro s hs
    rcases List.mem_append.mp hs with hs | hs
    · exact hst.fits s hs
    · exact hfits s hs

/-- **The loop** is over before it has read more batches than there are rows. -/
theorem loop_over (fuel : ℕ) (hst : ReadUpTo db k st) (hfuel : rows.length < k * batchSize + fuel) :
    Over db (loop stringify format db fuel k st) := by
  induction fuel generalizing k st with
  | zero =>
    have := hst.full
    omega
  | succ fuel ih =>
    have hlength : (chunk batchSize k (db.order k)).length < batchSize ↔
        rows.length < (k + 1) * batchSize := by
      rw [length_chunk_lt_iff (by decide), (db.ordered k).perm.length_eq]
    rw [loop]
    rcases query_cases hst with ⟨hquery, hthrown⟩ | ⟨hquery, hfits⟩
    · rw [hquery]
      exact Over.error st hthrown
    · rw [hquery]
      obtain ⟨hemitted, hall⟩ := hst.write stringify format hfits
      obtain ⟨hoffset, -⟩ := foldl_writeRow stringify format (chunk batchSize k (db.order k)) st
      dsimp only
      split_ifs with hnil hshort
      · -- the batches before this one were all there are
        rw [hnil] at hemitted hall
        exact Over.done st k (hlength.mp (by rw [hnil]; decide)) hemitted hall
      · exact Over.done _ k (hlength.mp hshort) hemitted hall
      · have hfull := mt hlength.mpr hshort
        have hle := length_chunk_le batchSize k (db.order k)
        refine ih ⟨?_, hemitted, by omega, hall⟩ ?_
        · show _ + _ = _
          rw [hoffset, hst.offset, Nat.succ_mul]
          omega
        · rw [Nat.succ_mul]
          have hpos : 0 < batchSize := by decide
          omega

variable (stringify format db) in
theorem exportRows_over : Over db (exportRows stringify format db) := by
  refine loop_over _ ⟨?_, rfl, ?_, fun s hs => absurd hs List.not_mem_nil⟩ ?_
  · rw [Nat.zero_mul]
  · rw [Nat.zero_mul]
    exact Nat.zero_le _
  · omega

/-- **Every export ends.** -/
theorem exportRows_ends : (exportRows stringify format db).1 ≠ .outOfFuel := by
  intro hend
  have hover := exportRows_over stringify format db
  generalize exportRows stringify format db = result at hover hend
  cases hover <;> exact Ending.noConfusion hend

/-! ### Complete exports -/

theorem Streams.nodup (streams : Streams) (sponsor : String) (fromParam toParam : Option ℤ) :
    (matching streams sponsor fromParam toParam).Nodup :=
  (List.Nodup.of_map _ streams.unique).filter _

/-- A complete export has read every row, so all of them fit. -/
theorem Complete.fits (h : Complete rows (exportRows stringify format db)) :
    ∀ s ∈ rows, Fits claims s := by
  have hover := exportRows_over stringify format db
  generalize exportRows stringify format db = result at hover h
  intro s hs
  cases hover with
  | error st thrown => exact Ending.noConfusion h.1
  | done st m short emitted fits => exact fits s (h.2.mem_iff.mpr hs)

/-- A row that is read twice is written twice. -/
theorem not_complete (hnodup : rows.Nodup)
    (htwice : ∀ m, rows.length < (m + 1) * batchSize → ¬ (batches batchSize db.order m).Nodup) :
    ¬ Complete rows (exportRows stringify format db) := by
  have hover := exportRows_over stringify format db
  generalize exportRows stringify format db = result at hover
  intro hcomplete
  cases hover with
  | error st thrown => exact Ending.noConfusion hcomplete.1
  | done st m short emitted fits =>
    refine htwice m short ?_
    rw [← emitted]
    exact hcomplete.2.nodup_iff.mpr hnodup

/-- The rows fit, and no moment has streams on both sides of an offset. -/
theorem complete_of_batches (hfits : ∀ s ∈ rows, Fits claims s)
    (hties : ∀ k t, ¬ Straddles VestingStream.createdAt rows (k * batchSize) t) :
    Complete rows (exportRows stringify format db) := by
  have hover := exportRows_over stringify format db
  generalize exportRows stringify format db = result at hover
  cases hover with
  | error st thrown =>
    obtain ⟨s, hs, hnot⟩ := thrown
    exact absurd (hfits s hs) hnot
  | done st m short emitted fits =>
    refine ⟨rfl, ?_⟩
    have hperm := batches_perm hties db.ordered m
    have hlen := (db.ordered m).perm.length_eq
    rw [List.take_of_length_le (by omega)] at hperm
    rw [emitted]
    exact hperm.trans (db.ordered m).perm

/-- Postgres orders the rows in one way or another, and does not throw needlessly. -/
def freely (claims : List ClaimEvent) (orders : ℕ → List VestingStream)
    (h : ∀ k, Ordered VestingStream.createdAt rows (orders k)) : Postgres claims rows where
  order := orders
  ordered := h
  throws _ := false
  thrown _ hthrows := absurd hthrows Bool.false_ne_true

/-- **An export is complete**, however Postgres orders the streams of one moment, exactly if all
rows fit and no moment has streams on both sides of an offset. -/
theorem exported_iff (stringify : Row → String) (format : Format) (claims : List ClaimEvent)
    (streams : Streams) (sponsor : String) (fromParam toParam : Option ℤ) :
    (∀ db : Postgres claims (matching streams sponsor fromParam toParam),
        Complete (matching streams sponsor fromParam toParam) (exportRows stringify format db)) ↔
      (∀ s ∈ matching streams sponsor fromParam toParam, Fits claims s) ∧
        ∀ k t, ¬ Straddles VestingStream.createdAt (matching streams sponsor fromParam toParam)
          (k * batchSize) t := by
  constructor
  · intro h
    constructor
    · obtain ⟨order, horder⟩ := exists_ordered VestingStream.createdAt
        (matching streams sponsor fromParam toParam)
      exact (h (freely claims (fun _ => order) fun _ => horder)).fits
    · intro k t hstraddles
      obtain ⟨orders, hordered, htwice⟩ := exists_orders (by decide) hstraddles
      have hnodup := streams.nodup sponsor fromParam toParam
      exact not_complete hnodup htwice (h (freely claims orders hordered))
  · rintro ⟨hfits, hties⟩ db
    exact complete_of_batches hfits hties

/-- One row more than a batch has, and the rows in the opposite order for the second batch: the
first row is written twice. -/
theorem not_complete_of_reverse (hnodup : rows.Nodup) (hlen : rows.length = batchSize + 1)
    (hfirst : db.order 0 = rows) (hsecond : db.order 1 = rows.reverse) :
    ¬ Complete rows (exportRows stringify format db) := by
  refine not_complete hnodup fun m hm => ?_
  have hpos : 0 < rows.length := by omega
  have hread : rows[0] ∈ chunk batchSize 0 (db.order 0) := by
    rw [hfirst]
    exact (mem_chunk_iff (by decide)).mpr ⟨0, List.getElem?_eq_getElem hpos, rfl⟩
  have hagain : rows[0] ∈ chunk batchSize 1 (db.order 1) := by
    rw [hsecond]
    refine (mem_chunk_iff (by decide)).mpr ⟨batchSize, ?_, Nat.div_self (by decide)⟩
    rw [List.getElem?_reverse (by omega), hlen, Nat.add_sub_cancel, Nat.sub_self]
    exact List.getElem?_eq_getElem hpos
  have hone : 1 ≤ m := by
    by_contra hlt
    have hzero : m = 0 := by omega
    rw [hzero] at hm
    omega
  exact not_nodup_batches (by decide) hone hread hagain

/-- A sponsor's streams, all of one moment. -/
def tied (n : ℕ) : Streams where
  rows := (List.range n).map fun i =>
    { id := i
      sponsorAddress := "sponsor"
      recipientAddress := toString i
      tokenAddress := "token"
      ratePerLedger := 1
      startLedger := 0
      cliffLedger := 0
      endLedger := 1
      status := "active"
      createdAt := 0 }
  unique := by
    rw [List.map_map]
    exact List.Nodup.map (fun _ _ h => h) List.nodup_range

theorem mem_tied {n : ℕ} {s : VestingStream} (hs : s ∈ (tied n).rows) :
    s.sponsorAddress = "sponsor" ∧ s.createdAt = 0 := by
  obtain ⟨i, -, rfl⟩ := List.mem_map.mp hs
  exact ⟨rfl, rfl⟩

theorem length_tied (n : ℕ) : (tied n).rows.length = n :=
  (List.length_map _).trans List.length_range

theorem matching_tied (n : ℕ) : matching (tied n) "sponsor" none none = (tied n).rows := by
  refine List.filter_eq_self.mpr fun s hs => ?_
  rw [(mem_tied hs).1]
  rfl

theorem ordered_tied {n : ℕ} {order : List VestingStream}
    (h : order.Perm (matching (tied n) "sponsor" none none)) :
    Ordered VestingStream.createdAt (matching (tied n) "sponsor" none none) order where
  perm := h
  sorted := by
    have hzero : ∀ s ∈ order, s.createdAt = 0 := by
      intro s hs
      have hmem := h.mem_iff.mp hs
      rw [matching_tied] at hmem
      exact (mem_tied hmem).2
    exact List.pairwise_of_forall_mem_list fun s hs s' hs' => by rw [hzero s hs, hzero s' hs']

/-- Postgres has them in the opposite order from the second query on. -/
def reversed (n : ℕ) : Postgres [] (matching (tied n) "sponsor" none none) :=
  freely []
    (fun k => if k = 0 then matching (tied n) "sponsor" none none
      else (matching (tied n) "sponsor" none none).reverse)
    fun k => ordered_tied (by
      split_ifs
      · exact List.Perm.refl _
      · exact List.reverse_perm _)

theorem order_reversed_zero (n : ℕ) :
    (reversed n).order 0 = matching (tied n) "sponsor" none none := rfl

theorem order_reversed_one (n : ℕ) :
    (reversed n).order 1 = (matching (tied n) "sponsor" none none).reverse := rfl

/-- Of 501 streams of one moment the first is exported twice, and the last one is not. -/
theorem tied_not_complete : ¬ Complete (matching (tied 501) "sponsor" none none)
    (exportRows (fun _ => "") .csv (reversed 501)) := by
  refine not_complete_of_reverse ((tied 501).nodup _ _ _) ?_ (order_reversed_zero 501)
    (order_reversed_one 501)
  rw [matching_tied, length_tied]
  rfl

end VestingDripStream.Backend.ScheduleExport
