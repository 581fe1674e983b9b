import VestingDripStream.Backend.ScheduleExport

/-! # The export of streams by the browser

`exportCsv.ts` writes the streams that a page shows as CSV, each value in quotes. A parser of CSV
gets the values back, of these files and of the lines of the server, which has quotes only around
values that need them (`csv_roundTrip`). -/

namespace VestingDripStream.Frontend.ExportCsv

open VestingDripStream.Lib VestingDripStream.Backend.ScheduleExport

/-- `VestingStream`, with the fields that are exported, as `String` writes them. -/
structure VestingStream where
  id : String
  recipient : String
  sponsor : String
  token : String
  rate : String
  claimableAmount : String
  cliffLedger : Option String
  endLedger : Option String
  totalDeposit : Option String
  status : String
  deriving DecidableEq, Repr

/-- `HEADERS`. -/
def headers : List String :=
  ["ID", "Recipient", "Sponsor", "Token", "Rate", "Claimable", "Cliff Ledger", "End Ledger",
    "Total Deposit", "Status"]

/-- `csvCell`; nothing stands for `undefined` and `null`. -/
def csvCell (value : Option String) : String :=
  let text := value.getD ""
  "\"" ++ String.ofList (Csv.escape text.toList) ++ "\""

/-- The values of a row. -/
def cells (stream : VestingStream) : List (Option String) :=
  [some stream.id, some stream.recipient, some stream.sponsor, some stream.token, some stream.rate,
    some stream.claimableAmount, stream.cliffLedger, stream.endLedger, stream.totalDeposit,
    some stream.status]

/-- `generateStreamsCsv`. -/
def generateStreamsCsv (streams : List VestingStream) : String :=
  let rows := streams.map fun stream => ",".intercalate ((cells stream).map csvCell)
  "\n".intercalate (",".intercalate ((headers.map some).map csvCell) :: rows)

theorem csvCell_encodes (value : Option String) :
    Csv.Encodes (csvCell value).toList (value.getD "").toList := by
  have htext : (csvCell value).toList = '"' :: Csv.escape (value.getD "").toList ++ ['"'] := by
    unfold csvCell
    rw [String.toList_append, String.toList_append,
      @String.toList_ofList (Csv.escape (value.getD "").toList)]
    rfl
  rw [htext]
  exact Csv.encodes_quoted _

theorem parse_generateStreamsCsv (streams : List VestingStream) :
    Csv.parse (generateStreamsCsv streams).toList =
      some ((headers :: streams.map fun stream => (cells stream).map (·.getD "")).map
        fun record => record.map String.toList) := by
  have hrows : generateStreamsCsv streams = "\n".intercalate
      ((headers.map some :: streams.map cells).map
        fun row => ",".intercalate (row.map csvCell)) := by
    have hcells : (streams.map cells).map (fun row => ",".intercalate (row.map csvCell)) =
        streams.map fun stream => ",".intercalate ((cells stream).map csvCell) := List.map_map
    rw [List.map_cons, hcells]
    rfl
  rw [hrows, Csv.parse_join csvCell_encodes]
  · simp
  · intro row hrow
    rcases List.mem_cons.mp hrow with rfl | hrow
    · decide
    · obtain ⟨stream, -, rfl⟩ := List.mem_map.mp hrow
      show 2 ≤ 10
      omega

theorem parse_rowToCsvLine (rows : List Row) :
    Csv.parse ("\n".intercalate (rows.map rowToCsvLine)).toList =
      some ((rows.map fun row => csvColumns.map fun col => (row col).getD "").map
        fun record => record.map String.toList) := by
  have hrows : rows.map rowToCsvLine =
      (rows.map fun row => csvColumns.map row).map
        fun row => ",".intercalate (row.map quoteCsv) := by
    rw [List.map_map]
    exact List.map_congr_left fun row _ => rowToCsvLine_eq row
  rw [hrows, Csv.parse_join quoteCsv_encodes]
  · simp
  · intro row hrow
    obtain ⟨values, -, rfl⟩ := List.mem_map.mp hrow
    rw [List.length_map]
    decide

/-- **The round trip**: a parser gets the header and the values of the streams out of the file of
the browser, and the values of the columns out of the lines of the server. -/
theorem csv_roundTrip (streams : List VestingStream) (rows : List Row) :
    Csv.parse (generateStreamsCsv streams).toList =
        some ((headers :: streams.map fun stream => (cells stream).map (·.getD "")).map
          fun record => record.map String.toList) ∧
      Csv.parse ("\n".intercalate (rows.map rowToCsvLine)).toList =
        some ((rows.map fun row => csvColumns.map fun col => (row col).getD "").map
          fun record => record.map String.toList) :=
  ⟨parse_generateStreamsCsv streams, parse_rowToCsvLine rows⟩

end VestingDripStream.Frontend.ExportCsv
