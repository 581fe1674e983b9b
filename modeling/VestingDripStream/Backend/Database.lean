import VestingDripStream.Lib.ReadCommitted

/-! # The backend's database

The tables that the indexer and its jobs write, as the migrations create them, and the statements
that the backend sends, with what Postgres does on each: `stream_events` with its unique index on
`transaction_hash`, `stream_balances` keyed by `stream_id`, `vesting_streams` keyed by
`recipient_address` with the status trigger, `stream_status_transitions` and `indexer_cursors`.

A bind parameter has the type of the column it is written to. Under a sign it has no type yet, and
`- unknown` is no unique operator: Postgres rejects every statement with `-$2` when it parses it.
Amounts are integers: the decoders return the decimal string of an `i128` or null. -/

namespace VestingDripStream.Backend.Database

open VestingDripStream.Lib.Client

/-! ### Tables -/

/-- `StreamEventType`. -/
inductive StreamEventType
  | streamCreated
  | tokensClaimed
  | streamCancelled
  | streamClawedBack
  | streamDrained
  deriving DecidableEq, Repr

/-- `DecodedStreamEvent`; also a row of `stream_events`, which has these columns. -/
structure DecodedStreamEvent where
  eventType : StreamEventType
  recipient : String
  sponsor : String
  token : String
  amount : Option ℤ
  ledgerSequence : ℤ
  transactionHash : String
  deriving DecidableEq, Repr

/-- A row of `stream_balances`. -/
structure StreamBalance where
  totalDeposit : ℤ
  claimedTotal : ℤ
  remaining : ℤ
  deriving DecidableEq, Repr

/-- `StreamStatus`, the enumeration `stream_status_type`. -/
inductive StreamStatus
  | active
  | preCliff
  | expired
  | cancelled
  | drained
  | clawedback
  deriving DecidableEq, Repr

/-- What the backend reads and writes of a row of `vesting_streams`. -/
structure VestingStream where
  status : StreamStatus
  endLedger : ℤ
  deriving DecidableEq, Repr

/-- A row of the audit table `stream_status_transitions`. -/
structure StatusTransition where
  recipientAddress : String
  fromStatus : StreamStatus
  toStatus : StreamStatus
  deriving DecidableEq, Repr

/-- The database. `streamEvents` and `streamStatusTransitions` list their rows as inserted. -/
structure Db where
  streamEvents : List DecodedStreamEvent
  streamBalances : String → Option StreamBalance
  vestingStreams : String → Option VestingStream
  streamStatusTransitions : List StatusTransition
  indexerCursor : Option String

/-- The database after the migrations, with the rows of `vesting_streams` as given: no event, no
balance and no transition yet, and the seeded cursor row. -/
def Db.fresh (streams : String → Option VestingStream) : Db where
  streamEvents := []
  streamBalances := fun _ => none
  vestingStreams := streams
  streamStatusTransitions := []
  indexerCursor := some ""

/-- Why a statement or a function fails: the errors of Postgres, and those the services throw. -/
inductive Failure
  | syntaxError
  | ambiguousFunction
  | stringDataRightTruncation
  | numericValueOutOfRange
  | checkViolation (fromStatus toStatus : StreamStatus)
  | statusTransitionError (fromStatus toStatus : StreamStatus)
  | streamNotFoundError (recipientAddress : String)
  deriving DecidableEq, Repr

/-! ### Effects on rows -/

/-- The rows that a statement can write or lock. -/
inductive Key
  | event (transactionHash : String)
  | balance (streamId : String)
  | stream (recipientAddress : String)
  | cursor
  deriving DecidableEq, Repr

/-- What a statement does to one row. -/
inductive Effect
  | insertEvent (ev : DecodedStreamEvent)
  | setBalance (streamId : String) (b : StreamBalance)
  | setStatus (recipientAddress : String) (status : StreamStatus)
  | insertTransition (t : StatusTransition)
  | lockStream (recipientAddress : String)
  | setCursor (cursor : String)
  deriving DecidableEq, Repr

/-- The row that the effect is about. A row of the audit table is inserted while the row of its
stream is updated. -/
def Effect.key : Effect → Key
  | .insertEvent ev => .event ev.transactionHash
  | .setBalance streamId _ => .balance streamId
  | .setStatus recipient _ => .stream recipient
  | .insertTransition t => .stream t.recipientAddress
  | .lockStream recipient => .stream recipient
  | .setCursor _ => .cursor

/-- An effect on the tables. -/
def Db.apply (db : Db) : Effect → Db
  | .insertEvent ev => { db with streamEvents := db.streamEvents ++ [ev] }
  | .setBalance streamId b =>
    { db with streamBalances := Function.update db.streamBalances streamId (some b) }
  | .setStatus recipient status =>
    { db with
      vestingStreams := Function.update db.vestingStreams recipient
        ((db.vestingStreams recipient).map fun row => { row with status := status }) }
  | .insertTransition t =>
    { db with streamStatusTransitions := db.streamStatusTransitions ++ [t] }
  | .lockStream _ => db
  | .setCursor cursor => { db with indexerCursor := some cursor }

/-! ### The status trigger -/

/-- `check_stream_status_transition`, as migration 008 leaves it. -/
def checkStreamStatusTransition (pFrom pTo : StreamStatus) : Except Failure Unit :=
  if pFrom = pTo then .ok ()
  else if ¬ ((pFrom = .active ∧ pTo ∈ [StreamStatus.cancelled, .expired, .clawedback]) ∨
      (pFrom = .preCliff ∧ pTo ∈ [StreamStatus.active, .cancelled, .expired, .clawedback]) ∨
      (pFrom = .expired ∧ pTo = .drained)) then
    .error (.checkViolation pFrom pTo)
  else .ok ()

/-- An update of the column `status` of the row, with the trigger `fn_stream_status_audit`: it
validates a change and records it. -/
def updateStatus (recipient : String) (row : VestingStream) (status : StreamStatus) :
    Except Failure (List Effect) :=
  if row.status ≠ status then do
    checkStreamStatusTransition row.status status
    return [.insertTransition ⟨recipient, row.status, status⟩, .setStatus recipient status]
  else return [.setStatus recipient status]

/-! ### Statements -/

/-- `varchar(56)`, the type of `stream_balances.stream_id`. -/
def FitsVarchar56 (s : String) : Prop := s.length ≤ 56

/-- `integer`, the type of `stream_events.ledger_sequence`. -/
def FitsInteger (n : ℤ) : Prop := -2147483648 ≤ n ∧ n ≤ 2147483647

/-- `varchar(64)`, the type of the columns for transaction hashes that other migrations add. -/
def FitsVarchar64 (s : String) : Prop := s.length ≤ 64

/-- `bigint`. -/
def FitsBigint (n : ℤ) : Prop := -9223372036854775808 ≤ n ∧ n ≤ 9223372036854775807

instance (s : String) : Decidable (FitsVarchar56 s) := by unfold FitsVarchar56; infer_instance

instance (n : ℤ) : Decidable (FitsInteger n) := by unfold FitsInteger; infer_instance

instance (s : String) : Decidable (FitsVarchar64 s) := by unfold FitsVarchar64; infer_instance

instance (n : ℤ) : Decidable (FitsBigint n) := by unfold FitsBigint; infer_instance

/-- The statements of `persistence.ts`, `balanceTracker.ts` and `streamStatusService.ts`. The
`UPDATE` of `expireStreams` visits the rows of the table one after the other: `expireRow` is what it
does on one of them. -/
inductive Statement
  | insertEvent (ev : DecodedStreamEvent)
  | upsertTotalDeposit (streamId : String) (amount : ℤ)
  | incrementClaimedTotal (streamId : String) (amount : ℤ)
  | updateDrained (ev : DecodedStreamEvent)
  | updateCancelled (recipient : String)
  | sumTokensClaimed (streamId : String)
  | selectTotalDeposit (streamId : String)
  | insertRecomputed (streamId : String) (claimedTotal : ℤ)
  | updateRecomputed (streamId : String) (claimedTotal remaining : ℤ)
  | selectBalance (streamId : String)
  | selectStatusForUpdate (recipient : String)
  | updateStatus (toStatus : StreamStatus) (recipient : String)
  | expireRow (currentLedger : ℤ) (recipient : String)
  | selectCursor
  | updateCursor (cursor : String)
  deriving DecidableEq, Repr

/-- The index on `transaction_hash`. -/
def Db.hashes (db : Db) : List String := db.streamEvents.map (·.transactionHash)

/-- What the client reads of the result: a row count, or the columns of the row. -/
abbrev Statement.Reply : Statement → Type
  | .sumTokensClaimed _ => ℤ
  | .selectTotalDeposit _ => Option ℤ
  | .selectBalance _ => Option (ℤ × ℤ)
  | .selectStatusForUpdate _ => Option StreamStatus
  | .selectCursor => Option String
  | _ => ℕ

/-- `SUM(amount)` over the rows of `stream_events` of that type for that recipient; the sum passes
over null. -/
def sumAmounts (t : StreamEventType) (recipient : String) (rows : List DecodedStreamEvent) : ℤ :=
  ((rows.filter fun ev => ev.recipient = recipient ∧ ev.eventType = t).map
    fun ev => ev.amount.getD 0).sum

/-- `INSERT INTO stream_balances … ON CONFLICT (stream_id) DO UPDATE`. -/
def upsertBalance (db : Db) (streamId : String) (excluded : StreamBalance)
    (set : StreamBalance → StreamBalance) : Except Failure (List Effect × ℕ) :=
  if FitsVarchar56 streamId then
    match db.streamBalances streamId with
    | none => .ok ([.setBalance streamId excluded], 1)
    | some b => .ok ([.setBalance streamId (set b)], 1)
  else .error .stringDataRightTruncation

/-- An update of the status of the row of `recipient`, where `p` holds of the row. -/
def updateStatusWhere (db : Db) (recipient : String) (p : VestingStream → Prop) [DecidablePred p]
    (status : StreamStatus) : Except Failure (List Effect × ℕ) :=
  match db.vestingStreams recipient with
  | none => .ok ([], 0)
  | some row => if p row then do return (← updateStatus recipient row status, 1) else .ok ([], 0)

theorem upsertBalance_ok {db : Db} {streamId : String} {excluded : StreamBalance}
    {set : StreamBalance → StreamBalance} {es : List Effect} {n : ℕ} :
    upsertBalance db streamId excluded set = .ok (es, n) ↔
      FitsVarchar56 streamId ∧
        [.setBalance streamId ((db.streamBalances streamId).elim excluded set)] = es ∧ 1 = n := by
  unfold upsertBalance
  split_ifs with h
  · cases db.streamBalances streamId <;> simp [h]
  · simp [h]

theorem updateStatus_ok {recipient : String} {row : VestingStream} {status : StreamStatus}
    {es : List Effect} :
    updateStatus recipient row status = .ok es ↔
      (row.status = status ∧ [.setStatus recipient status] = es) ∨
      (row.status ≠ status ∧ checkStreamStatusTransition row.status status = .ok () ∧
        [.insertTransition ⟨recipient, row.status, status⟩, .setStatus recipient status] = es) := by
  unfold updateStatus
  split_ifs with h
  · cases hc : checkStreamStatusTransition row.status status with
    | error e => simp [bind, Except.bind, h]
    | ok u => simp [bind, Except.bind, pure, Except.pure, h]
  · push Not at h
    simp [pure, Except.pure, h]

theorem updateStatusWhere_ok {db : Db} {recipient : String} {p : VestingStream → Prop}
    [DecidablePred p] {status : StreamStatus} {es : List Effect} {n : ℕ} :
    updateStatusWhere db recipient p status = .ok (es, n) ↔
      ((∀ row, db.vestingStreams recipient = some row → ¬ p row) ∧ [] = es ∧ 0 = n) ∨
      (∃ row, db.vestingStreams recipient = some row ∧ p row ∧
        updateStatus recipient row status = .ok es ∧ 1 = n) := by
  unfold updateStatusWhere
  cases db.vestingStreams recipient with
  | none => simp
  | some row =>
    by_cases h : p row
    · cases hu : updateStatus recipient row status with
      | error e => simp [h, hu, bind, Except.bind]
      | ok es' => simp [h, hu, bind, Except.bind, pure, Except.pure]
    · simp [h]

/-- What the server does on a statement. -/
def exec : (s : Statement) → Db → Except Failure (List Effect × s.Reply)
  | .insertEvent ev, db =>
    if ¬ FitsInteger ev.ledgerSequence then .error .numericValueOutOfRange
    else if ev.transactionHash ∈ db.hashes then .ok ([], 0)
    else .ok ([.insertEvent ev], 1)
  | .upsertTotalDeposit streamId amount, db =>
    upsertBalance db streamId ⟨amount, 0, amount⟩ fun b =>
      { b with totalDeposit := amount, remaining := amount - b.claimedTotal }
  -- `VALUES ($1, 0, $2, -$2, now())`
  | .incrementClaimedTotal _ _, _ => .error .ambiguousFunction
  -- `UPDATE … ON CONFLICT DO NOTHING` is not SQL
  | .updateDrained _, _ => .error .syntaxError
  | .updateCancelled recipient, db =>
    updateStatusWhere db recipient (·.status ≠ .cancelled) .cancelled
  | .sumTokensClaimed streamId, db =>
    .ok ([], sumAmounts .tokensClaimed streamId db.streamEvents)
  | .selectTotalDeposit streamId, db =>
    .ok ([], (db.streamBalances streamId).map (·.totalDeposit))
  -- `VALUES ($1, 0, $2, -$2, now())`
  | .insertRecomputed _ _, _ => .error .ambiguousFunction
  | .updateRecomputed streamId claimedTotal remaining, db =>
    match db.streamBalances streamId with
    | none => .ok ([], 0)
    | some b => .ok ([.setBalance streamId { b with claimedTotal, remaining }], 1)
  | .selectBalance streamId, db =>
    .ok ([], (db.streamBalances streamId).map fun b => (b.claimedTotal, b.remaining))
  | .selectStatusForUpdate recipient, db =>
    match db.vestingStreams recipient with
    | none => .ok ([], none)
    | some row => .ok ([.lockStream recipient], some row.status)
  | .updateStatus toStatus recipient, db => updateStatusWhere db recipient (fun _ => True) toStatus
  | .expireRow currentLedger recipient, db =>
    updateStatusWhere db recipient
      (fun row => row.status ∈ [StreamStatus.active, .preCliff] ∧ row.endLedger < currentLedger)
      .expired
  | .selectCursor, db => .ok ([], db.indexerCursor)
  | .updateCursor cursor, db =>
    match db.indexerCursor with
    | none => .ok ([], 0)
    | some _ => .ok ([.setCursor cursor], 1)

/-- The server. -/
def postgres : Server Db Statement Failure Effect Statement.Reply := ⟨exec, Db.apply⟩

end VestingDripStream.Backend.Database
