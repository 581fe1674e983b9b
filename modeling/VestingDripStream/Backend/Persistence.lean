import VestingDripStream.Backend.Database

/-! # The indexer's writes and the balance and status services

`persistence.ts`, `balanceTracker.ts` and `streamStatusService.ts` as client programs, statement by
statement. The second part says what `upsertStreamEvents` does when it runs alone: `Accepts` is
when an event is not rejected, `ingest` what it then does to the tables, and a batch commits exactly
if every event of it is accepted where it stands (`upsertStreamEvents_ok`). -/

namespace VestingDripStream.Backend.Persistence

open VestingDripStream.Lib.Transaction VestingDripStream.Lib.Client VestingDripStream.Lib.Run
open VestingDripStream.Backend.Database

/-- A program that sends statements to the database. -/
abbrev Client (α : Type) : Type := Program Statement Statement.Reply Failure α

/-- `client.query`. -/
abbrev query (s : Statement) : Client s.Reply := Program.send s

/-! ### `persistence.ts` -/

/-- `readCursor`. -/
def readCursor : Client String := do
  let row ← query .selectCursor
  return row.getD ""

/-- `writeCursor`. -/
def writeCursor (cursor : String) : Client Unit := do
  let _ ← query (.updateCursor cursor)

/-- `incrementClaimedTotal`. -/
def incrementClaimedTotal (streamId : String) (amount : ℤ) : Client Unit := do
  let _ ← query (.incrementClaimedTotal streamId amount)

/-- The balance updates of a row that was inserted. -/
def updateBalances (ev : DecodedStreamEvent) : Client Unit :=
  match ev.eventType, ev.amount with
  | .streamCreated, some amount => do
    let _ ← query (.upsertTotalDeposit ev.recipient amount)
  | .tokensClaimed, some amount => incrementClaimedTotal ev.recipient amount
  | _, _ => return ()

/-- `handleStreamDrainedStateUpdate`. -/
def handleStreamDrainedStateUpdate (ev : DecodedStreamEvent) : Client Unit := do
  let _ ← query (.updateDrained ev)

/-- `handleStreamCancelledStateUpdate`. -/
def handleStreamCancelledStateUpdate (ev : DecodedStreamEvent) : Client Unit := do
  let _ ← query (.updateCancelled ev.recipient)

/-- The state update of an event, inserted or not. -/
def updateState (ev : DecodedStreamEvent) : Client Unit :=
  match ev.eventType with
  | .streamDrained => handleStreamDrainedStateUpdate ev
  | .streamCancelled => handleStreamCancelledStateUpdate ev
  | _ => return ()

/-- The body of the loop of `upsertStreamEvents`. -/
def upsertEvent (ev : DecodedStreamEvent) : Client ℕ := do
  let rowCount ← query (.insertEvent ev)
  if 0 < rowCount then updateBalances ev
  updateState ev
  return rowCount

/-- The loop of `upsertStreamEvents`. -/
def upsertLoop : List DecodedStreamEvent → ℕ → Client ℕ
  | [], inserted => return inserted
  | ev :: events, inserted => do
    let rowCount ← upsertEvent ev
    upsertLoop events (inserted + rowCount)

/-- `upsertStreamEvents`, between its `BEGIN` and its `COMMIT` or `ROLLBACK`. -/
def upsertStreamEvents (events : List DecodedStreamEvent) : Client ℕ := upsertLoop events 0

/-! ### `balanceTracker.ts` -/

/-- The end of `recomputeBalance`: it writes the row, and reads it back. -/
def storeRecomputed (streamId : String) (claimedTotal : ℤ) :
    (totalDeposit : Option ℤ) → Client (Option (ℤ × ℤ))
  | none => do
    let _ ← query (.insertRecomputed streamId claimedTotal)
    query (.selectBalance streamId)
  | some totalDeposit => do
    let _ ← query (.updateRecomputed streamId claimedTotal (totalDeposit - claimedTotal))
    query (.selectBalance streamId)

/-- `recomputeBalance`; each statement commits on its own. -/
def recomputeBalance (streamId : String) : Client (Option (ℤ × ℤ)) := do
  let claimedTotal ← query (.sumTokensClaimed streamId)
  let totalDeposit ← query (.selectTotalDeposit streamId)
  storeRecomputed streamId claimedTotal totalDeposit

/-! ### `streamStatusService.ts` -/

/-- `VALID_TRANSITIONS`. -/
def validTransitions : StreamStatus → List StreamStatus
  | .active => [.cancelled, .expired, .clawedback]
  | .preCliff => [.active, .cancelled, .expired, .clawedback]
  | .expired => [.drained]
  | .cancelled => []
  | .drained => []
  | .clawedback => []

/-- `isValidTransition`. -/
def isValidTransition (fromStatus toStatus : StreamStatus) : Bool :=
  fromStatus = toStatus || (validTransitions fromStatus).contains toStatus

/-- `transitionStreamStatus`. Its last statement writes columns of the audit row that nothing reads
here, and is left out. -/
def transitionStreamStatus (recipientAddress : String) (toStatus : StreamStatus) : Client Unit := do
  let currentRow ← query (.selectStatusForUpdate recipientAddress)
  match currentRow with
  | none => .throw (.streamNotFoundError recipientAddress)
  | some fromStatus =>
    if fromStatus = toStatus then return ()
    else if ¬ isValidTransition fromStatus toStatus then
      .throw (.statusTransitionError fromStatus toStatus)
    else do
      let _ ← query (.updateStatus toStatus recipientAddress)

/-- `expireStreams`: the rows are visited in the order of `scan`. -/
def expireStreams (currentLedger : ℤ) : (scan : List String) → Client ℕ
  | [] => return 0
  | recipient :: scan => do
    let rowCount ← query (.expireRow currentLedger recipient)
    let rest ← expireStreams currentLedger scan
    return rowCount + rest

/-! ### What a batch does when it runs alone -/

/-- The event opens or changes a balance row when its row is inserted. -/
def Credits (ev : DecodedStreamEvent) : Prop :=
  ev.eventType = .streamCreated ∧ ev.amount ≠ none

/-- `incrementClaimedTotal` runs when the row of the event is inserted. -/
def Increments (ev : DecodedStreamEvent) : Prop :=
  ev.eventType = .tokensClaimed ∧ ev.amount ≠ none

instance (ev : DecodedStreamEvent) : Decidable (Credits ev) := by unfold Credits; infer_instance

instance (ev : DecodedStreamEvent) : Decidable (Increments ev) := by
  unfold Increments; infer_instance

/-- The balance update that follows the insertion of the event's row is not rejected. The one of a
claim always is. -/
structure Insertable (ev : DecodedStreamEvent) : Prop where
  unclaimed : ¬ Increments ev
  fits : Credits ev → FitsVarchar56 ev.recipient

instance (ev : DecodedStreamEvent) : Decidable (Insertable ev) :=
  decidable_of_iff (¬ Increments ev ∧ (Credits ev → FitsVarchar56 ev.recipient))
    ⟨fun h => ⟨h.1, h.2⟩, fun h => ⟨h.1, h.2⟩⟩

/-- The statuses that the trigger lets a `StreamCancelled` event find. -/
def Cancellable (status : StreamStatus) : Prop :=
  status = .active ∨ status = .preCliff ∨ status = .cancelled

instance (status : StreamStatus) : Decidable (Cancellable status) := by
  unfold Cancellable; infer_instance

/-- No statement of the event is rejected. -/
structure Accepts (db : Db) (ev : DecodedStreamEvent) : Prop where
  ledger : FitsInteger ev.ledgerSequence
  notDrained : ev.eventType ≠ .streamDrained
  cancellable : ev.eventType = .streamCancelled →
    ∀ row, db.vestingStreams ev.recipient = some row → Cancellable row.status
  insertable : ev.transactionHash ∉ db.hashes → Insertable ev

/-- The balance row after the row of the event was inserted. -/
def creditedBalance (ev : DecodedStreamEvent) (b : Option StreamBalance) : Option StreamBalance :=
  match ev.eventType, ev.amount with
  | .streamCreated, some amount =>
    some <| b.elim ⟨amount, 0, amount⟩ fun b =>
      { b with totalDeposit := amount, remaining := amount - b.claimedTotal }
  | _, _ => b

/-- The tables after the balance update of the event. -/
def credit (db : Db) (ev : DecodedStreamEvent) : Db :=
  { db with
    streamBalances := Function.update db.streamBalances ev.recipient
      (creditedBalance ev (db.streamBalances ev.recipient)) }

/-- The tables after the status of the row of `recipient` was changed. -/
def changeStatus (db : Db) (recipient : String) (row : VestingStream) (status : StreamStatus) :
    Db :=
  { db with
    streamStatusTransitions := db.streamStatusTransitions ++ [⟨recipient, row.status, status⟩]
    vestingStreams :=
      Function.update db.vestingStreams recipient (some { row with status := status }) }

/-- The tables after the state update of a `StreamCancelled` event. -/
def cancelStream (db : Db) (recipient : String) : Db :=
  match db.vestingStreams recipient with
  | none => db
  | some row => if row.status = .cancelled then db else changeStatus db recipient row .cancelled

/-- What an accepted event does to the tables. -/
def ingest (db : Db) (ev : DecodedStreamEvent) : Db :=
  let db := if ev.transactionHash ∈ db.hashes then db
    else credit { db with streamEvents := db.streamEvents ++ [ev] } ev
  if ev.eventType = .streamCancelled then cancelStream db ev.recipient else db

theorem checkStreamStatusTransition_cancelled {status : StreamStatus} (h : status ≠ .cancelled) :
    checkStreamStatusTransition status .cancelled = .ok () ↔ Cancellable status := by
  cases status <;> simp [checkStreamStatusTransition, Cancellable] at h ⊢

/-- A statement whose result is not used. -/
theorem transact_query_ok {s : Statement} {db db' : Db} {u : Unit} :
    postgres.transact (do let _ ← query s) db = .ok (u, db') ↔
      ∃ es r, exec s db = .ok (es, r) ∧ postgres.applyAll db es = db' := by
  show postgres.transact (.query s fun _ => .done ()) db = _ ↔ _
  rw [Server.transact_query, bind_ok]
  constructor
  · rintro ⟨r, db1, hst, hd⟩
    obtain ⟨es, hx, rfl⟩ := Server.statement_ok.mp hst
    exact ⟨es, r, hx, (pure_ok.mp hd).2⟩
  · rintro ⟨es, r, hx, rfl⟩
    exact ⟨r, _, Server.statement_ok.mpr ⟨es, hx, rfl⟩, rfl⟩

theorem applyAll_setBalance (db : Db) (streamId : String) (b : StreamBalance) :
    postgres.applyAll db [.setBalance streamId b] =
      { db with streamBalances := Function.update db.streamBalances streamId (some b) } := rfl

theorem credit_of_not_credits {db : Db} {ev : DecodedStreamEvent} (h : ¬ Credits ev) :
    credit db ev = db := by
  have hsame : creditedBalance ev (db.streamBalances ev.recipient) =
      db.streamBalances ev.recipient := by
    unfold creditedBalance
    unfold Credits at h
    split <;> simp_all
  unfold credit
  rw [hsame, Function.update_eq_self]

theorem updateBalances_ok {ev : DecodedStreamEvent} {db db' : Db} {u : Unit} :
    postgres.transact (updateBalances ev) db = .ok (u, db') ↔
      Insertable ev ∧ credit db ev = db' := by
  by_cases hinc : Increments ev
  · -- the statement of `incrementClaimedTotal` fails
    refine iff_of_false (fun hok => ?_) fun h => h.1.unclaimed hinc
    obtain ⟨t, r, sp, tk, amount, l, hash⟩ := ev
    obtain ⟨rfl, ha⟩ := hinc
    obtain ⟨a, rfl⟩ := Option.ne_none_iff_exists'.mp ha
    have hquery : postgres.transact (do let _ ← query (.incrementClaimedTotal r a)) db =
        .ok (u, db') := hok
    rw [transact_query_ok] at hquery
    obtain ⟨es, n, hx, -⟩ := hquery
    cases hx
  by_cases h : Credits ev
  · have hfits : Insertable ev ↔ FitsVarchar56 ev.recipient :=
      ⟨fun hi => hi.fits h, fun hf => ⟨hinc, fun _ => hf⟩⟩
    rw [hfits]
    obtain ⟨t, r, sp, tk, amount, l, hash⟩ := ev
    obtain ⟨rfl, ha⟩ := h
    obtain ⟨a, rfl⟩ := Option.ne_none_iff_exists'.mp ha
    show postgres.transact (do let _ ← query (.upsertTotalDeposit r a)) db = _ ↔ _
    rw [transact_query_ok]
    simp only [exec, upsertBalance_ok]
    constructor
    · rintro ⟨es, n, ⟨hfit, rfl, -⟩, rfl⟩
      exact ⟨hfit, rfl⟩
    · rintro ⟨hfit, rfl⟩
      exact ⟨_, 1, ⟨hfit, rfl, rfl⟩, rfl⟩
  · have hp : updateBalances ev = .done () := by
      unfold updateBalances
      unfold Credits at h
      unfold Increments at hinc
      split <;> simp_all
    have hi : Insertable ev := ⟨hinc, fun hcr => absurd hcr h⟩
    rw [hp, Server.transact_done, pure_ok, credit_of_not_credits h]
    simp [hi]

theorem applyAll_changeStatus {db : Db} {recipient : String} {row : VestingStream}
    (status : StreamStatus) (h : db.vestingStreams recipient = some row) :
    postgres.applyAll db
        [.insertTransition ⟨recipient, row.status, status⟩, .setStatus recipient status] =
      changeStatus db recipient row status := by
  simp [postgres, Server.applyAll, Db.apply, changeStatus, h]

theorem updateCancelled_ok {recipient : String} {db db' : Db} {u : Unit} :
    postgres.transact (do let _ ← query (.updateCancelled recipient)) db = .ok (u, db') ↔
      (∀ row, db.vestingStreams recipient = some row → Cancellable row.status) ∧
        cancelStream db recipient = db' := by
  rw [transact_query_ok]
  simp only [exec, updateStatusWhere_ok, updateStatus_ok]
  unfold cancelStream
  cases hrow : db.vestingStreams recipient with
  | none =>
    simp
  | some row =>
    by_cases hc : row.status = .cancelled
    · simp [hc, Cancellable]
    · have hcheck := checkStreamStatusTransition_cancelled hc
      have hes := applyAll_changeStatus .cancelled hrow
      simp [hc, hcheck, hes, -Server.applyAll_cons]

theorem updateState_ok {ev : DecodedStreamEvent} {db db' : Db} {u : Unit} :
    postgres.transact (updateState ev) db = .ok (u, db') ↔
      (ev.eventType ≠ .streamDrained ∧ (ev.eventType = .streamCancelled →
        ∀ row, db.vestingStreams ev.recipient = some row → Cancellable row.status)) ∧
      (if ev.eventType = .streamCancelled then cancelStream db ev.recipient else db) = db' := by
  unfold updateState
  cases ht : ev.eventType with
  | streamCancelled =>
    show postgres.transact (do let _ ← query (.updateCancelled ev.recipient)) db = _ ↔ _
    rw [updateCancelled_ok]
    simp
  | streamDrained =>
    show postgres.transact (do let _ ← query (.updateDrained ev)) db = _ ↔ _
    rw [transact_query_ok]
    simp [exec]
  | _ =>
    show postgres.transact (.done ()) db = _ ↔ _
    rw [Server.transact_done, pure_ok]
    simp

theorem insertEvent_ok {ev : DecodedStreamEvent} {db : Db} {es : List Effect} {n : ℕ} :
    exec (.insertEvent ev) db = .ok (es, n) ↔
      FitsInteger ev.ledgerSequence ∧
        ((ev.transactionHash ∈ db.hashes ∧ [] = es ∧ 0 = n) ∨
          (ev.transactionHash ∉ db.hashes ∧ [.insertEvent ev] = es ∧ 1 = n)) := by
  simp only [exec]
  split_ifs with hl hh <;> simp [*]

/-- The state update at the end of the loop's body. -/
theorem updateState_return_ok {ev : DecodedStreamEvent} {db db' : Db} {m n : ℕ} :
    postgres.transact (do updateState ev; return m) db = .ok (n, db') ↔
      (ev.eventType ≠ .streamDrained ∧ (ev.eventType = .streamCancelled →
        ∀ row, db.vestingStreams ev.recipient = some row → Cancellable row.status)) ∧
      (if ev.eventType = .streamCancelled then cancelStream db ev.recipient else db) = db' ∧
      m = n := by
  rw [Server.transact_bind, bind_ok]
  simp only [updateState_ok, Program.pure_eq, Server.transact_done, pure_ok]
  grind

/-- **One event**, accepted or not. -/
theorem upsertEvent_ok {ev : DecodedStreamEvent} {db db' : Db} {n : ℕ} :
    postgres.transact (upsertEvent ev) db = .ok (n, db') ↔
      Accepts db ev ∧ ingest db ev = db' ∧
        (if ev.transactionHash ∈ db.hashes then 0 else 1) = n := by
  have hinsert : ∀ {m : ℕ} {db1 : Db},
      postgres.statement (.insertEvent ev) db = .ok (m, db1) ↔ FitsInteger ev.ledgerSequence ∧
        ((ev.transactionHash ∈ db.hashes ∧ db = db1 ∧ 0 = m) ∨
          (ev.transactionHash ∉ db.hashes ∧
            { db with streamEvents := db.streamEvents ++ [ev] } = db1 ∧ 1 = m)) := by
    intro m db1
    rw [Server.statement_ok]
    constructor
    · rintro ⟨es, hx, rfl⟩
      obtain ⟨hl, ⟨hh, rfl, rfl⟩ | ⟨hh, rfl, rfl⟩⟩ := insertEvent_ok.mp hx
      · exact ⟨hl, Or.inl ⟨hh, rfl, rfl⟩⟩
      · exact ⟨hl, Or.inr ⟨hh, rfl, rfl⟩⟩
    · rintro ⟨hl, ⟨hh, rfl, rfl⟩ | ⟨hh, rfl, rfl⟩⟩
      · exact ⟨[], insertEvent_ok.mpr ⟨hl, Or.inl ⟨hh, rfl, rfl⟩⟩, rfl⟩
      · exact ⟨[.insertEvent ev], insertEvent_ok.mpr ⟨hl, Or.inr ⟨hh, rfl, rfl⟩⟩, rfl⟩
  unfold upsertEvent
  rw [Program.send_bind, Server.transact_query, bind_ok]
  constructor
  · rintro ⟨m, db1, hins, hrest⟩
    obtain ⟨hl, ⟨hh, rfl, rfl⟩ | ⟨hh, rfl, rfl⟩⟩ := hinsert.mp hins
    · -- the row is already there
      obtain ⟨⟨hd, hc⟩, rfl, rfl⟩ := updateState_return_ok.mp hrest
      refine ⟨⟨hl, hd, hc, fun hn => absurd hh hn⟩, ?_, by simp [hh]⟩
      simp only [ingest, hh, if_true]
    · rw [if_pos Nat.one_pos, Server.transact_bind, bind_ok] at hrest
      obtain ⟨u, db2, hb, hs⟩ := hrest
      obtain ⟨hfit, rfl⟩ := updateBalances_ok.mp hb
      obtain ⟨⟨hd, hc⟩, rfl, rfl⟩ := updateState_return_ok.mp hs
      refine ⟨⟨hl, hd, hc, fun _ => hfit⟩, ?_, by simp [hh]⟩
      simp only [ingest, hh, if_false]
  · rintro ⟨⟨hl, hd, hc, hfit⟩, rfl, rfl⟩
    by_cases hh : ev.transactionHash ∈ db.hashes
    · refine ⟨(0 : ℕ), db, hinsert.mpr ⟨hl, Or.inl ⟨hh, rfl, rfl⟩⟩, ?_⟩
      refine updateState_return_ok.mpr ⟨⟨hd, hc⟩, ?_, by simp [hh]⟩
      simp only [ingest, hh, if_true]
    · refine ⟨(1 : ℕ), _, hinsert.mpr ⟨hl, Or.inr ⟨hh, rfl, rfl⟩⟩, ?_⟩
      rw [if_pos Nat.one_pos, Server.transact_bind, bind_ok]
      refine ⟨(), _, updateBalances_ok.mpr ⟨hfit hh, rfl⟩, ?_⟩
      refine updateState_return_ok.mpr ⟨⟨hd, hc⟩, ?_, by simp [hh]⟩
      simp only [ingest, hh, if_false]

/-! ### The tables after an accepted event -/

section Tables

variable (db : Db) (ev : DecodedStreamEvent) (recipient : String)

@[simp] theorem cancelStream_streamEvents :
    (cancelStream db recipient).streamEvents = db.streamEvents := by
  unfold cancelStream changeStatus; split <;> (try split_ifs) <;> rfl

@[simp] theorem cancelStream_streamBalances :
    (cancelStream db recipient).streamBalances = db.streamBalances := by
  unfold cancelStream changeStatus; split <;> (try split_ifs) <;> rfl

@[simp] theorem cancelStream_indexerCursor :
    (cancelStream db recipient).indexerCursor = db.indexerCursor := by
  unfold cancelStream changeStatus; split <;> (try split_ifs) <;> rfl

theorem ingest_streamEvents :
    (ingest db ev).streamEvents =
      if ev.transactionHash ∈ db.hashes then db.streamEvents else db.streamEvents ++ [ev] := by
  unfold ingest credit; split_ifs <;> simp

theorem ingest_streamBalances :
    (ingest db ev).streamBalances =
      if ev.transactionHash ∈ db.hashes then db.streamBalances
      else Function.update db.streamBalances ev.recipient
        (creditedBalance ev (db.streamBalances ev.recipient)) := by
  unfold ingest credit; split_ifs <;> simp

theorem ingest_indexerCursor : (ingest db ev).indexerCursor = db.indexerCursor := by
  unfold ingest credit; split_ifs <;> simp

/-- The state update reads and writes `vesting_streams` only. -/
theorem cancelStream_vestingStreams_congr {db db' : Db}
    (h : db.vestingStreams = db'.vestingStreams) :
    (cancelStream db recipient).vestingStreams = (cancelStream db' recipient).vestingStreams := by
  unfold cancelStream changeStatus
  rw [h]
  split
  · exact h
  · split_ifs
    · exact h
    · rfl

theorem ingest_vestingStreams :
    (ingest db ev).vestingStreams =
      if ev.eventType = .streamCancelled then (cancelStream db ev.recipient).vestingStreams
      else db.vestingStreams := by
  unfold ingest
  by_cases hh : ev.transactionHash ∈ db.hashes <;> split_ifs
  · rfl
  · rfl
  · exact cancelStream_vestingStreams_congr ev.recipient rfl
  · rfl

/-- After an accepted event its transaction hash is in the index. -/
theorem mem_hashes_ingest (hash : String) :
    hash ∈ (ingest db ev).hashes ↔ hash ∈ db.hashes ∨ hash = ev.transactionHash := by
  unfold Db.hashes
  rw [ingest_streamEvents]
  split_ifs with h
  · exact ⟨Or.inl, fun hm => hm.elim id fun he => he ▸ h⟩
  · simp

end Tables

/-! ### Batches -/

/-- `upsertStreamEvents` commits. -/
def Commits (db : Db) (events : List DecodedStreamEvent) : Prop :=
  (postgres.transact (upsertStreamEvents events) db).isOk = true

instance (db : Db) (events : List DecodedStreamEvent) : Decidable (Commits db events) := by
  unfold Commits; infer_instance

/-- The database after `upsertStreamEvents`, committed or rolled back. -/
def upsertBatch (db : Db) (events : List DecodedStreamEvent) : Db :=
  commit (postgres.transact (upsertStreamEvents events)) db

theorem upsertLoop_ok {events : List DecodedStreamEvent} {db db' : Db} {n m : ℕ} :
    postgres.transact (upsertLoop events n) db = .ok (m, db') ↔
      AllSteps ingest Accepts db events ∧ run ingest db events = db' ∧
        n + db'.streamEvents.length = m + db.streamEvents.length := by
  induction events generalizing db n with
  | nil =>
    unfold upsertLoop
    rw [Program.pure_eq, Server.transact_done, pure_ok]
    constructor
    · rintro ⟨rfl, rfl⟩
      exact ⟨trivial, rfl, rfl⟩
    · rintro ⟨-, rfl, h⟩
      rw [run_nil] at h
      exact ⟨by omega, rfl⟩
  | cons ev events ih =>
    have hlen : (ingest db ev).streamEvents.length =
        db.streamEvents.length + if ev.transactionHash ∈ db.hashes then 0 else 1 := by
      rw [ingest_streamEvents]; split_ifs <;> simp
    unfold upsertLoop
    rw [Server.transact_bind, bind_ok]
    constructor
    · rintro ⟨k, db1, h1, h2⟩
      obtain ⟨ha, rfl, rfl⟩ := upsertEvent_ok.mp h1
      obtain ⟨hall, hrun, hn⟩ := ih.mp h2
      exact ⟨⟨ha, hall⟩, hrun, by omega⟩
    · rintro ⟨⟨ha, hall⟩, hrun, hn⟩
      exact ⟨_, _, upsertEvent_ok.mpr ⟨ha, rfl, rfl⟩, ih.mpr ⟨hall, hrun, by omega⟩⟩

/-- **A batch** that runs alone: it commits exactly if every event is accepted where it stands, and
returns the number of rows it inserted. -/
theorem upsertStreamEvents_ok {events : List DecodedStreamEvent} {db db' : Db} {n : ℕ} :
    postgres.transact (upsertStreamEvents events) db = .ok (n, db') ↔
      AllSteps ingest Accepts db events ∧ run ingest db events = db' ∧
        db'.streamEvents.length = n + db.streamEvents.length := by
  unfold upsertStreamEvents
  rw [upsertLoop_ok, zero_add]

theorem commits_iff {db : Db} {events : List DecodedStreamEvent} :
    Commits db events ↔ AllSteps ingest Accepts db events := by
  constructor
  · intro h
    obtain ⟨⟨n, db'⟩, hok⟩ := exists_ok_of_isOk h
    exact (upsertStreamEvents_ok.mp hok).1
  · intro h
    have hstep : ∀ st ev, db.streamEvents.length ≤ st.streamEvents.length →
        db.streamEvents.length ≤ (ingest st ev).streamEvents.length := by
      intro st ev hst
      refine hst.trans ?_
      rw [ingest_streamEvents]; split_ifs <;> simp
    have hle : db.streamEvents.length ≤ (run ingest db events).streamEvents.length :=
      (allStates_of_step hstep le_rfl).last
    unfold Commits
    rw [upsertStreamEvents_ok.mpr ⟨h, rfl, (Nat.sub_add_cancel hle).symm⟩]
    rfl

theorem upsertBatch_of_commits {db : Db} {events : List DecodedStreamEvent}
    (h : Commits db events) : upsertBatch db events = run ingest db events := by
  obtain ⟨⟨n, db'⟩, hok⟩ := exists_ok_of_isOk h
  rw [upsertBatch, commit_of_ok hok, (upsertStreamEvents_ok.mp hok).2.1]

/-- A batch that does not commit leaves no trace. -/
theorem upsertBatch_of_not_commits {db : Db} {events : List DecodedStreamEvent}
    (h : ¬ Commits db events) : upsertBatch db events = db := commit_of_not_isOk h

/-- What every accepted event preserves, every batch preserves. -/
theorem upsertBatch_induct {Inv : Db → Prop} (hstep : ∀ db ev, Inv db → Accepts db ev →
    Inv (ingest db ev)) {db : Db} (h : Inv db) (events : List DecodedStreamEvent) :
    Inv (upsertBatch db events) := by
  by_cases hc : Commits db events
  · rw [upsertBatch_of_commits hc]
    exact run_induct hstep h (commits_iff.mp hc)
  · rwa [upsertBatch_of_not_commits hc]

end VestingDripStream.Backend.Persistence
