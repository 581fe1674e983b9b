import VestingDripStream.Backend.Persistence
import VestingDripStream.Lib.Run

/-! # The handlers of terminal events

`handleStreamCancelled` and `handleStreamClawedBack` change the status of a stream and write the
details of the event to its row. The details are columns of `vesting_streams` that the migrations
003 and 008 add; here they stand beside the tables of `Backend.Database`, with statements of their
own. Every call runs in a transaction of its own. -/

namespace VestingDripStream.Backend.TerminalEvents

open VestingDripStream.Lib.Transaction VestingDripStream.Lib.Client VestingDripStream.Lib.Run
open VestingDripStream.Backend.Database VestingDripStream.Backend.Persistence

/-! ### The columns -/

/-- The columns of a stream's row that the handlers write. -/
structure Details where
  cancelledAtLedger : Option ℤ := none
  refundedAmount : Option ℤ := none
  cancellationTxHash : Option String := none
  cancellationRecipientPayout : Option ℤ := none
  clawedAtLedger : Option ℤ := none
  clawbackSponsor : Option String := none
  clawbackAmount : Option ℤ := none
  clawbackTxHash : Option String := none
  deriving DecidableEq, Repr

/-- The database, with the details of the streams; `recipients` are those with a row. -/
structure TerminalDb where
  base : Db
  details : String → Details
  recipients : List String
  recipients_spec : ∀ r, (base.vestingStreams r).isSome = true ↔ r ∈ recipients

/-- The errors of the database as before, and the unique column `cancellation_tx_hash`. -/
inductive TerminalFailure
  | database (f : Failure)
  | uniqueViolation
  deriving DecidableEq, Repr

/-- The statements of the handlers. -/
inductive TerminalStatement
  | base (s : Statement)
  | recordCancellation (recipient : String) (ledger refund : ℤ) (hash : String)
  | recordPayout (recipient : String)
  | recordClawback (recipient : String) (ledger : ℤ) (sponsor : String) (amount : ℤ)
      (hash : String)

/-- The updates are answered by the number of their rows. -/
abbrev TerminalStatement.Reply : TerminalStatement → Type
  | .base s => s.Reply
  | .recordCancellation _ _ _ _ => ℕ
  | .recordPayout _ => ℕ
  | .recordClawback _ _ _ _ _ => ℕ

/-- What a statement writes. -/
inductive TerminalEffect
  | base (e : Effect)
  | setDetails (recipient : String) (d : Details)

/-- No effect adds or removes a stream. -/
theorem isSome_apply (db : Db) (e : Effect) (r : String) :
    ((db.apply e).vestingStreams r).isSome = (db.vestingStreams r).isSome := by
  cases e with
  | setStatus recipient status =>
    unfold Db.apply
    by_cases h : r = recipient
    · subst h
      simp
    · simp [h]
  | _ => rfl

/-- An effect on the tables. -/
def TerminalDb.apply (db : TerminalDb) : TerminalEffect → TerminalDb
  | .base e =>
    { db with
      base := db.base.apply e
      recipients_spec := fun r => by rw [isSome_apply]; exact db.recipients_spec r }
  | .setDetails r d => { db with details := Function.update db.details r d }

/-- Another stream has this `cancellation_tx_hash`. -/
def TerminalDb.HashTaken (db : TerminalDb) (r hash : String) : Prop :=
  ∃ r' ∈ db.recipients, r' ≠ r ∧ (db.details r').cancellationTxHash = some hash

instance (db : TerminalDb) (r hash : String) : Decidable (db.HashTaken r hash) := by
  unfold TerminalDb.HashTaken; infer_instance

/-- An update of the details of the row of `r`, if there is one and nothing speaks against it. -/
def updateDetails (db : TerminalDb) (r : String) (violation : Option TerminalFailure) (d : Details) :
    Except TerminalFailure (List TerminalEffect × ℕ) :=
  match db.base.vestingStreams r, violation with
  | none, _ => .ok ([], 0)
  | some _, some f => .error f
  | some _, none => .ok ([.setDetails r d], 1)

/-- A statement on what its transaction sees. -/
def terminalExec : (s : TerminalStatement) → TerminalDb →
    Except TerminalFailure (List TerminalEffect × s.Reply)
  | .base s, db =>
    match exec s db.base with
    | .ok (es, r) => .ok (es.map .base, r)
    | .error f => .error (.database f)
  | .recordCancellation r ledger refund hash, db =>
    if ¬ FitsInteger ledger ∨ ¬ FitsBigint refund then .error (.database .numericValueOutOfRange)
    else
      updateDetails db r
        (if ¬ FitsVarchar64 hash then some (.database .stringDataRightTruncation)
          else if db.HashTaken r hash then some .uniqueViolation else none)
        { db.details r with
          cancelledAtLedger := some ledger
          refundedAmount := some refund
          cancellationTxHash := some hash }
  | .recordPayout r, db =>
    updateDetails db r none
      { db.details r with
        cancellationRecipientPayout := some (sumAmounts .tokensClaimed r db.base.streamEvents) }
  | .recordClawback r ledger sponsor amount hash, db =>
    if ¬ FitsInteger ledger then .error (.database .numericValueOutOfRange)
    else
      updateDetails db r
        (if ¬ FitsVarchar56 sponsor ∨ ¬ FitsVarchar64 hash then
          some (.database .stringDataRightTruncation) else none)
        { db.details r with
          clawedAtLedger := some ledger
          clawbackSponsor := some sponsor
          clawbackAmount := some amount
          clawbackTxHash := some hash }

/-- The database with the columns of the terminal events. -/
def terminalPostgres : Server TerminalDb TerminalStatement TerminalFailure TerminalEffect
    TerminalStatement.Reply := ⟨terminalExec, TerminalDb.apply⟩

/-! ### The handlers -/

/-- A program that sends such statements. -/
abbrev TerminalClient (α : Type) :=
  Program TerminalStatement TerminalStatement.Reply TerminalFailure α

/-- `transitionStreamStatus` on this database. -/
def transition (recipient : String) (toStatus : StreamStatus) : TerminalClient Unit :=
  (transitionStreamStatus recipient toStatus).lift .base (fun _ r => r) .database

/-- What the handlers do with an error: a stream that is not there, and a transition that is not
valid, are logged; the rest is thrown again. -/
def skipOrThrow : TerminalFailure → TerminalClient Unit
  | .database (.streamNotFoundError _) => .done ()
  | .database (.statusTransitionError _ _) => .done ()
  | f => .throw f

/-- `handleStreamCancelled`. -/
def handleStreamCancelled (ev : DecodedStreamEvent) : TerminalClient Unit :=
  Program.catchThrow (do
    transition ev.recipient .cancelled
    let sponsorRefund := ev.amount.getD 0
    let _ ← Program.send (.recordCancellation ev.recipient ev.ledgerSequence sponsorRefund
      ev.transactionHash)
    if ev.sponsor ≠ "" then do
      let _ ← Program.send (.recordPayout ev.recipient)) skipOrThrow

/-- `handleStreamClawedBack`. -/
def handleStreamClawedBack (ev : DecodedStreamEvent) : TerminalClient Unit :=
  Program.catchThrow (do
    transition ev.recipient .clawedback
    let clawbackAmount := ev.amount.getD 0
    let _ ← Program.send (.recordClawback ev.recipient ev.ledgerSequence ev.sponsor clawbackAmount
      ev.transactionHash)) skipOrThrow

/-- `handleTerminalEvent`. -/
def handleTerminalEvent (ev : DecodedStreamEvent) : TerminalClient Unit :=
  match ev.eventType with
  | .streamCancelled => handleStreamCancelled ev
  | .streamClawedBack => handleStreamClawedBack ev
  | .streamCreated | .tokensClaimed | .streamDrained => return ()

/-- One event, in a transaction of its own. -/
def process (db : TerminalDb) (ev : DecodedStreamEvent) : TerminalDb :=
  commit (terminalPostgres.transact (handleTerminalEvent ev)) db

/-! ### What an event changes -/

/-- The columns that must not change once the stream has ended. -/
structure Record where
  status : Option StreamStatus
  refundedAmount : Option ℤ
  cancelledAtLedger : Option ℤ
  cancellationTxHash : Option String
  clawbackAmount : Option ℤ
  clawedAtLedger : Option ℤ
  clawbackTxHash : Option String
  deriving DecidableEq, Repr

/-- What the table says of how a stream ended. -/
def TerminalDb.record (db : TerminalDb) (r : String) : Record where
  status := (db.base.vestingStreams r).map (·.status)
  refundedAmount := (db.details r).refundedAmount
  cancelledAtLedger := (db.details r).cancelledAtLedger
  cancellationTxHash := (db.details r).cancellationTxHash
  clawbackAmount := (db.details r).clawbackAmount
  clawedAtLedger := (db.details r).clawedAtLedger
  clawbackTxHash := (db.details r).clawbackTxHash

/-- The status that the handler of the event moves the stream to. -/
def target (ev : DecodedStreamEvent) : Option StreamStatus :=
  match ev.eventType with
  | .streamCancelled => some .cancelled
  | .streamClawedBack => some .clawedback
  | .streamCreated | .tokensClaimed | .streamDrained => none

/-- The record with the event in it. -/
def Record.write (rec : Record) (ev : DecodedStreamEvent) : Record :=
  match ev.eventType with
  | .streamCancelled =>
    { rec with
      status := some .cancelled
      refundedAmount := some (ev.amount.getD 0)
      cancelledAtLedger := some ev.ledgerSequence
      cancellationTxHash := some ev.transactionHash }
  | .streamClawedBack =>
    { rec with
      status := some .clawedback
      clawbackAmount := some (ev.amount.getD 0)
      clawedAtLedger := some ev.ledgerSequence
      clawbackTxHash := some ev.transactionHash }
  | .streamCreated | .tokensClaimed | .streamDrained => rec

/-- The database rejects the details of the event. -/
def Refused (db : TerminalDb) (ev : DecodedStreamEvent) : Prop :=
  ¬ FitsInteger ev.ledgerSequence ∨ ¬ FitsVarchar64 ev.transactionHash ∨
    (ev.eventType = .streamCancelled ∧
      (¬ FitsBigint (ev.amount.getD 0) ∨ db.HashTaken ev.recipient ev.transactionHash)) ∨
    (ev.eventType = .streamClawedBack ∧ ¬ FitsVarchar56 ev.sponsor)

instance (db : TerminalDb) (ev : DecodedStreamEvent) : Decidable (Refused db ev) := by
  unfold Refused; infer_instance

/-- The handler of the event gets to its end. -/
def Writes (db : TerminalDb) (ev : DecodedStreamEvent) : Prop :=
  ∃ row toStatus, db.base.vestingStreams ev.recipient = some row ∧ target ev = some toStatus ∧
    isValidTransition row.status toStatus = true ∧ ¬ Refused db ev

section Process

variable {db : TerminalDb} {ev : DecodedStreamEvent} {r : String} {row : VestingStream}
  {toStatus : StreamStatus}

/-- The effects of a change of the status. -/
def moved (db : TerminalDb) (r : String) (row : VestingStream) (toStatus : StreamStatus) :
    TerminalDb :=
  if row.status = toStatus then db
  else (db.apply (.base (.insertTransition ⟨r, row.status, toStatus⟩))).apply
    (.base (.setStatus r toStatus))

theorem check_of_isValidTransition (h : isValidTransition row.status toStatus = true) :
    checkStreamStatusTransition row.status toStatus = .ok () := by
  revert h
  cases row.status <;> cases toStatus <;> decide

theorem terminalExec_base {s : Statement} {es : List Effect} {a : s.Reply}
    (h : exec s db.base = .ok (es, a)) :
    terminalPostgres.exec (.base s) db = .ok (es.map .base, a) := by
  show (match exec s db.base with
    | .ok (es, a) => Except.ok (es.map TerminalEffect.base, a)
    | .error f => .error (TerminalFailure.database f)) = _
  rw [h]

theorem exec_select (h : db.base.vestingStreams r = some row) :
    exec (.selectStatusForUpdate r) db.base = .ok ([.lockStream r], some row.status) := by
  simp only [exec, h]

theorem exec_updateStatus (h : db.base.vestingStreams r = some row) (hne : row.status ≠ toStatus)
    (hv : isValidTransition row.status toStatus = true) :
    exec (.updateStatus toStatus r) db.base =
      .ok ([.insertTransition ⟨r, row.status, toStatus⟩, .setStatus r toStatus], 1) :=
  updateStatusWhere_ok.mpr <| Or.inr
    ⟨row, h, trivial, updateStatus_ok.mpr (Or.inr ⟨hne, check_of_isValidTransition hv, rfl⟩), rfl⟩

/-- **The transition**, and what the handler does after it. -/
theorem transact_transition (rest : TerminalClient Unit) :
    terminalPostgres.transact
        (Program.catchThrow (transition r toStatus >>= fun _ => rest) skipOrThrow) db =
      match db.base.vestingStreams r with
      | none => .ok ((), db)
      | some row =>
        if isValidTransition row.status toStatus = true then
          terminalPostgres.transact (rest.catchThrow skipOrThrow) (moved db r row toStatus)
        else .ok ((), db) := by
  cases h : db.base.vestingStreams r with
  | none =>
    have hx : exec (.selectStatusForUpdate r) db.base = .ok ([], none) := by simp only [exec, h]
    exact Server.transact_query_of_ok (terminalExec_base hx)
  | some row =>
    refine (Server.transact_query_of_ok (terminalExec_base (exec_select h))).trans ?_
    show terminalPostgres.transact (Program.catchThrow
      (Program.lift _ _ _ (if row.status = toStatus then (.done () : Client Unit)
        else if ¬ isValidTransition row.status toStatus then
          .throw (.statusTransitionError row.status toStatus)
        else .query (Statement.updateStatus toStatus r) fun _ => .done ()) >>= fun _ => rest)
      skipOrThrow) db =
      if isValidTransition row.status toStatus = true then
        terminalPostgres.transact (rest.catchThrow skipOrThrow) (moved db r row toStatus)
      else .ok ((), db)
    by_cases heq : row.status = toStatus
    · -- the identity passes
      have hv : isValidTransition row.status toStatus = true := by simp [isValidTransition, heq]
      rw [if_pos hv]
      simp only [moved, heq, if_true]
      rfl
    · by_cases hv : isValidTransition row.status toStatus = true
      · simp only [heq, hv, not_true_eq_false, if_false, if_true, moved]
        exact Server.transact_query_of_ok (terminalExec_base (exec_updateStatus h heq hv))
      · rw [if_neg hv]
        simp only [heq, hv, if_false]
        rfl

theorem moved_details : (moved db r row toStatus).details = db.details := by
  unfold moved
  split_ifs <;> rfl

theorem moved_recipients : (moved db r row toStatus).recipients = db.recipients := by
  unfold moved
  split_ifs <;> rfl

theorem moved_vestingStreams (h : db.base.vestingStreams r = some row) :
    (moved db r row toStatus).base.vestingStreams =
      Function.update db.base.vestingStreams r (some { row with status := toStatus }) := by
  unfold moved
  split_ifs with heq
  · rw [← heq, ← h, Function.update_eq_self]
  · show Function.update db.base.vestingStreams r ((db.base.vestingStreams r).map _) = _
    rw [h]
    rfl

theorem refused_moved : Refused (moved db r row toStatus) ev ↔ Refused db ev := by
  unfold Refused TerminalDb.HashTaken
  rw [moved_details, moved_recipients]

theorem record_moved (h : db.base.vestingStreams r = some row) :
    (moved db r row toStatus).record =
      Function.update db.record r { db.record r with status := some toStatus } := by
  funext r'
  unfold TerminalDb.record
  rw [moved_details, moved_vestingStreams h]
  by_cases hr : r' = r
  · subst hr
    simp
  · simp [hr]

/-- The columns of `Record` in the details. -/
def Record.withDetails (rec : Record) (d : Details) : Record where
  status := rec.status
  refundedAmount := d.refundedAmount
  cancelledAtLedger := d.cancelledAtLedger
  cancellationTxHash := d.cancellationTxHash
  clawbackAmount := d.clawbackAmount
  clawedAtLedger := d.clawedAtLedger
  clawbackTxHash := d.clawbackTxHash

theorem record_setDetails (d : Details) :
    (db.apply (.setDetails r d)).record =
      Function.update db.record r ((db.record r).withDetails d) := by
  funext r'
  by_cases hr : r' = r
  · subst hr
    simp [TerminalDb.record, TerminalDb.apply, Record.withDetails]
  · simp [TerminalDb.record, TerminalDb.apply, hr]

/-- An update of the details of a row that is there and that nothing speaks against. -/
theorem updateDetails_none (h : db.base.vestingStreams r = some row) (d : Details) :
    updateDetails db r none d = .ok ([.setDetails r d], 1) := by
  unfold updateDetails
  rw [h]

theorem updateDetails_some (h : db.base.vestingStreams r = some row) (f : TerminalFailure)
    (d : Details) : updateDetails db r (some f) d = .error f := by
  unfold updateDetails
  rw [h]

/-- The statement that a handler sends after the transition. -/
def details (ev : DecodedStreamEvent) : Option TerminalStatement :=
  match ev.eventType with
  | .streamCancelled =>
    some (.recordCancellation ev.recipient ev.ledgerSequence (ev.amount.getD 0) ev.transactionHash)
  | .streamClawedBack =>
    some (.recordClawback ev.recipient ev.ledgerSequence ev.sponsor (ev.amount.getD 0)
      ev.transactionHash)
  | .streamCreated | .tokensClaimed | .streamDrained => none

theorem exec_details_error {s : TerminalStatement} (hs : details ev = some s)
    (h : db.base.vestingStreams ev.recipient = some row) (hr : Refused db ev) :
    ∃ f, terminalPostgres.exec s db = .error f := by
  cases ht : ev.eventType <;> simp only [details, ht, Option.some.injEq, reduceCtorEq] at hs
  case streamCancelled =>
    subst hs
    simp only [Refused, ht, true_and, reduceCtorEq, false_and, or_false] at hr
    simp only [terminalPostgres, terminalExec]
    by_cases hnum : ¬ FitsInteger ev.ledgerSequence ∨ ¬ FitsBigint (ev.amount.getD 0)
    · exact ⟨_, if_pos hnum⟩
    · rw [if_neg hnum]
      by_cases hvar : FitsVarchar64 ev.transactionHash
      · have hhash : db.HashTaken ev.recipient ev.transactionHash := by tauto
        rw [if_neg (not_not_intro hvar), if_pos hhash]
        exact ⟨_, updateDetails_some h _ _⟩
      · rw [if_pos hvar]
        exact ⟨_, updateDetails_some h _ _⟩
  case streamClawedBack =>
    subst hs
    simp only [Refused, ht, true_and, reduceCtorEq, false_and, false_or] at hr
    simp only [terminalPostgres, terminalExec]
    by_cases hnum : FitsInteger ev.ledgerSequence
    · have hvar : ¬ FitsVarchar56 ev.sponsor ∨ ¬ FitsVarchar64 ev.transactionHash := by tauto
      rw [if_neg (not_not_intro hnum), if_pos hvar]
      exact ⟨_, updateDetails_some h _ _⟩
    · exact ⟨_, if_pos hnum⟩

/-- The columns of the row after the statement. -/
def Details.write (d : Details) (ev : DecodedStreamEvent) : Details :=
  match ev.eventType with
  | .streamCancelled =>
    { d with
      cancelledAtLedger := some ev.ledgerSequence
      refundedAmount := some (ev.amount.getD 0)
      cancellationTxHash := some ev.transactionHash }
  | .streamClawedBack =>
    { d with
      clawedAtLedger := some ev.ledgerSequence
      clawbackSponsor := some ev.sponsor
      clawbackAmount := some (ev.amount.getD 0)
      clawbackTxHash := some ev.transactionHash }
  | .streamCreated | .tokensClaimed | .streamDrained => d

theorem exec_details_ok {s : TerminalStatement} (hs : details ev = some s)
    (h : db.base.vestingStreams ev.recipient = some row) (hr : ¬ Refused db ev) :
    ∃ a, terminalPostgres.exec s db =
      .ok ([.setDetails ev.recipient ((db.details ev.recipient).write ev)], a) := by
  cases ht : ev.eventType <;> simp only [details, ht, Option.some.injEq, reduceCtorEq] at hs
  case streamCancelled =>
    subst hs
    simp only [terminalPostgres, terminalExec, Details.write, ht]
    simp only [Refused, ht, true_and, reduceCtorEq, false_and, or_false, not_or] at hr
    obtain ⟨hl, hv, hb, hh⟩ := hr
    rw [if_neg (not_or_intro hl hb), if_neg hv, if_neg hh]
    exact ⟨_, updateDetails_none h _⟩
  case streamClawedBack =>
    subst hs
    simp only [terminalPostgres, terminalExec, Details.write, ht]
    simp only [Refused, ht, true_and, reduceCtorEq, false_and, false_or, not_or] at hr
    obtain ⟨hl, hv, hsp⟩ := hr
    rw [if_neg hl, if_neg (not_or_intro hsp hv)]
    exact ⟨_, updateDetails_none h _⟩

/-- What comes after the details leaves the record alone. -/
def Harmless (r : String) (p : TerminalClient Unit) : Prop :=
  ∀ db : TerminalDb, (db.base.vestingStreams r).isSome = true →
    ∃ db', terminalPostgres.transact (p.catchThrow skipOrThrow) db = .ok ((), db') ∧
      db'.record = db.record

theorem harmless_recordPayout : Harmless r (.query (.recordPayout r) fun _ => .done ()) := by
  intro db h
  obtain ⟨row, hrow⟩ := Option.isSome_iff_exists.mp h
  refine ⟨_, Server.transact_query_of_ok (updateDetails_none hrow _), ?_⟩
  refine (record_setDetails _).trans ?_
  exact Function.update_eq_self r _

/-- Both handlers: the transition, the details, and what comes after. -/
theorem handleTerminalEvent_eq (ht : target ev = some toStatus) :
    ∃ s next, details ev = some s ∧ (∀ a, Harmless ev.recipient (next a)) ∧
      handleTerminalEvent ev =
        (transition ev.recipient toStatus >>= fun _ => .query s next).catchThrow skipOrThrow := by
  cases he : ev.eventType <;> simp only [target, he, Option.some.injEq, reduceCtorEq] at ht
  case streamCancelled =>
    subst ht
    refine ⟨_, fun _ => if ev.sponsor ≠ "" then .query (.recordPayout ev.recipient)
      fun _ => .done () else .done (), by unfold details; rw [he], fun _ => ?_, ?_⟩
    · split_ifs with hs
      · exact harmless_recordPayout
      · exact fun db _ => ⟨db, rfl, rfl⟩
    · simp only [handleTerminalEvent, he]
      rfl
  case streamClawedBack =>
    subst ht
    refine ⟨_, fun _ => .done (), by unfold details; rw [he], fun _ db _ => ⟨db, rfl, rfl⟩, ?_⟩
    simp only [handleTerminalEvent, he]
    rfl

theorem withDetails_write (ht : target ev = some toStatus)
    (hr : (db.record r).status = some toStatus) :
    (db.record r).withDetails ((db.details r).write ev) = (db.record r).write ev := by
  cases he : ev.eventType <;> simp only [target, he, Option.some.injEq, reduceCtorEq] at ht
  all_goals
    subst ht
    simp only [Record.withDetails, Details.write, Record.write, he, hr]
    rfl

theorem write_withStatus (ht : target ev = some toStatus) (rec : Record) :
    Record.write { rec with status := some toStatus } ev = rec.write ev := by
  cases he : ev.eventType <;> simp only [target, he, Option.some.injEq, reduceCtorEq] at ht
  all_goals
    subst ht
    simp only [Record.write, he]

/-- An event that does not get to the end of its handler changes nothing. -/
theorem process_of_not_writes (h : ¬ Writes db ev) : process db ev = db := by
  unfold process
  cases ht : target ev with
  | none =>
    have hd : handleTerminalEvent ev = .done () := by
      unfold handleTerminalEvent
      unfold target at ht
      split at ht <;> first | rfl | cases ht
    rw [hd]
    rfl
  | some toStatus =>
    obtain ⟨s, next, hs, -, heq⟩ := handleTerminalEvent_eq ht
    have htx : terminalPostgres.transact (handleTerminalEvent ev) db = _ :=
      heq ▸ transact_transition (.query s next)
    cases hrow : db.base.vestingStreams ev.recipient with
    | none =>
      rw [hrow] at htx
      exact commit_of_ok htx
    | some row =>
      simp only [hrow] at htx
      by_cases hv : isValidTransition row.status toStatus = true
      · -- then the server rejects the details
        have hr : Refused db ev := by
          by_contra hr
          exact h ⟨row, toStatus, hrow, ht, hv, hr⟩
        rw [if_pos hv] at htx
        have hrow' : (moved db ev.recipient row toStatus).base.vestingStreams ev.recipient =
            some { row with status := toStatus } := by
          rw [moved_vestingStreams hrow, Function.update_self]
        obtain ⟨f, hf⟩ := exec_details_error hs hrow' (refused_moved.mpr hr)
        refine commit_of_not_isOk ?_
        rw [htx, Program.catchThrow, Server.transact_query_of_error hf]
        exact nofun
      · rw [if_neg hv] at htx
        exact commit_of_ok htx

/-- An event that gets to the end of its handler is written to the record of its stream, whatever
is there. -/
theorem record_process (h : Writes db ev) :
    (process db ev).record =
      Function.update db.record ev.recipient ((db.record ev.recipient).write ev) := by
  obtain ⟨row, toStatus, hrow, ht, hv, hr⟩ := h
  obtain ⟨s, next, hs, hnext, heq⟩ := handleTerminalEvent_eq ht
  have htx : terminalPostgres.transact (handleTerminalEvent ev) db = _ :=
    heq ▸ transact_transition (.query s next)
  simp only [hrow, if_pos hv] at htx
  set db1 := moved db ev.recipient row toStatus with hdb1
  have hrow1 : db1.base.vestingStreams ev.recipient = some { row with status := toStatus } := by
    rw [hdb1, moved_vestingStreams hrow, Function.update_self]
  obtain ⟨a, ha⟩ := exec_details_ok hs hrow1 (fun h => hr (refused_moved.mp h))
  obtain ⟨db', hdb', hsame⟩ := hnext a
    (db1.apply (.setDetails ev.recipient ((db1.details ev.recipient).write ev)))
    (by rw [show (db1.apply _).base = db1.base from rfl, hrow1]; rfl)
  rw [Program.catchThrow, Server.transact_query_of_ok ha] at htx
  have hrun : process db ev = db' := commit_of_ok (htx.trans hdb')
  have hrec1 : db1.record = _ := record_moved hrow
  have hstatus : (db1.record ev.recipient).status = some toStatus := by
    rw [hrec1, Function.update_self]
  rw [hrun, hsame, record_setDetails, withDetails_write ht hstatus, hrec1, Function.update_self,
    write_withStatus ht, Function.update_idem]

end Process

/-! ### Runs -/

/-- The stream has ended: its status admits no other. -/
def IsTerminal (db : TerminalDb) (r : String) : Prop :=
  ∃ status, (db.record r).status = some status ∧ validTransitions status = []

/-- From the moment on at which the stream has ended nothing changes its record, and what is there
is what the event has written that ended it. -/
structure WrittenOnce (db : TerminalDb) (events : List DecodedStreamEvent) (r : String) : Prop where
  fixed : ∀ pre mid post, events = pre ++ mid ++ post → IsTerminal (run process db pre) r →
    (run process db (pre ++ mid)).record r = (run process db pre).record r
  caused : ∀ pre ev mid post, events = pre ++ ev :: mid ++ post →
    ¬ IsTerminal (run process db pre) r → IsTerminal (run process db (pre ++ [ev])) r →
    (run process db (pre ++ ev :: mid)).record r = ((run process db pre).record r).write ev

/-- The event does not find the stream in the very status that it leads to, unless the database
rejects it or has its details already. -/
def Agrees (db : TerminalDb) (ev : DecodedStreamEvent) : Prop :=
  target ev ≠ none → (db.record ev.recipient).status = target ev →
    Refused db ev ∨ (db.record ev.recipient).write ev = db.record ev.recipient

section Runs

variable {db : TerminalDb} {ev : DecodedStreamEvent} {events : List DecodedStreamEvent} {r : String}

theorem validTransitions_target {toStatus : StreamStatus} (ht : target ev = some toStatus) :
    validTransitions toStatus = [] := by
  cases he : ev.eventType <;> simp only [target, he, Option.some.injEq, reduceCtorEq] at ht
  all_goals
    subst ht
    rfl

theorem IsTerminal.congr {db' : TerminalDb} (h : IsTerminal db r)
    (hrec : db'.record r = db.record r) : IsTerminal db' r := by
  obtain ⟨status, hs, hv⟩ := h
  exact ⟨status, by rw [hrec]; exact hs, hv⟩

/-- A stream that has ended takes only the status that it has. -/
theorem Writes.status_of_isTerminal (h : Writes db ev) (hterm : IsTerminal db ev.recipient) :
    (db.record ev.recipient).status = target ev := by
  obtain ⟨row, toStatus, hrow, ht, hv, -⟩ := h
  obtain ⟨status, hs, hnil⟩ := hterm
  have hstatus : (db.record ev.recipient).status = some row.status := by
    unfold TerminalDb.record
    rw [hrow]
    rfl
  obtain rfl : row.status = status := Option.some.inj (hstatus.symm.trans hs)
  unfold isValidTransition at hv
  rw [hnil] at hv
  simp only [List.contains_nil, Bool.or_false, decide_eq_true_eq] at hv
  rw [hstatus, ht, hv]

theorem writes_of_status (ht : target ev ≠ none)
    (hs : (db.record ev.recipient).status = target ev) (hr : ¬ Refused db ev) : Writes db ev := by
  obtain ⟨toStatus, ht⟩ := Option.ne_none_iff_exists'.mp ht
  rw [ht] at hs
  unfold TerminalDb.record at hs
  obtain ⟨row, hrow, rfl⟩ := Option.map_eq_some_iff.mp hs
  exact ⟨row, _, hrow, ht, by simp [isValidTransition], hr⟩

/-- **One event** leaves the record of a stream that has ended alone exactly if it agrees with
it. -/
theorem process_fixed_iff :
    (IsTerminal db r → (process db ev).record r = db.record r) ↔
      (ev.recipient = r → Agrees db ev) := by
  by_cases hw : Writes db ev
  · rw [record_process hw]
    by_cases hrec : ev.recipient = r
    · subst hrec
      rw [Function.update_self]
      constructor
      · intro h _ ht hs
        obtain ⟨toStatus, ht⟩ := Option.ne_none_iff_exists'.mp ht
        exact Or.inr (h ⟨toStatus, hs.trans ht, validTransitions_target ht⟩)
      · intro h hterm
        obtain ⟨row, toStatus, -, ht, -, hr⟩ := id hw
        have ht' : target ev ≠ none := by rw [ht]; exact nofun
        exact (h rfl ht' (hw.status_of_isTerminal hterm)).resolve_left hr
    · rw [Function.update_of_ne (Ne.symm hrec)]
      exact ⟨fun _ h => absurd h hrec, fun _ _ => rfl⟩
  · rw [process_of_not_writes hw]
    refine ⟨fun _ _ ht hs => Or.inl ?_, fun _ _ => rfl⟩
    by_contra hr
    exact hw (writes_of_status ht hs hr)

/-- The event that ends a stream is written to its record. -/
theorem record_of_ended (hbefore : ¬ IsTerminal db r) (hafter : IsTerminal (process db ev) r) :
    (process db ev).record r = (db.record r).write ev := by
  by_cases hw : Writes db ev
  · have hrec := record_process hw
    by_cases heq : ev.recipient = r
    · subst heq
      rw [hrec, Function.update_self]
    · refine absurd (hafter.congr ?_) hbefore
      rw [hrec, Function.update_of_ne (Ne.symm heq)]
  · rw [process_of_not_writes hw] at hafter
    exact absurd hafter hbefore

/-- **What is recorded once a stream has ended stays** exactly if every event of the run that finds
it ended agrees with it. -/
theorem writtenOnce_iff :
    WrittenOnce db events r ↔
      AllSteps process (fun db ev => ev.recipient = r → Agrees db ev) db events := by
  have hfixed : _ ↔ AllSteps process _ db events :=
    fixed_iff_allSteps (f := fun db => db.record r) (T := fun db => IsTerminal db r)
      fun _ _ h hrec => h.congr hrec
  have hsteps : AllSteps process (fun db ev => IsTerminal db r →
      (process db ev).record r = db.record r) db events ↔
      AllSteps process (fun db ev => ev.recipient = r → Agrees db ev) db events :=
    ⟨AllSteps.imp fun _ _ => process_fixed_iff.mp, AllSteps.imp fun _ _ => process_fixed_iff.mpr⟩
  rw [← hsteps, ← hfixed]
  refine ⟨WrittenOnce.fixed, fun h => ⟨h, ?_⟩⟩
  rintro pre ev mid post rfl hbefore hafter
  have hstay := h (pre ++ [ev]) mid post (by simp) hafter
  rw [run_append] at hafter
  rw [List.append_assoc, List.singleton_append] at hstay
  rw [hstay, run_append]
  exact record_of_ended hbefore hafter

/-- A database with one stream, which is active. -/
def oneStream : TerminalDb where
  base := Db.fresh fun r => if r = "GRECIPIENT" then some ⟨.active, 5000⟩ else none
  details := fun _ => {}
  recipients := ["GRECIPIENT"]
  recipients_spec := fun r => by
    by_cases h : r = "GRECIPIENT" <;> simp [Db.fresh, h]

/-- A cancellation of one stream. -/
def cancelledFor (amount ledger : ℤ) (hash : String) : DecodedStreamEvent :=
  ⟨.streamCancelled, "GRECIPIENT", "GSPONSOR", "", some amount, ledger, hash⟩

/-- The stream is cancelled twice; the second event overwrites what the first has recorded. -/
theorem not_writtenOnce : ¬ ∀ db events r, WrittenOnce db events r := by
  intro h
  have hfixed := (h oneStream [cancelledFor 3000 1002 "a1", cancelledFor 10 1003 "b2"]
    "GRECIPIENT").fixed [cancelledFor 3000 1002 "a1"] [cancelledFor 10 1003 "b2"] [] rfl
    ⟨.cancelled, by decide +kernel, rfl⟩
  revert hfixed
  decide +kernel

end Runs

end VestingDripStream.Backend.TerminalEvents
