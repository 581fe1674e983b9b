import VestingDripStream.Lib.Paging
import VestingDripStream.Backend.Persistence
import VestingDripStream.Backend.Decoder

/-! # The indexer's poll

`StreamIndexer.tick`: it reads the cursor, fetches the next page from Horizon, drops the records
that are not final, decodes the others, writes them in one transaction and then moves the cursor to
the end of the page. Horizon is a log of records that grows at its end. Any call may fail, also one
that the database has carried out. A tick moves the cursor past the records that it dropped:
`losesNothing_iff` says exactly which runs lose no event. -/

namespace VestingDripStream.Backend.Indexer

open VestingDripStream.Lib VestingDripStream.Lib.Transaction VestingDripStream.Lib.Run
open VestingDripStream.Lib.Client VestingDripStream.Lib.Paging
open VestingDripStream.Backend.Database VestingDripStream.Backend.Persistence
open VestingDripStream.Backend.Decoder

/-! ### Calls -/

/-- What becomes of a call to the database: it is answered, it fails before the database has done
anything, or the answer is lost after it has. -/
inductive Link
  | answered
  | unsent
  | unanswered
  deriving DecidableEq, Repr

/-- The database after a call, whether the call has committed, and what the caller gets; `none` when
the call throws. -/
structure Outcome (α : Type) where
  db : Db
  committed : Bool
  reply : Option α

/-- A call to the database. -/
def call {α : Type} (link : Link) (p : Client α) (db : Db) : Outcome α :=
  match link, postgres.transact p db with
  | .unsent, _ => ⟨db, false, none⟩
  | _, .error _ => ⟨db, false, none⟩
  | .answered, .ok (a, db') => ⟨db', true, some a⟩
  | .unanswered, .ok (_, db') => ⟨db', true, none⟩

/-! ### Horizon -/

section Horizon

variable {P : Type} [LinearOrder P] (position : String → P)

/-- The place of a cursor in the log; without one Horizon starts at the beginning. -/
def cursorPosition (cursor : String) : WithBot P := if cursor = "" then ⊥ else position cursor

/-- The place of a record. -/
def recordPosition (record : HorizonEventRecord) : P := position record.pagingToken

/-- `FetchPageResult`. -/
structure FetchPageResult where
  records : List HorizonEventRecord
  nextCursor : Option String
  latestLedger : ℤ

/-- `fetchEventsPage`, where Horizon has at most `available` of the records at hand. `latestLedger`
is what `fetchLatestLedger` returns: 0 when it fails. -/
def fetchEventsPage (log : List HorizonEventRecord) (cursor : String) (pageLimit available : ℕ)
    (latestLedger : ℤ) : FetchPageResult :=
  let records := page (recordPosition position) (cursorPosition position cursor)
    (min pageLimit available) log
  ⟨records, records.getLast?.map (·.pagingToken), latestLedger⟩

/-! ### `StreamIndexer.ts` -/

/-- What `tick` reads of `IndexerConfig`. -/
structure IndexerConfig where
  pageLimit : ℕ
  finalityDepth : ℤ
  defaultStartLedger : String
  deriving DecidableEq, Repr

variable (cfg : IndexerConfig)

/-- The finality filter. -/
def Finalised (latestLedger : ℤ) (record : HorizonEventRecord) : Prop :=
  cfg.finalityDepth ≤ latestLedger - record.ledger

instance (latestLedger : ℤ) : DecidablePred (Finalised cfg latestLedger) := fun record => by
  unfold Finalised; infer_instance

/-- The cursor that a tick goes on from. -/
def resumeCursor (cursor : String) : String :=
  if cursor = "" ∧ cfg.defaultStartLedger ≠ "" then cfg.defaultStartLedger else cursor

/-- What the network does to a tick. Without `available` the request for the events fails. -/
structure Poll where
  read : Link
  available : Option ℕ
  latestLedger : ℤ
  upsert : Link
  write : Link
  deriving DecidableEq, Repr

/-- The database after a tick, the records whose events were in a batch that committed, and those
that the finality filter held back. -/
structure TickResult where
  db : Db
  committed : List HorizonEventRecord
  heldBack : List HorizonEventRecord

/-- The records that `decodeEvent` accepts. -/
def Decodes (record : HorizonEventRecord) : Prop := decodeEvent record ≠ none

instance : DecidablePred Decodes := fun record => by unfold Decodes; infer_instance

/-- Persisting the events of a page; nothing is sent if there are none. -/
def persist (link : Link) (decoded : List DecodedStreamEvent) (db : Db) : Outcome ℕ :=
  if decoded = [] then ⟨db, true, some 0⟩ else call link (upsertStreamEvents decoded) db

/-- Advancing the cursor. -/
def advance (link : Link) (nextCursor : Option String) (db : Db) : Db :=
  match nextCursor with
  | none => db
  | some cursor => if cursor = "" then db else (call link (writeCursor cursor) db).db

/-- `tick`. A process that stops in the middle of it is a call that fails, and nothing that `tick`
uses is kept from one tick to the next but the database. -/
def tick (log : List HorizonEventRecord) (poll : Poll) (db : Db) : TickResult :=
  match (call poll.read readCursor db).reply, poll.available with
  | none, _ => ⟨db, [], []⟩
  | some _, none => ⟨db, [], []⟩
  | some cursor, some available =>
    let page := fetchEventsPage position log (resumeCursor cfg cursor) cfg.pageLimit available
      poll.latestLedger
    let finalised := page.records.filter (Finalised cfg page.latestLedger)
    let heldBack := page.records.filter fun r => ¬ Finalised cfg page.latestLedger r
    let decoded := finalised.filterMap decodeEvent
    let batch := persist poll.upsert decoded db
    let committed := if batch.committed then finalised.filter Decodes else []
    match batch.reply with
    | none => ⟨batch.db, committed, heldBack⟩
    | some _ => ⟨advance poll.write page.nextCursor batch.db, committed, heldBack⟩

/-! ### Runs -/

/-- Horizon and the database, with the history of the ticks: the records whose events were passed to
a batch that committed, and the records that the stored cursor went past while they were held
back. -/
structure State where
  log : List HorizonEventRecord
  db : Db
  passed : List HorizonEventRecord
  skipped : List HorizonEventRecord

/-- Horizon publishes records, the indexer ticks, and other services write the tables. -/
inductive Action
  | publish (records : List HorizonEventRecord)
  | tick (poll : Poll)
  | services (db : Db)

/-- The stored cursor. -/
def storedCursor (db : Db) : String := db.indexerCursor.getD ""

/-- The cursor is at the record or beyond it. -/
def AtOrBefore (cursor : String) (record : HorizonEventRecord) : Prop :=
  ((recordPosition position record : P) : WithBot P) ≤ cursorPosition position cursor

instance (cursor : String) : DecidablePred (AtOrBefore position cursor) := fun record => by
  unfold AtOrBefore; infer_instance

/-- One step. -/
def step (s : State) : Action → State
  | .publish records => { s with log := s.log ++ records }
  | .services db => { s with db := { db with indexerCursor := s.db.indexerCursor } }
  | .tick poll =>
    let result := tick position cfg s.log poll s.db
    { s with
      db := result.db
      passed := s.passed ++ result.committed
      skipped := s.skipped ++
        result.heldBack.filter (AtOrBefore position (storedCursor result.db)) }

/-- Nothing is published yet, and the indexer has not run. -/
def State.init (db : Db) : State := ⟨[], db, [], []⟩

/-- Horizon publishes in the order of the paging tokens. -/
def Legal (s : State) : Action → Prop
  | .publish records => Increasing (recordPosition position) (s.log ++ records)
  | _ => True

/-- No event is lost: every record that the stored cursor is at or beyond, and that decodes, was
passed to a batch that committed, and the cursor skipped no record that was held back. -/
structure LosesNothing (s : State) : Prop where
  passed : ∀ r ∈ s.log, AtOrBefore position (storedCursor s.db) r → Decodes r → r ∈ s.passed
  skipped : s.skipped = []

/-- The page of a tick, if it gets one. -/
def pageOf (s : State) (poll : Poll) : Option FetchPageResult :=
  poll.available.map fun available =>
    fetchEventsPage position s.log (resumeCursor cfg (storedCursor s.db)) cfg.pageLimit available
      poll.latestLedger

/-- The events that are persisted of a page. -/
def decodedOf (page : FetchPageResult) : List DecodedStreamEvent :=
  (page.records.filter (Finalised cfg page.latestLedger)).filterMap decodeEvent

/-- The tick gets the page, persists it and stores the cursor of its end. -/
structure Advances (s : State) (poll : Poll) (page : FetchPageResult) : Prop where
  read : poll.read = .answered
  fetched : pageOf position cfg s poll = some page
  persisted : decodedOf cfg page = [] ∨
    (poll.upsert = .answered ∧ Commits s.db (decodedOf cfg page))
  nextCursor : ∃ cursor, page.nextCursor = some cursor ∧ cursor ≠ ""
  row : s.db.indexerCursor ≠ none
  written : poll.write ≠ .unsent

/-- If the tick stores a cursor, all the records of its page are final, and no record that decodes
lies before the configured start. -/
def Safe (s : State) : Action → Prop
  | .tick poll => ∀ page, Advances position cfg s poll page →
    (∀ r ∈ page.records, Finalised cfg page.latestLedger r) ∧
      ∀ r ∈ s.log, AtOrBefore position cfg.defaultStartLedger r → ¬ Decodes r
  | _ => True

/-! ### What a tick does -/

section Calls

variable {α : Type} {link : Link} {p : Client α} {db : Db}

theorem call_reply {a : α} : (call link p db).reply = some a ↔
    link = .answered ∧ ∃ db', postgres.transact p db = .ok (a, db') := by
  unfold call
  cases postgres.transact p db with
  | error e => cases link <;> simp
  | ok r =>
    obtain ⟨a', db'⟩ := r
    cases link <;> simp

theorem call_db :
    (call link p db).db = if link = .unsent then db else commit (postgres.transact p) db := by
  unfold call commit
  cases postgres.transact p db with
  | error e => cases link <;> rfl
  | ok r => cases link <;> rfl

/-- What is answered has committed. -/
theorem call_committed (h : (call link p db).reply ≠ none) : (call link p db).committed = true := by
  unfold call at h ⊢
  cases ht : postgres.transact p db with
  | error e => cases link <;> simp [ht] at h
  | ok r => cases link <;> simp [ht] at h ⊢

theorem readCursor_reply {cursor : String} : (call link readCursor db).reply = some cursor ↔
    link = .answered ∧ storedCursor db = cursor := by
  have hread : postgres.transact readCursor db = .ok (storedCursor db, db) := rfl
  rw [call_reply, hread]
  simp

/-- A batch leaves the cursor as it is. -/
theorem upsertBatch_indexerCursor (db : Db) (events : List DecodedStreamEvent) :
    (upsertBatch db events).indexerCursor = db.indexerCursor := by
  have hstep : ∀ db' ev, db'.indexerCursor = db.indexerCursor → Accepts db' ev →
      (ingest db' ev).indexerCursor = db.indexerCursor := by
    intro db' ev h _
    rw [ingest_indexerCursor, h]
  exact upsertBatch_induct hstep rfl events

theorem persist_indexerCursor (link : Link) (decoded : List DecodedStreamEvent) (db : Db) :
    (persist link decoded db).db.indexerCursor = db.indexerCursor := by
  unfold persist
  split_ifs
  · rfl
  · rw [call_db]
    split_ifs
    · rfl
    · exact upsertBatch_indexerCursor db decoded

/-- The tick goes on after the batch exactly if there is none, or it commits and is answered. -/
theorem persist_reply {decoded : List DecodedStreamEvent} :
    (persist link decoded db).reply ≠ none ↔
      decoded = [] ∨ (link = .answered ∧ Commits db decoded) := by
  unfold persist
  split_ifs with h
  · simp [h]
  · rw [Option.ne_none_iff_exists']
    simp only [call_reply, h, false_or]
    constructor
    · rintro ⟨n, hlink, db', hok⟩
      refine ⟨hlink, ?_⟩
      unfold Commits
      rw [hok]
      rfl
    · rintro ⟨hlink, hok⟩
      obtain ⟨⟨n, db'⟩, hok⟩ := exists_ok_of_isOk hok
      exact ⟨n, hlink, db', hok⟩

/-- What the tick goes on after has committed. -/
theorem persist_committed {decoded : List DecodedStreamEvent}
    (h : (persist link decoded db).reply ≠ none) :
    (persist link decoded db).committed = true := by
  unfold persist at h ⊢
  split_ifs at h ⊢
  · rfl
  · exact call_committed h

/-- The cursor is stored if the call gets through, the row is there and the token is not empty. -/
theorem storedCursor_advance {nextCursor : Option String} :
    storedCursor (advance link nextCursor db) =
      if link ≠ .unsent ∧ db.indexerCursor ≠ none ∧ nextCursor.getD "" ≠ "" then nextCursor.getD ""
      else storedCursor db := by
  unfold advance
  cases nextCursor with
  | none => simp
  | some cursor =>
    by_cases hempty : cursor = ""
    · simp [hempty]
    · simp only [if_neg hempty, call_db]
      by_cases hlink : link = .unsent
      · simp [hlink]
      · cases hrow : db.indexerCursor with
        | none =>
          have hx : exec (.updateCursor cursor) db = .ok ([], 0) := by simp only [exec, hrow]
          have hsame : commit (postgres.transact (writeCursor cursor)) db = db :=
            commit_of_ok (a := ()) (transact_query_ok.mpr ⟨[], _, hx, rfl⟩)
          simp [hlink, hsame]
        | some old =>
          have hx : exec (.updateCursor cursor) db = .ok ([.setCursor cursor], 1) := by
            simp only [exec, hrow]
          have hset : commit (postgres.transact (writeCursor cursor)) db =
              { db with indexerCursor := some cursor } :=
            commit_of_ok (a := ()) (transact_query_ok.mpr ⟨_, _, hx, rfl⟩)
          simp [hlink, hset, hempty, storedCursor]

end Calls

variable {position cfg} {s : State} {poll : Poll} {page : FetchPageResult}

omit [LinearOrder P] in
theorem cursorPosition_empty : cursorPosition position "" = ⊥ := if_pos rfl

omit [LinearOrder P] in
theorem cursorPosition_token {r : HorizonEventRecord} (h : r.pagingToken ≠ "") :
    cursorPosition position r.pagingToken = ((recordPosition position r : P) : WithBot P) :=
  if_neg h

theorem resumeCursor_of_empty : resumeCursor cfg "" = cfg.defaultStartLedger := by
  unfold resumeCursor
  split_ifs with h
  · rfl
  · push Not at h
    exact (h rfl).symm

theorem resumeCursor_of_ne {cursor : String} (h : cursor ≠ "") :
    resumeCursor cfg cursor = cursor := by
  unfold resumeCursor
  rw [if_neg fun hh => h hh.1]

/-- A tick whose cursor or page is not read does nothing. -/
theorem tick_of_pageless (h : poll.read ≠ .answered ∨ pageOf position cfg s poll = none) :
    tick position cfg s.log poll s.db = ⟨s.db, [], []⟩ := by
  unfold tick
  cases hread : (call poll.read readCursor s.db).reply with
  | none => rfl
  | some cursor =>
    rcases h with h | h
    · exact absurd (readCursor_reply.mp hread).1 h
    · unfold pageOf at h
      rw [Option.map_eq_none_iff] at h
      rw [h]

/-- A tick that has read a page. -/
theorem tick_of_page (hread : poll.read = .answered)
    (hpage : pageOf position cfg s poll = some page) :
    tick position cfg s.log poll s.db =
      let batch := persist poll.upsert (decodedOf cfg page) s.db
      ⟨if batch.reply = none then batch.db else advance poll.write page.nextCursor batch.db,
        if batch.committed then
          (page.records.filter (Finalised cfg page.latestLedger)).filter Decodes else [],
        page.records.filter fun r => ¬ Finalised cfg page.latestLedger r⟩ := by
  obtain ⟨available, havailable, hfetch⟩ := Option.map_eq_some_iff.mp hpage
  have hreply : (call poll.read readCursor s.db).reply = some (storedCursor s.db) :=
    readCursor_reply.mpr ⟨hread, rfl⟩
  unfold tick
  rw [hreply, havailable]
  simp only [hfetch]
  unfold decodedOf
  cases (persist poll.upsert ((page.records.filter (Finalised cfg page.latestLedger)).filterMap
    decodeEvent) s.db).reply <;> rfl

/-- What a tick commits or holds back comes after the cursor that it goes on from. -/
theorem lt_of_mem_tick {r : HorizonEventRecord}
    (h : r ∈ (tick position cfg s.log poll s.db).committed ∨
      r ∈ (tick position cfg s.log poll s.db).heldBack) :
    cursorPosition position (resumeCursor cfg (storedCursor s.db)) <
      ((recordPosition position r : P) : WithBot P) := by
  by_cases hread : poll.read = .answered
  · cases hpage : pageOf position cfg s poll with
    | none =>
      rw [tick_of_pageless (Or.inr hpage)] at h
      simp at h
    | some page =>
      rw [tick_of_page hread hpage] at h
      obtain ⟨available, -, rfl⟩ := Option.map_eq_some_iff.mp hpage
      have hmem : r ∈ (fetchEventsPage position s.log (resumeCursor cfg (storedCursor s.db))
          cfg.pageLimit available poll.latestLedger).records := by
        rcases h with h | h
        · simp only at h
          split_ifs at h
          · exact List.mem_of_mem_filter (List.mem_of_mem_filter h)
          · simp at h
        · exact List.mem_of_mem_filter h
      exact lt_of_mem_page hmem
  · rw [tick_of_pageless (Or.inl hread)] at h
    simp at h

/-- A tick that does not advance leaves the cursor. -/
theorem storedCursor_tick_of_not_advances (h : ∀ page, ¬ Advances position cfg s poll page) :
    storedCursor (tick position cfg s.log poll s.db).db = storedCursor s.db := by
  by_cases hread : poll.read = .answered
  · cases hpage : pageOf position cfg s poll with
    | none => rw [tick_of_pageless (Or.inr hpage)]
    | some page =>
      have hsame := persist_indexerCursor poll.upsert (decodedOf cfg page) s.db
      have hstored : storedCursor (persist poll.upsert (decodedOf cfg page) s.db).db =
          storedCursor s.db := by
        unfold storedCursor
        rw [hsame]
      rw [tick_of_page hread hpage]
      simp only
      split_ifs with hbatch
      · exact hstored
      · rw [storedCursor_advance, hsame, hstored, if_neg]
        rintro ⟨hwritten, hrow, htoken⟩
        cases hnext : page.nextCursor with
        | none => simp [hnext] at htoken
        | some cursor =>
          rw [hnext, Option.getD_some] at htoken
          exact h page ⟨hread, hpage, persist_reply.mp hbatch, ⟨cursor, hnext, htoken⟩, hrow,
            hwritten⟩
  · rw [tick_of_pageless (Or.inl hread)]

/-- A tick that advances stores the end of its page and has committed what is final. -/
theorem tick_of_advances (h : Advances position cfg s poll page) :
    (tick position cfg s.log poll s.db).committed =
        (page.records.filter (Finalised cfg page.latestLedger)).filter Decodes ∧
      (tick position cfg s.log poll s.db).heldBack =
        page.records.filter (fun r => ¬ Finalised cfg page.latestLedger r) ∧
      ∃ last, page.records.getLast? = some last ∧
        storedCursor (tick position cfg s.log poll s.db).db = last.pagingToken ∧
        last.pagingToken ≠ "" := by
  have hbatch := persist_reply.mpr h.persisted
  have hsame := persist_indexerCursor poll.upsert (decodedOf cfg page) s.db
  obtain ⟨cursor, hnext, htoken⟩ := h.nextCursor
  have hlast : page.nextCursor = page.records.getLast?.map (·.pagingToken) := by
    obtain ⟨available, -, rfl⟩ := Option.map_eq_some_iff.mp h.fetched
    rfl
  rw [tick_of_page h.read h.fetched]
  refine ⟨if_pos (persist_committed hbatch), rfl, ?_⟩
  obtain ⟨last, hget, rfl⟩ := Option.map_eq_some_iff.mp (hlast.symm.trans hnext)
  refine ⟨last, hget, ?_, htoken⟩
  simp only [if_neg hbatch]
  rw [storedCursor_advance, hsame, hnext, Option.getD_some,
    if_pos ⟨h.written, h.row, htoken⟩]

/-! ### Runs that lose nothing -/

/-- What holds in every run. -/
structure Inv (position : String → P) (cfg : IndexerConfig) (s : State) : Prop where
  increasing : Increasing (recordPosition position) s.log
  cursor : storedCursor s.db ≠ "" →
    (∃ r ∈ s.log, r.pagingToken = storedCursor s.db) ∧
      cursorPosition position cfg.defaultStartLedger < cursorPosition position (storedCursor s.db)
  passed : ∀ r ∈ s.passed, cursorPosition position cfg.defaultStartLedger <
    ((recordPosition position r : P) : WithBot P)

/-- A tick goes on from the configured start or from beyond it. -/
theorem start_le_resume (h : Inv position cfg s) :
    cursorPosition position cfg.defaultStartLedger ≤
      cursorPosition position (resumeCursor cfg (storedCursor s.db)) := by
  by_cases hempty : storedCursor s.db = ""
  · rw [hempty, resumeCursor_of_empty]
  · rw [resumeCursor_of_ne hempty]
    exact (h.cursor hempty).2.le

/-- A tick goes on from the stored cursor or from beyond it. -/
theorem stored_le_resume :
    cursorPosition position (storedCursor s.db) ≤
      cursorPosition position (resumeCursor cfg (storedCursor s.db)) := by
  by_cases hempty : storedCursor s.db = ""
  · rw [hempty, cursorPosition_empty]
    exact bot_le
  · rw [resumeCursor_of_ne hempty]

theorem inv_step {a : Action} (h : Inv position cfg s) (hl : Legal position s a) :
    Inv position cfg (step position cfg s a) := by
  obtain ⟨hinc, hcursor, hpassed⟩ := h
  cases a with
  | publish records =>
    refine ⟨hl, fun hne => ?_, hpassed⟩
    obtain ⟨⟨r, hr, htoken⟩, hlt⟩ := hcursor hne
    exact ⟨⟨r, List.mem_append_left _ hr, htoken⟩, hlt⟩
  | services db => exact ⟨hinc, hcursor, hpassed⟩
  | tick poll =>
    have hstart := start_le_resume ⟨hinc, hcursor, hpassed⟩
    refine ⟨hinc, fun hne => ?_, fun r hr => ?_⟩
    · by_cases hadv : ∃ page, Advances position cfg s poll page
      · obtain ⟨page, hadv⟩ := hadv
        obtain ⟨-, -, last, hlast, hstored, htoken⟩ := tick_of_advances hadv
        obtain ⟨available, -, rfl⟩ := Option.map_eq_some_iff.mp hadv.fetched
        have hmem := List.mem_of_getLast? hlast
        refine ⟨⟨last, mem_of_mem_page hmem, hstored.symm⟩, hstart.trans_lt ?_⟩
        show _ < cursorPosition position (storedCursor (tick position cfg s.log poll s.db).db)
        rw [hstored, cursorPosition_token htoken]
        exact lt_of_mem_page hmem
      · have hsame : storedCursor (tick position cfg s.log poll s.db).db = storedCursor s.db :=
          storedCursor_tick_of_not_advances fun page hp => hadv ⟨page, hp⟩
        have hne' : storedCursor s.db ≠ "" := by rwa [← hsame]
        have hold := hcursor hne'
        rw [← hsame] at hold
        exact hold
    · rcases List.mem_append.mp hr with hr | hr
      · exact hpassed r hr
      · exact hstart.trans_lt (lt_of_mem_tick (Or.inl hr))

/-- The page of a tick that advances is read from the log, and the tick stores its end. -/
theorem page_of_advances (hadv : Advances position cfg s poll page) :
    ∃ n last, page.records = Paging.page (recordPosition position)
        (cursorPosition position (resumeCursor cfg (storedCursor s.db))) n s.log ∧
      page.records.getLast? = some last ∧
      cursorPosition position (storedCursor (tick position cfg s.log poll s.db).db) =
        ((recordPosition position last : P) : WithBot P) := by
  obtain ⟨-, -, last, hlast, hstored, htoken⟩ := tick_of_advances hadv
  obtain ⟨available, -, hfetch⟩ := Option.map_eq_some_iff.mp hadv.fetched
  refine ⟨min cfg.pageLimit available, last, ?_, hlast, ?_⟩
  · rw [← hfetch]
    rfl
  · rw [hstored, cursorPosition_token htoken]

/-- A tick that advances skips no record exactly if all of its page are final. -/
theorem skipped_tick_iff (hI : Inv position cfg s) (hskipped : s.skipped = [])
    (hadv : Advances position cfg s poll page) :
    (step position cfg s (.tick poll)).skipped = [] ↔
      ∀ r ∈ page.records, Finalised cfg page.latestLedger r := by
  obtain ⟨-, hheld, -⟩ := tick_of_advances hadv
  obtain ⟨n, last, hrecords, hlast, hend⟩ := page_of_advances hadv
  rw [hrecords] at hlast
  show s.skipped ++ (tick position cfg s.log poll s.db).heldBack.filter _ = [] ↔ _
  rw [hskipped, hheld, List.nil_append, List.filter_eq_nil_iff]
  constructor
  · intro h r hr
    by_contra hfin
    have hle : AtOrBefore position
        (storedCursor (tick position cfg s.log poll s.db).db) r := by
      unfold AtOrBefore
      rw [hend]
      exact WithBot.coe_le_coe.mpr (le_last_of_mem_page hI.increasing hlast (hrecords ▸ hr))
    exact h r (List.mem_filter.mpr ⟨hr, by simpa using hfin⟩) (by simpa using hle)
  · intro h r hr
    have hfin := List.mem_filter.mp hr
    simp [h r hfin.1] at hfin

/-- After a tick that advances the records at or before the cursor are those at or before the cursor
that it went on from, and those of its page. -/
theorem covers_tick_iff {D : HorizonEventRecord → Prop} (hI : Inv position cfg s)
    (hadv : Advances position cfg s poll page) :
    (∀ r ∈ s.log, AtOrBefore position
        (storedCursor (step position cfg s (.tick poll)).db) r → D r) ↔
      Covers (recordPosition position) D s.log
          (cursorPosition position (resumeCursor cfg (storedCursor s.db))) ∧
        ∀ r ∈ page.records, D r := by
  obtain ⟨n, last, hrecords, hlast, hend⟩ := page_of_advances hadv
  rw [hrecords] at hlast
  show Covers (recordPosition position) D s.log
    (cursorPosition position (storedCursor (tick position cfg s.log poll s.db).db)) ↔ _
  rw [hend, covers_last_iff hI.increasing hlast, hrecords]

/-- **A tick that advances** loses nothing exactly if it is safe. -/
theorem losesNothing_tick_iff (hI : Inv position cfg s) (hQ : LosesNothing position s)
    (hadv : Advances position cfg s poll page) :
    LosesNothing position (step position cfg s (.tick poll)) ↔
      (∀ r ∈ page.records, Finalised cfg page.latestLedger r) ∧
        ∀ r ∈ s.log, AtOrBefore position cfg.defaultStartLedger r → ¬ Decodes r := by
  have hskipped := skipped_tick_iff hI hQ.skipped hadv
  have hcovers := covers_tick_iff
    (D := fun r => Decodes r → r ∈ (step position cfg s (.tick poll)).passed) hI hadv
  constructor
  · intro h
    have hresume := (hcovers.mp h.passed).1
    have hI' : Inv position cfg (step position cfg s (.tick poll)) := inv_step hI trivial
    refine ⟨hskipped.mp h.skipped, fun r hr hle hdec => ?_⟩
    -- what was passed comes after the configured start
    have hpassed := hresume r hr (hle.trans (start_le_resume hI)) hdec
    exact absurd hle (not_le.mpr (hI'.passed r hpassed))
  · rintro ⟨hfin, hbefore⟩
    refine ⟨hcovers.mpr ⟨?_, fun r hr hdec => ?_⟩, hskipped.mpr hfin⟩
    · by_cases hempty : storedCursor s.db = ""
      · rw [hempty, resumeCursor_of_empty]
        exact fun r hr hle hdec => absurd hdec (hbefore r hr hle)
      · rw [resumeCursor_of_ne hempty]
        exact Covers.imp (fun r _ h hdec => List.mem_append_left _ (h hdec)) hQ.passed
    · obtain ⟨hcommitted, -⟩ := tick_of_advances hadv
      show r ∈ s.passed ++ (tick position cfg s.log poll s.db).committed
      rw [hcommitted]
      refine List.mem_append_right _ (List.mem_filter.mpr ⟨List.mem_filter.mpr ⟨hr, ?_⟩, ?_⟩)
      · simpa using hfin r hr
      · simpa using hdec

/-- **One step** loses nothing exactly if it is safe. -/
theorem losesNothing_step_iff {a : Action} (hI : Inv position cfg s) (hl : Legal position s a)
    (hQ : LosesNothing position s) :
    LosesNothing position (step position cfg s a) ↔ Safe position cfg s a := by
  cases a with
  | publish records =>
    refine iff_of_true ⟨?_, hQ.skipped⟩ trivial
    have hnew : ∀ r ∈ records, cursorPosition position (storedCursor s.db) <
        ((recordPosition position r : P) : WithBot P) := by
      intro r hr
      by_cases hempty : storedCursor s.db = ""
      · rw [hempty, cursorPosition_empty]
        exact WithBot.bot_lt_coe _
      · -- the cursor is at a record of the log
        obtain ⟨⟨r', hr', htoken⟩, -⟩ := hI.cursor hempty
        rw [← htoken, cursorPosition_token (by rwa [htoken])]
        exact WithBot.coe_lt_coe.mpr (Increasing.lt_of_append hl hr' hr)
    exact (covers_append hnew).mpr hQ.passed
  | services db => exact iff_of_true ⟨hQ.passed, hQ.skipped⟩ trivial
  | tick poll =>
    by_cases hadv : ∃ page, Advances position cfg s poll page
    · obtain ⟨page, hadv⟩ := hadv
      rw [losesNothing_tick_iff hI hQ hadv]
      constructor
      · intro h page' hadv'
        obtain rfl : page = page' := Option.some.inj (hadv.fetched.symm.trans hadv'.fetched)
        exact h
      · exact fun h => h page hadv
    · -- the cursor stays where it is, and what was held back is beyond it
      have hnone : ∀ page, ¬ Advances position cfg s poll page := fun page hp => hadv ⟨page, hp⟩
      have hstored : storedCursor (tick position cfg s.log poll s.db).db = storedCursor s.db :=
        storedCursor_tick_of_not_advances hnone
      refine iff_of_true ⟨?_, ?_⟩ fun page hp => absurd hp (hnone page)
      · intro r hr hle hdec
        have hle' : AtOrBefore position (storedCursor s.db) r := by
          rw [← hstored]
          exact hle
        exact List.mem_append_left _ (hQ.passed r hr hle' hdec)
      · show s.skipped ++ (tick position cfg s.log poll s.db).heldBack.filter _ = []
        rw [hQ.skipped, List.nil_append, List.filter_eq_nil_iff, hstored]
        intro r hr
        have hlt := stored_le_resume.trans_lt (lt_of_mem_tick (Or.inr hr))
        exact fun hle => absurd (of_decide_eq_true hle) (not_le.mpr hlt)

/-- In a run from a database without a cursor no event is lost, in any state, exactly if every tick
that stores a cursor is safe. -/
theorem losesNothing_iff (position : String → P) (cfg : IndexerConfig) (db : Db)
    (hdb : storedCursor db = "") (actions : List Action)
    (hlegal : AllSteps (step position cfg) (Legal position) (State.init db) actions) :
    AllStates (step position cfg) (LosesNothing position) (State.init db) actions ↔
      AllSteps (step position cfg) (Safe position cfg) (State.init db) actions := by
  have hI : Inv position cfg (State.init db) :=
    ⟨List.Pairwise.nil, fun hne => absurd hdb hne, fun r hr => absurd hr List.not_mem_nil⟩
  have hQ : LosesNothing position (State.init db) :=
    ⟨fun r hr => absurd hr List.not_mem_nil, rfl⟩
  exact allStates_iff_allSteps (fun _ _ => inv_step) (fun _ _ => losesNothing_step_iff) hI hlegal hQ

end Horizon

/-! ### Two runs -/

/-- The defaults of the environment. -/
def defaultConfig : IndexerConfig := ⟨200, 3, ""⟩

/-- The record of a creation at ledger 99. -/
def creationAt99 : HorizonEventRecord where
  id := some "a1-0"
  pagingToken := "1"
  ledger := 99
  transactionHash := some "a1"
  topic := [(Xdr.ScVal.symbol "StreamCreated").text, "GSPONSOR", "CRECIPIENT"]
  value := .array ["CTOKEN", (Xdr.ScVal.i128 1).text, (Xdr.ScVal.u32 99).text,
    (Xdr.ScVal.u32 109).text, (Xdr.ScVal.u32 199).text, (Xdr.ScVal.i128 100).text]

/-- A tick that is answered, with the latest ledger. -/
def pollAt (latestLedger : ℤ) : Poll := ⟨.answered, some 200, latestLedger, .answered, .answered⟩

/-- Tokens ordered by their lengths. -/
def tokenLength (token : String) : ℕ := token.length

/-- The record is published, and the indexer polls. -/
def createThenPoll (latestLedger : ℤ) : List Action :=
  [.publish [creationAt99], .tick (pollAt latestLedger)]

theorem createThenPoll_legal (latestLedger : ℤ) :
    AllSteps (step tokenLength defaultConfig) (Legal tokenLength)
      (State.init (Db.fresh fun _ => none)) (createThenPoll latestLedger) :=
  ⟨List.pairwise_singleton _ _, trivial, trivial⟩

theorem losesNothing_iff_final :
    AllStates (step tokenLength defaultConfig) (LosesNothing tokenLength)
        (State.init (Db.fresh fun _ => none)) (createThenPoll 102) ↔
      AllSteps (step tokenLength defaultConfig) (Safe tokenLength defaultConfig)
        (State.init (Db.fresh fun _ => none)) (createThenPoll 102) :=
  losesNothing_iff tokenLength defaultConfig (Db.fresh fun _ => none) rfl (createThenPoll 102)
    (createThenPoll_legal 102)

/-- A record one ledger behind the tip is dropped, and the cursor goes past it; so is one that is
long final when the request for the latest ledger fails. -/
theorem tip_skipped :
    ¬ AllStates (step tokenLength defaultConfig) (LosesNothing tokenLength)
        (State.init (Db.fresh fun _ => none)) (createThenPoll 100) ∧
      ¬ AllStates (step tokenLength defaultConfig) (LosesNothing tokenLength)
        (State.init (Db.fresh fun _ => none)) (createThenPoll 0) := by
  have hlost : ∀ latestLedger ∈ [(100 : ℤ), 0],
      creationAt99 ∈ (run (step tokenLength defaultConfig) (State.init (Db.fresh fun _ => none))
        (createThenPoll latestLedger)).log ∧
      AtOrBefore tokenLength (storedCursor (run (step tokenLength defaultConfig)
        (State.init (Db.fresh fun _ => none)) (createThenPoll latestLedger)).db) creationAt99 ∧
      Decodes creationAt99 ∧
      creationAt99 ∉ (run (step tokenLength defaultConfig) (State.init (Db.fresh fun _ => none))
        (createThenPoll latestLedger)).passed := by
    decide +kernel
  constructor
  · intro h
    obtain ⟨hlog, hle, hdec, hpassed⟩ := hlost 100 (by simp)
    exact hpassed (h.last.passed creationAt99 hlog hle hdec)
  · intro h
    obtain ⟨hlog, hle, hdec, hpassed⟩ := hlost 0 (by simp)
    exact hpassed (h.last.passed creationAt99 hlog hle hdec)

end VestingDripStream.Backend.Indexer
