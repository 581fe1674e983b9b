import VestingDripStream.Lib.Chunks
import VestingDripStream.Backend.Decoders
import VestingDripStream.Backend.Indexer

/-! # The backfill of the admin API

`runBackfill` reads the whole log of Horizon page by page, decodes the records in the range and
writes the events of a page in one transaction. It stops behind the first page with an event of the
last ledger of the range, behind a short page, or when a call fails. `backfill_iff` says when a job
that is completed has covered its range, and read no further than it had to. -/

namespace VestingDripStream.Backend.AdminBackfill

open VestingDripStream.Lib.Paging VestingDripStream.Lib.Chunks
open VestingDripStream.Backend.Decoder (HorizonEventRecord)
open VestingDripStream.Backend.Indexer (recordPosition cursorPosition)
open VestingDripStream.Backend.Decoders VestingDripStream.Backend.Decoders.Backfill

/-! ### Horizon -/

section Horizon

variable {P : Type} [LinearOrder P] (position : String → P)

/-- What Horizon has of the contract: records in the order of their cursors and ledgers. -/
structure HorizonLog where
  records : List HorizonEventRecord
  increasing : Increasing (recordPosition position) records
  tokens : ∀ r ∈ records, r.pagingToken ≠ ""
  ledgers : records.Pairwise fun r r' => r.ledger ≤ r'.ledger

theorem HorizonLog.nodup {position : String → P} (log : HorizonLog position) :
    log.records.Nodup := by
  refine List.Pairwise.imp ?_ log.increasing
  rintro r r' hlt rfl
  exact lt_irrefl _ hlt

/-- The records of a page and `nextCursor`. -/
structure FetchPageResult where
  records : List HorizonEventRecord
  nextCursor : Option String

/-- `fetchPage`. -/
def fetchPage (log : HorizonLog position) (cursor : String) (pageLimit : ℕ) : FetchPageResult :=
  let records :=
    page (recordPosition position) (cursorPosition position cursor) pageLimit log.records
  ⟨records, records.getLast?.map (·.pagingToken)⟩

end Horizon

/-! ### The job and the database -/

/-- `JobStatus`: a job runs once, and completes or fails. -/
inductive JobStatus
  | pending
  | running
  | completed
  | failed
  deriving DecidableEq, Repr

/-- What changes of a `BackfillJob`. -/
structure BackfillJob where
  status : JobStatus := .running
  eventsFetched : ℕ := 0
  eventsInserted : ℕ := 0
  eventsSkipped : ℕ := 0
  lastCursor : Option String := none
  errorMessage : Option String := none
  deriving DecidableEq, Repr

/-- A row of `stream_events`; the index of the event is not stored. -/
abbrev Row := WorkerEvent

/-- The `INSERT` of an event, and whether it inserted a row: `ON CONFLICT (tx_hash) DO NOTHING`. -/
def insert (ev : BackfillEvent) (rows : List Row) : ℕ × List Row :=
  if rows.any (·.txHash = ev.txHash) then (0, rows) else (1, rows ++ [ev.toWorkerEvent])

/-- `upsertEvents`, when it commits. -/
def upsertEvents (events : List BackfillEvent) (rows : List Row) : ℕ × List Row :=
  events.foldl (fun acc ev =>
    let (inserted, rows) := insert ev acc.2
    (acc.1 + inserted, rows)) (0, rows)

/-- The calls that may throw; those of a page carry its number. -/
inductive Call
  | fetchPage (i : ℕ)
  | upsertEvents (i : ℕ)
  | updateJobProgress (i : ℕ)
  | completeJob
  | failJob
  deriving DecidableEq, Repr

/-! ### `runBackfill` -/

/-- The variables of `runBackfill`, the job and the rows; and the pages fetched so far and the
records whose events were in a batch that committed. -/
structure State where
  cursor : String := ""
  totalFetched : ℕ := 0
  totalInserted : ℕ := 0
  totalSkipped : ℕ := 0
  job : BackfillJob := {}
  rows : List Row := []
  pages : List (List HorizonEventRecord) := []
  committed : List HorizonEventRecord := []

/-- How the loop ends. -/
inductive Ending
  | done
  | threw (msg : String)
  | outOfFuel
  deriving DecidableEq, Repr

section Run

variable {P : Type} [LinearOrder P] {position : String → P} (log : HorizonLog position)
  (pageLimit : ℕ) (throws : Call → Option String) (fromLedger toLedger : ℤ)

/-- `decodeEvent` accepts the record. -/
def Decodes (r : HorizonEventRecord) : Prop := decodeEvent r fromLedger toLedger ≠ none

instance : DecidablePred (Decodes fromLedger toLedger) := fun r => by
  unfold Decodes; infer_instance

/-- The loop, from the page `i` on. -/
def loop : ℕ → ℕ → State → Ending × State
  | 0, _, s => (.outOfFuel, s)
  | fuel + 1, i, s =>
    match throws (.fetchPage i) with
    | some msg => (.threw msg, s)
    | none =>
      let { records, nextCursor } := fetchPage position log s.cursor pageLimit
      let s := { s with pages := s.pages ++ [records] }
      if records = [] then (.done, s)
      else
        let decoded := records.filterMap (decodeEvent · fromLedger toLedger)
        let pastEnd := decoded.any fun ev => toLedger ≤ ev.ledgerSequence
        let s := { s with
          totalFetched := s.totalFetched + records.length
          totalSkipped := s.totalSkipped + (records.length - decoded.length) }
        -- without events there is no transaction
        match if decoded = [] then none else throws (.upsertEvents i) with
        | some msg => (.threw msg, s)
        | none =>
          let (insertedThisPage, rows) := upsertEvents decoded s.rows
          let s := { s with
            totalInserted := s.totalInserted + insertedThisPage
            rows := rows
            committed := s.committed ++ records.filter (Decodes fromLedger toLedger) }
          match throws (.updateJobProgress i) with
          | some msg => (.threw msg, s)
          | none =>
            let s := { s with
              job := { s.job with
                eventsFetched := s.totalFetched
                eventsInserted := s.totalInserted
                eventsSkipped := s.totalSkipped
                lastCursor := some (nextCursor.getD s.cursor) } }
            match nextCursor with
            | none => (.done, s)
            | some cursor =>
              if cursor = "" ∨ records.length < pageLimit then (.done, s)
              else
                let s := { s with cursor := cursor }
                if pastEnd then (.done, s) else loop fuel (i + 1) s

/-- `failJob`, whose own failure is ignored. -/
def failJob (msg : String) (s : State) : State :=
  match throws .failJob with
  | some _ => s
  | none => { s with job := { s.job with status := .failed, errorMessage := some msg } }

/-- `runBackfill`, on the rows that are there. Every page but an empty one moves the cursor, so the
loop is over after as many pages as there are records, and one. -/
def runBackfill (contractId : String) (rows : List Row) : State :=
  if contractId = "" then failJob throws "CONTRACT_ID not configured" { rows := rows }
  else
    match loop log pageLimit throws fromLedger toLedger (log.records.length + 1) 0
      { rows := rows } with
    | (.outOfFuel, s) => s
    | (.threw msg, s) => failJob throws msg s
    | (.done, s) =>
      match throws .completeJob with
      | some msg => failJob throws msg s
      | none => { s with job := { s.job with status := .completed } }

end Run

/-! ### What should hold -/

/-- A record of a known type. -/
def Known (r : HorizonEventRecord) : Prop := knownType (decodeSymbol (r.topic[0]?.getD "")) ≠ none

/-- A record that the range asks for. -/
def Wanted (fromLedger toLedger : ℤ) (r : HorizonEventRecord) : Prop :=
  Known r ∧ fromLedger ≤ r.ledger ∧ r.ledger ≤ toLedger

/-- Nothing is fetched behind the first page with a ledger above `toLedger`. -/
def NoFurther (toLedger : ℤ) (pages : List (List HorizonEventRecord)) : Prop :=
  ∀ pre page post, pages = pre ++ page :: post → (∃ r ∈ page, toLedger < r.ledger) → post = []

/-- All wanted records are in batches that committed, and no page is fetched too many. -/
structure Covers (records : List HorizonEventRecord) (fromLedger toLedger : ℤ) (s : State) :
    Prop where
  complete : ∀ r ∈ records, Wanted fromLedger toLedger r → r ∈ s.committed
  noFurther : NoFurther toLedger s.pages

/-- The known records of the last ledger of the range are on one page. -/
def OnePage (records : List HorizonEventRecord) (pageLimit : ℕ) (toLedger : ℤ) : Prop :=
  ∀ i j r r', records[i]? = some r → records[j]? = some r' → Known r → Known r' →
    r.ledger = toLedger → r'.ledger = toLedger → i / pageLimit = j / pageLimit

/-- If there are ledgers above the range, there is a known record of its last ledger, or the first
page with such a ledger, and so every one, is short. -/
def Noticed (records : List HorizonEventRecord) (pageLimit : ℕ) (toLedger : ℤ) : Prop :=
  ∀ i r, records[i]? = some r → toLedger < r.ledger →
    (∃ r' ∈ records, Known r' ∧ r'.ledger = toLedger) ∨
      records.length < (i / pageLimit + 1) * pageLimit

section

variable {P : Type} [LinearOrder P] {position : String → P} {log : HorizonLog position}
  {pageLimit : ℕ} {throws : Call → Option String} {fromLedger toLedger : ℤ}
  {r : HorizonEventRecord} {s : State}

/-! ### One record -/

/-- An event of the record, which has its ledger. -/
theorem decodeEvent_cases (r : HorizonEventRecord) (fromLedger toLedger : ℤ) :
    (Wanted fromLedger toLedger r ∧
      ∃ ev, decodeEvent r fromLedger toLedger = some ev ∧ ev.ledgerSequence = r.ledger) ∨
    (¬ Wanted fromLedger toLedger r ∧ decodeEvent r fromLedger toLedger = none) := by
  unfold Wanted Known decodeSymbol decodeEvent
  cases hknown : knownType (decodeSymbolTail (r.topic[0]?.getD "")) with
  | none =>
    simp only [hknown]
    exact Or.inr ⟨fun h => h.1 rfl, trivial⟩
  | some eventType =>
    by_cases hrange : r.ledger < fromLedger ∨ toLedger < r.ledger
    · simp only [hknown, if_pos hrange]
      refine Or.inr ⟨fun h => ?_, trivial⟩
      obtain ⟨-, hfrom, hto⟩ := h
      omega
    · simp only [hknown, if_neg hrange]
      refine Or.inl ⟨⟨Option.some_ne_none _, by omega, by omega⟩, ?_⟩
      cases eventType <;> exact ⟨_, rfl, rfl⟩

theorem decodes_iff : Decodes fromLedger toLedger r ↔ Wanted fromLedger toLedger r := by
  unfold Decodes
  rcases decodeEvent_cases r fromLedger toLedger with ⟨hwanted, ev, hev, -⟩ | ⟨hnot, hnone⟩
  · rw [hev]
    exact iff_of_true (Option.some_ne_none _) hwanted
  · rw [hnone]
    exact iff_of_false (fun h => h rfl) hnot

/-- A page with a wanted record of the last ledger. -/
def Last (fromLedger toLedger : ℤ) (page : List HorizonEventRecord) : Prop :=
  ∃ r ∈ page, Wanted fromLedger toLedger r ∧ toLedger ≤ r.ledger

theorem pastEnd_iff {page : List HorizonEventRecord} :
    ((page.filterMap (decodeEvent · fromLedger toLedger)).any fun ev =>
      toLedger ≤ ev.ledgerSequence) = true ↔ Last fromLedger toLedger page := by
  unfold Last
  rw [List.any_eq_true]
  constructor
  · rintro ⟨ev, hmem, hle⟩
    obtain ⟨r, hr, hev⟩ := List.mem_filterMap.mp hmem
    rcases decodeEvent_cases r fromLedger toLedger with ⟨hwanted, ev', hev', hledger⟩ | ⟨-, hnone⟩
    · obtain rfl := Option.some.inj (hev.symm.trans hev')
      exact ⟨r, hr, hwanted, hledger ▸ of_decide_eq_true hle⟩
    · rw [hnone] at hev
      cases hev
  · rintro ⟨r, hr, hwanted, hle⟩
    rcases decodeEvent_cases r fromLedger toLedger with ⟨-, ev, hev, hledger⟩ | ⟨hnot, -⟩
    · exact ⟨ev, List.mem_filterMap.mpr ⟨r, hr, hev⟩, decide_eq_true (hledger ▸ hle)⟩
    · exact absurd hwanted hnot

/-! ### The loop -/

variable (log) in
/-- The records after the cursor. -/
def remaining (cursor : String) : List HorizonEventRecord :=
  after (recordPosition position) (cursorPosition position cursor) log.records

theorem remaining_empty : remaining log "" = log.records := by
  unfold remaining cursorPosition
  rw [if_pos rfl]
  exact after_bot _

/-- A page is the next part of the log. -/
theorem fetchPage_records (cursor : String) :
    (fetchPage position log cursor pageLimit).records = chunk pageLimit 0 (remaining log cursor) :=
  (chunk_zero pageLimit _).symm

/-- Behind a page that is not empty the log goes on. -/
theorem fetchPage_nextCursor {cursor : String}
    (h : chunk pageLimit 0 (remaining log cursor) ≠ []) :
    ∃ next, (fetchPage position log cursor pageLimit).nextCursor = some next ∧ next ≠ "" ∧
      remaining log next = (remaining log cursor).drop pageLimit := by
  obtain ⟨last, hlast⟩ := Option.ne_none_iff_exists'.mp (mt List.getLast?_eq_none_iff.mp h)
  rw [chunk_zero] at hlast
  have hmem : last ∈ log.records :=
    List.mem_of_mem_filter (List.mem_of_mem_take (List.mem_of_getLast? hlast))
  have hne := log.tokens last hmem
  refine ⟨last.pagingToken, congrArg (Option.map _) hlast, hne, ?_⟩
  have hrest := after_last log.increasing hlast
  unfold remaining
  rw [← hrest, cursorPosition, if_neg hne]
  rfl

/-- What the loop has read and written when it has gone through the first `m + 1` parts of the log
from a cursor on. -/
structure Reads (log : HorizonLog position) (pageLimit : ℕ) (fromLedger toLedger : ℤ) (s : State)
    (m : ℕ) (s' : State) : Prop where
  pages : s'.pages =
    s.pages ++ (List.range (m + 1)).map (chunk pageLimit · (remaining log s.cursor))
  committed : s'.committed = s.committed ++
    ((remaining log s.cursor).take ((m + 1) * pageLimit)).filter (Decodes fromLedger toLedger)
  status : s'.job.status = s.job.status

variable (log pageLimit throws fromLedger toLedger) in
/-- **One page**: a call throws, the loop is done, or it goes on behind the page. -/
theorem loop_cases (fuel i : ℕ) (s : State) :
    (∃ msg s', loop log pageLimit throws fromLedger toLedger (fuel + 1) i s = (.threw msg, s') ∧
      s'.job.status = s.job.status) ∨
    (∃ s', loop log pageLimit throws fromLedger toLedger (fuel + 1) i s = (.done, s') ∧
      Reads log pageLimit fromLedger toLedger s 0 s' ∧
      ((chunk pageLimit 0 (remaining log s.cursor)).length < pageLimit ∨
        Last fromLedger toLedger (chunk pageLimit 0 (remaining log s.cursor)) ∨
        chunk pageLimit 0 (remaining log s.cursor) = [])) ∨
    (∃ s', loop log pageLimit throws fromLedger toLedger (fuel + 1) i s =
        loop log pageLimit throws fromLedger toLedger fuel (i + 1) s' ∧
      Reads log pageLimit fromLedger toLedger s 0 s' ∧
      (chunk pageLimit 0 (remaining log s.cursor)).length = pageLimit ∧
      ¬ Last fromLedger toLedger (chunk pageLimit 0 (remaining log s.cursor)) ∧
      chunk pageLimit 0 (remaining log s.cursor) ≠ [] ∧
      remaining log s'.cursor = (remaining log s.cursor).drop pageLimit) := by
  have hrecords : (fetchPage position log s.cursor pageLimit).records = _ :=
    fetchPage_records s.cursor
  have hlen := length_chunk_le pageLimit 0 (remaining log s.cursor)
  have hreads : ∀ {s'}, s'.pages = s.pages ++ [chunk pageLimit 0 (remaining log s.cursor)] →
      s'.committed = s.committed ++ (chunk pageLimit 0 (remaining log s.cursor)).filter
        (Decodes fromLedger toLedger) → s'.job.status = s.job.status →
      Reads log pageLimit fromLedger toLedger s 0 s' := by
    intro s' hpages hcommitted hstatus
    refine ⟨hpages, ?_, hstatus⟩
    rw [hcommitted, take_one_mul]
  rw [loop]
  cases hfetch : throws (.fetchPage i) with
  | some msg => exact Or.inl ⟨msg, s, rfl, rfl⟩
  | none =>
    by_cases hnil : chunk pageLimit 0 (remaining log s.cursor) = []
    · refine Or.inr (Or.inl ⟨_, if_pos (hrecords.trans hnil), hreads ?_ ?_ rfl,
        Or.inr (Or.inr hnil)⟩)
      · exact congrArg (s.pages ++ [·]) hrecords
      · rw [hnil, List.filter_nil, List.append_nil]
    · obtain ⟨next, hnext, hne, hrest⟩ := fetchPage_nextCursor hnil
      simp only [hrecords, hnext, if_neg hnil]
      cases hupsert : (if (chunk pageLimit 0 (remaining log s.cursor)).filterMap
          (decodeEvent · fromLedger toLedger) = [] then none else throws (.upsertEvents i)) with
      | some msg => exact Or.inl ⟨msg, _, rfl, rfl⟩
      | none =>
        cases hprogress : throws (.updateJobProgress i) with
        | some msg => exact Or.inl ⟨msg, _, rfl, rfl⟩
        | none =>
          simp only [hne, false_or]
          by_cases hshort : (chunk pageLimit 0 (remaining log s.cursor)).length < pageLimit
          · exact Or.inr (Or.inl ⟨_, if_pos hshort, hreads rfl rfl rfl, Or.inl hshort⟩)
          · rw [if_neg hshort]
            by_cases hlast : Last fromLedger toLedger (chunk pageLimit 0 (remaining log s.cursor))
            · exact Or.inr (Or.inl ⟨_, if_pos (pastEnd_iff.mpr hlast), hreads rfl rfl rfl,
                Or.inr (Or.inl hlast)⟩)
            · exact Or.inr (Or.inr ⟨_, if_neg (mt pastEnd_iff.mp hlast), hreads rfl rfl rfl,
                by omega, hlast, hnil, hrest⟩)

/-- Reading a part and then the ones behind it. -/
theorem Reads.trans {m : ℕ} {s s' s'' : State}
    (h : Reads log pageLimit fromLedger toLedger s 0 s')
    (hrest : remaining log s'.cursor = (remaining log s.cursor).drop pageLimit)
    (h' : Reads log pageLimit fromLedger toLedger s' m s'') :
    Reads log pageLimit fromLedger toLedger s (m + 1) s'' where
  pages := by
    rw [h'.pages, h.pages, hrest, map_chunk_succ, List.append_assoc]
    rfl
  committed := by
    rw [h'.committed, h.committed, hrest, take_one_mul, take_succ_mul pageLimit (m + 1),
      List.filter_append, List.append_assoc]
  status := h'.status.trans h.status

/-- **The loop** ends, and if no call throws it has read the log up to where it stops. -/
theorem loop_spec (hlimit : 0 < pageLimit) {fuel i : ℕ} {s : State}
    (hfuel : (remaining log s.cursor).length < fuel) :
    (∃ msg s', loop log pageLimit throws fromLedger toLedger fuel i s = (.threw msg, s') ∧
      s'.job.status = s.job.status) ∨
    ∃ s' m, loop log pageLimit throws fromLedger toLedger fuel i s = (.done, s') ∧
      Reads log pageLimit fromLedger toLedger s m s' ∧
      StopsAt pageLimit (Last fromLedger toLedger) (remaining log s.cursor) m := by
  induction fuel generalizing i s with
  | zero => exact absurd hfuel (Nat.not_lt_zero _)
  | succ fuel ih =>
    rcases loop_cases log pageLimit throws fromLedger toLedger fuel i s with
      hthrew | ⟨s', hdone, hreads, hends⟩ | ⟨s', hloop, hreads, hfull, hnot, hne, hrest⟩
    · exact Or.inl hthrew
    · refine Or.inr ⟨s', 0, hdone, hreads, stopsAt_zero ?_⟩
      rcases hends with hshort | hlast | hnil
      · exact Or.inl hshort
      · exact Or.inr hlast
      · rw [hnil]
        exact Or.inl hlimit
    · have hless : (remaining log s'.cursor).length < fuel := by
        have := length_drop_lt hlimit hne
        rw [hrest]
        omega
      rw [hloop]
      rcases @ih (i + 1) s' hless with ⟨msg, s'', hthrew, hstatus⟩ |
        ⟨s'', m, hdone, hreads', hstops⟩
      · exact Or.inl ⟨msg, s'', hthrew, hstatus.trans hreads.status⟩
      · refine Or.inr ⟨s'', m + 1, hdone, hreads.trans hrest hreads', ?_⟩
        rw [hrest] at hstops
        exact stopsAt_succ hfull hnot hstops

/-! ### The job -/

/-- A job that is completed has read the log up to where the loop stops. -/
theorem runBackfill_completed (hlimit : 0 < pageLimit) {contractId : String} {rows : List Row}
    (h : (runBackfill log pageLimit throws fromLedger toLedger contractId rows).job.status =
      .completed) :
    ∃ m, StopsAt pageLimit (Last fromLedger toLedger) log.records m ∧
      (runBackfill log pageLimit throws fromLedger toLedger contractId rows).pages =
        (List.range (m + 1)).map (chunk pageLimit · log.records) ∧
      (runBackfill log pageLimit throws fromLedger toLedger contractId rows).committed =
        (log.records.take ((m + 1) * pageLimit)).filter (Decodes fromLedger toLedger) := by
  have hfail : ∀ (msg : String) (s : State), (failJob throws msg s).job.status = .completed →
      s.job.status = .completed := by
    intro msg s hcompleted
    unfold failJob at hcompleted
    cases hthrows : throws .failJob with
    | some _ => rwa [hthrows] at hcompleted
    | none =>
      rw [hthrows] at hcompleted
      cases hcompleted
  have hfuel : (remaining log ({ rows := rows } : State).cursor).length <
      log.records.length + 1 := by
    show (remaining log "").length < _
    rw [remaining_empty]
    exact Nat.lt_succ_self _
  unfold runBackfill at h ⊢
  by_cases hcontract : contractId = ""
  · rw [if_pos hcontract] at h
    cases hfail _ _ h
  · rw [if_neg hcontract] at h ⊢
    rcases loop_spec hlimit hfuel with ⟨msg, s, hthrew, hstatus⟩ | ⟨s, m, hdone, hreads, hstops⟩
    · rw [hthrew] at h
      have hrunning := hfail _ _ h
      rw [hstatus] at hrunning
      cases hrunning
    · rw [hdone] at h ⊢
      cases hcomplete : throws .completeJob with
      | some msg =>
        simp only [hcomplete] at h
        have hrunning := hfail _ _ h
        rw [hreads.status] at hrunning
        cases hrunning
      | none =>
        have hall : remaining log ({ rows := rows } : State).cursor = log.records :=
          remaining_empty
        rw [hall] at hstops
        have hpages := hreads.pages
        have hcommitted := hreads.committed
        rw [hall] at hpages hcommitted
        exact ⟨m, hstops, hpages, hcommitted⟩

/-! ### The range -/

/-- Nothing is fetched too many if no page but the last has a ledger above the range. -/
theorem noFurther_iff {m : ℕ} {f : ℕ → List HorizonEventRecord} :
    NoFurther toLedger ((List.range (m + 1)).map f) ↔
      ∀ k < m, ∀ r ∈ f k, r.ledger ≤ toLedger := by
  have hlen : ((List.range (m + 1)).map f).length = m + 1 := by simp
  constructor
  · intro h k hk r hr
    by_contra hlt
    have hklen : k < ((List.range (m + 1)).map f).length := by omega
    have hat : ((List.range (m + 1)).map f)[k] = f k := by
      rw [List.getElem_map, List.getElem_range]
    have hsplit : (List.range (m + 1)).map f = ((List.range (m + 1)).map f).take k ++
        f k :: ((List.range (m + 1)).map f).drop (k + 1) := by
      rw [← hat, List.cons_getElem_drop_succ, List.take_append_drop]
    have hrest := congrArg List.length (h _ _ _ hsplit ⟨r, hr, by omega⟩)
    rw [List.length_drop, hlen, List.length_nil] at hrest
    omega
  · rintro h pre page post hsplit ⟨r, hr, hlt⟩
    have hlens := congrArg List.length hsplit
    rw [hlen, List.length_append, List.length_cons] at hlens
    have hpage : f pre.length = page := by
      have hget := congrArg (·[pre.length]?) hsplit
      simp only [List.getElem?_map, List.getElem?_append_right le_rfl, Nat.sub_self,
        List.getElem?_cons_zero] at hget
      rw [List.getElem?_range (by omega)] at hget
      exact Option.some.inj hget
    by_contra hne
    have hpost := List.length_pos_iff.mpr hne
    have hle := h pre.length (by omega) r (hpage ▸ hr)
    omega

section Range

variable {records : List HorizonEventRecord} {i j : ℕ} {r' : HorizonEventRecord}

theorem ledger_le (hledgers : records.Pairwise fun r r' => r.ledger ≤ r'.ledger)
    (hi : records[i]? = some r) (hj : records[j]? = some r') (hij : i ≤ j) :
    r.ledger ≤ r'.ledger := by
  obtain ⟨hilen, rfl⟩ := List.getElem?_eq_some_iff.mp hi
  obtain ⟨hjlen, rfl⟩ := List.getElem?_eq_some_iff.mp hj
  rcases Nat.eq_or_lt_of_le hij with rfl | hlt
  · exact le_rfl
  · exact List.pairwise_iff_getElem.mp hledgers i j hilen hjlen hlt

/-- What was committed, by the places of the records. -/
theorem committed_all_iff {m : ℕ} (hlimit : 0 < pageLimit) (hnodup : records.Nodup)
    (hcommitted : s.committed =
      (records.take ((m + 1) * pageLimit)).filter (Decodes fromLedger toLedger)) :
    (∀ r ∈ records, Wanted fromLedger toLedger r → r ∈ s.committed) ↔
      ∀ (i : ℕ) (r : HorizonEventRecord), records[i]? = some r → Wanted fromLedger toLedger r →
        i / pageLimit ≤ m := by
  have hmem : ∀ r, r ∈ s.committed ↔
      (∃ i, records[i]? = some r ∧ i / pageLimit ≤ m) ∧ Wanted fromLedger toLedger r := by
    intro r
    rw [hcommitted, List.mem_filter, decide_eq_true_iff, decodes_iff, mem_take_iff hlimit]
  constructor
  · intro h i r hi hwanted
    obtain ⟨⟨j, hj, hle⟩, -⟩ := (hmem r).mp (h r (List.mem_of_getElem? hi) hwanted)
    obtain ⟨hilen, hri⟩ := List.getElem?_eq_some_iff.mp hi
    obtain ⟨hjlen, hrj⟩ := List.getElem?_eq_some_iff.mp hj
    have hij : i = j := (hnodup.getElem_inj_iff).mp (hri.trans hrj.symm)
    rwa [hij]
  · intro h r hr hwanted
    obtain ⟨i, hi⟩ := List.getElem?_of_mem hr
    exact (hmem r).mpr ⟨⟨i, hi, h i r hi hwanted⟩, hwanted⟩

/-- A page with a wanted record of the last ledger is the last one. -/
theorem not_lt_of_last {m : ℕ} (hlimit : 0 < pageLimit) (hrange : fromLedger ≤ toLedger)
    (hstops : StopsAt pageLimit (Last fromLedger toLedger) records m) (hi : records[i]? = some r)
    (hknown : Known r) (hledger : r.ledger = toLedger) : ¬ i / pageLimit < m := by
  intro hlt
  refine (hstops.goesOn _ hlt).2 ⟨r, (mem_chunk_iff hlimit).mpr ⟨i, hi, rfl⟩, ?_, hledger.ge⟩
  exact ⟨hknown, hledger ▸ hrange, hledger.le⟩

/-- Whether a run that stopped at the page `m` has covered its range. -/
theorem covers_iff {m : ℕ} (hlimit : 0 < pageLimit) (hrange : fromLedger ≤ toLedger)
    (hledgers : records.Pairwise fun r r' => r.ledger ≤ r'.ledger) (hnodup : records.Nodup)
    (hstops : StopsAt pageLimit (Last fromLedger toLedger) records m)
    (hpages : s.pages = (List.range (m + 1)).map (chunk pageLimit · records))
    (hcommitted : s.committed =
      (records.take ((m + 1) * pageLimit)).filter (Decodes fromLedger toLedger)) :
    Covers records fromLedger toLedger s ↔
      OnePage records pageLimit toLedger ∧ Noticed records pageLimit toLedger := by
  have hcomplete := committed_all_iff hlimit hnodup hcommitted
  have hfurther : NoFurther toLedger s.pages ↔
      ∀ k < m, ∀ r ∈ chunk pageLimit k records, r.ledger ≤ toLedger := by
    rw [hpages]
    exact noFurther_iff
  constructor
  · rintro ⟨hall, hnone⟩
    rw [hcomplete] at hall
    rw [hfurther] at hnone
    constructor
    · -- the known records of the last ledger are on the page `m`
      have hlast : ∀ (i : ℕ) (r : HorizonEventRecord), records[i]? = some r → Known r →
          r.ledger = toLedger → i / pageLimit = m := by
        intro i r hi hknown hledger
        have hle := hall i r hi ⟨hknown, hledger ▸ hrange, hledger.le⟩
        have hnot := not_lt_of_last hlimit hrange hstops hi hknown hledger
        omega
      intro i j r r' hi hj hknown hknown' hledger hledger'
      rw [hlast i r hi hknown hledger, hlast j r' hj hknown' hledger']
    · intro i r hi hlt
      by_cases hknown : ∃ r' ∈ records, Known r' ∧ r'.ledger = toLedger
      · exact Or.inl hknown
      · -- nothing has told the loop to stop
        have hnot : ¬ Last fromLedger toLedger (chunk pageLimit m records) := by
          rintro ⟨r', hr', ⟨hk, -, hle⟩, hge⟩
          obtain ⟨j, hj, -⟩ := (mem_chunk_iff hlimit).mp hr'
          exact hknown ⟨r', List.mem_of_getElem? hj, hk, le_antisymm hle hge⟩
        have hlen := hstops.length_lt hlimit hnot
        have hpage : m ≤ i / pageLimit := by
          by_contra hbefore
          have hle := hnone (i / pageLimit) (by omega) r
            ((mem_chunk_iff hlimit).mpr ⟨i, hi, rfl⟩)
          omega
        exact Or.inr (hlen.trans_le (Nat.mul_le_mul_right _ (by omega)))
  · rintro ⟨hone, hnoticed⟩
    refine ⟨hcomplete.mpr ?_, hfurther.mpr ?_⟩
    · intro i r hi hwanted
      by_contra hlt
      rcases hstops.ends with hshort | ⟨r', hr', ⟨hknown', -, hle'⟩, hge'⟩
      · have hlen := (length_chunk_lt_iff hlimit).mp hshort
        have hmul := (Nat.le_div_iff_mul_le hlimit).mp (show m + 1 ≤ i / pageLimit by omega)
        obtain ⟨hilen, -⟩ := List.getElem?_eq_some_iff.mp hi
        omega
      · obtain ⟨j, hj, hjm⟩ := (mem_chunk_iff hlimit).mp hr'
        have hji : j ≤ i := by
          by_contra hij
          have hdiv := Nat.div_le_div_right (c := pageLimit) (show i ≤ j by omega)
          omega
        have hsorted := ledger_le hledgers hj hi hji
        obtain ⟨hknown, -, hle⟩ := hwanted
        have hsame := hone i j r r' hi hj hknown hknown' (by omega) (by omega)
        omega
    · intro k hk r hr
      by_contra hlt
      obtain ⟨i, hi, rfl⟩ := (mem_chunk_iff hlimit).mp hr
      rcases hnoticed i r hi (by omega) with ⟨r', hr', hknown', hledger'⟩ | hshort
      · obtain ⟨j, hj⟩ := List.getElem?_of_mem hr'
        have hji : j ≤ i := by
          by_contra hij
          have hsorted := ledger_le hledgers hi hj (by omega)
          omega
        have hdiv := Nat.div_le_div_right (c := pageLimit) hji
        exact not_lt_of_last hlimit hrange hstops hj hknown' hledger' (by omega)
      · have hlen := hstops.le_length hlimit hk
        omega

end Range

/-- A backfill that is completed has covered its range, and nothing was fetched too many, exactly if
the known records of the last ledger are on one page and the end of the range is noticed. -/
theorem backfill_iff (log : HorizonLog position) (pageLimit : ℕ) (hlimit : 0 < pageLimit)
    (throws : Call → Option String) (fromLedger toLedger : ℤ) (hrange : fromLedger ≤ toLedger)
    (contractId : String) (rows : List Row)
    (h : (runBackfill log pageLimit throws fromLedger toLedger contractId rows).job.status =
      .completed) :
    Covers log.records fromLedger toLedger
        (runBackfill log pageLimit throws fromLedger toLedger contractId rows) ↔
      OnePage log.records pageLimit toLedger ∧ Noticed log.records pageLimit toLedger := by
  obtain ⟨m, hstops, hpages, hcommitted⟩ := runBackfill_completed hlimit h
  exact covers_iff hlimit hrange log.ledgers log.nodup hstops hpages hcommitted

/-- The second of two claims. -/
def secondClaim : HorizonEventRecord :=
  { claimRecord with pagingToken := "1-0-0", transactionHash := some "a2" }

/-- Two claims in one ledger; the longer cursor is the later one. -/
def twoClaims : HorizonLog String.length where
  records := [claimRecord, secondClaim]
  increasing := by unfold Increasing; decide +kernel
  tokens := by decide +kernel
  ledgers := by decide +kernel

theorem backfill_iff_sample :
    Covers twoClaims.records 7 7 (runBackfill twoClaims 2 (fun _ => none) 7 7 "C" []) ↔
      OnePage twoClaims.records 2 7 ∧ Noticed twoClaims.records 2 7 :=
  backfill_iff twoClaims 2 (by decide) (fun _ => none) 7 7 (by decide) "C" [] (by decide +kernel)

/-- With one record on a page the second claim is left out. -/
theorem second_claim_left_out :
    (runBackfill twoClaims 1 (fun _ => none) 7 7 "C" []).job.status = .completed ∧
      ¬ Covers twoClaims.records 7 7 (runBackfill twoClaims 1 (fun _ => none) 7 7 "C" []) := by
  refine ⟨by decide +kernel, fun h => ?_⟩
  have hwanted : Wanted 7 7 secondClaim := by
    refine ⟨?_, by decide, by decide⟩
    unfold Known
    decide +kernel
  have hmem := h.complete secondClaim (by decide +kernel) hwanted
  exact absurd hmem (by decide +kernel)

end

end VestingDripStream.Backend.AdminBackfill
