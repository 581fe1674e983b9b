import VestingDripStream.Backend.AdminBackfill

/-! # The backfill script

`run` of `backfill_stream_events.ts` reads the log of Horizon page by page from a cursor on, and
returns the cursor to resume from. The test for ledgers above the range is made on events that
`decodeEvent` has let through, which are never above it, so the script reads on to a page that is
not full; and the cursor stays in front of that page. `resumable_iff` says when what `run` returns
is right. -/

namespace VestingDripStream.Backend.BackfillScript

open VestingDripStream.Lib.Paging VestingDripStream.Lib.Chunks
open VestingDripStream.Backend.Decoder (HorizonEventRecord)
open VestingDripStream.Backend.Decoders VestingDripStream.Backend.Decoders.Script
open VestingDripStream.Backend.AdminBackfill (HorizonLog fetchPage remaining Ending NoFurther
  fetchPage_records fetchPage_nextCursor remaining_empty noFurther_iff)

/-- The `BackfillOptions` that `run` reads; both ledgers are required. -/
structure Options where
  fromLedger : ℤ
  toLedger : ℤ
  eventTypes : List EventType := []
  dryRun : Bool := false
  reconcile : Bool := true

/-- The context in which `run` decodes. -/
def Options.context (opts : Options) : DecodeContext :=
  ⟨some opts.fromLedger, some opts.toLedger, opts.eventTypes⟩

/-- `UpsertResult`, with the rows. -/
structure UpsertResult where
  inserted : ℕ
  updated : ℕ
  rows : List WorkerEvent

/-- The `INSERT` of an event: `ON CONFLICT (tx_hash) DO UPDATE`. Without a hash it is skipped. -/
def upsertEvent (acc : UpsertResult) (ev : WorkerEvent) : UpsertResult :=
  if ev.txHash = "" then acc
  else if acc.rows.any (·.txHash = ev.txHash) then
    { acc with
      updated := acc.updated + 1
      rows := acc.rows.map fun row => if row.txHash = ev.txHash then ev else row }
  else { acc with inserted := acc.inserted + 1, rows := acc.rows ++ [ev] }

/-- `upsertEvents`, when it commits. -/
def upsertEvents (events : List WorkerEvent) (rows : List WorkerEvent) : UpsertResult :=
  events.foldl upsertEvent ⟨0, 0, rows⟩

/-- The calls that may throw; those of a page carry its number. -/
inductive Call
  | fetchPage (i : ℕ)
  | upsertEvents (i : ℕ)
  | reconcile
  deriving DecidableEq, Repr

/-- The variables of `run` and the rows; the pages fetched so far, whose number is the variable, and
the records whose events were logged (in a dry run) or written. -/
structure State where
  cursor : String
  pages : List (List HorizonEventRecord) := []
  fetched : ℕ := 0
  inserted : ℕ := 0
  updated : ℕ := 0
  skipped : ℕ := 0
  lastLedger : Option ℤ := none
  pastToLedger : Bool := false
  stoppedEarly : Bool := false
  rows : List WorkerEvent := []
  processed : List HorizonEventRecord := []

/-- `RunSummary`. `decodeEvent` does not throw, so nothing is a dead letter. -/
structure RunSummary where
  fetched : ℕ
  inserted : ℕ
  updated : ℕ
  skipped : ℕ
  dlq : ℕ
  pages : ℕ
  truncated : Bool
  resumeCursor : Option String
  lastLedger : Option ℤ

/-- What `run` returns behind the loop. -/
def summary (s : State) : RunSummary where
  fetched := s.fetched
  inserted := s.inserted
  updated := s.updated
  skipped := s.skipped
  dlq := 0
  pages := s.pages.length
  truncated := s.stoppedEarly
  resumeCursor := if s.pastToLedger then none else if s.cursor = "" then none else some s.cursor
  lastLedger := s.lastLedger

section Run

variable {P : Type} [LinearOrder P] {position : String → P} (log : HorizonLog position)
  (pageLimit : ℕ) (throws : Call → Option String) (opts : Options)

/-- `decodeEvent` accepts the record. -/
def Decodes (r : HorizonEventRecord) : Prop := decodeEvent r opts.context ≠ none

instance : DecidablePred (Decodes opts) := fun r => by unfold Decodes; infer_instance

/-- The loop. -/
def loop : ℕ → State → Ending × State
  | 0, s => (.outOfFuel, s)
  | fuel + 1, s =>
    if s.pastToLedger then (.done, s)
    else
      match throws (.fetchPage s.pages.length) with
      | some msg => (.threw msg, s)
      | none =>
        let { records, nextCursor } := fetchPage position log s.cursor pageLimit
        let s := { s with pages := s.pages ++ [records] }
        if records = [] then (.done, s)
        else
          let decoded := records.filterMap (decodeEvent · opts.context)
          let s := { s with
            fetched := s.fetched + records.length
            skipped := s.skipped + (records.length - decoded.length)
            lastLedger := decoded.foldl (fun lastLedger ev =>
              some (lastLedger.elim ev.ledgerSequence (max · ev.ledgerSequence))) s.lastLedger
            pastToLedger := decoded.any fun ev => opts.toLedger < ev.ledgerSequence }
          -- a dry run writes nothing, and without events there is no transaction
          match if opts.dryRun ∨ decoded = [] then none
              else throws (.upsertEvents (s.pages.length - 1)) with
          | some msg => (.threw msg, s)
          | none =>
            let result := if opts.dryRun then ⟨0, 0, s.rows⟩ else upsertEvents decoded s.rows
            let s := { s with
              inserted := s.inserted + result.inserted
              updated := s.updated + result.updated
              rows := result.rows
              processed := s.processed ++ records.filter (Decodes opts)
              stoppedEarly := s.stoppedEarly ||
                (s.pages.length = 1 && records.head?.any (opts.fromLedger < ·.ledger)) }
            if records.length < pageLimit then (.done, s)
            else
              match nextCursor with
              | none => (.done, s)
              | some cursor =>
                if cursor = "" then (.done, s) else loop fuel { s with cursor := cursor }

/-- `run`, from `BACKFILL_START_CURSOR` on and on the rows that are there. -/
def run (startCursor : String) (rows : List WorkerEvent) : Except String RunSummary × State :=
  match loop log pageLimit throws opts (log.records.length + 1)
    { cursor := startCursor, rows := rows } with
  | (.outOfFuel, s) => (.error "", s)
  | (.threw msg, s) => (.error msg, s)
  | (.done, s) =>
    match if opts.dryRun ∨ ¬ opts.reconcile then none else throws .reconcile with
    | some msg => (.error msg, s)
    | none => (.ok (summary s), s)

end Run

/-! ### What should hold -/

/-- A record that the options ask for. -/
def Wanted (opts : Options) (r : HorizonEventRecord) : Prop :=
  (∃ eventType, knownType (decodeSymbol (r.topic[0]?.getD "")) = some eventType ∧
    (opts.eventTypes = [] ∨ eventType ∈ opts.eventTypes)) ∧
  opts.fromLedger ≤ r.ledger ∧ r.ledger ≤ opts.toLedger

/-- What `run` promises when it returns, of the records behind the cursor that it started from: the
wanted ones are processed, no page is fetched too many, there is no cursor to resume from exactly if
nothing is left, and from a cursor exactly what is left will be processed. -/
structure Resumable {P : Type} [LinearOrder P] {position : String → P} (log : HorizonLog position)
    (pageLimit : ℕ) (opts : Options) (startCursor : String) (result : RunSummary) (s : State) :
    Prop where
  complete : ∀ r ∈ remaining log startCursor, Wanted opts r → r ∈ s.processed
  noFurther : NoFurther opts.toLedger s.pages
  resumeCursor_iff : result.resumeCursor = none ↔
    ∀ r ∈ remaining log startCursor, Wanted opts r → r ∈ s.processed
  resumes : ∀ cursor, result.resumeCursor = some cursor → ∀ throws rows result' s',
    run log pageLimit throws opts cursor rows = (.ok result', s') →
    ∀ r ∈ remaining log startCursor, Wanted opts r → (r ∈ s'.processed ↔ r ∉ s.processed)

section

variable {P : Type} [LinearOrder P] {position : String → P} {log : HorizonLog position}
  {pageLimit : ℕ} {throws : Call → Option String} {opts : Options} {r : HorizonEventRecord}
  {s : State}

/-! ### One record -/

/-- An event of the record, which is not above the range. -/
theorem decodeEvent_cases (opts : Options) (r : HorizonEventRecord) :
    (Wanted opts r ∧ ∃ ev, decodeEvent r opts.context = some ev ∧
      ev.ledgerSequence ≤ opts.toLedger) ∨
    (¬ Wanted opts r ∧ decodeEvent r opts.context = none) := by
  unfold Wanted decodeEvent Options.context
  cases hknown : knownType (decodeSymbol (r.topic[0]?.getD "")) with
  | none =>
    simp only [hknown]
    exact Or.inr ⟨fun ⟨⟨_, hsome, _⟩, _⟩ => (Option.some_ne_none _ hsome.symm).elim, trivial⟩
  | some eventType =>
    by_cases htype : opts.eventTypes ≠ [] ∧ eventType ∉ opts.eventTypes
    · simp only [hknown, if_pos htype]
      refine Or.inr ⟨fun ⟨⟨_, hsome, hmem⟩, _⟩ => ?_, trivial⟩
      obtain rfl := Option.some.inj hsome
      exact hmem.elim htype.1 htype.2
    · have hmem : opts.eventTypes = [] ∨ eventType ∈ opts.eventTypes := by tauto
      simp only [hknown, if_neg htype, Option.any_some, decide_eq_true_eq]
      by_cases hfrom : r.ledger < opts.fromLedger
      · rw [if_pos hfrom]
        exact Or.inr ⟨fun ⟨_, hle, _⟩ => by omega, rfl⟩
      · by_cases hto : opts.toLedger < r.ledger
        · rw [if_neg hfrom, if_pos hto]
          exact Or.inr ⟨fun ⟨_, _, hle⟩ => by omega, rfl⟩
        · rw [if_neg hfrom, if_neg hto]
          refine Or.inl ⟨⟨⟨eventType, rfl, hmem⟩, by omega, by omega⟩, ?_⟩
          cases eventType <;> exact ⟨_, rfl, not_lt.mp hto⟩

theorem decodes_iff : Decodes opts r ↔ Wanted opts r := by
  unfold Decodes
  rcases decodeEvent_cases opts r with ⟨hwanted, ev, hev, -⟩ | ⟨hnot, hnone⟩
  · rw [hev]
    exact iff_of_true (Option.some_ne_none _) hwanted
  · rw [hnone]
    exact iff_of_false (fun h => h rfl) hnot

/-- **The test for the end of the range** never succeeds. -/
theorem not_pastToLedger (opts : Options) (records : List HorizonEventRecord) :
    ((records.filterMap (decodeEvent · opts.context)).any fun ev =>
      opts.toLedger < ev.ledgerSequence) = false := by
  rw [List.any_eq_false]
  intro ev hmem
  obtain ⟨r, -, hev⟩ := List.mem_filterMap.mp hmem
  rcases decodeEvent_cases opts r with ⟨-, ev', hev', hle⟩ | ⟨-, hnone⟩
  · obtain rfl := Option.some.inj (hev.symm.trans hev')
    simpa using hle
  · rw [hnone] at hev
    cases hev

/-! ### The loop -/

/-- What the loop has read and processed when it has gone through the first `m + 1` parts of the log
from a cursor on. -/
structure Reads (log : HorizonLog position) (pageLimit : ℕ) (opts : Options) (s : State) (m : ℕ)
    (s' : State) : Prop where
  pages : s'.pages =
    s.pages ++ (List.range (m + 1)).map (chunk pageLimit · (remaining log s.cursor))
  processed : s'.processed = s.processed ++
    ((remaining log s.cursor).take ((m + 1) * pageLimit)).filter (Decodes opts)
  pastToLedger : s'.pastToLedger = false

variable (log pageLimit throws opts) in
/-- **One page**: a call throws, the loop is done, or it goes on behind a full page. -/
theorem loop_cases (fuel : ℕ) (s : State) (hpast : s.pastToLedger = false) :
    (∃ msg s', loop log pageLimit throws opts (fuel + 1) s = (.threw msg, s')) ∨
    (∃ s', loop log pageLimit throws opts (fuel + 1) s = (.done, s') ∧
      Reads log pageLimit opts s 0 s' ∧ s'.cursor = s.cursor ∧
      ((chunk pageLimit 0 (remaining log s.cursor)).length < pageLimit ∨
        chunk pageLimit 0 (remaining log s.cursor) = [])) ∨
    (∃ s', loop log pageLimit throws opts (fuel + 1) s = loop log pageLimit throws opts fuel s' ∧
      Reads log pageLimit opts s 0 s' ∧ s'.cursor ≠ "" ∧
      (chunk pageLimit 0 (remaining log s.cursor)).length = pageLimit ∧
      chunk pageLimit 0 (remaining log s.cursor) ≠ [] ∧
      remaining log s'.cursor = (remaining log s.cursor).drop pageLimit) := by
  have hrecords : (fetchPage position log s.cursor pageLimit).records = _ :=
    fetchPage_records s.cursor
  have hlen := length_chunk_le pageLimit 0 (remaining log s.cursor)
  have hreads : ∀ {s'}, s'.pages = s.pages ++ [chunk pageLimit 0 (remaining log s.cursor)] →
      s'.processed = s.processed ++
        (chunk pageLimit 0 (remaining log s.cursor)).filter (Decodes opts) →
      s'.pastToLedger = false → Reads log pageLimit opts s 0 s' := by
    intro s' hpages hprocessed hpast
    refine ⟨hpages, ?_, hpast⟩
    rw [hprocessed, take_one_mul]
  rw [loop, hpast, if_neg Bool.false_ne_true]
  cases hfetch : throws (.fetchPage s.pages.length) with
  | some msg => exact Or.inl ⟨msg, s, rfl⟩
  | none =>
    by_cases hnil : chunk pageLimit 0 (remaining log s.cursor) = []
    · refine Or.inr (Or.inl ⟨_, if_pos (hrecords.trans hnil), hreads ?_ ?_ rfl, rfl,
        Or.inr hnil⟩)
      · exact congrArg (s.pages ++ [·]) hrecords
      · rw [hnil, List.filter_nil, List.append_nil]
    · obtain ⟨next, hnext, hne, hrest⟩ := fetchPage_nextCursor hnil
      simp only [hrecords, hnext, if_neg hnil, not_pastToLedger]
      cases hupsert : (if opts.dryRun = true ∨
          (chunk pageLimit 0 (remaining log s.cursor)).filterMap (decodeEvent · opts.context) = []
          then none
          else throws (.upsertEvents
            ((s.pages ++ [chunk pageLimit 0 (remaining log s.cursor)]).length - 1))) with
      | some msg => exact Or.inl ⟨msg, _, rfl⟩
      | none =>
        simp only [hne, if_false]
        by_cases hshort : (chunk pageLimit 0 (remaining log s.cursor)).length < pageLimit
        · exact Or.inr (Or.inl ⟨_, if_pos hshort, hreads rfl rfl rfl, rfl, Or.inl hshort⟩)
        · exact Or.inr (Or.inr ⟨_, if_neg hshort, hreads rfl rfl rfl, hne, by omega, hnil, hrest⟩)

/-- Reading a part and then the ones behind it. -/
theorem Reads.trans {m : ℕ} {s s' s'' : State} (h : Reads log pageLimit opts s 0 s')
    (hrest : remaining log s'.cursor = (remaining log s.cursor).drop pageLimit)
    (h' : Reads log pageLimit opts s' m s'') : Reads log pageLimit opts s (m + 1) s'' where
  pages := by
    rw [h'.pages, h.pages, hrest, map_chunk_succ, List.append_assoc]
    rfl
  processed := by
    rw [h'.processed, h.processed, hrest, take_one_mul, take_succ_mul pageLimit (m + 1),
      List.filter_append, List.append_assoc]
  pastToLedger := h'.pastToLedger

/-- **The loop** ends, and if no call throws it has read the log to its end, and the cursor has
moved if there was a full page. -/
theorem loop_spec (hlimit : 0 < pageLimit) {fuel : ℕ} {s : State} (hpast : s.pastToLedger = false)
    (hfuel : (remaining log s.cursor).length < fuel) :
    (∃ msg s', loop log pageLimit throws opts fuel s = (.threw msg, s')) ∨
    ∃ s' m, loop log pageLimit throws opts fuel s = (.done, s') ∧
      Reads log pageLimit opts s m s' ∧
      StopsAt pageLimit (fun _ => False) (remaining log s.cursor) m ∧
      (m = 0 → s'.cursor = s.cursor) ∧ (0 < m → s'.cursor ≠ "") := by
  induction fuel generalizing s with
  | zero => exact absurd hfuel (Nat.not_lt_zero _)
  | succ fuel ih =>
    rcases loop_cases log pageLimit throws opts fuel s hpast with
      hthrew | ⟨s', hdone, hreads, hcursor, hends⟩ |
      ⟨s', hloop, hreads, hcursor, hfull, hne, hrest⟩
    · exact Or.inl hthrew
    · refine Or.inr ⟨s', 0, hdone, hreads, stopsAt_zero (Or.inl ?_), fun _ => hcursor, ?_⟩
      · rcases hends with hshort | hnil
        · exact hshort
        · rw [hnil]
          exact hlimit
      · exact fun h => absurd h (Nat.lt_irrefl 0)
    · have hless : (remaining log s'.cursor).length < fuel := by
        have := length_drop_lt hlimit hne
        rw [hrest]
        omega
      rw [hloop]
      rcases ih hreads.pastToLedger hless with
        hthrew | ⟨s'', m, hdone, hreads', hstops, hsame, hmoved⟩
      · exact Or.inl hthrew
      · refine Or.inr ⟨s'', m + 1, hdone, hreads.trans hrest hreads', ?_, ?_, fun _ => ?_⟩
        · rw [hrest] at hstops
          exact stopsAt_succ hfull not_false hstops
        · exact fun h => absurd h (Nat.succ_ne_zero m)
        · rcases Nat.eq_zero_or_pos m with hzero | hpos
          · rw [hsame hzero]
            exact hcursor
          · exact hmoved hpos

/-! ### The run -/

/-- A run that returns has read the log from its cursor to the end. -/
theorem run_ok (hlimit : 0 < pageLimit) {startCursor : String} {rows : List WorkerEvent}
    {result : RunSummary} (h : run log pageLimit throws opts startCursor rows = (.ok result, s)) :
    ∃ m, StopsAt pageLimit (fun _ => False) (remaining log startCursor) m ∧
      s.pages = (List.range (m + 1)).map (chunk pageLimit · (remaining log startCursor)) ∧
      s.processed = ((remaining log startCursor).take ((m + 1) * pageLimit)).filter (Decodes opts) ∧
      (result.resumeCursor = none ↔ startCursor = "" ∧ m = 0) := by
  have hfuel : (remaining log startCursor).length < log.records.length + 1 :=
    Nat.lt_succ_of_le (List.length_filter_le ..)
  unfold run at h
  rcases @loop_spec _ _ _ log pageLimit throws opts hlimit _
    { cursor := startCursor, rows := rows } rfl hfuel with
    ⟨msg, s', hthrew⟩ | ⟨s', m, hdone, hreads, hstops, hsame, hmoved⟩
  · rw [hthrew] at h
    cases congrArg Prod.fst h
  · rw [hdone] at h
    cases hreconcile : (if opts.dryRun = true ∨ ¬ opts.reconcile = true then none
        else throws .reconcile) with
    | some msg =>
      simp only [hreconcile] at h
      cases congrArg Prod.fst h
    | none =>
      simp only [hreconcile] at h
      obtain ⟨hresult, rfl⟩ := Prod.mk.inj h
      obtain rfl := Except.ok.inj hresult
      refine ⟨m, hstops, hreads.pages, hreads.processed, ?_⟩
      have hcursor : s'.cursor = "" ↔ startCursor = "" ∧ m = 0 := by
        rcases Nat.eq_zero_or_pos m with hzero | hpos
        · rw [hsame hzero]
          exact (and_iff_left hzero).symm
        · exact iff_of_false (hmoved hpos) fun hm => by omega
      rw [← hcursor]
      unfold summary
      simp only [hreads.pastToLedger]
      by_cases hempty : s'.cursor = ""
      · simp [hempty]
      · simp [hempty]

/-- A run that returns has processed what is wanted behind its cursor. -/
theorem run_complete (hlimit : 0 < pageLimit) {startCursor : String} {rows : List WorkerEvent}
    {result : RunSummary} (h : run log pageLimit throws opts startCursor rows = (.ok result, s)) :
    ∀ r ∈ remaining log startCursor, Wanted opts r → r ∈ s.processed := by
  obtain ⟨m, hstops, -, hprocessed, -⟩ := run_ok hlimit h
  intro r hr hwanted
  have hlen := hstops.length_lt hlimit not_false
  rw [hprocessed, List.take_of_length_le hlen.le]
  exact List.mem_filter.mpr ⟨hr, decide_eq_true (decodes_iff.mpr hwanted)⟩

/-- What a run returns is right exactly if it started at the beginning of a log of less than a
page. -/
theorem resumable_iff (log : HorizonLog position) (pageLimit : ℕ) (hlimit : 0 < pageLimit)
    (throws : Call → Option String) (opts : Options) (startCursor : String)
    (rows : List WorkerEvent) (result : RunSummary) (s : State)
    (h : run log pageLimit throws opts startCursor rows = (.ok result, s)) :
    Resumable log pageLimit opts startCursor result s ↔
      startCursor = "" ∧ log.records.length < pageLimit := by
  obtain ⟨m, hstops, hpages, -, hnone⟩ := run_ok hlimit h
  have hcomplete := run_complete hlimit h
  constructor
  · intro hresumable
    obtain ⟨rfl, rfl⟩ := hnone.mp (hresumable.resumeCursor_iff.mpr hcomplete)
    have hlen := hstops.length_lt hlimit not_false
    rw [remaining_empty] at hlen
    exact ⟨rfl, by omega⟩
  · rintro ⟨rfl, hshort⟩
    have hzero : m = 0 := by
      by_contra hne
      have hle := hstops.le_length hlimit (Nat.pos_of_ne_zero hne)
      rw [remaining_empty] at hle
      omega
    have hcursor := hnone.mpr ⟨rfl, hzero⟩
    refine ⟨hcomplete, ?_, iff_of_true hcursor hcomplete, fun cursor hsome => ?_⟩
    · rw [hpages, noFurther_iff]
      intro k hk
      omega
    · rw [hcursor] at hsome
      cases hsome

open AdminBackfill (twoClaims) in
theorem resumable_iff_sample :
    Resumable twoClaims 3 ⟨7, 7, [], true, true⟩ ""
        (summary (run twoClaims 3 (fun _ => none) ⟨7, 7, [], true, true⟩ "" []).2)
        (run twoClaims 3 (fun _ => none) ⟨7, 7, [], true, true⟩ "" []).2 ↔
      "" = "" ∧ twoClaims.records.length < 3 :=
  resumable_iff twoClaims 3 (by decide) (fun _ => none) ⟨7, 7, [], true, true⟩ "" [] _ _ rfl

open AdminBackfill (twoClaims) in
/-- With one record on a page both claims are processed, and the run is to be resumed behind the
second one. -/
theorem covered_range_resumed :
    ∃ result s, run twoClaims 1 (fun _ => none) ⟨7, 7, [], true, true⟩ "" [] = (.ok result, s) ∧
      ¬ Resumable twoClaims 1 ⟨7, 7, [], true, true⟩ "" result s := by
  refine ⟨_, _, rfl, fun h => ?_⟩
  have hcursor := h.resumeCursor_iff.mpr h.complete
  exact absurd hcursor (by decide +kernel)

end

end VestingDripStream.Backend.BackfillScript
