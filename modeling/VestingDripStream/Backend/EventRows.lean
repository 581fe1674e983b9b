import VestingDripStream.Backend.Persistence

/-! # One row for every event record

`upsertStreamEvents` inserts with `ON CONFLICT (transaction_hash) DO NOTHING`. A record of Horizon is
named by `ι`, and `event` gives what it decodes to, so that several records may belong to one
transaction and even decode alike. A run is a sequence of batches of records, which may repeat; the
records of the batches that committed are kept beside the database. -/

namespace VestingDripStream.Backend.EventRows

open VestingDripStream.Lib.Run
open VestingDripStream.Backend.Database VestingDripStream.Backend.Persistence

variable {ι : Type} [DecidableEq ι] (event : ι → DecodedStreamEvent)

/-- The database, and the records ingested so far, each once. -/
structure Ingestion (ι : Type) where
  db : Db
  records : List ι

/-- The records of the batch that were not ingested before, each once. -/
def newRecords (records : List ι) : List ι → List ι
  | [] => []
  | i :: batch =>
    if i ∈ records then newRecords records batch else i :: newRecords (records ++ [i]) batch

/-- One batch. -/
def submit (s : Ingestion ι) (batch : List ι) : Ingestion ι where
  db := upsertBatch s.db (batch.map event)
  records := s.records ++
    if Commits s.db (batch.map event) then newRecords s.records batch else []

/-- Beside the rows `base` of other records, `stream_events` has one row for every record, and a
record that is submitted again adds none. -/
structure EveryRecordStored (base : List DecodedStreamEvent) (s : Ingestion ι) : Prop where
  rows : s.db.streamEvents = base ++ s.records.map event
  resubmit : ∀ batch : List ι, (∀ i ∈ batch, i ∈ s.records) →
    (upsertBatch s.db (batch.map event)).streamEvents = s.db.streamEvents

/-- If the batch commits, no new record of it belongs to a transaction of which an event is stored,
nor do two of them belong to one transaction. -/
def NewTransactions (s : Ingestion ι) (batch : List ι) : Prop :=
  Commits s.db (batch.map event) →
    ((newRecords s.records batch).map fun i => (event i).transactionHash).Nodup ∧
      ∀ i ∈ newRecords s.records batch, (event i).transactionHash ∉ s.db.hashes

section Rows

variable {event} {records : List ι} {db : Db}

omit [DecidableEq ι] in
/-- Records whose transactions are in the index add no row. -/
theorem run_ingest_of_known {batch : List ι}
    (h : ∀ i ∈ batch, (event i).transactionHash ∈ db.hashes) :
    (run ingest db (batch.map event)).streamEvents = db.streamEvents := by
  induction batch generalizing db with
  | nil => rfl
  | cons i batch ih =>
    have hi := h i List.mem_cons_self
    have hrows := ingest_streamEvents db (event i)
    rw [if_pos hi] at hrows
    rw [List.map_cons, run_cons, ih, hrows]
    intro j hj
    exact (mem_hashes_ingest db (event i) _).mpr (Or.inl (h j (List.mem_cons_of_mem i hj)))

omit [DecidableEq ι] in
/-- The index knows the ingested records after a further one, too. -/
theorem known_ingest (h : ∀ i ∈ records, (event i).transactionHash ∈ db.hashes) (j : ι) :
    ∀ i ∈ records ++ [j], (event i).transactionHash ∈ (ingest db (event j)).hashes := by
  intro i hi
  rw [mem_hashes_ingest]
  rcases List.mem_append.mp hi with hi | hi
  · exact Or.inl (h i hi)
  · rw [List.mem_singleton.mp hi]
    exact Or.inr rfl

/-- No new record adds more than one row, and a record that was ingested adds none. -/
theorem length_run_ingest_le (h : ∀ i ∈ records, (event i).transactionHash ∈ db.hashes)
    (batch : List ι) :
    (run ingest db (batch.map event)).streamEvents.length ≤
      db.streamEvents.length + (newRecords records batch).length := by
  induction batch generalizing db records with
  | nil => simp
  | cons i batch ih =>
    have hrows := ingest_streamEvents db (event i)
    have hknown := known_ingest h i
    rw [List.map_cons, run_cons]
    unfold newRecords
    split_ifs with hi
    · rw [if_pos (h i hi)] at hrows
      have hrest := ih fun j hj => hknown j (List.mem_append_left _ hj)
      rwa [hrows] at hrest
    · have hrest := ih hknown
      have hone : (ingest db (event i)).streamEvents.length ≤ db.streamEvents.length + 1 := by
        rw [hrows]; split_ifs <;> simp
      rw [List.length_cons]
      omega

/-- **One batch** adds one row for each of its new records exactly if their transactions are new and
distinct. -/
theorem run_ingest_rows_iff (h : ∀ i ∈ records, (event i).transactionHash ∈ db.hashes)
    (batch : List ι) :
    (run ingest db (batch.map event)).streamEvents =
        db.streamEvents ++ (newRecords records batch).map event ↔
      ((newRecords records batch).map fun i => (event i).transactionHash).Nodup ∧
        ∀ i ∈ newRecords records batch, (event i).transactionHash ∉ db.hashes := by
  induction batch generalizing db records with
  | nil => simp [newRecords]
  | cons i batch ih =>
    have hrows := ingest_streamEvents db (event i)
    have hknown := known_ingest h i
    rw [List.map_cons, run_cons]
    unfold newRecords
    split_ifs with hi
    · have hmem := h i hi
      rw [if_pos hmem] at hrows
      have hhashes : ∀ hash, hash ∈ (ingest db (event i)).hashes ↔ hash ∈ db.hashes := by
        intro hash
        unfold Db.hashes
        rw [hrows]
      have hrest := ih fun j hj => hknown j (List.mem_append_left _ hj)
      simpa only [hrows, hhashes] using hrest
    · by_cases hmem : (event i).transactionHash ∈ db.hashes
      · -- the record is skipped, and no later one makes up for it
        have hle := length_run_ingest_le hknown batch
        rw [if_pos hmem] at hrows
        refine iff_of_false (fun heq => ?_) fun hc => hc.2 i List.mem_cons_self hmem
        have hlen := congrArg List.length heq
        rw [hrows] at hle
        simp only [List.length_append, List.length_map, List.length_cons] at hlen
        omega
      · rw [if_neg hmem] at hrows
        have hrest := ih hknown
        rw [hrows, List.append_assoc, List.singleton_append] at hrest
        rw [List.map_cons, hrest, List.map_cons, List.nodup_cons]
        simp only [mem_hashes_ingest, List.mem_map, List.mem_cons]
        grind

end Rows

variable {event}

omit [DecidableEq ι] in
theorem mem_hashes_of_rows {base : List DecodedStreamEvent} {db : Db} {records : List ι}
    (hs : db.streamEvents = base ++ records.map event) {i : ι} (hi : i ∈ records) :
    (event i).transactionHash ∈ db.hashes := by
  unfold Db.hashes
  rw [hs]
  exact List.mem_map_of_mem (List.mem_append_right _ (List.mem_map_of_mem hi))

omit [DecidableEq ι] in
/-- Where every record is stored, records that are submitted again add nothing. -/
theorem everyRecordStored_of_rows {base : List DecodedStreamEvent} {s : Ingestion ι}
    (hs : s.db.streamEvents = base ++ s.records.map event) : EveryRecordStored event base s := by
  refine ⟨hs, fun batch hb => ?_⟩
  by_cases hc : Commits s.db (batch.map event)
  · rw [upsertBatch_of_commits hc]
    exact run_ingest_of_known fun i hi => mem_hashes_of_rows hs (hb i hi)
  · rw [upsertBatch_of_not_commits hc]

theorem everyRecordStored_submit_iff {base : List DecodedStreamEvent} {s : Ingestion ι}
    (h : EveryRecordStored event base s) (batch : List ι) :
    EveryRecordStored event base (submit event s batch) ↔ NewTransactions event s batch := by
  unfold NewTransactions
  by_cases hc : Commits s.db (batch.map event)
  · have hrows := run_ingest_rows_iff (fun i hi => mem_hashes_of_rows h.rows hi) batch
    have hiff : EveryRecordStored event base (submit event s batch) ↔
        (run ingest s.db (batch.map event)).streamEvents =
          s.db.streamEvents ++ (newRecords s.records batch).map event := by
      have hdb : (submit event s batch).db = run ingest s.db (batch.map event) :=
        upsertBatch_of_commits hc
      have hrecords : (submit event s batch).records =
          s.records ++ newRecords s.records batch := by
        simp only [submit, hc, if_true]
      rw [h.rows, List.append_assoc, ← List.map_append, ← hdb, ← hrecords]
      exact ⟨fun hq => hq.rows, everyRecordStored_of_rows⟩
    rw [hiff, hrows]
    simp only [hc, forall_const]
  · have hsame : submit event s batch = s := by
      simp only [submit, hc, upsertBatch_of_not_commits hc, if_false, List.append_nil]
    rw [hsame]
    exact ⟨fun _ hcc => absurd hcc hc, fun _ => h⟩

variable (event) in
/-- A run of batches stores one row for every record it ingests, and none twice, exactly if in each
of its batches every new record is the first of its transaction. -/
theorem everyRecordStored_iff (base : List DecodedStreamEvent) (s : Ingestion ι)
    (hs : s.db.streamEvents = base ++ s.records.map event) (batches : List (List ι)) :
    AllStates (submit event) (EveryRecordStored event base) s batches ↔
      AllSteps (submit event) (NewTransactions event) s batches :=
  allStates_iff_of_step (fun _ batch h => everyRecordStored_submit_iff h batch)
    (everyRecordStored_of_rows hs)

/-- What `create_batch_streams` emits for a batch of two, in one transaction. -/
def twoCreations : Bool → DecodedStreamEvent
  | false => ⟨.streamCreated, "CRECIPIENT1", "GSPONSOR", "CTOKEN", some 100, 7, "a1"⟩
  | true => ⟨.streamCreated, "CRECIPIENT2", "GSPONSOR", "CTOKEN", some 250, 7, "a1"⟩

theorem everyRecordStored_iff_single :
    AllStates (submit twoCreations) (EveryRecordStored twoCreations [])
        ⟨Db.fresh fun _ => none, []⟩ [[false], [false]] ↔
      AllSteps (submit twoCreations) (NewTransactions twoCreations)
        ⟨Db.fresh fun _ => none, []⟩ [[false], [false]] :=
  everyRecordStored_iff twoCreations [] ⟨Db.fresh fun _ => none, []⟩ rfl [[false], [false]]

/-- The second creation of the transaction is not stored. -/
theorem twoCreations_lost :
    Commits (Db.fresh fun _ => none) ([false, true].map twoCreations) ∧
      ¬ AllStates (submit twoCreations) (EveryRecordStored twoCreations [])
        ⟨Db.fresh fun _ => none, []⟩ [[false, true]] := by
  refine ⟨by decide, ?_⟩
  rintro ⟨-, h⟩
  have hrows := congrArg List.length h.rows
  revert hrows
  decide

end VestingDripStream.Backend.EventRows
