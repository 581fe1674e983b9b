import VestingDripStream.Backend.Persistence

/-! # Batches that the database rejects

A batch commits unless one of its events is rejected: a `StreamDrained` event always is, a
`TokensClaimed` event with an amount is unless its transaction is stored already, a
`StreamCancelled` event is if the stream has ended in the table in another way, a creation is if its
recipient is too long for `stream_id`, and a ledger beyond `integer` is in any event. The statuses
that matter do not change within a batch, so the test can be made on the tables before it
(`commits_iff_unpoisoned`). -/

namespace VestingDripStream.Backend.Acceptance

open VestingDripStream.Lib.Transaction VestingDripStream.Lib.Run
open VestingDripStream.Backend.Database VestingDripStream.Backend.Persistence

/-- The row of the recipient, if there is one, can be set to `cancelled`. -/
def CancellableAt (streams : String → Option VestingStream) (recipient : String) : Prop :=
  ∀ row, streams recipient = some row → Cancellable row.status

instance (streams : String → Option VestingStream) (recipient : String) :
    Decidable (CancellableAt streams recipient) :=
  match h : streams recipient with
  | none => isTrue fun row hrow => by rw [h] at hrow; cases hrow
  | some row => decidable_of_iff (Cancellable row.status) ⟨fun hc row' h' => by
      rw [h] at h'; cases h'; exact hc, fun hc => hc row h⟩

/-- What the tests on the event alone and on `vesting_streams` say. -/
structure Admissible (streams : String → Option VestingStream) (ev : DecodedStreamEvent) :
    Prop where
  ledger : FitsInteger ev.ledgerSequence
  notDrained : ev.eventType ≠ .streamDrained
  cancellable : ev.eventType = .streamCancelled → CancellableAt streams ev.recipient

/-- The batch holds nothing that the database rejects. -/
structure Unpoisoned (db : Db) (events : List DecodedStreamEvent) : Prop where
  admissible : ∀ ev ∈ events, Admissible db.vestingStreams ev
  insertable : ∀ pre ev post, events = pre ++ ev :: post → ev.transactionHash ∉ db.hashes →
    (∀ ev' ∈ pre, ev'.transactionHash ≠ ev.transactionHash) → Insertable ev

theorem accepts_iff {db : Db} {ev : DecodedStreamEvent} :
    Accepts db ev ↔ Admissible db.vestingStreams ev ∧
      (ev.transactionHash ∉ db.hashes → Insertable ev) :=
  ⟨fun h => ⟨⟨h.ledger, h.notDrained, h.cancellable⟩, h.insertable⟩,
    fun h => ⟨h.1.ledger, h.1.notDrained, h.1.cancellable, h.2⟩⟩

/-- An accepted event does not change which streams can be cancelled. -/
theorem cancellableAt_ingest {db : Db} {ev : DecodedStreamEvent} (h : Accepts db ev)
    (recipient : String) :
    CancellableAt (ingest db ev).vestingStreams recipient ↔
      CancellableAt db.vestingStreams recipient := by
  rw [ingest_vestingStreams]
  split_ifs with hc
  · have hev := h.cancellable hc
    unfold cancelStream
    split
    · rfl
    · next row hrow =>
      split_ifs with hs
      · rfl
      · unfold CancellableAt changeStatus
        simp only [Function.update_apply]
        split_ifs with hr
        · subst hr
          simp only [Option.some.injEq, forall_eq', hrow]
          exact ⟨fun _ => hev row hrow, fun _ => Or.inr (Or.inr rfl)⟩
        · rfl
  · rfl

theorem admissible_ingest {db : Db} {ev : DecodedStreamEvent} (h : Accepts db ev)
    (ev' : DecodedStreamEvent) :
    Admissible (ingest db ev).vestingStreams ev' ↔ Admissible db.vestingStreams ev' := by
  constructor
  · rintro ⟨hl, hd, hc⟩
    exact ⟨hl, hd, fun ht => (cancellableAt_ingest h _).mp (hc ht)⟩
  · rintro ⟨hl, hd, hc⟩
    exact ⟨hl, hd, fun ht => (cancellableAt_ingest h _).mpr (hc ht)⟩

theorem unpoisoned_cons {db : Db} {ev : DecodedStreamEvent} {events : List DecodedStreamEvent} :
    Unpoisoned db (ev :: events) ↔ Accepts db ev ∧ Unpoisoned (ingest db ev) events := by
  constructor
  · rintro ⟨hadm, hins⟩
    have ha : Accepts db ev := accepts_iff.mpr ⟨hadm ev List.mem_cons_self,
      fun hh => hins [] ev events rfl hh (by simp)⟩
    refine ⟨ha, fun ev' hev' => ?_, ?_⟩
    · exact (admissible_ingest ha ev').mpr (hadm ev' (List.mem_cons_of_mem ev hev'))
    · rintro pre ev' post rfl hh hpre
      rw [mem_hashes_ingest, not_or] at hh
      refine hins (ev :: pre) ev' post rfl hh.1 ?_
      simpa using ⟨fun he => hh.2 he.symm, hpre⟩
  · rintro ⟨ha, hadm, hins⟩
    refine ⟨fun ev' hev' => ?_, ?_⟩
    · rcases List.mem_cons.mp hev' with rfl | hev'
      · exact (accepts_iff.mp ha).1
      · exact (admissible_ingest ha ev').mp (hadm ev' hev')
    · intro pre ev' post heq hh hpre
      cases pre with
      | nil =>
        obtain ⟨rfl, rfl⟩ := List.cons.inj heq
        exact ha.insertable hh
      | cons ev0 pre =>
        obtain ⟨rfl, rfl⟩ := List.cons.inj heq
        refine hins pre ev' post rfl ?_ fun ev1 h1 => hpre ev1 (List.mem_cons_of_mem ev h1)
        rw [mem_hashes_ingest, not_or]
        exact ⟨hh, fun he => hpre ev List.mem_cons_self he.symm⟩

/-- **A batch commits exactly if it holds nothing that the database rejects.** -/
theorem commits_iff_unpoisoned {db : Db} {events : List DecodedStreamEvent} :
    Commits db events ↔ Unpoisoned db events := by
  rw [commits_iff]
  induction events generalizing db with
  | nil => exact ⟨fun _ => ⟨by simp, by simp⟩, fun _ => trivial⟩
  | cons ev events ih =>
    rw [unpoisoned_cons, ← ih]
    rfl

/-! ### Runs of the indexer and the expiry job -/

/-- What changes the tables. -/
inductive Job
  | upsert (events : List DecodedStreamEvent)
  | expire (currentLedger : ℤ) (scan : List String)

/-- The database after a job, committed or rolled back. -/
def step (db : Db) : Job → Db
  | .upsert events => upsertBatch db events
  | .expire currentLedger scan => commit (postgres.transact (expireStreams currentLedger scan)) db

/-- The batch commits. -/
def BatchCommits (db : Db) : Job → Prop
  | .upsert events => Commits db events
  | .expire _ _ => True

/-- The batch holds nothing that the database rejects. -/
def BatchUnpoisoned (db : Db) : Job → Prop
  | .upsert events => Unpoisoned db events
  | .expire _ _ => True

instance (db : Db) (job : Job) : Decidable (BatchCommits db job) := by
  unfold BatchCommits; cases job <;> infer_instance

/-- A rejected batch is rejected again as often as it is submitted. -/
theorem retried_forever {db : Db} {events : List DecodedStreamEvent} (h : ¬ Commits db events)
    (n : ℕ) : AllSteps upsertBatch (fun db events => ¬ Commits db events) db
      (List.replicate n events) := by
  induction n with
  | zero => trivial
  | succ n ih =>
    refine ⟨h, ?_⟩
    rw [upsertBatch_of_not_commits h]
    exact ih

/-- In a run of the indexer and the expiry job every batch commits exactly if none holds an event
that the database rejects. -/
theorem batchesCommit_iff (db : Db) (jobs : List Job) :
    AllSteps step BatchCommits db jobs ↔ AllSteps step BatchUnpoisoned db jobs := by
  refine allSteps_congr (P := fun _ _ => True) (fun _ _ (_ : True) _ => trivial) ?_ trivial
    (allSteps_of_forall fun _ _ => trivial)
  intro db job _ _
  cases job with
  | upsert events => exact commits_iff_unpoisoned
  | expire currentLedger scan => exact Iff.rfl

/-- One stream in the table, with its end. -/
def oneStream (recipient : String) (endLedger : ℤ) (r : String) : Option VestingStream :=
  if r = recipient then some ⟨.active, endLedger⟩ else none

/-- A stream is created and then claimed, or drained after its end, or cancelled after its end: the
last batch is rejected. -/
theorem claimed_drained_or_cancelled_rejected :
    ¬ AllSteps step BatchCommits (Db.fresh (oneStream "GRECIPIENT" 20))
        [.upsert [⟨.streamCreated, "GRECIPIENT", "GSPONSOR", "CTOKEN", some 1000, 10, "a1"⟩],
          .upsert [⟨.tokensClaimed, "GRECIPIENT", "", "", some 400, 15, "a2"⟩]] ∧
      ¬ AllSteps step BatchCommits (Db.fresh (oneStream "GRECIPIENT" 20))
        [.upsert [⟨.streamCreated, "GRECIPIENT", "GSPONSOR", "CTOKEN", some 1000, 10, "a1"⟩],
          .upsert [⟨.streamDrained, "GRECIPIENT", "GSPONSOR", "CTOKEN", some 1000, 30, "a2"⟩]] ∧
      ¬ AllSteps step BatchCommits (Db.fresh (oneStream "GRECIPIENT" 20))
        [.upsert [⟨.streamCreated, "GRECIPIENT", "GSPONSOR", "CTOKEN", some 1000, 10, "a1"⟩],
          .expire 21 ["GRECIPIENT"],
          .upsert [⟨.streamCancelled, "GRECIPIENT", "", "", some 0, 30, "a2"⟩]] := by
  decide

end VestingDripStream.Backend.Acceptance
