import VestingDripStream.Backend.Acceptance

/-! # The balance ledger

`stream_balances` against the rows of `stream_events`: `balanceOf` is the row that follows from the
events of a recipient, and `Ledger` says that the table holds it, a missing row counting as zeros.
The ledger is kept by every event that is stored, so that it holds after any run of batches: an
event that would increment `claimed_total` is never one of them. What a schedule of batches does to
the table then depends on what it stores only. -/

namespace VestingDripStream.Backend.Balances

open VestingDripStream.Lib.Transaction VestingDripStream.Lib.Client VestingDripStream.Lib.Run
open VestingDripStream.Backend.Database VestingDripStream.Backend.Persistence
open VestingDripStream.Backend.Acceptance

/-! ### The balance that follows from the events -/

/-- The amounts of the `StreamCreated` rows of the recipient. -/
def deposits (recipient : String) (rows : List DecodedStreamEvent) : List ℤ :=
  (rows.filter fun ev => ev.recipient = recipient ∧ ev.eventType = .streamCreated).filterMap
    (·.amount)

/-- The amount of the last `StreamCreated` row of the recipient. -/
def lastDeposit (recipient : String) (rows : List DecodedStreamEvent) : ℤ :=
  (deposits recipient rows).getLast?.getD 0

/-- The balance row that follows from the events of the recipient. -/
def balanceOf (recipient : String) (rows : List DecodedStreamEvent) : StreamBalance where
  totalDeposit := lastDeposit recipient rows
  claimedTotal := sumAmounts .tokensClaimed recipient rows
  remaining := lastDeposit recipient rows - sumAmounts .tokensClaimed recipient rows

/-- The rows of the recipient that changed its balance row. -/
def credits (recipient : String) (rows : List DecodedStreamEvent) : List DecodedStreamEvent :=
  rows.filter fun ev => ev.recipient = recipient ∧ Credits ev

/-- The table holds what follows from the events. -/
def Ledger (db : Db) (recipient : String) : Prop :=
  (db.streamBalances recipient).getD ⟨0, 0, 0⟩ = balanceOf recipient db.streamEvents

/-- A recipient has a balance row exactly if one of its rows changed it. -/
def Opened (db : Db) (recipient : String) : Prop :=
  db.streamBalances recipient = none ↔ credits recipient db.streamEvents = []

variable {recipient : String} {rows : List DecodedStreamEvent} {ev : DecodedStreamEvent}

theorem sumAmounts_append (t : StreamEventType) :
    sumAmounts t recipient (rows ++ [ev]) = sumAmounts t recipient rows +
      if ev.recipient = recipient ∧ ev.eventType = t then ev.amount.getD 0 else 0 := by
  unfold sumAmounts
  rw [List.filter_append, List.map_append, List.sum_append]
  by_cases h : ev.recipient = recipient ∧ ev.eventType = t <;> simp [h]

/-- An event that was not to increment a balance adds no claim. -/
theorem sumAmounts_append_of_not_increments (h : ¬ Increments ev) :
    sumAmounts .tokensClaimed recipient (rows ++ [ev]) =
      sumAmounts .tokensClaimed recipient rows := by
  rw [sumAmounts_append]
  split_ifs with hev
  · have hamount : ev.amount = none := by
      by_contra hne
      exact h ⟨hev.2, hne⟩
    rw [hamount, Option.getD_none, add_zero]
  · rw [add_zero]

theorem deposits_append :
    deposits recipient (rows ++ [ev]) = deposits recipient rows ++
      if ev.recipient = recipient ∧ ev.eventType = .streamCreated then ev.amount.toList
      else [] := by
  unfold deposits
  rw [List.filter_append, List.filterMap_append]
  by_cases h : ev.recipient = recipient ∧ ev.eventType = .streamCreated
  · cases ha : ev.amount <;> simp [h, ha]
  · simp [h]

/-- A missing row is updated as one of zeros. -/
theorem creditedBalance_getD (ev : DecodedStreamEvent) (b : Option StreamBalance) :
    (creditedBalance ev b).getD ⟨0, 0, 0⟩ =
      match ev.eventType, ev.amount, b.getD ⟨0, 0, 0⟩ with
      | .streamCreated, some amount, b => ⟨amount, b.claimedTotal, amount - b.claimedTotal⟩
      | _, _, b => b := by
  obtain ⟨t, r, sp, tk, amount, l, hash⟩ := ev
  cases t <;> cases amount <;> cases b <;> simp [creditedBalance]

/-- **One stored event** moves the balance as the updates of the balance row do. -/
theorem balanceOf_append (hinc : ¬ Increments ev) (b : Option StreamBalance)
    (h : b.getD ⟨0, 0, 0⟩ = balanceOf ev.recipient rows) :
    (creditedBalance ev b).getD ⟨0, 0, 0⟩ = balanceOf ev.recipient (rows ++ [ev]) := by
  rw [creditedBalance_getD, h]
  unfold balanceOf lastDeposit
  rw [sumAmounts_append_of_not_increments hinc, deposits_append]
  obtain ⟨t, r, sp, tk, amount, l, hash⟩ := ev
  cases t <;> cases amount <;> simp

theorem balanceOf_append_of_ne (h : ev.recipient ≠ recipient) :
    balanceOf recipient (rows ++ [ev]) = balanceOf recipient rows := by
  unfold balanceOf lastDeposit
  simp [sumAmounts_append, deposits_append, h]

theorem ledger_ingest {db : Db} (h : Ledger db recipient) (ha : Accepts db ev) :
    Ledger (ingest db ev) recipient := by
  unfold Ledger
  rw [ingest_streamEvents, ingest_streamBalances]
  split_ifs with hh
  · exact h
  · by_cases hr : ev.recipient = recipient
    · subst hr
      rw [Function.update_self]
      exact balanceOf_append (ha.insertable hh).unclaimed _ h
    · rw [Function.update_of_ne (Ne.symm hr), balanceOf_append_of_ne hr]
      exact h

/-! ### Recomputing and processing again -/

/-- `recomputeBalance` that runs alone. -/
def recomputed (db : Db) (streamId : String) : Db :=
  commit (postgres.transact (recomputeBalance streamId)) db

theorem transact_recomputeBalance (db : Db) (streamId : String) :
    postgres.transact (recomputeBalance streamId) db =
      postgres.transact (storeRecomputed streamId
        (sumAmounts .tokensClaimed streamId db.streamEvents)
        ((db.streamBalances streamId).map (·.totalDeposit))) db := by
  have hsum : postgres.exec (.sumTokensClaimed streamId) db =
      .ok ([], sumAmounts .tokensClaimed streamId db.streamEvents) := rfl
  have hdep : postgres.exec (.selectTotalDeposit streamId) db =
      .ok ([], (db.streamBalances streamId).map (·.totalDeposit)) := rfl
  unfold recomputeBalance
  rw [Program.send_bind, Server.transact_query_of_ok hsum, Server.applyAll_nil, Program.send_bind,
    Server.transact_query_of_ok hdep, Server.applyAll_nil]

/-- A statement, and then the final `SELECT`, which changes nothing. -/
theorem commit_write_select (db : Db) (s : Statement) (streamId : String) :
    commit (postgres.transact do let _ ← query s; query (.selectBalance streamId)) db =
      match exec s db with
      | .ok (es, _) => postgres.applyAll db es
      | .error _ => db := by
  unfold commit
  rw [Program.send_bind]
  cases hx : exec s db with
  | error e =>
    have hx : postgres.exec s db = .error e := hx
    rw [Server.transact_query_of_error hx]
  | ok p =>
    have hx : postgres.exec s db = .ok p := hx
    rw [Server.transact_query_of_ok hx]
    rfl

theorem recomputed_of_row {db : Db} {b : StreamBalance}
    (h : db.streamBalances recipient = some b) :
    recomputed db recipient =
      { db with
        streamBalances := Function.update db.streamBalances recipient (some
          { b with
            claimedTotal := sumAmounts .tokensClaimed recipient db.streamEvents
            remaining :=
              b.totalDeposit - sumAmounts .tokensClaimed recipient db.streamEvents }) } := by
  unfold recomputed commit
  rw [transact_recomputeBalance, h]
  show commit (postgres.transact do
    let _ ← query (.updateRecomputed recipient _ _)
    query (.selectBalance recipient)) db = _
  rw [commit_write_select]
  simp only [exec, h]
  rfl

/-- Without a row the `INSERT` of `recomputeBalance` is rejected. -/
theorem recomputed_of_no_row {db : Db} (h : db.streamBalances recipient = none) :
    recomputed db recipient = db := by
  unfold recomputed commit
  rw [transact_recomputeBalance, h]
  rfl

/-- Where the table holds the ledger, recomputing changes nothing. -/
theorem recomputed_of_ledger {db : Db} (h : Ledger db recipient) :
    recomputed db recipient = db := by
  unfold Ledger at h
  cases hb : db.streamBalances recipient with
  | some b =>
    rw [hb, Option.getD_some] at h
    have hrow : some b = db.streamBalances recipient := hb.symm
    rw [recomputed_of_row hb]
    subst h
    simp only [balanceOf] at hrow ⊢
    rw [hrow, Function.update_eq_self]
  | none => exact recomputed_of_no_row hb

/-- Events that are stored are processed again without a trace. -/
theorem run_ingest_of_stored {db : Db} {events : List DecodedStreamEvent}
    (h : ∀ ev ∈ events, ev.transactionHash ∈ db.hashes) :
    (run ingest db events).streamEvents = db.streamEvents ∧
      (run ingest db events).streamBalances = db.streamBalances := by
  induction events generalizing db with
  | nil => exact ⟨rfl, rfl⟩
  | cons ev events ih =>
    have hev := h ev List.mem_cons_self
    have hknown : ∀ ev' ∈ events, ev'.transactionHash ∈ (ingest db ev).hashes := fun ev' hev' =>
      (mem_hashes_ingest db ev _).mpr (Or.inl (h ev' (List.mem_cons_of_mem ev hev')))
    obtain ⟨hrows, hbal⟩ := ih hknown
    rw [ingest_streamEvents, if_pos hev] at hrows
    rw [ingest_streamBalances, if_pos hev] at hbal
    exact ⟨hrows, hbal⟩

/-! ### Any sequence of batches -/

/-- A call of `upsertStreamEvents`. One that is interrupted, between any two statements, is rolled
back. -/
structure Attempt where
  events : List DecodedStreamEvent
  interrupted : Bool

/-- The database after the call. -/
def attempt (db : Db) (a : Attempt) : Db :=
  if a.interrupted then db else upsertBatch db a.events

/-- The balance rows agree with the stored events, and neither processing stored events again nor
recomputing changes them. -/
structure LedgerKept (db : Db) : Prop where
  consistent : ∀ recipient b, db.streamBalances recipient = some b →
    b.claimedTotal = sumAmounts .tokensClaimed recipient db.streamEvents ∧
      b.totalDeposit = lastDeposit recipient db.streamEvents ∧
      b.remaining = b.totalDeposit - b.claimedTotal
  reprocess : ∀ events, (∀ ev ∈ events, ev ∈ db.streamEvents) →
    (upsertBatch db events).streamEvents = db.streamEvents ∧
      (upsertBatch db events).streamBalances = db.streamBalances
  recompute : ∀ recipient, recomputed db recipient = db

theorem ledgerKept_of_ledger {db : Db} (h : ∀ recipient, Ledger db recipient) : LedgerKept db where
  consistent recipient b hb := by
    have hrow := h recipient
    unfold Ledger at hrow
    rw [hb, Option.getD_some] at hrow
    rw [hrow]
    exact ⟨rfl, rfl, rfl⟩
  reprocess events hev := by
    by_cases hc : Commits db events
    · rw [upsertBatch_of_commits hc]
      exact run_ingest_of_stored fun ev hmem => List.mem_map_of_mem (hev ev hmem)
    · rw [upsertBatch_of_not_commits hc]
      exact ⟨rfl, rfl⟩
  recompute recipient := recomputed_of_ledger (h recipient)

theorem ledger_fresh (streams : String → Option VestingStream) (recipient : String) :
    Ledger (Db.fresh streams) recipient := rfl

theorem ledger_upsertBatch {db : Db} (h : Ledger db recipient)
    (events : List DecodedStreamEvent) : Ledger (upsertBatch db events) recipient := by
  have hstep : ∀ db ev, Ledger db recipient → Accepts db ev → Ledger (ingest db ev) recipient :=
    fun _ _ hI ha => ledger_ingest hI ha
  exact upsertBatch_induct hstep h events

theorem ledger_run_attempt {db : Db} (h : Ledger db recipient) (attempts : List Attempt) :
    Ledger (run attempt db attempts) recipient := by
  have hstep : ∀ db a, Ledger db recipient → Ledger (attempt db a) recipient := by
    intro db a hI
    unfold attempt
    split_ifs
    · exact hI
    · exact ledger_upsertBatch hI a.events
  exact (allStates_of_step hstep h).last

/-! ### No claim is stored -/

/-- No stored event was to increment a balance. -/
def NoClaimStored (db : Db) : Prop := ∀ ev ∈ db.streamEvents, ¬ Increments ev

theorem noClaimStored_fresh (streams : String → Option VestingStream) :
    NoClaimStored (Db.fresh streams) := fun _ hev => absurd hev List.not_mem_nil

theorem noClaimStored_upsertBatch {db : Db} (h : NoClaimStored db)
    (events : List DecodedStreamEvent) : NoClaimStored (upsertBatch db events) := by
  have hstep : ∀ db ev, NoClaimStored db → Accepts db ev → NoClaimStored (ingest db ev) := by
    intro db ev hI ha ev' hev'
    rw [ingest_streamEvents] at hev'
    split_ifs at hev' with hh
    · exact hI ev' hev'
    · rcases List.mem_append.mp hev' with hev' | hev'
      · exact hI ev' hev'
      · rw [List.mem_singleton.mp hev']
        exact (ha.insertable hh).unclaimed
  exact upsertBatch_induct hstep h events

/-- The stored claims sum up to nothing. -/
theorem sumAmounts_of_noClaimStored {db : Db} (h : NoClaimStored db) (recipient : String) :
    sumAmounts .tokensClaimed recipient db.streamEvents = 0 := by
  unfold sumAmounts
  refine List.sum_eq_zero fun a ha => ?_
  obtain ⟨ev, hev, rfl⟩ := List.mem_map.mp ha
  rw [List.mem_filter, decide_eq_true_eq] at hev
  have hamount : ev.amount = none := by
    by_contra hne
    exact h ev hev.1 ⟨hev.2.2, hne⟩
  rw [hamount, Option.getD_none]

/-! ### Schedules of a set of events -/

/-- The event is accepted wherever it stands for the first time. -/
def Acceptable (streams : String → Option VestingStream) (ev : DecodedStreamEvent) : Prop :=
  Admissible streams ev ∧ Insertable ev

instance (streams : String → Option VestingStream) (ev : DecodedStreamEvent) :
    Decidable (Acceptable streams ev) := by
  have hadm : Decidable (Admissible streams ev) :=
    decidable_of_iff (FitsInteger ev.ledgerSequence ∧ ev.eventType ≠ .streamDrained ∧
        (ev.eventType = .streamCancelled → CancellableAt streams ev.recipient))
      ⟨fun h => ⟨h.1, h.2.1, h.2.2⟩, fun h => ⟨h.1, h.2, h.3⟩⟩
  unfold Acceptable
  infer_instance

/-- The same streams can be cancelled. -/
def SameCancellable (streams : String → Option VestingStream) (db : Db) : Prop :=
  ∀ r, CancellableAt db.vestingStreams r ↔ CancellableAt streams r

/-- The events are of transactions that are new to the table, one of each. -/
def Fresh (db : Db) (events : List DecodedStreamEvent) : Prop :=
  (events.map (·.transactionHash)).Nodup ∧ ∀ ev ∈ events, ev.transactionHash ∉ db.hashes

variable {streams : String → Option VestingStream} {db : Db} {events : List DecodedStreamEvent}

theorem commits_iff_acceptable (hs : SameCancellable streams db) (hf : Fresh db events) :
    Commits db events ↔ ∀ ev ∈ events, Acceptable streams ev := by
  have hadm : ∀ ev, Admissible db.vestingStreams ev ↔ Admissible streams ev := by
    intro ev
    constructor
    · exact fun h => ⟨h.ledger, h.notDrained, fun ht => (hs _).mp (h.cancellable ht)⟩
    · exact fun h => ⟨h.ledger, h.notDrained, fun ht => (hs _).mpr (h.cancellable ht)⟩
  rw [commits_iff_unpoisoned]
  constructor
  · rintro ⟨hA, hins⟩ ev hev
    obtain ⟨pre, post, rfl⟩ := List.append_of_mem hev
    refine ⟨(hadm ev).mp (hA ev hev), hins pre ev post rfl (hf.2 ev hev) ?_⟩
    intro ev' hev' heq
    have hnodup := hf.1
    rw [List.map_append, List.map_cons, List.nodup_append] at hnodup
    exact hnodup.2.2 _ (List.mem_map_of_mem hev') _ List.mem_cons_self heq
  · intro h
    refine ⟨fun ev hev => (hadm ev).mpr (h ev hev).1, ?_⟩
    rintro pre ev post rfl - -
    exact (h ev (by simp)).2

theorem fresh_tail {ev : DecodedStreamEvent} (h : Fresh db (ev :: events)) :
    ev.transactionHash ∉ db.hashes ∧ Fresh (ingest db ev) events := by
  obtain ⟨hnodup, hnew⟩ := h
  rw [List.map_cons, List.nodup_cons] at hnodup
  refine ⟨hnew ev List.mem_cons_self, hnodup.2, fun ev' hev' => ?_⟩
  rw [mem_hashes_ingest, not_or]
  exact ⟨hnew ev' (List.mem_cons_of_mem ev hev'),
    fun heq => hnodup.1 (heq ▸ List.mem_map_of_mem hev')⟩

/-- A batch of new transactions that commits adds its events. -/
theorem run_ingest_of_fresh (hf : Fresh db events) :
    (run ingest db events).streamEvents = db.streamEvents ++ events := by
  induction events generalizing db with
  | nil => simp
  | cons ev events ih =>
    obtain ⟨hev, hrest⟩ := fresh_tail hf
    rw [run_cons, ih hrest, ingest_streamEvents, if_neg hev, List.append_assoc]
    rfl

theorem sameCancellable_upsertBatch (hs : SameCancellable streams db)
    (events : List DecodedStreamEvent) : SameCancellable streams (upsertBatch db events) := by
  have hstep : ∀ db ev, SameCancellable streams db → Accepts db ev →
      SameCancellable streams (ingest db ev) :=
    fun _ _ hI ha r => (cancellableAt_ingest ha r).trans (hI r)
  exact upsertBatch_induct hstep hs events

theorem upsertBatch_streamEvents (hs : SameCancellable streams db) (hf : Fresh db events) :
    (upsertBatch db events).streamEvents =
      db.streamEvents ++ if ∀ ev ∈ events, Acceptable streams ev then events else [] := by
  split_ifs with h
  · rw [upsertBatch_of_commits ((commits_iff_acceptable hs hf).mpr h), run_ingest_of_fresh hf]
  · rw [upsertBatch_of_not_commits (mt (commits_iff_acceptable hs hf).mp h), List.append_nil]

theorem fresh_append {rest : List DecodedStreamEvent} (hs : SameCancellable streams db)
    (h : Fresh db (events ++ rest)) : Fresh db events ∧ Fresh (upsertBatch db events) rest := by
  obtain ⟨hnodup, hnew⟩ := h
  rw [List.map_append, List.nodup_append] at hnodup
  have hev : Fresh db events := ⟨hnodup.1, fun ev hm => hnew ev (List.mem_append_left _ hm)⟩
  refine ⟨hev, hnodup.2.1, fun ev hm hh => ?_⟩
  unfold Db.hashes at hh
  rw [upsertBatch_streamEvents hs hev, List.map_append, List.mem_append] at hh
  rcases hh with hh | hh
  · exact hnew ev (List.mem_append_right _ hm) hh
  · split_ifs at hh
    · exact hnodup.2.2 _ hh _ (List.mem_map_of_mem hm) rfl
    · simp at hh

/-- **What a schedule stores**: the batches all of whose events are acceptable. -/
theorem run_upsertBatch_streamEvents {batches : List (List DecodedStreamEvent)}
    (hs : SameCancellable streams db) (hf : Fresh db batches.flatten) :
    (run upsertBatch db batches).streamEvents =
      db.streamEvents ++ (batches.filter fun b => ∀ ev ∈ b, Acceptable streams ev).flatten := by
  induction batches generalizing db with
  | nil => simp
  | cons b batches ih =>
    obtain ⟨hb, hrest⟩ := fresh_append hs hf
    rw [run_cons, ih (sameCancellable_upsertBatch hs b) hrest, upsertBatch_streamEvents hs hb]
    rw [List.append_assoc, List.filter_cons]
    by_cases hacc : ∀ ev ∈ b, Acceptable streams ev
    · rw [if_pos hacc, if_pos (decide_eq_true hacc), List.flatten_cons]
    · rw [if_neg hacc, if_neg (by simpa using hacc), List.nil_append]

/-! ### The rows of a schedule -/

theorem opened_ingest (h : Opened db recipient) : Opened (ingest db ev) recipient := by
  have hcredited : ∀ b, creditedBalance ev b = none ↔ b = none ∧ ¬ Credits ev := by
    intro b
    obtain ⟨t, r, sp, tk, amount, l, hash⟩ := ev
    cases t <;> cases amount <;> simp [creditedBalance, Credits]
  unfold Opened at h ⊢
  rw [ingest_streamEvents, ingest_streamBalances]
  split_ifs with hh
  · exact h
  · unfold credits at h ⊢
    rw [List.filter_append, List.append_eq_nil_iff]
    by_cases hr : ev.recipient = recipient
    · subst hr
      rw [Function.update_self, hcredited, h]
      simp
    · rw [Function.update_of_ne (Ne.symm hr), h]
      simp [hr]

theorem opened_run_upsertBatch (h : Opened db recipient)
    (batches : List (List DecodedStreamEvent)) :
    Opened (run upsertBatch db batches) recipient := by
  have hingest : ∀ db ev, Opened db recipient → Accepts db ev → Opened (ingest db ev) recipient :=
    fun _ _ hI _ => opened_ingest hI
  have hstep : ∀ db b, Opened db recipient → Opened (upsertBatch db b) recipient :=
    fun _ b hI => upsertBatch_induct hingest hI b
  exact (allStates_of_step hstep h).last

theorem ledger_run_upsertBatch (h : Ledger db recipient)
    (batches : List (List DecodedStreamEvent)) :
    Ledger (run upsertBatch db batches) recipient := by
  have hstep : ∀ db b, Ledger db recipient → Ledger (upsertBatch db b) recipient :=
    fun _ b hI => ledger_upsertBatch hI b
  exact (allStates_of_step hstep h).last

/-- The row of a recipient, read off the stored events. -/
theorem streamBalances_eq (hl : Ledger db recipient) (ho : Opened db recipient) :
    db.streamBalances recipient =
      if credits recipient db.streamEvents = [] then none
      else some (balanceOf recipient db.streamEvents) := by
  unfold Ledger at hl
  unfold Opened at ho
  split_ifs with h
  · exact ho.mpr h
  · obtain ⟨b, hb⟩ := Option.ne_none_iff_exists'.mp (mt ho.mp h)
    rw [hb, Option.getD_some] at hl
    rw [hb, hl]

/-- The database after a schedule, from the migrated one. -/
def scheduled (streams : String → Option VestingStream)
    (batches : List (List DecodedStreamEvent)) : Db :=
  run upsertBatch (Db.fresh streams) batches

theorem scheduled_streamEvents {batches : List (List DecodedStreamEvent)}
    (h : (batches.flatten.map (·.transactionHash)).Nodup) :
    (scheduled streams batches).streamEvents =
      (batches.filter fun b => ∀ ev ∈ b, Acceptable streams ev).flatten :=
  run_upsertBatch_streamEvents (fun _ => Iff.rfl) ⟨h, fun _ _ => by simp [Db.fresh, Db.hashes]⟩

theorem scheduled_streamBalances (batches : List (List DecodedStreamEvent)) (recipient : String) :
    (scheduled streams batches).streamBalances recipient =
      if credits recipient (scheduled streams batches).streamEvents = [] then none
      else some (balanceOf recipient (scheduled streams batches).streamEvents) := by
  have ho : Opened (Db.fresh streams) recipient := ⟨fun _ => rfl, fun _ => rfl⟩
  exact streamBalances_eq (ledger_run_upsertBatch (ledger_fresh streams recipient) batches)
    (opened_run_upsertBatch ho batches)

/-- The stored events matter up to their order, as long as a recipient has one `StreamCreated`. -/
theorem balanceOf_perm {rows rows' : List DecodedStreamEvent} (h : rows.Perm rows')
    (hone : (deposits recipient rows).length ≤ 1) :
    balanceOf recipient rows = balanceOf recipient rows' := by
  have hsum : sumAmounts .tokensClaimed recipient rows =
      sumAmounts .tokensClaimed recipient rows' := ((h.filter _).map _).sum_eq
  have hdep : (deposits recipient rows).Perm (deposits recipient rows') :=
    (h.filter _).filterMap _
  have heq : deposits recipient rows = deposits recipient rows' := by
    match hd : deposits recipient rows, hone with
    | [], _ => rw [hd] at hdep; exact hdep.nil_eq
    | [a], _ => rw [hd] at hdep; exact (List.perm_singleton.mp hdep.symm).symm
  unfold balanceOf lastDeposit
  rw [hsum, heq]

/-! ### Order and batching -/

/-- Every order and every batching of the events leaves the same balance rows. -/
def OrderIndependent (streams : String → Option VestingStream)
    (events : List DecodedStreamEvent) : Prop :=
  ∀ batches batches' : List (List DecodedStreamEvent), batches.flatten.Perm events →
    batches'.flatten.Perm events →
      (scheduled streams batches).streamBalances = (scheduled streams batches').streamBalances

/-- Either the database rejects none of the events, or none that it accepts changes a balance. -/
def Harmless (streams : String → Option VestingStream) (events : List DecodedStreamEvent) : Prop :=
  (∀ ev ∈ events, Acceptable streams ev) ∨
    ∀ ev ∈ events, Acceptable streams ev → ¬ Credits ev

theorem nodup_hashes_of_perm {batches : List (List DecodedStreamEvent)}
    (h : batches.flatten.Perm events) (hd : (events.map (·.transactionHash)).Nodup) :
    (batches.flatten.map (·.transactionHash)).Nodup :=
  (h.map _).nodup_iff.mpr hd

/-- Where all events are acceptable, every schedule stores all of them. -/
theorem scheduled_perm {batches : List (List DecodedStreamEvent)}
    (h : batches.flatten.Perm events) (hd : (events.map (·.transactionHash)).Nodup)
    (hacc : ∀ ev ∈ events, Acceptable streams ev) :
    (scheduled streams batches).streamEvents.Perm events := by
  rw [scheduled_streamEvents (nodup_hashes_of_perm h hd), List.filter_eq_self.mpr]
  · exact h
  · intro b hb
    simp only [decide_eq_true_eq]
    exact fun ev hev => hacc ev (h.mem_iff.mp (List.mem_flatten.mpr ⟨b, hb, hev⟩))

/-- Where no acceptable event changes a balance, no schedule opens a balance row. -/
theorem scheduled_no_row {batches : List (List DecodedStreamEvent)}
    (h : batches.flatten.Perm events) (hd : (events.map (·.transactionHash)).Nodup)
    (hno : ∀ ev ∈ events, Acceptable streams ev → ¬ Credits ev) (recipient : String) :
    (scheduled streams batches).streamBalances recipient = none := by
  rw [scheduled_streamBalances, if_pos]
  unfold credits
  rw [List.filter_eq_nil_iff, scheduled_streamEvents (nodup_hashes_of_perm h hd)]
  intro ev hev
  obtain ⟨b, hb, hmem⟩ := List.mem_flatten.mp hev
  obtain ⟨hb, hacc⟩ := List.mem_filter.mp hb
  simp only [decide_eq_true_eq] at hacc
  have hevents := h.mem_iff.mp (List.mem_flatten.mpr ⟨b, hb, hmem⟩)
  simp [hno ev hevents (hacc ev hmem)]

theorem orderIndependent_of_harmless (hd : (events.map (·.transactionHash)).Nodup)
    (hone : ∀ recipient, (deposits recipient events).length ≤ 1)
    (h : Harmless streams events) : OrderIndependent streams events := by
  intro batches batches' hb hb'
  funext recipient
  rcases h with hacc | hno
  · have hp := scheduled_perm hb hd hacc
    have hp' := scheduled_perm hb' hd hacc
    have hboth := hp.trans hp'.symm
    have hlen : (deposits recipient (scheduled streams batches).streamEvents).length ≤ 1 := by
      have hdep : (deposits recipient (scheduled streams batches).streamEvents).Perm
          (deposits recipient events) := (hp.filter _).filterMap _
      rw [hdep.length_eq]
      exact hone recipient
    have hcr : credits recipient (scheduled streams batches).streamEvents = [] ↔
        credits recipient (scheduled streams batches').streamEvents = [] := by
      have hc : (credits recipient (scheduled streams batches).streamEvents).Perm
          (credits recipient (scheduled streams batches').streamEvents) := hboth.filter _
      exact ⟨fun he => (he ▸ hc).nil_eq.symm, fun he => (he ▸ hc.symm).nil_eq.symm⟩
    rw [scheduled_streamBalances, scheduled_streamBalances, balanceOf_perm hboth hlen]
    simp only [hcr]
  · rw [scheduled_no_row hb hd hno, scheduled_no_row hb' hd hno]

/-- An acceptable event that is batched alone opens the balance row; in one batch with a rejected
one it does not. -/
theorem harmless_of_orderIndependent (hd : (events.map (·.transactionHash)).Nodup)
    (h : OrderIndependent streams events) : Harmless streams events := by
  by_contra hbad
  unfold Harmless at hbad
  push Not at hbad
  obtain ⟨⟨bad, hbadmem, hbadacc⟩, ev, hev, hacc, hcr⟩ := hbad
  have hflat : (events.map fun e => [e]).flatten = events := by
    rw [← List.flatMap_def]
    exact List.flatMap_singleton' events
  have hsame := congrFun (h (events.map fun e => [e]) [events] (by rw [hflat]) (by simp))
    ev.recipient
  have hone : (scheduled streams [events]).streamBalances ev.recipient = none := by
    have hrows : (scheduled streams [events]).streamEvents = [] := by
      rw [scheduled_streamEvents (by simpa using hd), List.filter_cons, if_neg]
      · rfl
      · simp only [decide_eq_true_eq]
        exact fun hall => hbadacc (hall bad hbadmem)
    rw [scheduled_streamBalances, hrows]
    rfl
  have heach : ev ∈ (scheduled streams (events.map fun e => [e])).streamEvents := by
    rw [scheduled_streamEvents (by rwa [hflat])]
    refine List.mem_flatten.mpr ⟨[ev], List.mem_filter.mpr ⟨List.mem_map_of_mem hev, ?_⟩, by simp⟩
    simpa using hacc
  rw [hone, scheduled_streamBalances] at hsame
  split_ifs at hsame with hcredits
  unfold credits at hcredits
  rw [List.filter_eq_nil_iff] at hcredits
  exact hcredits ev heach (by simpa using hcr)

/-- The ledger of the balances: after any calls of `upsertStreamEvents` the rows agree with the
stored events, and neither processing stored events again nor recomputing changes them. A set of
events of distinct transactions with one `StreamCreated` for a recipient leaves the same rows in
every order and batching exactly if the database rejects none of them, or none of those that it
accepts changes a balance. -/
theorem balanceLedger_iff (streams : String → Option VestingStream) :
    (∀ attempts, LedgerKept (run attempt (Db.fresh streams) attempts)) ∧
      ∀ events : List DecodedStreamEvent, (events.map (·.transactionHash)).Nodup →
        (∀ recipient, (deposits recipient events).length ≤ 1) →
          (OrderIndependent streams events ↔ Harmless streams events) :=
  ⟨fun attempts => ledgerKept_of_ledger fun recipient =>
      ledger_run_attempt (ledger_fresh streams recipient) attempts,
    fun _ hd hone => ⟨harmless_of_orderIndependent hd, orderIndependent_of_harmless hd hone⟩⟩

/-- A stream that is created and claimed. -/
def createdAndClaimed : List DecodedStreamEvent :=
  [⟨.streamCreated, "CRECIPIENT", "GSPONSOR", "CTOKEN", some 1000, 10, "a1"⟩,
    ⟨.tokensClaimed, "CRECIPIENT", "", "", some 100, 30, "a2"⟩]

theorem balanceLedger_iff_createdAndClaimed :
    OrderIndependent (fun _ => none) createdAndClaimed ↔
      Harmless (fun _ => none) createdAndClaimed :=
  (balanceLedger_iff fun _ => none).2 createdAndClaimed (by decide) fun recipient => by
    unfold deposits createdAndClaimed
    by_cases h : "CRECIPIENT" = recipient <;> simp [h]

/-- Ingested one by one they leave a balance row, in one batch they do not. -/
theorem createdAndClaimed_batching : ¬ OrderIndependent (fun _ => none) createdAndClaimed := by
  intro h
  have hrow := congrFun (h (createdAndClaimed.map fun e => [e]) [createdAndClaimed] (by decide)
    (by decide)) "CRECIPIENT"
  revert hrow
  decide

end VestingDripStream.Backend.Balances
