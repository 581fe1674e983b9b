import VestingDripStream.Contract.Lifecycle
import VestingDripStream.Contract.Views
import VestingDripStream.Backend.Persistence

/-! # The expiry job and the contract

`expireStreams` marks the streams whose `end_ledger` is before the current ledger; the contract
calls a stream expired from its `end_ledger` on. The job runs again and again on a table that holds
the stream of a recipient as it was created. -/

namespace VestingDripStream.Backend.Expiry

open VestingDripStream.Lib.Transaction VestingDripStream.Lib.Client
open VestingDripStream.Contract.Types VestingDripStream.Contract.Storage
open VestingDripStream.Contract.EntryPoints VestingDripStream.Contract.Stream
open VestingDripStream.Contract.Views VestingDripStream.Contract.Lifecycle
open VestingDripStream.Backend.Database VestingDripStream.Backend.Persistence

/-! ### One run of the job -/

/-- What `expireStreams` makes of a row that it visits. -/
def expireAt (currentLedger : ℤ) (row : VestingStream) : VestingStream :=
  if row.status ∈ [Database.StreamStatus.active, .preCliff] ∧ row.endLedger < currentLedger then
    { row with status := .expired }
  else row

section Job

variable {currentLedger : ℤ} {recipient : String} {scan : List String} {db : Db}
  {row : VestingStream}

theorem expireAt_idem : expireAt currentLedger (expireAt currentLedger row) =
    expireAt currentLedger row := by
  by_cases h : row.status ∈ [Database.StreamStatus.active, .preCliff] ∧
    row.endLedger < currentLedger
  · rw [expireAt, expireAt, if_pos h, if_neg]
    simp
  · rw [expireAt, expireAt, if_neg h, if_neg h]

/-- The trigger lets the job pass. -/
theorem checkStreamStatusTransition_expired
    (h : row.status ∈ [Database.StreamStatus.active, .preCliff]) :
    checkStreamStatusTransition row.status .expired = .ok () := by
  rcases List.mem_cons.mp h with h | h
  · rw [h]; rfl
  · rw [List.mem_singleton.mp h]; rfl

/-- **One row.** -/
theorem expireRow_ok (currentLedger : ℤ) (recipient : String) (db : Db) :
    ∃ es n, exec (.expireRow currentLedger recipient) db = .ok (es, n) ∧
      (postgres.applyAll db es).vestingStreams = Function.update db.vestingStreams recipient
        ((db.vestingStreams recipient).map (expireAt currentLedger)) := by
  simp only [exec]
  cases hrow : db.vestingStreams recipient with
  | none =>
    refine ⟨[], 0, updateStatusWhere_ok.mpr (Or.inl ⟨by simp [hrow], rfl, rfl⟩), ?_⟩
    rw [Option.map_none, ← hrow, Function.update_eq_self]
    rfl
  | some row =>
    by_cases h : row.status ∈ [Database.StreamStatus.active, .preCliff] ∧
      row.endLedger < currentLedger
    · have hne : row.status ≠ .expired := by
        rintro heq
        rw [heq] at h
        exact absurd h.1 (by decide)
      refine ⟨_, 1, updateStatusWhere_ok.mpr (Or.inr ⟨row, hrow, h, updateStatus_ok.mpr
        (Or.inr ⟨hne, checkStreamStatusTransition_expired h.1, rfl⟩), rfl⟩), ?_⟩
      rw [applyAll_changeStatus .expired hrow, Option.map_some, expireAt, if_pos h]
      rfl
    · refine ⟨[], 0, updateStatusWhere_ok.mpr (Or.inl ⟨?_, rfl, rfl⟩), ?_⟩
      · intro row' hrow'
        rw [hrow] at hrow'
        obtain rfl := Option.some.inj hrow'
        exact h
      · rw [Option.map_some, expireAt, if_neg h, ← hrow, Function.update_eq_self]
        rfl

/-- **One run of the job.** It commits, and changes the rows that it visits. -/
theorem expireStreams_ok (currentLedger : ℤ) : ∀ (scan : List String) (db : Db),
    ∃ n db', postgres.transact (expireStreams currentLedger scan) db = .ok (n, db') ∧
      ∀ r, db'.vestingStreams r = if r ∈ scan then
        (db.vestingStreams r).map (expireAt currentLedger) else db.vestingStreams r
  | [], db => ⟨0, db, rfl, fun r => by simp⟩
  | recipient :: scan, db => by
    obtain ⟨es, n, hx, hes⟩ := expireRow_ok currentLedger recipient db
    obtain ⟨m, db', hrest, hdb'⟩ := expireStreams_ok currentLedger scan (postgres.applyAll db es)
    refine ⟨n + m, db', ?_, fun r => ?_⟩
    · unfold expireStreams
      rw [query, Program.send_bind, Server.transact_query_of_ok hx, Server.transact_bind]
      exact bind_ok.mpr ⟨m, db', hrest, rfl⟩
    · rw [hdb' r, hes]
      by_cases hr : r = recipient
      · subst hr
        rw [Function.update_self]
        cases db.vestingStreams r with
        | none => simp
        | some row => split_ifs <;> simp_all [expireAt_idem]
      · simp [hr]

end Job

/-! ### Run after run -/

/-- A run of the job: the ledger it is given, and the rows in the order it visits them. -/
structure Job where
  currentLedger : ℤ
  scan : List String

/-- The job in its transaction, committed or rolled back. -/
def runJob (db : Db) (job : Job) : Db :=
  commit (postgres.transact (expireStreams job.currentLedger job.scan)) db

/-- The row of the recipient says `expired`. -/
def ShowsExpired (db : Db) (recipient : String) : Prop :=
  ∃ row, db.vestingStreams recipient = some row ∧ row.status = .expired

section Runs

variable {db : Db} {recipient : String} {row : VestingStream}

theorem vestingStreams_runJob (db : Db) (job : Job) :
    (runJob db job).vestingStreams recipient = if recipient ∈ job.scan then
      (db.vestingStreams recipient).map (expireAt job.currentLedger)
    else db.vestingStreams recipient := by
  obtain ⟨n, db', h, hdb'⟩ := expireStreams_ok job.currentLedger job.scan db
  unfold runJob
  rw [commit_of_ok h]
  exact hdb' recipient

/-- The row of an open stream after some runs of the job. -/
theorem row_after (hrow : db.vestingStreams recipient = some row)
    (hopen : row.status = .active ∨ row.status = .preCliff) (jobs : List Job) :
    ∃ row', (jobs.foldl runJob db).vestingStreams recipient = some row' ∧
      row'.endLedger = row.endLedger ∧
      (row'.status ≠ .expired → row'.status = .active ∨ row'.status = .preCliff) ∧
      (row'.status = .expired ↔
        ∃ job ∈ jobs, recipient ∈ job.scan ∧ row.endLedger < job.currentLedger) := by
  induction jobs using List.reverseRecOn with
  | nil => exact ⟨row, hrow, rfl, fun _ => hopen, by rcases hopen with h | h <;> simp [h]⟩
  | append_singleton jobs job ih =>
    obtain ⟨row', hrow', hend, hopen', hexpired⟩ := ih
    rw [List.foldl_append, List.foldl_cons, List.foldl_nil, vestingStreams_runJob, hrow']
    by_cases hscan : recipient ∈ job.scan ∧ row.endLedger < job.currentLedger
    · -- the job visits the row, which is expired now at the latest
      refine ⟨expireAt job.currentLedger row', by simp [hscan.1], ?_, ?_, ?_⟩
      · unfold expireAt
        split_ifs <;> exact hend
      all_goals
        have hnow : (expireAt job.currentLedger row').status = .expired := by
          by_cases he : row'.status = .expired
          · unfold expireAt
            split_ifs
            · rfl
            · exact he
          · have hin : row'.status ∈ [Database.StreamStatus.active, .preCliff] := by
              simpa using hopen' he
            rw [expireAt, if_pos ⟨hin, hend ▸ hscan.2⟩]
      · exact fun h => absurd hnow h
      · exact iff_of_true hnow ⟨job, by simp, hscan⟩
    · have hsame : (if recipient ∈ job.scan then (some row').map (expireAt job.currentLedger)
          else some row') = some row' := by
        split_ifs with hin
        · have hlt : ¬ row'.endLedger < job.currentLedger := fun h => hscan ⟨hin, hend ▸ h⟩
          rw [Option.map_some, expireAt, if_neg fun h => hlt h.2]
        · rfl
      refine ⟨row', hsame, hend, hopen', hexpired.trans ?_⟩
      simp only [List.mem_append, List.mem_singleton]
      constructor
      · rintro ⟨j, hj, h⟩
        exact ⟨j, Or.inl hj, h⟩
      · rintro ⟨j, hj | rfl, h⟩
        · exact ⟨j, hj, h⟩
        · exact absurd h hscan

/-- The row of an open stream says `expired` once the job has run after its end. -/
theorem showsExpired_iff (hrow : db.vestingStreams recipient = some row)
    (hopen : row.status = .active ∨ row.status = .preCliff) (jobs : List Job) {scan : List String}
    (hscan : recipient ∈ scan) {current : ℤ} (hjobs : ∀ job ∈ jobs, job.currentLedger ≤ current) :
    ShowsExpired (runJob (jobs.foldl runJob db) ⟨current, scan⟩) recipient ↔
      row.endLedger < current := by
  obtain ⟨row', hrow', -, -, hexpired⟩ := row_after hrow hopen (jobs ++ [⟨current, scan⟩])
  rw [List.foldl_append, List.foldl_cons, List.foldl_nil] at hrow'
  unfold ShowsExpired
  rw [hrow']
  simp only [Option.some.injEq, exists_eq_left']
  rw [hexpired]
  constructor
  · rintro ⟨job, hjob, -, hlt⟩
    rcases List.mem_append.mp hjob with hjob | hjob
    · have := hjobs job hjob
      omega
    · rw [List.mem_singleton.mp hjob] at hlt
      exact hlt
  · intro hlt
    exact ⟨⟨current, scan⟩, by simp, hscan, hlt⟩

end Runs

/-! ### The database and the contract -/

/-- The database shows the stream as expired if and only if `get_status` does, and if and only if a
claim finds all that remains. -/
def Agrees (st : Storage) (r : Address) (s : VestingSchedule) (current : UInt32) (db : Db)
    (recipient : String) : Prop :=
  (ShowsExpired db recipient ↔ getStatus st r current = some .expired) ∧
    (getStatus st r current = some .expired ↔ PaysEverything s current)

/-- **Expiry off chain and on chain.** After runs of the job up to the ledger `current` the database
agrees with the contract about a stream that was never paused exactly if the stream is stored under
the legacy key, which `get_status` reads, and `current` is not its end, or if it is stored by its id
and its end is still to come. -/
theorem agrees_iff {st : Storage} {r : Address} {s : VestingSchedule} {now : ℕ}
    (hs : NeverPaused s now) (hlive : scheduleAt st r 0 = some s) (hz : LegacyIsZero st r) {db : Db}
    {recipient : String} {row : VestingStream} (hrow : db.vestingStreams recipient = some row)
    (hopen : row.status = .active ∨ row.status = .preCliff)
    (hend : row.endLedger = s.endLedger.toNat)
    (jobs : List Job) (scan : List String) (hscan : recipient ∈ scan) (current : UInt32)
    (hjobs : ∀ job ∈ jobs, job.currentLedger ≤ current.toNat) :
    Agrees st r s current (runJob (jobs.foldl runJob db) ⟨current.toNat, scan⟩) recipient ↔
      if (legacy st r).isSome = true then current ≠ s.endLedger else current < s.endLedger := by
  have hshows := showsExpired_iff hrow hopen jobs hscan hjobs
  have hpays : PaysEverything s current ↔ _ := paysEverything_iff hs
  have hne : current ≠ s.endLedger ↔ current.toNat ≠ s.endLedger.toNat :=
    not_congr UInt32.toNat_inj.symm
  unfold Agrees
  rw [hshows, hend, hpays, hne, UInt32.lt_iff_toNat_lt]
  cases hleg : legacy st r with
  | none =>
    have hstatus : getStatus st r current = none := by
      unfold getStatus getScheduleReadonly
      rw [hleg, Option.map_none]
    simp only [hstatus, reduceCtorEq, Option.isSome_none, Bool.false_eq_true, if_false, iff_false,
      false_iff]
    omega
  | some s' =>
    obtain rfl := Option.some.inj ((hz s' hleg).symm.trans hlive)
    have hstatus : getStatus st r current = some .expired ↔ s'.endLedger.toNat ≤ current.toNat := by
      unfold getStatus getScheduleReadonly
      rw [hleg, Option.map_some, Option.some.injEq, statusOf_eq_expired hs]
    simp only [hstatus, Option.isSome_some, if_true, and_true]
    constructor
    · intro h heq
      have := h.mpr heq.ge
      omega
    · intro hne
      constructor <;> intro h <;> omega

theorem neverPaused_sampleStream : NeverPaused sampleStream 100 :=
  ⟨repInv_sampleStream, rfl, by decide⟩

/-- The row of recipient `2`, with the end of the sample stream. -/
def sampleTable : Db :=
  Db.fresh fun recipient => if recipient = "GB2" then some ⟨.active, 300⟩ else none

/-- One ledger after the end both call the stream expired. -/
theorem agrees_sample :
    Agrees (legacyEnv sampleStream).persistent ⟨2⟩ sampleStream 301
      (runJob sampleTable ⟨301, ["GB2"]⟩) "GB2" := by
  have h := agrees_iff neverPaused_sampleStream
    (by decide +kernel : scheduleAt (legacyEnv sampleStream).persistent ⟨2⟩ 0 = some sampleStream)
    (legacyIsZero_legacyEnv sampleStream)
    (rfl : sampleTable.vestingStreams "GB2" = some ⟨.active, 300⟩) (Or.inl rfl) rfl [] ["GB2"]
    (by simp) 301 (by simp)
  refine h.mpr ?_
  decide +kernel

/-- At the end the contract calls it expired and the database does not. -/
theorem not_agrees_at_end :
    ¬ Agrees (legacyEnv sampleStream).persistent ⟨2⟩ sampleStream 300
      (runJob sampleTable ⟨300, ["GB2"]⟩) "GB2" := by
  rintro ⟨h, -⟩
  obtain ⟨row, hrow, hstatus⟩ := h.mpr (by decide +kernel)
  have hopen : (runJob sampleTable ⟨300, ["GB2"]⟩).vestingStreams "GB2" = some ⟨.active, 300⟩ := by
    decide +kernel
  rw [hopen] at hrow
  obtain rfl := Option.some.inj hrow
  cases hstatus

end VestingDripStream.Backend.Expiry
