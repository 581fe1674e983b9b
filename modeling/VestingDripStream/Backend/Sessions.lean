import VestingDripStream.Backend.Persistence

/-! # Concurrent work on the database

The jobs of the backend as sessions: batches of the indexer, transactions with calls of
`transitionStreamStatus`, the expiry job's `UPDATE`, and `recomputeBalance`, whose statements commit
one by one. `atStream` is what the tables hold of one stream, the row and its audit rows: only
effects that lock the row change it. -/

namespace VestingDripStream.Backend.Sessions

open VestingDripStream.Lib.Client VestingDripStream.Lib.ReadCommitted
open VestingDripStream.Lib.Transaction VestingDripStream.Lib.Run
open VestingDripStream.Backend.Database VestingDripStream.Backend.Persistence

/-- What a session is opened for. -/
inductive Job
  | upsertStreamEvents (events : List DecodedStreamEvent)
  | transitionStreamStatus (calls : List (String × StreamStatus))
  | expireStreams (currentLedger : ℤ) (scan : List String)
  | recomputeBalance (streamId : String)
  deriving DecidableEq

/-- Calls of `transitionStreamStatus` in one transaction. -/
def transitions : List (String × StreamStatus) → Client Unit
  | [] => return ()
  | (recipientAddress, toStatus) :: calls => do
    transitionStreamStatus recipientAddress toStatus
    transitions calls

/-- The program of a job. -/
def program : Job → Client Unit
  | .upsertStreamEvents events => do let _ ← upsertStreamEvents events
  | .transitionStreamStatus calls => transitions calls
  | .expireStreams currentLedger scan => do let _ ← expireStreams currentLedger scan
  | .recomputeBalance streamId => do let _ ← recomputeBalance streamId

/-- Whether a job runs in one transaction. -/
def inTransaction : Job → Bool
  | .recomputeBalance _ => false
  | _ => true

/-- The server with the locks of its rows and the jobs. -/
def site : Site Db Statement Failure Effect Key Job Statement.Reply :=
  { postgres with key := Effect.key, program, inTransaction }

/-- The database and the sessions named by `ι`. -/
abbrev Connections (ι : Type) : Type := World Db Statement Failure Effect Key ι Job Statement.Reply

variable {ι : Type} [DecidableEq ι]

/-- The committed database after a run from `db`. -/
def committedAfter (db : Db) (actions : List (Action ι Job)) : Db :=
  (run site.step (World.idle db : Connections ι) actions).committed

/-- A batch that nobody disturbs is the transaction of `Persistence`. -/
theorem upsertStreamEvents_alone (i : ι) (db : Db) (events : List DecodedStreamEvent) :
    ∃ n, committedAfter db (.start i (.upsertStreamEvents events) ::
      (List.replicate n (.send i) ++ [.finish i])) = upsertBatch db events := by
  have htx : site.inTransaction (.upsertStreamEvents events) = true := rfl
  obtain ⟨n, hn⟩ := Site.run_alone htx i db
  refine ⟨n, (congrArg World.committed hn).trans ?_⟩
  have hseq : ∀ st, postgres.transact (do let _ ← upsertStreamEvents events) st =
      (postgres.transact (upsertStreamEvents events) >>= fun _ => pure ()) st :=
    fun st => Server.transact_bind _ _ st
  show commit (postgres.transact do let _ ← upsertStreamEvents events) db = upsertBatch db events
  rw [funext hseq, commit_bind_pure]
  rfl

/-! ### One stream -/

/-- The audit rows of the recipient. -/
def auditRows (recipient : String) (db : Db) : List StatusTransition :=
  db.streamStatusTransitions.filter (·.recipientAddress = recipient)

/-- What the tables hold of one stream. -/
def atStream (recipient : String) (db : Db) : Option VestingStream × List StatusTransition :=
  (db.vestingStreams recipient, auditRows recipient db)

theorem atStream_reads (recipient : String) : Site.Reads site (atStream recipient)
    (.stream recipient) where
  other st e h := by
    cases e with
    | setStatus r status =>
      have hr : r ≠ recipient := fun hr => h (by rw [hr]; rfl)
      simp [site, postgres, Db.apply, atStream, auditRows, Function.update_of_ne hr.symm]
    | insertTransition t =>
      have hr : t.recipientAddress ≠ recipient := fun hr => h (by rw [← hr]; rfl)
      simp [site, postgres, Db.apply, atStream, auditRows, hr]
    | _ => rfl
  same st st' e h := by
    simp only [atStream, Prod.mk.injEq] at h
    cases e with
    | setStatus r status =>
      by_cases hr : r = recipient
      · subst hr
        simpa [site, postgres, Db.apply, atStream, auditRows, h.1] using h.2
      · have hr : recipient ≠ r := fun he => hr he.symm
        simpa [site, postgres, Db.apply, atStream, auditRows, Function.update_of_ne hr] using h
    | insertTransition t =>
      simpa [site, postgres, Db.apply, atStream, auditRows, List.filter_append] using h
    | _ => exact Prod.ext h.1 h.2

end VestingDripStream.Backend.Sessions
