import VestingDripStream.Backend.Recompute

/-! # The balance reconciliation job

`runBalanceReconciliation` of `balanceReconciliation.ts` reads all balance rows, and then recomputes
one after the other from the stored events. Batches of the indexer commit between two rows; what
happens when one commits within a recomputation is the subject of `Backend.Recompute`.

The order in which the first query returns the rows is a parameter. -/

namespace VestingDripStream.Backend.BalanceJob

open VestingDripStream.Lib.Client VestingDripStream.Lib.Run VestingDripStream.Lib.Transaction
open VestingDripStream.Backend.Database VestingDripStream.Backend.Persistence
open VestingDripStream.Backend.Acceptance VestingDripStream.Backend.Balances
open VestingDripStream.Backend.Recompute

/-- A run of the job: the database, the rows that it still has to check, as it has read them, and
its `ReconciliationResult`. -/
structure Reconciliation where
  db : Db
  rows : List (String × ℤ)
  checked : ℕ
  corrected : ℕ
  errors : ℕ

/-- After the first query. -/
def Reconciliation.start (db : Db) (rows : List (String × ℤ)) : Reconciliation :=
  ⟨db, rows, 0, 0, 0⟩

/-- The rows are those of `stream_balances`, in some order. -/
structure ReadsBalances (db : Db) (rows : List (String × ℤ)) : Prop where
  nodup : (rows.map Prod.fst).Nodup
  mem : ∀ id claimedTotal, (id, claimedTotal) ∈ rows ↔
    ∃ b, db.streamBalances id = some b ∧ b.claimedTotal = claimedTotal

/-- One turn of the loop. -/
def Reconciliation.check (j : Reconciliation) (streamId : String) (storedTotal : ℤ) :
    Reconciliation :=
  match postgres.transact (recomputeBalance streamId) j.db with
  | .error _ => { j with checked := j.checked + 1, errors := j.errors + 1 }
  | .ok (none, db) => { j with db, checked := j.checked + 1 }
  | .ok (some (recomputedTotal, _), db) =>
    { j with
      db
      checked := j.checked + 1
      corrected := if storedTotal ≠ recomputedTotal then j.corrected + 1 else j.corrected }

/-- The indexer commits a batch, or the job goes on to its next row. -/
inductive Action
  | upsertStreamEvents (events : List DecodedStreamEvent)
  | next

/-- One step; a job without rows left is over. -/
def step (j : Reconciliation) : Action → Reconciliation
  | .upsertStreamEvents events => { j with db := upsertBatch j.db events }
  | .next =>
    match j.rows with
    | [] => j
    | (streamId, storedTotal) :: rest => { j with rows := rest }.check streamId storedTotal

section Rows

variable {db : Db} {r : String}

/-- How far the balance row is behind the stored claims. -/
def drift (r : String) (db : Db) : ℤ := claims r db - (balance r db).claimedTotal

theorem balance_ingest (ev : DecodedStreamEvent) (hnew : ev.transactionHash ∉ db.hashes) :
    balance r (ingest db ev) = if ev.recipient = r then
      (creditedBalance ev (db.streamBalances r)).getD ⟨0, 0, 0⟩ else balance r db := by
  unfold balance
  rw [ingest_streamBalances, if_neg hnew]
  split_ifs with hr
  · subst hr
    rw [Function.update_self]
  · rw [Function.update_of_ne (Ne.symm hr)]

/-- What is stored adds no claim. -/
theorem claims_ingest {ev : DecodedStreamEvent} (ha : Accepts db ev) :
    claims r (ingest db ev) = claims r db := by
  unfold claims
  rw [ingest_streamEvents]
  split_ifs with hh
  · rfl
  · exact sumAmounts_append_of_not_increments (ha.insertable hh).unclaimed

/-- An event leaves what was claimed in the row, and its `remaining` in step. -/
theorem balance_ingest_keeps (ev : DecodedStreamEvent) :
    (balance r (ingest db ev)).claimedTotal = (balance r db).claimedTotal ∧
      ((balance r db).remaining = (balance r db).totalDeposit - (balance r db).claimedTotal →
        (balance r (ingest db ev)).remaining =
          (balance r (ingest db ev)).totalDeposit - (balance r (ingest db ev)).claimedTotal) := by
  by_cases hnew : ev.transactionHash ∈ db.hashes
  · have hbalances : (ingest db ev).streamBalances = db.streamBalances := by
      rw [ingest_streamBalances, if_pos hnew]
    unfold balance
    rw [hbalances]
    exact ⟨rfl, fun h => h⟩
  · rw [balance_ingest ev hnew]
    by_cases hr : ev.recipient = r
    · rw [if_pos hr, creditedBalance_getD]
      unfold balance
      cases ht : ev.eventType with
      | streamCreated => cases ha : ev.amount <;> simp
      | _ => exact ⟨rfl, fun h => h⟩
    · rw [if_neg hr]
      exact ⟨rfl, fun h => h⟩

theorem drift_ingest {ev : DecodedStreamEvent} (ha : Accepts db ev) :
    drift r (ingest db ev) = drift r db := by
  unfold drift
  rw [claims_ingest ha, (balance_ingest_keeps ev).1]

theorem consistent_iff_drift : Consistent r db ↔ drift r db = 0 ∧
    (balance r db).remaining = (balance r db).totalDeposit - (balance r db).claimedTotal := by
  unfold drift
  constructor
  · rintro ⟨hclaimed, hremaining⟩
    exact ⟨by omega, hremaining⟩
  · rintro ⟨hdrift, hremaining⟩
    exact ⟨by omega, hremaining⟩

theorem consistent_ingest {ev : DecodedStreamEvent} (h : Consistent r db) (ha : Accepts db ev) :
    Consistent r (ingest db ev) := by
  obtain ⟨hdrift, hremaining⟩ := consistent_iff_drift.mp h
  exact consistent_iff_drift.mpr
    ⟨(drift_ingest ha).trans hdrift, (balance_ingest_keeps ev).2 hremaining⟩

theorem isSome_ingest (ev : DecodedStreamEvent) (h : (db.streamBalances r).isSome = true) :
    ((ingest db ev).streamBalances r).isSome = true := by
  rw [ingest_streamBalances]
  split_ifs
  · exact h
  · by_cases hr : r = ev.recipient
    · subst hr
      rw [Function.update_self]
      obtain ⟨b, hb⟩ := Option.isSome_iff_exists.mp h
      rw [hb]
      unfold creditedBalance
      split <;> rfl
    · rwa [Function.update_of_ne hr]

/-- What recomputing makes of a row. -/
def settled (db : Db) (r : String) (b : StreamBalance) : StreamBalance :=
  ⟨b.totalDeposit, claims r db, b.totalDeposit - claims r db⟩

theorem recomputed_of_some {b : StreamBalance} (h : db.streamBalances r = some b) :
    recomputed db r =
      { db with streamBalances := Function.update db.streamBalances r (some (settled db r b)) } :=
  recomputed_of_row h

theorem transact_recompute_of_some {b : StreamBalance} (h : db.streamBalances r = some b) :
    postgres.transact (recomputeBalance r) db =
      .ok (some (claims r db, b.totalDeposit - claims r db), recomputed db r) := by
  have hwrite : postgres.exec (.updateRecomputed r (claims r db) (b.totalDeposit - claims r db)) db =
      .ok ([.setBalance r (settled db r b)], 1) := by
    show exec (.updateRecomputed r (claims r db) (b.totalDeposit - claims r db)) db = _
    simp only [exec, h]
    rfl
  rw [transact_recomputeBalance, h, recomputed_of_some h]
  show postgres.transact (do
    let _ ← query (.updateRecomputed r (claims r db) (b.totalDeposit - claims r db))
    query (.selectBalance r)) db = _
  rw [Program.send_bind, Server.transact_query_of_ok hwrite, applyAll_setBalance]
  have hread : postgres.exec (.selectBalance r)
      { db with streamBalances := Function.update db.streamBalances r (some (settled db r b)) } =
      .ok ([], some (claims r db, b.totalDeposit - claims r db)) := by
    show exec (.selectBalance r) _ = _
    simp [exec, settled]
  rw [query, Program.send, Server.transact_query_of_ok hread]
  rfl

/-- Recomputing a row sets it right, whatever it was, -/
theorem consistent_recomputed {b : StreamBalance} (h : db.streamBalances r = some b) :
    Consistent r (recomputed db r) := by
  rw [recomputed_of_some h]
  unfold settled
  constructor <;> simp [balance, claims]

/-- and leaves the others. -/
theorem balance_recomputed_of_ne {b : StreamBalance} {r' : String}
    (h : db.streamBalances r = some b) (hne : r' ≠ r) :
    (recomputed db r).streamBalances r' = db.streamBalances r' ∧
      claims r' (recomputed db r) = claims r' db := by
  rw [recomputed_of_some h]
  exact ⟨Function.update_of_ne hne _ _, rfl⟩

end Rows

/-! ### A run of the job -/

section Job

variable {db0 : Db} {rows0 : List (String × ℤ)} {j : Reconciliation}

/-- The rows that are checked agree with the stored claims; the others are as far from them as they
were at the start. -/
structure Repairs (db0 : Db) (rows0 : List (String × ℤ)) (j : Reconciliation) : Prop where
  rows : j.rows = rows0.drop j.checked
  checked : j.checked ≤ rows0.length
  errors : j.errors = 0
  exist : ∀ row ∈ rows0, (j.db.streamBalances row.1).isSome = true
  done : ∀ row ∈ rows0.take j.checked, Consistent row.1 j.db
  left : ∀ row ∈ j.rows, drift row.1 j.db = drift row.1 db0

theorem repairs_start (h : ReadsBalances db0 rows0) :
    Repairs db0 rows0 (.start db0 rows0) where
  rows := rfl
  checked := Nat.zero_le _
  errors := rfl
  exist row hrow := by
    obtain ⟨b, hb, -⟩ := (h.mem row.1 row.2).mp hrow
    exact Option.isSome_iff_exists.mpr ⟨b, hb⟩
  done row hrow := by cases hrow
  left row _ := rfl

/-- What the indexer stores leaves the rows as far from the claims as they are. -/
theorem repairs_upsert (h : Repairs db0 rows0 j) (events : List DecodedStreamEvent) :
    Repairs db0 rows0 { j with db := upsertBatch j.db events } := by
  refine ⟨h.rows, h.checked, h.errors, fun row hrow => ?_, fun row hrow => ?_, fun row hrow => ?_⟩
  · have hkeeps : ∀ db ev, (db.streamBalances row.1).isSome = true → Accepts db ev →
        ((ingest db ev).streamBalances row.1).isSome = true := fun _ ev hI _ => isSome_ingest ev hI
    exact upsertBatch_induct hkeeps (h.exist row hrow) events
  · have hkeeps : ∀ db ev, Consistent row.1 db → Accepts db ev → Consistent row.1 (ingest db ev) :=
      fun _ _ hI ha => consistent_ingest hI ha
    exact upsertBatch_induct hkeeps (h.done row hrow) events
  · have hkeeps : ∀ db ev, drift row.1 db = drift row.1 db0 → Accepts db ev →
        drift row.1 (ingest db ev) = drift row.1 db0 := fun _ _ hI ha => (drift_ingest ha).trans hI
    exact upsertBatch_induct hkeeps (h.left row hrow) events

/-- A turn of the loop. -/
theorem check_eq {b : StreamBalance} {streamId : String} (storedTotal : ℤ)
    (h : j.db.streamBalances streamId = some b) :
    j.check streamId storedTotal =
      ⟨recomputed j.db streamId, j.rows, j.checked + 1,
        if storedTotal ≠ claims streamId j.db then j.corrected + 1 else j.corrected, j.errors⟩ := by
  unfold Reconciliation.check
  rw [transact_recompute_of_some h]

theorem repairs_next (hread : ReadsBalances db0 rows0) (h : Repairs db0 rows0 j) :
    Repairs db0 rows0 (step j .next) := by
  cases hrows : j.rows with
  | nil =>
    have hstep : step j .next = j := by simp only [step, hrows]
    rw [hstep]
    exact h
  | cons row rest =>
    have hdrop := h.rows
    rw [hrows] at hdrop
    have hlt : j.checked < rows0.length := by
      by_contra hge
      rw [List.drop_eq_nil_of_le (by omega)] at hdrop
      cases hdrop
    rw [List.drop_eq_getElem_cons hlt] at hdrop
    injection hdrop with hrow hrest
    obtain ⟨b, hb⟩ := Option.isSome_iff_exists.mp
      (h.exist row (hrow ▸ List.getElem_mem hlt))
    have hstep : step j .next = ⟨recomputed j.db row.1, rest, j.checked + 1,
        if row.2 ≠ claims row.1 j.db then j.corrected + 1 else j.corrected, j.errors⟩ := by
      simp only [step, hrows]
      exact check_eq row.2 hb
    -- the ids of the rows differ
    have hnodup := hread.nodup
    rw [← List.take_append_drop j.checked rows0, List.drop_eq_getElem_cons hlt, ← hrow, ← hrest,
      List.map_append, List.map_cons, List.nodup_append, List.nodup_cons] at hnodup
    obtain ⟨-, ⟨hnotRest, -⟩, hapart⟩ := hnodup
    have hexist : ∀ id, (j.db.streamBalances id).isSome = true →
        ((recomputed j.db row.1).streamBalances id).isSome = true := by
      intro id hid
      rw [recomputed_of_some hb]
      by_cases hne : id = row.1
      · subst hne
        simp
      · simpa [Function.update_of_ne hne] using hid
    rw [hstep]
    refine ⟨hrest, hlt, h.errors, fun row' hrow' => hexist _ (h.exist row' hrow'), ?_, ?_⟩
    · intro row' hrow'
      rw [List.take_add_one, List.getElem?_eq_getElem hlt, ← hrow, List.mem_append] at hrow'
      rcases hrow' with hrow' | hrow'
      · have hne : row'.1 ≠ row.1 :=
          hapart _ (List.mem_map_of_mem hrow') _ List.mem_cons_self
        obtain ⟨hsame, hclaims⟩ := balance_recomputed_of_ne hb hne
        obtain ⟨hclaimed, hremaining⟩ := h.done row' hrow'
        unfold balance at hclaimed hremaining
        constructor
        · unfold balance
          rw [hsame, hclaims]
          exact hclaimed
        · unfold balance
          rw [hsame]
          exact hremaining
      · have heq : row' = row := by simpa using hrow'
        rw [heq]
        exact consistent_recomputed hb
    · intro row' hrow'
      have hne : row'.1 ≠ row.1 := fun heq => hnotRest (heq ▸ List.mem_map_of_mem hrow')
      obtain ⟨hsame, hclaims⟩ := balance_recomputed_of_ne hb hne
      have hleft := h.left row' (by rw [hrows]; exact List.mem_cons_of_mem row hrow')
      unfold drift balance at hleft ⊢
      rw [hsame, hclaims]
      exact hleft

/-- **The job repairs what it checks.** Whatever the balance rows held, and whatever batches the
indexer commits between two rows, every row that was checked agrees with the stored claims from then
on, no check fails, and the rows that are left are as far from the claims as at the start. -/
theorem reconciliation_repairs (h : ReadsBalances db0 rows0) (l : List Action) :
    Repairs db0 rows0 (run step (.start db0 rows0) l) := by
  have hstep : ∀ j a, Repairs db0 rows0 j → Repairs db0 rows0 (step j a) := by
    intro j a hj
    cases a with
    | upsertStreamEvents events => exact repairs_upsert hj events
    | next => exact repairs_next h hj
  exact (allStates_of_step hstep (repairs_start h)).last

/-! ### A run that is alone -/

/-- The rows with the ids are set right. -/
def partly (db : Db) (ids : List String) : Db :=
  { db with
    streamBalances := fun id =>
      if id ∈ ids then (db.streamBalances id).map (settled db id) else db.streamBalances id }

theorem recomputed_partly {db : Db} {ids : List String} {id : String} {b : StreamBalance}
    (hb : db.streamBalances id = some b) (hnew : id ∉ ids) :
    recomputed (partly db ids) id = partly db (ids ++ [id]) := by
  have hrow : (partly db ids).streamBalances id = some b := (if_neg hnew).trans hb
  rw [recomputed_of_some hrow]
  unfold partly
  congr 1
  funext id'
  by_cases hid : id' = id
  · subst hid
    simp [hb, settled, claims]
  · simp [hid]

/-- What the rest of the loop does. -/
theorem run_next {db : Db} : ∀ (rest : List (String × ℤ)) (ids : List String) (checked corrected : ℕ),
    (ids ++ rest.map Prod.fst).Nodup → (∀ row ∈ rest, (db.streamBalances row.1).isSome = true) →
      run step ⟨partly db ids, rest, checked, corrected, 0⟩ (List.replicate rest.length .next) =
        ⟨partly db (ids ++ rest.map Prod.fst), [], checked + rest.length,
          corrected + rest.countP fun row => row.2 ≠ claims row.1 db, 0⟩
  | [], ids, checked, corrected, _, _ => by simp
  | row :: rest, ids, checked, corrected, hnodup, hrows => by
    obtain ⟨b, hb⟩ := Option.isSome_iff_exists.mp (hrows row List.mem_cons_self)
    have hnew : row.1 ∉ ids := by
      intro hmem
      rw [List.map_cons, List.nodup_append] at hnodup
      exact hnodup.2.2 _ hmem _ List.mem_cons_self rfl
    have hrow : (partly db ids).streamBalances row.1 = some b := (if_neg hnew).trans hb
    have hstep : step ⟨partly db ids, row :: rest, checked, corrected, 0⟩ .next =
        ⟨partly db (ids ++ [row.1]), rest, checked + 1,
          if row.2 ≠ claims row.1 db then corrected + 1 else corrected, 0⟩ := by
      show Reconciliation.check ⟨partly db ids, rest, checked, corrected, 0⟩ row.1 row.2 = _
      rw [check_eq row.2 hrow, recomputed_partly hb hnew]
      rfl
    have happend : ids ++ [row.1] ++ rest.map Prod.fst = ids ++ (row :: rest).map Prod.fst := by
      simp
    rw [List.length_cons, List.replicate_succ, run_cons, hstep,
      run_next rest _ _ _ (happend ▸ hnodup) fun row' hrow' =>
        hrows row' (List.mem_cons_of_mem row hrow'), happend, List.countP_cons]
    by_cases hdrift : row.2 ≠ claims row.1 db
    · rw [if_pos hdrift, if_pos (decide_eq_true hdrift)]
      congr 1 <;> omega
    · rw [if_neg hdrift, if_neg (mt of_decide_eq_true hdrift)]
      congr 1
      omega

/-- The balance rows as the events have them. -/
def repaired (db : Db) : Db :=
  { db with streamBalances := fun id => (db.streamBalances id).map (settled db id) }

theorem partly_all (h : ReadsBalances db0 rows0) : partly db0 (rows0.map Prod.fst) = repaired db0 := by
  unfold partly repaired
  congr 1
  funext id
  split_ifs with hid
  · rfl
  · cases hb : db0.streamBalances id with
    | none => rfl
    | some b =>
      exact absurd (List.mem_map_of_mem ((h.mem id b.claimedTotal).mpr ⟨b, hb, rfl⟩)) hid

theorem run_alone (h : ReadsBalances db0 rows0) :
    run step (.start db0 rows0) (List.replicate rows0.length .next) =
      ⟨repaired db0, [], rows0.length, rows0.countP fun row => row.2 ≠ claims row.1 db0, 0⟩ := by
  have hnone : partly db0 [] = db0 := by simp [partly]
  have hrows : ∀ row ∈ rows0, (db0.streamBalances row.1).isSome = true :=
    (repairs_start h).exist
  have hrun := run_next rows0 [] 0 0 (by simpa using h.nodup) hrows
  rw [hnone] at hrun
  rw [Reconciliation.start, hrun]
  simp [partly_all h]

theorem repaired_repaired (db : Db) : repaired (repaired db) = repaired db := by
  unfold repaired
  congr 1
  funext id
  exact Option.map_map _ _ _

/-- **A run that is alone.** From any balance rows, the job leaves every row with the sum of the
stored claims, its deposit, and the difference of both, and changes nothing else; it reports as
corrected the rows with another sum. A second run corrects nothing and changes nothing. -/
theorem reconciliation_exact (h : ReadsBalances db0 rows0) :
    run step (.start db0 rows0) (List.replicate rows0.length .next) =
      ⟨repaired db0, [], rows0.length, rows0.countP fun row => row.2 ≠ claims row.1 db0, 0⟩ ∧
    ∀ rows, ReadsBalances (repaired db0) rows →
      run step (.start (repaired db0) rows) (List.replicate rows.length .next) =
        ⟨repaired db0, [], rows.length, 0, 0⟩ := by
  refine ⟨run_alone h, fun rows hrows => ?_⟩
  have hagree : rows.countP (fun row => row.2 ≠ claims row.1 (repaired db0)) = 0 := by
    rw [List.countP_eq_zero]
    rintro ⟨id, claimedTotal⟩ hrow
    obtain ⟨b, hb, rfl⟩ := (hrows.mem id claimedTotal).mp hrow
    obtain ⟨b', -, rfl⟩ := Option.map_eq_some_iff.mp hb
    simp [settled, repaired, claims]
  rw [run_alone hrows, repaired_repaired, hagree]

end Job

/-- A row that is behind the one claim that is stored. -/
def sampleDb : Db :=
  { Db.fresh fun _ => none with
    streamEvents := [⟨.tokensClaimed, "R", "S", "T", some 5, 7, "h"⟩]
    streamBalances := fun id => if id = "R" then some ⟨100, 3, 97⟩ else none }

theorem readsBalances_sample : ReadsBalances sampleDb [("R", 3)] where
  nodup := List.nodup_singleton _
  mem id claimedTotal := by
    unfold sampleDb
    by_cases hid : id = "R"
    · simp [hid, eq_comm]
    · simp [hid]

theorem reconciliation_repairs_sample :
    Repairs sampleDb [("R", 3)] (run step (.start sampleDb [("R", 3)]) [.next]) :=
  reconciliation_repairs readsBalances_sample [.next]

theorem reconciliation_exact_sample :
    (run step (.start sampleDb [("R", 3)]) (List.replicate 1 .next)).corrected = 1 :=
  (congrArg Reconciliation.corrected (reconciliation_exact readsBalances_sample).1).trans
    (by decide +kernel)

end VestingDripStream.Backend.BalanceJob
