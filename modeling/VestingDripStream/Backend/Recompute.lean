import VestingDripStream.Backend.Sessions
import VestingDripStream.Backend.Balances

/-! # Recomputing a balance while the indexer works

`recomputeBalance` reads the sum of the claims, reads the deposit and writes absolute values, in
statements that commit one by one. The balance row of a recipient stays consistent if no transaction
that commits between the second read and the write changes its deposit.

The sum of the claims never changes. A transaction of the indexer that inserts a claim with an
amount has its increment of `claimed_total` pending, as `pendingAfter` follows through the program;
that statement is always rejected, so that only transactions without a pending increment commit. -/

namespace VestingDripStream.Backend.Recompute

open VestingDripStream.Lib.Client VestingDripStream.Lib.ReadCommitted
open VestingDripStream.Lib.Run VestingDripStream.Lib.Transaction
open VestingDripStream.Backend.Database VestingDripStream.Backend.Persistence
open VestingDripStream.Backend.Sessions VestingDripStream.Backend.Balances

variable (r : String)

/-- `SUM(amount)` over the stored claims of the recipient. -/
def claims (db : Db) : ℤ := sumAmounts .tokensClaimed r db.streamEvents

/-- The balance row of the recipient; a missing row counts as zeros. -/
def balance (db : Db) : StreamBalance := (db.streamBalances r).getD ⟨0, 0, 0⟩

/-- The balance row agrees with the stored claims and with itself. -/
structure Consistent (db : Db) : Prop where
  claimedTotal : (balance r db).claimedTotal = claims r db
  remaining : (balance r db).remaining = (balance r db).totalDeposit - (balance r db).claimedTotal

instance (db : Db) : Decidable (Consistent r db) :=
  decidable_of_iff ((balance r db).claimedTotal = claims r db ∧ (balance r db).remaining =
    (balance r db).totalDeposit - (balance r db).claimedTotal)
    ⟨fun h => ⟨h.1, h.2⟩, fun h => ⟨h.1, h.2⟩⟩

variable {ι : Type} [DecidableEq ι]

/-- A recomputation has read the deposit in the row, and not written the row yet. -/
def DepositRead (w : Connections ι) : Prop :=
  ∃ i s claimedTotal totalDeposit, w.session i = some s ∧ s.job = .recomputeBalance r ∧
    s.rest = do let _ ← storeRecomputed r claimedTotal (some totalDeposit)

/-- If the action is the commit of a session, it does not change the deposit of the row while a
recomputation is between the read of it and the write. -/
def Undisturbed (w : Connections ι) : Action ι Job → Prop
  | .finish i => ∀ s u, w.session i = some s → s.rest = .done u → DepositRead r w →
    ∀ b b', w.committed.streamBalances r = some b →
      (Site.view site w s).streamBalances r = some b' → b'.totalDeposit = b.totalDeposit
  | _ => True

/-! ### What a transaction has pending -/

/-- Whether an increment of `claimed_total` is pending after a statement of a transaction: an event
is inserted when none is, and absolute values are not written. -/
def pendingAfter (pending : Bool) : (s : Statement) → s.Reply → Option Bool
  | .insertEvent ev, rowCount => if pending then none else some (0 < rowCount ∧ Increments ev)
  | .incrementClaimedTotal _ _, _ => some false
  | .insertRecomputed _ _, _ => none
  | .updateRecomputed _ _ _, _ => none
  | _, _ => some pending

/-- Whatever the database answers, the program ends with no increment pending. -/
def Settles {α : Type} (p : Client α) (pending : Bool) : Prop :=
  Program.Tracks pendingAfter (fun _ pending => pending = false) p pending

variable {r}

theorem settles_bind {α β : Type} {p : Client α} {f : α → Client β} {pending : Bool}
    (hp : Settles p pending) (hf : ∀ x, Settles (f x) false) : Settles (p >>= f) pending :=
  Program.tracks_bind.mpr (hp.imp fun x pending hpending => by subst hpending; exact hf x)

theorem settles_query {α : Type} {q : Statement} {f : q.Reply → Client α} {pending : Bool} :
    Settles (query q >>= f) pending ↔
      ∀ reply, ∃ pending', pendingAfter pending q reply = some pending' ∧
        Settles (f reply) pending' := Iff.rfl

theorem settles_updateBalances (ev : DecodedStreamEvent) :
    Settles (updateBalances ev) (Increments ev) := by
  unfold updateBalances
  split
  · next amount ht ha =>
    have hinc : ¬ Increments ev := by simp [Increments, ht]
    exact settles_query.mpr fun n => ⟨_, rfl, decide_eq_false hinc⟩
  · next amount ht ha => exact settles_query.mpr fun n => ⟨_, rfl, rfl⟩
  · next hcreated hclaimed =>
    -- no amount, or another event
    refine decide_eq_false ?_
    rintro ⟨ht, ha⟩
    obtain ⟨amount, ha⟩ := Option.ne_none_iff_exists'.mp ha
    exact hclaimed amount ht ha

theorem settles_updateState (ev : DecodedStreamEvent) : Settles (updateState ev) false := by
  unfold updateState
  cases ev.eventType with
  | streamDrained => exact fun n => ⟨_, rfl, rfl⟩
  | streamCancelled => exact fun n => ⟨_, rfl, rfl⟩
  | _ => rfl

theorem settles_upsertEvent (ev : DecodedStreamEvent) : Settles (upsertEvent ev) false := by
  have hstate : ∀ rowCount : ℕ, Settles (do updateState ev; return rowCount) false :=
    fun rowCount => settles_bind (settles_updateState ev) fun _ => rfl
  refine settles_query.mpr fun rowCount => ⟨_, rfl, ?_⟩
  by_cases h : 0 < rowCount
  · simp only [h, if_true, true_and]
    exact settles_bind (settles_updateBalances ev) fun _ => hstate rowCount
  · simp only [h, if_false, false_and, decide_false]
    exact hstate rowCount

theorem settles_upsertLoop (events : List DecodedStreamEvent) (inserted : ℕ) :
    Settles (upsertLoop events inserted) false := by
  induction events generalizing inserted with
  | nil => rfl
  | cons ev events ih => exact settles_bind (settles_upsertEvent ev) fun _ => ih _

theorem settles_transitions (calls : List (String × StreamStatus)) :
    Settles (transitions calls) false := by
  induction calls with
  | nil => rfl
  | cons call calls ih =>
    refine settles_bind ?_ fun _ => ih
    refine settles_query.mpr fun currentRow => ⟨_, rfl, ?_⟩
    cases currentRow with
    | none => trivial
    | some fromStatus =>
      simp only
      split_ifs
      · rfl
      · exact settles_query.mpr fun n => ⟨_, rfl, rfl⟩
      · trivial

theorem settles_expireStreams (currentLedger : ℤ) (scan : List String) :
    Settles (expireStreams currentLedger scan) false := by
  induction scan with
  | nil => rfl
  | cons recipient scan ih =>
    exact settles_query.mpr fun n => ⟨_, rfl, settles_bind ih fun _ => rfl⟩

/-- **The programs that run in a transaction** end with no increment pending. -/
theorem settles_program {job : Job} (h : site.inTransaction job = true) :
    Settles (site.program job) false := by
  cases job with
  | upsertStreamEvents events => exact settles_bind (settles_upsertLoop events 0) fun _ => rfl
  | transitionStreamStatus calls => exact settles_transitions calls
  | expireStreams currentLedger scan =>
    exact settles_bind (settles_expireStreams currentLedger scan) fun _ => rfl
  | recomputeBalance streamId => cases h

/-! ### Statements and the balance row -/

/-- The balance rows are those of `stream_balances`. -/
theorem balance_reads (streamId : String) :
    Site.Reads site (fun db => db.streamBalances streamId) (.balance streamId) where
  other db e h := by
    cases e with
    | setBalance id b =>
      have hne : streamId ≠ id := fun he => h (by rw [he]; rfl)
      exact Function.update_of_ne hne _ _
    | _ => rfl
  same db db' e h := by
    cases e with
    | setBalance id b =>
      show Function.update _ _ _ _ = Function.update _ _ _ _
      by_cases hid : streamId = id
      · subst hid; simp
      · rw [Function.update_of_ne hid, Function.update_of_ne hid]
        exact h
    | _ => exact h

theorem balance_setBalance (db : Db) (id : String) (b : StreamBalance) :
    balance r (postgres.applyAll db [.setBalance id b]) = if id = r then b else balance r db := by
  rw [applyAll_setBalance]
  unfold balance
  split_ifs with h
  · subst h; simp
  · simp [Function.update_of_ne (Ne.symm h)]

/-- The effects insert no event that was to increment a balance. -/
def InsertsNoClaim (es : List Effect) : Prop := ∀ ev, Effect.insertEvent ev ∈ es → ¬ Increments ev

/-- Such effects leave the claims as they are. -/
theorem claims_applyAll {es : List Effect} (h : InsertsNoClaim es) (db : Db) :
    claims r (postgres.applyAll db es) = claims r db := by
  induction es generalizing db with
  | nil => rfl
  | cons e es ih =>
    have hrest : InsertsNoClaim es := fun ev hev => h ev (List.mem_cons_of_mem e hev)
    rw [Server.applyAll_cons, ih hrest]
    cases e with
    | insertEvent ev =>
      have hinc := h ev List.mem_cons_self
      show sumAmounts .tokensClaimed r (db.streamEvents ++ [ev]) = _
      rw [sumAmounts_append_of_not_increments hinc]
      rfl
    | _ => rfl

/-- A balance row is written. -/
theorem Consistent.setBalance {db : Db} {id : String} {b : StreamBalance} (h : Consistent r db)
    (hrow : id = r → b.claimedTotal = claims r db ∧ b.remaining = b.totalDeposit - b.claimedTotal) :
    Consistent r (postgres.applyAll db [.setBalance id b]) := by
  have hb := balance_setBalance (r := r) db id b
  by_cases hid : id = r
  · rw [if_pos hid] at hb
    obtain ⟨hc, hr⟩ := hrow hid
    exact ⟨by rw [hb]; exact hc, by rw [hb]; exact hr⟩
  · rw [if_neg hid] at hb
    exact ⟨by rw [hb]; exact h.claimedTotal, by rw [hb]; exact h.remaining⟩

/-- A change of a status does not concern the balances. -/
theorem updateStatusWhere_settled {db db' : Db} {recipient : String} {p : VestingStream → Prop}
    [DecidablePred p] {status : StreamStatus} {es : List Effect} {n : ℕ}
    (h : updateStatusWhere db recipient p status = .ok (es, n)) :
    InsertsNoClaim es ∧ (Consistent r db' → Consistent r (postgres.applyAll db' es)) := by
  rcases updateStatusWhere_ok.mp h with ⟨-, rfl, -⟩ | ⟨row, -, -, hu, -⟩
  · exact ⟨by simp [InsertsNoClaim], fun hc => hc⟩
  · rcases updateStatus_ok.mp hu with ⟨-, rfl⟩ | ⟨-, -, rfl⟩
    · exact ⟨by simp [InsertsNoClaim], fun hc => ⟨hc.claimedTotal, hc.remaining⟩⟩
    · exact ⟨by simp [InsertsNoClaim], fun hc => ⟨hc.claimedTotal, hc.remaining⟩⟩

/-- **One statement of a transaction** that leaves no increment pending: none was pending before,
and it keeps the claims and the row consistent. -/
theorem exec_settled {pending : Bool} {q : Statement} {db : Db} {es : List Effect} {reply : q.Reply}
    (h : exec q db = .ok (es, reply)) (hq : pendingAfter pending q reply = some false) :
    pending = false ∧ InsertsNoClaim es ∧
      (Consistent r db → Consistent r (postgres.applyAll db es)) := by
  have hnone : InsertsNoClaim [] := by simp [InsertsNoClaim]
  cases q with
  | insertEvent ev =>
    unfold pendingAfter at hq
    split_ifs at hq with hp
    refine ⟨by simpa using hp, ?_⟩
    obtain ⟨-, ⟨-, rfl, rfl⟩ | ⟨-, rfl, rfl⟩⟩ := insertEvent_ok.mp h
    · exact ⟨hnone, fun hc => hc⟩
    · have hinc : ¬ Increments ev := by simpa using hq
      have hes : InsertsNoClaim [.insertEvent ev] := by simpa [InsertsNoClaim] using hinc
      have hclaims := claims_applyAll (r := r) hes db
      exact ⟨hes, fun hc => ⟨hc.claimedTotal.trans hclaims.symm, hc.remaining⟩⟩
  | upsertTotalDeposit id amount =>
    obtain ⟨-, rfl, -⟩ := upsertBalance_ok.mp h
    refine ⟨Option.some.inj hq, by simp [InsertsNoClaim], fun hc => hc.setBalance fun hid => ?_⟩
    subst hid
    have hclaimed := hc.claimedTotal
    unfold balance at hclaimed
    cases hr : db.streamBalances id with
    | none =>
      rw [hr] at hclaimed
      exact ⟨hclaimed, (sub_zero _).symm⟩
    | some b =>
      rw [hr] at hclaimed
      exact ⟨hclaimed, rfl⟩
  | incrementClaimedTotal id amount => cases h
  | updateDrained ev => cases h
  | updateCancelled recipient => exact ⟨Option.some.inj hq, updateStatusWhere_settled h⟩
  | updateStatus toStatus recipient => exact ⟨Option.some.inj hq, updateStatusWhere_settled h⟩
  | expireRow currentLedger recipient => exact ⟨Option.some.inj hq, updateStatusWhere_settled h⟩
  | insertRecomputed id claimedTotal => cases h
  | updateRecomputed id claimedTotal remaining => cases hq
  | selectStatusForUpdate recipient =>
    refine ⟨Option.some.inj hq, ?_⟩
    simp only [exec] at h
    split at h <;> cases h
    · exact ⟨hnone, fun hc => hc⟩
    · exact ⟨by simp [InsertsNoClaim], fun hc => ⟨hc.claimedTotal, hc.remaining⟩⟩
  | updateCursor cursor =>
    refine ⟨Option.some.inj hq, ?_⟩
    simp only [exec] at h
    split at h <;> cases h
    · exact ⟨hnone, fun hc => hc⟩
    · exact ⟨by simp [InsertsNoClaim], fun hc => ⟨hc.claimedTotal, hc.remaining⟩⟩
  | _ =>
    cases h
    exact ⟨Option.some.inj hq, hnone, fun hc => hc⟩

/-! ### What others publish -/

/-- A balance row is not deleted. -/
theorem row_applyAll (es : List Effect) {db : Db} (h : db.streamBalances r ≠ none) :
    (postgres.applyAll db es).streamBalances r ≠ none := by
  induction es generalizing db with
  | nil => exact h
  | cons e es ih =>
    refine ih ?_
    cases e with
    | setBalance id b =>
      show Function.update db.streamBalances id (some b) r ≠ none
      by_cases hid : r = id
      · subst hid; simp
      · rwa [Function.update_of_ne hid]
    | _ => exact h

/-- What a transaction sees stays consistent when another consistent state is published below its
log, unless both write the balance row. -/
theorem Consistent.published {db db' : Db} {log : List Effect} (hdb : Consistent r db)
    (hdb' : Consistent r db') (hlog : InsertsNoClaim log)
    (h : Consistent r (postgres.applyAll db log))
    (hrow : (∃ e ∈ log, e.key = .balance r) → db'.streamBalances r = db.streamBalances r) :
    Consistent r (postgres.applyAll db' log) := by
  have hf := balance_reads r
  by_cases hkey : ∃ e ∈ log, e.key = .balance r
  · -- the row is locked by the transaction
    have hsame := hrow hkey
    have hbal : balance r db' = balance r db := congrArg (fun b => Option.getD b _) hsame
    have hview : balance r (postgres.applyAll db' log) = balance r (postgres.applyAll db log) :=
      congrArg (fun b => Option.getD b _) (hf.applyAll_congr log hsame)
    have hclaims : claims r db' = claims r db := by
      rw [← hdb'.claimedTotal, ← hdb.claimedTotal, hbal]
    have hclaimed := h.claimedTotal
    rw [claims_applyAll hlog] at hclaimed
    refine ⟨?_, ?_⟩
    · rw [hview, claims_applyAll hlog, hclaims]; exact hclaimed
    · rw [hview]; exact h.remaining
  · -- the transaction sees the row as it is published
    push Not at hkey
    have hview : balance r (postgres.applyAll db' log) = balance r db' :=
      congrArg (fun b => Option.getD b _) (hf.applyAll_other hkey)
    refine ⟨?_, ?_⟩
    · rw [hview, claims_applyAll hlog]; exact hdb'.claimedTotal
    · rw [hview]; exact hdb'.remaining

/-! ### The recomputation -/

variable (r) in
/-- A recomputation after `n` statements, with what it still has to do: between its reads and its
write, what it has read of the recipient is what is stored. -/
inductive Recomputing (id : String) (db : Db) : ℕ → Client Unit → Prop
  | started : Recomputing id db 0 (do let _ ← recomputeBalance id)
  | summed (claimedTotal : ℤ) (hc : id = r → claimedTotal = claims r db) :
      Recomputing id db 1 (do
        let totalDeposit ← query (.selectTotalDeposit id)
        let _ ← storeRecomputed id claimedTotal totalDeposit)
  | fetched (claimedTotal : ℤ) (totalDeposit : Option ℤ) (hc : id = r → claimedTotal = claims r db)
      (hd : id = r → ∀ d, totalDeposit = some d →
        ∃ b, db.streamBalances r = some b ∧ b.totalDeposit = d) :
      Recomputing id db 2 (do let _ ← storeRecomputed id claimedTotal totalDeposit)
  | stored : Recomputing id db 3 (do let _ ← query (.selectBalance id))
  | readBack : Recomputing id db 4 (return ())

/-- A change that leaves what the recomputation has read. -/
theorem Recomputing.mono {id : String} {db db' : Db} {n : ℕ} {p : Client Unit}
    (h : Recomputing r id db n p) (hclaims : claims r db' = claims r db)
    (hdeposit : id = r → (∃ claimedTotal totalDeposit,
        p = do let _ ← storeRecomputed id claimedTotal (some totalDeposit)) →
      ∀ b, db.streamBalances r = some b →
        ∃ b', db'.streamBalances r = some b' ∧ b'.totalDeposit = b.totalDeposit) :
    Recomputing r id db' n p := by
  cases h with
  | started => exact .started
  | summed claimedTotal hc => exact .summed claimedTotal fun hid => (hc hid).trans hclaims.symm
  | fetched claimedTotal totalDeposit hc hd =>
    refine .fetched claimedTotal totalDeposit (fun hid => (hc hid).trans hclaims.symm)
      fun hid d hd' => ?_
    obtain ⟨b, hb, rfl⟩ := hd hid d hd'
    exact hdeposit hid ⟨claimedTotal, b.totalDeposit, by rw [hd']⟩ b hb
  | stored => exact .stored
  | readBack => exact .readBack

/-- What a recomputation leaves of the recipient: its claims, and the deposit of its row. -/
structure Leaves (r : String) (db db' : Db) : Prop where
  claims : claims r db' = claims r db
  deposit : ∀ b, db.streamBalances r = some b →
    ∃ b', db'.streamBalances r = some b' ∧ b'.totalDeposit = b.totalDeposit

theorem leaves_rfl (db : Db) : Leaves r db db := ⟨rfl, fun b hb => ⟨b, hb, rfl⟩⟩

theorem leaves_setBalance {db : Db} {id : String} {b : StreamBalance}
    (h : id = r → ∀ b', db.streamBalances r = some b' → b.totalDeposit = b'.totalDeposit) :
    Leaves r db (postgres.applyAll db [.setBalance id b]) := by
  refine ⟨rfl, fun b' hb' => ?_⟩
  rw [applyAll_setBalance]
  by_cases hid : r = id
  · subst hid
    exact ⟨b, by simp, h rfl b' hb'⟩
  · exact ⟨b', by simpa [Function.update_of_ne hid] using hb', rfl⟩

/-- **One statement of a recomputation** keeps the row consistent and goes on to the next phase. -/
theorem Recomputing.exec {id : String} {db : Db} {n : ℕ} {q : Statement}
    {next : q.Reply → Client Unit} {es : List Effect} {reply : q.Reply}
    (h : Recomputing r id db n (.query q next)) (hdb : Consistent r db)
    (hx : exec q db = .ok (es, reply)) :
    Consistent r (postgres.applyAll db es) ∧ Leaves r db (postgres.applyAll db es) ∧
      Recomputing r id (postgres.applyAll db es) (n + 1) (next reply) := by
  generalize hp : Program.query q next = p at h
  cases h with
  | started =>
    cases hp
    cases hx
    exact ⟨hdb, leaves_rfl db, .summed _ fun hid => by rw [hid]; rfl⟩
  | summed claimedTotal hc =>
    cases hp
    cases hx
    refine ⟨hdb, leaves_rfl db, .fetched _ _ hc fun hid d hd => ?_⟩
    subst hid
    exact Option.map_eq_some_iff.mp hd
  | fetched claimedTotal totalDeposit hc hd =>
    cases totalDeposit with
    | none =>
      -- the `INSERT` is rejected
      cases hp
      cases hx
    | some d =>
      cases hp
      simp only [Database.exec] at hx
      split at hx
      · cases hx
        exact ⟨hdb, leaves_rfl db, .stored⟩
      · next b hb =>
        cases hx
        refine ⟨hdb.setBalance fun hid => ?_, leaves_setBalance fun hid b' hb' => ?_, .stored⟩
        · subst hid
          obtain ⟨b', hb', rfl⟩ := hd rfl d rfl
          rw [hb] at hb'
          cases hb'
          exact ⟨hc rfl, rfl⟩
        · subst hid
          rw [hb] at hb'
          cases hb'
          rfl
  | stored =>
    cases hp
    cases hx
    exact ⟨hdb, leaves_rfl db, .readBack⟩
  | readBack => cases hp

/-! ### All sessions -/

variable (r) in
/-- The invariant of the sessions. -/
structure Sound (w : Connections ι) : Prop where
  locked : Site.Locked site w
  committed : Consistent r w.committed
  transaction : ∀ i s, w.session i = some s → site.inTransaction s.job = true →
    ∃ pending, Settles s.rest pending ∧
      (pending = false → InsertsNoClaim s.log ∧ Consistent r (Site.view site w s))
  recompute : ∀ i s id, w.session i = some s → s.job = .recomputeBalance id →
    Recomputing r id w.committed s.sent s.rest

omit [DecidableEq ι] in
theorem sound_idle {db : Db} (h : Consistent r db) :
    Sound r (World.idle db : Connections ι) where
  locked := Site.locked_idle db
  committed := h
  transaction i s hi := by simp [World.idle] at hi
  recompute i s id hi := by simp [World.idle] at hi

omit [DecidableEq ι] in
/-- The transactions of the others after a session has published effects. -/
theorem Sound.transaction_published {w : Connections ι} (h : Sound r w) {i j : ι}
    {t : Session Statement Failure Effect Job Statement.Reply} (hj : w.session j = some t)
    (hji : j ≠ i) (ht : site.inTransaction t.job = true) {es : List Effect}
    (hes : ∀ e ∈ es, w.Free i (Effect.key e))
    (hc : Consistent r (postgres.applyAll w.committed es)) :
    ∃ pending, Settles t.rest pending ∧ (pending = false → InsertsNoClaim t.log ∧
      Consistent r (postgres.applyAll (postgres.applyAll w.committed es) t.log)) := by
  obtain ⟨pending, hsettles, hview⟩ := h.transaction j t hj ht
  refine ⟨pending, hsettles, fun hp => ?_⟩
  obtain ⟨hlog, hcons⟩ := hview hp
  refine ⟨hlog, h.committed.published hc hlog hcons ?_⟩
  rintro ⟨e, he, hk⟩
  refine (balance_reads r).applyAll_other fun e' he' hk' => ?_
  exact h.locked.apart hj hji he (hes e' he') (hk.trans hk'.symm)

/-- A job that runs in no transaction is a recomputation. -/
theorem exists_recomputeBalance {job : Job} (h : ¬ site.inTransaction job = true) :
    ∃ id, job = .recomputeBalance id := by
  cases job with
  | recomputeBalance id => exact ⟨id, rfl⟩
  | _ => exact absurd rfl h

section Steps

variable {w : Connections ι} {i : ι} {s : Session Statement Failure Effect Job Statement.Reply}

/-- A transaction has sent a statement: its effects are in its log. -/
theorem Sound.executed_transaction (h : Sound r w) (hi : w.session i = some s)
    (htx : site.inTransaction s.job = true) {q : Statement} {next : q.Reply → Client Unit}
    {es : List Effect} {reply : q.Reply} (hq : s.rest = .query q next)
    (hx : exec q (Site.view site w s) = .ok (es, reply))
    (hfree : ∀ k ∈ es.map site.key, w.Free i k) :
    Sound r (Site.executed site w i s es (next reply)) := by
  have hlocked := h.locked.executed hi hfree (next reply)
  unfold Site.executed at hlocked ⊢
  rw [if_pos htx] at hlocked ⊢
  refine ⟨hlocked, h.committed, fun j t hj ht => ?_, fun j t id hj hjob => ?_⟩
  · rw [Site.session_put] at hj
    split_ifs at hj
    · cases hj
      obtain ⟨pending, hsettles, hview⟩ := h.transaction i s hi htx
      rw [hq] at hsettles
      obtain ⟨pending', hpending', hrest⟩ := hsettles reply
      refine ⟨pending', hrest, fun hp => ?_⟩
      subst hp
      obtain ⟨hp, hes, hkeeps⟩ := exec_settled hx hpending'
      obtain ⟨hlog, hcons⟩ := hview hp
      refine ⟨fun ev hev => ?_, ?_⟩
      · exact (List.mem_append.mp hev).elim (hlog ev) (hes ev)
      · show Consistent r (postgres.applyAll w.committed (s.log ++ es))
        rw [Server.applyAll_append]
        exact hkeeps hcons
    · exact h.transaction j t hj ht
  · rw [Site.session_put] at hj
    split_ifs at hj
    · cases hj
      rw [hjob] at htx
      cases htx
    · exact h.recompute j t id hj hjob

/-- A recomputation has sent a statement: its effects are published. -/
theorem Sound.executed_recompute (h : Sound r w) (hi : w.session i = some s)
    {id : String} (hid : s.job = .recomputeBalance id) {q : Statement}
    {next : q.Reply → Client Unit} {es : List Effect} {reply : q.Reply}
    (hq : s.rest = .query q next)
    (hx : exec q (Site.view site w s) = .ok (es, reply))
    (hfree : ∀ k ∈ es.map site.key, w.Free i k) :
    Sound r (Site.executed site w i s es (next reply)) := by
  have hlocked := h.locked.executed hi hfree (next reply)
  have htx : ¬ site.inTransaction s.job = true := by rw [hid]; exact Bool.false_ne_true
  have hlog := h.locked.auto i s hi (by rw [hid]; rfl)
  have hphase := h.recompute i s id hi hid
  rw [hq] at hphase
  unfold Site.view at hx
  rw [hlog] at hx
  obtain ⟨hc, hleaves, hnext⟩ := hphase.exec h.committed hx
  unfold Site.executed at hlocked ⊢
  rw [if_neg htx] at hlocked ⊢
  refine ⟨hlocked, hc, fun j t hj ht => ?_, fun j t id' hj hjob => ?_⟩
  · rw [Site.session_put] at hj
    split_ifs at hj with hji
    · cases hj
      exact absurd ht htx
    · exact h.transaction_published hj hji ht (fun e he => hfree _ (List.mem_map_of_mem he)) hc
  · rw [Site.session_put] at hj
    split_ifs at hj with hji
    · cases hj
      rw [hid] at hjob
      cases hjob
      exact hnext
    · exact (h.recompute j t id' hj hjob).mono hleaves.claims fun _ _ => hleaves.deposit

/-- A session publishes its log, undisturbed. -/
theorem Sound.commits (h : Sound r w) (hi : w.session i = some s) {u : Unit}
    (hd : s.rest = .done u) (hu : Undisturbed r w (.finish i)) :
    Sound r ({ w with committed := Site.view site w s }.close i) := by
  have hlocked : Site.Locked site (World.close { w with committed := Site.view site w s } i) := by
    have hclose := h.locked.close i
    exact ⟨hclose.held, hclose.auto⟩
  have hapart := hu s u hi hd
  have hview : InsertsNoClaim s.log ∧ Consistent r (Site.view site w s) := by
    by_cases htx : site.inTransaction s.job = true
    · obtain ⟨pending, hsettles, hview⟩ := h.transaction i s hi htx
      rw [hd] at hsettles
      exact hview hsettles
    · unfold Site.view
      rw [h.locked.auto i s hi (by simpa using htx)]
      exact ⟨by simp [InsertsNoClaim], h.committed⟩
  obtain ⟨hlog, hc⟩ := hview
  refine ⟨hlocked, hc, fun j t hj ht => ?_, fun j t id hj hjob => ?_⟩
  · rw [Site.session_close] at hj
    split_ifs at hj with hji
    exact h.transaction_published hj hji ht (fun e he => Or.inr (h.locked.held i s hi e he)) hc
  · rw [Site.session_close] at hj
    split_ifs at hj with hji
    refine (h.recompute j t id hj hjob).mono (claims_applyAll hlog _) fun hid hread b hb => ?_
    subst hid
    obtain ⟨claimedTotal, totalDeposit, hrest⟩ := hread
    obtain ⟨b', hb'⟩ := Option.ne_none_iff_exists'.mp
      (row_applyAll s.log (r := id) (by rw [hb]; exact Option.some_ne_none b))
    exact ⟨b', hb', hapart ⟨j, t, claimedTotal, totalDeposit, hj, hjob, hrest⟩ b b' hb hb'⟩

theorem Sound.step (h : Sound r w) {a : Action ι Job} (hu : Undisturbed r w a) :
    Sound r (site.step w a) := by
  have hm := Site.moves_step site w a
  have hlocked := h.locked.step hm
  generalize hw : site.step w a = w' at hm hlocked
  cases hm with
  | stays a => exact h
  | starts i j hi =>
    refine ⟨hlocked, h.committed, fun k t hk ht => ?_, fun k t id hk hjob => ?_⟩
    · rw [Site.session_put] at hk
      split_ifs at hk
      · cases hk
        exact ⟨false, settles_program ht, fun _ => ⟨by simp [InsertsNoClaim], h.committed⟩⟩
      · exact h.transaction k t hk ht
    · rw [Site.session_put] at hk
      split_ifs at hk
      · cases hk
        cases hjob
        exact .started
      · exact h.recompute k t id hk hjob
  | closes a i =>
    refine ⟨hlocked, h.committed, fun k t hk ht => ?_, fun k t id hk hjob => ?_⟩
    · rw [Site.session_close] at hk
      split_ifs at hk
      exact h.transaction k t hk ht
    · rw [Site.session_close] at hk
      split_ifs at hk
      exact h.recompute k t id hk hjob
  | executes i s q next es reply hi hq hx hfree =>
    by_cases htx : site.inTransaction s.job = true
    · exact h.executed_transaction hi htx hq hx hfree
    · obtain ⟨id, hid⟩ := exists_recomputeBalance htx
      exact h.executed_recompute hi hid hq hx hfree
  | commits i s u hi hd => exact h.commits hi hd hu

end Steps

variable (r) in
/-- The balance row of a recipient stays consistent in every interleaving of recomputations, batches
and the other jobs, if no commit that changes the deposit of the row falls between a recomputation's
read of the deposit and its write. -/
theorem recomputeBalance_consistent {db : Db} (h : Consistent r db) (actions : List (Action ι Job))
    (hu : AllSteps site.step (Undisturbed r) (World.idle db : Connections ι) actions) :
    AllStates site.step (fun w => Consistent r w.committed) (World.idle db : Connections ι)
      actions :=
  (allStates_of_inv (fun _ _ hs hu => hs.step hu) (sound_idle h) hu).imp fun _ hs => hs.committed

/-- A stream with its balance row. -/
def created : Db :=
  upsertBatch (Db.fresh fun _ => none)
    [⟨.streamCreated, "CRECIPIENT", "GSPONSOR", "CTOKEN", some 1000, 10, "a1"⟩]

/-- The next stream of the recipient. -/
def creation : Job :=
  .upsertStreamEvents [⟨.streamCreated, "CRECIPIENT", "GSPONSOR", "CTOKEN", some 50, 20, "a2"⟩]

/-- A recomputation (`false`) writes the row before the creation (`true`) is committed. -/
def writtenFirst : List (Action Bool Job) :=
  [.start false (.recomputeBalance "CRECIPIENT"), .send false, .start true creation, .send true,
    .send false, .send false, .send true, .finish true, .send false, .finish false]

theorem recomputeBalance_consistent_writtenFirst :
    AllStates site.step (fun w => Consistent "CRECIPIENT" w.committed)
      (World.idle created : Connections Bool) writtenFirst := by
  refine recomputeBalance_consistent "CRECIPIENT" (by decide) writtenFirst
    ⟨trivial, trivial, trivial, trivial, trivial, trivial, trivial, ?_, trivial, ?_, trivial⟩
  · rintro s u hi hd ⟨i, t, c, d, hi, hjob, hrest⟩
    cases i
    · cases hi
      cases hrest
    · cases hi
      cases hjob
  · intro s u hi hd _ b b' hb hb'
    cases hi
    cases hb
    cases hb'
    rfl

/-- A creation is committed between the read of the deposit and the write. -/
def committedBetween : List (Action Bool Job) :=
  [.start false (.recomputeBalance "CRECIPIENT"), .send false, .send false, .start true creation,
    .send true, .send true, .finish true, .send false, .send false, .finish false]

/-- The row is left with the new deposit, and with what remained of the old one. -/
theorem committedBetween_inconsistent :
    Consistent "CRECIPIENT" created ∧
      (∀ i, (run site.step (World.idle created : Connections Bool) committedBetween).session i =
        none) ∧
      (committedAfter created committedBetween).streamBalances "CRECIPIENT" =
        some ⟨50, 0, 1000⟩ ∧
      ¬ Consistent "CRECIPIENT" (committedAfter created committedBetween) := by
  refine ⟨by decide, fun i => by cases i <;> rfl, by decide, by decide⟩

end VestingDripStream.Backend.Recompute
