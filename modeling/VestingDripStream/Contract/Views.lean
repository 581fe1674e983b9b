import VestingDripStream.Contract.ClaimAll
import VestingDripStream.Lib.Run

/-! # What the views say over the life of a stream

Clients watch a stream through `get_stream_version`, to notice that what they cached is stale, and
through `is_cliff_passed`, whose positive answer they keep. Here a stream lives through a run of
`claim_vested`, `pause_stream` and `resume_stream`, by either pair of definitions.

* `change_ok` and `unchanged` say what an operation makes of a stream: `Operation.apply`, or
  nothing.
* The version counts the operations exactly while they are pauses and resumptions of the first
  definitions: a claim counts twice, the second definitions do not count (`versionLaw_iff`).
* Both views read the legacy key, which every change of the stream clears. -/

namespace VestingDripStream.Contract.Views

open VestingDripStream.Lib.Checked VestingDripStream.Lib.Transaction VestingDripStream.Lib.Run
open VestingDripStream.Contract.Types VestingDripStream.Contract.Storage
open VestingDripStream.Contract.Schedule VestingDripStream.Contract.EntryPoints
open VestingDripStream.Contract.Effects VestingDripStream.Contract.Stream
open VestingDripStream.Contract.ClaimAll

/-! ### The views -/

/-- `get_stream_version`. -/
def getStreamVersion (st : Storage) (recipient : Address) : UInt32 :=
  ((getScheduleReadonly st recipient).map (·.version)).getD 0

/-- `is_cliff_passed`, at the ledger `current`. -/
def isCliffPassed (st : Storage) (recipient : Address) (current : UInt32) : Bool :=
  match getScheduleReadonly st recipient with
  | none => false
  | some s => decide (s.cliffLedger ≤ current)

/-! ### Operations -/

/-- `contract.rs` defines `pause_stream` and `resume_stream` twice. -/
inductive Definition
  | first
  | second
  deriving DecidableEq, Repr

/-- `pause_stream` on a schedule, by either definition. -/
def pauseBy : Definition → VestingSchedule → Address → UInt32 → Except Failure VestingSchedule
  | .first => pauseSchedule
  | .second => pauseScheduleSecond

/-- `resume_stream` on a schedule, by either definition. -/
def resumeBy : Definition → VestingSchedule → Address → UInt32 → Except Failure VestingSchedule
  | .first => resumeSchedule
  | .second => resumeScheduleSecond

/-- The operations a stream lives through. -/
inductive Operation
  | claim (recipient : Address) (streamId : Option UInt32)
  | pause (which : Definition) (sponsor recipient : Address)
  | resume (which : Definition) (sponsor recipient : Address)

/-- The call, with its result dropped. -/
def Operation.exec (D : Deployment) (host : Host) : Operation → Call Unit
  | .claim recipient streamId => do
    let _ ← claimVested D host recipient streamId
    pure ()
  | .pause which sponsor recipient => pauseStreamWith (pauseBy which) D host sponsor recipient
  | .resume which sponsor recipient => resumeStreamWith (resumeBy which) D host sponsor recipient

/-- An operation and what the network supplies for it. -/
structure Act where
  host : Host
  op : Operation

/-- The ledger of an operation. -/
def Act.ledger (a : Act) : UInt32 := a.host.sequence

/-- One operation: rolled back if it fails. -/
def operate (D : Deployment) (env : Env) (a : Act) : Env := commit (a.op.exec D a.host) env

/-- The ids `claim_vested` walks over. -/
def claimedIds (st : Storage) (r : Address) : Option UInt32 → List UInt32
  | some k => [k]
  | none => getStreamIds st r

/-- The operation is about the stream `(r, k)`; a claim is so if it does not skip the stream. -/
def Operation.Concerns (r : Address) (k : UInt32) (env : Env) (host : Host) : Operation → Prop
  | .claim r' streamId =>
    r' = r ∧ k ∈ claimedIds env.persistent r streamId ∧ dueAt host env r k ≠ 0
  | .pause _ _ r' => r' = r ∧ k = 0
  | .resume _ _ r' => r' = r ∧ k = 0

instance (r : Address) (k : UInt32) (env : Env) (host : Host) (op : Operation) :
    Decidable (op.Concerns r k env host) := by
  cases op <;> unfold Operation.Concerns <;> infer_instance

/-- **A successful state-changing operation** on the stream `(r, k)`. -/
def Act.Changes (D : Deployment) (r : Address) (k : UInt32) (env : Env) (a : Act) : Prop :=
  (a.op.exec D a.host env).isOk = true ∧ a.op.Concerns r k env a.host

instance (D : Deployment) (r : Address) (k : UInt32) (env : Env) (a : Act) :
    Decidable (a.Changes D r k env) := by
  unfold Act.Changes; infer_instance

/-- What an operation makes of a schedule: `none` if the stream ends with it. -/
def Operation.apply (current feeBps : UInt32) (s : VestingSchedule) :
    Operation → Except Failure (Option VestingSchedule)
  | .claim _ _ => do
    let rc ← claimSchedule s current feeBps
    .ok (if rc.finished = true then none else some rc.schedule)
  | .pause which sponsor _ => do
    let s ← pauseBy which s sponsor current
    .ok (some s)
  | .resume which sponsor _ => do
    let s ← resumeBy which s sponsor current
    .ok (some s)

/-- A legacy record of `r` is the stream of `r` with id `0`. -/
def LegacyIsZero (st : Storage) (r : Address) : Prop :=
  ∀ s, legacy st r = some s → scheduleAt st r 0 = some s

/-! ### Claims and one stream

The loop of `claim_vested` meets an id once, so it pays the stream as it was before the claim. -/

section Claim

variable {D : Deployment} {host : Host} {r : Address} {k : UInt32}

theorem legacy_afterClaim (st : Storage) (rc : ClaimReceipt) (r' : Address) :
    legacy (afterClaim st r k rc) r' = if r' = r ∧ k = 0 then none else legacy st r' := by
  unfold afterClaim
  by_cases hdone : rc.finished = true
  · rw [if_pos hdone, legacy_removeScheduleById]
  · rw [if_neg hdone, legacy_setScheduleById]

theorem scheduleAt_afterClaim (st : Storage) (rc : ClaimReceipt) :
    scheduleAt (afterClaim st r k rc) r k =
      if rc.finished = true then none else some rc.schedule := by
  unfold afterClaim
  split_ifs
  · rw [scheduleAt_removeScheduleById, if_pos ⟨rfl, rfl⟩]
  · rw [scheduleAt_setScheduleById, if_pos ⟨rfl, rfl⟩]

/-- What is kept of the stream `(r, k)` and of what a claim on it reads. -/
structure StreamKept (r : Address) (k : UInt32) (env env' : Env) : Prop where
  stream : scheduleAt env'.persistent r k = scheduleAt env.persistent r k
  legacy : k = 0 → legacy env'.persistent r = legacy env.persistent r
  inst : env'.inst = env.inst

theorem StreamKept.refl (r : Address) (k : UInt32) (env : Env) : StreamKept r k env env :=
  ⟨rfl, fun _ => rfl, rfl⟩

theorem StreamKept.trans {env env' env'' : Env} (h : StreamKept r k env env')
    (h' : StreamKept r k env' env'') : StreamKept r k env env'' where
  stream := h'.stream.trans h.stream
  legacy h0 := (h'.legacy h0).trans (h.legacy h0)
  inst := h'.inst.trans h.inst

theorem StreamKept.dueAt_eq {env env' : Env} (h : StreamKept r k env env') :
    dueAt host env' r k = dueAt host env r k := by
  unfold dueAt
  rw [h.stream, h.inst]

/-- The claim pays the stream `(r, k)`. -/
structure StreamClaimed (host : Host) (r : Address) (k : UInt32) (env env' : Env) : Prop where
  paid : ∃ s rc, scheduleAt env.persistent r k = some s ∧
    claimSchedule s host.sequence (getFee env.inst).1 = .ok rc ∧
    scheduleAt env'.persistent r k = if rc.finished = true then none else some rc.schedule
  legacy : k = 0 → legacy env'.persistent r = none

/-- A turn for another stream keeps this one, and a turn that claims nothing keeps all. -/
theorem streamKept_of_claimStream (hD : D.ReadsById) {specific : Bool} {r' : Address} {k' : UInt32}
    {x : ℤ} {env env' : Env} (h : claimStream D host r' specific k' env = .ok (x, env'))
    (hkept : ¬ (r = r' ∧ k = k') ∨ x = 0) : StreamKept r k env env' := by
  rcases claimStream_ok hD h with ⟨-, rfl⟩ | ⟨s, rc, hpaid, rfl⟩
  · exact StreamKept.refl r k env'
  · have hgross := (claimSchedule_ok hpaid.receipt).2.2.1
    have hne := hkept.resolve_right hgross
    refine ⟨?_, fun h0 => ?_, hpaid.inst⟩
    · rw [hpaid.persistent]
      exact scheduleAt_afterClaim_of_ne _ rc hne
    · rw [hpaid.persistent, legacy_afterClaim, if_neg]
      rintro ⟨hr, h0'⟩
      exact hne ⟨hr, h0.trans h0'.symm⟩

/-- **The loop and one stream**: it is paid if its id is walked over and something is due. -/
theorem claimLoop_at (hD : D.ReadsById) {specific : Bool} :
    ∀ {ids : List UInt32} {acc total : ℤ} {env env' : Env}, ids.Nodup →
      claimLoop D host r specific ids acc env = .ok (total, env') →
      (k ∈ ids ∧ dueAt host env r k ≠ 0 → StreamClaimed host r k env env') ∧
      (¬ (k ∈ ids ∧ dueAt host env r k ≠ 0) → StreamKept r k env env')
  | [], acc, total, env, env', _, h => by
    unfold claimLoop at h
    obtain ⟨rfl, rfl⟩ := pure_ok.mp h
    exact ⟨fun h => absurd h.1 (by simp), fun _ => StreamKept.refl r k _⟩
  | k' :: ids, acc, total, env, env', hnd, h => by
    unfold claimLoop at h
    obtain ⟨x, e1, hturn, h⟩ := bind_ok.mp h
    simp only [compute_bind_ok, orOverflow_ok, checked_eq_some] at h
    obtain ⟨acc', ⟨-, rfl⟩, hloop⟩ := h
    obtain ⟨hfresh, hnd⟩ := List.nodup_cons.mp hnd
    obtain ⟨hpaid, hkept⟩ := claimLoop_at hD hnd hloop
    have hx := claimStream_eq_dueAt hD hturn
    by_cases hk : k = k'
    · subst hk
      -- the turn of this stream: the rest of the loop leaves it alone
      have hrest := hkept fun h => hfresh h.1
      constructor
      · rintro ⟨-, hdue⟩
        rcases claimStream_ok hD hturn with ⟨h0, -⟩ | ⟨s, rc, hp, -⟩
        · exact absurd (hx.symm.trans h0) hdue
        · refine ⟨⟨s, rc, hp.live, hp.receipt, ?_⟩, fun h0 => ?_⟩
          · rw [hrest.stream, hp.persistent, scheduleAt_afterClaim]
          · rw [hrest.legacy h0, hp.persistent, legacy_afterClaim, if_pos ⟨rfl, h0⟩]
      · intro hno
        have h0 : x = 0 := by
          by_contra hne
          exact hno ⟨List.mem_cons_self, hx ▸ hne⟩
        exact (streamKept_of_claimStream hD hturn (Or.inr h0)).trans hrest
    · have hsame := streamKept_of_claimStream (r := r) (k := k) hD hturn (Or.inl fun h => hk h.2)
      rw [hsame.dueAt_eq] at hpaid hkept
      rw [List.mem_cons, or_iff_right hk]
      refine ⟨fun h => ?_, fun h => hsame.trans (hkept h)⟩
      obtain ⟨⟨s, rc, hs, hrc, hafter⟩, hleg⟩ := hpaid h
      rw [hsame.stream] at hs
      rw [hsame.inst] at hrc
      exact ⟨⟨s, rc, hs, hrc, hafter⟩, hleg⟩

/-- A claim of someone else. -/
theorem streamKept_of_claim (hD : D.ReadsById) {r' : Address} (hr : r ≠ r')
    {streamId : Option UInt32} {x : ℤ} {env env' : Env}
    (h : claimVested D host r' streamId env = .ok (x, env')) : StreamKept r k env env' := by
  refine (claimVested_induct (P := fun _ e => StreamKept r k env e) h
    (fun k' _ acc e x e1 he hx => ?_) (StreamKept.refl r k env)).1
  exact he.trans (streamKept_of_claimStream hD hx (Or.inl fun heq => hr heq.1))

theorem claimVested_at (hD : D.ReadsById) {streamId : Option UInt32} {x : ℤ} {env env' : Env}
    (h : claimVested D host r streamId env = .ok (x, env')) :
    (k ∈ claimedIds env.persistent r streamId ∧ dueAt host env r k ≠ 0 →
      StreamClaimed host r k env env') ∧
    (¬ (k ∈ claimedIds env.persistent r streamId ∧ dueAt host env r k ≠ 0) →
      StreamKept r k env env') := by
  simp only [claimVested, requireAuth_bind_ok, asks_bind_ok, require_bind_ok] at h
  obtain ⟨-, -, h⟩ := h
  obtain ⟨total, e1, hloop, h⟩ := bind_ok.mp h
  rw [require_bind_ok, pure_ok] at h
  obtain ⟨-, -, rfl⟩ := h
  cases streamId with
  | none => exact claimLoop_at hD (nodup_getStreamIds _ _) hloop
  | some k' => exact claimLoop_at hD (List.nodup_singleton k') hloop

end Claim

/-! ### One operation and one stream -/

section Operate

variable {D : Deployment} {r : Address} {k : UInt32} {env env' : Env} {a : Act}

theorem scheduleAt_getSchedule {st : Storage} {r' : Address} (h : ¬ (r = r' ∧ k = 0)) :
    scheduleAt (getSchedule st r').2 r k = scheduleAt st r k := by
  rcases getSchedule_storage st r' with heq | ⟨s, heq, -⟩
  · rw [heq]
  · rw [heq, setSchedule, scheduleAt_setScheduleById, if_neg h]

theorem legacy_getSchedule {st : Storage} {r' : Address} (h : r ≠ r') :
    legacy (getSchedule st r').2 r = legacy st r := by
  rcases getSchedule_storage st r' with heq | ⟨s, heq, -⟩
  · rw [heq]
  · rw [heq, setSchedule, legacy_setScheduleById, if_neg fun heq => h heq.1]

/-- A pause or a resumption touches one stream. -/
theorem streamKept_of_rewritten {r' : Address} {s s' : VestingSchedule}
    (h : Rewritten r' env env' s s') (hne : ¬ (r' = r ∧ k = 0)) : StreamKept r k env env' := by
  have hne' : ¬ (r = r' ∧ k = 0) := fun heq => hne ⟨heq.1.symm, heq.2⟩
  refine ⟨?_, fun h0 => ?_, h.inst⟩
  · rw [h.persistent, setSchedule, scheduleAt_setScheduleById, if_neg hne',
      scheduleAt_getSchedule hne']
  · have hr : r ≠ r' := fun heq => hne ⟨heq.symm, h0⟩
    rw [h.persistent, setSchedule, legacy_setScheduleById, if_neg fun heq => hr heq.1,
      legacy_getSchedule hr]

/-- What a successful pause or resumption makes of the stream with id `0`. -/
theorem rewritten_zero {s s' : VestingSchedule} (hz : LegacyIsZero env.persistent r)
    (h : Rewritten r env env' s s') :
    ∃ s0, scheduleAt env.persistent r 0 = some s0 ∧ s = { s0 with schemaVersion := s.schemaVersion } ∧
      scheduleAt env'.persistent r 0 = some s' ∧ legacy env'.persistent r = none := by
  obtain ⟨s0, hl, heq⟩ := getSchedule_some h.found
  refine ⟨s0, hz s0 hl, heq, ?_, ?_⟩
  · rw [h.persistent, setSchedule, scheduleAt_setScheduleById, if_pos ⟨rfl, rfl⟩]
  · rw [h.persistent, setSchedule, legacy_setScheduleById, if_pos ⟨rfl, rfl⟩]

/-- **An operation that does not change the stream** leaves it as it is: it fails, or it is about
other streams, or it is a claim that skips this one. -/
theorem unchanged (hD : D.ReadsById) (h : ¬ a.Changes D r k env) :
    StreamKept r k env (operate D env a) := by
  unfold operate
  by_cases hok : (a.op.exec D a.host env).isOk = true
  · have hc : ¬ a.op.Concerns r k env a.host := fun hc => h ⟨hok, hc⟩
    obtain ⟨⟨u, env'⟩, hok⟩ := exists_ok_of_isOk hok
    rw [commit_of_ok hok]
    cases hop : a.op with
    | claim r' streamId =>
      rw [hop] at hok hc
      obtain ⟨x, e1, hclaim, hend⟩ := bind_ok.mp hok
      obtain ⟨-, rfl⟩ := pure_ok.mp hend
      by_cases hr : r' = r
      · subst hr
        exact (claimVested_at hD hclaim).2 fun hk => hc ⟨rfl, hk⟩
      · exact streamKept_of_claim hD (Ne.symm hr) hclaim
    | pause which sponsor r' =>
      rw [hop] at hok hc
      obtain ⟨s, s', -, hw⟩ := pauseStreamWith_ok hok
      exact streamKept_of_rewritten hw hc
    | resume which sponsor r' =>
      rw [hop] at hok hc
      obtain ⟨s, s', -, hw⟩ := resumeStreamWith_ok hok
      exact streamKept_of_rewritten hw hc
  · rw [commit_of_not_isOk hok]
    exact StreamKept.refl r k env

/-- **An operation that changes the stream** applies to the schedule, with its schema version
brought up to date, and leaves no legacy record. -/
theorem change_ok (hD : D.ReadsById) (hz : LegacyIsZero env.persistent r)
    (h : a.Changes D r k env) :
    ∃ s v o, scheduleAt env.persistent r k = some s ∧
      a.op.apply a.ledger (getFee env.inst).1 { s with schemaVersion := v } = .ok o ∧
      scheduleAt (operate D env a).persistent r k = o ∧
      (k = 0 → legacy (operate D env a).persistent r = none) := by
  obtain ⟨hok, hc⟩ := h
  obtain ⟨⟨u, env'⟩, hok⟩ := exists_ok_of_isOk hok
  unfold operate
  rw [commit_of_ok hok]
  cases hop : a.op with
  | claim r' streamId =>
    rw [hop] at hok hc
    obtain ⟨x, e1, hclaim, hend⟩ := bind_ok.mp hok
    obtain ⟨-, rfl⟩ := pure_ok.mp hend
    obtain ⟨rfl, hk⟩ := hc
    obtain ⟨⟨s, rc, hs, hrc, hafter⟩, hleg⟩ := (claimVested_at hD hclaim).1 hk
    refine ⟨s, s.schemaVersion, _, hs, ?_, hafter, hleg⟩
    simp only [Operation.apply, except_bind_ok]
    exact ⟨rc, hrc, rfl⟩
  | pause which sponsor r' =>
    rw [hop] at hok hc
    obtain ⟨rfl, rfl⟩ := hc
    obtain ⟨s, s', hs', hw⟩ := pauseStreamWith_ok hok
    obtain ⟨s0, hs0, heq, hafter, hleg⟩ := rewritten_zero hz hw
    refine ⟨s0, s.schemaVersion, some s', hs0, ?_, hafter, fun _ => hleg⟩
    simp only [Operation.apply, except_bind_ok]
    exact ⟨s', heq ▸ hs', rfl⟩
  | resume which sponsor r' =>
    rw [hop] at hok hc
    obtain ⟨rfl, rfl⟩ := hc
    obtain ⟨s, s', hs', hw⟩ := resumeStreamWith_ok hok
    obtain ⟨s0, hs0, heq, hafter, hleg⟩ := rewritten_zero hz hw
    refine ⟨s0, s.schemaVersion, some s', hs0, ?_, hafter, fun _ => hleg⟩
    simp only [Operation.apply, except_bind_ok]
    exact ⟨s', heq ▸ hs', rfl⟩

theorem legacyIsZero_operate (hD : D.ReadsById) (hz : LegacyIsZero env.persistent r) :
    LegacyIsZero (operate D env a).persistent r := by
  intro s hl
  by_cases hch : a.Changes D r 0 env
  · obtain ⟨-, -, -, -, -, -, hnone⟩ := change_ok hD hz hch
    rw [hnone rfl] at hl
    cases hl
  · have hkept := unchanged hD hch
    rw [hkept.legacy rfl] at hl
    rw [hkept.stream]
    exact hz s hl

/-- No operation brings a stream to life. -/
theorem live_of_operate (hD : D.ReadsById) (hz : LegacyIsZero env.persistent r)
    (h : (scheduleAt (operate D env a).persistent r k).isSome = true) :
    (scheduleAt env.persistent r k).isSome = true := by
  by_cases hch : a.Changes D r k env
  · obtain ⟨s, -, -, hs, -⟩ := change_ok hD hz hch
    rw [hs]
    rfl
  · rwa [(unchanged hD hch).stream] at h

end Operate

/-! ### What an operation makes of a schedule -/

/-- A claim at `current` pays the stream off: it has ended, or what has accrued covers the total. -/
def PaysOff (s : VestingSchedule) (current : UInt32) : Prop :=
  s.endLedger.toNat ≤ current.toNat ∨
    s.total ≤ s.claimedAmount +
      s.ratePerLedger * ((current.toNat : ℤ) - s.lastClaimedLedger.toNat)

instance (s : VestingSchedule) (current : UInt32) : Decidable (PaysOff s current) := by
  unfold PaysOff; infer_instance

/-- The stream ends with the operation. -/
def Operation.Ends (s : VestingSchedule) (current : UInt32) : Operation → Prop
  | .claim _ _ => PaysOff s current
  | .pause _ _ _ => False
  | .resume _ _ _ => False

/-- The version the operation leaves, if any, is one more than before. -/
def Operation.CountsOnce (s : VestingSchedule) (current : UInt32) : Operation → Prop
  | .claim _ _ => PaysOff s current
  | .pause which _ _ => which = .first
  | .resume which _ _ => which = .first

/-- The operation resumes a stream that was paused before its cliff and whose cliff ledger has
passed since. -/
def Operation.ResumesEarly (s : VestingSchedule) (current : UInt32) : Operation → Prop
  | .resume _ _ _ => ∃ p, s.pausedAtLedger = some p ∧ p.toNat < s.cliffLedger.toNat ∧
      s.cliffLedger.toNat ≤ current.toNat ∧ current ≠ u32Max
  | .claim _ _ => False
  | .pause _ _ _ => False

section Schema

variable (s : VestingSchedule) (v current : UInt32) (op : Operation)

/-! None of this depends on the schema version. -/

theorem ends_schema : op.Ends { s with schemaVersion := v } current ↔ op.Ends s current := by
  cases op <;> rfl

theorem countsOnce_schema :
    op.CountsOnce { s with schemaVersion := v } current ↔ op.CountsOnce s current := by
  cases op <;> rfl

theorem resumesEarly_schema :
    op.ResumesEarly { s with schemaVersion := v } current ↔ op.ResumesEarly s current := by
  cases op <;> rfl

end Schema

section Apply

variable {s : VestingSchedule} {current feeBps : UInt32} {op : Operation}
  {o : Option VestingSchedule}

theorem cliff_le_of_resumesEarly (h : op.ResumesEarly s current) :
    s.cliffLedger.toNat ≤ current.toNat := by
  cases op with
  | claim r k => exact h.elim
  | pause which sponsor r => exact h.elim
  | resume which sponsor r =>
    obtain ⟨p, -, -, hle, -⟩ := h
    exact hle

theorem not_ends_of_resumesEarly (h : op.ResumesEarly s current) : ¬ op.Ends s current := by
  cases op with
  | claim r k => exact h.elim
  | pause which sponsor r => exact h.elim
  | resume which sponsor r => exact fun hends => hends

theorem finished_iff_paysOff {rc : ClaimReceipt} (h : claimSchedule s current feeBps = .ok rc) :
    rc.finished = true ↔ PaysOff s current := by
  obtain ⟨-, -, -, -, -, hdue, -, -, hfin⟩ := claimSchedule_ok h
  obtain ⟨-, -, -, -, hend | ⟨hlt, -, hgross⟩⟩ := dueAmount_ok hdue
  · refine ⟨fun _ => Or.inl hend.1, fun _ => hfin.mpr ?_⟩
    rw [hend.2]
    omega
  · rw [hfin, hgross]
    refine ⟨Or.inr, ?_⟩
    rintro (hend | hpaid)
    · omega
    · exact hpaid

/-- What the three operations leave. -/
theorem apply_ok (h : op.apply current feeBps s = .ok o) :
    (∃ r k rc, op = .claim r k ∧ claimSchedule s current feeBps = .ok rc ∧
      o = if rc.finished = true then none else some rc.schedule) ∨
    (∃ which sponsor r s', op = .pause which sponsor r ∧ pauseBy which s sponsor current = .ok s' ∧
      o = some s') ∨
    ∃ which sponsor r s', op = .resume which sponsor r ∧ resumeBy which s sponsor current = .ok s' ∧
      o = some s' := by
  cases op with
  | claim r k =>
    simp only [Operation.apply, except_bind_ok, Except.ok.injEq] at h
    obtain ⟨rc, hrc, rfl⟩ := h
    exact Or.inl ⟨r, k, rc, rfl, hrc, rfl⟩
  | pause which sponsor r =>
    simp only [Operation.apply, except_bind_ok, Except.ok.injEq] at h
    obtain ⟨s', hs', rfl⟩ := h
    exact Or.inr (Or.inl ⟨which, sponsor, r, s', rfl, hs', rfl⟩)
  | resume which sponsor r =>
    simp only [Operation.apply, except_bind_ok, Except.ok.injEq] at h
    obtain ⟨s', hs', rfl⟩ := h
    exact Or.inr (Or.inr ⟨which, sponsor, r, s', rfl, hs', rfl⟩)

theorem apply_none (h : op.apply current feeBps s = .ok o) : o = none ↔ op.Ends s current := by
  rcases apply_ok h with ⟨r, k, rc, rfl, hrc, rfl⟩ | ⟨which, sponsor, r, s', rfl, -, rfl⟩ |
    ⟨which, sponsor, r, s', rfl, -, rfl⟩
  · rw [Operation.Ends, ← finished_iff_paysOff hrc]
    simp
  · simp [Operation.Ends]
  · simp [Operation.Ends]

/-- **Versions**: a pause or a resumption of the first definitions counts once, one of the second
does not count, a claim counts twice. -/
theorem apply_version (h : op.apply current feeBps s = .ok o) :
    (∀ s', o = some s' → s'.version.toNat = s.version.toNat + 1) ↔ op.CountsOnce s current := by
  rcases apply_ok h with ⟨r, k, rc, rfl, hrc, rfl⟩ | ⟨which, sponsor, r, s', rfl, hs', rfl⟩ |
    ⟨which, sponsor, r, s', rfl, hs', rfl⟩
  · have hversion := (claimSchedule_ok hrc).2.2.2.2.2.2.1
    rw [Operation.CountsOnce, ← finished_iff_paysOff hrc]
    by_cases hdone : rc.finished = true
    · simp [hdone]
    · simp only [if_neg hdone, Option.some.injEq, forall_eq', hversion]
      refine ⟨fun h => ?_, fun h => absurd h hdone⟩
      omega
  · simp only [Option.some.injEq, forall_eq', Operation.CountsOnce]
    cases which with
    | first => exact ⟨fun _ => rfl, fun _ => (pauseSchedule_ok hs').2.2.1⟩
    | second =>
      have hversion : s'.version = s.version := by rw [(pauseScheduleSecond_ok hs').2.2]
      refine ⟨fun h => ?_, fun h => by cases h⟩
      rw [hversion] at h
      omega
  · simp only [Option.some.injEq, forall_eq', Operation.CountsOnce]
    cases which with
    | first =>
      obtain ⟨-, -, -, hversion, -⟩ := resumeSchedule_eq hs'
      exact ⟨fun _ => rfl, fun _ => hversion⟩
    | second =>
      obtain ⟨p, -, -, heq⟩ := resumeScheduleSecond_eq hs'
      have hversion : s'.version = s.version := by rw [heq]
      refine ⟨fun h => ?_, fun h => by cases h⟩
      rw [hversion] at h
      omega

/-- Where a resumption puts the cliff. -/
theorem cliff_of_resumeBy {which : Definition} {sponsor : Address} {s' : VestingSchedule}
    (h : resumeBy which s sponsor current = .ok s') :
    ∃ p, s.pausedAtLedger = some p ∧
      s'.cliffLedger = saturatingAdd s.cliffLedger (saturatingSub current p) := by
  cases which with
  | first =>
    obtain ⟨p, hp, -, -, heq⟩ := resumeSchedule_eq h
    exact ⟨p, hp, by rw [heq]⟩
  | second =>
    obtain ⟨p, hp, -, heq⟩ := resumeScheduleSecond_eq h
    exact ⟨p, hp, by rw [heq]⟩

theorem cliff_of_pauseBy {which : Definition} {sponsor : Address} {s' : VestingSchedule}
    (h : pauseBy which s sponsor current = .ok s') : s'.cliffLedger = s.cliffLedger := by
  cases which with
  | first =>
    obtain ⟨-, -, -, heq⟩ := pauseSchedule_ok h
    rw [heq]
  | second =>
    obtain ⟨-, -, heq⟩ := pauseScheduleSecond_ok h
    rw [heq]

/-- A cliff that has passed is moved ahead of the ledger by a resumption exactly if the stream was
paused before it. -/
theorem saturatingAdd_le_iff {cliff current p : UInt32} (hle : cliff.toNat ≤ current.toNat) :
    (saturatingAdd cliff (saturatingSub current p)).toNat ≤ current.toNat ↔
      ¬ (p.toNat < cliff.toNat ∧ current ≠ u32Max) := by
  have hmax : u32Max.toNat + 1 = UInt32.size := rfl
  have hcur : current.toNat < UInt32.size := UInt32.toNat_lt current
  have htop : current ≠ u32Max ↔ current.toNat ≠ u32Max.toNat := not_congr UInt32.toNat_inj.symm
  rw [toNat_saturatingAdd_eq_min, toNat_saturatingSub, htop]
  omega

/-- **Cliffs**: a cliff that has passed is moved ahead again exactly by resuming a stream that was
paused before it. -/
theorem apply_cliff {s' : VestingSchedule} (h : op.apply current feeBps s = .ok (some s'))
    (hle : s.cliffLedger.toNat ≤ current.toNat) :
    s'.cliffLedger.toNat ≤ current.toNat ↔ ¬ op.ResumesEarly s current := by
  rcases apply_ok h with ⟨r, k, rc, rfl, hrc, ho⟩ | ⟨which, sponsor, r, s1, rfl, hs1, ho⟩ |
    ⟨which, sponsor, r, s1, rfl, hs1, ho⟩
  · split_ifs at ho
    obtain rfl := Option.some.inj ho
    obtain ⟨-, -, -, -, -, -, -, heq, -⟩ := claimSchedule_ok hrc
    rw [heq]
    exact ⟨fun _ h => h, fun _ => hle⟩
  · obtain rfl := Option.some.inj ho
    rw [cliff_of_pauseBy hs1]
    exact ⟨fun _ h => h, fun _ => hle⟩
  · obtain rfl := Option.some.inj ho
    obtain ⟨p, hp, hcliff⟩ := cliff_of_resumeBy hs1
    rw [hcliff, saturatingAdd_le_iff hle, not_iff_not]
    constructor
    · rintro ⟨hlt, hne⟩
      exact ⟨p, hp, hlt, hle, hne⟩
    · rintro ⟨p', hp', hlt, -, hne⟩
      obtain rfl := Option.some.inj (hp.symm.trans hp')
      exact ⟨hlt, hne⟩

end Apply

/-! ### The version counter -/

/-- The environment, with the number of successful changes of the stream so far. -/
structure Counter where
  env : Env
  changes : ℕ

/-- One operation, counted if it changes the stream `(r, k)`. -/
def count (D : Deployment) (r : Address) (k : UInt32) (c : Counter) (a : Act) : Counter where
  env := operate D c.env a
  changes := if a.Changes D r k c.env then c.changes + 1 else c.changes

/-- **The version counter law**: the stored version is one more than the number of changes. -/
def VersionLaw (r : Address) (k : UInt32) (c : Counter) : Prop :=
  ∀ s, scheduleAt c.env.persistent r k = some s → s.version.toNat = 1 + c.changes

instance (r : Address) (k : UInt32) (c : Counter) : Decidable (VersionLaw r k c) :=
  Option.decidableForallMem _

/-- A change of the stream raises what `get_stream_version` returns. -/
def ViewRises (D : Deployment) (r : Address) (k : UInt32) (c : Counter) (a : Act) : Prop :=
  a.Changes D r k c.env → getStreamVersion c.env.persistent r <
    getStreamVersion (operate D c.env a).persistent r

/-- An operation that fails or skips the stream leaves it as it is, version included. -/
def SkipKeeps (D : Deployment) (r : Address) (k : UInt32) (c : Counter) (a : Act) : Prop :=
  ¬ a.Changes D r k c.env →
    scheduleAt (operate D c.env a).persistent r k = scheduleAt c.env.persistent r k

/-- The operation is no change of the stream, or one that counts once. -/
def Counted (D : Deployment) (r : Address) (k : UInt32) (c : Counter) (a : Act) : Prop :=
  a.Changes D r k c.env → ∀ s, scheduleAt c.env.persistent r k = some s →
    a.op.CountsOnce s a.ledger

section Version

variable {D : Deployment} {r : Address} {k : UInt32}

/-- **One operation** keeps the law exactly if it is no change or counts once. -/
theorem versionLaw_step (hD : D.ReadsById) (c : Counter) (a : Act)
    (hz : LegacyIsZero c.env.persistent r) (h : VersionLaw r k c) :
    VersionLaw r k (count D r k c a) ↔ Counted D r k c a := by
  unfold VersionLaw Counted count
  by_cases hch : a.Changes D r k c.env
  · obtain ⟨s, v, o, hs, happly, hafter, -⟩ := change_ok hD hz hch
    have hversion := (apply_version happly).trans (countsOnce_schema s v a.ledger a.op)
    have hlaw := h s hs
    simp only [hch, if_true, hafter, hs, Option.some.injEq, forall_const, forall_eq', ← hversion]
    refine forall_congr' fun s' => imp_congr_right fun _ => ?_
    omega
  · simp only [hch, if_false, (unchanged hD hch).stream, false_imp_iff, iff_true]
    exact h

/-- No operation raises what `get_stream_version` returns: it reads the legacy key, which a change
of the stream clears and everything else leaves alone. -/
theorem getStreamVersion_operate (hD : D.ReadsById) {env : Env} (hz : LegacyIsZero env.persistent r)
    (a : Act) : ¬ getStreamVersion env.persistent r <
      getStreamVersion (operate D env a).persistent r := by
  have hlegacy : legacy (operate D env a).persistent r = none ∨
      legacy (operate D env a).persistent r = legacy env.persistent r := by
    by_cases hch : a.Changes D r 0 env
    · obtain ⟨-, -, -, -, -, -, hnone⟩ := change_ok hD hz hch
      exact Or.inl (hnone rfl)
    · exact Or.inr ((unchanged hD hch).legacy rfl)
  unfold getStreamVersion getScheduleReadonly
  rcases hlegacy with h | h
  · rw [h]
    exact UInt32.not_lt_zero
  · rw [h]
    exact UInt32.lt_irrefl _

/-- **The version counter.** Take a stream with version `1` and any run of operations. The version
counts the changes exactly if every change is a pause or a resumption of the first definitions or a
claim that pays the stream off. Every change raises `get_stream_version` exactly if there is none.
What is no change keeps the version. -/
theorem versionLaw_iff (hD : D.ReadsById) {env : Env} {s : VestingSchedule}
    (hz : LegacyIsZero env.persistent r) (hs : scheduleAt env.persistent r k = some s)
    (hv : s.version = 1) (l : List Act) :
    (AllStates (count D r k) (VersionLaw r k) ⟨env, 0⟩ l ↔
      AllSteps (count D r k) (Counted D r k) ⟨env, 0⟩ l) ∧
    (AllSteps (count D r k) (ViewRises D r k) ⟨env, 0⟩ l ↔
      AllSteps (count D r k) (fun c a => ¬ a.Changes D r k c.env) ⟨env, 0⟩ l) ∧
    AllSteps (count D r k) (SkipKeeps D r k) ⟨env, 0⟩ l := by
  have hinv : ∀ c a, LegacyIsZero c.env.persistent r → True →
      LegacyIsZero (count D r k c a).env.persistent r :=
    fun c a hz _ => legacyIsZero_operate hD hz
  have hlegal : AllSteps (count D r k) (fun _ _ => True) ⟨env, 0⟩ l :=
    allSteps_of_forall fun _ _ => trivial
  have h0 : VersionLaw r k ⟨env, 0⟩ := by
    intro s' hs'
    obtain rfl := Option.some.inj (hs.symm.trans hs')
    rw [hv]
    rfl
  refine ⟨?_, ?_, ?_⟩
  · exact allStates_iff_allSteps hinv (fun c a hz _ h => versionLaw_step hD c a hz h) hz hlegal h0
  · refine allSteps_congr hinv (fun c a hz _ => ?_) hz hlegal
    exact imp_congr_right fun _ => iff_false_intro (getStreamVersion_operate hD hz a)
  · have hkeep : ∀ c a, True → SkipKeeps D r k c a := fun c a _ h => (unchanged hD h).stream
    exact hlegal.imp hkeep

end Version

/-- Recipient `2` has the schedule `s` under the legacy key, and the vault can pay for it. -/
def legacyEnv (s : VestingSchedule) : Env :=
  { sampleEnv with
    persistent := Finmap.insert (.schedule ⟨2⟩) s ∅
    balances := fun _ holder => if holder = ⟨0⟩ then 4000000000 else 0 }

theorem legacyIsZero_legacyEnv (s : VestingSchedule) :
    LegacyIsZero (legacyEnv s).persistent ⟨2⟩ := by
  intro s' hs'
  have hbyId : byId (legacyEnv s).persistent ⟨2⟩ 0 = none := by
    unfold byId legacyEnv
    rw [Finmap.lookup_insert_of_ne _ (by simp)]
    rfl
  unfold scheduleAt
  rw [hbyId]
  exact hs'

/-- A pause of the first definition counts once. -/
theorem versionLaw_iff_sample :
    AllStates (count sampleDeployment ⟨2⟩ 0) (VersionLaw ⟨2⟩ 0) ⟨legacyEnv sampleStream, 0⟩
      [⟨sampleHost 120, .pause .first ⟨1⟩ ⟨2⟩⟩] := by
  obtain ⟨hlaw, -⟩ := versionLaw_iff sampleDeployment_readsById
    (legacyIsZero_legacyEnv sampleStream) (by decide +kernel : scheduleAt _ _ 0 = some sampleStream)
    rfl [⟨sampleHost 120, .pause .first ⟨1⟩ ⟨2⟩⟩]
  exact hlaw.mpr ⟨fun _ _ _ => rfl, trivial⟩

/-- A claim that does not pay the stream off counts twice, and a pause of the second definition does
not count; after either `get_stream_version` returns `0`. -/
theorem versionLaw_claim_false :
    ¬ AllStates (count sampleDeployment ⟨2⟩ 0) (VersionLaw ⟨2⟩ 0) ⟨legacyEnv sampleStream, 0⟩
      [⟨sampleHost 200, .claim ⟨2⟩ none⟩] ∧
    ¬ AllStates (count sampleDeployment ⟨2⟩ 0) (VersionLaw ⟨2⟩ 0) ⟨legacyEnv sampleStream, 0⟩
      [⟨sampleHost 120, .pause .second ⟨1⟩ ⟨2⟩⟩] ∧
    ¬ AllSteps (count sampleDeployment ⟨2⟩ 0) (ViewRises sampleDeployment ⟨2⟩ 0)
      ⟨legacyEnv sampleStream, 0⟩ [⟨sampleHost 200, .claim ⟨2⟩ none⟩] := by
  refine ⟨by decide +kernel, by decide +kernel, ?_⟩
  rintro ⟨hrises, -⟩
  exact absurd (hrises (by decide +kernel)) (by decide +kernel)

/-! ### The cliff -/

/-- The stream `(r, k)` is live. -/
def Live (r : Address) (k : UInt32) (env : Env) : Prop :=
  (scheduleAt env.persistent r k).isSome = true

/-- `is_cliff_passed` answers `true`. -/
def SaysPassed (r : Address) (env : Env) (current : UInt32) : Prop :=
  isCliffPassed env.persistent r current = true

/-- The cliff of the stream `(r, k)` has passed, wherever the stream is stored. -/
def CliffReached (r : Address) (k : UInt32) (env : Env) (current : UInt32) : Prop :=
  ∃ s, scheduleAt env.persistent r k = some s ∧ s.cliffLedger ≤ current

/-- An operation that finds the answer `true` does not change the stream, or the stream ends with
it. -/
def KeepsAnswer (D : Deployment) (r : Address) (env : Env) (a : Act) : Prop :=
  SaysPassed r env a.ledger → a.Changes D r 0 env →
    ∀ s, scheduleAt env.persistent r 0 = some s → a.op.Ends s a.ledger

/-- The operation is not a successful resumption after the cliff of a stream that was paused before
it. -/
def ResumesInTime (D : Deployment) (r : Address) (k : UInt32) (env : Env) (a : Act) : Prop :=
  a.Changes D r k env →
    ∀ s, scheduleAt env.persistent r k = some s → ¬ a.op.ResumesEarly s a.ledger

section Cliff

variable {D : Deployment} {r : Address} {k : UInt32} {env : Env}

theorem saysPassed_iff {current : UInt32} : SaysPassed r env current ↔
    ∃ s, legacy env.persistent r = some s ∧ s.cliffLedger ≤ current := by
  unfold SaysPassed isCliffPassed getScheduleReadonly
  cases legacy env.persistent r with
  | none => simp
  | some s => simp

/-- One operation and the answer of the view. -/
theorem saysPassed_step (hD : D.ReadsById) (a : Act) (hz : LegacyIsZero env.persistent r) :
    (SaysPassed r env a.ledger → Live r 0 (operate D env a) →
      SaysPassed r (operate D env a) a.ledger) ↔ KeepsAnswer D r env a := by
  refine imp_congr_right fun hpassed => ?_
  by_cases hch : a.Changes D r 0 env
  · obtain ⟨s, v, o, hs, happly, hafter, hnone⟩ := change_ok hD hz hch
    -- the legacy record is gone, so the answer is `false`
    have hfalse : ¬ SaysPassed r (operate D env a) a.ledger := by
      rw [saysPassed_iff, hnone rfl]
      rintro ⟨s', hs', -⟩
      cases hs'
    have hends := (apply_none happly).trans (ends_schema s v a.ledger a.op)
    simp only [Live, hafter, hch, hfalse, hs, Option.some.injEq, forall_const, forall_eq', imp_false,
      Bool.not_eq_true, Option.isSome_eq_false_iff, Option.isNone_iff_eq_none, hends]
  · have hkept := unchanged hD hch
    refine ⟨fun _ h => absurd h hch, fun _ _ => ?_⟩
    rw [saysPassed_iff] at hpassed ⊢
    rw [hkept.legacy rfl]
    exact hpassed

/-- One operation and the cliff of the stream. -/
theorem cliffReached_step (hD : D.ReadsById) (a : Act) (hz : LegacyIsZero env.persistent r) :
    (CliffReached r k env a.ledger → Live r k (operate D env a) →
      CliffReached r k (operate D env a) a.ledger) ↔ ResumesInTime D r k env a := by
  by_cases hch : a.Changes D r k env
  · obtain ⟨s, v, o, hs, happly, hafter, -⟩ := change_ok hD hz hch
    unfold CliffReached Live ResumesInTime
    simp only [hs, hafter, hch, Option.some.injEq, exists_eq_left', forall_const, forall_eq',
      UInt32.le_iff_toNat_le]
    cases o with
    | none =>
      have hends := (ends_schema s v a.ledger a.op).mp ((apply_none happly).mp rfl)
      exact ⟨fun _ hearly => not_ends_of_resumesEarly hearly hends, fun _ _ h => by cases h⟩
    | some s' =>
      simp only [Option.isSome_some, Option.some.injEq, exists_eq_left', forall_const]
      constructor
      · intro h hearly
        have hle := cliff_le_of_resumesEarly hearly
        have hearly' := (resumesEarly_schema s v a.ledger a.op).mpr hearly
        exact (apply_cliff happly hle).mp (h hle) hearly'
      · intro h hle
        exact (apply_cliff happly hle).mpr fun he =>
          h ((resumesEarly_schema s v a.ledger a.op).mp he)
  · have hkept := unchanged hD hch
    refine ⟨fun _ h => absurd h hch, fun _ hreached _ => ?_⟩
    unfold CliffReached
    rw [hkept.stream]
    exact hreached

/-- **A passed cliff.** In a run at ledgers that do not go back, a `true` of `is_cliff_passed` stays
`true` while the stream is live exactly if no operation changes the stream while the answer is
`true`, but for the one that ends it. The cliff of the stored stream stays passed exactly if no
stream that was paused before its cliff is resumed after it. -/
theorem cliffStays_iff (hD : D.ReadsById) (hz : LegacyIsZero env.persistent r) {l : List Act}
    (hsorted : l.Pairwise fun a b => a.ledger ≤ b.ledger) :
    (StaysTrue (operate D) Act.ledger (SaysPassed r) (Live r 0) env l ↔
      AllSteps (operate D) (KeepsAnswer D r) env l) ∧
    ∀ k, StaysTrue (operate D) Act.ledger (CliffReached r k) (Live r k) env l ↔
      AllSteps (operate D) (ResumesInTime D r k) env l := by
  have hinv : ∀ env a, LegacyIsZero env.persistent r →
      LegacyIsZero (operate D env a).persistent r := fun env a hz => legacyIsZero_operate hD hz
  have hlegal : AllSteps (operate D) (fun _ _ => True) env l :=
    allSteps_of_forall fun _ _ => trivial
  refine ⟨?_, fun k => ?_⟩
  · have hmono : ∀ env t t', SaysPassed r env t → t ≤ t' → SaysPassed r env t' := by
      intro env t t' h htt
      rw [saysPassed_iff] at h ⊢
      obtain ⟨s, hs, hle⟩ := h
      exact ⟨s, hs, UInt32.le_trans hle htt⟩
    rw [staysTrue_iff hmono hinv (fun env a hz => live_of_operate hD hz) hz hsorted]
    exact allSteps_congr (fun env a hz _ => hinv env a hz)
      (fun env a hz _ => saysPassed_step hD a hz) hz hlegal
  · have hmono : ∀ env t t', CliffReached r k env t → t ≤ t' → CliffReached r k env t' := by
      rintro env t t' ⟨s, hs, hle⟩ htt
      exact ⟨s, hs, UInt32.le_trans hle htt⟩
    rw [staysTrue_iff hmono hinv (fun env a hz => live_of_operate hD hz) hz hsorted]
    exact allSteps_congr (fun env a hz _ => hinv env a hz)
      (fun env a hz _ => cliffReached_step hD a hz) hz hlegal

end Cliff

/-- The claim after the end of a stream. -/
theorem cliffStays_iff_sample :
    StaysTrue (operate sampleDeployment) Act.ledger (SaysPassed ⟨2⟩) (Live ⟨2⟩ 0)
      (legacyEnv sampleStream) [⟨sampleHost 310, .claim ⟨2⟩ none⟩] := by
  obtain ⟨hview, -⟩ := cliffStays_iff (l := [⟨sampleHost 310, .claim ⟨2⟩ none⟩])
    sampleDeployment_readsById (legacyIsZero_legacyEnv sampleStream) (List.pairwise_singleton _ _)
  refine hview.mpr ⟨fun _ _ s hs => ?_, trivial⟩
  have hsample : scheduleAt (legacyEnv sampleStream).persistent ⟨2⟩ 0 = some sampleStream := by
    decide +kernel
  obtain rfl := Option.some.inj (hsample.symm.trans hs)
  exact Or.inl (by decide)

/-- The sample stream, paused at ledger `120`, before its cliff at `150`. -/
def pausedEarly : VestingSchedule := { sampleStream with pausedAtLedger := some 120 }

/-- At ledger `200` the view says that the cliff of the paused stream has passed. The stream is
resumed, and the view says that it has not; by its schedule the cliff is now at ledger `230`. -/
theorem cliffStays_resume_false :
    ¬ StaysTrue (operate sampleDeployment) Act.ledger (SaysPassed ⟨2⟩) (Live ⟨2⟩ 0)
      (legacyEnv pausedEarly) [⟨sampleHost 200, .resume .first ⟨1⟩ ⟨2⟩⟩] ∧
    ¬ StaysTrue (operate sampleDeployment) Act.ledger (CliffReached ⟨2⟩ 0) (Live ⟨2⟩ 0)
      (legacyEnv pausedEarly) [⟨sampleHost 200, .resume .first ⟨1⟩ ⟨2⟩⟩] := by
  have hlive : Live ⟨2⟩ 0 (operate sampleDeployment (legacyEnv pausedEarly)
      ⟨sampleHost 200, .resume .first ⟨1⟩ ⟨2⟩⟩) := by
    unfold Live
    decide +kernel
  refine ⟨fun h => ?_, fun h => ?_⟩
  · have hstays := h [] [_] [] rfl 200 200 (by simp [Between, Act.ledger, sampleHost])
      (by simp [Between, Act.ledger, sampleHost]) (UInt32.le_refl _)
      (by unfold SaysPassed; decide +kernel) hlive
    exact absurd hstays (by unfold SaysPassed; decide +kernel)
  · have hpassed : CliffReached ⟨2⟩ 0 (legacyEnv pausedEarly) 200 :=
      ⟨pausedEarly, by decide +kernel, by decide⟩
    obtain ⟨s, hs, hle⟩ := h [] [_] [] rfl 200 200 (by simp [Between, Act.ledger, sampleHost])
      (by simp [Between, Act.ledger, sampleHost]) (UInt32.le_refl _) hpassed hlive
    have hcliff : (scheduleAt (operate sampleDeployment (legacyEnv pausedEarly)
        ⟨sampleHost 200, .resume .first ⟨1⟩ ⟨2⟩⟩).persistent ⟨2⟩ 0).map (·.cliffLedger) =
          some 230 := by decide +kernel
    have hs' : some s.cliffLedger = some 230 := by
      rw [← hcliff]
      exact (congrArg (Option.map (·.cliffLedger)) hs).symm
    rw [Option.some.inj hs'] at hle
    exact absurd hle (by decide)

end VestingDripStream.Contract.Views
