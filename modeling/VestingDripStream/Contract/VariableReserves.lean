import VestingDripStream.Contract.Authority

/-! # The reserves of the variable-rate streams

`create_variable_rate_stream` takes the exact sum of its segments as its deposit, and
`claim_variable_vested` pays what accrued on them. So every stored schedule is `Reserved` in every
state of a run of all entry points, and:

* where no fixed-rate stream is created in a token, the vault holds of it what it held at first and
  what the variable-rate streams owe, no more and no less (`vault_eq_owedVariable`);
* a claim fails for the reasons the source names only: what it pays is there, nothing overflows on
  the way, and both definitions of `compute_variable_claimable` pay the same
  (`claimVariable_exact`). -/

namespace VestingDripStream.Contract.VariableReserves

open VestingDripStream.Lib.Checked VestingDripStream.Lib.Transaction VestingDripStream.Lib.Run
open VestingDripStream.Lib.KeyValue VestingDripStream.Lib.Piecewise
open VestingDripStream.Contract.Types VestingDripStream.Contract.Storage
open VestingDripStream.Contract.Schedule VestingDripStream.Contract.EntryPoints
open VestingDripStream.Contract.Effects VestingDripStream.Contract.Stream
open VestingDripStream.Contract.Requests VestingDripStream.Contract.VariableRate
open VestingDripStream.Contract.VariableAccrual VestingDripStream.Contract.AllRequests
open VestingDripStream.Contract.Authority (pieces_of_addSegments)

/-! ### A stored schedule -/

/-- What a variable-rate schedule still owes. -/
def outstanding (v : VariableRateSchedule) : ℤ := v.totalDeposited - v.claimedAmount

/-- What a claim on `v` pays at `now`: what accrued since the last one, until `now` or the end. -/
def due (v : VariableRateSchedule) (now : UInt32) : ℤ :=
  accrued v.lastClaimedLedger.toNat (min now v.endLedger).toNat v.startLedger.toNat
    (pieces v.segments)

/-- A stored schedule: the deposit is the sum of its segments, what was claimed is what accrued
until the last claim, and that was before the end. -/
structure Reserved (v : VariableRateSchedule) : Prop where
  segments : Segments v.startLedger v.segments
  finish_eq : finish v.startLedger.toNat (pieces v.segments) = v.endLedger.toNat
  deposited : whole v.startLedger.toNat (pieces v.segments) = v.totalDeposited
  start_le : v.startLedger ≤ v.lastClaimedLedger
  last_lt : v.lastClaimedLedger < v.endLedger
  claimed : accrued v.startLedger.toNat v.lastClaimedLedger.toNat v.startLedger.toNat
    (pieces v.segments) = v.claimedAmount
  total : v.totalClaimed = v.claimedAmount
  unpaused : v.pausedAtLedger = none

namespace Reserved

variable {v : VariableRateSchedule} (h : Reserved v)
include h

theorem rate_pos : ∀ p ∈ pieces v.segments, 0 < p.2 := by
  intro p hp
  obtain ⟨s, hs, rfl⟩ := List.mem_map.mp hp
  exact h.segments.rate_pos s hs

theorem claimed_nonneg : 0 ≤ v.claimedAmount := by
  rw [← h.claimed]
  exact accrued_nonneg _ _ (pieces_nonneg h.segments.rate_nonneg)

theorem deposited_le : v.totalDeposited ≤ i128Max := by
  rw [← h.deposited]
  exact h.segments.fits

/-- What is owed is what accrues after the last claim. -/
theorem outstanding_eq : outstanding v = accrued v.lastClaimedLedger.toNat v.endLedger.toNat
    v.startLedger.toNat (pieces v.segments) := by
  have hstart := UInt32.le_iff_toNat_le.mp h.start_le
  have hlast := UInt32.lt_iff_toNat_lt.mp h.last_lt
  have hsum := accrued_add hstart hlast.le h.segments.ascending
  have hwhole := accrued_eq_whole h.segments.ascending le_rfl h.finish_eq.le
  unfold outstanding
  rw [← h.deposited, ← h.claimed, ← hwhole, ← hsum]
  ring

theorem due_nonneg (now : UInt32) : 0 ≤ due v now :=
  accrued_nonneg _ _ (pieces_nonneg h.segments.rate_nonneg)

theorem due_le (now : UInt32) : due v now ≤ outstanding v := by
  rw [h.outstanding_eq]
  refine accrued_le_accrued le_rfl ?_ (pieces_nonneg h.segments.rate_nonneg)
  rw [toNat_min]
  exact min_le_right _ _

/-- From the end on everything is due. -/
theorem due_of_end {now : UInt32} (hend : v.endLedger ≤ now) : due v now = outstanding v := by
  have hmin : (min now v.endLedger).toNat = v.endLedger.toNat := by
    rw [toNat_min]
    exact min_eq_right (UInt32.le_iff_toNat_le.mp hend)
  rw [h.outstanding_eq]
  unfold due
  rw [hmin]

/-- Something is due as soon as the last claim is past. -/
theorem due_ne_zero_iff (now : UInt32) : due v now ≠ 0 ↔ v.lastClaimedLedger < now := by
  have hstart := UInt32.le_iff_toNat_le.mp h.start_le
  have hlast := UInt32.lt_iff_toNat_lt.mp h.last_lt
  rw [UInt32.lt_iff_toNat_lt]
  unfold due
  rw [toNat_min]
  constructor
  · intro hne
    by_contra hle
    exact hne (accrued_of_le (by omega) _ _)
  · intro hlt
    have hpos := accrued_pos_of_lt (a := v.lastClaimedLedger.toNat)
      (b := min now.toNat v.endLedger.toNat) (by omega) h.segments.ascending h.rate_pos
      hstart (by rw [h.finish_eq]; exact hlast)
    omega

/-- **Either definition computes what is due.** -/
theorem amount_eq {accrue : VariableRateSchedule → UInt32 → Except Failure ℤ}
    (haccrue : accrue = accruedVariable ∨ accrue = accruedVariableSecond) (now : UInt32) :
    (if v.endLedger ≤ now then plain (checked (v.totalDeposited - v.claimedAmount))
      else accrue v now) = .ok (due v now) := by
  by_cases hend : v.endLedger ≤ now
  · have hnonneg := h.claimed_nonneg
    have hle := h.deposited_le
    have hdue := h.due_nonneg now
    rw [h.due_of_end hend] at hdue ⊢
    unfold outstanding at hdue ⊢
    have hmin : i128Min ≤ 0 := by decide
    have hfits : InI128 (v.totalDeposited - v.claimedAmount) := ⟨by omega, by omega⟩
    rw [if_pos hend, checked_of_mem hfits]
    rfl
  · have hmin : min now v.endLedger = now := by
      rw [← UInt32.toNat_inj, toNat_min]
      rw [UInt32.le_iff_toNat_le] at hend
      omega
    rw [if_neg hend]
    unfold due
    rw [hmin]
    rcases haccrue with rfl | rfl
    · exact h.segments.claimable_eq _ _
    · exact h.segments.claimableSecond_eq h.start_le

/-- The two sums of a claim do not overflow. -/
theorem fits (now : UInt32) : InI128 (v.claimedAmount + due v now) := by
  have hnonneg := h.claimed_nonneg
  have hle := h.deposited_le
  have hdue := h.due_nonneg now
  have hmax := h.due_le now
  have hmin : i128Min ≤ 0 := by decide
  unfold outstanding at hmax
  exact ⟨by omega, by omega⟩

/-- A claim closes the stream from the end on only. -/
theorem closes_iff {now : UInt32} (hlast : v.lastClaimedLedger < now) :
    v.totalDeposited ≤ v.claimedAmount + due v now ↔ v.endLedger ≤ now := by
  have hstart := UInt32.le_iff_toNat_le.mp h.start_le
  rw [UInt32.lt_iff_toNat_lt] at hlast
  constructor
  · intro hle
    by_contra hend
    rw [UInt32.le_iff_toNat_le, not_le] at hend
    have hleft := accrued_pos_of_lt (a := now.toNat) (b := v.endLedger.toNat) hend
      h.segments.ascending h.rate_pos (by omega) (by rw [h.finish_eq]; exact hend)
    have hsum := accrued_add hlast.le hend.le h.segments.ascending
    have hout := h.outstanding_eq
    have hmin : (min now v.endLedger).toNat = now.toNat := by
      rw [toNat_min]
      omega
    unfold outstanding at hout
    unfold due at hle
    rw [hmin] at hle
    omega
  · intro hend
    have hall := h.due_of_end hend
    unfold outstanding at hall
    omega

/-- **What a claim leaves** of a stream that has not ended. -/
theorem after {now : UInt32} (hlast : v.lastClaimedLedger < now) (hend : ¬ v.endLedger ≤ now) :
    Reserved (afterVariableClaim v now (due v now)) := by
  rw [UInt32.le_iff_toNat_le, not_le] at hend
  have hmin : min now v.endLedger = now := by
    rw [← UInt32.toNat_inj, toNat_min]
    omega
  have hstart := UInt32.le_iff_toNat_le.mp h.start_le
  have hlt := UInt32.lt_iff_toNat_lt.mp hlast
  refine {
    segments := h.segments
    finish_eq := h.finish_eq
    deposited := h.deposited
    start_le := ?_
    last_lt := ?_
    claimed := ?_
    total := ?_
    unpaused := h.unpaused }
  · show v.startLedger ≤ min now v.endLedger
    rw [hmin, UInt32.le_iff_toNat_le]
    omega
  · show min now v.endLedger < v.endLedger
    rw [hmin, UInt32.lt_iff_toNat_lt]
    exact hend
  · show accrued v.startLedger.toNat (min now v.endLedger).toNat v.startLedger.toNat
      (pieces v.segments) = v.claimedAmount + due v now
    rw [← h.claimed]
    unfold due
    rw [hmin, accrued_add hstart hlt.le h.segments.ascending]
  · show v.totalClaimed + due v now = v.claimedAmount + due v now
    rw [h.total]

end Reserved

/-- A new stream owes its deposit. -/
theorem reserved_of_create {a : VariableArgs} {start cliff fin : UInt32}
    {segs : List RateSegment} {total : ℤ} (hne : a.segments.length ≠ 0)
    (h : addSegments a.segments start 0 = .ok (segs, fin, total)) :
    Reserved (newVariableSchedule a start cliff fin segs total) := by
  obtain ⟨hsegs, hfin, htotal⟩ := segments_of_addSegments h
  have hpieces := pieces_of_addSegments h
  have hlt : start.toNat < fin.toNat := by
    have hasc := hsegs.ascending
    cases hl : a.segments with
    | nil => exact absurd (congrArg List.length hl) hne
    | cons seg rest =>
      rw [hpieces, hl] at hasc hfin
      have hrest := hasc.2.start_le_finish
      have hfirst := hasc.1
      rw [← hfin]
      exact lt_of_lt_of_le hfirst hrest
  exact {
    segments := hsegs
    finish_eq := hfin
    deposited := htotal
    start_le := UInt32.le_refl _
    last_lt := UInt32.lt_iff_toNat_lt.mpr hlt
    claimed := accrued_of_le le_rfl _ _
    total := rfl
    unpaused := rfl }

/-! ### What is owed -/

/-- What a schedule owes in a token. -/
def owedIn (token : Address) (v : VariableRateSchedule) : ℤ :=
  if v.token = token then outstanding v else 0

/-- What a storage entry owes in a token to the recipient of a variable-rate stream. -/
def entryOwes (token : Address) : (key : DataKey) → key.Val → ℤ
  | .variableSchedule _, v => owedIn token v
  | _, _ => 0

/-- What the variable-rate streams owe in a token. -/
def owedVariable (token : Address) (st : Storage) : ℤ := sumBy (entryOwes token) st

section Owed

variable {token r : Address} {st st' : Storage} {v : VariableRateSchedule}

/-- Only the variable-rate schedules matter. -/
theorem owedVariable_congr
    (h : ∀ r, getVariableSchedule st' r = getVariableSchedule st r) :
    owedVariable token st' = owedVariable token st := by
  refine sumBy_congr (S := Set.range DataKey.variableSchedule) (fun key hkey v => ?_) ?_
  · cases key with
    | variableSchedule r => exact absurd ⟨r, rfl⟩ hkey
    | _ => rfl
  · rintro _ ⟨r, rfl⟩
    exact h r

theorem owedVariable_set (st : Storage) : owedVariable token (setVariableSchedule st r v) =
    owedIn token v + owedVariable token (removeVariableSchedule st r) :=
  sumBy_insert _ _ _ _

theorem owedVariable_remove (h : getVariableSchedule st r = some v) : owedVariable token st =
    owedIn token v + owedVariable token (removeVariableSchedule st r) :=
  sumBy_erase _ h

theorem owedVariable_of_none (h : getVariableSchedule st r = none) :
    owedVariable token (removeVariableSchedule st r) = owedVariable token st :=
  congrArg _ (erase_of_lookup_none h)

theorem owedIn_nonneg (h : Reserved v) : 0 ≤ owedIn token v := by
  unfold owedIn
  split_ifs
  · exact (h.due_nonneg v.endLedger).trans (h.due_le _)
  · exact le_rfl

/-- A claim takes what it pays off what is owed. -/
theorem owedIn_afterVariableClaim (now : UInt32) (paid : ℤ) :
    owedIn token (afterVariableClaim v now paid) =
      owedIn token v - if token = v.token then paid else 0 := by
  have hout : outstanding (afterVariableClaim v now paid) = outstanding v - paid := by
    show v.totalDeposited - (v.claimedAmount + paid) = v.totalDeposited - v.claimedAmount - paid
    ring
  have htoken : (afterVariableClaim v now paid).token = v.token := rfl
  unfold owedIn
  rw [hout, htoken]
  by_cases ht : v.token = token
  · rw [if_pos ht, if_pos ht, if_pos ht.symm]
  · rw [if_neg ht, if_neg ht, if_neg (Ne.symm ht), sub_zero]

/-- What is owed to one recipient is part of it. -/
theorem owedIn_le (h : ∀ r v, getVariableSchedule st r = some v → Reserved v)
    (hv : getVariableSchedule st r = some v) : owedIn token v ≤ owedVariable token st := by
  have hrest : 0 ≤ owedVariable token (removeVariableSchedule st r) := by
    refine sumBy_nonneg fun key w hw => ?_
    cases key with
    | variableSchedule r' =>
      have hlookup := getVariableSchedule_remove st r r'
      rw [show getVariableSchedule (removeVariableSchedule st r) r' = some w from hw] at hlookup
      split_ifs at hlookup
      exact owedIn_nonneg (h r' w hlookup.symm)
    | _ => exact le_rfl
  rw [owedVariable_remove hv]
  omega

end Owed

/-! ### The two entry points, with the tokens they move -/

section Moves

variable {D : Deployment} {host : Host} {env env' : Env} {r : Address}

theorem tryTransfer_bind_ok {β : Type} {f : Unit → Call β} {res : β × Env}
    {token src dst : Address} {x : ℤ} : (tryTransfer host token src dst x >>= f) env = .ok res ↔
      host.accepts token src dst x = true ∧ ∃ b, transfer env.balances token src dst x = some b ∧
        f () { env with balances := b } = .ok res := by
  rw [bind_ok]
  constructor
  · rintro ⟨u, e, htr, h⟩
    obtain ⟨b, hb, rfl⟩ := tryTransfer_ok htr
    refine ⟨?_, b, hb, h⟩
    by_contra hacc
    unfold tryTransfer at htr
    rw [Bool.eq_false_iff.mpr hacc] at htr
    cases htr
  · rintro ⟨hacc, b, hb, h⟩
    refine ⟨(), _, ?_, h⟩
    unfold tryTransfer
    rw [hacc, hb]

theorem lockedTransfer_bind_ok {β : Type} {f : Unit → Call β} {res : β × Env}
    {token dst : Address} {x : ℤ} : (lockedTransfer D host token dst x >>= f) env = .ok res ↔
      (env.inst.lookup .lock).isNone = true ∧
        host.accepts token D.contractAddress dst x = true ∧
          ∃ b, transfer env.balances token D.contractAddress dst x = some b ∧
            f () { env with balances := b } = .ok res := by
  unfold lockedTransfer
  simp only [bind_assoc, asks_bind_ok, require_bind_ok, configure_bind_ok, tryTransfer_bind_ok]
  refine and_congr_right fun hlock => ?_
  rw [unlock_lock hlock]

/-- What a creation moves: the deposit, from the sponsor into the vault. -/
theorem createVariableRateStream_vault {a : VariableArgs} {u : Unit}
    (h : createVariableRateStream D host a env = .ok (u, env')) :
    ∃ cliff segments fin deposit,
      env'.persistent = setVariableSchedule env.persistent a.recipient
        (newVariableSchedule a host.sequence cliff fin segments deposit) ∧
      getVariableSchedule env.persistent a.recipient = none ∧
      Reserved (newVariableSchedule a host.sequence cliff fin segments deposit) ∧
      ∀ t, vault D env' t = vault D env t + if t = a.token then deposit else 0 := by
  simp only [createVariableRateStream, asks_bind_ok, require_bind_ok, compute_bind_ok,
    requireAuth_bind_ok, tryTransfer_bind_ok, persist_bind_ok, emit_ok] at h
  obtain ⟨-, -, hfree, hlength, cliff, -, ⟨segs, fin, deposit⟩, hadd, hauth, -, b, hb, rfl⟩ := h
  refine ⟨cliff, segs, fin, deposit, rfl, ?_, reserved_of_create hlength.1 hadd, fun t => ?_⟩
  · have hnone := hfree.1
    unfold hasVariableSchedule at hnone
    simpa using hnone
  · obtain ⟨-, -, hmoved⟩ := transfer_ok hb
    have hat := hmoved t D.contractAddress
    have hne : ¬ (t = a.token ∧ D.contractAddress = a.sponsor) := fun h => hauth.2 h.2.symm
    rw [if_neg hne] at hat
    simp only [and_true, sub_zero] at hat
    exact hat

/-- The environment once the schedule is stored, or taken out of the storage if it is paid in
full. -/
def stored (r : Address) (v : VariableRateSchedule) (env : Env) : Env :=
  if v.totalDeposited ≤ v.claimedAmount then
    { env with
      persistent := removeVariableSchedule env.persistent r
      events := env.events ++ [.streamCompleted r v.token] }
  else { env with persistent := setVariableSchedule env.persistent r v }

theorem storeVariableClaim_bind_ok {β : Type} {f : Unit → Call β} {res : β × Env}
    {v : VariableRateSchedule} : (storeVariableClaim r v >>= f) env = .ok res ↔
      f () (stored r v env) = .ok res := by
  unfold storeVariableClaim stored
  split_ifs
  · rw [bind_assoc, persist_bind_ok, emit_bind_ok]
  · rw [persist_bind_ok]

theorem balances_stored (r : Address) (v : VariableRateSchedule) (env : Env) :
    (stored r v env).balances = env.balances := by
  unfold stored
  split_ifs <;> rfl

theorem persistent_stored (r : Address) (v : VariableRateSchedule) (env : Env) :
    (stored r v env).persistent = if v.totalDeposited ≤ v.claimedAmount then
      removeVariableSchedule env.persistent r else setVariableSchedule env.persistent r v := by
  unfold stored
  split_ifs <;> rfl

/-- What a claim of `paid` on `v` has checked when it moves the tokens. -/
structure Payable (D : Deployment) (host : Host) (r : Address) (env : Env)
    (v : VariableRateSchedule) (paid : ℤ) : Prop where
  auth : host.auth r = true
  ne : r ≠ D.contractAddress
  live : getVariableSchedule env.persistent r = some v
  unpaused : v.pausedAtLedger = none
  cliff : v.cliffLedger ≤ host.sequence
  paid_ne : paid ≠ 0
  unlocked : (env.inst.lookup .lock).isNone = true
  accepted : host.accepts v.token D.contractAddress r paid = true
  total_fits : InI128 (v.totalClaimed + paid)
  claimed_fits : InI128 (v.claimedAmount + paid)

/-- **When a claim succeeds, and what it does.** -/
theorem claimVariableVestedWith_eq_ok
    {accrue : VariableRateSchedule → UInt32 → Except Failure ℤ} {paid : ℤ} :
    claimVariableVestedWith accrue D host r env = .ok (paid, env') ↔
      ∃ v b, Payable D host r env v paid ∧
        (if v.endLedger ≤ host.sequence then plain (checked (v.totalDeposited - v.claimedAmount))
          else accrue v host.sequence) = .ok paid ∧
        transfer env.balances v.token D.contractAddress r paid = some b ∧
        env' =
          { stored r (afterVariableClaim v host.sequence paid) { env with balances := b } with
            events := (stored r (afterVariableClaim v host.sequence paid)
              { env with balances := b }).events ++
                [.variableTokensClaimed r paid (min host.sequence v.endLedger)] } := by
  simp only [claimVariableVestedWith, requireAuth_bind_ok, asks_bind_ok, need_bind_ok,
    require_bind_ok, compute_bind_ok, lockedTransfer_bind_ok, plain_ok, checked_eq_some,
    storeVariableClaim_bind_ok, emit_bind_ok, pure_ok]
  constructor
  · rintro ⟨hauth, v, hlive, hpaused, hcliff, x, hx, hne, hlock, hacc, b, hb, _, ⟨hfits, rfl⟩, _,
      ⟨hfits', rfl⟩, rfl, rfl⟩
    exact ⟨v, b, ⟨hauth.1, hauth.2, hlive, hpaused, hcliff, hne, hlock, hacc, hfits, hfits'⟩, hx,
      hb, rfl⟩
  · rintro ⟨v, b, h, hx, hb, rfl⟩
    exact ⟨⟨h.auth, h.ne⟩, v, h.live, h.unpaused, h.cliff, paid, hx, h.paid_ne, h.unlocked,
      h.accepted, b, hb, _, ⟨h.total_fits, rfl⟩, _, ⟨h.claimed_fits, rfl⟩, rfl, rfl⟩

/-- A claim of `paid` on `v`, which is as a stored schedule should be. -/
structure Claimed (D : Deployment) (host : Host) (r : Address) (env env' : Env)
    (v : VariableRateSchedule) (paid : ℤ) : Prop where
  live : getVariableSchedule env.persistent r = some v
  paid_eq : paid = due v host.sequence
  last_lt : v.lastClaimedLedger < host.sequence
  persistent : env'.persistent = if v.endLedger ≤ host.sequence then
      removeVariableSchedule env.persistent r
    else setVariableSchedule env.persistent r (afterVariableClaim v host.sequence paid)
  vault : ∀ t, vault D env' t = vault D env t - if t = v.token then paid else 0

/-- **What a claim does.** -/
theorem claimed_of_ok {accrue : VariableRateSchedule → UInt32 → Except Failure ℤ} {paid : ℤ}
    (haccrue : accrue = accruedVariable ∨ accrue = accruedVariableSecond)
    (hres : ∀ v, getVariableSchedule env.persistent r = some v → Reserved v)
    (h : claimVariableVestedWith accrue D host r env = .ok (paid, env')) :
    ∃ v, Claimed D host r env env' v paid := by
  obtain ⟨v, b, hp, hpaid, hb, henv⟩ := claimVariableVestedWith_eq_ok.mp h
  have hv := hres v hp.live
  rw [hv.amount_eq haccrue, Except.ok.injEq] at hpaid
  have hlast := (hv.due_ne_zero_iff host.sequence).mp (by rw [hpaid]; exact hp.paid_ne)
  refine ⟨v, hp.live, hpaid.symm, hlast, ?_, fun t => ?_⟩
  · have hcloses := hv.closes_iff hlast
    rw [hpaid] at hcloses
    rw [henv]
    refine (persistent_stored _ _ _).trans ?_
    show (if v.totalDeposited ≤ v.claimedAmount + paid then _ else _) = _
    simp only [hcloses]
  · obtain ⟨-, -, hmoved⟩ := transfer_ok hb
    have hat := hmoved t D.contractAddress
    have hto : ¬ (t = v.token ∧ D.contractAddress = r) := fun heq => hp.ne heq.2.symm
    rw [if_neg hto] at hat
    simp only [and_true, add_zero] at hat
    rw [henv]
    show ((stored r _ { env with balances := b }).balances t D.contractAddress : ℤ) = _
    rw [balances_stored]
    exact hat

end Moves

/-! ### What leaves a token alone -/

/-- The token in which a call creates fixed-rate streams. -/
def fixedToken : AnyCall → Option Address
  | .fixed (.createVestingStream a) | .createVestingStreamWithMeta a | .createMilestoneStream a =>
    some a.token
  | .createBatchStreams _ token _ => some token
  | _ => none

/-- No fixed-rate stream in `token` is stored. -/
def Apart (token : Address) (st : Storage) : Prop := ∀ r s, Stored st r s → s.token ≠ token

section Apart

variable {token r : Address} {st st' : Storage} {s : VestingSchedule}

theorem Apart.of_stored (h : Apart token st) (hs : ∀ r s, Stored st' r s → Stored st r s) :
    Apart token st' := fun r s h' => h r s (hs r s h')

theorem Apart.set {k : UInt32} (h : Apart token st) (hs : s.token ≠ token) :
    Apart token (setScheduleById st r k s) := by
  intro r' s' hs'
  rcases stored_setScheduleById hs' with ⟨-, rfl⟩ | hold
  · exact hs
  · exact h r' s' hold

theorem Apart.remove {k : UInt32} (h : Apart token st) :
    Apart token (removeScheduleById st r k) :=
  h.of_stored fun _ _ => stored_removeScheduleById

theorem Apart.addSponsorStream {sp : Address} (h : Apart token st) :
    Apart token (addSponsorStream st sp r) := h.of_stored fun _ _ => stored_addSponsorStream.mp

theorem Apart.removeSponsorStream {sp : Address} (h : Apart token st) :
    Apart token (removeSponsorStream st sp r) :=
  h.of_stored fun _ _ => stored_removeSponsorStream.mp

theorem apart_batch {host : Host} {sponsor t : Address} {streams : List BatchEntry}
    (ht : t ≠ token) (h : BatchStored host sponsor t streams st st') (hap : Apart token st) :
    Apart token st' := by
  induction h with
  | nil st => exact hap
  | cons _ _ _ ih => exact ih (hap.set ht).addSponsorStream

end Apart

/-- The call leaves `token` alone: the vault's balance, the variable-rate schedules, and it stores
no fixed-rate stream in it. -/
structure Aside (D : Deployment) (token : Address) (env env' : Env) : Prop where
  apart : Apart token env'.persistent
  segmented : ∀ r, getVariableSchedule env'.persistent r = getVariableSchedule env.persistent r
  vault : vault D env' token = vault D env token

section Aside

variable {D : Deployment} {host : Host} {env env' : Env} {token : Address} {u : Unit}

/-- The claim of a fixed-rate stream. -/
theorem apart_claim (hD : D.ReadsById) {r : Address} {streamId : Option UInt32} {amount : ℤ}
    (hap : Apart token env.persistent)
    (h : claimVested D host r streamId env = .ok (amount, env')) :
    Apart token env'.persistent ∧ vault D env' token = vault D env token := by
  refine (claimVested_induct
    (P := fun _ e => Apart token e.persistent ∧ vault D e token = vault D env token) h
    (fun k _ acc e x e1 he hx => ?_) ⟨hap, rfl⟩).1
  rcases claimStream_ok hD hx with ⟨-, rfl⟩ | ⟨s, rc, hpaid, -⟩
  · exact he
  · have htoken := he.1 r s (stored_of_scheduleAt hpaid.live)
    obtain ⟨y, -, -, hvault⟩ := hpaid.vault
    obtain ⟨-, -, -, -, -, -, -, hsched, -⟩ := claimSchedule_ok hpaid.receipt
    refine ⟨?_, by rw [hvault, if_neg htoken.symm, sub_zero, he.2]⟩
    rw [hpaid.persistent]
    unfold afterClaim
    split_ifs
    · exact he.1.remove
    · exact he.1.set (by rw [hsched]; exact htoken)

theorem apart_terminated {sponsor r : Address} {k : UInt32} {s : VestingSchedule} {bound : ℤ}
    (hap : Apart token env.persistent) (h : Terminated D sponsor r k env env' s bound) :
    Apart token env'.persistent ∧ vault D env' token = vault D env token := by
  have htoken := hap r s (stored_of_scheduleAt h.live)
  obtain ⟨x, -, hvault⟩ := h.vault
  refine ⟨?_, by rw [hvault, if_neg htoken.symm, sub_zero]⟩
  rw [h.persistent]
  exact hap.remove.removeSponsorStream

/-- **The entry points on fixed-rate streams** leave the token alone, unless they create a stream
in it. -/
theorem aside_of_exec (hD : D.ReadsById) (hflat : Flat env.persistent)
    (hap : Apart token env.persistent) {base : ContractCall}
    (htoken : ∀ a, base = .createVestingStream a → a.token ≠ token)
    (h : exec D host base env = .ok (u, env')) : Aside D token env env' := by
  have hsame := (tame_of_fixed hD (fixedEffect_of_exec hD h)).segmented
  suffices hboth : Apart token env'.persistent ∧ vault D env' token = vault D env token from
    ⟨hboth.1, hsame, hboth.2⟩
  cases Requests.exec_ok hD h with
  | config _ hp hb =>
    refine ⟨by rw [hp]; exact hap, ?_⟩
    unfold vault
    rw [hb]
  | @create a _ c hc =>
    have hne := htoken a rfl
    obtain ⟨-, n, -, hres⟩ := nextStreamId_ok _ _ _ hc.id
    refine ⟨?_, by rw [hc.vault, if_neg hne.symm, add_zero]⟩
    rw [hc.persistent, hres]
    have hnext : Apart token (env.persistent.insert (.nextStreamId a.recipient) n) :=
      hap.of_stored fun _ _ => (stored_insert_nextStreamId n).mp
    exact (hnext.set hne).addSponsorStream
  | claim hc => exact apart_claim hD hap hc
  | cancel _ ht => exact apart_terminated hap ht
  | clawback _ ht => exact apart_terminated hap ht
  | viaLegacy _ found _ =>
    rw [hflat.noLegacy] at found
    cases found

theorem aside_of_batch {sponsor t : Address} {streams : List BatchEntry} (ht : t ≠ token)
    (hap : Apart token env.persistent)
    (h : createBatchStreams D host sponsor t streams env = .ok (u, env')) :
    Aside D token env env' := by
  have hcreated := createBatchStreams_ok h
  refine ⟨apart_batch ht hcreated.stored hap, (tame_batch hcreated.stored).segmented, ?_⟩
  unfold createBatchStreams at h
  rw [require_bind_ok] at h
  obtain ⟨total, e1, hval, h⟩ := bind_ok.mp h.2
  obtain ⟨-, rfl⟩ := validateBatch_ok hval
  simp only [asks_bind_ok, require_bind_ok, requireAuth_bind_ok, tryTransfer_bind_ok] at h
  obtain ⟨-, -, -, b, hb, h⟩ := h
  obtain ⟨-, -, hmoved⟩ := transfer_ok hb
  have hat := hmoved token D.contractAddress
  rw [if_neg fun h => ht h.1.symm, if_neg fun h => ht h.1.symm, sub_zero, add_zero] at hat
  unfold vault
  rw [Batches.balances_of_storeBatch h]
  exact hat

end Aside

/-! ### Runs of all entry points -/

/-- What holds in every state, if the vault held `base` of `token` at first. -/
structure Kept (D : Deployment) (token : Address) (base : ℤ) (env : Env) : Prop where
  flat : Flat env.persistent
  apart : Apart token env.persistent
  reserved : ∀ r v, getVariableSchedule env.persistent r = some v → Reserved v
  unlocked : env.inst.lookup .lock = none
  vault : vault D env token = base + owedVariable token env.persistent

namespace Kept

variable {D : Deployment} {host : Host} {env env' : Env} {token r : Address} {base : ℤ}
  (h : Kept D token base env)
include h

theorem of_aside (hflat : Flat env'.persistent) (hlock : env'.inst.lookup .lock = none)
    (ha : Aside D token env env') : Kept D token base env' where
  flat := hflat
  apart := ha.apart
  reserved r v hv := h.reserved r v (by rw [← ha.segmented]; exact hv)
  unlocked := hlock
  vault := by rw [ha.vault, h.vault, owedVariable_congr ha.segmented]

/-- A new stream: the vault gets what it will owe. -/
theorem of_create {a : VariableArgs} {u : Unit} (hflat : Flat env'.persistent)
    (hlock : env'.inst.lookup .lock = none)
    (hc : createVariableRateStream D host a env = .ok (u, env')) : Kept D token base env' := by
  obtain ⟨cliff, segs, fin, deposit, hpers, hnone, hres, hvault⟩ :=
    createVariableRateStream_vault hc
  refine {
    flat := hflat
    apart := by
      rw [hpers]
      exact h.apart.of_stored fun _ _ => stored_insert_variable.mp
    reserved := fun r v hv => ?_
    unlocked := hlock
    vault := ?_ }
  · rw [hpers, getVariableSchedule_set] at hv
    split_ifs at hv
    · exact Option.some.inj hv ▸ hres
    · exact h.reserved r v hv
  · have howed : owedIn token (newVariableSchedule a host.sequence cliff fin segs deposit) =
        if token = a.token then deposit else 0 := by
      have hall : outstanding (newVariableSchedule a host.sequence cliff fin segs deposit) =
        deposit := sub_zero deposit
      unfold owedIn
      rw [hall]
      simp only [newVariableSchedule, eq_comm]
    rw [hvault, h.vault, hpers, owedVariable_set, owedVariable_of_none hnone, howed]
    ring

/-- A claim: the vault pays what it owes less from then on. -/
theorem of_claim {paid : ℤ} {v : VariableRateSchedule} (hflat : Flat env'.persistent)
    (hlock : env'.inst.lookup .lock = none) (hc : Claimed D host r env env' v paid) :
    Kept D token base env' := by
  have hres := h.reserved r v hc.live
  have hsplit : owedVariable token env.persistent =
      owedIn token v + owedVariable token (removeVariableSchedule env.persistent r) :=
    owedVariable_remove hc.live
  have hpers := hc.persistent
  by_cases hend : v.endLedger ≤ host.sequence
  · rw [if_pos hend] at hpers
    refine {
      flat := hflat
      apart := by
        rw [hpers]
        exact h.apart.of_stored fun _ _ => stored_erase_variable.mp
      reserved := fun r' w hw => ?_
      unlocked := hlock
      vault := ?_ }
    · rw [hpers, getVariableSchedule_remove] at hw
      split_ifs at hw
      exact h.reserved r' w hw
    · have hall : owedIn token v = if token = v.token then paid else 0 := by
        unfold owedIn
        rw [hc.paid_eq, hres.due_of_end hend]
        simp only [eq_comm]
      rw [hc.vault, h.vault, hpers, hsplit, hall]
      ring
  · rw [if_neg hend] at hpers
    refine {
      flat := hflat
      apart := by
        rw [hpers]
        exact h.apart.of_stored fun _ _ => stored_insert_variable.mp
      reserved := fun r' w hw => ?_
      unlocked := hlock
      vault := ?_ }
    · rw [hpers, getVariableSchedule_set] at hw
      split_ifs at hw
      · obtain rfl := Option.some.inj hw
        rw [hc.paid_eq]
        exact hres.after hc.last_lt hend
      · exact h.reserved r' w hw
    · rw [hc.vault, h.vault, hpers, owedVariable_set, owedIn_afterVariableClaim, hsplit]
      ring

/-- **One request** that does not create a fixed-rate stream in the token. -/
theorem step (hD : D.ReadsById) (q : AnyRequest)
    (htoken : fixedToken q.call = some token → ¬ q.Ok D env) :
    Kept D token base (stepAny D env q) := by
  by_cases hok : q.Ok D env
  swap
  · rw [show stepAny D env q = env from commit_of_not_isOk hok]
    exact h
  obtain ⟨⟨u, env'⟩, hexec⟩ := exists_ok_of_isOk hok
  rw [show stepAny D env q = env' from commit_of_ok hexec]
  have hne : fixedToken q.call ≠ some token := fun heq => htoken heq hok
  have hflat := flat_of_effect hD (execAny_ok hD hexec) h.flat
  have hlock : env'.inst.lookup .lock = none := by
    rw [lookup_inst_of_execAny hD (fun base _ => ?_) hexec]
    · exact h.unlocked
    · cases base <;> simp [configKeys]
  have fixed : ∀ base' : ContractCall, (∀ a, base' = .createVestingStream a → a.token ≠ token) →
      exec D q.host base' env = .ok (u, env') → Kept D token base env' :=
    fun _ hcreate hbase => h.of_aside hflat hlock (aside_of_exec hD h.flat h.apart hcreate hbase)
  have claim : ∀ {accrue : VariableRateSchedule → UInt32 → Except Failure ℤ} {r : Address},
      (accrue = accruedVariable ∨ accrue = accruedVariableSecond) →
      (claimVariableVestedWith accrue D q.host r >>= fun _ => pure ()) env = .ok (u, env') →
        Kept D token base env' := by
    intro accrue r haccrue hcall
    obtain ⟨paid, e, hclaim, hpure⟩ := bind_ok.mp hcall
    obtain ⟨-, rfl⟩ := pure_ok.mp hpure
    obtain ⟨v, hc⟩ := claimed_of_ok haccrue (h.reserved r) hclaim
    exact h.of_claim hflat hlock hc
  obtain ⟨host, call⟩ := q
  cases call with
  | fixed base' =>
    refine fixed base' (fun a ha => ?_) hexec
    subst ha
    exact fun heq => hne (congrArg some heq)
  | createVestingStreamWithMeta a =>
    refine fixed (.createVestingStream a) (fun a' ha => ?_) hexec
    cases ha
    exact fun heq => hne (congrArg some heq)
  | createMilestoneStream a =>
    refine fixed (.createVestingStream a) (fun a' ha => ?_) hexec
    cases ha
    exact fun heq => hne (congrArg some heq)
  | transferStream r r' =>
    refine fixed (.transferRecipient r r') (fun a ha => ?_) hexec
    cases ha
  | createBatchStreams sponsor t streams =>
    exact h.of_aside hflat hlock
      (aside_of_batch (fun heq => hne (congrArg some heq)) h.apart hexec)
  | createVariableRateStream a => exact h.of_create hflat hlock hexec
  | createVariableStream a => exact h.of_create hflat hlock hexec
  | claimVariableVested r => exact claim (Or.inl rfl) hexec
  | claimVariableVestedSecond r => exact claim (Or.inr rfl) hexec

end Kept

section Runs

variable {D : Deployment} {balances : Balances} {token : Address} {l : List AnyRequest}

theorem kept_empty (D : Deployment) (balances : Balances) (token : Address) :
    Kept D token (balances token D.contractAddress) (emptyEnv balances) where
  flat := flat_empty
  apart r s hs := by
    rcases hs with ⟨k, hk⟩ | hl
    · have hnone : byId ∅ r k = none := Finmap.lookup_empty _
      rw [show byId ∅ r k = some s from hk] at hnone
      cases hnone
    · have hnone : legacy ∅ r = none := Finmap.lookup_empty _
      rw [show legacy ∅ r = some s from hl] at hnone
      cases hnone
  reserved r v hv := by
    have hnone : getVariableSchedule ∅ r = none := Finmap.lookup_empty _
    rw [show getVariableSchedule ∅ r = some v from hv] at hnone
    cases hnone
  unlocked := Finmap.lookup_empty _
  vault := (add_zero _).symm

/-- A run in which no fixed-rate stream is created in the token. -/
def Segregated (D : Deployment) (token : Address) (env : Env) (l : List AnyRequest) : Prop :=
  AllSteps (stepAny D) (fun env q => fixedToken q.call = some token → ¬ q.Ok D env) env l

theorem kept_run (hD : D.ReadsById) (h : Segregated D token (emptyEnv balances) l) :
    AllStates (stepAny D) (Kept D token (balances token D.contractAddress)) (emptyEnv balances) l :=
  allStates_of_inv (fun _ q henv hq => henv.step hD q hq) (kept_empty D balances token) h

/-- **The reserves are exact.** In every state of a run in which no fixed-rate stream is created in
a token, the vault holds of it what it held at first and what the variable-rate streams owe. -/
theorem vault_eq_owedVariable (hD : D.ReadsById)
    (h : Segregated D token (emptyEnv balances) l) :
    AllStates (stepAny D) (fun env => vault D env token =
      balances token D.contractAddress + owedVariable token env.persistent) (emptyEnv balances) l :=
  (kept_run hD h).imp fun _ henv => henv.vault

/-- Sponsor `1` streams token `10` at two rates, sponsor `3` token `11` at a fixed one; claims are
made before and after the end. -/
def sampleMixed : List AnyRequest :=
  [⟨sampleHost 1, .fixed (.initializeContract ⟨9⟩ 0 ⟨8⟩)⟩,
    ⟨sampleHost 100, .createVariableRateStream sampleVariableStream⟩,
    ⟨sampleHost 100, .fixed (.createVestingStream
      { sampleArgs with sponsor := ⟨3⟩, recipient := ⟨4⟩, token := ⟨11⟩ })⟩,
    ⟨sampleHost 250, .claimVariableVested ⟨2⟩⟩, ⟨sampleHost 260, .claimVariableVestedSecond ⟨2⟩⟩,
    ⟨sampleHost 400, .claimVariableVested ⟨2⟩⟩]

theorem segregated_sampleMixed :
    Segregated sampleDeployment ⟨10⟩ (emptyEnv sampleStart.balances) sampleMixed := by
  unfold Segregated
  decide +kernel

theorem vault_eq_owedVariable_sample :
    AllStates (stepAny sampleDeployment) (fun env => vault sampleDeployment env ⟨10⟩ =
      0 + owedVariable ⟨10⟩ env.persistent) (emptyEnv sampleStart.balances) sampleMixed :=
  vault_eq_owedVariable sampleDeployment_readsById segregated_sampleMixed

/-- The vault can pay what is due. -/
theorem Kept.covers {base : ℤ} {env : Env} {v : VariableRateSchedule} {r : Address}
    (h : Kept D token base env) (hbase : 0 ≤ base)
    (hv : getVariableSchedule env.persistent r = some v) (htoken : v.token = token) (now : UInt32) :
    due v now ≤ env.balances token D.contractAddress := by
  have hdue := (h.reserved r v hv).due_le now
  have hpart : owedIn token v ≤ owedVariable token env.persistent := owedIn_le h.reserved hv
  have hvault := h.vault
  unfold owedIn at hpart
  rw [if_pos htoken] at hpart
  unfold Effects.vault at hvault
  omega

/-- What a claim on `v` needs besides what is due. -/
structure Ready (D : Deployment) (host : Host) (r : Address) (v : VariableRateSchedule)
    (amount : ℤ) : Prop where
  auth : host.auth r = true
  ne : r ≠ D.contractAddress
  cliff : v.cliffLedger ≤ host.sequence
  last_lt : v.lastClaimedLedger < host.sequence
  accepted : host.accepts v.token D.contractAddress r amount = true

/-- **When a claim succeeds**, if the vault kept its reserves. -/
theorem Kept.isOk_iff {base : ℤ} {env : Env} {v : VariableRateSchedule} {r : Address} {host : Host}
    {accrue : VariableRateSchedule → UInt32 → Except Failure ℤ}
    (haccrue : accrue = accruedVariable ∨ accrue = accruedVariableSecond)
    (h : Kept D token base env) (hbase : 0 ≤ base)
    (hv : getVariableSchedule env.persistent r = some v) (htoken : v.token = token) :
    (claimVariableVestedWith accrue D host r env).isOk = true ↔
      Ready D host r v (due v host.sequence) := by
  have hres := h.reserved r v hv
  constructor
  · intro hok
    obtain ⟨⟨paid, env'⟩, hclaim⟩ := exists_ok_of_isOk hok
    obtain ⟨w, b, hp, hpaid, -, -⟩ := claimVariableVestedWith_eq_ok.mp hclaim
    obtain rfl := Option.some.inj (hv.symm.trans hp.live)
    rw [hres.amount_eq haccrue, Except.ok.injEq] at hpaid
    subst hpaid
    exact ⟨hp.auth, hp.ne, hp.cliff, (hres.due_ne_zero_iff _).mp hp.paid_ne, hp.accepted⟩
  · intro hready
    have hfits := hres.fits host.sequence
    have hlock := h.unlocked
    have hcovers := h.covers hbase hv htoken host.sequence
    subst htoken
    obtain ⟨b, hb, -⟩ := exists_tryTransfer hready.accepted (hres.due_nonneg _) hcovers
    have hpayable : Payable D host r env v (due v host.sequence) := {
      auth := hready.auth
      ne := hready.ne
      live := hv
      unpaused := hres.unpaused
      cliff := hready.cliff
      paid_ne := (hres.due_ne_zero_iff _).mpr hready.last_lt
      unlocked := by rw [hlock]; rfl
      accepted := hready.accepted
      total_fits := by rw [hres.total]; exact hfits
      claimed_fits := hfits }
    rw [claimVariableVestedWith_eq_ok.mpr ⟨v, b, hpayable, hres.amount_eq haccrue _, hb, rfl⟩]
    rfl

/-- Both definitions lead to the same claim, also where it fails. -/
theorem Kept.claims_coincide {base : ℤ} {env : Env} (h : Kept D token base env) (host : Host)
    (r : Address) : claimVariableVestedSecond D host r env = claimVariableVested D host r env := by
  unfold claimVariableVestedSecond claimVariableVested claimVariableVestedWith
  refine bind_congr_of_ok fun _ e hauth => ?_
  obtain ⟨-, rfl⟩ := ensure_ok.mp hauth
  refine bind_congr_of_ok fun st e hst => ?_
  obtain ⟨rfl, rfl⟩ := asks_ok.mp hst
  refine bind_congr_of_ok fun v e hneed => ?_
  obtain ⟨hv, rfl⟩ := need_ok.mp hneed
  have hres := h.reserved r v hv
  have hfirst := hres.amount_eq (Or.inl rfl) host.sequence
  have hsecond := hres.amount_eq (Or.inr rfl) host.sequence
  rw [hfirst, hsecond]

/-- **A claim fails for the source's reasons only.** In every state of a run in which no fixed-rate
stream is created in a token, the claim of a stream in it succeeds exactly if the recipient
authorises it, the cliff and the last claim are past, and the token accepts the transfer. It pays
what accrued since the last claim, from the end on all that is left; the two definitions of the
amount do not differ. -/
theorem claimVariable_exact (hD : D.ReadsById) (h : Segregated D token (emptyEnv balances) l) :
    AllStates (stepAny D) (fun env => ∀ (host : Host) (r : Address) (v : VariableRateSchedule),
      getVariableSchedule env.persistent r = some v → v.token = token →
        claimVariableVestedSecond D host r env = claimVariableVested D host r env ∧
        ∃ amount, computeVariableClaimable v.lastClaimedLedger (min host.sequence v.endLedger)
            v.segments 0 v.startLedger = .ok amount ∧
          ((claimVariableVested D host r env).isOk = true ↔ Ready D host r v amount) ∧
          ∀ paid env', claimVariableVested D host r env = .ok (paid, env') → paid = amount ∧
            (v.endLedger ≤ host.sequence → paid = v.totalDeposited - v.claimedAmount ∧
              getVariableSchedule env'.persistent r = none)) (emptyEnv balances) l := by
  refine (kept_run hD h).imp fun env henv host r v hv htoken => ?_
  have hres := henv.reserved r v hv
  refine ⟨henv.claims_coincide host r, due v host.sequence,
    hres.segments.claimable_eq _ _, ?_, fun paid env' hclaim => ?_⟩
  · exact henv.isOk_iff (Or.inl rfl) (Int.natCast_nonneg _) hv htoken
  · obtain ⟨w, hc⟩ := claimed_of_ok (Or.inl rfl) (henv.reserved r) hclaim
    obtain rfl := Option.some.inj (hv.symm.trans hc.live)
    refine ⟨hc.paid_eq, fun hend => ⟨hc.paid_eq.trans (hres.due_of_end hend), ?_⟩⟩
    rw [hc.persistent, if_pos hend, getVariableSchedule_remove, if_pos rfl]

/-- What the run stores for the recipient of the sample stream. -/
def sampleStored : VariableRateSchedule :=
  newVariableSchedule sampleVariableStream 100 150 300 [⟨200, 1⟩, ⟨300, 3⟩] 400

/-- At ledger 220 it has accrued 160 tokens. -/
theorem claimVariable_exact_sample :
    (claimVariableVested sampleDeployment (sampleHost 220) ⟨2⟩
        (run (stepAny sampleDeployment) (emptyEnv sampleStart.balances)
          (sampleMixed.take 3))).isOk = true ↔
      Ready sampleDeployment (sampleHost 220) ⟨2⟩ sampleStored 160 := by
  have hstored : getVariableSchedule (run (stepAny sampleDeployment) (emptyEnv sampleStart.balances)
      (sampleMixed.take 3)).persistent ⟨2⟩ = some sampleStored := by
    decide +kernel
  have hseg : Segregated sampleDeployment ⟨10⟩ (emptyEnv sampleStart.balances)
      (sampleMixed.take 3) := by
    unfold Segregated
    decide +kernel
  obtain ⟨-, amount, hamount, hiff, -⟩ := (claimVariable_exact sampleDeployment_readsById
    hseg).last (sampleHost 220) ⟨2⟩ sampleStored hstored rfl
  have heq : amount = 160 := by
    have hcomputed : computeVariableClaimable 100 (min 220 300) sampleStored.segments 0 100 =
      .ok 160 := rfl
    exact Except.ok.inj (hamount.symm.trans hcomputed)
  rw [heq] at hiff
  exact hiff

end Runs

end VestingDripStream.Contract.VariableReserves
