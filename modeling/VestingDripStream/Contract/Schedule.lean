import VestingDripStream.Contract.Types
import VestingDripStream.Lib.Transaction

/-! # What the entry points compute from one schedule

Each entry point on a stream reads a schedule, computes, moves tokens and writes a schedule back or
removes it. The functions here are the computations, with the source's order of checks and its
formulas: `pauseSchedule` and `resumeSchedule` (both pairs of definitions in `contract.rs`),
the accrual, the fee split and the bookkeeping of `claim_vested`'s loop body, the split of
`cancel_stream`, and the amounts of `clawback_stream` and of the two drains.

The lemmas ending in `_ok` say what a successful computation checked and returned. -/

namespace VestingDripStream.Contract.Schedule

open VestingDripStream.Lib.Checked VestingDripStream.Lib.Transaction
open VestingDripStream.Contract.Types

/-- A plain operation that traps on overflow. -/
def plain {α : Type} (o : Option α) : Except Failure α := orFail o .trap

/-- A checked operation whose overflow the source reports as `DepositOverflow`. -/
def orOverflow {α : Type} (o : Option α) : Except Failure α := orFail o (.err .depositOverflow)

/-! ### Deposits -/

/-- `calculate_total_deposit`. -/
def calculateTotalDeposit (rate : ℤ) (totalDuration : UInt32) : Except Failure ℤ := do
  let raw ← orOverflow (checked (rate * asI128 totalDuration))
  .ok (raw.tdiv rateDecimals)

/-! ### Pause and resume -/

/-- `pause_stream`, first definition. -/
def pauseSchedule (s : VestingSchedule) (sponsor : Address) (current : UInt32) :
    Except Failure VestingSchedule :=
  if s.sponsor ≠ sponsor then .error (.err .unauthorized)
  else if s.pausedAtLedger.isSome then .error (.err .streamAlreadyPaused)
  else { s with pausedAtLedger := some current }.incrementVersion

/-- `pause_stream`, second definition: the version is not incremented. -/
def pauseScheduleSecond (s : VestingSchedule) (sponsor : Address) (current : UInt32) :
    Except Failure VestingSchedule :=
  if s.sponsor ≠ sponsor then .error (.err .unauthorized)
  else if s.pausedAtLedger.isSome then .error (.err .streamAlreadyPaused)
  else .ok { s with pausedAtLedger := some current }

/-- `resume_stream`, first definition: all ledgers of the schedule are shifted. -/
def resumeSchedule (s : VestingSchedule) (sponsor : Address) (current : UInt32) :
    Except Failure VestingSchedule :=
  if s.sponsor ≠ sponsor then .error (.err .unauthorized)
  else match s.pausedAtLedger with
    | none => .error (.err .streamNotPaused)
    | some pausedAt =>
      let pausedDuration := saturatingSub current pausedAt
      { s with
        accumulatedPauseLedgers := saturatingAdd s.accumulatedPauseLedgers pausedDuration
        startLedger := saturatingAdd s.startLedger pausedDuration
        cliffLedger := saturatingAdd s.cliffLedger pausedDuration
        endLedger := saturatingAdd s.endLedger pausedDuration
        lastClaimedLedger := saturatingAdd s.lastClaimedLedger pausedDuration
        pausedAtLedger := none }.incrementVersion

/-- `resume_stream`, second definition: only the end and the cliff are shifted. -/
def resumeScheduleSecond (s : VestingSchedule) (sponsor : Address) (current : UInt32) :
    Except Failure VestingSchedule :=
  if s.sponsor ≠ sponsor then .error (.err .unauthorized)
  else match s.pausedAtLedger with
    | none => .error (.err .streamNotPaused)
    | some pausedAt =>
      let pausedDuration := saturatingSub current pausedAt
      .ok { s with
        accumulatedPauseLedgers := saturatingAdd s.accumulatedPauseLedgers pausedDuration
        endLedger := saturatingAdd s.endLedger pausedDuration
        cliffLedger := saturatingAdd s.cliffLedger pausedDuration
        pausedAtLedger := none }

/-- No addition of `resume_stream` at ledger `current` saturates. -/
def ResumeFits (s : VestingSchedule) (current : UInt32) : Prop :=
  ∀ pausedAt, s.pausedAtLedger = some pausedAt →
    s.accumulatedPauseLedgers.toNat + (current.toNat - pausedAt.toNat) < UInt32.size ∧
    s.startLedger.toNat + (current.toNat - pausedAt.toNat) < UInt32.size ∧
    s.cliffLedger.toNat + (current.toNat - pausedAt.toNat) < UInt32.size ∧
    s.endLedger.toNat + (current.toNat - pausedAt.toNat) < UInt32.size ∧
    s.lastClaimedLedger.toNat + (current.toNat - pausedAt.toNat) < UInt32.size

-- Named, as instance search would otherwise enumerate the type of ledgers.
instance (s : VestingSchedule) (current : UInt32) : Decidable (ResumeFits s current) :=
  Option.decidableForallMem s.pausedAtLedger

/-! ### Claims -/

/-- `total_deposited` and the claimable amount of an active stream at `current`: the formula shared
by `claim_vested` and `claimable_amount`. -/
def dueAmount (s : VestingSchedule) (current : UInt32) : Except Failure (ℤ × ℤ) := do
  let duration ← plain (plainSub s.endLedger s.startLedger)
  let totalDeposited ← orOverflow (checked (asI128 duration * s.ratePerLedger))
  if s.endLedger ≤ current then do
    let claimable ← orOverflow (checked (totalDeposited - s.claimedAmount))
    .ok (totalDeposited, claimable)
  else do
    let activeEnd := min current s.endLedger
    let elapsed ← plain (plainSub activeEnd s.lastClaimedLedger)
    let claimable ← orOverflow (checked (asI128 elapsed * s.ratePerLedger))
    .ok (totalDeposited, claimable)

/-- `claimable_amount` on a schedule (the definition that returns a `Result`). -/
def claimableAmount (s : VestingSchedule) (current : UInt32) : Except Failure ℤ :=
  if s.pausedAtLedger.isSome then .ok 0
  else if current < s.cliffLedger then .ok 0
  else do
    let (_, claimable) ← dueAmount s current
    .ok claimable

/-- What the loop body of `claim_vested` finds: a stream to skip, with the error it stands for when
this stream was asked for, or an amount due. -/
inductive Accrual
  | skip (reason : VestingError)
  | due (schedule : VestingSchedule) (totalDeposited claimable : ℤ)

/-- The loop body of `claim_vested` up to the fee split. -/
def accrue (s : VestingSchedule) (current : UInt32) : Except Failure Accrual :=
  if s.pausedAtLedger.isSome then .ok (.skip .nothingToClaim)
  else if current < s.cliffLedger then .ok (.skip .cliffNotReached)
  else do
    let s ← s.incrementVersion
    let (totalDeposited, claimable) ← dueAmount s current
    if claimable = 0 then .ok (.skip .nothingToClaim)
    else do
      let s ← s.incrementVersion
      .ok (.due s totalDeposited claimable)

/-- The protocol fee on an amount, in basis points. -/
def protocolFee (feeBps : UInt32) (amount : ℤ) : Except Failure ℤ :=
  if 0 < feeBps then do
    let product ← orOverflow (checked (amount * asI128 feeBps))
    .ok (product.tdiv 10000)
  else .ok 0

/-- The protocol fee of a claim and what is left of it for the recipient. -/
def feeSplit (feeBps : UInt32) (claimable : ℤ) : Except Failure (ℤ × ℤ) := do
  let feeAmount ← protocolFee feeBps claimable
  let netAmount ← orOverflow (checked (claimable - feeAmount))
  .ok (feeAmount, netAmount)

/-- The schedule after a paid claim. -/
def settle (s : VestingSchedule) (current : UInt32) (claimable : ℤ) :
    Except Failure VestingSchedule := do
  let totalClaimed ← plain (checked (s.totalClaimed + claimable))
  let claimedAmount ← plain (checked (s.claimedAmount + claimable))
  .ok { s with lastClaimedLedger := min current s.endLedger, totalClaimed, claimedAmount }

/-- What a paid claim on one schedule pays and leaves. -/
structure ClaimReceipt where
  gross : ℤ
  fee : ℤ
  net : ℤ
  schedule : VestingSchedule
  /-- The stream is fully claimed: the schedule is removed instead of stored. -/
  finished : Bool

/-- The loop body of `claim_vested` on a schedule whose transfers succeed. -/
def claimSchedule (s : VestingSchedule) (current feeBps : UInt32) :
    Except Failure ClaimReceipt := do
  match ← accrue s current with
  | .skip reason => .error (.err reason)
  | .due s totalDeposited claimable => do
    let (fee, net) ← feeSplit feeBps claimable
    let s ← settle s current claimable
    .ok { gross := claimable, fee, net, schedule := s,
          finished := decide (totalDeposited ≤ s.claimedAmount) }

/-! ### Cancellation, clawback and drains -/

/-- The recipient's share and the sponsor's refund of `cancel_stream`. -/
def cancelSplit (s : VestingSchedule) (current : UInt32) : Except Failure (ℤ × ℤ) := do
  let s ← s.incrementVersion
  let duration ← plain (plainSub s.endLedger s.startLedger)
  let totalDeposited ← orOverflow (checked (asI128 duration * s.ratePerLedger))
  let effectiveLedger := s.pausedAtLedger.getD current
  if s.cliffLedger ≤ effectiveLedger then do
    let activeEnd := min effectiveLedger s.endLedger
    let earnedLedgers ← plain (plainSub activeEnd s.lastClaimedLedger)
    let earned ← orOverflow (checked (asI128 earnedLedgers * s.ratePerLedger))
    let rest ← orOverflow (checked (totalDeposited - s.claimedAmount))
    let refund ← orOverflow (checked (rest - earned))
    .ok (earned, max refund 0)
  else do
    let refund ← orOverflow (checked (totalDeposited - s.claimedAmount))
    .ok (0, max refund 0)

/-- The amount `clawback_stream` recovers. -/
def clawbackRemaining (s : VestingSchedule) : Except Failure ℤ := do
  let ledgers ← plain (plainSub s.endLedger s.lastClaimedLedger)
  plain (checked (asI128 ledgers * s.ratePerLedger))

/-- `DRAIN_DELAY_LEDGERS`. -/
def drainDelayLedgers : UInt32 := 3153600

/-- The checks and the amount of `drain_expired_stream`. -/
def drainRemaining (s : VestingSchedule) (current : UInt32) : Except Failure ℤ :=
  if current < s.endLedger then .error (.err .streamNotExpired)
  else do
    let drainAvailableAt ← orOverflow (checkedAdd s.endLedger drainDelayLedgers)
    if current < drainAvailableAt then .error (.err .drainDelayNotExpired)
    else do
      let duration ← plain (plainSub s.endLedger s.startLedger)
      let totalDeposit := match calculateTotalDeposit s.ratePerLedger duration with
        | .ok d => d
        | .error _ => 0
      .ok (saturated (totalDeposit - s.totalClaimed))

/-- The checks and the amount of `emergency_drain`, after its sponsor check. -/
def emergencyAmount (s : VestingSchedule) (current : UInt32) : Except Failure ℤ :=
  if current < s.endLedger then .error (.err .streamNotExpired)
  else if current < saturatingAdd s.endLedger drainDelayLedgers then
    .error (.err .drainDelayNotExpired)
  else do
    let duration ← plain (plainSub s.endLedger s.startLedger)
    let totalDeposited ← orOverflow (checked (asI128 duration * s.ratePerLedger))
    orOverflow (checked (totalDeposited - s.claimedAmount))

/-! ### What success means -/

section Success

variable {s s' : VestingSchedule} {sponsor : Address} {current feeBps : UInt32}

theorem plain_ok {α : Type} {o : Option α} {a : α} : plain o = .ok a ↔ o = some a := orFail_ok

theorem orOverflow_ok {α : Type} {o : Option α} {a : α} : orOverflow o = .ok a ↔ o = some a :=
  orFail_ok

theorem calculateTotalDeposit_ok {rate : ℤ} {d : UInt32} {deposit : ℤ}
    (h : calculateTotalDeposit rate d = .ok deposit) :
    InI128 (rate * d.toNat) ∧ deposit = (rate * d.toNat).tdiv rateDecimals := by
  simp only [calculateTotalDeposit, except_bind_ok, orOverflow_ok, checked_eq_some,
    Except.ok.injEq] at h
  obtain ⟨raw, ⟨hin, rfl⟩, rfl⟩ := h
  exact ⟨hin, rfl⟩

theorem pauseSchedule_ok (h : pauseSchedule s sponsor current = .ok s') :
    s.sponsor = sponsor ∧ s.pausedAtLedger = none ∧ s'.version.toNat = s.version.toNat + 1 ∧
      s' = { s with pausedAtLedger := some current, version := s'.version } := by
  unfold pauseSchedule at h
  split_ifs at h with h1 h2
  obtain ⟨hv, hs⟩ := incrementVersion_ok h
  exact ⟨not_ne_iff.mp h1, by simpa using h2, hv, hs⟩

/-- A successful resumption, saturating or not. -/
theorem resumeSchedule_eq (h : resumeSchedule s sponsor current = .ok s') :
    ∃ p, s.pausedAtLedger = some p ∧ s.sponsor = sponsor ∧
      s'.version.toNat = s.version.toNat + 1 ∧
      s' = { s with
        accumulatedPauseLedgers := saturatingAdd s.accumulatedPauseLedgers (saturatingSub current p)
        startLedger := saturatingAdd s.startLedger (saturatingSub current p)
        cliffLedger := saturatingAdd s.cliffLedger (saturatingSub current p)
        endLedger := saturatingAdd s.endLedger (saturatingSub current p)
        lastClaimedLedger := saturatingAdd s.lastClaimedLedger (saturatingSub current p)
        pausedAtLedger := none, version := s'.version } := by
  unfold resumeSchedule at h
  split_ifs at h with h1
  cases hp : s.pausedAtLedger with
  | none => rw [hp] at h; cases h
  | some p =>
    rw [hp] at h
    obtain ⟨hv, hs⟩ := incrementVersion_ok h
    exact ⟨p, rfl, not_ne_iff.mp h1, hv, hs⟩

theorem pauseScheduleSecond_ok (h : pauseScheduleSecond s sponsor current = .ok s') :
    s.sponsor = sponsor ∧ s.pausedAtLedger = none ∧
      s' = { s with pausedAtLedger := some current } := by
  unfold pauseScheduleSecond at h
  split_ifs at h with h1 h2
  simp only [Except.ok.injEq] at h
  exact ⟨not_ne_iff.mp h1, by simpa using h2, h.symm⟩

/-- A successful resumption by the second definition, saturating or not. -/
theorem resumeScheduleSecond_eq (h : resumeScheduleSecond s sponsor current = .ok s') :
    ∃ p, s.pausedAtLedger = some p ∧ s.sponsor = sponsor ∧
      s' = { s with
        accumulatedPauseLedgers := saturatingAdd s.accumulatedPauseLedgers (saturatingSub current p)
        endLedger := saturatingAdd s.endLedger (saturatingSub current p)
        cliffLedger := saturatingAdd s.cliffLedger (saturatingSub current p)
        pausedAtLedger := none } := by
  unfold resumeScheduleSecond at h
  split_ifs at h with h1
  cases hp : s.pausedAtLedger with
  | none => rw [hp] at h; cases h
  | some p =>
    rw [hp] at h
    simp only [Except.ok.injEq] at h
    exact ⟨p, rfl, not_ne_iff.mp h1, h.symm⟩

/-- A resumption that does not saturate shifts the ledgers by the length of the pause. -/
theorem resumeSchedule_ok (h : resumeSchedule s sponsor current = .ok s')
    (hfit : ResumeFits s current) :
    ∃ p, s.pausedAtLedger = some p ∧ s'.pausedAtLedger = none ∧
      s'.version.toNat = s.version.toNat + 1 ∧
      s'.startLedger.toNat = s.startLedger.toNat + (current.toNat - p.toNat) ∧
      s'.cliffLedger.toNat = s.cliffLedger.toNat + (current.toNat - p.toNat) ∧
      s'.endLedger.toNat = s.endLedger.toNat + (current.toNat - p.toNat) ∧
      s'.lastClaimedLedger.toNat = s.lastClaimedLedger.toNat + (current.toNat - p.toNat) ∧
      s'.ratePerLedger = s.ratePerLedger ∧ s'.totalClaimed = s.totalClaimed ∧
      s'.claimedAmount = s.claimedAmount := by
  obtain ⟨p, hp, -, hv, hs⟩ := resumeSchedule_eq h
  obtain ⟨-, f2, f3, f4, f5⟩ := hfit p hp
  simp only [← toNat_saturatingSub] at f2 f3 f4 f5 ⊢
  refine ⟨p, hp, by rw [hs], hv, ?_, ?_, ?_, ?_, by rw [hs], by rw [hs], by rw [hs]⟩
  · rw [hs]; exact toNat_saturatingAdd f2
  · rw [hs]; exact toNat_saturatingAdd f3
  · rw [hs]; exact toNat_saturatingAdd f4
  · rw [hs]; exact toNat_saturatingAdd f5

/-- `duration * rate` is the total of the schedule. -/
theorem total_eq {duration : UInt32} (h : plainSub s.endLedger s.startLedger = some duration) :
    asI128 duration * s.ratePerLedger = s.total := by
  rw [plainSub_eq_some] at h
  unfold asI128 VestingSchedule.total
  rw [h, mul_comm]
  push_cast
  ring

theorem dueAmount_ok {t c : ℤ} (h : dueAmount s current = .ok (t, c)) :
    s.startLedger.toNat ≤ s.endLedger.toNat ∧ t = s.total ∧ InI128 t ∧ InI128 c ∧
      (s.endLedger.toNat ≤ current.toNat ∧ c = s.total - s.claimedAmount ∨
        current.toNat < s.endLedger.toNat ∧ s.lastClaimedLedger.toNat ≤ current.toNat ∧
        c = s.ratePerLedger * ((current.toNat : ℤ) - s.lastClaimedLedger.toNat)) := by
  simp only [dueAmount, except_bind_ok, plain_ok, orOverflow_ok, checked_eq_some] at h
  obtain ⟨duration, hd, total, ⟨hin, rfl⟩, h⟩ := h
  rw [total_eq hd] at hin h
  have hle := plainSub_eq_some.mp hd
  refine ⟨by omega, ?_⟩
  split_ifs at h with hend
  · simp only [except_bind_ok, orOverflow_ok, checked_eq_some, Except.ok.injEq,
      Prod.mk.injEq] at h
    obtain ⟨c', ⟨hc, rfl⟩, rfl, rfl⟩ := h
    exact ⟨rfl, hin, hc, Or.inl ⟨UInt32.le_iff_toNat_le.mp hend, rfl⟩⟩
  · simp only [except_bind_ok, plain_ok, orOverflow_ok, checked_eq_some, Except.ok.injEq,
      Prod.mk.injEq] at h
    obtain ⟨e, he, c', ⟨hc, rfl⟩, rfl, rfl⟩ := h
    rw [UInt32.le_iff_toNat_le] at hend
    rw [plainSub_eq_some, toNat_min] at he
    refine ⟨rfl, hin, hc, Or.inr ⟨by omega, by omega, ?_⟩⟩
    have hcur : (current.toNat : ℤ) = s.lastClaimedLedger.toNat + e.toNat := by
      rw [← Nat.cast_add, ← he]
      congr 1
      omega
    rw [hcur, asI128]
    ring

/-- The amount does not depend on the version. -/
theorem dueAmount_version (v : UInt32) :
    dueAmount { s with version := v } current = dueAmount s current := rfl

theorem accrue_due {t c : ℤ} (h : accrue s current = .ok (.due s' t c)) :
    s.pausedAtLedger = none ∧ s.cliffLedger.toNat ≤ current.toNat ∧ c ≠ 0 ∧
      s'.version.toNat = s.version.toNat + 2 ∧ s' = { s with version := s'.version } ∧
      dueAmount s current = .ok (t, c) := by
  unfold accrue at h
  split_ifs at h with h1 h2
  · cases h
  · cases h
  · simp only [except_bind_ok] at h
    obtain ⟨s1, hs1, ⟨t', c'⟩, hdue, h⟩ := h
    obtain ⟨hv1, hs1⟩ := incrementVersion_ok hs1
    rw [hs1, dueAmount_version] at hdue
    simp only at h
    split_ifs at h with h0
    · cases h
    · simp only [except_bind_ok, Except.ok.injEq, Accrual.due.injEq] at h
      obtain ⟨s2, hs2, rfl, rfl, rfl⟩ := h
      obtain ⟨hv2, hs2⟩ := incrementVersion_ok hs2
      rw [UInt32.lt_iff_toNat_lt] at h2
      refine ⟨by simpa using h1, by omega, h0, by omega, ?_, hdue⟩
      rw [hs2, hs1]

theorem protocolFee_ok {a fee : ℤ} (h : protocolFee feeBps a = .ok fee) :
    fee = (a * feeBps.toNat).tdiv 10000 := by
  unfold protocolFee at h
  split_ifs at h with hpos
  · simp only [except_bind_ok, orOverflow_ok, checked_eq_some, Except.ok.injEq] at h
    obtain ⟨p, ⟨-, rfl⟩, rfl⟩ := h
    rfl
  · simp only [Except.ok.injEq] at h
    have h0 : feeBps.toNat = 0 := by
      rw [UInt32.lt_iff_toNat_lt] at hpos
      simpa using hpos
    rw [← h, h0]
    simp

theorem protocolFee_nonneg {a fee : ℤ} (h : protocolFee feeBps a = .ok fee) (ha : 0 ≤ a) :
    0 ≤ fee := by
  rw [protocolFee_ok h]
  exact Int.tdiv_nonneg (mul_nonneg ha (Int.natCast_nonneg _)) (by norm_num)

theorem feeSplit_ok {c fee net : ℤ} (h : feeSplit feeBps c = .ok (fee, net)) :
    fee + net = c ∧ (0 ≤ c → 0 ≤ fee) := by
  simp only [feeSplit, except_bind_ok, orOverflow_ok, checked_eq_some, Except.ok.injEq,
    Prod.mk.injEq] at h
  obtain ⟨fee', hfee, net', ⟨-, rfl⟩, rfl, rfl⟩ := h
  exact ⟨by ring, protocolFee_nonneg hfee⟩

theorem settle_ok {c : ℤ} (h : settle s current c = .ok s') :
    s' = { s with lastClaimedLedger := min current s.endLedger
                  totalClaimed := s.totalClaimed + c, claimedAmount := s.claimedAmount + c } := by
  simp only [settle, except_bind_ok, plain_ok, checked_eq_some, Except.ok.injEq] at h
  obtain ⟨a, ⟨-, rfl⟩, b, ⟨-, rfl⟩, rfl⟩ := h
  rfl

/-- **A paid claim** on one schedule. -/
theorem claimSchedule_ok {rc : ClaimReceipt} (h : claimSchedule s current feeBps = .ok rc) :
    s.pausedAtLedger = none ∧ s.cliffLedger.toNat ≤ current.toNat ∧ rc.gross ≠ 0 ∧
      rc.fee + rc.net = rc.gross ∧ (0 ≤ rc.gross → 0 ≤ rc.fee) ∧
      dueAmount s current = .ok (s.total, rc.gross) ∧
      rc.schedule.version.toNat = s.version.toNat + 2 ∧
      rc.schedule = { s with
        lastClaimedLedger := min current s.endLedger
        totalClaimed := s.totalClaimed + rc.gross, claimedAmount := s.claimedAmount + rc.gross
        version := rc.schedule.version } ∧
      (rc.finished = true ↔ s.total ≤ s.claimedAmount + rc.gross) := by
  simp only [claimSchedule, except_bind_ok] at h
  obtain ⟨a, ha, h⟩ := h
  cases a with
  | skip e => cases h
  | due s1 t c =>
    obtain ⟨hp, hcl, hc, hv, hs1, hdue⟩ := accrue_due ha
    simp only [except_bind_ok, Except.ok.injEq] at h
    obtain ⟨⟨fee, net⟩, hfee, s2, hs2, rfl⟩ := h
    have hs2 := settle_ok hs2
    have ht : t = s.total := (dueAmount_ok hdue).2.1
    obtain ⟨hsum, hnn⟩ := feeSplit_ok hfee
    rw [hs1] at hs2
    refine ⟨hp, hcl, hc, hsum, hnn, by rw [hdue, ht], ?_, ?_, ?_⟩
    · rw [hs2]; exact hv
    · rw [hs2]
    · rw [hs2, ht]; simp

theorem cancelSplit_ok {share refund : ℤ} (h : cancelSplit s current = .ok (share, refund)) :
    s.startLedger.toNat ≤ s.endLedger.toNat ∧
      (s.cliffLedger.toNat ≤ (s.pausedAtLedger.getD current).toNat ∧
        s.lastClaimedLedger.toNat ≤
          min (s.pausedAtLedger.getD current).toNat s.endLedger.toNat ∧
        share = s.ratePerLedger *
          ((min (s.pausedAtLedger.getD current).toNat s.endLedger.toNat : ℤ) -
            s.lastClaimedLedger.toNat) ∧
        refund = max (s.owed - share) 0 ∨
      (s.pausedAtLedger.getD current).toNat < s.cliffLedger.toNat ∧ share = 0 ∧
        refund = max s.owed 0) := by
  simp only [cancelSplit, except_bind_ok, plain_ok, orOverflow_ok, checked_eq_some] at h
  obtain ⟨s1, hs1, duration, hd, total, ⟨-, rfl⟩, h⟩ := h
  obtain ⟨-, hs1⟩ := incrementVersion_ok hs1
  rw [hs1] at hd h
  have hd' : plainSub s.endLedger s.startLedger = some duration := hd
  have ht : asI128 duration * s.ratePerLedger = s.total := total_eq hd'
  have hle := plainSub_eq_some.mp hd'
  simp only [ht] at h
  refine ⟨by omega, ?_⟩
  split_ifs at h with hcl
  · simp only [except_bind_ok, plain_ok, orOverflow_ok, checked_eq_some, Except.ok.injEq,
      Prod.mk.injEq] at h
    obtain ⟨e, he, earned, ⟨-, rfl⟩, rest, ⟨-, rfl⟩, r, ⟨-, rfl⟩, rfl, rfl⟩ := h
    rw [plainSub_eq_some, toNat_min] at he
    left
    refine ⟨UInt32.le_iff_toNat_le.mp hcl, by omega, ?_, rfl⟩
    have hmin : (min (s.pausedAtLedger.getD current).toNat s.endLedger.toNat : ℤ) =
        s.lastClaimedLedger.toNat + e.toNat := by
      rw [← Nat.cast_min, he, Nat.cast_add]
    rw [hmin, asI128]
    ring
  · simp only [except_bind_ok, orOverflow_ok, checked_eq_some, Except.ok.injEq,
      Prod.mk.injEq] at h
    obtain ⟨r, ⟨-, rfl⟩, rfl, rfl⟩ := h
    rw [UInt32.le_iff_toNat_le] at hcl
    exact Or.inr ⟨by omega, rfl, rfl⟩

theorem clawbackRemaining_ok {a : ℤ} (h : clawbackRemaining s = .ok a) :
    s.lastClaimedLedger.toNat ≤ s.endLedger.toNat ∧
      a = s.ratePerLedger * ((s.endLedger.toNat : ℤ) - s.lastClaimedLedger.toNat) := by
  simp only [clawbackRemaining, except_bind_ok, plain_ok, checked_eq_some] at h
  obtain ⟨d, hd, -, rfl⟩ := h
  rw [plainSub_eq_some] at hd
  refine ⟨by omega, ?_⟩
  rw [hd, asI128]
  push_cast
  ring

end Success

/-! ### Failures of the arithmetic -/

/-- The failures of the arithmetic on schedules. -/
def arithmeticFailures : List Failure := [.trap, .err .depositOverflow, .err .versionOverflow]

/-- The computation fails by its arithmetic only. -/
def OnlyOverflows {α : Type} (x : Except Failure α) : Prop :=
  ∀ e, x = .error e → e ∈ arithmeticFailures

section Overflow

variable {α β : Type} {x : Except Failure α}

theorem OnlyOverflows.ne {e : Failure} (h : OnlyOverflows x) (he : e ∉ arithmeticFailures) :
    x ≠ .error e :=
  fun hx => he (h e hx)

theorem onlyOverflows_ok (a : α) : OnlyOverflows (.ok a : Except Failure α) := nofun

theorem OnlyOverflows.bind {f : α → Except Failure β} (hx : OnlyOverflows x)
    (hf : ∀ a, OnlyOverflows (f a)) : OnlyOverflows (x >>= f) := by
  cases x with
  | error e =>
    rintro _ ⟨⟩
    exact hx e rfl
  | ok a => exact hf a

theorem onlyOverflows_plain (o : Option α) : OnlyOverflows (plain o) := by
  cases o with
  | none => rintro _ ⟨⟩; decide
  | some a => exact onlyOverflows_ok a

theorem onlyOverflows_orOverflow (o : Option α) : OnlyOverflows (orOverflow o) := by
  cases o with
  | none => rintro _ ⟨⟩; decide
  | some a => exact onlyOverflows_ok a

theorem onlyOverflows_incrementVersion (s : VestingSchedule) :
    OnlyOverflows s.incrementVersion := by
  unfold VestingSchedule.incrementVersion
  split
  · exact onlyOverflows_ok _
  · rintro _ ⟨⟩; decide

theorem onlyOverflows_dueAmount (s : VestingSchedule) (current : UInt32) :
    OnlyOverflows (dueAmount s current) := by
  refine (onlyOverflows_plain _).bind fun duration => (onlyOverflows_orOverflow _).bind fun _ => ?_
  show OnlyOverflows (if _ then _ else _)
  split_ifs
  · exact (onlyOverflows_orOverflow _).bind fun _ => onlyOverflows_ok _
  · exact (onlyOverflows_plain _).bind fun _ =>
      (onlyOverflows_orOverflow _).bind fun _ => onlyOverflows_ok _

theorem onlyOverflows_accrue (s : VestingSchedule) (current : UInt32) :
    OnlyOverflows (accrue s current) := by
  unfold accrue
  split_ifs
  · exact onlyOverflows_ok _
  · exact onlyOverflows_ok _
  · refine (onlyOverflows_incrementVersion s).bind fun s =>
      (onlyOverflows_dueAmount s current).bind fun due => ?_
    show OnlyOverflows (if _ then _ else _)
    split_ifs
    · exact onlyOverflows_ok _
    · exact (onlyOverflows_incrementVersion s).bind fun _ => onlyOverflows_ok _

theorem onlyOverflows_protocolFee (feeBps : UInt32) (amount : ℤ) :
    OnlyOverflows (protocolFee feeBps amount) := by
  unfold protocolFee
  split_ifs
  · exact (onlyOverflows_orOverflow _).bind fun _ => onlyOverflows_ok _
  · exact onlyOverflows_ok _

theorem onlyOverflows_feeSplit (feeBps : UInt32) (claimable : ℤ) :
    OnlyOverflows (feeSplit feeBps claimable) :=
  (onlyOverflows_protocolFee _ _).bind fun _ =>
    (onlyOverflows_orOverflow _).bind fun _ => onlyOverflows_ok _

theorem onlyOverflows_settle (s : VestingSchedule) (current : UInt32) (claimable : ℤ) :
    OnlyOverflows (settle s current claimable) :=
  (onlyOverflows_plain _).bind fun _ => (onlyOverflows_plain _).bind fun _ => onlyOverflows_ok _

theorem onlyOverflows_cancelSplit (s : VestingSchedule) (current : UInt32) :
    OnlyOverflows (cancelSplit s current) := by
  refine (onlyOverflows_incrementVersion s).bind fun s => (onlyOverflows_plain _).bind fun _ =>
    (onlyOverflows_orOverflow _).bind fun _ => ?_
  show OnlyOverflows (if _ then _ else _)
  split_ifs
  · exact (onlyOverflows_plain _).bind fun _ => (onlyOverflows_orOverflow _).bind fun _ =>
      (onlyOverflows_orOverflow _).bind fun _ => (onlyOverflows_orOverflow _).bind fun _ =>
        onlyOverflows_ok _
  · exact (onlyOverflows_orOverflow _).bind fun _ => onlyOverflows_ok _

/-- A claim passes a stream over for one of two reasons. -/
theorem accrue_skip {s : VestingSchedule} {current : UInt32} {reason : VestingError}
    (h : accrue s current = .ok (.skip reason)) :
    reason = .nothingToClaim ∨ reason = .cliffNotReached := by
  unfold accrue at h
  split_ifs at h
  · cases h; exact Or.inl rfl
  · cases h; exact Or.inr rfl
  · simp only [except_bind_ok] at h
    obtain ⟨s1, -, ⟨total, claimable⟩, -, h⟩ := h
    simp only at h
    split_ifs at h
    · cases h; exact Or.inl rfl
    · simp only [except_bind_ok] at h
      obtain ⟨s2, -, h⟩ := h
      cases h

end Overflow

end VestingDripStream.Contract.Schedule
