import VestingDripStream.Contract.Agreement
import VestingDripStream.Contract.Announced

/-! # The statistics of a stream

`get_stats` takes the deposit in tokens, `rate * (end - start) / RATE_DECIMALS`, and subtracts from
it what was claimed, which `claim_vested` counts in units of the rate. So its `remaining` is always
less than what the stream still owes, which is what its claims will pay (`paid_of_completed`); and
`claimable_now`, in units of the rate too, is within it only as long as all that has accrued is at
most the deposit. -/

namespace VestingDripStream.Contract.Statistics

open VestingDripStream.Lib.Checked VestingDripStream.Lib.Transaction VestingDripStream.Lib.Run
open VestingDripStream.Contract.Types VestingDripStream.Contract.Storage
open VestingDripStream.Contract.Schedule VestingDripStream.Contract.EntryPoints
open VestingDripStream.Contract.Stream VestingDripStream.Contract.Announced
open VestingDripStream.Contract.Drains VestingDripStream.Contract.Agreement

/-! ### The view -/

/-- `StreamStats`. -/
structure StreamStats where
  totalDeposited : ℤ
  totalClaimed : ℤ
  remaining : ℤ
  claimableNow : ℤ
  deriving DecidableEq, Repr

/-- `compute_claimable`, as `claimable_amount` computes it. -/
def computeClaimable (s : VestingSchedule) (current : UInt32) : Except Failure ℤ := do
  let (_, claimable) ← dueAmount s current
  .ok claimable

/-- `claimable_now`: nothing before the cliff and while the stream is paused. -/
def claimableNow (s : VestingSchedule) (current : UInt32) : Except Failure ℤ :=
  if current < s.cliffLedger ∨ s.pausedAtLedger.isSome = true then .ok 0
  else computeClaimable s current

/-- `get_stats` on a schedule. -/
def statsOf (s : VestingSchedule) (current : UInt32) : Except Failure StreamStats := do
  let duration ← plain (plainSub s.endLedger s.startLedger)
  let totalDeposited := match calculateTotalDeposit s.ratePerLedger duration with
    | .ok d => d
    | .error _ => 0
  let claimableNow ← claimableNow s current
  .ok { totalDeposited
        totalClaimed := s.totalClaimed
        remaining := saturated (totalDeposited - s.totalClaimed)
        claimableNow }

/-- `get_stats`. -/
def getStats (st : Storage) (recipient : Address) (current : UInt32) :
    Except Failure (Option StreamStats) :=
  match getScheduleReadonly st recipient with
  | none => .ok none
  | some s => do
    let stats ← statsOf s current
    .ok (some stats)

/-- The statistics add up: the deposit is what was claimed and what remains, what can be claimed now
is part of that, and what remains is what the stream still owes. -/
structure StatsAddUp (s : VestingSchedule) (stats : StreamStats) : Prop where
  sum : stats.totalDeposited = stats.totalClaimed + stats.remaining
  nonneg : 0 ≤ stats.claimableNow
  within : stats.claimableNow ≤ stats.remaining
  toCome : stats.remaining = s.owed

section Stats

variable {st : Storage} {r : Address} {s : VestingSchedule} {now : ℕ} {current : UInt32}

/-- The deposit in tokens is part of the total, and less than it. -/
theorem scaled_lt_total (h : RepInv s now) :
    0 ≤ s.total.tdiv rateDecimals ∧ s.total.tdiv rateDecimals < s.total := by
  have h1 := h.start_lt_cliff
  have h2 := h.cliff_lt_end
  have hpos : 0 < s.total := mul_pos h.rate_pos (by omega)
  refine ⟨Int.tdiv_nonneg hpos.le (by decide), ?_⟩
  rw [Int.tdiv_eq_ediv_of_nonneg hpos.le]
  exact Int.ediv_lt_self_of_pos_of_ne_one hpos (by decide)

/-- What every field of the statistics is. -/
theorem statsOf_ok (h : RepInv s now) {stats : StreamStats} (hst : statsOf s current = .ok stats) :
    stats.totalDeposited = s.total.tdiv rateDecimals ∧ stats.totalClaimed = s.claimedAmount ∧
      stats.remaining = s.total.tdiv rateDecimals - s.claimedAmount := by
  have hfits := h.total_fits
  have hcn := h.claimed_nonneg
  have hle := h.claimed_le_total
  obtain ⟨hq0, hq⟩ := scaled_lt_total h
  unfold statsOf at hst
  simp only [except_bind_ok, plain_ok, Except.ok.injEq] at hst
  obtain ⟨d, hd, claimable, -, rfl⟩ := hst
  have hdep : calculateTotalDeposit s.ratePerLedger d = .ok (s.total.tdiv rateDecimals) := by
    unfold calculateTotalDeposit
    rw [mul_comm, total_eq hd, checked_of_mem hfits]
    rfl
  simp only [hdep]
  refine ⟨trivial, h.counters, ?_⟩
  have hmin : i128Min ≤ -i128Max := by decide
  have hmax := hfits.2
  rw [h.counters]
  unfold saturated
  omega

/-- The statistics are computed from the last claim on. -/
theorem exists_statsOf (h : RepInv s now) (hlast : s.lastClaimedLedger.toNat ≤ current.toNat) :
    ∃ stats, statsOf s current = .ok stats ∧ 0 ≤ stats.claimableNow ∧
      stats.claimableNow ≤ s.owed := by
  have h1 := h.start_lt_cliff
  have h2 := h.cliff_lt_end
  obtain ⟨d, hd, -⟩ := plainSub_of_le (a := s.endLedger) (b := s.startLedger) (by omega)
  obtain ⟨c, hdue, hc0, hle⟩ := exists_dueAmount_of_last h hlast
  have hnow : ∃ c, claimableNow s current = .ok c ∧ 0 ≤ c ∧ c ≤ s.owed := by
    unfold claimableNow
    split_ifs
    · exact ⟨0, rfl, le_rfl, h.owed_nonneg⟩
    · refine ⟨c, ?_, hc0, ?_⟩
      · unfold computeClaimable
        rw [hdue]
        rfl
      · unfold VestingSchedule.owed
        omega
  obtain ⟨c, hc, hcn⟩ := hnow
  unfold statsOf
  rw [hd, hc]
  exact ⟨_, rfl, hcn⟩

/-- **What the claims to come pay**: every run of the stream that ends with its completion pays what
it owes. -/
theorem paid_of_completed (h : RepInv s now) (recipient : Address) (calls : List StreamCall)
    (hlegal : AllSteps StreamState.step (fun c e => e.Legal c)
      ⟨recipient, some s, s.claimedAmount, now⟩ calls)
    (hdone : (run StreamState.step ⟨recipient, some s, s.claimedAmount, now⟩ calls).stored = none) :
    (run StreamState.step ⟨recipient, some s, s.claimedAmount, now⟩ calls).paid =
      s.claimedAmount + s.owed := by
  have hstart : PaidOf s.total ⟨recipient, some s, s.claimedAmount, now⟩ := by
    refine ⟨fun s' hs' => ?_, fun hs' => by cases hs'⟩
    cases hs'
    exact ⟨h, rfl, rfl⟩
  have hpaid := (run_induct (fun _ _ => paidOf_step) hstart hlegal).finished hdone
  rw [hpaid]
  unfold VestingSchedule.owed
  ring

/-- The statistics never add up: what remains, counted in tokens, is not what the stream owes. The
rest of what they should do holds exactly as long as what was claimed and what can be claimed are
within the deposit. -/
theorem stats_never_add_up (hs : getScheduleReadonly st r = some s) (h : RepInv s now)
    (current : UInt32) :
    (¬ ∃ stats, getStats st r current = .ok (some stats) ∧ StatsAddUp s stats) ∧
    (∀ (recipient : Address) (calls : List StreamCall),
      AllSteps StreamState.step (fun c e => e.Legal c)
        ⟨recipient, some s, s.claimedAmount, now⟩ calls →
      (run StreamState.step ⟨recipient, some s, s.claimedAmount, now⟩ calls).stored = none →
      (run StreamState.step ⟨recipient, some s, s.claimedAmount, now⟩ calls).paid =
        s.claimedAmount + s.owed) ∧
    (s.lastClaimedLedger.toNat ≤ current.toNat →
      ∃ stats, getStats st r current = .ok (some stats) ∧
        stats.totalDeposited = stats.totalClaimed + stats.remaining ∧
        0 ≤ stats.claimableNow ∧ stats.remaining < s.owed ∧
        (stats.claimableNow ≤ stats.remaining ↔
          s.claimedAmount + stats.claimableNow ≤ s.total.tdiv rateDecimals)) := by
  obtain ⟨-, hlt⟩ := scaled_lt_total h
  have hstats : getStats st r current = (statsOf s current >>= fun stats => .ok (some stats)) := by
    unfold getStats
    rw [hs]
  have howed : s.owed = s.total - s.claimedAmount := rfl
  refine ⟨?_, fun recipient calls => paid_of_completed h recipient calls, fun hlast => ?_⟩
  · rintro ⟨stats, hst, hall⟩
    rw [hstats] at hst
    obtain ⟨stats', hst', heq⟩ := except_bind_ok.mp hst
    cases heq
    obtain ⟨-, -, hrem⟩ := statsOf_ok h hst'
    have htoCome := hall.toCome
    omega
  · obtain ⟨stats, hst, hc0, -⟩ := exists_statsOf h hlast
    obtain ⟨hdep, hclaimed, hrem⟩ := statsOf_ok h hst
    refine ⟨stats, ?_, ?_, hc0, ?_, ?_⟩
    · rw [hstats, hst]
      rfl
    · omega
    · omega
    · rw [hrem]
      omega

end Stats

/-- The sample stream at ledger `200`: 200 tokens remain, of which 1000000000 can be claimed. -/
theorem stats_sample_false :
    getStats (legacyEnv sampleStream).persistent ⟨2⟩ 200 = .ok (some ⟨200, 0, 200, 1000000000⟩) ∧
      ¬ StatsAddUp sampleStream ⟨200, 0, 200, 1000000000⟩ := by
  refine ⟨by decide +kernel, fun h => ?_⟩
  exact absurd h.within (by decide)

theorem stats_never_add_up_sample :
    ¬ ∃ stats, getStats (legacyEnv sampleStream).persistent ⟨2⟩ 200 = .ok (some stats) ∧
      StatsAddUp sampleStream stats :=
  (stats_never_add_up (by decide +kernel) repInv_sampleStream 200).1

end VestingDripStream.Contract.Statistics
