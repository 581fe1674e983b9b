import VestingDripStream.Contract.ClaimAll
import VestingDripStream.Contract.Drains

/-! # The copies of the accrual formula agree

What a stream has accrued is computed in several places, each with its own text: by `claim_vested`,
by the view `claimable_amount`, by `cancel_stream` at the ledger of the pause, and, as the rest, by
`clawback_stream`. Under the representation invariant they agree:

* the view is what a claim pays, it is `0` exactly if the claim is refused with `NothingToClaim` or
  `CliffNotReached`, and it fails exactly as the claim does (`view_eq_claim`);
* a cancellation pays the recipient what a claim at the effective ledger would, and the sponsor the
  rest of what the stream owes, which is what a clawback recovers (`cancel_splits_owed`).

The invariant holds at any ledger from the last claim on, if the pause is left out
(`RepInv.unpaused`). -/

namespace VestingDripStream.Contract.Agreement

open VestingDripStream.Lib.Checked VestingDripStream.Lib.Transaction
open VestingDripStream.Contract.Types VestingDripStream.Contract.Storage
open VestingDripStream.Contract.Schedule VestingDripStream.Contract.EntryPoints
open VestingDripStream.Contract.Effects VestingDripStream.Contract.Stream
open VestingDripStream.Contract.ClaimAll VestingDripStream.Contract.Drains

section Due

variable {s : VestingSchedule} {now : ℕ} {current : UInt32}

/-- The same schedule without its pause. -/
def active (s : VestingSchedule) : VestingSchedule := { s with pausedAtLedger := none }

theorem repInv_active (h : RepInv s now) {t : ℕ} (hlast : s.lastClaimedLedger.toNat ≤ t) :
    RepInv (active s) t where
  rate_pos := h.rate_pos
  start_lt_cliff := h.start_lt_cliff
  cliff_lt_end := h.cliff_lt_end
  start_le_last := h.start_le_last
  last_le_end := h.last_le_end
  last_le_now := hlast
  last_le_paused := by rintro p ⟨⟩
  paused_le_now := by rintro p ⟨⟩
  counters := h.counters
  claimed := h.claimed
  version_pos := h.version_pos
  total_fits := h.total_fits

/-- From the last claim on the amount due is computed, paused or not. -/
theorem exists_dueAmount_of_last (h : RepInv s now)
    (hlast : s.lastClaimedLedger.toNat ≤ current.toNat) :
    ∃ c, dueAmount s current = .ok (s.total, c) ∧ 0 ≤ c ∧ s.claimedAmount + c ≤ s.total := by
  have hdue := exists_dueAmount (repInv_active h hlast) (le_refl current.toNat)
  exact hdue

/-- Before the last claim the difference of ledgers underflows. -/
theorem dueAmount_early (h : RepInv s now) (hlt : current.toNat < s.lastClaimedLedger.toNat) :
    dueAmount s current = .error .trap := by
  have h1 := h.start_lt_cliff
  have h2 := h.cliff_lt_end
  have h3 := h.last_le_end
  obtain ⟨d, hd, -⟩ := plainSub_of_le (a := s.endLedger) (b := s.startLedger) (by omega)
  have hend : ¬ s.endLedger ≤ current := by
    rw [UInt32.le_iff_toNat_le]
    omega
  have hnone : plainSub (min current s.endLedger) s.lastClaimedLedger = none := by
    unfold plainSub
    rw [if_neg]
    rw [UInt32.le_iff_toNat_le, toNat_min]
    omega
  unfold dueAmount
  rw [hd]
  show (orOverflow (checked (asI128 d * s.ratePerLedger)) >>= _) = _
  rw [total_eq hd, checked_of_mem h.total_fits]
  show (if s.endLedger ≤ current then _ else _) = _
  rw [if_neg hend, hnone]
  rfl

end Due

/-! ### The view and the claim -/

/-- Nothing but the amount due stands against a claim of `r` on `s`: `r` has authorised it, no
transfer is under way, the token accepts the transfers and the vault covers them, and a treasury is
set if there is a fee. -/
structure ClaimReady (D : Deployment) (host : Host) (r : Address) (env : Env)
    (s : VestingSchedule) : Prop where
  auth : host.auth r = true ∧ r ≠ D.contractAddress
  unlocked : (env.inst.lookup .lock).isNone = true
  treasury : 0 < (getFee env.inst).1 → (getFee env.inst).2 ≠ none
  accepts : ∀ token dst x, host.accepts token D.contractAddress dst x = true
  covered : due s host.sequence (getFee env.inst).1 ≤ vault D env s.token

section Claim

variable {D : Deployment} {host : Host} {r : Address} {env : Env} {k : UInt32}
  {s : VestingSchedule} {now : ℕ}

/-- A claim of one stream fails with its only turn. -/
theorem claimVested_error {f : Failure} (hauth : host.auth r = true ∧ r ≠ D.contractAddress)
    (h : claimStream D host r true k env = .error f) :
    claimVested D host r (some k) env = .error f := by
  have hloop : claimLoop D host r true [k] 0 env = .error f := bind_error h
  have hsigned : requireAuth D host r env = .ok ((), env) := ensure_ok.mpr ⟨hauth, rfl⟩
  have hids : require ([k] ≠ []) .scheduleNotFound env = .ok ((), env) :=
    ensure_ok.mpr ⟨by simp, rfl⟩
  unfold claimVested
  rw [bind_of_ok hsigned, bind_of_ok (asks_ok.mpr ⟨rfl, rfl⟩)]
  simp only
  rw [bind_of_ok hids]
  exact bind_error hloop

/-- A turn that fails before its payment. -/
theorem claimStream_error {f : Failure} (hD : D.ReadsById)
    (hs : scheduleAt env.persistent r k = some s) (h : accrue s host.sequence = .error f) :
    claimStream D host r true k env = .error f := by
  have hcompute : compute (accrue s host.sequence) env = .error f := by
    unfold compute
    rw [h]
  unfold claimStream
  rw [bind_of_ok (asks_ok.mpr ⟨rfl, rfl⟩)]
  simp only [hD env.persistent r k, hs]
  exact bind_error hcompute

/-- A stream that is asked for is not skipped. -/
theorem claimStream_skip {reason : VestingError} (hD : D.ReadsById)
    (hs : scheduleAt env.persistent r k = some s)
    (h : accrue s host.sequence = .ok (.skip reason)) :
    claimStream D host r true k env = .error (.err reason) := by
  unfold claimStream
  rw [bind_of_ok (asks_ok.mpr ⟨rfl, rfl⟩)]
  simp only [hD env.persistent r k, hs]
  rw [bind_of_ok (compute_ok.mpr ⟨h, rfl⟩)]
  rfl

/-- What the view says, and what the loop body of a claim finds. -/
inductive Agree (s : VestingSchedule) (current : UInt32) : Prop
  /-- Nothing can be claimed. -/
  | nothing (reason : VestingError) (hreason : reason = .nothingToClaim ∨ reason = .cliffNotReached)
    (view : claimableAmount s current = .ok 0) (claim : accrue s current = .ok (.skip reason))
  /-- An amount is due. -/
  | due (c : ℤ) (v : UInt32) (hc : c ≠ 0) (hc0 : 0 ≤ c) (hle : s.claimedAmount + c ≤ s.total)
    (view : claimableAmount s current = .ok c)
    (claim : accrue s current = .ok (.due { s with version := v } s.total c))
  /-- The ledger is before the last claim. -/
  | early (hlt : current.toNat < s.lastClaimedLedger.toNat)
    (view : claimableAmount s current = .error .trap) (claim : accrue s current = .error .trap)

theorem agree (h : RepInv s now) (hversion : s.version.toNat + 2 < UInt32.size)
    (current : UInt32) : Agree s current := by
  by_cases hpaused : s.pausedAtLedger.isSome = true
  · refine .nothing .nothingToClaim (Or.inl rfl) ?_ ?_
    · unfold claimableAmount; rw [if_pos hpaused]
    · unfold accrue; rw [if_pos hpaused]
  by_cases hcliff : current < s.cliffLedger
  · refine .nothing .cliffNotReached (Or.inr rfl) ?_ ?_
    · unfold claimableAmount; rw [if_neg hpaused, if_pos hcliff]
    · unfold accrue; rw [if_neg hpaused, if_pos hcliff]
  by_cases hlast : s.lastClaimedLedger.toNat ≤ current.toNat
  · obtain ⟨c, hdue, hc0, hle⟩ := exists_dueAmount_of_last h hlast
    have hview : claimableAmount s current = .ok c := by
      unfold claimableAmount
      rw [if_neg hpaused, if_neg hcliff, hdue]
      rfl
    obtain ⟨v, hacc⟩ := accrue_of_due hpaused hcliff hversion hdue
    split_ifs at hacc with hzero
    · exact .nothing .nothingToClaim (Or.inl rfl) (hzero ▸ hview) hacc
    · exact .due c v hzero hc0 hle hview hacc
  · have hdue := dueAmount_early h (by omega : current.toNat < _)
    refine .early (by omega) ?_ ?_
    · unfold claimableAmount
      rw [if_neg hpaused, if_neg hcliff, hdue]
      rfl
    · obtain ⟨v, hv, -⟩ := exists_incrementVersion s (by omega)
      unfold accrue
      rw [if_neg hpaused, if_neg hcliff, hv]
      show (dueAmount { s with version := v } current >>= _) = _
      rw [dueAmount_version, hdue]
      rfl

/-- The claim of an amount that is due. -/
theorem claimVested_due {c : ℤ} {v : UInt32} (hD : D.ReadsById)
    (hs : scheduleAt env.persistent r k = some s) (h : RepInv s now)
    (hready : ClaimReady D host r env s) (hbps : (getFee env.inst).1.toNat ≤ 500) (hc : c ≠ 0)
    (hc0 : 0 ≤ c) (hle : s.claimedAmount + c ≤ s.total)
    (hacc : accrue s host.sequence = .ok (.due { s with version := v } s.total c))
    (hprod : c * (getFee env.inst).1.toNat ≤ i128Max) :
    ∃ rc env', claimVested D host r (some k) env = .ok (c, env') ∧
      StreamPaid D host r k env env' s rc ∧ rc.net + rc.fee = c ∧
      rc.schedule.claimedAmount = s.claimedAmount + c := by
  obtain ⟨rc, hrc, hfee, hnet⟩ := claimSchedule_of_accrue h hacc hc0 hle (by omega) hprod
  obtain ⟨-, -, -, hsplit, -, hdue, -, hsched, -⟩ := claimSchedule_ok hrc
  have hgross : rc.gross = c := by
    obtain ⟨-, -, -, -, -, hdue'⟩ := accrue_due hacc
    rw [hdue', Except.ok.injEq, Prod.mk.injEq] at hdue
    exact hdue.2.symm
  obtain ⟨env', hturn⟩ := exists_claimStream hD hs (Or.inr ⟨rc, hrc, hfee, hnet⟩)
    hready.unlocked hready.treasury hready.accepts hready.covered
  rw [due_of_ok hrc, hgross] at hturn
  rcases claimStream_ok hD hturn with ⟨hzero, -⟩ | ⟨s', rc', hpaid, -⟩
  · exact absurd hzero hc
  · have hlive := hpaid.live
    rw [hs, Option.some.injEq] at hlive
    subst hlive
    have hreceipt := hpaid.receipt
    rw [hrc, Except.ok.injEq] at hreceipt
    subst hreceipt
    refine ⟨rc, env', (claimVested_some hD).mpr ⟨hready.auth, hturn, hc⟩, hpaid, by omega, ?_⟩
    rw [hsched, hgross]

/-- **The view is what a claim pays.** For a schedule that satisfies the representation invariant,
at any ledger: the amount of the view, if it is not `0`, is what the claim of this stream pays and
adds to `claimed_amount`; the view is `0` exactly if the claim finds nothing to claim or the cliff
not reached; and it fails only before the last claim, where the claim fails in the same way. -/
theorem view_eq_claim (hD : D.ReadsById) (hs : scheduleAt env.persistent r k = some s)
    (h : RepInv s now) (hversion : s.version.toNat + 2 < UInt32.size)
    (hbps : (getFee env.inst).1.toNat ≤ 500)
    (hprod : ∀ c, claimableAmount s host.sequence = .ok c →
      c * (getFee env.inst).1.toNat ≤ i128Max)
    (hready : ClaimReady D host r env s) :
    (∀ c, claimableAmount s host.sequence = .ok c → c ≠ 0 →
      ∃ rc env', claimVested D host r (some k) env = .ok (c, env') ∧
        StreamPaid D host r k env env' s rc ∧ rc.net + rc.fee = c ∧
        rc.schedule.claimedAmount = s.claimedAmount + c) ∧
    (claimableAmount s host.sequence = .ok 0 ↔
      claimVested D host r (some k) env = .error (.err .nothingToClaim) ∨
        claimVested D host r (some k) env = .error (.err .cliffNotReached)) ∧
    (∀ f, claimableAmount s host.sequence = .error f →
      host.sequence.toNat < s.lastClaimedLedger.toNat ∧
        claimVested D host r (some k) env = .error f) := by
  cases agree h hversion host.sequence with
  | nothing reason hreason hview hacc =>
    have hclaim := claimVested_error hready.auth (claimStream_skip hD hs hacc)
    rw [hview, hclaim]
    refine ⟨fun c hc hne => ?_, ⟨fun _ => ?_, fun _ => rfl⟩, fun f hf => by cases hf⟩
    · cases hc
      exact absurd rfl hne
    · rcases hreason with rfl | rfl
      · exact Or.inl rfl
      · exact Or.inr rfl
  | due c v hc hc0 hle hview hacc =>
    obtain ⟨rc, env', hclaim, hpaid⟩ :=
      claimVested_due hD hs h hready hbps hc hc0 hle hacc (hprod c hview)
    rw [hview, hclaim]
    refine ⟨fun c' hc' _ => ?_, ⟨fun hzero => ?_, ?_⟩, fun f hf => by cases hf⟩
    · cases hc'
      exact ⟨rc, env', rfl, hpaid⟩
    · cases hzero
      exact absurd rfl hc
    · rintro (herr | herr) <;> cases herr
  | early hlt hview hacc =>
    have hclaim := claimVested_error hready.auth (claimStream_error hD hs hacc)
    rw [hview, hclaim]
    refine ⟨fun c hc => (by cases hc), ⟨fun hzero => (by cases hzero), ?_⟩, fun f hf => ?_⟩
    · rintro (herr | herr) <;> cases herr
    · cases hf
      exact ⟨hlt, rfl⟩

end Claim

/-- Recipient `2` can claim half of the sample stream at ledger `200`. -/
theorem view_eq_claim_sample :
    ∃ rc env', claimVested sampleDeployment (sampleHost 200) ⟨2⟩ (some 0) (legacyEnv sampleStream) =
        .ok (1000000000, env') ∧
      StreamPaid sampleDeployment (sampleHost 200) ⟨2⟩ 0 (legacyEnv sampleStream) env' sampleStream
        rc ∧
      rc.net + rc.fee = 1000000000 ∧
      rc.schedule.claimedAmount = sampleStream.claimedAmount + 1000000000 := by
  have hview : claimableAmount sampleStream 200 = .ok 1000000000 := rfl
  have hready : ClaimReady sampleDeployment (sampleHost 200) ⟨2⟩ (legacyEnv sampleStream)
      sampleStream := by
    refine ⟨⟨rfl, by decide⟩, by decide +kernel, fun hpos => ?_, fun _ _ _ => rfl, ?_⟩
    · exact absurd hpos (by decide +kernel)
    · decide +kernel
  refine (view_eq_claim sampleDeployment_readsById (by decide +kernel) repInv_sampleStream
    (by decide) (by decide +kernel) (fun c hc => ?_) hready).1 _ hview (by decide)
  have hc' : claimableAmount sampleStream 200 = .ok c := hc
  rw [hview] at hc'
  cases hc'
  decide +kernel

/-! ### Cancellation and clawback -/

section Split

variable {s : VestingSchedule} {now : ℕ} {current : UInt32}

theorem incrementVersion_eq (s : VestingSchedule) : s.incrementVersion =
    if s.version = u32Max then .error (.err .versionOverflow)
    else .ok { s with version := s.version + 1 } := by
  have hmaxNat : u32Max.toNat = 2 ^ 32 - 1 := rfl
  have hsize : UInt32.size = 2 ^ 32 := rfl
  have hlt := s.version.toNat_lt
  unfold VestingSchedule.incrementVersion checkedAdd
  split_ifs with hfit hmax hmax
  · rw [hmax] at hfit
    exact absurd hfit (by decide)
  · rfl
  · rfl
  · rw [← UInt32.toNat_inj] at hmax
    have hone : (1 : UInt32).toNat = 1 := rfl
    omega

/-- What accrues up to a ledger, as `cancel_stream` and `clawback_stream` compute it. -/
theorem exists_earned (h : RepInv s now) {upTo : UInt32}
    (hlo : s.lastClaimedLedger.toNat ≤ upTo.toNat) (hhi : upTo.toNat ≤ s.endLedger.toNat) :
    ∃ d, plainSub upTo s.lastClaimedLedger = some d ∧ asI128 d * s.ratePerLedger =
      s.ratePerLedger * ((upTo.toNat : ℤ) - s.lastClaimedLedger.toNat) ∧
      InI128 (asI128 d * s.ratePerLedger) := by
  obtain ⟨d, hd, hdv⟩ := plainSub_of_le hlo
  have hamount : asI128 d * s.ratePerLedger =
      s.ratePerLedger * ((upTo.toNat : ℤ) - s.lastClaimedLedger.toNat) := by
    unfold asI128
    rw [hdv, Nat.cast_sub hlo, mul_comm]
  refine ⟨d, hd, hamount, ?_⟩
  rw [hamount]
  exact h.fits hlo h.start_le_last hhi

theorem clawbackRemaining_eq (h : RepInv s now) : clawbackRemaining s = .ok s.owed := by
  obtain ⟨d, hd, hamount, hfit⟩ := exists_earned h h.last_le_end le_rfl
  unfold clawbackRemaining
  rw [hd]
  show plain (checked (asI128 d * s.ratePerLedger)) = _
  rw [checked_of_mem hfit, hamount, ← h.owed_eq]
  rfl

/-- The ledger a cancellation counts to is not before the last claim. -/
theorem last_le_effective (h : RepInv s now) (hlast : s.lastClaimedLedger.toNat ≤ current.toNat) :
    s.lastClaimedLedger.toNat ≤ (s.pausedAtLedger.getD current).toNat := by
  cases hp : s.pausedAtLedger with
  | none => exact hlast
  | some p => exact h.last_le_paused p hp

/-- What is due, and what is left of what is owed. -/
theorem due_le_owed (h : RepInv s now) {t c : ℤ} (hdue : dueAmount s current = .ok (t, c)) :
    c = s.ratePerLedger * ((min current.toNat s.endLedger.toNat : ℕ) - s.lastClaimedLedger.toNat) ∧
      c ≤ s.owed := by
  have hle := h.last_le_end
  obtain ⟨-, -, -, -, hcase⟩ := dueAmount_ok hdue
  have hc : c = s.ratePerLedger *
      ((min current.toNat s.endLedger.toNat : ℕ) - s.lastClaimedLedger.toNat) := by
    rcases hcase with ⟨hend, rfl⟩ | ⟨hend, -, rfl⟩
    · rw [Nat.min_eq_right hend, ← h.owed_eq]
      rfl
    · rw [Nat.min_eq_left hend.le]
  refine ⟨hc, ?_⟩
  rw [hc, h.owed_eq]
  exact mul_le_mul_of_nonneg_left (by omega) h.rate_pos.le

/-- `cancel_stream` after the increment of the version and the total of the stream. -/
theorem cancelSplit_eq (h : RepInv s now) (hversion : s.version ≠ u32Max) :
    cancelSplit s current = (if s.cliffLedger ≤ s.pausedAtLedger.getD current then do
      let earnedLedgers ←
        plain (plainSub (min (s.pausedAtLedger.getD current) s.endLedger) s.lastClaimedLedger)
      let earned ← orOverflow (checked (asI128 earnedLedgers * s.ratePerLedger))
      let rest ← orOverflow (checked s.owed)
      let refund ← orOverflow (checked (rest - earned))
      .ok (earned, max refund 0)
    else do
      let refund ← orOverflow (checked s.owed)
      .ok (0, max refund 0)) := by
  have h1 := h.start_lt_cliff
  have h2 := h.cliff_lt_end
  obtain ⟨d, hd, -⟩ := plainSub_of_le (a := s.endLedger) (b := s.startLedger) (by omega)
  unfold cancelSplit
  rw [incrementVersion_eq, if_neg hversion]
  show (plain (plainSub s.endLedger s.startLedger) >>= _) = _
  rw [hd]
  show (orOverflow (checked (asI128 d * s.ratePerLedger)) >>= _) = _
  rw [total_eq hd, checked_of_mem h.total_fits]
  rfl

theorem owed_fits (h : RepInv s now) : InI128 s.owed := by
  have hcn := h.claimed_nonneg
  refine inI128_of_le h.total_fits h.owed_nonneg ?_
  unfold VestingSchedule.owed
  omega

/-- `share` is what a cancellation at `current` pays the recipient, and what the view says of the
stream without its pause. -/
structure SplitsAt (s : VestingSchedule) (current : UInt32) (share : ℤ) : Prop where
  split : s.version ≠ u32Max → cancelSplit s current = .ok (share, s.owed - share)
  nonneg : 0 ≤ share
  le_owed : share ≤ s.owed
  view : claimableAmount (active s) (s.pausedAtLedger.getD current) = .ok share

/-- Before the cliff the sponsor gets everything. -/
theorem splitsAt_of_lt_cliff (h : RepInv s now)
    (hcliff : (s.pausedAtLedger.getD current).toNat < s.cliffLedger.toNat) :
    SplitsAt s current 0 where
  split := fun hversion => by
    have hnot : ¬ s.cliffLedger ≤ s.pausedAtLedger.getD current := by
      rw [UInt32.le_iff_toNat_le]
      omega
    rw [cancelSplit_eq h hversion, if_neg hnot, checked_of_mem (owed_fits h)]
    show Except.ok (0, max s.owed 0) = _
    rw [max_eq_left h.owed_nonneg, sub_zero]
  nonneg := le_rfl
  le_owed := h.owed_nonneg
  view := if_pos (UInt32.lt_iff_toNat_lt.mpr hcliff)

/-- From the cliff on the recipient gets what is due. -/
theorem exists_splitsAt_of_cliff (h : RepInv s now)
    (hlast : s.lastClaimedLedger.toNat ≤ (s.pausedAtLedger.getD current).toNat)
    (hcliff : s.cliffLedger.toNat ≤ (s.pausedAtLedger.getD current).toNat) :
    ∃ share, SplitsAt s current share := by
  set eff := s.pausedAtLedger.getD current with heff
  obtain ⟨c, hdue, hc0, -⟩ := exists_dueAmount_of_last h hlast
  obtain ⟨hc, hcle⟩ := due_le_owed h hdue
  have hmin := toNat_min eff s.endLedger
  have hend := h.last_le_end
  have hlo : s.lastClaimedLedger.toNat ≤ (min eff s.endLedger).toNat := by rw [hmin]; omega
  have hhi : (min eff s.endLedger).toNat ≤ s.endLedger.toNat := by rw [hmin]; omega
  obtain ⟨e, he, hamount, hfit⟩ := exists_earned h hlo hhi
  rw [hmin, ← hc] at hamount
  rw [hamount] at hfit
  refine ⟨c, fun hversion => ?_, hc0, hcle, ?_⟩
  · have hrefund : InI128 (s.owed - c) := inI128_of_le (owed_fits h) (by omega) (by omega)
    rw [cancelSplit_eq h hversion, if_pos (UInt32.le_iff_toNat_le.mpr hcliff), ← heff, he]
    show (orOverflow (checked (asI128 e * s.ratePerLedger)) >>= _) = _
    rw [hamount, checked_of_mem hfit, checked_of_mem (owed_fits h)]
    show (orOverflow (checked (s.owed - c)) >>= _) = _
    rw [checked_of_mem hrefund]
    show Except.ok (c, max (s.owed - c) 0) = _
    rw [max_eq_left (by omega)]
  · have hnot : ¬ eff < s.cliffLedger := by
      rw [UInt32.lt_iff_toNat_lt]
      omega
    show (if eff < s.cliffLedger then _ else dueAmount s eff >>= _) = _
    rw [if_neg hnot, hdue]
    rfl

theorem exists_splitsAt (h : RepInv s now) (hlast : s.lastClaimedLedger.toNat ≤ current.toNat) :
    ∃ share, SplitsAt s current share := by
  have heff := last_le_effective h hlast
  rcases Nat.lt_or_ge (s.pausedAtLedger.getD current).toNat s.cliffLedger.toNat with hlt | hge
  · exact ⟨0, splitsAt_of_lt_cliff h hlt⟩
  · exact exists_splitsAt_of_cliff h heff hge

/-- **A cancellation splits what is owed.** From the last claim on, paused or not: unless the
version is used up, `cancel_stream` pays the recipient what a claim of the unpaused stream would at
the ledger it counts to, and the sponsor the rest, and neither is cut off at `0`. A clawback
recovers the sum of the two. -/
theorem cancel_splits_owed (h : RepInv s now) (hlast : s.lastClaimedLedger.toNat ≤ current.toNat) :
    ∃ share refund,
      cancelSplit s current = (if s.version = u32Max then .error (.err .versionOverflow)
        else .ok (share, refund)) ∧
      0 ≤ share ∧ 0 ≤ refund ∧ refund = s.total - s.claimedAmount - share ∧
      share + refund = s.ratePerLedger * ((s.endLedger.toNat : ℤ) - s.startLedger.toNat) -
        s.claimedAmount ∧
      claimableAmount (active s) (s.pausedAtLedger.getD current) = .ok share ∧
      (∀ feeBps rc, claimSchedule (active s) (s.pausedAtLedger.getD current) feeBps = .ok rc →
        rc.gross = share) ∧
      ((s.pausedAtLedger.getD current).toNat < s.cliffLedger.toNat → share = 0) ∧
      clawbackRemaining s = .ok (share + refund) := by
  obtain ⟨share, hsplit, h0, hle, hview⟩ := exists_splitsAt h hlast
  have hsum : share + (s.owed - share) = s.owed := by ring
  refine ⟨share, s.owed - share, ?_, h0, by omega, rfl, hsum.trans rfl, hview, ?_, ?_, ?_⟩
  · split_ifs with hversion
    · unfold cancelSplit
      rw [incrementVersion_eq, if_pos hversion]
      rfl
    · exact hsplit hversion
  · intro feeBps rc hrc
    obtain ⟨-, hcliff, -, -, -, hdue, -⟩ := claimSchedule_ok hrc
    have hlt : ¬ s.pausedAtLedger.getD current < s.cliffLedger := by
      rw [UInt32.lt_iff_toNat_lt]
      have hcliff' : s.cliffLedger.toNat ≤ (s.pausedAtLedger.getD current).toNat := hcliff
      omega
    have hpays : claimableAmount (active s) (s.pausedAtLedger.getD current) = .ok rc.gross := by
      show (if s.pausedAtLedger.getD current < s.cliffLedger then _
        else dueAmount (active s) (s.pausedAtLedger.getD current) >>= _) = _
      rw [if_neg hlt, hdue]
      rfl
    rw [hpays, Except.ok.injEq] at hview
    exact hview
  · intro hlt
    have hzero : claimableAmount (active s) (s.pausedAtLedger.getD current) = .ok 0 :=
      if_pos (UInt32.lt_iff_toNat_lt.mpr hlt)
    rw [hzero, Except.ok.injEq] at hview
    exact hview.symm
  · rw [hsum]
    exact clawbackRemaining_eq h

/-- The sample stream, paused at ledger `200` and cancelled at `260`: half and half. -/
theorem cancel_splits_owed_sample :
    ∃ share refund,
      cancelSplit { sampleStream with pausedAtLedger := some 200 } 260 = .ok (share, refund) ∧
      share + refund = 2000000000 ∧
      clawbackRemaining { sampleStream with pausedAtLedger := some 200 } =
        .ok (share + refund) := by
  have hinv : RepInv { sampleStream with pausedAtLedger := some 200 } 200 :=
    { repInv_sampleStream.mono (by decide : 100 ≤ 200) with
      last_le_paused := by rintro p ⟨⟩; decide
      paused_le_now := by rintro p ⟨⟩; decide }
  obtain ⟨share, refund, hsplit, -, -, -, hsum, -, -, -, hclaw⟩ :=
    cancel_splits_owed hinv
      (by decide : sampleStream.lastClaimedLedger.toNat ≤ (260 : UInt32).toNat)
  exact ⟨share, refund, hsplit, hsum, hclaw⟩

end Split

end VestingDripStream.Contract.Agreement
