import VestingDripStream.Contract.Stream

/-! # Do the two drains agree?

`drain_expired_stream` and `emergency_drain` both return what is left of an expired stream to its
sponsor. They are written apart in three places:

* the deadline `end + DRAIN_DELAY_LEDGERS` is a checked addition in the first, whose overflow is an
  error, and a saturating one in the second (`drainRemaining_ok_iff`, `emergencyAmount_ok_iff`);
* the first computes the total by `calculate_total_deposit`, divided by `RATE_DECIMALS`, the second
  as `rate * (end - start)`;
* they subtract `total_claimed` and `claimed_amount`, which the representation invariant makes
  equal.

`drainsAgree_iff` says exactly when they agree on a stream. -/

namespace VestingDripStream.Contract.Drains

open VestingDripStream.Lib.Checked VestingDripStream.Lib.Transaction
open VestingDripStream.Contract.Types VestingDripStream.Contract.Storage
open VestingDripStream.Contract.Schedule VestingDripStream.Contract.EntryPoints
open VestingDripStream.Contract.Effects VestingDripStream.Contract.Stream

/-- What a call moves to `holder`. -/
def received (env env' : Env) (token holder : Address) : ℤ :=
  (env'.balances token holder : ℤ) - env.balances token holder

/-- The sponsor authorises the call, and the token makes every payment to the sponsor up to what the
stream owes. -/
structure DrainReady (D : Deployment) (host : Host) (env : Env) (s : VestingSchedule) : Prop where
  auth : host.auth s.sponsor = true
  foreign : s.sponsor ≠ D.contractAddress
  accepts : ∀ x, host.accepts s.token D.contractAddress s.sponsor x = true
  covered : s.owed ≤ vault D env s.token

/-- **The two drains agree** on the stream `s` of `r`: either both accept or none does, and if they
accept, both return what the stream owes. -/
structure DrainsAgree (D : Deployment) (host : Host) (env : Env) (caller r : Address)
    (s : VestingSchedule) : Prop where
  accepted : (drainExpiredStream D host caller r env).isOk = true ↔
    (emergencyDrain D host s.sponsor r env).isOk = true
  drained : ∀ u env', drainExpiredStream D host caller r env = .ok (u, env') →
    received env env' s.token s.sponsor = s.owed
  recovered : ∀ u env', emergencyDrain D host s.sponsor r env = .ok (u, env') →
    received env env' s.token s.sponsor = s.owed

/-! ### The amounts -/

section Amounts

variable {s : VestingSchedule} {now : ℕ} {current : UInt32} {x : ℤ}

/-- The deposit is a fraction of what the stream pays. -/
theorem deposit_lt_total (h : RepInv s now) :
    0 ≤ s.total.tdiv rateDecimals ∧ s.total.tdiv rateDecimals < s.total := by
  have h1 := h.start_lt_cliff
  have h2 := h.cliff_lt_end
  have htotal : 0 < s.total := mul_pos h.rate_pos (by omega)
  refine ⟨Int.tdiv_nonneg htotal.le (by decide), ?_⟩
  rw [Int.tdiv_eq_ediv_of_nonneg htotal.le]
  exact Int.ediv_lt_self_of_pos_of_ne_one htotal (by decide)

theorem plainSub_span (h : RepInv s now) :
    ∃ d, plainSub s.endLedger s.startLedger = some d ∧ asI128 d * s.ratePerLedger = s.total := by
  have h1 := h.start_lt_cliff
  have h2 := h.cliff_lt_end
  obtain ⟨d, hd, -⟩ := plainSub_of_le (a := s.endLedger) (b := s.startLedger) (by omega)
  exact ⟨d, hd, total_eq hd⟩

/-- The difference `drain_expired_stream` computes does not saturate. -/
theorem saturated_remaining (h : RepInv s now) :
    saturated (s.total.tdiv rateDecimals - s.totalClaimed) =
      s.total.tdiv rateDecimals - s.claimedAmount := by
  obtain ⟨d0, d1⟩ := deposit_lt_total h
  have hfit := h.total_fits.2
  have hle := h.claimed_le_total
  have hc0 := h.claimed_nonneg
  rw [h.counters]
  unfold saturated i128Min
  unfold i128Max at hfit ⊢
  omega

/-- **The first drain** accepts from `end + DRAIN_DELAY_LEDGERS` on, if that is a ledger. -/
theorem drainRemaining_ok_iff (h : RepInv s now) : drainRemaining s current = .ok x ↔
    s.endLedger.toNat + drainDelayLedgers.toNat < UInt32.size ∧
      s.endLedger.toNat + drainDelayLedgers.toNat ≤ current.toNat ∧
      x = s.total.tdiv rateDecimals - s.claimedAmount := by
  obtain ⟨d, hd, htotal⟩ := plainSub_span h
  have hdep : calculateTotalDeposit s.ratePerLedger d = .ok (s.total.tdiv rateDecimals) := by
    unfold calculateTotalDeposit
    rw [mul_comm, htotal, checked_of_mem h.total_fits]
    rfl
  unfold drainRemaining
  split_ifs with hend
  · rw [UInt32.lt_iff_toNat_lt] at hend
    simp only [false_iff]
    omega
  · simp only [except_bind_ok, orOverflow_ok, checkedAdd_eq_some]
    constructor
    · rintro ⟨at', hat, hx⟩
      have hlt := at'.toNat_lt
      split_ifs at hx with hcur
      rw [UInt32.lt_iff_toNat_lt] at hcur
      simp only [except_bind_ok, plain_ok, hd, Option.some.injEq, exists_eq_left', hdep,
        saturated_remaining h, Except.ok.injEq] at hx
      refine ⟨?_, by omega, hx.symm⟩
      rw [← hat]
      exact hlt
    · rintro ⟨hfit, hcur, rfl⟩
      refine ⟨s.endLedger + drainDelayLedgers, toNat_add_of_lt hfit, ?_⟩
      have hlt : ¬ current < s.endLedger + drainDelayLedgers := by
        rw [UInt32.lt_iff_toNat_lt, toNat_add_of_lt hfit]
        omega
      rw [if_neg hlt]
      simp only [except_bind_ok, plain_ok, hd, Option.some.injEq, exists_eq_left', hdep,
        saturated_remaining h]

/-- The saturated deadline is a ledger not before the end. -/
theorem end_le_deadline (s : VestingSchedule) :
    s.endLedger.toNat ≤ (saturatingAdd s.endLedger drainDelayLedgers).toNat := by
  have hlt := s.endLedger.toNat_lt
  unfold saturatingAdd
  split_ifs with hfit
  · rw [toNat_add_of_lt hfit]
    omega
  · show s.endLedger.toNat ≤ 4294967295
    omega

/-- **The second drain** accepts from the saturated deadline on, and takes what is owed. -/
theorem emergencyAmount_ok_iff (h : RepInv s now) : emergencyAmount s current = .ok x ↔
    (saturatingAdd s.endLedger drainDelayLedgers).toNat ≤ current.toNat ∧ x = s.owed := by
  obtain ⟨d, hd, htotal⟩ := plainSub_span h
  have hin := end_le_deadline s
  have howed : InI128 (s.total - s.claimedAmount) := by
    have hc0 := h.claimed_nonneg
    exact inI128_of_le h.total_fits h.owed_nonneg (by omega)
  unfold emergencyAmount
  split_ifs with hend hcur
  · rw [UInt32.lt_iff_toNat_lt] at hend
    simp only [false_iff]
    omega
  · rw [UInt32.lt_iff_toNat_lt] at hcur
    simp only [false_iff]
    omega
  · rw [UInt32.lt_iff_toNat_lt] at hcur
    simp only [except_bind_ok, plain_ok, orOverflow_ok, hd, Option.some.injEq, exists_eq_left',
      htotal, checked_of_mem h.total_fits, checked_of_mem howed]
    constructor
    · intro hx
      exact ⟨by omega, hx.symm⟩
    · rintro ⟨-, rfl⟩
      rfl

end Amounts

/-! ### The entry points -/

section Calls

variable {D : Deployment} {host : Host} {env env' : Env} {r caller : Address} {s : VestingSchedule}
  {x : ℤ} {u : Unit}

/-- The optional payment of a drain is made. -/
theorem exists_payment (hr : DrainReady D host env s) (hx : x ≤ s.owed) (env1 : Env)
    (hb : env1.balances = env.balances) :
    ∃ env', onlyIf (0 < x) (tryTransfer host s.token D.contractAddress s.sponsor x) env1 =
      .ok ((), env') := by
  by_cases h0 : 0 < x
  · have hcov : x ≤ env1.balances s.token D.contractAddress := by
      rw [hb]
      exact hx.trans hr.covered
    obtain ⟨b, -, hpay⟩ := exists_tryTransfer (hr.accepts x) h0.le hcov
    exact ⟨_, onlyIf_ok.mpr (Or.inl ⟨h0, hpay⟩)⟩
  · exact ⟨env1, onlyIf_ok.mpr (Or.inr ⟨h0, rfl⟩)⟩

/-- The optional payment of a drain moves its amount. -/
theorem received_payment (hs : s.sponsor ≠ D.contractAddress) {env1 : Env}
    (h : onlyIf (0 < x) (tryTransfer host s.token D.contractAddress s.sponsor x) env1 =
      .ok (u, env')) : received env1 env' s.token s.sponsor = max x 0 := by
  unfold received
  rcases onlyIf_ok.mp h with ⟨h0, hpay⟩ | ⟨h0, rfl⟩
  · obtain ⟨b, hb, rfl⟩ := tryTransfer_ok hpay
    obtain ⟨-, -, hbal⟩ := transfer_ok hb
    have h1 := hbal s.token s.sponsor
    rw [if_neg (fun heq => hs heq.2), if_pos ⟨rfl, rfl⟩] at h1
    show (b s.token s.sponsor : ℤ) - _ = _
    rw [max_eq_left h0.le]
    omega
  · rw [max_eq_right (not_lt.mp h0)]
    omega

section Drain

variable (hfound : (getSchedule env.persistent r).1 = some s) (hr : DrainReady D host env s)
include hfound hr

/-- What a successful `drain_expired_stream` returns to the sponsor. -/
theorem drainExpiredStream_received (h : drainExpiredStream D host caller r env = .ok (u, env')) :
    ∃ x, drainRemaining s host.sequence = .ok x ∧
      received env env' s.token s.sponsor = max x 0 := by
  simp only [drainExpiredStream, readSchedule_bind_ok, hfound, need_bind_ok, compute_bind_ok,
    dropStream, persist_bind_ok] at h
  obtain ⟨s', hs, x, hx, h⟩ := h
  rw [Option.some.injEq] at hs
  subst hs
  obtain ⟨_, e2, hpay, h⟩ := bind_ok.mp h
  rw [emit_ok] at h
  subst h
  have hrec := received_payment hr.foreign hpay
  exact ⟨x, hx, hrec⟩

/-- `drain_expired_stream` succeeds where its checks pass. -/
theorem drainExpiredStream_isOk (hx : drainRemaining s host.sequence = .ok x) (hle : x ≤ s.owed) :
    (drainExpiredStream D host caller r env).isOk = true := by
  obtain ⟨e2, hpay⟩ := exists_payment hr hle { env with
    persistent := removeSponsorStream (removeSchedule (getSchedule env.persistent r).2 r)
      s.sponsor r } rfl
  have hrun : drainExpiredStream D host caller r env = .ok ((), { e2 with
      events := e2.events ++ [.streamDrained caller r s.sponsor s.token x] }) := by
    simp only [drainExpiredStream, readSchedule_bind_ok, hfound, need_bind_ok, compute_bind_ok,
      dropStream, persist_bind_ok]
    exact ⟨s, rfl, x, hx, bind_ok.mpr ⟨(), e2, hpay, emit_ok.mpr rfl⟩⟩
  rw [hrun]
  rfl

/-- What a successful `emergency_drain` returns to the sponsor. -/
theorem emergencyDrain_received (h : emergencyDrain D host s.sponsor r env = .ok (u, env')) :
    ∃ x, emergencyAmount s host.sequence = .ok x ∧
      received env env' s.token s.sponsor = max x 0 := by
  simp only [emergencyDrain, requireAuth_bind_ok, readSchedule_bind_ok, hfound, need_bind_ok,
    require_bind_ok, compute_bind_ok] at h
  obtain ⟨-, s', hs, -, x, hx, h⟩ := h
  rw [Option.some.injEq] at hs
  subst hs
  obtain ⟨_, e2, hpay, h⟩ := bind_ok.mp h
  rw [dropStream, persist_bind_ok, emit_ok] at h
  subst h
  have hrec := received_payment hr.foreign hpay
  exact ⟨x, hx, hrec⟩

/-- `emergency_drain` by the sponsor succeeds where its checks pass. -/
theorem emergencyDrain_isOk (hx : emergencyAmount s host.sequence = .ok x) (hle : x ≤ s.owed) :
    (emergencyDrain D host s.sponsor r env).isOk = true := by
  obtain ⟨e2, hpay⟩ := exists_payment hr hle { env with
    persistent := (getSchedule env.persistent r).2 } rfl
  have hrun : emergencyDrain D host s.sponsor r env = .ok ((), { e2 with
      persistent := removeSponsorStream (removeSchedule e2.persistent r) s.sponsor r
      events := e2.events ++ [.emergencyDrain r s.sponsor x] }) := by
    simp only [emergencyDrain, requireAuth_bind_ok, readSchedule_bind_ok, hfound, need_bind_ok,
      require_bind_ok, compute_bind_ok]
    refine ⟨⟨hr.auth, hr.foreign⟩, s, rfl, rfl, x, hx, bind_ok.mpr ⟨(), e2, hpay, ?_⟩⟩
    rw [dropStream, persist_bind_ok, emit_ok]
  rw [hrun]
  rfl

/-- **`drain_expired_stream`**: when it succeeds. -/
theorem drainExpiredStream_isOk_iff {now : ℕ} (hinv : RepInv s now) :
    (drainExpiredStream D host caller r env).isOk = true ↔
      s.endLedger.toNat + drainDelayLedgers.toNat < UInt32.size ∧
        s.endLedger.toNat + drainDelayLedgers.toNat ≤ host.sequence.toNat := by
  constructor
  · intro hok
    obtain ⟨⟨u, env'⟩, h⟩ := exists_ok_of_isOk hok
    obtain ⟨x, hx, -⟩ := drainExpiredStream_received hfound hr h
    obtain ⟨hfit, hpast, -⟩ := (drainRemaining_ok_iff hinv).mp hx
    exact ⟨hfit, hpast⟩
  · rintro ⟨hfit, hpast⟩
    have hlt := (deposit_lt_total hinv).2
    have heq : s.owed = s.total - s.claimedAmount := rfl
    have hx := (drainRemaining_ok_iff hinv).mpr ⟨hfit, hpast, rfl⟩
    exact drainExpiredStream_isOk hfound hr hx (by omega)

/-- **`emergency_drain`**: when it succeeds for the sponsor. -/
theorem emergencyDrain_isOk_iff {now : ℕ} (hinv : RepInv s now) :
    (emergencyDrain D host s.sponsor r env).isOk = true ↔
      (saturatingAdd s.endLedger drainDelayLedgers).toNat ≤ host.sequence.toNat := by
  constructor
  · intro hok
    obtain ⟨⟨u, env'⟩, h⟩ := exists_ok_of_isOk hok
    obtain ⟨x, hx, -⟩ := emergencyDrain_received hfound hr h
    exact ((emergencyAmount_ok_iff hinv).mp hx).1
  · intro hpast
    have hx := (emergencyAmount_ok_iff hinv).mpr ⟨hpast, rfl⟩
    exact emergencyDrain_isOk hfound hr hx le_rfl

end Drain

/-- **The two drains agree exactly** before the deadline, where both refuse, and on a fully claimed
stream whose deadline is a ledger, where both return nothing. -/
theorem drainsAgree_iff {now : ℕ} (hfound : (getSchedule env.persistent r).1 = some s)
    (hinv : RepInv s now) (hr : DrainReady D host env s) :
    DrainsAgree D host env caller r s ↔
      host.sequence < saturatingAdd s.endLedger drainDelayLedgers ∨
        s.endLedger.toNat + drainDelayLedgers.toNat < UInt32.size ∧ s.claimedAmount = s.total := by
  have hlt := (deposit_lt_total hinv).2
  have howed := hinv.owed_nonneg
  have heq : s.owed = s.total - s.claimedAmount := rfl
  have hfirst : ∀ u env', drainExpiredStream D host caller r env = .ok (u, env') →
      received env env' s.token s.sponsor =
        max (s.total.tdiv rateDecimals - s.claimedAmount) 0 := by
    intro u env' h
    obtain ⟨x, hx, hrec⟩ := drainExpiredStream_received hfound hr h
    obtain ⟨-, -, rfl⟩ := (drainRemaining_ok_iff hinv).mp hx
    exact hrec
  rw [UInt32.lt_iff_toNat_lt]
  constructor
  · intro hagree
    by_contra hnot
    rw [not_or, not_lt] at hnot
    obtain ⟨hpast, hnot⟩ := hnot
    -- the second drain accepts, so the first one does
    have hok := hagree.accepted.mpr ((emergencyDrain_isOk_iff hfound hr hinv).mpr hpast)
    have hfit := ((drainExpiredStream_isOk_iff hfound hr hinv).mp hok).1
    obtain ⟨⟨u, env'⟩, h⟩ := exists_ok_of_isOk hok
    have hsame := hagree.drained u env' h
    rw [hfirst u env' h] at hsame
    exact hnot ⟨hfit, by omega⟩
  · intro hcond
    have hdeadline : s.endLedger.toNat + drainDelayLedgers.toNat < UInt32.size → _ :=
      toNat_saturatingAdd
    refine ⟨?_, fun u env' h => ?_, fun u env' h => ?_⟩
    · rw [drainExpiredStream_isOk_iff hfound hr hinv, emergencyDrain_isOk_iff hfound hr hinv]
      constructor
      · rintro ⟨hfit, hpast⟩
        rw [hdeadline hfit]
        exact hpast
      · intro hpast
        rcases hcond with hearly | ⟨hfit, -⟩
        · omega
        · rw [hdeadline hfit] at hpast
          exact ⟨hfit, hpast⟩
    · have hok : (drainExpiredStream D host caller r env).isOk = true := by
        rw [h]
        rfl
      obtain ⟨hfit, hpast⟩ := (drainExpiredStream_isOk_iff hfound hr hinv).mp hok
      rw [hfirst u env' h]
      rcases hcond with hearly | ⟨-, hfull⟩
      · rw [hdeadline hfit] at hearly
        omega
      · omega
    · obtain ⟨y, hy, hrec⟩ := emergencyDrain_received hfound hr h
      rw [hrec, ((emergencyAmount_ok_iff hinv).mp hy).2]
      exact max_eq_left howed

end Calls

/-! ### The sample stream as a legacy record -/

/-- Recipient `2` has the schedule `s` under the legacy key, and the vault holds all it pays. -/
def legacyEnv (s : VestingSchedule) : Env :=
  { sampleEnv with
    persistent := (∅ : Storage).insert (.schedule ⟨2⟩) s
    balances := fun _ holder => if holder = ⟨0⟩ then 2000000000 else 0 }

theorem drainReady_sample (current : UInt32) :
    DrainReady sampleDeployment (sampleHost current) (legacyEnv sampleStream) sampleStream where
  auth := rfl
  foreign := by decide
  accepts _ := rfl
  covered := by decide +kernel

/-- Before the deadline, at ledger `400`, both drains refuse. -/
theorem drainsAgree_iff_sample :
    DrainsAgree sampleDeployment (sampleHost 400) (legacyEnv sampleStream) ⟨7⟩ ⟨2⟩ sampleStream :=
  (drainsAgree_iff (by decide +kernel) repInv_sampleStream (drainReady_sample 400)).mpr
    (Or.inl (by decide))

/-- From the deadline on, at ledger `3153900`, `drain_expired_stream` returns `200` tokens of the
`2000000000` that `emergency_drain` returns. -/
theorem drainsAgree_expired_false :
    RepInv sampleStream 100 ∧
      DrainReady sampleDeployment (sampleHost 3153900) (legacyEnv sampleStream) sampleStream ∧
      ¬ DrainsAgree sampleDeployment (sampleHost 3153900) (legacyEnv sampleStream) ⟨7⟩ ⟨2⟩
        sampleStream := by
  refine ⟨repInv_sampleStream, drainReady_sample 3153900, fun hagree => ?_⟩
  obtain ⟨⟨u, env'⟩, hrun⟩ := exists_ok_of_isOk (x := drainExpiredStream sampleDeployment
    (sampleHost 3153900) ⟨7⟩ ⟨2⟩ (legacyEnv sampleStream)) (by decide +kernel)
  have hpaid : received (legacyEnv sampleStream) (commit (drainExpiredStream sampleDeployment
      (sampleHost 3153900) ⟨7⟩ ⟨2⟩) (legacyEnv sampleStream)) ⟨10⟩ ⟨1⟩ = 200 := by
    decide +kernel
  rw [commit_of_ok hrun] at hpaid
  have howed : received (legacyEnv sampleStream) env' ⟨10⟩ ⟨1⟩ = sampleStream.owed :=
    hagree.drained u env' hrun
  rw [hpaid] at howed
  revert howed
  decide

end VestingDripStream.Contract.Drains
