import VestingDripStream.Contract.ClaimAll

/-! # The deposit that a creation announces

`create_vesting_stream` takes `rate * duration / RATE_DECIMALS` from the sponsor, and announces
`rate * duration` as the `total_deposit` of its event, which is what the claims on the stream pay in
all. The announced amount fits `i128` whenever the deposit was computed, and it is never the amount
that was transferred. -/

namespace VestingDripStream.Contract.Announced

open VestingDripStream.Lib.Checked VestingDripStream.Lib.Transaction VestingDripStream.Lib.Run
open VestingDripStream.Contract.Types VestingDripStream.Contract.Storage
open VestingDripStream.Contract.Schedule VestingDripStream.Contract.EntryPoints
open VestingDripStream.Contract.Effects VestingDripStream.Contract.Stream
open VestingDripStream.Contract.ClaimAll

/-- The `total_deposit` that `emit_stream_created` computes. -/
def announcedTotal (startLedger endLedger : UInt32) (rate : ℤ) : Except Failure ℤ := do
  let duration ← plain (plainSub endLedger startLedger)
  plain (checked (asI128 duration * rate))

/-- The `total_deposit` of the last event, if it is a `StreamCreated`. -/
def announcedDeposit (env : Env) : Option ℤ :=
  match env.events.getLast? with
  | some (.streamCreated _ _ _ _ _ _ _ totalDeposit _) => some totalDeposit
  | _ => none

/-- What a call has taken from the holder. -/
def takenFrom (holder token : Address) (env env' : Env) : ℤ :=
  (env.balances token holder : ℤ) - env'.balances token holder

/-- A run of one stream from its creation. -/
def LegalRun (recipient : Address) (s : VestingSchedule) (calls : List StreamCall) : Prop :=
  AllSteps StreamState.step (fun c e => e.Legal c) (StreamState.created recipient s) calls

/-- The stream pays `total` in all, fees included: some run claims it to its end, every run that
does has paid `total`, and no run has paid more. -/
structure PaysInAll (recipient : Address) (s : VestingSchedule) (total : ℤ) : Prop where
  completes : ∃ calls, LegalRun recipient s calls ∧
    (run StreamState.step (StreamState.created recipient s) calls).stored = none
  completed : ∀ calls, LegalRun recipient s calls →
    (run StreamState.step (StreamState.created recipient s) calls).stored = none →
    (run StreamState.step (StreamState.created recipient s) calls).paid = total
  atMost : ∀ calls, LegalRun recipient s calls →
    (run StreamState.step (StreamState.created recipient s) calls).paid ≤ total

/-- The announced deposit is what the sponsor was charged, and what the claims will pay. -/
structure DepositAnnounced (a : CreateArgs) (env env' : Env) (announced : ℤ) : Prop where
  event : announcedDeposit env' = some announced
  transferred : takenFrom a.sponsor a.token env env' = announced
  payout : ∀ s, scheduleAt env'.persistent a.recipient 0 = some s →
    PaysInAll a.recipient s announced

/-! ### What the claims pay -/

/-- What was paid out of a stream that pays `total`. -/
structure PaidOf (total : ℤ) (c : StreamState) : Prop where
  stored : ∀ s, c.stored = some s → RepInv s c.now ∧ s.total = total ∧ c.paid = s.claimedAmount
  finished : c.stored = none → c.paid = total

section Payout

variable {total : ℤ} {c : StreamState} {e : StreamCall}

theorem PaidOf.le (h : PaidOf total c) : c.paid ≤ total := by
  cases hs : c.stored with
  | none => exact (h.finished hs).le
  | some s =>
    obtain ⟨hinv, rfl, hpaid⟩ := h.stored s hs
    rw [hpaid]
    exact hinv.claimed_le_total

/-- A claim pays what is due, and all of the rest at the end. -/
theorem paidOf_claim (h : PaidOf total c) {s : VestingSchedule} (hs : c.stored = some s)
    {feeBps : UInt32} {rc : ClaimReceipt} (hrc : claimSchedule s e.ledger feeBps = .ok rc) :
    PaidOf total { c with stored := if rc.finished = true then none else some rc.schedule
                          paid := c.paid + (rc.net + rc.fee), now := e.ledger.toNat } := by
  obtain ⟨hinv, htotal, hpaid⟩ := h.stored s hs
  have hinv' := repInv_claim hinv hrc
  obtain ⟨-, -, -, hsplit, -, hdue, -, hsched, hfin⟩ := claimSchedule_ok hrc
  have hle := hinv'.claimed_le_total
  have htotal' : rc.schedule.total = total := by rw [hsched]; exact htotal
  have hclaimed : rc.schedule.claimedAmount = s.claimedAmount + rc.gross := by rw [hsched]
  refine ⟨fun s' hs' => ?_, fun hs' => ?_⟩
  · simp only at hs'
    split_ifs at hs' with hf
    cases hs'
    refine ⟨hinv', htotal', ?_⟩
    show c.paid + (rc.net + rc.fee) = _
    omega
  · simp only at hs'
    split_ifs at hs' with hf
    have hend := hfin.mp hf
    show c.paid + (rc.net + rc.fee) = total
    omega

theorem paidOf_step (h : PaidOf total c) (hl : e.Legal c) : PaidOf total (c.step e) := by
  have hinv' : StoredInv (c.step e) := storedInv_step c e (fun s hs => (h.stored s hs).1) hl
  unfold StreamState.step at hinv' ⊢
  cases hx : c.exec e with
  | error f =>
    rw [hx] at hinv'
    refine ⟨fun s hs => ?_, h.finished⟩
    obtain ⟨-, htotal, hpaid⟩ := h.stored s hs
    exact ⟨hinv' s hs, htotal, hpaid⟩
  | ok c' =>
    rw [hx] at hinv'
    obtain ⟨s, hs, hcase⟩ := exec_ok hx
    obtain ⟨-, htotal, hpaid⟩ := h.stored s hs
    rcases hcase with ⟨_, rc, -, hrc, rfl⟩ | ⟨_, s1, -, hp, rfl⟩ | ⟨_, s1, hop, hr, rfl⟩ |
      ⟨_, -, -, rfl⟩
    · exact paidOf_claim h hs hrc
    · obtain ⟨-, -, -, hs1⟩ := pauseSchedule_ok hp
      refine ⟨fun s' hs' => ?_, fun hs' => by cases hs'⟩
      cases hs'
      exact ⟨hinv' _ rfl, by rw [hs1]; exact htotal, by rw [hs1]; exact hpaid⟩
    · obtain ⟨p, -, -, -, h1, -, h3, -, hrate, -, hca⟩ :=
        resumeSchedule_ok hr (hl.2 (by rw [hop]; rfl) s hs)
      refine ⟨fun s' hs' => ?_, fun hs' => by cases hs'⟩
      cases hs'
      have hspan : (s1.endLedger.toNat : ℤ) - s1.startLedger.toNat =
          (s.endLedger.toNat : ℤ) - s.startLedger.toNat := by omega
      refine ⟨hinv' _ rfl, ?_, by rw [hca]; exact hpaid⟩
      unfold VestingSchedule.total at htotal ⊢
      rw [hspan, hrate]
      exact htotal
    · refine ⟨fun s' hs' => ?_, fun hs' => by rw [hs] at hs'; cases hs'⟩
      rw [hs] at hs'
      cases hs'
      exact ⟨hinv' _ hs, htotal, hpaid⟩

end Payout

/-- A claim at the end of a new stream pays it out. -/
theorem exists_finalClaim {s : VestingSchedule} {now : ℕ} (h : RepInv s now)
    (hnow : now ≤ s.endLedger.toNat) (hpaused : s.pausedAtLedger = none)
    (hversion : s.version = 1) (hclaimed : s.claimedAmount = 0) :
    ∃ rc, claimSchedule s s.endLedger 0 = .ok rc ∧ rc.finished = true := by
  have h1 := h.start_lt_cliff
  have h2 := h.cliff_lt_end
  have hpos : 0 < s.total := mul_pos h.rate_pos (by omega)
  have hmax : (0 : ℤ) ≤ i128Max := by norm_num [i128Max]
  have hfits : s.total * (0 : UInt32).toNat ≤ i128Max := by simpa using hmax
  rcases computes_of_repInv h hnow (by rw [hversion]; decide) (by decide) hfits with
    ⟨reason, hskip⟩ | ⟨rc, hrc, -, -⟩
  · -- the stream is active, past its cliff, and all of it is due
    obtain ⟨c, hdue, -, -⟩ := exists_dueAmount h hnow
    obtain ⟨-, -, -, -, hc⟩ := dueAmount_ok hdue
    have hne : c ≠ 0 := by omega
    obtain ⟨v1, hv1, e1⟩ := exists_incrementVersion s (by rw [hversion]; decide)
    obtain ⟨v2, hv2, -⟩ := exists_incrementVersion { s with version := v1 } (by
      show v1.toNat + 1 < UInt32.size
      rw [e1, hversion]
      decide)
    have hcliff : ¬ s.endLedger < s.cliffLedger := by
      rw [UInt32.lt_iff_toNat_lt]
      omega
    have hactive : ¬ s.pausedAtLedger.isSome = true := by rw [hpaused]; exact Bool.false_ne_true
    simp only [accrue, if_neg hactive, if_neg hcliff, hv1, dueAmount_version, hdue, bind,
      Except.bind, if_neg hne, hv2] at hskip
    cases hskip
  · exact ⟨rc, hrc, (h.finished_iff hrc).mpr le_rfl⟩

/-- **What a new stream pays**: `rate * (end - start)`. -/
theorem paysInAll_total {s : VestingSchedule} (h : RepInv s s.startLedger.toNat)
    (hpaused : s.pausedAtLedger = none) (hversion : s.version = 1) (hclaimed : s.claimedAmount = 0)
    (recipient : Address) : PaysInAll recipient s s.total := by
  have hstart : PaidOf s.total (StreamState.created recipient s) := by
    refine ⟨fun s' hs' => ?_, fun hs' => by cases hs'⟩
    cases hs'
    exact ⟨h, rfl, hclaimed.symm⟩
  have hrun : ∀ calls, LegalRun recipient s calls →
      PaidOf s.total (run StreamState.step (StreamState.created recipient s) calls) :=
    fun calls hcalls => run_induct (fun _ _ => paidOf_step) hstart hcalls
  have hend : s.startLedger.toNat ≤ s.endLedger.toNat := by
    have h1 := h.start_lt_cliff
    have h2 := h.cliff_lt_end
    omega
  refine ⟨⟨[⟨s.endLedger, .claim 0⟩], ⟨⟨hend, fun hr => by cases hr⟩, trivial⟩, ?_⟩,
    fun calls hcalls => (hrun calls hcalls).finished, fun calls hcalls => (hrun calls hcalls).le⟩
  obtain ⟨rc, hrc, hfin⟩ := exists_finalClaim h hend hpaused hversion hclaimed
  have hexec : (StreamState.created recipient s).exec ⟨s.endLedger, .claim 0⟩ =
      .ok { recipient, stored := none, paid := 0 + (rc.net + rc.fee), now := s.endLedger.toNat } :=
    except_bind_ok.mpr ⟨s, rfl, except_bind_ok.mpr ⟨rc, hrc, by simp [hfin, StreamState.created]⟩⟩
  show ((StreamState.created recipient s).step ⟨s.endLedger, .claim 0⟩).stored = none
  unfold StreamState.step
  rw [hexec]

/-! ### What the creation takes and announces -/

section Creation

variable {D : Deployment} {host : Host} {a : CreateArgs} {env env' : Env}

/-- The fee is paid by the contract. -/
theorem collectFee_balances {deposit : ℤ} {u : Unit} (token : Address) {holder : Address}
    (hholder : holder ≠ D.contractAddress) (h : collectFee D host a deposit env = .ok (u, env')) :
    (env.balances token holder : ℤ) ≤ env'.balances token holder := by
  simp only [collectFee, asks_bind_ok] at h
  rcases onlyIf_ok.mp h with ⟨-, h⟩ | ⟨-, rfl⟩
  · simp only [need_bind_ok, compute_bind_ok] at h
    obtain ⟨treasury, -, fee, -, h⟩ := h
    rcases onlyIf_ok.mp h with ⟨-, h⟩ | ⟨-, rfl⟩
    · obtain ⟨_, e3, hpay, h⟩ := bind_ok.mp h
      rw [emit_ok] at h
      subst h
      obtain ⟨b, hb, rfl⟩ := tryTransfer_ok hpay
      obtain ⟨hfee, -, hbal⟩ := transfer_ok hb
      have hto := hbal token holder
      rw [if_neg fun hh => hholder hh.2] at hto
      show (env.balances token holder : ℤ) ≤ b token holder
      split_ifs at hto <;> omega
    · exact le_rfl
  · exact le_rfl

/-- **The sum in the event does not overflow** once the deposit was computed. -/
theorem announcedTotal_of_deposit {startLedger endLedger : UInt32} {deposit : ℤ}
    (hend : checkedAdd startLedger a.totalDuration = some endLedger)
    (hdep : calculateTotalDeposit a.rate a.totalDuration = .ok deposit) :
    announcedTotal startLedger endLedger a.rate = .ok (a.rate * a.totalDuration.toNat) ∧
      deposit = (a.rate * a.totalDuration.toNat).tdiv rateDecimals := by
  obtain ⟨hin, hdep⟩ := calculateTotalDeposit_ok hdep
  have hend := checkedAdd_eq_some.mp hend
  obtain ⟨d, hd, hdv⟩ := plainSub_of_le (a := endLedger) (b := startLedger) (by omega)
  have hamount : asI128 d * a.rate = a.rate * a.totalDuration.toNat := by
    unfold asI128
    rw [hdv, mul_comm]
    congr 2
    omega
  refine ⟨?_, hdep⟩
  simp only [announcedTotal, except_bind_ok, plain_ok, hd, Option.some.injEq, exists_eq_left']
  rw [hamount, checked_of_mem hin]

/-- What a successful creation announces, and at most takes from the sponsor. -/
theorem createVestingStream_announces {id : UInt32}
    (h : createVestingStream D host a env = .ok (id, env')) :
    announcedDeposit env' = some (a.rate * a.totalDuration.toNat) ∧
      takenFrom a.sponsor a.token env env' ≤
        (a.rate * a.totalDuration.toNat).tdiv rateDecimals := by
  unfold createVestingStream at h
  obtain ⟨m, e0, hval, h⟩ := bind_ok.mp h
  obtain ⟨-, -, -, -, hsponsor, rfl⟩ := validateCreate_ok hval
  simp only [compute_bind_ok, orOverflow_ok, asks_bind_ok, require_bind_ok] at h
  obtain ⟨cliff, -, fin, hfin, -, deposit, hdep, -, h⟩ := h
  obtain ⟨k, e1, hid, h⟩ := bind_ok.mp h
  obtain ⟨_, e2, htransfer, h⟩ := bind_ok.mp h
  obtain ⟨_, e3, hfee, h⟩ := bind_ok.mp h
  simp only [persist_bind_ok, compute_bind_ok, emit_bind_ok, pure_ok] at h
  obtain ⟨dur, hdur, announced, hann, -, rfl⟩ := h
  obtain ⟨htotal, hdeposit⟩ := announcedTotal_of_deposit hfin hdep
  refine ⟨?_, ?_⟩
  · have heq : announcedTotal host.sequence fin a.rate = .ok announced :=
      except_bind_ok.mpr ⟨dur, hdur, hann⟩
    rw [heq] at htotal
    cases htotal
    simp [announcedDeposit]
  · obtain ⟨reserved, -, rfl⟩ := takeStreamId_ok hid
    obtain ⟨b, hb, rfl⟩ := tryTransfer_ok htransfer
    obtain ⟨-, -, hbal⟩ := transfer_ok hb
    have hsent := hbal a.token a.sponsor
    rw [if_pos ⟨rfl, rfl⟩, if_neg fun hh => hsponsor hh.2] at hsent
    have hkept := collectFee_balances a.token hsponsor hfee
    rw [← hdeposit]
    show (env.balances a.token a.sponsor : ℤ) - (e3.balances a.token a.sponsor : ℤ) ≤ deposit
    have hb' : (b a.token a.sponsor : ℤ) ≤ e3.balances a.token a.sponsor := hkept
    have hsent' : (b a.token a.sponsor : ℤ) = env.balances a.token a.sponsor - deposit + 0 := hsent
    omega

/-- The announced deposit is what the claims will pay, and computing it does not overflow, but it is
never what the sponsor was charged. -/
theorem depositAnnounced_never {id : UInt32}
    (h : createVestingStream D host a env = .ok (id, env')) :
    (∃ announced, announcedDeposit env' = some announced ∧ InI128 announced ∧
      ∀ s, scheduleAt env'.persistent a.recipient 0 = some s →
        PaysInAll a.recipient s announced) ∧
      ∀ announced, ¬ DepositAnnounced a env env' announced := by
  obtain ⟨hevent, htaken⟩ := createVestingStream_announces h
  obtain ⟨c, hc⟩ := createVestingStream_ok h
  have hinv := repInv_created hc
  have htotal : (c.schedule host a).total = a.rate * a.totalDuration.toNat := by
    show a.rate * ((c.endLedger.toNat : ℤ) - host.sequence.toNat) = _
    rw [hc.endLedger]
    push_cast
    ring
  refine ⟨⟨_, hevent, hc.total_fits, fun s hs => ?_⟩, fun announced hall => ?_⟩
  · rw [scheduleAt_created hc] at hs
    cases hs
    rw [← htotal]
    exact paysInAll_total hinv rfl rfl rfl a.recipient
  · have hsame := hall.event
    rw [hevent] at hsame
    cases hsame
    have htransferred := hall.transferred
    have hpos : 0 < a.rate * (a.totalDuration.toNat : ℤ) := by
      have h1 := hc.cliff_pos
      have h2 := hc.cliff_lt
      exact mul_pos hc.rate_pos (by omega)
    have hlt : (a.rate * (a.totalDuration.toNat : ℤ)).tdiv rateDecimals <
        a.rate * a.totalDuration.toNat := by
      rw [Int.tdiv_eq_ediv_of_nonneg hpos.le]
      exact Int.ediv_lt_self_of_pos_of_ne_one hpos (by decide)
    omega

end Creation

theorem depositAnnounced_never_sample :
    ∃ id env', createVestingStream sampleDeployment (sampleHost 100) sampleArgs sampleEnv =
        .ok (id, env') ∧
      (∃ announced, announcedDeposit env' = some announced ∧ InI128 announced ∧
        ∀ s, scheduleAt env'.persistent ⟨2⟩ 0 = some s → PaysInAll ⟨2⟩ s announced) ∧
      ∀ announced, ¬ DepositAnnounced sampleArgs sampleEnv env' announced := by
  obtain ⟨⟨id, env'⟩, h⟩ := exists_ok_of_isOk sampleCreation_isOk
  exact ⟨id, env', h, depositAnnounced_never h⟩

/-- The sample stream announces 2000000000 and charges 200. -/
theorem sampleCreation_announces :
    announcedDeposit (commit (createVestingStream sampleDeployment (sampleHost 100) sampleArgs)
        sampleEnv) = some 2000000000 ∧
      takenFrom ⟨1⟩ ⟨10⟩ sampleEnv (commit (createVestingStream sampleDeployment (sampleHost 100)
        sampleArgs) sampleEnv) = 200 ∧
      ∀ announced, ¬ DepositAnnounced sampleArgs sampleEnv (commit (createVestingStream
        sampleDeployment (sampleHost 100) sampleArgs) sampleEnv) announced := by
  have hevent : announcedDeposit (commit (createVestingStream sampleDeployment (sampleHost 100)
      sampleArgs) sampleEnv) = some 2000000000 := by decide +kernel
  have htaken : takenFrom ⟨1⟩ ⟨10⟩ sampleEnv (commit (createVestingStream sampleDeployment
      (sampleHost 100) sampleArgs) sampleEnv) = 200 := by decide +kernel
  refine ⟨hevent, htaken, fun announced hall => ?_⟩
  have hsame := hall.event
  have htransferred : takenFrom ⟨1⟩ ⟨10⟩ _ _ = announced := hall.transferred
  rw [hevent] at hsame
  rw [htaken] at htransferred
  cases hsame
  exact absurd htransferred (by decide)

end VestingDripStream.Contract.Announced
