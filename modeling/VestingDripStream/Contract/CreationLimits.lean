import VestingDripStream.Contract.Effects

/-! # The limits on a new stream

`create_vesting_stream` refuses a stream that is too small by two checks: a fast one on
`rate * total_duration`, and one on the deposit, which is scaled down by `RATE_DECIMALS`. The second
one decides, and the fast one only picks the error (`size_check_exact`).

It refuses a cliff that is too long by its share of the duration in basis points, which it rounds
down before it compares. So a cliff that is above the limit by less than one basis point passes, and
no other one (`cliffRatio_exact_iff`). -/

namespace VestingDripStream.Contract.CreationLimits

open VestingDripStream.Lib.Checked VestingDripStream.Lib.Transaction
open VestingDripStream.Contract.Types VestingDripStream.Contract.Storage
open VestingDripStream.Contract.Schedule VestingDripStream.Contract.EntryPoints
open VestingDripStream.Contract.Effects

/-! ### The course of a creation -/

/-- The ledger sums of a creation do not overflow. -/
def LedgersFit (host : Host) (a : CreateArgs) : Prop :=
  host.sequence.toNat + a.cliffDuration.toNat < UInt32.size ∧
    host.sequence.toNat + a.totalDuration.toNat < UInt32.size

instance (host : Host) (a : CreateArgs) : Decidable (LedgersFit host a) := by
  unfold LedgersFit; infer_instance

/-- What `create_vesting_stream` does once it has accepted the deposit. -/
def depositAndStore (D : Deployment) (host : Host) (a : CreateArgs) (metadata : Option String)
    (cliffLedger endLedger : UInt32) (totalDeposit : ℤ) : Call UInt32 := do
  let streamId ← takeStreamId a.recipient
  tryTransfer host a.token a.sponsor D.contractAddress totalDeposit
  collectFee D host a totalDeposit
  persist fun st =>
    setSchedule st a.recipient (newSchedule a metadata host.sequence cliffLedger endLedger)
  persist fun st => addSponsorStream st a.sponsor a.recipient
  let duration ← compute (plain (plainSub endLedger host.sequence))
  let announced ← compute (plain (checked (asI128 duration * a.rate)))
  emit (.streamCreated a.sponsor a.recipient a.token a.rate host.sequence cliffLedger endLedger
    announced metadata)
  pure streamId

section Course

variable {D : Deployment} {host : Host} {a : CreateArgs} {env env' : Env} {m : Option String}
  {e : Failure}

theorem orOverflow_add {x y : UInt32} (h : x.toNat + y.toNat < UInt32.size) :
    orOverflow (checkedAdd x y) = .ok (x + y) :=
  congrArg orOverflow (if_pos h)

/-- The checks leave the environment alone. -/
theorem exists_validateCreate (h : (validateCreate D host a env).isOk = true) :
    ∃ m, validateCreate D host a env = .ok (m, env) := by
  obtain ⟨⟨m, env'⟩, hval⟩ := exists_ok_of_isOk h
  obtain ⟨-, -, -, -, -, rfl⟩ := validateCreate_ok hval
  exact ⟨m, hval⟩

theorem require_bind_of {α : Type} {c : Prop} [Decidable c] {x : VestingError} {f : Unit → Call α}
    (h : c) : (require c x >>= f) env = f () env :=
  bind_of_ok (if_pos h)

theorem require_bind_of_not {α : Type} {c : Prop} [Decidable c] {x : VestingError}
    {f : Unit → Call α} (h : ¬ c) : (require c x >>= f) env = .error (.err x) :=
  bind_error (if_neg h)

theorem persist_bind {α : Type} {g : Storage → Storage} {f : Unit → Call α} :
    (persist g >>= f) env = f () { env with persistent := g env.persistent } := rfl

theorem create_of_overflow (hval : validateCreate D host a env = .ok (m, env))
    (h : ¬ LedgersFit host a) :
    createVestingStream D host a env = .error (.err .depositOverflow) := by
  unfold createVestingStream
  rw [bind_of_ok hval]
  by_cases hcliff : host.sequence.toNat + a.cliffDuration.toNat < UInt32.size
  · have hend : checkedAdd host.sequence a.totalDuration = none :=
      if_neg fun hend => h ⟨hcliff, hend⟩
    rw [compute_bind_of (orOverflow_add hcliff), hend]
    rfl
  · have hnone : checkedAdd host.sequence a.cliffDuration = none := if_neg hcliff
    rw [hnone]
    rfl

/-- The two size checks, and what follows them. -/
theorem create_of_fit (hval : validateCreate D host a env = .ok (m, env))
    (h : LedgersFit host a) : createVestingStream D host a env =
      if BelowMinimumFast a.rate a.totalDuration (getMinDeposit env.inst) then
        .error (.err .rateTooLow)
      else match calculateTotalDeposit a.rate a.totalDuration with
        | .error e => .error e
        | .ok deposit =>
          if deposit < getMinDeposit env.inst then .error (.err .depositBelowMinimum)
          else depositAndStore D host a m (host.sequence + a.cliffDuration)
            (host.sequence + a.totalDuration) deposit env := by
  unfold createVestingStream
  rw [bind_of_ok hval, compute_bind_of (orOverflow_add h.1), compute_bind_of (orOverflow_add h.2),
    asks_bind]
  split_ifs with hfast
  · exact require_bind_of_not (not_not_intro hfast)
  · rw [require_bind_of hfast]
    cases calculateTotalDeposit a.rate a.totalDuration with
    | error e => rfl
    | ok deposit =>
      rw [compute_bind_of rfl]
      simp only
      split_ifs with hmin
      · exact require_bind_of_not (not_le.mpr hmin)
      · exact require_bind_of (not_lt.mp hmin)

/-! What follows the size checks does not fail for the size, and overflows only in the stream id or
the fee. -/

theorem plain_error {α : Type} {o : Option α} (h : plain o = .error e) : e = .trap := by
  cases o with
  | none => exact (Except.error.inj h).symm
  | some x => cases h

theorem tryTransfer_error {token src dst : Address} {x : ℤ}
    (h : tryTransfer host token src dst x env = .error e) : e = .err .transferFailed := by
  unfold tryTransfer at h
  split at h
  · cases h
  · exact (Except.error.inj h).symm

theorem takeStreamId_error {r : Address} (h : takeStreamId r env = .error e) :
    nextStreamId env.persistent r = .error e := by
  unfold takeStreamId at h
  split at h
  · cases h
  · next e' he => rw [he, Except.error.inj h]

theorem collectFee_error {deposit : ℤ} (h : collectFee D host a deposit env = .error e) :
    protocolFee (getFee env.inst).1 deposit = .error e ∨ e = .err .unauthorized ∨
      e = .err .transferFailed := by
  simp only [collectFee, asks_bind_error, onlyIf_error, need_bind_error, compute_bind_error] at h
  rcases h.2 with ⟨-, he⟩ | ⟨treasury, -, hfee | ⟨fee, -, -, hpay⟩⟩
  · exact Or.inr (Or.inl he.symm)
  · exact Or.inl hfee
  · rcases bind_eq_error.mp hpay with htr | ⟨_, _, -, hemit⟩
    · exact Or.inr (Or.inr (tryTransfer_error htr))
    · cases hemit

theorem depositAndStore_error {cliff fin : UInt32} {deposit : ℤ}
    (h : depositAndStore D host a m cliff fin deposit env = .error e) :
    nextStreamId env.persistent a.recipient = .error e ∨
      protocolFee (getFee env.inst).1 deposit = .error e ∨
      e = .err .unauthorized ∨ e = .err .transferFailed ∨ e = .trap := by
  unfold depositAndStore at h
  rcases bind_eq_error.mp h with hid | ⟨k, e1, hid, h⟩
  · exact Or.inl (takeStreamId_error hid)
  obtain ⟨st, -, rfl⟩ := takeStreamId_ok hid
  rcases bind_eq_error.mp h with htr | ⟨_, e2, htr, h⟩
  · exact Or.inr (Or.inr (Or.inr (Or.inl (tryTransfer_error htr))))
  obtain ⟨b, -, rfl⟩ := tryTransfer_ok htr
  rcases bind_eq_error.mp h with hfee | ⟨_, e3, -, h⟩
  · rcases collectFee_error hfee with hfee | he | he
    · exact Or.inr (Or.inl hfee)
    · exact Or.inr (Or.inr (Or.inl he))
    · exact Or.inr (Or.inr (Or.inr (Or.inl he)))
  · -- the event is computed with plain arithmetic
    refine Or.inr (Or.inr (Or.inr (Or.inr ?_)))
    rcases bind_eq_error.mp h with hp | ⟨_, e4, -, h⟩
    · cases hp
    rcases bind_eq_error.mp h with hp | ⟨_, e5, -, h⟩
    · cases hp
    rcases compute_bind_error.mp h with hd | ⟨d, -, h⟩
    · exact plain_error hd
    rcases compute_bind_error.mp h with hn | ⟨n, -, h⟩
    · exact plain_error hn
    · cases h

theorem nextStreamId_error {st : Storage} {r : Address} (h : nextStreamId st r = .error e) :
    e = .err .depositOverflow := by
  unfold nextStreamId at h
  simp only at h
  split at h
  · cases h
  · exact (Except.error.inj h).symm

theorem protocolFee_error {feeBps : UInt32} {x : ℤ} (h : protocolFee feeBps x = .error e) :
    e = .err .depositOverflow ∧ ¬ InI128 (x * feeBps.toNat) := by
  unfold protocolFee checked asI128 at h
  split_ifs at h with hpos hin
  · cases h
  · exact ⟨(Except.error.inj h).symm, hin⟩

theorem depositAndStore_ne_of_size {cliff fin : UInt32} {deposit : ℤ} {x : VestingError}
    (hx : x = .rateTooLow ∨ x = .depositBelowMinimum) :
    depositAndStore D host a m cliff fin deposit env ≠ .error (.err x) := by
  intro h
  rcases depositAndStore_error h with hid | hfee | he | he | he
  · have he := nextStreamId_error hid
    rcases hx with rfl | rfl <;> cases he
  · have he := (protocolFee_error hfee).1
    rcases hx with rfl | rfl <;> cases he
  all_goals rcases hx with rfl | rfl <;> cases he

end Course

/-! ### Size -/

section Size

variable {D : Deployment} {host : Host} {a : CreateArgs} {env : Env} {m : Option String}

theorem calculateTotalDeposit_eq (rate : ℤ) (d : UInt32) : calculateTotalDeposit rate d =
    if InI128 (rate * d.toNat) then .ok ((rate * d.toNat).tdiv rateDecimals)
    else .error (.err .depositOverflow) := by
  unfold calculateTotalDeposit checked asI128
  split_ifs <;> rfl

/-- Scaling down does not make a deposit larger. -/
theorem deposit_le {x : ℤ} (h : 0 ≤ x) : x.tdiv rateDecimals ≤ x := by
  rw [Int.tdiv_eq_ediv_of_nonneg h]
  exact Int.ediv_le_self _ h

/-- The creation is refused for the size of the deposit. -/
def TooSmall (D : Deployment) (host : Host) (a : CreateArgs) (env : Env) : Prop :=
  createVestingStream D host a env = .error (.err .rateTooLow) ∨
    createVestingStream D host a env = .error (.err .depositBelowMinimum)

/-- The fast check refuses nothing that the slow one would accept. -/
theorem tooSmall_iff (hval : validateCreate D host a env = .ok (m, env))
    (hfit : LedgersFit host a) : TooSmall D host a env ↔
      ∃ deposit, calculateTotalDeposit a.rate a.totalDuration = .ok deposit ∧
        deposit < getMinDeposit env.inst := by
  obtain ⟨-, hrate, -⟩ := validateCreate_ok hval
  have hprod : 0 ≤ a.rate * a.totalDuration.toNat := mul_nonneg hrate.le (Int.natCast_nonneg _)
  unfold TooSmall
  rw [create_of_fit hval hfit, calculateTotalDeposit_eq]
  unfold BelowMinimumFast asI128
  by_cases hin : InI128 (a.rate * a.totalDuration.toNat)
  · have hle := deposit_le hprod
    simp only [hin, true_and, if_true]
    split_ifs with hfast hmin
    · exact iff_of_true (Or.inl rfl) ⟨_, rfl, by omega⟩
    · exact iff_of_true (Or.inr rfl) ⟨_, rfl, hmin⟩
    · refine iff_of_false (fun h => ?_) fun ⟨d, hd, hlt⟩ => hmin (by cases hd; exact hlt)
      exact h.elim (depositAndStore_ne_of_size (Or.inl rfl))
        (depositAndStore_ne_of_size (Or.inr rfl))
  · simp only [hin, false_and, if_false]
    exact iff_of_false (by rintro (h | h) <;> cases h) fun ⟨d, hd, _⟩ => by cases hd

/-- A fee of at most 500 basis points on a deposit does not overflow. -/
theorem fee_fits {bps : UInt32} {x : ℤ} (hx : 0 ≤ x) (hin : InI128 x) (hbps : bps.toNat ≤ 500) :
    InI128 (x.tdiv rateDecimals * bps.toNat) := by
  have hnn : 0 ≤ x.tdiv rateDecimals := Int.tdiv_nonneg hx (by decide)
  have hscaled : x.tdiv rateDecimals * rateDecimals ≤ x := by
    rw [Int.tdiv_eq_ediv_of_nonneg hx]
    exact Int.ediv_mul_le x (by decide)
  have hle : x.tdiv rateDecimals * bps.toNat ≤ x.tdiv rateDecimals * rateDecimals := by
    refine mul_le_mul_of_nonneg_left ?_ hnn
    unfold rateDecimals
    omega
  exact inI128_of_le hin (mul_nonneg hnn (Int.natCast_nonneg _)) (hle.trans hscaled)

/-- **When a creation overflows**: in the product or a ledger sum, if a stream id is left. -/
theorem depositOverflow_iff (hval : validateCreate D host a env = .ok (m, env))
    (hid : ∃ p, nextStreamId env.persistent a.recipient = .ok p)
    (hbps : (getFee env.inst).1.toNat ≤ 500) :
    createVestingStream D host a env = .error (.err .depositOverflow) ↔
      ¬ InI128 (a.rate * a.totalDuration.toNat) ∨ ¬ LedgersFit host a := by
  obtain ⟨-, hrate, -⟩ := validateCreate_ok hval
  have hprod : 0 ≤ a.rate * a.totalDuration.toNat := mul_nonneg hrate.le (Int.natCast_nonneg _)
  by_cases hfit : LedgersFit host a
  · rw [create_of_fit hval hfit, calculateTotalDeposit_eq]
    unfold BelowMinimumFast asI128
    by_cases hin : InI128 (a.rate * a.totalDuration.toNat)
    · refine iff_of_false (fun h => ?_) (by simp [hin, hfit])
      simp only [hin, true_and, if_true] at h
      split_ifs at h
      · cases h
      · cases h
      · rcases depositAndStore_error h with hnone | hfee | he | he | he
        · obtain ⟨p, hp⟩ := hid
          rw [hp] at hnone
          cases hnone
        · exact (protocolFee_error hfee).2 (fee_fits hprod hin hbps)
        all_goals cases he
    · simp only [hin, false_and, if_false]
      exact iff_of_true trivial (Or.inl not_false)
  · exact iff_of_true (create_of_overflow hval hfit) (Or.inr hfit)

/-- **The size of the deposit.** A creation that passes the other checks is refused for its size
exactly if the product fits and the deposit is below the minimum, and overflows exactly if the
product or a ledger sum does; an accepted deposit is at least the minimum. -/
theorem size_check_exact (hval : validateCreate D host a env = .ok (m, env))
    (hmin : 1 ≤ getMinDeposit env.inst) :
    (LedgersFit host a → (TooSmall D host a env ↔ InI128 (a.rate * a.totalDuration.toNat) ∧
      ∃ deposit, calculateTotalDeposit a.rate a.totalDuration = .ok deposit ∧
        deposit < getMinDeposit env.inst)) ∧
    ((∃ p, nextStreamId env.persistent a.recipient = .ok p) → (getFee env.inst).1.toNat ≤ 500 →
      (createVestingStream D host a env = .error (.err .depositOverflow) ↔
        ¬ InI128 (a.rate * a.totalDuration.toNat) ∨ ¬ LedgersFit host a)) ∧
    (∀ id env', createVestingStream D host a env = .ok (id, env') →
      ∃ c, Created D host a env id env' c ∧
        calculateTotalDeposit a.rate a.totalDuration = .ok c.deposit ∧
        getMinDeposit env.inst ≤ c.deposit ∧ 1 ≤ c.deposit) := by
  refine ⟨fun hfit => ?_, depositOverflow_iff hval, fun id env' h => ?_⟩
  · rw [tooSmall_iff hval hfit]
    refine ⟨fun ⟨d, hd, hlt⟩ => ⟨(calculateTotalDeposit_ok hd).1, d, hd, hlt⟩, And.right⟩
  · obtain ⟨c, hc⟩ := createVestingStream_ok h
    have hdep : calculateTotalDeposit a.rate a.totalDuration = .ok c.deposit := by
      rw [calculateTotalDeposit_eq, if_pos hc.total_fits, hc.deposit]
    have hfit : LedgersFit host a :=
      ⟨hc.cliffLedger ▸ c.cliffLedger.toNat_lt, hc.endLedger ▸ c.endLedger.toNat_lt⟩
    have hle : getMinDeposit env.inst ≤ c.deposit := by
      by_contra hlt
      have hsmall := (tooSmall_iff hval hfit).mpr ⟨_, hdep, not_le.mp hlt⟩
      unfold TooSmall at hsmall
      rw [h] at hsmall
      rcases hsmall with he | he <;> cases he
    exact ⟨c, hc, hdep, hle, hmin.trans hle⟩

end Size

/-- A stream of 200 ledgers at a hundred-thousandth of a token per ledger is too small. -/
theorem size_check_exact_sample :
    TooSmall sampleDeployment (sampleHost 100) { sampleArgs with rate := 100 } sampleEnv ∧
      createVestingStream sampleDeployment (sampleHost 4294967290) sampleArgs sampleEnv =
        .error (.err .depositOverflow) := by
  have hmin : 1 ≤ getMinDeposit sampleEnv.inst := by decide +kernel
  obtain ⟨m, hsmall⟩ : ∃ m, validateCreate sampleDeployment (sampleHost 100)
      { sampleArgs with rate := 100 } sampleEnv = .ok (m, sampleEnv) :=
    exists_validateCreate (by decide +kernel)
  obtain ⟨m', hlate⟩ : ∃ m, validateCreate sampleDeployment (sampleHost 4294967290) sampleArgs
      sampleEnv = .ok (m, sampleEnv) :=
    exists_validateCreate (by decide +kernel)
  constructor
  · exact ((size_check_exact hsmall hmin).1 (by decide)).mpr ⟨by decide, 0, rfl, by decide +kernel⟩
  · exact ((size_check_exact hlate hmin).2.1 ⟨_, rfl⟩ (by decide +kernel)).mpr (Or.inr (by decide))

/-! ### The share of the cliff -/

section Cliff

variable {c t m : UInt32}

/-- A creation that is accepted has a cliff of at most `m` basis points of the duration, and a cliff
of at most that passes the check. -/
def CliffRatioExact (c t m : UInt32) : Prop :=
  (∀ (D : Deployment) (host : Host) (a : CreateArgs) (env : Env), a.cliffDuration = c →
    a.totalDuration = t → getMaxCliffRatio env.inst = m →
    (createVestingStream D host a env).isOk = true → c.toNat * 10000 ≤ m.toNat * t.toNat) ∧
  (c.toNat * 10000 ≤ m.toNat * t.toNat → cliffRatioBps c t ≤ m.toNat)

/-- What passes the check is below the next basis point. -/
theorem cliffRatioBps_le_iff (hlt : c < t) :
    cliffRatioBps c t ≤ m.toNat ↔ c.toNat * 10000 < (m.toNat + 1) * t.toNat := by
  rw [UInt32.lt_iff_toNat_lt] at hlt
  unfold cliffRatioBps
  rw [← Nat.lt_succ_iff, Nat.div_lt_iff_lt_mul (by omega)]

theorem validateCreate_ratio {D : Deployment} {host : Host} {a : CreateArgs} {env env' : Env}
    {metadata : Option String} (h : validateCreate D host a env = .ok (metadata, env')) :
    cliffRatioBps a.cliffDuration a.totalDuration ≤ (getMaxCliffRatio env.inst).toNat := by
  simp only [validateCreate, asks_bind_ok, require_bind_ok] at h
  obtain ⟨-, -, -, -, -, -, -, hratio, -⟩ := h
  exact hratio

/-! A stream that passes the check is accepted by some contract with that limit. -/

theorem exists_validated {D : Deployment} {host : Host} {a : CreateArgs} {env : Env}
    (hini : isInitialized env.inst = true) (hne : a.sponsor ≠ a.recipient) (hrate : 0 < a.rate)
    (hminRate : getMinRate env.inst ≤ a.rate) (hcliff : a.cliffDuration ≠ 0)
    (hlt : a.cliffDuration < a.totalDuration)
    (hratio : cliffRatioBps a.cliffDuration a.totalDuration ≤ (getMaxCliffRatio env.inst).toNat)
    (hallowed : isRecipientAllowed env.inst a.recipient = true)
    (htoken : host.isToken a.token = true) (hmeta : a.metadata = none)
    (hauth : host.auth a.sponsor = true ∧ a.sponsor ≠ D.contractAddress) :
    validateCreate D host a env = .ok (none, env) := by
  unfold validateCreate
  rw [asks_bind, require_bind_of hini, require_bind_of hne, require_bind_of hrate,
    require_bind_of hminRate, require_bind_of hcliff, require_bind_of hlt, require_bind_of hcliff,
    require_bind_of hratio, require_bind_of hallowed, require_bind_of htoken, hmeta,
    compute_bind_of (x := normaliseMetadata none) rfl]
  exact bind_of_ok (if_pos hauth)

theorem create_isOk {D : Deployment} {host : Host} {a : CreateArgs} {env : Env}
    {metadata : Option String} {id : UInt32 × Storage}
    (hval : validateCreate D host a env = .ok (metadata, env)) (hfit : LedgersFit host a)
    (hin : InI128 (a.rate * a.totalDuration.toNat))
    (hmin : getMinDeposit env.inst ≤ (a.rate * a.totalDuration.toNat).tdiv rateDecimals)
    (hid : nextStreamId env.persistent a.recipient = .ok id)
    (hacc : ∀ x, host.accepts a.token a.sponsor D.contractAddress x = true)
    (hbal : (a.rate * a.totalDuration.toNat).tdiv rateDecimals ≤ env.balances a.token a.sponsor)
    (hfee : (getFee env.inst).1 = 0) : (createVestingStream D host a env).isOk = true := by
  obtain ⟨-, hrate, -⟩ := validateCreate_ok hval
  have hprod : 0 ≤ a.rate * a.totalDuration.toNat := mul_nonneg hrate.le (Int.natCast_nonneg _)
  have hle := deposit_le hprod
  have hfast : ¬ BelowMinimumFast a.rate a.totalDuration (getMinDeposit env.inst) := by
    rintro ⟨-, hlt⟩
    unfold asI128 at hlt
    omega
  have htake : takeStreamId a.recipient env =
      .ok (id.1, { env with persistent := id.2 }) := by
    unfold takeStreamId
    rw [hid]
  have hrich : (a.rate * a.totalDuration.toNat).tdiv rateDecimals ≤
      ({ env with persistent := id.2 } : Env).balances a.token a.sponsor := hbal
  obtain ⟨b, -, hpay⟩ := exists_tryTransfer (hacc _) (Int.tdiv_nonneg hprod (by decide)) hrich
  have hcollect : collectFee D host a ((a.rate * a.totalDuration.toNat).tdiv rateDecimals)
      { env with persistent := id.2, balances := b } =
        .ok ((), { env with persistent := id.2, balances := b }) := by
    unfold collectFee
    rw [asks_bind, hfee]
    rfl
  rw [create_of_fit hval hfit, if_neg hfast, calculateTotalDeposit_eq, if_pos hin]
  simp only
  rw [if_neg (not_lt.mpr hmin)]
  unfold depositAndStore
  have hduration : plain (plainSub (host.sequence + a.totalDuration) host.sequence) =
      .ok a.totalDuration :=
    plain_ok.mpr (plainSub_eq_some.mpr (toNat_add_of_lt hfit.2))
  have hannounced : plain (checked (asI128 a.totalDuration * a.rate)) =
      .ok (asI128 a.totalDuration * a.rate) := by
    refine plain_ok.mpr (checked_of_mem ?_)
    rw [mul_comm]
    exact hin
  rw [bind_of_ok htake, bind_of_ok hpay, bind_of_ok hcollect, persist_bind, persist_bind,
    compute_bind_of hduration, compute_bind_of hannounced]
  rfl

/-- The sample contract with another limit and rich sponsors. -/
def ratioEnv (m : UInt32) : Env where
  persistent := ∅
  inst := sampleEnv.inst.insert .configMaxCliffRatio m
  balances _ _ := 100 * 2 ^ 32
  events := []

/-- A stream of 100 tokens per ledger. -/
def ratioArgs (c t : UInt32) : CreateArgs :=
  { sampleArgs with rate := 1000000000, cliffDuration := c, totalDuration := t }

theorem ratioEnv_limit : getMaxCliffRatio (ratioEnv m).inst = m := by
  unfold getMaxCliffRatio
  show (Option.getD (Finmap.lookup _ (Finmap.insert _ _ _)) _) = _
  rw [Finmap.lookup_insert]
  rfl

theorem ratioEnv_lookup {key : DataKey} (hkey : key ≠ .configMaxCliffRatio) :
    (ratioEnv m).inst.lookup key = sampleEnv.inst.lookup key :=
  Finmap.lookup_insert_of_ne _ hkey

/-- The deposit of 100 tokens per ledger. -/
theorem ratioArgs_deposit (c t : UInt32) :
    ((ratioArgs c t).rate * (ratioArgs c t).totalDuration.toNat).tdiv rateDecimals =
      100 * t.toNat := by
  have hten : (1000000000 : ℤ) * t.toNat = rateDecimals * (100 * t.toNat) := by
    unfold rateDecimals
    ring
  show ((1000000000 : ℤ) * t.toNat).tdiv rateDecimals = 100 * t.toNat
  rw [hten, Int.mul_tdiv_cancel_left _ (by decide)]

theorem ratioArgs_validated (hc : c ≠ 0) (hlt : c < t) (hratio : cliffRatioBps c t ≤ m.toNat) :
    validateCreate sampleDeployment (sampleHost 0) (ratioArgs c t) (ratioEnv m) =
      .ok (none, ratioEnv m) := by
  have hparties : sampleArgs.sponsor ≠ sampleArgs.recipient := by decide
  have hrate : (0 : ℤ) < 1000000000 := by decide
  have hauth : (sampleHost 0).auth sampleArgs.sponsor = true ∧
      sampleArgs.sponsor ≠ sampleDeployment.contractAddress := by decide
  refine exists_validated ?_ hparties hrate ?_ hc hlt ?_ ?_ rfl rfl hauth
  · unfold isInitialized
    rw [ratioEnv_lookup (by decide)]
    decide +kernel
  · unfold getMinRate
    rw [ratioEnv_lookup (by decide)]
    show (sampleEnv.inst.lookup .configMinRate).getD 1 ≤ (1000000000 : ℤ)
    decide +kernel
  · rw [ratioEnv_limit]
    exact hratio
  · show isRecipientAllowed _ sampleArgs.recipient = true
    unfold isRecipientAllowed
    rw [ratioEnv_lookup (by decide), ratioEnv_lookup (by decide)]
    decide +kernel

theorem ratioArgs_isOk (hc : c ≠ 0) (hlt : c < t) (hratio : cliffRatioBps c t ≤ m.toNat) :
    (createVestingStream sampleDeployment (sampleHost 0) (ratioArgs c t) (ratioEnv m)).isOk =
      true := by
  have hpos : 0 < t.toNat := by
    rw [UInt32.lt_iff_toNat_lt] at hlt
    omega
  have ht := t.toNat_lt
  refine create_isOk (ratioArgs_validated hc hlt hratio) ?_ ?_ ?_ rfl (fun _ => rfl) ?_ ?_
  · rw [UInt32.lt_iff_toNat_lt] at hlt
    unfold LedgersFit
    show 0 + c.toNat < 2 ^ 32 ∧ 0 + t.toNat < 2 ^ 32
    omega
  · show InI128 (1000000000 * t.toNat)
    unfold InI128 i128Min i128Max
    omega
  · have hmin : getMinDeposit (ratioEnv m).inst = 100 := by
      unfold getMinDeposit
      rw [ratioEnv_lookup (by decide)]
      decide +kernel
    rw [hmin, ratioArgs_deposit]
    omega
  · rw [ratioArgs_deposit]
    show (100 * t.toNat : ℤ) ≤ ((100 * 2 ^ 32 : ℕ) : ℤ)
    omega
  · show (Option.getD ((ratioEnv m).inst.lookup .feeBps) 0) = 0
    rw [ratioEnv_lookup (by decide)]
    decide +kernel

/-- **When the limit on the cliff is exact**: unless the share of the cliff lies strictly between
the limit and the next basis point. -/
theorem cliffRatio_exact_iff (hlt : c < t) : CliffRatioExact c t m ↔
    ¬ (m.toNat * t.toNat < c.toNat * 10000 ∧ c.toNat * 10000 < (m.toNat + 1) * t.toNat) := by
  constructor
  · rintro ⟨hsafe, -⟩ ⟨hgt, hnext⟩
    have hc : c ≠ 0 := by
      rintro rfl
      exact absurd hgt (by simp)
    have hok := ratioArgs_isOk hc hlt ((cliffRatioBps_le_iff hlt).mpr hnext)
    have hle := hsafe _ _ _ _ rfl rfl ratioEnv_limit hok
    omega
  · intro hbetween
    refine ⟨fun D host a env hcliff htotal hlimit hok => ?_, fun hle => ?_⟩
    · obtain ⟨⟨id, env'⟩, hcreate⟩ := exists_ok_of_isOk hok
      unfold createVestingStream at hcreate
      obtain ⟨_, _, hval, -⟩ := bind_ok.mp hcreate
      have hratio := validateCreate_ratio hval
      rw [hcliff, htotal, hlimit, cliffRatioBps_le_iff hlt] at hratio
      exact not_lt.mp fun hgt => hbetween ⟨hgt, hratio⟩
    · rw [cliffRatioBps_le_iff hlt, Nat.add_mul, Nat.one_mul]
      rw [UInt32.lt_iff_toNat_lt] at hlt
      omega

end Cliff

/-- With a limit of half the duration, 5000 of 10001 ledgers are decided right and 5001 are not. -/
theorem cliffRatio_exact_iff_sample : CliffRatioExact 5000 10001 5000 ∧
    ¬ CliffRatioExact 5001 10001 5000 := by
  have hfirst : (5000 : UInt32) < 10001 := by decide
  have hsecond : (5001 : UInt32) < 10001 := by decide
  exact ⟨(cliffRatio_exact_iff hfirst).mpr (by decide),
    fun h => (cliffRatio_exact_iff hsecond).mp h (by decide)⟩

/-- A cliff of 5001 of 10001 ledgers, over the default limit of half the duration, is accepted. -/
theorem cliffRatio_inexact : ¬ CliffRatioExact 5001 10001 5000 := by
  rintro ⟨hsafe, -⟩
  have hle := hsafe sampleDeployment (sampleHost 0)
    { sampleArgs with rate := 10000000, cliffDuration := 5001, totalDuration := 10001 } sampleEnv
    rfl rfl (by decide +kernel) (by decide +kernel)
  exact absurd hle (by decide)

end VestingDripStream.Contract.CreationLimits
