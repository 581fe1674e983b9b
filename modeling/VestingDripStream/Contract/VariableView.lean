import VestingDripStream.Contract.VariableReserves

/-! # The view of a variable-rate stream

`claimable_variable_amount` shows what a recipient may claim. It repeats the checks and the formula
of `claim_variable_vested` and can trap where the formula does. Over runs of all entry points it
never does, and it is right about the claims (`claimableVariable_exact`): both definitions of
`compute_variable_claimable` show the same amount, a claim at that ledger pays this amount and
succeeds whenever the recipient signs and the token has and moves it, and afterwards nothing is
shown at that ledger, while what other recipients are shown stays as it was. -/

namespace VestingDripStream.Contract.VariableView

open VestingDripStream.Lib.Checked VestingDripStream.Lib.Transaction VestingDripStream.Lib.Run
open VestingDripStream.Contract.Types VestingDripStream.Contract.Schedule
open VestingDripStream.Contract.EntryPoints VestingDripStream.Contract.Effects
open VestingDripStream.Contract.Requests VestingDripStream.Contract.VariableRate
open VestingDripStream.Contract.AllRequests VestingDripStream.Contract.VariableReserves

/-- `claimable_variable_amount` at the ledger `current`, by the definition `accrue` of
`compute_variable_claimable`. -/
def claimableVariableAmountWith (accrue : VariableRateSchedule → UInt32 → Except Failure ℤ)
    (st : Storage) (recipient : Address) (current : UInt32) : Except Failure ℤ :=
  match getVariableSchedule st recipient with
  | none => .ok 0
  | some s =>
    if s.pausedAtLedger.isSome then .ok 0
    else if current < s.cliffLedger then .ok 0
    else if s.endLedger ≤ current then plain (checked (s.totalDeposited - s.claimedAmount))
    else accrue s current

/-- `claimable_variable_amount`, with the first definition of `compute_variable_claimable`. -/
def claimableVariableAmount : Storage → Address → UInt32 → Except Failure ℤ :=
  claimableVariableAmountWith accruedVariable

/-- `claimable_variable_amount`, with the second definition of `compute_variable_claimable`. -/
def claimableVariableAmountSecond : Storage → Address → UInt32 → Except Failure ℤ :=
  claimableVariableAmountWith accruedVariableSecond

/-- The recipient signs a claim of `x`, and the vault has it and the token moves it. -/
def Collects (D : Deployment) (host : Host) (r : Address) (env : Env) (x : ℤ) : Prop :=
  host.auth r = true ∧ r ≠ D.contractAddress ∧
    ∃ v, getVariableSchedule env.persistent r = some v ∧
      host.accepts v.token D.contractAddress r x = true ∧
      x ≤ env.balances v.token D.contractAddress

/-- **The view is right** about `r` at the ledger `now`: it shows `x`. -/
structure Shows (D : Deployment) (env : Env) (r : Address) (now : UInt32) (x : ℤ) : Prop where
  first : claimableVariableAmount env.persistent r now = .ok x
  second : claimableVariableAmountSecond env.persistent r now = .ok x
  nonneg : 0 ≤ x
  claim : ∀ host : Host, host.sequence = now →
    ((claimVariableVested D host r env).isOk = true ↔ x ≠ 0 ∧ Collects D host r env x)
  pays : ∀ (host : Host) paid env', host.sequence = now →
    claimVariableVested D host r env = .ok (paid, env') → paid = x ∧
      claimableVariableAmount env'.persistent r now = .ok 0 ∧
      ∀ r' ≠ r, ∀ later, claimableVariableAmount env'.persistent r' later =
        claimableVariableAmount env.persistent r' later

variable {D : Deployment} {host : Host} {env env' : Env} {r : Address} {v : VariableRateSchedule}
  {accrue : VariableRateSchedule → UInt32 → Except Failure ℤ}

/-! ### What the view shows -/

theorem amount_of_none (hv : getVariableSchedule env.persistent r = none) (now : UInt32) :
    claimableVariableAmountWith accrue env.persistent r now = .ok 0 := by
  unfold claimableVariableAmountWith
  rw [hv]

/-- The view reads the schedule of its recipient only. -/
theorem amount_congr {st st' : Storage}
    (h : getVariableSchedule st' r = getVariableSchedule st r) (now : UInt32) :
    claimableVariableAmountWith accrue st' r now = claimableVariableAmountWith accrue st r now := by
  unfold claimableVariableAmountWith
  rw [h]

/-- What is due is shown from the cliff on. -/
theorem amount_of_reserved (haccrue : accrue = accruedVariable ∨ accrue = accruedVariableSecond)
    {st : Storage} (hv : getVariableSchedule st r = some v) (hres : Reserved v) (now : UInt32) :
    claimableVariableAmountWith accrue st r now =
      .ok (if now < v.cliffLedger then 0 else due v now) := by
  have hpaused : ¬ v.pausedAtLedger.isSome = true := by
    rw [hres.unpaused]
    decide
  have hamount := hres.amount_eq haccrue now
  unfold claimableVariableAmountWith
  rw [hv]
  simp only [if_neg hpaused]
  split_ifs with hcliff hend
  · rfl
  · rwa [if_pos hend] at hamount
  · rwa [if_neg hend] at hamount

/-! ### The claim -/

/-- **When a claim succeeds**: something is shown, and it can be collected. -/
theorem claim_isOk_iff (hres : Reserved v) (hlock : env.inst.lookup .lock = none)
    (hv : getVariableSchedule env.persistent r = some v) :
    (claimVariableVested D host r env).isOk = true ↔
      (if host.sequence < v.cliffLedger then 0 else due v host.sequence) ≠ 0 ∧
        Collects D host r env
          (if host.sequence < v.cliffLedger then 0 else due v host.sequence) := by
  constructor
  · intro hok
    obtain ⟨⟨paid, env'⟩, hclaim⟩ := exists_ok_of_isOk hok
    obtain ⟨w, b, hp, hpaid, hb, -⟩ := claimVariableVestedWith_eq_ok.mp hclaim
    obtain rfl := Option.some.inj (hv.symm.trans hp.live)
    rw [hres.amount_eq (Or.inl rfl), Except.ok.injEq] at hpaid
    rw [if_neg (UInt32.not_lt.mpr hp.cliff), hpaid]
    obtain ⟨-, hcovers, -⟩ := transfer_ok hb
    exact ⟨hp.paid_ne, hp.auth, hp.ne, v, hv, hp.accepted, hcovers⟩
  · rintro ⟨hne, hauth, hr, w, hw, haccepted, hcovers⟩
    obtain rfl := Option.some.inj (hv.symm.trans hw)
    have hcliff : ¬ host.sequence < v.cliffLedger := fun hlt => hne (if_pos hlt)
    rw [if_neg hcliff] at hne haccepted hcovers
    have hfits := hres.fits host.sequence
    obtain ⟨b, hb, -⟩ := exists_tryTransfer haccepted (hres.due_nonneg _) hcovers
    have hpayable : Payable D host r env v (due v host.sequence) := {
      auth := hauth
      ne := hr
      live := hv
      unpaused := hres.unpaused
      cliff := UInt32.not_lt.mp hcliff
      paid_ne := hne
      unlocked := by rw [hlock]; rfl
      accepted := haccepted
      total_fits := by rw [hres.total]; exact hfits
      claimed_fits := hfits }
    have hclaim := claimVariableVestedWith_eq_ok.mpr
      ⟨v, b, hpayable, hres.amount_eq (Or.inl rfl) _, hb, rfl⟩
    unfold claimVariableVested
    rw [hclaim]
    rfl

/-- After a claim nothing is shown at its ledger. -/
theorem amount_after_claim (hres : Reserved v) {paid : ℤ}
    (hc : Claimed D host r env env' v paid) :
    claimableVariableAmount env'.persistent r host.sequence = .ok 0 := by
  unfold claimableVariableAmount
  by_cases hend : v.endLedger ≤ host.sequence
  · refine amount_of_none ?_ _
    rw [hc.persistent, if_pos hend, getVariableSchedule_remove, if_pos rfl]
  · have hleft : getVariableSchedule env'.persistent r =
        some (afterVariableClaim v host.sequence (due v host.sequence)) := by
      rw [hc.persistent, if_neg hend, getVariableSchedule_set, if_pos rfl, hc.paid_eq]
    have hres' := hres.after hc.last_lt hend
    have hnothing : due (afterVariableClaim v host.sequence (due v host.sequence))
        host.sequence = 0 := by
      by_contra hne
      have hlt := (hres'.due_ne_zero_iff _).mp hne
      have hlast : (min host.sequence v.endLedger).toNat < host.sequence.toNat :=
        UInt32.lt_iff_toNat_lt.mp hlt
      rw [toNat_min] at hlast
      rw [UInt32.le_iff_toNat_le] at hend
      omega
    rw [amount_of_reserved (Or.inl rfl) hleft hres', hnothing, ite_self]

theorem amount_of_others {paid : ℤ} (hc : Claimed D host r env env' v paid) {r' : Address}
    (hr : r' ≠ r) (later : UInt32) : claimableVariableAmount env'.persistent r' later =
      claimableVariableAmount env.persistent r' later := by
  refine amount_congr ?_ later
  rw [hc.persistent]
  split_ifs
  · rw [getVariableSchedule_remove, if_neg hr]
  · rw [getVariableSchedule_set, if_neg hr]

theorem shows_of_kept {token : Address} {base : ℤ} (h : Kept D token base env) (r : Address)
    (now : UInt32) : ∃ x, Shows D env r now x := by
  cases hv : getVariableSchedule env.persistent r with
  | none =>
    have hfails : ∀ (host : Host) res, claimVariableVested D host r env ≠ .ok res := by
      rintro host ⟨paid, env'⟩ hclaim
      obtain ⟨w, b, hp, -⟩ := claimVariableVestedWith_eq_ok.mp hclaim
      have hlive := hp.live
      rw [hv] at hlive
      cases hlive
    refine ⟨0, amount_of_none hv _, amount_of_none hv _, le_rfl, fun host _ => ?_,
      fun host paid env' _ hclaim => absurd hclaim (hfails host _)⟩
    constructor
    · intro hok
      obtain ⟨res, hclaim⟩ := exists_ok_of_isOk hok
      exact absurd hclaim (hfails host res)
    · exact fun hne => absurd rfl hne.1
  | some v =>
    have hres := h.reserved r v hv
    refine ⟨_, amount_of_reserved (Or.inl rfl) hv hres _, amount_of_reserved (Or.inr rfl) hv hres _,
      ?_, fun host hseq => ?_, fun host paid env' hseq hclaim => ?_⟩
    · split_ifs
      · exact le_rfl
      · exact hres.due_nonneg now
    · subst hseq
      exact claim_isOk_iff hres h.unlocked hv
    · subst hseq
      obtain ⟨w, hc⟩ := claimed_of_ok (Or.inl rfl) (h.reserved r) hclaim
      obtain ⟨u, b, hp, -⟩ := claimVariableVestedWith_eq_ok.mp hclaim
      obtain rfl := Option.some.inj (hv.symm.trans hc.live)
      obtain rfl := Option.some.inj (hv.symm.trans hp.live)
      refine ⟨?_, amount_after_claim hres hc, fun r' hr later => amount_of_others hc hr later⟩
      rw [if_neg (UInt32.not_lt.mpr hp.cliff)]
      exact hc.paid_eq

/-! ### Runs -/

/-- In every run there is a token in which no fixed-rate stream is created. -/
theorem exists_segregated (D : Deployment) (env : Env) (l : List AnyRequest) :
    ∃ token, Segregated D token env l := by
  let used := (l.filterMap fun q => fixedToken q.call).map (·.id)
  obtain ⟨n, hn⟩ := Infinite.exists_notMem_finset used.toFinset
  have hunused : ∀ q ∈ l, fixedToken q.call ≠ some ⟨n⟩ := by
    intro q hq heq
    refine hn ?_
    rw [List.mem_toFinset]
    exact List.mem_map.mpr ⟨⟨n⟩, List.mem_filterMap.mpr ⟨q, hq, heq⟩, rfl⟩
  exact ⟨⟨n⟩, (allSteps_of_forall hunused).imp fun _ _ hne heq => absurd heq hne⟩

/-- **The view is right** in every state of every run. -/
theorem claimableVariable_exact (hD : D.ReadsById) (balances : Balances) (l : List AnyRequest) :
    AllStates (stepAny D) (fun env => ∀ r now, ∃ x, Shows D env r now x) (emptyEnv balances) l := by
  obtain ⟨token, hseg⟩ := exists_segregated D (emptyEnv balances) l
  exact (kept_run hD hseg).imp fun _ henv r now => shows_of_kept henv r now

/-- At ledger 220 the view of the sample stream shows 160 tokens, and this is what a claim pays. -/
theorem claimableVariable_exact_sample :
    claimableVariableAmount (run (stepAny sampleDeployment) (emptyEnv sampleStart.balances)
        (sampleMixed.take 3)).persistent ⟨2⟩ 220 = .ok 160 ∧
      ∃ x, Shows sampleDeployment (run (stepAny sampleDeployment) (emptyEnv sampleStart.balances)
        (sampleMixed.take 3)) ⟨2⟩ 220 x := by
  refine ⟨by decide +kernel, ?_⟩
  exact (claimableVariable_exact sampleDeployment_readsById sampleStart.balances
    (sampleMixed.take 3)).last ⟨2⟩ 220

end VestingDripStream.Contract.VariableView
