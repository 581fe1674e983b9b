import VestingDripStream.Contract.Requests

/-! # Is the vault solvent?

The vault owes `rate * (end - start) - claimed_amount` on every stored schedule. Claims,
cancellations and clawbacks take no more out of the vault than out of what is owed (`solvent_paid`,
`solvent_terminated`), whatever fee is charged and whoever the treasury is. Creation is where
solvency is lost: it deposits `rate * duration / RATE_DECIMALS`, pays the creation fee out of the
vault on top, and from then on owes `rate * duration`. `solvent_iff` says exactly when a run stays
solvent: every successful creation must be covered by what the vault holds beyond its other
debts. -/

namespace VestingDripStream.Contract.Solvency

open VestingDripStream.Lib.Checked VestingDripStream.Lib.Transaction VestingDripStream.Lib.Run
open VestingDripStream.Lib.KeyValue
open VestingDripStream.Contract.Types VestingDripStream.Contract.Storage
open VestingDripStream.Contract.Schedule VestingDripStream.Contract.EntryPoints
open VestingDripStream.Contract.Effects VestingDripStream.Contract.Stream
open VestingDripStream.Contract.Requests

/-! ### What is owed -/

/-- What a schedule owes in a token. -/
def owedIn (token : Address) (s : VestingSchedule) : ℤ := if s.token = token then s.owed else 0

/-- What a storage entry owes in a token: only schedules owe. -/
def entryOwes (token : Address) : (key : DataKey) → key.Val → ℤ
  | .schedule _, s => owedIn token s
  | .scheduleById _ _, s => owedIn token s
  | _, _ => 0

/-- What all stored schedules owe in a token. -/
def owedTotal (st : Storage) (token : Address) : ℤ := sumBy (entryOwes token) st

/-- What all stored schedules but the one under `(r, 0)` owe in a token. -/
def owedElsewhere (st : Storage) (r token : Address) : ℤ :=
  owedTotal (st.erase (.scheduleById r 0)) token

/-- **The vault is solvent**: it holds what it owes, in every token. -/
def Solvent (D : Deployment) (env : Env) : Prop :=
  ∀ token, owedTotal env.persistent token ≤ vault D env token

/-- The creation is covered: the vault, with the deposit and less the fee, holds what it will
owe. -/
def Covered (D : Deployment) (env : Env) (a : CreateArgs) : Prop :=
  let total := a.rate * a.totalDuration.toNat
  let deposit := total.tdiv rateDecimals
  let fee := (deposit * (getFee env.inst).1.toNat).tdiv 10000
  owedElsewhere env.persistent a.recipient a.token + total ≤
    vault D env a.token + deposit - feeOut D env.inst fee

section Owed

variable (st : Storage) (r token : Address)

theorem owedTotal_insert_nextStreamId (r' : Address) (n : UInt32) :
    owedTotal (st.insert (.nextStreamId r') n) token = owedTotal st token :=
  sumBy_insert_of_zero _ _ _ _ fun _ => rfl

theorem owedTotal_addSponsorStream (sp : Address) :
    owedTotal (addSponsorStream st sp r) token = owedTotal st token := by
  unfold addSponsorStream
  simp only
  split_ifs
  · rfl
  · exact sumBy_insert_of_zero _ _ _ _ fun _ => rfl

theorem owedTotal_removeSponsorStream (sp : Address) :
    owedTotal (removeSponsorStream st sp r) token = owedTotal st token :=
  sumBy_insert_of_zero _ _ _ _ fun _ => rfl

theorem owedTotal_raiseNext (k : UInt32) :
    owedTotal (raiseNext st r k) token = owedTotal st token := by
  unfold raiseNext
  split
  · split_ifs
    · exact owedTotal_insert_nextStreamId _ _ _ _
    · rfl
  · rfl

variable {st r}

/-- Where there is no legacy entry there is none to clear. -/
theorem clearLegacy_eq (h : legacy st r = none) : clearLegacy st r 0 = st := by
  unfold clearLegacy
  rw [if_pos rfl]
  exact erase_of_lookup_none h

theorem owedTotal_set (h : legacy st r = none) (s : VestingSchedule) :
    owedTotal (setScheduleById st r 0 s) token = owedIn token s + owedElsewhere st r token := by
  have hl : legacy (st.insert (.scheduleById r 0) s) r = none :=
    (Finmap.lookup_insert_of_ne _ (by simp)).trans h
  unfold setScheduleById
  rw [owedTotal_raiseNext, clearLegacy_eq hl]
  exact sumBy_insert _ _ _ _

theorem owedTotal_remove (h : legacy st r = none) :
    owedTotal (removeScheduleById st r 0) token = owedElsewhere st r token := by
  have hl : legacy (st.erase (.scheduleById r 0)) r = none :=
    (Finmap.lookup_erase_ne (by simp)).trans h
  unfold removeScheduleById
  rw [clearLegacy_eq hl]
  rfl

/-- Without legacy entries a stream of id `0` is stored under its id. -/
theorem scheduleAt_zero (h : legacy st r = none) : scheduleAt st r 0 = byId st r 0 := by
  unfold scheduleAt
  cases byId st r 0 with
  | none => rw [if_pos rfl, h]
  | some s => rfl

/-- What is owed, split into one recipient's stream and the rest. -/
theorem owedTotal_split (h : legacy st r = none) :
    owedTotal st token = ((scheduleAt st r 0).map (owedIn token)).getD 0 +
      owedElsewhere st r token := by
  rw [scheduleAt_zero h]
  cases hb : byId st r 0 with
  | none =>
    unfold owedElsewhere
    rw [erase_of_lookup_none hb]
    simp
  | some s => exact sumBy_erase _ hb

theorem owedElsewhere_insert_nextStreamId (h : legacy st r = none) (n : UInt32) :
    owedElsewhere (st.insert (.nextStreamId r) n) r token = owedElsewhere st r token := by
  have hl : legacy (st.insert (.nextStreamId r) n) r = none := by
    rw [legacy_insert_nextStreamId, h]
  have h1 := owedTotal_split token h
  have h2 := owedTotal_split token hl
  rw [owedTotal_insert_nextStreamId, scheduleAt_insert_nextStreamId] at h2
  omega

end Owed

/-! ### Every operation but creation keeps the vault solvent -/

section Steps

variable {D : Deployment} {host : Host} {env env' : Env} {now : ℕ}

theorem owedIn_nonneg {s : VestingSchedule} (h : RepInv s now) (token : Address) :
    0 ≤ owedIn token s := by
  unfold owedIn
  split_ifs
  · exact h.owed_nonneg
  · exact le_rfl

theorem owedElsewhere_le {st : Storage} (hinv : StoreInv st now) (r token : Address) :
    owedElsewhere st r token ≤ owedTotal st token := by
  rw [owedTotal_split token (hinv.legacy r)]
  cases hs : scheduleAt st r 0 with
  | none => simp
  | some s =>
    have := owedIn_nonneg (hinv.live r 0 s hs).2.1 token
    simp only [Option.map_some, Option.getD_some]
    omega

/-- **Creation** keeps the vault solvent exactly if it is covered. -/
theorem solvent_created {a : CreateArgs} {id : UInt32} {c : CreationReceipt}
    (hinv : StoreInv env.persistent now) (hsol : Solvent D env)
    (h : Created D host a env id env' c) : Solvent D env' ↔ Covered D env a := by
  obtain ⟨-, n, -, hres⟩ := nextStreamId_ok _ _ _ h.id
  have hl : legacy c.reserved a.recipient = none := by
    rw [hres, legacy_insert_nextStreamId]
    exact hinv.legacy _
  have hnew : (c.schedule host a).owed = a.rate * a.totalDuration.toNat := by
    show a.rate * ((c.endLedger.toNat : ℤ) - host.sequence.toNat) - 0 = _
    rw [h.endLedger]
    push_cast
    ring
  have htotal : ∀ token, owedTotal env'.persistent token =
      owedIn token (c.schedule host a) + owedElsewhere env.persistent a.recipient token := by
    intro token
    rw [h.persistent, owedTotal_addSponsorStream, setSchedule, owedTotal_set token hl, hres,
      owedElsewhere_insert_nextStreamId token (hinv.legacy _)]
  have htok : owedIn a.token (c.schedule host a) = a.rate * a.totalDuration.toNat := by
    have heq : (c.schedule host a).token = a.token := rfl
    unfold owedIn
    rw [if_pos heq, hnew]
  have hcov : Covered D env a ↔ owedElsewhere env.persistent a.recipient a.token +
      a.rate * a.totalDuration.toNat ≤ vault D env a.token + c.deposit - feeOut D env.inst c.fee := by
    rw [h.fee, h.deposit]
    rfl
  rw [hcov]
  constructor
  · intro hsol'
    have h1 := hsol' a.token
    rw [htotal, htok, h.vault, if_pos rfl] at h1
    omega
  · intro hle token
    rw [htotal, h.vault]
    by_cases ht : token = a.token
    · subst ht
      rw [htok, if_pos rfl]
      omega
    · have hzero : owedIn token (c.schedule host a) = 0 := by
        unfold owedIn
        exact if_neg fun heq => ht heq.symm
      have h1 := owedElsewhere_le hinv a.recipient token
      have h2 := hsol token
      rw [hzero, if_neg ht]
      omega

/-- A payment that takes no more out of the vault than out of one recipient's debt. -/
theorem solvent_of_paid {r : Address} {s : VestingSchedule} {x y : ℤ}
    (hinv : StoreInv env.persistent now) (hsol : Solvent D env)
    (hs : scheduleAt env.persistent r 0 = some s) (hxy : x ≤ y)
    (howed : ∀ token, owedTotal env'.persistent token =
      (if token = s.token then s.owed - y else 0) + owedElsewhere env.persistent r token)
    (hvault : ∀ t, vault D env' t = vault D env t - if t = s.token then x else 0) :
    Solvent D env' := by
  intro token
  have hsplit := owedTotal_split token (hinv.legacy r)
  have h1 := hsol token
  rw [hs, Option.map_some, Option.getD_some] at hsplit
  rw [howed, hvault]
  by_cases ht : token = s.token
  · have hin : owedIn token s = s.owed := by
      unfold owedIn
      exact if_pos ht.symm
    rw [if_pos ht, if_pos ht]
    omega
  · have hin : owedIn token s = 0 := by
      unfold owedIn
      exact if_neg fun heq => ht heq.symm
    rw [if_neg ht, if_neg ht]
    omega

/-- **A paid stream**: the claim, fee and net amount together, is taken off what is owed. -/
theorem solvent_paid {r : Address} {k : UInt32} {s : VestingSchedule} {rc : ClaimReceipt}
    (hinv : StoreInv env.persistent host.sequence.toNat) (hsol : Solvent D env)
    (h : StreamPaid D host r k env env' s rc) : Solvent D env' := by
  obtain ⟨rfl, hrep, -⟩ := hinv.live r k s h.live
  obtain ⟨x, -, hx, hvault⟩ := h.vault
  have hpos := hrep.gross_pos le_rfl h.receipt
  have hgross := hrep.gross_eq h.receipt
  have hfin := hrep.finished_iff h.receipt
  have howed := hrep.owed_eq
  obtain ⟨-, -, -, hsum, hfee, -, -, heq, -⟩ := claimSchedule_ok h.receipt
  have hfee' := hfee hpos.le
  refine solvent_of_paid (y := rc.gross) hinv hsol h.live (by omega) (fun token => ?_) hvault
  rw [h.persistent]
  unfold afterClaim
  by_cases hend : rc.finished = true
  · -- the last claim pays what is left
    have hall : s.owed = rc.gross := by
      rw [howed, hgross, Nat.min_eq_right (hfin.mp hend)]
    rw [if_pos hend, owedTotal_remove token (hinv.legacy r), hall, sub_self, ite_self, zero_add]
  · have hin : owedIn token rc.schedule = if token = s.token then s.owed - rc.gross else 0 := by
      have e1 : rc.schedule.token = s.token := by rw [heq]
      have e2 : rc.schedule.owed = s.owed - rc.gross := by
        rw [heq]
        unfold VestingSchedule.owed VestingSchedule.total
        ring
      unfold owedIn
      rw [e1, e2]
      simp only [eq_comm]
    rw [if_neg hend, owedTotal_set token (hinv.legacy r), hin]

theorem solvent_claim (hD : D.ReadsById) {r : Address} {streamId : Option UInt32} {amount : ℤ}
    (hinv : StoreInv env.persistent host.sequence.toNat) (hsol : Solvent D env)
    (h : claimVested D host r streamId env = .ok (amount, env')) : Solvent D env' := by
  refine (claimVested_induct
    (P := fun _ e => StoreInv e.persistent host.sequence.toNat ∧ Solvent D e) h
    (fun k _ acc e x e1 he hx => ?_) ⟨hinv, hsol⟩).1.2
  rcases claimStream_ok hD hx with ⟨-, rfl⟩ | ⟨s, rc, hpaid, -⟩
  · exact he
  · exact ⟨storeInv_paid he.1 hpaid, solvent_paid he.1 he.2 hpaid⟩

/-- **A terminal operation** that pays no more than what is owed. -/
theorem solvent_terminated {sponsor r : Address} {k : UInt32} {s : VestingSchedule} {bound : ℤ}
    (hinv : StoreInv env.persistent now) (hsol : Solvent D env)
    (hbound : RepInv s now → bound ≤ s.owed)
    (h : Terminated D sponsor r k env env' s bound) : Solvent D env' := by
  obtain ⟨rfl, hrep, -⟩ := hinv.live r k s h.live
  obtain ⟨x, hx, hvault⟩ := h.vault
  have hle := hbound hrep
  refine solvent_of_paid (y := s.owed) hinv hsol h.live (by omega) (fun token => ?_) hvault
  rw [h.persistent, owedTotal_removeSponsorStream, removeSchedule,
    owedTotal_remove token (hinv.legacy r), sub_self, ite_self, zero_add]

/-- The two shares of a cancellation make up what is owed. -/
theorem cancel_bound {s : VestingSchedule} {current : UInt32} {share refund : ℤ}
    (hsplit : cancelSplit s current = .ok (share, refund)) (h : RepInv s now) :
    max share 0 + max refund 0 ≤ s.owed := by
  have hnn := h.owed_nonneg
  obtain ⟨-, hcase⟩ := cancelSplit_ok hsplit
  rcases hcase with ⟨-, hlast, hshare, hrefund⟩ | ⟨-, hshare, hrefund⟩
  · have h0 : 0 ≤ share := by
      rw [hshare]
      exact mul_nonneg h.rate_pos.le (by omega)
    have hle : share ≤ s.owed := by
      rw [hshare, h.owed_eq]
      exact mul_le_mul_of_nonneg_left (by omega) h.rate_pos.le
    omega
  · omega

theorem clawback_bound {s : VestingSchedule} {remaining : ℤ}
    (hrem : clawbackRemaining s = .ok remaining) (h : RepInv s now) :
    max remaining 0 ≤ s.owed := by
  have hnn := h.owed_nonneg
  have heq := (clawbackRemaining_ok hrem).2
  rw [← h.owed_eq] at heq
  omega

end Steps

/-! ### Whole runs -/

section Runs

variable {D : Deployment}

/-- A successful request keeps the vault solvent exactly if it is not a creation that is not
covered. -/
theorem solvent_effect_iff (hD : D.ReadsById) {host : Host} {env env' : Env} {call : ContractCall}
    (hinv : StoreInv env.persistent host.sequence.toNat) (hsol : Solvent D env)
    (heff : Effect D host env env' call) :
    Solvent D env' ↔ ∀ a, call = .createVestingStream a → Covered D env a := by
  cases heff with
  | config kind hp hb =>
    have hsol' : Solvent D env' := by
      intro token
      have := hsol token
      unfold vault at this ⊢
      rwa [hp, hb]
    refine ⟨fun _ a ha => ?_, fun _ => hsol'⟩
    rw [ha] at kind
    cases kind
  | @create a _ _ hc =>
    rw [solvent_created hinv hsol hc]
    constructor
    · intro hcov a' ha'
      cases ha'
      exact hcov
    · intro hcov
      exact hcov a rfl
  | claim hc => exact ⟨fun _ => nofun, fun _ => solvent_claim hD hinv hsol hc⟩
  | cancel hsplit ht =>
    exact ⟨fun _ => nofun, fun _ => solvent_terminated hinv hsol (cancel_bound hsplit) ht⟩
  | clawback hrem ht =>
    exact ⟨fun _ => nofun, fun _ => solvent_terminated hinv hsol (clawback_bound hrem) ht⟩
  | viaLegacy _ found _ =>
    rw [hinv.legacy] at found
    cases found

theorem solvent_step_iff (hD : D.ReadsById) (c : Chain) (q : Request)
    (hinv : StoreInv c.env.persistent c.now) (hl : q.Legal c) (hsol : Solvent D c.env) :
    Solvent D (step D c q).env ↔
      ∀ a, q.call = .createVestingStream a → q.Ok D c → Covered D c.env a := by
  by_cases hok : q.Ok D c
  · obtain ⟨⟨u, env'⟩, h⟩ := exists_ok_of_isOk hok
    have hstep : (step D c q).env = env' := commit_of_ok h
    rw [hstep, solvent_effect_iff hD (hinv.mono hl) hsol (exec_ok hD h)]
    exact ⟨fun hcov a ha _ => hcov a ha, fun hcov a ha => hcov a ha hok⟩
  · have hstep : (step D c q).env = c.env := commit_of_not_isOk hok
    rw [hstep]
    exact ⟨fun _ a _ h => absurd h hok, fun _ => hsol⟩

theorem solvent_start (balances : Balances) : Solvent D (start balances).env := by
  intro token
  have hzero : owedTotal (start balances).env.persistent token = 0 := sumBy_empty _
  rw [hzero]
  exact Int.natCast_nonneg _

theorem solvent_iff_covered (hD : D.ReadsById) (balances : Balances) {requests : List Request}
    (hl : AllSteps (step D) (fun c q => q.Legal c) (start balances) requests) :
    AllStates (step D) (fun c => Solvent D c.env) (start balances) requests ↔
      AllSteps (step D) (fun c q => ∀ a, q.call = .createVestingStream a → q.Ok D c →
        Covered D c.env a) (start balances) requests :=
  allStates_iff_allSteps (storeInv_step hD) (solvent_step_iff hD) storeInv_empty hl
    (solvent_start balances)

/-- Nothing was ever stored, and the vault is empty. -/
structure Fresh (D : Deployment) (c : Chain) : Prop where
  persistent : c.env.persistent = ∅
  vault : ∀ token, vault D c.env token = 0

/-- An empty vault covers no creation: the deposit is less than what is owed. -/
theorem not_covered_of_fresh {c : Chain} {host : Host} {a : CreateArgs} {id : UInt32} {env' : Env}
    {rc : CreationReceipt} (hf : Fresh D c) (h : Created D host a c.env id env' rc) :
    ¬ Covered D c.env a := by
  have htotal : 0 < a.rate * a.totalDuration.toNat :=
    mul_pos h.rate_pos (by have := h.cliff_lt; omega)
  have hdep : (a.rate * a.totalDuration.toNat).tdiv rateDecimals <
      a.rate * a.totalDuration.toNat := by
    rw [Int.tdiv_eq_ediv_of_nonneg htotal.le]
    exact Int.ediv_lt_self_of_pos_of_ne_one htotal (by decide)
  have hdep0 : 0 ≤ (a.rate * a.totalDuration.toNat).tdiv rateDecimals :=
    Int.tdiv_nonneg htotal.le (by decide)
  have hfee := feeOut_nonneg D c.env.inst (Int.tdiv_nonneg
    (mul_nonneg hdep0 (Int.natCast_nonneg (getFee c.env.inst).1.toNat)) (b := 10000) (by decide))
  have hrest : owedElsewhere c.env.persistent a.recipient a.token = 0 := by
    rw [hf.persistent]
    unfold owedElsewhere
    rw [erase_of_lookup_none (Finmap.lookup_empty _)]
    exact sumBy_empty _
  intro hcov
  unfold Covered at hcov
  simp only [hrest, hf.vault] at hcov
  omega

/-- Only a creation gets anything out of the empty storage. -/
theorem fresh_step (hD : D.ReadsById) {c : Chain} {q : Request} (hf : Fresh D c)
    (hno : ∀ a, q.call = .createVestingStream a → ¬ q.Ok D c) : Fresh D (step D c q) := by
  by_cases hok : q.Ok D c
  · obtain ⟨⟨u, env'⟩, h⟩ := exists_ok_of_isOk hok
    have hstep : (step D c q).env = env' := commit_of_ok h
    have hnone : ∀ r k s, scheduleAt c.env.persistent r k ≠ some s := by
      intro r k s
      rw [hf.persistent, scheduleAt_empty]
      exact nofun
    generalize hcall : q.call = call at h hno
    cases exec_ok hD h with
    | config _ hp hb =>
      refine ⟨?_, fun token => ?_⟩
      · rw [hstep, hp, hf.persistent]
      · have hv := hf.vault token
        unfold Effects.vault at hv ⊢
        rw [hstep, hb, hv]
    | create _ => exact absurd hok (hno _ rfl)
    | claim hc =>
      obtain ⟨k, s, hs⟩ := exists_live_of_claim hD hc
      exact absurd hs (hnone _ k s)
    | cancel _ ht => exact absurd ht.live (hnone _ _ _)
    | clawback _ ht => exact absurd ht.live (hnone _ _ _)
    | viaLegacy _ found _ =>
      have hl : ∀ r, legacy ∅ r = none := fun _ => Finmap.lookup_empty _
      rw [hf.persistent, hl] at found
      cases found
  · have hstep : (step D c q).env = c.env := commit_of_not_isOk hok
    exact ⟨by rw [hstep, hf.persistent], by rw [hstep]; exact hf.vault⟩

/-- From an empty vault all creations are covered only if there are none. -/
theorem covered_iff_no_creation (hD : D.ReadsById) {c : Chain} {requests : List Request}
    (hf : Fresh D c) :
    AllSteps (step D) (fun c q => ∀ a, q.call = .createVestingStream a → q.Ok D c →
        Covered D c.env a) c requests ↔
      AllSteps (step D) (fun c q => ∀ a, q.call = .createVestingStream a → ¬ q.Ok D c) c
        requests := by
  constructor
  · refine AllSteps.of_inv (fun c q (hf : Fresh D c) hcov => ?_) hf
    have hno : ∀ a, q.call = .createVestingStream a → ¬ q.Ok D c := by
      intro a ha hok
      obtain ⟨⟨u, env'⟩, h⟩ := exists_ok_of_isOk hok
      have hcov := hcov a ha hok
      rw [ha] at h
      cases exec_ok hD h with
      | config kind _ _ => cases kind
      | create hc => exact not_covered_of_fresh hf hc hcov
      | viaLegacy kind _ _ => cases kind
    exact ⟨hno, fresh_step hD hf hno⟩
  · exact AllSteps.imp fun c q hno a ha hok => absurd hok (hno a ha)

/-- **The vault is solvent in every state of a run from the empty storage exactly if every
successful creation of the run is covered**; where the contract has no tokens before the run,
exactly if no creation of the run succeeds. -/
theorem solvent_iff (hD : D.ReadsById) (balances : Balances) {requests : List Request}
    (hl : AllSteps (step D) (fun c q => q.Legal c) (start balances) requests) :
    (AllStates (step D) (fun c => Solvent D c.env) (start balances) requests ↔
      AllSteps (step D) (fun c q => ∀ a, q.call = .createVestingStream a → q.Ok D c →
        Covered D c.env a) (start balances) requests) ∧
    ((∀ token, balances token D.contractAddress = 0) →
      (AllStates (step D) (fun c => Solvent D c.env) (start balances) requests ↔
        AllSteps (step D) (fun c q => ∀ a, q.call = .createVestingStream a → ¬ q.Ok D c)
          (start balances) requests)) := by
  have hcov := solvent_iff_covered hD balances hl
  refine ⟨hcov, fun hempty => ?_⟩
  have hf : Fresh D (start balances) := ⟨rfl, fun token => by
    show ((balances token D.contractAddress : ℕ) : ℤ) = 0
    rw [hempty]
    rfl⟩
  exact hcov.trans (covered_iff_no_creation hD hf)

end Runs

theorem solvent_iff_sample :
    (AllStates (step sampleDeployment) (fun c => Solvent sampleDeployment c.env)
        (start sampleStart.balances) sampleFirst ↔
      AllSteps (step sampleDeployment) (fun c q => ∀ a, q.call = .createVestingStream a →
        q.Ok sampleDeployment c → Covered sampleDeployment c.env a)
        (start sampleStart.balances) sampleFirst) ∧
    (AllStates (step sampleDeployment) (fun c => Solvent sampleDeployment c.env)
        (start sampleStart.balances) sampleFirst ↔
      AllSteps (step sampleDeployment) (fun c q => ∀ a, q.call = .createVestingStream a →
        ¬ q.Ok sampleDeployment c) (start sampleStart.balances) sampleFirst) := by
  have hl : AllSteps (step sampleDeployment) (fun c q => q.Legal c) (start sampleStart.balances)
      sampleFirst := by
    decide +kernel
  have h := solvent_iff sampleDeployment_readsById sampleStart.balances hl
  exact ⟨h.1, h.2 fun _ => rfl⟩

/-- After the first creation the vault holds 200 tokens and owes 2,000,000,000. -/
theorem solvent_sample_false :
    AllSteps (step sampleDeployment) (fun c q => q.Legal c) (start sampleStart.balances)
        sampleFirst ∧
      ¬ AllStates (step sampleDeployment) (fun c => Solvent sampleDeployment c.env)
        (start sampleStart.balances) sampleFirst := by
  refine ⟨by decide +kernel, fun h => ?_⟩
  have hlast := h.last ⟨10⟩
  have howed : owedTotal (run (step sampleDeployment) (start sampleStart.balances)
      sampleFirst).env.persistent ⟨10⟩ = 2000000000 := by
    decide +kernel
  have hvault : vault sampleDeployment (run (step sampleDeployment) (start sampleStart.balances)
      sampleFirst).env ⟨10⟩ = 200 := by
    decide +kernel
  rw [howed, hvault] at hlast
  exact absurd hlast (by decide)

end VestingDripStream.Contract.Solvency
