import VestingDripStream.Contract.AllRequests
import VestingDripStream.Contract.ClaimAll
import VestingDripStream.Lib.Floors

/-! # The protocol fee

`initialize` and `set_fee` are the only requests that set the fee, and both bound it and name a
treasury. So in every run the fee is at most 500 basis points, a treasury is set when there is a fee,
and no claim fails for want of one (`feeSound_run`). A claim pays the fee out of the amount it
claims, rounded down; over several claims the treasury gets less than one unit per claim less than
the fee on the total (`fees_of_split`). -/

namespace VestingDripStream.Contract.Fees

open VestingDripStream.Lib.Checked VestingDripStream.Lib.Transaction VestingDripStream.Lib.Run
open VestingDripStream.Lib.Floors
open VestingDripStream.Contract.Types VestingDripStream.Contract.Storage
open VestingDripStream.Contract.Schedule VestingDripStream.Contract.EntryPoints
open VestingDripStream.Contract.Effects VestingDripStream.Contract.Stream
open VestingDripStream.Contract.Requests VestingDripStream.Contract.AllRequests
open VestingDripStream.Contract.ClaimAll

/-! ### The configuration -/

/-- The fee is bounded, and a treasury is set if there is one. -/
structure FeeSound (inst : Storage) : Prop where
  bounded : (getFee inst).1.toNat ≤ 500
  treasury : 0 < (getFee inst).1 → (getFee inst).2.isSome = true

section Configuration

variable {D : Deployment} {host : Host} {env env' : Env} {u : Unit}

theorem getFee_congr {st st' : Storage} (hbps : st'.lookup .feeBps = st.lookup .feeBps)
    (htreasury : st'.lookup .treasury = st.lookup .treasury) : getFee st' = getFee st := by
  unfold getFee
  rw [hbps, htreasury]

theorem feeSound_empty : FeeSound ∅ where
  bounded := by
    unfold getFee
    rw [Finmap.lookup_empty]
    decide
  treasury h := by
    unfold getFee at h
    rw [Finmap.lookup_empty] at h
    exact absurd h (by decide)

/-- A storage that holds an accepted fee and a treasury. -/
theorem feeSound_of_lookup {st : Storage} (bps : UInt32) (treasury : Address)
    (hle : bps ≤ maxFeeBps) (hbps : st.lookup .feeBps = some bps)
    (htreasury : st.lookup .treasury = some treasury) : FeeSound st where
  bounded := by
    unfold getFee
    rw [hbps]
    exact UInt32.le_iff_toNat_le.mp hle
  treasury _ := by
    unfold getFee
    rw [htreasury]
    rfl

theorem initializeContract_feeSound {admin treasury : Address} {bps : UInt32}
    (h : initializeContract D host admin bps treasury env = .ok (u, env')) :
    FeeSound env'.inst := by
  simp only [initializeContract, asks_bind_ok, require_bind_ok, requireAuth_bind_ok,
    configure_bind_ok, emit_ok] at h
  obtain ⟨-, hle, -, rfl⟩ := h
  refine feeSound_of_lookup bps treasury hle ?_ ?_
  · rw [Finmap.lookup_insert_of_ne _ (by decide), Finmap.lookup_insert_of_ne _ (by decide),
      Finmap.lookup_insert]
  · rw [Finmap.lookup_insert_of_ne _ (by decide), Finmap.lookup_insert]

theorem setFee_feeSound {admin treasury : Address} {bps : UInt32}
    (h : setFee D host admin bps treasury env = .ok (u, env')) : FeeSound env'.inst := by
  unfold setFee at h
  obtain ⟨_, e, -, h⟩ := bind_ok.mp h
  rw [require_bind_ok, configure_ok] at h
  obtain ⟨hle, rfl⟩ := h
  refine feeSound_of_lookup bps treasury hle ?_ ?_
  · rw [Finmap.lookup_insert_of_ne _ (by decide), Finmap.lookup_insert]
  · rw [Finmap.lookup_insert]

/-- **One request** keeps the configuration sound: it sets the fee or leaves it alone. -/
theorem feeSound_step (hD : D.ReadsById) (env : Env) (q : AnyRequest) (h : FeeSound env.inst) :
    FeeSound (stepAny D env q).inst := by
  by_cases hok : q.Ok D env
  · obtain ⟨⟨u, env'⟩, hexec⟩ := exists_ok_of_isOk hok
    rw [show stepAny D env q = env' from commit_of_ok hexec]
    have hkept : ∀ key ∈ [DataKey.feeBps, .treasury],
        (∀ base, q.call = .fixed base → key ∉ configKeys base) →
          env'.inst.lookup key = env.inst.lookup key :=
      fun key _ hkey => lookup_inst_of_execAny hD hkey hexec
    by_cases hini : ∃ admin bps treasury, q.call = .fixed (.initializeContract admin bps treasury)
    · obtain ⟨admin, bps, treasury, hcall⟩ := hini
      rw [hcall] at hexec
      exact initializeContract_feeSound hexec
    by_cases hset : ∃ admin bps treasury, q.call = .fixed (.setFee admin bps treasury)
    · obtain ⟨admin, bps, treasury, hcall⟩ := hset
      rw [hcall] at hexec
      exact setFee_feeSound hexec
    have hother : ∀ key ∈ [DataKey.feeBps, .treasury], ∀ base, q.call = .fixed base →
        key ∉ configKeys base := by
      intro key hkey base hcall hmem
      cases base with
      | initializeContract admin bps treasury => exact hini ⟨admin, bps, treasury, hcall⟩
      | setFee admin bps treasury => exact hset ⟨admin, bps, treasury, hcall⟩
      | _ => simp [configKeys] at hmem hkey <;> grind
    have hfee := getFee_congr (hkept _ (by simp) (hother _ (by simp)))
      (hkept _ (by simp) (hother _ (by simp)))
    exact ⟨hfee ▸ h.bounded, hfee ▸ h.treasury⟩
  · rw [show stepAny D env q = env from commit_of_not_isOk hok]
    exact h

end Configuration

/-! ### No claim lacks a treasury -/

section Claims

variable {D : Deployment} {host : Host} {r : Address} {env : Env}

theorem require_ne {c : Prop} [Decidable c] {e x : VestingError} (h : e ≠ x) :
    require c e env ≠ .error (.err x) := by
  unfold require ensure
  split_ifs
  · exact nofun
  · intro he
    cases he
    exact h rfl

theorem tryTransfer_ne {token src dst : Address} {x : ℤ} :
    tryTransfer host token src dst x env ≠ .error (.err .unauthorized) := by
  unfold tryTransfer
  split <;> simp

theorem payClaim_ne (h : FeeSound env.inst) {token : Address} {fee net : ℤ}
    (hfee : 0 < fee → 0 < (getFee env.inst).1) :
    payClaim D host r token fee net env ≠ .error (.err .unauthorized) := by
  refine bind_ne_error_at nofun fun inst e he => ?_
  obtain ⟨rfl, rfl⟩ := asks_ok.mp he
  refine bind_ne_error_at (require_ne (by decide)) fun _ e he => ?_
  obtain ⟨-, rfl⟩ := ensure_ok.mp he
  refine bind_ne_error_at nofun fun _ locked _ => ?_
  refine bind_ne_error_at (fun hpay => ?_) fun _ _ _ => bind_ne_error_at tryTransfer_ne nofun
  obtain ⟨hpos, hpay⟩ := onlyIf_error.mp hpay
  rcases need_bind_error.mp hpay with ⟨hnone, -⟩ | ⟨treasury, -, hpay⟩
  · have hsome := h.treasury (hfee hpos)
    rw [hnone] at hsome
    cases hsome
  · rcases bind_eq_error.mp hpay with htransfer | ⟨_, _, -, hemit⟩
    · exact tryTransfer_ne htransfer
    · cases hemit

/-- A positive fee comes from a positive rate. -/
theorem feeBps_pos {bps : UInt32} {c fee net : ℤ} (h : feeSplit bps c = .ok (fee, net))
    (hfee : 0 < fee) : 0 < bps := by
  by_contra hzero
  simp only [feeSplit, protocolFee, if_neg hzero, except_bind_ok, Except.ok.injEq, exists_eq_left',
    Prod.mk.injEq] at h
  obtain ⟨_, -, rfl, -⟩ := h
  exact lt_irrefl _ hfee

theorem claimStream_ne (h : FeeSound env.inst) {specific : Bool} {k : UInt32} :
    claimStream D host r specific k env ≠ .error (.err .unauthorized) := by
  refine bind_ne_error_at nofun fun st e he => ?_
  obtain ⟨rfl, rfl⟩ := asks_ok.mp he
  cases D.getScheduleById env.persistent r k with
  | none => exact bind_ne_error_at (require_ne (by decide)) nofun
  | some s =>
    refine bind_ne_error_at ?_ fun acc e hfound => ?_
    · exact avoids_compute ((onlyOverflows_accrue s _).ne (by decide)) env
    obtain ⟨hacc, rfl⟩ := compute_ok.mp hfound
    cases acc with
    | skip reason =>
      refine bind_ne_error_at (require_ne ?_) nofun
      rcases accrue_skip hacc with rfl | rfl <;> decide
    | due s total claimable =>
      refine bind_ne_error_at nofun fun inst e he => ?_
      obtain ⟨rfl, rfl⟩ := asks_ok.mp he
      refine bind_ne_error_at ?_ fun split e hfound => ?_
      · exact avoids_compute ((onlyOverflows_feeSplit _ _).ne (by decide)) env
      obtain ⟨hsplit, rfl⟩ := compute_ok.mp hfound
      refine bind_ne_error_at (payClaim_ne h (feeBps_pos hsplit)) fun _ e _ => ?_
      refine bind_ne_error_at ?_ fun s e _ => ?_
      · exact avoids_compute ((onlyOverflows_settle s _ _).ne (by decide)) e
      refine bind_ne_error_at ?_ fun _ _ _ => nofun
      unfold storeClaim
      split_ifs <;> nofun

theorem claimLoop_ne (hD : D.ReadsById) {specific : Bool} : ∀ {ids : List UInt32} {acc : ℤ}
    {env : Env}, FeeSound env.inst →
      claimLoop D host r specific ids acc env ≠ .error (.err .unauthorized)
  | [], _, _, _ => nofun
  | k :: ids, acc, env, h => by
    refine bind_ne_error_at (claimStream_ne h) fun amount env1 hpaid => ?_
    have h1 : FeeSound env1.inst := by
      rcases claimStream_ok hD hpaid with ⟨-, rfl⟩ | ⟨s, rc, hpaid, -⟩
      · exact h
      · exact hpaid.inst ▸ h
    refine bind_ne_error_at ?_ fun total e htotal => ?_
    · exact avoids_compute ((onlyOverflows_orOverflow _).ne (by decide)) env1
    obtain ⟨-, rfl⟩ := compute_ok.mp htotal
    exact claimLoop_ne hD h1

/-- **No claim fails for want of a treasury**, the one reason for which a claim is unauthorized. -/
theorem claimVested_ne (hD : D.ReadsById) (h : FeeSound env.inst) (streamId : Option UInt32) :
    claimVested D host r streamId env ≠ .error (.err .unauthorized) := by
  refine bind_ne_error_at ?_ fun _ e he => ?_
  · exact avoids_ensure (Or.inr (by decide)) env
  obtain ⟨-, rfl⟩ := ensure_ok.mp he
  refine bind_ne_error_at nofun fun st e he => ?_
  obtain ⟨rfl, rfl⟩ := asks_ok.mp he
  refine bind_ne_error_at (require_ne (by decide)) fun _ e he => ?_
  obtain ⟨-, rfl⟩ := ensure_ok.mp he
  refine bind_ne_error_at (claimLoop_ne hD h) fun total e _ => ?_
  exact bind_ne_error_at (require_ne (by decide)) nofun

end Claims

/-! ### The fee of a claim -/

section Split

variable {bps : UInt32}

/-- The fee on a total, rounded down. -/
def feeOn (bps : UInt32) (total : ℤ) : ℤ := (total * bps.toNat).tdiv 10000

theorem feeOn_of_feeSplit {c f n : ℤ} (h : feeSplit bps c = .ok (f, n)) : f = feeOn bps c := by
  simp only [feeSplit, except_bind_ok, Except.ok.injEq, Prod.mk.injEq] at h
  obtain ⟨fee, hfee, net, -, rfl, -⟩ := h
  exact protocolFee_ok hfee

theorem feeOn_eq_ediv {total : ℤ} (h : 0 ≤ total) : feeOn bps total = total * bps.toNat / 10000 :=
  Int.tdiv_eq_ediv_of_nonneg (mul_nonneg h (Int.natCast_nonneg _))

/-- **The fee of a claim**: the parts add up, and the recipient gets some. -/
theorem exists_claim_split {c : ℤ} (hbps : bps.toNat ≤ 500) (hc : 0 < c) (hin : InI128 c)
    (hprod : InI128 (c * bps.toNat)) :
    ∃ f n, feeSplit bps c = .ok (f, n) ∧ f + n = c ∧ 0 ≤ f ∧ 0 < n := by
  obtain ⟨f, n, hsplit, hf, -⟩ := exists_feeSplit hc.le (by omega) hprod.2 hin.2
  have hsum := (feeSplit_ok hsplit).1
  have hfee := feeOn_of_feeSplit hsplit
  have hle : c * (bps.toNat : ℤ) ≤ c * 500 := mul_le_mul_of_nonneg_left (by omega) hc.le
  rw [feeOn_eq_ediv hc.le] at hfee
  exact ⟨f, n, hsplit, hsum, hf, by omega⟩

theorem fees_eq_floors {amounts : List ℤ} {paid : List (ℤ × ℤ)} (hpos : ∀ c ∈ amounts, 0 < c)
    (h : List.Forall₂ (fun c p => feeSplit bps c = .ok p) amounts paid) :
    (paid.map Prod.fst).sum = floors 10000 (amounts.map (· * (bps.toNat : ℤ))) := by
  induction h with
  | nil => rfl
  | @cons c p amounts paid hsplit _ ih =>
    have hfee : p.1 = feeOn bps c := feeOn_of_feeSplit hsplit
    rw [feeOn_eq_ediv (hpos c List.mem_cons_self).le] at hfee
    rw [List.map_cons, List.sum_cons, List.map_cons, floors_cons, hfee,
      ih fun x hx => hpos x (List.mem_cons_of_mem _ hx)]

/-- **The fees of several claims**: at most the fee on their total, and less than one unit per claim
below it. -/
theorem fees_of_split {amounts : List ℤ} {paid : List (ℤ × ℤ)} (hne : amounts ≠ [])
    (hpos : ∀ c ∈ amounts, 0 < c)
    (h : List.Forall₂ (fun c p => feeSplit bps c = .ok p) amounts paid) :
    (paid.map Prod.fst).sum ≤ feeOn bps amounts.sum ∧
      feeOn bps amounts.sum < (paid.map Prod.fst).sum + amounts.length := by
  have hsum : (amounts.map (· * (bps.toNat : ℤ))).sum = amounts.sum * bps.toNat := by
    simpa using List.sum_map_mul_right amounts id (bps.toNat : ℤ)
  have hten : (0 : ℤ) < 10000 := by norm_num
  have hlt := div_lt hten (l := amounts.map (· * (bps.toNat : ℤ))) (by simpa using hne)
  rw [feeOn_eq_ediv (List.sum_nonneg fun c hc => (hpos c hc).le), fees_eq_floors hpos h, ← hsum]
  rw [List.length_map] at hlt
  exact ⟨floors_le hten, hlt⟩

end Split

/-- **Fee discipline.** In every run from the empty storage the fee is bounded, a treasury is set
when there is a fee, and no claim fails for want of one; the parts of a claim add up and leave the
recipient some; and the fees of several claims are the fee on the total, up to less than one unit
for each claim. -/
theorem fee_discipline {D : Deployment} (hD : D.ReadsById) (balances : Balances)
    (requests : List AnyRequest) :
    AllStates (stepAny D) (fun env => (getFee env.inst).1.toNat ≤ 500 ∧
      (0 < (getFee env.inst).1 → (getFee env.inst).2.isSome = true) ∧
      ∀ host r streamId, claimVested D host r streamId env ≠ .error (.err .unauthorized))
      (emptyEnv balances) requests ∧
    ∀ bps : UInt32, bps.toNat ≤ 500 →
      (∀ c, 0 < c → InI128 c → InI128 (c * bps.toNat) →
        ∃ f n, feeSplit bps c = .ok (f, n) ∧ f + n = c ∧ 0 ≤ f ∧ 0 < n) ∧
      (∀ total f n, feeSplit bps total = .ok (f, n) → f = feeOn bps total) ∧
      ∀ amounts paid, amounts ≠ [] → (∀ c ∈ amounts, 0 < c) →
        List.Forall₂ (fun c p => feeSplit bps c = .ok p) amounts paid →
          (paid.map Prod.fst).sum ≤ feeOn bps amounts.sum ∧
            feeOn bps amounts.sum < (paid.map Prod.fst).sum + amounts.length := by
  constructor
  · have hinv : AllStates (stepAny D) (fun env => FeeSound env.inst) (emptyEnv balances) requests :=
      allStates_of_step (feeSound_step hD) feeSound_empty
    exact hinv.imp fun env h => ⟨h.bounded, h.treasury, fun _ _ k => claimVested_ne hD h k⟩
  · intro bps hbps
    exact ⟨fun c hc hin hprod => exists_claim_split hbps hc hin hprod,
      fun _ _ _ h => feeOn_of_feeSplit h, fun _ _ hne hpos h => fees_of_split hne hpos h⟩

/-- A fee of 5 % is set, and 19 is claimed in one claim, with no fee, and 21 in another. -/
theorem fee_discipline_sample :
    AllStates (stepAny sampleDeployment) (fun env => (getFee env.inst).1.toNat ≤ 500 ∧
      (0 < (getFee env.inst).1 → (getFee env.inst).2.isSome = true) ∧
      ∀ host r streamId,
        claimVested sampleDeployment host r streamId env ≠ .error (.err .unauthorized))
      (emptyEnv sampleStart.balances)
      [⟨sampleHost 1, .fixed (.initializeContract ⟨9⟩ 0 ⟨8⟩)⟩,
        ⟨sampleHost 2, .fixed (.setFee ⟨9⟩ 500 ⟨7⟩)⟩] ∧
    feeOn 500 40 < 1 + 2 := by
  obtain ⟨hstates, hsplit⟩ := fee_discipline sampleDeployment_readsById sampleStart.balances
    [⟨sampleHost 1, .fixed (.initializeContract ⟨9⟩ 0 ⟨8⟩)⟩,
      ⟨sampleHost 2, .fixed (.setFee ⟨9⟩ 500 ⟨7⟩)⟩]
  refine ⟨hstates, ?_⟩
  obtain ⟨-, -, hfees⟩ := hsplit 500 (by decide)
  exact (hfees [19, 21] [(0, 19), (1, 20)] (by decide) (by decide)
    (.cons rfl (.cons rfl .nil))).2

end VestingDripStream.Contract.Fees
