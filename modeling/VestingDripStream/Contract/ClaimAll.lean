import VestingDripStream.Contract.Stream
import VestingDripStream.Contract.StorageLaws

/-! # Claiming all streams is claiming each

`claim_vested` without a stream id walks over `get_stream_ids` and skips what it cannot pay; with an
id it pays that stream or fails. Both run the same loop body:

* `claimStream_specific`: the body succeeds for a stream that was asked for exactly if it succeeds
  without skipping it;
* `claimEach_of_claimLoop`: a loop that succeeds leaves what the claims one by one leave, refused
  ones left out, down to the balances and the events;
* `exists_claimLoop`: where no arithmetic fails and the vault covers what is due, the loop succeeds.
  The streams are removed from the storage while their ids are walked, but no stream of the rest is
  touched. -/

namespace VestingDripStream.Contract.ClaimAll

open VestingDripStream.Lib.Checked VestingDripStream.Lib.Transaction
open VestingDripStream.Contract.Types VestingDripStream.Contract.Storage
open VestingDripStream.Contract.StorageLaws VestingDripStream.Contract.Schedule
open VestingDripStream.Contract.EntryPoints VestingDripStream.Contract.Effects
open VestingDripStream.Contract.Stream

/-- `claim_vested(r, Some(k))` for every id of the list, one after the other; refused ones are
ignored. The total claimed and the environment afterwards. -/
def claimEach (D : Deployment) (host : Host) (r : Address) : List UInt32 → ℤ → Env → ℤ × Env
  | [], total, env => (total, env)
  | k :: rest, total, env =>
    match claimVested D host r (some k) env with
    | .ok (x, env') => claimEach D host r rest (total + x) env'
    | .error _ => claimEach D host r rest total env

/-! ### One stream, asked for or not -/

section One

variable {D : Deployment} {host : Host} {r : Address} {env env' : Env} {k : UInt32} {x : ℤ}

/-- A turn that finds an amount due claims that amount, under the lock. -/
theorem claimStream_of_due {specific : Bool} {s s1 : VestingSchedule} {total claimable : ℤ}
    (hs : D.getScheduleById env.persistent r k = some s)
    (hacc : accrue s host.sequence = .ok (.due s1 total claimable))
    (h : claimStream D host r specific k env = .ok (x, env')) :
    x = claimable ∧ (env.inst.lookup .lock).isNone = true := by
  simp only [claimStream, asks_bind_ok, hs, compute_bind_ok, hacc, Except.ok.injEq,
    exists_eq_left'] at h
  obtain ⟨p, -, h⟩ := h
  obtain ⟨_, e1, hpay, h⟩ := bind_ok.mp h
  rw [compute_bind_ok] at h
  obtain ⟨s2, -, h⟩ := h
  obtain ⟨_, e2, -, h⟩ := bind_ok.mp h
  rw [emit_bind_ok, pure_ok] at h
  simp only [payClaim, asks_bind_ok, require_bind_ok] at hpay
  exact ⟨h.1.symm, hpay.1⟩

/-- **The loop body** succeeds for a stream that was asked for exactly if it would not be
skipped. -/
theorem claimStream_specific : claimStream D host r true k env = .ok (x, env') ↔
    claimStream D host r false k env = .ok (x, env') ∧ x ≠ 0 := by
  simp only [claimStream, asks_bind_ok]
  cases hs : D.getScheduleById env.persistent r k with
  | none =>
    simp only [require_bind_ok, pure_ok]
    constructor
    · rintro ⟨hfalse, -⟩
      cases hfalse
    · rintro ⟨⟨-, rfl, -⟩, hne⟩
      exact absurd rfl hne
  | some s =>
    simp only [compute_bind_ok]
    constructor
    · rintro ⟨acc, hacc, h⟩
      cases acc with
      | skip reason =>
        simp only [require_bind_ok] at h
        cases h.1
      | due s1 total claimable =>
        refine ⟨⟨_, hacc, h⟩, ?_⟩
        -- what is paid is the amount due, and that is not zero
        have hturn : claimStream D host r true k env = .ok (x, env') := by
          simp only [claimStream, asks_bind_ok, hs, compute_bind_ok]
          exact ⟨_, hacc, h⟩
        rw [(claimStream_of_due hs hacc hturn).1]
        exact (accrue_due hacc).2.2.1
    · rintro ⟨⟨acc, hacc, h⟩, hne⟩
      cases acc with
      | skip reason =>
        simp only [require_bind_ok, pure_ok] at h
        exact absurd h.2.1.symm hne
      | due s1 total claimable => exact ⟨_, hacc, h⟩

/-- What a turn of the loop claims is an `i128`, and nothing is claimed by a turn that skips. -/
theorem claimStream_amount (hD : D.ReadsById) {specific : Bool}
    (h : claimStream D host r specific k env = .ok (x, env')) :
    InI128 x ∧ (x = 0 → env' = env) := by
  rcases claimStream_ok hD h with ⟨rfl, rfl⟩ | ⟨s, rc, hpaid, rfl⟩
  · exact ⟨by decide, fun _ => rfl⟩
  · obtain ⟨-, -, hne, -, -, hdue, -⟩ := claimSchedule_ok hpaid.receipt
    obtain ⟨-, -, -, hin, -⟩ := dueAmount_ok hdue
    exact ⟨hin, fun h0 => absurd h0 hne⟩

/-- `claim_vested` on one stream. -/
theorem claimVested_some (hD : D.ReadsById) : claimVested D host r (some k) env = .ok (x, env') ↔
    (host.auth r = true ∧ r ≠ D.contractAddress) ∧
      claimStream D host r false k env = .ok (x, env') ∧ x ≠ 0 := by
  simp only [claimVested, requireAuth_bind_ok, asks_bind_ok, require_bind_ok, Option.isSome_some]
  refine and_congr_right fun _ => ?_
  constructor
  · rintro ⟨-, h⟩
    obtain ⟨total, e1, hloop, h⟩ := bind_ok.mp h
    rw [require_bind_ok, pure_ok] at h
    obtain ⟨-, rfl, rfl⟩ := h
    unfold claimLoop at hloop
    obtain ⟨y, e2, hy, hloop⟩ := bind_ok.mp hloop
    simp only [compute_bind_ok, orOverflow_ok, checked_eq_some, claimLoop, pure_ok] at hloop
    obtain ⟨z, ⟨-, rfl⟩, rfl, rfl⟩ := hloop
    rw [zero_add]
    exact claimStream_specific.mp hy
  · intro h
    have hspec := claimStream_specific.mpr h
    obtain ⟨hin, -⟩ := claimStream_amount hD h.1
    refine ⟨by simp, bind_ok.mpr ⟨x, env', ?_, ?_⟩⟩
    · unfold claimLoop
      refine bind_ok.mpr ⟨x, env', hspec, ?_⟩
      simp only [compute_bind_ok, orOverflow_ok, checked_eq_some, claimLoop, pure_ok]
      exact ⟨x, ⟨by rwa [zero_add], (zero_add x).symm⟩, rfl, trivial⟩
    · rw [require_bind_ok, pure_ok]
      exact ⟨h.2, rfl, rfl⟩

/-- `claim_vested` on all streams. -/
theorem claimVested_none : claimVested D host r none env = .ok (x, env') ↔
    (host.auth r = true ∧ r ≠ D.contractAddress) ∧ getStreamIds env.persistent r ≠ [] ∧
      claimLoop D host r false (getStreamIds env.persistent r) 0 env = .ok (x, env') ∧ x ≠ 0 := by
  simp only [claimVested, requireAuth_bind_ok, asks_bind_ok, require_bind_ok, Option.isSome_none]
  refine and_congr_right fun _ => and_congr_right fun _ => ?_
  constructor
  · intro h
    obtain ⟨total, e1, hloop, h⟩ := bind_ok.mp h
    rw [require_bind_ok, pure_ok] at h
    obtain ⟨hne, rfl, rfl⟩ := h
    exact ⟨hloop, hne⟩
  · rintro ⟨hloop, hne⟩
    refine bind_ok.mpr ⟨x, env', hloop, ?_⟩
    rw [require_bind_ok, pure_ok]
    exact ⟨hne, rfl, rfl⟩

end One

/-! ### The loop and the single claims -/

section Each

variable {D : Deployment} {host : Host} {r : Address}

/-- **A loop that succeeds is the claims one by one.** -/
theorem claimEach_of_claimLoop (hD : D.ReadsById)
    (hauth : host.auth r = true ∧ r ≠ D.contractAddress) :
    ∀ {ids : List UInt32} {acc total : ℤ} {env env' : Env},
      claimLoop D host r false ids acc env = .ok (total, env') →
        claimEach D host r ids acc env = (total, env')
  | [], acc, total, env, env', h => by
    unfold claimLoop at h
    obtain ⟨rfl, rfl⟩ := pure_ok.mp h
    rfl
  | k :: rest, acc, total, env, env', h => by
    unfold claimLoop at h
    obtain ⟨x, e1, hx, h⟩ := bind_ok.mp h
    simp only [compute_bind_ok, orOverflow_ok, checked_eq_some] at h
    obtain ⟨acc', ⟨-, rfl⟩, h⟩ := h
    have hrest := claimEach_of_claimLoop hD hauth h
    unfold claimEach
    by_cases hx0 : x = 0
    · -- a skipped stream is refused when it is asked for, and nothing changes
      have henv := (claimStream_amount hD hx).2 hx0
      subst hx0
      subst henv
      rw [add_zero] at hrest
      cases hc : claimVested D host r (some k) e1 with
      | error e => exact hrest
      | ok p =>
        obtain ⟨y, e2⟩ := p
        obtain ⟨-, hy, hne⟩ := (claimVested_some hD).mp hc
        rw [hx, Except.ok.injEq] at hy
        exact absurd (congrArg Prod.fst hy).symm hne
    · have hsome := (claimVested_some hD).mpr ⟨hauth, hx, hx0⟩
      rw [hsome]
      exact hrest

/-- A loop that claims anything pays, in the environment it starts in, some stream. -/
theorem exists_paid_of_claimLoop (hD : D.ReadsById) :
    ∀ {ids : List UInt32} {acc total : ℤ} {env env' : Env},
      claimLoop D host r false ids acc env = .ok (total, env') → total ≠ acc →
        ∃ k ∈ ids, ∃ x e, claimStream D host r false k env = .ok (x, e) ∧ x ≠ 0
  | [], acc, total, env, env', h, hne => by
    unfold claimLoop at h
    obtain ⟨rfl, -⟩ := pure_ok.mp h
    exact absurd rfl hne
  | k :: rest, acc, total, env, env', h, hne => by
    unfold claimLoop at h
    obtain ⟨x, e1, hx, hrest⟩ := bind_ok.mp h
    simp only [compute_bind_ok, orOverflow_ok, checked_eq_some] at hrest
    obtain ⟨acc', ⟨-, rfl⟩, hrest⟩ := hrest
    by_cases hx0 : x = 0
    · have henv := (claimStream_amount hD hx).2 hx0
      subst hx0
      subst henv
      rw [add_zero] at hrest
      obtain ⟨k', hk', hpaid⟩ := exists_paid_of_claimLoop hD hrest hne
      exact ⟨k', List.mem_cons_of_mem _ hk', hpaid⟩
    · exact ⟨k, List.mem_cons_self, x, e1, hx, hx0⟩

end Each

/-! ### When the loop succeeds -/

/-- No arithmetic of a claim on `s` fails: no product overflows, no version passes `u32::MAX` and no
difference of ledgers is negative. The claim skips the stream or splits what is due into two
payments. -/
def Computes (s : VestingSchedule) (current feeBps : UInt32) : Prop :=
  (∃ reason, accrue s current = .ok (.skip reason)) ∨
    ∃ rc, claimSchedule s current feeBps = .ok rc ∧ 0 ≤ rc.fee ∧ 0 ≤ rc.net

/-- What a claim on `s` pays, fee included. -/
def due (s : VestingSchedule) (current feeBps : UInt32) : ℤ :=
  match claimSchedule s current feeBps with
  | .ok rc => rc.gross
  | .error _ => 0

/-- What a claim on the stream `(r, k)` pays. -/
def dueAt (host : Host) (env : Env) (r : Address) (k : UInt32) : ℤ :=
  match scheduleAt env.persistent r k with
  | some s => due s host.sequence (getFee env.inst).1
  | none => 0

/-- What a claim on the stream `(r, k)` pays in the token `t`. -/
def dueIn (host : Host) (env : Env) (r t : Address) (k : UInt32) : ℤ :=
  match scheduleAt env.persistent r k with
  | some s => if s.token = t then due s host.sequence (getFee env.inst).1 else 0
  | none => 0

/-- **What claiming the streams `ids` of `r` relies on**: no arithmetic fails, nor does the sum of
the amounts overflow; a treasury is set if there is a fee, the tokens accept the transfers, and the
vault covers what is due. -/
structure ClaimsGo (D : Deployment) (host : Host) (r : Address) (ids : List UInt32) (env : Env) :
    Prop where
  computes : ∀ k ∈ ids, ∀ s, scheduleAt env.persistent r k = some s →
    Computes s host.sequence (getFee env.inst).1
  sum_fits : (ids.map (dueAt host env r)).sum ≤ i128Max
  treasury : 0 < (getFee env.inst).1 → (getFee env.inst).2 ≠ none
  accepts : ∀ token dst x, host.accepts token D.contractAddress dst x = true
  covered : ∀ t, (ids.map (dueIn host env r t)).sum ≤ vault D env t

section Computes

variable {s : VestingSchedule} {now : ℕ} {current feeBps : UInt32}

/-- Under the representation invariant the amount due is computed, and is part of what is owed. -/
theorem exists_dueAmount (h : RepInv s now) (hnow : now ≤ current.toNat) :
    ∃ c, dueAmount s current = .ok (s.total, c) ∧ 0 ≤ c ∧ s.claimedAmount + c ≤ s.total := by
  have h1 := h.start_lt_cliff
  have h2 := h.cliff_lt_end
  have h3 := h.last_le_end
  have h4 := h.last_le_now
  have h5 := h.start_le_last
  have howed := h.owed_nonneg
  have heq : s.owed = s.total - s.claimedAmount := rfl
  obtain ⟨d, hd, -⟩ := plainSub_of_le (a := s.endLedger) (b := s.startLedger) (by omega)
  have htotal := total_eq hd
  by_cases hend : s.endLedger ≤ current
  · have hfit : InI128 (s.total - s.claimedAmount) := by
      have hc0 := h.claimed_nonneg
      exact inI128_of_le h.total_fits howed (by omega)
    refine ⟨s.total - s.claimedAmount, ?_, howed, by omega⟩
    simp only [dueAmount, except_bind_ok, plain_ok, hd, Option.some.injEq, exists_eq_left',
      orOverflow_ok, htotal, checked_of_mem h.total_fits, if_pos hend, checked_of_mem hfit]
  · rw [UInt32.le_iff_toNat_le, not_le] at hend
    have hmin := toNat_min current s.endLedger
    obtain ⟨e, he, hev⟩ := plainSub_of_le (a := min current s.endLedger) (b := s.lastClaimedLedger)
      (by omega)
    have hamount : asI128 e * s.ratePerLedger =
        s.ratePerLedger * ((current.toNat : ℤ) - s.lastClaimedLedger.toNat) := by
      have hcur : (e.toNat : ℤ) = (current.toNat : ℤ) - s.lastClaimedLedger.toNat := by omega
      unfold asI128
      rw [hcur, mul_comm]
    have hfit := h.fits (a := s.lastClaimedLedger.toNat) (b := current.toNat) (by omega) h5 hend.le
    have hle : s.claimedAmount + s.ratePerLedger *
        ((current.toNat : ℤ) - s.lastClaimedLedger.toNat) ≤ s.total := by
      rw [h.claimed, ← mul_add]
      exact mul_le_mul_of_nonneg_left (by omega) h.rate_pos.le
    refine ⟨s.ratePerLedger * ((current.toNat : ℤ) - s.lastClaimedLedger.toNat), ?_,
      mul_nonneg h.rate_pos.le (by omega), hle⟩
    have hlt : ¬ s.endLedger ≤ current := by
      rw [UInt32.le_iff_toNat_le]
      omega
    simp only [dueAmount, except_bind_ok, plain_ok, hd, Option.some.injEq, exists_eq_left',
      orOverflow_ok, htotal, checked_of_mem h.total_fits, if_neg hlt, he, hamount,
      checked_of_mem hfit]

theorem exists_incrementVersion (s : VestingSchedule) (h : s.version.toNat + 1 < UInt32.size) :
    ∃ v, s.incrementVersion = .ok { s with version := v } ∧ v.toNat = s.version.toNat + 1 := by
  have hv : checkedAdd s.version 1 = some (s.version + 1) :=
    checkedAdd_eq_some.mpr (toNat_add_of_lt h)
  refine ⟨s.version + 1, ?_, toNat_add_of_lt h⟩
  unfold VestingSchedule.incrementVersion
  rw [hv]

/-- The fee of at most all of an amount, where the product fits. -/
theorem exists_feeSplit {c : ℤ} (hc : 0 ≤ c) (hbps : feeBps.toNat ≤ 10000)
    (hprod : c * feeBps.toNat ≤ i128Max) (hfit : c ≤ i128Max) :
    ∃ fee net, feeSplit feeBps c = .ok (fee, net) ∧ 0 ≤ fee ∧ 0 ≤ net := by
  have h0 : i128Min ≤ 0 := by norm_num [i128Min]
  have hp0 : 0 ≤ c * (feeBps.toNat : ℤ) := mul_nonneg hc (Int.natCast_nonneg _)
  have hfee0 : 0 ≤ (c * (feeBps.toNat : ℤ)).tdiv 10000 := Int.tdiv_nonneg hp0 (by norm_num)
  have hfeele : (c * (feeBps.toNat : ℤ)).tdiv 10000 ≤ c := by
    have hle : c * (feeBps.toNat : ℤ) ≤ c * 10000 := mul_le_mul_of_nonneg_left (by omega) hc
    rw [Int.tdiv_eq_ediv_of_nonneg hp0]
    omega
  have hfee : ∃ fee, protocolFee feeBps c = .ok fee ∧ 0 ≤ fee ∧ fee ≤ c := by
    unfold protocolFee
    split_ifs with hpos
    · refine ⟨_, ?_, hfee0, hfeele⟩
      simp only [asI128, checked_of_mem (show InI128 (c * feeBps.toNat) from ⟨h0.trans hp0, hprod⟩)]
      rfl
    · exact ⟨0, rfl, le_rfl, hc⟩
  obtain ⟨fee, hfee, hfee0, hfeele⟩ := hfee
  refine ⟨fee, c - fee, ?_, hfee0, by omega⟩
  simp only [feeSplit, except_bind_ok, hfee, Except.ok.injEq, exists_eq_left', orOverflow_ok,
    checked_eq_some, Prod.mk.injEq]
  exact ⟨_, ⟨⟨by omega, by omega⟩, rfl⟩, trivial, rfl⟩

theorem exists_settle {c : ℤ} (htotal : InI128 (s.totalClaimed + c))
    (hamount : InI128 (s.claimedAmount + c)) : ∃ s', settle s current c = .ok s' := by
  unfold settle
  rw [checked_of_mem htotal, checked_of_mem hamount]
  exact ⟨_, rfl⟩

/-- The loop body past its first two tests. -/
theorem accrue_of_due {t c : ℤ} (hactive : ¬ s.pausedAtLedger.isSome = true)
    (hcliff : ¬ current < s.cliffLedger) (hversion : s.version.toNat + 2 < UInt32.size)
    (hdue : dueAmount s current = .ok (t, c)) : ∃ v : UInt32,
      accrue s current =
        .ok (if c = 0 then .skip .nothingToClaim else .due { s with version := v } t c) := by
  obtain ⟨v1, hv1, e1⟩ := exists_incrementVersion s (by omega)
  obtain ⟨v2, hv2, -⟩ := exists_incrementVersion { s with version := v1 } (by
    show v1.toNat + 1 < UInt32.size
    omega)
  refine ⟨v2, ?_⟩
  by_cases hzero : c = 0
  · simp only [accrue, if_neg hactive, if_neg hcliff, hv1, dueAmount_version, hdue, bind,
      Except.bind, if_pos hzero]
  · simp only [accrue, if_neg hactive, if_neg hcliff, hv1, dueAmount_version, hdue, bind,
      Except.bind, if_neg hzero, hv2]

/-- What is due can be split and counted, if its fee product fits. -/
theorem claimSchedule_of_accrue {c : ℤ} {v : UInt32} (h : RepInv s now)
    (hacc : accrue s current = .ok (.due { s with version := v } s.total c)) (hc0 : 0 ≤ c)
    (hc : s.claimedAmount + c ≤ s.total) (hbps : feeBps.toNat ≤ 10000)
    (hprod : c * feeBps.toNat ≤ i128Max) :
    ∃ rc, claimSchedule s current feeBps = .ok rc ∧ 0 ≤ rc.fee ∧ 0 ≤ rc.net := by
  have hcn := h.claimed_nonneg
  have hfits := h.total_fits
  have hsplit : ∃ fee net, feeSplit feeBps c = .ok (fee, net) ∧ 0 ≤ fee ∧ 0 ≤ net :=
    exists_feeSplit hc0 hbps hprod (by have := hfits.2; omega)
  obtain ⟨fee, net, hfs, hfee, hnet⟩ := hsplit
  have hsum : InI128 (s.claimedAmount + c) := inI128_of_le hfits (by omega) hc
  have hsum' : InI128 (s.totalClaimed + c) := by rw [h.counters]; exact hsum
  have hset : ∃ s2, settle { s with version := v } current c = .ok s2 := exists_settle hsum' hsum
  obtain ⟨s2, hset⟩ := hset
  refine ⟨⟨c, fee, net, s2, decide (s.total ≤ s2.claimedAmount)⟩, ?_, hfee, hnet⟩
  simp only [claimSchedule, hacc, hfs, hset, bind, Except.bind]

/-- **No arithmetic fails** on a schedule that satisfies the representation invariant, whose version
is at least two below `u32::MAX` and whose fee product fits. -/
theorem computes_of_repInv (h : RepInv s now) (hnow : now ≤ current.toNat)
    (hversion : s.version.toNat + 2 < UInt32.size) (hbps : feeBps.toNat ≤ 10000)
    (hprod : s.total * feeBps.toNat ≤ i128Max) : Computes s current feeBps := by
  by_cases hpaused : s.pausedAtLedger.isSome = true
  · exact Or.inl ⟨_, by unfold accrue; rw [if_pos hpaused]⟩
  by_cases hcliff : current < s.cliffLedger
  · exact Or.inl ⟨_, by unfold accrue; rw [if_neg hpaused, if_pos hcliff]⟩
  obtain ⟨c, hdue, hc0, hc⟩ := exists_dueAmount h hnow
  have hcn := h.claimed_nonneg
  obtain ⟨v, hacc⟩ := accrue_of_due hpaused hcliff hversion hdue
  split_ifs at hacc with hzero
  · exact Or.inl ⟨.nothingToClaim, hacc⟩
  · have hprod' : c * feeBps.toNat ≤ i128Max := by
      have hle : c * (feeBps.toNat : ℤ) ≤ s.total * feeBps.toNat :=
        mul_le_mul_of_nonneg_right (by omega) (Int.natCast_nonneg _)
      omega
    exact Or.inr (claimSchedule_of_accrue h hacc hc0 hc hbps hprod')

end Computes

section Succeeds

variable {D : Deployment} {host : Host} {r : Address} {env env' : Env} {k : UInt32}

theorem due_of_ok {s : VestingSchedule} {current feeBps : UInt32} {rc : ClaimReceipt}
    (h : claimSchedule s current feeBps = .ok rc) : due s current feeBps = rc.gross := by
  unfold due
  rw [h]

theorem due_of_skip {s : VestingSchedule} {current feeBps : UInt32} {reason : VestingError}
    (h : accrue s current = .ok (.skip reason)) : due s current feeBps = 0 := by
  have herr : claimSchedule s current feeBps = .error (.err reason) := by
    unfold claimSchedule
    rw [h]
    rfl
  unfold due
  rw [herr]

theorem Computes.due_nonneg {s : VestingSchedule} {current feeBps : UInt32}
    (h : Computes s current feeBps) : 0 ≤ due s current feeBps := by
  rcases h with ⟨reason, hskip⟩ | ⟨rc, hrc, hfee, hnet⟩
  · rw [due_of_skip hskip]
  · obtain ⟨-, -, -, hsum, -⟩ := claimSchedule_ok hrc
    rw [due_of_ok hrc]
    omega

/-- The transfers of a claim, where the vault covers both. -/
theorem exists_payClaim {token : Address} {fee net : ℤ}
    (hlock : (env.inst.lookup .lock).isNone = true)
    (htreasury : 0 < fee → (getFee env.inst).2 ≠ none)
    (haccepts : ∀ token dst x, host.accepts token D.contractAddress dst x = true)
    (hfee : 0 ≤ fee) (hnet : 0 ≤ net) (hcovered : fee + net ≤ vault D env token) :
    ∃ env', payClaim D host r token fee net env = .ok ((), env') := by
  have hlocked : ∀ e2 : Env, net ≤ vault D e2 token →
      ∃ e3, tryTransfer host token D.contractAddress r net e2 = .ok ((), e3) := by
    intro e2 hcov
    obtain ⟨b, -, hpay⟩ := exists_tryTransfer (haccepts token r net) hnet hcov
    exact ⟨_, hpay⟩
  simp only [payClaim, asks_bind_ok, require_bind_ok, configure_bind_ok]
  by_cases hpos : 0 < fee
  · obtain ⟨treasury, htr⟩ := Option.ne_none_iff_exists'.mp (htreasury hpos)
    have hcov : fee ≤ vault D { env with inst := env.inst.insert .lock true } token := by
      show fee ≤ vault D env token
      omega
    obtain ⟨b, -, hpay⟩ := exists_tryTransfer (haccepts token treasury fee) hfee hcov
    obtain ⟨-, hp⟩ := pay_ok hpay
    have hout := outflow_le D treasury hfee
    have hleft : (b token D.contractAddress : ℤ) =
        vault D env token - outflow D treasury fee := by
      have hv := hp.vault token
      rw [if_pos rfl] at hv
      exact hv
    obtain ⟨e3, h3⟩ := hlocked { env with inst := env.inst.insert .lock true, balances := b, events :=
      env.events ++ [.feeTaken r treasury fee net] } (by
        show net ≤ (b token D.contractAddress : ℤ)
        omega)
    refine ⟨{ e3 with inst := e3.inst.erase .lock }, hlock, ?_⟩
    refine bind_ok.mpr ⟨(), _, onlyIf_ok.mpr (Or.inl ⟨hpos, ?_⟩), bind_ok.mpr ⟨(), e3, h3, rfl⟩⟩
    rw [need_bind_ok]
    exact ⟨treasury, htr, bind_ok.mpr ⟨(), _, hpay, emit_ok.mpr rfl⟩⟩
  · obtain ⟨e3, h3⟩ := hlocked { env with inst := env.inst.insert .lock true } (by
      show net ≤ vault D env token
      omega)
    exact ⟨{ e3 with inst := e3.inst.erase .lock }, hlock, bind_ok.mpr ⟨(), _,
      onlyIf_ok.mpr (Or.inr ⟨hpos, rfl⟩), bind_ok.mpr ⟨(), e3, h3, rfl⟩⟩⟩

/-- **One turn succeeds** on a stream that is live. -/
theorem exists_claimStream (hD : D.ReadsById) {s : VestingSchedule}
    (hs : scheduleAt env.persistent r k = some s)
    (hcomp : Computes s host.sequence (getFee env.inst).1)
    (hlock : (env.inst.lookup .lock).isNone = true)
    (htreasury : 0 < (getFee env.inst).1 → (getFee env.inst).2 ≠ none)
    (haccepts : ∀ token dst x, host.accepts token D.contractAddress dst x = true)
    (hcovered : due s host.sequence (getFee env.inst).1 ≤ vault D env s.token) :
    ∃ env', claimStream D host r false k env =
      .ok (due s host.sequence (getFee env.inst).1, env') := by
  simp only [claimStream, asks_bind_ok, hD env.persistent r k, hs, compute_bind_ok]
  rcases hcomp with ⟨reason, hskip⟩ | ⟨rc, hrc, hfee, hnet⟩
  · rw [due_of_skip hskip]
    exact ⟨env, _, hskip, by rw [require_bind_ok, pure_ok]; exact ⟨rfl, rfl, rfl⟩⟩
  · rw [due_of_ok hrc] at hcovered ⊢
    have hsplit := (claimSchedule_ok hrc).2.2.2.1
    simp only [claimSchedule, except_bind_ok] at hrc
    obtain ⟨acc, hacc, hrc⟩ := hrc
    cases acc with
    | skip reason => cases hrc
    | due s1 total claimable =>
      simp only [except_bind_ok, Except.ok.injEq] at hrc
      obtain ⟨⟨fee, net⟩, hfs, s2, hset, rfl⟩ := hrc
      have htok : s1.token = s.token := by rw [(accrue_due hacc).2.2.2.2.1]
      have hbps : 0 < fee → 0 < (getFee env.inst).1 := by
        intro hpos
        by_contra h0
        simp only [feeSplit, protocolFee, if_neg h0, except_bind_ok, Except.ok.injEq,
          Prod.mk.injEq] at hfs
        obtain ⟨_, rfl, _, _, rfl, _⟩ := hfs
        exact lt_irrefl _ hpos
      have hpay : ∃ e1, payClaim D host r s1.token fee net env = .ok ((), e1) :=
        exists_payClaim hlock (fun hpos => htreasury (hbps hpos)) haccepts hfee hnet
          (by rw [htok, hsplit]; exact hcovered)
      obtain ⟨e1, hpay⟩ := hpay
      have hstore : ∃ e2, storeClaim r k s2 total e1 = .ok ((), e2) := by
        unfold storeClaim
        split_ifs
        · exact ⟨_, rfl⟩
        · exact ⟨_, rfl⟩
      obtain ⟨e2, hstore⟩ := hstore
      refine ⟨{ e2 with events := e2.events ++ [.tokensClaimed r claimable
        (min host.sequence s2.endLedger)] }, _, hacc, ?_⟩
      simp only [asks_bind_ok, compute_bind_ok]
      refine ⟨(fee, net), hfs, bind_ok.mpr ⟨(), e1, hpay, ?_⟩⟩
      rw [compute_bind_ok]
      exact ⟨s2, hset, bind_ok.mpr ⟨(), e2, hstore, rfl⟩⟩

/-- What a turn of the loop leaves of the rest: the configuration, every other stream, and at least
what the vault held less what is due. -/
structure TurnLeaves (D : Deployment) (host : Host) (r : Address) (k : UInt32) (env env' : Env) :
    Prop where
  inst : env'.inst = env.inst
  others : ∀ k', k' ≠ k → scheduleAt env'.persistent r k' = scheduleAt env.persistent r k'
  vault : ∀ t, vault D env t - dueIn host env r t k ≤ vault D env' t

theorem turnLeaves_of_claimStream (hD : D.ReadsById) {x : ℤ}
    (hcomp : ∀ s, scheduleAt env.persistent r k = some s →
      Computes s host.sequence (getFee env.inst).1)
    (h : claimStream D host r false k env = .ok (x, env')) : TurnLeaves D host r k env env' := by
  rcases claimStream_ok hD h with ⟨-, rfl⟩ | ⟨s, rc, hpaid, -⟩
  · refine ⟨rfl, fun _ _ => rfl, fun t => ?_⟩
    have hnn : 0 ≤ dueIn host env' r t k := by
      unfold dueIn
      split
      · next s hs =>
        split_ifs
        · exact (hcomp s hs).due_nonneg
        · exact le_rfl
      · exact le_rfl
    omega
  · refine ⟨hpaid.inst, fun k' hk' => ?_, fun t => ?_⟩
    · rw [hpaid.persistent]
      exact scheduleAt_afterClaim_of_ne _ rc fun heq => hk' heq.2
    · obtain ⟨y, hy0, hy, hv⟩ := hpaid.vault
      have hfee : 0 ≤ rc.fee := by
        rcases hcomp s hpaid.live with ⟨reason, hskip⟩ | ⟨rc', hrc', hfee, -⟩
        · have hdue := hpaid.receipt
          unfold claimSchedule at hdue
          rw [hskip] at hdue
          cases hdue
        · rw [hpaid.receipt, Except.ok.injEq] at hrc'
          rw [hrc']
          exact hfee
      have hsum := (claimSchedule_ok hpaid.receipt).2.2.2.1
      have hdue : dueIn host env r t k = if s.token = t then rc.gross else 0 := by
        unfold dueIn
        rw [hpaid.live]
        simp only [due_of_ok hpaid.receipt]
      rw [hv t, hdue]
      by_cases ht : t = s.token
      · rw [if_pos ht, if_pos ht.symm]
        omega
      · rw [if_neg ht, if_neg (Ne.symm ht)]

theorem dueIn_nonneg {ids : List UInt32} (hgo : ClaimsGo D host r ids env) (t : Address)
    {k : UInt32} (hk : k ∈ ids) : 0 ≤ dueIn host env r t k := by
  unfold dueIn
  split
  · next s hs =>
    split_ifs
    · exact (hgo.computes k hk s hs).due_nonneg
    · exact le_rfl
  · exact le_rfl

theorem dueAt_nonneg {ids : List UInt32} (hgo : ClaimsGo D host r ids env) {k : UInt32}
    (hk : k ∈ ids) : 0 ≤ dueAt host env r k := by
  unfold dueAt
  split
  · next s hs => exact (hgo.computes k hk s hs).due_nonneg
  · exact le_rfl

/-- After a turn the rest of the loop can rely on the same. -/
theorem ClaimsGo.tail {rest : List UInt32} (hgo : ClaimsGo D host r (k :: rest) env)
    (hk : k ∉ rest) (h : TurnLeaves D host r k env env') :
    ClaimsGo D host r rest env' ∧ rest.map (dueAt host env' r) = rest.map (dueAt host env r) := by
  have hsame : ∀ k' ∈ rest,
      scheduleAt env'.persistent r k' = scheduleAt env.persistent r k' := by
    intro k' hk'
    refine h.others k' fun heq => hk ?_
    rwa [← heq]
  have hat : rest.map (dueAt host env' r) = rest.map (dueAt host env r) := by
    refine List.map_congr_left fun k' hk' => ?_
    unfold dueAt
    rw [hsame k' hk', h.inst]
  have hin : ∀ t, rest.map (dueIn host env' r t) = rest.map (dueIn host env r t) := by
    intro t
    refine List.map_congr_left fun k' hk' => ?_
    unfold dueIn
    rw [hsame k' hk', h.inst]
  refine ⟨⟨fun k' hk' s hs => ?_, ?_, ?_, hgo.accepts, fun t => ?_⟩, hat⟩
  · rw [hsame k' hk'] at hs
    rw [h.inst]
    exact hgo.computes k' (List.mem_cons_of_mem _ hk') s hs
  · have hsum := hgo.sum_fits
    have hnn := dueAt_nonneg hgo List.mem_cons_self
    rw [List.map_cons, List.sum_cons] at hsum
    rw [hat]
    omega
  · rw [h.inst]
    exact hgo.treasury
  · have hcov := hgo.covered t
    have hleft := h.vault t
    rw [List.map_cons, List.sum_cons] at hcov
    rw [hin t]
    omega

/-- The first turn of the loop succeeds. -/
theorem ClaimsGo.exists_turn (hD : D.ReadsById) {rest : List UInt32}
    (hgo : ClaimsGo D host r (k :: rest) env) (hlock : (env.inst.lookup .lock).isNone = true) :
    ∃ env', claimStream D host r false k env = .ok (dueAt host env r k, env') := by
  cases hs : scheduleAt env.persistent r k with
  | none =>
    refine ⟨env, ?_⟩
    simp only [claimStream, asks_bind_ok, hD env.persistent r k, hs, require_bind_ok, pure_ok,
      dueAt, true_and]
  | some s =>
    have hdue : dueAt host env r k = due s host.sequence (getFee env.inst).1 := by
      unfold dueAt
      rw [hs]
    have hin : dueIn host env r s.token k = due s host.sequence (getFee env.inst).1 := by
      unfold dueIn
      rw [hs]
      exact if_pos rfl
    -- the vault covers this stream and the rest, which is not negative
    have hcov := hgo.covered s.token
    have hrest : 0 ≤ (rest.map (dueIn host env r s.token)).sum := by
      refine List.sum_nonneg fun y hy => ?_
      obtain ⟨k', hk', rfl⟩ := List.mem_map.mp hy
      exact dueIn_nonneg hgo _ (List.mem_cons_of_mem _ hk')
    rw [List.map_cons, List.sum_cons, hin] at hcov
    rw [hdue]
    exact exists_claimStream hD hs (hgo.computes k List.mem_cons_self s hs) hlock hgo.treasury
      hgo.accepts (by omega)

/-- **The loop succeeds**, and claims all that is due. -/
theorem exists_claimLoop (hD : D.ReadsById) :
    ∀ {ids : List UInt32} {acc : ℤ} {env : Env}, ids.Nodup →
      (env.inst.lookup .lock).isNone = true → ClaimsGo D host r ids env → 0 ≤ acc →
      acc + (ids.map (dueAt host env r)).sum ≤ i128Max →
      ∃ env', claimLoop D host r false ids acc env =
        .ok (acc + (ids.map (dueAt host env r)).sum, env')
  | [], acc, env, _, _, _, _, _ => ⟨env, pure_ok.mpr ⟨(add_zero acc).symm, rfl⟩⟩
  | k :: rest, acc, env, hnd, hlock, hgo, hacc, hsum => by
    obtain ⟨hk, hnd⟩ := List.nodup_cons.mp hnd
    have hnn := dueAt_nonneg hgo List.mem_cons_self
    obtain ⟨e1, hturn⟩ := hgo.exists_turn hD hlock
    have hleaves := turnLeaves_of_claimStream hD (hgo.computes k List.mem_cons_self) hturn
    obtain ⟨hgo', hat⟩ := hgo.tail hk hleaves
    rw [List.map_cons, List.sum_cons] at hsum
    have hrest : 0 ≤ (rest.map (dueAt host env r)).sum := by
      refine List.sum_nonneg fun y hy => ?_
      obtain ⟨k', hk', rfl⟩ := List.mem_map.mp hy
      exact dueAt_nonneg hgo (List.mem_cons_of_mem _ hk')
    have hlock' : (e1.inst.lookup .lock).isNone = true := by
      rw [hleaves.inst]
      exact hlock
    have hacc' : 0 ≤ acc + dueAt host env r k := add_nonneg hacc hnn
    obtain ⟨env', hloop⟩ := exists_claimLoop hD hnd hlock' hgo' hacc' (by rw [hat]; omega)
    refine ⟨env', ?_⟩
    unfold claimLoop
    refine bind_ok.mpr ⟨_, e1, hturn, ?_⟩
    simp only [compute_bind_ok, orOverflow_ok, checked_eq_some]
    refine ⟨_, ⟨⟨?_, by omega⟩, rfl⟩, ?_⟩
    · refine le_trans ?_ hacc'
      norm_num [i128Min]
    · rw [hloop, hat, List.map_cons, List.sum_cons, add_assoc]

/-- A turn of the loop claims what is due. -/
theorem claimStream_eq_dueAt (hD : D.ReadsById) {specific : Bool} {x : ℤ}
    (h : claimStream D host r specific k env = .ok (x, env')) : x = dueAt host env r k := by
  rcases claimStream_ok hD h with ⟨rfl, rfl⟩ | ⟨s, rc, hpaid, rfl⟩
  · unfold dueAt
    split
    · next s hs =>
      have hget : D.getScheduleById env'.persistent r k = some s := by rw [hD, hs]
      have hacc := h
      simp only [claimStream, asks_bind_ok, hget, compute_bind_ok] at hacc
      obtain ⟨acc, hacc, -⟩ := hacc
      cases acc with
      | skip reason => exact (due_of_skip hacc).symm
      | due s1 total claimable =>
        have hzero := (claimStream_of_due hget hacc h).1
        exact absurd hzero.symm (accrue_due hacc).2.2.1
    · rfl
  · unfold dueAt
    rw [hpaid.live]
    exact (due_of_ok hpaid.receipt).symm

/-- A turn that pays finds the contract unlocked. -/
theorem lock_of_claimStream (hD : D.ReadsById) {specific : Bool} {x : ℤ} (hx : x ≠ 0)
    (h : claimStream D host r specific k env = .ok (x, env')) :
    (env.inst.lookup .lock).isNone = true := by
  rcases claimStream_ok hD h with ⟨h0, -⟩ | ⟨s, rc, hpaid, -⟩
  · exact absurd h0 hx
  · have hget : D.getScheduleById env.persistent r k = some s := by rw [hD, hpaid.live]
    have hrc := hpaid.receipt
    simp only [claimSchedule, except_bind_ok] at hrc
    obtain ⟨acc, hacc, hrc⟩ := hrc
    cases acc with
    | skip reason => cases hrc
    | due s1 total claimable => exact (claimStream_of_due hget hacc h).2

end Succeeds

/-! ### All at once and one by one -/

/-- `get_stream_ids` lists the ids in increasing order, in any storage. -/
theorem pairwise_getStreamIds (st : Storage) (r : Address) :
    (getStreamIds st r).Pairwise (· < ·) := by
  unfold getStreamIds
  simp only
  split_ifs with h
  · rw [h.1]
    exact List.pairwise_singleton _ _
  · exact (pairwise_map_ofNat_range (Nat.le_of_lt (UInt32.toNat_lt _))).filter _

theorem nodup_getStreamIds (st : Storage) (r : Address) : (getStreamIds st r).Nodup :=
  (pairwise_getStreamIds st r).imp fun hlt => UInt32.ne_of_lt hlt

section All

variable {D : Deployment} {host : Host} {r : Address} {env : Env}

/-- Claiming all succeeds if claiming one of the listed streams does. -/
theorem isOk_none_of_some (hD : D.ReadsById)
    (hgo : ClaimsGo D host r (getStreamIds env.persistent r) env) {k : UInt32}
    (hk : k ∈ getStreamIds env.persistent r)
    (h : (claimVested D host r (some k) env).isOk = true) :
    (claimVested D host r none env).isOk = true := by
  obtain ⟨⟨x, e⟩, h⟩ := exists_ok_of_isOk h
  obtain ⟨hauth, hx, hne⟩ := (claimVested_some hD).mp h
  have hlock := lock_of_claimStream hD hne hx
  have hsum : (0 : ℤ) + ((getStreamIds env.persistent r).map (dueAt host env r)).sum ≤ i128Max := by
    rw [zero_add]
    exact hgo.sum_fits
  obtain ⟨env', hloop⟩ := exists_claimLoop hD (nodup_getStreamIds _ _) hlock hgo le_rfl hsum
  rw [zero_add] at hloop
  -- the stream that can be claimed alone makes the total positive
  have hdue := claimStream_eq_dueAt hD hx
  have hpos : 0 < dueAt host env r k := by
    have := dueAt_nonneg hgo hk
    omega
  have hle : dueAt host env r k ≤
      ((getStreamIds env.persistent r).map (dueAt host env r)).sum := by
    refine List.single_le_sum (fun y hy => ?_) _ (List.mem_map_of_mem hk)
    obtain ⟨k', hk', rfl⟩ := List.mem_map.mp hy
    exact dueAt_nonneg hgo hk'
  have hok := claimVested_none.mpr ⟨hauth, List.ne_nil_of_mem hk, hloop, by omega⟩
  rw [hok]
  rfl

/-- **Claiming all is claiming each.** Where no arithmetic of the claims fails and the transfers go
through, `claim_vested` without an id succeeds exactly if it would succeed for some live stream: one
that `get_stream_ids` lists, which are all live ones in a storage whose ids are kept. Its total and
the whole environment it leaves are then those of claiming the listed ids one by one, in increasing
order, with the refused ones ignored. -/
theorem claimAll_eq_claimEach (hD : D.ReadsById)
    (hgo : ClaimsGo D host r (getStreamIds env.persistent r) env) :
    ((claimVested D host r none env).isOk = true ↔
      ∃ k ∈ getStreamIds env.persistent r, (claimVested D host r (some k) env).isOk = true) ∧
    (IdsKept ⟨env.persistent, []⟩ → ((claimVested D host r none env).isOk = true ↔
      ∃ k s, scheduleAt env.persistent r k = some s ∧
        (claimVested D host r (some k) env).isOk = true)) ∧
    (getStreamIds env.persistent r).Pairwise (· < ·) ∧
    ∀ total env', claimVested D host r none env = .ok (total, env') →
      claimEach D host r (getStreamIds env.persistent r) 0 env = (total, env') := by
  have hlisted : (claimVested D host r none env).isOk = true ↔
      ∃ k ∈ getStreamIds env.persistent r, (claimVested D host r (some k) env).isOk = true := by
    constructor
    · intro h
      obtain ⟨⟨total, env'⟩, h⟩ := exists_ok_of_isOk h
      obtain ⟨hauth, -, hloop, hne⟩ := claimVested_none.mp h
      obtain ⟨k, hk, x, e, hx, hx0⟩ := exists_paid_of_claimLoop hD hloop hne
      have hsome := (claimVested_some hD).mpr ⟨hauth, hx, hx0⟩
      exact ⟨k, hk, by rw [hsome]; rfl⟩
    · rintro ⟨k, hk, h⟩
      exact isOk_none_of_some hD hgo hk h
  refine ⟨hlisted, fun hids => ?_, pairwise_getStreamIds _ r, fun total env' h => ?_⟩
  · rw [hlisted]
    constructor
    · rintro ⟨k, hk, h⟩
      obtain ⟨s, hs⟩ := Option.isSome_iff_exists.mp (hids.mem_getStreamIds.mp hk)
      exact ⟨k, s, hs, h⟩
    · rintro ⟨k, s, hs, h⟩
      exact ⟨k, hids.mem_getStreamIds.mpr (by rw [hs]; rfl), h⟩
  · obtain ⟨hauth, -, hloop, -⟩ := claimVested_none.mp h
    exact claimEach_of_claimLoop hD hauth hloop

end All

/-- Recipient `2` has the sample stream under ids `0` and `1`, and the vault can pay for both. -/
def twoStreams : Env :=
  { sampleEnv with
    persistent := setScheduleById (setScheduleById ∅ ⟨2⟩ 0 sampleStream) ⟨2⟩ 1 sampleStream
    balances := fun _ holder => if holder = ⟨0⟩ then 4000000000 else 0 }

theorem scheduleAt_twoStreams {k : UInt32} {s : VestingSchedule}
    (h : scheduleAt twoStreams.persistent ⟨2⟩ k = some s) : s = sampleStream := by
  simp only [twoStreams, scheduleAt_setScheduleById] at h
  split_ifs at h
  · exact (Option.some.inj h).symm
  · exact (Option.some.inj h).symm
  · have hempty : scheduleAt ∅ (⟨2⟩ : Address) k = none := by
      unfold scheduleAt byId legacy
      simp only [Finmap.lookup_empty, ite_self]
    rw [hempty] at h
    cases h

theorem claimsGo_twoStreams : ClaimsGo sampleDeployment (sampleHost 200) ⟨2⟩
    (getStreamIds twoStreams.persistent ⟨2⟩) twoStreams where
  computes k _ s hs := by
    rw [scheduleAt_twoStreams hs]
    exact computes_of_repInv repInv_sampleStream (by decide) (by decide) (by decide +kernel)
      (by decide +kernel)
  sum_fits := by decide +kernel
  treasury h := absurd h (by decide +kernel)
  accepts _ _ _ := rfl
  covered t := by
    have hids : getStreamIds twoStreams.persistent ⟨2⟩ = [0, 1] := by decide +kernel
    have hdue : ∀ k, dueIn (sampleHost 200) twoStreams ⟨2⟩ t k ≤ 1000000000 := by
      intro k
      unfold dueIn
      split
      · next s hs =>
        rw [scheduleAt_twoStreams hs]
        split_ifs
        · decide +kernel
        · decide
      · decide
    have hvault : vault sampleDeployment twoStreams t = 4000000000 := rfl
    have h0 := hdue 0
    have h1 := hdue 1
    rw [hids, hvault]
    simp only [List.map_cons, List.map_nil, List.sum_cons, List.sum_nil]
    omega

theorem idsKept_twoStreams : IdsKept ⟨twoStreams.persistent, []⟩ := by
  have hempty : LegacyOnly ∅ := fun _ => ⟨Finmap.lookup_empty _, fun _ => Finmap.lookup_empty _⟩
  have h0 := idsKept_set (idsKept_of_legacyOnly hempty) ⟨2⟩ 0 sampleStream (by decide)
  exact idsKept_set h0 ⟨2⟩ 1 sampleStream (by decide)

theorem claimAll_eq_claimEach_sample :
    ∃ total env', claimVested sampleDeployment (sampleHost 200) ⟨2⟩ none twoStreams =
        .ok (total, env') ∧
      claimEach sampleDeployment (sampleHost 200) ⟨2⟩ (getStreamIds twoStreams.persistent ⟨2⟩) 0
        twoStreams = (total, env') := by
  obtain ⟨-, hlive, -, heach⟩ :=
    claimAll_eq_claimEach sampleDeployment_readsById claimsGo_twoStreams
  have hok := (hlive idsKept_twoStreams).mpr ⟨0, sampleStream, by decide +kernel, by decide +kernel⟩
  obtain ⟨⟨total, env'⟩, h⟩ := exists_ok_of_isOk hok
  exact ⟨total, env', h, heach total env' h⟩

end VestingDripStream.Contract.ClaimAll
