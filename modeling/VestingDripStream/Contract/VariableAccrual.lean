import VestingDripStream.Lib.Piecewise
import VestingDripStream.Lib.Run
import VestingDripStream.Contract.VariableRate

/-! # What a variable-rate stream accrues and pays

Both definitions of `compute_variable_claimable` walk over the segments. On the segments that
`create_variable_rate_stream` stores (`Segments`, by `segments_of_addSegments`) each computes
`accrued`, without overflow:

* the first chains the segment starts from the start of the stream
  (`computeVariableClaimable_eq`);
* the second chains them from the ledger it counts from, and skips what is over by then
  (`computeVariableClaimableSecond_eq`).

So they agree, and both inherit the laws of `accrued`: a claim at `b` splits what accrues from `a`
to `c`, and from the start to the end it is the deposit. A stream pays what accrued: `Conserved`
holds in every state of a run of claims. -/

namespace VestingDripStream.Contract.VariableAccrual

open VestingDripStream.Lib.Checked VestingDripStream.Lib.Transaction VestingDripStream.Lib.Run
open VestingDripStream.Lib.Piecewise
open VestingDripStream.Contract.Types VestingDripStream.Contract.Storage
open VestingDripStream.Contract.Schedule VestingDripStream.Contract.EntryPoints
open VestingDripStream.Contract.Effects VestingDripStream.Contract.VariableRate

/-! ### Segments -/

/-- The segments as pieces: where each ends, and its rate. -/
def pieces (segs : List RateSegment) : List (ℕ × ℤ) := segs.map fun s => (s.endLedger.toNat, s.rate)

/-- The segments of a stream that starts at `start`: positive rates, each ends after the one before,
and the deposit is an `i128`. -/
structure Segments (start : UInt32) (segs : List RateSegment) : Prop where
  rate_pos : ∀ s ∈ segs, 0 < s.rate
  ascending : Ascending start.toNat (pieces segs)
  fits : whole start.toNat (pieces segs) ≤ i128Max

/-- **What the loop of `create_variable_rate_stream` accepts.** -/
theorem addSegments_ok : ∀ {l : List (UInt32 × ℤ)} {start fin : UInt32} {acc total : ℤ}
    {segs : List RateSegment}, addSegments l start acc = .ok (segs, fin, total) →
      (∀ s ∈ segs, 0 < s.rate) ∧ Ascending start.toNat (pieces segs) ∧
        finish start.toNat (pieces segs) = fin.toNat ∧
        total = acc + whole start.toNat (pieces segs) ∧ (acc ≤ i128Max → total ≤ i128Max)
  | [], start, fin, acc, total, segs, h => by
    cases h
    exact ⟨by simp, trivial, rfl, (add_zero acc).symm, id⟩
  | (segEnd, rate) :: rest, start, fin, acc, total, segs, h => by
    unfold addSegments at h
    split_ifs at h with hrate hend
    simp only [except_bind_ok, plain_ok, orOverflow_ok, plainSub_eq_some, checked_eq_some,
      Except.ok.injEq, Prod.exists, Prod.mk.injEq] at h
    obtain ⟨d, hd, _, ⟨-, rfl⟩, _, ⟨hsum, rfl⟩, segs', fin', total', hrest, rfl, rfl, rfl⟩ := h
    obtain ⟨hpos, hasc, hfin, htotal, hfit⟩ := addSegments_ok hrest
    rw [UInt32.le_iff_toNat_le] at hend
    refine ⟨?_, ⟨by show start.toNat < segEnd.toNat; omega, hasc⟩, hfin, ?_, fun _ => hfit hsum.2⟩
    · rintro s (_ | ⟨_, hs⟩)
      · exact not_le.mp hrate
      · exact hpos s hs
    · have hspan : segEnd.toNat - start.toNat = d.toNat := by omega
      rw [htotal]
      show _ = acc + ((segEnd.toNat - start.toNat) • rate + whole segEnd.toNat (pieces segs'))
      rw [hspan, nsmul_eq_mul, asI128]
      ring

theorem segments_of_addSegments {l : List (UInt32 × ℤ)} {start fin : UInt32} {total : ℤ}
    {segs : List RateSegment} (h : addSegments l start 0 = .ok (segs, fin, total)) :
    Segments start segs ∧ finish start.toNat (pieces segs) = fin.toNat ∧
      whole start.toNat (pieces segs) = total := by
  obtain ⟨hpos, hasc, hfin, htotal, hfit⟩ := addSegments_ok h
  rw [zero_add] at htotal
  exact ⟨⟨hpos, hasc, htotal ▸ hfit (by decide)⟩, hfin, htotal.symm⟩

/-! ### The two loops -/

section Loops

variable {start fromLedger toLedger : UInt32} {segs : List RateSegment}

/-- The part of a segment that counts, as the first loop adds it before it goes on with `f`. -/
theorem plain_overlap {lo hi : UInt32} {rate total : ℤ} (f : ℤ → Except Failure ℤ)
    (hrate : 0 ≤ rate) (h0 : 0 ≤ total) (hfit : total + (hi.toNat - lo.toNat) • rate ≤ i128Max) :
    (if lo < hi then do
        let ledgers ← plain (plainSub hi lo)
        let amount ← plain (checked (asI128 ledgers * rate))
        let total ← plain (checked (total + amount))
        f total
      else do
        let total ← Except.ok total
        f total) = f (total + (hi.toNat - lo.toNat) • rate) := by
  have hpart : 0 ≤ (hi.toNat - lo.toNat) • rate := nsmul_nonneg hrate _
  split_ifs with hlt
  · rw [UInt32.lt_iff_toNat_lt] at hlt
    obtain ⟨d, hd, hdn⟩ := plainSub_of_le hlt.le
    rw [nsmul_eq_mul, ← hdn] at hfit hpart ⊢
    have hprod : InI128 (asI128 d * rate) := by
      refine ⟨le_trans (by decide) hpart, ?_⟩
      unfold asI128
      omega
    have hsum : InI128 (total + asI128 d * rate) :=
      ⟨le_trans (by decide) (add_nonneg h0 hpart), hfit⟩
    rw [plain_ok.mpr hd]
    show (plain (checked (asI128 d * rate)) >>= _) = _
    rw [checked_of_mem hprod]
    show (plain (checked (total + asI128 d * rate)) >>= _) = _
    rw [checked_of_mem hsum]
    rfl
  · rw [UInt32.lt_iff_toNat_lt] at hlt
    rw [Nat.sub_eq_zero_of_le (by omega), zero_nsmul, add_zero]
    rfl

/-- The same for the second loop. -/
theorem saturated_overlap {lo hi : UInt32} {rate total : ℤ} (f : ℤ → Except Failure ℤ)
    (hrate : 0 ≤ rate) (h0 : 0 ≤ total) (hfit : total + (hi.toNat - lo.toNat) • rate ≤ i128Max) :
    (if lo < hi then do
        let duration ← plain (plainSub hi lo)
        let claimable ← Except.ok (saturated (total + saturated (asI128 duration * rate)))
        f claimable
      else do
        let claimable ← Except.ok total
        f claimable) = f (total + (hi.toNat - lo.toNat) • rate) := by
  have hpart : 0 ≤ (hi.toNat - lo.toNat) • rate := nsmul_nonneg hrate _
  have hmin : i128Min ≤ 0 := by decide
  split_ifs with hlt
  · rw [UInt32.lt_iff_toNat_lt] at hlt
    obtain ⟨d, hd, hdn⟩ := plainSub_of_le hlt.le
    rw [nsmul_eq_mul, ← hdn] at hfit hpart ⊢
    have hprod : saturated (asI128 d * rate) = d.toNat * rate := by
      unfold saturated asI128
      omega
    have hsum : saturated (total + d.toNat * rate) = total + d.toNat * rate := by
      unfold saturated
      omega
    rw [plain_ok.mpr hd]
    show f (saturated (total + saturated (asI128 d * rate))) = _
    rw [hprod, hsum]
  · rw [UInt32.lt_iff_toNat_lt] at hlt
    rw [Nat.sub_eq_zero_of_le (by omega), zero_nsmul, add_zero]
    rfl

theorem accrued_pieces_cons (a b : ℕ) (start : UInt32) (seg : RateSegment)
    (rest : List RateSegment) :
    accrued a b start.toNat (pieces (seg :: rest)) =
      overlap a b start.toNat seg.endLedger.toNat • seg.rate +
        accrued a b seg.endLedger.toNat (pieces rest) := rfl

theorem pieces_nonneg (h : ∀ s ∈ segs, 0 ≤ s.rate) : ∀ p ∈ pieces segs, 0 ≤ p.2 := by
  intro p hp
  obtain ⟨s, hs, rfl⟩ := List.mem_map.mp hp
  exact h s hs

/-- What a loop from `a` to `b` can go on with after `total`: nonnegative rates, and a sum that does
not overflow. -/
structure Fitting (a b : ℕ) (start : UInt32) (segs : List RateSegment) (total : ℤ) : Prop where
  rate_nonneg : ∀ s ∈ segs, 0 ≤ s.rate
  ascending : Ascending start.toNat (pieces segs)
  nonneg : 0 ≤ total
  fits : total + accrued a b start.toNat (pieces segs) ≤ i128Max

section Fitting

variable {a b : ℕ} {seg : RateSegment} {rest : List RateSegment} {total : ℤ}
  (h : Fitting a b start (seg :: rest) total)
include h

theorem Fitting.part_nonneg : 0 ≤ overlap a b start.toNat seg.endLedger.toNat • seg.rate :=
  nsmul_nonneg (h.rate_nonneg seg List.mem_cons_self) _

/-- The loop goes on with the other segments. -/
theorem Fitting.tail : Fitting a b seg.endLedger rest
    (total + overlap a b start.toNat seg.endLedger.toNat • seg.rate) where
  rate_nonneg := fun s hs => h.rate_nonneg s (List.mem_cons_of_mem _ hs)
  ascending := h.ascending.2
  nonneg := add_nonneg h.nonneg h.part_nonneg
  fits := by
    rw [add_assoc]
    exact h.fits

/-- The part of the first segment fits. -/
theorem Fitting.part_fits :
    total + overlap a b start.toNat seg.endLedger.toNat • seg.rate ≤ i128Max :=
  le_trans (le_add_of_nonneg_right (accrued_nonneg _ _ (pieces_nonneg h.tail.rate_nonneg)))
    h.tail.fits

end Fitting

/-- **The first definition computes `accrued`**, and nothing overflows. -/
theorem computeVariableClaimable_eq : ∀ {segs : List RateSegment} {start : UInt32} {total : ℤ},
    Fitting fromLedger.toNat toLedger.toNat start segs total →
      computeVariableClaimable fromLedger toLedger segs total start =
        .ok (total + accrued fromLedger.toNat toLedger.toNat start.toNat (pieces segs))
  | [], start, total, _ => by
    show Except.ok total = Except.ok (total + 0)
    rw [add_zero]
  | seg :: rest, start, total, h => by
    have hseg := h.rate_nonneg seg List.mem_cons_self
    have hover : (min toLedger seg.endLedger).toNat - (max fromLedger start).toNat =
        overlap fromLedger.toNat toLedger.toNat start.toNat seg.endLedger.toNat := by
      rw [toNat_min, toNat_max]
      rfl
    rw [accrued_pieces_cons]
    unfold computeVariableClaimable
    simp only
    rw [plain_overlap _ hseg h.nonneg (by rw [hover]; exact h.part_fits), hover]
    split_ifs with hbreak
    · -- what comes after the break does not count
      rw [accrued_of_le_start h.tail.ascending (UInt32.le_iff_toNat_le.mp hbreak), add_zero]
    · rw [computeVariableClaimable_eq h.tail, add_assoc]

/-- **The second definition computes `accrued`**, as long as it goes from segment to segment. -/
theorem computeVariableClaimableSecond_eq :
    ∀ {segs : List RateSegment} {prevEnd : UInt32} {claimable : ℤ},
      Fitting fromLedger.toNat toLedger.toNat prevEnd segs claimable →
      computeVariableClaimableSecond fromLedger toLedger segs claimable prevEnd =
        .ok (claimable + accrued fromLedger.toNat toLedger.toNat prevEnd.toNat (pieces segs))
  | [], prevEnd, claimable, _ => by
    show Except.ok claimable = Except.ok (claimable + 0)
    rw [add_zero]
  | seg :: rest, prevEnd, claimable, h => by
    have hseg := h.rate_nonneg seg List.mem_cons_self
    have hover : (min seg.endLedger toLedger).toNat - (max prevEnd fromLedger).toNat =
        overlap fromLedger.toNat toLedger.toNat prevEnd.toNat seg.endLedger.toNat := by
      rw [toNat_min, toNat_max]
      unfold overlap
      omega
    rw [accrued_pieces_cons]
    unfold computeVariableClaimableSecond
    by_cases hskip : seg.endLedger ≤ fromLedger
    · -- a segment that is over does not overlap
      have hrest := h.tail
      rw [overlap_of_hi_le (UInt32.le_iff_toNat_le.mp hskip), zero_nsmul, add_zero] at hrest
      rw [if_pos hskip, overlap_of_hi_le (UInt32.le_iff_toNat_le.mp hskip), zero_nsmul, zero_add]
      exact computeVariableClaimableSecond_eq hrest
    · rw [if_neg hskip]
      simp only
      rw [saturated_overlap _ hseg h.nonneg (by rw [hover]; exact h.part_fits), hover]
      split_ifs with hbreak
      · rw [accrued_of_le_start h.tail.ascending (UInt32.le_iff_toNat_le.mp hbreak), add_zero]
      · rw [computeVariableClaimableSecond_eq h.tail, add_assoc]

/-- The second definition may as well start at the start of the stream. -/
theorem computeVariableClaimableSecond_from (h : start ≤ fromLedger) :
    computeVariableClaimableSecond fromLedger toLedger segs 0 fromLedger =
      computeVariableClaimableSecond fromLedger toLedger segs 0 start := by
  cases segs with
  | nil => rfl
  | cons seg rest =>
    have hmax : max fromLedger fromLedger = max start fromLedger := by
      rw [← UInt32.toNat_inj, toNat_max, toNat_max]
      rw [UInt32.le_iff_toNat_le] at h
      omega
    unfold computeVariableClaimableSecond
    rw [hmax]

end Loops

/-! ### Segments that fit -/

namespace Segments

variable {start a b c : UInt32} {segs : List RateSegment} (h : Segments start segs)
include h

theorem rate_nonneg : ∀ s ∈ segs, 0 ≤ s.rate := fun s hs => (h.rate_pos s hs).le

theorem fitting (a b : ℕ) : Fitting a b start segs 0 where
  rate_nonneg := h.rate_nonneg
  ascending := h.ascending
  nonneg := le_rfl
  fits := by
    rw [zero_add]
    exact le_trans (accrued_le_whole h.ascending (pieces_nonneg h.rate_nonneg)) h.fits

theorem claimable_eq (a b : UInt32) : computeVariableClaimable a b segs 0 start =
    .ok (accrued a.toNat b.toNat start.toNat (pieces segs)) := by
  rw [computeVariableClaimable_eq (h.fitting _ _), zero_add]

theorem claimableSecond_eq (hstart : start ≤ a) : computeVariableClaimableSecond a b segs 0 a =
    .ok (accrued a.toNat b.toNat start.toNat (pieces segs)) := by
  rw [computeVariableClaimableSecond_from hstart, computeVariableClaimableSecond_eq (h.fitting _ _),
    zero_add]

end Segments

/-- **The two definitions agree** on the segments of a stream, from any ledger of its life on. -/
theorem definitions_agree {start fromLedger : UInt32} {segs : List RateSegment}
    (h : Segments start segs) (hfrom : start ≤ fromLedger) (toLedger : UInt32) :
    ∃ amount, computeVariableClaimable fromLedger toLedger segs 0 start = .ok amount ∧
      computeVariableClaimableSecond fromLedger toLedger segs 0 fromLedger = .ok amount :=
  ⟨_, h.claimable_eq fromLedger toLedger, h.claimableSecond_eq hfrom⟩

/-- Two segments; the interval starts in the first and ends in the second. -/
def sampleSegments : List RateSegment := [⟨20, 3⟩, ⟨40, 5⟩]

theorem sampleSegments_segments : Segments 10 sampleSegments :=
  ⟨by decide, by simp [sampleSegments, pieces, Ascending], by decide⟩

theorem definitions_agree_sample :
    ∃ amount, computeVariableClaimable 15 30 sampleSegments 0 10 = .ok amount ∧
      computeVariableClaimableSecond 15 30 sampleSegments 0 15 = .ok amount :=
  definitions_agree sampleSegments_segments (by decide) 30

/-! ### Runs of claims -/

/-- The state of the contract, and what the recipient was paid. -/
structure Claims where
  env : Env
  paid : ℤ

/-- A call of `claim_variable_vested`, which leaves no trace if it fails; the payments to `r` are
added up. -/
def claimStep (D : Deployment) (r : Address) (w : Claims) (call : Host × Address) : Claims :=
  match claimVariableVested D call.1 call.2 w.env with
  | .ok (amount, env') => ⟨env', if call.2 = r then w.paid + amount else w.paid⟩
  | .error _ => w

/-- The stored schedule `v` of a stream with these segments, of which `paid` is paid. -/
structure PaidUp (start fin : UInt32) (segs : List RateSegment) (total : ℤ)
    (v : VariableRateSchedule) (paid : ℤ) : Prop where
  startLedger : v.startLedger = start
  endLedger : v.endLedger = fin
  segments : v.segments = segs
  totalDeposited : v.totalDeposited = total
  start_le : start ≤ v.lastClaimedLedger
  le_end : v.lastClaimedLedger ≤ fin
  claimed : computeVariableClaimable start v.lastClaimedLedger segs 0 start = .ok v.claimedAmount
  le_total : v.claimedAmount ≤ total
  paid : v.claimedAmount = paid

/-- What is stored for `r` is paid up; if nothing is, the whole deposit was paid. -/
def Conserved (start fin : UInt32) (segs : List RateSegment) (total : ℤ) (r : Address)
    (w : Claims) : Prop :=
  match getVariableSchedule w.env.persistent r with
  | some v => PaidUp start fin segs total v w.paid
  | none => w.paid = total

section Claims

variable {D : Deployment} {host : Host} {r : Address} {start fin : UInt32}
  {segs : List RateSegment} {total : ℤ} {w : Claims}

theorem conserved_none (h : getVariableSchedule w.env.persistent r = none) :
    Conserved start fin segs total r w ↔ w.paid = total := by
  unfold Conserved
  rw [h]

theorem conserved_some {v : VariableRateSchedule}
    (h : getVariableSchedule w.env.persistent r = some v) :
    Conserved start fin segs total r w ↔ PaidUp start fin segs total v w.paid := by
  unfold Conserved
  rw [h]

/-- What a claim pays before the end: what accrued since the last one. -/
theorem PaidUp.afterVariable {v : VariableRateSchedule} {paid amount : ℤ} {current : UInt32}
    (hsegs : Segments start segs) (htotal : whole start.toNat (pieces segs) = total)
    (h : PaidUp start fin segs total v paid) (hlt : ¬ fin ≤ current)
    (hamount : accruedVariable v current = .ok amount) (hne : amount ≠ 0) :
    PaidUp start fin segs total (afterVariableClaim v current amount) (paid + amount) := by
  rw [UInt32.le_iff_toNat_le] at hlt
  have hstart := UInt32.le_iff_toNat_le.mp h.start_le
  have hclaimed := h.claimed
  unfold accruedVariable at hamount
  rw [h.segments, h.startLedger, hsegs.claimable_eq, Except.ok.injEq] at hamount
  rw [hsegs.claimable_eq, Except.ok.injEq] at hclaimed
  have hlast : v.lastClaimedLedger.toNat ≤ current.toNat := by
    by_contra hlate
    exact hne (hamount.symm.trans (accrued_of_le (by omega) _ _))
  have hmin : min current v.endLedger = current := by
    rw [← UInt32.toNat_inj, toNat_min, h.endLedger]
    omega
  have hsum := accrued_add hstart hlast hsegs.ascending
  have hnew : v.claimedAmount + amount =
      accrued start.toNat current.toNat start.toNat (pieces segs) := by
    rw [← hclaimed, ← hamount, hsum]
  exact {
    startLedger := h.startLedger
    endLedger := h.endLedger
    segments := h.segments
    totalDeposited := h.totalDeposited
    start_le := by
      show start ≤ min current v.endLedger
      rw [hmin, UInt32.le_iff_toNat_le]
      omega
    le_end := by
      show min current v.endLedger ≤ fin
      rw [hmin, UInt32.le_iff_toNat_le]
      omega
    claimed := by
      show computeVariableClaimable start (min current v.endLedger) segs 0 start =
        .ok (v.claimedAmount + amount)
      rw [hmin, hsegs.claimable_eq, hnew]
    le_total := by
      show v.claimedAmount + amount ≤ total
      rw [hnew, ← htotal]
      exact accrued_le_whole hsegs.ascending (pieces_nonneg hsegs.rate_nonneg)
    paid := by
      show v.claimedAmount + amount = paid + amount
      rw [h.paid] }

/-- What a claim pays from the end on: all that is left. -/
theorem PaidUp.amount_at_end {v : VariableRateSchedule} {paid amount : ℤ} {current : UInt32}
    (h : PaidUp start fin segs total v paid) (hge : fin ≤ current)
    (hamount : (if v.endLedger ≤ current then plain (checked (v.totalDeposited - v.claimedAmount))
      else accruedVariable v current) = .ok amount) : paid + amount = total := by
  rw [h.endLedger, if_pos hge, plain_ok, checked_eq_some, h.totalDeposited, h.paid] at hamount
  rw [hamount.2]
  ring

theorem claimStep_error {e : Failure} {r' : Address}
    (h : claimVariableVested D host r' w.env = .error e) : claimStep D r w (host, r') = w := by
  unfold claimStep
  rw [h]

theorem claimStep_ok {env' : Env} {amount : ℤ} {r' : Address}
    (h : claimVariableVested D host r' w.env = .ok (amount, env')) :
    claimStep D r w (host, r') = ⟨env', if r' = r then w.paid + amount else w.paid⟩ := by
  unfold claimStep
  rw [h]

/-- What a claim keeps that succeeds, every claim keeps. -/
theorem claimStep_induct {Inv : Claims → Prop} (call : Host × Address) (h : Inv w)
    (hok : ∀ {host : Host} {r' : Address} {amount : ℤ} {env' : Env},
      claimVariableVested D host r' w.env = .ok (amount, env') →
        Inv ⟨env', if r' = r then w.paid + amount else w.paid⟩) : Inv (claimStep D r w call) := by
  obtain ⟨host, r'⟩ := call
  cases hclaim : claimVariableVested D host r' w.env with
  | error e => rwa [claimStep_error hclaim]
  | ok res =>
    rw [claimStep_ok hclaim]
    exact hok hclaim

/-- A claim of `r` on a stream that is paid up. -/
theorem conserved_of_claim {env' : Env} {amount : ℤ} (hsegs : Segments start segs)
    (htotal : whole start.toNat (pieces segs) = total)
    (h : Conserved start fin segs total r w)
    (hclaim : claimVariableVested D host r w.env = .ok (amount, env')) :
    Conserved start fin segs total r ⟨env', w.paid + amount⟩ ∧
      (fin ≤ host.sequence → w.paid + amount = total) := by
  obtain ⟨v, hamount, hne, hpaid⟩ := claimVariableVestedWith_pays hclaim
  have hv := (conserved_some hpaid.live).mp h
  have hlookup := hpaid.lookup (r := r)
  rw [if_pos rfl] at hlookup
  by_cases hend : fin ≤ host.sequence
  · have hall := hv.amount_at_end hend hamount
    have hdone : (afterVariableClaim v host.sequence amount).totalDeposited ≤
        (afterVariableClaim v host.sequence amount).claimedAmount := by
      show v.totalDeposited ≤ v.claimedAmount + amount
      rw [hv.totalDeposited, hv.paid, hall]
    rw [if_pos hdone] at hlookup
    exact ⟨(conserved_none hlookup).mpr hall, fun _ => hall⟩
  · rw [hv.endLedger, if_neg hend] at hamount
    have hv' := hv.afterVariable hsegs htotal hend hamount hne
    refine ⟨?_, fun hge => absurd hge hend⟩
    split_ifs at hlookup with hdone
    · rw [hv'.totalDeposited] at hdone
      refine (conserved_none hlookup).mpr ?_
      show w.paid + amount = total
      rw [← hv'.paid]
      exact le_antisymm hv'.le_total hdone
    · exact (conserved_some hlookup).mpr hv'

theorem conserved_claimStep (hsegs : Segments start segs)
    (htotal : whole start.toNat (pieces segs) = total) (call : Host × Address)
    (h : Conserved start fin segs total r w) :
    Conserved start fin segs total r (claimStep D r w call) := by
  refine claimStep_induct call h fun {host r' amount env'} hclaim => ?_
  by_cases hr : r' = r
  · subst hr
    rw [if_pos rfl]
    exact (conserved_of_claim hsegs htotal h hclaim).1
  · -- a claim of another recipient
    obtain ⟨v, -, -, hpaid⟩ := claimVariableVestedWith_pays hclaim
    have hlookup := hpaid.lookup (r := r)
    rw [if_neg (Ne.symm hr)] at hlookup
    rw [if_neg hr]
    unfold Conserved at h ⊢
    rwa [hlookup]

/-- A new stream is paid up. -/
theorem conserved_of_create {env env' : Env} {a : VariableArgs} {cliff : UInt32}
    (hsegs : Segments start segs) (hfin : finish start.toNat (pieces segs) = fin.toNat)
    (htotal : whole start.toNat (pieces segs) = total)
    (h : VariableCreated a env env' (newVariableSchedule a start cliff fin segs total)) :
    Conserved start fin segs total a.recipient ⟨env', 0⟩ := by
  have hlive : getVariableSchedule env'.persistent a.recipient =
      some (newVariableSchedule a start cliff fin segs total) := by
    rw [h.persistent, getVariableSchedule_set, if_pos rfl]
  have hnn : 0 ≤ whole start.toNat (pieces segs) :=
    le_trans (accrued_nonneg 0 0 (pieces_nonneg hsegs.rate_nonneg))
      (accrued_le_whole hsegs.ascending (pieces_nonneg hsegs.rate_nonneg))
  refine (conserved_some hlive).mpr {
    startLedger := rfl
    endLedger := rfl
    segments := rfl
    totalDeposited := rfl
    start_le := UInt32.le_refl _
    le_end := UInt32.le_iff_toNat_le.mpr (hfin ▸ hsegs.ascending.start_le_finish)
    claimed := ?_
    le_total := htotal ▸ hnn
    paid := rfl }
  show computeVariableClaimable start start segs 0 start = .ok 0
  rw [hsegs.claimable_eq, accrued_of_le le_rfl]

end Claims

/-- **Conservation.** What accrues on segments that `create_variable_rate_stream` accepts does not
overflow, splits at any ledger and is the deposit as a whole. So a stream with them is paid up
throughout any run of claims, and a claim at its end or later has paid the whole deposit. -/
theorem variable_conservation {l : List (UInt32 × ℤ)} {start fin : UInt32} {total : ℤ}
    {segs : List RateSegment} (h : addSegments l start 0 = .ok (segs, fin, total)) :
    (∀ a b c, start ≤ a → a ≤ b → b ≤ c → c ≤ fin → ∃ x y,
      computeVariableClaimable a b segs 0 start = .ok x ∧
      computeVariableClaimable b c segs 0 start = .ok y ∧
      computeVariableClaimable a c segs 0 start = .ok (x + y)) ∧
    computeVariableClaimable start fin segs 0 start = .ok total ∧
    ∀ (D : Deployment) (host : Host) (a : VariableArgs) (env env' : Env),
      createVariableRateStream D host a env = .ok ((), env') → a.segments = l →
      host.sequence = start → ∀ calls : List (Host × Address),
        AllStates (claimStep D a.recipient) (Conserved start fin segs total a.recipient)
          ⟨env', 0⟩ calls ∧
        AllSteps (claimStep D a.recipient)
          (fun w call => call.2 = a.recipient → fin ≤ call.1.sequence →
            (∃ paid, claimVariableVested D call.1 call.2 w.env = .ok paid) →
            (claimStep D a.recipient w call).paid = total) ⟨env', 0⟩ calls := by
  obtain ⟨hsegs, hfin, htotal⟩ := segments_of_addSegments h
  refine ⟨?_, ?_, ?_⟩
  · intro a b c _ hab hbc _
    refine ⟨_, _, hsegs.claimable_eq a b, hsegs.claimable_eq b c, ?_⟩
    rw [UInt32.le_iff_toNat_le] at hab hbc
    rw [hsegs.claimable_eq, accrued_add hab hbc hsegs.ascending]
  · rw [hsegs.claimable_eq, accrued_eq_whole hsegs.ascending le_rfl hfin.le, htotal]
  · rintro D host a env env' hcreate rfl rfl calls
    obtain ⟨cliff, segs', fin', total', -, -, hadd, hcreated⟩ :=
      createVariableRateStream_stores hcreate
    rw [h, Except.ok.injEq, Prod.mk.injEq, Prod.mk.injEq] at hadd
    obtain ⟨rfl, rfl, rfl⟩ := hadd
    have h0 := conserved_of_create hsegs hfin htotal hcreated
    have htrue : AllSteps (claimStep D a.recipient) (fun _ _ => True) ⟨env', 0⟩ calls :=
      allSteps_of_forall fun _ _ => trivial
    refine ⟨allStates_of_step (fun w call => conserved_claimStep hsegs htotal call) h0,
      AllSteps.of_inv (fun w call hw _ => ⟨?_, conserved_claimStep hsegs htotal call hw⟩) h0 htrue⟩
    rintro hr hge ⟨⟨amount, env1⟩, hclaim⟩
    obtain ⟨host', r'⟩ := call
    cases hr
    rw [claimStep_ok hclaim]
    show (if a.recipient = a.recipient then w.paid + amount else w.paid) = total
    rw [if_pos rfl]
    exact (conserved_of_claim hsegs htotal hw hclaim).2 hge

/-- Sponsor `1` streams token `10` to recipient `2`, from ledger `100` on at `1`, from `200` on at
`3`. -/
def sampleVariableStream : VariableArgs where
  sponsor := ⟨1⟩
  recipient := ⟨2⟩
  token := ⟨10⟩
  cliffDuration := 50
  segments := [(200, 1), (300, 3)]

/-- Claims before the cliff, in the second segment and after the end. -/
theorem variable_conservation_sample :
    computeVariableClaimable 100 300 [⟨200, 1⟩, ⟨300, 3⟩] 0 100 = .ok 400 ∧
    ∃ env', createVariableRateStream sampleDeployment (sampleHost 100) sampleVariableStream
        sampleEnv = .ok ((), env') ∧
      AllStates (claimStep sampleDeployment ⟨2⟩)
        (Conserved 100 300 [⟨200, 1⟩, ⟨300, 3⟩] 400 ⟨2⟩) ⟨env', 0⟩
        [(sampleHost 120, ⟨2⟩), (sampleHost 250, ⟨2⟩), (sampleHost 310, ⟨2⟩)] := by
  have hadd : addSegments [(200, 1), (300, 3)] 100 0 =
    .ok ([⟨200, 1⟩, ⟨300, 3⟩], 300, 400) := rfl
  have h := variable_conservation hadd
  have hok : (createVariableRateStream sampleDeployment (sampleHost 100) sampleVariableStream
    sampleEnv).isOk = true := by decide +kernel
  refine ⟨h.2.1, ?_⟩
  cases hcreate : createVariableRateStream sampleDeployment (sampleHost 100) sampleVariableStream
    sampleEnv with
  | error e => rw [hcreate] at hok; cases hok
  | ok created => exact ⟨created.2, rfl, (h.2.2 _ _ _ _ _ hcreate rfl rfl _).1⟩

end VestingDripStream.Contract.VariableAccrual
