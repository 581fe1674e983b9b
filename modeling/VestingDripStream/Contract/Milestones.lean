import VestingDripStream.Contract.Schedule
import VestingDripStream.Lib.Floors
import VestingDripStream.Lib.Run
import Mathlib.Data.List.TakeWhile

/-! # Milestones

The milestone code of `contract.rs`: the loop that validates a list of milestones, and the loop of
`claim_milestone` that adds up the milestones reached, from the index where the last claim stopped.
The text between the two loops is mixed up with the batch code, so the model stops where the loops
do: a schedule is the validated list with a deposit, and a claim stores the index it reached.

Every milestone pays its share of the deposit rounded down, however the milestones are grouped into
claims (`exists_runClaims`). So the deposit is paid out in full exactly if every share is a whole
number (`releases_all_iff`); what is rounded off stays in the vault. -/

namespace VestingDripStream.Contract.Milestones

open VestingDripStream.Lib.Checked VestingDripStream.Lib.Transaction VestingDripStream.Lib.Run
open VestingDripStream.Lib.Floors
open VestingDripStream.Contract.Types VestingDripStream.Contract.Schedule

/-- `Milestone`. -/
structure Milestone where
  ledger : UInt32
  bpsUnlock : UInt32
  deriving DecidableEq

/-- What the loops use of a `MilestoneSchedule`. -/
structure MilestoneSchedule where
  totalDeposited : ℤ
  milestones : List Milestone
  nextMilestoneIdx : ℕ

/-! ### Validation -/

/-- The loop over the milestones, with `milestone_vec`, `prev_ledger` and `total_bps` so far. -/
def validationLoop : List (UInt32 × UInt32) → List Milestone → UInt32 → UInt32 →
    Except Failure (List Milestone × UInt32)
  | [], milestoneVec, _, totalBps => .ok (milestoneVec, totalBps)
  | (ledger, bps) :: rest, milestoneVec, prevLedger, totalBps =>
    if ledger ≤ prevLedger then .error (.err .invalidMilestones)
    else do
      let totalBps ← orFail (checkedAdd totalBps bps) (.err .invalidMilestones)
      validationLoop rest (milestoneVec ++ [⟨ledger, bps⟩]) ledger totalBps

/-- The validation of `milestones`, where `maxMilestones` is `MAX_MILESTONES`. -/
def validateMilestones (maxMilestones : ℕ) (milestones : List (UInt32 × UInt32)) :
    Except Failure (List Milestone) :=
  if milestones.length = 0 ∨ maxMilestones < milestones.length then
    .error (.err .invalidMilestones)
  else do
    let (milestoneVec, totalBps) ← validationLoop milestones [] 0 0
    if totalBps ≠ 10000 then .error (.err .invalidMilestones)
    else .ok milestoneVec

/-! ### Claims -/

/-- The loop of `claim_milestone` on the milestones from `new_idx` on, with `new_idx` and
`claimable` so far. -/
def accrualLoop (totalDeposited : ℤ) (current : UInt32) :
    List Milestone → ℕ → ℤ → Except Failure (ℤ × ℕ)
  | [], newIdx, claimable => .ok (claimable, newIdx)
  | milestone :: rest, newIdx, claimable =>
    if milestone.ledger ≤ current then do
      let product ← orOverflow (checked (totalDeposited * asI128 milestone.bpsUnlock))
      let claimable ← orOverflow (checked (claimable + product.tdiv 10000))
      accrualLoop totalDeposited current rest (newIdx + 1) claimable
    else .ok (claimable, newIdx)

/-- The amount that is claimable at `current`, and the schedule that keeps the index reached. -/
def accrueMilestones (s : MilestoneSchedule) (current : UInt32) :
    Except Failure (ℤ × MilestoneSchedule) := do
  let (claimable, newIdx) ← accrualLoop s.totalDeposited current
    (s.milestones.drop s.nextMilestoneIdx) s.nextMilestoneIdx 0
  .ok (claimable, { s with nextMilestoneIdx := newIdx })

/-- `claim_milestone`, whose transfer succeeds. -/
def claimMilestone (s : MilestoneSchedule) (current : UInt32) :
    Except Failure (ℤ × MilestoneSchedule) := do
  let (claimable, s) ← accrueMilestones s current
  if claimable = 0 then .error (.err .nothingToClaim)
  else .ok (claimable, s)

/-- The accrual loop at one ledger after the other: what it pays in all, and the schedule left. -/
def runAccruals : MilestoneSchedule → List UInt32 → Except Failure (ℤ × MilestoneSchedule)
  | s, [] => .ok (0, s)
  | s, current :: rest => do
    let (claimable, s) ← accrueMilestones s current
    let (paid, s) ← runAccruals s rest
    .ok (claimable + paid, s)

/-- A call of `claim_milestone`, with what was paid so far: it is rolled back if it fails. -/
def claimStep (state : ℤ × MilestoneSchedule) (current : UInt32) : ℤ × MilestoneSchedule :=
  match claimMilestone state.2 current with
  | .ok (claimable, s) => (state.1 + claimable, s)
  | .error _ => state

/-! ### The validated list -/

section Validation

variable {input : List (UInt32 × UInt32)} {acc ms : List Milestone}

/-- The shares of the list, in basis points. -/
def bpsSum (ms : List Milestone) : ℤ := (ms.map fun m => (m.bpsUnlock.toNat : ℤ)).sum

theorem validationLoop_sum : ∀ {input : List (UInt32 × UInt32)} {acc ms : List Milestone}
    {prev bps total : UInt32}, validationLoop input acc prev bps = .ok (ms, total) →
      bpsSum acc = bps.toNat → bpsSum ms = total.toNat
  | [], acc, ms, prev, bps, total, h, hacc => by
    obtain ⟨rfl, rfl⟩ := Prod.mk.inj (Except.ok.inj h)
    exact hacc
  | (ledger, b) :: rest, acc, ms, prev, bps, total, h, hacc => by
    unfold validationLoop at h
    split_ifs at h
    simp only [except_bind_ok, orFail_ok, checkedAdd_eq_some] at h
    obtain ⟨sum, hsum, h⟩ := h
    refine validationLoop_sum h ?_
    unfold bpsSum at hacc ⊢
    rw [List.map_append, List.sum_append, hacc, hsum]
    simp

/-- The shares of a list that is accepted are all of the deposit. -/
theorem bpsSum_of_validate {maxMilestones : ℕ}
    (h : validateMilestones maxMilestones input = .ok ms) : bpsSum ms = 10000 := by
  unfold validateMilestones at h
  split_ifs at h
  simp only [except_bind_ok] at h
  obtain ⟨⟨vec, total⟩, hloop, h⟩ := h
  simp only at h
  split_ifs at h with htotal
  cases h
  rw [validationLoop_sum hloop rfl, not_ne_iff.mp htotal]
  rfl

end Validation

/-! ### What the claims pay -/

section Claims

variable {total : ℤ} {ms : List Milestone} {current : UInt32}

/-- The share of a milestone in the deposit, times 10000. -/
def share (total : ℤ) (m : Milestone) : ℤ := total * m.bpsUnlock.toNat

/-- What the milestones pay, each share rounded down. -/
def released (total : ℤ) (ms : List Milestone) : ℤ := floors 10000 (ms.map (share total))

theorem share_nonneg (h : 0 ≤ total) (m : Milestone) : 0 ≤ share total m :=
  mul_nonneg h (Int.natCast_nonneg _)

theorem released_nonneg (h : 0 ≤ total) (ms : List Milestone) : 0 ≤ released total ms := by
  refine List.sum_nonneg fun x hx => ?_
  obtain ⟨y, hy, rfl⟩ := List.mem_map.mp hx
  obtain ⟨m, -, rfl⟩ := List.mem_map.mp hy
  exact Int.ediv_nonneg (share_nonneg h m) (by norm_num)

theorem released_cons (m : Milestone) (ms : List Milestone) :
    released total (m :: ms) = share total m / 10000 + released total ms := by
  unfold released
  rw [List.map_cons, floors_cons]

theorem released_append (total : ℤ) (ms ms' : List Milestone) :
    released total (ms ++ ms') = released total ms + released total ms' := by
  unfold released
  rw [List.map_append, floors_append]

theorem sum_share (total : ℤ) (ms : List Milestone) :
    (ms.map (share total)).sum = total * bpsSum ms :=
  List.sum_map_mul_left ms _ total

/-- All milestones together pay at most the deposit. -/
theorem released_le (hbps : bpsSum ms = 10000) : released total ms ≤ total := by
  have hle := floors_le (d := 10000) (l := ms.map (share total)) (by norm_num)
  rw [sum_share, hbps, Int.mul_ediv_cancel _ (by norm_num)] at hle
  exact hle

/-- **One run of the accrual loop**: the milestones that are reached, in order, each rounded down. -/
theorem accrualLoop_eq (h0 : 0 ≤ total) : ∀ {rest : List Milestone} {idx : ℕ} {claimable : ℤ},
    (∀ m ∈ rest, InI128 (share total m)) → 0 ≤ claimable →
      claimable + released total rest ≤ i128Max →
        accrualLoop total current rest idx claimable =
          .ok (claimable + released total (rest.takeWhile (·.ledger ≤ current)),
            idx + (rest.takeWhile (·.ledger ≤ current)).length)
  | [], idx, claimable, _, _, _ => by simp [accrualLoop, released]
  | m :: rest, idx, claimable, hprod, hc, hfit => by
    rw [released_cons] at hfit
    have hshare := share_nonneg h0 m
    have hpaid : 0 ≤ share total m / 10000 := Int.ediv_nonneg hshare (by norm_num)
    have hrest := released_nonneg h0 rest
    unfold accrualLoop
    by_cases hreached : m.ledger ≤ current
    · have hproduct : checked (total * asI128 m.bpsUnlock) = some (share total m) :=
        checked_of_mem (hprod m List.mem_cons_self)
      have hsum : checked (claimable + (share total m).tdiv 10000) =
          some (claimable + share total m / 10000) := by
        rw [Int.tdiv_eq_ediv_of_nonneg hshare]
        refine checked_of_mem ⟨?_, by omega⟩
        unfold i128Min
        omega
      rw [if_pos hreached, hproduct]
      show (orOverflow (checked (claimable + (share total m).tdiv 10000)) >>= _) = _
      rw [hsum]
      show accrualLoop total current rest (idx + 1) (claimable + share total m / 10000) = _
      rw [accrualLoop_eq h0 (fun x hx => hprod x (List.mem_cons_of_mem _ hx)) (by omega) (by omega),
        List.takeWhile_cons_of_pos (by simpa using hreached), released_cons, List.length_cons]
      congr 2 <;> omega
    · rw [if_neg hreached, List.takeWhile_cons_of_neg (by simpa using hreached)]
      simp [released]

end Claims

/-! ### Runs of claims -/

/-- The milestones share all of a deposit that is not too large to be divided. -/
structure Shared (total : ℤ) (ms : List Milestone) : Prop where
  nonneg : 0 ≤ total
  fits : InI128 total
  products : ∀ m ∈ ms, InI128 (share total m)
  all : bpsSum ms = 10000

section Runs

variable {total : ℤ} {ms : List Milestone}

theorem take_add_takeWhile (ms : List Milestone) (idx : ℕ) (p : Milestone → Bool) :
    ms.take (idx + ((ms.drop idx).takeWhile p).length) =
      ms.take idx ++ (ms.drop idx).takeWhile p := by
  rw [List.take_add, ← List.prefix_iff_eq_take.mp (List.takeWhile_prefix p)]

/-- **One claim** pays the milestones from the index where it starts to the one it reaches. -/
theorem exists_accrue (h : Shared total ms) (idx : ℕ) (current : UInt32) :
    ∃ idx', accrueMilestones ⟨total, ms, idx⟩ current =
        .ok (released total (ms.take idx') - released total (ms.take idx), ⟨total, ms, idx'⟩) ∧
      ((∀ m ∈ ms, m.ledger ≤ current) → ms.take idx' = ms) := by
  have hsplit := released_append total (ms.take idx) (ms.drop idx)
  rw [List.take_append_drop] at hsplit
  have hle : released total ms ≤ total := released_le h.all
  have htaken := released_nonneg h.nonneg (ms.take idx)
  have hmax := h.fits.2
  have hloop : accrualLoop total current (ms.drop idx) idx 0 =
      .ok (0 + released total ((ms.drop idx).takeWhile (·.ledger ≤ current)),
        idx + ((ms.drop idx).takeWhile (·.ledger ≤ current)).length) :=
    accrualLoop_eq h.nonneg (fun m hm => h.products m (List.mem_of_mem_drop hm)) le_rfl (by omega)
  have htake := take_add_takeWhile ms idx (·.ledger ≤ current)
  refine ⟨idx + ((ms.drop idx).takeWhile (·.ledger ≤ current)).length, ?_, fun hall => ?_⟩
  · unfold accrueMilestones
    simp only
    rw [hloop, htake, released_append, zero_add, add_sub_cancel_left]
    rfl
  · have hrest : (ms.drop idx).takeWhile (·.ledger ≤ current) = ms.drop idx :=
      List.takeWhile_eq_self_iff.mpr fun m hm => by simpa using hall m (List.mem_of_mem_drop hm)
    rw [htake, hrest, List.take_append_drop]

/-- **The run of the accrual loop**: what it pays does not depend on how the milestones are grouped
into claims. -/
theorem exists_runAccruals (h : Shared total ms) : ∀ (ledgers : List UInt32) (idx : ℕ),
    ∃ idx', runAccruals ⟨total, ms, idx⟩ ledgers =
        .ok (released total (ms.take idx') - released total (ms.take idx), ⟨total, ms, idx'⟩) ∧
      ∀ last, ledgers.getLast? = some last → (∀ m ∈ ms, m.ledger ≤ last) → ms.take idx' = ms
  | [], idx => ⟨idx, by simp [runAccruals], nofun⟩
  | current :: rest, idx => by
    obtain ⟨mid, hstep, hreach⟩ := exists_accrue h idx current
    obtain ⟨idx', hrun, hlast⟩ := exists_runAccruals h rest mid
    refine ⟨idx', ?_, fun last hl hall => ?_⟩
    · unfold runAccruals
      rw [hstep]
      show (runAccruals ⟨total, ms, mid⟩ rest >>= _) = _
      rw [hrun]
      show Except.ok _ = _
      congr 2
      ring
    · cases rest with
      | nil =>
        cases hl
        obtain ⟨hpaid, hs⟩ := Prod.mk.inj (Except.ok.inj hrun)
        rw [MilestoneSchedule.mk.injEq] at hs
        rw [← hs.2.2]
        exact hreach hall
      | cons c rest => exact hlast last (by simpa using hl) hall

/-- What was paid is what the milestones below the stored index pay. -/
structure Tallied (total : ℤ) (ms : List Milestone) (state : ℤ × MilestoneSchedule) : Prop where
  total_eq : state.2.totalDeposited = total
  milestones_eq : state.2.milestones = ms
  paid : state.1 = released total (ms.take state.2.nextMilestoneIdx)

/-- **One call of `claim_milestone`**, refused or not. A refused one passes over shares that are
rounded down to nothing. -/
theorem Tallied.step (h : Shared total ms) {state : ℤ × MilestoneSchedule}
    (hs : Tallied total ms state) (current : UInt32) : Tallied total ms (claimStep state current) ∧
      ((∀ m ∈ ms, m.ledger ≤ current) → (claimStep state current).1 = released total ms) := by
  obtain ⟨paid, s⟩ := state
  obtain ⟨htotal, hms, hpaid⟩ := hs
  simp only at htotal hms hpaid
  subst htotal hms
  obtain ⟨idx', haccrue, hreach⟩ := exists_accrue h s.nextMilestoneIdx current
  have hclaim : claimMilestone s current =
      if released s.totalDeposited (s.milestones.take idx') -
          released s.totalDeposited (s.milestones.take s.nextMilestoneIdx) = 0 then
        .error (.err .nothingToClaim)
      else .ok (released s.totalDeposited (s.milestones.take idx') -
          released s.totalDeposited (s.milestones.take s.nextMilestoneIdx),
        ⟨s.totalDeposited, s.milestones, idx'⟩) := by
    unfold claimMilestone
    rw [haccrue]
    rfl
  unfold claimStep
  simp only
  rw [hclaim]
  split_ifs with hzero
  · refine ⟨⟨rfl, rfl, hpaid⟩, fun hall => ?_⟩
    rw [hreach hall] at hzero
    simp only
    omega
  · refine ⟨⟨rfl, rfl, ?_⟩, fun hall => ?_⟩
    · simp only
      omega
    · rw [hreach hall]
      simp only
      omega

/-- **The run of claims.** -/
theorem tallied_run (h : Shared total ms) {state : ℤ × MilestoneSchedule}
    (hs : Tallied total ms state) (ledgers : List UInt32) :
    Tallied total ms (run claimStep state ledgers) := by
  induction ledgers generalizing state with
  | nil => exact hs
  | cons current rest ih => exact ih (hs.step h current).1

/-- **When the milestones release the deposit**: exactly if no share is rounded. -/
theorem released_eq_iff (hbps : bpsSum ms = 10000) :
    released total ms = total ↔ ∀ m ∈ ms, 10000 ∣ share total m := by
  have hten : (0 : ℤ) < 10000 := by norm_num
  have hsum := sum_share total ms
  rw [hbps] at hsum
  have hiff := floors_eq_iff hten (hsum ▸ Dvd.intro_left total rfl)
  rw [hsum, Int.mul_ediv_cancel _ hten.ne', List.forall_mem_map] at hiff
  exact hiff

end Runs

/-- **Milestones release the deposit exactly if every share is a whole number.** For every accepted
list and every sequence of ledgers that ends at or after the last milestone, the runs of the accrual
loop pay the whole deposit exactly if 10000 divides the product for every milestone; and so do the
calls of `claim_milestone`, which are refused and rolled back where nothing is due. -/
theorem releases_all_iff {maxMilestones : ℕ} {input : List (UInt32 × UInt32)}
    {ms : List Milestone} (hval : validateMilestones maxMilestones input = .ok ms) {total : ℤ}
    (h0 : 0 ≤ total) (hin : InI128 total)
    (hprod : ∀ m ∈ ms, InI128 (total * asI128 m.bpsUnlock)) (ledgers : List UInt32) (last : UInt32)
    (hlast : ∀ m ∈ ms, m.ledger ≤ last) :
    ((∃ s, runAccruals ⟨total, ms, 0⟩ (ledgers ++ [last]) = .ok (total, s)) ↔
      ∀ m ∈ ms, 10000 ∣ total * asI128 m.bpsUnlock) ∧
    ((run claimStep (0, ⟨total, ms, 0⟩) (ledgers ++ [last])).1 = total ↔
      ∀ m ∈ ms, 10000 ∣ total * asI128 m.bpsUnlock) := by
  have h : Shared total ms := ⟨h0, hin, hprod, bpsSum_of_validate hval⟩
  have hzero : released total (ms.take 0) = 0 := rfl
  have hdvd : (∀ m ∈ ms, 10000 ∣ total * asI128 m.bpsUnlock) ↔ released total ms = total :=
    (released_eq_iff h.all).symm
  rw [hdvd]
  constructor
  · obtain ⟨idx', hrun, hreach⟩ := exists_runAccruals h (ledgers ++ [last]) 0
    rw [hrun, hreach last (by simp) hlast, hzero, sub_zero]
    constructor
    · rintro ⟨s, hs⟩
      exact (Prod.mk.inj (Except.ok.inj hs)).1
    · intro heq
      exact ⟨_, by rw [heq]⟩
  · have hstart : Tallied total ms (0, ⟨total, ms, 0⟩) := ⟨rfl, rfl, hzero.symm⟩
    have hbefore := tallied_run h hstart ledgers
    rw [run_append, run_cons, run_nil, (hbefore.step h last).2 hlast]

/-- Two halves of 10000 are paid in full, and two halves of 10001 are not. -/
theorem releases_all_iff_sample :
    (∃ s, runAccruals ⟨10000, [⟨100, 5000⟩, ⟨200, 5000⟩], 0⟩ ([150] ++ [200]) = .ok (10000, s)) ∧
      (run claimStep (0, ⟨10001, [⟨100, 5000⟩, ⟨200, 5000⟩], 0⟩) ([150] ++ [200])).1 ≠ 10001 := by
  have hval : validateMilestones 20 [(100, 5000), (200, 5000)] =
      .ok [⟨100, 5000⟩, ⟨200, 5000⟩] := rfl
  refine ⟨?_, fun hall => ?_⟩
  · exact (releases_all_iff hval (by decide) (by decide) (by decide) [150] 200 (by decide)).1.mpr
      (by decide)
  · have hdvd := (releases_all_iff hval (by decide) (by decide) (by decide) [150] 200
      (by decide)).2.mp hall
    exact absurd (hdvd ⟨100, 5000⟩ List.mem_cons_self) (by decide)

/-- Of a deposit of 10001 with two milestones of a half each, one unit stays in the vault. -/
theorem milestones_leave_dust :
    validateMilestones 20 [(100, 5000), (200, 5000)] = .ok [⟨100, 5000⟩, ⟨200, 5000⟩] ∧
      ¬ ∃ s, runAccruals ⟨10001, [⟨100, 5000⟩, ⟨200, 5000⟩], 0⟩ [100, 200] = .ok (10001, s) := by
  have hrun : runAccruals ⟨10001, [⟨100, 5000⟩, ⟨200, 5000⟩], 0⟩ [100, 200] =
      .ok (10000, ⟨10001, [⟨100, 5000⟩, ⟨200, 5000⟩], 2⟩) := rfl
  refine ⟨rfl, ?_⟩
  rw [hrun]
  rintro ⟨s, hs⟩
  exact absurd (Prod.mk.inj (Except.ok.inj hs)).1 (by decide)

end VestingDripStream.Contract.Milestones
