import VestingDripStream.Contract.Stream

/-! # The status of a stream that was never paused

`get_status` reads the legacy key of the recipient only. From its end on a stream that was never
paused is expired, and a claim finds all that remains. -/

namespace VestingDripStream.Contract.Lifecycle

open VestingDripStream.Lib.Checked VestingDripStream.Lib.Transaction VestingDripStream.Lib.Run
open VestingDripStream.Contract.Types VestingDripStream.Contract.Storage
open VestingDripStream.Contract.Schedule VestingDripStream.Contract.EntryPoints
open VestingDripStream.Contract.Effects VestingDripStream.Contract.Stream

/-- `StreamStatus` of the contract. -/
inductive StreamStatus
  | preCliff
  | active
  | expired
  | cancelled
  | paused
  | drained
  | notFound
  deriving DecidableEq, Repr

/-- What `get_status` says of a schedule at the ledger `current`. -/
def statusOf (schedule : VestingSchedule) (current : UInt32) : StreamStatus :=
  if schedule.pausedAtLedger.isSome then .paused
  else if current < schedule.cliffLedger then .preCliff
  else if current < schedule.endLedger then .active
  else .expired

/-- `get_status`, at the ledger `current`. -/
def getStatus (st : Storage) (recipient : Address) (current : UInt32) : Option StreamStatus :=
  (getScheduleReadonly st recipient).map fun schedule => statusOf schedule current

/-- The loop body of `claim_vested` finds all that remains of the schedule to be due. -/
def PaysEverything (s : VestingSchedule) (current : UInt32) : Prop :=
  s.pausedAtLedger = none ∧ s.cliffLedger ≤ current ∧
    ∃ total, dueAmount s current = .ok (total, s.owed)

/-- A schedule that was never paused and is not claimed to its end. -/
structure NeverPaused (s : VestingSchedule) (now : ℕ) : Prop where
  inv : RepInv s now
  unpaused : s.pausedAtLedger = none
  remains : s.lastClaimedLedger.toNat < s.endLedger.toNat

section Status

variable {s s' : VestingSchedule} {now : ℕ} {current : UInt32}

theorem statusOf_eq_expired (h : NeverPaused s now) :
    statusOf s current = .expired ↔ s.endLedger.toNat ≤ current.toNat := by
  have hlt := h.inv.cliff_lt_end
  unfold statusOf
  rw [h.unpaused]
  simp only [Option.isSome_none, Bool.false_eq_true, if_false, UInt32.lt_iff_toNat_lt]
  split_ifs with h1 h2
  · exact iff_of_false nofun (by omega)
  · exact iff_of_false nofun (by omega)
  · exact iff_of_true rfl (by omega)

/-- **From the end on, and not before it, a claim finds all that remains.** -/
theorem paysEverything_iff (h : NeverPaused s now) :
    PaysEverything s current ↔ s.endLedger.toNat ≤ current.toNat := by
  have hlast := h.remains
  have hcliff := h.inv.cliff_lt_end
  have hstart := h.inv.start_lt_cliff
  constructor
  · rintro ⟨-, -, total, hdue⟩
    obtain ⟨-, -, -, -, hcase⟩ := dueAmount_ok hdue
    rcases hcase with ⟨hend, -⟩ | ⟨hlt, -, heq⟩
    · exact hend
    · -- before the end less is due than the rest of the schedule
      rw [h.inv.owed_eq] at heq
      have hsame := mul_left_cancel₀ h.inv.rate_pos.ne' heq
      omega
  · intro hend
    refine ⟨h.unpaused, UInt32.le_iff_toNat_le.mpr (by omega), s.total, ?_⟩
    obtain ⟨d, hd⟩ := Option.isSome_iff_exists.mp
      (plainSub_isSome (a := s.endLedger) (b := s.startLedger) (by omega))
    have hfits : InI128 s.owed := inI128_of_le h.inv.total_fits h.inv.owed_nonneg (by
      have := h.inv.claimed_nonneg
      unfold VestingSchedule.owed
      omega)
    have htotal := total_eq hd
    unfold dueAmount
    refine except_bind_ok.mpr ⟨d, plain_ok.mpr hd, except_bind_ok.mpr ⟨s.total, ?_, ?_⟩⟩
    · rw [orOverflow_ok, checked_eq_some, htotal]
      exact ⟨h.inv.total_fits, rfl⟩
    · rw [if_pos (UInt32.le_iff_toNat_le.mpr hend)]
      exact except_bind_ok.mpr ⟨s.owed, orOverflow_ok.mpr (checked_eq_some.mpr ⟨hfits, rfl⟩), rfl⟩

end Status

/-! ### From the creation on -/

section Run

variable {c : StreamState} {e : StreamCall} {s0 : VestingSchedule}

/-- The stream is not paused. -/
def Unpaused (c : StreamState) : Prop := ∀ s, c.stored = some s → s.pausedAtLedger = none

/-- What is stored was never paused and still has the ledgers of its creation. -/
def Undisturbed (s0 : VestingSchedule) (c : StreamState) : Prop :=
  ∀ s, c.stored = some s → NeverPaused s c.now ∧ s.endLedger = s0.endLedger

/-- **One call** that does not leave the stream paused. A claim that does not finish the stream is
made before its end. -/
theorem undisturbed_step (h : Undisturbed s0 c) (hl : e.Legal c) (hu : Unpaused (c.step e)) :
    Undisturbed s0 (c.step e) := by
  have hinv := storedInv_step c e (fun s hs => (h s hs).1.inv) hl
  have hkept : ∀ s', (c.step e).stored = some s' →
      s'.lastClaimedLedger.toNat < s'.endLedger.toNat ∧ s'.endLedger = s0.endLedger := by
    unfold StreamState.step at hu ⊢
    cases hx : c.exec e with
    | error f => exact fun s' hs' => ⟨(h s' hs').1.remains, (h s' hs').2⟩
    | ok c' =>
      rw [hx] at hu
      intro s' hs'
      have hunpaused := hu s' hs'
      obtain ⟨s, hs, hcase⟩ := exec_ok hx
      obtain ⟨hn, hend⟩ := h s hs
      rcases hcase with ⟨_, rc, -, hrc, rfl⟩ | ⟨_, s1, -, hp, rfl⟩ | ⟨_, s1, -, hr, rfl⟩ |
        ⟨_, -, -, rfl⟩
      · simp only at hs'
        split_ifs at hs' with hfin
        simp only [Option.some.injEq] at hs'
        have hbefore := mt (hn.inv.finished_iff hrc).mpr hfin
        obtain ⟨-, -, -, -, -, -, -, heq, -⟩ := claimSchedule_ok hrc
        have e1 : s'.lastClaimedLedger = min e.ledger s.endLedger := by rw [← hs', heq]
        have e2 : s'.endLedger = s.endLedger := by rw [← hs', heq]
        rw [e1, e2, toNat_min]
        exact ⟨by omega, hend⟩
      · simp only [Option.some.injEq] at hs'
        obtain ⟨-, -, -, heq⟩ := pauseSchedule_ok hp
        rw [← hs', heq] at hunpaused
        cases hunpaused
      · obtain ⟨p, hp, -⟩ := resumeSchedule_eq hr
        rw [hn.unpaused] at hp
        cases hp
      · exact ⟨(h s' hs').1.remains, (h s' hs').2⟩
  exact fun s' hs' => ⟨⟨hinv s' hs', hu s' hs', (hkept s' hs').1⟩, (hkept s' hs').2⟩

/-- **Never paused.** Whatever claims and transfers follow a creation, at ledgers that do not go
back, as long as the stream is never paused its schedule keeps its end, and is not claimed to it
while it is stored. -/
theorem neverPaused_of_created {D : Deployment} {host : Host} {a : CreateArgs} {env env' : Env}
    {id : UInt32} (h : createVestingStream D host a env = .ok (id, env')) :
    ∃ s0, scheduleAt env'.persistent a.recipient 0 = some s0 ∧
      ∀ calls, AllSteps StreamState.step (fun c e => e.Legal c ∧ Unpaused (c.step e))
          (StreamState.created a.recipient s0) calls →
        AllStates StreamState.step (Undisturbed s0) (StreamState.created a.recipient s0) calls := by
  obtain ⟨r, hr⟩ := createVestingStream_ok h
  refine ⟨_, scheduleAt_created hr, fun calls hcalls => ?_⟩
  refine allStates_of_inv (fun c e hc hP => undisturbed_step hc hP.1 hP.2) ?_ hcalls
  intro s hs
  have hinv := repInv_created hr
  simp only [StreamState.created, Option.some.injEq] at hs
  subst hs
  exact ⟨⟨hinv, rfl, hinv.start_lt_cliff.trans hinv.cliff_lt_end⟩, rfl⟩

end Run

end VestingDripStream.Contract.Lifecycle
