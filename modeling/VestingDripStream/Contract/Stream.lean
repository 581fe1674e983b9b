import VestingDripStream.Contract.Effects
import VestingDripStream.Lib.Run

/-! # One stream from its creation on

The life of one schedule under claims, pauses, resumptions and transfers, at nondecreasing ledgers.

* `RepInv s now` is the representation invariant of a schedule. It is stronger than what the code
  ever checks: it ties the four ledgers and the two counters of a schedule to the current ledger.
  Creation establishes it (`repInv_created`) and every step keeps it (`storedInv_step`), as long as
  no addition of `resume_stream` saturates.
* Under it a claim pays `rate * (min current end - last_claimed)` in both branches of the code
  (`RepInv.gross_eq`), and no subtraction of ledgers traps (`RepInv.noUnderflow`).
* `StreamState` is the machine of one stream. A successful entry point on the stream is a step of
  the machine, and leaves its schedule in the storage (`exec_of_paid` and the lemmas after it). -/

namespace VestingDripStream.Contract.Stream

open VestingDripStream.Lib.Checked VestingDripStream.Lib.Transaction VestingDripStream.Lib.Run
open VestingDripStream.Contract.Types VestingDripStream.Contract.Storage
open VestingDripStream.Contract.Schedule VestingDripStream.Contract.EntryPoints
open VestingDripStream.Contract.Effects

/-! ### The representation invariant -/

/-- **The representation invariant** of a schedule at ledger `now`. -/
structure RepInv (s : VestingSchedule) (now : ℕ) : Prop where
  rate_pos : 0 < s.ratePerLedger
  start_lt_cliff : s.startLedger.toNat < s.cliffLedger.toNat
  cliff_lt_end : s.cliffLedger.toNat < s.endLedger.toNat
  start_le_last : s.startLedger.toNat ≤ s.lastClaimedLedger.toNat
  last_le_end : s.lastClaimedLedger.toNat ≤ s.endLedger.toNat
  last_le_now : s.lastClaimedLedger.toNat ≤ now
  last_le_paused : ∀ p, s.pausedAtLedger = some p → s.lastClaimedLedger.toNat ≤ p.toNat
  paused_le_now : ∀ p, s.pausedAtLedger = some p → p.toNat ≤ now
  counters : s.totalClaimed = s.claimedAmount
  claimed : s.claimedAmount =
    s.ratePerLedger * ((s.lastClaimedLedger.toNat : ℤ) - s.startLedger.toNat)
  version_pos : 1 ≤ s.version.toNat
  total_fits : InI128 s.total

section Invariant

variable {s s' : VestingSchedule} {now : ℕ} {current feeBps : UInt32} {sponsor : Address}

/-- The invariant does not age. -/
theorem RepInv.mono {now' : ℕ} (h : RepInv s now) (hle : now ≤ now') : RepInv s now' :=
  { h with
    last_le_now := h.last_le_now.trans hle
    paused_le_now := fun p hp => (h.paused_le_now p hp).trans hle }

/-- What is still owed accrues between the last claim and the end. -/
theorem RepInv.owed_eq (h : RepInv s now) :
    s.owed = s.ratePerLedger * ((s.endLedger.toNat : ℤ) - s.lastClaimedLedger.toNat) := by
  unfold VestingSchedule.owed VestingSchedule.total
  rw [h.claimed]
  ring

theorem RepInv.owed_nonneg (h : RepInv s now) : 0 ≤ s.owed := by
  have hle := h.last_le_end
  rw [h.owed_eq]
  exact mul_nonneg h.rate_pos.le (by omega)

theorem RepInv.claimed_nonneg (h : RepInv s now) : 0 ≤ s.claimedAmount := by
  have hle := h.start_le_last
  rw [h.claimed]
  exact mul_nonneg h.rate_pos.le (by omega)

theorem RepInv.claimed_le_total (h : RepInv s now) : s.claimedAmount ≤ s.total := by
  have := h.owed_nonneg
  unfold VestingSchedule.owed at this
  omega

/-- A sum that accrues within the schedule fits. -/
theorem RepInv.fits (h : RepInv s now) {a b : ℕ} (hab : a ≤ b) (ha : s.startLedger.toNat ≤ a)
    (hb : b ≤ s.endLedger.toNat) : InI128 (s.ratePerLedger * ((b : ℤ) - a)) := by
  refine inI128_of_le h.total_fits (mul_nonneg h.rate_pos.le (by omega)) ?_
  exact mul_le_mul_of_nonneg_left (by omega) h.rate_pos.le

/-- **Creation establishes the invariant.** -/
theorem repInv_created {D : Deployment} {host : Host} {a : CreateArgs} {env env' : Env}
    {id : UInt32} {c : CreationReceipt} (h : Created D host a env id env' c) :
    RepInv (c.schedule host a) host.sequence.toNat where
  rate_pos := h.rate_pos
  start_lt_cliff := by
    have h1 := h.cliffLedger
    have h2 := h.cliff_pos
    show host.sequence.toNat < c.cliffLedger.toNat
    omega
  cliff_lt_end := by
    have h1 := h.cliffLedger
    have h2 := h.endLedger
    have h3 := h.cliff_lt
    show c.cliffLedger.toNat < c.endLedger.toNat
    omega
  start_le_last := le_rfl
  last_le_end := by
    have h2 := h.endLedger
    show host.sequence.toNat ≤ c.endLedger.toNat
    omega
  last_le_now := le_rfl
  last_le_paused := by rintro p ⟨⟩
  paused_le_now := by rintro p ⟨⟩
  counters := rfl
  claimed := by
    show (0 : ℤ) = a.rate * ((host.sequence.toNat : ℤ) - host.sequence.toNat)
    ring
  version_pos := le_rfl
  total_fits := by
    have htotal : (c.schedule host a).total = a.rate * a.totalDuration.toNat := by
      show a.rate * ((c.endLedger.toNat : ℤ) - host.sequence.toNat) = _
      rw [h.endLedger]
      push_cast
      ring
    rw [htotal]
    exact h.total_fits

theorem repInv_pause (h : RepInv s now) (hnow : now ≤ current.toNat)
    (hs : pauseSchedule s sponsor current = .ok s') : RepInv s' current.toNat := by
  obtain ⟨-, -, hv, heq⟩ := pauseSchedule_ok hs
  have hpos := h.version_pos
  have hlast := h.last_le_now
  rw [heq]
  exact
    { rate_pos := h.rate_pos, start_lt_cliff := h.start_lt_cliff, cliff_lt_end := h.cliff_lt_end
      start_le_last := h.start_le_last, last_le_end := h.last_le_end
      last_le_now := hlast.trans hnow
      last_le_paused := by rintro p ⟨⟩; exact hlast.trans hnow
      paused_le_now := by rintro p ⟨⟩; exact le_rfl
      counters := h.counters, claimed := h.claimed
      version_pos := by show 1 ≤ s'.version.toNat; omega
      total_fits := h.total_fits }

/-- A resumption shifts all ledgers alike, so every distance between them is kept. -/
theorem repInv_resume (h : RepInv s now) (hnow : now ≤ current.toNat)
    (hfit : ResumeFits s current) (hs : resumeSchedule s sponsor current = .ok s') :
    RepInv s' current.toNat := by
  obtain ⟨p, hp, hnone, hv, e1, e2, e3, e4, hrate, htc, hca⟩ := resumeSchedule_ok hs hfit
  have hpn := h.paused_le_now p hp
  have hlp := h.last_le_paused p hp
  have h1 := h.start_lt_cliff
  have h2 := h.cliff_lt_end
  have h3 := h.start_le_last
  have h4 := h.last_le_end
  have hpos := h.version_pos
  have hdist : (s'.lastClaimedLedger.toNat : ℤ) - s'.startLedger.toNat =
      (s.lastClaimedLedger.toNat : ℤ) - s.startLedger.toNat := by omega
  have hspan : (s'.endLedger.toNat : ℤ) - s'.startLedger.toNat =
      (s.endLedger.toNat : ℤ) - s.startLedger.toNat := by omega
  have htotal : s'.total = s.total := by
    unfold VestingSchedule.total
    rw [hspan, hrate]
  exact
    { rate_pos := by rw [hrate]; exact h.rate_pos
      start_lt_cliff := by omega
      cliff_lt_end := by omega
      start_le_last := by omega
      last_le_end := by omega
      last_le_now := by omega
      last_le_paused := by intro q hq; rw [hnone] at hq; cases hq
      paused_le_now := by intro q hq; rw [hnone] at hq; cases hq
      counters := by rw [htc, hca]; exact h.counters
      claimed := by rw [hdist, hca, hrate]; exact h.claimed
      version_pos := by omega
      total_fits := by rw [htotal]; exact h.total_fits }

/-- **What a claim pays**: the same formula in both branches. -/
theorem RepInv.gross_eq {rc : ClaimReceipt} (h : RepInv s now)
    (hc : claimSchedule s current feeBps = .ok rc) :
    rc.gross = s.ratePerLedger *
      ((min current.toNat s.endLedger.toNat : ℕ) - (s.lastClaimedLedger.toNat : ℤ)) := by
  obtain ⟨-, -, -, -, -, hdue, -⟩ := claimSchedule_ok hc
  obtain ⟨-, -, -, -, hcase⟩ := dueAmount_ok hdue
  rcases hcase with ⟨hend, heq⟩ | ⟨hend, -, heq⟩
  · rw [Nat.min_eq_right hend, ← h.owed_eq, heq]
    rfl
  · rw [Nat.min_eq_left hend.le, heq]

theorem RepInv.gross_pos {rc : ClaimReceipt} (h : RepInv s now) (hnow : now ≤ current.toNat)
    (hc : claimSchedule s current feeBps = .ok rc) : 0 < rc.gross := by
  have hne := (claimSchedule_ok hc).2.2.1
  have h1 := h.last_le_now
  have h2 := h.last_le_end
  have hnn : 0 ≤ rc.gross := by
    rw [h.gross_eq hc]
    exact mul_nonneg h.rate_pos.le (by omega)
  omega

/-- The claim finishes the stream exactly from its end on. -/
theorem RepInv.finished_iff {rc : ClaimReceipt} (h : RepInv s now)
    (hc : claimSchedule s current feeBps = .ok rc) :
    rc.finished = true ↔ s.endLedger.toNat ≤ current.toNat := by
  have hsum : s.claimedAmount + rc.gross =
      s.ratePerLedger * ((min current.toNat s.endLedger.toNat : ℕ) - (s.startLedger.toNat : ℤ)) := by
    rw [h.gross_eq hc, h.claimed]
    ring
  obtain ⟨-, -, -, -, -, -, -, -, hfin⟩ := claimSchedule_ok hc
  rw [hfin, hsum, VestingSchedule.total, mul_le_mul_iff_right₀ h.rate_pos]
  omega

theorem repInv_claim {rc : ClaimReceipt} (h : RepInv s now)
    (hc : claimSchedule s current feeBps = .ok rc) : RepInv rc.schedule current.toNat := by
  have hgross := h.gross_eq hc
  obtain ⟨hact, hcl, -, -, -, -, hv, hrc, -⟩ := claimSchedule_ok hc
  have h1 := h.start_lt_cliff
  have h2 := h.cliff_lt_end
  have hpos := h.version_pos
  have hmin : (min current s.endLedger).toNat = min current.toNat s.endLedger.toNat := toNat_min _ _
  have hclaimed : s.claimedAmount + rc.gross = s.ratePerLedger *
      (((min current s.endLedger).toNat : ℤ) - s.startLedger.toNat) := by
    rw [hgross, h.claimed, hmin]
    ring
  rw [hrc]
  exact
    { rate_pos := h.rate_pos, start_lt_cliff := h1, cliff_lt_end := h2
      start_le_last := by
        show s.startLedger.toNat ≤ (min current s.endLedger).toNat
        omega
      last_le_end := by
        show (min current s.endLedger).toNat ≤ s.endLedger.toNat
        omega
      last_le_now := by
        show (min current s.endLedger).toNat ≤ current.toNat
        omega
      last_le_paused := by
        intro p hp
        have hp' : s.pausedAtLedger = some p := hp
        rw [hact] at hp'
        cases hp'
      paused_le_now := by
        intro p hp
        have hp' : s.pausedAtLedger = some p := hp
        rw [hact] at hp'
        cases hp'
      counters := by
        show s.totalClaimed + rc.gross = s.claimedAmount + rc.gross
        rw [h.counters]
      claimed := hclaimed
      version_pos := by
        show 1 ≤ rc.schedule.version.toNat
        omega
      total_fits := h.total_fits }

end Invariant

/-! ### No subtraction of ledgers underflows -/

/-- The subtractions of ledgers in `claim_vested`, `cancel_stream`, `clawback_stream` and the views
have a result at ledger `current`, and none of the computations traps. -/
structure NoUnderflow (s : VestingSchedule) (current : UInt32) : Prop where
  duration : (plainSub s.endLedger s.startLedger).isSome = true
  elapsed : (plainSub (min current s.endLedger) s.lastClaimedLedger).isSome = true
  earned : (plainSub (min (s.pausedAtLedger.getD current) s.endLedger)
    s.lastClaimedLedger).isSome = true
  remaining : (plainSub s.endLedger s.lastClaimedLedger).isSome = true
  claim : ∀ feeBps, claimSchedule s current feeBps ≠ .error .trap
  cancel : cancelSplit s current ≠ .error .trap
  clawback : clawbackRemaining s ≠ .error .trap
  view : claimableAmount s current ≠ .error .trap

section Traps

variable {α : Type}

theorem ok_ne_trap (a : α) : (.ok a : Except Failure α) ≠ .error .trap := nofun

theorem orOverflow_ne_trap (o : Option α) : orOverflow o ≠ .error .trap := by
  cases o <;> exact nofun

theorem plain_ne_trap {o : Option α} (h : o.isSome = true) : plain o ≠ .error .trap := by
  cases o with
  | none => cases h
  | some a => exact nofun

theorem incrementVersion_ne_trap (s : VestingSchedule) : s.incrementVersion ≠ .error .trap := by
  unfold VestingSchedule.incrementVersion
  split <;> exact nofun

theorem feeSplit_ne_trap (feeBps : UInt32) (c : ℤ) : feeSplit feeBps c ≠ .error .trap := by
  refine bind_ne_error ?_ fun fee _ => bind_ne_error (orOverflow_ne_trap _) fun _ _ => ok_ne_trap _
  unfold protocolFee
  split_ifs
  · exact bind_ne_error (orOverflow_ne_trap _) fun _ _ => ok_ne_trap _
  · exact ok_ne_trap _

end Traps

section Safety

variable {s : VestingSchedule} {now : ℕ} {current : UInt32}

theorem plainSub_isSome {a b : UInt32} (h : b.toNat ≤ a.toNat) : (plainSub a b).isSome = true := by
  obtain ⟨c, hc, -⟩ := plainSub_of_le h
  rw [hc]
  rfl

theorem dueAmount_ne_trap (hdur : (plainSub s.endLedger s.startLedger).isSome = true)
    (hel : (plainSub (min current s.endLedger) s.lastClaimedLedger).isSome = true) :
    dueAmount s current ≠ .error .trap := by
  refine bind_ne_error (plain_ne_trap hdur) fun d _ =>
    bind_ne_error (orOverflow_ne_trap _) fun t _ => ?_
  split_ifs
  · exact bind_ne_error (orOverflow_ne_trap _) fun _ _ => ok_ne_trap _
  · exact bind_ne_error (plain_ne_trap hel) fun _ _ =>
      bind_ne_error (orOverflow_ne_trap _) fun _ _ => ok_ne_trap _

theorem accrue_ne_trap (hdur : (plainSub s.endLedger s.startLedger).isSome = true)
    (hel : (plainSub (min current s.endLedger) s.lastClaimedLedger).isSome = true) :
    accrue s current ≠ .error .trap := by
  unfold accrue
  split_ifs
  · exact ok_ne_trap _
  · exact ok_ne_trap _
  · refine bind_ne_error (incrementVersion_ne_trap s) fun s1 hs1 => ?_
    obtain ⟨-, heq⟩ := incrementVersion_ok hs1
    rw [heq]
    refine bind_ne_error (dueAmount_ne_trap hdur hel) fun p _ => ?_
    obtain ⟨t, c⟩ := p
    show (if c = 0 then _ else _) ≠ _
    split_ifs
    · exact ok_ne_trap _
    · exact bind_ne_error (incrementVersion_ne_trap _) fun _ _ => ok_ne_trap _

/-- The counters of a claim stay within the total, so adding to them does not overflow. -/
theorem RepInv.settle_ne_trap (h : RepInv s now) (hnow : now ≤ current.toNat)
    {s1 : VestingSchedule} {t c : ℤ} (hacc : accrue s current = .ok (.due s1 t c)) :
    settle s1 current c ≠ .error .trap := by
  obtain ⟨-, -, -, -, hs1, hdue⟩ := accrue_due hacc
  obtain ⟨-, -, -, -, hcase⟩ := dueAmount_ok hdue
  have h1 := h.start_le_last
  have h2 := h.last_le_end
  have h3 := h.last_le_now
  have hc : s.claimedAmount + c = s.ratePerLedger *
      ((min current.toNat s.endLedger.toNat : ℕ) - (s.startLedger.toNat : ℤ)) := by
    rcases hcase with ⟨hend, heq⟩ | ⟨hend, -, heq⟩
    · rw [Nat.min_eq_right hend, heq]
      unfold VestingSchedule.total
      ring
    · rw [Nat.min_eq_left hend.le, heq, h.claimed]
      ring
  have hfit : InI128 (s.claimedAmount + c) := by
    rw [hc]
    exact h.fits (by omega) le_rfl (by omega)
  have hfit' : InI128 (s.totalClaimed + c) := by rw [h.counters]; exact hfit
  rw [hs1]
  refine bind_ne_error (plain_ne_trap ?_) fun _ _ => bind_ne_error (plain_ne_trap ?_) fun _ _ =>
    ok_ne_trap _
  · show (checked (s.totalClaimed + c)).isSome = true
    rw [checked_of_mem hfit']
    rfl
  · show (checked (s.claimedAmount + c)).isSome = true
    rw [checked_of_mem hfit]
    rfl

/-- **Under the invariant nothing underflows**, at any later ledger. -/
theorem RepInv.noUnderflow (h : RepInv s now) (hnow : now ≤ current.toNat) :
    NoUnderflow s current := by
  have h1 := h.start_lt_cliff
  have h2 := h.cliff_lt_end
  have h3 := h.last_le_end
  have h4 := h.last_le_now
  have h5 := h.start_le_last
  have hdur : (plainSub s.endLedger s.startLedger).isSome = true := plainSub_isSome (by omega)
  have hel : (plainSub (min current s.endLedger) s.lastClaimedLedger).isSome = true :=
    plainSub_isSome (by rw [toNat_min]; omega)
  have hearn : (plainSub (min (s.pausedAtLedger.getD current) s.endLedger)
      s.lastClaimedLedger).isSome = true := by
    refine plainSub_isSome ?_
    rw [toNat_min]
    cases hp : s.pausedAtLedger with
    | none => simp only [Option.getD_none]; omega
    | some p =>
      have := h.last_le_paused p hp
      simp only [Option.getD_some]
      omega
  have hrem : (plainSub s.endLedger s.lastClaimedLedger).isSome = true := plainSub_isSome h3
  refine ⟨hdur, hel, hearn, hrem, fun feeBps => ?_, ?_, ?_, ?_⟩
  · refine bind_ne_error (accrue_ne_trap hdur hel) fun acc hacc => ?_
    cases acc with
    | skip reason => exact nofun
    | due s1 t c =>
      exact bind_ne_error (feeSplit_ne_trap _ _) fun _ _ =>
        bind_ne_error (h.settle_ne_trap hnow hacc) fun _ _ => ok_ne_trap _
  · refine bind_ne_error (incrementVersion_ne_trap s) fun s1 hs1 => ?_
    obtain ⟨-, heq⟩ := incrementVersion_ok hs1
    rw [heq]
    refine bind_ne_error (plain_ne_trap hdur) fun d _ =>
      bind_ne_error (orOverflow_ne_trap _) fun t _ => ?_
    show (if s.cliffLedger ≤ s.pausedAtLedger.getD current then _ else _) ≠ _
    split_ifs
    · exact bind_ne_error (plain_ne_trap hearn) fun _ _ =>
        bind_ne_error (orOverflow_ne_trap _) fun _ _ =>
          bind_ne_error (orOverflow_ne_trap _) fun _ _ =>
            bind_ne_error (orOverflow_ne_trap _) fun _ _ => ok_ne_trap _
    · exact bind_ne_error (orOverflow_ne_trap _) fun _ _ => ok_ne_trap _
  · refine bind_ne_error (plain_ne_trap hrem) fun d hd => plain_ne_trap ?_
    rw [plain_ok, plainSub_eq_some] at hd
    have hmul : asI128 d * s.ratePerLedger = s.ratePerLedger *
        ((s.endLedger.toNat : ℤ) - s.lastClaimedLedger.toNat) := by
      unfold asI128
      rw [hd]
      push_cast
      ring
    rw [hmul, checked_of_mem (h.fits h3 h5 le_rfl)]
    rfl
  · unfold claimableAmount
    split_ifs
    · exact ok_ne_trap _
    · exact ok_ne_trap _
    · exact bind_ne_error (dueAmount_ne_trap hdur hel) fun _ _ => ok_ne_trap _

end Safety

/-! ### The stream machine -/

/-- A stream: who may claim it, its schedule until it is fully claimed, what was paid out of it in
all (net amounts and fees), and the ledger of the last call. -/
structure StreamState where
  recipient : Address
  stored : Option VestingSchedule
  paid : ℤ
  now : ℕ

/-- The calls on one stream; `resume_stream` and `pause_stream` are the first definitions. -/
inductive StreamOp
  | claim (feeBps : UInt32)
  | pause (sponsor : Address)
  | resume (sponsor : Address)
  | transferRecipient (newRecipient : Address)
  deriving DecidableEq

/-- A call and the ledger it is made at. -/
structure StreamCall where
  ledger : UInt32
  op : StreamOp
  deriving DecidableEq

/-- The stream after a successful call. -/
def StreamState.exec (c : StreamState) (e : StreamCall) : Except Failure StreamState := do
  let s ← orFail c.stored (.err .scheduleNotFound)
  match e.op with
  | .claim feeBps => do
    let rc ← claimSchedule s e.ledger feeBps
    .ok { c with stored := if rc.finished = true then none else some rc.schedule
                 paid := c.paid + (rc.net + rc.fee), now := e.ledger.toNat }
  | .pause sponsor => do
    let s ← pauseSchedule s sponsor e.ledger
    .ok { c with stored := some s, now := e.ledger.toNat }
  | .resume sponsor => do
    let s ← resumeSchedule s sponsor e.ledger
    .ok { c with stored := some s, now := e.ledger.toNat }
  | .transferRecipient newRecipient =>
    if c.recipient = newRecipient then .error (.err .invalidRecipient)
    else .ok { c with recipient := newRecipient, now := e.ledger.toNat }

/-- One call; a call that fails is rolled back, and only the ledger has moved. -/
def StreamState.step (c : StreamState) (e : StreamCall) : StreamState :=
  match c.exec e with
  | .ok c' => c'
  | .error _ => { c with now := e.ledger.toNat }

/-- The call is a resumption. -/
def StreamOp.isResume : StreamOp → Bool
  | .resume _ => true
  | _ => false

/-- The ledger does not go back, and no addition of a resumption saturates. -/
def StreamCall.Legal (c : StreamState) (e : StreamCall) : Prop :=
  c.now ≤ e.ledger.toNat ∧
    (e.op.isResume = true → ∀ s, c.stored = some s → ResumeFits s e.ledger)

instance (c : StreamState) (e : StreamCall) : Decidable (e.Legal c) := by
  have : Decidable (∀ s, c.stored = some s → ResumeFits s e.ledger) :=
    Option.decidableForallMem c.stored
  unfold StreamCall.Legal
  infer_instance

/-- The stream right after its creation. -/
def StreamState.created (recipient : Address) (s : VestingSchedule) : StreamState :=
  ⟨recipient, some s, 0, s.startLedger.toNat⟩

section Machine

variable {c c' : StreamState} {e : StreamCall}

/-- **What a successful call does**, one case per operation. -/
theorem exec_ok (h : c.exec e = .ok c') : ∃ s, c.stored = some s ∧
    ((∃ feeBps rc, e.op = .claim feeBps ∧ claimSchedule s e.ledger feeBps = .ok rc ∧
        c' = { c with stored := if rc.finished = true then none else some rc.schedule
                      paid := c.paid + (rc.net + rc.fee), now := e.ledger.toNat }) ∨
      (∃ sponsor s', e.op = .pause sponsor ∧ pauseSchedule s sponsor e.ledger = .ok s' ∧
        c' = { c with stored := some s', now := e.ledger.toNat }) ∨
      (∃ sponsor s', e.op = .resume sponsor ∧ resumeSchedule s sponsor e.ledger = .ok s' ∧
        c' = { c with stored := some s', now := e.ledger.toNat }) ∨
      (∃ r, e.op = .transferRecipient r ∧ c.recipient ≠ r ∧
        c' = { c with recipient := r, now := e.ledger.toNat })) := by
  unfold StreamState.exec at h
  obtain ⟨s, hs, h⟩ := except_bind_ok.mp h
  refine ⟨s, orFail_ok.mp hs, ?_⟩
  cases hop : e.op with
  | claim feeBps =>
    rw [hop] at h
    obtain ⟨rc, hrc, h⟩ := except_bind_ok.mp h
    simp only [Except.ok.injEq] at h
    exact Or.inl ⟨feeBps, rc, rfl, hrc, h.symm⟩
  | pause sponsor =>
    rw [hop] at h
    obtain ⟨s', hs', h⟩ := except_bind_ok.mp h
    simp only [Except.ok.injEq] at h
    exact Or.inr (Or.inl ⟨sponsor, s', rfl, hs', h.symm⟩)
  | resume sponsor =>
    rw [hop] at h
    obtain ⟨s', hs', h⟩ := except_bind_ok.mp h
    simp only [Except.ok.injEq] at h
    exact Or.inr (Or.inr (Or.inl ⟨sponsor, s', rfl, hs', h.symm⟩))
  | transferRecipient r =>
    rw [hop] at h
    simp only at h
    split_ifs at h with hr
    simp only [Except.ok.injEq] at h
    exact Or.inr (Or.inr (Or.inr ⟨r, rfl, hr, h.symm⟩))

/-- The schedule that is stored, if any, satisfies the invariant. -/
def StoredInv (c : StreamState) : Prop := ∀ s, c.stored = some s → RepInv s c.now

/-- One call keeps the invariant. -/
theorem storedInv_step (c : StreamState) (e : StreamCall) (h : StoredInv c) (hl : e.Legal c) :
    StoredInv (c.step e) := by
  have hledger := hl.1
  unfold StreamState.step
  cases hx : c.exec e with
  | error f => exact fun s hs => (h s hs).mono hledger
  | ok c' =>
    obtain ⟨s, hs, hcase⟩ := exec_ok hx
    have hinv := h s hs
    intro s' hs'
    rcases hcase with ⟨_, rc, -, hrc, rfl⟩ | ⟨_, s1, -, hp, rfl⟩ | ⟨sp, s1, hop, hr, rfl⟩ |
      ⟨_, -, -, rfl⟩
    · simp only at hs' ⊢
      split_ifs at hs'
      simp only [Option.some.injEq] at hs'
      rw [← hs']
      exact repInv_claim hinv hrc
    · simp only [Option.some.injEq] at hs'
      rw [← hs']
      exact repInv_pause hinv hledger hp
    · simp only [Option.some.injEq] at hs'
      rw [← hs']
      exact repInv_resume hinv hledger (hl.2 (by rw [hop]; rfl) s hs) hr
    · exact (h s' hs').mono hledger

end Machine

/-! ### The machine and the entry points -/

/-- The machine's schedule is the live one at `(recipient, k)`. -/
def StreamState.At (c : StreamState) (st : Storage) (k : UInt32) : Prop :=
  c.stored = scheduleAt st c.recipient k

section Simulation

variable {D : Deployment} {host : Host} {env env' : Env} {c : StreamState} {sponsor : Address}
  {u : Unit}

/-- A paid stream of `claim_vested` is a claim of the machine. -/
theorem exec_of_paid {k : UInt32} {s : VestingSchedule} {rc : ClaimReceipt}
    (hc : c.At env.persistent k) (h : StreamPaid D host c.recipient k env env' s rc) :
    ∃ c', c.exec ⟨host.sequence, .claim (getFee env.inst).1⟩ = .ok c' ∧ c'.At env'.persistent k := by
  have hs : c.stored = some s := hc.trans h.live
  refine ⟨_, except_bind_ok.mpr ⟨s, orFail_ok.mpr hs, except_bind_ok.mpr ⟨rc, h.receipt, rfl⟩⟩, ?_⟩
  unfold StreamState.At
  rw [h.persistent]
  unfold afterClaim
  split_ifs
  · rw [scheduleAt_removeScheduleById, if_pos ⟨rfl, rfl⟩]
  · rw [scheduleAt_setScheduleById, if_pos ⟨rfl, rfl⟩]

/-- Pausing and resuming write the new schedule under id `0`. -/
theorem scheduleAt_rewritten {r : Address} {s s' : VestingSchedule} (h : Rewritten r env env' s s') :
    scheduleAt env'.persistent r 0 = some s' := by
  rw [h.persistent, setSchedule, scheduleAt_setScheduleById, if_pos ⟨rfl, rfl⟩]

/-- A successful `pause_stream` is a pause of the machine. -/
theorem exec_of_pauseStream (hc : c.stored = (getSchedule env.persistent c.recipient).1)
    (h : pauseStream D host sponsor c.recipient env = .ok (u, env')) :
    ∃ c', c.exec ⟨host.sequence, .pause sponsor⟩ = .ok c' ∧ c'.At env'.persistent 0 := by
  obtain ⟨s, s', hp, hw⟩ := pauseStreamWith_ok h
  have hs : c.stored = some s := hc.trans hw.found
  exact ⟨_, except_bind_ok.mpr ⟨s, orFail_ok.mpr hs, except_bind_ok.mpr ⟨s', hp, rfl⟩⟩,
    (scheduleAt_rewritten hw).symm⟩

/-- A successful `resume_stream` is a resumption of the machine. -/
theorem exec_of_resumeStream (hc : c.stored = (getSchedule env.persistent c.recipient).1)
    (h : resumeStream D host sponsor c.recipient env = .ok (u, env')) :
    ∃ c', c.exec ⟨host.sequence, .resume sponsor⟩ = .ok c' ∧ c'.At env'.persistent 0 := by
  obtain ⟨s, s', hp, hw⟩ := resumeStreamWith_ok h
  have hs : c.stored = some s := hc.trans hw.found
  exact ⟨_, except_bind_ok.mpr ⟨s, orFail_ok.mpr hs, except_bind_ok.mpr ⟨s', hp, rfl⟩⟩,
    (scheduleAt_rewritten hw).symm⟩

/-- A successful `transfer_recipient` is a transfer of the machine. -/
theorem exec_of_transferRecipient {r' : Address}
    (hc : c.stored = (getSchedule env.persistent c.recipient).1)
    (h : transferRecipient D host c.recipient r' env = .ok (u, env')) :
    ∃ c', c.exec ⟨host.sequence, .transferRecipient r'⟩ = .ok c' ∧ c'.At env'.persistent 0 := by
  obtain ⟨s, ht⟩ := transferRecipient_ok h
  have hs : c.stored = some s := hc.trans ht.found
  refine ⟨_, except_bind_ok.mpr ⟨s, orFail_ok.mpr hs, if_neg ht.ne⟩, ?_⟩
  unfold StreamState.At
  rw [ht.persistent, scheduleAt_addSponsorStream, scheduleAt_removeSponsorStream, setSchedule,
    scheduleAt_setScheduleById, if_pos ⟨rfl, rfl⟩]
  exact hs

end Simulation

/-! ### From the creation on -/

theorem storedInv_created {D : Deployment} {host : Host} {a : CreateArgs} {env env' : Env}
    {id : UInt32} {c : CreationReceipt} (h : Created D host a env id env' c) :
    StoredInv (StreamState.created a.recipient (c.schedule host a)) := by
  intro s hs
  simp only [StreamState.created, Option.some.injEq] at hs
  rw [← hs]
  exact repInv_created h

/-- **The representation invariant along every run.** Whatever claims, pauses, resumptions and
transfers follow a creation, at ledgers that do not go back and without saturation, the stored
schedule satisfies the invariant, its counter is within the total, and no subtraction of ledgers
underflows at any later ledger. -/
theorem repInv_of_created {D : Deployment} {host : Host} {a : CreateArgs} {env env' : Env}
    {id : UInt32} (h : createVestingStream D host a env = .ok (id, env')) :
    ∃ s0, scheduleAt env'.persistent a.recipient 0 = some s0 ∧
      ∀ calls, AllSteps StreamState.step (fun c e => e.Legal c)
          (StreamState.created a.recipient s0) calls →
        AllStates StreamState.step (fun c => ∀ s, c.stored = some s →
            RepInv s c.now ∧ s.claimedAmount ≤ s.total ∧
            ∀ current : UInt32, c.now ≤ current.toNat → NoUnderflow s current)
          (StreamState.created a.recipient s0) calls := by
  obtain ⟨r, hr⟩ := createVestingStream_ok h
  refine ⟨_, scheduleAt_created hr, fun calls hcalls => ?_⟩
  have hstates := allStates_of_inv storedInv_step (storedInv_created hr) hcalls
  refine hstates.imp fun c hc s hs => ?_
  have hinv := hc s hs
  exact ⟨hinv, hinv.claimed_le_total, fun current hcur => hinv.noUnderflow hcur⟩

theorem repInv_sampleStream : RepInv sampleStream 100 where
  rate_pos := by decide
  start_lt_cliff := by decide
  cliff_lt_end := by decide
  start_le_last := by decide
  last_le_end := by decide
  last_le_now := by decide
  last_le_paused := by rintro p ⟨⟩
  paused_le_now := by rintro p ⟨⟩
  counters := rfl
  claimed := by decide
  version_pos := by decide
  total_fits := by decide

/-- The sample stream: claimed, paused before a second claim, resumed, transferred and claimed to
the end. -/
def sampleCalls : List StreamCall :=
  [⟨160, .claim 0⟩, ⟨170, .pause ⟨1⟩⟩, ⟨175, .claim 0⟩, ⟨190, .resume ⟨1⟩⟩,
    ⟨190, .transferRecipient ⟨4⟩⟩, ⟨400, .claim 250⟩]

theorem sampleCalls_legal : AllSteps StreamState.step (fun c e => e.Legal c)
    (StreamState.created ⟨2⟩ sampleStream) sampleCalls := by
  decide +kernel

theorem repInv_of_created_sample :
    ∃ id env', createVestingStream sampleDeployment (sampleHost 100) sampleArgs sampleEnv =
        .ok (id, env') ∧ scheduleAt env'.persistent ⟨2⟩ 0 = some sampleStream ∧
      AllStates StreamState.step (fun c => ∀ s, c.stored = some s →
          RepInv s c.now ∧ s.claimedAmount ≤ s.total ∧
          ∀ current : UInt32, c.now ≤ current.toNat → NoUnderflow s current)
        (StreamState.created ⟨2⟩ sampleStream) sampleCalls := by
  obtain ⟨⟨id, env'⟩, h⟩ := exists_ok_of_isOk sampleCreation_isOk
  obtain ⟨s0, hs0, hrun⟩ := repInv_of_created h
  obtain rfl := eq_sampleStream h hs0
  exact ⟨id, env', h, hs0, hrun sampleCalls sampleCalls_legal⟩

end VestingDripStream.Contract.Stream
