import VestingDripStream.Contract.Stream
import VestingDripStream.Lib.Gate

/-! # Claims are path independent

Two runs of one stream with the same pauses, resumptions and transfers, but with different claims in
between, have paid the same once both have claimed at the same ledger.

What a claim leaves alone is the *frame* of a schedule. Along a run the frame is a function of the
calls other than claims (`controls`), and the paid amount is the counter of the schedule. The clock
of the stream is a gate (`Lib.Gate`): while the stream is active its start lies as many ledgers back
as the gate has been open, and while it is paused the clock stands still (`Tracked.gate`). -/

namespace VestingDripStream.Contract.PathIndependence

open VestingDripStream.Lib.Checked VestingDripStream.Lib.Transaction VestingDripStream.Lib.Run
open VestingDripStream.Lib.Gate
open VestingDripStream.Contract.Types VestingDripStream.Contract.Storage
open VestingDripStream.Contract.Schedule VestingDripStream.Contract.EntryPoints
open VestingDripStream.Contract.Effects VestingDripStream.Contract.Stream

/-! ### The two runs -/

/-- The call is a claim. -/
def isClaim (e : StreamCall) : Bool :=
  match e.op with
  | .claim _ => true
  | _ => false

/-- The calls of a run other than claims, with their ledgers. -/
def controls (calls : List StreamCall) : List StreamCall := calls.filter fun e => !isClaim e

/-- What a call does to the clock of the stream. -/
def gateEvent (e : StreamCall) : Option (ℕ × Bool) :=
  match e.op with
  | .pause _ => some (e.ledger.toNat, false)
  | .resume _ => some (e.ledger.toNat, true)
  | _ => none

/-- The number of ledgers of `[first, last)` at which a run does not have its stream paused. -/
def unpausedLedgers (calls : List StreamCall) (first last : ℕ) : ℕ :=
  openCount (calls.filterMap gateEvent) first last

/-- A run whose calls other than claims take effect; claims may fail. -/
def Runs (c0 : StreamState) (calls : List StreamCall) : Prop :=
  AllSteps StreamState.step
    (fun c e => e.Legal c ∧ (isClaim e = false → (c.exec e).isOk = true)) c0 calls

/-- A run that ends with a successful claim at ledger `last` and leaves `c`. -/
structure EndsWithClaim (c0 : StreamState) (calls : List StreamCall) (last feeBps : UInt32)
    (c : StreamState) : Prop where
  runs : Runs c0 calls
  ledger : (run StreamState.step c0 calls).now ≤ last.toNat
  claim : (run StreamState.step c0 calls).exec ⟨last, .claim feeBps⟩ = .ok c

/-- A schedule without its version. -/
def forgetVersion (s : VestingSchedule) : VestingSchedule := { s with version := 0 }

/-! ### The frame of a schedule -/

/-- What a claim leaves alone. -/
def frame (s : VestingSchedule) : VestingSchedule :=
  { s with lastClaimedLedger := 0, totalClaimed := 0, claimedAmount := 0, version := 0 }

/-- What a call does to the frame. -/
def control (f : VestingSchedule) (e : StreamCall) : VestingSchedule :=
  match e.op, f.pausedAtLedger with
  | .pause _, _ => { f with pausedAtLedger := some e.ledger }
  | .resume _, some p =>
    { f with
      accumulatedPauseLedgers := saturatingAdd f.accumulatedPauseLedgers (saturatingSub e.ledger p)
      startLedger := saturatingAdd f.startLedger (saturatingSub e.ledger p)
      cliffLedger := saturatingAdd f.cliffLedger (saturatingSub e.ledger p)
      endLedger := saturatingAdd f.endLedger (saturatingSub e.ledger p)
      pausedAtLedger := none }
  | _, _ => f

section Frame

variable {s s' : VestingSchedule} {current feeBps : UInt32} {sponsor : Address} {e : StreamCall}

theorem frame_claim {rc : ClaimReceipt} (h : claimSchedule s current feeBps = .ok rc) :
    frame rc.schedule = frame s := by
  obtain ⟨-, -, -, -, -, -, -, heq, -⟩ := claimSchedule_ok h
  unfold frame
  rw [heq]

theorem frame_pause (hop : e.op = .pause sponsor)
    (h : pauseSchedule s sponsor e.ledger = .ok s') : frame s' = control (frame s) e := by
  obtain ⟨-, -, -, heq⟩ := pauseSchedule_ok h
  unfold control
  rw [hop, heq]
  rfl

theorem frame_resume (hop : e.op = .resume sponsor)
    (h : resumeSchedule s sponsor e.ledger = .ok s') : frame s' = control (frame s) e := by
  obtain ⟨p, hp, -, -, heq⟩ := resumeSchedule_eq h
  have hp' : (frame s).pausedAtLedger = some p := hp
  unfold control
  rw [hop, hp', heq]
  rfl

end Frame

/-! ### The run so far, read off the schedule -/

/-- The schedule `s` stored in `c`, after `calls` on a stream created with `s0`. -/
structure Tracked (s0 : VestingSchedule) (calls : List StreamCall) (c : StreamState)
    (s : VestingSchedule) : Prop where
  inv : RepInv s c.now
  created : s0.startLedger.toNat ≤ c.now
  paid : c.paid = s.claimedAmount
  rate : s.ratePerLedger = s0.ratePerLedger
  span : s.endLedger.toNat - s.startLedger.toNat = s0.endLedger.toNat - s0.startLedger.toNat
  frame : frame s = (controls calls).foldl control (frame s0)
  gate : ∀ last, c.now ≤ last → unpausedLedgers calls s0.startLedger.toNat last =
    s.pausedAtLedger.elim last UInt32.toNat - s.startLedger.toNat

section Tracking

variable {s0 s s' : VestingSchedule} {calls : List StreamCall} {c : StreamState} {e : StreamCall}

theorem controls_append (calls : List StreamCall) (e : StreamCall) :
    controls (calls ++ [e]) = if isClaim e = true then controls calls else controls calls ++ [e] := by
  unfold controls
  rw [List.filter_append]
  cases h : isClaim e <;> simp [h]

theorem gateEvent_of_isClaim (h : isClaim e = true) : gateEvent e = none := by
  unfold isClaim at h
  unfold gateEvent
  split at h
  · next hop => rw [hop]
  · cases h

theorem control_of_isClaim (h : isClaim e = true) (f : VestingSchedule) : control f e = f := by
  unfold isClaim at h
  unfold control
  split at h
  · next hop => rw [hop]
  · cases h

/-- Claims do not touch the clock. -/
theorem unpausedLedgers_controls (calls : List StreamCall) (a b : ℕ) :
    unpausedLedgers (controls calls) a b = unpausedLedgers calls a b := by
  have hmap : (controls calls).filterMap gateEvent = calls.filterMap gateEvent := by
    unfold controls
    induction calls with
    | nil => rfl
    | cons e rest ih =>
      cases hcl : isClaim e with
      | false => rw [List.filter_cons_of_pos (by simp [hcl]), List.filterMap_cons,
          List.filterMap_cons, ih]
      | true =>
        rw [List.filter_cons_of_neg (by simp [hcl]),
          List.filterMap_cons_none (gateEvent_of_isClaim hcl), ih]
  unfold unpausedLedgers
  rw [hmap]

theorem unpausedLedgers_append_none (h : gateEvent e = none) (a b : ℕ) :
    unpausedLedgers (calls ++ [e]) a b = unpausedLedgers calls a b := by
  unfold unpausedLedgers
  rw [List.filterMap_append]
  simp [h]

theorem unpausedLedgers_append_some {t : ℕ} {g : Bool} (h : gateEvent e = some (t, g)) {a b : ℕ}
    (ha : a ≤ t) (hb : t ≤ b) :
    unpausedLedgers (calls ++ [e]) a b =
      unpausedLedgers calls a t + if g = true then b - t else 0 := by
  unfold unpausedLedgers
  rw [List.filterMap_append, List.filterMap_cons_some h, List.filterMap_nil]
  exact openCount_append ha hb

/-- The calls that leave the schedule and the clock alone. -/
theorem Tracked.same (h : Tracked s0 calls c s) {c' : StreamState}
    (hnow : c.now ≤ c'.now) (hpaid : c'.paid = c.paid) (hgate : gateEvent e = none)
    (hctl : control (PathIndependence.frame s) e = PathIndependence.frame s) :
    Tracked s0 (calls ++ [e]) c' s where
  inv := h.inv.mono hnow
  created := h.created.trans hnow
  paid := hpaid.trans h.paid
  rate := h.rate
  span := h.span
  frame := by
    rw [controls_append]
    split_ifs
    · exact h.frame
    · rw [List.foldl_append, ← h.frame]
      exact hctl.symm
  gate last hlast := by
    rw [unpausedLedgers_append_none hgate]
    exact h.gate last (hnow.trans hlast)

theorem Tracked.claim (h : Tracked s0 calls c s) {feeBps : UInt32} {rc : ClaimReceipt}
    (hop : e.op = .claim feeBps) (hnow : c.now ≤ e.ledger.toNat)
    (hrc : claimSchedule s e.ledger feeBps = .ok rc) {c' : StreamState}
    (hc' : c'.paid = c.paid + (rc.net + rc.fee)) (hnow' : c'.now = e.ledger.toNat) :
    Tracked s0 (calls ++ [e]) c' rc.schedule := by
  obtain ⟨hact, -, -, hsum, -, -, -, heq, -⟩ := claimSchedule_ok hrc
  have hstart : rc.schedule.startLedger = s.startLedger := by rw [heq]
  have hend : rc.schedule.endLedger = s.endLedger := by rw [heq]
  have hpaused : rc.schedule.pausedAtLedger = none := by rw [heq]; exact hact
  have hclaimed : rc.schedule.claimedAmount = s.claimedAmount + rc.gross := by rw [heq]
  have hpaid := h.paid
  have hcreated := h.created
  exact
    { inv := by rw [hnow']; exact repInv_claim h.inv hrc
      created := by omega
      paid := by omega
      rate := by rw [heq]; exact h.rate
      span := by rw [hstart, hend]; exact h.span
      frame := by
        have hcl : isClaim e = true := by unfold isClaim; rw [hop]
        rw [controls_append, if_pos hcl, frame_claim hrc]
        exact h.frame
      gate := by
        intro last hlast
        rw [unpausedLedgers_append_none (by unfold gateEvent; rw [hop]), h.gate last (by omega),
          hpaused, hstart, hact] }

theorem Tracked.pause (h : Tracked s0 calls c s) {sponsor : Address}
    (hop : e.op = .pause sponsor) (hnow : c.now ≤ e.ledger.toNat)
    (hs' : pauseSchedule s sponsor e.ledger = .ok s') {c' : StreamState}
    (hc' : c'.paid = c.paid) (hnow' : c'.now = e.ledger.toNat) :
    Tracked s0 (calls ++ [e]) c' s' := by
  obtain ⟨-, hact, -, heq⟩ := pauseSchedule_ok hs'
  have hstart : s'.startLedger = s.startLedger := by rw [heq]
  have hend : s'.endLedger = s.endLedger := by rw [heq]
  have hpaused : s'.pausedAtLedger = some e.ledger := by rw [heq]
  have hcreated := h.created
  exact
    { inv := by rw [hnow']; exact repInv_pause h.inv hnow hs'
      created := by omega
      paid := by rw [hc', h.paid, heq]
      rate := by rw [heq]; exact h.rate
      span := by rw [hstart, hend]; exact h.span
      frame := by
        have hcl : ¬ isClaim e = true := by unfold isClaim; rw [hop]; simp
        rw [controls_append, if_neg hcl, List.foldl_append, ← h.frame]
        exact frame_pause hop hs'
      gate := by
        intro last hlast
        have hev : gateEvent e = some (e.ledger.toNat, false) := by unfold gateEvent; rw [hop]
        rw [unpausedLedgers_append_some hev (by omega) (by omega), h.gate _ hnow, hpaused, hstart,
          hact]
        simp }

/-- The clock starts again where it stood. -/
theorem Tracked.resume (h : Tracked s0 calls c s) {sponsor : Address}
    (hop : e.op = .resume sponsor) (hnow : c.now ≤ e.ledger.toNat)
    (hfit : ResumeFits s e.ledger) (hs' : resumeSchedule s sponsor e.ledger = .ok s')
    {c' : StreamState} (hc' : c'.paid = c.paid) (hnow' : c'.now = e.ledger.toNat) :
    Tracked s0 (calls ++ [e]) c' s' := by
  obtain ⟨p, hp, hnone, -, e1, -, e3, -, hrate, -, hca⟩ := resumeSchedule_ok hs' hfit
  have hpn := h.inv.paused_le_now p hp
  have hlp := h.inv.last_le_paused p hp
  have hsl := h.inv.start_le_last
  have hspan := h.span
  have hcreated := h.created
  exact
    { inv := by rw [hnow']; exact repInv_resume h.inv hnow hfit hs'
      created := by omega
      paid := by rw [hc', h.paid, hca]
      rate := hrate.trans h.rate
      span := by omega
      frame := by
        have hcl : ¬ isClaim e = true := by unfold isClaim; rw [hop]; simp
        rw [controls_append, if_neg hcl, List.foldl_append, ← h.frame]
        exact frame_resume hop hs'
      gate := by
        intro last hlast
        have hev : gateEvent e = some (e.ledger.toNat, true) := by unfold gateEvent; rw [hop]
        rw [unpausedLedgers_append_some hev (by omega) (by omega), h.gate _ hnow, hp, hnone]
        simp only [Option.elim_some, Option.elim_none, if_true]
        omega }

/-- One call of a run keeps track. -/
theorem tracked_step (h : ∀ s, c.stored = some s → Tracked s0 calls c s) (hl : e.Legal c)
    (hctl : isClaim e = false → (c.exec e).isOk = true) (hs : (c.step e).stored = some s) :
    Tracked s0 (calls ++ [e]) (c.step e) s := by
  have hnow := hl.1
  unfold StreamState.step at hs ⊢
  cases hx : c.exec e with
  | error f =>
    -- only a claim may fail, and it leaves the stream as it was
    rw [hx] at hs
    have hcl : isClaim e = true := by
      by_contra hne
      have hok := hctl (by simpa using hne)
      rw [hx] at hok
      cases hok
    exact (h s hs).same hnow rfl (gateEvent_of_isClaim hcl) (control_of_isClaim hcl _)
  | ok c' =>
    rw [hx] at hs
    obtain ⟨s1, hs1, hcase⟩ := exec_ok hx
    have h1 := h s1 hs1
    rcases hcase with ⟨_, rc, hop, hrc, rfl⟩ | ⟨_, s2, hop, hp, rfl⟩ | ⟨_, s2, hop, hr, rfl⟩ |
      ⟨_, hop, -, rfl⟩
    · simp only at hs
      split_ifs at hs
      simp only [Option.some.injEq] at hs
      rw [← hs]
      exact h1.claim hop hnow hrc rfl rfl
    · simp only [Option.some.injEq] at hs
      rw [← hs]
      exact h1.pause hop hnow hp rfl rfl
    · simp only [Option.some.injEq] at hs
      rw [← hs]
      exact h1.resume hop hnow (hl.2 (by rw [hop]; rfl) s1 hs1) hr rfl rfl
    · have heq : s1 = s := by
        rw [hs1] at hs
        exact Option.some.inj hs
      subst heq
      exact h1.same hnow rfl (by unfold gateEvent; rw [hop]) (by unfold control; rw [hop])

/-- **A whole run keeps track.** -/
theorem tracked_run {c0 : StreamState} (h0 : ∀ s, c0.stored = some s → Tracked s0 [] c0 s)
    (hruns : Runs c0 calls) : ∀ s, (run StreamState.step c0 calls).stored = some s →
      Tracked s0 calls (run StreamState.step c0 calls) s := by
  induction calls using List.reverseRecOn with
  | nil => exact h0
  | append_singleton calls e ih =>
    unfold Runs at hruns
    rw [allSteps_append] at hruns
    obtain ⟨hbefore, ⟨hl, hctl⟩, -⟩ := hruns
    intro s hs
    rw [run_append] at hs ⊢
    exact tracked_step (ih hbefore) hl hctl hs

/-! ### The claim at the end -/

/-- The schedule a claim at `last` leaves, by its frame. -/
def settled (f : VestingSchedule) (last : UInt32) : VestingSchedule :=
  { f with
    lastClaimedLedger := min last f.endLedger
    totalClaimed :=
      f.ratePerLedger * (((min last f.endLedger).toNat : ℤ) - f.startLedger.toNat)
    claimedAmount :=
      f.ratePerLedger * (((min last f.endLedger).toNat : ℤ) - f.startLedger.toNat)
    version := 0 }

variable {last feeBps : UInt32} {rc : ClaimReceipt}

/-- After a claim the counters are a function of the ledgers. -/
theorem forgetVersion_claim (h : RepInv s c.now) (hrc : claimSchedule s last feeBps = .ok rc) :
    forgetVersion rc.schedule = settled (frame s) last := by
  have hinv := repInv_claim h hrc
  have hclaimed := hinv.claimed
  have hcounters := hinv.counters
  obtain ⟨-, -, -, -, -, -, -, heq, -⟩ := claimSchedule_ok hrc
  have e1 : rc.schedule.lastClaimedLedger = min last s.endLedger := by rw [heq]
  have e2 : rc.schedule.startLedger = s.startLedger := by rw [heq]
  have e3 : rc.schedule.ratePerLedger = s.ratePerLedger := by rw [heq]
  have hca : rc.schedule.claimedAmount = (settled (frame s) last).claimedAmount := by
    rw [hclaimed, e1, e2, e3]
    rfl
  have htc : rc.schedule.totalClaimed = (settled (frame s) last).totalClaimed := by
    rw [hcounters]
    exact hca
  have hrest : forgetVersion rc.schedule = { settled (frame s) last with
      totalClaimed := rc.schedule.totalClaimed, claimedAmount := rc.schedule.claimedAmount } := by
    rw [heq]
    rfl
  rw [hrest, hca, htc]

/-- **What the claim at the end has paid in all**: the rate times the unpaused ledgers, capped. -/
theorem Tracked.total_paid (h : Tracked s0 calls c s) (hnow : c.now ≤ last.toNat)
    (hrc : claimSchedule s last feeBps = .ok rc) :
    c.paid + (rc.net + rc.fee) = s0.ratePerLedger *
      (min (unpausedLedgers calls s0.startLedger.toNat last.toNat)
        (s0.endLedger.toNat - s0.startLedger.toNat) : ℕ) := by
  obtain ⟨hact, hcl, -, hsum, -⟩ := claimSchedule_ok hrc
  have hgross := h.inv.gross_eq hrc
  have hgate := h.gate last.toNat hnow
  rw [hact, Option.elim_none] at hgate
  have h1 := h.inv.start_lt_cliff
  have h2 := h.inv.cliff_lt_end
  have hspan := h.span
  have hmin : ((min (unpausedLedgers calls s0.startLedger.toNat last.toNat)
      (s0.endLedger.toNat - s0.startLedger.toNat) : ℕ) : ℤ) =
      (min last.toNat s.endLedger.toNat : ℕ) - (s.startLedger.toNat : ℤ) := by
    rw [hgate, ← hspan]
    omega
  have hsum' : rc.net + rc.fee = rc.gross := by omega
  rw [hmin, hsum', hgross, h.paid, h.inv.claimed, h.rate]
  ring

/-- The end of a run: what is paid, what is stored, and when the stream is over. -/
theorem EndsWithClaim.spec {c0 c' : StreamState}
    (h0 : ∀ s, c0.stored = some s → Tracked s0 [] c0 s)
    (h : EndsWithClaim c0 calls last feeBps c') :
    ∃ s, (run StreamState.step c0 calls).stored = some s ∧
      Tracked s0 calls (run StreamState.step c0 calls) s ∧ s.pausedAtLedger = none ∧
      c'.paid = s0.ratePerLedger *
        (min (unpausedLedgers calls s0.startLedger.toNat last.toNat)
          (s0.endLedger.toNat - s0.startLedger.toNat) : ℕ) ∧
      c'.stored.map forgetVersion =
        if s.endLedger.toNat ≤ last.toNat then none else some (settled (frame s) last) := by
  obtain ⟨s, hs, hcase⟩ := exec_ok h.claim
  have ht := tracked_run h0 h.runs s hs
  refine ⟨s, hs, ht, ?_⟩
  rcases hcase with ⟨_, rc, hop, hrc, rfl⟩ | ⟨_, _, hop, -, -⟩ | ⟨_, _, hop, -, -⟩ | ⟨_, hop, -, -⟩
  · refine ⟨(claimSchedule_ok hrc).1, ht.total_paid h.ledger hrc, ?_⟩
    have hfin := ht.inv.finished_iff hrc
    by_cases hend : s.endLedger.toNat ≤ last.toNat
    · show Option.map forgetVersion (if rc.finished = true then none else some rc.schedule) = _
      rw [if_pos hend, if_pos (hfin.mpr hend), Option.map_none]
    · rw [if_neg hend]
      show Option.map forgetVersion (if rc.finished = true then none else some rc.schedule) = _
      rw [if_neg (mt hfin.mp hend), Option.map_some, forgetVersion_claim ht.inv hrc]
  · cases hop
  · cases hop
  · cases hop

end Tracking

/-- At its creation nothing is paid and every ledger counts. -/
theorem tracked_created {D : Deployment} {host : Host} {a : CreateArgs} {env env' : Env}
    {id : UInt32} {r : CreationReceipt} (h : Created D host a env id env' r) :
    ∀ s, (StreamState.created a.recipient (r.schedule host a)).stored = some s →
      Tracked (r.schedule host a) [] (StreamState.created a.recipient (r.schedule host a)) s := by
  intro s hs
  simp only [StreamState.created, Option.some.injEq] at hs
  subst hs
  exact
    { inv := repInv_created h
      created := le_rfl
      paid := rfl
      rate := rfl
      span := rfl
      frame := rfl
      gate := fun last _ => openCount_nil _ last }

/-- **Claims are path independent.** Two runs of a created stream with the same pauses, resumptions
and transfers at the same ledgers, and any claims in between, that both end with a successful claim
at ledger `last`, have paid the same: the rate times the unpaused ledgers since the creation, capped
at the duration. They leave the same schedule up to its version. From the end of the stream on the
claim completes the total and removes the schedule. -/
theorem claims_pathIndependent {D : Deployment} {host : Host} {a : CreateArgs} {env env' : Env}
    {id : UInt32} (h : createVestingStream D host a env = .ok (id, env')) :
    ∃ s0, scheduleAt env'.persistent a.recipient 0 = some s0 ∧
      ∀ calls1 calls2 last feeBps1 feeBps2 c1 c2, controls calls1 = controls calls2 →
        EndsWithClaim (StreamState.created a.recipient s0) calls1 last feeBps1 c1 →
        EndsWithClaim (StreamState.created a.recipient s0) calls2 last feeBps2 c2 →
        c1.paid = c2.paid ∧
        c1.paid = a.rate * (min (unpausedLedgers calls1 host.sequence.toNat last.toNat)
          a.totalDuration.toNat : ℕ) ∧
        c1.stored.map forgetVersion = c2.stored.map forgetVersion ∧
        ∀ s, (run StreamState.step (StreamState.created a.recipient s0) calls1).stored = some s →
          s.endLedger ≤ last → c1.paid = a.rate * a.totalDuration.toNat ∧ c1.stored = none := by
  obtain ⟨r, hr⟩ := createVestingStream_ok h
  refine ⟨_, scheduleAt_created hr, ?_⟩
  intro calls1 calls2 last feeBps1 feeBps2 c1 c2 hctl h1 h2
  obtain ⟨s1, hs1, ht1, hact, hpaid1, hst1⟩ := h1.spec (tracked_created hr)
  obtain ⟨s2, -, ht2, -, hpaid2, hst2⟩ := h2.spec (tracked_created hr)
  have hdur : r.endLedger.toNat - host.sequence.toNat = a.totalDuration.toNat := by
    have := hr.endLedger
    omega
  have hpaid1 : c1.paid = a.rate * (min (unpausedLedgers calls1 host.sequence.toNat last.toNat)
      a.totalDuration.toNat : ℕ) := by
    rw [← hdur]
    exact hpaid1
  have hpaid2 : c2.paid = a.rate * (min (unpausedLedgers calls2 host.sequence.toNat last.toNat)
      a.totalDuration.toNat : ℕ) := by
    rw [← hdur]
    exact hpaid2
  -- the frame and the clock depend on the calls other than claims alone
  have hframe : frame s1 = frame s2 := by rw [ht1.frame, ht2.frame, hctl]
  have hend : s1.endLedger = s2.endLedger := by
    have : (frame s1).endLedger = (frame s2).endLedger := by rw [hframe]
    exact this
  have hgate : unpausedLedgers calls1 host.sequence.toNat last.toNat =
      unpausedLedgers calls2 host.sequence.toNat last.toNat := by
    rw [← unpausedLedgers_controls calls1, ← unpausedLedgers_controls calls2, hctl]
  refine ⟨by rw [hpaid1, hpaid2, hgate], hpaid1, by rw [hst1, hst2, hend, hframe], ?_⟩
  intro s hs hle
  rw [hs1, Option.some.injEq] at hs
  subst hs
  have hle' := UInt32.le_iff_toNat_le.mp hle
  rw [if_pos hle'] at hst1
  refine ⟨?_, Option.map_eq_none_iff.mp hst1⟩
  have hg := ht1.gate last.toNat h1.ledger
  rw [hact, Option.elim_none] at hg
  have hspan := ht1.span
  rw [hpaid1]
  congr 2
  have e1 : (r.schedule host a).startLedger = host.sequence := rfl
  have e2 : (r.schedule host a).endLedger = r.endLedger := rfl
  rw [e1] at hg
  rw [e1, e2] at hspan
  omega

instance (c0 : StreamState) (calls : List StreamCall) : Decidable (Runs c0 calls) := by
  unfold Runs; infer_instance

/-- The sample stream, with a pause of 20 ledgers: claimed twice before the end, the second time in
vain. -/
def sampleOften : List StreamCall :=
  [⟨160, .claim 0⟩, ⟨170, .pause ⟨1⟩⟩, ⟨175, .claim 0⟩, ⟨190, .resume ⟨1⟩⟩]

/-- The same pause without the claims. -/
def sampleOnce : List StreamCall := [⟨170, .pause ⟨1⟩⟩, ⟨190, .resume ⟨1⟩⟩]

theorem claims_pathIndependent_sample :
    ∃ id env' c1 c2,
      createVestingStream sampleDeployment (sampleHost 100) sampleArgs sampleEnv = .ok (id, env') ∧
      EndsWithClaim (StreamState.created ⟨2⟩ sampleStream) sampleOften 260 0 c1 ∧
      EndsWithClaim (StreamState.created ⟨2⟩ sampleStream) sampleOnce 260 250 c2 ∧
      c1.paid = c2.paid ∧
      c1.paid = 10000000 * (min (unpausedLedgers sampleOften 100 260) 200 : ℕ) := by
  obtain ⟨⟨id, env'⟩, h⟩ := exists_ok_of_isOk sampleCreation_isOk
  obtain ⟨c1, h1⟩ := exists_ok_of_isOk (x := (run StreamState.step
    (StreamState.created ⟨2⟩ sampleStream) sampleOften).exec ⟨260, .claim 0⟩) (by decide +kernel)
  obtain ⟨c2, h2⟩ := exists_ok_of_isOk (x := (run StreamState.step
    (StreamState.created ⟨2⟩ sampleStream) sampleOnce).exec ⟨260, .claim 250⟩) (by decide +kernel)
  have e1 : EndsWithClaim (StreamState.created ⟨2⟩ sampleStream) sampleOften 260 0 c1 :=
    ⟨by decide +kernel, by decide +kernel, h1⟩
  have e2 : EndsWithClaim (StreamState.created ⟨2⟩ sampleStream) sampleOnce 260 250 c2 :=
    ⟨by decide +kernel, by decide +kernel, h2⟩
  obtain ⟨s0, hs0, hpath⟩ := claims_pathIndependent h
  obtain rfl := eq_sampleStream h hs0
  obtain ⟨hsame, htotal, -, -⟩ :=
    hpath sampleOften sampleOnce 260 0 250 c1 c2 (by decide +kernel) e1 e2
  exact ⟨id, env', c1, c2, h, e1, e2, hsame, htotal⟩

end VestingDripStream.Contract.PathIndependence
