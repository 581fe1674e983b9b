import VestingDripStream.Contract.VariableAccrual

/-! # The shape of a variable-rate stream

`create_variable_rate_stream` takes the cliff from one argument and the end of the stream from its
last segment, and does not compare them. Everything else about the shape of a stored schedule is
checked or follows from the loop over the segments, and no claim changes it. So in every state of a
run of claims a schedule has its shape exactly if the cliff lies before the end and the stream lasts
for more than one ledger (`shaped_iff`). -/

namespace VestingDripStream.Contract.VariableShape

open VestingDripStream.Lib.Checked VestingDripStream.Lib.Transaction VestingDripStream.Lib.Run
open VestingDripStream.Lib.Piecewise
open VestingDripStream.Contract.Types VestingDripStream.Contract.Storage
open VestingDripStream.Contract.Schedule VestingDripStream.Contract.EntryPoints
open VestingDripStream.Contract.Effects VestingDripStream.Contract.VariableRate
open VestingDripStream.Contract.VariableAccrual

/-- Some part of the stream can be claimed before it ends: at a ledger after the cliff and before
the end, something has accrued. -/
def PartBeforeEnd (v : VariableRateSchedule) : Prop :=
  ∃ ledger amount, v.cliffLedger ≤ ledger ∧ ledger < v.endLedger ∧
    computeVariableClaimable v.startLedger ledger v.segments 0 v.startLedger = .ok amount ∧
    0 < amount

/-- The shape of a variable-rate schedule. -/
structure Shaped (v : VariableRateSchedule) : Prop where
  start_le_cliff : v.startLedger ≤ v.cliffLedger
  cliff_lt_end : v.cliffLedger < v.endLedger
  ascending : Ascending v.startLedger.toNat (pieces v.segments)
  last : v.segments.getLast?.map (·.endLedger) = some v.endLedger
  start_le_claimed : v.startLedger ≤ v.lastClaimedLedger
  claimed_le_end : v.lastClaimedLedger ≤ v.endLedger
  deposited : v.totalDeposited = whole v.startLedger.toNat (pieces v.segments)
  partBeforeEnd : PartBeforeEnd v

/-- What is stored for `r` has its shape. -/
def KeepsShape (r : Address) (w : Claims) : Prop :=
  ∀ v, getVariableSchedule w.env.persistent r = some v → Shaped v

/-! ### What creation and claims fix -/

/-- The segments are stored as they are given. -/
theorem addSegments_last : ∀ {l : List (UInt32 × ℤ)} {start fin : UInt32} {acc total : ℤ}
    {segs : List RateSegment}, addSegments l start acc = .ok (segs, fin, total) →
      segs.getLast?.map (·.endLedger) = l.getLast?.map Prod.fst ∧
        (l.getLast?.map Prod.fst).getD start = fin
  | [], start, fin, acc, total, segs, h => by
    cases h
    exact ⟨rfl, rfl⟩
  | (segEnd, rate) :: rest, start, fin, acc, total, segs, h => by
    unfold addSegments at h
    split_ifs at h
    simp only [except_bind_ok, Except.ok.injEq, Prod.exists, Prod.mk.injEq] at h
    obtain ⟨_, -, _, -, _, -, segs', fin', total', hrest, rfl, rfl, rfl⟩ := h
    obtain ⟨hlast, hfin⟩ := addSegments_last hrest
    cases rest with
    | nil =>
      cases hrest
      exact ⟨rfl, rfl⟩
    | cons p rest =>
      have hne : segs' ≠ [] := by
        rintro rfl
        simp at hlast
      obtain ⟨s, segs'', rfl⟩ := List.exists_cons_of_ne_nil hne
      rw [List.getLast?_cons_cons, List.getLast?_cons_cons]
      refine ⟨hlast, ?_⟩
      rw [← hfin]
      cases hl : (p :: rest).getLast? with
      | none => simp at hl
      | some q => rfl

section Claims

variable {D : Deployment} {r : Address} {cliff : UInt32}

/-- What is stored for `r` has its cliff at `cliff`. -/
def CliffAt (r : Address) (cliff : UInt32) (w : Claims) : Prop :=
  ∀ v, getVariableSchedule w.env.persistent r = some v → v.cliffLedger = cliff

/-- No claim moves a cliff. -/
theorem cliffAt_claimStep (w : Claims) (call : Host × Address) (h : CliffAt r cliff w) :
    CliffAt r cliff (claimStep D r w call) := by
  refine claimStep_induct call h fun {host r' amount env'} hclaim v' hv' => ?_
  obtain ⟨v, -, -, hpaid⟩ := claimVariableVestedWith_pays hclaim
  have hlookup := hpaid.lookup (r := r)
  rw [show getVariableSchedule env'.persistent r = some v' from hv'] at hlookup
  split_ifs at hlookup with hr hdone
  · cases hlookup
    exact h v (hr ▸ hpaid.live)
  · exact h v' hlookup.symm

end Claims

/-! ### The exact condition -/

section Shape

variable {start cliff fin : UInt32} {segs : List RateSegment} {total paid : ℤ}
  {v : VariableRateSchedule}

/-- When some part can be claimed before the end. -/
theorem partBeforeEnd_iff (hsegs : Segments start segs) (hne : segs ≠ [])
    (hstart : v.startLedger = start) (hsegments : v.segments = segs) :
    PartBeforeEnd v ↔ v.cliffLedger < v.endLedger ∧ start.toNat + 1 < v.endLedger.toNat := by
  unfold PartBeforeEnd
  rw [hstart, hsegments, UInt32.lt_iff_toNat_lt]
  constructor
  · rintro ⟨ledger, amount, hcliff, hend, hamount, hpos⟩
    rw [hsegs.claimable_eq, Except.ok.injEq] at hamount
    rw [UInt32.le_iff_toNat_le] at hcliff
    rw [UInt32.lt_iff_toNat_lt] at hend
    have hlt : start.toNat < ledger.toNat := by
      by_contra hle
      rw [accrued_of_le (by omega)] at hamount
      omega
    omega
  · rintro ⟨hcliff, hlong⟩
    have hlast : (v.endLedger - 1).toNat = v.endLedger.toNat - 1 :=
      UInt32.toNat_sub_of_le _ _ (UInt32.le_iff_toNat_le.mpr (by simp; omega))
    refine ⟨v.endLedger - 1, _, ?_, ?_, hsegs.claimable_eq _ _, ?_⟩
    · rw [UInt32.le_iff_toNat_le]
      omega
    · rw [UInt32.lt_iff_toNat_lt]
      omega
    · refine accrued_pos hsegs.ascending (by simpa [pieces] using hne) (fun p hp => ?_) (by omega)
      obtain ⟨s, hs, rfl⟩ := List.mem_map.mp hp
      exact hsegs.rate_pos s hs

/-- **The shape of a paid up schedule** depends on its cliff and its end only. -/
theorem shaped_of_paidUp (hsegs : Segments start segs) (hne : segs ≠ [])
    (hlast : segs.getLast?.map (·.endLedger) = some fin)
    (htotal : whole start.toNat (pieces segs) = total) (h : PaidUp start fin segs total v paid)
    (hstart : start ≤ v.cliffLedger) :
    Shaped v ↔ v.cliffLedger < fin ∧ start.toNat + 1 < fin.toNat := by
  have hpart := partBeforeEnd_iff hsegs hne h.startLedger h.segments
  rw [h.endLedger] at hpart
  rw [← hpart]
  refine ⟨fun hs => hs.partBeforeEnd, fun hp => ?_⟩
  exact {
    start_le_cliff := h.startLedger ▸ hstart
    cliff_lt_end := h.endLedger ▸ (hpart.mp hp).1
    ascending := by
      rw [h.startLedger, h.segments]
      exact hsegs.ascending
    last := by
      rw [h.segments, h.endLedger]
      exact hlast
    start_le_claimed := h.startLedger ▸ h.start_le
    claimed_le_end := h.endLedger ▸ h.le_end
    deposited := by
      rw [h.totalDeposited, h.startLedger, h.segments]
      exact htotal.symm
    partBeforeEnd := hp }

end Shape

/-- **When a stream keeps its shape**: in every state of every run of claims after a successful
creation, exactly if the cliff lies before the end of the last segment and the stream lasts for more
than one ledger. -/
theorem shaped_iff {D : Deployment} {host : Host} {a : VariableArgs} {env env' : Env}
    (h : createVariableRateStream D host a env = .ok ((), env')) :
    ∃ last, a.segments.getLast? = some last ∧ ∀ calls : List (Host × Address),
      AllStates (claimStep D a.recipient) (KeepsShape a.recipient) ⟨env', 0⟩ calls ↔
        host.sequence.toNat + a.cliffDuration.toNat < last.1.toNat ∧
          host.sequence.toNat + 1 < last.1.toNat := by
  obtain ⟨cliff, segs, fin, total, hlength, hcliff, hadd, hcreated⟩ :=
    createVariableRateStream_stores h
  obtain ⟨hsegs, hfin, htotal⟩ := segments_of_addSegments hadd
  obtain ⟨last, hlast⟩ : ∃ last, a.segments.getLast? = some last :=
    Option.isSome_iff_exists.mp (by simpa using hlength)
  obtain ⟨hends, hend⟩ := addSegments_last hadd
  rw [hlast] at hends hend
  have hlastEnd : last.1 = fin := hend
  have hne : segs ≠ [] := by
    rintro rfl
    simp at hends
  have hstart : host.sequence ≤ cliff := UInt32.le_iff_toNat_le.mpr (by omega)
  have hlive : getVariableSchedule env'.persistent a.recipient =
      some (newVariableSchedule a host.sequence cliff fin segs total) := by
    rw [hcreated.persistent, getVariableSchedule_set, if_pos rfl]
  have hpaid := conserved_of_create hsegs hfin htotal hcreated
  have hshape : ∀ {v : VariableRateSchedule} {paid : ℤ},
      PaidUp host.sequence fin segs total v paid → v.cliffLedger = cliff →
        (Shaped v ↔ cliff < fin ∧ host.sequence.toNat + 1 < fin.toNat) := by
    rintro v paid hv rfl
    exact shaped_of_paidUp hsegs hne (hlastEnd ▸ hends) htotal hv hstart
  refine ⟨last, hlast, fun calls => ?_⟩
  rw [← hcliff, hlastEnd, ← UInt32.lt_iff_toNat_lt]
  constructor
  · intro hall
    exact (hshape ((conserved_some hlive).mp hpaid) rfl).mp (hall.first _ hlive)
  · intro hcond
    have hinv : AllStates (claimStep D a.recipient)
        (fun w => Conserved host.sequence fin segs total a.recipient w ∧
          CliffAt a.recipient cliff w) ⟨env', 0⟩ calls := by
      refine allStates_of_step (fun w call hw => ?_) ⟨hpaid, fun v hv => ?_⟩
      · exact ⟨conserved_claimStep hsegs htotal call hw.1, cliffAt_claimStep w call hw.2⟩
      · rw [show getVariableSchedule env'.persistent a.recipient = some v from hv] at hlive
        cases hlive
        rfl
    refine hinv.imp fun w hw v hv => ?_
    exact (hshape ((conserved_some hv).mp hw.1) (hw.2 v hv)).mpr hcond

theorem shaped_iff_sample : ∃ env', createVariableRateStream sampleDeployment (sampleHost 100)
      sampleVariableStream sampleEnv = .ok ((), env') ∧
    AllStates (claimStep sampleDeployment ⟨2⟩) (KeepsShape ⟨2⟩) ⟨env', 0⟩
      [(sampleHost 120, ⟨2⟩), (sampleHost 250, ⟨2⟩), (sampleHost 310, ⟨2⟩)] := by
  have hok : (createVariableRateStream sampleDeployment (sampleHost 100) sampleVariableStream
    sampleEnv).isOk = true := by decide +kernel
  obtain ⟨⟨u, env'⟩, hcreate⟩ := exists_ok_of_isOk hok
  obtain ⟨last, hlast, hiff⟩ := shaped_iff hcreate
  cases hlast
  exact ⟨env', hcreate, (hiff _).mpr (by decide)⟩

/-- A stream that starts at ledger 100 and has its cliff at 150, where it ends. -/
def sampleCliffAtEnd : VariableArgs where
  sponsor := ⟨1⟩
  recipient := ⟨2⟩
  token := ⟨10⟩
  cliffDuration := 50
  segments := [(150, 10)]

/-- It is accepted, although its cliff does not lie before its end. -/
theorem cliff_at_end_accepted :
    (createVariableRateStream sampleDeployment (sampleHost 100) sampleCliffAtEnd
      sampleEnv).isOk = true ∧
    ¬ KeepsShape ⟨2⟩ ⟨commit (createVariableRateStream sampleDeployment (sampleHost 100)
      sampleCliffAtEnd) sampleEnv, 0⟩ := by
  refine ⟨by decide +kernel, fun hkeeps => ?_⟩
  have hstored : (getVariableSchedule (commit (createVariableRateStream sampleDeployment
      (sampleHost 100) sampleCliffAtEnd) sampleEnv).persistent ⟨2⟩).map
        (fun v => (v.cliffLedger, v.endLedger)) = some (150, 150) := by decide +kernel
  obtain ⟨v, hget, hledgers⟩ := Option.map_eq_some_iff.mp hstored
  obtain ⟨hcliff, hend⟩ := Prod.mk.inj hledgers
  have hlt := (hkeeps v hget).cliff_lt_end
  rw [hcliff, hend] at hlt
  exact absurd hlt (by decide)

end VestingDripStream.Contract.VariableShape
