import VestingDripStream.Contract.Stream

/-! # Is pausing neutral?

`contract.rs` defines `pause_stream` and `resume_stream` twice. The first `resume_stream` shifts the
start, the cliff, the end and the last claim by the length of the pause; seen from the resumption
the schedule is the one that was paused (`claimableAmount_shifted`). The second one shifts only the
cliff and the end: the stream becomes longer by the length of the pause and accrues through it
(`owed_resumeSecond`). So the pair of definitions is neutral exactly on pauses of no length and on
streams that pay nothing (`pauseNeutral_iff`). -/

namespace VestingDripStream.Contract.PauseNeutrality

open VestingDripStream.Lib.Checked VestingDripStream.Lib.Transaction
open VestingDripStream.Contract.Types VestingDripStream.Contract.Schedule
open VestingDripStream.Contract.EntryPoints

/-- The part of the representation invariant that concerns a pause of an active stream at `p`. -/
structure PausableAt (s : VestingSchedule) (p : UInt32) : Prop where
  active : s.pausedAtLedger = none
  start_lt_cliff : s.startLedger.toNat < s.cliffLedger.toNat
  cliff_lt_end : s.cliffLedger.toNat < s.endLedger.toNat
  start_le_last : s.startLedger.toNat ≤ s.lastClaimedLedger.toNat
  last_le_pause : s.lastClaimedLedger.toNat ≤ p.toNat
  claimed : s.claimedAmount =
    s.ratePerLedger * ((s.lastClaimedLedger.toNat : ℤ) - s.startLedger.toNat)

/-- `s'` comes out of a pause of `s` at `p` and a resumption at `q`, by the first definitions. -/
def Resumed (s : VestingSchedule) (p q : UInt32) (s' : VestingSchedule) : Prop :=
  ∃ paused, pauseSchedule s s.sponsor p = .ok paused ∧ resumeSchedule paused s.sponsor q = .ok s'

/-- `s'` comes out of a pause of `s` at `p` and a resumption at `q`, by the second definitions. -/
def ResumedSecond (s : VestingSchedule) (p q : UInt32) (s' : VestingSchedule) : Prop :=
  ∃ paused, pauseScheduleSecond s s.sponsor p = .ok paused ∧
    resumeScheduleSecond paused s.sponsor q = .ok s'

/-- After the pause the same is owed, and at `q` the same can be claimed as before it at `p`. -/
def Neutral (s : VestingSchedule) (p q : UInt32) (s' : VestingSchedule) : Prop :=
  s'.owed = s.owed ∧ claimableAmount s' q = claimableAmount s p

/-- **Pausing is neutral**, by either pair of definitions, and later claims do not tell the two
pairs apart. -/
structure PauseNeutral (s : VestingSchedule) (p q : UInt32) : Prop where
  first : ∀ s', Resumed s p q s' → Neutral s p q s'
  second : ∀ s', ResumedSecond s p q s' → Neutral s p q s'
  agree : ∀ s1 s2, Resumed s p q s1 → ResumedSecond s p q s2 →
    ∀ current, q.toNat ≤ current.toNat → claimableAmount s1 current = claimableAmount s2 current

/-! ### The first definition shifts the schedule -/

/-- `s'` is `s` with its four ledgers shifted by `d`. -/
structure Shifted (s s' : VestingSchedule) (d : ℕ) : Prop where
  paused : s'.pausedAtLedger = s.pausedAtLedger
  rate : s'.ratePerLedger = s.ratePerLedger
  claimed : s'.claimedAmount = s.claimedAmount
  start : s'.startLedger.toNat = s.startLedger.toNat + d
  cliff : s'.cliffLedger.toNat = s.cliffLedger.toNat + d
  finish : s'.endLedger.toNat = s.endLedger.toNat + d
  last : s'.lastClaimedLedger.toNat = s.lastClaimedLedger.toNat + d

theorem plainSub_shift {a b a' b' : UInt32} {d : ℕ} (ha : a'.toNat = a.toNat + d)
    (hb : b'.toNat = b.toNat + d) : plainSub a' b' = plainSub a b := by
  ext c
  rw [plainSub_eq_some, plainSub_eq_some]
  omega

theorem Shifted.owed {s s' : VestingSchedule} {d : ℕ} (h : Shifted s s' d) :
    s'.owed = s.owed := by
  unfold VestingSchedule.owed VestingSchedule.total
  rw [h.rate, h.claimed, h.finish, h.start]
  push_cast
  ring

/-- A shifted schedule pays at a shifted ledger what the schedule pays. -/
theorem claimableAmount_shifted {s s' : VestingSchedule} {d : ℕ} (h : Shifted s s' d)
    {current current' : UInt32} (hcur : current'.toNat = current.toNat + d) :
    claimableAmount s' current' = claimableAmount s current := by
  have h1 := h.cliff
  have h2 := h.finish
  have hcliff : current' < s'.cliffLedger ↔ current < s.cliffLedger := by
    rw [UInt32.lt_iff_toNat_lt, UInt32.lt_iff_toNat_lt]
    omega
  have hend : s'.endLedger ≤ current' ↔ s.endLedger ≤ current := by
    rw [UInt32.le_iff_toNat_le, UInt32.le_iff_toNat_le]
    omega
  have hdur : plainSub s'.endLedger s'.startLedger = plainSub s.endLedger s.startLedger :=
    plainSub_shift h.finish h.start
  have hel : plainSub (min current' s'.endLedger) s'.lastClaimedLedger =
      plainSub (min current s.endLedger) s.lastClaimedLedger := by
    refine plainSub_shift ?_ h.last
    rw [toNat_min, toNat_min]
    omega
  unfold claimableAmount dueAmount
  simp only [h.paused, h.rate, h.claimed, hcliff, hend, hdur, hel]

section Definitions

variable {s s' : VestingSchedule} {p q : UInt32}

theorem resumed_shifted (hact : s.pausedAtLedger = none)
    (hfit : ResumeFits { s with pausedAtLedger := some p } q) (h : Resumed s p q s') :
    Shifted s s' (q.toNat - p.toNat) := by
  obtain ⟨paused, hp, hr⟩ := h
  obtain ⟨-, -, -, heq⟩ := pauseSchedule_ok hp
  have hfit' : ResumeFits paused q := by rw [heq]; exact hfit
  have hpaused : paused.pausedAtLedger = some p := by rw [heq]
  obtain ⟨p', hp', hnone, -, e1, e2, e3, e4, hrate, -, hca⟩ := resumeSchedule_ok hr hfit'
  rw [hpaused, Option.some.injEq] at hp'
  subst hp'
  rw [heq] at e1 e2 e3 e4
  exact
    { paused := by rw [hnone, hact]
      rate := by rw [hrate, heq]
      claimed := by rw [hca, heq]
      start := e1, cliff := e2, finish := e3, last := e4 }

/-- **The first definition is neutral**, before the cliff, mid-stream and after the end. -/
theorem neutral_resumed (hact : s.pausedAtLedger = none) (hpq : p.toNat ≤ q.toNat)
    (hfit : ResumeFits { s with pausedAtLedger := some p } q) (h : Resumed s p q s') :
    Neutral s p q s' := by
  have hshift := resumed_shifted hact hfit h
  exact ⟨hshift.owed, claimableAmount_shifted hshift (by omega)⟩

/-! ### The second definition lengthens the stream -/

theorem resumedSecond_iff (hact : s.pausedAtLedger = none) :
    ResumedSecond s p q s' ↔ s' = { s with
      accumulatedPauseLedgers := saturatingAdd s.accumulatedPauseLedgers (saturatingSub q p)
      endLedger := saturatingAdd s.endLedger (saturatingSub q p)
      cliffLedger := saturatingAdd s.cliffLedger (saturatingSub q p) } := by
  unfold ResumedSecond pauseScheduleSecond resumeScheduleSecond
  simp only [hact]
  constructor
  · rintro ⟨paused, hp, hr⟩
    simp at hp
    subst hp
    simp at hr
    rw [← hr]
  · rintro rfl
    exact ⟨{ s with pausedAtLedger := some p }, by simp, by simp⟩

theorem resumedSecond_ledgers (hact : s.pausedAtLedger = none)
    (hfit : ResumeFits { s with pausedAtLedger := some p } q) (h : ResumedSecond s p q s') :
    s'.cliffLedger.toNat = s.cliffLedger.toNat + (q.toNat - p.toNat) ∧
      s'.endLedger.toNat = s.endLedger.toNat + (q.toNat - p.toNat) := by
  obtain ⟨-, -, f3, f4, -⟩ := hfit p rfl
  rw [← toNat_saturatingSub] at f3 f4 ⊢
  rw [(resumedSecond_iff hact).mp h]
  exact ⟨toNat_saturatingAdd f3, toNat_saturatingAdd f4⟩

/-- **The second definition** owes the recipient the length of the pause on top. -/
theorem owed_resumeSecond (hact : s.pausedAtLedger = none)
    (hfit : ResumeFits { s with pausedAtLedger := some p } q) (h : ResumedSecond s p q s') :
    s'.owed = s.owed + s.ratePerLedger * (q.toNat - p.toNat : ℕ) := by
  have hend := (resumedSecond_ledgers hact hfit h).2
  have heq := (resumedSecond_iff hact).mp h
  have h1 : s'.ratePerLedger = s.ratePerLedger := by rw [heq]
  have h2 : s'.claimedAmount = s.claimedAmount := by rw [heq]
  have h3 : s'.startLedger = s.startLedger := by rw [heq]
  unfold VestingSchedule.owed VestingSchedule.total
  rw [h1, h2, h3, hend]
  push_cast
  ring

/-- A stream of rate zero has nothing to claim at any ledger since its last claim. -/
theorem claimableAmount_of_rate_zero {current : UInt32} (hrate : s.ratePerLedger = 0)
    (hclaimed : s.claimedAmount = 0) (hspan : s.startLedger.toNat ≤ s.endLedger.toNat)
    (hlast : s.lastClaimedLedger.toNat ≤ current.toNat) : claimableAmount s current = .ok 0 := by
  unfold claimableAmount
  split_ifs with h1 h2
  · rfl
  · rfl
  obtain ⟨d, hd, -⟩ := plainSub_of_le hspan
  have h0 : checked 0 = some 0 := by decide
  unfold dueAmount
  by_cases hend : s.endLedger ≤ current
  · simp only [hd, plain, orOverflow, orFail, hrate, hclaimed, mul_zero, sub_zero, h0, if_pos hend,
      bind, Except.bind]
  · have hlt : current.toNat ≤ s.endLedger.toNat := by
      rw [UInt32.le_iff_toNat_le] at hend
      omega
    obtain ⟨e, he, -⟩ := plainSub_of_le (a := min current s.endLedger)
      (b := s.lastClaimedLedger) (by rw [toNat_min]; omega)
    simp only [hd, he, plain, orOverflow, orFail, hrate, mul_zero, h0, if_neg hend, bind,
      Except.bind]

/-- Without a pause the second definition changes no ledger either. -/
theorem resumedSecond_shifted_zero (hact : s.pausedAtLedger = none)
    (hfit : ResumeFits { s with pausedAtLedger := some p } p) (h : ResumedSecond s p p s') :
    Shifted s s' 0 := by
  obtain ⟨hcliff, hend⟩ := resumedSecond_ledgers hact hfit h
  have heq := (resumedSecond_iff hact).mp h
  exact
    { paused := by rw [heq]
      rate := by rw [heq]
      claimed := by rw [heq]
      start := by rw [heq]; rfl
      cliff := by omega
      finish := by omega
      last := by rw [heq]; rfl }

/-- A pause of no length: both definitions leave the ledgers where they are. -/
theorem pauseNeutral_self (h : PausableAt s q)
    (hfit : ResumeFits { s with pausedAtLedger := some q } q) : PauseNeutral s q q := by
  have hact := h.active
  have hshift : ∀ s', ResumedSecond s q q s' → Shifted s s' 0 :=
    fun s' hs' => resumedSecond_shifted_zero hact hfit hs'
  refine ⟨fun s' hs' => neutral_resumed hact le_rfl hfit hs', fun s' hs' => ?_, ?_⟩
  · exact ⟨(hshift s' hs').owed, claimableAmount_shifted (hshift s' hs') rfl⟩
  · intro s1 s2 h1 h2 current _
    have hs1 := resumed_shifted hact hfit h1
    rw [Nat.sub_self] at hs1
    have e1 : claimableAmount s1 current = claimableAmount s current :=
      claimableAmount_shifted hs1 rfl
    have e2 : claimableAmount s2 current = claimableAmount s current :=
      claimableAmount_shifted (hshift s2 h2) rfl
    rw [e1, e2]

/-- A stream of rate zero: nothing is ever paid. -/
theorem pauseNeutral_of_rate_zero (h : PausableAt s p) (hpq : p.toNat ≤ q.toNat)
    (hfit : ResumeFits { s with pausedAtLedger := some p } q) (hrate : s.ratePerLedger = 0) :
    PauseNeutral s p q := by
  have hact := h.active
  have hclaimed : s.claimedAmount = 0 := by rw [h.claimed, hrate, zero_mul]
  have b1 := h.start_lt_cliff
  have b2 := h.cliff_lt_end
  have b3 := h.last_le_pause
  have hzero : ∀ s', ResumedSecond s p q s' → ∀ current, q.toNat ≤ current.toNat →
      claimableAmount s' current = .ok 0 := by
    intro s' hs' current hcur
    have hend := (resumedSecond_ledgers hact hfit hs').2
    have heq := (resumedSecond_iff hact).mp hs'
    have e1 : s'.startLedger = s.startLedger := by rw [heq]
    have e2 : s'.lastClaimedLedger = s.lastClaimedLedger := by rw [heq]
    refine claimableAmount_of_rate_zero (by rw [heq]; exact hrate) (by rw [heq]; exact hclaimed)
      ?_ ?_
    · rw [e1]; omega
    · rw [e2]; omega
  refine ⟨fun s' hs' => neutral_resumed hact hpq hfit hs', fun s' hs' => ⟨?_, ?_⟩, ?_⟩
  · rw [owed_resumeSecond hact hfit hs', hrate, zero_mul, add_zero]
  · rw [hzero s' hs' q le_rfl, claimableAmount_of_rate_zero hrate hclaimed (by omega) b3]
  · intro s1 s2 h1 h2 current hcur
    have hs1 := resumed_shifted hact hfit h1
    have e1 := hs1.start
    have e2 := hs1.finish
    have e3 := hs1.last
    rw [hzero s2 h2 current hcur, claimableAmount_of_rate_zero (hs1.rate.trans hrate)
      (hs1.claimed.trans hclaimed) (by omega) (by omega)]

/-- **Pausing is neutral exactly on pauses of no length and streams of rate zero.** -/
theorem pauseNeutral_iff (h : PausableAt s p) (hpq : p.toNat ≤ q.toNat)
    (hfit : ResumeFits { s with pausedAtLedger := some p } q) :
    PauseNeutral s p q ↔ q = p ∨ s.ratePerLedger = 0 := by
  have hact := h.active
  constructor
  · intro hn
    have hs2 := (resumedSecond_iff (q := q) (p := p) hact).mpr rfl
    have howed := (hn.second _ hs2).1
    rw [owed_resumeSecond hact hfit hs2] at howed
    have hzero : s.ratePerLedger * (q.toNat - p.toNat : ℕ) = 0 := by omega
    rcases mul_eq_zero.mp hzero with hr | hd
    · exact Or.inr hr
    · left
      rw [← UInt32.toNat_inj]
      omega
  · rintro (rfl | hrate)
    · exact pauseNeutral_self h hfit
    · exact pauseNeutral_of_rate_zero h hpq hfit hrate

end Definitions

theorem sampleStream_pausableAt : PausableAt sampleStream 200 :=
  ⟨rfl, by decide, by decide, by decide, by decide, by decide⟩

theorem pauseNeutral_iff_sample :
    PauseNeutral sampleStream 200 210 ↔ (210 : UInt32) = 200 ∨ sampleStream.ratePerLedger = 0 :=
  pauseNeutral_iff sampleStream_pausableAt (by decide) (by decide)

/-- The sample stream, paused for ten ledgers: the second definition owes ten ledgers more. -/
theorem pauseNeutral_sample_false :
    PausableAt sampleStream 200 ∧ ResumeFits { sampleStream with pausedAtLedger := some 200 } 210 ∧
      ¬ PauseNeutral sampleStream 200 210 := by
  refine ⟨sampleStream_pausableAt, by decide, fun hn => ?_⟩
  have hs2 := (resumedSecond_iff (q := 210) (p := 200) (s := sampleStream) rfl).mpr rfl
  have howed := (hn.second _ hs2).1
  rw [owed_resumeSecond rfl (by decide) hs2] at howed
  exact absurd howed (by decide)

end VestingDripStream.Contract.PauseNeutrality
