import VestingDripStream.Contract.Requests

/-! # Does the sponsor index agree with the schedules?

`SponsorStreams(s)` is to list the recipients that have a live schedule of sponsor `s`. Cancelling
and clawing back keep it so. Two operations do not: a creation that overwrites another sponsor's
stream leaves the recipient in that sponsor's list, and a claim that completes a stream removes the
schedule and not the entry. `indexAgrees_iff` says that these are all: along a run from the empty
storage the index agrees in every state exactly if neither happens. -/

namespace VestingDripStream.Contract.SponsorIndex

open VestingDripStream.Lib.Checked VestingDripStream.Lib.Transaction VestingDripStream.Lib.Run
open VestingDripStream.Contract.Types VestingDripStream.Contract.Storage
open VestingDripStream.Contract.Schedule VestingDripStream.Contract.EntryPoints
open VestingDripStream.Contract.Effects VestingDripStream.Contract.Stream
open VestingDripStream.Contract.Requests

/-- **The index agrees with the schedules**: without repetition, `get_sponsor_streams` lists the
recipients of the sponsor's live streams. -/
def IndexAgrees (st : Storage) : Prop :=
  ∀ sp, (getSponsorStreams st sp).Nodup ∧
    ∀ r, r ∈ getSponsorStreams st sp ↔ ∃ k s, scheduleAt st r k = some s ∧ s.sponsor = sp

/-- The two conditions: a creation overwrites no other sponsor's stream, and a claim comes before
the end of the streams it is for. -/
def KeepsIndex (host : Host) (env : Env) : ContractCall → Prop
  | .createVestingStream a =>
    ∀ k s, scheduleAt env.persistent a.recipient k = some s → s.sponsor = a.sponsor
  | .claimVested r _ => ∀ k s, scheduleAt env.persistent r k = some s → host.sequence < s.endLedger
  | _ => True

variable {D : Deployment} {host : Host} {env env' : Env}

theorem keepsIndex_of_isConfig {call : ContractCall} (h : call.isConfig = true) :
    KeepsIndex host env call := by
  cases call <;> first | exact trivial | cases h

/-! ### Creation -/

section Creation

variable {a : CreateArgs} {id : UInt32} {c : CreationReceipt}

/-- A creation adds one entry to the index, unless it is there. -/
theorem getSponsorStreams_created (h : Created D host a env id env' c) (sp : Address) :
    (∀ x, x ∈ getSponsorStreams env'.persistent sp ↔
      x ∈ getSponsorStreams env.persistent sp ∨ (sp = a.sponsor ∧ x = a.recipient)) ∧
    ((getSponsorStreams env.persistent sp).Nodup →
      (getSponsorStreams env'.persistent sp).Nodup) := by
  obtain ⟨-, n, -, hres⟩ := nextStreamId_ok _ _ _ h.id
  have hsame : getSponsorStreams (setSchedule c.reserved a.recipient (c.schedule host a)) sp =
      getSponsorStreams env.persistent sp := by
    rw [setSchedule, getSponsorStreams_setScheduleById, hres, getSponsorStreams_insert_nextStreamId]
  rw [h.persistent]
  refine ⟨fun x => ?_, fun hnd => ?_⟩
  · rw [mem_addSponsorStream, hsame]
  · refine nodup_addSponsorStream _ _ _ _ ?_
    rw [hsame]
    exact hnd

/-- After a creation the recipient has the new stream and no other. -/
theorem sponsor_of_created {now : ℕ} (hinv : StoreInv env.persistent now)
    (h : Created D host a env id env' c) {k : UInt32} {s : VestingSchedule}
    (hs : scheduleAt env'.persistent a.recipient k = some s) : s.sponsor = a.sponsor := by
  rw [scheduleAt_of_created h] at hs
  split_ifs at hs with hk
  · rw [Option.some.injEq] at hs
    rw [← hs]
    rfl
  · exact absurd ⟨rfl, (hinv.live _ k s hs).1⟩ hk

/-- **A creation** keeps the index exactly if it overwrites no other sponsor's stream. -/
theorem indexAgrees_created {now : ℕ} (hinv : StoreInv env.persistent now)
    (hidx : IndexAgrees env.persistent) (h : Created D host a env id env' c) :
    IndexAgrees env'.persistent ↔
      ∀ k s, scheduleAt env.persistent a.recipient k = some s → s.sponsor = a.sponsor := by
  have hmem := fun sp => (getSponsorStreams_created h sp).1
  have hnew := scheduleAt_created h
  constructor
  · intro hidx' k s hs
    have hin : a.recipient ∈ getSponsorStreams env.persistent s.sponsor :=
      ((hidx s.sponsor).2 a.recipient).mpr ⟨k, s, hs, rfl⟩
    have hin' := (hmem s.sponsor a.recipient).mpr (Or.inl hin)
    obtain ⟨k', s', hs', hsp⟩ := ((hidx' s.sponsor).2 a.recipient).mp hin'
    rw [← hsp]
    exact sponsor_of_created hinv h hs'
  · intro hsame sp
    refine ⟨(getSponsorStreams_created h sp).2 (hidx sp).1, fun x => ?_⟩
    rw [hmem]
    by_cases hx : x = a.recipient
    · subst hx
      constructor
      · rintro (hin | ⟨rfl, -⟩)
        · obtain ⟨k, s, hs, rfl⟩ := ((hidx sp).2 a.recipient).mp hin
          exact ⟨0, _, hnew, (hsame k s hs).symm⟩
        · exact ⟨0, _, hnew, rfl⟩
      · rintro ⟨k, s, hs, rfl⟩
        exact Or.inr ⟨sponsor_of_created hinv h hs, rfl⟩
    · have hstreams := sameOutside_created h x hx
      simp only [hx, and_false, or_false, hstreams]
      exact (hidx sp).2 x

end Creation

/-! ### Terminal operations -/

/-- **A terminal operation** takes the stream and its entry out together. -/
theorem indexAgrees_terminated {sponsor r : Address} {k : UInt32} {s : VestingSchedule} {bound : ℤ}
    {now : ℕ} (hinv : StoreInv env.persistent now) (hidx : IndexAgrees env.persistent)
    (h : Terminated D sponsor r k env env' s bound) : IndexAgrees env'.persistent := by
  obtain ⟨rfl, -, -⟩ := hinv.live r k s h.live
  intro sp
  have hmem : ∀ x, x ∈ getSponsorStreams env'.persistent sp ↔
      x ∈ getSponsorStreams env.persistent sp ∧ ¬ (sp = sponsor ∧ x = r) := by
    intro x
    rw [h.persistent, mem_removeSponsorStream, removeSchedule, getSponsorStreams_removeScheduleById]
  refine ⟨?_, fun x => ?_⟩
  · rw [h.persistent]
    refine nodup_removeSponsorStream _ _ _ _ ?_
    rw [removeSchedule, getSponsorStreams_removeScheduleById]
    exact (hidx sp).1
  · rw [hmem, (hidx sp).2 x]
    constructor
    · rintro ⟨⟨k, s', hs', hsp⟩, hne⟩
      refine ⟨k, s', ?_, hsp⟩
      rw [scheduleAt_terminated h, if_neg]
      · exact hs'
      · rintro ⟨rfl, rfl⟩
        rw [h.live, Option.some.injEq] at hs'
        exact hne ⟨by rw [← hsp, ← hs', h.sponsor_eq], rfl⟩
    · rintro ⟨k, s', hs', hsp⟩
      rw [scheduleAt_terminated h] at hs'
      split_ifs at hs' with heq
      refine ⟨⟨k, s', hs', hsp⟩, ?_⟩
      rintro ⟨-, rfl⟩
      exact heq ⟨rfl, (hinv.live x k s' hs').1⟩

/-! ### Claims -/

/-- What a claim of `r` has done to the stream `s` that was live before it: completed it, if the end
is reached, and otherwise kept it for the same sponsor. -/
structure ClaimedThrough (host : Host) (r : Address) (env e : Env) (s : VestingSchedule) : Prop where
  before : scheduleAt env.persistent r 0 = some s
  ended : s.endLedger.toNat ≤ host.sequence.toNat → scheduleAt e.persistent r 0 = none
  kept : host.sequence.toNat < s.endLedger.toNat → ∃ s', scheduleAt e.persistent r 0 = some s' ∧
    s'.sponsor = s.sponsor ∧ s'.endLedger = s.endLedger

/-- One paid stream. -/
theorem claimedThrough_paid {r : Address} {k : UInt32} {e e1 : Env} {s s1 : VestingSchedule}
    {rc : ClaimReceipt} (hinv : StoreInv e.persistent host.sequence.toNat)
    (hpaid : StreamPaid D host r k e e1 s1 rc) (hbefore : scheduleAt env.persistent r 0 = some s)
    (hsp : s1.sponsor = s.sponsor) (hend : s1.endLedger = s.endLedger) :
    ClaimedThrough host r env e1 s := by
  obtain ⟨rfl, hrep, -⟩ := hinv.live r k s1 hpaid.live
  have hfin := hrep.finished_iff hpaid.receipt
  rw [hend] at hfin
  refine ⟨hbefore, fun hle => ?_, fun hlt => ?_⟩
  · rw [hpaid.persistent, afterClaim, if_pos (hfin.mpr hle), scheduleAt_removeScheduleById,
      if_pos ⟨rfl, rfl⟩]
  · have hnot : ¬ rc.finished = true := by rw [hfin]; omega
    obtain ⟨-, -, -, -, -, -, -, heq, -⟩ := claimSchedule_ok hpaid.receipt
    refine ⟨rc.schedule, ?_, by rw [heq]; exact hsp, by rw [heq]; exact hend⟩
    rw [hpaid.persistent, afterClaim, if_neg hnot, scheduleAt_setScheduleById, if_pos ⟨rfl, rfl⟩]

theorem claimedThrough_of_claim (hD : D.ReadsById) {r : Address} {streamId : Option UInt32}
    {amount : ℤ} (hinv : StoreInv env.persistent host.sequence.toNat)
    (h : claimVested D host r streamId env = .ok (amount, env')) :
    ∃ s, ClaimedThrough host r env env' s := by
  have hturn : ∀ k, (∀ k', streamId = some k' → k' = k) → ∀ acc e x e1,
      (StoreInv e.persistent host.sequence.toNat ∧
        ((acc = 0 ∧ e = env) ∨ ∃ s, ClaimedThrough host r env e s)) →
      claimStream D host r streamId.isSome k e = .ok (x, e1) →
      StoreInv e1.persistent host.sequence.toNat ∧
        ((acc + x = 0 ∧ e1 = env) ∨ ∃ s, ClaimedThrough host r env e1 s) := by
    rintro k - acc e x e1 ⟨hi, he⟩ hx
    rcases claimStream_ok hD hx with ⟨rfl, rfl⟩ | ⟨s1, rc, hpaid, -⟩
    · exact ⟨hi, by rwa [add_zero]⟩
    · refine ⟨storeInv_paid hi hpaid, Or.inr ?_⟩
      obtain ⟨rfl, -, -⟩ := hi.live r k s1 hpaid.live
      rcases he with ⟨-, rfl⟩ | ⟨s, hs⟩
      · exact ⟨s1, claimedThrough_paid hi hpaid hpaid.live rfl rfl⟩
      · -- the stream is still live, so its end is not reached
        have hlt : host.sequence.toNat < s.endLedger.toNat := by
          by_contra hle
          have hnone := hs.ended (by omega)
          rw [hpaid.live] at hnone
          cases hnone
        obtain ⟨s', hs', hsp, hend⟩ := hs.kept hlt
        rw [hpaid.live, Option.some.injEq] at hs'
        subst hs'
        exact ⟨s, claimedThrough_paid hi hpaid hs.before hsp hend⟩
  obtain ⟨⟨-, hres⟩, hne⟩ := claimVested_induct h hturn ⟨hinv, Or.inl ⟨rfl, rfl⟩⟩
  rcases hres with ⟨h0, -⟩ | hres
  · exact absurd h0 hne
  · exact hres

theorem getSponsorStreams_claim (hD : D.ReadsById) {r : Address} {streamId : Option UInt32}
    {amount : ℤ} (h : claimVested D host r streamId env = .ok (amount, env')) (sp : Address) :
    getSponsorStreams env'.persistent sp = getSponsorStreams env.persistent sp := by
  refine (claimVested_induct (P := fun _ e => getSponsorStreams e.persistent sp =
    getSponsorStreams env.persistent sp) h (fun k _ acc e x e1 he hx => ?_) rfl).1
  rcases claimStream_ok hD hx with ⟨-, rfl⟩ | ⟨s, rc, hpaid, -⟩
  · exact he
  · rw [hpaid.persistent, ← he]
    unfold afterClaim
    split_ifs
    · exact getSponsorStreams_removeScheduleById _ _ _ _
    · exact getSponsorStreams_setScheduleById _ _ _ _ _

/-- **A claim** keeps the index exactly if the end of the stream is not reached. -/
theorem indexAgrees_claim (hD : D.ReadsById) {r : Address} {streamId : Option UInt32} {amount : ℤ}
    (hinv : StoreInv env.persistent host.sequence.toNat) (hidx : IndexAgrees env.persistent)
    (h : claimVested D host r streamId env = .ok (amount, env')) :
    IndexAgrees env'.persistent ↔
      ∀ k s, scheduleAt env.persistent r k = some s → host.sequence < s.endLedger := by
  obtain ⟨s, hs⟩ := claimedThrough_of_claim hD hinv h
  have hinv' := storeInv_claim hD hinv h
  have hindex := getSponsorStreams_claim hD h
  constructor
  · intro hidx' k s' hs'
    obtain ⟨rfl, -, -⟩ := hinv.live r k s' hs'
    rw [hs.before, Option.some.injEq] at hs'
    subst hs'
    rw [UInt32.lt_iff_toNat_lt]
    by_contra hle
    -- the schedule is gone, the entry is not
    have hin : r ∈ getSponsorStreams env'.persistent s.sponsor := by
      rw [hindex]
      exact ((hidx s.sponsor).2 r).mpr ⟨0, s, hs.before, rfl⟩
    obtain ⟨k', s', hs', -⟩ := ((hidx' s.sponsor).2 r).mp hin
    obtain ⟨rfl, -, -⟩ := hinv'.live r k' s' hs'
    rw [hs.ended (by omega)] at hs'
    cases hs'
  · intro hlt sp
    rw [hindex]
    refine ⟨(hidx sp).1, fun x => ?_⟩
    rw [(hidx sp).2 x]
    by_cases hx : x = r
    · subst hx
      obtain ⟨s', hs', hsp, -⟩ := hs.kept (UInt32.lt_iff_toNat_lt.mp (hlt 0 s hs.before))
      constructor
      · rintro ⟨k, s1, hs1, rfl⟩
        obtain ⟨rfl, -, -⟩ := hinv.live x k s1 hs1
        rw [hs.before, Option.some.injEq] at hs1
        subst hs1
        exact ⟨0, s', hs', hsp⟩
      · rintro ⟨k, s1, hs1, rfl⟩
        obtain ⟨rfl, -, -⟩ := hinv'.live x k s1 hs1
        rw [hs', Option.some.injEq] at hs1
        subst hs1
        exact ⟨0, s, hs.before, hsp.symm⟩
    · have hstreams := sameOutside_claim hD h x hx
      simp only [hstreams]

/-! ### Whole runs -/

/-- One request keeps the index exactly if, should it succeed, it meets its condition. -/
theorem indexAgrees_step_iff (hD : D.ReadsById) (c : Chain) (q : Request)
    (hinv : StoreInv c.env.persistent c.now) (hl : q.Legal c)
    (hidx : IndexAgrees c.env.persistent) :
    IndexAgrees (step D c q).env.persistent ↔ (q.Ok D c → KeepsIndex q.host c.env q.call) := by
  by_cases hok : q.Ok D c
  · obtain ⟨⟨u, env'⟩, h⟩ := exists_ok_of_isOk hok
    have hstep : (step D c q).env = env' := commit_of_ok h
    have hnow := hinv.mono hl
    have heff := exec_ok hD h
    rw [hstep, forall_prop_of_true hok]
    generalize q.call = call at heff
    cases heff with
    | config kind hp _ =>
      rw [hp]
      exact ⟨fun _ => keepsIndex_of_isConfig kind, fun _ => hidx⟩
    | create hc => exact indexAgrees_created hnow hidx hc
    | claim hc => exact indexAgrees_claim hD hnow hidx hc
    | cancel _ ht => exact ⟨fun _ => trivial, fun _ => indexAgrees_terminated hnow hidx ht⟩
    | clawback _ ht => exact ⟨fun _ => trivial, fun _ => indexAgrees_terminated hnow hidx ht⟩
    | viaLegacy _ found _ => rw [hinv.legacy] at found; cases found
  · have hstep : (step D c q).env = c.env := commit_of_not_isOk hok
    rw [hstep]
    exact ⟨fun _ h => absurd h hok, fun _ => hidx⟩

theorem indexAgrees_empty : IndexAgrees ∅ := by
  intro sp
  have hnil : getSponsorStreams ∅ sp = [] := by
    unfold getSponsorStreams storedIndex
    rw [Finmap.lookup_empty]
    rfl
  rw [hnil]
  refine ⟨List.nodup_nil, fun r => ⟨fun h => absurd h List.not_mem_nil, ?_⟩⟩
  rintro ⟨k, s, hs, -⟩
  rw [scheduleAt_empty] at hs
  cases hs

/-- **The index agrees with the schedules in every state of a run from the empty storage exactly if
every successful creation of the run overwrites no other sponsor's stream and every successful claim
comes before the end of the streams it is for.** -/
theorem indexAgrees_iff (hD : D.ReadsById) (balances : Balances) {requests : List Request}
    (hl : AllSteps (step D) (fun c q => q.Legal c) (start balances) requests) :
    AllStates (step D) (fun c => IndexAgrees c.env.persistent) (start balances) requests ↔
      AllSteps (step D) (fun c q => q.Ok D c → KeepsIndex q.host c.env q.call) (start balances)
        requests :=
  allStates_iff_allSteps (storeInv_step hD)
    (indexAgrees_step_iff hD) storeInv_empty hl indexAgrees_empty

theorem indexAgrees_iff_sample :
    AllStates (step sampleDeployment) (fun c => IndexAgrees c.env.persistent)
        (start sampleStart.balances) sampleFirst ↔
      AllSteps (step sampleDeployment)
        (fun c q => q.Ok sampleDeployment c → KeepsIndex q.host c.env q.call)
        (start sampleStart.balances) sampleFirst :=
  indexAgrees_iff sampleDeployment_readsById _ (by decide +kernel)

/-- Sponsor `1` keeps an entry for recipient `2`, whose stream is now sponsor `3`'s. -/
theorem indexAgrees_second_false :
    AllSteps (step sampleDeployment) (fun c q => q.Legal c) (start sampleStart.balances)
        (sampleFirst ++ [sampleSecond]) ∧
      ¬ AllStates (step sampleDeployment) (fun c => IndexAgrees c.env.persistent)
        (start sampleStart.balances) (sampleFirst ++ [sampleSecond]) := by
  have hl : AllSteps (step sampleDeployment) (fun c q => q.Legal c) (start sampleStart.balances)
      (sampleFirst ++ [sampleSecond]) := by
    decide +kernel
  refine ⟨hl, fun h => ?_⟩
  have hinv := storeInv_run sampleDeployment_readsById sampleStart.balances hl
  have hin : (⟨2⟩ : Address) ∈ getSponsorStreams (run (step sampleDeployment)
      (start sampleStart.balances) (sampleFirst ++ [sampleSecond])).env.persistent ⟨1⟩ := by
    decide +kernel
  have hother : (scheduleAt (run (step sampleDeployment) (start sampleStart.balances)
      (sampleFirst ++ [sampleSecond])).env.persistent ⟨2⟩ 0).map VestingSchedule.sponsor =
      some ⟨3⟩ := by
    decide +kernel
  obtain ⟨k, s, hs, hsp⟩ := ((h.last ⟨1⟩).2 ⟨2⟩).mp hin
  obtain ⟨rfl, -, -⟩ := hinv.live _ k s hs
  rw [hs, Option.map_some, hsp] at hother
  exact absurd hother (by decide)

end VestingDripStream.Contract.SponsorIndex
