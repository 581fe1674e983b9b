import VestingDripStream.Contract.Requests

/-! # Does a creation overwrite a live stream?

`create_vesting_stream` returns the id it took from `next_stream_id` and stores the schedule through
`set_schedule`, under id `0`. For the first stream of a recipient the two ids agree. Afterwards
`NextStreamId` is set and never zero, so the id returned is not the one used: nothing is stored
under it, and a stream that is live under id `0` is overwritten (`creationExact_iff`). -/

namespace VestingDripStream.Contract.Creation

open VestingDripStream.Lib.Checked VestingDripStream.Lib.Transaction VestingDripStream.Lib.Run
open VestingDripStream.Contract.Types VestingDripStream.Contract.Storage
open VestingDripStream.Contract.Schedule VestingDripStream.Contract.EntryPoints
open VestingDripStream.Contract.Effects VestingDripStream.Contract.Stream
open VestingDripStream.Contract.Requests

/-- If the request is a successful creation: every live stream is stored as before, and the new one
is stored under the id that is returned. -/
def CreationExact (D : Deployment) (c : Chain) (q : Request) : Prop :=
  ∀ a id env', q.call = .createVestingStream a →
    createVestingStream D q.host a c.env = .ok (id, env') →
    (∀ r k s, scheduleAt c.env.persistent r k = some s → scheduleAt env'.persistent r k = some s) ∧
    ∃ metadata cliffLedger endLedger, scheduleAt env'.persistent a.recipient id =
      some (newSchedule a metadata q.host.sequence cliffLedger endLedger)

/-- If the request is a successful creation, it finds `NextStreamId` of its recipient unset. -/
def FirstForRecipient (D : Deployment) (c : Chain) (q : Request) : Prop :=
  ∀ a, q.call = .createVestingStream a → q.Ok D c →
    storedNext c.env.persistent a.recipient = none

/-- The call may end a stream of `r`: a terminal operation, a transfer, or a claim at or after the
end of a stream. -/
def MayEnd (r : Address) (host : Host) (env : Env) : ContractCall → Prop
  | .cancelStream _ r' _ => r' = r
  | .clawbackStream _ r' _ _ => r' = r
  | .drainExpiredStream _ r' => r' = r
  | .emergencyDrain _ r' => r' = r
  | .transferRecipient r1 r2 => r1 = r ∨ r2 = r
  | .claimVested r' _ => r' = r ∧
    ∃ k s, scheduleAt env.persistent r k = some s ∧ s.endLedger ≤ host.sequence
  | _ => False

/-- The request is a successful creation for `r`. -/
def creates (D : Deployment) (r : Address) (c : Chain) (q : Request) : Bool :=
  match q.call with
  | .createVestingStream a => decide (a.recipient = r ∧ q.Ok D c)
  | _ => false

/-- The number of successful creations for `r` in a run. -/
def creations (D : Deployment) (r : Address) : Chain → List Request → ℕ
  | _, [] => 0
  | c, q :: rest => (if creates D r c q = true then 1 else 0) + creations D r (step D c q) rest

/-- The number of live streams of `r`. -/
noncomputable def liveCount (st : Storage) (r : Address) : ℕ :=
  {k | (scheduleAt st r k).isSome = true}.ncard

/-- **Creation never overwrites a live stream** along a run, and where no stream of `r` ends there
are as many live streams of `r` as successful creations. -/
structure NeverOverwrites (D : Deployment) (c0 : Chain) (requests : List Request) : Prop where
  exact : AllSteps (step D) (CreationExact D) c0 requests
  counts : ∀ r, AllSteps (step D) (fun c q => ¬ MayEnd r q.host c.env q.call) c0 requests →
    liveCount (run (step D) c0 requests).env.persistent r = creations D r c0 requests

variable {D : Deployment} {c : Chain} {q : Request} {r : Address}

/-! ### One creation -/

theorem ok_of_create {a : CreateArgs} {id : UInt32} {env' : Env}
    (hq : q.call = .createVestingStream a)
    (h : createVestingStream D q.host a c.env = .ok (id, env')) : q.Ok D c := by
  unfold Request.Ok
  rw [hq]
  have hexec : exec D q.host (.createVestingStream a) c.env = .ok ((), env') :=
    bind_ok.mpr ⟨id, env', h, rfl⟩
  rw [hexec]
  rfl

theorem create_of_ok {a : CreateArgs} (hq : q.call = .createVestingStream a) (hok : q.Ok D c) :
    ∃ id env', createVestingStream D q.host a c.env = .ok (id, env') := by
  obtain ⟨⟨u, env'⟩, h⟩ := exists_ok_of_isOk hok
  rw [hq] at h
  obtain ⟨id, e, he, -⟩ := bind_ok.mp h
  exact ⟨id, e, he⟩

/-- **A creation is exact exactly for the first stream of its recipient.** -/
theorem creationExact_iff (hinv : StoreInv c.env.persistent c.now) :
    CreationExact D c q ↔ FirstForRecipient D c q := by
  constructor
  · intro hexact a hq hok
    obtain ⟨id, env', hcreate⟩ := create_of_ok hq hok
    obtain ⟨r, hr⟩ := createVestingStream_ok hcreate
    obtain ⟨-, m, fin, cl, hstored⟩ := hexact a id env' hq hcreate
    by_contra hnext
    obtain ⟨n, hn⟩ := Option.ne_none_iff_exists'.mp hnext
    -- the id returned is not zero, and nothing is live under it
    obtain ⟨hid, -⟩ := nextStreamId_ok _ _ _ hr.id
    rw [hn, Option.getD_some] at hid
    have hne : ¬ (a.recipient = a.recipient ∧ id = 0) := by
      rintro ⟨-, h0⟩
      have hpos := hinv.next a.recipient n hn
      rw [← hid, h0] at hpos
      exact absurd hpos (by decide)
    rw [scheduleAt_of_created hr, if_neg hne] at hstored
    exact hne ⟨rfl, (hinv.live a.recipient id _ hstored).1⟩
  · intro hfirst a id env' hq hcreate
    obtain ⟨r, hr⟩ := createVestingStream_ok hcreate
    have hnext := hfirst a hq (ok_of_create hq hcreate)
    obtain ⟨hid, -⟩ := nextStreamId_ok _ _ _ hr.id
    rw [hnext, hinv.legacy] at hid
    have hid0 : id = 0 := hid
    constructor
    · intro r' k s hs
      have hne : r' ∉ ({a.recipient} : Set Address) := by
        rintro rfl
        exact (hinv.live _ k s hs).2.2 hnext
      rw [sameOutside_created hr r' hne k]
      exact hs
    · refine ⟨r.metadata, r.cliffLedger, r.endLedger, ?_⟩
      rw [hid0]
      exact scheduleAt_created hr

/-! ### Counting live streams -/

/-- In a run from the empty storage a recipient has one live stream, under id `0`, or none. -/
theorem liveCount_eq {st : Storage} {now : ℕ} (hinv : StoreInv st now) (r : Address) :
    liveCount st r = if (scheduleAt st r 0).isSome = true then 1 else 0 := by
  have hzero : ∀ k, (scheduleAt st r k).isSome = true → k = 0 := by
    intro k hk
    obtain ⟨s, hs⟩ := Option.isSome_iff_exists.mp hk
    exact (hinv.live r k s hs).1
  unfold liveCount
  split_ifs with h
  · have hset : {k | (scheduleAt st r k).isSome = true} = {0} := by
      ext k
      constructor
      · exact hzero k
      · rintro rfl
        exact h
    rw [hset, Set.ncard_singleton]
  · have hset : {k | (scheduleAt st r k).isSome = true} = ∅ := by
      ext k
      constructor
      · intro hk
        exact h (hzero k hk ▸ hk)
      · exact fun hk => hk.elim
    rw [hset, Set.ncard_empty]

/-- Claims before the end keep the stream. -/
theorem isSome_claim (hD : D.ReadsById) {host : Host} {env env' : Env} {streamId : Option UInt32}
    {amount : ℤ} (hinv : StoreInv env.persistent host.sequence.toNat)
    (hlt : ∀ s, scheduleAt env.persistent r 0 = some s → host.sequence.toNat < s.endLedger.toNat)
    (h : claimVested D host r streamId env = .ok (amount, env')) :
    (scheduleAt env'.persistent r 0).isSome = (scheduleAt env.persistent r 0).isSome := by
  refine (claimVested_induct (P := fun _ e => StoreInv e.persistent host.sequence.toNat ∧
    (∀ s, scheduleAt e.persistent r 0 = some s → host.sequence.toNat < s.endLedger.toNat) ∧
    (scheduleAt e.persistent r 0).isSome = (scheduleAt env.persistent r 0).isSome) h
    (fun k _ acc e x e1 he hx => ?_) ⟨hinv, hlt, rfl⟩).1.2.2
  obtain ⟨hi, hl, hs⟩ := he
  rcases claimStream_ok hD hx with ⟨-, rfl⟩ | ⟨s, rc, hpaid, -⟩
  · exact ⟨hi, hl, hs⟩
  · obtain ⟨rfl, hrep, -⟩ := hi.live r k s hpaid.live
    have hnot : ¬ rc.finished = true := by
      rw [hrep.finished_iff hpaid.receipt]
      have := hl s hpaid.live
      omega
    have hend : rc.schedule.endLedger = s.endLedger := by
      obtain ⟨-, -, -, -, -, -, -, heq, -⟩ := claimSchedule_ok hpaid.receipt
      rw [heq]
    have hafter : scheduleAt e1.persistent r 0 = some rc.schedule := by
      rw [hpaid.persistent, afterClaim, if_neg hnot, scheduleAt_setScheduleById, if_pos ⟨rfl, rfl⟩]
    refine ⟨storeInv_paid hi hpaid, fun s' hs' => ?_, ?_⟩
    · rw [hafter, Option.some.injEq] at hs'
      rw [← hs', hend]
      exact hl s hpaid.live
    · rw [hafter, ← hs, hpaid.live]
      rfl

/-- A successful request that ends no stream of `r` stores one, or leaves it at that. -/
theorem isSome_effect (hD : D.ReadsById) {host : Host} {env env' : Env} {call : ContractCall}
    (hinv : StoreInv env.persistent host.sequence.toNat) (heff : Effect D host env env' call)
    (hend : ¬ MayEnd r host env call) :
    (∃ a, call = .createVestingStream a ∧ a.recipient = r ∧
        (scheduleAt env'.persistent r 0).isSome = true) ∨
      (∀ a, call = .createVestingStream a → a.recipient ≠ r) ∧
        (scheduleAt env'.persistent r 0).isSome = (scheduleAt env.persistent r 0).isSome := by
  cases heff with
  | config kind hp _ =>
    refine Or.inr ⟨fun a ha => ?_, by rw [hp]⟩
    rw [ha] at kind
    cases kind
  | @create a _ _ hc =>
    by_cases hr : a.recipient = r
    · refine Or.inl ⟨a, rfl, hr, ?_⟩
      rw [← hr, scheduleAt_created hc]
      rfl
    · refine Or.inr ⟨fun a' ha' => ?_, ?_⟩
      · cases ha'
        exact hr
      · rw [sameOutside_created hc r (fun heq => hr heq.symm) 0]
  | @claim r' _ _ hc =>
    refine Or.inr ⟨nofun, ?_⟩
    by_cases hr : r' = r
    · subst hr
      refine isSome_claim hD hinv (fun s hs => ?_) hc
      by_contra hle
      exact hend ⟨rfl, 0, s, hs, UInt32.le_iff_toNat_le.mpr (by omega)⟩
    · rw [sameOutside_claim hD hc r (fun heq => hr heq.symm) 0]
  | cancel _ ht =>
    refine Or.inr ⟨nofun, ?_⟩
    rw [scheduleAt_terminated ht, if_neg fun heq => hend heq.1.symm]
  | clawback _ ht =>
    refine Or.inr ⟨nofun, ?_⟩
    rw [scheduleAt_terminated ht, if_neg fun heq => hend heq.1.symm]
  | viaLegacy _ found _ =>
    rw [hinv.legacy] at found
    cases found

/-- **One request** adds a live stream of `r` exactly if it is a successful creation for `r`. -/
theorem liveCount_step (hD : D.ReadsById) (hinv : StoreInv c.env.persistent c.now)
    (hl : q.Legal c) (hfirst : FirstForRecipient D c q) (hend : ¬ MayEnd r q.host c.env q.call) :
    liveCount (step D c q).env.persistent r =
      liveCount c.env.persistent r + if creates D r c q = true then 1 else 0 := by
  rw [liveCount_eq (storeInv_step hD c q hinv hl) r, liveCount_eq hinv r]
  by_cases hok : q.Ok D c
  · obtain ⟨⟨u, env'⟩, h⟩ := exists_ok_of_isOk hok
    have hstep : (step D c q).env = env' := commit_of_ok h
    rw [hstep]
    rcases isSome_effect hD (hinv.mono hl) (exec_ok hD h) hend with
      ⟨a, hcall, hr, hsome⟩ | ⟨hno, hsame⟩
    · have hcr : creates D r c q = true := by
        unfold creates
        rw [hcall]
        exact decide_eq_true ⟨hr, hok⟩
      have hnone : scheduleAt c.env.persistent r 0 = none := by
        by_contra hne
        obtain ⟨s, hs⟩ := Option.ne_none_iff_exists'.mp hne
        refine (hinv.live r 0 s hs).2.2 ?_
        rw [← hr]
        exact hfirst a hcall hok
      rw [hcr, hnone, hsome]
      rfl
    · have hcr : creates D r c q = false := by
        unfold creates
        split
        · next a ha => exact decide_eq_false fun hand => hno a ha hand.1
        · rfl
      rw [hcr, hsame]
      rfl
  · have hstep : (step D c q).env = c.env := commit_of_not_isOk hok
    have hcr : creates D r c q = false := by
      unfold creates
      split
      · exact decide_eq_false fun hand => hok hand.2
      · rfl
    rw [hstep, hcr]
    rfl

/-- **A whole run**: the live streams of `r` are those there were and those created since. -/
theorem liveCount_run (hD : D.ReadsById) {requests : List Request}
    (hinv : StoreInv c.env.persistent c.now)
    (hl : AllSteps (step D) (fun c q => q.Legal c) c requests)
    (hfirst : AllSteps (step D) (FirstForRecipient D) c requests)
    (hend : AllSteps (step D) (fun c q => ¬ MayEnd r q.host c.env q.call) c requests) :
    liveCount (run (step D) c requests).env.persistent r =
      liveCount c.env.persistent r + creations D r c requests := by
  induction requests generalizing c with
  | nil => rfl
  | cons q rest ih =>
    rw [run_cons, ih (storeInv_step hD c q hinv hl.1) hl.2 hfirst.2 hend.2,
      liveCount_step hD hinv hl.1 hfirst.1 hend.1, Nat.add_assoc]
    rfl

/-! ### Whole runs -/

/-- **Creation never overwrites a live stream along a run from the empty storage exactly if every
successful creation of the run is the first one for its recipient.** -/
theorem neverOverwrites_iff (hD : D.ReadsById) (balances : Balances) {requests : List Request}
    (hl : AllSteps (step D) (fun c q => q.Legal c) (start balances) requests) :
    NeverOverwrites D (start balances) requests ↔
      AllSteps (step D) (FirstForRecipient D) (start balances) requests := by
  have hstart : StoreInv (start balances).env.persistent (start balances).now := storeInv_empty
  have hiff : AllSteps (step D) (CreationExact D) (start balances) requests ↔
      AllSteps (step D) (FirstForRecipient D) (start balances) requests :=
    allSteps_congr (storeInv_step hD)
      (fun c q hinv _ => creationExact_iff hinv) hstart hl
  refine ⟨fun h => hiff.mp h.exact, fun h => ⟨hiff.mpr h, fun r hend => ?_⟩⟩
  have hzero : liveCount (start balances).env.persistent r = 0 := by
    rw [liveCount_eq hstart r]
    rfl
  rw [liveCount_run hD hstart hl h hend, hzero, Nat.zero_add]

theorem neverOverwrites_iff_sample :
    NeverOverwrites sampleDeployment (start sampleStart.balances) sampleFirst ↔
      AllSteps (step sampleDeployment) (FirstForRecipient sampleDeployment)
        (start sampleStart.balances) sampleFirst :=
  neverOverwrites_iff sampleDeployment_readsById _ (by decide +kernel)

/-- The second creation replaces the stream that sponsor `1` has paid for. -/
theorem neverOverwrites_second_false :
    AllSteps (step sampleDeployment) (fun c q => q.Legal c) (start sampleStart.balances)
        (sampleFirst ++ [sampleSecond]) ∧
      ¬ NeverOverwrites sampleDeployment (start sampleStart.balances)
        (sampleFirst ++ [sampleSecond]) := by
  refine ⟨by decide +kernel, fun h => ?_⟩
  obtain ⟨-, hexact, -⟩ := allSteps_append.mp h.exact
  obtain ⟨⟨id, env'⟩, hcreate⟩ := exists_ok_of_isOk (x := createVestingStream sampleDeployment
    (sampleHost 110) { sampleArgs with sponsor := ⟨3⟩ }
    (run (step sampleDeployment) (start sampleStart.balances) sampleFirst).env) (by decide +kernel)
  have hbefore : scheduleAt (run (step sampleDeployment) (start sampleStart.balances)
      sampleFirst).env.persistent ⟨2⟩ 0 = some sampleStream := by
    decide +kernel
  have hafter : scheduleAt (commit (createVestingStream sampleDeployment (sampleHost 110)
      { sampleArgs with sponsor := ⟨3⟩ }) (run (step sampleDeployment) (start sampleStart.balances)
      sampleFirst).env).persistent ⟨2⟩ 0 ≠ some sampleStream := by
    decide +kernel
  rw [commit_of_ok hcreate] at hafter
  exact hafter ((hexact _ id env' rfl hcreate).1 ⟨2⟩ 0 sampleStream hbefore)

end VestingDripStream.Contract.Creation
