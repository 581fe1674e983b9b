import VestingDripStream.Contract.Stream

/-! # Runs of the contract

A run is a list of requests: entry points, in any order, by anyone, with what the network supplies
for each. A request that fails changes nothing but the ledger the chain is at. `exec_ok` says once
what a successful request does (`Effect`); every property of runs is derived from it.

From the empty storage on nothing is ever stored under the legacy key, every stream has id `0`, and
every stored schedule satisfies the representation invariant (`StoreInv`, `storeInv_step`). So
`pause_stream`, `resume_stream`, `transfer_recipient` and the two drains, which read the legacy key,
never succeed in such a run. -/

namespace VestingDripStream.Contract.Requests

open VestingDripStream.Lib.Checked VestingDripStream.Lib.Transaction VestingDripStream.Lib.Run
open VestingDripStream.Contract.Types VestingDripStream.Contract.Storage
open VestingDripStream.Contract.Schedule VestingDripStream.Contract.EntryPoints
open VestingDripStream.Contract.Effects VestingDripStream.Contract.Stream

/-! ### Requests -/

/-- The entry points, with their arguments. -/
inductive ContractCall
  | initializeContract (admin : Address) (feeBps : UInt32) (treasury : Address)
  | transferAdmin (admin newAdmin : Address)
  | addAllowedToken (admin token : Address)
  | removeAllowedToken (admin token : Address)
  | setAllowlist (admin : Address) (recipients : List Address) (allowed : Bool)
  | setAllowlistEnabled (admin : Address) (enabled : Bool)
  | setFee (admin : Address) (feeBps : UInt32) (treasury : Address)
  | setMinDeposit (admin : Address) (minDeposit : ℤ)
  | setConfig (admin : Address) (key : String) (value : ℤ)
  | createVestingStream (a : CreateArgs)
  | claimVested (recipient : Address) (streamId : Option UInt32)
  | pauseStream (sponsor recipient : Address)
  | resumeStream (sponsor recipient : Address)
  | pauseStreamSecond (sponsor recipient : Address)
  | resumeStreamSecond (sponsor recipient : Address)
  | transferRecipient (currentRecipient newRecipient : Address)
  | cancelStream (sponsor recipient : Address) (streamId : UInt32)
  | clawbackStream (sponsor recipient : Address) (streamId : UInt32) (reason : String)
  | drainExpiredStream (caller recipient : Address)
  | emergencyDrain (sponsor recipient : Address)

/-- The call, with its result dropped. -/
def exec (D : Deployment) (host : Host) : ContractCall → Call Unit
  | .initializeContract admin feeBps treasury => initializeContract D host admin feeBps treasury
  | .transferAdmin admin newAdmin => transferAdmin D host admin newAdmin
  | .addAllowedToken admin token => addAllowedToken D host admin token
  | .removeAllowedToken admin token => removeAllowedToken D host admin token
  | .setAllowlist admin recipients allowed => setAllowlist D host admin recipients allowed
  | .setAllowlistEnabled admin enabled => setAllowlistEnabled D host admin enabled
  | .setFee admin feeBps treasury => setFee D host admin feeBps treasury
  | .setMinDeposit admin minDeposit => setMinDeposit D host admin minDeposit
  | .setConfig admin key value => setConfig D host admin key value
  | .createVestingStream a => do
    let _ ← createVestingStream D host a
    pure ()
  | .claimVested recipient streamId => do
    let _ ← claimVested D host recipient streamId
    pure ()
  | .pauseStream sponsor recipient => pauseStream D host sponsor recipient
  | .resumeStream sponsor recipient => resumeStream D host sponsor recipient
  | .pauseStreamSecond sponsor recipient => pauseStreamSecond D host sponsor recipient
  | .resumeStreamSecond sponsor recipient => resumeStreamSecond D host sponsor recipient
  | .transferRecipient currentRecipient newRecipient =>
    transferRecipient D host currentRecipient newRecipient
  | .cancelStream sponsor recipient streamId => cancelStream D host sponsor recipient streamId
  | .clawbackStream sponsor recipient streamId reason =>
    clawbackStream D host sponsor recipient streamId reason
  | .drainExpiredStream caller recipient => drainExpiredStream D host caller recipient
  | .emergencyDrain sponsor recipient => emergencyDrain D host sponsor recipient

/-- A call and what the network supplies for it. -/
structure Request where
  host : Host
  call : ContractCall

/-- The contract's environment and the ledger of the last request. -/
structure Chain where
  env : Env
  now : ℕ

/-- The request succeeds. -/
def Request.Ok (D : Deployment) (c : Chain) (q : Request) : Prop :=
  (exec D q.host q.call c.env).isOk = true

instance (D : Deployment) (c : Chain) (q : Request) : Decidable (q.Ok D c) := by
  unfold Request.Ok; infer_instance

/-- One request: rolled back if it fails. -/
def step (D : Deployment) (c : Chain) (q : Request) : Chain :=
  ⟨commit (exec D q.host q.call) c.env, q.host.sequence.toNat⟩

/-- Ledgers do not go back. -/
def Request.Legal (c : Chain) (q : Request) : Prop := c.now ≤ q.host.sequence.toNat

instance (c : Chain) (q : Request) : Decidable (q.Legal c) := by
  unfold Request.Legal; infer_instance

/-- A contract that was just deployed: nothing is stored. -/
def start (balances : Balances) : Chain := ⟨⟨∅, ∅, balances, []⟩, 0⟩

/-! ### What a request can do -/

/-- The calls that change the configuration only. -/
def ContractCall.isConfig : ContractCall → Bool
  | .initializeContract .. | .transferAdmin .. | .addAllowedToken .. | .removeAllowedToken ..
  | .setAllowlist .. | .setAllowlistEnabled .. | .setFee .. | .setMinDeposit .. | .setConfig .. =>
    true
  | _ => false

/-- The calls that go through `get_schedule`: the recipient whose legacy record they read, and the
recipient whose streams they change besides. -/
def ContractCall.viaLegacy : ContractCall → Option (Address × Address)
  | .pauseStream _ r | .resumeStream _ r | .pauseStreamSecond _ r | .resumeStreamSecond _ r
  | .drainExpiredStream _ r | .emergencyDrain _ r => some (r, r)
  | .transferRecipient r r' => some (r, r')
  | _ => none

/-- What a successful request does. -/
inductive Effect (D : Deployment) (host : Host) (env env' : Env) : ContractCall → Prop
  | config {call : ContractCall} (kind : call.isConfig = true)
      (persistent : env'.persistent = env.persistent) (balances : env'.balances = env.balances) :
      Effect D host env env' call
  | create {a : CreateArgs} {id : UInt32} {c : CreationReceipt}
      (h : Created D host a env id env' c) : Effect D host env env' (.createVestingStream a)
  | claim {r : Address} {streamId : Option UInt32} {amount : ℤ}
      (h : claimVested D host r streamId env = .ok (amount, env')) :
      Effect D host env env' (.claimVested r streamId)
  | cancel {sponsor r : Address} {k : UInt32} {s : VestingSchedule} {share refund : ℤ}
      (split : cancelSplit s host.sequence = .ok (share, refund))
      (h : Terminated D sponsor r k env env' s (max share 0 + max refund 0)) :
      Effect D host env env' (.cancelStream sponsor r k)
  | clawback {sponsor r : Address} {k : UInt32} {reason : String} {s : VestingSchedule}
      {remaining : ℤ} (amount : clawbackRemaining s = .ok remaining)
      (h : Terminated D sponsor r k env env' s (max remaining 0)) :
      Effect D host env env' (.clawbackStream sponsor r k reason)
  | viaLegacy {call : ContractCall} {r r' : Address} (kind : call.viaLegacy = some (r, r'))
      (found : (legacy env.persistent r).isSome = true)
      (same : SameOutside {r, r'} env.persistent env'.persistent) : Effect D host env env' call

variable {D : Deployment} {host : Host} {env env' : Env}

/-- **What a successful request does**, by its call. -/
theorem exec_ok (hD : D.ReadsById) {call : ContractCall} {u : Unit}
    (h : exec D host call env = .ok (u, env')) : Effect D host env env' call := by
  have config : ∀ {x : Call Unit}, ConfigOnly x → x env = .ok (u, env') → call.isConfig = true →
      Effect D host env env' call :=
    fun hx hok hkind => .config hkind (hx _ _ _ hok).1 (hx _ _ _ hok).2
  have hfst : ∀ r r' : Address, r ∈ ({r, r'} : Set Address) := fun r _ => Set.mem_insert r _
  cases call with
  | initializeContract admin feeBps treasury =>
    exact config (configOnly_initializeContract D host admin feeBps treasury) h rfl
  | transferAdmin admin newAdmin =>
    exact config (configOnly_transferAdmin D host admin newAdmin) h rfl
  | addAllowedToken admin token =>
    exact config (configOnly_addAllowedToken D host admin token) h rfl
  | removeAllowedToken admin token =>
    exact config (configOnly_removeAllowedToken D host admin token) h rfl
  | setAllowlist admin recipients allowed =>
    exact config (configOnly_setAllowlist D host admin recipients allowed) h rfl
  | setAllowlistEnabled admin enabled =>
    exact config (configOnly_setAllowlistEnabled D host admin enabled) h rfl
  | setFee admin feeBps treasury =>
    exact config (configOnly_setFee D host admin feeBps treasury) h rfl
  | setMinDeposit admin minDeposit =>
    exact config (configOnly_setMinDeposit D host admin minDeposit) h rfl
  | setConfig admin key value => exact config (configOnly_setConfig D host admin key value) h rfl
  | createVestingStream a =>
    obtain ⟨id, e, he, hpure⟩ := bind_ok.mp h
    obtain ⟨-, rfl⟩ := pure_ok.mp hpure
    obtain ⟨c, hc⟩ := createVestingStream_ok he
    exact .create hc
  | claimVested r streamId =>
    obtain ⟨amount, e, he, hpure⟩ := bind_ok.mp h
    obtain ⟨-, rfl⟩ := pure_ok.mp hpure
    exact .claim he
  | pauseStream sponsor r =>
    obtain ⟨s, s', -, hw⟩ := pauseStreamWith_ok h
    exact .viaLegacy rfl (isSome_legacy_of_getSchedule hw.found) (hw.sameOutside (hfst r r))
  | resumeStream sponsor r =>
    obtain ⟨s, s', -, hw⟩ := resumeStreamWith_ok h
    exact .viaLegacy rfl (isSome_legacy_of_getSchedule hw.found) (hw.sameOutside (hfst r r))
  | pauseStreamSecond sponsor r =>
    obtain ⟨s, s', -, hw⟩ := pauseStreamWith_ok h
    exact .viaLegacy rfl (isSome_legacy_of_getSchedule hw.found) (hw.sameOutside (hfst r r))
  | resumeStreamSecond sponsor r =>
    obtain ⟨s, s', -, hw⟩ := resumeStreamWith_ok h
    exact .viaLegacy rfl (isSome_legacy_of_getSchedule hw.found) (hw.sameOutside (hfst r r))
  | transferRecipient r r' =>
    obtain ⟨s, ht⟩ := transferRecipient_ok h
    have hr' : r' ∈ ({r, r'} : Set Address) := Set.mem_insert_of_mem r rfl
    exact .viaLegacy rfl (isSome_legacy_of_getSchedule ht.found) (ht.sameOutside (hfst r r') hr')
  | cancelStream sponsor r k =>
    obtain ⟨s, share, refund, hsplit, hterm⟩ := cancelStream_ok hD h
    exact .cancel hsplit hterm
  | clawbackStream sponsor r k reason =>
    obtain ⟨s, remaining, hrem, hterm⟩ := clawbackStream_ok hD h
    exact .clawback hrem hterm
  | drainExpiredStream caller r =>
    obtain ⟨s, remaining, -, hd⟩ := drainExpiredStream_ok h
    exact .viaLegacy rfl (isSome_legacy_of_getSchedule hd.found) (hd.sameOutside (hfst r r))
  | emergencyDrain sponsor r =>
    obtain ⟨s, amount, -, hd⟩ := emergencyDrain_ok h
    exact .viaLegacy rfl (isSome_legacy_of_getSchedule hd.found) (hd.sameOutside (hfst r r))

/-- **The request rule**: what holds before a request, and what every effect of it establishes,
holds after it. -/
theorem step_induct (hD : D.ReadsById) {c : Chain} {q : Request} {P : Env → Prop} (h0 : P c.env)
    (h : ∀ env', Effect D q.host c.env env' q.call → P env') : P (step D c q).env :=
  commit_induct h0 fun _ env' hok => h env' (exec_ok hD hok)

/-! ### The storage of a run from the empty one -/

/-- **The invariant of the storage** at ledger `now`: no legacy entry, no stream but those of id
`0`, and `NextStreamId`, which is never zero, set for every recipient of a stream. -/
structure StoreInv (st : Storage) (now : ℕ) : Prop where
  legacy : ∀ r, legacy st r = none
  live : ∀ r k s, scheduleAt st r k = some s →
    k = 0 ∧ RepInv s now ∧ storedNext st r ≠ none
  next : ∀ r n, storedNext st r = some n → 0 < n.toNat

section Invariant

variable {st : Storage} {now : ℕ} {r : Address} {k : UInt32} {s : VestingSchedule}

theorem scheduleAt_empty (r : Address) (k : UInt32) : scheduleAt ∅ r k = none := by
  have h1 : byId ∅ r k = none := Finmap.lookup_empty _
  have h2 : Storage.legacy ∅ r = none := Finmap.lookup_empty _
  unfold scheduleAt
  rw [h1, h2]
  simp

theorem storeInv_empty : StoreInv ∅ 0 where
  legacy _ := Finmap.lookup_empty _
  live r k s h := by
    rw [scheduleAt_empty] at h
    cases h
  next r n h := by
    have h1 : storedNext ∅ r = none := Finmap.lookup_empty _
    rw [h1] at h
    cases h

theorem StoreInv.mono {now' : ℕ} (h : StoreInv st now) (hle : now ≤ now') : StoreInv st now' where
  legacy := h.legacy
  live r k s hs := ⟨(h.live r k s hs).1, (h.live r k s hs).2.1.mono hle, (h.live r k s hs).2.2⟩
  next := h.next

theorem storeInv_set (h : StoreInv st now) (hs : RepInv s now) :
    StoreInv (setScheduleById st r 0 s) now where
  legacy r' := by
    rw [legacy_setScheduleById, h.legacy r']
    exact ite_self _
  live r' k' s' hs' := by
    rw [scheduleAt_setScheduleById] at hs'
    split_ifs at hs' with heq
    · obtain ⟨rfl, rfl⟩ := heq
      simp only [Option.some.injEq] at hs'
      subst hs'
      obtain ⟨n, hn, -⟩ := storedNext_setScheduleById st r' 0 s (by decide)
      exact ⟨rfl, hs, by rw [hn]; simp⟩
    · obtain ⟨h0, hinv, hnext⟩ := h.live r' k' s' hs'
      refine ⟨h0, hinv, ?_⟩
      by_cases hr : r' = r
      · subst hr
        obtain ⟨n, hn, -⟩ := storedNext_setScheduleById st r' 0 s (by decide)
        rw [hn]
        simp
      · rwa [storedNext_setScheduleById_of_ne _ _ _ _ _ hr]
  next r' n hn := by
    by_cases hr : r' = r
    · subst hr
      obtain ⟨m, hm, hmv⟩ := storedNext_setScheduleById st r' 0 s (by decide)
      rw [hm, Option.some.injEq] at hn
      subst hn
      omega
    · rw [storedNext_setScheduleById_of_ne _ _ _ _ _ hr] at hn
      exact h.next r' n hn

theorem storeInv_remove (h : StoreInv st now) : StoreInv (removeScheduleById st r k) now where
  legacy r' := by
    rw [legacy_removeScheduleById, h.legacy r']
    exact ite_self _
  live r' k' s' hs' := by
    rw [scheduleAt_removeScheduleById] at hs'
    split_ifs at hs'
    rw [storedNext_removeScheduleById]
    exact h.live r' k' s' hs'
  next r' n hn := by
    rw [storedNext_removeScheduleById] at hn
    exact h.next r' n hn

theorem storeInv_index {st' : Storage} (h : StoreInv st now)
    (hl : ∀ r, Storage.legacy st' r = Storage.legacy st r)
    (hs : ∀ r k, scheduleAt st' r k = scheduleAt st r k)
    (hn : ∀ r, storedNext st' r = storedNext st r) : StoreInv st' now where
  legacy r := by rw [hl]; exact h.legacy r
  live r k s hs' := by
    rw [hs] at hs'
    rw [hn]
    exact h.live r k s hs'
  next r n hn' := by
    rw [hn] at hn'
    exact h.next r n hn'

theorem storeInv_addSponsorStream (h : StoreInv st now) (sp r : Address) :
    StoreInv (addSponsorStream st sp r) now :=
  storeInv_index h (fun _ => legacy_addSponsorStream _ _ _ _)
    (fun _ _ => scheduleAt_addSponsorStream _ _ _ _ _) fun _ => storedNext_addSponsorStream _ _ _ _

theorem storeInv_removeSponsorStream (h : StoreInv st now) (sp r : Address) :
    StoreInv (removeSponsorStream st sp r) now :=
  storeInv_index h (fun _ => legacy_removeSponsorStream _ _ _ _)
    (fun _ _ => scheduleAt_removeSponsorStream _ _ _ _ _)
    fun _ => storedNext_removeSponsorStream _ _ _ _

theorem storeInv_next (h : StoreInv st now) {n : UInt32} (hn : 0 < n.toNat) :
    StoreInv (st.insert (.nextStreamId r) n) now where
  legacy r' := by rw [legacy_insert_nextStreamId]; exact h.legacy r'
  live r' k' s' hs' := by
    rw [scheduleAt_insert_nextStreamId] at hs'
    obtain ⟨h0, hinv, hnext⟩ := h.live r' k' s' hs'
    refine ⟨h0, hinv, ?_⟩
    rw [storedNext_insert_nextStreamId]
    split_ifs
    · simp
    · exact hnext
  next r' m hm := by
    rw [storedNext_insert_nextStreamId] at hm
    split_ifs at hm
    · simp only [Option.some.injEq] at hm
      subst hm
      exact hn
    · exact h.next r' m hm

end Invariant

section Steps

variable {now : ℕ}

theorem storeInv_created {a : CreateArgs} {id : UInt32} {c : CreationReceipt}
    (hinv : StoreInv env.persistent host.sequence.toNat) (h : Created D host a env id env' c) :
    StoreInv env'.persistent host.sequence.toNat := by
  obtain ⟨-, n, hn, hres⟩ := nextStreamId_ok _ _ _ h.id
  rw [h.persistent, hres]
  refine storeInv_addSponsorStream (storeInv_set (storeInv_next hinv ?_) (repInv_created h)) _ _
  omega

/-- A paid stream has id `0`, and what it leaves behind satisfies the invariant. -/
theorem storeInv_paid {r : Address} {k : UInt32} {s : VestingSchedule} {rc : ClaimReceipt}
    (hinv : StoreInv env.persistent host.sequence.toNat)
    (h : StreamPaid D host r k env env' s rc) :
    StoreInv env'.persistent host.sequence.toNat := by
  obtain ⟨rfl, hrep, -⟩ := hinv.live r k s h.live
  rw [h.persistent]
  unfold afterClaim
  split_ifs
  · exact storeInv_remove hinv
  · exact storeInv_set hinv (repInv_claim hrep h.receipt)

theorem storeInv_claim (hD : D.ReadsById) {r : Address} {streamId : Option UInt32} {amount : ℤ}
    (hinv : StoreInv env.persistent host.sequence.toNat)
    (h : claimVested D host r streamId env = .ok (amount, env')) :
    StoreInv env'.persistent host.sequence.toNat := by
  refine (claimVested_induct (P := fun _ e => StoreInv e.persistent host.sequence.toNat) h
    (fun k _ acc e x e1 he hx => ?_) hinv).1
  rcases claimStream_ok hD hx with ⟨-, rfl⟩ | ⟨s, rc, hpaid, -⟩
  · exact he
  · exact storeInv_paid he hpaid

theorem storeInv_terminated {sponsor r : Address} {k : UInt32} {s : VestingSchedule} {bound : ℤ}
    (hinv : StoreInv env.persistent now) (h : Terminated D sponsor r k env env' s bound) :
    StoreInv env'.persistent now := by
  rw [h.persistent]
  exact storeInv_removeSponsorStream (storeInv_remove hinv) _ _

/-- **One request keeps the invariant.** -/
theorem storeInv_step (hD : D.ReadsById) (c : Chain) (q : Request)
    (hinv : StoreInv c.env.persistent c.now) (hl : q.Legal c) :
    StoreInv (step D c q).env.persistent (step D c q).now := by
  have hnow := hinv.mono hl
  refine step_induct hD (P := fun e => StoreInv e.persistent q.host.sequence.toNat) hnow ?_
  intro env' heff
  generalize q.call = call at heff
  cases heff with
  | config _ hp _ => rw [hp]; exact hnow
  | create h => exact storeInv_created hnow h
  | claim h => exact storeInv_claim hD hnow h
  | cancel _ h => exact storeInv_terminated hnow h
  | clawback _ h => exact storeInv_terminated hnow h
  | viaLegacy _ hfound _ => rw [hinv.legacy] at hfound; cases hfound

/-- **Every state of a run from the empty storage satisfies the invariant.** -/
theorem storeInv_run (hD : D.ReadsById) (balances : Balances) {requests : List Request}
    (hl : AllSteps (step D) (fun c q => q.Legal c) (start balances) requests) :
    StoreInv (run (step D) (start balances) requests).env.persistent
      (run (step D) (start balances) requests).now := by
  show (fun c : Chain => StoreInv c.env.persistent c.now) (run (step D) (start balances) requests)
  exact run_induct (storeInv_step hD) storeInv_empty hl

end Steps

/-! ### Requests for examples -/

/-- The contract is initialised and the sample stream is created. -/
def sampleFirst : List Request :=
  [⟨sampleHost 1, .initializeContract ⟨9⟩ 0 ⟨8⟩⟩, ⟨sampleHost 100, .createVestingStream sampleArgs⟩]

/-- Another sponsor creates a stream for the same recipient. -/
def sampleSecond : Request :=
  ⟨sampleHost 110, .createVestingStream { sampleArgs with sponsor := ⟨3⟩ }⟩

end VestingDripStream.Contract.Requests
