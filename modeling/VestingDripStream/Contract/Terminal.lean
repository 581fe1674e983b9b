import VestingDripStream.Contract.Requests

/-! # Terminal operations

`cancel_stream` and `clawback_stream` read the stream `(r, k)` and pay it out, and then remove the
schedule of `r` by recipient, which is the one under id `0`. For `k = 0` that is the stream that was
paid out: it is gone, no other stream is touched, and no later call on `(r, 0)` succeeds until a new
stream is stored there (`absent_step`). For every other `k` the stream stays and can be paid out
again (`scheduleAt_terminated`). -/

namespace VestingDripStream.Contract.Terminal

open VestingDripStream.Lib.Checked VestingDripStream.Lib.Transaction VestingDripStream.Lib.Run
open VestingDripStream.Contract.Types VestingDripStream.Contract.Storage
open VestingDripStream.Contract.Schedule VestingDripStream.Contract.EntryPoints
open VestingDripStream.Contract.Effects VestingDripStream.Contract.Requests

/-- The call is to end the stream `(r, k)`. -/
def Ends (r : Address) (k : UInt32) : ContractCall → Prop
  | .cancelStream _ r' k' => r' = r ∧ k' = k
  | .clawbackStream _ r' k' _ => r' = r ∧ k' = k
  | _ => False

/-- The call asks for the stream `(r, k)`: to end it, or to claim it. -/
def AsksFor (r : Address) (k : UInt32) : ContractCall → Prop
  | .cancelStream _ r' k' => r' = r ∧ k' = k
  | .clawbackStream _ r' k' _ => r' = r ∧ k' = k
  | .claimVested r' streamId => r' = r ∧ streamId = some k
  | _ => False

/-- The call may store a new stream for `r`. -/
def MayStore (r : Address) : ContractCall → Prop
  | .createVestingStream a => a.recipient = r
  | .transferRecipient _ newRecipient => newRecipient = r
  | _ => False

/-- **A terminal operation is exact and final** on `(r, k)`: the stream is gone, every other one is
as it was, and as long as no new stream is stored for `r` no call for `(r, k)` succeeds. -/
structure TerminalExact (D : Deployment) (r : Address) (k : UInt32) (env env' : Env) : Prop where
  absent : scheduleAt env'.persistent r k = none
  others : ∀ r' k', ¬ (r' = r ∧ k' = k) →
    scheduleAt env'.persistent r' k' = scheduleAt env.persistent r' k'
  final : ∀ now requests,
    AllSteps (step D) (fun _ q => ¬ MayStore r q.call) ⟨env', now⟩ requests →
    AllSteps (step D) (fun c q => AsksFor r k q.call → ¬ q.Ok D c) ⟨env', now⟩ requests

section Streams

variable {D : Deployment} {host : Host} {env env' : Env} {r : Address} {k : UInt32}

/-- A call that goes through `get_schedule` changes the streams of the recipient it reads, or it is
a transfer. -/
theorem eq_or_mayStore_of_viaLegacy {call : ContractCall} {r r' : Address}
    (h : call.viaLegacy = some (r, r')) : r' = r ∨ MayStore r' call := by
  cases call <;> simp only [ContractCall.viaLegacy, Option.some.injEq, Prod.mk.injEq,
    reduceCtorEq] at h
  all_goals obtain ⟨rfl, rfl⟩ := h
  all_goals first
    | exact Or.inl rfl
    | exact Or.inr rfl

/-- **An absent stream stays absent** under every request that stores no new one for its
recipient. -/
theorem absent_step (hD : D.ReadsById) (c : Chain) (q : Request)
    (h : scheduleAt c.env.persistent r 0 = none) (hq : ¬ MayStore r q.call) :
    scheduleAt (step D c q).env.persistent r 0 = none := by
  refine step_induct hD (P := fun e => scheduleAt e.persistent r 0 = none) h ?_
  intro env' heff
  generalize q.call = call at heff hq
  cases heff with
  | config _ hp _ => rw [hp]; exact h
  | create hc => rw [sameOutside_created hc r (fun hr => hq hr.symm) 0]; exact h
  | claim hc =>
    refine (claimVested_induct (P := fun _ e => scheduleAt e.persistent r 0 = none) hc
      (fun k _ acc e x e1 he hx => ?_) h).1
    rcases claimStream_ok hD hx with ⟨-, rfl⟩ | ⟨s, rc, hpaid, -⟩
    · exact he
    · -- a paid stream was live, so it is another one
      rw [hpaid.persistent, scheduleAt_afterClaim_of_ne, he]
      rintro ⟨rfl, rfl⟩
      have hlive := hpaid.live
      rw [he] at hlive
      cases hlive
  | cancel _ ht => rw [scheduleAt_terminated ht, h]; exact ite_self _
  | clawback _ ht => rw [scheduleAt_terminated ht, h]; exact ite_self _
  | @viaLegacy _ r1 r2 kind found same =>
    have hr1 : r ≠ r1 := by
      rintro rfl
      unfold scheduleAt at h
      cases hb : byId c.env.persistent r 0 with
      | some s => rw [hb] at h; cases h
      | none =>
        rw [hb] at h
        simp only [if_true] at h
        rw [h] at found
        cases found
    have hr2 : r ≠ r2 := by
      rintro rfl
      rcases eq_or_mayStore_of_viaLegacy kind with heq | hstore
      · exact hr1 heq
      · exact hq hstore
    rw [same r (by simp [hr1, hr2]) 0]
    exact h

/-- A claim of one stream that succeeds finds it. -/
theorem isSome_of_claim (hD : D.ReadsById) {amount : ℤ}
    (h : claimVested D host r (some k) env = .ok (amount, env')) :
    (scheduleAt env.persistent r k).isSome = true := by
  have hturn : ∀ k', (∀ k'', some k = some k'' → k'' = k') → ∀ acc e x e1,
      ((acc = 0 ∧ e = env) ∨ (scheduleAt env.persistent r k).isSome = true) →
      claimStream D host r (some k).isSome k' e = .ok (x, e1) →
      (acc + x = 0 ∧ e1 = env) ∨ (scheduleAt env.persistent r k).isSome = true := by
    intro k' hk' acc e x e1 he hx
    obtain rfl := hk' k rfl
    rcases he with ⟨rfl, rfl⟩ | hlive
    · rcases claimStream_ok hD hx with ⟨rfl, rfl⟩ | ⟨s, rc, hpaid, -⟩
      · exact Or.inl ⟨rfl, rfl⟩
      · exact Or.inr (by rw [hpaid.live]; rfl)
    · exact Or.inr hlive
  obtain ⟨hP, hne⟩ := claimVested_induct h hturn (Or.inl ⟨rfl, rfl⟩)
  rcases hP with ⟨h0, -⟩ | hlive
  · exact absurd h0 hne
  · exact hlive

theorem not_asksFor_of_isConfig {call : ContractCall} (h : call.isConfig = true) :
    ¬ AsksFor r k call := by
  cases call <;> simp [ContractCall.isConfig, AsksFor] at h ⊢

theorem not_asksFor_of_viaLegacy {call : ContractCall} {p : Address × Address}
    (h : call.viaLegacy = some p) : ¬ AsksFor r k call := by
  cases call <;> simp [ContractCall.viaLegacy, AsksFor] at h ⊢

theorem asksFor_of_ends {call : ContractCall} (h : Ends r k call) : AsksFor r k call := by
  cases call <;> first | exact h | exact h.elim

/-- A request for a stream succeeds only if the stream is there. -/
theorem isSome_of_asksFor (hD : D.ReadsById) {c : Chain} {q : Request} (hask : AsksFor r k q.call)
    (hok : q.Ok D c) : (scheduleAt c.env.persistent r k).isSome = true := by
  obtain ⟨⟨u, env'⟩, h⟩ := exists_ok_of_isOk hok
  have heff := exec_ok hD h
  generalize q.call = call at heff hask
  cases heff with
  | claim hc =>
    obtain ⟨rfl, rfl⟩ := hask
    exact isSome_of_claim hD hc
  | cancel _ ht =>
    obtain ⟨rfl, rfl⟩ := hask
    rw [ht.live]
    rfl
  | clawback _ ht =>
    obtain ⟨rfl, rfl⟩ := hask
    rw [ht.live]
    rfl
  | config kind _ _ => exact absurd hask (not_asksFor_of_isConfig kind)
  | create _ => exact hask.elim
  | viaLegacy kind _ _ => exact absurd hask (not_asksFor_of_viaLegacy kind)

/-- Once the stream is absent, no later call for it succeeds. -/
theorem final_of_absent (hD : D.ReadsById) {c : Chain} {requests : List Request}
    (h : scheduleAt c.env.persistent r 0 = none)
    (hreq : AllSteps (step D) (fun _ q => ¬ MayStore r q.call) c requests) :
    AllSteps (step D) (fun c q => AsksFor r 0 q.call → ¬ q.Ok D c) c requests := by
  induction requests generalizing c with
  | nil => exact trivial
  | cons q rest ih =>
    refine ⟨fun hask hok => ?_, ih (absent_step hD c q h hreq.1) hreq.2⟩
    have hlive := isSome_of_asksFor hD hask hok
    rw [h] at hlive
    cases hlive

/-- A successful call that ends `(r, k)`, of either kind. -/
theorem terminated_of_ends (hD : D.ReadsById) {call : ContractCall} {u : Unit}
    (hcall : Ends r k call) (h : exec D host call env = .ok (u, env')) :
    ∃ sponsor s bound, Terminated D sponsor r k env env' s bound := by
  have heff := exec_ok hD h
  cases heff with
  | cancel _ ht => obtain ⟨rfl, rfl⟩ := hcall; exact ⟨_, _, _, ht⟩
  | clawback _ ht => obtain ⟨rfl, rfl⟩ := hcall; exact ⟨_, _, _, ht⟩
  | config kind _ _ => exact absurd (asksFor_of_ends hcall) (not_asksFor_of_isConfig kind)
  | create _ => exact hcall.elim
  | claim _ => exact hcall.elim
  | viaLegacy kind _ _ => exact absurd (asksFor_of_ends hcall) (not_asksFor_of_viaLegacy kind)

/-- **A successful `cancel_stream` or `clawback_stream` is exact and final exactly on id `0`.** -/
theorem terminalExact_iff (hD : D.ReadsById) {call : ContractCall} (hcall : Ends r k call)
    (h : exec D host call env = .ok ((), env')) : TerminalExact D r k env env' ↔ k = 0 := by
  obtain ⟨sponsor, s, bound, ht⟩ := terminated_of_ends hD hcall h
  constructor
  · intro hexact
    by_contra hk
    have habs := hexact.absent
    rw [scheduleAt_terminated ht, if_neg (fun heq => hk heq.2), ht.live] at habs
    cases habs
  · rintro rfl
    have habs : scheduleAt env'.persistent r 0 = none := by
      rw [scheduleAt_terminated ht, if_pos ⟨rfl, rfl⟩]
    refine ⟨habs, fun r' k' hne => ?_, fun now requests hreq => ?_⟩
    · rw [scheduleAt_terminated ht, if_neg hne]
    · exact final_of_absent hD habs hreq

end Streams

/-- Recipient `2` has the sample stream under ids `0` and `1`, and the vault can pay for both. -/
def sampleTwoStreams : Env :=
  { sampleEnv with
    persistent := setScheduleById (setScheduleById ∅ ⟨2⟩ 0 sampleStream) ⟨2⟩ 1 sampleStream
    balances := fun _ _ => 10000000000 }

theorem terminalExact_iff_sample :
    ∃ env', exec sampleDeployment (sampleHost 120) (.clawbackStream ⟨1⟩ ⟨2⟩ 0 "exit")
        sampleTwoStreams = .ok ((), env') ∧
      (TerminalExact sampleDeployment ⟨2⟩ 0 sampleTwoStreams env' ↔ (0 : UInt32) = 0) := by
  obtain ⟨⟨u, env'⟩, h⟩ := exists_ok_of_isOk (x := exec sampleDeployment (sampleHost 120)
    (.clawbackStream ⟨1⟩ ⟨2⟩ 0 "exit") sampleTwoStreams) (by decide +kernel)
  have hends : Ends ⟨2⟩ 0 (.clawbackStream ⟨1⟩ ⟨2⟩ 0 "exit") := ⟨rfl, rfl⟩
  exact ⟨env', h, terminalExact_iff sampleDeployment_readsById hends h⟩

/-- Cancelling stream `1` of recipient `2` pays it out, leaves it in place and removes stream
`0`. -/
theorem terminalExact_one_false :
    ∃ env', exec sampleDeployment (sampleHost 120) (.cancelStream ⟨1⟩ ⟨2⟩ 1) sampleTwoStreams =
        .ok ((), env') ∧ ¬ TerminalExact sampleDeployment ⟨2⟩ 1 sampleTwoStreams env' := by
  obtain ⟨⟨u, env'⟩, h⟩ := exists_ok_of_isOk (x := exec sampleDeployment (sampleHost 120)
    (.cancelStream ⟨1⟩ ⟨2⟩ 1) sampleTwoStreams) (by decide +kernel)
  refine ⟨env', h, fun hexact => ?_⟩
  have hstays : scheduleAt (commit (exec sampleDeployment (sampleHost 120)
      (.cancelStream ⟨1⟩ ⟨2⟩ 1)) sampleTwoStreams).persistent ⟨2⟩ 1 = some sampleStream := by
    decide +kernel
  rw [commit_of_ok h, hexact.absent] at hstays
  cases hstays

end VestingDripStream.Contract.Terminal
