import VestingDripStream.Contract.AllRequests

/-! # Who may hold which stream

Two properties of the recipients of streams, over runs of all entry points.

* No one streams to himself (`noSelfStreams`): every creation checks it, and a run from the empty
  storage never moves a stream, as `transfer_recipient` finds legacy records only. From a storage
  with legacy records a transfer to the sponsor is the one step that breaks it.
* No recipient has a fixed-rate and a variable-rate stream (`OneKind`): only
  `create_variable_rate_stream` checks it. `oneKind_iff` is the exact condition on a run. -/

namespace VestingDripStream.Contract.Recipients

open VestingDripStream.Lib.Checked VestingDripStream.Lib.Transaction VestingDripStream.Lib.Run
open VestingDripStream.Contract.Types VestingDripStream.Contract.Storage
open VestingDripStream.Contract.Schedule VestingDripStream.Contract.EntryPoints
open VestingDripStream.Contract.Effects VestingDripStream.Contract.Stream
open VestingDripStream.Contract.Requests VestingDripStream.Contract.VariableRate
open VestingDripStream.Contract.AllRequests

/-! ### Streams to oneself -/

/-- No schedule is stored for its own sponsor. -/
structure NoSelfStreams (st : Storage) : Prop where
  fixedRate : ∀ r s, Stored st r s → s.sponsor ≠ r
  variableRate : ∀ r v, getVariableSchedule st r = some v → v.sponsor ≠ r

/-- `cancel_stream` refuses the sponsor of no live stream for being its recipient. -/
def SponsorsCanCancel (D : Deployment) (env : Env) : Prop :=
  ∀ host r k s, scheduleAt env.persistent r k = some s →
    cancelStream D host s.sponsor r k env ≠ .error (.err .invalidRecipient)

/-- A transfer moves no stream to its sponsor. -/
def NotToSponsor (D : Deployment) (env : Env) (q : AnyRequest) : Prop :=
  q.Ok D env → ∀ r r' s, q.call.moves = some (r, r') → legacy env.persistent r = some s →
    s.sponsor ≠ r'

section Cancel

variable {D : Deployment} {host : Host} {env : Env}

theorem avoids_lockedTransfer (token dst : Address) (x : ℤ) :
    Avoids (.err .invalidRecipient) (lockedTransfer D host token dst x) := by
  refine (avoids_asks _).bind fun inst => (avoids_ensure (Or.inr (by decide))).bind fun _ =>
    (avoids_update _).bind fun _ => Avoids.bind ?_ fun _ => avoids_update _
  intro e
  unfold tryTransfer
  split <;> simp

/-- The check of `cancel_stream` on its recipient is the only one that fails with
`InvalidRecipient`. -/
theorem cancelStream_ne_invalidRecipient {sponsor r : Address} (k : UInt32) (h : sponsor ≠ r) :
    Avoids (.err .invalidRecipient) (cancelStream D host sponsor r k) := by
  refine (avoids_ensure (Or.inr (by decide))).bind fun _ => (avoids_ensure (Or.inl h)).bind fun _ =>
    (avoids_asks _).bind fun st => (avoids_need (by decide)).bind fun s =>
      (avoids_ensure (Or.inr (by decide))).bind fun _ =>
        (avoids_compute ((onlyOverflows_cancelSplit s _).ne (by decide))).bind fun p => ?_
  exact (avoids_onlyIf (avoids_lockedTransfer _ _ _)).bind fun _ =>
    (avoids_onlyIf (avoids_lockedTransfer _ _ _)).bind fun _ =>
      (avoids_update _).bind fun _ => avoids_update _

theorem sponsorsCanCancel (h : NoSelfStreams env.persistent) : SponsorsCanCancel D env :=
  fun _ r k s hs => cancelStream_ne_invalidRecipient k
    (h.fixedRate r s (stored_of_scheduleAt hs)) env

end Cancel

section SelfStreams

variable {D : Deployment} {host : Host} {env env' : Env}

theorem noSelfStreams_empty : NoSelfStreams ∅ where
  fixedRate r s hs := by
    obtain ⟨k, s', hs'⟩ := exists_stored_iff.mp ⟨s, hs⟩
    rw [scheduleAt_empty] at hs'
    cases hs'
  variableRate r v hv := by
    have h : getVariableSchedule ∅ r = none := Finmap.lookup_empty _
    rw [h] at hv
    cases hv

/-- A successful request keeps the property, unless it moves a stream to its sponsor. -/
theorem noSelfStreams_of_effect (hD : D.ReadsById) {call : AnyCall}
    (h : AnyEffect D host env env' call) (hno : NoSelfStreams env.persistent)
    (hmove : ∀ r r' s, call.moves = some (r, r') → legacy env.persistent r = some s →
      s.sponsor ≠ r') : NoSelfStreams env'.persistent where
  fixedRate r s hs := by
    rcases newStreams_of_effect hD h r s hs with ⟨s0, hs0, heq⟩ | hnew
    · rw [← heq]
      exact hno.fixedRate r s0 hs0
    · cases hnew with
      | created _ _ hne => exact hne
      | moved hmoves hfound heq =>
        rw [← heq]
        exact hmove _ r _ hmoves hfound
  variableRate r v hv := by
    rcases variable_origin hD h hv with ⟨v0, hv0, heq⟩ | ⟨-, -, hne, -⟩
    · rw [← heq]
      exact hno.variableRate r v0 hv0
    · exact hne

/-- A transfer stores what it moves. -/
theorem stored_of_moves {call : AnyCall} {r r' : Address} {s : VestingSchedule} {u : Unit}
    (hmoves : call.moves = some (r, r')) (hs : legacy env.persistent r = some s)
    (h : execAny D host call env = .ok (u, env')) :
    ∃ s', Stored env'.persistent r' s' ∧ s'.sponsor = s.sponsor := by
  have htransfer : transferRecipient D host r r' env = .ok (u, env') := by
    cases call with
    | fixed base => cases base <;> first | cases hmoves; exact h | cases hmoves
    | transferStream a b => cases hmoves; exact h
    | _ => cases hmoves
  obtain ⟨s', ht⟩ := transferRecipient_ok htransfer
  obtain ⟨s0, hl, heq⟩ := getSchedule_some ht.found
  rw [hs] at hl
  obtain rfl := Option.some.inj hl
  refine ⟨s', ?_, by rw [heq]⟩
  rw [ht.persistent, stored_addSponsorStream, stored_removeSponsorStream]
  exact Or.inl ⟨0, by rw [setSchedule, byId_setScheduleById, if_pos ⟨rfl, rfl⟩]⟩

/-- **One request** keeps the property exactly if it moves no stream to its sponsor. -/
theorem noSelfStreams_step_iff (hD : D.ReadsById) (env : Env) (q : AnyRequest)
    (hno : NoSelfStreams env.persistent) :
    NoSelfStreams (stepAny D env q).persistent ↔ NotToSponsor D env q := by
  by_cases hok : q.Ok D env
  · obtain ⟨⟨u, env'⟩, h⟩ := exists_ok_of_isOk hok
    have hstep : stepAny D env q = env' := commit_of_ok h
    rw [hstep]
    constructor
    · intro hno' _ r r' s hmoves hs
      obtain ⟨s', hs', heq⟩ := stored_of_moves hmoves hs h
      rw [← heq]
      exact hno'.fixedRate r' s' hs'
    · intro hmove
      exact noSelfStreams_of_effect hD (execAny_ok hD h) hno (hmove hok)
  · have hstep : stepAny D env q = env := commit_of_not_isOk hok
    rw [hstep]
    exact ⟨fun _ hok' => absurd hok' hok, fun _ => hno⟩

/-- A flat storage has nothing to move. -/
theorem notToSponsor_of_flat (h : Flat env.persistent) (q : AnyRequest) :
    NotToSponsor D env q := by
  intro _ r r' s _ hs
  rw [h.noLegacy r] at hs
  cases hs

/-- **No one streams to himself**, in any state of any run of the entry points from the empty
storage, and so `cancel_stream` refuses no sponsor for it. From any other storage without such a
stream it stays so exactly as long as no transfer moves a stream to its sponsor. -/
theorem noSelfStreams (hD : D.ReadsById) (requests : List AnyRequest) :
    (∀ balances, AllStates (stepAny D)
      (fun env => NoSelfStreams env.persistent ∧ SponsorsCanCancel D env) (emptyEnv balances)
      requests) ∧
    ∀ env, NoSelfStreams env.persistent →
      (AllStates (stepAny D) (fun env => NoSelfStreams env.persistent) env requests ↔
        AllSteps (stepAny D) (NotToSponsor D) env requests) := by
  constructor
  · intro balances
    have hinv : AllStates (stepAny D)
        (fun env => Flat env.persistent ∧ NoSelfStreams env.persistent) (emptyEnv balances)
        requests := by
      refine allStates_of_step (fun env q h => ?_) ⟨flat_empty, noSelfStreams_empty⟩
      exact ⟨flat_step hD env q h.1,
        (noSelfStreams_step_iff hD env q h.2).mpr (notToSponsor_of_flat h.1 q)⟩
    exact hinv.imp fun env h => ⟨h.2, sponsorsCanCancel h.2⟩
  · intro env hno
    exact allStates_iff_of_step (noSelfStreams_step_iff hD) hno

end SelfStreams

/-- Sponsor `1` streams token `10` to `r` at rate `1` for 100 ledgers and at rate `3` for another
100. -/
def sampleVariableArgs (r : Address) : VariableArgs where
  sponsor := ⟨1⟩
  recipient := r
  token := ⟨10⟩
  cliffDuration := 50
  segments := [(200, 1), (300, 3)]

/-- The contract is initialised, a stream is created, refused to its sponsor, and claimed. -/
def sampleRun : List AnyRequest :=
  [⟨sampleHost 1, .fixed (.initializeContract ⟨9⟩ 0 ⟨8⟩)⟩,
    ⟨sampleHost 100, .createVariableRateStream (sampleVariableArgs ⟨2⟩)⟩,
    ⟨sampleHost 120, .transferStream ⟨2⟩ ⟨1⟩⟩, ⟨sampleHost 160, .claimVariableVested ⟨2⟩⟩]

theorem noSelfStreams_sample :
    AllStates (stepAny sampleDeployment)
      (fun env => NoSelfStreams env.persistent ∧ SponsorsCanCancel sampleDeployment env)
      (emptyEnv sampleStart.balances) sampleRun :=
  (noSelfStreams sampleDeployment_readsById sampleRun).1 _

/-! ### One kind of stream per recipient -/

/-- No recipient has both a fixed-rate and a variable-rate stream. -/
def OneKind (st : Storage) : Prop :=
  ∀ r s, Stored st r s → getVariableSchedule st r = none

/-- A creation of fixed-rate streams finds no variable-rate stream of its recipients. -/
def FindsNoVariable (D : Deployment) (env : Env) (q : AnyRequest) : Prop :=
  q.Ok D env → ∀ r ∈ q.call.fixedRecipients, getVariableSchedule env.persistent r = none

instance (D : Deployment) (env : Env) (q : AnyRequest) : Decidable (FindsNoVariable D env q) := by
  unfold FindsNoVariable; infer_instance

section OneKind

variable {D : Deployment} {host : Host} {env env' : Env}

theorem oneKind_empty : OneKind ∅ := fun _ _ _ => Finmap.lookup_empty _

/-- In a flat storage `has_schedule` sees every stream. -/
theorem hasSchedule_of_stored {st : Storage} {r : Address} {s : VestingSchedule} (h : Flat st)
    (hs : Stored st r s) : hasSchedule st r = true := by
  unfold hasSchedule
  rcases hs with ⟨k, hk⟩ | hl
  · obtain rfl := h.ids r k (by rw [hk]; rfl)
    rw [hk]
    rfl
  · rw [h.noLegacy r] at hl
    cases hl

/-- A creation of fixed-rate streams touches no variable-rate schedule. -/
theorem getVariableSchedule_of_named (hD : D.ReadsById) {call : AnyCall}
    (h : AnyEffect D host env env' call) {r : Address} (hr : r ∈ call.fixedRecipients) :
    getVariableSchedule env'.persistent r = getVariableSchedule env.persistent r := by
  cases h with
  | fixed _ h => exact (tame_of_fixed hD h).segmented r
  | batch h => exact (tame_batch h.stored).segmented r
  | variableRate kind _ => rcases kind with rfl | rfl <;> cases hr
  | claimVariable kind _ => rcases kind with rfl | rfl <;> cases hr

/-- A batch keeps the streams there are and adds one for each entry. -/
theorem exists_stored_batch {sponsor token : Address} {streams : List BatchEntry}
    {st st' : Storage} (h : BatchStored host sponsor token streams st st') {r : Address}
    (hr : (∃ s, Stored st r s) ∨ r ∈ streams.map (·.recipient)) : ∃ s, Stored st' r s := by
  induction h with
  | nil st => exact hr.resolve_right (by simp)
  | @cons e rest st st' cliff fin _ _ _ ih =>
    refine ih ?_
    rw [exists_stored_iff]
    simp only [scheduleAt_addSponsorStream, setSchedule, scheduleAt_setScheduleById]
    by_cases heq : r = e.recipient
    · exact Or.inl ⟨0, _, if_pos ⟨heq, rfl⟩⟩
    · rcases hr with hold | hin
      · obtain ⟨k, s, hs⟩ := exists_stored_iff.mp hold
        exact Or.inl ⟨k, s, by rw [if_neg fun h => heq h.1]; exact hs⟩
      · rw [List.map_cons, List.mem_cons] at hin
        exact Or.inr (hin.resolve_left heq)

theorem create_of_named {call : AnyCall} {base : ContractCall} {r : Address}
    (hbase : call.base = some base) (hr : r ∈ call.fixedRecipients) :
    ∃ a, base = .createVestingStream a ∧ r = a.recipient := by
  cases call with
  | fixed base' =>
    cases hbase
    cases base with
    | createVestingStream a => exact ⟨a, rfl, List.mem_singleton.mp hr⟩
    | _ => cases hr
  | createVestingStreamWithMeta a =>
    cases hbase
    exact ⟨a, rfl, List.mem_singleton.mp hr⟩
  | createMilestoneStream a =>
    cases hbase
    exact ⟨a, rfl, List.mem_singleton.mp hr⟩
  | _ => cases hbase <;> cases hr

/-- A creation stores a stream for every recipient it names. -/
theorem exists_stored_of_named {call : AnyCall} (h : AnyEffect D host env env' call) {r : Address}
    (hr : r ∈ call.fixedRecipients) : ∃ s, Stored env'.persistent r s := by
  cases h with
  | fixed hbase h =>
    obtain ⟨a, rfl, rfl⟩ := create_of_named hbase hr
    cases h with
    | create _ _ h => exact ⟨_, stored_of_scheduleAt (scheduleAt_created h)⟩
    | config kind _ => cases kind
    | rewritten kind _ _ => cases kind
    | terminated kind _ => rcases kind with h | ⟨_, h⟩ <;> cases h
    | drained kind _ => cases kind
  | batch h => exact exists_stored_batch h.stored (Or.inr hr)
  | variableRate kind _ => rcases kind with rfl | rfl <;> cases hr
  | claimVariable kind _ => rcases kind with rfl | rfl <;> cases hr

/-- **One request** keeps the property exactly if its creations of fixed-rate streams find no
variable-rate stream. -/
theorem oneKind_step_iff (hD : D.ReadsById) (env : Env) (q : AnyRequest)
    (hflat : Flat env.persistent)
    (hone : OneKind env.persistent) :
    OneKind (stepAny D env q).persistent ↔ FindsNoVariable D env q := by
  by_cases hok : q.Ok D env
  · obtain ⟨⟨u, env'⟩, h⟩ := exists_ok_of_isOk hok
    have hstep : stepAny D env q = env' := commit_of_ok h
    have heff := execAny_ok hD h
    rw [hstep]
    constructor
    · intro hone' _ r hr
      obtain ⟨s, hs⟩ := exists_stored_of_named heff hr
      rw [← getVariableSchedule_of_named hD heff hr]
      exact hone' r s hs
    · intro hfind r s hs
      rcases newStreams_of_effect hD heff r s hs with ⟨s0, hs0, -⟩ | hnew
      · -- an old stream: a variable-rate creation would have seen it
        by_contra hsome
        obtain ⟨v, hv⟩ := Option.ne_none_iff_exists'.mp hsome
        rcases variable_origin hD heff hv with ⟨v0, hv0, -⟩ | ⟨-, -, -, hfree⟩
        · rw [hone r s0 hs0] at hv0
          cases hv0
        · rw [hasSchedule_of_stored hflat hs0] at hfree
          cases hfree
      · cases hnew with
        | created hnamed _ _ =>
          rw [getVariableSchedule_of_named hD heff hnamed]
          exact hfind hok r hnamed
        | moved _ hfound _ =>
          rw [hflat.noLegacy] at hfound
          cases hfound
  · have hstep : stepAny D env q = env := commit_of_not_isOk hok
    rw [hstep]
    exact ⟨fun _ hok' => absurd hok' hok, fun _ => hone⟩

/-- **One kind of stream per recipient.** In a run of the entry points from the empty storage no
recipient ever has both kinds of stream exactly if every creation of fixed-rate streams finds no
variable-rate stream of its recipients. -/
theorem oneKind_iff (hD : D.ReadsById) (balances : Balances) (requests : List AnyRequest) :
    AllStates (stepAny D) (fun env => OneKind env.persistent) (emptyEnv balances) requests ↔
      AllSteps (stepAny D) (FindsNoVariable D) (emptyEnv balances) requests := by
  refine allStates_iff_allSteps (P := fun _ _ => True)
    (fun env q (h : Flat env.persistent) _ => flat_step hD env q h)
    (fun env q h _ => oneKind_step_iff hD env q h) flat_empty
    (allSteps_of_forall fun _ _ => trivial) oneKind_empty

end OneKind

theorem oneKind_iff_sample :
    AllStates (stepAny sampleDeployment) (fun env => OneKind env.persistent)
      (emptyEnv sampleStart.balances) sampleRun :=
  (oneKind_iff sampleDeployment_readsById _ sampleRun).mpr (by decide +kernel)

/-- Recipient `2` has a variable-rate stream when a fixed-rate one is created for it. -/
def sampleBothKinds : List AnyRequest :=
  [⟨sampleHost 1, .fixed (.initializeContract ⟨9⟩ 0 ⟨8⟩)⟩,
    ⟨sampleHost 100, .createVariableRateStream (sampleVariableArgs ⟨2⟩)⟩,
    ⟨sampleHost 100, .fixed (.createVestingStream sampleArgs)⟩]

theorem oneKind_both_false :
    ¬ AllStates (stepAny sampleDeployment) (fun env => OneKind env.persistent)
      (emptyEnv sampleStart.balances) sampleBothKinds := by
  intro h
  have hfixed : scheduleAt (run (stepAny sampleDeployment) (emptyEnv sampleStart.balances)
      sampleBothKinds).persistent ⟨2⟩ 0 = some sampleStream := by
    decide +kernel
  have hvariable : getVariableSchedule (run (stepAny sampleDeployment)
      (emptyEnv sampleStart.balances) sampleBothKinds).persistent ⟨2⟩ ≠ none := by
    decide +kernel
  exact hvariable (h.last ⟨2⟩ sampleStream (stored_of_scheduleAt hfixed))

end VestingDripStream.Contract.Recipients
