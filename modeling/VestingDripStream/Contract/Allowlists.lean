import VestingDripStream.Contract.AllRequests

/-! # Are the allowlists enforced?

The administrator keeps two lists: of the recipients who may be given a stream, and of the tokens
that may be streamed.

* The recipient list is consulted by `create_vesting_stream` only. The other ways to become a
  recipient, which are all there are (`named_of_becomes`), do not look at it:
  `recipientsAllowed_iff`.
* The token list is consulted by no creation. It is a record of the past: a token is on it if it was
  added and not removed since (`mem_allowedTokens_iff`). `tokenEnforced_iff` says which runs keep to
  it all the same. -/

namespace VestingDripStream.Contract.Allowlists

open VestingDripStream.Lib.Checked VestingDripStream.Lib.Transaction VestingDripStream.Lib.Run
open VestingDripStream.Contract.Types VestingDripStream.Contract.Storage
open VestingDripStream.Contract.Schedule VestingDripStream.Contract.EntryPoints
open VestingDripStream.Contract.Effects VestingDripStream.Contract.Stream
open VestingDripStream.Contract.Requests VestingDripStream.Contract.VariableRate
open VestingDripStream.Contract.AllRequests

/-! ### Recipients -/

/-- `r` is the recipient of a live schedule, of either kind. -/
def HasLive (st : Storage) (r : Address) : Prop :=
  (∃ s, Stored st r s) ∨ getVariableSchedule st r ≠ none

/-- The request makes `r` the recipient of a live schedule: it succeeds, and it names `r` for a
stream it creates or moves, or `r` had none before it and has one after it. -/
def Becomes (D : Deployment) (env : Env) (q : AnyRequest) (r : Address) : Prop :=
  q.Ok D env ∧ (r ∈ q.call.recipients ∨
    (¬ HasLive env.persistent r ∧ HasLive (stepAny D env q).persistent r))

/-- Whoever the request makes a recipient is allowed to be one. -/
def RecipientsAllowed (D : Deployment) (env : Env) (q : AnyRequest) : Prop :=
  ∀ r, Becomes D env q r → isRecipientAllowed env.inst r = true

/-- The recipients named by the calls that do not look at the list: `create_batch_streams`,
`create_variable_rate_stream` and `transfer_recipient`, and their aliases. -/
def uncheckedRecipients : AnyCall → List Address
  | .createBatchStreams _ _ streams => streams.map (·.recipient)
  | .createVariableRateStream a | .createVariableStream a => [a.recipient]
  | .fixed (.transferRecipient _ r) | .transferStream _ r => [r]
  | _ => []

/-- The unchecked recipients are allowed all the same. -/
def UncheckedAllowed (D : Deployment) (env : Env) (q : AnyRequest) : Prop :=
  q.Ok D env → ∀ r ∈ uncheckedRecipients q.call, isRecipientAllowed env.inst r = true

instance (D : Deployment) (env : Env) (q : AnyRequest) : Decidable (UncheckedAllowed D env q) := by
  unfold UncheckedAllowed; infer_instance

section Recipients

variable {D : Deployment} {host : Host} {env env' : Env} {call : AnyCall} {r : Address}

/-- A recipient is named by an unchecked call or by `create_vesting_stream`. -/
theorem unchecked_or_create (h : r ∈ call.recipients) : r ∈ uncheckedRecipients call ∨
    ∃ a, call.base = some (.createVestingStream a) ∧ r = a.recipient := by
  cases call with
  | fixed base =>
    cases base with
    | createVestingStream a => exact Or.inr ⟨a, rfl, List.mem_singleton.mp h⟩
    | transferRecipient r0 r' => exact Or.inl h
    | _ => cases h
  | createVestingStreamWithMeta a => exact Or.inr ⟨a, rfl, List.mem_singleton.mp h⟩
  | createMilestoneStream a => exact Or.inr ⟨a, rfl, List.mem_singleton.mp h⟩
  | createBatchStreams sponsor token streams =>
    have h' : r ∈ (streams.map (·.recipient) ++ []) ++ [] := h
    rw [List.append_nil, List.append_nil] at h'
    exact Or.inl h'
  | _ => exact Or.inl h

theorem recipients_of_unchecked (h : r ∈ uncheckedRecipients call) : r ∈ call.recipients := by
  cases call with
  | fixed base =>
    cases base with
    | transferRecipient r0 r' => exact h
    | _ => cases h
  | createBatchStreams sponsor token streams =>
    exact List.mem_append_left _ (List.mem_append_left _ h)
  | createVariableRateStream a => exact h
  | createVariableStream a => exact h
  | transferStream r0 r' => exact h
  | _ => cases h

/-- `create_vesting_stream` and its aliases check their recipient. -/
theorem allowed_of_create {a : CreateArgs} (hbase : call.base = some (.createVestingStream a))
    (h : AnyEffect D host env env' call) : isRecipientAllowed env.inst a.recipient = true := by
  cases h with
  | fixed hbase' h =>
    rw [hbase] at hbase'
    cases hbase'
    cases h with
    | create _ hallowed _ => exact hallowed
    | config kind _ => cases kind
    | rewritten kind _ _ => cases kind
    | terminated kind _ => rcases kind with h | ⟨_, h⟩ <;> cases h
    | drained kind _ => cases kind
  | batch _ => cases hbase
  | variableRate kind _ => rcases kind with rfl | rfl <;> cases hbase
  | claimVariable kind _ => rcases kind with rfl | rfl <;> cases hbase

/-- **The ways to become a recipient**: whoever gets a first live schedule is named by the call. -/
theorem named_of_becomes (hD : D.ReadsById) (h : AnyEffect D host env env' call)
    (hbefore : ¬ HasLive env.persistent r) (hafter : HasLive env'.persistent r) :
    r ∈ call.recipients := by
  rcases hafter with ⟨s, hs⟩ | hv
  · rcases newStreams_of_effect hD h r s hs with ⟨s0, hs0, -⟩ | hnew
    · exact absurd (Or.inl ⟨s0, hs0⟩) hbefore
    · cases hnew with
      | created hnamed _ _ => exact List.mem_append_left _ (List.mem_append_left _ hnamed)
      | moved hmoves _ _ =>
        refine List.mem_append_right _ ?_
        rw [hmoves]
        exact List.mem_singleton_self _
  · obtain ⟨v, hv⟩ := Option.ne_none_iff_exists'.mp hv
    rcases variable_origin hD h hv with ⟨v0, hv0, -⟩ | ⟨hnamed, -⟩
    · exact absurd (Or.inr (by rw [hv0]; exact nofun)) hbefore
    · exact List.mem_append_left _ (List.mem_append_right _ hnamed)

/-- **One request** makes only allowed recipients exactly if its unchecked recipients are
allowed. -/
theorem recipientsAllowed_step_iff (hD : D.ReadsById) (env : Env) (q : AnyRequest) :
    RecipientsAllowed D env q ↔ UncheckedAllowed D env q := by
  constructor
  · intro h hok r hr
    exact h r ⟨hok, Or.inl (recipients_of_unchecked hr)⟩
  · rintro h r ⟨hok, hbecomes⟩
    obtain ⟨⟨u, env'⟩, hrun⟩ := exists_ok_of_isOk hok
    have hstep : stepAny D env q = env' := commit_of_ok hrun
    have heff := execAny_ok hD hrun
    have hnamed : r ∈ q.call.recipients := by
      rcases hbecomes with hnamed | ⟨hbefore, hafter⟩
      · exact hnamed
      · rw [hstep] at hafter
        exact named_of_becomes hD heff hbefore hafter
    rcases unchecked_or_create hnamed with hun | ⟨a, hbase, rfl⟩
    · exact h hok r hun
    · exact allowed_of_create hbase heff

/-- **Recipient allowlist.** Along a run every step makes only allowed recipients exactly if every
successful call that does not look at the list names allowed recipients. -/
theorem recipientsAllowed_iff (hD : D.ReadsById) (env : Env) (requests : List AnyRequest) :
    AllSteps (stepAny D) (RecipientsAllowed D) env requests ↔
      AllSteps (stepAny D) (UncheckedAllowed D) env requests :=
  allSteps_congr (P := fun _ _ => True) (fun _ _ (_ : True) _ => trivial)
    (fun env q _ _ => recipientsAllowed_step_iff hD env q) trivial
    (allSteps_of_forall fun _ _ => trivial)

end Recipients

/-- Sponsor `1` streams token `10` to recipient `2` at rate `1`. -/
def sampleVariable : AnyCall :=
  .createVariableRateStream ⟨⟨1⟩, ⟨2⟩, ⟨10⟩, 50, [(300, 1)]⟩

/-- The contract is initialised and the recipient list is enabled. -/
def sampleEnabled : List AnyRequest :=
  [⟨sampleHost 1, .fixed (.initializeContract ⟨9⟩ 0 ⟨8⟩)⟩,
    ⟨sampleHost 2, .fixed (.setAllowlistEnabled ⟨9⟩ true)⟩]

theorem recipientsAllowed_iff_sample :
    AllSteps (stepAny sampleDeployment) (RecipientsAllowed sampleDeployment)
      (emptyEnv sampleStart.balances)
      (sampleEnabled ++ [⟨sampleHost 3, .fixed (.setAllowlist ⟨9⟩ [⟨2⟩] true)⟩,
        ⟨sampleHost 100, sampleVariable⟩]) :=
  (recipientsAllowed_iff sampleDeployment_readsById _ _).mpr (by decide +kernel)

/-- Recipient `2` is not on the list, and is given a variable-rate stream. -/
theorem recipientsAllowed_variable_false :
    ¬ AllSteps (stepAny sampleDeployment) (RecipientsAllowed sampleDeployment)
      (emptyEnv sampleStart.balances) (sampleEnabled ++ [⟨sampleHost 100, sampleVariable⟩]) := by
  intro h
  have hnamed : (⟨2⟩ : Address) ∈ sampleVariable.recipients := by decide
  have hlast := (allSteps_append.mp h).2.1 ⟨2⟩ ⟨by decide +kernel, Or.inl hnamed⟩
  revert hlast
  decide +kernel

/-! ### Tokens -/

/-- The request puts `t` on the list. -/
def AddsToken (D : Deployment) (t : Address) (env : Env) (q : AnyRequest) : Prop :=
  q.Ok D env ∧ ∃ admin, q.call = .fixed (.addAllowedToken admin t)

/-- The request takes `t` off the list. -/
def RemovesToken (D : Deployment) (t : Address) (env : Env) (q : AnyRequest) : Prop :=
  q.Ok D env ∧ ∃ admin, q.call = .fixed (.removeAllowedToken admin t)

/-- In the run from `env` the token `t` was added and not removed since. -/
def Listed (D : Deployment) (env : Env) (requests : List AnyRequest) (t : Address) : Prop :=
  Since (stepAny D) (AddsToken D t) (RemovesToken D t) env requests

/-- The token of the stream that `create_vesting_stream` or an alias creates. -/
def createdToken (call : AnyCall) : Option Address :=
  match call.base with
  | some (.createVestingStream a) => some a.token
  | _ => none

/-- A creation that succeeds while the list is not empty has a token on the list. -/
def TokenEnforced (D : Deployment) (env : Env) (q : AnyRequest) : Prop :=
  ∀ t, createdToken q.call = some t → q.Ok D env → getAllowedTokens env.inst ≠ [] →
    t ∈ getAllowedTokens env.inst

instance (D : Deployment) (env : Env) (q : AnyRequest) : Decidable (TokenEnforced D env q) :=
  Option.decidableForallMem (createdToken q.call)

section Tokens

variable {D : Deployment} {host : Host} {env env' : Env} {t t' : Address} {u : Unit}

theorem addAllowedToken_ok {admin : Address}
    (h : addAllowedToken D host admin t env = .ok (u, env')) :
    t' ∈ getAllowedTokens env'.inst ↔ t' = t ∨ t' ∈ getAllowedTokens env.inst := by
  unfold addAllowedToken at h
  obtain ⟨_, e1, hadmin, h⟩ := bind_ok.mp h
  simp only [requireAdmin, requireAuth_bind_ok, asks_bind_ok] at hadmin
  obtain ⟨-, rfl⟩ := ensure_ok.mp hadmin.2
  rw [configure_bind_ok, emit_ok] at h
  rw [← h]
  show t' ∈ getAllowedTokens (if t ∈ getAllowedTokens env.inst then env.inst else
    env.inst.insert .allowedTokens (getAllowedTokens env.inst ++ [t])) ↔ _
  split_ifs with hin
  · refine ⟨Or.inr, ?_⟩
    rintro (rfl | ht')
    · exact hin
    · exact ht'
  · have hlist : getAllowedTokens (env.inst.insert .allowedTokens
        (getAllowedTokens env.inst ++ [t])) = getAllowedTokens env.inst ++ [t] := by
      show ((env.inst.insert .allowedTokens _).lookup .allowedTokens).getD [] = _
      rw [Finmap.lookup_insert]
      rfl
    rw [hlist, List.mem_append, List.mem_singleton, or_comm]

theorem removeAllowedToken_ok {admin : Address}
    (h : removeAllowedToken D host admin t env = .ok (u, env')) :
    t' ∈ getAllowedTokens env'.inst ↔ t' ∈ getAllowedTokens env.inst ∧ t' ≠ t := by
  unfold removeAllowedToken at h
  obtain ⟨_, e1, hadmin, h⟩ := bind_ok.mp h
  simp only [requireAdmin, requireAuth_bind_ok, asks_bind_ok] at hadmin
  obtain ⟨-, rfl⟩ := ensure_ok.mp hadmin.2
  rw [configure_bind_ok, emit_ok] at h
  rw [← h]
  have hlist : getAllowedTokens (env.inst.insert .allowedTokens
      ((getAllowedTokens env.inst).filter fun a => a ≠ t)) =
      (getAllowedTokens env.inst).filter fun a => a ≠ t := by
    show ((env.inst.insert .allowedTokens _).lookup .allowedTokens).getD [] = _
    rw [Finmap.lookup_insert]
    rfl
  show t' ∈ getAllowedTokens (env.inst.insert .allowedTokens _) ↔ _
  rw [hlist, List.mem_filter, decide_eq_true_eq]

/-- Every other request leaves the token list alone. -/
theorem getAllowedTokens_of_effect (hD : D.ReadsById) {call : AnyCall}
    (hadd : ∀ admin t, call ≠ .fixed (.addAllowedToken admin t))
    (hrem : ∀ admin t, call ≠ .fixed (.removeAllowedToken admin t))
    (h : execAny D host call env = .ok (u, env')) :
    getAllowedTokens env'.inst = getAllowedTokens env.inst := by
  have hlist : env'.inst.lookup .allowedTokens = env.inst.lookup .allowedTokens := by
    refine lookup_inst_of_execAny hD (fun base hbase => ?_) h
    cases base with
    | addAllowedToken admin t => exact absurd hbase (hadd admin t)
    | removeAllowedToken admin t => exact absurd hbase (hrem admin t)
    | _ => simp [configKeys]
  show (env'.inst.lookup .allowedTokens).getD [] = _
  rw [hlist]
  rfl

/-- **One request**: a token is on the list afterwards if the request adds it, or if it was there
and the request does not remove it. -/
theorem mem_allowedTokens_step (hD : D.ReadsById) (t : Address) (env : Env) (q : AnyRequest) :
    t ∈ getAllowedTokens (stepAny D env q).inst ↔
      AddsToken D t env q ∨ (t ∈ getAllowedTokens env.inst ∧ ¬ RemovesToken D t env q) := by
  by_cases hok : q.Ok D env
  · obtain ⟨⟨u, env'⟩, h⟩ := exists_ok_of_isOk hok
    have hstep : stepAny D env q = env' := commit_of_ok h
    rw [hstep]
    unfold AddsToken RemovesToken
    by_cases hadd : ∃ admin t0, q.call = .fixed (.addAllowedToken admin t0)
    · obtain ⟨admin, t0, hcall⟩ := hadd
      rw [hcall] at h ⊢
      rw [addAllowedToken_ok h]
      simp [hok, eq_comm]
    · by_cases hrem : ∃ admin t0, q.call = .fixed (.removeAllowedToken admin t0)
      · obtain ⟨admin, t0, hcall⟩ := hrem
        rw [hcall] at h ⊢
        rw [removeAllowedToken_ok h]
        simp [hok, eq_comm]
      · rw [getAllowedTokens_of_effect hD (fun admin t0 hc => hadd ⟨admin, t0, hc⟩)
          (fun admin t0 hc => hrem ⟨admin, t0, hc⟩) h]
        have hadd' : ¬ ∃ admin, q.call = .fixed (.addAllowedToken admin t) :=
          fun ⟨admin, hc⟩ => hadd ⟨admin, t, hc⟩
        have hrem' : ¬ ∃ admin, q.call = .fixed (.removeAllowedToken admin t) :=
          fun ⟨admin, hc⟩ => hrem ⟨admin, t, hc⟩
        simp [hadd', hrem']
  · have hstep : stepAny D env q = env := commit_of_not_isOk hok
    rw [hstep]
    unfold AddsToken RemovesToken
    simp [hok]

/-- **The list is the history**: in a run from the empty storage a token is on the list exactly if
it was added and not removed since. -/
theorem mem_allowedTokens_iff (hD : D.ReadsById) (balances : Balances) (requests : List AnyRequest)
    (t : Address) :
    t ∈ getAllowedTokens (run (stepAny D) (emptyEnv balances) requests).inst ↔
      Listed D (emptyEnv balances) requests t := by
  have hempty : getAllowedTokens (emptyEnv balances).inst = [] := by
    show ((∅ : Storage).lookup .allowedTokens).getD [] = []
    rw [Finmap.lookup_empty]
    rfl
  refine iff_since (Q := fun env : Env => t ∈ getAllowedTokens env.inst) ?_
    (mem_allowedTokens_step hD t)
  rw [hempty]
  exact List.not_mem_nil

/-- **Token allowlist.** In a run from the empty storage every creation keeps to the list exactly if
each successful creation has a token that was added and not removed since, or comes when every token
that was added has been removed. -/
theorem tokenEnforced_iff (hD : D.ReadsById) (balances : Balances) (requests : List AnyRequest) :
    AllSteps (stepAny D) (TokenEnforced D) (emptyEnv balances) requests ↔
      ∀ pre q post, requests = pre ++ q :: post → ∀ t, createdToken q.call = some t →
        q.Ok D (run (stepAny D) (emptyEnv balances) pre) →
          Listed D (emptyEnv balances) pre t ∨ ∀ t', ¬ Listed D (emptyEnv balances) pre t' := by
  rw [allSteps_iff_forall_split]
  refine forall_congr' fun pre => forall_congr' fun q => forall_congr' fun post =>
    forall_congr' fun _ => forall_congr' fun t => forall_congr' fun _ => forall_congr' fun _ => ?_
  simp only [← mem_allowedTokens_iff hD, ← List.eq_nil_iff_forall_not_mem]
  tauto

end Tokens

/-- The contract is initialised, the token `t` is put on the list, and a stream of token `10` is
created. -/
def sampleTokens (t : Address) : List AnyRequest :=
  [⟨sampleHost 1, .fixed (.initializeContract ⟨9⟩ 0 ⟨8⟩)⟩,
    ⟨sampleHost 2, .fixed (.addAllowedToken ⟨9⟩ t)⟩,
    ⟨sampleHost 100, .fixed (.createVestingStream sampleArgs)⟩]

/-- Token `10` is on the list when the stream is created. -/
theorem tokenEnforced_iff_sample :
    AllSteps (stepAny sampleDeployment) (TokenEnforced sampleDeployment)
        (emptyEnv sampleStart.balances) (sampleTokens ⟨10⟩) ∧
      ∀ pre q post, sampleTokens ⟨10⟩ = pre ++ q :: post → ∀ t, createdToken q.call = some t →
        q.Ok sampleDeployment
          (run (stepAny sampleDeployment) (emptyEnv sampleStart.balances) pre) →
          Listed sampleDeployment (emptyEnv sampleStart.balances) pre t ∨
            ∀ t', ¬ Listed sampleDeployment (emptyEnv sampleStart.balances) pre t' := by
  have henforced : AllSteps (stepAny sampleDeployment) (TokenEnforced sampleDeployment)
      (emptyEnv sampleStart.balances) (sampleTokens ⟨10⟩) := by decide +kernel
  exact ⟨henforced, (tokenEnforced_iff sampleDeployment_readsById _ _).mp henforced⟩

/-- Only token `20` is on the list, and a stream of token `10` is created. -/
theorem tokenEnforced_other_false :
    ¬ AllSteps (stepAny sampleDeployment) (TokenEnforced sampleDeployment)
      (emptyEnv sampleStart.balances) (sampleTokens ⟨20⟩) := by
  decide +kernel

end VestingDripStream.Contract.Allowlists
