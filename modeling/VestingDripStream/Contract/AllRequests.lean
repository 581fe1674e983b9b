import VestingDripStream.Contract.Requests
import VestingDripStream.Contract.VariableRate

/-! # Runs of all entry points

The runs of `Requests` with the remaining ways to create, move and claim a stream: batches,
variable-rate streams and the aliases. `execAny_ok` says what a successful request does.

`Stored st r s` says that a fixed-rate schedule `s` is stored for `r`, under any of its keys;
`NewStreams` bounds what a request may add to them. `newStreams_of_execAny` is the whole account of
where a stream can come from: it was there before, a creation of its sponsor named the recipient, or
`transfer_recipient` moved a legacy record to the recipient. -/

namespace VestingDripStream.Contract.AllRequests

open VestingDripStream.Lib.Checked VestingDripStream.Lib.Transaction VestingDripStream.Lib.Run
open VestingDripStream.Contract.Types VestingDripStream.Contract.Storage
open VestingDripStream.Contract.Schedule VestingDripStream.Contract.EntryPoints
open VestingDripStream.Contract.Effects VestingDripStream.Contract.Stream
open VestingDripStream.Contract.Requests VestingDripStream.Contract.VariableRate

/-! ### Aliases -/

/-- `create_vesting_stream_with_meta`. -/
def createVestingStreamWithMeta (D : Deployment) (host : Host) (a : CreateArgs) : Call Unit := do
  let _ ← createVestingStream D host a
  pure ()

/-- `create_milestone_stream`: in this commit an alias of `create_vesting_stream`. -/
def createMilestoneStream (D : Deployment) (host : Host) (a : CreateArgs) : Call Unit := do
  let _ ← createVestingStream D host a
  pure ()

/-- `transfer_stream`. -/
def transferStream (D : Deployment) (host : Host) (currentRecipient newRecipient : Address) :
    Call Unit :=
  transferRecipient D host currentRecipient newRecipient

/-! ### Requests -/

/-- The entry points, with their arguments. -/
inductive AnyCall
  | fixed (call : ContractCall)
  | createVestingStreamWithMeta (a : CreateArgs)
  | createMilestoneStream (a : CreateArgs)
  | transferStream (currentRecipient newRecipient : Address)
  | createBatchStreams (sponsor token : Address) (streams : List BatchEntry)
  | createVariableRateStream (a : VariableArgs)
  | createVariableStream (a : VariableArgs)
  | claimVariableVested (recipient : Address)
  | claimVariableVestedSecond (recipient : Address)

/-- The call, with its result dropped. -/
def execAny (D : Deployment) (host : Host) : AnyCall → Call Unit
  | .fixed call => exec D host call
  | .createVestingStreamWithMeta a => createVestingStreamWithMeta D host a
  | .createMilestoneStream a => createMilestoneStream D host a
  | .transferStream currentRecipient newRecipient =>
    transferStream D host currentRecipient newRecipient
  | .createBatchStreams sponsor token streams => createBatchStreams D host sponsor token streams
  | .createVariableRateStream a => createVariableRateStream D host a
  | .createVariableStream a => createVariableStream D host a
  | .claimVariableVested recipient => do
    let _ ← claimVariableVested D host recipient
    pure ()
  | .claimVariableVestedSecond recipient => do
    let _ ← claimVariableVestedSecond D host recipient
    pure ()

/-- A call and what the network supplies for it. -/
structure AnyRequest where
  host : Host
  call : AnyCall

/-- The request succeeds. -/
def AnyRequest.Ok (D : Deployment) (env : Env) (q : AnyRequest) : Prop :=
  (execAny D q.host q.call env).isOk = true

instance (D : Deployment) (env : Env) (q : AnyRequest) : Decidable (q.Ok D env) := by
  unfold AnyRequest.Ok; infer_instance

/-- One request: rolled back if it fails. -/
def stepAny (D : Deployment) (env : Env) (q : AnyRequest) : Env :=
  commit (execAny D q.host q.call) env

/-- The environment of a contract that was just deployed. -/
def emptyEnv (balances : Balances) : Env := ⟨∅, ∅, balances, []⟩

/-! ### What a request can do -/

/-- The entry point of `Requests` a call stands for. -/
def AnyCall.base : AnyCall → Option ContractCall
  | .fixed call => some call
  | .createVestingStreamWithMeta a | .createMilestoneStream a => some (.createVestingStream a)
  | .transferStream r r' => some (.transferRecipient r r')
  | _ => none

/-- What a successful entry point of `Requests` does to the streams. -/
inductive FixedEffect (D : Deployment) (host : Host) (env env' : Env) : ContractCall → Prop
  | config {call : ContractCall} (kind : call.isConfig = true)
      (persistent : env'.persistent = env.persistent) : FixedEffect D host env env' call
  | create {a : CreateArgs} {id : UInt32} {c : CreationReceipt} (ne : a.sponsor ≠ a.recipient)
      (allowed : isRecipientAllowed env.inst a.recipient = true)
      (h : Created D host a env id env' c) : FixedEffect D host env env' (.createVestingStream a)
  | claim {r : Address} {streamId : Option UInt32} {amount : ℤ}
      (h : claimVested D host r streamId env = .ok (amount, env')) :
      FixedEffect D host env env' (.claimVested r streamId)
  | rewritten {call : ContractCall} {r : Address} {s s' : VestingSchedule}
      (kind : call.viaLegacy = some (r, r)) (sponsor : s.sponsor = s'.sponsor)
      (h : Rewritten r env env' s s') : FixedEffect D host env env' call
  | transferred {r r' : Address} {s : VestingSchedule} (h : Transferred r r' env env' s) :
      FixedEffect D host env env' (.transferRecipient r r')
  | terminated {call : ContractCall} {sponsor r : Address} {k : UInt32} {s : VestingSchedule}
      {bound : ℤ}
      (kind : call = .cancelStream sponsor r k ∨
        ∃ reason, call = .clawbackStream sponsor r k reason)
      (h : Terminated D sponsor r k env env' s bound) : FixedEffect D host env env' call
  | drained {call : ContractCall} {r : Address} {s : VestingSchedule} {bound : ℤ}
      (kind : call.viaLegacy = some (r, r)) (h : Drained D r env env' s bound) :
      FixedEffect D host env env' call

/-- What a successful request does. -/
inductive AnyEffect (D : Deployment) (host : Host) (env env' : Env) : AnyCall → Prop
  | fixed {call : AnyCall} {base : ContractCall} (hbase : call.base = some base)
      (h : FixedEffect D host env env' base) : AnyEffect D host env env' call
  | batch {sponsor token : Address} {streams : List BatchEntry}
      (h : BatchCreated host sponsor token streams env env') :
      AnyEffect D host env env' (.createBatchStreams sponsor token streams)
  | variableRate {call : AnyCall} {a : VariableArgs} {s : VariableRateSchedule}
      (kind : call = .createVariableRateStream a ∨ call = .createVariableStream a)
      (h : VariableCreated a env env' s) : AnyEffect D host env env' call
  | claimVariable {call : AnyCall} {r : Address} {s s' : VariableRateSchedule}
      (kind : call = .claimVariableVested r ∨ call = .claimVariableVestedSecond r)
      (h : VariablePaid r env env' s s') : AnyEffect D host env env' call

section Effects

variable {D : Deployment} {host : Host} {env env' : Env} {call : AnyCall} {u : Unit}

/-- A creation has checked its recipient. -/
theorem createVestingStream_checks {a : CreateArgs} {id : UInt32}
    (h : createVestingStream D host a env = .ok (id, env')) :
    a.sponsor ≠ a.recipient ∧ isRecipientAllowed env.inst a.recipient = true := by
  unfold createVestingStream at h
  obtain ⟨m, e0, hval, -⟩ := bind_ok.mp h
  simp only [validateCreate, asks_bind_ok, require_bind_ok, compute_bind_ok, requireAuth_bind_ok,
    pure_ok] at hval
  obtain ⟨-, hne, -, -, -, -, -, -, hallowed, -⟩ := hval
  exact ⟨hne, hallowed⟩

theorem viaLegacy_of_isConfig {base : ContractCall} (h : base.isConfig = true) :
    base.viaLegacy = none := by
  cases base <;> first | rfl | cases h

/-- The calls that change the configuration touch no stream. -/
theorem persistent_of_isConfig (hD : D.ReadsById) {base : ContractCall}
    (hkind : base.isConfig = true) (h : exec D host base env = .ok (u, env')) :
    env'.persistent = env.persistent := by
  have heff := Requests.exec_ok hD h
  cases heff with
  | config _ hp _ => exact hp
  | viaLegacy hvia _ _ =>
    rw [viaLegacy_of_isConfig hkind] at hvia
    cases hvia
  | _ => cases hkind

theorem fixedEffect_of_exec (hD : D.ReadsById) {base : ContractCall}
    (h : exec D host base env = .ok (u, env')) : FixedEffect D host env env' base := by
  cases base with
  | createVestingStream a =>
    obtain ⟨id, e, he, hpure⟩ := bind_ok.mp h
    obtain ⟨-, rfl⟩ := pure_ok.mp hpure
    obtain ⟨hne, hallowed⟩ := createVestingStream_checks he
    obtain ⟨c, hc⟩ := createVestingStream_ok he
    exact .create hne hallowed hc
  | claimVested r streamId =>
    obtain ⟨amount, e, he, hpure⟩ := bind_ok.mp h
    obtain ⟨-, rfl⟩ := pure_ok.mp hpure
    exact .claim he
  | pauseStream sponsor r =>
    obtain ⟨s, s', hp, hw⟩ := pauseStreamWith_ok h
    obtain ⟨-, -, -, heq⟩ := pauseSchedule_ok hp
    exact .rewritten rfl (by rw [heq]) hw
  | resumeStream sponsor r =>
    obtain ⟨s, s', hp, hw⟩ := resumeStreamWith_ok h
    obtain ⟨p, -, -, -, heq⟩ := resumeSchedule_eq hp
    exact .rewritten rfl (by rw [heq]) hw
  | pauseStreamSecond sponsor r =>
    obtain ⟨s, s', hp, hw⟩ := pauseStreamWith_ok h
    obtain ⟨-, -, heq⟩ := pauseScheduleSecond_ok hp
    exact .rewritten rfl (by rw [heq]) hw
  | resumeStreamSecond sponsor r =>
    obtain ⟨s, s', hp, hw⟩ := resumeStreamWith_ok h
    obtain ⟨p, -, -, heq⟩ := resumeScheduleSecond_eq hp
    exact .rewritten rfl (by rw [heq]) hw
  | transferRecipient r r' =>
    obtain ⟨s, ht⟩ := transferRecipient_ok h
    exact .transferred ht
  | cancelStream sponsor r k =>
    obtain ⟨s, share, refund, -, hterm⟩ := cancelStream_ok hD h
    exact .terminated (Or.inl rfl) hterm
  | clawbackStream sponsor r k reason =>
    obtain ⟨s, remaining, -, hterm⟩ := clawbackStream_ok hD h
    exact .terminated (Or.inr ⟨reason, rfl⟩) hterm
  | drainExpiredStream caller r =>
    obtain ⟨s, remaining, -, hd⟩ := drainExpiredStream_ok h
    exact .drained rfl hd
  | emergencyDrain sponsor r =>
    obtain ⟨s, amount, -, hd⟩ := emergencyDrain_ok h
    exact .drained rfl hd
  | _ => exact .config rfl (persistent_of_isConfig hD rfl h)

/-- **What a successful request does**, by its call. -/
theorem execAny_ok (hD : D.ReadsById) (h : execAny D host call env = .ok (u, env')) :
    AnyEffect D host env env' call := by
  cases call with
  | fixed base => exact .fixed rfl (fixedEffect_of_exec hD h)
  | createVestingStreamWithMeta a =>
    have hbase : exec D host (.createVestingStream a) env = .ok (u, env') := h
    exact .fixed rfl (fixedEffect_of_exec hD hbase)
  | createMilestoneStream a =>
    have hbase : exec D host (.createVestingStream a) env = .ok (u, env') := h
    exact .fixed rfl (fixedEffect_of_exec hD hbase)
  | transferStream r r' =>
    have hbase : exec D host (.transferRecipient r r') env = .ok (u, env') := h
    exact .fixed rfl (fixedEffect_of_exec hD hbase)
  | createBatchStreams sponsor token streams => exact .batch (createBatchStreams_ok h)
  | createVariableRateStream a =>
    obtain ⟨s, hs⟩ := createVariableRateStream_ok h
    exact .variableRate (Or.inl rfl) hs
  | createVariableStream a =>
    obtain ⟨s, hs⟩ := createVariableRateStream_ok h
    exact .variableRate (Or.inr rfl) hs
  | claimVariableVested r =>
    obtain ⟨amount, e, he, hpure⟩ := bind_ok.mp h
    obtain ⟨-, rfl⟩ := pure_ok.mp hpure
    obtain ⟨s, s', hs⟩ := claimVariableVestedWith_ok he
    exact .claimVariable (Or.inl rfl) hs
  | claimVariableVestedSecond r =>
    obtain ⟨amount, e, he, hpure⟩ := bind_ok.mp h
    obtain ⟨-, rfl⟩ := pure_ok.mp hpure
    obtain ⟨s, s', hs⟩ := claimVariableVestedWith_ok he
    exact .claimVariable (Or.inr rfl) hs

end Effects

/-! ### What the requests configure -/

/-- The keys of the instance storage that a configuration call writes. -/
def configKeys : ContractCall → List DataKey
  | .initializeContract .. => [.admin, .feeBps, .treasury, .initialized]
  | .transferAdmin .. => [.admin]
  | .addAllowedToken .. | .removeAllowedToken .. => [.allowedTokens]
  | .setAllowlist _ recipients _ => recipients.map .recipientAllowlist
  | .setAllowlistEnabled .. => [.allowlistEnabled]
  | .setFee .. => [.feeBps, .treasury]
  | .setMinDeposit .. => [.minDeposit]
  | .setConfig .. => [.configMaxCliffRatio, .configMinRate]
  | _ => []

section Configured

variable {D : Deployment} {host : Host} {env env' : Env} {call : AnyCall} {u : Unit} {key : DataKey}

/-- The call leaves the value under `key` of the instance storage alone. -/
def KeepsKey {α : Type} (key : DataKey) (x : Call α) : Prop :=
  Keeps (fun env : Env => env.inst.lookup key) x

theorem keepsKey_configure {f : Storage → Storage}
    (h : ∀ st : Storage, (f st).lookup key = st.lookup key) : KeepsKey key (configure f) :=
  keeps_update fun env => h env.inst

theorem keepsKey_emit (e : Event) : KeepsKey key (emit e) := keeps_update fun _ => rfl

theorem keepsKey_requireAdmin (admin : Address) : KeepsKey key (requireAdmin D host admin) :=
  (keeps_ensure _ _).bind fun _ => (keeps_asks _).bind fun _ => keeps_ensure _ _

theorem keepsKey_setAllowlistLoop (admin : Address) (allowed : Bool) {recipients : List Address}
    (hkey : key ∉ recipients.map .recipientAllowlist) :
    KeepsKey key (setAllowlistLoop admin allowed recipients) := by
  induction recipients with
  | nil => exact keeps_pure _
  | cons r rest ih =>
    rw [List.map_cons, List.mem_cons, not_or] at hkey
    exact (keepsKey_configure fun st => Finmap.lookup_insert_of_ne _ hkey.1).bind fun _ =>
      (keepsKey_emit _).bind fun _ => ih hkey.2

theorem keepsKey_config {base : ContractCall} (hkind : base.isConfig = true)
    (hkey : key ∉ configKeys base) : KeepsKey key (exec D host base) := by
  cases base with
  | initializeContract admin feeBps treasury =>
    simp only [configKeys, List.mem_cons, List.not_mem_nil, or_false, not_or] at hkey
    obtain ⟨hadmin, hfee, htreasury, hinit⟩ := hkey
    refine (keeps_asks _).bind fun _ => (keeps_ensure _ _).bind fun _ => (keeps_ensure _ _).bind
      fun _ => (keeps_ensure _ _).bind fun _ => Keeps.bind (keepsKey_configure fun st => ?_)
        fun _ => keepsKey_emit _
    rw [Finmap.lookup_insert_of_ne _ hinit, Finmap.lookup_insert_of_ne _ htreasury,
      Finmap.lookup_insert_of_ne _ hfee, Finmap.lookup_insert_of_ne _ hadmin]
  | transferAdmin admin newAdmin =>
    have hne := List.ne_of_not_mem_cons hkey
    exact (keepsKey_requireAdmin admin).bind fun _ =>
      keepsKey_configure fun st => Finmap.lookup_insert_of_ne _ hne
  | addAllowedToken admin t =>
    have hne := List.ne_of_not_mem_cons hkey
    refine (keepsKey_requireAdmin admin).bind fun _ =>
      Keeps.bind (keepsKey_configure fun st => ?_) fun _ => keepsKey_emit _
    split_ifs
    · rfl
    · exact Finmap.lookup_insert_of_ne _ hne
  | removeAllowedToken admin t =>
    have hne := List.ne_of_not_mem_cons hkey
    exact (keepsKey_requireAdmin admin).bind fun _ =>
      (keepsKey_configure fun st => Finmap.lookup_insert_of_ne _ hne).bind fun _ => keepsKey_emit _
  | setAllowlist admin recipients allowed =>
    exact (keepsKey_requireAdmin admin).bind fun _ => keepsKey_setAllowlistLoop _ _ hkey
  | setAllowlistEnabled admin enabled =>
    have hne := List.ne_of_not_mem_cons hkey
    exact (keepsKey_requireAdmin admin).bind fun _ =>
      keepsKey_configure fun st => Finmap.lookup_insert_of_ne _ hne
  | setFee admin feeBps treasury =>
    simp only [configKeys, List.mem_cons, List.not_mem_nil, or_false, not_or] at hkey
    refine (keepsKey_requireAdmin admin).bind fun _ => (keeps_ensure _ _).bind fun _ =>
      keepsKey_configure fun st => ?_
    rw [Finmap.lookup_insert_of_ne _ hkey.2, Finmap.lookup_insert_of_ne _ hkey.1]
  | setMinDeposit admin minDeposit =>
    have hne := List.ne_of_not_mem_cons hkey
    exact (keepsKey_requireAdmin admin).bind fun _ => (keeps_ensure _ _).bind fun _ =>
      keepsKey_configure fun st => Finmap.lookup_insert_of_ne _ hne
  | setConfig admin key' value =>
    simp only [configKeys, List.mem_cons, List.not_mem_nil, or_false, not_or] at hkey
    refine (keepsKey_requireAdmin admin).bind fun _ => ?_
    split_ifs
    · exact (keeps_ensure _ _).bind fun _ =>
        keepsKey_configure fun st => Finmap.lookup_insert_of_ne _ hkey.1
    · exact (keeps_ensure _ _).bind fun _ =>
        keepsKey_configure fun st => Finmap.lookup_insert_of_ne _ hkey.2
    · exact keeps_ensure _ _
  | _ => cases hkind

/-- A claim leaves the configuration alone. -/
theorem inst_of_claim (hD : D.ReadsById) {r : Address} {streamId : Option UInt32} {amount : ℤ}
    (h : claimVested D host r streamId env = .ok (amount, env')) : env'.inst = env.inst := by
  refine (claimVested_induct (P := fun _ e => e.inst = env.inst) h
    (fun k _ acc e x e1 he hx => ?_) rfl).1
  rcases claimStream_ok hD hx with ⟨-, rfl⟩ | ⟨s, rc, hpaid, -⟩
  · exact he
  · exact hpaid.inst.trans he

/-- A successful request is a configuration call, or leaves the configuration alone. -/
theorem config_or_inst (hD : D.ReadsById) (h : AnyEffect D host env env' call) :
    (∃ base, call = .fixed base ∧ base.isConfig = true) ∨ env'.inst = env.inst := by
  cases h with
  | @fixed _ base hbase h =>
    cases h with
    | config kind _ =>
      cases call with
      | fixed base' => cases hbase; exact Or.inl ⟨_, rfl, kind⟩
      | createVestingStreamWithMeta a => cases hbase; cases kind
      | createMilestoneStream a => cases hbase; cases kind
      | transferStream r r' => cases hbase; cases kind
      | _ => cases hbase
    | create _ _ h => exact Or.inr h.inst
    | claim h => exact Or.inr (inst_of_claim hD h)
    | rewritten _ _ h => exact Or.inr h.inst
    | transferred h => exact Or.inr h.inst
    | terminated _ h => exact Or.inr h.inst
    | drained _ h => exact Or.inr h.inst
  | batch h => exact Or.inr h.inst
  | variableRate _ h => exact Or.inr h.inst
  | claimVariable _ h => exact Or.inr h.inst

/-- **What a request configures**: the values under other keys stay as they are. -/
theorem lookup_inst_of_execAny (hD : D.ReadsById)
    (hkey : ∀ base, call = .fixed base → key ∉ configKeys base)
    (h : execAny D host call env = .ok (u, env')) : env'.inst.lookup key = env.inst.lookup key := by
  rcases config_or_inst hD (execAny_ok hD h) with ⟨base, rfl, hkind⟩ | hinst
  · exact keepsKey_config hkind (hkey base rfl) env u env' h
  · rw [hinst]

end Configured

/-! ### The stored schedules -/

/-- The fixed-rate schedule `s` is stored for `r`, under one of its keys. -/
def Stored (st : Storage) (r : Address) (s : VestingSchedule) : Prop :=
  (∃ k, byId st r k = some s) ∨ legacy st r = some s

section Stored

variable {st st' st'' : Storage} {r r' sp : Address} {k : UInt32} {s s' : VestingSchedule}

theorem stored_of_scheduleAt (h : scheduleAt st r k = some s) : Stored st r s := by
  unfold scheduleAt at h
  split at h
  · next s0 h0 =>
    rw [h] at h0
    exact Or.inl ⟨k, h0⟩
  · split_ifs at h
    exact Or.inr h

theorem exists_stored_iff : (∃ s, Stored st r s) ↔ ∃ k s, scheduleAt st r k = some s := by
  constructor
  · rintro ⟨s, ⟨k, hk⟩ | hl⟩
    · exact ⟨k, s, by unfold scheduleAt; rw [hk]⟩
    · unfold scheduleAt
      cases h0 : byId st r 0 with
      | none => exact ⟨0, s, by rw [h0, if_pos rfl, hl]⟩
      | some s0 => exact ⟨0, s0, by rw [h0]⟩
  · rintro ⟨k, s, h⟩
    exact ⟨s, stored_of_scheduleAt h⟩

theorem stored_congr (hb : ∀ r k, byId st' r k = byId st r k)
    (hl : ∀ r, legacy st' r = legacy st r) :
    Stored st' r s ↔ Stored st r s := by
  unfold Stored
  rw [hl]
  simp only [hb]

theorem stored_addSponsorStream : Stored (addSponsorStream st sp r') r s ↔ Stored st r s :=
  stored_congr (fun _ _ => lookup_addSponsorStream _ _ _ (by simp))
    fun _ => legacy_addSponsorStream _ _ _ _

theorem stored_removeSponsorStream : Stored (removeSponsorStream st sp r') r s ↔ Stored st r s :=
  stored_congr (fun _ _ => lookup_removeSponsorStream _ _ _ (by simp))
    fun _ => legacy_removeSponsorStream _ _ _ _

theorem stored_insert_nextStreamId (n : UInt32) :
    Stored (st.insert (.nextStreamId r') n) r s ↔ Stored st r s :=
  stored_congr (fun _ _ => Finmap.lookup_insert_of_ne _ (by simp))
    fun _ => legacy_insert_nextStreamId _ _ _ _

theorem stored_setScheduleById (h : Stored (setScheduleById st r' k s') r s) :
    (r = r' ∧ s = s') ∨ Stored st r s := by
  rcases h with ⟨k0, h⟩ | h
  · rw [byId_setScheduleById] at h
    split_ifs at h with heq
    · exact Or.inl ⟨heq.1, (Option.some.inj h).symm⟩
    · exact Or.inr (Or.inl ⟨k0, h⟩)
  · rw [legacy_setScheduleById] at h
    split_ifs at h
    exact Or.inr (Or.inr h)

theorem stored_removeScheduleById (h : Stored (removeScheduleById st r' k) r s) :
    Stored st r s := by
  rcases h with ⟨k0, h⟩ | h
  · rw [byId_removeScheduleById] at h
    split_ifs at h
    exact Or.inl ⟨k0, h⟩
  · rw [legacy_removeScheduleById] at h
    split_ifs at h
    exact Or.inr h

/-! ### Where a stream can come from -/

/-- Every stream of `st'` has the sponsor of a stream that the recipient has in `st`, or its
recipient and its sponsor satisfy `P`. -/
def NewStreams (P : Address → Address → Prop) (st st' : Storage) : Prop :=
  ∀ r s', Stored st' r s' → (∃ s, Stored st r s ∧ s.sponsor = s'.sponsor) ∨ P r s'.sponsor

variable {P P' : Address → Address → Prop}

theorem newStreams_of_stored (h : ∀ r s, Stored st' r s → Stored st r s) : NewStreams P st st' :=
  fun r s hs => Or.inl ⟨s, h r s hs, rfl⟩

theorem NewStreams.trans (h : NewStreams P st st') (h' : NewStreams P st' st'') :
    NewStreams P st st'' := by
  intro r s'' hs
  rcases h' r s'' hs with ⟨s', hs', heq⟩ | hP
  · rw [← heq]
    exact h r s' hs'
  · exact Or.inr hP

theorem NewStreams.mono (h : NewStreams P st st') (hP : ∀ r sp, P r sp → P' r sp) :
    NewStreams P' st st' :=
  fun r s' hs => (h r s' hs).imp_right (hP r s'.sponsor)

theorem newStreams_set (hP : P r s.sponsor) : NewStreams P st (setScheduleById st r k s) := by
  intro r' s' hs'
  rcases stored_setScheduleById hs' with ⟨rfl, rfl⟩ | hold
  · exact Or.inr hP
  · exact Or.inl ⟨s', hold, rfl⟩

/-- Writing a schedule of a sponsor whose stream the recipient has already. -/
theorem newStreams_rewrite (h : Stored st r s) (hs : s.sponsor = s'.sponsor) :
    NewStreams P st (setScheduleById st r k s') := by
  intro r' s'' hs''
  rcases stored_setScheduleById hs'' with ⟨rfl, rfl⟩ | hold
  · exact Or.inl ⟨s, h, hs⟩
  · exact Or.inl ⟨s'', hold, rfl⟩

theorem newStreams_remove : NewStreams P st (removeScheduleById st r k) :=
  newStreams_of_stored fun _ _ => stored_removeScheduleById

theorem newStreams_addSponsorStream : NewStreams P st (addSponsorStream st sp r) :=
  newStreams_of_stored fun _ _ => stored_addSponsorStream.mp

theorem newStreams_removeSponsorStream : NewStreams P st (removeSponsorStream st sp r) :=
  newStreams_of_stored fun _ _ => stored_removeSponsorStream.mp

/-- Migrating a legacy record keeps its sponsor. -/
theorem newStreams_getSchedule : NewStreams P st (getSchedule st r).2 := by
  rcases getSchedule_storage st r with heq | ⟨s, heq, s0, hl, hs⟩
  · rw [heq]
    exact newStreams_of_stored fun _ _ => id
  · rw [heq]
    exact newStreams_rewrite (Or.inr hl) (by rw [hs])

end Stored

/-- The recipients a call names for fixed-rate streams it creates. -/
def AnyCall.fixedRecipients : AnyCall → List Address
  | .fixed (.createVestingStream a) | .createVestingStreamWithMeta a | .createMilestoneStream a =>
    [a.recipient]
  | .createBatchStreams _ _ streams => streams.map (·.recipient)
  | _ => []

/-- The recipients a call names for variable-rate streams it creates. -/
def AnyCall.variableRecipients : AnyCall → List Address
  | .createVariableRateStream a | .createVariableStream a => [a.recipient]
  | _ => []

/-- The sponsor of the streams a call creates. -/
def AnyCall.creator : AnyCall → Option Address
  | .fixed (.createVestingStream a) | .createVestingStreamWithMeta a | .createMilestoneStream a =>
    some a.sponsor
  | .createBatchStreams sponsor _ _ => some sponsor
  | .createVariableRateStream a | .createVariableStream a => some a.sponsor
  | _ => none

/-- The token of the deposit that a call takes from its sponsor. -/
def depositToken : AnyCall → Option Address
  | .fixed (.createVestingStream a) | .createVestingStreamWithMeta a | .createMilestoneStream a =>
    some a.token
  | .createBatchStreams _ token _ => some token
  | .createVariableRateStream a | .createVariableStream a => some a.token
  | _ => none

/-- The recipients a call moves a stream between. -/
def AnyCall.moves : AnyCall → Option (Address × Address)
  | .fixed (.transferRecipient r r') | .transferStream r r' => some (r, r')
  | _ => none

/-- The recipients a call names for the streams it creates or moves. -/
def AnyCall.recipients (call : AnyCall) : List Address :=
  call.fixedRecipients ++ call.variableRecipients ++ (call.moves.map Prod.snd).toList

/-- The stream of `sponsor` for `r` is new: a creation or a transfer made it. -/
inductive NewStream (st : Storage) (call : AnyCall) (r sponsor : Address) : Prop
  | created (named : r ∈ call.fixedRecipients) (creator : call.creator = some sponsor)
      (ne : sponsor ≠ r)
  | moved {r0 : Address} {s0 : VestingSchedule} (moves : call.moves = some (r0, r))
      (found : legacy st r0 = some s0) (sponsor_eq : s0.sponsor = sponsor)

section Origin

variable {D : Deployment} {host : Host} {env env' : Env} {u : Unit}

theorem newStreams_claim (hD : D.ReadsById) {P : Address → Address → Prop} {r : Address}
    {streamId : Option UInt32} {amount : ℤ}
    (h : claimVested D host r streamId env = .ok (amount, env')) :
    NewStreams P env.persistent env'.persistent := by
  refine (claimVested_induct (P := fun _ e => NewStreams P env.persistent e.persistent) h
    (fun k _ acc e x e1 he hx => ?_) (newStreams_of_stored fun _ _ => id)).1
  rcases claimStream_ok hD hx with ⟨-, rfl⟩ | ⟨s, rc, hpaid, -⟩
  · exact he
  · obtain ⟨-, -, -, -, -, -, -, hsched, -⟩ := claimSchedule_ok hpaid.receipt
    refine he.trans ?_
    rw [hpaid.persistent]
    unfold afterClaim
    split_ifs
    · exact newStreams_remove
    · exact newStreams_rewrite (stored_of_scheduleAt hpaid.live) (by rw [hsched])

theorem newStreams_terminated {P : Address → Address → Prop} {sponsor r : Address} {k : UInt32}
    {s : VestingSchedule} {bound : ℤ} (h : Terminated D sponsor r k env env' s bound) :
    NewStreams P env.persistent env'.persistent := by
  rw [h.persistent]
  exact newStreams_remove.trans newStreams_removeSponsorStream

theorem newStreams_drained {P : Address → Address → Prop} {r : Address} {s : VestingSchedule}
    {bound : ℤ} (h : Drained D r env env' s bound) :
    NewStreams P env.persistent env'.persistent := by
  rw [h.persistent]
  exact (newStreams_getSchedule.trans newStreams_remove).trans newStreams_removeSponsorStream

/-- A pause or a resumption rewrites a schedule for the same sponsor. -/
theorem newStreams_rewritten {P : Address → Address → Prop} {r : Address} {s s' : VestingSchedule}
    (h : Rewritten r env env' s s') (hs : s.sponsor = s'.sponsor) :
    NewStreams P env.persistent env'.persistent := by
  obtain ⟨s0, hl, heq⟩ := getSchedule_some h.found
  have hs0 : s0.sponsor = s.sponsor := by rw [heq]
  intro r' s'' hs''
  rw [h.persistent] at hs''
  rcases stored_setScheduleById hs'' with ⟨rfl, rfl⟩ | hold
  · exact Or.inl ⟨s0, Or.inr hl, hs0.trans hs⟩
  · exact newStreams_getSchedule r' s'' hold

theorem names_of_create {call : AnyCall} {a : CreateArgs}
    (h : call.base = some (.createVestingStream a)) :
    a.recipient ∈ call.fixedRecipients ∧ call.creator = some a.sponsor := by
  cases call with
  | fixed base => cases h; exact ⟨List.mem_singleton_self _, rfl⟩
  | createVestingStreamWithMeta a' => cases h; exact ⟨List.mem_singleton_self _, rfl⟩
  | createMilestoneStream a' => cases h; exact ⟨List.mem_singleton_self _, rfl⟩
  | _ => cases h

theorem moves_of_transfer {call : AnyCall} {r r' : Address}
    (h : call.base = some (.transferRecipient r r')) : call.moves = some (r, r') := by
  cases call with
  | fixed base => cases h; rfl
  | transferStream a b => cases h; rfl
  | _ => cases h

theorem newStreams_transferred {call : AnyCall} {r r' : Address} {s : VestingSchedule}
    (hmoves : call.moves = some (r, r')) (h : Transferred r r' env env' s) :
    NewStreams (NewStream env.persistent call) env.persistent env'.persistent := by
  obtain ⟨s0, hl, heq⟩ := getSchedule_some h.found
  have hs0 : s0.sponsor = s.sponsor := by rw [heq]
  rw [h.persistent]
  exact (((newStreams_getSchedule.trans newStreams_remove).trans
    (newStreams_set (.moved hmoves hl hs0))).trans newStreams_removeSponsorStream).trans
    newStreams_addSponsorStream

theorem newStreams_created {call : AnyCall} {a : CreateArgs} {id : UInt32} {c : CreationReceipt}
    (hnamed : a.recipient ∈ call.fixedRecipients) (hcreator : call.creator = some a.sponsor)
    (hne : a.sponsor ≠ a.recipient) (h : Created D host a env id env' c) :
    NewStreams (NewStream env.persistent call) env.persistent env'.persistent := by
  obtain ⟨-, n, -, hres⟩ := nextStreamId_ok _ _ _ h.id
  rw [h.persistent, hres]
  exact ((newStreams_of_stored fun _ _ => (stored_insert_nextStreamId n).mp).trans
    (newStreams_set (.created hnamed hcreator hne))).trans newStreams_addSponsorStream

/-- **Where a stream can come from**, for the entry points of `Requests` and their aliases. -/
theorem newStreams_of_fixed (hD : D.ReadsById) {call : AnyCall} {base : ContractCall}
    (hbase : call.base = some base) (h : FixedEffect D host env env' base) :
    NewStreams (NewStream env.persistent call) env.persistent env'.persistent := by
  cases h with
  | config _ hp =>
    rw [hp]
    exact newStreams_of_stored fun _ _ => id
  | create hne _ h =>
    obtain ⟨hnamed, hcreator⟩ := names_of_create hbase
    exact newStreams_created hnamed hcreator hne h
  | claim h => exact newStreams_claim hD h
  | rewritten _ hsp h => exact newStreams_rewritten h hsp
  | transferred h => exact newStreams_transferred (moves_of_transfer hbase) h
  | terminated _ h => exact newStreams_terminated h
  | drained _ h => exact newStreams_drained h

/-- Every entry of a batch names a recipient other than the sponsor. -/
theorem newStreams_batch {call : AnyCall} {sponsor token : Address} {streams : List BatchEntry}
    {st st' : Storage}
    (hnamed : ∀ e ∈ streams, e.recipient ∈ call.fixedRecipients ∧ e.recipient ≠ sponsor)
    (hcreator : call.creator = some sponsor) {st0 : Storage}
    (h : BatchStored host sponsor token streams st st') :
    NewStreams (NewStream st0 call) st st' := by
  induction h with
  | nil st => exact newStreams_of_stored fun _ _ => id
  | @cons e rest st st' cliff fin _ _ _ ih =>
    obtain ⟨hin, hne⟩ := hnamed e List.mem_cons_self
    have hrest := ih fun e' he' => hnamed e' (List.mem_cons_of_mem _ he')
    exact ((newStreams_set (.created hin hcreator hne.symm)).trans
      newStreams_addSponsorStream).trans hrest

/-- Variable-rate schedules have keys of their own. -/
theorem stored_insert_variable {st : Storage} {r r' : Address} {s : VestingSchedule}
    {v : VariableRateSchedule} : Stored (setVariableSchedule st r' v) r s ↔ Stored st r s :=
  stored_congr (fun _ _ => Finmap.lookup_insert_of_ne _ (by simp))
    fun _ => Finmap.lookup_insert_of_ne _ (by simp)

theorem stored_erase_variable {st : Storage} {r r' : Address} {s : VestingSchedule} :
    Stored (removeVariableSchedule st r') r s ↔ Stored st r s :=
  stored_congr (fun _ _ => Finmap.lookup_erase_ne (by simp))
    fun _ => Finmap.lookup_erase_ne (by simp)

/-- **Where a stream can come from**, for every entry point. -/
theorem newStreams_of_effect (hD : D.ReadsById) {call : AnyCall}
    (h : AnyEffect D host env env' call) :
    NewStreams (NewStream env.persistent call) env.persistent env'.persistent := by
  cases h with
  | fixed hbase h => exact newStreams_of_fixed hD hbase h
  | batch h =>
    refine newStreams_batch (fun e he => ⟨List.mem_map_of_mem he, (h.valid e he).ne⟩) rfl h.stored
  | variableRate _ h =>
    rw [h.persistent]
    exact newStreams_of_stored fun _ _ => stored_insert_variable.mp
  | claimVariable _ h =>
    rw [h.persistent]
    split_ifs
    · exact newStreams_of_stored fun _ _ => stored_erase_variable.mp
    · exact newStreams_of_stored fun _ _ => stored_insert_variable.mp

end Origin

/-! ### What the fixed-rate entry points leave alone -/

/-- What every change of the fixed-rate streams leaves alone: the variable-rate schedules; no legacy
record appears, and no stream under an id that is neither `0` nor used already. -/
structure Tame (st st' : Storage) : Prop where
  segmented : ∀ r, getVariableSchedule st' r = getVariableSchedule st r
  noLegacy : ∀ r, legacy st r = none → legacy st' r = none
  ids : ∀ r k, (byId st' r k).isSome = true → (byId st r k).isSome = true ∨ k = 0

section Tame

variable {st st' st'' : Storage}

theorem Tame.refl (st : Storage) : Tame st st := ⟨fun _ => rfl, fun _ => id, fun _ _ => Or.inl⟩

theorem Tame.trans (h : Tame st st') (h' : Tame st' st'') : Tame st st'' where
  segmented r := (h'.segmented r).trans (h.segmented r)
  noLegacy r hr := h'.noLegacy r (h.noLegacy r hr)
  ids r k hk := by
    rcases h'.ids r k hk with hk | h0
    · exact h.ids r k hk
    · exact Or.inr h0

/-- Changes of other keys. -/
theorem tame_of_lookup (h : ∀ key : DataKey, (∃ r, key = .variableSchedule r) ∨
    (∃ r, key = .schedule r) ∨ (∃ r k, key = .scheduleById r k) → st'.lookup key = st.lookup key) :
    Tame st st' where
  segmented r := h _ (Or.inl ⟨r, rfl⟩)
  noLegacy r hr := (h _ (Or.inr (Or.inl ⟨r, rfl⟩))).trans hr
  ids r k hk := by
    have hsame : byId st' r k = byId st r k := h _ (Or.inr (Or.inr ⟨r, k, rfl⟩))
    rw [hsame] at hk
    exact Or.inl hk

variable (st) (r sp : Address)

theorem tame_insert_nextStreamId (n : UInt32) : Tame st (st.insert (.nextStreamId r) n) :=
  tame_of_lookup fun key hkey => Finmap.lookup_insert_of_ne _ (by
    rcases hkey with ⟨_, rfl⟩ | ⟨_, rfl⟩ | ⟨_, _, rfl⟩ <;> simp)

theorem tame_addSponsorStream : Tame st (addSponsorStream st sp r) :=
  tame_of_lookup fun key hkey => lookup_addSponsorStream _ _ _ (by
    rcases hkey with ⟨_, rfl⟩ | ⟨_, rfl⟩ | ⟨_, _, rfl⟩ <;> simp)

theorem tame_removeSponsorStream : Tame st (removeSponsorStream st sp r) :=
  tame_of_lookup fun key hkey => lookup_removeSponsorStream _ _ _ (by
    rcases hkey with ⟨_, rfl⟩ | ⟨_, rfl⟩ | ⟨_, _, rfl⟩ <;> simp)

theorem tame_set {k : UInt32} (s : VestingSchedule)
    (hk : k = 0 ∨ (byId st r k).isSome = true) : Tame st (setScheduleById st r k s) where
  segmented _ := lookup_setScheduleById _ _ _ _ (by simp) (by simp) (by simp)
  noLegacy r' hr := by
    rw [legacy_setScheduleById, hr]
    exact ite_self _
  ids r' k' hk' := by
    rw [byId_setScheduleById] at hk'
    split_ifs at hk' with heq
    · obtain ⟨rfl, rfl⟩ := heq
      exact hk.symm
    · exact Or.inl hk'

theorem tame_remove (k : UInt32) : Tame st (removeScheduleById st r k) where
  segmented _ := lookup_removeScheduleById _ _ _ (by simp) (by simp)
  noLegacy r' hr := by
    rw [legacy_removeScheduleById, hr]
    exact ite_self _
  ids r' k' hk' := by
    rw [byId_removeScheduleById] at hk'
    split_ifs at hk'
    · cases hk'
    · exact Or.inl hk'

theorem tame_getSchedule : Tame st (getSchedule st r).2 := by
  rcases getSchedule_storage st r with heq | ⟨s, heq, -⟩
  · rw [heq]
    exact .refl st
  · rw [heq]
    exact tame_set st r s (Or.inl rfl)

end Tame

section Tame

variable {D : Deployment} {host : Host} {env env' : Env}

theorem zero_or_byId_of_scheduleAt {st : Storage} {r : Address} {k : UInt32} {s : VestingSchedule}
    (h : scheduleAt st r k = some s) : k = 0 ∨ (byId st r k).isSome = true := by
  unfold scheduleAt at h
  split at h
  · next s0 h0 =>
    rw [h0]
    exact Or.inr rfl
  · split_ifs at h with h0
    exact Or.inl h0

theorem tame_claim (hD : D.ReadsById) {r : Address} {streamId : Option UInt32} {amount : ℤ}
    (h : claimVested D host r streamId env = .ok (amount, env')) :
    Tame env.persistent env'.persistent := by
  refine (claimVested_induct (P := fun _ e => Tame env.persistent e.persistent) h
    (fun k _ acc e x e1 he hx => ?_) (.refl _)).1
  rcases claimStream_ok hD hx with ⟨-, rfl⟩ | ⟨s, rc, hpaid, -⟩
  · exact he
  · refine he.trans ?_
    rw [hpaid.persistent]
    unfold afterClaim
    split_ifs
    · exact tame_remove _ r k
    · exact tame_set _ r _ (zero_or_byId_of_scheduleAt hpaid.live)

/-- **What the entry points of `Requests` leave alone.** -/
theorem tame_of_fixed (hD : D.ReadsById) {base : ContractCall}
    (h : FixedEffect D host env env' base) : Tame env.persistent env'.persistent := by
  cases h with
  | config _ hp =>
    rw [hp]
    exact .refl _
  | create _ _ h =>
    obtain ⟨-, n, -, hres⟩ := nextStreamId_ok _ _ _ h.id
    rw [h.persistent, hres]
    exact ((tame_insert_nextStreamId _ _ n).trans (tame_set _ _ _ (Or.inl rfl))).trans
      (tame_addSponsorStream _ _ _)
  | claim h => exact tame_claim hD h
  | rewritten _ _ h =>
    rw [h.persistent]
    exact (tame_getSchedule _ _).trans (tame_set _ _ _ (Or.inl rfl))
  | transferred h =>
    rw [h.persistent]
    exact ((((tame_getSchedule _ _).trans (tame_remove _ _ 0)).trans
      (tame_set _ _ _ (Or.inl rfl))).trans (tame_removeSponsorStream _ _ _)).trans
      (tame_addSponsorStream _ _ _)
  | terminated _ h =>
    rw [h.persistent]
    exact (tame_remove _ _ 0).trans (tame_removeSponsorStream _ _ _)
  | drained _ h =>
    rw [h.persistent]
    exact ((tame_getSchedule _ _).trans (tame_remove _ _ 0)).trans (tame_removeSponsorStream _ _ _)

theorem tame_batch {sponsor token : Address} {streams : List BatchEntry} {st st' : Storage}
    (h : BatchStored host sponsor token streams st st') : Tame st st' := by
  induction h with
  | nil st => exact .refl st
  | cons _ _ _ ih =>
    exact ((tame_set _ _ _ (Or.inl rfl)).trans (tame_addSponsorStream _ _ _)).trans ih

end Tame

/-! ### The variable-rate schedules -/

section VariableOrigin

variable {D : Deployment} {host : Host} {env env' : Env}

/-- **Where a variable-rate stream can come from**: it was there, for the same sponsor, or a
creation of its sponsor named the recipient, who had no stream under the keys the creation looks
at. -/
theorem variable_origin (hD : D.ReadsById) {call : AnyCall} (h : AnyEffect D host env env' call)
    {r : Address} {v : VariableRateSchedule} (hv : getVariableSchedule env'.persistent r = some v) :
    (∃ v0, getVariableSchedule env.persistent r = some v0 ∧ v0.sponsor = v.sponsor) ∨
      (r ∈ call.variableRecipients ∧ call.creator = some v.sponsor ∧ v.sponsor ≠ r ∧
        hasSchedule env.persistent r = false) := by
  cases h with
  | fixed _ h =>
    rw [(tame_of_fixed hD h).segmented r] at hv
    exact Or.inl ⟨v, hv, rfl⟩
  | batch h =>
    rw [(tame_batch h.stored).segmented r] at hv
    exact Or.inl ⟨v, hv, rfl⟩
  | @variableRate _ a s kind h =>
    rw [h.persistent, getVariableSchedule_set] at hv
    split_ifs at hv with hr
    · subst hr
      obtain rfl := Option.some.inj hv
      have hne : s.sponsor ≠ a.recipient := by
        rw [h.sponsor]
        exact h.ne
      refine Or.inr ⟨?_, ?_, hne, h.noFixed⟩
      · rcases kind with rfl | rfl <;> exact List.mem_singleton_self _
      · rw [h.sponsor]
        rcases kind with rfl | rfl <;> rfl
    · exact Or.inl ⟨v, hv, rfl⟩
  | @claimVariable _ r0 s s' _ h =>
    rw [h.persistent] at hv
    split_ifs at hv
    · rw [getVariableSchedule_remove] at hv
      split_ifs at hv
      exact Or.inl ⟨v, hv, rfl⟩
    · rw [getVariableSchedule_set] at hv
      split_ifs at hv with hr
      · subst hr
        obtain rfl := Option.some.inj hv
        exact Or.inl ⟨s, h.live, h.sponsor.symm⟩
      · exact Or.inl ⟨v, hv, rfl⟩

end VariableOrigin

/-! ### The storage of a run from the empty one -/

/-- No legacy record is stored, and no stream under an id other than `0`. -/
structure Flat (st : Storage) : Prop where
  noLegacy : ∀ r, legacy st r = none
  ids : ∀ r k, (byId st r k).isSome = true → k = 0

section Flat

variable {D : Deployment} {host : Host} {env env' : Env}

theorem flat_empty : Flat ∅ where
  noLegacy _ := Finmap.lookup_empty _
  ids r k hk := by
    have h : byId ∅ r k = none := Finmap.lookup_empty _
    rw [h] at hk
    cases hk

theorem Flat.of_tame {st st' : Storage} (h : Flat st) (ht : Tame st st') : Flat st' where
  noLegacy r := ht.noLegacy r (h.noLegacy r)
  ids r k hk := (ht.ids r k hk).elim (h.ids r k) id

/-- Changes of the variable-rate schedules. -/
theorem Flat.of_lookup {st st' : Storage} (h : Flat st) (hl : ∀ r, legacy st' r = legacy st r)
    (hb : ∀ r k, byId st' r k = byId st r k) : Flat st' where
  noLegacy r := (hl r).trans (h.noLegacy r)
  ids r k hk := h.ids r k (by rw [← hb]; exact hk)

theorem flat_of_effect (hD : D.ReadsById) {call : AnyCall} (h : AnyEffect D host env env' call)
    (hflat : Flat env.persistent) : Flat env'.persistent := by
  cases h with
  | fixed _ h => exact hflat.of_tame (tame_of_fixed hD h)
  | batch h => exact hflat.of_tame (tame_batch h.stored)
  | variableRate _ h =>
    rw [h.persistent]
    exact hflat.of_lookup (fun _ => Finmap.lookup_insert_of_ne _ (by simp))
      fun _ _ => Finmap.lookup_insert_of_ne _ (by simp)
  | claimVariable _ h =>
    rw [h.persistent]
    split_ifs
    · exact hflat.of_lookup (fun _ => Finmap.lookup_erase_ne (by simp))
        fun _ _ => Finmap.lookup_erase_ne (by simp)
    · exact hflat.of_lookup (fun _ => Finmap.lookup_insert_of_ne _ (by simp))
        fun _ _ => Finmap.lookup_insert_of_ne _ (by simp)

/-- **The request rule**: what holds before a request, and what every effect of it establishes,
holds after it. -/
theorem stepAny_induct (hD : D.ReadsById) {q : AnyRequest} {P : Env → Prop} (h0 : P env)
    (h : ∀ env', AnyEffect D q.host env env' q.call → P env') : P (stepAny D env q) :=
  commit_induct h0 fun _ env' hok => h env' (execAny_ok hD hok)

/-- One request keeps the storage flat. -/
theorem flat_step (hD : D.ReadsById) (env : Env) (q : AnyRequest) (h : Flat env.persistent) :
    Flat (stepAny D env q).persistent :=
  stepAny_induct hD (P := fun e => Flat e.persistent) h fun _ heff => flat_of_effect hD heff h

end Flat

end VestingDripStream.Contract.AllRequests
