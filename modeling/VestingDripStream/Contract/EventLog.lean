import VestingDripStream.Contract.AllRequests
import VestingDripStream.Contract.ClaimAll

/-! # The event log

What the contract publishes, by entry point: `Announces q e` says that `q` is a request for which the
event `e` is published, and that the party that answers for `e` signed it. Every request only adds
events of its own to the log (`emits_execAny`), so that an event in the log of a run goes back to a
request of that run (`event_announced`).

From the empty storage on a recipient has one stream, under id `0`, and no legacy record. A claim
then pays one stream and publishes one `TokensClaimed`, with the amount that it returns, and nothing
is drained (`claimsIn_newEvents`). -/

namespace VestingDripStream.Contract.EventLog

open VestingDripStream.Lib.Checked VestingDripStream.Lib.Transaction VestingDripStream.Lib.Run
open VestingDripStream.Contract.Types VestingDripStream.Contract.Storage
open VestingDripStream.Contract.Schedule VestingDripStream.Contract.EntryPoints
open VestingDripStream.Contract.Effects VestingDripStream.Contract.Stream
open VestingDripStream.Contract.Requests VestingDripStream.Contract.VariableRate
open VestingDripStream.Contract.AllRequests

/-! ### Which request publishes an event -/

/-- The calls of the administrator that an event announces. -/
def Configures (admin : Address) : Event → ContractCall → Prop
  | .contractInitialized _ feeBps treasury, call =>
    call = .initializeContract admin feeBps treasury
  | .allowlistUpdated _ token added, call =>
    call = if added then .addAllowedToken admin token else .removeAllowedToken admin token
  | .recipientAllowlistUpdated _ recipient allowed, call =>
    ∃ recipients, recipient ∈ recipients ∧ call = .setAllowlist admin recipients allowed
  | _, _ => False

/-- The request publishes the event, and whoever answers for the event signed the request. Nobody
signs for the drain of an expired stream: its caller is an argument like any other. -/
def Announces (q : AnyRequest) (e : Event) : Prop :=
  match e with
  | .contractInitialized admin .. | .allowlistUpdated admin .. | .recipientAllowlistUpdated admin .. =>
    (∃ call, q.call = .fixed call ∧ Configures admin e call) ∧ q.host.auth admin = true
  | .streamCreated sponsor recipient token .. =>
    (q.call.creator = some sponsor ∧ depositToken q.call = some token ∧
      recipient ∈ q.call.fixedRecipients) ∧ q.host.auth sponsor = true
  | .variableStreamCreated sponsor recipient token .. =>
    (q.call.creator = some sponsor ∧ depositToken q.call = some token ∧
      recipient ∈ q.call.variableRecipients) ∧ q.host.auth sponsor = true
  | .feeCollected sponsor .. => q.call.creator = some sponsor ∧ q.host.auth sponsor = true
  | .tokensClaimed recipient .. | .feeTaken recipient .. =>
    (∃ streamId, q.call = .fixed (.claimVested recipient streamId)) ∧ q.host.auth recipient = true
  | .variableTokensClaimed recipient .. =>
    (q.call = .claimVariableVested recipient ∨ q.call = .claimVariableVestedSecond recipient) ∧
      q.host.auth recipient = true
  | .streamCompleted recipient _ =>
    ((∃ streamId, q.call = .fixed (.claimVested recipient streamId)) ∨
      q.call = .claimVariableVested recipient ∨ q.call = .claimVariableVestedSecond recipient) ∧
        q.host.auth recipient = true
  | .streamPaused recipient sponsor _ =>
    (q.call = .fixed (.pauseStream sponsor recipient) ∨
      q.call = .fixed (.pauseStreamSecond sponsor recipient)) ∧ q.host.auth sponsor = true
  | .streamResumed recipient sponsor _ =>
    (q.call = .fixed (.resumeStream sponsor recipient) ∨
      q.call = .fixed (.resumeStreamSecond sponsor recipient)) ∧ q.host.auth sponsor = true
  | .streamTransferred currentRecipient newRecipient =>
    q.call.moves = some (currentRecipient, newRecipient) ∧ q.host.auth currentRecipient = true
  | .streamCancelled sponsor recipient .. =>
    (∃ streamId, q.call = .fixed (.cancelStream sponsor recipient streamId)) ∧
      q.host.auth sponsor = true
  | .streamClawedBack sponsor recipient _ _ _ reason =>
    (∃ streamId, q.call = .fixed (.clawbackStream sponsor recipient streamId reason)) ∧
      q.host.auth sponsor = true
  | .streamDrained caller recipient .. => q.call = .fixed (.drainExpiredStream caller recipient)
  | .emergencyDrain recipient sponsor _ =>
    q.call = .fixed (.emergencyDrain sponsor recipient) ∧ q.host.auth sponsor = true

/-- The call publishes events with the property `p` only. -/
abbrev Emits {α : Type} (p : Event → Prop) (x : Call α) : Prop := Appends Env.events p x

/-! ### The primitive actions -/

section Primitive

variable {D : Deployment} {host : Host} {p : Event → Prop}

theorem emits_update {g : Env → Env} (h : ∀ env, (g env).events = env.events) :
    Emits p (update g : Call Unit) := (keeps_update h).appends

theorem emits_persist (g : Storage → Storage) : Emits p (persist g) := emits_update fun _ => rfl

theorem emits_configure (g : Storage → Storage) : Emits p (configure g) := emits_update fun _ => rfl

theorem emits_emit {e : Event} (h : p e) : Emits p (emit e) := by
  intro env u env' hs
  rw [emit_ok] at hs
  subst hs
  exact ⟨[e], rfl, by simpa using h⟩

theorem emits_tryTransfer {token src dst : Address} {amount : ℤ} :
    Emits p (tryTransfer host token src dst amount) := by
  intro env u env' hs
  obtain ⟨b, -, rfl⟩ := tryTransfer_ok hs
  exact ⟨[], (List.append_nil _).symm, by simp⟩

theorem emits_lockedTransfer {token dst : Address} {amount : ℤ} :
    Emits p (lockedTransfer D host token dst amount) :=
  appends_asks_bind fun _ => appends_ensure_bind fun _ => (emits_configure _).bind fun _ =>
    emits_tryTransfer.bind fun _ => emits_configure _

theorem emits_readSchedule (r : Address) : Emits p (readSchedule r) := by
  intro env s env' h
  cases h
  exact ⟨[], (List.append_nil _).symm, by simp⟩

theorem emits_dropStream (sponsor r : Address) : Emits p (dropStream sponsor r) := emits_persist _

theorem emits_takeStreamId (r : Address) : Emits p (takeStreamId r) := by
  intro env k env' h
  obtain ⟨st, -, rfl⟩ := takeStreamId_ok h
  exact ⟨[], (List.append_nil _).symm, by simp⟩

/-- What follows the administrator's check may use the signature. -/
theorem emits_requireAdmin_bind {β : Type} {admin : Address} {g : Unit → Call β}
    (h : host.auth admin = true → Emits p (g ())) :
    Emits p (requireAdmin D host admin >>= g) := by
  refine appends_bind_of_ok ?_ fun env _ env' hs => ?_
  · exact appends_ensure_bind fun _ => appends_asks_bind fun _ => (keeps_ensure _ _).appends
  · simp only [requireAdmin, requireAuth_bind_ok] at hs
    exact h hs.1.1

end Primitive

/-! ### The entry points -/

section EntryPoints

variable {D : Deployment} {host : Host}

theorem emits_payClaim (p : Event → Prop) (r token : Address) (fee net : ℤ)
    (h : ∀ treasury, p (.feeTaken r treasury fee net)) :
    Emits p (payClaim D host r token fee net) := by
  refine appends_asks_bind fun _ => appends_ensure_bind fun _ => (emits_configure _).bind fun _ =>
    Appends.bind (appends_onlyIf ?_) fun _ => emits_tryTransfer.bind fun _ => emits_configure _
  exact appends_need_bind fun treasury _ => emits_tryTransfer.bind fun _ => emits_emit (h treasury)

theorem emits_storeClaim (p : Event → Prop) (r : Address) (k : UInt32) (s : VestingSchedule)
    (total : ℤ) (h : p (.streamCompleted r s.token)) : Emits p (storeClaim r k s total) := by
  unfold storeClaim
  split_ifs
  · exact (emits_persist _).bind fun _ => emits_emit h
  · exact emits_persist _

theorem emits_claimStream (p : Event → Prop) (r : Address) (specific : Bool) (k : UInt32)
    (hfee : ∀ treasury fee net, p (.feeTaken r treasury fee net))
    (hdone : ∀ token, p (.streamCompleted r token))
    (hclaim : ∀ amount ledger, p (.tokensClaimed r amount ledger)) :
    Emits p (claimStream D host r specific k) := by
  unfold claimStream
  refine appends_asks_bind fun st => ?_
  cases D.getScheduleById st r k with
  | none => exact appends_ensure_bind fun _ => appends_pure _
  | some s =>
    refine appends_compute_bind fun acc _ => ?_
    cases acc with
    | skip reason => exact appends_ensure_bind fun _ => appends_pure _
    | due s total claimable =>
      refine appends_asks_bind fun _ => appends_compute_bind fun x _ => ?_
      refine (emits_payClaim p r _ x.1 x.2 fun _ => hfee _ _ _).bind fun _ =>
        appends_compute_bind fun s' _ => ?_
      exact (emits_storeClaim p r k s' total (hdone _)).bind fun _ =>
        (emits_emit (hclaim _ _)).discard _

theorem emits_claimLoop (p : Event → Prop) (r : Address) (specific : Bool)
    (h : ∀ k, Emits p (claimStream D host r specific k)) :
    ∀ (ids : List UInt32) (total : ℤ), Emits p (claimLoop D host r specific ids total)
  | [], _ => appends_pure _
  | k :: ids, _ => (h k).bind fun _ => appends_compute_bind fun total' _ =>
      emits_claimLoop p r specific h ids total'

theorem emits_claimVested (r : Address) (streamId : Option UInt32) :
    Emits (Announces ⟨host, .fixed (.claimVested r streamId)⟩) (claimVested D host r streamId) := by
  refine appends_ensure_bind fun hauth => appends_asks_bind fun _ => appends_ensure_bind fun _ => ?_
  have hsigned : host.auth r = true := hauth.1
  refine Appends.bind (emits_claimLoop _ r _ (fun k => ?_) _ _) fun _ =>
    appends_ensure_bind fun _ => appends_pure _
  exact emits_claimStream _ r _ k (fun _ _ _ => ⟨⟨_, rfl⟩, hsigned⟩)
    (fun _ => ⟨Or.inl ⟨_, rfl⟩, hsigned⟩) fun _ _ => ⟨⟨_, rfl⟩, hsigned⟩

/-- A creation answers for the events of its sponsor. -/
theorem emits_createVestingStream (call : AnyCall) (a : CreateArgs)
    (hcreator : call.creator = some a.sponsor) (htoken : depositToken call = some a.token)
    (hnamed : a.recipient ∈ call.fixedRecipients) :
    Emits (Announces ⟨host, call⟩) (createVestingStream D host a) := by
  refine appends_bind_of_ok (Keeps.appends fun env _ env' hv => ?_) fun env m env' hv => ?_
  · obtain ⟨-, -, -, -, -, rfl⟩ := validateCreate_ok hv
    rfl
  · have hsigned : host.auth a.sponsor = true := by
      simp only [validateCreate, asks_bind_ok, require_bind_ok, compute_bind_ok,
        requireAuth_bind_ok, pure_ok] at hv
      obtain ⟨-, -, -, -, -, -, -, -, -, -, _, -, ⟨hauth, -⟩, -⟩ := hv
      exact hauth
    refine appends_compute_bind fun _ _ => appends_compute_bind fun _ _ => appends_asks_bind
      fun _ => appends_ensure_bind fun _ => appends_compute_bind fun _ _ => appends_ensure_bind
        fun _ => (emits_takeStreamId _).bind fun _ => emits_tryTransfer.bind fun _ => ?_
    refine Appends.bind ?_ fun _ => (emits_persist _).bind fun _ => (emits_persist _).bind fun _ =>
      appends_compute_bind fun _ _ => appends_compute_bind fun _ _ =>
        (emits_emit ⟨⟨hcreator, htoken, hnamed⟩, hsigned⟩).discard _
    refine appends_asks_bind fun _ => appends_onlyIf <| appends_need_bind fun _ _ =>
      appends_compute_bind fun _ _ => appends_onlyIf <| emits_tryTransfer.bind fun _ => ?_
    exact emits_emit ⟨hcreator, hsigned⟩

theorem emits_storeBatch (call : AnyCall) {sponsor token : Address}
    (hcreator : call.creator = some sponsor) (htoken : depositToken call = some token)
    (hsigned : host.auth sponsor = true) :
    ∀ streams : List BatchEntry, (∀ e ∈ streams, e.recipient ∈ call.fixedRecipients) →
      Emits (Announces ⟨host, call⟩) (storeBatch host sponsor token streams)
  | [], _ => appends_pure _
  | e :: streams, hnamed => by
    refine Appends.bind ?_ fun _ => emits_storeBatch call hcreator htoken hsigned streams
      fun e' he' => hnamed e' (List.mem_cons_of_mem e he')
    refine appends_compute_bind fun _ _ => appends_compute_bind fun _ _ => (emits_persist _).bind
      fun _ => (emits_persist _).bind fun _ => appends_compute_bind fun _ _ =>
        appends_compute_bind fun _ _ => ?_
    exact emits_emit ⟨⟨hcreator, htoken, hnamed e List.mem_cons_self⟩, hsigned⟩

theorem emits_createBatchStreams (sponsor token : Address) (streams : List BatchEntry) :
    Emits (Announces ⟨host, .createBatchStreams sponsor token streams⟩)
      (createBatchStreams D host sponsor token streams) := by
  refine appends_ensure_bind fun _ => Appends.bind (Keeps.appends fun env _ env' hv => ?_)
    fun _ => appends_asks_bind fun _ => appends_ensure_bind fun _ => appends_ensure_bind
      fun hauth => emits_tryTransfer.bind fun _ => ?_
  · rw [(validateBatch_ok hv).2]
  · exact emits_storeBatch _ rfl rfl hauth.1 streams fun e he => List.mem_map_of_mem he

theorem emits_createVariableRateStream (call : AnyCall) (a : VariableArgs)
    (hcreator : call.creator = some a.sponsor) (htoken : depositToken call = some a.token)
    (hnamed : a.recipient ∈ call.variableRecipients) :
    Emits (Announces ⟨host, call⟩) (createVariableRateStream D host a) := by
  refine appends_asks_bind fun _ => appends_ensure_bind fun _ => appends_ensure_bind fun _ =>
    appends_asks_bind fun _ => appends_ensure_bind fun _ => appends_ensure_bind fun _ =>
      appends_compute_bind fun _ _ => appends_compute_bind fun _ _ => appends_ensure_bind
        fun hauth => emits_tryTransfer.bind fun _ => (emits_persist _).bind fun _ => ?_
  exact emits_emit ⟨⟨hcreator, htoken, hnamed⟩, hauth.1⟩

theorem emits_claimVariableVestedWith
    (accrued : VariableRateSchedule → UInt32 → Except Failure ℤ) (call : AnyCall) (r : Address)
    (hcall : call = .claimVariableVested r ∨ call = .claimVariableVestedSecond r) :
    Emits (Announces ⟨host, call⟩) (claimVariableVestedWith accrued D host r) := by
  refine appends_ensure_bind fun hauth => appends_asks_bind fun _ => appends_need_bind fun _ _ =>
    appends_ensure_bind fun _ => appends_ensure_bind fun _ => appends_compute_bind fun _ _ =>
      appends_ensure_bind fun _ => emits_lockedTransfer.bind fun _ =>
        appends_compute_bind fun _ _ => appends_compute_bind fun _ _ => ?_
  refine Appends.bind ?_ fun _ => (emits_emit ⟨hcall, hauth.1⟩).discard _
  unfold storeVariableClaim
  split_ifs
  · exact (emits_persist _).bind fun _ => emits_emit ⟨Or.inr hcall, hauth.1⟩
  · exact emits_persist _

theorem emits_setAllowlistLoop (admin : Address) (allowed : Bool) (named : List Address)
    (hsigned : host.auth admin = true) : ∀ recipients : List Address, recipients ⊆ named →
      Emits (Announces ⟨host, .fixed (.setAllowlist admin named allowed)⟩)
        (setAllowlistLoop admin allowed recipients)
  | [], _ => appends_pure _
  | r :: rest, hsub => by
    obtain ⟨hr, hrest⟩ := List.cons_subset.mp hsub
    refine (emits_configure _).bind fun _ => Appends.bind (emits_emit ?_) fun _ =>
      emits_setAllowlistLoop admin allowed named hsigned rest hrest
    exact ⟨⟨_, rfl, named, hr, rfl⟩, hsigned⟩

/-- `pause_stream` and `resume_stream`: the sponsor signs, the schedule is changed and stored, and
one event is published. -/
theorem emits_changeSchedule {p : Event → Prop}
    (f : VestingSchedule → Address → UInt32 → Except Failure VestingSchedule)
    (event : VestingSchedule → Event) (sponsor r : Address)
    (h : host.auth sponsor = true → ∀ s, p (event s)) :
    Emits p (do
      requireAuth D host sponsor
      let found ← readSchedule r
      let s ← need found (.err .scheduleNotFound)
      let s ← compute (f s sponsor host.sequence)
      persist fun st => setSchedule st r s
      emit (event s) : Call Unit) :=
  appends_ensure_bind fun hauth => (emits_readSchedule r).bind fun _ => appends_need_bind
    fun _ _ => appends_compute_bind fun s _ => (emits_persist _).bind fun _ =>
      emits_emit (h hauth.1 s)

theorem emits_transferRecipient (call : AnyCall) (r r' : Address)
    (hmoves : call.moves = some (r, r')) :
    Emits (Announces ⟨host, call⟩) (transferRecipient D host r r') := by
  refine appends_ensure_bind fun hauth => appends_ensure_bind fun _ => (emits_readSchedule r).bind
    fun _ => appends_need_bind fun _ _ => appends_asks_bind fun _ => appends_ensure_bind fun _ =>
      (emits_persist _).bind fun _ => (emits_persist _).bind fun _ => emits_emit ?_
  exact ⟨hmoves, hauth.1⟩

theorem emits_cancelStream (sponsor r : Address) (k : UInt32) :
    Emits (Announces ⟨host, .fixed (.cancelStream sponsor r k)⟩)
      (cancelStream D host sponsor r k) := by
  refine appends_ensure_bind fun hauth => appends_ensure_bind fun _ => appends_asks_bind fun _ =>
    appends_need_bind fun _ _ => appends_ensure_bind fun _ => appends_compute_bind fun _ _ =>
      (appends_onlyIf emits_lockedTransfer).bind fun _ =>
        (appends_onlyIf emits_lockedTransfer).bind fun _ => ?_
  exact (emits_dropStream sponsor r).bind fun _ => emits_emit ⟨⟨k, rfl⟩, hauth.1⟩

theorem emits_clawbackStream (sponsor r : Address) (k : UInt32) (reason : String) :
    Emits (Announces ⟨host, .fixed (.clawbackStream sponsor r k reason)⟩)
      (clawbackStream D host sponsor r k reason) := by
  refine appends_ensure_bind fun hauth => appends_asks_bind fun _ => appends_need_bind fun _ _ =>
    appends_ensure_bind fun _ => appends_ensure_bind fun _ => appends_ensure_bind fun _ =>
      appends_compute_bind fun _ _ => (appends_onlyIf emits_tryTransfer).bind fun _ => ?_
  exact (emits_dropStream sponsor r).bind fun _ => emits_emit ⟨⟨k, rfl⟩, hauth.1⟩

theorem emits_drainExpiredStream (caller r : Address) :
    Emits (Announces ⟨host, .fixed (.drainExpiredStream caller r)⟩)
      (drainExpiredStream D host caller r) :=
  (emits_readSchedule r).bind fun _ => appends_need_bind fun s _ => appends_compute_bind
    fun _ _ => (emits_dropStream s.sponsor r).bind fun _ =>
      (appends_onlyIf emits_tryTransfer).bind fun _ => emits_emit rfl

theorem emits_emergencyDrain (sponsor r : Address) :
    Emits (Announces ⟨host, .fixed (.emergencyDrain sponsor r)⟩)
      (emergencyDrain D host sponsor r) :=
  appends_ensure_bind fun hauth => (emits_readSchedule r).bind fun _ => appends_need_bind
    fun _ _ => appends_ensure_bind fun _ => appends_compute_bind fun _ _ =>
      (appends_onlyIf emits_tryTransfer).bind fun _ => (emits_dropStream sponsor r).bind fun _ =>
        emits_emit ⟨rfl, hauth.1⟩

theorem emits_exec : ∀ base : ContractCall, Emits (Announces ⟨host, .fixed base⟩) (exec D host base)
  | .initializeContract admin feeBps treasury =>
    appends_asks_bind fun _ => appends_ensure_bind fun _ => appends_ensure_bind fun _ =>
      appends_ensure_bind fun hauth => (emits_configure _).bind fun _ =>
        emits_emit ⟨⟨_, rfl, rfl⟩, hauth.1⟩
  | .transferAdmin admin newAdmin => emits_requireAdmin_bind fun _ => emits_configure _
  | .addAllowedToken admin token => emits_requireAdmin_bind fun hauth =>
      (emits_configure _).bind fun _ => emits_emit ⟨⟨_, rfl, rfl⟩, hauth⟩
  | .removeAllowedToken admin token => emits_requireAdmin_bind fun hauth =>
      (emits_configure _).bind fun _ => emits_emit ⟨⟨_, rfl, rfl⟩, hauth⟩
  | .setAllowlist admin recipients allowed => emits_requireAdmin_bind fun hauth =>
      emits_setAllowlistLoop admin allowed recipients hauth recipients (List.Subset.refl _)
  | .setAllowlistEnabled admin enabled => emits_requireAdmin_bind fun _ => emits_configure _
  | .setFee admin feeBps treasury => emits_requireAdmin_bind fun _ =>
      appends_ensure_bind fun _ => emits_configure _
  | .setMinDeposit admin minDeposit => emits_requireAdmin_bind fun _ =>
      appends_ensure_bind fun _ => emits_configure _
  | .setConfig admin key value => by
    refine emits_requireAdmin_bind fun _ => ?_
    split_ifs
    · exact appends_ensure_bind fun _ => emits_configure _
    · exact appends_ensure_bind fun _ => emits_configure _
    · exact (keeps_ensure _ _).appends
  | .createVestingStream a =>
    (emits_createVestingStream _ a rfl rfl (List.mem_singleton_self _)).discard ()
  | .claimVested r streamId => (emits_claimVested r streamId).discard ()
  | .pauseStream sponsor r => emits_changeSchedule _ _ sponsor r fun hauth _ => ⟨Or.inl rfl, hauth⟩
  | .resumeStream sponsor r => emits_changeSchedule _ _ sponsor r fun hauth _ => ⟨Or.inl rfl, hauth⟩
  | .pauseStreamSecond sponsor r =>
    emits_changeSchedule _ _ sponsor r fun hauth _ => ⟨Or.inr rfl, hauth⟩
  | .resumeStreamSecond sponsor r =>
    emits_changeSchedule _ _ sponsor r fun hauth _ => ⟨Or.inr rfl, hauth⟩
  | .transferRecipient r r' => emits_transferRecipient _ r r' rfl
  | .cancelStream sponsor r k => emits_cancelStream sponsor r k
  | .clawbackStream sponsor r k reason => emits_clawbackStream sponsor r k reason
  | .drainExpiredStream caller r => emits_drainExpiredStream caller r
  | .emergencyDrain sponsor r => emits_emergencyDrain sponsor r

/-- **What a request publishes**: events that it announces, after those that were there. -/
theorem emits_execAny (q : AnyRequest) : Emits (Announces q) (execAny D q.host q.call) := by
  obtain ⟨host, call⟩ := q
  cases call with
  | fixed base => exact emits_exec base
  | createVestingStreamWithMeta a =>
    exact (emits_createVestingStream _ a rfl rfl (List.mem_singleton_self _)).discard ()
  | createMilestoneStream a =>
    exact (emits_createVestingStream _ a rfl rfl (List.mem_singleton_self _)).discard ()
  | transferStream r r' => exact emits_transferRecipient _ r r' rfl
  | createBatchStreams sponsor token streams => exact emits_createBatchStreams sponsor token streams
  | createVariableRateStream a =>
    exact emits_createVariableRateStream _ a rfl rfl (List.mem_singleton_self _)
  | createVariableStream a =>
    exact emits_createVariableRateStream _ a rfl rfl (List.mem_singleton_self _)
  | claimVariableVested r => exact (emits_claimVariableVestedWith _ _ r (Or.inl rfl)).discard ()
  | claimVariableVestedSecond r =>
    exact (emits_claimVariableVestedWith _ _ r (Or.inr rfl)).discard ()

end EntryPoints

/-! ### The log of a run -/

/-- What the request adds to the log. -/
def newEvents (D : Deployment) (env : Env) (q : AnyRequest) : List Event :=
  (stepAny D env q).events.drop env.events.length

section Run

variable {D : Deployment} {env : Env} {q : AnyRequest}

/-- A request that succeeds adds the events `l`. -/
theorem newEvents_of_append {env' : Env} {u : Unit} {l : List Event}
    (h : execAny D q.host q.call env = .ok (u, env')) (hl : env'.events = env.events ++ l) :
    newEvents D env q = l := by
  unfold newEvents stepAny
  rw [commit_of_ok h, hl, List.drop_left]

theorem events_stepAny (D : Deployment) (env : Env) (q : AnyRequest) :
    (stepAny D env q).events = env.events ++ newEvents D env q := by
  by_cases hok : q.Ok D env
  · obtain ⟨⟨u, env'⟩, hx⟩ := exists_ok_of_isOk hok
    obtain ⟨l, hl, -⟩ := emits_execAny q env u env' hx
    rw [newEvents_of_append hx hl, ← hl]
    exact congrArg Env.events (commit_of_ok hx)
  · unfold newEvents
    have hsame : stepAny D env q = env := commit_of_not_isOk hok
    rw [hsame, List.drop_length, List.append_nil]

/-- A new event is announced by its request, which succeeded. -/
theorem announces_of_mem {e : Event} (he : e ∈ newEvents D env q) :
    q.Ok D env ∧ Announces q e := by
  by_cases hok : q.Ok D env
  · obtain ⟨⟨u, env'⟩, hx⟩ := exists_ok_of_isOk hok
    obtain ⟨l, hl, hp⟩ := emits_execAny q env u env' hx
    rw [newEvents_of_append hx hl] at he
    exact ⟨hok, hp e he⟩
  · have hsame : stepAny D env q = env := commit_of_not_isOk hok
    unfold newEvents at he
    rw [hsame, List.drop_length] at he
    cases he

end Run

/-- **Every event goes back to a request.** An event that a run of the contract adds to the log was
published by a request of the run that succeeded, for the call that the event is about, and with the
signature of the party that answers for it. -/
theorem event_announced (D : Deployment) : ∀ (l : List AnyRequest) (env : Env) (e : Event),
    e ∈ (run (stepAny D) env l).events → e ∈ env.events ∨
      ∃ pre q post, l = pre ++ q :: post ∧ q.Ok D (run (stepAny D) env pre) ∧ Announces q e
  | [], env, e, he => Or.inl he
  | q :: l, env, e, he => by
    rw [run_cons] at he
    rcases event_announced D l (stepAny D env q) e he with hold | ⟨pre, q', post, rfl, hok, ha⟩
    · rw [events_stepAny, List.mem_append] at hold
      refine hold.imp id fun hnew => ?_
      obtain ⟨hok, ha⟩ := announces_of_mem hnew
      exact ⟨[], q, l, rfl, hok, ha⟩
    · exact Or.inr ⟨q :: pre, q', post, rfl, hok, ha⟩

/-- The creation that the sponsor of the sample stream signed. -/
theorem event_announced_sample :
    Event.streamCreated ⟨1⟩ ⟨2⟩ ⟨10⟩ 10000000 100 150 300 2000000000 none ∈ sampleEnv.events ∨
      ∃ pre q post, [⟨sampleHost 100, .fixed (.createVestingStream sampleArgs)⟩] =
          pre ++ q :: post ∧ q.Ok sampleDeployment (run (stepAny sampleDeployment) sampleEnv pre) ∧
        Announces q (.streamCreated ⟨1⟩ ⟨2⟩ ⟨10⟩ 10000000 100 150 300 2000000000 none) :=
  event_announced sampleDeployment _ sampleEnv _ (by decide +kernel)

/-! ### The claims in the log -/

/-- The recipient and the amount that a `TokensClaimed` event announces. -/
def claimOf : Event → Option (Address × ℤ)
  | .tokensClaimed recipient amount _ => some (recipient, amount)
  | _ => none

/-- The claims that the events announce. -/
def claimsIn (l : List Event) : List (Address × ℤ) := l.filterMap claimOf

/-- What the request returns to a recipient, if it is a `claim_vested` that succeeds. -/
def returned (D : Deployment) (env : Env) (q : AnyRequest) : Option (Address × ℤ) :=
  match q.call with
  | .fixed (.claimVested recipient streamId) =>
    match claimVested D q.host recipient streamId env with
    | .ok (totalClaimed, _) => some (recipient, totalClaimed)
    | .error _ => none
  | _ => none

section Claims

variable {D : Deployment} {host : Host} {env env' : Env} {r : Address}

theorem claimsIn_of_none {l : List Event} (h : ∀ e ∈ l, claimOf e = none) : claimsIn l = [] :=
  List.filterMap_eq_nil_iff.mpr h

/-- A turn of the claim loop that pays announces what it pays. -/
theorem claimStream_log {specific : Bool} {k : UInt32} {amount : ℤ}
    (h : claimStream D host r specific k env = .ok (amount, env')) (hne : amount ≠ 0) :
    ∃ l, env'.events = env.events ++ l ∧ claimsIn l = [(r, amount)] := by
  simp only [claimStream, asks_bind_ok] at h
  cases hs : D.getScheduleById env.persistent r k with
  | none =>
    simp only [hs, require_bind_ok, pure_ok] at h
    exact absurd h.2.1.symm hne
  | some s =>
    simp only [hs, compute_bind_ok] at h
    obtain ⟨acc, -, h⟩ := h
    cases acc with
    | skip reason =>
      simp only [require_bind_ok, pure_ok] at h
      exact absurd h.2.1.symm hne
    | due s1 total claimable =>
      simp only [asks_bind_ok, compute_bind_ok] at h
      obtain ⟨⟨fee, net⟩, -, h⟩ := h
      obtain ⟨_, e1, hpay, h⟩ := bind_ok.mp h
      rw [compute_bind_ok] at h
      obtain ⟨s2, -, h⟩ := h
      obtain ⟨_, e2, hstore, h⟩ := bind_ok.mp h
      rw [emit_bind_ok, pure_ok] at h
      obtain ⟨rfl, rfl⟩ := h
      obtain ⟨l1, hl1, hnone1⟩ := emits_payClaim (fun e => claimOf e = none) r _ fee net
        (fun _ => rfl) _ _ _ hpay
      obtain ⟨l2, hl2, hnone2⟩ := emits_storeClaim (fun e => claimOf e = none) r k s2 total rfl
        _ _ _ hstore
      refine ⟨l1 ++ l2 ++ [.tokensClaimed r claimable (min host.sequence s2.endLedger)], ?_, ?_⟩
      · show e2.events ++ [_] = _
        rw [hl2, hl1]
        simp only [List.append_assoc]
      · unfold claimsIn at *
        rw [List.filterMap_append, List.filterMap_append, List.filterMap_eq_nil_iff.mpr hnone1,
          List.filterMap_eq_nil_iff.mpr hnone2]
        rfl

/-- In a flat storage a recipient has at most the stream of id `0`. -/
theorem getStreamIds_of_flat {st : Storage} (h : Flat st) (r : Address) :
    getStreamIds st r = [] ∨ getStreamIds st r = [0] := by
  have hzero : ∀ k ∈ getStreamIds st r, k = 0 := by
    intro k hk
    unfold getStreamIds at hk
    simp only at hk
    have hfilter : ∀ {l : List UInt32}, k ∈ l.filter (fun streamId =>
        (byId st r streamId).isSome || (streamId == 0 && (legacy st r).isSome)) → k = 0 := by
      intro l hl
      rw [List.mem_filter, h.noLegacy r] at hl
      exact h.ids r k (by simpa using hl.2)
    split_ifs at hk
    · rcases List.mem_append.mp hk with hk | hk
      · exact hfilter hk
      · exact List.mem_singleton.mp hk
    · exact hfilter hk
  have hrep := List.eq_replicate_of_mem hzero
  have hnodup := ClaimAll.nodup_getStreamIds st r
  rw [hrep, List.nodup_replicate] at hnodup
  rw [hrep]
  rcases Nat.le_one_iff_eq_zero_or_eq_one.mp hnodup with hlen | hlen
  · rw [hlen]
    exact Or.inl rfl
  · rw [hlen]
    exact Or.inr rfl

/-- The loop over one stream is one turn. -/
theorem claimStream_of_claimLoop {specific : Bool} {k : UInt32} {total : ℤ}
    (h : claimLoop D host r specific [k] 0 env = .ok (total, env')) :
    InI128 total ∧ claimStream D host r specific k env = .ok (total, env') := by
  unfold claimLoop at h
  obtain ⟨x, e1, hx, h⟩ := bind_ok.mp h
  simp only [compute_bind_ok, orOverflow_ok, checked_eq_some] at h
  obtain ⟨total', ⟨hfit, rfl⟩, hend⟩ := h
  unfold claimLoop at hend
  rw [pure_ok] at hend
  obtain ⟨rfl, rfl⟩ := hend
  rw [zero_add] at hfit ⊢
  exact ⟨hfit, hx⟩

/-- In a flat storage a claim is one turn of the loop. -/
theorem claimStream_of_claimVested (hflat : Flat env.persistent) {streamId : Option UInt32}
    {amount : ℤ} (h : claimVested D host r streamId env = .ok (amount, env')) :
    InI128 amount ∧ amount ≠ 0 ∧
      ∃ specific k, claimStream D host r specific k env = .ok (amount, env') := by
  simp only [claimVested, requireAuth_bind_ok, asks_bind_ok, require_bind_ok] at h
  obtain ⟨-, hids, h⟩ := h
  obtain ⟨total, e1, hloop, h⟩ := bind_ok.mp h
  rw [require_bind_ok, pure_ok] at h
  obtain ⟨hne, rfl, rfl⟩ := h
  cases streamId with
  | some k =>
    obtain ⟨hfit, hturn⟩ := claimStream_of_claimLoop hloop
    exact ⟨hfit, hne, true, k, hturn⟩
  | none =>
    have hzero : getStreamIds env.persistent r = [0] :=
      (getStreamIds_of_flat hflat r).resolve_left hids
    simp only [hzero] at hloop
    obtain ⟨hfit, hturn⟩ := claimStream_of_claimLoop hloop
    exact ⟨hfit, hne, false, 0, hturn⟩

/-- **What the new events say was claimed** is what the request returned. -/
theorem claimsIn_newEvents (hflat : Flat env.persistent) (q : AnyRequest) :
    claimsIn (newEvents D env q) = (returned D env q).toList := by
  have hother : (∀ r streamId, q.call ≠ .fixed (.claimVested r streamId)) →
      claimsIn (newEvents D env q) = [] := by
    intro hcall
    refine claimsIn_of_none fun e he => ?_
    have ha := (announces_of_mem he).2
    cases e with
    | tokensClaimed r amount ledger => exact absurd ha.1.choose_spec (hcall r _)
    | _ => rfl
  obtain ⟨host, call⟩ := q
  cases call with
  | fixed base =>
    cases base with
    | claimVested r streamId =>
      unfold returned
      cases hx : claimVested D host r streamId env with
      | error f =>
        have hnone : claimsIn (newEvents D env ⟨host, .fixed (.claimVested r streamId)⟩) = [] := by
          refine claimsIn_of_none fun e he => ?_
          obtain ⟨⟨u, env'⟩, hok⟩ := exists_ok_of_isOk (announces_of_mem he).1
          obtain ⟨amount, e1, ha, -⟩ := bind_ok.mp hok
          cases hx.symm.trans ha
        rw [hnone]
        simp only [hx, Option.toList_none]
      | ok p =>
        obtain ⟨amount, env'⟩ := p
        obtain ⟨-, hne, specific, k, hturn⟩ := claimStream_of_claimVested hflat hx
        obtain ⟨l, hl, hclaims⟩ := claimStream_log hturn hne
        have hok : execAny D host (.fixed (.claimVested r streamId)) env = .ok ((), env') :=
          bind_ok.mpr ⟨amount, env', hx, rfl⟩
        have hnew : newEvents D env ⟨host, .fixed (.claimVested r streamId)⟩ = l :=
          newEvents_of_append hok hl
        rw [hnew, hclaims]
        simp only [hx, Option.toList_some]
    | _ => exact hother nofun
  | _ => exact hother nofun

theorem fits_of_returned (hflat : Flat env.persistent) {q : AnyRequest} {amount : ℤ}
    (h : returned D env q = some (r, amount)) : InI128 amount := by
  unfold returned at h
  split at h
  · next r' streamId _ =>
    split at h
    · next amount' env' hx =>
      cases h
      exact (claimStream_of_claimVested hflat hx).1
    · cases h
  · cases h

/-- Nothing is drained from a flat storage. -/
theorem not_drained_of_flat (hflat : Flat env.persistent) {q : AnyRequest}
    {caller recipient sponsor token : Address} {amount : ℤ} :
    Event.streamDrained caller recipient sponsor token amount ∉ newEvents D env q := by
  intro he
  obtain ⟨hok, ha⟩ := announces_of_mem he
  obtain ⟨host, call⟩ := q
  obtain rfl : call = .fixed (.drainExpiredStream caller recipient) := ha
  obtain ⟨⟨u, env'⟩, hx⟩ := exists_ok_of_isOk hok
  obtain ⟨s, remaining, -, hd⟩ := drainExpiredStream_ok (u := u) hx
  have hlegacy := isSome_legacy_of_getSchedule hd.found
  rw [hflat.noLegacy] at hlegacy
  cases hlegacy

end Claims

end VestingDripStream.Contract.EventLog
