import VestingDripStream.Contract.Batches
import VestingDripStream.Contract.Reentrancy
import VestingDripStream.Contract.VariableAccrual

/-! # Who may do what

What `require_auth` is for, over runs of all entry points:

* an account pays at most the deposits of the creations that it signed (`holding_run_le`);
* the configuration changes only when the administrator signs, or by `initialize`
  (`configuration_needs_admin`);
* a stream changes only when its recipient or its sponsor signs, when a creation or a transfer
  names its recipient, or when it is drained after its delay (`stream_needs_party`).

The first is proved along the code of each entry point, by the rules of `Draws`: a payment is made
out of the vault, or by a sponsor whose `require_auth` stands before it. -/

namespace VestingDripStream.Contract.Authority

open VestingDripStream.Lib.Checked VestingDripStream.Lib.Transaction VestingDripStream.Lib.Run
open VestingDripStream.Lib.Piecewise
open VestingDripStream.Contract.Types VestingDripStream.Contract.Storage
open VestingDripStream.Contract.Schedule VestingDripStream.Contract.EntryPoints
open VestingDripStream.Contract.Effects VestingDripStream.Contract.Requests
open VestingDripStream.Contract.VariableRate VestingDripStream.Contract.VariableAccrual
open VestingDripStream.Contract.AllRequests
open VestingDripStream.Contract.Reentrancy (scheduleAt_setVariableSchedule
  scheduleAt_removeVariableSchedule)

/-! ### Who pays -/

/-- What `a` holds of `token`. -/
def holding (token a : Address) (env : Env) : ℤ := env.balances token a

/-- The deposit that a call at `start` takes from its sponsor, by its arguments. -/
def depositAmount (start : UInt32) : AnyCall → ℤ
  | .fixed (.createVestingStream a) | .createVestingStreamWithMeta a | .createMilestoneStream a =>
    (a.rate * a.totalDuration.toNat).tdiv rateDecimals
  | .createBatchStreams _ _ streams => (streams.map Batches.deposit).sum
  | .createVariableRateStream a | .createVariableStream a =>
    whole start.toNat (a.segments.map fun seg => (seg.1.toNat, seg.2))
  | _ => 0

/-- The deposit in `token` that `a` signed with the request. -/
def signedDeposit (token a : Address) (q : AnyRequest) : ℤ :=
  if q.host.auth a = true ∧ q.call.creator = some a ∧ depositToken q.call = some token then
    max 0 (depositAmount q.host.sequence q.call)
  else 0

section Pays

variable {D : Deployment} {host : Host} {t a : Address} {c : ℤ}

/-- A change of the storages or of the events. -/
theorem draws_update {g : Env → Env} (h : ∀ env, (g env).balances = env.balances) :
    Draws (holding t a) 0 (update g : Call Unit) :=
  (keeps_update fun env => by unfold holding; rw [h]).draws

theorem draws_persist (g : Storage → Storage) : Draws (holding t a) 0 (persist g) :=
  draws_update fun _ => rfl

theorem draws_configure (g : Storage → Storage) : Draws (holding t a) 0 (configure g) :=
  draws_update fun _ => rfl

theorem draws_emit (e : Event) : Draws (holding t a) 0 (emit e) := draws_update fun _ => rfl

/-- Nobody but the payer loses by a transfer, and the payer loses the amount. -/
theorem draws_tryTransfer {token src dst : Address} {amount : ℤ} (hc : 0 ≤ c)
    (h : t = token → a = src → amount ≤ c) :
    Draws (holding t a) c (tryTransfer host token src dst amount) := by
  intro env u env' hs
  obtain ⟨b, hb, rfl⟩ := tryTransfer_ok hs
  obtain ⟨h0, -, hbal⟩ := transfer_ok hb
  have hta := hbal t a
  show (env.balances t a : ℤ) ≤ b t a + c
  by_cases hsrc : t = token ∧ a = src
  · have hle := h hsrc.1 hsrc.2
    rw [if_pos hsrc] at hta
    split_ifs at hta <;> omega
  · rw [if_neg hsrc] at hta
    split_ifs at hta <;> omega

variable (ha : a ≠ D.contractAddress)
include ha

/-- What the vault pays is nobody else's. -/
theorem draws_pay {token dst : Address} {amount : ℤ} :
    Draws (holding t a) 0 (tryTransfer host token D.contractAddress dst amount) :=
  draws_tryTransfer le_rfl fun _ hsrc => absurd hsrc ha

theorem draws_lockedTransfer {token dst : Address} {amount : ℤ} :
    Draws (holding t a) 0 (lockedTransfer D host token dst amount) :=
  draws_asks_bind fun _ => draws_ensure_bind fun _ => (draws_configure _).free_bind fun _ =>
    (draws_pay ha).free_bind fun _ => draws_configure _

theorem draws_collectFee (x : CreateArgs) (deposit : ℤ) :
    Draws (holding t a) 0 (collectFee D host x deposit) :=
  draws_asks_bind fun _ => draws_onlyIf <| draws_need_bind fun _ _ => draws_compute_bind fun _ _ =>
    draws_onlyIf <| (draws_pay ha).free_bind fun _ => draws_emit _

theorem draws_payClaim (r token : Address) (fee net : ℤ) :
    Draws (holding t a) 0 (payClaim D host r token fee net) := by
  refine draws_asks_bind fun _ => draws_ensure_bind fun _ => (draws_configure _).free_bind fun _ =>
    Draws.free_bind (draws_onlyIf ?_) fun _ => (draws_pay ha).free_bind fun _ => draws_configure _
  exact draws_need_bind fun _ _ => (draws_pay ha).free_bind fun _ => draws_emit _

theorem draws_claimStream (r : Address) (specific : Bool) (k : UInt32) :
    Draws (holding t a) 0 (claimStream D host r specific k) := by
  unfold claimStream
  refine draws_asks_bind fun st => ?_
  cases D.getScheduleById st r k with
  | none => exact draws_ensure_bind fun _ => draws_pure _
  | some s =>
    refine draws_compute_bind fun acc _ => ?_
    cases acc with
    | skip reason => exact draws_ensure_bind fun _ => draws_pure _
    | due s total claimable =>
      refine draws_asks_bind fun _ => draws_compute_bind fun p _ => ?_
      refine (draws_payClaim ha r _ p.1 p.2).free_bind fun _ => draws_compute_bind fun s' _ => ?_
      refine Draws.free_bind ?_ fun _ => (draws_emit _).discard _
      unfold storeClaim
      split_ifs
      · exact (draws_persist _).free_bind fun _ => draws_emit _
      · exact draws_persist _

theorem draws_claimLoop (r : Address) (specific : Bool) :
    ∀ (ids : List UInt32) (total : ℤ), Draws (holding t a) 0 (claimLoop D host r specific ids total)
  | [], _ => draws_pure _
  | k :: ids, _ =>
    (draws_claimStream ha r specific k).free_bind fun _ => draws_compute_bind fun total' _ =>
      draws_claimLoop r specific ids total'

theorem draws_claimVested (r : Address) (streamId : Option UInt32) :
    Draws (holding t a) 0 (claimVested D host r streamId) := by
  refine draws_ensure_bind fun _ => draws_asks_bind fun _ => draws_ensure_bind fun _ => ?_
  exact (draws_claimLoop ha r _ _ _).free_bind fun _ => draws_ensure_bind fun _ => draws_pure _

omit ha in
theorem draws_dropStream (sponsor r : Address) :
    Draws (holding t a) 0 (dropStream sponsor r) := draws_persist _

omit ha in
theorem draws_readSchedule (r : Address) : Draws (holding t a) 0 (readSchedule r) := by
  intro env s env' h
  cases h
  exact le_of_eq (add_zero _).symm

theorem draws_cancelStream (sponsor r : Address) (k : UInt32) :
    Draws (holding t a) 0 (cancelStream D host sponsor r k) := by
  refine draws_ensure_bind fun _ => draws_ensure_bind fun _ => draws_asks_bind fun _ =>
    draws_need_bind fun _ _ => draws_ensure_bind fun _ => draws_compute_bind fun _ _ => ?_
  refine (draws_onlyIf (draws_lockedTransfer ha)).free_bind fun _ => ?_
  refine (draws_onlyIf (draws_lockedTransfer ha)).free_bind fun _ => ?_
  exact (draws_dropStream sponsor r).free_bind fun _ => draws_emit _

theorem draws_clawbackStream (sponsor r : Address) (k : UInt32) (reason : String) :
    Draws (holding t a) 0 (clawbackStream D host sponsor r k reason) := by
  refine draws_ensure_bind fun _ => draws_asks_bind fun _ => draws_need_bind fun _ _ =>
    draws_ensure_bind fun _ => draws_ensure_bind fun _ => draws_ensure_bind fun _ =>
      draws_compute_bind fun _ _ => (draws_onlyIf (draws_pay ha)).free_bind fun _ => ?_
  exact (draws_dropStream sponsor r).free_bind fun _ => draws_emit _

theorem draws_drainExpiredStream (caller r : Address) :
    Draws (holding t a) 0 (drainExpiredStream D host caller r) := by
  refine (draws_readSchedule r).free_bind fun _ => draws_need_bind fun s _ =>
    draws_compute_bind fun _ _ => (draws_dropStream s.sponsor r).free_bind fun _ => ?_
  exact (draws_onlyIf (draws_pay ha)).free_bind fun _ => draws_emit _

theorem draws_emergencyDrain (sponsor r : Address) :
    Draws (holding t a) 0 (emergencyDrain D host sponsor r) := by
  refine draws_ensure_bind fun _ => (draws_readSchedule r).free_bind fun _ =>
    draws_need_bind fun _ _ => draws_ensure_bind fun _ => draws_compute_bind fun _ _ =>
      (draws_onlyIf (draws_pay ha)).free_bind fun _ => ?_
  exact (draws_dropStream sponsor r).free_bind fun _ => draws_emit _

omit ha in
/-- What an action other than a transfer does not touch. -/
theorem draws_of_balances {α : Type} {x : Call α}
    (h : ∀ env v env', x env = .ok (v, env') → env'.balances = env.balances) :
    Draws (holding t a) 0 x :=
  Keeps.draws fun env v env' hx => by unfold holding; rw [h env v env' hx]

theorem draws_claimVariableVestedWith
    (accrued : VariableRateSchedule → UInt32 → Except Failure ℤ) (r : Address) :
    Draws (holding t a) 0 (claimVariableVestedWith accrued D host r) := by
  refine draws_ensure_bind fun _ => draws_asks_bind fun _ => draws_need_bind fun _ _ =>
    draws_ensure_bind fun _ => draws_ensure_bind fun _ => draws_compute_bind fun _ _ =>
      draws_ensure_bind fun _ => (draws_lockedTransfer ha).free_bind fun _ =>
        draws_compute_bind fun _ _ => draws_compute_bind fun _ _ => ?_
  refine Draws.free_bind ?_ fun _ => (draws_emit _).discard _
  unfold storeVariableClaim
  split_ifs
  · exact (draws_persist _).free_bind fun _ => draws_emit _
  · exact draws_persist _

omit ha in
/-- A creation checks that its sponsor signed. -/
theorem validateCreate_signed {x : CreateArgs} {env env' : Env} {m : Option String}
    (h : validateCreate D host x env = .ok (m, env')) :
    host.auth x.sponsor = true ∧ env = env' := by
  simp only [validateCreate, asks_bind_ok, require_bind_ok, compute_bind_ok, requireAuth_bind_ok,
    pure_ok] at h
  obtain ⟨-, -, -, -, -, -, -, -, -, -, _, -, ⟨hauth, -⟩, -, rfl⟩ := h
  exact ⟨hauth, rfl⟩

omit ha in
theorem draws_takeStreamId (r : Address) : Draws (holding t a) 0 (takeStreamId r) := by
  refine draws_of_balances fun env k env' h => ?_
  obtain ⟨st, -, rfl⟩ := takeStreamId_ok h
  rfl

/-- A creation takes its deposit from the sponsor, who signed. -/
theorem draws_createVestingStream (x : CreateArgs) (hc : 0 ≤ c)
    (h : host.auth x.sponsor = true → t = x.token → a = x.sponsor →
      (x.rate * x.totalDuration.toNat).tdiv rateDecimals ≤ c) :
    Draws (holding t a) c (createVestingStream D host x) := by
  refine Draws.free_bind_ok (draws_of_balances fun _ _ _ hs => by rw [(validateCreate_signed hs).2])
    fun _ m _ hval => ?_
  refine draws_compute_bind fun _ _ => draws_compute_bind fun _ _ => draws_asks_bind fun _ =>
    draws_ensure_bind fun _ => draws_compute_bind fun deposit hdep => draws_ensure_bind fun _ =>
      (draws_takeStreamId _).free_bind fun _ => ?_
  rw [← (calculateTotalDeposit_ok hdep).2] at h
  refine (draws_tryTransfer hc fun ht hs => h (validateCreate_signed hval).1 ht hs).bind_free
    fun _ => (draws_collectFee ha x deposit).free_bind fun _ => (draws_persist _).free_bind
      fun _ => (draws_persist _).free_bind fun _ => ?_
  exact draws_compute_bind fun _ _ => draws_compute_bind fun _ _ => (draws_emit _).discard _

omit ha

/-- A batch takes the deposits of its entries from the sponsor, who signed. -/
theorem draws_createBatchStreams (sponsor token : Address) (streams : List BatchEntry) (hc : 0 ≤ c)
    (h : host.auth sponsor = true → t = token → a = sponsor →
      (streams.map Batches.deposit).sum ≤ c) :
    Draws (holding t a) c (createBatchStreams D host sponsor token streams) := by
  refine draws_ensure_bind fun _ => Draws.free_bind_ok
    (draws_of_balances fun _ _ _ hs => by rw [(validateBatch_ok hs).2]) fun _ total _ hval => ?_
  refine draws_asks_bind fun _ => draws_ensure_bind fun _ => draws_ensure_bind fun hauth => ?_
  have htotal := Batches.validateBatch_total hval
  rw [zero_add] at htotal
  rw [← htotal] at h
  exact (draws_tryTransfer hc (h hauth.1)).bind_free fun _ =>
    draws_of_balances fun _ _ _ hs => Batches.balances_of_storeBatch hs

/-- The segments are stored as they were given. -/
theorem pieces_of_addSegments : ∀ {l : List (UInt32 × ℤ)} {start fin : UInt32} {acc total : ℤ}
    {segs : List RateSegment}, addSegments l start acc = .ok (segs, fin, total) →
      pieces segs = l.map fun seg => (seg.1.toNat, seg.2)
  | [], start, fin, acc, total, segs, h => by
    cases h
    rfl
  | (segEnd, rate) :: rest, start, fin, acc, total, segs, h => by
    unfold addSegments at h
    split_ifs at h
    simp only [except_bind_ok, Except.ok.injEq, Prod.exists, Prod.mk.injEq] at h
    obtain ⟨_, -, _, -, _, -, segs', _, _, hrest, rfl, -, -⟩ := h
    exact congrArg _ (pieces_of_addSegments hrest)

/-- A variable-rate creation takes the sum over its segments from the sponsor, who signed. -/
theorem draws_createVariableRateStream (x : VariableArgs) (hc : 0 ≤ c)
    (h : host.auth x.sponsor = true → t = x.token → a = x.sponsor →
      whole host.sequence.toNat (x.segments.map fun seg => (seg.1.toNat, seg.2)) ≤ c) :
    Draws (holding t a) c (createVariableRateStream D host x) := by
  refine draws_asks_bind fun _ => draws_ensure_bind fun _ => draws_ensure_bind fun _ =>
    draws_asks_bind fun _ => draws_ensure_bind fun _ => draws_ensure_bind fun _ =>
      draws_compute_bind fun _ _ => draws_compute_bind fun p hadd => draws_ensure_bind
        fun hauth => ?_
  obtain ⟨segs, fin, total⟩ := p
  have htotal := (segments_of_addSegments hadd).2.2
  rw [pieces_of_addSegments hadd] at htotal
  rw [htotal] at h
  exact (draws_tryTransfer hc (h hauth.1)).bind_free fun _ => (draws_persist _).free_bind
    fun _ => draws_emit _

end Pays

/-- The deposit that `a` signed, if the call creates streams for the sponsor `a` in `token`. -/
theorem signedDeposit_eq {token a : Address} {q : AnyRequest} (hauth : q.host.auth a = true)
    (hcreator : q.call.creator = some a) (htoken : depositToken q.call = some token) :
    signedDeposit token a q = max 0 (depositAmount q.host.sequence q.call) :=
  if_pos ⟨hauth, hcreator, htoken⟩

theorem signedDeposit_nonneg (token a : Address) (q : AnyRequest) : 0 ≤ signedDeposit token a q := by
  unfold signedDeposit
  split_ifs
  · exact le_max_left _ _
  · exact le_rfl

section PaysRun

variable {D : Deployment} {t a : Address} (ha : a ≠ D.contractAddress)
include ha

theorem draws_exec (host : Host) (base : ContractCall) (hfree : ∀ x, base ≠ .createVestingStream x) :
    Draws (holding t a) 0 (exec D host base) := by
  cases base with
  | createVestingStream x => exact absurd rfl (hfree x)
  | claimVested r streamId => exact (draws_claimVested ha r streamId).discard _
  | pauseStream sponsor r =>
    exact draws_of_balances fun _ _ _ h => let ⟨_, _, _, hw⟩ := pauseStreamWith_ok h; hw.balances
  | resumeStream sponsor r =>
    exact draws_of_balances fun _ _ _ h => let ⟨_, _, _, hw⟩ := resumeStreamWith_ok h; hw.balances
  | pauseStreamSecond sponsor r =>
    exact draws_of_balances fun _ _ _ h => let ⟨_, _, _, hw⟩ := pauseStreamWith_ok h; hw.balances
  | resumeStreamSecond sponsor r =>
    exact draws_of_balances fun _ _ _ h => let ⟨_, _, _, hw⟩ := resumeStreamWith_ok h; hw.balances
  | transferRecipient r r' =>
    exact draws_of_balances fun _ _ _ h => let ⟨_, ht⟩ := transferRecipient_ok h; ht.balances
  | cancelStream sponsor r k => exact draws_cancelStream ha sponsor r k
  | clawbackStream sponsor r k reason => exact draws_clawbackStream ha sponsor r k reason
  | drainExpiredStream caller r => exact draws_drainExpiredStream ha caller r
  | emergencyDrain sponsor r => exact draws_emergencyDrain ha sponsor r
  | initializeContract admin feeBps treasury =>
    exact draws_of_balances fun _ _ _ h => (configOnly_initializeContract D host admin _ _ _ _ _ h).2
  | transferAdmin admin newAdmin =>
    exact draws_of_balances fun _ _ _ h => (configOnly_transferAdmin D host admin _ _ _ _ h).2
  | addAllowedToken admin token =>
    exact draws_of_balances fun _ _ _ h => (configOnly_addAllowedToken D host admin _ _ _ _ h).2
  | removeAllowedToken admin token =>
    exact draws_of_balances fun _ _ _ h => (configOnly_removeAllowedToken D host admin _ _ _ _ h).2
  | setAllowlist admin rs allowed =>
    exact draws_of_balances fun _ _ _ h => (configOnly_setAllowlist D host admin _ _ _ _ _ h).2
  | setAllowlistEnabled admin enabled =>
    exact draws_of_balances fun _ _ _ h => (configOnly_setAllowlistEnabled D host admin _ _ _ _ h).2
  | setFee admin feeBps treasury =>
    exact draws_of_balances fun _ _ _ h => (configOnly_setFee D host admin _ _ _ _ _ h).2
  | setMinDeposit admin minDeposit =>
    exact draws_of_balances fun _ _ _ h => (configOnly_setMinDeposit D host admin _ _ _ _ h).2
  | setConfig admin key value =>
    exact draws_of_balances fun _ _ _ h => (configOnly_setConfig D host admin _ _ _ _ _ h).2

/-- **What a request takes from an account**: at most the deposit that the account signed. -/
theorem draws_execAny (q : AnyRequest) :
    Draws (holding t a) (signedDeposit t a q) (execAny D q.host q.call) := by
  have hc := signedDeposit_nonneg t a q
  have hle : ∀ {sponsor token : Address}, q.call.creator = some sponsor →
      depositToken q.call = some token → q.host.auth sponsor = true → t = token → a = sponsor →
        depositAmount q.host.sequence q.call ≤ signedDeposit t a q := by
    rintro sponsor token hcreator htoken hauth rfl rfl
    rw [signedDeposit_eq hauth hcreator htoken]
    exact le_max_right _ _
  obtain ⟨host, call⟩ := q
  cases call with
  | fixed base =>
    by_cases hcreate : ∃ x, base = .createVestingStream x
    · obtain ⟨x, rfl⟩ := hcreate
      exact (draws_createVestingStream ha x hc (hle rfl rfl)).discard ()
    · exact (draws_exec ha host base fun x hx => hcreate ⟨x, hx⟩).mono hc
  | createVestingStreamWithMeta x =>
    exact (draws_createVestingStream ha x hc (hle rfl rfl)).discard ()
  | createMilestoneStream x => exact (draws_createVestingStream ha x hc (hle rfl rfl)).discard ()
  | transferStream r r' =>
    exact (draws_exec ha host (.transferRecipient r r') nofun).mono hc
  | createBatchStreams sponsor token streams =>
    exact draws_createBatchStreams sponsor token streams hc (hle rfl rfl)
  | createVariableRateStream x => exact draws_createVariableRateStream x hc (hle rfl rfl)
  | createVariableStream x => exact draws_createVariableRateStream x hc (hle rfl rfl)
  | claimVariableVested r => exact ((draws_claimVariableVestedWith ha _ r).discard ()).mono hc
  | claimVariableVestedSecond r => exact ((draws_claimVariableVestedWith ha _ r).discard ()).mono hc

theorem holding_stepAny_le (env : Env) (q : AnyRequest) :
    holding t a env ≤ holding t a (stepAny D env q) + signedDeposit t a q := by
  refine commit_induct (P := fun e => holding t a env ≤ holding t a e + signedDeposit t a q) ?_
    fun u env' h => draws_execAny ha q env u env' h
  have := signedDeposit_nonneg t a q
  omega

/-- **Nobody pays unsigned.** Over any run of the contract, an account other than the vault loses at
most the deposits that it signed. -/
theorem holding_run_le : ∀ (l : List AnyRequest) (env : Env),
    holding t a env ≤ holding t a (run (stepAny D) env l) + (l.map (signedDeposit t a)).sum
  | [], env => by simp
  | q :: l, env => by
    have hstep := holding_stepAny_le (t := t) ha env q
    have hrest := holding_run_le l (stepAny D env q)
    rw [run_cons, List.map_cons, List.sum_cons]
    omega

end PaysRun

/-- The sponsor of the sample stream pays the deposit of the creation it signed. -/
theorem holding_run_le_sample :
    holding ⟨10⟩ ⟨1⟩ sampleEnv ≤ holding ⟨10⟩ ⟨1⟩ (run (stepAny sampleDeployment) sampleEnv
      [⟨sampleHost 100, .fixed (.createVestingStream sampleArgs)⟩]) + 200 :=
  holding_run_le (by decide) [⟨sampleHost 100, .fixed (.createVestingStream sampleArgs)⟩] sampleEnv

/-! ### Who configures -/

/-- The request may change the configuration: it initialises the contract, or the administrator
signed it. -/
def Privileged (inst : Storage) (q : AnyRequest) : Prop :=
  (isInitialized inst = false ∧ ∃ admin feeBps treasury,
    q.call = .fixed (.initializeContract admin feeBps treasury) ∧ q.host.auth admin = true) ∨
  ∃ admin, getAdmin inst = some admin ∧ q.host.auth admin = true

section Configures

variable {D : Deployment} {host : Host} {env env' : Env} {u : Unit}

theorem requireAdmin_bind_ok {β : Type} {admin : Address} {f : Unit → Call β} {r : β × Env} :
    (requireAdmin D host admin >>= f) env = .ok r ↔
      (host.auth admin = true ∧ admin ≠ D.contractAddress ∧ getAdmin env.inst = some admin) ∧
        f () env = .ok r := by
  unfold requireAdmin
  rw [bind_assoc, requireAuth_bind_ok, bind_assoc, asks_bind_ok, require_bind_ok]
  tauto

/-- A successful configuration call is privileged. -/
theorem privileged_of_config {base : ContractCall} (hkind : base.isConfig = true)
    (h : exec D host base env = .ok (u, env')) : Privileged env.inst ⟨host, .fixed base⟩ := by
  cases base with
  | initializeContract admin feeBps treasury =>
    simp only [exec, initializeContract, asks_bind_ok, require_bind_ok, requireAuth_bind_ok] at h
    obtain ⟨hinit, -, ⟨hauth, -⟩, -⟩ := h
    exact Or.inl ⟨hinit, admin, feeBps, treasury, rfl, hauth⟩
  | transferAdmin admin _ =>
    obtain ⟨⟨hauth, -, hadmin⟩, -⟩ := requireAdmin_bind_ok.mp h
    exact Or.inr ⟨admin, hadmin, hauth⟩
  | addAllowedToken admin _ =>
    obtain ⟨⟨hauth, -, hadmin⟩, -⟩ := requireAdmin_bind_ok.mp h
    exact Or.inr ⟨admin, hadmin, hauth⟩
  | removeAllowedToken admin _ =>
    obtain ⟨⟨hauth, -, hadmin⟩, -⟩ := requireAdmin_bind_ok.mp h
    exact Or.inr ⟨admin, hadmin, hauth⟩
  | setAllowlist admin _ _ =>
    obtain ⟨⟨hauth, -, hadmin⟩, -⟩ := requireAdmin_bind_ok.mp h
    exact Or.inr ⟨admin, hadmin, hauth⟩
  | setAllowlistEnabled admin _ =>
    obtain ⟨⟨hauth, -, hadmin⟩, -⟩ := requireAdmin_bind_ok.mp h
    exact Or.inr ⟨admin, hadmin, hauth⟩
  | setFee admin _ _ =>
    obtain ⟨⟨hauth, -, hadmin⟩, -⟩ := requireAdmin_bind_ok.mp h
    exact Or.inr ⟨admin, hadmin, hauth⟩
  | setMinDeposit admin _ =>
    obtain ⟨⟨hauth, -, hadmin⟩, -⟩ := requireAdmin_bind_ok.mp h
    exact Or.inr ⟨admin, hadmin, hauth⟩
  | setConfig admin _ _ =>
    obtain ⟨⟨hauth, -, hadmin⟩, -⟩ := requireAdmin_bind_ok.mp h
    exact Or.inr ⟨admin, hadmin, hauth⟩
  | _ => cases hkind

/-- A request that changes the configuration is privileged. -/
theorem privileged_of_change (hD : D.ReadsById) {q : AnyRequest}
    (hne : (stepAny D env q).inst ≠ env.inst) : Privileged env.inst q := by
  obtain ⟨host, call⟩ := q
  by_contra hnot
  refine hne (commit_induct (P := fun e : Env => e.inst = env.inst) rfl fun u env' h => ?_)
  rcases config_or_inst hD (execAny_ok hD h) with ⟨base, rfl, hkind⟩ | hinst
  · exact absurd (privileged_of_config hkind h) hnot
  · exact hinst

/-- **The configuration is the administrator's.** If a run changes the configuration, then some
request found it as it was at the start, and initialised the contract or was signed by the
administrator. -/
theorem configuration_needs_admin (hD : D.ReadsById) {l : List AnyRequest}
    (hne : (run (stepAny D) env l).inst ≠ env.inst) :
    ∃ pre q post, l = pre ++ q :: post ∧ (run (stepAny D) env pre).inst = env.inst ∧
      Privileged env.inst q := by
  obtain ⟨pre, q, post, hl, hsame, hchange⟩ := exists_first_change hne
  refine ⟨pre, q, post, hl, hsame, ?_⟩
  rw [← hsame] at hchange ⊢
  exact privileged_of_change hD hchange

end Configures

theorem configuration_needs_admin_sample : ∃ pre q post,
    [⟨sampleHost 5, AnyCall.fixed (.setMinDeposit ⟨9⟩ 300)⟩] = pre ++ q :: post ∧
      (run (stepAny sampleDeployment) sampleEnv pre).inst = sampleEnv.inst ∧
      Privileged sampleEnv.inst q :=
  configuration_needs_admin sampleDeployment_readsById
    (fun h => absurd (congrArg getMinDeposit h) (by decide +kernel))

/-! ### Who changes a stream -/

/-- Every recipient has at most one record: under the legacy key, or under id `0`. -/
def Single (st : Storage) : Prop :=
  ∀ r k, (byId st r k).isSome = true → k = 0 ∧ legacy st r = none

section Single

variable {st st' : Storage} {r sp : Address} {k : UInt32}

theorem single_of_flat (h : Flat st) : Single st := fun r k hk => ⟨h.ids r k hk, h.noLegacy r⟩

theorem Single.congr (h : Single st) (hb : ∀ r k, byId st' r k = byId st r k)
    (hl : ∀ r, legacy st' r = legacy st r) : Single st' := by
  intro r k hk
  rw [hb] at hk
  rw [hl]
  exact h r k hk

theorem Single.set (h : Single st) (s : VestingSchedule)
    (hk : k = 0 ∨ (byId st r k).isSome = true) : Single (setScheduleById st r k s) := by
  have hk0 : k = 0 := hk.elim id fun hk => (h r k hk).1
  subst hk0
  intro r' k' hk'
  rw [byId_setScheduleById] at hk'
  rw [legacy_setScheduleById]
  split_ifs at hk' with hr
  · rw [if_pos ⟨hr.1, rfl⟩]
    exact ⟨hr.2, rfl⟩
  · obtain ⟨h0, hl⟩ := h r' k' hk'
    rw [hl, ite_self]
    exact ⟨h0, rfl⟩

theorem Single.remove (h : Single st) : Single (removeScheduleById st r k) := by
  intro r' k' hk'
  rw [byId_removeScheduleById] at hk'
  rw [legacy_removeScheduleById]
  split_ifs at hk'
  · cases hk'
  · obtain ⟨h0, hl⟩ := h r' k' hk'
    rw [hl, ite_self]
    exact ⟨h0, rfl⟩

theorem Single.addSponsorStream (h : Single st) : Single (addSponsorStream st sp r) :=
  h.congr (fun _ _ => lookup_addSponsorStream _ _ _ (by simp)) fun _ => legacy_addSponsorStream ..

theorem Single.removeSponsorStream (h : Single st) : Single (removeSponsorStream st sp r) :=
  h.congr (fun _ _ => lookup_removeSponsorStream _ _ _ (by simp))
    fun _ => legacy_removeSponsorStream ..

theorem Single.getSchedule (h : Single st) : Single (getSchedule st r).2 := by
  rcases getSchedule_storage st r with heq | ⟨s, heq, -⟩
  · rwa [heq]
  · rw [heq]
    exact h.set s (Or.inl rfl)

/-- What `get_schedule` finds is the stream of the recipient, up to its schema version. -/
theorem Single.scheduleAt_of_found (h : Single st) {s : VestingSchedule}
    (hs : (Storage.getSchedule st r).1 = some s) :
    ∃ s0, scheduleAt st r 0 = some s0 ∧ s = { s0 with schemaVersion := s.schemaVersion } := by
  obtain ⟨s0, hl, heq⟩ := getSchedule_some hs
  refine ⟨s0, ?_, heq⟩
  unfold scheduleAt
  cases hb : byId st r 0 with
  | none => exact hl
  | some s' =>
    have hnone := (h r 0 (by rw [hb]; rfl)).2
    rw [hl] at hnone
    cases hnone

theorem Single.eq_zero (h : Single st) {s : VestingSchedule} (hs : scheduleAt st r k = some s) :
    k = 0 :=
  (zero_or_byId_of_scheduleAt hs).elim id fun hk => (h r k hk).1

end Single

section SingleStep

variable {D : Deployment} {host : Host} {env env' : Env}

theorem single_claim (hD : D.ReadsById) {r : Address} {streamId : Option UInt32} {amount : ℤ}
    (hsingle : Single env.persistent)
    (h : claimVested D host r streamId env = .ok (amount, env')) : Single env'.persistent := by
  refine (claimVested_induct (P := fun _ e => Single e.persistent) h
    (fun k _ acc e x e1 he hx => ?_) hsingle).1
  rcases claimStream_ok hD hx with ⟨-, rfl⟩ | ⟨s, rc, hpaid, -⟩
  · exact he
  · rw [hpaid.persistent]
    unfold afterClaim
    split_ifs
    · exact he.remove
    · exact he.set _ (zero_or_byId_of_scheduleAt hpaid.live)

theorem single_batch {sponsor token : Address} {streams : List BatchEntry} {st st' : Storage}
    (h : BatchStored host sponsor token streams st st') (hsingle : Single st) : Single st' := by
  induction h with
  | nil st => exact hsingle
  | cons _ _ _ ih => exact ih (hsingle.set _ (Or.inl rfl)).addSponsorStream

theorem single_of_effect (hD : D.ReadsById) {call : AnyCall} (hsingle : Single env.persistent)
    (h : AnyEffect D host env env' call) : Single env'.persistent := by
  cases h with
  | fixed _ h =>
    cases h with
    | config _ hp => rwa [hp]
    | create _ _ h =>
      obtain ⟨-, n, -, hres⟩ := nextStreamId_ok _ _ _ h.id
      rw [h.persistent, hres]
      have hnext : Single (env.persistent.insert (.nextStreamId _) n) :=
        hsingle.congr (fun _ _ => Finmap.lookup_insert_of_ne _ (by simp))
          fun _ => Finmap.lookup_insert_of_ne _ (by simp)
      exact (hnext.set _ (Or.inl rfl)).addSponsorStream
    | claim h => exact single_claim hD hsingle h
    | rewritten _ _ h =>
      rw [h.persistent]
      exact hsingle.getSchedule.set _ (Or.inl rfl)
    | transferred h =>
      rw [h.persistent]
      exact ((hsingle.getSchedule.remove.set _
        (Or.inl rfl)).removeSponsorStream).addSponsorStream
    | terminated _ h =>
      rw [h.persistent]
      exact hsingle.remove.removeSponsorStream
    | drained _ h =>
      rw [h.persistent]
      exact hsingle.getSchedule.remove.removeSponsorStream
  | batch h => exact single_batch h.stored hsingle
  | variableRate _ h =>
    rw [h.persistent]
    exact hsingle.congr (fun _ _ => Finmap.lookup_insert_of_ne _ (by simp))
      fun _ => Finmap.lookup_insert_of_ne _ (by simp)
  | claimVariable _ h =>
    rw [h.persistent]
    split_ifs
    · exact hsingle.congr (fun _ _ => Finmap.lookup_erase_ne (by simp))
        fun _ => Finmap.lookup_erase_ne (by simp)
    · exact hsingle.congr (fun _ _ => Finmap.lookup_insert_of_ne _ (by simp))
        fun _ => Finmap.lookup_insert_of_ne _ (by simp)

theorem single_step (hD : D.ReadsById) (env : Env) (q : AnyRequest) (h : Single env.persistent) :
    Single (stepAny D env q).persistent :=
  stepAny_induct hD (P := fun e => Single e.persistent) h fun _ heff => single_of_effect hD h heff

end SingleStep

/-- The request is one that may change the stream `s` of `r`: its recipient or its sponsor signed it,
it creates a stream for the same recipient, or it drains the stream after the delay. -/
inductive Touches (r : Address) (s : VestingSchedule) (q : AnyRequest) : Prop
  | recipient (signed : q.host.auth r = true)
  | sponsor (signed : q.host.auth s.sponsor = true)
  | created {a : CreateArgs} (call : q.call.base = some (.createVestingStream a))
      (named : a.recipient = r) (signed : q.host.auth a.sponsor = true)
  | expired {caller : Address} (call : q.call = .fixed (.drainExpiredStream caller r))
      (due : s.endLedger.toNat + drainDelayLedgers.toNat ≤ q.host.sequence.toNat)

section Parties

variable {D : Deployment} {host : Host} {env env' : Env} {r : Address} {s : VestingSchedule}
  {u : Unit}

/-- What changed is not outside the recipients whose streams may change. -/
theorem mem_of_changed {R : Set Address} {st st' : Storage} (h : SameOutside R st st')
    (hne : scheduleAt st' r 0 ≠ scheduleAt st r 0) : r ∈ R := by
  by_contra hr
  exact hne (h r hr 0)

theorem eq_of_changed {r0 : Address} {st st' : Storage} (h : SameOutside {r0} st st')
    (hne : scheduleAt st' r 0 ≠ scheduleAt st r 0) : r = r0 :=
  mem_of_changed (R := {r0}) h hne

theorem hasSchedule_eq (st : Storage) : hasSchedule st r = (scheduleAt st r 0).isSome := by
  unfold hasSchedule scheduleAt
  cases byId st r 0 <;> rfl

/-- A batch touches the streams of the recipients it names. -/
theorem sameOutside_batch {sponsor token : Address} {streams : List BatchEntry} {st st' : Storage}
    (h : BatchStored host sponsor token streams st st') :
    SameOutside {r | r ∈ streams.map (·.recipient)} st st' := by
  induction h with
  | nil st => exact fun _ _ _ => rfl
  | cons _ _ _ ih =>
    intro r' hr' k'
    have hr := not_or.mp (mt List.mem_cons.mpr hr')
    rw [ih r' hr.2 k', scheduleAt_addSponsorStream, setSchedule, scheduleAt_setScheduleById,
      if_neg fun heq => hr.1 heq.1]

theorem drainRemaining_due {current : UInt32} {remaining : ℤ}
    (h : drainRemaining s current = .ok remaining) :
    s.endLedger.toNat + drainDelayLedgers.toNat ≤ current.toNat := by
  unfold drainRemaining at h
  split_ifs at h
  simp only [except_bind_ok, orOverflow_ok, checkedAdd_eq_some] at h
  obtain ⟨at', hat, h⟩ := h
  split_ifs at h with hlt
  rw [UInt32.lt_iff_toNat_lt] at hlt
  omega

/-- A pause, a resumption, a transfer or a drain reads the stream itself, up to its schema
version. -/
theorem eq_of_found (hsingle : Single env.persistent) {s' : VestingSchedule}
    (hs : scheduleAt env.persistent r 0 = some s)
    (hfound : (getSchedule env.persistent r).1 = some s') :
    s'.sponsor = s.sponsor ∧ s'.endLedger = s.endLedger := by
  obtain ⟨s0, hs0, heq⟩ := hsingle.scheduleAt_of_found hfound
  rw [hs, Option.some.injEq] at hs0
  rw [heq, hs0]
  exact ⟨rfl, rfl⟩

/-- The sponsor that a pause or a resumption names is the one of the stream. -/
theorem signed_of_rewritten {sponsor r0 : Address} {s0 s' : VestingSchedule}
    (hsingle : Single env.persistent) (hs : scheduleAt env.persistent r 0 = some s)
    (hne : scheduleAt env'.persistent r 0 ≠ scheduleAt env.persistent r 0)
    (hauth : host.auth sponsor = true) (hsponsor : s0.sponsor = sponsor)
    (hw : Rewritten r0 env env' s0 s') : host.auth s.sponsor = true := by
  have hr : r = r0 := eq_of_changed (hw.sameOutside (Set.mem_singleton r0)) hne
  subst hr
  rw [← (eq_of_found hsingle hs hw.found).1, hsponsor]
  exact hauth

/-- A cancellation or a clawback ends the stream of its sponsor. -/
theorem signed_of_terminated {sponsor r0 : Address} {k : UInt32} {s0 : VestingSchedule} {bound : ℤ}
    (hsingle : Single env.persistent) (hs : scheduleAt env.persistent r 0 = some s)
    (hne : scheduleAt env'.persistent r 0 ≠ scheduleAt env.persistent r 0)
    (hauth : host.auth sponsor = true) (ht : Terminated D sponsor r0 k env env' s0 bound) :
    host.auth s.sponsor = true := by
  rw [scheduleAt_terminated ht] at hne
  have hr : r = r0 := by
    by_contra hr
    exact hne (if_neg fun h => hr h.1)
  subst hr
  have hlive := ht.live
  rw [hsingle.eq_zero hlive, hs, Option.some.injEq] at hlive
  rw [hlive, ht.sponsor_eq]
  exact hauth

/-- **Who may change a stream**, by the entry point. -/
theorem touches_of_exec (hD : D.ReadsById) {call : AnyCall} {base : ContractCall}
    (hbase : call.base = some base) (hsingle : Single env.persistent)
    (hs : scheduleAt env.persistent r 0 = some s) (h : exec D host base env = .ok (u, env'))
    (hne : scheduleAt env'.persistent r 0 ≠ scheduleAt env.persistent r 0) :
    Touches r s ⟨host, call⟩ := by
  cases base with
  | createVestingStream a =>
    obtain ⟨id, e, he, hpure⟩ := bind_ok.mp h
    obtain ⟨-, rfl⟩ := pure_ok.mp hpure
    obtain ⟨c, hc⟩ := createVestingStream_ok he
    obtain ⟨m, e0, hval, -⟩ := bind_ok.mp he
    exact .created hbase (eq_of_changed (sameOutside_created hc) hne).symm
      (validateCreate_signed hval).1
  | claimVested r0 streamId =>
    obtain ⟨amount, e, he, hpure⟩ := bind_ok.mp h
    obtain ⟨-, rfl⟩ := pure_ok.mp hpure
    have hr : r = r0 := eq_of_changed (sameOutside_claim hD he) hne
    subst hr
    rw [claimVested, requireAuth_bind_ok] at he
    exact .recipient he.1.1
  | pauseStream sponsor r0 =>
    obtain ⟨s0, s', hp, hw⟩ := pauseStreamWith_ok h
    have hauth := (requireAuth_bind_ok.mp h).1.1
    exact .sponsor (signed_of_rewritten hsingle hs hne hauth (pauseSchedule_ok hp).1 hw)
  | resumeStream sponsor r0 =>
    obtain ⟨s0, s', hp, hw⟩ := resumeStreamWith_ok h
    have hauth := (requireAuth_bind_ok.mp h).1.1
    obtain ⟨p, -, hsponsor, -⟩ := resumeSchedule_eq hp
    exact .sponsor (signed_of_rewritten hsingle hs hne hauth hsponsor hw)
  | pauseStreamSecond sponsor r0 =>
    obtain ⟨s0, s', hp, hw⟩ := pauseStreamWith_ok h
    have hauth := (requireAuth_bind_ok.mp h).1.1
    exact .sponsor (signed_of_rewritten hsingle hs hne hauth (pauseScheduleSecond_ok hp).1 hw)
  | resumeStreamSecond sponsor r0 =>
    obtain ⟨s0, s', hp, hw⟩ := resumeStreamWith_ok h
    have hauth := (requireAuth_bind_ok.mp h).1.1
    obtain ⟨p, -, hsponsor, -⟩ := resumeScheduleSecond_eq hp
    exact .sponsor (signed_of_rewritten hsingle hs hne hauth hsponsor hw)
  | transferRecipient r0 r1 =>
    obtain ⟨s0, ht⟩ := transferRecipient_ok h
    have hauth := (requireAuth_bind_ok.mp h).1.1
    have hmem := mem_of_changed (R := {r0, r1}) (ht.sameOutside (Or.inl rfl) (Or.inr rfl)) hne
    rcases hmem with rfl | hr
    · exact .recipient hauth
    · -- a recipient with a stream receives no other
      rw [Set.mem_singleton_iff] at hr
      subst hr
      have hfree := ht.free
      have hsame : scheduleAt (getSchedule env.persistent r0).2 r 0 = some s := by
        rw [sameOutside_getSchedule (R := {r0}) env.persistent rfl r ht.ne.symm 0, hs]
      rw [hasSchedule_eq, hsame] at hfree
      cases hfree
  | cancelStream sponsor r0 k =>
    obtain ⟨s0, share, refund, -, ht⟩ := cancelStream_ok hD h
    have hauth := (requireAuth_bind_ok.mp h).1.1
    exact .sponsor (signed_of_terminated hsingle hs hne hauth ht)
  | clawbackStream sponsor r0 k reason =>
    obtain ⟨s0, remaining, -, ht⟩ := clawbackStream_ok hD h
    have hauth := (requireAuth_bind_ok.mp h).1.1
    exact .sponsor (signed_of_terminated hsingle hs hne hauth ht)
  | drainExpiredStream caller r0 =>
    obtain ⟨s0, remaining, hrem, hd⟩ := drainExpiredStream_ok h
    have hr : r = r0 := eq_of_changed (hd.sameOutside (Set.mem_singleton r0)) hne
    subst hr
    have hdue := drainRemaining_due hrem
    rw [(eq_of_found hsingle hs hd.found).2] at hdue
    have hcall : call = .fixed (.drainExpiredStream caller r) := by
      cases call <;> cases hbase
      rfl
    exact .expired hcall hdue
  | emergencyDrain sponsor r0 =>
    have hauth := (requireAuth_bind_ok.mp h).1.1
    have hcopy : emergencyDrain D host sponsor r0 env = .ok (u, env') := h
    obtain ⟨s0, amount, -, hd⟩ := emergencyDrain_ok h
    have hr : r = r0 := eq_of_changed (hd.sameOutside (Set.mem_singleton r0)) hne
    subst hr
    simp only [emergencyDrain, requireAuth_bind_ok, readSchedule_bind_ok, need_bind_ok,
      require_bind_ok] at hcopy
    obtain ⟨-, s1, hs1, rfl, -⟩ := hcopy
    rw [(eq_of_found hsingle hs hs1).1] at hauth
    exact .sponsor hauth
  | _ => exact absurd (congrArg (scheduleAt · r 0) (persistent_of_isConfig hD rfl h)) hne

/-- A successful request that changes a stream is one of a party to it. -/
theorem touches_of_execAny (hD : D.ReadsById) {call : AnyCall} (hsingle : Single env.persistent)
    (hs : scheduleAt env.persistent r 0 = some s) (h : execAny D host call env = .ok (u, env'))
    (hne : scheduleAt env'.persistent r 0 ≠ scheduleAt env.persistent r 0) :
    Touches r s ⟨host, call⟩ := by
  cases hbase : call.base with
  | some base =>
    have hexec : exec D host base env = .ok (u, env') := by
      cases call <;> cases hbase <;> exact h
    exact touches_of_exec hD hbase hsingle hs hexec hne
  | none =>
    refine absurd ?_ hne
    cases execAny_ok hD h with
    | fixed hfixed => rw [hbase] at hfixed; cases hfixed
    | batch hb =>
      refine sameOutside_batch hb.stored r (fun hr => ?_) 0
      obtain ⟨e, he, rfl⟩ := List.mem_map.mp hr
      have hfree := (hb.valid e he).free
      rw [hasSchedule_eq, hs] at hfree
      cases hfree
    | variableRate _ hv => rw [hv.persistent, scheduleAt_setVariableSchedule]
    | claimVariable _ hv =>
      rw [hv.persistent]
      split_ifs
      · exact scheduleAt_removeVariableSchedule
      · exact scheduleAt_setVariableSchedule

/-- A variable-rate stream changes only by a claim that its recipient signed. -/
theorem variable_signed (hD : D.ReadsById) {call : AnyCall} {v : VariableRateSchedule}
    (hv : getVariableSchedule env.persistent r = some v)
    (h : execAny D host call env = .ok (u, env'))
    (hne : getVariableSchedule env'.persistent r ≠ getVariableSchedule env.persistent r) :
    host.auth r = true := by
  have hpaid : ∀ {r0 : Address} {s s' : VariableRateSchedule}, VariablePaid r0 env env' s s' →
      r = r0 := by
    intro r0 s s' hp
    by_contra hr
    exact hne (by rw [hp.lookup, if_neg hr])
  cases execAny_ok hD h with
  | fixed _ hf => exact absurd ((tame_of_fixed hD hf).segmented r) hne
  | batch hb => exact absurd ((tame_batch hb.stored).segmented r) hne
  | variableRate _ hc =>
    rename_i a s
    rw [hc.persistent, getVariableSchedule_set] at hne
    split_ifs at hne with hr
    · subst hr
      have hfree := hc.free
      rw [hasVariableSchedule, hv] at hfree
      cases hfree
    · exact absurd rfl hne
  | claimVariable kind hp =>
    obtain rfl := hpaid hp
    rcases kind with rfl | rfl
    · exact (requireAuth_bind_ok.mp (bind_ok.mp h).choose_spec.choose_spec.1).1.1
    · exact (requireAuth_bind_ok.mp (bind_ok.mp h).choose_spec.choose_spec.1).1.1

/-- **A stream is its parties'.** If a run changes the stream `s` of `r`, then a request that found
it as it was at the start was signed by its recipient or its sponsor, created another stream for the
recipient, or drained it after the delay; and if a run changes the variable-rate stream of `r`, then
`r` signed. -/
theorem stream_needs_party (hD : D.ReadsById) (hsingle : Single env.persistent)
    (r : Address) (l : List AnyRequest) :
    (∀ s, scheduleAt env.persistent r 0 = some s →
      scheduleAt (run (stepAny D) env l).persistent r 0 ≠ some s →
        ∃ pre q post, l = pre ++ q :: post ∧
          scheduleAt (run (stepAny D) env pre).persistent r 0 = some s ∧ Touches r s q) ∧
    (∀ v, getVariableSchedule env.persistent r = some v →
      getVariableSchedule (run (stepAny D) env l).persistent r ≠ some v →
        ∃ pre q post, l = pre ++ q :: post ∧
          getVariableSchedule (run (stepAny D) env pre).persistent r = some v ∧
          q.host.auth r = true) := by
  refine ⟨fun s hs hne => ?_, fun v hv hne => ?_⟩
  · rw [← hs] at hne
    obtain ⟨pre, q, post, hl, hsame, hchange⟩ :=
      exists_first_change (f := fun e : Env => scheduleAt e.persistent r 0) hne
    have hnow := hsame.trans hs
    refine ⟨pre, q, post, hl, hnow, ?_⟩
    have hsingle' : AllStates (stepAny D) (fun e : Env => Single e.persistent) env pre :=
      allStates_of_step (fun e q => single_step hD e q) hsingle
    obtain ⟨u, e, hok, heq⟩ := ok_of_commit_ne fun h => hchange (by rw [stepAny, h]; exact hsame)
    rw [← hsame, stepAny, heq] at hchange
    exact touches_of_execAny hD hsingle'.last hnow hok hchange
  · rw [← hv] at hne
    obtain ⟨pre, q, post, hl, hsame, hchange⟩ :=
      exists_first_change (f := fun e : Env => getVariableSchedule e.persistent r) hne
    have hnow := hsame.trans hv
    refine ⟨pre, q, post, hl, hnow, ?_⟩
    obtain ⟨u, e, hok, heq⟩ := ok_of_commit_ne fun h => hchange (by rw [stepAny, h]; exact hsame)
    rw [← hsame, stepAny, heq] at hchange
    exact variable_signed hD hnow hok hchange

end Parties

/-- The environment in which the sample stream is stored. -/
def sampleCreated : Env :=
  commit (createVestingStream sampleDeployment (sampleHost 100) sampleArgs) sampleEnv

theorem single_sampleCreated : Single sampleCreated.persistent := by
  have hstart : sampleEnv.persistent = ∅ := rfl
  have hempty : Single sampleEnv.persistent := hstart ▸ single_of_flat flat_empty
  have hstep := single_step sampleDeployment_readsById sampleEnv
    ⟨sampleHost 100, .createMilestoneStream sampleArgs⟩ hempty
  rwa [stepAny, execAny, createMilestoneStream, commit_bind_pure] at hstep

/-- Sponsor `3` creates another stream for the recipient of the sample stream. -/
def sampleOther : AnyRequest :=
  ⟨sampleHost 200, .fixed (.createVestingStream { sampleArgs with sponsor := ⟨3⟩ })⟩

theorem stream_needs_party_sample : ∃ pre q post, [sampleOther] = pre ++ q :: post ∧
    scheduleAt (run (stepAny sampleDeployment) sampleCreated pre).persistent ⟨2⟩ 0 =
      some sampleStream ∧ Touches ⟨2⟩ sampleStream q :=
  (stream_needs_party sampleDeployment_readsById single_sampleCreated ⟨2⟩ [sampleOther]).1
    sampleStream sampleCreation_stored (by decide +kernel)

end VestingDripStream.Contract.Authority
