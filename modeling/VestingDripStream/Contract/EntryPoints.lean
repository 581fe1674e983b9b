import VestingDripStream.Contract.Storage
import VestingDripStream.Contract.Schedule

/-! # The entry points

The entry points of `contract.rs` on fixed-rate streams and on the configuration they read, as
transactions on the contract's environment: its two storages, the token balances and the events.
A call that returns an error or traps is rolled back as a whole (`Transaction.commit`).

* `Deployment` holds what is fixed for a deployed contract: its address, and `get_schedule_by_id`,
  which `contract.rs` calls and no file of the repository defines. `Deployment.ReadsById` is what
  its callers rely on.
* `Host` is what the network supplies for one call: the ledger sequence, the addresses that
  authorised it, and the answers of the token contracts. A token moves exactly the amount of a
  transfer or refuses it; it may refuse for any reason (`accepts`).

`claim_vested` is the version with an optional stream id and the loop over the streams; the text
after its loop, which mentions variables of the loop body, is not part of it. -/

namespace VestingDripStream.Contract.EntryPoints

open VestingDripStream.Lib.Checked VestingDripStream.Lib.Transaction
open VestingDripStream.Contract.Types VestingDripStream.Contract.Storage
open VestingDripStream.Contract.Schedule

/-! ### Tokens -/

/-- Token balances: by token, then by holder. -/
abbrev Balances : Type := Address → Address → ℕ

/-- Moves exactly `amount`, or fails: on a negative amount or a balance that is too small. -/
def transfer (b : Balances) (token src dst : Address) (amount : ℤ) : Option Balances :=
  if 0 ≤ amount ∧ amount ≤ b token src then
    let taken := Function.update (b token) src (b token src - amount.toNat)
    some (Function.update b token (Function.update taken dst (taken dst + amount.toNat)))
  else none

/-! ### The environment of a call -/

/-- What a call may read and write. -/
structure Env where
  persistent : Storage
  inst : Storage
  balances : Balances
  events : List Event

/-- What the network supplies for one call. -/
structure Host where
  sequence : UInt32
  auth : Address → Bool
  isToken : Address → Bool
  accepts : (token src dst : Address) → ℤ → Bool
  clawbackOk : Address → Bool

/-- What is fixed for a deployed contract. -/
structure Deployment where
  contractAddress : Address
  getScheduleById : Storage → Address → UInt32 → Option VestingSchedule

/-- `get_schedule_by_id` reads `ScheduleById(r, k)`, and the legacy `Schedule(r)` for `k = 0`. -/
def Deployment.ReadsById (D : Deployment) : Prop :=
  ∀ st r k, D.getScheduleById st r k = scheduleAt st r k

/-- The entry points' monad. -/
abbrev Call (α : Type) : Type := Tx Env Failure α

/-- Return the error `e` unless `c`. -/
def require (c : Prop) [Decidable c] (e : VestingError) : Call Unit := ensure c (.err e)

/-- `require_auth`. The contract never calls itself, so its own address authorises nothing. -/
def requireAuth (D : Deployment) (host : Host) (a : Address) : Call Unit :=
  ensure (host.auth a = true ∧ a ≠ D.contractAddress) .trap

/-- A change of the persistent storage. -/
def persist (f : Storage → Storage) : Call Unit :=
  update fun env => { env with persistent := f env.persistent }

/-- A change of the instance storage. -/
def configure (f : Storage → Storage) : Call Unit :=
  update fun env => { env with inst := f env.inst }

/-- Publishes an event. -/
def emit (e : Event) : Call Unit := update fun env => { env with events := env.events ++ [e] }

/-- `try_transfer` of a token, with its failure mapped to `TransferFailed`. -/
def tryTransfer (host : Host) (token src dst : Address) (amount : ℤ) : Call Unit := fun env =>
  match host.accepts token src dst amount, transfer env.balances token src dst amount with
  | true, some b => .ok ((), { env with balances := b })
  | _, _ => .error (.err .transferFailed)

/-- A transfer out of the vault under the reentrancy lock. -/
def lockedTransfer (D : Deployment) (host : Host) (token dst : Address) (amount : ℤ) :
    Call Unit := do
  let inst ← asks (·.inst)
  require ((inst.lookup .lock).isNone) .reentrancy
  configure fun st => st.insert .lock true
  tryTransfer host token D.contractAddress dst amount
  configure fun st => st.erase .lock

/-- `storage::get_schedule` as part of a call. -/
def readSchedule (recipient : Address) : Call (Option VestingSchedule) := fun env =>
  .ok ((getSchedule env.persistent recipient).1,
    { env with persistent := (getSchedule env.persistent recipient).2 })

/-! ### Configuration -/

/-- `is_initialized`. -/
def isInitialized (inst : Storage) : Bool := (inst.lookup .initialized).isSome

/-- `get_admin`. -/
def getAdmin (inst : Storage) : Option Address := inst.lookup .admin

/-- `get_fee`. -/
def getFee (inst : Storage) : UInt32 × Option Address :=
  ((inst.lookup .feeBps).getD 0, inst.lookup .treasury)

/-- `get_min_deposit`, by default `100`. -/
def getMinDeposit (inst : Storage) : ℤ := (inst.lookup .minDeposit).getD 100

/-- `get_max_cliff_ratio`, by default `5000`. -/
def getMaxCliffRatio (inst : Storage) : UInt32 := (inst.lookup .configMaxCliffRatio).getD 5000

/-- `get_min_rate`, by default `1`. -/
def getMinRate (inst : Storage) : ℤ := (inst.lookup .configMinRate).getD 1

/-- `get_allowed_tokens`. -/
def getAllowedTokens (inst : Storage) : List Address := (inst.lookup .allowedTokens).getD []

/-- `is_recipient_allowed`. -/
def isRecipientAllowed (inst : Storage) (recipient : Address) : Bool :=
  !(inst.lookup .allowlistEnabled).getD false ||
    (inst.lookup (.recipientAllowlist recipient)).getD false

/-- `MAX_FEE_BPS`. -/
def maxFeeBps : UInt32 := 500

/-- The check of the admin entry points: `admin` is the stored administrator. -/
def requireAdmin (D : Deployment) (host : Host) (admin : Address) : Call Unit := do
  requireAuth D host admin
  let inst ← asks (·.inst)
  require (getAdmin inst = some admin) .unauthorized

/-- `initialize`. -/
def initializeContract (D : Deployment) (host : Host) (admin : Address) (feeBps : UInt32)
    (treasury : Address) : Call Unit := do
  let inst ← asks (·.inst)
  require (isInitialized inst = false) .alreadyInitialized
  require (feeBps ≤ maxFeeBps) .invalidRate
  requireAuth D host admin
  configure fun st => (((st.insert .admin admin).insert .feeBps feeBps).insert .treasury
    treasury).insert .initialized true
  emit (.contractInitialized admin feeBps treasury)

/-- `transfer_admin`. -/
def transferAdmin (D : Deployment) (host : Host) (admin newAdmin : Address) : Call Unit := do
  requireAdmin D host admin
  configure fun st => st.insert .admin newAdmin

/-- `add_allowed_token`. -/
def addAllowedToken (D : Deployment) (host : Host) (admin token : Address) : Call Unit := do
  requireAdmin D host admin
  configure fun st =>
    if token ∈ getAllowedTokens st then st
    else st.insert .allowedTokens (getAllowedTokens st ++ [token])
  emit (.allowlistUpdated admin token true)

/-- `remove_allowed_token`. -/
def removeAllowedToken (D : Deployment) (host : Host) (admin token : Address) : Call Unit := do
  requireAdmin D host admin
  configure fun st => st.insert .allowedTokens ((getAllowedTokens st).filter fun a => a ≠ token)
  emit (.allowlistUpdated admin token false)

/-- The loop of `set_allowlist`. -/
def setAllowlistLoop (admin : Address) (allowed : Bool) : List Address → Call Unit
  | [] => pure ()
  | recipient :: rest => do
    configure fun st => st.insert (.recipientAllowlist recipient) allowed
    emit (.recipientAllowlistUpdated admin recipient allowed)
    setAllowlistLoop admin allowed rest

/-- `set_allowlist`. -/
def setAllowlist (D : Deployment) (host : Host) (admin : Address) (recipients : List Address)
    (allowed : Bool) : Call Unit := do
  requireAdmin D host admin
  setAllowlistLoop admin allowed recipients

/-- `set_allowlist_enabled`. -/
def setAllowlistEnabled (D : Deployment) (host : Host) (admin : Address) (enabled : Bool) :
    Call Unit := do
  requireAdmin D host admin
  configure fun st => st.insert .allowlistEnabled enabled

/-- `set_fee`. -/
def setFee (D : Deployment) (host : Host) (admin : Address) (feeBps : UInt32)
    (treasury : Address) : Call Unit := do
  requireAdmin D host admin
  require (feeBps ≤ maxFeeBps) .invalidRate
  configure fun st => (st.insert .feeBps feeBps).insert .treasury treasury

/-- `set_min_deposit`. -/
def setMinDeposit (D : Deployment) (host : Host) (admin : Address) (minDeposit : ℤ) :
    Call Unit := do
  requireAdmin D host admin
  require (0 < minDeposit) .invalidRate
  configure fun st => st.insert .minDeposit minDeposit

/-- `set_config`. -/
def setConfig (D : Deployment) (host : Host) (admin : Address) (key : String) (value : ℤ) :
    Call Unit := do
  requireAdmin D host admin
  if key = "max_cliff_ratio" then do
    require (0 ≤ value ∧ value ≤ 10000) .invalidRate
    configure fun st => st.insert .configMaxCliffRatio (UInt32.ofNat value.toNat)
  else if key = "min_rate" then do
    require (1 ≤ value) .invalidRate
    configure fun st => st.insert .configMinRate value
  else require False .invalidRate

/-! ### Creation -/

/-- The arguments of `create_vesting_stream`. -/
structure CreateArgs where
  sponsor : Address
  recipient : Address
  token : Address
  rate : ℤ
  cliffDuration : UInt32
  totalDuration : UInt32
  metadata : Option String

/-- `cliff_duration * 10_000 / total_duration`; below `10000`, so its cast to `u32` is exact. -/
def cliffRatioBps (cliffDuration totalDuration : UInt32) : ℕ :=
  cliffDuration.toNat * 10000 / totalDuration.toNat

/-- An empty metadata string counts as none, one above 256 bytes is refused. -/
def normaliseMetadata : Option String → Except Failure (Option String)
  | none => .ok none
  | some s =>
    if s.utf8ByteSize = 0 then .ok none
    else if 256 < s.utf8ByteSize then .error (.err .metadataTooLong)
    else .ok (some s)

/-- The fast-path size check: the product does not overflow and is below the minimum. -/
def BelowMinimumFast (rate : ℤ) (totalDuration : UInt32) (minDeposit : ℤ) : Prop :=
  InI128 (rate * asI128 totalDuration) ∧ rate * asI128 totalDuration < minDeposit

instance (rate : ℤ) (d : UInt32) (m : ℤ) : Decidable (BelowMinimumFast rate d m) := by
  unfold BelowMinimumFast; infer_instance

/-- The schedule `create_vesting_stream` stores. -/
def newSchedule (a : CreateArgs) (metadata : Option String)
    (startLedger cliffLedger endLedger : UInt32) : VestingSchedule where
  token := a.token
  sponsor := a.sponsor
  ratePerLedger := a.rate
  startLedger := startLedger
  cliffLedger := cliffLedger
  endLedger := endLedger
  lastClaimedLedger := startLedger
  totalClaimed := 0
  claimedAmount := 0
  metadata := metadata
  pausedAtLedger := none
  accumulatedPauseLedgers := 0
  version := 1
  schemaVersion := currentSchemaVersion

/-- `next_stream_id` as part of a call. -/
def takeStreamId (recipient : Address) : Call UInt32 := fun env =>
  match nextStreamId env.persistent recipient with
  | .ok (k, st) => .ok (k, { env with persistent := st })
  | .error e => .error e

/-- The protocol fee of a creation, taken out of the vault. -/
def collectFee (D : Deployment) (host : Host) (a : CreateArgs) (totalDeposit : ℤ) : Call Unit := do
  let inst ← asks (·.inst)
  onlyIf (0 < (getFee inst).1) do
    let treasury ← need (getFee inst).2 (.err .unauthorized)
    let feeAmount ← compute (protocolFee (getFee inst).1 totalDeposit)
    onlyIf (0 < feeAmount) do
      tryTransfer host a.token D.contractAddress treasury feeAmount
      emit (.feeCollected a.sponsor treasury feeAmount)

/-- The checks of `create_vesting_stream` on its arguments and the configuration. -/
def validateCreate (D : Deployment) (host : Host) (a : CreateArgs) : Call (Option String) := do
  let inst ← asks (·.inst)
  require (isInitialized inst = true) .notInitialized
  require (a.sponsor ≠ a.recipient) .invalidRecipient
  require (0 < a.rate) .invalidRate
  require (getMinRate inst ≤ a.rate) .invalidRate
  require (a.cliffDuration ≠ 0) .invalidCliffDuration
  require (a.cliffDuration < a.totalDuration) .invalidDuration
  require (a.cliffDuration ≠ 0) .invalidCliffDuration
  require (cliffRatioBps a.cliffDuration a.totalDuration ≤ (getMaxCliffRatio inst).toNat)
    .invalidDuration
  require (isRecipientAllowed inst a.recipient = true) .recipientNotAllowed
  require (host.isToken a.token = true) .invalidToken
  let metadata ← compute (normaliseMetadata a.metadata)
  requireAuth D host a.sponsor
  pure metadata

/-- `create_vesting_stream`: returns the stream id. -/
def createVestingStream (D : Deployment) (host : Host) (a : CreateArgs) : Call UInt32 := do
  let metadata ← validateCreate D host a
  let startLedger := host.sequence
  let cliffLedger ← compute (orOverflow (checkedAdd startLedger a.cliffDuration))
  let endLedger ← compute (orOverflow (checkedAdd startLedger a.totalDuration))
  let inst ← asks (·.inst)
  require (¬ BelowMinimumFast a.rate a.totalDuration (getMinDeposit inst)) .rateTooLow
  let totalDeposit ← compute (calculateTotalDeposit a.rate a.totalDuration)
  require (getMinDeposit inst ≤ totalDeposit) .depositBelowMinimum
  let streamId ← takeStreamId a.recipient
  tryTransfer host a.token a.sponsor D.contractAddress totalDeposit
  collectFee D host a totalDeposit
  persist fun st =>
    setSchedule st a.recipient (newSchedule a metadata startLedger cliffLedger endLedger)
  persist fun st => addSponsorStream st a.sponsor a.recipient
  let duration ← compute (plain (plainSub endLedger startLedger))
  let announced ← compute (plain (checked (asI128 duration * a.rate)))
  emit (.streamCreated a.sponsor a.recipient a.token a.rate startLedger cliffLedger endLedger
    announced metadata)
  pure streamId

/-! ### Claims -/

/-- The transfers of a claim: the fee to the treasury, then the rest to the recipient. -/
def payClaim (D : Deployment) (host : Host) (recipient token : Address) (feeAmount netAmount : ℤ) :
    Call Unit := do
  let inst ← asks (·.inst)
  require ((inst.lookup .lock).isNone) .reentrancy
  configure fun st => st.insert .lock true
  onlyIf (0 < feeAmount) do
    let treasury ← need (getFee inst).2 (.err .unauthorized)
    tryTransfer host token D.contractAddress treasury feeAmount
    emit (.feeTaken recipient treasury feeAmount netAmount)
  tryTransfer host token D.contractAddress recipient netAmount
  configure fun st => st.erase .lock

/-- The end of the loop body: the schedule is removed if it is fully claimed, else stored. -/
def storeClaim (recipient : Address) (streamId : UInt32) (s : VestingSchedule)
    (totalDeposited : ℤ) : Call Unit :=
  if totalDeposited ≤ s.claimedAmount then do
    persist fun st => removeScheduleById st recipient streamId
    emit (.streamCompleted recipient s.token)
  else persist fun st => setScheduleById st recipient streamId s

/-- The loop body of `claim_vested`: the amount claimed, `0` for a stream that is skipped. -/
def claimStream (D : Deployment) (host : Host) (recipient : Address) (specific : Bool)
    (streamId : UInt32) : Call ℤ := do
  let st ← asks (·.persistent)
  match D.getScheduleById st recipient streamId with
  | none => do
    require (specific = false) .scheduleNotFound
    pure 0
  | some s => do
    match ← compute (accrue s host.sequence) with
    | .skip reason => do
      require (specific = false) reason
      pure 0
    | .due s totalDeposited claimable => do
      let inst ← asks (·.inst)
      let (feeAmount, netAmount) ← compute (feeSplit (getFee inst).1 claimable)
      payClaim D host recipient s.token feeAmount netAmount
      let s ← compute (settle s host.sequence claimable)
      storeClaim recipient streamId s totalDeposited
      emit (.tokensClaimed recipient claimable (min host.sequence s.endLedger))
      pure claimable

/-- The loop of `claim_vested`, with `total_claimed` so far. -/
def claimLoop (D : Deployment) (host : Host) (recipient : Address) (specific : Bool) :
    List UInt32 → ℤ → Call ℤ
  | [], totalClaimed => pure totalClaimed
  | streamId :: rest, totalClaimed => do
    let claimable ← claimStream D host recipient specific streamId
    let totalClaimed ← compute (orOverflow (checked (totalClaimed + claimable)))
    claimLoop D host recipient specific rest totalClaimed

/-- `claim_vested`. -/
def claimVested (D : Deployment) (host : Host) (recipient : Address) (streamId : Option UInt32) :
    Call ℤ := do
  requireAuth D host recipient
  let st ← asks (·.persistent)
  let streamIds := match streamId with
    | some k => [k]
    | none => getStreamIds st recipient
  require (streamIds ≠ []) .scheduleNotFound
  let totalClaimed ← claimLoop D host recipient streamId.isSome streamIds 0
  require (totalClaimed ≠ 0) .nothingToClaim
  pure totalClaimed

/-! ### Pause, resume and transfer -/

/-- `pause_stream`, by the definition `pause` of its effect on the schedule. -/
def pauseStreamWith (pause : VestingSchedule → Address → UInt32 → Except Failure VestingSchedule)
    (D : Deployment) (host : Host) (sponsor recipient : Address) : Call Unit := do
  requireAuth D host sponsor
  let found ← readSchedule recipient
  let s ← need found (.err .scheduleNotFound)
  let s ← compute (pause s sponsor host.sequence)
  persist fun st => setSchedule st recipient s
  emit (.streamPaused recipient sponsor host.sequence)

/-- `resume_stream`, by the definition `resume` of its effect on the schedule. -/
def resumeStreamWith (resume : VestingSchedule → Address → UInt32 → Except Failure VestingSchedule)
    (D : Deployment) (host : Host) (sponsor recipient : Address) : Call Unit := do
  requireAuth D host sponsor
  let found ← readSchedule recipient
  let s ← need found (.err .scheduleNotFound)
  let s ← compute (resume s sponsor host.sequence)
  persist fun st => setSchedule st recipient s
  emit (.streamResumed recipient sponsor s.endLedger)

/-- `pause_stream`, first definition. -/
def pauseStream : Deployment → Host → Address → Address → Call Unit := pauseStreamWith pauseSchedule

/-- `pause_stream`, second definition. -/
def pauseStreamSecond : Deployment → Host → Address → Address → Call Unit :=
  pauseStreamWith pauseScheduleSecond

/-- `resume_stream`, first definition. -/
def resumeStream : Deployment → Host → Address → Address → Call Unit :=
  resumeStreamWith resumeSchedule

/-- `resume_stream`, second definition. -/
def resumeStreamSecond : Deployment → Host → Address → Address → Call Unit :=
  resumeStreamWith resumeScheduleSecond

/-- `transfer_recipient`. -/
def transferRecipient (D : Deployment) (host : Host) (currentRecipient newRecipient : Address) :
    Call Unit := do
  requireAuth D host currentRecipient
  require (currentRecipient ≠ newRecipient) .invalidRecipient
  let found ← readSchedule currentRecipient
  let s ← need found (.err .scheduleNotFound)
  let st ← asks (·.persistent)
  require (hasSchedule st newRecipient = false) .scheduleAlreadyExists
  persist fun st => setSchedule (removeSchedule st currentRecipient) newRecipient s
  persist fun st =>
    addSponsorStream (removeSponsorStream st s.sponsor currentRecipient) s.sponsor newRecipient
  emit (.streamTransferred currentRecipient newRecipient)

/-! ### Terminal operations -/

/-- The end of every terminal operation: the schedule of the recipient and the sponsor's index
entry are removed. -/
def dropStream (sponsor recipient : Address) : Call Unit :=
  persist fun st => removeSponsorStream (removeSchedule st recipient) sponsor recipient

/-- `cancel_stream`. -/
def cancelStream (D : Deployment) (host : Host) (sponsor recipient : Address)
    (streamId : UInt32) : Call Unit := do
  requireAuth D host sponsor
  require (sponsor ≠ recipient) .invalidRecipient
  let st ← asks (·.persistent)
  let s ← need (D.getScheduleById st recipient streamId) (.err .scheduleNotFound)
  require (s.sponsor = sponsor) .unauthorized
  let (recipientShare, sponsorRefund) ← compute (cancelSplit s host.sequence)
  onlyIf (0 < recipientShare) (lockedTransfer D host s.token recipient recipientShare)
  onlyIf (0 < sponsorRefund) (lockedTransfer D host s.token sponsor sponsorRefund)
  dropStream sponsor recipient
  emit (.streamCancelled sponsor recipient sponsorRefund recipientShare host.sequence)

/-- `clawback_stream`. -/
def clawbackStream (D : Deployment) (host : Host) (sponsor recipient : Address)
    (streamId : UInt32) (reason : String) : Call Unit := do
  requireAuth D host sponsor
  let st ← asks (·.persistent)
  let s ← need (D.getScheduleById st recipient streamId) (.err .scheduleNotFound)
  require (s.sponsor = sponsor) .unauthorized
  require (reason.utf8ByteSize ≤ 256) .reasonTooLong
  require (host.clawbackOk s.token = true) .clawbackNotSupported
  let remaining ← compute (clawbackRemaining s)
  onlyIf (0 < remaining) (tryTransfer host s.token D.contractAddress sponsor remaining)
  dropStream sponsor recipient
  emit (.streamClawedBack sponsor recipient s.token remaining host.sequence reason)

/-- `drain_expired_stream`. -/
def drainExpiredStream (D : Deployment) (host : Host) (caller recipient : Address) :
    Call Unit := do
  let found ← readSchedule recipient
  let s ← need found (.err .scheduleNotFound)
  let remaining ← compute (drainRemaining s host.sequence)
  dropStream s.sponsor recipient
  onlyIf (0 < remaining) (tryTransfer host s.token D.contractAddress s.sponsor remaining)
  emit (.streamDrained caller recipient s.sponsor s.token remaining)

/-- `emergency_drain`. -/
def emergencyDrain (D : Deployment) (host : Host) (sponsor recipient : Address) : Call Unit := do
  requireAuth D host sponsor
  let found ← readSchedule recipient
  let s ← need found (.err .scheduleNotFound)
  require (s.sponsor = sponsor) .unauthorized
  let amount ← compute (emergencyAmount s host.sequence)
  onlyIf (0 < amount) (tryTransfer host s.token D.contractAddress sponsor amount)
  dropStream sponsor recipient
  emit (.emergencyDrain recipient sponsor amount)

/-! ### A deployment for examples -/

/-- A contract at address `0` whose `get_schedule_by_id` is `scheduleAt`. -/
def sampleDeployment : Deployment := ⟨⟨0⟩, scheduleAt⟩

theorem sampleDeployment_readsById : sampleDeployment.ReadsById := fun _ _ _ => rfl

/-- A call at `sequence` that everyone authorises and no token refuses. -/
def sampleHost (sequence : UInt32) : Host where
  sequence := sequence
  auth _ := true
  isToken _ := true
  accepts _ _ _ _ := true
  clawbackOk _ := true

/-- Nothing is stored yet, and the sponsors `1` and `3` have tokens. -/
def sampleStart : Env :=
  ⟨∅, ∅, fun _ holder => if holder = ⟨1⟩ ∨ holder = ⟨3⟩ then 1000000 else 0, []⟩

/-- The contract with administrator `9`, without a fee. -/
def sampleEnv : Env :=
  commit (initializeContract sampleDeployment (sampleHost 1) ⟨9⟩ 0 ⟨8⟩) sampleStart

/-- Sponsor `1` streams token `10` to recipient `2`, over 200 ledgers with a cliff after 50. -/
def sampleArgs : CreateArgs where
  sponsor := ⟨1⟩
  recipient := ⟨2⟩
  token := ⟨10⟩
  rate := 10000000
  cliffDuration := 50
  totalDuration := 200
  metadata := none

/-- The schedule of the sample stream, created at ledger `100`. -/
def sampleStream : VestingSchedule := newSchedule sampleArgs none 100 150 300

theorem sampleCreation_isOk :
    (createVestingStream sampleDeployment (sampleHost 100) sampleArgs sampleEnv).isOk = true := by
  decide +kernel

theorem sampleCreation_stored :
    scheduleAt (commit (createVestingStream sampleDeployment (sampleHost 100) sampleArgs)
      sampleEnv).persistent ⟨2⟩ 0 = some sampleStream := by
  decide +kernel

/-- What its creation stores is the sample stream. -/
theorem eq_sampleStream {id : UInt32} {env' : Env} {s : VestingSchedule}
    (h : createVestingStream sampleDeployment (sampleHost 100) sampleArgs sampleEnv =
      .ok (id, env')) (hs : scheduleAt env'.persistent ⟨2⟩ 0 = some s) : sampleStream = s := by
  have hstored := sampleCreation_stored
  rw [commit_of_ok h] at hstored
  exact Option.some.inj (hstored.symm.trans hs)

end VestingDripStream.Contract.EntryPoints
