import VestingDripStream.Lib.Checked
import Mathlib.Data.Finmap

/-! # The contract's data model

The types of `types.rs` and `error.rs` and the events of `events.rs` that the fixed-rate and the
variable-rate entry points use. The storage of a contract is a finite map over `DataKey` whose value
type depends on the key; persistent and instance storage are two such maps. `ScheduleById` and
`NextStreamId` are the keys `storage.rs` writes; `Schedule` is the key of the single-stream
deployments. -/

namespace VestingDripStream.Contract.Types

open VestingDripStream.Lib.Checked

/-- An address: of an account, of a token contract, or of the contract itself. -/
structure Address where
  id : ℕ
  deriving DecidableEq, Repr

/-- `VestingError`, in the order of its codes `1 … 30`. -/
inductive VestingError
  | scheduleNotFound
  | cliffNotReached
  | invalidDuration
  | invalidRate
  | depositOverflow
  | scheduleAlreadyExists
  | nothingToClaim
  | streamNotExpired
  | drainDelayNotExpired
  | invalidRecipient
  | transferFailed
  | invalidCliffDuration
  | alreadyInitialized
  | recipientNotAllowed
  | streamPaused
  | batchTooLarge
  | rateTooLow
  | notInitialized
  | invalidSegments
  | metadataTooLong
  | unauthorized
  | depositBelowMinimum
  | streamAlreadyPaused
  | streamNotPaused
  | versionOverflow
  | clawbackNotSupported
  | invalidToken
  | reasonTooLong
  | invalidMilestones
  | reentrancy
  deriving DecidableEq, Repr

/-- Why a call fails: it returns an error, or it traps (an arithmetic overflow of the release
profile, which has overflow checks on, or a missing authorisation). -/
inductive Failure
  | err (e : VestingError)
  | trap
  deriving DecidableEq, Repr

/-- `CURRENT_SCHEMA_VERSION`. -/
def currentSchemaVersion : UInt32 := 2

/-- `RATE_DECIMALS`. -/
def rateDecimals : ℤ := 10000000

/-- `VestingSchedule`: a fixed-rate stream. -/
structure VestingSchedule where
  token : Address
  sponsor : Address
  ratePerLedger : ℤ
  startLedger : UInt32
  cliffLedger : UInt32
  endLedger : UInt32
  /-- Last ledger up to which tokens have been claimed. -/
  lastClaimedLedger : UInt32
  totalClaimed : ℤ
  claimedAmount : ℤ
  metadata : Option String
  /-- The ledger the stream was paused at, `none` if it is active. -/
  pausedAtLedger : Option UInt32
  accumulatedPauseLedgers : UInt32
  version : UInt32
  schemaVersion : UInt32
  deriving DecidableEq, Repr

/-- `increment_version`. -/
def VestingSchedule.incrementVersion (s : VestingSchedule) : Except Failure VestingSchedule :=
  match checkedAdd s.version 1 with
  | some v => .ok { s with version := v }
  | none => .error (.err .versionOverflow)

/-- What a stream pays in all: `rate * (end - start)`. -/
def VestingSchedule.total (s : VestingSchedule) : ℤ :=
  s.ratePerLedger * ((s.endLedger.toNat : ℤ) - s.startLedger.toNat)

/-- What a stream still owes: `rate * (end - start) - claimed_amount`. -/
def VestingSchedule.owed (s : VestingSchedule) : ℤ := s.total - s.claimedAmount

theorem incrementVersion_ok {s s' : VestingSchedule} (h : s.incrementVersion = .ok s') :
    s'.version.toNat = s.version.toNat + 1 ∧ s' = { s with version := s'.version } := by
  unfold VestingSchedule.incrementVersion at h
  split at h
  · next v hv =>
    cases h
    exact ⟨by simpa using checkedAdd_eq_some.mp hv, rfl⟩
  · cases h

/-- `RateSegment`: the ledger at which the segment ends, and its rate. -/
structure RateSegment where
  endLedger : UInt32
  rate : ℤ
  deriving DecidableEq, Repr

/-- `VariableRateSchedule`: a stream whose rate changes from segment to segment. -/
structure VariableRateSchedule where
  token : Address
  sponsor : Address
  startLedger : UInt32
  cliffLedger : UInt32
  endLedger : UInt32
  lastClaimedLedger : UInt32
  totalDeposited : ℤ
  claimedAmount : ℤ
  totalClaimed : ℤ
  segments : List RateSegment
  pausedAtLedger : Option UInt32
  deriving DecidableEq, Repr

/-! ### Storage -/

/-- `DataKey`. -/
inductive DataKey
  | schedule (recipient : Address)
  | scheduleById (recipient : Address) (streamId : UInt32)
  | nextStreamId (recipient : Address)
  | variableSchedule (recipient : Address)
  | sponsorStreams (sponsor : Address)
  | minDeposit
  | admin
  | feeBps
  | treasury
  | initialized
  | lock
  | allowedTokens
  | allowlistEnabled
  | recipientAllowlist (recipient : Address)
  | configMaxCliffRatio
  | configMinRate
  deriving DecidableEq, Repr

/-- The type of the value stored under a key. -/
abbrev DataKey.Val : DataKey → Type
  | .schedule _ => VestingSchedule
  | .scheduleById _ _ => VestingSchedule
  | .nextStreamId _ => UInt32
  | .variableSchedule _ => VariableRateSchedule
  | .sponsorStreams _ => List Address
  | .minDeposit => ℤ
  | .admin => Address
  | .feeBps => UInt32
  | .treasury => Address
  | .initialized => Bool
  | .lock => Bool
  | .allowedTokens => List Address
  | .allowlistEnabled => Bool
  | .recipientAllowlist _ => Bool
  | .configMaxCliffRatio => UInt32
  | .configMinRate => ℤ

/-- One of the contract's two storages. -/
abbrev Storage : Type := Finmap DataKey.Val

/-! ### Events -/

/-- The events of `events.rs` published by the modelled entry points. -/
inductive Event
  | contractInitialized (admin : Address) (feeBps : UInt32) (treasury : Address)
  | allowlistUpdated (admin token : Address) (added : Bool)
  | recipientAllowlistUpdated (admin recipient : Address) (allowed : Bool)
  | streamCreated (sponsor recipient token : Address) (rate : ℤ)
      (startLedger cliffLedger endLedger : UInt32) (totalDeposit : ℤ) (metadata : Option String)
  | variableStreamCreated (sponsor recipient token : Address)
      (startLedger cliffLedger endLedger : UInt32) (totalDeposited : ℤ)
  | variableTokensClaimed (recipient : Address) (amount : ℤ) (ledgerClaimedThrough : UInt32)
  | feeCollected (sponsor treasury : Address) (amount : ℤ)
  | feeTaken (recipient treasury : Address) (feeAmount netAmount : ℤ)
  | tokensClaimed (recipient : Address) (amount : ℤ) (ledgerClaimedThrough : UInt32)
  | streamCompleted (recipient token : Address)
  | streamPaused (recipient sponsor : Address) (pausedAt : UInt32)
  | streamResumed (recipient sponsor : Address) (newEndLedger : UInt32)
  | streamCancelled (sponsor recipient : Address) (refundToSponsor releasedToRecipient : ℤ)
      (ledger : UInt32)
  | streamTransferred (currentRecipient newRecipient : Address)
  | streamClawedBack (sponsor recipient token : Address) (amountRecovered : ℤ) (ledger : UInt32)
      (reason : String)
  | streamDrained (caller recipient sponsor token : Address) (amount : ℤ)
  | emergencyDrain (recipient sponsor : Address) (amount : ℤ)
  deriving DecidableEq, Repr

end VestingDripStream.Contract.Types
