import VestingDripStream.Contract.Effects

/-! # Variable-rate streams and batches

The other two ways of `contract.rs` to create a stream.

* `create_variable_rate_stream` stores a `VariableRateSchedule` under its own key, one per
  recipient; `claim_variable_vested` pays it. `compute_variable_claimable` is defined twice, once
  with plain and once with saturating arithmetic.
* `create_batch_streams` validates a list of entries, takes the deposit of all of them at once and
  stores a fixed-rate schedule for each. The text of its second half is mixed up with the milestone
  code: the storage of an entry is the one of lines 628-657, with the ledgers computed as in
  `create_vesting_stream`.

One inversion lemma per entry point says what a successful call has checked and what it leaves in
the storages. -/

namespace VestingDripStream.Contract.VariableRate

open VestingDripStream.Lib.Checked VestingDripStream.Lib.Transaction
open VestingDripStream.Contract.Types VestingDripStream.Contract.Storage
open VestingDripStream.Contract.Schedule VestingDripStream.Contract.EntryPoints
open VestingDripStream.Contract.Effects

/-! ### Storage -/

/-- `get_variable_schedule`. -/
def getVariableSchedule (st : Storage) (recipient : Address) : Option VariableRateSchedule :=
  st.lookup (.variableSchedule recipient)

/-- `has_variable_schedule`. -/
def hasVariableSchedule (st : Storage) (recipient : Address) : Bool :=
  (getVariableSchedule st recipient).isSome

/-- `set_variable_schedule`. -/
def setVariableSchedule (st : Storage) (recipient : Address) (schedule : VariableRateSchedule) :
    Storage :=
  st.insert (.variableSchedule recipient) schedule

/-- `remove_variable_schedule`. -/
def removeVariableSchedule (st : Storage) (recipient : Address) : Storage :=
  st.erase (.variableSchedule recipient)

theorem getVariableSchedule_set (st : Storage) (r r' : Address) (v : VariableRateSchedule) :
    getVariableSchedule (setVariableSchedule st r v) r' =
      if r' = r then some v else getVariableSchedule st r' := by
  unfold getVariableSchedule setVariableSchedule
  split_ifs with h
  · subst h
    exact Finmap.lookup_insert _
  · exact Finmap.lookup_insert_of_ne _ (by simpa using h)

theorem getVariableSchedule_remove (st : Storage) (r r' : Address) :
    getVariableSchedule (removeVariableSchedule st r) r' =
      if r' = r then none else getVariableSchedule st r' := by
  unfold getVariableSchedule removeVariableSchedule
  split_ifs with h
  · subst h
    exact Finmap.lookup_erase _ _
  · exact Finmap.lookup_erase_ne (by simpa using h)

/-! ### Claimable amounts -/

/-- `compute_variable_claimable`, first definition: `total` so far, and the start of the segment. -/
def computeVariableClaimable (fromLedger toLedger : UInt32) :
    List RateSegment → ℤ → UInt32 → Except Failure ℤ
  | [], total, _ => .ok total
  | seg :: rest, total, segStart => do
    let overlapStart := max fromLedger segStart
    let overlapEnd := min toLedger seg.endLedger
    let total ← if overlapStart < overlapEnd then do
        let ledgers ← plain (plainSub overlapEnd overlapStart)
        let amount ← plain (checked (asI128 ledgers * seg.rate))
        plain (checked (total + amount))
      else .ok total
    if toLedger ≤ seg.endLedger then .ok total
    else computeVariableClaimable fromLedger toLedger rest total seg.endLedger

/-- `compute_variable_claimable`, second definition: `claimable` so far, and the end of the segment
before. -/
def computeVariableClaimableSecond (fromLedger toLedger : UInt32) :
    List RateSegment → ℤ → UInt32 → Except Failure ℤ
  | [], claimable, _ => .ok claimable
  | seg :: rest, claimable, prevEnd =>
    if seg.endLedger ≤ fromLedger then
      computeVariableClaimableSecond fromLedger toLedger rest claimable seg.endLedger
    else do
      let segStart := max prevEnd fromLedger
      let segEnd := min seg.endLedger toLedger
      let claimable ← if segStart < segEnd then do
          let duration ← plain (plainSub segEnd segStart)
          .ok (saturated (claimable + saturated (asI128 duration * seg.rate)))
        else .ok claimable
      if toLedger ≤ seg.endLedger then .ok claimable
      else computeVariableClaimableSecond fromLedger toLedger rest claimable seg.endLedger

/-- What accrued on `s` since the last claim, by the first definition. -/
def accruedVariable (s : VariableRateSchedule) (current : UInt32) : Except Failure ℤ :=
  computeVariableClaimable s.lastClaimedLedger current s.segments 0 s.startLedger

/-- What accrued on `s` since the last claim, by the second definition. -/
def accruedVariableSecond (s : VariableRateSchedule) (current : UInt32) : Except Failure ℤ :=
  computeVariableClaimableSecond s.lastClaimedLedger current s.segments 0 s.lastClaimedLedger

/-! ### The entry points on variable-rate streams -/

/-- The arguments of `create_variable_rate_stream`. -/
structure VariableArgs where
  sponsor : Address
  recipient : Address
  token : Address
  cliffDuration : UInt32
  segments : List (UInt32 × ℤ)

/-- `MAX_SEGMENTS`. -/
def maxSegments : ℕ := 10

/-- The loop of `create_variable_rate_stream` over the segments: what it stores, the end of the
stream and the deposit. -/
def addSegments : List (UInt32 × ℤ) → UInt32 → ℤ → Except Failure (List RateSegment × UInt32 × ℤ)
  | [], prevEnd, totalDeposit => .ok ([], prevEnd, totalDeposit)
  | (segEnd, rate) :: rest, prevEnd, totalDeposit =>
    if rate ≤ 0 then .error (.err .invalidSegments)
    else if segEnd ≤ prevEnd then .error (.err .invalidSegments)
    else do
      let duration ← plain (plainSub segEnd prevEnd)
      let segDeposit ← orOverflow (checked (rate * asI128 duration))
      let totalDeposit ← orOverflow (checked (totalDeposit + segDeposit))
      let (segments, endLedger, totalDeposit) ← addSegments rest segEnd totalDeposit
      .ok (⟨segEnd, rate⟩ :: segments, endLedger, totalDeposit)

/-- The schedule `create_variable_rate_stream` stores. -/
def newVariableSchedule (a : VariableArgs) (startLedger cliffLedger endLedger : UInt32)
    (segments : List RateSegment) (totalDeposit : ℤ) : VariableRateSchedule where
  token := a.token
  sponsor := a.sponsor
  startLedger := startLedger
  cliffLedger := cliffLedger
  endLedger := endLedger
  lastClaimedLedger := startLedger
  totalDeposited := totalDeposit
  claimedAmount := 0
  totalClaimed := 0
  segments := segments
  pausedAtLedger := none

/-- `create_variable_rate_stream`. -/
def createVariableRateStream (D : Deployment) (host : Host) (a : VariableArgs) : Call Unit := do
  let inst ← asks (·.inst)
  require (isInitialized inst = true) .notInitialized
  require (a.sponsor ≠ a.recipient) .invalidRecipient
  let st ← asks (·.persistent)
  require (hasVariableSchedule st a.recipient = false ∧ hasSchedule st a.recipient = false)
    .scheduleAlreadyExists
  require (a.segments.length ≠ 0 ∧ a.segments.length ≤ maxSegments) .invalidSegments
  let startLedger := host.sequence
  let cliffLedger ← compute (orOverflow (checkedAdd startLedger a.cliffDuration))
  let (segments, endLedger, totalDeposit) ← compute (addSegments a.segments startLedger 0)
  requireAuth D host a.sponsor
  tryTransfer host a.token a.sponsor D.contractAddress totalDeposit
  persist fun st => setVariableSchedule st a.recipient
    (newVariableSchedule a startLedger cliffLedger endLedger segments totalDeposit)
  emit (.variableStreamCreated a.sponsor a.recipient a.token startLedger cliffLedger endLedger
    totalDeposit)

/-- `create_variable_stream`. -/
def createVariableStream (D : Deployment) (host : Host) (a : VariableArgs) : Call Unit :=
  createVariableRateStream D host a

/-- The end of `claim_variable_vested`: the schedule is removed if it is fully claimed, else
stored. -/
def storeVariableClaim (recipient : Address) (s : VariableRateSchedule) : Call Unit :=
  if s.totalDeposited ≤ s.claimedAmount then do
    persist fun st => removeVariableSchedule st recipient
    emit (.streamCompleted recipient s.token)
  else persist fun st => setVariableSchedule st recipient s

/-- `claim_variable_vested`, by the definition `accrued` of `compute_variable_claimable`. -/
def claimVariableVestedWith (accrued : VariableRateSchedule → UInt32 → Except Failure ℤ)
    (D : Deployment) (host : Host) (recipient : Address) : Call ℤ := do
  requireAuth D host recipient
  let st ← asks (·.persistent)
  let s ← need (getVariableSchedule st recipient) (.err .scheduleNotFound)
  require (s.pausedAtLedger = none) .streamPaused
  require (s.cliffLedger ≤ host.sequence) .cliffNotReached
  let claimable ← compute
    (if s.endLedger ≤ host.sequence then plain (checked (s.totalDeposited - s.claimedAmount))
      else accrued s host.sequence)
  require (claimable ≠ 0) .nothingToClaim
  lockedTransfer D host s.token recipient claimable
  let totalClaimed ← compute (plain (checked (s.totalClaimed + claimable)))
  let claimedAmount ← compute (plain (checked (s.claimedAmount + claimable)))
  storeVariableClaim recipient
    { s with lastClaimedLedger := min host.sequence s.endLedger, totalClaimed, claimedAmount }
  emit (.variableTokensClaimed recipient claimable (min host.sequence s.endLedger))
  pure claimable

/-- `claim_variable_vested`, with the first definition of `compute_variable_claimable`. -/
def claimVariableVested : Deployment → Host → Address → Call ℤ :=
  claimVariableVestedWith accruedVariable

/-- `claim_variable_vested`, with the second definition of `compute_variable_claimable`. -/
def claimVariableVestedSecond : Deployment → Host → Address → Call ℤ :=
  claimVariableVestedWith accruedVariableSecond

/-! ### Batches -/

/-- An entry of `create_batch_streams`. -/
structure BatchEntry where
  recipient : Address
  rate : ℤ
  cliffDuration : UInt32
  totalDuration : UInt32

/-- `MAX_BATCH_SIZE`. -/
def maxBatchSize : ℕ := 20

/-- The validation loop of `create_batch_streams`, with the deposit so far. -/
def validateBatch (sponsor : Address) : List BatchEntry → ℤ → Call ℤ
  | [], totalDeposit => pure totalDeposit
  | e :: rest, totalDeposit => do
    require (e.recipient ≠ sponsor) .invalidRecipient
    require (0 < e.rate) .invalidRate
    require (e.cliffDuration < e.totalDuration) .invalidDuration
    let st ← asks (·.persistent)
    require (hasSchedule st e.recipient = false) .scheduleAlreadyExists
    let deposit ← compute (calculateTotalDeposit e.rate e.totalDuration)
    let totalDeposit ← compute (orOverflow (checked (totalDeposit + deposit)))
    validateBatch sponsor rest totalDeposit

/-- The arguments `create_vesting_stream` would have for an entry. -/
def BatchEntry.args (e : BatchEntry) (sponsor token : Address) : CreateArgs where
  sponsor := sponsor
  recipient := e.recipient
  token := token
  rate := e.rate
  cliffDuration := e.cliffDuration
  totalDuration := e.totalDuration
  metadata := none

/-- The storage of one entry. -/
def storeEntry (host : Host) (sponsor token : Address) (e : BatchEntry) : Call Unit := do
  let startLedger := host.sequence
  let cliffLedger ← compute (orOverflow (checkedAdd startLedger e.cliffDuration))
  let endLedger ← compute (orOverflow (checkedAdd startLedger e.totalDuration))
  persist fun st => setSchedule st e.recipient
    (newSchedule (e.args sponsor token) none startLedger cliffLedger endLedger)
  persist fun st => addSponsorStream st sponsor e.recipient
  let duration ← compute (plain (plainSub endLedger startLedger))
  let announced ← compute (plain (checked (asI128 duration * e.rate)))
  emit (.streamCreated sponsor e.recipient token e.rate startLedger cliffLedger endLedger
    announced none)

/-- The storage loop of `create_batch_streams`. -/
def storeBatch (host : Host) (sponsor token : Address) : List BatchEntry → Call Unit
  | [] => pure ()
  | e :: rest => do
    storeEntry host sponsor token e
    storeBatch host sponsor token rest

/-- `create_batch_streams`. -/
def createBatchStreams (D : Deployment) (host : Host) (sponsor token : Address)
    (streams : List BatchEntry) : Call Unit := do
  require (streams.length ≤ maxBatchSize) .batchTooLarge
  let totalDeposit ← validateBatch sponsor streams 0
  let inst ← asks (·.inst)
  require (getMinDeposit inst ≤ totalDeposit) .depositBelowMinimum
  requireAuth D host sponsor
  tryTransfer host token sponsor D.contractAddress totalDeposit
  storeBatch host sponsor token streams

/-! ### What they do -/

/-- A successful `create_variable_rate_stream` stores `s`. -/
structure VariableCreated (a : VariableArgs) (env env' : Env) (s : VariableRateSchedule) :
    Prop where
  initialized : isInitialized env.inst = true
  ne : a.sponsor ≠ a.recipient
  free : hasVariableSchedule env.persistent a.recipient = false
  noFixed : hasSchedule env.persistent a.recipient = false
  sponsor : s.sponsor = a.sponsor
  persistent : env'.persistent = setVariableSchedule env.persistent a.recipient s
  inst : env'.inst = env.inst

/-- A successful `claim_variable_vested` on `s` leaves `s'`, unless the stream is fully claimed. -/
structure VariablePaid (r : Address) (env env' : Env) (s s' : VariableRateSchedule) : Prop where
  live : getVariableSchedule env.persistent r = some s
  sponsor : s'.sponsor = s.sponsor
  persistent : env'.persistent =
    if s'.totalDeposited ≤ s'.claimedAmount then removeVariableSchedule env.persistent r
    else setVariableSchedule env.persistent r s'
  inst : env'.inst = env.inst

/-- The storage after the entries of a batch, one after the other. -/
inductive BatchStored (host : Host) (sponsor token : Address) :
    List BatchEntry → Storage → Storage → Prop
  | nil (st : Storage) : BatchStored host sponsor token [] st st
  | cons {e : BatchEntry} {rest : List BatchEntry} {st st' : Storage} {cliff fin : UInt32}
      (hcliff : cliff.toNat = host.sequence.toNat + e.cliffDuration.toNat)
      (hfin : fin.toNat = host.sequence.toNat + e.totalDuration.toNat)
      (h : BatchStored host sponsor token rest (addSponsorStream (setSchedule st e.recipient
        (newSchedule (e.args sponsor token) none host.sequence cliff fin)) sponsor e.recipient)
        st') :
      BatchStored host sponsor token (e :: rest) st st'

/-- What the validation loop checks of an entry. -/
structure EntryValid (st : Storage) (sponsor : Address) (e : BatchEntry) : Prop where
  ne : e.recipient ≠ sponsor
  rate_pos : 0 < e.rate
  cliff_lt : e.cliffDuration.toNat < e.totalDuration.toNat
  free : hasSchedule st e.recipient = false

/-- A successful `create_batch_streams`. -/
structure BatchCreated (host : Host) (sponsor token : Address) (streams : List BatchEntry)
    (env env' : Env) : Prop where
  valid : ∀ e ∈ streams, EntryValid env.persistent sponsor e
  stored : BatchStored host sponsor token streams env.persistent env'.persistent
  inst : env'.inst = env.inst

section Success

variable {D : Deployment} {host : Host} {env env' : Env} {sponsor token r : Address} {u : Unit}

/-- **What a successful `create_variable_rate_stream` stores.** -/
theorem createVariableRateStream_stores {a : VariableArgs}
    (h : createVariableRateStream D host a env = .ok (u, env')) :
    ∃ cliff segments fin deposit, a.segments.length ≠ 0 ∧
      cliff.toNat = host.sequence.toNat + a.cliffDuration.toNat ∧
      addSegments a.segments host.sequence 0 = .ok (segments, fin, deposit) ∧
      VariableCreated a env env'
        (newVariableSchedule a host.sequence cliff fin segments deposit) := by
  simp only [createVariableRateStream, asks_bind_ok, require_bind_ok, compute_bind_ok,
    orOverflow_ok, checkedAdd_eq_some, requireAuth_bind_ok] at h
  obtain ⟨hini, hne, ⟨hfree, hfixed⟩, hlength, cliff, hcliff, ⟨segments, fin, deposit⟩, hadd, -,
    h⟩ := h
  obtain ⟨_, e1, htr, h⟩ := bind_ok.mp h
  rw [persist_bind_ok, emit_ok] at h
  subst h
  obtain ⟨b, -, rfl⟩ := tryTransfer_ok htr
  exact ⟨cliff, segments, fin, deposit, hlength.1, hcliff, hadd, hini, hne, hfree, hfixed, rfl, rfl,
    rfl⟩

/-- What a successful `create_variable_rate_stream` does. -/
theorem createVariableRateStream_ok {a : VariableArgs}
    (h : createVariableRateStream D host a env = .ok (u, env')) :
    ∃ s, VariableCreated a env env' s :=
  let ⟨_, _, _, _, _, _, _, hs⟩ := createVariableRateStream_stores h
  ⟨_, hs⟩

theorem storeVariableClaim_ok {s : VariableRateSchedule}
    (h : storeVariableClaim r s env = .ok (u, env')) :
    env'.persistent = (if s.totalDeposited ≤ s.claimedAmount then
      removeVariableSchedule env.persistent r else setVariableSchedule env.persistent r s) ∧
      env'.inst = env.inst := by
  unfold storeVariableClaim at h
  split_ifs at h with hdone
  · rw [persist_bind_ok, emit_ok] at h
    rw [← h]
    exact ⟨(if_pos hdone).symm, rfl⟩
  · rw [persist_ok] at h
    rw [← h]
    exact ⟨(if_neg hdone).symm, rfl⟩

/-- The schedule after a claim of `amount` at `current`. -/
def afterVariableClaim (s : VariableRateSchedule) (current : UInt32) (amount : ℤ) :
    VariableRateSchedule :=
  { s with
    lastClaimedLedger := min current s.endLedger
    totalClaimed := s.totalClaimed + amount
    claimedAmount := s.claimedAmount + amount }

/-- **What a successful `claim_variable_vested` pays**, by either definition of the amount. -/
theorem claimVariableVestedWith_pays {accrued : VariableRateSchedule → UInt32 → Except Failure ℤ}
    {amount : ℤ} (h : claimVariableVestedWith accrued D host r env = .ok (amount, env')) :
    ∃ s, (if s.endLedger ≤ host.sequence then plain (checked (s.totalDeposited - s.claimedAmount))
        else accrued s host.sequence) = .ok amount ∧ amount ≠ 0 ∧
      VariablePaid r env env' s (afterVariableClaim s host.sequence amount) := by
  simp only [claimVariableVestedWith, requireAuth_bind_ok, asks_bind_ok, need_bind_ok,
    require_bind_ok, compute_bind_ok] at h
  obtain ⟨-, s, hs, -, -, claimable, hamount, hne, h⟩ := h
  obtain ⟨_, e1, hpay, h⟩ := bind_ok.mp h
  simp only [compute_bind_ok, plain_ok, checked_eq_some] at h
  obtain ⟨_, ⟨-, rfl⟩, _, ⟨-, rfl⟩, h⟩ := h
  obtain ⟨_, e2, hstore, h⟩ := bind_ok.mp h
  rw [emit_bind_ok, pure_ok] at h
  obtain ⟨rfl, rfl⟩ := h
  have hp := (lockedTransfer_ok hpay).2
  obtain ⟨hpers, hinst⟩ := storeVariableClaim_ok hstore
  rw [hp.persistent] at hpers
  exact ⟨s, hamount, hne, hs, rfl, hpers, hinst.trans hp.inst⟩

/-- What a successful `claim_variable_vested` does. -/
theorem claimVariableVestedWith_ok {accrued : VariableRateSchedule → UInt32 → Except Failure ℤ}
    {amount : ℤ} (h : claimVariableVestedWith accrued D host r env = .ok (amount, env')) :
    ∃ s s', VariablePaid r env env' s s' :=
  let ⟨_, _, _, hs⟩ := claimVariableVestedWith_pays h
  ⟨_, _, hs⟩

/-- Whose schedule a claim changes. -/
theorem VariablePaid.lookup {r r' : Address} {s s' : VariableRateSchedule}
    (h : VariablePaid r' env env' s s') : getVariableSchedule env'.persistent r =
      if r = r' then (if s'.totalDeposited ≤ s'.claimedAmount then none else some s')
      else getVariableSchedule env.persistent r := by
  rw [h.persistent]
  split_ifs <;> simp [getVariableSchedule_set, getVariableSchedule_remove, *]

theorem validateBatch_ok : ∀ {streams : List BatchEntry} {acc total : ℤ},
    validateBatch sponsor streams acc env = .ok (total, env') →
      (∀ e ∈ streams, EntryValid env.persistent sponsor e) ∧ env = env'
  | [], acc, total, h => by
    unfold validateBatch at h
    exact ⟨by simp, (pure_ok.mp h).2⟩
  | e :: rest, acc, total, h => by
    simp only [validateBatch, require_bind_ok, asks_bind_ok, compute_bind_ok] at h
    obtain ⟨hne, hrate, hlt, hfree, deposit, -, total', -, h⟩ := h
    obtain ⟨hrest, henv⟩ := validateBatch_ok h
    refine ⟨?_, henv⟩
    rintro e' (_ | ⟨_, he'⟩)
    · exact ⟨hne, hrate, UInt32.lt_iff_toNat_lt.mp hlt, hfree⟩
    · exact hrest e' he'

theorem storeBatch_ok : ∀ {streams : List BatchEntry} {env : Env},
    storeBatch host sponsor token streams env = .ok (u, env') →
      BatchStored host sponsor token streams env.persistent env'.persistent ∧ env'.inst = env.inst
  | [], env, h => by
    unfold storeBatch at h
    obtain ⟨-, rfl⟩ := pure_ok.mp h
    exact ⟨.nil _, rfl⟩
  | e :: rest, env, h => by
    unfold storeBatch at h
    obtain ⟨_, e1, he, h⟩ := bind_ok.mp h
    simp only [storeEntry, compute_bind_ok, orOverflow_ok, checkedAdd_eq_some, persist_bind_ok,
      emit_ok] at he
    obtain ⟨cliff, hcliff, fin, hfin, duration, -, announced, -, rfl⟩ := he
    obtain ⟨hrest, hinst⟩ := storeBatch_ok h
    exact ⟨.cons hcliff hfin hrest, hinst⟩

/-- **What a successful `create_batch_streams` does.** -/
theorem createBatchStreams_ok {streams : List BatchEntry}
    (h : createBatchStreams D host sponsor token streams env = .ok (u, env')) :
    BatchCreated host sponsor token streams env env' := by
  unfold createBatchStreams at h
  rw [require_bind_ok] at h
  obtain ⟨total, e1, hval, h⟩ := bind_ok.mp h.2
  obtain ⟨hvalid, rfl⟩ := validateBatch_ok hval
  simp only [asks_bind_ok, require_bind_ok, requireAuth_bind_ok] at h
  obtain ⟨-, -, h⟩ := h
  obtain ⟨_, e2, htr, h⟩ := bind_ok.mp h
  obtain ⟨b, -, rfl⟩ := tryTransfer_ok htr
  obtain ⟨hstored, hinst⟩ := storeBatch_ok h
  exact ⟨hvalid, hstored, hinst⟩

end Success

end VestingDripStream.Contract.VariableRate
