import VestingDripStream.Contract.AllRequests

/-! # Tokens that call back

A token is a contract of its own: while the vault pays it may call the entry points again, before it
lets the transfer succeed. Here `claim_vested`, `cancel_stream`, `clawback_stream`,
`drain_expired_stream` and `emergency_drain` are the transactions of `EntryPoints` with their
outbound transfers made through such a token (`payOut`), in the order of the source: what is read
before a transfer is stale after it. A token is any function on the state that does nothing but call
entry points (`Run`), to any depth.

The state is the environment with books on the streams that were created: which stream is stored
under an id, what was paid out on its behalf, and whether it is gone from the storage. The books
have no influence on the calls, and with a token that does not call back the calls are those of
`EntryPoints` (`env_reenter_quiet`). -/

namespace VestingDripStream.Contract.Reentrant

open VestingDripStream.Lib.Checked VestingDripStream.Lib.Transaction
open VestingDripStream.Contract.Types VestingDripStream.Contract.Storage
open VestingDripStream.Contract.Schedule VestingDripStream.Contract.EntryPoints
open VestingDripStream.Contract.Effects VestingDripStream.Contract.Requests
open VestingDripStream.Contract.VariableRate VestingDripStream.Contract.AllRequests

/-! ### The books -/

/-- What is known of a created stream. -/
structure Account where
  /-- `rate * (end - start)`. -/
  total : ℤ
  /-- What the contract transferred out on its behalf. -/
  out : ℤ
  /-- It was removed from the storage, or another stream took its place. -/
  gone : Bool
  deriving DecidableEq

/-- The environment of the contract, and the books. The created streams are numbered. -/
structure World where
  env : Env
  /-- The stream stored for a recipient under an id. -/
  owner : Address → UInt32 → Option ℕ
  account : ℕ → Account
  /-- The number of the next stream. -/
  next : ℕ
  /-- How many outbound transfers were made, so that a token can tell them apart. -/
  transfers : ℕ

/-- The stream `o`, or none, takes its place under `(r, k)`; a stream that was there before is
gone. -/
def World.place (w : World) (r : Address) (k : UInt32) (o : Option ℕ) : World :=
  { w with
    owner := fun r' k' => if r' = r ∧ k' = k then o else w.owner r' k'
    account := fun n =>
      if w.owner r k = some n ∧ o ≠ some n then { w.account n with gone := true } else w.account n }

/-- A new stream with the given total takes its place under id `0`. -/
def World.openAccount (w : World) (r : Address) (total : ℤ) : World :=
  World.place { w with account := Function.update w.account w.next ⟨total, 0, false⟩
                       next := w.next + 1 } r 0 (some w.next)

/-- The stream of `r` under id `0` becomes that of `r'`. -/
def World.moveAccount (w : World) (r r' : Address) : World :=
  { w with owner := fun a k =>
      if k = 0 ∧ a = r' then w.owner r 0 else if k = 0 ∧ a = r then none else w.owner a k }

/-- The amount `x` was paid out on behalf of the stream `o`. -/
def World.spend (w : World) (o : Option ℕ) (x : ℤ) : World :=
  { w with
    account := fun n => if o = some n then { w.account n with out := (w.account n).out + x }
      else w.account n
    transfers := w.transfers + 1 }

/-- The streams a call creates if it succeeds: their recipients and their totals. -/
def creations : AnyCall → List (Address × ℤ)
  | .fixed (.createVestingStream a) | .createVestingStreamWithMeta a | .createMilestoneStream a =>
    [(a.recipient, a.rate * a.totalDuration.toNat)]
  | .createBatchStreams _ _ streams =>
    streams.map fun e => (e.recipient, e.rate * e.totalDuration.toNat)
  | _ => []

/-- The entries in the books for a call that makes no outbound payment of a fixed-rate stream. -/
def World.record (call : AnyCall) (w : World) : World :=
  match call.moves with
  | some (r, r') => w.moveAccount r r'
  | none => (creations call).foldl (fun w p => w.openAccount p.1 p.2) w

/-! ### The calls -/

/-- What a token does before it lets a transfer succeed. -/
abbrev Token : Type := World → World

/-- The monad of the calls. -/
abbrev WorldCall (α : Type) : Type := Tx World Failure α

/-- A transaction on the environment. -/
def inEnv {α : Type} (x : Call α) : WorldCall α := zoom World.env (fun w env => { w with env }) x

/-- A payment of the vault on behalf of the stream `o`; the token goes first. -/
def payOut (D : Deployment) (host : Host) (token : Token) (o : Option ℕ) (asset dst : Address)
    (amount : ℤ) : WorldCall Unit := do
  update token
  inEnv (tryTransfer host asset D.contractAddress dst amount)
  update fun w => w.spend o amount

/-- A payment under the reentrancy lock. -/
def lockedPayOut (D : Deployment) (host : Host) (token : Token) (o : Option ℕ) (asset dst : Address)
    (amount : ℤ) : WorldCall Unit := do
  let inst ← asks fun w : World => w.env.inst
  ensure ((inst.lookup .lock).isNone) (.err .reentrancy)
  inEnv (configure fun st => st.insert .lock true)
  payOut D host token o asset dst amount
  inEnv (configure fun st => st.erase .lock)

/-- The transfers of a claim. -/
def payClaimOut (D : Deployment) (host : Host) (token : Token) (o : Option ℕ)
    (recipient asset : Address) (feeAmount netAmount : ℤ) : WorldCall Unit := do
  let inst ← asks fun w : World => w.env.inst
  ensure ((inst.lookup .lock).isNone) (.err .reentrancy)
  inEnv (configure fun st => st.insert .lock true)
  onlyIf (0 < feeAmount) do
    let treasury ← need (getFee inst).2 (.err .unauthorized)
    payOut D host token o asset treasury feeAmount
    inEnv (emit (.feeTaken recipient treasury feeAmount netAmount))
  payOut D host token o asset recipient netAmount
  inEnv (configure fun st => st.erase .lock)

/-- The end of the loop body of `claim_vested`, on the schedule that was read before the
transfers. -/
def storeClaimOut (o : Option ℕ) (recipient : Address) (streamId : UInt32) (s : VestingSchedule)
    (totalDeposited : ℤ) : WorldCall Unit := do
  update fun w => w.place recipient streamId (if totalDeposited ≤ s.claimedAmount then none else o)
  inEnv (storeClaim recipient streamId s totalDeposited)

/-- The loop body of `claim_vested`. -/
def claimStreamOut (D : Deployment) (host : Host) (token : Token) (recipient : Address)
    (specific : Bool) (streamId : UInt32) : WorldCall ℤ := do
  let o ← asks fun w : World => w.owner recipient streamId
  let st ← asks fun w : World => w.env.persistent
  match D.getScheduleById st recipient streamId with
  | none => do
    ensure (specific = false) (.err .scheduleNotFound)
    pure 0
  | some s => do
    match ← compute (accrue s host.sequence) with
    | .skip reason => do
      ensure (specific = false) (.err reason)
      pure 0
    | .due s totalDeposited claimable => do
      let inst ← asks fun w : World => w.env.inst
      let (feeAmount, netAmount) ← compute (feeSplit (getFee inst).1 claimable)
      payClaimOut D host token o recipient s.token feeAmount netAmount
      let s ← compute (settle s host.sequence claimable)
      storeClaimOut o recipient streamId s totalDeposited
      inEnv (emit (.tokensClaimed recipient claimable (min host.sequence s.endLedger)))
      pure claimable

/-- The loop of `claim_vested`. -/
def claimLoopOut (D : Deployment) (host : Host) (token : Token) (recipient : Address)
    (specific : Bool) : List UInt32 → ℤ → WorldCall ℤ
  | [], totalClaimed => pure totalClaimed
  | streamId :: rest, totalClaimed => do
    let claimable ← claimStreamOut D host token recipient specific streamId
    let totalClaimed ← compute (orOverflow (checked (totalClaimed + claimable)))
    claimLoopOut D host token recipient specific rest totalClaimed

/-- `claim_vested`. -/
def claimVestedOut (D : Deployment) (host : Host) (token : Token) (recipient : Address)
    (streamId : Option UInt32) : WorldCall ℤ := do
  inEnv (requireAuth D host recipient)
  let st ← asks fun w : World => w.env.persistent
  let streamIds := match streamId with
    | some k => [k]
    | none => getStreamIds st recipient
  ensure (streamIds ≠ []) (.err .scheduleNotFound)
  let totalClaimed ← claimLoopOut D host token recipient streamId.isSome streamIds 0
  ensure (totalClaimed ≠ 0) (.err .nothingToClaim)
  pure totalClaimed

/-- The end of every terminal operation. -/
def dropOut (sponsor recipient : Address) : WorldCall Unit := do
  update fun w => w.place recipient 0 none
  inEnv (dropStream sponsor recipient)

/-- `cancel_stream`. -/
def cancelStreamOut (D : Deployment) (host : Host) (token : Token) (sponsor recipient : Address)
    (streamId : UInt32) : WorldCall Unit := do
  inEnv (requireAuth D host sponsor)
  ensure (sponsor ≠ recipient) (.err .invalidRecipient)
  let o ← asks fun w : World => w.owner recipient streamId
  let st ← asks fun w : World => w.env.persistent
  let s ← need (D.getScheduleById st recipient streamId) (.err .scheduleNotFound)
  ensure (s.sponsor = sponsor) (.err .unauthorized)
  let (recipientShare, sponsorRefund) ← compute (cancelSplit s host.sequence)
  onlyIf (0 < recipientShare) (lockedPayOut D host token o s.token recipient recipientShare)
  onlyIf (0 < sponsorRefund) (lockedPayOut D host token o s.token sponsor sponsorRefund)
  dropOut sponsor recipient
  inEnv (emit (.streamCancelled sponsor recipient sponsorRefund recipientShare host.sequence))

/-- `clawback_stream`. -/
def clawbackStreamOut (D : Deployment) (host : Host) (token : Token) (sponsor recipient : Address)
    (streamId : UInt32) (reason : String) : WorldCall Unit := do
  inEnv (requireAuth D host sponsor)
  let o ← asks fun w : World => w.owner recipient streamId
  let st ← asks fun w : World => w.env.persistent
  let s ← need (D.getScheduleById st recipient streamId) (.err .scheduleNotFound)
  ensure (s.sponsor = sponsor) (.err .unauthorized)
  ensure (reason.utf8ByteSize ≤ 256) (.err .reasonTooLong)
  ensure (host.clawbackOk s.token = true) (.err .clawbackNotSupported)
  let remaining ← compute (clawbackRemaining s)
  onlyIf (0 < remaining) (payOut D host token o s.token sponsor remaining)
  dropOut sponsor recipient
  inEnv (emit (.streamClawedBack sponsor recipient s.token remaining host.sequence reason))

/-- `drain_expired_stream`. -/
def drainExpiredStreamOut (D : Deployment) (host : Host) (token : Token)
    (caller recipient : Address) : WorldCall Unit := do
  let o ← asks fun w : World => w.owner recipient 0
  let found ← inEnv (readSchedule recipient)
  let s ← need found (.err .scheduleNotFound)
  let remaining ← compute (drainRemaining s host.sequence)
  dropOut s.sponsor recipient
  onlyIf (0 < remaining) (payOut D host token o s.token s.sponsor remaining)
  inEnv (emit (.streamDrained caller recipient s.sponsor s.token remaining))

/-- `emergency_drain`. -/
def emergencyDrainOut (D : Deployment) (host : Host) (token : Token) (sponsor recipient : Address) :
    WorldCall Unit := do
  inEnv (requireAuth D host sponsor)
  let o ← asks fun w : World => w.owner recipient 0
  let found ← inEnv (readSchedule recipient)
  let s ← need found (.err .scheduleNotFound)
  ensure (s.sponsor = sponsor) (.err .unauthorized)
  let amount ← compute (emergencyAmount s host.sequence)
  onlyIf (0 < amount) (payOut D host token o s.token sponsor amount)
  dropOut sponsor recipient
  inEnv (emit (.emergencyDrain recipient sponsor amount))

/-- A call, with its result dropped. The calls that pay a fixed-rate stream meet the token. -/
def callOut (D : Deployment) (host : Host) (token : Token) : AnyCall → WorldCall Unit
  | .fixed (.claimVested recipient streamId) => do
    let _ ← claimVestedOut D host token recipient streamId
    pure ()
  | .fixed (.cancelStream sponsor recipient streamId) =>
    cancelStreamOut D host token sponsor recipient streamId
  | .fixed (.clawbackStream sponsor recipient streamId reason) =>
    clawbackStreamOut D host token sponsor recipient streamId reason
  | .fixed (.drainExpiredStream caller recipient) =>
    drainExpiredStreamOut D host token caller recipient
  | .fixed (.emergencyDrain sponsor recipient) => emergencyDrainOut D host token sponsor recipient
  | call => do
    inEnv (execAny D host call)
    update (World.record call)

/-- One request: rolled back if it fails. -/
def reenter (D : Deployment) (q : AnyRequest) (token : Token) (w : World) : World :=
  commit (callOut D q.host token q.call) w

/-! ### Tokens that do not call back -/

section Quiet

variable (D : Deployment) (host : Host) (o : Option ℕ)

theorem projects_inEnv {α : Type} (x : Call α) : Projects World.env (inEnv x) x :=
  projects_zoom (fun _ _ => rfl) x

theorem projects_inst : Projects World.env (asks fun w : World => w.env.inst : WorldCall Storage)
    (asks (·.inst)) := projects_asks Env.inst

theorem projects_persistent :
    Projects World.env (asks fun w : World => w.env.persistent : WorldCall Storage)
      (asks (·.persistent)) := projects_asks Env.persistent

theorem projects_payOut (asset dst : Address) (amount : ℤ) :
    Projects World.env (payOut D host id o asset dst amount)
      (tryTransfer host asset D.contractAddress dst amount) :=
  Projects.update_bind (fun _ => rfl) ((projects_inEnv _).then_update fun _ => rfl)

theorem projects_lockedPayOut (asset dst : Address) (amount : ℤ) :
    Projects World.env (lockedPayOut D host id o asset dst amount)
      (lockedTransfer D host asset dst amount) :=
  .bind projects_inst fun _ => .bind (projects_ensure _ _) fun _ =>
    .bind (projects_inEnv _) fun _ => .bind (projects_payOut D host o asset dst amount) fun _ =>
      projects_inEnv _

theorem projects_payClaimOut (recipient asset : Address) (fee net : ℤ) :
    Projects World.env (payClaimOut D host id o recipient asset fee net)
      (payClaim D host recipient asset fee net) := by
  refine .bind projects_inst fun inst => .bind (projects_ensure _ _) fun _ =>
    .bind (projects_inEnv _) fun _ => .bind (projects_onlyIf ?_) fun _ =>
      .bind (projects_payOut D host o asset recipient net) fun _ => projects_inEnv _
  exact .bind (projects_need _ _) fun treasury =>
    .bind (projects_payOut D host o asset treasury fee) fun _ => projects_inEnv _

theorem projects_claimStreamOut (recipient : Address) (specific : Bool) (streamId : UInt32) :
    Projects World.env (claimStreamOut D host id recipient specific streamId)
      (claimStream D host recipient specific streamId) := by
  refine .asks_bind fun o => .bind projects_persistent fun st => ?_
  cases D.getScheduleById st recipient streamId with
  | none => exact .bind (projects_ensure _ _) fun _ => projects_pure 0
  | some s =>
    refine .bind (projects_compute _) fun acc => ?_
    cases acc with
    | skip reason => exact .bind (projects_ensure _ _) fun _ => projects_pure 0
    | due s1 total claimable =>
      refine .bind projects_inst fun inst => .bind (projects_compute _) fun split => ?_
      refine .bind (projects_payClaimOut D host o recipient s1.token split.1 split.2) fun _ =>
        .bind (projects_compute _) fun s2 => .bind ?_ fun _ => .bind (projects_inEnv _) fun _ =>
          projects_pure claimable
      exact .update_bind (fun _ => rfl) (projects_inEnv _)

theorem projects_claimLoopOut (recipient : Address) (specific : Bool) :
    ∀ (ids : List UInt32) (acc : ℤ),
      Projects World.env (claimLoopOut D host id recipient specific ids acc)
        (claimLoop D host recipient specific ids acc)
  | [], acc => projects_pure acc
  | k :: ids, acc => by
    unfold claimLoopOut claimLoop
    exact .bind (projects_claimStreamOut D host recipient specific k) fun _ =>
      .bind (projects_compute _) fun _ => projects_claimLoopOut recipient specific ids _

theorem projects_claimVestedOut (recipient : Address) (streamId : Option UInt32) :
    Projects World.env (claimVestedOut D host id recipient streamId)
      (claimVested D host recipient streamId) :=
  .bind (projects_inEnv _) fun _ => .bind projects_persistent fun _ =>
    .bind (projects_ensure _ _) fun _ => .bind (projects_claimLoopOut D host recipient _ _ 0)
      fun total => .bind (projects_ensure _ _) fun _ => projects_pure total

theorem projects_dropOut (sponsor recipient : Address) :
    Projects World.env (dropOut sponsor recipient) (dropStream sponsor recipient) :=
  .update_bind (fun _ => rfl) (projects_inEnv _)

theorem projects_cancelStreamOut (sponsor r : Address) (k : UInt32) :
    Projects World.env (cancelStreamOut D host id sponsor r k)
      (cancelStream D host sponsor r k) := by
  refine .bind (projects_inEnv _) fun _ => .bind (projects_ensure _ _) fun _ =>
    .asks_bind fun o => .bind projects_persistent fun st => .bind (projects_need _ _) fun s =>
      .bind (projects_ensure _ _) fun _ => .bind (projects_compute _) fun split => ?_
  exact .bind (projects_onlyIf (projects_lockedPayOut D host o s.token r split.1)) fun _ =>
    .bind (projects_onlyIf (projects_lockedPayOut D host o s.token sponsor split.2)) fun _ =>
      .bind (projects_dropOut sponsor r) fun _ => projects_inEnv _

theorem projects_clawbackStreamOut (sponsor r : Address) (k : UInt32) (reason : String) :
    Projects World.env (clawbackStreamOut D host id sponsor r k reason)
      (clawbackStream D host sponsor r k reason) := by
  refine .bind (projects_inEnv _) fun _ => .asks_bind fun o => .bind projects_persistent fun st =>
    .bind (projects_need _ _) fun s => .bind (projects_ensure _ _) fun _ =>
      .bind (projects_ensure _ _) fun _ => .bind (projects_ensure _ _) fun _ =>
        .bind (projects_compute _) fun remaining => ?_
  exact .bind (projects_onlyIf (projects_payOut D host o s.token sponsor remaining)) fun _ =>
    .bind (projects_dropOut sponsor r) fun _ => projects_inEnv _

theorem projects_drainExpiredStreamOut (caller r : Address) :
    Projects World.env (drainExpiredStreamOut D host id caller r)
      (drainExpiredStream D host caller r) := by
  refine .asks_bind fun o => .bind (projects_inEnv _) fun found =>
    .bind (projects_need _ _) fun s => .bind (projects_compute _) fun remaining => ?_
  exact .bind (projects_dropOut s.sponsor r) fun _ =>
    .bind (projects_onlyIf (projects_payOut D host o s.token s.sponsor remaining)) fun _ =>
      projects_inEnv _

theorem projects_emergencyDrainOut (sponsor r : Address) :
    Projects World.env (emergencyDrainOut D host id sponsor r)
      (emergencyDrain D host sponsor r) := by
  refine .bind (projects_inEnv _) fun _ => .asks_bind fun o => .bind (projects_inEnv _) fun found =>
    .bind (projects_need _ _) fun s => .bind (projects_ensure _ _) fun _ =>
      .bind (projects_compute _) fun amount => ?_
  exact .bind (projects_onlyIf (projects_payOut D host o s.token sponsor amount)) fun _ =>
    .bind (projects_dropOut sponsor r) fun _ => projects_inEnv _

theorem env_record (call : AnyCall) (w : World) : (w.record call).env = w.env := by
  have hfold : ∀ (l : List (Address × ℤ)) (w : World),
      (l.foldl (fun w p => w.openAccount p.1 p.2) w).env = w.env := by
    intro l
    induction l with
    | nil => exact fun _ => rfl
    | cons p l ih => exact fun w => ih _
  unfold World.record
  split
  · rfl
  · exact hfold _ w

/-- **A token that does not call back** leaves the calls as they are. -/
theorem projects_callOut (call : AnyCall) :
    Projects World.env (callOut D host id call) (execAny D host call) := by
  have hother : Projects World.env
      (do inEnv (execAny D host call); update (World.record call) : WorldCall Unit)
      (execAny D host call) :=
    (projects_inEnv _).then_update (env_record call)
  cases call with
  | fixed base =>
    cases base with
    | claimVested r streamId =>
      exact .bind (projects_claimVestedOut D host r streamId) fun _ => projects_pure ()
    | cancelStream sponsor r k => exact projects_cancelStreamOut D host sponsor r k
    | clawbackStream sponsor r k reason =>
      exact projects_clawbackStreamOut D host sponsor r k reason
    | drainExpiredStream caller r => exact projects_drainExpiredStreamOut D host caller r
    | emergencyDrain sponsor r => exact projects_emergencyDrainOut D host sponsor r
    | _ => exact hother
  | _ => exact hother

end Quiet

/-- Requests with a token that does not call back are those of `AllRequests`. -/
theorem env_reenter_quiet (D : Deployment) (q : AnyRequest) (w : World) :
    (reenter D q id w).env = stepAny D w.env q :=
  (projects_callOut D q.host q.call).commit w

/-! ### Executions -/

/-- The entry points that take the recipient's stream through an outbound transfer. -/
inductive Paying
  | claim
  | cancel
  | clawback
  deriving DecidableEq

/-- A payment under way. -/
structure Pending where
  kind : Paying
  recipient : Address
  deriving DecidableEq

/-- What is under way while the token of a call is at work. -/
def pending : AnyCall → List Pending
  | .fixed (.claimVested recipient _) => [⟨.claim, recipient⟩]
  | .fixed (.cancelStream _ recipient _) => [⟨.cancel, recipient⟩]
  | .fixed (.clawbackStream _ recipient _ _) => [⟨.clawback, recipient⟩]
  | _ => []

/-- **Executions.** `Run D C F w w'` leads from `w` to `w'` by calls of entry points, in any order
and by anyone, while the payments `F` are under way. During the transfers of each call the token may
execute further calls, to any depth. Every call satisfies `C`. -/
inductive Run (D : Deployment) (C : List Pending → World → AnyRequest → Token → Prop) :
    List Pending → World → World → Prop
  | nil {F : List Pending} {w : World} : Run D C F w w
  | call {F : List Pending} {w w' : World} (q : AnyRequest) (token : Token)
      (before : Run D C F w w') (legal : C F w' q token)
      (during : ∀ v, Run D C (pending q.call ++ F) v (token v)) :
      Run D C F w (reenter D q token w')

/-- A contract that was just deployed, with no stream in the books. -/
def startWorld (balances : Balances) : World where
  env := emptyEnv balances
  owner _ _ := none
  account _ := ⟨0, 0, false⟩
  next := 0
  transfers := 0

/-- **Reentrancy safety**: no more was transferred out on behalf of a stream than its total, and no
stream is stored that is gone. -/
def Safe (w : World) : Prop :=
  (∀ n < w.next, (w.account n).out ≤ (w.account n).total) ∧
    ∀ r k n, w.owner r k = some n → (w.account n).gone = false

end VestingDripStream.Contract.Reentrant
