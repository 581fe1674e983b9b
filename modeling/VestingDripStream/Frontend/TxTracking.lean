import VestingDripStream.Lib.Run

/-! # The status of a transaction

`useTxStatus` submits a transaction and polls for its result. Each call of `begin` goes through the
stages of its asynchronous function; a step of the system is what happens between two of its awaits,
a click that calls `begin` or `reset` through the callbacks of some render, or a render, which takes
the phase of that moment into its callbacks.

`begin` looks at the phase of its render, and `reset` can abort a poll but no submission. So there
are two submissions at once if `begin` is called through an old render while one is in flight, and a
submission that is in flight at a `reset` is heard of afterwards. Runs without such steps are safe
(`tracked_safely`). -/

namespace VestingDripStream.Frontend.TxTracking

open VestingDripStream.Lib.Run

/-- `TxPhase`. -/
inductive TxPhase
  | idle
  | submitting
  | pending
  | confirmed
  | failed
  deriving DecidableEq, Repr

/-- `TxStatus`: what the page shows of the transaction. -/
structure TxStatus where
  phase : TxPhase
  hash : Option String
  ledger : Option ℤ
  errorMessage : Option String
  amountClaimed : Option ℤ
  deriving DecidableEq, Repr

/-- `INITIAL`. -/
def initial : TxStatus := ⟨.idle, none, none, none, none⟩

/-- `TxAction`: what the reducer takes. -/
inductive TxAction
  | submitting
  | pending (hash : String)
  | confirmed (ledger : ℤ) (amount : Option ℤ)
  | failed (message : String)
  | reset
  | recover (hash : String)

/-- `reducer`. -/
def reducer (state : TxStatus) : TxAction → TxStatus
  | .submitting => { initial with phase := .submitting }
  | .pending hash => { state with phase := .pending, hash := some hash }
  | .confirmed ledger amount =>
    { state with
      phase := .confirmed
      ledger := some ledger
      amountClaimed := amount
      errorMessage := none }
  | .failed message => { state with phase := .failed, errorMessage := some message }
  | .recover hash => { initial with phase := .pending, hash := some hash }
  | .reset => initial

/-- How `pollTransaction` ends unless it is cancelled. -/
inductive PollResult
  | success (ledger : Option ℤ)
  | failed
  | timedOut
  deriving DecidableEq, Repr

/-- Where a call stands: at `await submitFn()`, in `pollTransaction`, or with a last response (or
the end of the time) that it has not been resumed with yet. -/
inductive Stage
  | submitting
  | polling
  | polled (result : PollResult)
  | done
  deriving DecidableEq, Repr

/-- A call of `begin` that passed the guard, or of `resumePoll`. -/
structure Call where
  stage : Stage
  amount : Option ℤ
  /-- Its controller was aborted. -/
  aborted : Bool
  /-- The number of resets before it. -/
  epoch : ℕ
  deriving DecidableEq, Repr

/-- A call of a callback of the options. -/
inductive Notification
  | onSuccess (ledger : ℤ) (amount : Option ℤ)
  | onError (message : String)
  deriving DecidableEq, Repr

/-- The hook, the session storage, and the calls that were made of its functions. -/
structure State where
  status : TxStatus
  /-- The hash under `STORAGE_KEY`. -/
  storage : Option String
  /-- The phase in the callbacks of each render. -/
  renders : List TxPhase
  calls : ℕ → Option Call
  next : ℕ
  /-- The call whose controller is in `abortRef`. -/
  abortRef : Option ℕ
  /-- The number of resets. -/
  epoch : ℕ
  notified : List Notification
  /-- The hash that the effect of the mount resumes. -/
  resume : Option String

/-- What happens next: to the page, or to a promise that the call `i` awaits. -/
inductive Event
  | render
  /-- `begin` of the render `k`. -/
  | begin (k : ℕ)
  | reset
  | submitResolves (i : ℕ) (hash : String) (amount : Option ℤ)
  | submitRejects (i : ℕ) (err : String)
  | pollReturns (i : ℕ) (result : PollResult)
  | pollCancelled (i : ℕ)
  /-- The call is resumed with the result of its poll. -/
  | deliver (i : ℕ)
  /-- The effect of the mount; by then what is stored may have become too old. -/
  | mount (expired : Bool)
  | unmount

namespace State

variable (s : State)

/-- `dispatch`. -/
def dispatch (action : TxAction) : State := { s with status := reducer s.status action }

/-- The call `i` goes on. -/
def setCall (i : ℕ) (c : Call) : State := { s with calls := Function.update s.calls i (some c) }

/-- `abortRef.current?.abort()`. -/
def abort : State :=
  match s.abortRef.bind fun i => (s.calls i).map fun c => (i, c) with
  | some (i, c) => s.setCall i { c with aborted := true }
  | none => s

/-- `clearPendingTx()`. -/
def clearPendingTx : State := { s with storage := none }

/-- `savePendingTx`. -/
def savePendingTx (hash : String) : State := { s with storage := some hash }

/-- A callback of the options is called. -/
def notify (n : Notification) : State := { s with notified := s.notified ++ [n] }

/-- A new call. -/
def start (c : Call) : State := { s.setCall s.next c with next := s.next + 1 }

/-- What a failure does, in each of the functions. -/
def fail (message : String) : State := (s.dispatch (.failed message)).notify (.onError message)

end State

/-- `begin` of a render with this phase. -/
def State.begin (s : State) (phase : TxPhase) : State :=
  if phase ≠ .idle ∧ phase ≠ .failed then s
  else (s.dispatch .submitting).start ⟨.submitting, none, false, s.epoch⟩

/-- `reset`: it aborts the poll, and no submission. -/
def State.reset (s : State) : State :=
  { (s.abort.clearPendingTx.dispatch .reset) with epoch := s.epoch + 1 }

/-- What follows `await submitFn()` in the call `i`, up to the poll. -/
def State.submitted (s : State) (i : ℕ) (c : Call) (hash : String) (amount : Option ℤ) : State :=
  let s := ((s.savePendingTx hash).dispatch (.pending hash)).abort
  { s.setCall i { c with stage := .polling, amount := amount, aborted := false } with
    abortRef := some i }

/-- The call `i` is over. -/
def State.finish (s : State) (i : ℕ) (c : Call) : State := s.setCall i { c with stage := .done }

/-- `resumePoll`, up to the poll, if the hash is still in the storage. -/
def State.resumePoll (s : State) (hash : String) : State :=
  if s.storage ≠ some hash then { s with resume := none }
  else
    let s := s.abort
    { s.start ⟨.polling, none, false, s.epoch⟩ with abortRef := some s.next, resume := none }

/-- The message of a poll that took more than `POLL_TIMEOUT_MS`. -/
def timeoutMessage : String :=
  "Transaction timed out after 60 seconds. It may still confirm — check Stellar Expert."

variable (buildErrorMessage : String → String)

/-- What follows `await pollTransaction(...)`. -/
def State.afterPoll (s : State) (amount : Option ℤ) : PollResult → State
  | .success ledger =>
    (s.clearPendingTx.dispatch (.confirmed (ledger.getD 0) amount)).notify
      (.onSuccess (ledger.getD 0) amount)
  | .failed => s.clearPendingTx.fail "Transaction was rejected by the network."
  | .timedOut => s.clearPendingTx.fail (buildErrorMessage timeoutMessage)

/-- What becomes of the call that an event resumes; an event of another stage is none. -/
def State.resumed (s : State) (i : ℕ) (c : Call) : Event → State
  | .submitResolves _ hash amount =>
    if c.stage = .submitting then s.submitted i c hash amount else s
  | .submitRejects _ err =>
    if c.stage = .submitting then (s.finish i c).fail (buildErrorMessage err) else s
  | .pollReturns _ result =>
    -- a signal that is aborted makes the poll throw instead
    if c.stage = .polling ∧ c.aborted = false then s.setCall i { c with stage := .polled result }
    else s
  | .pollCancelled _ => if c.stage = .polling ∧ c.aborted = true then s.finish i c else s
  | .deliver _ =>
    match c.stage with
    | .polled result => (s.finish i c).afterPoll buildErrorMessage c.amount result
    | _ => s
  | _ => s

/-- The call that an event resumes. -/
def Event.resumes : Event → Option ℕ
  | .submitResolves i _ _ => some i
  | .submitRejects i _ => some i
  | .pollReturns i _ => some i
  | .pollCancelled i => some i
  | .deliver i => some i
  | _ => none

/-- One event; a promise settles once, in the stage that awaits it. -/
def step (s : State) (e : Event) : State :=
  match e with
  | .render => { s with renders := s.renders ++ [s.status.phase] }
  | .begin k =>
    match s.renders[k]? with
    | some phase => s.begin phase
    | none => s
  | .reset => s.reset
  | .mount expired =>
    match s.resume with
    | some hash =>
      -- `loadPendingTx` removes what is older than two minutes
      if expired then { s.clearPendingTx with resume := none } else s.resumePoll hash
    | none => s
  | .unmount => s.abort
  | e =>
    match e.resumes.bind fun i => (s.calls i).map fun c => (i, c) with
    | some (i, c) => s.resumed buildErrorMessage i c e
    | none => s

/-- A new instance: it takes up what an earlier page left in the storage. -/
def mounted (persisted : Option String) : State where
  status :=
    match persisted with
    | some hash => { initial with phase := .pending, hash := some hash }
    | none => initial
  storage := persisted
  renders := []
  calls _ := none
  next := 0
  abortRef := none
  epoch := 0
  notified := []
  -- the effect takes an empty hash for none
  resume := persisted.filter fun hash => hash ≠ ""

/-! ### What is asked of the hook -/

/-- The submission of the call `i` is in flight. -/
def InFlight (s : State) (i : ℕ) : Prop := ∃ c, s.calls i = some c ∧ c.stage = .submitting

/-- There is at most one submission. -/
def OneInFlight (s : State) : Prop := ∀ i j, InFlight s i → InFlight s j → i = j

/-- A call from before the last reset changes neither the status nor the storage, and calls nobody
back. -/
def Unheard (s : State) (e : Event) : Prop :=
  ∀ i c, e.resumes = some i → s.calls i = some c → c.epoch < s.epoch →
    (step buildErrorMessage s e).status = s.status ∧
      (step buildErrorMessage s e).storage = s.storage ∧
      (step buildErrorMessage s e).notified = s.notified

/-- There is at most one submission, and no call from before the last reset can be heard of. -/
def Safe (s : State) : Prop := OneInFlight s ∧ ∀ e, Unheard buildErrorMessage s e

/-- Nobody begins through an idle or failed render while a submission is in flight, and nobody
resets while one is, or while a poll has returned and its call is not resumed yet. -/
def Careful (s : State) : Event → Prop
  | .begin k => (s.renders[k]? = some .idle ∨ s.renders[k]? = some .failed) → ∀ i, ¬ InFlight s i
  | .reset => ∀ i c, s.calls i = some c → c.stage = .polling ∨ c.stage = .done
  | _ => True

/-! ### The invariant -/

/-- At most one submission is in flight, only the poll of `abortRef` is not aborted, and calls from
before the last reset are over, or on the way to it. -/
structure Inv (s : State) : Prop where
  one : OneInFlight s
  current : ∀ i c, s.calls i = some c → c.stage = .polling → c.aborted = false →
    s.abortRef = some i
  past : ∀ i c, s.calls i = some c → c.epoch < s.epoch →
    c.stage = .done ∨ (c.stage = .polling ∧ c.aborted = true)
  epoch_le : ∀ i c, s.calls i = some c → c.epoch ≤ s.epoch

variable {buildErrorMessage} {s s' : State}

/-- The invariant is about the calls, the controller and the number of resets. -/
theorem Inv.congr (h : Inv s) (hcalls : s'.calls = s.calls) (hcurrent : s'.abortRef = s.abortRef)
    (hepoch : s'.epoch = s.epoch) : Inv s' where
  one := by
    unfold OneInFlight InFlight
    rw [hcalls]
    exact h.one
  current := by
    rw [hcalls, hcurrent]
    exact h.current
  past := by
    rw [hcalls, hepoch]
    exact h.past
  epoch_le := by
    rw [hcalls, hepoch]
    exact h.epoch_le

/-- A call after another one was set. -/
theorem calls_setCall {i j : ℕ} {c d : Call} (h : (s.setCall i c).calls j = some d) :
    (j = i ∧ d = c) ∨ (j ≠ i ∧ s.calls j = some d) := by
  have h : Function.update s.calls i (some c) j = some d := h
  by_cases hj : j = i
  · rw [hj, Function.update_self] at h
    exact Or.inl ⟨hj, (Option.some.inj h).symm⟩
  · rw [Function.update_of_ne hj] at h
    exact Or.inr ⟨hj, h⟩

/-- A call that is looked up by a number that may be missing. -/
theorem lookup_eq_some {o : Option ℕ} {i : ℕ} {c : Call}
    (h : (o.bind fun i => (s.calls i).map fun c => (i, c)) = some (i, c)) :
    o = some i ∧ s.calls i = some c := by
  obtain ⟨j, hj, hmap⟩ := Option.bind_eq_some_iff.mp h
  obtain ⟨d, hd, hpair⟩ := Option.map_eq_some_iff.mp hmap
  obtain ⟨rfl, rfl⟩ := Prod.mk.inj hpair
  exact ⟨hj, hd⟩

/-- A call is set, and perhaps its controller becomes the current one. -/
theorem Inv.setCall (h : Inv s) {i : ℕ} {c : Call} {ref : Option ℕ}
    (hone : c.stage = .submitting → ∀ j, j ≠ i → ¬ InFlight s j)
    (hcurrent : c.stage = .polling → c.aborted = false → ref = some i)
    (hothers : ∀ j d, j ≠ i → s.calls j = some d → d.stage = .polling → d.aborted = false →
      ref = some j)
    (hpast : c.epoch < s.epoch → c.stage = .done ∨ (c.stage = .polling ∧ c.aborted = true))
    (hle : c.epoch ≤ s.epoch) : Inv { s.setCall i c with abortRef := ref } where
  one := by
    rintro j k ⟨d, hd, hstage⟩ ⟨d', hd', hstage'⟩
    rcases calls_setCall hd with ⟨rfl, rfl⟩ | ⟨hj, hold⟩
    · rcases calls_setCall hd' with ⟨rfl, -⟩ | ⟨hk, hold'⟩
      · rfl
      · exact absurd ⟨d', hold', hstage'⟩ (hone hstage k hk)
    · rcases calls_setCall hd' with ⟨rfl, rfl⟩ | ⟨-, hold'⟩
      · exact absurd ⟨d, hold, hstage⟩ (hone hstage' j hj)
      · exact h.one j k ⟨d, hold, hstage⟩ ⟨d', hold', hstage'⟩
  current := by
    intro j d hd hstage haborted
    rcases calls_setCall hd with ⟨rfl, rfl⟩ | ⟨hj, hd⟩
    · exact hcurrent hstage haborted
    · exact hothers j d hj hd hstage haborted
  past := by
    intro j d hd hlt
    rcases calls_setCall hd with ⟨-, rfl⟩ | ⟨-, hd⟩
    · exact hpast hlt
    · exact h.past j d hd hlt
  epoch_le := by
    intro j d hd
    rcases calls_setCall hd with ⟨-, rfl⟩ | ⟨-, hd⟩
    · exact hle
    · exact h.epoch_le j d hd

/-- A call goes on to a stage in which it neither submits nor polls. -/
theorem Inv.leave (h : Inv s) {i : ℕ} {c : Call} (hsubmit : c.stage ≠ .submitting)
    (hpoll : c.stage ≠ .polling) (hpast : c.epoch < s.epoch → c.stage = .done)
    (hle : c.epoch ≤ s.epoch) : Inv (s.setCall i c) :=
  h.setCall (fun hstage => absurd hstage hsubmit) (fun hstage => absurd hstage hpoll)
    (fun j d _ hd => h.current j d hd) (fun hlt => Or.inl (hpast hlt)) hle

/-! ### Aborting -/

/-- A call after the current controller was aborted. -/
theorem calls_abort {j : ℕ} {d : Call} (h : s.abort.calls j = some d) :
    ∃ c, s.calls j = some c ∧ d.stage = c.stage ∧ d.epoch = c.epoch ∧
      (d.aborted = false → c.aborted = false ∧ s.abortRef ≠ some j) := by
  unfold State.abort at h
  split at h
  · rename_i i c heq
    obtain ⟨hi, hc⟩ := lookup_eq_some heq
    rcases calls_setCall h with ⟨rfl, rfl⟩ | ⟨hj, hd⟩
    · exact ⟨c, hc, rfl, rfl, fun haborted => absurd haborted Bool.false_ne_true.symm⟩
    · refine ⟨d, hd, rfl, rfl, fun haborted => ⟨haborted, fun href => ?_⟩⟩
      exact hj (Option.some.inj (href.symm.trans hi))
  · rename_i hnone
    refine ⟨d, h, rfl, rfl, fun haborted => ⟨haborted, fun href => ?_⟩⟩
    rw [href, Option.bind_some, h, Option.map_some] at hnone
    exact Option.some_ne_none _ hnone

@[simp] theorem abort_epoch (s : State) : s.abort.epoch = s.epoch := by
  unfold State.abort
  split <;> rfl

@[simp] theorem abort_next (s : State) : s.abort.next = s.next := by
  unfold State.abort
  split <;> rfl

/-- A call in flight was so before. -/
theorem inFlight_abort {i : ℕ} (h : InFlight s.abort i) : InFlight s i := by
  obtain ⟨d, hd, hstage⟩ := h
  obtain ⟨c, hc, hsame, -⟩ := calls_abort hd
  exact ⟨c, hc, hsame ▸ hstage⟩

/-- No poll goes on. -/
theorem Inv.aborted (h : Inv s) {i : ℕ} {d : Call} (hd : s.abort.calls i = some d)
    (hstage : d.stage = .polling) : d.aborted = true := by
  obtain ⟨c, hc, hsame, -, hlive⟩ := calls_abort hd
  by_contra hfalse
  obtain ⟨haborted, href⟩ := hlive (Bool.eq_false_iff.mpr hfalse)
  exact href (h.current i c hc (hsame ▸ hstage) haborted)

theorem Inv.abort (h : Inv s) : Inv s.abort where
  one i j hi hj := h.one i j (inFlight_abort hi) (inFlight_abort hj)
  current i d hd hstage haborted := by
    rw [h.aborted hd hstage] at haborted
    exact absurd haborted.symm Bool.false_ne_true
  past i d hd hlt := by
    obtain ⟨c, hc, hsame, hepoch, -⟩ := calls_abort hd
    rw [abort_epoch, hepoch] at hlt
    rcases h.past i c hc hlt with hdone | ⟨hpolling, -⟩
    · exact Or.inl (hsame.trans hdone)
    · exact Or.inr ⟨hsame.trans hpolling, h.aborted hd (hsame.trans hpolling)⟩
  epoch_le i d hd := by
    obtain ⟨c, hc, -, hepoch, -⟩ := calls_abort hd
    rw [hepoch, abort_epoch]
    exact h.epoch_le i c hc

/-! ### Steps -/

/-- Behind a poll neither the calls nor the controller change. -/
theorem Inv.afterPoll (h : Inv s) (amount : Option ℤ) (result : PollResult) :
    Inv (s.afterPoll buildErrorMessage amount result) := by
  cases result with
  | success ledger => exact h.congr rfl rfl rfl
  | failed => exact h.congr rfl rfl rfl
  | timedOut => exact h.congr rfl rfl rfl

/-- A call that goes on is not from before the last reset. -/
theorem Inv.epoch_eq (h : Inv s) {i : ℕ} {c : Call} (hc : s.calls i = some c)
    (hdone : c.stage ≠ .done) (hlive : c.stage ≠ .polling ∨ c.aborted = false) :
    c.epoch = s.epoch := by
  have hle := h.epoch_le i c hc
  by_contra hne
  rcases h.past i c hc (by omega) with hstage | ⟨hstage, haborted⟩
  · exact hdone hstage
  · rcases hlive with hlive | hlive
    · exact hlive hstage
    · rw [haborted] at hlive
      exact Bool.false_ne_true hlive.symm

theorem Inv.begin (h : Inv s) {phase : TxPhase}
    (hnone : phase = .idle ∨ phase = .failed → ∀ i, ¬ InFlight s i) : Inv (s.begin phase) := by
  unfold State.begin
  split_ifs with hrefused
  · exact h
  · have hfree : ∀ i, ¬ InFlight s i := by
      refine hnone ?_
      rcases not_and_or.mp hrefused with hidle | hfailed
      · exact Or.inl (not_not.mp hidle)
      · exact Or.inr (not_not.mp hfailed)
    have hset : Inv { s.setCall s.next ⟨.submitting, none, false, s.epoch⟩ with
        abortRef := s.abortRef } :=
      h.setCall (fun _ j _ => hfree j) (fun hstage => by cases hstage)
        (fun j d _ hd => h.current j d hd) (fun hlt => absurd hlt (lt_irrefl _)) le_rfl
    exact hset.congr rfl rfl rfl

/-- A reset ends all calls that poll. -/
theorem Inv.reset (h : Inv s)
    (hcalls : ∀ i c, s.calls i = some c → c.stage = .polling ∨ c.stage = .done) :
    Inv s.reset where
  one := h.abort.one
  current := h.abort.current
  past i d hd _ := by
    obtain ⟨c, hc, hsame, -, -⟩ := calls_abort hd
    rcases hcalls i c hc with hpolling | hdone
    · exact Or.inr ⟨hsame.trans hpolling, h.aborted hd (hsame.trans hpolling)⟩
    · exact Or.inl (hsame.trans hdone)
  epoch_le i d hd := by
    obtain ⟨c, hc, -, hepoch, -⟩ := calls_abort hd
    have hle := h.epoch_le i c hc
    show d.epoch ≤ s.epoch + 1
    omega

/-- Once the controller is aborted, a call may poll with a new one. -/
theorem Inv.poll (h : Inv s) {i : ℕ} {c : Call} (hstage : c.stage = .polling)
    (hepoch : c.epoch = s.epoch) : Inv { s.abort.setCall i c with abortRef := some i } := by
  refine h.abort.setCall (fun hsubmit => ?_) (fun _ _ => rfl) ?_ ?_ ?_
  · rw [hstage] at hsubmit
    cases hsubmit
  · intro j d _ hd hpolling haborted
    rw [h.aborted hd hpolling] at haborted
    exact absurd haborted.symm Bool.false_ne_true
  · intro hlt
    rw [abort_epoch, hepoch] at hlt
    exact absurd hlt (lt_irrefl _)
  · rw [abort_epoch, hepoch]

theorem Inv.finish (h : Inv s) {i : ℕ} {c : Call} (hc : s.calls i = some c) :
    Inv (s.finish i c) :=
  h.leave (fun heq => by cases heq) (fun heq => by cases heq) (fun _ => rfl) (h.epoch_le i c hc)

theorem Inv.resumePoll (h : Inv s) (hash : String) : Inv (s.resumePoll hash) := by
  unfold State.resumePoll
  split_ifs
  · exact h.congr rfl rfl rfl
  · have hpoll := h.poll (i := s.abort.next) (c := ⟨.polling, none, false, s.abort.epoch⟩) rfl
      (abort_epoch s)
    exact hpoll.congr rfl rfl rfl

/-- A call is resumed. -/
theorem Inv.resumed (h : Inv s) {i : ℕ} {c : Call} (hc : s.calls i = some c) (e : Event) :
    Inv (s.resumed buildErrorMessage i c e) := by
  unfold State.resumed
  split
  · split_ifs with hstage
    · have hbase : ∀ hash, Inv ((s.savePendingTx hash).dispatch (.pending hash)) :=
        fun hash => h.congr rfl rfl rfl
      have hepoch := h.epoch_eq hc (by rw [hstage]; decide) (Or.inl (by rw [hstage]; decide))
      exact (hbase _).poll rfl hepoch
    · exact h
  · split_ifs
    · exact (h.finish hc).congr rfl rfl rfl
    · exact h
  · split_ifs with hpolling
    · obtain ⟨hstage, haborted⟩ := hpolling
      have hepoch := h.epoch_eq hc (by rw [hstage]; decide) (Or.inr haborted)
      exact h.leave (fun heq => by cases heq) (fun heq => by cases heq)
        (fun hlt => absurd hlt (hepoch ▸ lt_irrefl _)) hepoch.le
    · exact h
  · split_ifs
    · exact h.finish hc
    · exact h
  · split
    · exact (h.finish hc).afterPoll _ _
    · exact h
  · exact h

/-- **A careful step** keeps the invariant. -/
theorem Inv.step (h : Inv s) {e : Event} (hcareful : Careful s e) :
    Inv (step buildErrorMessage s e) := by
  unfold TxTracking.step
  split
  · exact h.congr rfl rfl rfl
  · split
    · rename_i k phase hphase
      refine h.begin fun hopen => hcareful ?_
      rw [hphase]
      rcases hopen with rfl | rfl
      · exact Or.inl rfl
      · exact Or.inr rfl
    · exact h
  · exact h.reset hcareful
  · split
    · split_ifs
      · exact h.congr rfl rfl rfl
      · exact h.resumePoll _
    · exact h
  · exact h.abort
  · split
    · rename_i i c heq
      exact h.resumed (lookup_eq_some heq).2 _
    · exact h

/-! ### What is heard of a call -/

theorem step_resumes {e : Event} {i : ℕ} {c : Call} (he : e.resumes = some i)
    (hc : s.calls i = some c) :
    step buildErrorMessage s e = s.resumed buildErrorMessage i c e := by
  unfold step
  split
  · cases he
  · cases he
  · cases he
  · cases he
  · cases he
  · rw [he, Option.bind_some, hc, Option.map_some]

/-- **Nothing is heard** of calls from before the last reset. -/
theorem Inv.unheard (h : Inv s) (e : Event) : Unheard buildErrorMessage s e := by
  intro i c he hc hlt
  rw [step_resumes he hc]
  unfold State.resumed
  rcases h.past i c hc hlt with hstage | ⟨hstage, haborted⟩
  · rw [hstage]
    split <;> exact ⟨rfl, rfl, rfl⟩
  · rw [hstage, haborted]
    split <;> exact ⟨rfl, rfl, rfl⟩

/-- Calls have numbers below the next one. -/
def Fresh (s : State) : Prop := ∀ i c, s.calls i = some c → i < s.next

theorem Fresh.setCall (h : Fresh s) {i : ℕ} {c : Call} (hi : i < s.next) :
    Fresh (s.setCall i c) := by
  intro j d hd
  rcases calls_setCall hd with ⟨rfl, -⟩ | ⟨-, hd⟩
  · exact hi
  · exact h j d hd

theorem Fresh.abort (h : Fresh s) : Fresh s.abort := by
  intro j d hd
  obtain ⟨c, hc, -⟩ := calls_abort hd
  rw [abort_next]
  exact h j c hc

theorem Fresh.start (h : Fresh s) (c : Call) : Fresh (s.start c) := by
  intro j d hd
  rcases calls_setCall hd with ⟨rfl, -⟩ | ⟨-, hd⟩
  · exact Nat.lt_succ_self _
  · exact (h j d hd).trans (Nat.lt_succ_self _)

theorem Fresh.resumed (h : Fresh s) {i : ℕ} {c : Call} (hc : s.calls i = some c) (e : Event) :
    Fresh (s.resumed buildErrorMessage i c e) := by
  have hi := h i c hc
  unfold State.resumed
  split
  · split_ifs
    · rename_i hash amount _
      have hbase : Fresh ((s.savePendingTx hash).dispatch (.pending hash)) := h
      refine hbase.abort.setCall ?_
      rw [abort_next]
      exact hi
    · exact h
  · split_ifs
    · exact h.setCall hi
    · exact h
  · split_ifs
    · exact h.setCall hi
    · exact h
  · split_ifs
    · exact h.setCall hi
    · exact h
  · split
    · rename_i result _
      cases result with
      | success ledger => exact h.setCall hi
      | failed => exact h.setCall hi
      | timedOut => exact h.setCall hi
    · exact h
  · exact h

theorem Fresh.step (h : Fresh s) (e : Event) : Fresh (step buildErrorMessage s e) := by
  unfold TxTracking.step
  split
  · exact h
  · split
    · unfold State.begin
      split_ifs
      · exact h
      · exact Fresh.start (s := s.dispatch .submitting) h _
    · exact h
  · exact h.abort
  · split
    · unfold State.resumePoll
      split_ifs
      · exact h
      · exact h
      · exact h.abort.start _
    · exact h
  · exact h.abort
  · split
    · rename_i i c heq
      exact h.resumed (lookup_eq_some heq).2 _
    · exact h

/-! ### Runs -/

/-- Calls survive an abort. -/
theorem exists_calls_abort {i : ℕ} {c : Call} (hc : s.calls i = some c) :
    ∃ d, s.abort.calls i = some d ∧ d.stage = c.stage ∧ d.epoch = c.epoch := by
  unfold State.abort
  split
  · rename_i j b heq
    by_cases hij : i = j
    · subst hij
      obtain rfl := Option.some.inj ((lookup_eq_some heq).2.symm.trans hc)
      exact ⟨_, Function.update_self _ _ _, rfl, rfl⟩
    · exact ⟨c, (Function.update_of_ne hij _ _).trans hc, rfl, rfl⟩
  · exact ⟨c, hc, rfl, rfl⟩

/-- The end of a poll is told. -/
theorem afterPoll_notified (amount : Option ℤ) (result : PollResult) :
    ∃ n, (s.afterPoll buildErrorMessage amount result).notified = s.notified ++ [n] := by
  cases result with
  | success ledger => exact ⟨_, rfl⟩
  | failed => exact ⟨_, rfl⟩
  | timedOut => exact ⟨_, rfl⟩

/-- The next completion of a call that submits or is to be resumed is told. -/
theorem exists_heard {i : ℕ} {c : Call} (hc : s.calls i = some c) (hpolling : c.stage ≠ .polling)
    (hdone : c.stage ≠ .done) :
    ∃ e n, e.resumes = some i ∧
      (step buildErrorMessage s e).notified = s.notified ++ [n] := by
  cases hstage : c.stage with
  | submitting =>
    refine ⟨.submitRejects i "", .onError (buildErrorMessage ""), rfl, ?_⟩
    rw [step_resumes rfl hc]
    simp only [State.resumed, if_pos hstage]
    rfl
  | polling => exact absurd hstage hpolling
  | polled result =>
    obtain ⟨n, hn⟩ : ∃ n, ((s.finish i c).afterPoll buildErrorMessage c.amount result).notified =
        s.notified ++ [n] := afterPoll_notified _ _
    refine ⟨.deliver i, n, rfl, ?_⟩
    rw [step_resumes rfl hc]
    unfold State.resumed
    rw [hstage]
    exact hn
  | done => exact absurd hstage hdone

/-- A call that begins through an idle or failed render is in flight beside those that are. -/
theorem not_oneInFlight_begin (hfresh : Fresh s) {phase : TxPhase}
    (hopen : phase = .idle ∨ phase = .failed) {i : ℕ} (hi : InFlight s i) :
    ¬ OneInFlight (s.begin phase) := by
  intro hone
  obtain ⟨c, hc, hstage⟩ := hi
  have hne : i ≠ s.next := (hfresh i c hc).ne
  unfold State.begin at hone
  have hpassed : ¬ (phase ≠ .idle ∧ phase ≠ .failed) := by
    rcases hopen with rfl | rfl <;> decide
  rw [if_neg hpassed] at hone
  refine hne (hone i s.next ⟨c, ?_, hstage⟩ ⟨_, Function.update_self _ _ _, rfl⟩)
  exact (Function.update_of_ne hne _ _).trans hc

/-- **Only careful steps** are safe. -/
theorem careful_of_safe (hinv : Inv s) (hfresh : Fresh s) {e : Event}
    (hsafe : Safe buildErrorMessage (step buildErrorMessage s e)) : Careful s e := by
  cases e with
  | begin k =>
    intro hphase i hi
    obtain ⟨phase, hopen, hk⟩ : ∃ phase, (phase = TxPhase.idle ∨ phase = .failed) ∧
        s.renders[k]? = some phase := by
      rcases hphase with hk | hk
      · exact ⟨_, Or.inl rfl, hk⟩
      · exact ⟨_, Or.inr rfl, hk⟩
    refine not_oneInFlight_begin hfresh hopen hi ?_
    have hone := hsafe.1
    unfold step at hone
    simpa only [hk] using hone
  | reset =>
    intro i c hc
    obtain ⟨d, hd, hstage, hepoch⟩ := exists_calls_abort hc
    by_contra hgoes
    obtain ⟨hpolling, hdone⟩ := not_or.mp hgoes
    obtain ⟨e, n, he, htold⟩ : ∃ e n, e.resumes = some i ∧
        (step buildErrorMessage s.reset e).notified = s.reset.notified ++ [n] :=
      exists_heard (s := s.reset) hd (hstage ▸ hpolling) (hstage ▸ hdone)
    have hlt : d.epoch < s.epoch + 1 := by
      have hle := hinv.epoch_le i c hc
      omega
    have hsilent := (hsafe.2 e i d he hd hlt).2.2
    have hsame : s.reset.notified ++ [n] = s.reset.notified := htold.symm.trans hsilent
    simp at hsame
  | _ => trivial

theorem mounted_inv (persisted : Option String) : Inv (mounted persisted) where
  one := by
    rintro i j ⟨c, hc, -⟩
    cases hc
  current := by
    intro i c hc
    cases hc
  past := by
    intro i c hc
    cases hc
  epoch_le := by
    intro i c hc
    cases hc

theorem mounted_fresh (persisted : Option String) : Fresh (mounted persisted) := by
  intro i c hc
  cases hc

/-- **Exactly the careful runs** are tracked safely. -/
theorem tracked_safely (buildErrorMessage : String → String) (persisted : Option String)
    (l : List Event) :
    AllStates (step buildErrorMessage) (Safe buildErrorMessage) (mounted persisted) l ↔
      AllSteps (step buildErrorMessage) Careful (mounted persisted) l :=
  allStates_iff_of_inv (fun _ (h : Inv _ ∧ Fresh _) => ⟨h.1.one, h.1.unheard⟩)
    (fun _ e h hcareful => ⟨h.1.step hcareful, h.2.step e⟩)
    (fun _ _ h hsafe => careful_of_safe h.1 h.2 hsafe)
    ⟨mounted_inv persisted, mounted_fresh persisted⟩

/-- A double click before the next render. -/
def doubleClick : List Event := [.render, .begin 0, .begin 0]

/-- A reset while the wallet signs. -/
def resetWhileSigning : List Event := [.render, .begin 0, .reset]

/-- **Two submissions** from a double click; and after a reset, the hash of the submission from
before it makes the status pending and is stored. -/
theorem begun_twice_and_heard_after_reset :
    ¬ AllStates (step id) OneInFlight (mounted none) doubleClick ∧
    ¬ AllStates (step id) (fun s => ∀ e, Unheard id s e) (mounted none) resetWhileSigning ∧
    (run (step id) (mounted none) resetWhileSigning).status = initial ∧
    (run (step id) (mounted none)
      (resetWhileSigning ++ [.submitResolves 0 "hash" none])).status.phase = .pending ∧
    (run (step id) (mounted none)
      (resetWhileSigning ++ [.submitResolves 0 "hash" none])).storage = some "hash" := by
  refine ⟨fun h => ?_, fun h => ?_, rfl, rfl, rfl⟩
  · have hone := h.last 0 1 ⟨_, rfl, rfl⟩ ⟨_, rfl, rfl⟩
    exact absurd hone (by decide)
  · have hunheard := h.last (.submitResolves 0 "hash" none) 0 _ rfl rfl (by decide)
    exact absurd hunheard.2.1 (by decide)

end VestingDripStream.Frontend.TxTracking
