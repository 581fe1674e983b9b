import VestingDripStream.Lib.Lease
import VestingDripStream.Lib.Run

/-! # The notification job

`notificationJob.js`: every replica runs `processNotifications` on a schedule. It takes a lock in
Redis (`SET NX EX 240`), reads the current ledger and the streams with a cliff or an end within the
lead time, notifies their owners one by one, and deletes the lock.

The runs of the job interleave with each other and with time. What the RPC, the webhooks and the
mailer answer are fields of the actions; the retries of a webhook end in one answer. -/

namespace VestingDripStream.Backend.Notifications

open VestingDripStream.Lib.Lease VestingDripStream.Lib.Run

/-- The seconds in `EX: 240`. -/
def lockTtl : ℕ := 240

/-- A row of `streams`, as far as the job reads it; an empty email or URL is `none`. -/
structure StreamRow where
  id : String
  cliffLedger : ℕ
  endLedger : ℕ
  email : Option String
  webhookUrl : Option String
  notifyEmail : Bool
  notifyWebhook : Bool
  notifyOptOut : Bool
  deriving DecidableEq, Repr

/-- `EventType`: what an owner is told of. -/
inductive EventType
  | cliffReached
  | streamCompleted
  deriving DecidableEq, Repr

/-- How a message is sent. -/
inductive Channel
  | webhook
  | email
  deriving DecidableEq, Repr

/-- A message, with the run that sent it and the ledger it names. -/
structure Message where
  job : ℕ
  streamId : String
  channel : Channel
  event : EventType
  currentLedger : ℕ
  eventLedger : ℕ
  deriving DecidableEq, Repr

section Dispatch

variable (leadTime : ℕ)

/-- `BETWEEN $1 AND $2` -/
def Upcoming (currentLedger ledger : ℕ) : Prop :=
  currentLedger ≤ ledger ∧ ledger ≤ currentLedger + leadTime

instance (currentLedger ledger : ℕ) : Decidable (Upcoming leadTime currentLedger ledger) := by
  unfold Upcoming; infer_instance

/-- `fetchUpcomingNotifications`, with its `ORDER BY cliff_ledger, end_ledger`. -/
def fetchUpcomingNotifications (rows : List StreamRow) (currentLedger : ℕ) : List StreamRow :=
  (rows.filter fun row => row.notifyOptOut = false ∧
    (Upcoming leadTime currentLedger row.cliffLedger ∨
      Upcoming leadTime currentLedger row.endLedger)).mergeSort fun a b =>
    a.cliffLedger < b.cliffLedger ∨ (a.cliffLedger = b.cliffLedger ∧ a.endLedger ≤ b.endLedger)

/-- `cliffDistance` and `endDistance`; infinite for a ledger that is not ahead. -/
def distance (currentLedger ledger : ℕ) : WithTop ℕ :=
  if currentLedger < ledger then ((ledger - currentLedger : ℕ) : WithTop ℕ) else ⊤

/-- The event of the message: the nearer one, the cliff if both are as near. -/
def eventOf (row : StreamRow) (currentLedger : ℕ) : EventType :=
  if distance currentLedger row.cliffLedger ≤ distance currentLedger row.endLedger then .cliffReached
  else .streamCompleted

/-- The ledger of that event. -/
def eventLedgerOf (row : StreamRow) (currentLedger : ℕ) : ℕ :=
  match eventOf row currentLedger with
  | .cliffReached => row.cliffLedger
  | .streamCompleted => row.endLedger

/-- `dispatchNotification`: what it sends. A webhook that fails throws, as does the mailer without
its key. -/
def dispatchNotification (job : ℕ) (row : StreamRow) (currentLedger : ℕ) (hasKey webhookOk : Bool) :
    List Message :=
  let message (channel : Channel) : Message :=
    ⟨job, row.id, channel, eventOf row currentLedger, currentLedger, eventLedgerOf row currentLedger⟩
  let viaWebhook := row.notifyWebhook && row.webhookUrl.isSome
  let viaEmail := row.notifyEmail && row.email.isSome
  (if viaWebhook then [message .webhook] else []) ++
    if (viaWebhook → webhookOk) ∧ viaEmail ∧ hasKey then [message .email] else []

end Dispatch

/-! ### Steps -/

/-- The ledger that a run of the job has read, and the streams that it still has to notify. -/
structure Progress where
  currentLedger : ℕ
  queue : List StreamRow
  deriving DecidableEq, Repr

/-- The lock in Redis, what the runs of the job have left to do, and all messages so far. -/
structure World where
  lock : Lock
  progress : ℕ → Option Progress
  log : List Message

/-- The lock is free, and nothing was sent. -/
def World.init : World := ⟨Lock.init, fun _ => none, []⟩

/-- What happens next; `i` is the number of a run of the job. -/
inductive Action
  /-- The schedule fires on a replica. -/
  | fire
  | fetched (i currentLedger : ℕ) (rows : List StreamRow)
  | dispatched (i : ℕ) (webhookOk : Bool)
  /-- The `finally`, after the last stream or an error. -/
  | finished (i : ℕ)
  | crashed (i : ℕ)
  | wait (seconds : ℕ)
  deriving DecidableEq, Repr

/-- The run `i` has the lock and works. -/
def World.Works (w : World) (i : ℕ) : Prop := i ∈ w.lock.working.map Prod.fst

instance (w : World) (i : ℕ) : Decidable (w.Works i) := by unfold World.Works; infer_instance

section Steps

variable (leadTime : ℕ) (hasKey : Bool)

/-- One step; a run that does not work does nothing. -/
def step (w : World) : Action → World
  | .fire => { w with lock := w.lock.acquire lockTtl }
  | .fetched i currentLedger rows =>
    if w.Works i ∧ w.progress i = none then
      { w with
        progress := Function.update w.progress i
          (some ⟨currentLedger, fetchUpcomingNotifications leadTime rows currentLedger⟩) }
    else w
  | .dispatched i webhookOk =>
    match w.progress i with
    | some ⟨currentLedger, row :: rest⟩ =>
      if w.Works i then
        { w with
          progress := Function.update w.progress i (some ⟨currentLedger, rest⟩)
          log := w.log ++ dispatchNotification i row currentLedger hasKey webhookOk }
      else w
    | _ => w
  | .finished i => { w with lock := w.lock.release i }
  | .crashed i => { w with lock := w.lock.crash i }
  | .wait seconds => { w with lock := w.lock.wait seconds }

end Steps

/-! ### One run at a time -/

section Exclusive

variable {leadTime : ℕ} {hasKey : Bool} {w : World}

/-- Nobody asks for the lock when a run of the job is in its fifth minute. -/
def FiresInTime (w : World) (a : Action) : Prop := a = .fire → w.lock.InTime lockTtl

/-- The lock after a step. -/
theorem lock_step (w : World) (a : Action) : (step leadTime hasKey w a).lock =
    match a with
    | .fire => w.lock.acquire lockTtl
    | .finished i => w.lock.release i
    | .crashed i => w.lock.crash i
    | .wait seconds => w.lock.wait seconds
    | _ => w.lock := by
  cases a with
  | fetched i currentLedger rows =>
    simp only [step]
    split_ifs <;> rfl
  | dispatched i webhookOk =>
    simp only [step]
    split
    · split_ifs <;> rfl
    · rfl
  | _ => rfl

theorem guarded_step {a : Action} (h : w.lock.Guarded lockTtl) (ha : FiresInTime w a) :
    (step leadTime hasKey w a).lock.Guarded lockTtl := by
  rw [lock_step]
  cases a with
  | fire => exact guarded_acquire h (ha rfl)
  | fetched i currentLedger rows => exact h
  | dispatched i webhookOk => exact h
  | finished i => exact guarded_release h
  | crashed i => exact guarded_crash h
  | wait seconds => exact guarded_wait h

theorem firesInTime_of_exclusive {a : Action} (h : w.lock.Guarded lockTtl)
    (hone : (step leadTime hasKey w a).lock.Exclusive) : FiresInTime w a := by
  rintro rfl
  rw [lock_step] at hone
  exact exclusive_acquire h hone

/-- The messages stand in the order of the runs that sent them, and no run that works comes before
one of them. -/
structure InBlocks (w : World) : Prop where
  guarded : w.lock.Guarded lockTtl
  numbered : w.lock.Numbered
  sorted : w.log.Pairwise fun a b => a.job ≤ b.job
  sent : ∀ m ∈ w.log, m.job < w.lock.next
  working : ∀ m ∈ w.log, ∀ i, w.Works i → m.job ≤ i

theorem job_of_mem_dispatch {i currentLedger : ℕ} {row : StreamRow} {webhookOk : Bool} {m : Message}
    (h : m ∈ dispatchNotification i row currentLedger hasKey webhookOk) : m.job = i := by
  unfold dispatchNotification at h
  rcases List.mem_append.mp h with h | h
  · split_ifs at h
    · rw [List.mem_singleton.mp h]
    · cases h
  · split_ifs at h
    · rw [List.mem_singleton.mp h]
    · cases h

theorem works_filter {k : Lock} {i j : ℕ}
    (h : j ∈ (k.working.filter (·.1 ≠ i)).map Prod.fst) : j ∈ k.working.map Prod.fst := by
  obtain ⟨p, hp, rfl⟩ := List.mem_map.mp h
  exact List.mem_map_of_mem (List.mem_filter.mp hp).1

/-- A step that leaves the log. -/
theorem InBlocks.lock {k : Lock} (h : InBlocks w) (hg : k.Guarded lockTtl) (hn : k.Numbered)
    (hnext : w.lock.next ≤ k.next)
    (hworks : ∀ i, i ∈ k.working.map Prod.fst → w.Works i ∨ w.lock.next ≤ i) :
    InBlocks { w with lock := k } := by
  refine ⟨hg, hn, h.sorted, fun m hm => ?_, fun m hm i hi => ?_⟩
  · exact lt_of_lt_of_le (h.sent m hm) hnext
  · rcases hworks i hi with hi | hi
    · exact h.working m hm i hi
    · have hlt := h.sent m hm
      omega

theorem works_acquire {k : Lock} {ttl i : ℕ} (h : i ∈ (k.acquire ttl).working.map Prod.fst) :
    i ∈ k.working.map Prod.fst ∨ k.next ≤ i := by
  unfold Lock.acquire at h
  split_ifs at h
  · rw [List.map_append, List.mem_append] at h
    rcases h with h | h
    · exact Or.inl h
    · rw [List.mem_singleton.mp h]
      exact Or.inr le_rfl
  · exact Or.inl h

theorem inBlocks_step {a : Action} (h : InBlocks w) (ha : FiresInTime w a) :
    InBlocks (step leadTime hasKey w a) := by
  have hg : (step leadTime hasKey w a).lock.Guarded lockTtl := guarded_step h.guarded ha
  rw [lock_step] at hg
  cases a with
  | fire =>
    refine h.lock hg (numbered_acquire h.numbered) ?_ fun i hi => works_acquire hi
    unfold Lock.acquire
    split_ifs <;> simp
  | fetched i currentLedger rows =>
    simp only [step]
    split_ifs
    · exact ⟨h.guarded, h.numbered, h.sorted, h.sent, h.working⟩
    · exact h
  | dispatched i webhookOk =>
    simp only [step]
    split
    · next currentLedger row rest hp =>
      split_ifs with hi
      · have hnew := fun m (hm : m ∈ dispatchNotification i row currentLedger hasKey webhookOk) =>
          job_of_mem_dispatch hm
        obtain ⟨p, hp, hpi⟩ := List.mem_map.mp hi
        refine ⟨h.guarded, h.numbered, ?_, fun m hm => ?_, fun m hm j hj => ?_⟩
        · refine List.pairwise_append.mpr ⟨h.sorted, ?_, fun m hm m' hm' => ?_⟩
          · exact List.pairwise_of_forall_mem_list fun m hm m' hm' => by
              rw [hnew m hm, hnew m' hm']
          · rw [hnew m' hm']
            exact h.working m hm i hi
        · rcases List.mem_append.mp hm with hm | hm
          · exact h.sent m hm
          · rw [hnew m hm, ← hpi]
            exact h.numbered p hp
        · rcases List.mem_append.mp hm with hm | hm
          · exact h.working m hm j hj
          · -- only one run works
            rw [hnew m hm]
            rcases h.guarded with hnil | ⟨q, hq, -⟩
            · rw [hnil] at hp
              cases hp
            · unfold World.Works at hi hj
              rw [hq] at hi hj
              have hi' : i = q.1 := by simpa using hi
              have hj' : j = q.1 := by simpa using hj
              omega
      · exact h
    · exact h
  | finished i =>
    refine h.lock hg (numbered_release h.numbered) ?_ fun j hj => Or.inl ?_
    · unfold Lock.release
      split_ifs <;> exact le_rfl
    · unfold Lock.release at hj
      split_ifs at hj
      · exact works_filter hj
      · exact hj
  | crashed i =>
    exact h.lock hg (numbered_crash h.numbered) le_rfl fun j hj => Or.inl (works_filter hj)
  | wait seconds => exact h.lock hg h.numbered le_rfl fun j hj => Or.inl hj

/-- **One run at a time.** Two runs of the job never work at once exactly if no replica fires when a
run that works took the lock 240 seconds ago or earlier; then the messages of one run are not mixed
with those of another. -/
theorem notifications_exclusive (leadTime : ℕ) (hasKey : Bool) (l : List Action) :
    (AllStates (step leadTime hasKey) (fun w => w.lock.Exclusive) World.init l ↔
      AllSteps (step leadTime hasKey) FiresInTime World.init l) ∧
    (AllSteps (step leadTime hasKey) FiresInTime World.init l →
      (run (step leadTime hasKey) World.init l).log.Pairwise fun a b => a.job ≤ b.job) := by
  refine ⟨?_, fun hl => ?_⟩
  · have honly : ∀ w a, w.lock.Guarded lockTtl →
        (step leadTime hasKey w a).lock.Exclusive → FiresInTime w a :=
      fun w a h hone => firesInTime_of_exclusive h hone
    have hkeeps : ∀ w a, w.lock.Guarded lockTtl → FiresInTime w a →
        (step leadTime hasKey w a).lock.Guarded lockTtl := fun w a h ha => guarded_step h ha
    have hone : ∀ w : World, w.lock.Guarded lockTtl → w.lock.Exclusive := fun w h => h.exclusive
    exact allStates_iff_of_inv hone hkeeps honly (guarded_init lockTtl)
  · have hstart : InBlocks World.init :=
      ⟨guarded_init lockTtl, fun p hp => (List.not_mem_nil hp).elim, List.Pairwise.nil,
        fun m hm => (List.not_mem_nil hm).elim, fun m hm => (List.not_mem_nil hm).elim⟩
    exact (run_induct (fun w a h ha => inBlocks_step h ha) hstart hl).sorted

end Exclusive

/-! ### What the messages say -/

section Announced

variable {leadTime : ℕ} {hasKey : Bool} {w : World}

/-- The event of the message is due within the lead time. -/
def Announces (leadTime : ℕ) (m : Message) : Prop := Upcoming leadTime m.currentLedger m.eventLedger

/-- A cliff or an end at the current ledger is not ahead any more: the other event is announced, or
the cliff if that is not ahead either. -/
def Misnamed (leadTime currentLedger : ℕ) (row : StreamRow) : Prop :=
  (row.cliffLedger = currentLedger ∧ currentLedger + leadTime < row.endLedger) ∨
  (row.endLedger = currentLedger ∧
    (row.cliffLedger < currentLedger ∨ currentLedger + leadTime < row.cliffLedger))

/-- Why the row was fetched. -/
def Due (leadTime currentLedger : ℕ) (row : StreamRow) : Prop :=
  Upcoming leadTime currentLedger row.cliffLedger ∨ Upcoming leadTime currentLedger row.endLedger

theorem due_of_mem_fetch {rows : List StreamRow} {currentLedger : ℕ} {row : StreamRow}
    (h : row ∈ fetchUpcomingNotifications leadTime rows currentLedger) :
    Due leadTime currentLedger row := by
  unfold fetchUpcomingNotifications at h
  rw [List.mem_mergeSort, List.mem_filter] at h
  exact (of_decide_eq_true h.2).2

theorem distance_le_iff {currentLedger a b : ℕ} :
    distance currentLedger a ≤ distance currentLedger b ↔
      b ≤ currentLedger ∨ (currentLedger < a ∧ a ≤ b) := by
  unfold distance
  by_cases hb : currentLedger < b
  · by_cases ha : currentLedger < a
    · rw [if_pos ha, if_pos hb, Nat.cast_le]
      omega
    · simp [ha, hb]
  · simp [hb, not_lt.mp hb]

/-- What a fetched stream is told is due within the lead time, unless it is misnamed. -/
theorem upcoming_eventLedger_iff {currentLedger : ℕ} {row : StreamRow}
    (h : Due leadTime currentLedger row) :
    Upcoming leadTime currentLedger (eventLedgerOf row currentLedger) ↔
      ¬ Misnamed leadTime currentLedger row := by
  unfold Due Upcoming at h
  unfold Misnamed Upcoming eventLedgerOf eventOf
  by_cases hcliff : distance currentLedger row.cliffLedger ≤ distance currentLedger row.endLedger
  · have horder := distance_le_iff.mp hcliff
    simp only [hcliff, if_true]
    omega
  · have horder := mt distance_le_iff.mpr hcliff
    simp only [hcliff, if_false]
    omega

/-- The fetched streams are due. -/
def QueuesDue (leadTime : ℕ) (w : World) : Prop :=
  ∀ i p, w.progress i = some p → ∀ row ∈ p.queue, Due leadTime p.currentLedger row

theorem queuesDue_step {a : Action} (h : QueuesDue leadTime w) :
    QueuesDue leadTime (step leadTime hasKey w a) := by
  cases a with
  | fetched i currentLedger rows =>
    simp only [step]
    split_ifs
    · intro j p hp row hrow
      rcases of_update_eq_some hp with ⟨-, rfl⟩ | hp
      · exact due_of_mem_fetch hrow
      · exact h j p hp row hrow
    · exact h
  | dispatched i webhookOk =>
    simp only [step]
    split
    · next currentLedger row rest hold =>
      split_ifs
      · intro j p hp row' hrow
        rcases of_update_eq_some hp with ⟨-, rfl⟩ | hp
        · exact h i _ hold row' (List.mem_cons_of_mem row hrow)
        · exact h j p hp row' hrow
      · exact h
    · exact h
  | _ => exact h

/-- If the step sends something, the stream is not misnamed. -/
def NamesRight (leadTime : ℕ) (hasKey : Bool) (w : World) (a : Action) : Prop :=
  ∀ i webhookOk currentLedger row rest, a = .dispatched i webhookOk → w.Works i →
    w.progress i = some ⟨currentLedger, row :: rest⟩ →
    dispatchNotification i row currentLedger hasKey webhookOk ≠ [] →
      ¬ Misnamed leadTime currentLedger row

theorem ledgers_of_mem_dispatch {i currentLedger : ℕ} {row : StreamRow} {webhookOk : Bool}
    {m : Message} (h : m ∈ dispatchNotification i row currentLedger hasKey webhookOk) :
    m.currentLedger = currentLedger ∧ m.eventLedger = eventLedgerOf row currentLedger := by
  unfold dispatchNotification at h
  rcases List.mem_append.mp h with h | h
  · split_ifs at h
    · rw [List.mem_singleton.mp h]
      exact ⟨rfl, rfl⟩
    · cases h
  · split_ifs at h
    · rw [List.mem_singleton.mp h]
      exact ⟨rfl, rfl⟩
    · cases h

/-- **One step.** -/
theorem announces_step_iff {a : Action} (hdue : QueuesDue leadTime w)
    (h : ∀ m ∈ w.log, Announces leadTime m) :
    (∀ m ∈ (step leadTime hasKey w a).log, Announces leadTime m) ↔
      NamesRight leadTime hasKey w a := by
  unfold NamesRight
  cases a with
  | dispatched i webhookOk =>
    simp only [step]
    split
    · next currentLedger row rest hp =>
      have hrow := hdue i _ hp row List.mem_cons_self
      split_ifs with hi
      · constructor
        · rintro hall _ _ _ _ _ ⟨⟩ - hp' hsent
          rw [hp] at hp'
          cases hp'
          obtain ⟨m, hm⟩ := List.exists_mem_of_ne_nil _ hsent
          have htrue := hall m (List.mem_append_right _ hm)
          obtain ⟨hcurrent, hledger⟩ := ledgers_of_mem_dispatch hm
          unfold Announces at htrue
          rw [hcurrent, hledger] at htrue
          exact (upcoming_eventLedger_iff hrow).mp htrue
        · intro hright m hm
          rcases List.mem_append.mp hm with hm | hm
          · exact h m hm
          · obtain ⟨hcurrent, hledger⟩ := ledgers_of_mem_dispatch hm
            unfold Announces
            rw [hcurrent, hledger]
            exact (upcoming_eventLedger_iff hrow).mpr
              (hright i webhookOk currentLedger row rest rfl hi hp (List.ne_nil_of_mem hm))
      · refine ⟨fun _ => ?_, fun _ => h⟩
        rintro _ _ _ _ _ ⟨⟩ hi' - -
        exact absurd hi' hi
    · next hnone =>
      refine ⟨fun _ => ?_, fun _ => h⟩
      rintro _ _ _ _ _ ⟨⟩ - hp -
      exact absurd hp (hnone _ _ _)
  | fetched i currentLedger rows =>
    have hlog : (step leadTime hasKey w (.fetched i currentLedger rows)).log = w.log := by
      simp only [step]
      split_ifs <;> rfl
    rw [hlog]
    exact ⟨fun _ => nofun, fun _ => h⟩
  | fire => exact ⟨fun _ => nofun, fun _ => h⟩
  | finished i => exact ⟨fun _ => nofun, fun _ => h⟩
  | crashed i => exact ⟨fun _ => nofun, fun _ => h⟩
  | wait seconds => exact ⟨fun _ => nofun, fun _ => h⟩

/-- **What owners are told.** Every message that any run sends names an event that is due within the
lead time exactly if no stream is notified at the very ledger of its cliff with an end beyond the
lead time, or at the very ledger of its end. -/
theorem announcements_true_iff (leadTime : ℕ) (hasKey : Bool) (l : List Action) :
    AllStates (step leadTime hasKey) (fun w => ∀ m ∈ w.log, Announces leadTime m) World.init l ↔
      AllSteps (step leadTime hasKey) (NamesRight leadTime hasKey) World.init l := by
  have hstart : QueuesDue leadTime World.init := nofun
  exact allStates_iff_allSteps (P := fun _ _ => True) (fun w a h _ => queuesDue_step h)
    (fun w a hdue _ h => announces_step_iff hdue h) hstart
    (allSteps_of_forall fun _ _ => trivial) fun m hm => (List.not_mem_nil hm).elim

/-- A run of the job at the ledger of a cliff tells the owner that the stream is completed. -/
example : (run (step 100 true) World.init
    [.fire, .fetched 0 500 [⟨"s", 500, 90000, none, some "u", false, true, false⟩],
      .dispatched 0 true]).log = [⟨0, "s", .webhook, .streamCompleted, 500, 90000⟩] := by
  decide +kernel

end Announced

end VestingDripStream.Backend.Notifications
