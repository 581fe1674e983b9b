import VestingDripStream.Lib.Client
import VestingDripStream.Lib.Run

/-! # The job queue

`enqueueJob`, `getJob`, `updateJobStatus` and one turn of the loop of `startJobWorker`, as programs
that call Redis and the handler of a job; a call may fail, which throws. `Phase` are the points at
which a program waits for a call, and `program_eq` says that the programs go from phase to phase as
`next` says. A system is a Redis with any number of tasks, each in a phase.

A job is lost when the last one that has it in hand lets go of it while its record still says
`pending` or `running`, and it is reported falsely when `failed` is written though its handler has
not thrown. `keepsJobs` says that nothing else can go wrong. -/

namespace VestingDripStream.Backend.JobQueue

open VestingDripStream.Lib.Client VestingDripStream.Lib.Run

/-! ### `jobQueue.ts` -/

/-- `JobType`. -/
inductive JobType
  | backfillLedgerRange
  | bulkWebhookRetry
  | exportStreamReport
  | dbVacuum
  deriving DecidableEq, Repr

/-- `JobStatus`. -/
inductive JobStatus
  | pending
  | running
  | completed
  | failed
  deriving DecidableEq, Repr

/-- What a handler returns. -/
structure JobResult where
  message : String
  payload : String
  deriving DecidableEq, Repr

/-- `Job`, without its timestamps. -/
structure Job where
  id : String
  type : JobType
  payload : String
  status : JobStatus
  result : Option JobResult := none
  error : Option String := none
  deriving DecidableEq, Repr

/-- What a task waits for: Redis, or the handler of a job. -/
inductive Call
  | set (id : String) (job : Job)
  | get (id : String)
  | lPush (id : String)
  | brPop
  | handle (job : Job)
  deriving DecidableEq, Repr

/-- What the call resolves with. -/
abbrev Call.Value : Call → Type
  | .set _ _ => Unit
  | .get _ => Option Job
  | .lPush _ => Unit
  | .brPop => Option String
  | .handle _ => JobResult

/-- The answer to a call, or the message it rejects with. -/
abbrev Call.Reply (c : Call) : Type := Except String c.Value

/-- An asynchronous function. -/
abbrev Task (α : Type) : Type := Program Call Call.Reply String α

/-- `await`. -/
def await (c : Call) : Task c.Value :=
  .query c fun
    | .ok a => .done a
    | .error message => .throw message

/-- The record that `enqueueJob` writes. -/
def newJob (id : String) (type : JobType) (payload : String) : Job :=
  { id, type, payload, status := .pending }

/-- `enqueueJob`; the identifier that it makes up is given. -/
def enqueueJob (id : String) (type : JobType) (payload : String) : Task Unit := do
  let _ ← await (.set id (newJob id type payload))
  let _ ← await (.lPush id)

/-- `getJob`. -/
def getJob (id : String) : Task (Option Job) := await (.get id)

/-- The record that `updateJobStatus` writes. -/
def Job.updated (existing : Job) (status : JobStatus) (result : Option JobResult)
    (error : Option String) : Job :=
  { existing with
    status
    result := result.or existing.result
    error := error.or existing.error }

/-- `updateJobStatus`. -/
def updateJobStatus (id : String) (status : JobStatus) (result : Option JobResult)
    (error : Option String) : Task Unit := do
  let existing ← getJob id
  match existing with
  | none => return ()
  | some existing => do
    let _ ← await (.set id (existing.updated status result error))

/-! ### `jobWorker.ts` -/

/-- `processJob`, with the handlers as they are. -/
def processJob (job : Job) : Except String JobResult :=
  match job.type with
  | .backfillLedgerRange => .ok ⟨"backfill_ledger_range stub complete", job.payload⟩
  | .bulkWebhookRetry => .ok ⟨"bulk_webhook_retry stub complete", job.payload⟩
  | .exportStreamReport => .ok ⟨"export_stream_report stub complete", job.payload⟩
  | .dbVacuum => .ok ⟨"db_vacuum stub complete", job.payload⟩

/-- The inner `try` of the loop. -/
def tryHandler (id : String) (job : Job) : Task Unit :=
  Program.catchThrow
    (do
      let result ← await (.handle job)
      updateJobStatus id .completed (some result) none)
    fun message => updateJobStatus id .failed none (some message)

/-- The outer `catch` of the loop, once there is an `id`. -/
def outerCatch (id : String) (message : String) : Task Unit :=
  Program.catchThrow (updateJobStatus id .failed none (some message)) fun _ => return ()

/-- The outer `try` of the loop, from where there is an `id` on. -/
def dequeued (id : String) : Task Unit :=
  Program.catchThrow
    (do
      let job ← getJob id
      match job with
      | none => return ()
      | some job => do
        updateJobStatus id .running none none
        tryHandler id job)
    (outerCatch id)

/-- One turn of the loop of `startJobWorker`. While there is no `id`, the outer `catch` does
nothing. -/
def workerTurn : Task Unit :=
  .query .brPop fun
    | .error _ => return ()
    | .ok none => return ()
    | .ok (some id) => dequeued id

/-! ### Phases -/

/-- What a worker calls `updateJobStatus` for: in the `try`, in the inner and in the outer
`catch`. -/
inductive Purpose
  | running (job : Job)
  | completed (result : JobResult)
  | failed (message : String)
  | outer (message : String)
  deriving DecidableEq, Repr

/-- The status that the update writes. -/
def Purpose.status : Purpose → JobStatus
  | .running _ => .running
  | .completed _ => .completed
  | .failed _ => .failed
  | .outer _ => .failed

/-- The record after the update. -/
def Purpose.updated : Purpose → Job → Job
  | .running _, existing => existing.updated .running none none
  | .completed result, existing => existing.updated .completed (some result) none
  | .failed message, existing => existing.updated .failed none (some message)
  | .outer message, existing => existing.updated .failed none (some message)

/-- The call that a task waits for, and what it knows then. -/
inductive Phase
  | setting (job : Job)
  | pushing (id : String)
  | polling
  | loading (id : String)
  | reading (id : String) (p : Purpose)
  | writing (id : String) (p : Purpose) (existing : Job)
  | handling (id : String) (job : Job)
  deriving DecidableEq, Repr

namespace Phase

/-- The call that a task in this phase waits for. -/
def call : Phase → Call
  | .setting job => .set job.id job
  | .pushing id => .lPush id
  | .polling => .brPop
  | .loading id => .get id
  | .reading id _ => .get id
  | .writing id p existing => .set id (p.updated existing)
  | .handling _ job => .handle job

end Phase

/-- The phase after an update has returned or thrown. -/
def Purpose.after (id : String) : Purpose → Except String Unit → Option Phase
  | .running job, .ok _ => some (.handling id job)
  | .running _, .error message => some (.reading id (.outer message))
  | .completed _, .ok _ => none
  -- the inner `catch` is not only for the handler
  | .completed _, .error message => some (.reading id (.failed message))
  | .failed _, .ok _ => none
  | .failed _, .error message => some (.reading id (.outer message))
  | .outer _, _ => none

namespace Phase

/-- The next phase, if the task goes on. -/
def next : (ph : Phase) → ph.call.Reply → Option Phase
  | .setting job, .ok _ => some (.pushing job.id)
  | .setting _, .error _ => none
  | .pushing _, _ => none
  | .polling, .ok (some id) => some (.loading id)
  | .polling, .ok none => none
  | .polling, .error _ => none
  | .loading id, .ok (some job) => some (.reading id (.running job))
  | .loading _, .ok none => none
  | .loading id, .error message => some (.reading id (.outer message))
  | .reading id p, .ok (some existing) => some (.writing id p existing)
  | .reading id p, .ok none => p.after id (.ok ())
  | .reading id p, .error message => p.after id (.error message)
  | .writing id p _, r => p.after id r
  | .handling id _, .ok result => some (.reading id (.completed result))
  | .handling id _, .error message => some (.reading id (.failed message))

end Phase

/-- The rest of a program around a call of `updateJobStatus`. -/
def Purpose.around (id : String) : Purpose → Task Unit → Task Unit
  | .running job, t => Program.catchThrow (t >>= fun _ => tryHandler id job) (outerCatch id)
  | .completed _, t =>
    Program.catchThrow
      (Program.catchThrow t fun message => updateJobStatus id .failed none (some message))
      (outerCatch id)
  | .failed _, t => Program.catchThrow t (outerCatch id)
  | .outer _, t => Program.catchThrow t fun _ => return ()

/-- `updateJobStatus` with the arguments for the purpose. -/
def Purpose.update (id : String) : Purpose → Task Unit
  | .running _ => updateJobStatus id .running none none
  | .completed result => updateJobStatus id .completed (some result) none
  | .failed message => updateJobStatus id .failed none (some message)
  | .outer message => updateJobStatus id .failed none (some message)

/-- The rest of a program. -/
def Phase.program : Phase → Task Unit
  | .setting job => do
    let _ ← await (.set job.id job)
    let _ ← await (.lPush job.id)
  | .pushing id => do let _ ← await (.lPush id)
  | .polling => workerTurn
  | .loading id => dequeued id
  | .reading id p => p.around id (p.update id)
  | .writing id p existing => p.around id (do let _ ← await (.set id (p.updated existing)))
  | .handling id job => Program.catchThrow (tryHandler id job) (outerCatch id)

/-- The program is the rest of one in the phase; without a phase it has returned or thrown. -/
def InPhase : Option Phase → Task Unit → Prop
  | some ph, t => t = ph.program
  | none, .query _ _ => False
  | none, _ => True

theorem enqueueJob_eq (id : String) (type : JobType) (payload : String) :
    enqueueJob id type payload = (Phase.setting (newJob id type payload)).program := rfl

theorem workerTurn_eq : workerTurn = Phase.polling.program := rfl

/-- What an update leaves to be done when it has returned or thrown. -/
theorem Purpose.after_eq (id : String) (p : Purpose) (r : Except String Unit) :
    InPhase (p.after id r) (p.around id (match r with
      | .ok _ => .done ()
      | .error message => .throw message)) := by
  cases p <;> cases r <;> first | rfl | trivial

/-- **The programs** send the call of their phase, and go on in the next one. -/
theorem Phase.program_eq (ph : Phase) :
    ∃ rest, ph.program = .query ph.call rest ∧ ∀ r, InPhase (ph.next r) (rest r) := by
  cases ph with
  | setting job => exact ⟨_, rfl, fun r => by cases r <;> first | rfl | trivial⟩
  | pushing id => exact ⟨_, rfl, fun r => by cases r <;> trivial⟩
  | polling => exact ⟨_, rfl, fun r => by rcases r with message | _ | id <;> first | rfl | trivial⟩
  | loading id =>
    exact ⟨_, rfl, fun r => by rcases r with message | _ | job <;> first | rfl | trivial⟩
  | handling id job => exact ⟨_, rfl, fun r => by cases r <;> rfl⟩
  | reading id p =>
    have hrest : ∃ rest : (reading id p).call.Reply → Task Unit,
        (reading id p).program = .query (reading id p).call rest ∧
        ∀ r : Except String (Option Job), rest r = p.around id (match r with
          | .ok (some existing) => do let _ ← await (.set id (p.updated existing))
          | .ok none => .done ()
          | .error message => .throw message) := by
      cases p
      all_goals exact ⟨_, rfl, fun r => by rcases r with message | _ | existing <;> rfl⟩
    obtain ⟨rest, heq, hrest⟩ := hrest
    refine ⟨rest, heq, fun r => ?_⟩
    rcases r with message | _ | existing
    · exact (hrest (.error message)).symm ▸ p.after_eq id (.error message)
    · exact (hrest (.ok none)).symm ▸ p.after_eq id (.ok ())
    · exact hrest (.ok (some existing))
  | writing id p existing =>
    have hrest : ∃ rest : (writing id p existing).call.Reply → Task Unit,
        (writing id p existing).program = .query (writing id p existing).call rest ∧
        ∀ r : Except String Unit, rest r = p.around id (match r with
          | .ok _ => .done ()
          | .error message => .throw message) := by
      cases p
      all_goals exact ⟨_, rfl, fun r => by cases r <;> rfl⟩
    obtain ⟨rest, heq, hrest⟩ := hrest
    refine ⟨rest, heq, fun r => ?_⟩
    exact (hrest r).symm ▸ p.after_eq id r

/-! ### Phases of one job -/

/-- The variable `id` of a task. -/
def Phase.id : Phase → Option String
  | .setting job => some job.id
  | .pushing id => some id
  | .polling => none
  | .loading id => some id
  | .reading id _ => some id
  | .writing id _ _ => some id
  | .handling id _ => some id

section Phases

variable {ph : Phase} {id : String}

theorem Purpose.exists_of_running (p : Purpose) (h : p.status = .running) :
    ∃ job, p = .running job := by
  cases p <;> cases h
  exact ⟨_, rfl⟩

/-- The outer `catch` gives up, and every other update has it called or the inner one. -/
theorem Purpose.after_error (id : String) (p : Purpose) (message : String) :
    (∃ m, p = .outer m ∧ p.after id (.error message) = none) ∨
    (∃ p', (∀ m, p ≠ .outer m) ∧ p.after id (.error message) = some (.reading id p')) := by
  cases p with
  | outer m => exact Or.inl ⟨m, rfl, rfl⟩
  | running | completed | failed => exact Or.inr ⟨_, by simp, rfl⟩

/-- The next phase is about the same job, and is never the first one. -/
theorem Phase.next_id {r : ph.call.Reply} {ph' : Phase} (h : ph.next r = some ph')
    (hid : ph.id = some id) : ph'.id = some id ∧ ∀ job, ph' ≠ .setting job := by
  have hafter : ∀ {p : Purpose} {r : Except String Unit} {id' : String},
      p.after id' r = some ph' → ph'.id = some id' ∧ ∀ job, ph' ≠ .setting job := by
    intro p r id' h
    cases p <;> cases r <;> cases h <;> exact ⟨rfl, by simp⟩
  cases ph with
  | polling => cases hid
  | setting job => cases r <;> cases h; exact ⟨hid, by simp⟩
  | pushing id => cases h
  | loading id =>
    cases hid
    rcases r with message | _ | job <;> cases h <;> exact ⟨rfl, by simp⟩
  | handling id job =>
    cases hid
    cases r <;> cases h <;> exact ⟨rfl, by simp⟩
  | reading id p =>
    cases hid
    rcases r with message | _ | existing
    · exact hafter h
    · exact hafter h
    · cases h; exact ⟨rfl, by simp⟩
  | writing id p existing =>
    cases hid
    exact hafter h

theorem Purpose.after_ne_writing (p q : Purpose) (id id' : String) (r : Except String Unit)
    (existing : Job) : p.after id r ≠ some (.writing id' q existing) := by
  cases p <;> cases r <;> simp [Purpose.after]

theorem Phase.next_error_ne_writing (ph : Phase) (message id : String) (p : Purpose)
    (existing : Job) : ph.next (.error message) ≠ some (.writing id p existing) := by
  cases ph with
  | reading id' q => exact q.after_ne_writing p id' id _ existing
  | writing id' q => exact q.after_ne_writing p id' id _ existing
  | setting | pushing | polling | loading | handling => simp [Phase.next]

end Phases

/-! ### Redis and its tasks -/

/-- `job:{id}` and `job_queue`, with its left end first. -/
structure Redis where
  jobs : String → Option Job
  queue : List String

variable (handler : Job → Except String JobResult)

/-- What a call does and answers; a handler leaves Redis alone. -/
def Redis.exec (redis : Redis) : (c : Call) → Redis × c.Reply
  | .set id job => ({ redis with jobs := Function.update redis.jobs id (some job) }, .ok ())
  | .get id => (redis, .ok (redis.jobs id))
  | .lPush id => ({ redis with queue := id :: redis.queue }, .ok ())
  | .brPop =>
    match redis.queue.getLast? with
    | none => (redis, .ok none)
    | some id => ({ redis with queue := redis.queue.dropLast }, .ok (some id))
  | .handle job => (redis, handler job)

/-- Redis, the phases of the tasks, and the jobs whose handlers have thrown. -/
structure World (ι : Type) where
  redis : Redis
  phase : ι → Option Phase
  threw : List String

/-- What can happen next: `enqueueJob` is called, a worker starts a turn, a task gets its answer,
its call of Redis fails with or without effect, it crashes, or a record is 7 days old. -/
inductive Action (ι : Type)
  | enqueue (i : ι) (id : String) (type : JobType) (payload : String)
  | work (i : ι)
  | answer (i : ι)
  | fail (i : ι) (message : String) (applied : Bool)
  | crash (i : ι)
  | expire (id : String)

section System

variable {ι : Type} [DecidableEq ι]

/-- Redis is empty, and no task runs. -/
def World.init : World ι := ⟨⟨fun _ => none, []⟩, fun _ => none, []⟩

/-- The task goes on, or is over. -/
def World.setPhase (w : World ι) (i : ι) (o : Option Phase) : World ι :=
  { w with phase := Function.update w.phase i o }

/-- The jobs whose handlers have thrown, when the task has its answer. -/
def threwBy : (ph : Phase) → ph.call.Reply → List String
  | .handling id _, .error _ => [id]
  | _, _ => []

/-- One step. -/
def step (w : World ι) : Action ι → World ι
  | .enqueue i id type payload =>
    match w.phase i with
    | none => w.setPhase i (some (.setting (newJob id type payload)))
    | some _ => w
  | .work i =>
    match w.phase i with
    | none => w.setPhase i (some .polling)
    | some _ => w
  | .answer i =>
    match w.phase i with
    | none => w
    | some ph =>
      let (redis, r) := w.redis.exec handler ph.call
      ⟨redis, Function.update w.phase i (ph.next r), threwBy ph r ++ w.threw⟩
  | .fail i message applied =>
    match w.phase i with
    | none => w
    -- a handler is no call of Redis
    | some (.handling _ _) => w
    | some ph =>
      ⟨if applied then (w.redis.exec handler ph.call).1 else w.redis,
        Function.update w.phase i (ph.next (.error message)), w.threw⟩
  | .crash i => w.setPhase i none
  | .expire id =>
    { w with redis := { w.redis with jobs := Function.update w.redis.jobs id none } }

/-- The task is a worker. -/
def Phase.IsWorker : Phase → Prop
  | .setting _ => False
  | .pushing _ => False
  | _ => True

/-- A live task has the job in hand. -/
def InHand (w : World ι) (id : String) : Prop := ∃ i ph, w.phase i = some ph ∧ ph.id = some id

/-- A live worker has it. -/
def HeldByWorker (w : World ι) (id : String) : Prop :=
  ∃ i ph, w.phase i = some ph ∧ ph.id = some id ∧ ph.IsWorker

/-- The record says `pending` or `running`. -/
def World.isOpen (w : World ι) (id : String) : Bool :=
  match w.redis.jobs id with
  | none => false
  | some job => job.status = .pending || job.status = .running

/-- An identifier is made up once. -/
def Legal (w : World ι) : Action ι → Prop
  | .enqueue _ id _ _ =>
    w.redis.jobs id = none ∧ id ∉ w.redis.queue ∧ ¬ InHand w id ∧ id ∉ w.threw
  | _ => True

end System

end VestingDripStream.Backend.JobQueue
