import VestingDripStream.Backend.JobQueue

/-! # Jobs that are lost and jobs that are kept

What the queue promises of its jobs, in every run of callers and workers with crashes and failures
anywhere. Every step moves one task and touches one job (`Hop`), so that what is said of a step
is said of that job; `keepsJobs` is the result. -/

namespace VestingDripStream.Backend.JobsKept

open VestingDripStream.Lib.Client VestingDripStream.Lib.Run VestingDripStream.Backend.JobQueue

/-! ### What is kept -/

section Promises

variable {ι : Type} [DecidableEq ι]

/-- Every pending job is in the queue, a running one is held by a live worker, and a failed one has
a handler that has thrown. -/
def Truthful (w : World ι) : Prop :=
  ∀ id job, w.redis.jobs id = some job →
    (job.status = .pending → id ∈ w.redis.queue) ∧ (job.status = .running → HeldByWorker w id) ∧
    (job.status = .failed → id ∈ w.threw)

/-- The same, where a pending job may also be on its way to the queue or from it. -/
def Kept (w : World ι) : Prop :=
  ∀ id job, w.redis.jobs id = some job →
    (job.status = .pending → id ∈ w.redis.queue ∨ InHand w id) ∧
    (job.status = .running → HeldByWorker w id) ∧ (job.status = .failed → id ∈ w.threw)

/-- No pending job is on its way. -/
def AtRest (w : World ι) : Prop :=
  ∀ id job, w.redis.jobs id = some job → job.status = .pending → ¬ InHand w id

/-- The job that the step leaves in nobody's hands, though its record is open: a task crashes,
`enqueueJob` fails between its two calls, `brPop` fails after it has popped, or the outer `catch`
cannot write. -/
def losing (w : World ι) : Action ι → Option String
  | .crash i => ((w.phase i).bind Phase.id).filter w.isOpen
  | .fail i _ applied =>
    match w.phase i with
    | some (.setting job) => if applied then some job.id else none
    | some (.pushing id) => if applied then none else (some id).filter w.isOpen
    | some .polling => if applied then w.redis.queue.getLast?.filter w.isOpen else none
    | some (.reading id (.outer _)) => (some id).filter w.isOpen
    | some (.writing id (.outer _) _) => if applied then none else (some id).filter w.isOpen
    | _ => none
  | _ => none

/-- The job whose record becomes `failed` though its handler has not thrown. -/
def misreporting (w : World ι) : Action ι → Option String
  | .answer i =>
    match w.phase i with
    | some (.writing id p _) => if p.status = .failed ∧ id ∉ w.threw then some id else none
    | _ => none
  | .fail i _ true =>
    match w.phase i with
    | some (.writing id p _) => if p.status = .failed ∧ id ∉ w.threw then some id else none
    | _ => none
  | _ => none

/-- The step neither loses a job nor leaves a record with a wrong status. -/
def Careful (w : World ι) (a : Action ι) : Prop := losing w a = none ∧ misreporting w a = none

instance (w : World ι) (a : Action ι) : Decidable (Careful w a) := by
  unfold Careful; infer_instance

/-- The job whose record `enqueueJob` writes in the step. -/
def recorded (w : World ι) : Action ι → Option String
  | .answer i =>
    match w.phase i with
    | some (.setting job) => some job.id
    | _ => none
  | .fail i _ true =>
    match w.phase i with
    | some (.setting job) => some job.id
    | _ => none
  | _ => none

/-- A job is in one place: in the queue once, or in the hands of one task. Its record is not there
before `enqueueJob` has written it. -/
structure Unique (w : World ι) : Prop where
  nodup : w.redis.queue.Nodup
  queued : ∀ id ∈ w.redis.queue, ¬ InHand w id
  hand : ∀ i j ph ph' id, w.phase i = some ph → w.phase j = some ph' → ph.id = some id →
    ph'.id = some id → i = j
  fresh : ∀ i job, w.phase i = some (.setting job) →
    w.redis.jobs job.id = none ∧ job.status = .pending

end Promises

/-! ### A task that moves

A step moves one task, and touches one job at most. What is said of the other jobs stays true, and
of this job only the phase of the task is left to be looked at. -/

section Hops

variable {ι : Type} [DecidableEq ι] {handler : Job → Except String JobResult} {w w' : World ι}
  {i : ι} {ph : Phase} {o : Option Phase} {id : String} {subject : Option String}

/-- The task `i` goes to the phase `o`, and only the job `subject` is touched. -/
structure Hop (w w' : World ι) (i : ι) (subject : Option String) (o : Option Phase) : Prop where
  phase : w'.phase = Function.update w.phase i o
  jobs : ∀ id, subject ≠ some id → w'.redis.jobs id = w.redis.jobs id
  queue : ∀ id, subject ≠ some id → (id ∈ w'.redis.queue ↔ id ∈ w.redis.queue)
  threw : ∀ id, subject ≠ some id → (id ∈ w'.threw ↔ id ∈ w.threw)
  before : ∀ ph id, w.phase i = some ph → ph.id = some id → subject = some id
  after : ∀ ph id, o = some ph → ph.id = some id → subject = some id
  others : ∀ j ph id, j ≠ i → w.phase j = some ph → ph.id = some id → subject ≠ some id
  nodup : w'.redis.queue.Nodup
  queued : ∀ ph id, o = some ph → ph.id = some id → id ∉ w'.redis.queue
  fresh : ∀ job, o = some (.setting job) → w'.redis.jobs job.id = none ∧ job.status = .pending

theorem Hop.phase_self (h : Hop w w' i subject o) : w'.phase i = o := by
  rw [h.phase, Function.update_self]

theorem Hop.phase_of_ne (h : Hop w w' i subject o) {j : ι} (hj : j ≠ i) :
    w'.phase j = w.phase j := by
  rw [h.phase, Function.update_of_ne hj]

/-- Who has another job in hand has it still. -/
theorem Hop.has_of_ne (h : Hop w w' i subject o) (hne : subject ≠ some id) (j : ι) (ph : Phase) :
    (w'.phase j = some ph ∧ ph.id = some id) ↔ (w.phase j = some ph ∧ ph.id = some id) := by
  by_cases hj : j = i
  · subst hj
    rw [h.phase_self]
    exact ⟨fun hp => absurd (h.after ph id hp.1 hp.2) hne,
      fun hp => absurd (h.before ph id hp.1 hp.2) hne⟩
  · rw [h.phase_of_ne hj]

/-- Only the task itself can have the job in hand. -/
theorem Hop.has_self (h : Hop w w' i (some id) o) (j : ι) (ph : Phase) :
    (w'.phase j = some ph ∧ ph.id = some id) ↔ (j = i ∧ o = some ph ∧ ph.id = some id) := by
  by_cases hj : j = i
  · subst hj
    rw [h.phase_self]
    simp
  · rw [h.phase_of_ne hj]
    exact ⟨fun hp => absurd rfl (h.others j ph id hj hp.1 hp.2), fun hp => absurd hp.1 hj⟩

theorem Hop.inHand_of_ne (h : Hop w w' i subject o) (hne : subject ≠ some id) :
    InHand w' id ↔ InHand w id :=
  exists_congr fun j => exists_congr fun ph => h.has_of_ne hne j ph

theorem Hop.heldByWorker_of_ne (h : Hop w w' i subject o) (hne : subject ≠ some id) :
    HeldByWorker w' id ↔ HeldByWorker w id := by
  refine exists_congr fun j => exists_congr fun ph => ?_
  rw [← and_assoc, ← and_assoc, h.has_of_ne hne j ph]

/-- A task in the phase `o` keeps the job. -/
def KeepsJob (w' : World ι) (o : Option Phase) (id : String) : Prop :=
  ∀ job, w'.redis.jobs id = some job →
    (job.status = .pending → id ∈ w'.redis.queue ∨ ∃ ph, o = some ph ∧ ph.id = some id) ∧
    (job.status = .running → ∃ ph, o = some ph ∧ ph.id = some id ∧ ph.IsWorker) ∧
    (job.status = .failed → id ∈ w'.threw)

/-- **One task**: all jobs are kept exactly if the one that is touched is. -/
theorem Hop.kept_iff (h : Hop w w' i subject o) (hK : Kept w) :
    Kept w' ↔ ∀ id, subject = some id → KeepsJob w' o id := by
  have hself : ∀ id, subject = some id → ((∀ job, w'.redis.jobs id = some job →
      (job.status = .pending → id ∈ w'.redis.queue ∨ InHand w' id) ∧
      (job.status = .running → HeldByWorker w' id) ∧ (job.status = .failed → id ∈ w'.threw)) ↔
      KeepsJob w' o id) := by
    rintro id rfl
    have hin : InHand w' id ↔ ∃ ph, o = some ph ∧ ph.id = some id := by
      unfold InHand
      simp only [h.has_self, exists_and_left, exists_eq_left]
    have hheld : HeldByWorker w' id ↔ ∃ ph, o = some ph ∧ ph.id = some id ∧ ph.IsWorker := by
      unfold HeldByWorker
      simp only [← and_assoc, h.has_self]
      simp only [and_assoc, exists_and_left, exists_eq_left]
    unfold KeepsJob
    simp only [hin, hheld]
  constructor
  · intro hk id hid
    exact (hself id hid).mp (hk id)
  · intro hk id
    by_cases hid : subject = some id
    · exact (hself id hid).mpr (hk id hid)
    · intro job hjob
      rw [h.jobs id hid] at hjob
      rw [h.queue id hid, h.threw id hid, h.inHand_of_ne hid, h.heldByWorker_of_ne hid]
      exact hK id job hjob

theorem Hop.unique (h : Hop w w' i subject o) (hU : Unique w) : Unique w' where
  nodup := h.nodup
  queued := by
    intro id hid hin
    by_cases hs : subject = some id
    · subst hs
      obtain ⟨j, ph, hj⟩ := hin
      obtain ⟨-, ho, hph⟩ := (h.has_self j ph).mp hj
      exact h.queued ph id ho hph hid
    · exact hU.queued id ((h.queue id hs).mp hid) ((h.inHand_of_ne hs).mp hin)
  hand := by
    intro j k ph ph' id hj hk hph hph'
    by_cases hs : subject = some id
    · subst hs
      rw [((h.has_self j ph).mp ⟨hj, hph⟩).1, ((h.has_self k ph').mp ⟨hk, hph'⟩).1]
    · exact hU.hand j k ph ph' id ((h.has_of_ne hs j ph).mp ⟨hj, hph⟩).1
        ((h.has_of_ne hs k ph').mp ⟨hk, hph'⟩).1 hph hph'
  fresh := by
    intro j job hj
    by_cases hs : subject = some job.id
    · subst hs
      exact h.fresh job ((h.has_self j (.setting job)).mp ⟨hj, rfl⟩).2.1
    · rw [h.jobs job.id hs]
      exact hU.fresh j job ((h.has_of_ne hs j (.setting job)).mp ⟨hj, rfl⟩).1

omit [DecidableEq ι] in
theorem Unique.others (hU : Unique w) (hi : w.phase i = some ph) (hid : ph.id = some id) :
    ∀ j ph' id', j ≠ i → w.phase j = some ph' → ph'.id = some id' → some id ≠ some id' := by
  rintro j ph' id' hj hp hid' heq
  cases heq
  exact hj (hU.hand j i ph' ph id hp hi hid' hid)

/-- A task that has a job in hand leaves the queue alone. -/
theorem Unique.hop (hU : Unique w) (hi : w.phase i = some ph) (hid : ph.id = some id)
    {redis : Redis} {threw : List String} (hqueue : redis.queue = w.redis.queue)
    (hjobs : ∀ id', id' ≠ id → redis.jobs id' = w.redis.jobs id')
    (hthrew : ∀ id', id' ≠ id → (id' ∈ threw ↔ id' ∈ w.threw))
    (ho : ∀ ph', o = some ph' → ph'.id = some id ∧ ∀ job, ph' ≠ .setting job) :
    Hop w ⟨redis, Function.update w.phase i o, threw⟩ i (some id) o where
  phase := rfl
  jobs := fun id' hne => hjobs id' fun h => hne (h ▸ rfl)
  queue := fun id' _ => by rw [hqueue]
  threw := fun id' hne => hthrew id' fun h => hne (h ▸ rfl)
  before := fun ph' id' hp hid' => by
    rw [hi] at hp
    cases hp
    rw [← hid, hid']
  after := fun ph' id' hp hid' => by rw [← (ho ph' hp).1, hid']
  others := hU.others hi hid
  nodup := by
    show redis.queue.Nodup
    rw [hqueue]
    exact hU.nodup
  queued := fun ph' id' hp hid' hmem => by
    have heq : some id = some id' := by rw [← (ho ph' hp).1, hid']
    cases heq
    refine hU.queued id ?_ ⟨i, ph, hi, hid⟩
    change id ∈ redis.queue at hmem
    rwa [hqueue] at hmem
  fresh := fun job hp => absurd rfl ((ho _ hp).2 job)

/-- `lPush`. -/
theorem Unique.hop_push (hU : Unique w) (hi : w.phase i = some (.pushing id)) :
    Hop w ⟨{ w.redis with queue := id :: w.redis.queue }, Function.update w.phase i none, w.threw⟩
      i (some id) none where
  phase := rfl
  jobs := fun _ _ => rfl
  queue := fun id' hne => by
    have hne : id' ≠ id := fun h => hne (h ▸ rfl)
    simp [hne]
  threw := fun _ _ => Iff.rfl
  before := fun ph' id' hp hid' => by
    rw [hi] at hp
    cases hp
    exact hid'
  after := fun _ _ hp => nomatch hp
  others := hU.others hi rfl
  nodup := List.nodup_cons.mpr ⟨fun hmem => hU.queued id hmem ⟨i, _, hi, rfl⟩, hU.nodup⟩
  queued := fun _ _ hp => nomatch hp
  fresh := fun _ hp => nomatch hp

omit [DecidableEq ι] in
theorem Unique.not_mem_dropLast (hU : Unique w) (hlast : w.redis.queue.getLast? = some id) :
    id ∉ w.redis.queue.dropLast := by
  have hnodup := hU.nodup
  rw [← List.dropLast_append_getLast? id hlast] at hnodup
  obtain ⟨-, -, hnot⟩ := List.nodup_append.mp hnodup
  exact fun h => hnot id h id (by simp) rfl

/-- `brPop`. -/
theorem Unique.hop_pop (hU : Unique w) (hi : w.phase i = some .polling)
    (hlast : w.redis.queue.getLast? = some id) (ho : ∀ ph', o = some ph' → ph' = .loading id) :
    Hop w ⟨{ w.redis with queue := w.redis.queue.dropLast }, Function.update w.phase i o, w.threw⟩
      i (some id) o := by
  have hsplit : w.redis.queue.dropLast ++ [id] = w.redis.queue :=
    List.dropLast_append_getLast? id hlast
  have hid := hU.not_mem_dropLast hlast
  have hmem : id ∈ w.redis.queue := by
    rw [← hsplit]
    simp
  exact {
    phase := rfl
    jobs := fun _ _ => rfl
    queue := fun id' hne => by
      have hne : id' ≠ id := fun h => hne (h ▸ rfl)
      show id' ∈ w.redis.queue.dropLast ↔ id' ∈ w.redis.queue
      conv_rhs => rw [← hsplit]
      simp [hne]
    threw := fun _ _ => Iff.rfl
    before := fun ph' id' hp hid' => by
      rw [hi] at hp
      cases hp
      cases hid'
    after := fun ph' id' hp hid' => by
      rw [ho ph' hp] at hid'
      exact hid'
    others := fun j ph' id' _ hp hid' heq => by
      cases heq
      exact hU.queued id hmem ⟨j, ph', hp, hid'⟩
    nodup := hU.nodup.sublist (List.dropLast_sublist _)
    queued := fun ph' id' hp hid' hq => by
      rw [ho ph' hp] at hid'
      cases hid'
      exact hid hq
    fresh := fun job hp => by cases ho _ hp }

/-- A task that has no job in hand. -/
theorem Unique.hop_idle (hU : Unique w) (hi : ∀ ph, w.phase i = some ph → ph.id = none)
    (ho : ∀ ph, o = some ph → ph = .polling) : Hop w (w.setPhase i o) i none o where
  phase := rfl
  jobs := fun _ _ => rfl
  queue := fun _ _ => Iff.rfl
  threw := fun _ _ => Iff.rfl
  before := fun ph id hp hid => by
    rw [hi ph hp] at hid
    cases hid
  after := fun ph id hp hid => by
    rw [ho ph hp] at hid
    cases hid
  others := fun _ _ _ _ _ _ h => nomatch h
  nodup := hU.nodup
  queued := fun ph id hp hid => by
    rw [ho ph hp] at hid
    cases hid
  fresh := fun job hp => by cases ho _ hp

/-- `enqueueJob` is called. -/
theorem Unique.hop_enqueue (hU : Unique w) (hi : w.phase i = none) {type : JobType}
    {payload : String} (hL : Legal w (.enqueue i id type payload)) :
    Hop w (w.setPhase i (some (.setting (newJob id type payload)))) i (some id)
      (some (.setting (newJob id type payload))) where
  phase := rfl
  jobs := fun _ _ => rfl
  queue := fun _ _ => Iff.rfl
  threw := fun _ _ => Iff.rfl
  before := fun ph _ hp => by
    rw [hi] at hp
    cases hp
  after := fun ph id' hp hid' => by
    cases hp
    exact hid'
  others := fun j ph id' _ hp hid' heq => by
    cases heq
    exact hL.2.2.1 ⟨j, ph, hp, hid'⟩
  nodup := hU.nodup
  queued := fun ph id' hp hid' => by
    cases hp
    cases hid'
    exact hL.2.1
  fresh := fun job hp => by
    cases hp
    exact ⟨hL.1, rfl⟩

/-! ### Keeping one job -/

theorem Hop.kept_some (h : Hop w w' i (some id) o) (hK : Kept w) : Kept w' ↔ KeepsJob w' o id := by
  rw [h.kept_iff hK]
  exact ⟨fun hk => hk id rfl, fun hk id' heq => by cases heq; exact hk⟩

theorem Hop.kept_none (h : Hop w w' i none o) (hK : Kept w) : Kept w' :=
  (h.kept_iff hK).mpr fun _ heq => nomatch heq

omit [DecidableEq ι] in
/-- A worker keeps the job that it has. -/
theorem keepsJob_worker (hid : ph.id = some id) (hw : ph.IsWorker)
    (hf : ∀ job, w'.redis.jobs id = some job → job.status = .failed → id ∈ w'.threw) :
    KeepsJob w' (some ph) id :=
  fun job hjob => ⟨fun _ => Or.inr ⟨ph, rfl, hid⟩, fun _ => ⟨ph, rfl, hid, hw⟩, hf job hjob⟩

omit [DecidableEq ι] in
/-- A task that is over lets go of the job. -/
theorem keepsJob_over (hq : id ∉ w'.redis.queue)
    (hf : ∀ job, w'.redis.jobs id = some job → job.status = .failed → id ∈ w'.threw) :
    KeepsJob w' none id ↔ w'.isOpen id = false := by
  unfold KeepsJob World.isOpen
  cases hjob : w'.redis.jobs id with
  | none => simp
  | some job =>
    have hf := hf job hjob
    cases hs : job.status <;> simp [hs, hq] at hf ⊢
    exact hf

omit [DecidableEq ι] in
theorem keepsJob_gone (hjob : w'.redis.jobs id = none) : KeepsJob w' o id := by
  intro job h
  rw [hjob] at h
  cases h

/-! ### The steps of a task -/

omit [DecidableEq ι] in
/-- Only `lPush` and `brPop` change the queue, and only the record of the job can change. -/
theorem exec_of_id (hid : ph.id = some id) (hp : ∀ id, ph ≠ .pushing id) :
    (w.redis.exec handler ph.call).1.queue = w.redis.queue ∧
    ∀ id', id' ≠ id → (w.redis.exec handler ph.call).1.jobs id' = w.redis.jobs id' := by
  cases ph with
  | polling => cases hid
  | pushing id => exact absurd rfl (hp id)
  | setting job =>
    cases hid
    exact ⟨rfl, fun id' hne => Function.update_of_ne hne _ _⟩
  | writing id p existing =>
    cases hid
    exact ⟨rfl, fun id' hne => Function.update_of_ne hne _ _⟩
  | loading | reading | handling => exact ⟨rfl, fun _ _ => rfl⟩

theorem mem_threwBy {r : ph.call.Reply} (hid : ph.id = some id) {id' : String} (hne : id' ≠ id) :
    id' ∉ threwBy ph r := by
  cases ph with
  | handling id job =>
    cases hid
    cases r with
    | ok result => exact List.not_mem_nil
    | error message => exact fun h => hne (List.mem_singleton.mp h)
  | _ => exact List.not_mem_nil

theorem step_answer (hi : w.phase i = some ph) :
    step handler w (.answer i) =
      ⟨(w.redis.exec handler ph.call).1,
        Function.update w.phase i (ph.next (w.redis.exec handler ph.call).2),
        threwBy ph (w.redis.exec handler ph.call).2 ++ w.threw⟩ := by
  simp only [step, hi]

theorem step_fail (hi : w.phase i = some ph) (hh : ∀ id job, ph ≠ .handling id job)
    {message : String} {applied : Bool} :
    step handler w (.fail i message applied) =
      ⟨if applied then (w.redis.exec handler ph.call).1 else w.redis,
        Function.update w.phase i (ph.next (.error message)), w.threw⟩ := by
  cases ph with
  | handling id job => exact absurd rfl (hh id job)
  | _ => simp only [step, hi]

theorem Unique.hop_answer (hU : Unique w) (hi : w.phase i = some ph) (hid : ph.id = some id)
    (hp : ∀ id, ph ≠ .pushing id) : Hop w (step handler w (.answer i)) i (some id)
      (ph.next (w.redis.exec handler ph.call).2) := by
  obtain ⟨hqueue, hjobs⟩ : (w.redis.exec handler ph.call).1.queue = w.redis.queue ∧ _ :=
    exec_of_id hid hp
  rw [step_answer hi]
  refine hU.hop hi hid hqueue hjobs (fun id' hne => ?_) fun ph' h => Phase.next_id h hid
  rw [List.mem_append]
  exact or_iff_right (mem_threwBy hid hne)

theorem Unique.hop_fail (hU : Unique w) (hi : w.phase i = some ph) (hid : ph.id = some id)
    (hh : ∀ id job, ph ≠ .handling id job) {message : String} {applied : Bool}
    (hp : applied = true → ∀ id, ph ≠ .pushing id) :
    Hop w (step handler w (.fail i message applied)) i (some id) (ph.next (.error message)) := by
  rw [step_fail hi hh]
  cases applied with
  | false =>
    exact hU.hop hi hid rfl (fun _ _ => rfl) (fun _ _ => Iff.rfl) fun ph' h => Phase.next_id h hid
  | true =>
    obtain ⟨hqueue, hjobs⟩ : (w.redis.exec handler ph.call).1.queue = w.redis.queue ∧ _ :=
      exec_of_id hid (hp rfl)
    exact hU.hop hi hid hqueue hjobs (fun _ _ => Iff.rfl) fun ph' h => Phase.next_id h hid

/-- A step keeps the jobs in one place, and keeps all of them exactly if it is careful. -/
def StepKeeps (handler : Job → Except String JobResult) (w : World ι) (a : Action ι) : Prop :=
  Unique (step handler w a) ∧ (Kept w → (Kept (step handler w a) ↔ Careful w a))

theorem Hop.keeps {a : Action ι} (hU : Unique w) (h : Hop w (step handler w a) i (some id) o)
    (hk : Kept w → (KeepsJob (step handler w a) o id ↔ Careful w a)) : StepKeeps handler w a :=
  ⟨h.unique hU, fun hK => (h.kept_some hK).trans (hk hK)⟩

theorem Hop.keeps_idle {a : Action ι} (hU : Unique w) (h : Hop w (step handler w a) i none o)
    (hc : Careful w a) : StepKeeps handler w a :=
  ⟨h.unique hU, fun hK => iff_of_true (h.kept_none hK) hc⟩

theorem keeps_of_eq {a : Action ι} (hU : Unique w) (h : step handler w a = w) (hc : Careful w a) :
    StepKeeps handler w a := by
  unfold StepKeeps
  rw [h]
  exact ⟨hU, fun hK => iff_of_true hK hc⟩

omit [DecidableEq ι] in
/-- A job that a caller has in hand does not run. -/
theorem Kept.not_running (hK : Kept w) (hU : Unique w) (hi : w.phase i = some ph)
    (hid : ph.id = some id) (hw : ¬ ph.IsWorker) {job : Job} (hjob : w.redis.jobs id = some job) :
    job.status ≠ .running := by
  intro hs
  obtain ⟨j, ph', hj, hid', hw'⟩ := (hK id job hjob).2.1 hs
  obtain rfl := hU.hand i j ph ph' id hi hj hid hid'
  rw [hi] at hj
  cases hj
  exact hw hw'

/-- `lPush` has its effect, whatever the caller learns of it. -/
theorem keepsJob_pushed (hK : Kept w) (hU : Unique w) (hi : w.phase i = some (.pushing id)) :
    KeepsJob ⟨{ w.redis with queue := id :: w.redis.queue }, Function.update w.phase i none,
      w.threw⟩ none id :=
  fun job hjob => ⟨fun _ => Or.inl List.mem_cons_self,
    fun hs => absurd hs (hK.not_running hU hi rfl not_false hjob), (hK id job hjob).2.2⟩

omit [DecidableEq ι] in
/-- The record is what the worker says. -/
theorem keepsJob_written {p : Purpose} {existing : Job}
    (hrecord : w'.redis.jobs id = some (p.updated existing))
    (ho : p.status = .running → ∃ ph, o = some ph ∧ ph.id = some id ∧ ph.IsWorker) :
    KeepsJob w' o id ↔ (p.status = .failed → id ∈ w'.threw) := by
  have hstatus : (p.updated existing).status = p.status := by cases p <;> rfl
  have hpending : p.status ≠ .pending := by cases p <;> exact nofun
  constructor
  · intro h hs
    exact (h _ hrecord).2.2 (hstatus.trans hs)
  · intro h job hjob
    cases hrecord.symm.trans hjob
    rw [hstatus]
    exact ⟨fun hs => absurd hs hpending, ho, h⟩

omit [DecidableEq ι] in
theorem careful_answer : Careful w (.answer i) ↔ misreporting w (.answer i) = none := by
  simp [Careful, losing]

theorem keeps_answer_setting (hU : Unique w) {job : Job} (hi : w.phase i = some (.setting job)) :
    StepKeeps handler w (.answer i) := by
  obtain ⟨-, hpending⟩ := hU.fresh i job hi
  have hrecord : (step handler w (.answer i)).redis.jobs job.id = some job := by
    rw [step_answer hi]
    exact Function.update_self job.id (some job) w.redis.jobs
  refine (hU.hop_answer hi rfl (by simp)).keeps hU fun hK => iff_of_true ?_ ?_
  · intro job' hjob'
    cases hrecord.symm.trans hjob'
    simp only [hpending, reduceCtorEq, false_implies, and_true]
    exact fun _ => Or.inr ⟨_, rfl, rfl⟩
  · simp [careful_answer, misreporting, hi]

theorem keeps_answer_pushing (hU : Unique w) (hi : w.phase i = some (.pushing id)) :
    StepKeeps handler w (.answer i) := by
  have hop : Hop w (step handler w (.answer i)) i (some id) none := by
    rw [step_answer hi]
    exact hU.hop_push hi
  refine hop.keeps hU fun hK => iff_of_true ?_ (by simp [careful_answer, misreporting, hi])
  rw [step_answer hi]
  exact keepsJob_pushed hK hU hi

theorem keeps_answer_polling (hU : Unique w) (hi : w.phase i = some .polling) :
    StepKeeps handler w (.answer i) := by
  have hmis : Careful w (.answer i) := by simp [careful_answer, misreporting, hi]
  cases hlast : w.redis.queue.getLast? with
  | none =>
    have hop : Hop w (step handler w (.answer i)) i none none := by
      have hidle : step handler w (.answer i) = w.setPhase i none := by
        rw [step_answer hi]
        simp only [Phase.call, Redis.exec, hlast]
        rfl
      rw [hidle]
      exact hU.hop_idle (fun ph hp => by rw [hi] at hp; cases hp; rfl) (by simp)
    exact hop.keeps_idle hU hmis
  | some id =>
    have hpop : step handler w (.answer i) = ⟨{ w.redis with queue := w.redis.queue.dropLast },
        Function.update w.phase i (some (.loading id)), w.threw⟩ := by
      rw [step_answer hi]
      simp only [Phase.call, Redis.exec, hlast]
      rfl
    have hop : Hop w (step handler w (.answer i)) i (some id) (some (.loading id)) := by
      rw [hpop]
      exact hU.hop_pop hi hlast fun ph' h => (Option.some.inj h).symm
    refine hop.keeps hU fun hK => iff_of_true ?_ hmis
    rw [hpop]
    exact keepsJob_worker rfl trivial fun job hjob => (hK id job hjob).2.2

theorem keeps_answer_loading (hU : Unique w) (hi : w.phase i = some (.loading id)) :
    StepKeeps handler w (.answer i) := by
  refine (hU.hop_answer hi rfl (by simp)).keeps hU fun hK =>
    iff_of_true ?_ (by simp [careful_answer, misreporting, hi])
  rw [step_answer hi]
  show KeepsJob ⟨w.redis, _, w.threw⟩ (Phase.next (.loading id) (.ok (w.redis.jobs id))) id
  cases hjob : w.redis.jobs id with
  | none => exact keepsJob_gone hjob
  | some job => exact keepsJob_worker rfl trivial fun job hjob => (hK id job hjob).2.2

theorem keeps_answer_reading (hU : Unique w) {p : Purpose} (hi : w.phase i = some (.reading id p)) :
    StepKeeps handler w (.answer i) := by
  refine (hU.hop_answer hi rfl (by simp)).keeps hU fun hK =>
    iff_of_true ?_ (by simp [careful_answer, misreporting, hi])
  rw [step_answer hi]
  show KeepsJob ⟨w.redis, _, w.threw⟩ (Phase.next (.reading id p) (.ok (w.redis.jobs id))) id
  cases hjob : w.redis.jobs id with
  | none => exact keepsJob_gone hjob
  | some job => exact keepsJob_worker rfl trivial fun job hjob => (hK id job hjob).2.2

theorem keeps_answer_writing (hU : Unique w) {p : Purpose} {existing : Job}
    (hi : w.phase i = some (.writing id p existing)) : StepKeeps handler w (.answer i) := by
  have hrecord : (step handler w (.answer i)).redis.jobs id = some (p.updated existing) := by
    rw [step_answer hi]
    exact Function.update_self id (some (p.updated existing)) w.redis.jobs
  have hthrew : (step handler w (.answer i)).threw = w.threw := by
    rw [step_answer hi]
    rfl
  refine (hU.hop_answer hi rfl (by simp)).keeps hU fun hK =>
    (keepsJob_written hrecord fun hs => ?_).trans ?_
  · obtain ⟨job, rfl⟩ := p.exists_of_running hs
    exact ⟨_, rfl, rfl, trivial⟩
  · rw [hthrew, careful_answer]
    simp only [misreporting, hi]
    split_ifs <;> simp_all

theorem keeps_answer_handling (hU : Unique w) {job : Job}
    (hi : w.phase i = some (.handling id job)) : StepKeeps handler w (.answer i) := by
  refine (hU.hop_answer hi rfl (by simp)).keeps hU fun hK =>
    iff_of_true ?_ (by simp [careful_answer, misreporting, hi])
  rw [step_answer hi]
  show KeepsJob ⟨w.redis, _, _⟩ (Phase.next (.handling id job) (handler job)) id
  have hf : ∀ (threw : List String) job', w.redis.jobs id = some job' → job'.status = .failed →
      id ∈ threw ++ w.threw := fun threw job' hjob hs =>
    List.mem_append_right threw ((hK id job' hjob).2.2 hs)
  cases hr : handler job with
  | ok result => exact keepsJob_worker rfl trivial (hf _)
  | error message => exact keepsJob_worker rfl trivial (hf _)

theorem keeps_answer (hU : Unique w) (i : ι) : StepKeeps handler w (.answer i) := by
  cases hi : w.phase i with
  | none =>
    exact keeps_of_eq hU (by simp only [step, hi]) (by simp [careful_answer, misreporting, hi])
  | some ph =>
    cases ph with
    | setting job => exact keeps_answer_setting hU hi
    | pushing id => exact keeps_answer_pushing hU hi
    | polling => exact keeps_answer_polling hU hi
    | loading id => exact keeps_answer_loading hU hi
    | reading id p => exact keeps_answer_reading hU hi
    | writing id p existing => exact keeps_answer_writing hU hi
    | handling id job => exact keeps_answer_handling hU hi

/-! ### Failures -/

variable {message : String} {applied : Bool}

theorem keeps_fail_setting (hU : Unique w) {job : Job} (hi : w.phase i = some (.setting job)) :
    StepKeeps handler w (.fail i message applied) := by
  obtain ⟨hnone, hpending⟩ := hU.fresh i job hi
  have hqueue : job.id ∉ w.redis.queue := fun h => hU.queued job.id h ⟨i, _, hi, rfl⟩
  refine (hU.hop_fail hi rfl (by simp) (by simp)).keeps hU fun hK => ?_
  rw [step_fail hi (by simp)]
  cases applied with
  | false =>
    refine iff_of_true (keepsJob_gone hnone) ?_
    simp [Careful, losing, misreporting, hi]
  | true =>
    -- the record is there, and nobody will push the job
    refine iff_of_false (fun hk => ?_) (by simp [Careful, losing, hi])
    have hrecord := Function.update_self job.id (some job) w.redis.jobs
    rcases (hk job hrecord).1 hpending with hq | ⟨ph, ho, -⟩
    · exact hqueue hq
    · cases ho

theorem keeps_fail_pushing (hU : Unique w) (hi : w.phase i = some (.pushing id)) :
    StepKeeps handler w (.fail i message applied) := by
  have hqueue : id ∉ w.redis.queue := fun h => hU.queued id h ⟨i, _, hi, rfl⟩
  cases applied with
  | false =>
    refine (hU.hop_fail hi rfl (by simp) (by simp)).keeps hU fun hK => ?_
    rw [step_fail hi (by simp)]
    refine (keepsJob_over hqueue fun job hjob => (hK id job hjob).2.2).trans ?_
    simp [Careful, losing, misreporting, hi, World.isOpen]
  | true =>
    have hop : Hop w (step handler w (.fail i message true)) i (some id) none := by
      rw [step_fail hi (by simp)]
      exact hU.hop_push hi
    refine hop.keeps hU fun hK =>
      iff_of_true ?_ (by simp [Careful, losing, misreporting, hi])
    rw [step_fail hi (by simp)]
    exact keepsJob_pushed hK hU hi

theorem keeps_fail_polling (hU : Unique w) (hi : w.phase i = some .polling) :
    StepKeeps handler w (.fail i message applied) := by
  have hno : ∀ ph, w.phase i = some ph → ph.id = none := fun ph hp => by
    rw [hi] at hp
    cases hp
    rfl
  have hidle := hU.hop_idle (o := none) hno (by simp)
  cases applied with
  | false =>
    have hop : Hop w (step handler w (.fail i message false)) i none none := by
      rw [step_fail hi (by simp)]
      exact hidle
    exact hop.keeps_idle hU (by simp [Careful, losing, misreporting, hi])
  | true =>
    cases hlast : w.redis.queue.getLast? with
    | none =>
      have hop : Hop w (step handler w (.fail i message true)) i none none := by
        rw [step_fail hi (by simp)]
        simp only [Phase.call, Redis.exec, hlast]
        exact hidle
      exact hop.keeps_idle hU (by simp [Careful, losing, misreporting, hi, hlast])
    | some id =>
      have hpop : step handler w (.fail i message true) =
          ⟨{ w.redis with queue := w.redis.queue.dropLast }, Function.update w.phase i none,
            w.threw⟩ := by
        rw [step_fail hi (by simp)]
        simp only [Phase.call, Redis.exec, hlast]
        rfl
      have hop : Hop w (step handler w (.fail i message true)) i (some id) none := by
        rw [hpop]
        exact hU.hop_pop hi hlast (by simp)
      refine hop.keeps hU fun hK => ?_
      rw [hpop]
      refine Iff.trans (keepsJob_over ?_ fun job hjob => (hK id job hjob).2.2) ?_
      · exact hU.not_mem_dropLast hlast
      · simp [Careful, losing, misreporting, hi, hlast, World.isOpen]

theorem keeps_fail_loading (hU : Unique w) (hi : w.phase i = some (.loading id)) :
    StepKeeps handler w (.fail i message applied) := by
  refine (hU.hop_fail hi rfl (by simp) (by simp)).keeps hU fun hK => iff_of_true ?_ ?_
  · rw [step_fail hi (by simp)]
    refine keepsJob_worker rfl trivial fun job hjob => (hK id job ?_).2.2
    cases applied <;> exact hjob
  · cases applied <;> simp [Careful, losing, misreporting, hi]

theorem keeps_fail_reading (hU : Unique w) {p : Purpose} (hi : w.phase i = some (.reading id p)) :
    StepKeeps handler w (.fail i message applied) := by
  have hqueue : id ∉ w.redis.queue := fun h => hU.queued id h ⟨i, _, hi, rfl⟩
  have hsame : (if applied then (w.redis.exec handler (Phase.reading id p).call).1 else w.redis) =
      w.redis := by cases applied <;> rfl
  refine (hU.hop_fail hi rfl (by simp) (by simp)).keeps hU fun hK => ?_
  have hf : ∀ job, w.redis.jobs id = some job → job.status = .failed → id ∈ w.threw :=
    fun job hjob => (hK id job hjob).2.2
  rw [step_fail hi (by simp), hsame]
  show KeepsJob _ (p.after id (.error message)) id ↔ _
  rcases p.after_error id message with ⟨m, rfl, hafter⟩ | ⟨p', hp, hafter⟩
  · rw [hafter]
    refine (keepsJob_over hqueue hf).trans ?_
    cases applied <;> simp [Careful, losing, misreporting, hi, World.isOpen]
  · rw [hafter]
    refine iff_of_true (keepsJob_worker rfl trivial hf) ?_
    cases p with
    | outer m => exact absurd rfl (hp m)
    | running | completed | failed => cases applied <;> simp [Careful, losing, misreporting, hi]

theorem keeps_fail_writing (hU : Unique w) {p : Purpose} {existing : Job}
    (hi : w.phase i = some (.writing id p existing)) :
    StepKeeps handler w (.fail i message applied) := by
  have hqueue : id ∉ w.redis.queue := fun h => hU.queued id h ⟨i, _, hi, rfl⟩
  refine (hU.hop_fail hi rfl (by simp) (by simp)).keeps hU fun hK => ?_
  rw [step_fail hi (by simp)]
  show KeepsJob _ (p.after id (.error message)) id ↔ _
  cases applied with
  | false =>
    have hf : ∀ job, w.redis.jobs id = some job → job.status = .failed → id ∈ w.threw :=
      fun job hjob => (hK id job hjob).2.2
    rcases p.after_error id message with ⟨m, rfl, hafter⟩ | ⟨p', hp, hafter⟩
    · rw [hafter]
      refine (keepsJob_over hqueue hf).trans ?_
      simp [Careful, losing, misreporting, hi, World.isOpen]
    · rw [hafter]
      refine iff_of_true (keepsJob_worker rfl trivial hf) ?_
      cases p with
      | outer m => exact absurd rfl (hp m)
      | running | completed | failed => simp [Careful, losing, misreporting, hi]
  | true =>
    have hrecord := Function.update_self id (some (p.updated existing)) w.redis.jobs
    refine (keepsJob_written hrecord fun hs => ?_).trans ?_
    · obtain ⟨job, rfl⟩ := p.exists_of_running hs
      exact ⟨_, rfl, rfl, trivial⟩
    · have hlosing : losing w (.fail i message true) = none := by
        cases p <;> simp [losing, hi]
      show (p.status = .failed → id ∈ w.threw) ↔ _
      simp only [Careful, hlosing, true_and, misreporting, hi]
      split_ifs <;> simp_all

theorem keeps_fail (hU : Unique w) (i : ι) (message : String) (applied : Bool) :
    StepKeeps handler w (.fail i message applied) := by
  cases hi : w.phase i with
  | none =>
    refine keeps_of_eq hU (by simp only [step, hi]) ?_
    cases applied <;> simp [Careful, losing, misreporting, hi]
  | some ph =>
    cases ph with
    | setting job => exact keeps_fail_setting hU hi
    | pushing id => exact keeps_fail_pushing hU hi
    | polling => exact keeps_fail_polling hU hi
    | loading id => exact keeps_fail_loading hU hi
    | reading id p => exact keeps_fail_reading hU hi
    | writing id p existing => exact keeps_fail_writing hU hi
    | handling id job =>
      refine keeps_of_eq hU (by simp only [step, hi]) ?_
      cases applied <;> simp [Careful, losing, misreporting, hi]

/-! ### The other steps -/

theorem keeps_crash (hU : Unique w) (i : ι) : StepKeeps handler w (.crash i) := by
  have hcareful : Careful w (.crash i) ↔ losing w (.crash i) = none := by
    simp [Careful, misreporting]
  by_cases hid : ∃ ph id, w.phase i = some ph ∧ ph.id = some id
  · obtain ⟨ph, id, hi, hid⟩ := hid
    have hqueue : id ∉ w.redis.queue := fun h => hU.queued id h ⟨i, ph, hi, hid⟩
    have hop : Hop w (step handler w (.crash i)) i (some id) none :=
      hU.hop hi hid rfl (fun _ _ => rfl) (fun _ _ => Iff.rfl) (by simp)
    refine hop.keeps hU fun hK => ?_
    refine Iff.trans (keepsJob_over hqueue fun job hjob => (hK id job hjob).2.2) ?_
    simp [hcareful, losing, hi, hid, World.isOpen, step, World.setPhase]
  · have hno : ∀ ph, w.phase i = some ph → ph.id = none := by
      intro ph hi
      cases h : ph.id with
      | none => rfl
      | some id => exact absurd ⟨ph, id, hi, h⟩ hid
    have hbind : (w.phase i).bind Phase.id = none := by
      cases hi : w.phase i with
      | none => rfl
      | some ph => exact hno ph hi
    refine (hU.hop_idle (o := none) hno (by simp)).keeps_idle hU (hcareful.mpr ?_)
    show Option.filter w.isOpen ((w.phase i).bind Phase.id) = none
    rw [hbind]
    rfl

theorem keeps_start (hU : Unique w) (i : ι) : StepKeeps handler w (.work i) := by
  have hcareful : Careful w (.work i) := ⟨rfl, rfl⟩
  cases hi : w.phase i with
  | some ph => exact keeps_of_eq hU (by simp only [step, hi]) hcareful
  | none =>
    have hop : Hop w (step handler w (.work i)) i none (some .polling) := by
      simp only [step, hi]
      exact hU.hop_idle (by simp [hi]) (by simp)
    exact hop.keeps_idle hU hcareful

theorem keeps_enqueue (hU : Unique w) {type : JobType} {payload : String}
    (hL : Legal w (.enqueue i id type payload)) :
    StepKeeps handler w (.enqueue i id type payload) := by
  have hcareful : Careful w (.enqueue i id type payload) := ⟨rfl, rfl⟩
  cases hi : w.phase i with
  | some ph => exact keeps_of_eq hU (by simp only [step, hi]) hcareful
  | none =>
    have hop : Hop w (step handler w (.enqueue i id type payload)) i (some id)
        (some (.setting (newJob id type payload))) := by
      simp only [step, hi]
      exact hU.hop_enqueue hi hL
    refine hop.keeps hU fun hK => iff_of_true (keepsJob_gone ?_) hcareful
    simp only [step, hi]
    exact hL.1

theorem keeps_expire (hU : Unique w) (id : String) : StepKeeps handler w (.expire id) := by
  have hnone : ∀ id' job, (step handler w (.expire id)).redis.jobs id' = some job →
      w.redis.jobs id' = some job := by
    intro id' job hjob
    change Function.update w.redis.jobs id none id' = some job at hjob
    by_cases h : id' = id
    · rw [h, Function.update_self] at hjob
      cases hjob
    · rwa [Function.update_of_ne h] at hjob
  refine ⟨⟨hU.nodup, hU.queued, hU.hand, fun i job hi => ?_⟩, fun hK => iff_of_true ?_ ⟨rfl, rfl⟩⟩
  · obtain ⟨hfresh, hpending⟩ := hU.fresh i job hi
    refine ⟨?_, hpending⟩
    cases hjob : (step handler w (.expire id)).redis.jobs job.id with
    | none => rfl
    | some job' =>
      rw [hnone job.id job' hjob] at hfresh
      cases hfresh
  · exact fun id' job hjob => hK id' job (hnone id' job hjob)

/-- **One step.** -/
theorem keeps_step (hU : Unique w) {a : Action ι} (hL : Legal w a) : StepKeeps handler w a := by
  cases a with
  | enqueue i id type payload => exact keeps_enqueue hU hL
  | work i => exact keeps_start hU i
  | answer i => exact keeps_answer hU i
  | fail i message applied => exact keeps_fail hU i message applied
  | crash i => exact keeps_crash hU i
  | expire id => exact keeps_expire hU id

omit [DecidableEq ι] in
theorem unique_init : Unique (World.init : World ι) where
  nodup := List.nodup_nil
  queued := fun _ h => absurd h List.not_mem_nil
  hand := fun _ _ _ _ _ h => nomatch h
  fresh := fun _ _ h => nomatch h

/-! ### Runs -/

omit [DecidableEq ι] in
/-- Where no pending job is on its way, nothing is missing. -/
theorem Kept.truthful (hK : Kept w) (h : AtRest w) : Truthful w := by
  intro id job hjob
  obtain ⟨hp, hr, hf⟩ := hK id job hjob
  exact ⟨fun hs => (hp hs).resolve_right (h id job hjob hs), hr, hf⟩

/-- No record has been written yet. -/
structure Blank (w : World ι) : Prop where
  jobs : ∀ id, w.redis.jobs id = none
  phase : ∀ i id p existing, w.phase i ≠ some (.writing id p existing)

theorem Blank.move (h : Blank w) (i : ι) (ho : ∀ id p existing, o ≠ some (.writing id p existing))
    (hphase : w'.phase = Function.update w.phase i o) (hjobs : w'.redis.jobs = w.redis.jobs) :
    Blank w' where
  jobs := fun id => by rw [hjobs, h.jobs id]
  phase := fun j id p existing hj => by
    rw [hphase] at hj
    by_cases hji : j = i
    · subst hji
      rw [Function.update_self] at hj
      exact ho id p existing hj
    · rw [Function.update_of_ne hji] at hj
      exact h.phase j id p existing hj

omit [DecidableEq ι] in
/-- Without a record a task gets to no update. -/
theorem Blank.next_ne_writing (h : Blank w) (hi : w.phase i = some ph) (id : String) (p : Purpose)
    (existing : Job) :
    ph.next (w.redis.exec handler ph.call).2 ≠ some (.writing id p existing) := by
  cases ph with
  | setting job => simp [Phase.next, Phase.call, Redis.exec]
  | pushing id' => simp [Phase.next]
  | polling =>
    simp only [Phase.call, Redis.exec]
    cases w.redis.queue.getLast? <;> simp [Phase.next]
  | loading id' =>
    show Phase.next (.loading id') (.ok (w.redis.jobs id')) ≠ _
    rw [h.jobs]
    simp [Phase.next]
  | reading id' q =>
    show Phase.next (.reading id' q) (.ok (w.redis.jobs id')) ≠ _
    rw [h.jobs]
    exact q.after_ne_writing p id' id _ existing
  | writing id' q existing' => exact absurd hi (h.phase i id' q existing')
  | handling id' job =>
    show Phase.next (.handling id' job) (handler job) ≠ _
    cases handler job <;> simp [Phase.next]

omit [DecidableEq ι] in
/-- Only `enqueueJob` writes the first record. -/
theorem Blank.exec_jobs (h : Blank w) (hi : w.phase i = some ph) (hs : ∀ job, ph ≠ .setting job) :
    (w.redis.exec handler ph.call).1.jobs = w.redis.jobs := by
  cases ph with
  | setting job => exact absurd rfl (hs job)
  | writing id p existing => exact absurd hi (h.phase i id p existing)
  | polling =>
    simp only [Phase.call, Redis.exec]
    cases w.redis.queue.getLast? <;> rfl
  | pushing | loading | reading | handling => rfl

theorem Blank.step_answer (h : Blank w) (hr : recorded w (.answer i) = none) :
    Blank (step handler w (.answer i)) := by
  cases hi : w.phase i with
  | none =>
    have hstep : step handler w (.answer i) = w := by simp only [step, hi]
    rw [hstep]
    exact h
  | some ph =>
    have hs : ∀ job, ph ≠ .setting job := by
      rintro job rfl
      simp [recorded, hi] at hr
    rw [JobsKept.step_answer hi]
    exact h.move i (h.next_ne_writing hi) rfl (h.exec_jobs hi hs)

theorem Blank.step_fail (h : Blank w) {message : String} {applied : Bool}
    (hr : recorded w (.fail i message applied) = none) :
    Blank (step handler w (.fail i message applied)) := by
  cases hi : w.phase i with
  | none =>
    have hstep : step handler w (.fail i message applied) = w := by simp only [step, hi]
    rw [hstep]
    exact h
  | some ph =>
    by_cases hh : ∃ id job, ph = .handling id job
    · obtain ⟨id, job, rfl⟩ := hh
      have hstep : step handler w (.fail i message applied) = w := by simp only [step, hi]
      rw [hstep]
      exact h
    · push Not at hh
      rw [JobsKept.step_fail hi hh]
      refine h.move i (ph.next_error_ne_writing message) rfl ?_
      cases applied with
      | false => rfl
      | true =>
        refine h.exec_jobs hi ?_
        rintro job rfl
        simp [recorded, hi] at hr

theorem Blank.step (h : Blank w) {a : Action ι} (hr : recorded w a = none) :
    Blank (JobQueue.step handler w a) := by
  cases a with
  | answer i => exact h.step_answer hr
  | fail i message applied => exact h.step_fail hr
  | crash i => exact h.move i (by simp) rfl rfl
  | work i =>
    unfold JobQueue.step
    dsimp only
    split
    · exact h.move i (by simp) rfl rfl
    · exact h
  | enqueue i id type payload =>
    unfold JobQueue.step
    dsimp only
    split
    · exact h.move i (by simp) rfl rfl
    · exact h
  | expire id =>
    refine ⟨fun id' => ?_, h.phase⟩
    show Function.update w.redis.jobs id none id' = none
    by_cases hid : id' = id
    · rw [hid, Function.update_self]
    · rw [Function.update_of_ne hid]
      exact h.jobs id'

/-- A record that `enqueueJob` has just written is in no queue yet. -/
theorem not_truthful_of_recorded (hU : Unique w) {a : Action ι} (hr : recorded w a = some id) :
    ¬ Truthful (step handler w a) := by
  have hset : ∀ i job, w.phase i = some (.setting job) → ∀ w' : World ι,
      w'.redis = (w.redis.exec handler (.set job.id job)).1 → ¬ Truthful w' := by
    intro i job hi w' hredis h
    have hrecord : w'.redis.jobs job.id = some job := by
      rw [hredis]
      exact Function.update_self job.id (some job) w.redis.jobs
    have hq := (h job.id job hrecord).1 (hU.fresh i job hi).2
    rw [hredis] at hq
    exact hU.queued job.id hq ⟨i, _, hi, rfl⟩
  unfold recorded at hr
  split at hr
  · split at hr
    · next i job hi =>
      refine hset _ _ hi _ ?_
      rw [step_answer hi]
      rfl
    · cases hr
  · split at hr
    · next i message job hi =>
      refine hset _ _ hi _ ?_
      rw [step_fail hi (by simp)]
      rfl
    · cases hr
  · cases hr

/-- A record is missing nothing only as long as there is none. -/
theorem truthful_iff {l : List (Action ι)} :
    ∀ {w : World ι}, Unique w → Blank w → AllSteps (step handler) Legal w l →
      (AllStates (step handler) Truthful w l ↔
        AllSteps (step handler) (fun w a => recorded w a = none) w l) := by
  have htrue : ∀ {w : World ι}, Blank w → Truthful w := fun hB id job hjob => by
    rw [hB.jobs id] at hjob
    cases hjob
  induction l with
  | nil => exact fun _ hB _ => ⟨fun _ => trivial, fun _ => htrue hB⟩
  | cons a l ih =>
    intro w hU hB hL
    have hU' : Unique (step handler w a) := (keeps_step hU hL.1).1
    cases hr : recorded w a with
    | none =>
      have hiff := ih hU' (hB.step hr) hL.2
      exact ⟨fun h => ⟨hr, hiff.mp h.2⟩, fun h => ⟨htrue hB, hiff.mpr h.2⟩⟩
    | some id =>
      refine iff_of_false (fun h => ?_) fun h => ?_
      · exact not_truthful_of_recorded hU hr h.2.first
      · exact absurd (hr.symm.trans h.1) nofun

/-- **The job queue.** Every pending job is in the queue or on its way to it or from it, every
running job is held by a live worker and every failed one has a handler that has thrown, exactly if
every step of the run is careful. Where no pending job is on its way all of them are then in the
queue. Between the two calls of `enqueueJob` a pending job is never in the queue. -/
theorem keepsJobs (handler : Job → Except String JobResult) (l : List (Action ι))
    (hl : AllSteps (step handler) Legal World.init l) :
    (AllStates (step handler) Kept World.init l ↔ AllSteps (step handler) Careful World.init l) ∧
    (AllSteps (step handler) Careful World.init l →
      AllStates (step handler) (fun w => AtRest w → Truthful w) World.init l) ∧
    (AllStates (step handler) Truthful World.init l ↔
      AllSteps (step handler) (fun w a => recorded w a = none) World.init l) := by
  have hkept : AllStates (step handler) Kept World.init l ↔
      AllSteps (step handler) Careful World.init l :=
    allStates_iff_allSteps (fun w a hU hL => (keeps_step hU hL).1)
      (fun w a hU hL hK => (keeps_step hU hL).2 hK) unique_init hl fun _ _ h => nomatch h
  exact ⟨hkept, fun h => (hkept.mpr h).imp fun w hK hrest => hK.truthful hrest,
    truthful_iff unique_init ⟨fun _ => rfl, fun _ _ _ _ h => nomatch h⟩ hl⟩

end Hops

/-- The two calls of `enqueueJob`, by the caller `false`, and the first four of the worker `true`. -/
def enqueued : List (Action Bool) :=
  [.enqueue false "j1" .dbVacuum "p", .answer false, .answer false]

/-- A worker takes the job, and marks it as running. -/
def taken : List (Action Bool) :=
  [.work true, .answer true, .answer true, .answer true, .answer true]

theorem legal_init {l : List (Action Bool)} {i : Bool} {id : String} {type : JobType}
    {payload : String} (h : AllSteps (step processJob) Legal
      (step processJob World.init (.enqueue i id type payload)) l) :
    AllSteps (step processJob) Legal World.init (.enqueue i id type payload :: l) :=
  ⟨by simp [Legal, World.init, InHand], h⟩

/-- A job that goes through. -/
theorem keepsJobs_through :
    AllStates (step processJob) Kept World.init
      (enqueued ++ taken ++ [.answer true, .answer true, .answer true]) :=
  (keepsJobs processJob (enqueued ++ taken ++ [.answer true, .answer true, .answer true])
    (legal_init (by simp [AllSteps, Legal, taken]))).1.mpr (by decide +kernel)

/-- A `lPush` that fails, a worker that crashes, and a record of success that cannot be written. -/
def pushFails : List (Action Bool) :=
  [.enqueue false "j1" .dbVacuum "p", .answer false, .fail false "ECONNRESET" false]

/-- The worker crashes before the handler has answered. -/
def workerCrashes : List (Action Bool) := enqueued ++ taken ++ [.crash true]

/-- The handler returns, and its success cannot be written. -/
def successUnwritten : List (Action Bool) :=
  enqueued ++ taken ++
    [.answer true, .answer true, .fail true "ECONNRESET" false, .answer true, .answer true]

theorem legal_runs : ∀ l ∈ [pushFails, workerCrashes, successUnwritten],
    AllSteps (step processJob) Legal World.init l := by
  intro l hl
  simp only [List.mem_cons, List.not_mem_nil, or_false] at hl
  rcases hl with rfl | rfl | rfl <;> exact legal_init (by simp [AllSteps, Legal, taken])

/-- The job stays pending and is nowhere, it stays running and nobody has it, and it is failed
though its handler has returned. -/
theorem not_truthful :
    (AllSteps (step processJob) Legal World.init pushFails ∧
      ¬ Truthful (run (step processJob) World.init pushFails)) ∧
    (AllSteps (step processJob) Legal World.init workerCrashes ∧
      ¬ Truthful (run (step processJob) World.init workerCrashes)) ∧
    AllSteps (step processJob) Legal World.init successUnwritten ∧
      ¬ Truthful (run (step processJob) World.init successUnwritten) := by
  refine ⟨⟨legal_runs _ (by simp), fun h => ?_⟩, ⟨legal_runs _ (by simp), fun h => ?_⟩,
    legal_runs _ (by simp), fun h => ?_⟩
  · have hq := (h "j1" (newJob "j1" .dbVacuum "p") (by decide +kernel)).1 rfl
    revert hq
    decide +kernel
  · have hnone : ∀ i, (run (step processJob) World.init workerCrashes).phase i = none := by
      decide +kernel
    obtain ⟨i, ph, hi, -⟩ := (h "j1" ((newJob "j1" .dbVacuum "p").updated .running none none)
      (by decide +kernel)).2.1 rfl
    rw [hnone i] at hi
    cases hi
  · have hf := (h "j1" _ rfl).2.2 (by decide +kernel)
    revert hf
    decide +kernel

end VestingDripStream.Backend.JobsKept
