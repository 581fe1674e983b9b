import VestingDripStream.Lib.Run
import Mathlib.Data.List.Sort

/-! # The migration gate

`runMigrations` and `runMigrationsOrExit` of `migrate.ts`, in replicas that start against one
database. A replica reads the applied migrations and, if some are pending, calls the runner, which
takes an advisory lock, records the pending migrations in order and gives the lock back. If the lock
is held the runner throws "Another migration is already running"; `runMigrations` then reports
`pending`, and `runMigrationsOrExit`, which exits on `failed` only, returns.

So a replica that lost the lock starts before the other one is done, or after it has failed.
`gate_iff_deferredInTime` says that this is the only way through the gate with a stale schema. -/

namespace VestingDripStream.Backend.Migrate

open VestingDripStream.Lib.Run

/-! ### Files and options -/

/-- `name.endsWith(suffix)`. -/
def endsWith (name suffix : String) : Bool := suffix.toList.isSuffixOf name.toList

/-- `name.slice(0, -3)`. -/
def sliceExtension (name : String) : String := String.ofList (name.toList.take (name.length - 3))

/-- `listManagedMigrations`, for the files of the directory. -/
def listManagedMigrations (files : List String) : List String :=
  ((files.filter fun name => endsWith name ".ts").map sliceExtension).insertionSort (· ≤ ·)

/-- `listUnmanagedMigrations`. -/
def listUnmanagedMigrations (files : List String) : List String :=
  (files.filter fun name => !endsWith name ".ts").insertionSort (· ≤ ·)

/-- The option `dryRun` and the two variables of the environment. -/
structure Options where
  dryRun : Option Bool
  migrateDryRun : Option String
  dbMigrateDryRun : Option String
  deriving DecidableEq, Repr

/-- `isDryRun`. -/
def isDryRun (o : Options) : Bool :=
  o.migrateDryRun == some "true" || o.dbMigrateDryRun == some "true"

/-- `options.dryRun ?? isDryRun()`. -/
def Options.effective (o : Options) : Bool := o.dryRun.getD (isDryRun o)

/-! ### Results -/

/-- `MigrationStatus`. -/
inductive MigrationStatus
  | current
  | pending
  | failed
  deriving DecidableEq, Repr

/-- `MigrationResult`, with the message of the error. -/
structure MigrationResult where
  status : MigrationStatus
  applied : List String
  pending : List String
  unmanaged : List String
  dryRun : Bool
  error : Option String
  deriving DecidableEq, Repr

/-- `computePending`. -/
def computePending (managed applied : List String) : List String :=
  managed.filter fun name => name ∉ applied

/-- `/another migration is already running/i`. -/
def isAlreadyRunning (message : String) : Bool :=
  decide ("another migration is already running".toList <:+: message.toList.map Char.toLower)

/-- What `runMigrations` returns after it caught an error. -/
def caught (files : List String) (dryRun : Bool) (message : String) : MigrationResult :=
  if isAlreadyRunning message then
    ⟨.pending, [], listManagedMigrations files, listUnmanagedMigrations files, dryRun, none⟩
  else
    ⟨.failed, [], listManagedMigrations files, listUnmanagedMigrations files, dryRun, some message⟩

/-! ### Replicas -/

/-- How far a replica is: before it reads the applied migrations, before it calls the runner, in the
runner with the lock, after `runMigrations`, and past `runMigrationsOrExit` or stopped. -/
inductive Phase
  | booted
  | planned (pending : List String)
  | running (pending appliedNow todo : List String)
  | finished (result : MigrationResult)
  | returned (result : MigrationResult)
  | exited
  deriving DecidableEq, Repr

/-- A replica. -/
structure Replica where
  files : List String
  dryRun : Bool
  phase : Phase
  deriving DecidableEq, Repr

/-- The migrations table, if there is one, the holder of the advisory lock, and the replicas. -/
structure World where
  recorded : Option (List String)
  lock : Option ℕ
  replicas : ℕ → Option Replica

/-- The steps of the replicas. `apply` commits the next `count` of the migrations the runner has to
do; `fail` throws an error where the replica stands, and `crash` stops its process. -/
inductive Action
  | boot (id : ℕ) (files : List String) (options : Options)
  | read (id : ℕ)
  | runner (id : ℕ)
  | apply (id count : ℕ)
  | finish (id : ℕ)
  | fail (id : ℕ) (message : String)
  | gate (id : ℕ)
  | crash (id : ℕ)

/-- `readApplied`: nothing, if there is no table. -/
def World.readApplied (w : World) : List String := w.recorded.getD []

/-- The replica at `id` in another phase. -/
def World.move (w : World) (id : ℕ) (r : Replica) (ph : Phase) : World :=
  { w with replicas := Function.update w.replicas id (some { r with phase := ph }) }

/-- The session of a replica gives the lock back, if it holds it. -/
def World.unlock (w : World) (id : ℕ) : World :=
  { w with lock := if w.lock = some id then none else w.lock }

/-- What a replica does after it has read the applied migrations. -/
def plan (files : List String) (dryRun : Bool) (applied : List String) : Phase :=
  match computePending (listManagedMigrations files) applied with
  | [] => .finished ⟨.current, [], [], listUnmanagedMigrations files, dryRun, none⟩
  | pending =>
    if dryRun then
      .finished ⟨.pending, [], pending, listUnmanagedMigrations files, dryRun, none⟩
    else .planned pending

/-- The result after the runner has returned. -/
def applied (files pending appliedNow : List String) : MigrationResult :=
  ⟨.current, if 0 < appliedNow.length then appliedNow else pending, [],
    listUnmanagedMigrations files, false, none⟩

section Steps

variable (w : World) (id : ℕ) (r : Replica)

/-- The replica reads the applied migrations. -/
def onRead : World :=
  match r.phase with
  | .booted => w.move id r (plan r.files r.dryRun w.readApplied)
  | _ => w

/-- The replica calls the runner, which takes the lock and looks what it has to do, or throws. -/
def onRunner : World :=
  match r.phase, w.lock with
  | .planned _, some _ =>
    w.move id r (.finished (caught r.files r.dryRun "Another migration is already running"))
  | .planned pending, none =>
    { w with lock := some id }.move id r
      (.running pending [] (computePending (listManagedMigrations r.files) w.readApplied))
  | _, _ => w

/-- The runner commits the next migrations. -/
def onApply (count : ℕ) : World :=
  match r.phase with
  | .running pending appliedNow todo =>
    { w with recorded := some (w.readApplied ++ todo.take count) }.move id r
      (.running pending (appliedNow ++ todo.take count) (todo.drop count))
  | _ => w

/-- The runner has nothing left to do and returns. -/
def onFinish : World :=
  match r.phase with
  | .running pending appliedNow [] =>
    (w.unlock id).move id r (.finished (applied r.files pending appliedNow))
  | _ => w

/-- An error is thrown inside `runMigrations`. -/
def onFail (message : String) : World :=
  match r.phase with
  | .booted | .planned _ | .running .. =>
    (w.unlock id).move id r (.finished (caught r.files r.dryRun message))
  | _ => w

/-- `runMigrationsOrExit` goes on with the result. -/
def onGate : World :=
  match r.phase with
  | .finished result =>
    if result.status = .failed then w.move id r .exited else w.move id r (.returned result)
  | _ => w

end Steps

/-- The replica an action is of. -/
def Action.id : Action → ℕ
  | .boot id .. | .read id | .runner id | .apply id _ | .finish id | .fail id _ | .gate id
  | .crash id => id

/-- One step. -/
def step (w : World) (a : Action) : World :=
  match w.replicas a.id with
  | none =>
    match a with
    | .boot id files options =>
      { w with
        replicas := Function.update w.replicas id (some ⟨files, options.effective, .booted⟩) }
    | _ => w
  | some r =>
    match a with
    | .boot .. => w
    | .read id => onRead w id r
    | .runner id => onRunner w id r
    | .apply id count => onApply w id r count
    | .finish id => onFinish w id r
    | .fail id message => onFail w id r message
    | .gate id => onGate w id r
    | .crash id => (w.unlock id).move id r .exited

/-- No replica has started. -/
def World.start (recorded : Option (List String)) : World := ⟨recorded, none, fun _ => none⟩

/-! ### The gate -/

/-- All migrations that the replica manages are recorded. -/
def Migrated (w : World) (r : Replica) : Prop :=
  ∀ name ∈ listManagedMigrations r.files, name ∈ w.readApplied

instance (w : World) (r : Replica) : Decidable (Migrated w r) := by
  unfold Migrated; infer_instance

/-- Past `runMigrationsOrExit`. -/
def Replica.hasReturned (r : Replica) : Bool :=
  match r.phase with
  | .returned _ => true
  | _ => false

/-- **The demand.** A replica that has returned, and was no dry run, found all migrations
recorded. -/
def Gate (w : World) : Prop :=
  ∀ id r, w.replicas id = some r → r.hasReturned → r.dryRun = false → Migrated w r

/-- The replica was told that another one migrates, and has not yet returned. -/
def Replica.isDeferred (r : Replica) : Bool :=
  match r.phase with
  | .finished result => result.status == .pending && !r.dryRun
  | _ => false

/-- A replica that was told that another one migrates returns after all is recorded. -/
def DeferredInTime (w : World) : Action → Prop
  | .gate id => ∀ r ∈ w.replicas id, r.isDeferred → Migrated w r
  | _ => True

instance (w : World) (a : Action) : Decidable (DeferredInTime w a) := by
  unfold DeferredInTime; split <;> infer_instance

/-! ### Names -/

theorem mem_computePending {managed applied : List String} {name : String} :
    name ∈ computePending managed applied ↔ name ∈ managed ∧ name ∉ applied := by
  simp [computePending]

/-! ### The invariant -/

/-- What is known of a replica in its phase: the runner has all of what is not recorded still to do,
and the status `current` says that there is no such thing. -/
def ReplicaSound (w : World) (r : Replica) : Prop :=
  match r.phase with
  | .running _ _ todo => ∀ name ∈ listManagedMigrations r.files, name ∈ w.readApplied ∨ name ∈ todo
  | .finished result => result.status = .current → Migrated w r
  | _ => True

/-- The invariant. -/
def Sound (w : World) : Prop := ∀ id r, w.replicas id = some r → ReplicaSound w r

variable {w w' : World} {id : ℕ} {r : Replica} {ph : Phase}

theorem Migrated.mono (h : Migrated w r) (hsub : w.readApplied ⊆ w'.readApplied) : Migrated w' r :=
  fun name hn => hsub (h name hn)

theorem ReplicaSound.mono (h : ReplicaSound w r) (hsub : w.readApplied ⊆ w'.readApplied) :
    ReplicaSound w' r := by
  unfold ReplicaSound at h ⊢
  cases hph : r.phase with
  | running _ _ todo =>
    simp only [hph] at h
    exact fun name hn => (h name hn).imp_left fun ha => hsub ha
  | finished result =>
    simp only [hph] at h
    exact fun hc => (h hc).mono hsub
  | _ => trivial

/-- A replica goes on, and nothing is taken from what is recorded. -/
structure Moves (w : World) (id : ℕ) (r : Replica) (ph : Phase) (w' : World) : Prop where
  readApplied : w.readApplied ⊆ w'.readApplied
  replicas : w'.replicas = Function.update w.replicas id (some { r with phase := ph })

theorem Moves.cases (h : Moves w id r ph w') {j : ℕ} {s : Replica} (hs : w'.replicas j = some s) :
    (j = id ∧ s = { r with phase := ph }) ∨ w.replicas j = some s := by
  rw [h.replicas] at hs
  exact of_update_eq_some hs

theorem Moves.sound (h : Moves w id r ph w') (hs : Sound w)
    (hnew : ReplicaSound w' { r with phase := ph }) : Sound w' := by
  intro j s hj
  rcases h.cases hj with ⟨-, rfl⟩ | hold
  · exact hnew
  · exact (hs j s hold).mono h.readApplied

/-- The gate stays as it was, if the replica does not go through it. -/
theorem Moves.gate (h : Moves w id r ph w') (hg : Gate w)
    (hnew : Replica.hasReturned { r with phase := ph } → r.dryRun = false → Migrated w' r) :
    Gate w' := by
  intro j s hj hret hdry
  rcases h.cases hj with ⟨-, rfl⟩ | hold
  · exact hnew hret hdry
  · exact (hg j s hold hret hdry).mono h.readApplied

/-- The phase after `runMigrations` has caught an error is sound. -/
theorem sound_caught (w : World) (r : Replica) (message : String) :
    ReplicaSound w { r with phase := .finished (caught r.files r.dryRun message) } := by
  intro hc
  unfold caught at hc
  split_ifs at hc

/-- If nothing is pending all is recorded; else the replica is a dry run, or calls the runner. -/
theorem plan_cases (files : List String) (dryRun : Bool) (applied : List String) :
    (∃ result, plan files dryRun applied = .finished result ∧ (result.status = .current →
      ∀ name ∈ listManagedMigrations files, name ∈ applied)) ∨
    ∃ pending, plan files dryRun applied = .planned pending := by
  unfold plan
  split
  case h_1 hnone =>
    refine Or.inl ⟨_, rfl, fun _ name hn => ?_⟩
    by_contra hnot
    have hmem := mem_computePending.mpr ⟨hn, hnot⟩
    rw [hnone] at hmem
    cases hmem
  case h_2 =>
    split_ifs
    · exact Or.inl ⟨_, rfl, fun hc => nomatch hc⟩
    · exact Or.inr ⟨_, rfl⟩

/-- The replica goes on to a phase that is sound and not past the gate, or stays. -/
def Advances (w : World) (id : ℕ) (r : Replica) (w' : World) : Prop :=
  w' = w ∨ ∃ ph, Moves w id r ph w' ∧ ReplicaSound w' { r with phase := ph } ∧
    Replica.hasReturned { r with phase := ph } = false

theorem advances_onRead : Advances w id r (onRead w id r) := by
  unfold onRead
  split
  case h_1 =>
    rcases plan_cases r.files r.dryRun w.readApplied with ⟨result, heq, hcur⟩ | ⟨pending, heq⟩
    · rw [heq]
      exact Or.inr ⟨_, ⟨List.Subset.refl _, rfl⟩, hcur, rfl⟩
    · rw [heq]
      exact Or.inr ⟨_, ⟨List.Subset.refl _, rfl⟩, trivial, rfl⟩
  case h_2 => exact Or.inl rfl

theorem advances_onRunner : Advances w id r (onRunner w id r) := by
  unfold onRunner
  split
  case h_1 => exact Or.inr ⟨_, ⟨List.Subset.refl _, rfl⟩, sound_caught _ _ _, rfl⟩
  case h_2 =>
    refine Or.inr ⟨_, ⟨List.Subset.refl _, rfl⟩, fun name hn => ?_, rfl⟩
    -- what is not recorded is what the runner has to do
    by_cases hrec : name ∈ w.readApplied
    · exact Or.inl hrec
    · exact Or.inr (mem_computePending.mpr ⟨hn, hrec⟩)
  case h_3 => exact Or.inl rfl

theorem advances_onApply (h : ReplicaSound w r) (count : ℕ) :
    Advances w id r (onApply w id r count) := by
  unfold ReplicaSound at h
  unfold onApply
  split
  case h_1 todo hph =>
    simp only [hph] at h
    refine Or.inr ⟨_, ⟨List.subset_append_left .., rfl⟩, fun name hn => ?_, rfl⟩
    rcases h name hn with hrec | htodo
    · exact Or.inl (List.mem_append_left _ hrec)
    · rw [← List.take_append_drop count todo, List.mem_append] at htodo
      exact htodo.imp_left (List.mem_append_right _)
  case h_2 => exact Or.inl rfl

theorem advances_onFinish (h : ReplicaSound w r) : Advances w id r (onFinish w id r) := by
  unfold ReplicaSound at h
  unfold onFinish
  split
  case h_1 hph =>
    simp only [hph] at h
    refine Or.inr ⟨_, ⟨List.Subset.refl _, rfl⟩, fun _ name hn => ?_, rfl⟩
    exact (h name hn).resolve_right List.not_mem_nil
  case h_2 => exact Or.inl rfl

theorem advances_onFail (message : String) : Advances w id r (onFail w id r message) := by
  unfold onFail
  split
  case h_4 => exact Or.inl rfl
  all_goals exact Or.inr ⟨_, ⟨List.Subset.refl _, rfl⟩, sound_caught _ _ _, rfl⟩

/-- Neither the invariant nor the gate is at stake while a replica is not past the gate. -/
theorem Advances.keeps (h : Advances w id r w') (hs : Sound w) :
    Sound w' ∧ (Gate w → Gate w') := by
  rcases h with rfl | ⟨ph, hmoves, hsound, hnot⟩
  · exact ⟨hs, fun hg => hg⟩
  · refine ⟨hmoves.sound hs hsound, fun hg => hmoves.gate hg fun hret => ?_⟩
    rw [hnot] at hret
    cases hret

theorem advances_start (h : r.phase = .booted) :
    Advances w id r { w with replicas := Function.update w.replicas id (some r) } := by
  refine Or.inr ⟨.booted, ⟨List.Subset.refl _, ?_⟩, trivial, rfl⟩
  rw [← h]

theorem sound_onGate (hs : Sound w) : Sound (onGate w id r) := by
  unfold onGate
  split
  · split_ifs
    · exact Moves.sound (r := r) (w := w) ⟨List.Subset.refl _, rfl⟩ hs trivial
    · exact Moves.sound (r := r) (w := w) ⟨List.Subset.refl _, rfl⟩ hs trivial
  · exact hs

/-- **At the gate** it is only a deferred replica that may find the schema stale. -/
theorem gate_onGate_iff (h : ReplicaSound w r) (hg : Gate w) :
    Gate (onGate w id r) ↔ (r.isDeferred → Migrated w r) := by
  unfold ReplicaSound at h
  unfold onGate Replica.isDeferred
  split
  case h_2 => exact iff_of_true hg fun hd => nomatch hd
  case h_1 result hph =>
    simp only [hph] at h
    have hmoves : ∀ ph, Moves w id r ph (w.move id r ph) := fun ph => ⟨List.Subset.refl _, rfl⟩
    split_ifs with hfailed
    · refine iff_of_true ((hmoves _).gate hg fun hret => nomatch hret) ?_
      simp [hfailed]
    · have hself : (w.move id r (.returned result)).replicas id =
          some { r with phase := .returned result } := Function.update_self ..
      constructor
      · intro hgate hdeferred
        rw [Bool.and_eq_true, Bool.not_eq_true'] at hdeferred
        have hmigrated := hgate id _ hself rfl hdeferred.2
        exact hmigrated
      · refine fun hdeferred => (hmoves _).gate hg fun _ hdry => ?_
        show Migrated w r
        cases hst : result.status with
        | current => exact h hst
        | pending => exact hdeferred (by simp [hst, hdry])
        | failed => exact absurd hst hfailed

/-- **One step** keeps the invariant, and the gate exactly if no deferred replica is too early. -/
theorem step_keeps (hs : Sound w) (a : Action) :
    Sound (step w a) ∧ (Gate w → (Gate (step w a) ↔ DeferredInTime w a)) := by
  have hadv : ∀ {id r w'}, Advances w id r w' → Sound w' ∧ (Gate w → (Gate w' ↔ True)) := fun h =>
    ⟨(h.keeps hs).1, fun hg => iff_of_true ((h.keeps hs).2 hg) trivial⟩
  unfold step
  cases hr : w.replicas a.id with
  | none =>
    cases a with
    | boot id files options => exact hadv (advances_start rfl)
    | gate id =>
      refine ⟨hs, fun hg => iff_of_true hg fun r hmem => ?_⟩
      change w.replicas id = none at hr
      rw [hr] at hmem
      cases hmem
    | _ => exact ⟨hs, fun hg => iff_of_true hg trivial⟩
  | some r =>
    have h := hs _ r hr
    cases a with
    | boot id files options => exact ⟨hs, fun hg => iff_of_true hg trivial⟩
    | read id => exact hadv advances_onRead
    | runner id => exact hadv advances_onRunner
    | apply id count => exact hadv (advances_onApply h count)
    | finish id => exact hadv (advances_onFinish h)
    | fail id message => exact hadv (advances_onFail message)
    | gate id =>
      refine ⟨sound_onGate hs, fun hg => (gate_onGate_iff h hg).trans ?_⟩
      change w.replicas id = some r at hr
      simp only [DeferredInTime, Option.mem_def, hr, Option.some.injEq, forall_eq']
    | crash id => exact hadv (Or.inr ⟨_, ⟨List.Subset.refl _, rfl⟩, trivial, rfl⟩)

/-- **The migration gate.** In a run of any number of replicas, whatever was recorded before, every
replica that has returned, and was no dry run, found all its migrations recorded, exactly if the
replicas that were told that another one migrates all return after that. -/
theorem gate_iff_deferredInTime {recorded : Option (List String)} {l : List Action} :
    AllStates step Gate (World.start recorded) l ↔
      AllSteps step DeferredInTime (World.start recorded) l :=
  allStates_iff_allSteps (P := fun _ _ => True) (fun _ a hs _ => (step_keeps hs a).1)
    (fun _ a hs _ => (step_keeps hs a).2) (fun _ _ h => nomatch h)
    (allSteps_of_forall fun _ _ => trivial) fun _ _ h => nomatch h

/-! ### A replica that starts too early -/

/-- Two replicas read an empty database, the first takes the lock, and the second, which finds it
held, returns before anything is recorded. -/
def deferredStart : List Action :=
  [.boot 0 ["001_create_vesting_streams.ts"] ⟨none, none, none⟩,
    .boot 1 ["001_create_vesting_streams.ts"] ⟨none, none, none⟩, .read 0, .read 1, .runner 0,
    .runner 1, .gate 1]

theorem deferred_replica_returns : ¬ AllStates step Gate (World.start none) deferredStart := by
  intro h
  have hret : ((run step (World.start none) deferredStart).replicas 1).map
      (fun r => (r.hasReturned, r.dryRun)) = some (true, false) := by decide +kernel
  obtain ⟨r, hr, hp⟩ := Option.map_eq_some_iff.mp hret
  rw [Prod.mk.injEq] at hp
  have hmigrated := h.last 1 r hr hp.1 hp.2
  have hno : ∀ r ∈ (run step (World.start none) deferredStart).replicas 1,
      ¬ Migrated (run step (World.start none) deferredStart) r := by decide +kernel
  exact hno r hr hmigrated

end VestingDripStream.Backend.Migrate
