import VestingDripStream.Backend.Decoders
import VestingDripStream.Lib.ReadCommitted

/-! # The history of schedule versions

`upsertEvents` of `horizonWorker.ts`: for every event of a batch a row of `stream_events`, and for
an event of the life of a stream a row of `schedule_versions`, all in one transaction. The columns
are those of the migrations 004 and 005. The number of a version is read by the statement that
inserts it, on the state that the statement sees when it starts; the row is inserted later, after
it has waited for other transactions. So the statement is two here.

Whatever the workers do, the versions of a recipient are numbered without gaps and are versions of
ingested events, in order. They are those of the distinct events exactly if no event comes twice
and no version is dropped; `versionHistory` says what keeps that from happening. -/

namespace VestingDripStream.Backend.ScheduleVersions

open VestingDripStream.Lib.Client VestingDripStream.Lib.ReadCommitted VestingDripStream.Lib.Run
open VestingDripStream.Backend.Database VestingDripStream.Backend.Decoders

/-! ### Tables -/

/-- `schedule_mutation_type`. -/
inductive MutationType
  | created
  | modified
  | cancelled
  | clawback
  | completed
  deriving DecidableEq, Repr

/-- `MUTATION_TYPE_MAP`. -/
def mutationTypeMap : EventType → Option MutationType
  | .vcCreate => some .created
  | .vcCancel => some .cancelled
  | .vcDone => some .completed
  | .vcDrain => some .completed
  | .vcClaim => none

/-- The column `changed_fields`. -/
inductive ChangedFields
  | created (sponsor token : Option String) (ledgerSequence : ℤ)
  | cancelled (refundedAmount : Option String)
  | completed (token amountRecovered : Option String)
  | empty
  deriving DecidableEq, Repr

/-- `buildVersionFields`. -/
def buildVersionFields (ev : WorkerEvent) : ChangedFields :=
  match ev.eventType with
  | .vcCreate => .created ev.sponsor ev.token ev.ledgerSequence
  | .vcCancel => .cancelled (ev.amount.map toString)
  | .vcDone => .completed ev.token (ev.amount.map toString)
  | .vcDrain => .completed ev.token (ev.amount.map toString)
  | .vcClaim => .empty

/-- A row of `schedule_versions`. -/
structure VersionRow where
  recipient : String
  versionNumber : ℕ
  mutationType : MutationType
  changedFields : ChangedFields
  ledgerSequence : ℤ
  txHash : String
  deriving DecidableEq, Repr

/-- The two tables, with their rows as inserted. -/
structure VersionDb where
  streamEvents : List WorkerEvent
  scheduleVersions : List VersionRow

/-- The rows of one recipient. -/
def VersionDb.versions (db : VersionDb) (recipient : String) : List VersionRow :=
  db.scheduleVersions.filter (·.recipient = recipient)

/-- The version numbers of a recipient, in the order of their inserts. -/
def VersionDb.numbers (db : VersionDb) (recipient : String) : List ℕ :=
  (db.versions recipient).map (·.versionNumber)

/-! ### Statements -/

/-- The columns of `stream_events` hold the numbers of the event. -/
def NumbersFit (ev : WorkerEvent) : Prop :=
  (∀ n ∈ ev.amount, FitsBigint n) ∧ FitsInteger ev.ledgerSequence

/-- The columns of `stream_events` hold the texts of the event. -/
def TextsFit (ev : WorkerEvent) : Prop :=
  FitsVarchar56 ev.recipient ∧ (∀ s ∈ ev.sponsor, FitsVarchar56 s) ∧
    (∀ t ∈ ev.token, FitsVarchar56 t) ∧ FitsVarchar64 ev.txHash

instance (ev : WorkerEvent) : Decidable (NumbersFit ev) := by unfold NumbersFit; infer_instance

instance (ev : WorkerEvent) : Decidable (TextsFit ev) := by unfold TextsFit; infer_instance

/-- The statements of `upsertEvents`; the last two are the two halves of one. -/
inductive VersionStatement
  | insertEvent (ev : WorkerEvent)
  | nextVersion (recipient : String)
  | insertVersion (row : VersionRow)

/-- Each statement is answered by a number. -/
abbrev VersionStatement.Reply : VersionStatement → Type := fun _ => ℕ

/-- What a statement writes. -/
inductive VersionEffect
  | insertEvent (ev : WorkerEvent)
  | insertVersion (row : VersionRow)

/-- The unique columns: `tx_hash`, and `recipient` with `version_number`. -/
inductive VersionKey
  | event (txHash : String)
  | version (recipient : String) (versionNumber : ℕ)
  deriving DecidableEq, Repr

/-- The unique value that the row takes. -/
def VersionEffect.key : VersionEffect → VersionKey
  | .insertEvent ev => .event ev.txHash
  | .insertVersion row => .version row.recipient row.versionNumber

/-- An effect on the tables. -/
def VersionDb.apply (db : VersionDb) : VersionEffect → VersionDb
  | .insertEvent ev => { db with streamEvents := db.streamEvents ++ [ev] }
  | .insertVersion row => { db with scheduleVersions := db.scheduleVersions ++ [row] }

/-- `COALESCE(MAX(version_number), 0) + 1`. -/
def VersionDb.nextVersion (db : VersionDb) (recipient : String) : ℕ :=
  (db.numbers recipient).foldl max 0 + 1

/-- A statement on what its transaction sees. -/
def versionExec : (s : VersionStatement) → VersionDb →
    Except Failure (List VersionEffect × s.Reply)
  | .insertEvent ev, db =>
    if ¬ NumbersFit ev then .error .numericValueOutOfRange
    else if ¬ TextsFit ev then .error .stringDataRightTruncation
    else if ev.txHash ∈ db.streamEvents.map (·.txHash) then .ok ([], 0)
    else .ok ([.insertEvent ev], 1)
  | .nextVersion recipient, db =>
    if FitsInteger (db.nextVersion recipient) then .ok ([], db.nextVersion recipient)
    else .error .numericValueOutOfRange
  | .insertVersion row, db =>
    if ¬ FitsInteger row.ledgerSequence then .error .numericValueOutOfRange
    else if ¬ (FitsVarchar56 row.recipient ∧ FitsVarchar64 row.txHash) then
      .error .stringDataRightTruncation
    -- `ON CONFLICT (recipient, version_number) DO NOTHING`
    else if row.versionNumber ∈ db.numbers row.recipient then .ok ([], 0)
    else .ok ([.insertVersion row], 1)

/-! ### `upsertEvents` -/

/-- A program that sends such statements. -/
abbrev VersionClient (α : Type) :=
  Program VersionStatement VersionStatement.Reply Failure α

/-- The row that the version insert writes. -/
def versionRow (ev : WorkerEvent) (mutationType : MutationType) (v : ℕ) : VersionRow :=
  ⟨ev.recipient, v, mutationType, buildVersionFields ev, ev.ledgerSequence, ev.txHash⟩

/-- The version insert of an event. -/
def recordVersion (ev : WorkerEvent) : VersionClient Unit :=
  match mutationTypeMap ev.eventType with
  | none => return ()
  | some mutationType => do
    let v ← Program.send (.nextVersion ev.recipient)
    let _ ← Program.send (.insertVersion (versionRow ev mutationType v))

/-- `upsertEvents`, between its `BEGIN` and its `COMMIT` or `ROLLBACK`. -/
def upsertEvents : List WorkerEvent → VersionClient Unit
  | [] => return ()
  | ev :: events => do
    let _ ← Program.send (.insertEvent ev)
    recordVersion ev
    upsertEvents events

/-- The server with the locks of its unique columns; a job is a batch. -/
def versionSite : Site VersionDb VersionStatement Failure VersionEffect VersionKey
    (List WorkerEvent) VersionStatement.Reply where
  exec := versionExec
  apply := VersionDb.apply
  key := VersionEffect.key
  program := upsertEvents
  inTransaction := fun _ => true

/-- A worker on a batch. -/
abbrev VersionSession : Type :=
  Session VersionStatement Failure VersionEffect (List WorkerEvent) VersionStatement.Reply

/-- The database and the workers named by `ι`. -/
abbrev Workers (ι : Type) : Type :=
  World VersionDb VersionStatement Failure VersionEffect VersionKey ι (List WorkerEvent)
    VersionStatement.Reply

/-! ### What the statements do -/

section Statements

variable {db : VersionDb} {es : List VersionEffect} {r : ℕ}

theorem insertEvent_ok {ev : WorkerEvent}
    (h : versionSite.exec (.insertEvent ev) db = .ok (es, r)) : es = [] ∨ es = [.insertEvent ev] := by
  simp only [versionSite, versionExec] at h
  split_ifs at h
  · cases h; exact Or.inl rfl
  · cases h; exact Or.inr rfl

theorem nextVersion_ok {recipient : String}
    (h : versionSite.exec (.nextVersion recipient) db = .ok (es, r)) :
    es = [] ∧ r = db.nextVersion recipient := by
  simp only [versionSite, versionExec] at h
  split_ifs at h
  cases h
  exact ⟨rfl, rfl⟩

theorem insertVersion_ok {row : VersionRow}
    (h : versionSite.exec (.insertVersion row) db = .ok (es, r)) :
    (row.versionNumber ∈ db.numbers row.recipient ∧ es = []) ∨
      (row.versionNumber ∉ db.numbers row.recipient ∧ es = [.insertVersion row]) := by
  simp only [versionSite, versionExec] at h
  split_ifs at h with hl hf htaken
  · cases h; exact Or.inl ⟨htaken, rfl⟩
  · cases h; exact Or.inr ⟨htaken, rfl⟩

end Statements

/-! ### Histories -/

section Histories

variable {ι : Type} [DecidableEq ι]

/-- An event of the life of a stream, with its type of mutation. -/
abbrev Mutation : Type := WorkerEvent × MutationType

/-- The events that make a version, with the kind of each. -/
def mutations (events : List WorkerEvent) : List Mutation :=
  events.filterMap fun ev => (mutationTypeMap ev.eventType).map fun m => (ev, m)

/-- Those of one recipient. -/
def mutationsOf (recipient : String) (events : List WorkerEvent) : List Mutation :=
  (mutations events).filter (·.1.recipient = recipient)

/-- The rows of versions, numbered from `k + 1` on. -/
def numbered (k : ℕ) : List Mutation → List VersionRow
  | [] => []
  | (ev, m) :: ms => versionRow ev m (k + 1) :: numbered (k + 1) ms

/-- The events of the batch that the step commits. -/
def ingestedBy (w : Workers ι) (a : Action ι (List WorkerEvent)) : List WorkerEvent :=
  (w.committedBy a).flatten

/-- One step, with the record of the ingested events. -/
def step : Workers ι × List WorkerEvent → Action ι (List WorkerEvent) →
    Workers ι × List WorkerEvent :=
  recording versionSite.step ingestedBy

/-- Empty tables, and nothing ingested. -/
def start : Workers ι × List WorkerEvent := (World.idle ⟨[], []⟩, [])

/-- The versions of every recipient are numbered from 1 on. -/
def Gapless (s : Workers ι × List WorkerEvent) : Prop :=
  ∀ recipient, s.1.committed.numbers recipient =
    List.range' 1 (s.1.committed.versions recipient).length

/-- The versions of every recipient are numbered, and are those of its distinct events. -/
def VersionHistory (s : Workers ι × List WorkerEvent) : Prop :=
  ∀ recipient, s.1.committed.versions recipient =
    numbered 0 (mutationsOf recipient s.2).eraseDups

/-- The version that the step is about to insert, with the worker that does it. -/
def inserting (w : Workers ι) : Action ι (List WorkerEvent) → Option (VersionSession × VersionRow)
  | .send i =>
    match w.session i with
    | some t =>
      match t.rest with
      | .query (.insertVersion row) _ => some (t, row)
      | _ => none
    | none => none
  | _ => none

/-- Nobody has committed a version with the number of the one that is about to be inserted. -/
def NotOvertaken (s : Workers ι × List WorkerEvent) (a : Action ι (List WorkerEvent)) : Prop :=
  ∀ p ∈ inserting s.1 a, p.2.versionNumber ∉ (versionSite.view s.1 p.1).numbers p.2.recipient

/-- The batch that is committed brings only events that were not ingested before, each once. -/
def NotRepeated (s : Workers ι × List WorkerEvent) (a : Action ι (List WorkerEvent)) : Prop :=
  (mutations (s.2 ++ ingestedBy s.1 a)).Nodup

instance (s : Workers ι × List WorkerEvent) (a : Action ι (List WorkerEvent)) :
    Decidable (NotOvertaken s a) := by unfold NotOvertaken; infer_instance

instance (s : Workers ι × List WorkerEvent) (a : Action ι (List WorkerEvent)) :
    Decidable (NotRepeated s a) := by unfold NotRepeated; infer_instance

end Histories

/-! ### Rows -/

section Rows

variable {recipient : String}

@[simp] theorem length_numbered (k : ℕ) (ms : List Mutation) :
    (numbered k ms).length = ms.length := by
  induction ms generalizing k with
  | nil => rfl
  | cons m ms ih => simp [numbered, ih]

theorem numbered_append (k : ℕ) (ms ms' : List Mutation) :
    numbered k (ms ++ ms') = numbered k ms ++ numbered (k + ms.length) ms' := by
  induction ms generalizing k with
  | nil => rfl
  | cons m ms ih =>
    obtain ⟨ev, m⟩ := m
    simp only [List.cons_append, numbered, List.length_cons, ih]
    rw [Nat.add_right_comm, Nat.add_assoc]

theorem numbers_numbered (k : ℕ) (ms : List Mutation) :
    (numbered k ms).map (·.versionNumber) = List.range' (k + 1) ms.length := by
  induction ms generalizing k with
  | nil => rfl
  | cons m ms ih =>
    obtain ⟨ev, m⟩ := m
    simp only [numbered, List.map_cons, ih, List.length_cons, List.range'_succ]
    rfl

theorem foldl_max_range' (n : ℕ) : (List.range' 1 n).foldl max 0 = n := by
  induction n with
  | zero => rfl
  | succ n ih =>
    rw [List.range'_concat, List.foldl_append, ih]
    simp only [List.foldl_cons, List.foldl_nil]
    omega

theorem mutations_append (events events' : List WorkerEvent) :
    mutations (events ++ events') = mutations events ++ mutations events' :=
  List.filterMap_append ..

theorem mutationsOf_append (events events' : List WorkerEvent) :
    mutationsOf recipient (events ++ events') =
      mutationsOf recipient events ++ mutationsOf recipient events' := by
  unfold mutationsOf
  rw [mutations_append, List.filter_append]

theorem mutationsOf_of_none {ev : WorkerEvent} (h : mutationTypeMap ev.eventType = none) :
    mutationsOf recipient [ev] = [] := by
  simp [mutationsOf, mutations, h]

theorem mutationsOf_of_some {ev : WorkerEvent} {m : MutationType}
    (h : mutationTypeMap ev.eventType = some m) :
    mutationsOf recipient [ev] = if ev.recipient = recipient then [(ev, m)] else [] := by
  by_cases hr : ev.recipient = recipient <;> simp [mutationsOf, mutations, h, hr]

theorem eraseDups_of_nodup {α : Type} [BEq α] [LawfulBEq α] {l : List α} (h : l.Nodup) :
    l.eraseDups = l := by
  induction l with
  | nil => rfl
  | cons a l ih =>
    obtain ⟨ha, hl⟩ := List.nodup_cons.mp h
    have hsame : (l.filter fun b => !b == a) = l := by
      refine List.filter_eq_self.mpr fun b hb => ?_
      have hne : b ≠ a := fun heq => ha (heq ▸ hb)
      simp [hne]
    rw [List.eraseDups_cons, hsame, ih hl]

/-- The rows of the recipient that a log inserts. -/
def inserted (recipient : String) (log : List VersionEffect) : List VersionRow :=
  log.filterMap fun e =>
    match e with
    | .insertEvent _ => none
    | .insertVersion row => if row.recipient = recipient then some row else none

theorem inserted_append (log log' : List VersionEffect) :
    inserted recipient (log ++ log') = inserted recipient log ++ inserted recipient log' :=
  List.filterMap_append ..

theorem mem_inserted {log : List VersionEffect} {row : VersionRow} :
    row ∈ inserted recipient log ↔
      VersionEffect.insertVersion row ∈ log ∧ row.recipient = recipient := by
  unfold inserted
  rw [List.mem_filterMap]
  constructor
  · rintro ⟨e, he, heq⟩
    cases e with
    | insertEvent ev => cases heq
    | insertVersion row' =>
      dsimp only at heq
      split_ifs at heq with hr
      cases heq
      exact ⟨he, hr⟩
  · rintro ⟨he, hr⟩
    exact ⟨_, he, if_pos hr⟩

theorem versions_applyAll (db : VersionDb) (log : List VersionEffect) :
    (versionSite.applyAll db log).versions recipient =
      db.versions recipient ++ inserted recipient log := by
  induction log generalizing db with
  | nil => exact (List.append_nil _).symm
  | cons e log ih =>
    rw [Server.applyAll_cons, ih]
    cases e with
    | insertEvent ev => rfl
    | insertVersion row =>
      show ((db.scheduleVersions ++ [row]).filter _) ++ _ = db.scheduleVersions.filter _ ++ _
      rw [List.filter_append, List.append_assoc]
      by_cases hr : row.recipient = recipient <;> simp [inserted, hr]

end Rows

/-! ### Where a worker stands -/

/-- What is left of a batch, the events of it that are dealt with, and the version that is about to
be inserted. -/
inductive Stands (batch : List WorkerEvent) :
    VersionClient Unit → List WorkerEvent → Option (String × ℕ) → Prop
  | event (past todo : List WorkerEvent) (h : batch = past ++ todo) :
      Stands batch (upsertEvents todo) past none
  | version (past : List WorkerEvent) (ev : WorkerEvent) (m : MutationType)
      (todo : List WorkerEvent) (h : batch = past ++ ev :: todo)
      (hm : mutationTypeMap ev.eventType = some m) :
      Stands batch (.query (.nextVersion ev.recipient) fun v =>
        .query (.insertVersion (versionRow ev m v)) fun _ => upsertEvents todo) past none
  | insert (past : List WorkerEvent) (ev : WorkerEvent) (m : MutationType) (v : ℕ)
      (todo : List WorkerEvent) (h : batch = past ++ ev :: todo)
      (hm : mutationTypeMap ev.eventType = some m) :
      Stands batch (.query (.insertVersion (versionRow ev m v)) fun _ => upsertEvents todo) past
        (some (ev.recipient, v))

/-- The three statements. -/
theorem Stands.query {batch past : List WorkerEvent} {pend : Option (String × ℕ)}
    {q : VersionStatement} {next : q.Reply → VersionClient Unit}
    (h : Stands batch (.query q next) past pend) (r : q.Reply) :
    (∃ ev, q = .insertEvent ev ∧
      ((mutationTypeMap ev.eventType = none ∧ Stands batch (next r) (past ++ [ev]) none) ∨
        (mutationTypeMap ev.eventType ≠ none ∧ Stands batch (next r) past none))) ∨
    (∃ recipient, q = .nextVersion recipient ∧ Stands batch (next r) past (some (recipient, r))) ∨
    (∃ ev m v, q = .insertVersion (versionRow ev m v) ∧ pend = some (ev.recipient, v) ∧
      mutationTypeMap ev.eventType = some m ∧ Stands batch (next r) (past ++ [ev]) none) := by
  generalize hp : Program.query q next = p at h
  cases h with
  | event past todo hb =>
    cases todo with
    | nil => exact nomatch hp
    | cons ev todo =>
      change _ = Program.query (.insertEvent ev) (fun _ =>
        recordVersion ev >>= fun _ => upsertEvents todo) at hp
      cases hp
      refine Or.inl ⟨ev, rfl, ?_⟩
      cases hm : mutationTypeMap ev.eventType with
      | none =>
        refine Or.inl ⟨rfl, ?_⟩
        unfold recordVersion
        rw [hm]
        exact .event (past ++ [ev]) todo (by simp [hb])
      | some m =>
        refine Or.inr ⟨nofun, ?_⟩
        unfold recordVersion
        rw [hm]
        exact .version past ev m todo hb hm
  | version past ev m todo hb hm =>
    cases hp
    exact Or.inr (Or.inl ⟨_, rfl, .insert past ev m r todo hb hm⟩)
  | insert past ev m v todo hb hm =>
    cases hp
    exact Or.inr (Or.inr ⟨ev, m, v, rfl, rfl, hm, .event (past ++ [ev]) todo (by simp [hb])⟩)

/-- A batch that is through. -/
theorem Stands.done {batch past : List WorkerEvent} {pend : Option (String × ℕ)} {u : Unit}
    (h : Stands batch (.done u) past pend) : past = batch := by
  generalize hp : (Program.done u : VersionClient Unit) = p at h
  cases h with
  | event past todo hb =>
    cases todo with
    | nil => simpa using hb.symm
    | cons ev todo => exact nomatch hp
  | version | insert => exact nomatch hp

/-! ### The invariant

`told` are the events whose versions are committed, and `kept` those whose versions a worker has
inserted. A relation `R` says how they are related to the events ingested and dealt with: they are
the same if no version is ever dropped, and some of them in any case. -/

section Invariant

variable {ι : Type}

/-- Versions come in lists that are related piece by piece. -/
structure Piecewise (R : List Mutation → List Mutation → Prop) : Prop where
  refl : ∀ ms, R ms ms
  append : ∀ ms ns ms' ns', R ms ns → R ms' ns' → R (ms ++ ms') (ns ++ ns')

variable {R : List Mutation → List Mutation → Prop}

/-- A worker that has dealt with `past` has inserted the versions of `kept`. -/
structure SessionSound (R : List Mutation → List Mutation → Prop) (told : String → List Mutation)
    (t : VersionSession) (past : List WorkerEvent) (kept : String → List Mutation)
    (pend : Option (String × ℕ)) : Prop where
  stands : Stands t.job t.rest past pend
  keptOf : ∀ r, R (kept r) (mutationsOf r past)
  log : ∀ r, inserted r t.log = numbered (told r).length (kept r)
  pend : ∀ r v, pend = some (r, v) → 1 ≤ v ∧ v ≤ (told r).length + (kept r).length + 1

/-- The invariant of the workers: the versions of each recipient are what it was told of so far. -/
structure Sound (R : List Mutation → List Mutation → Prop) (told : String → List Mutation)
    (s : Workers ι × List WorkerEvent) : Prop where
  locked : Site.Locked versionSite s.1
  toldOf : ∀ r, R (told r) (mutationsOf r s.2)
  committed : ∀ r, s.1.committed.versions r = numbered 0 (told r)
  session : ∀ i t, s.1.session i = some t →
    ∃ past kept pend, SessionSound R told t past kept pend

variable {told : String → List Mutation} {s : Workers ι × List WorkerEvent}
  {t t' : VersionSession} {past past' : List WorkerEvent} {kept kept' : String → List Mutation}
  {pend pend' : Option (String × ℕ)}

theorem sound_start (hR : Piecewise R) :
    Sound R (fun _ => []) (start : Workers ι × List WorkerEvent) where
  locked := Site.locked_idle _
  toldOf := fun _ => hR.refl []
  committed := fun _ => rfl
  session := fun _ _ h => nomatch h

/-- What a worker sees. -/
theorem versions_view (h : Sound R told s) (ht : SessionSound R told t past kept pend)
    (r : String) :
    (versionSite.view s.1 t).versions r = numbered 0 (told r ++ kept r) := by
  unfold Site.view
  rw [versions_applyAll, h.committed r, ht.log r, numbered_append, Nat.zero_add]

theorem numbers_view (h : Sound R told s) (ht : SessionSound R told t past kept pend)
    (r : String) :
    (versionSite.view s.1 t).numbers r = List.range' 1 ((told r).length + (kept r).length) := by
  unfold VersionDb.numbers
  rw [versions_view h ht, numbers_numbered, List.length_append]

/-- Two workers have not both inserted versions of one recipient. -/
theorem Sound.apart (h : Sound R told s) {i j : ι} (hi : s.1.session i = some t)
    (hj : s.1.session j = some t') (hne : j ≠ i) (ht : SessionSound R told t past kept pend)
    (ht' : SessionSound R told t' past' kept' pend') (r : String) : kept r = [] ∨ kept' r = [] := by
  cases hk : kept r with
  | nil => exact Or.inl rfl
  | cons m ms =>
    cases hk' : kept' r with
    | nil => exact Or.inr rfl
    | cons m' ms' =>
      exfalso
      have hrow := ht.log r
      have hrow' := ht'.log r
      rw [hk] at hrow
      rw [hk'] at hrow'
      -- both have inserted the next version
      have hmem : versionRow m.1 m.2 ((told r).length + 1) ∈ inserted r t.log := by
        rw [hrow]
        exact List.mem_cons_self
      have hmem' : versionRow m'.1 m'.2 ((told r).length + 1) ∈ inserted r t'.log := by
        rw [hrow']
        exact List.mem_cons_self
      obtain ⟨he, hr⟩ := mem_inserted.mp hmem
      obtain ⟨he', hr'⟩ := mem_inserted.mp hmem'
      refine hne (h.locked.unique hj hi he' he ?_)
      show VersionKey.version _ _ = VersionKey.version _ _
      rw [hr, hr']
      rfl

theorem inserted_insertVersion (r : String) (ev : WorkerEvent) (m : MutationType) (v : ℕ) :
    inserted r [.insertVersion (versionRow ev m v)] =
      if ev.recipient = r then [versionRow ev m v] else [] := by
  by_cases hr : ev.recipient = r <;> simp [inserted, versionRow, hr]

/-- The row of the event is no version. -/
theorem SessionSound.insertsEvent (ht : SessionSound R told t past kept pend) {ev : WorkerEvent}
    {rest : VersionClient Unit} {es : List VersionEffect} {r : ℕ}
    (hx : versionSite.exec (.insertEvent ev) (versionSite.view s.1 t) = .ok (es, r))
    (hnext : (mutationTypeMap ev.eventType = none ∧ Stands t.job rest (past ++ [ev]) none) ∨
      (mutationTypeMap ev.eventType ≠ none ∧ Stands t.job rest past none)) :
    ∃ past', SessionSound R told ⟨t.job, t.sent + 1, rest, t.log ++ es⟩ past' kept none := by
  have hlog : ∀ r', inserted r' (t.log ++ es) = inserted r' t.log := by
    intro r'
    rw [inserted_append]
    rcases insertEvent_ok hx with rfl | rfl <;> exact List.append_nil _
  rcases hnext with ⟨hm, hnext⟩ | ⟨-, hnext⟩
  · refine ⟨past ++ [ev], hnext, fun r' => ?_, fun r' => ?_, nofun⟩
    · rw [mutationsOf_append, mutationsOf_of_none hm, List.append_nil]
      exact ht.keptOf r'
    · rw [hlog]
      exact ht.log r'
  · refine ⟨past, hnext, ht.keptOf, fun r' => ?_, nofun⟩
    rw [hlog]
    exact ht.log r'

/-- The number is the next one of what the worker sees. -/
theorem SessionSound.readsMaximum (h : Sound R told s)
    (ht : SessionSound R told t past kept pend) {recipient : String} {rest : VersionClient Unit}
    (hnext : Stands t.job rest past
      (some (recipient, (versionSite.view s.1 t).nextVersion recipient))) :
    SessionSound R told ⟨t.job, t.sent + 1, rest, t.log ++ []⟩ past kept
      (some (recipient, (versionSite.view s.1 t).nextVersion recipient)) := by
  refine ⟨hnext, ht.keptOf, ?_, ?_⟩
  · rw [List.append_nil]
    exact ht.log
  · rintro r' v heq
    cases heq
    unfold VersionDb.nextVersion
    rw [numbers_view h ht, foldl_max_range']
    omega

/-- The version is inserted under the next number, or dropped if that is taken. -/
theorem SessionSound.insertsVersion (hR : Piecewise R) (h : Sound R told s)
    (ht : SessionSound R told t past kept pend) {ev : WorkerEvent} {m : MutationType} {v : ℕ}
    (hpend : pend = some (ev.recipient, v)) (hm : mutationTypeMap ev.eventType = some m)
    {rest : VersionClient Unit} (hnext : Stands t.job rest (past ++ [ev]) none)
    {es : List VersionEffect} {r : ℕ}
    (hx : versionSite.exec (.insertVersion (versionRow ev m v)) (versionSite.view s.1 t) =
      .ok (es, r))
    (hdrop : v ∈ (versionSite.view s.1 t).numbers ev.recipient → ∀ m, R [] [m]) :
    ∃ kept', SessionSound R told ⟨t.job, t.sent + 1, rest, t.log ++ es⟩ (past ++ [ev]) kept'
      none := by
  obtain ⟨hlo, hhi⟩ := ht.pend _ _ hpend
  have hnumbers := numbers_view h ht ev.recipient
  rcases insertVersion_ok hx with ⟨htaken, rfl⟩ | ⟨hfree, rfl⟩
  · have hsmall := hdrop htaken
    refine ⟨kept, hnext, fun r' => ?_, ?_, nofun⟩
    · rw [mutationsOf_append, mutationsOf_of_some hm, ← List.append_nil (kept r')]
      refine hR.append _ _ _ _ (ht.keptOf r') ?_
      split_ifs
      · exact hsmall (ev, m)
      · exact hR.refl []
    · rw [List.append_nil]
      exact ht.log
  · -- the number is free, so it is the next one
    have hv : v = (told ev.recipient).length + (kept ev.recipient).length + 1 := by
      change v ∉ (versionSite.view s.1 t).numbers ev.recipient at hfree
      rw [hnumbers, List.mem_range'_1] at hfree
      omega
    refine ⟨fun r' => kept r' ++ mutationsOf r' [ev], hnext, fun r' => ?_, fun r' => ?_, nofun⟩
    · rw [mutationsOf_append]
      exact hR.append _ _ _ _ (ht.keptOf r') (hR.refl _)
    · rw [inserted_append, ht.log r', numbered_append, mutationsOf_of_some hm,
        inserted_insertVersion]
      split_ifs with hr
      · subst hr
        rw [hv]
        rfl
      · rfl

/-- **A statement of a worker.** A version is dropped only if its number is taken. -/
theorem SessionSound.sent (hR : Piecewise R) (h : Sound R told s)
    (ht : SessionSound R told t past kept pend) {q : VersionStatement}
    {next : q.Reply → VersionClient Unit} (hq : t.rest = .query q next) {es : List VersionEffect}
    {r : q.Reply} (hx : versionSite.exec q (versionSite.view s.1 t) = .ok (es, r))
    (hdrop : ∀ row, q = .insertVersion row →
      row.versionNumber ∈ (versionSite.view s.1 t).numbers row.recipient → ∀ m, R [] [m]) :
    ∃ past' kept' pend', SessionSound R told ⟨t.job, t.sent + 1, next r, t.log ++ es⟩
      past' kept' pend' := by
  have hstands := ht.stands
  rw [hq] at hstands
  rcases hstands.query r with ⟨ev, rfl, hnext⟩ | ⟨recipient, rfl, hnext⟩ |
    ⟨ev, m, v, rfl, hpend, hm, hnext⟩
  · obtain ⟨past', ht'⟩ := ht.insertsEvent hx hnext
    exact ⟨past', kept, none, ht'⟩
  · obtain ⟨rfl, rfl⟩ := nextVersion_ok hx
    exact ⟨past, kept, _, ht.readsMaximum h hnext⟩
  · obtain ⟨kept', ht'⟩ := ht.insertsVersion hR h hpend hm hnext hx (hdrop _ rfl)
    exact ⟨past ++ [ev], kept', none, ht'⟩

theorem Sound.history (h : Sound Eq told s) (hn : (mutations s.2).Nodup) : VersionHistory s := by
  intro r
  rw [h.committed r, h.toldOf r, eraseDups_of_nodup]
  exact hn.filter _

variable [DecidableEq ι]

/-- With the batch of a worker its versions are those of everybody. -/
theorem Sound.commits (hR : Piecewise R) (h : Sound R told s) {i : ι} {u : Unit}
    (hi : s.1.session i = some t) (hd : t.rest = .done u)
    (hlocked : Site.Locked versionSite
      (World.close { s.1 with committed := versionSite.view s.1 t } i)) :
    ∃ told', Sound R told'
      (World.close { s.1 with committed := versionSite.view s.1 t } i, s.2 ++ t.job) := by
  obtain ⟨past, kept, pend, ht⟩ := h.session i t hi
  have hpast : past = t.job := by
    have hstands := ht.stands
    rw [hd] at hstands
    exact hstands.done
  refine ⟨fun r => told r ++ kept r, hlocked, fun r => ?_, fun r => versions_view h ht r,
    fun j t' hj => ?_⟩
  · rw [mutationsOf_append, ← hpast]
    exact hR.append _ _ _ _ (h.toldOf r) (ht.keptOf r)
  · rw [Site.session_close] at hj
    split_ifs at hj with hji
    obtain ⟨past', kept', pend', ht'⟩ := h.session j t' hj
    refine ⟨past', kept', pend', ht'.stands, ht'.keptOf, fun r => ?_, fun r v hp => ?_⟩
    · rcases h.apart hi hj hji ht ht' r with hk | hk
      · rw [hk, List.append_nil]
        exact ht'.log r
      · rw [ht'.log r, hk]
        rfl
    · have := ht'.pend r v hp
      rw [List.length_append]
      omega

/-- **One step.** -/
theorem Sound.step (hR : Piecewise R) (h : Sound R told s) {a : Action ι (List WorkerEvent)}
    (hdrop : ¬ NotOvertaken s a → ∀ m, R [] [m]) :
    ∃ told', Sound R told' (ScheduleVersions.step s a) := by
  have hmoves := Site.moves_step versionSite s.1 a
  have hlocked : Site.Locked versionSite (versionSite.step s.1 a) := h.locked.step hmoves
  rcases Site.committedBy_cases s.1 a with hnone | ⟨i, t, u, rfl, hi, hd, hjob⟩
  · have hstep : ScheduleVersions.step s a = (versionSite.step s.1 a, s.2) := by
      show (_, s.2 ++ (s.1.committedBy a).flatten) = _
      rw [hnone]
      exact Prod.ext rfl (List.append_nil _)
    rw [hstep]
    generalize versionSite.step s.1 a = w' at hmoves hlocked
    cases hmoves with
    | stays a => exact ⟨told, h⟩
    | starts i batch hi =>
      refine ⟨told, hlocked, h.toldOf, h.committed, fun j t hj => ?_⟩
      rw [Site.session_put] at hj
      split_ifs at hj
      · cases hj
        exact ⟨[], fun _ => [], none, .event [] batch rfl, fun _ => hR.refl [], fun _ => rfl, nofun⟩
      · exact h.session j t hj
    | closes a i =>
      refine ⟨told, hlocked, h.toldOf, h.committed, fun j t hj => ?_⟩
      rw [Site.session_close] at hj
      split_ifs at hj
      exact h.session j t hj
    | executes i t q next es r hi hq hx hfree =>
      obtain ⟨past, kept, pend, ht⟩ := h.session i t hi
      refine ⟨told, hlocked, h.toldOf, h.committed, fun j t' hj => ?_⟩
      change ((s.1.lock i _).put i _).session j = some t' at hj
      rw [Site.session_put] at hj
      split_ifs at hj
      · cases hj
        refine ht.sent hR h hq hx fun row hrow htaken => hdrop fun hfree => ?_
        subst hrow
        have hins : inserting s.1 (.send i) = some (t, row) := by simp only [inserting, hi, hq]
        exact hfree _ hins htaken
      · exact h.session j t' hj
    | commits i t u hi hd =>
      simp [World.committedBy, hi, hd] at hnone
  · have hstep : ScheduleVersions.step s (.finish i) =
        (World.close { s.1 with committed := versionSite.view s.1 t } i, s.2 ++ t.job) := by
      show (versionSite.step s.1 (.finish i), s.2 ++ (s.1.committedBy (.finish i)).flatten) = _
      rw [hjob, Site.step_finish versionSite hi hd, List.flatten_singleton]
    rw [Site.step_finish versionSite hi hd] at hlocked
    rw [hstep]
    exact h.commits hR hi hd hlocked

/-! ### Runs -/

theorem piecewise_eq : Piecewise Eq :=
  ⟨fun _ => rfl, fun _ _ _ _ h h' => by rw [h, h']⟩

theorem piecewise_sublist : Piecewise List.Sublist :=
  ⟨fun _ => List.Sublist.refl _, fun _ _ _ _ h h' => h.append h'⟩

/-- In every run the committed versions are numbered versions of ingested events, in order. -/
theorem exists_told (l : List (Action ι (List WorkerEvent))) :
    AllStates step (fun s => ∃ told, Sound List.Sublist told s) (start : Workers ι × _) l :=
  allStates_of_step (fun _ _ ⟨_, h⟩ => h.step piecewise_sublist fun _ _ => List.nil_sublist _)
    ⟨_, sound_start piecewise_sublist⟩

/-- Where no version is dropped they are the versions of all ingested events. -/
theorem told_all {l : List (Action ι (List WorkerEvent))}
    (hl : AllSteps step NotOvertaken (start : Workers ι × _) l) :
    AllStates step (fun s => ∃ told, Sound Eq told s) start l :=
  allStates_of_inv (fun _ _ ⟨_, h⟩ ha => h.step piecewise_eq fun hn => absurd ha hn)
    ⟨_, sound_start piecewise_eq⟩ hl

/-- Where no event comes twice the ingested events are distinct. -/
theorem nodup_mutations {l : List (Action ι (List WorkerEvent))}
    (hl : AllSteps step NotRepeated (start : Workers ι × _) l) :
    AllStates step (fun s => (mutations s.2).Nodup) start l := by
  have hstep : ∀ (s : Workers ι × List WorkerEvent) a, (mutations s.2).Nodup → NotRepeated s a →
      (mutations (step s a).2).Nodup := fun _ _ _ ha => ha
  exact allStates_of_inv hstep List.nodup_nil hl

/-- **The history of versions.** In every run the versions of a recipient are numbered from 1 on,
and they are versions of ingested events in the order in which these were ingested. If no worker is
overtaken between the two halves of its version insert and no event comes twice, they are the
versions of all its distinct events. -/
theorem versionHistory (l : List (Action ι (List WorkerEvent))) :
    AllStates step Gapless (start : Workers ι × _) l ∧
    AllStates step (fun s => ∀ r, ∃ told, told.Sublist (mutationsOf r s.2) ∧
      s.1.committed.versions r = numbered 0 told) (start : Workers ι × _) l ∧
    (AllSteps step (fun s a => NotOvertaken s a ∧ NotRepeated s a) (start : Workers ι × _) l →
      AllStates step VersionHistory start l) := by
  have htold := exists_told l
  refine ⟨htold.imp ?_, htold.imp ?_, fun hl => ?_⟩
  · rintro s ⟨told, h⟩ r
    unfold VersionDb.numbers
    rw [h.committed r, numbers_numbered, length_numbered]
  · rintro s ⟨told, h⟩ r
    exact ⟨told r, h.toldOf r, h.committed r⟩
  · have hall := told_all (hl.imp fun _ _ h => h.1)
    have hnodup := nodup_mutations (hl.imp fun _ _ h => h.2)
    refine (hall.and hnodup).imp ?_
    rintro s ⟨⟨told, h⟩, hn⟩
    exact h.history hn

end Invariant

/-- A creation. -/
def createdEvent : WorkerEvent :=
  ⟨.vcCreate, "GRECIPIENT", some "GSPONSOR", some "CTOKEN", none, 1200, "a1"⟩

/-- A cancellation, in another transaction. -/
def cancelledEvent : WorkerEvent :=
  ⟨.vcCancel, "GRECIPIENT", none, none, some 3000, 1300, "b2"⟩

/-- A worker with one event, from its first statement to its `COMMIT`. -/
def processed (i : Bool) (ev : WorkerEvent) : List (Action Bool (List WorkerEvent)) :=
  [.start i [ev], .send i, .send i, .send i, .finish i]

/-- The second worker comes after the first one, with another event. -/
theorem versionHistory_inTurn :
    AllStates step VersionHistory start
      (processed false createdEvent ++ processed true cancelledEvent) :=
  (versionHistory (processed false createdEvent ++ processed true cancelledEvent)).2.2
    (by decide +kernel)

/-- A batch that comes again after a crash, and two workers that read the same maximum. -/
def replayed : List (Action Bool (List WorkerEvent)) :=
  processed false createdEvent ++ processed true createdEvent

/-- Both workers read the same maximum before either inserts its version. -/
def raced : List (Action Bool (List WorkerEvent)) :=
  [.start false [createdEvent], .start true [cancelledEvent], .send false, .send false, .send true,
    .send true, .send false, .finish false, .send true, .finish true]

/-- The event that comes again has two versions, and the second worker loses its version. -/
theorem not_versionHistory :
    ¬ AllStates step VersionHistory start replayed ∧ ¬ AllStates step VersionHistory start raced := by
  constructor
  · intro h
    have hlast := h.last "GRECIPIENT"
    revert hlast
    decide +kernel
  · intro h
    have hlast := h.last "GRECIPIENT"
    revert hlast
    decide +kernel

end VestingDripStream.Backend.ScheduleVersions
