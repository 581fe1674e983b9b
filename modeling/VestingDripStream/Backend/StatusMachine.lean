import VestingDripStream.Backend.Sessions

/-! # The status machine under concurrent writers

Every update of a status goes through the trigger, which validates the change and inserts the audit
row under the lock of the stream's row. So between any two moments of a run the committed audit rows
of a recipient grow by a trail from its status then to its status now, each step of which is in
`VALID_TRANSITIONS`. -/

namespace VestingDripStream.Backend.StatusMachine

open VestingDripStream.Lib.Client VestingDripStream.Lib.ReadCommitted VestingDripStream.Lib.Run
open VestingDripStream.Backend.Database VestingDripStream.Backend.Persistence
open VestingDripStream.Backend.Sessions

/-- The rows lead from one status to the other: each starts where the one before it ends, and is a
change that `VALID_TRANSITIONS` allows. -/
def Trail : StreamStatus → List StatusTransition → StreamStatus → Prop
  | s, [], s' => s = s'
  | s, t :: ts, s' => t.fromStatus = s ∧ t.toStatus ∈ validTransitions s ∧ Trail t.toStatus ts s'

/-- How what the tables hold of a stream may develop. -/
def Evolves (x y : Option VestingStream × List StatusTransition) : Prop :=
  ∃ new, y.2 = x.2 ++ new ∧
    match x.1, y.1 with
    | some row, some row' => Trail row.status new row'.status
    | none, none => new = []
    | _, _ => False

theorem Trail.append {s s' s'' : StreamStatus} {ts ts' : List StatusTransition}
    (h : Trail s ts s') (h' : Trail s' ts' s'') : Trail s (ts ++ ts') s'' := by
  induction ts generalizing s with
  | nil => cases h; exact h'
  | cons t ts ih => exact ⟨h.1, h.2.1, ih h.2.2⟩

/-- From a status that nothing leaves, no trail leads away. -/
theorem Trail.stuck {s s' : StreamStatus} {ts : List StatusTransition} (h : Trail s ts s')
    (hs : validTransitions s = []) : s' = s := by
  cases ts with
  | nil => exact h.symm
  | cons t ts =>
    have hmem := h.2.1
    rw [hs] at hmem
    cases hmem

theorem evolves_refl (x : Option VestingStream × List StatusTransition) : Evolves x x := by
  refine ⟨[], by simp, ?_⟩
  cases x.1 <;> rfl

theorem evolves_trans (x y z : Option VestingStream × List StatusTransition) (h : Evolves x y)
    (h' : Evolves y z) : Evolves x z := by
  obtain ⟨⟨x1, x2⟩, ⟨y1, y2⟩, ⟨z1, z2⟩⟩ := x, y, z
  obtain ⟨new, rfl, h⟩ := h
  obtain ⟨new', rfl, h'⟩ := h'
  refine ⟨new ++ new', by simp, ?_⟩
  cases x1 <;> cases y1 <;> cases z1 <;> simp_all
  exact h.append h'

/-- The table of the application and the function of the database accept the same changes. -/
theorem isValidTransition_iff (fromStatus toStatus : StreamStatus) :
    isValidTransition fromStatus toStatus = true ↔
      checkStreamStatusTransition fromStatus toStatus = .ok () := by
  cases fromStatus <;> cases toStatus <;> decide

theorem mem_validTransitions_of_check {fromStatus toStatus : StreamStatus}
    (hne : fromStatus ≠ toStatus) (h : checkStreamStatusTransition fromStatus toStatus = .ok ()) :
    toStatus ∈ validTransitions fromStatus := by
  have hvalid := (isValidTransition_iff fromStatus toStatus).mpr h
  unfold isValidTransition at hvalid
  simpa [hne] using hvalid

/-- **The trigger**: an update of a status is a step of the trail. -/
theorem evolves_updateStatusWhere {recipient r : String} {db : Db} {p : VestingStream → Prop}
    [DecidablePred p] {status : StreamStatus} {es : List Effect} {n : ℕ}
    (h : updateStatusWhere db r p status = .ok (es, n)) :
    Evolves (atStream recipient db) (atStream recipient (site.applyAll db es)) := by
  rcases updateStatusWhere_ok.mp h with ⟨-, rfl, -⟩ | ⟨row, hrow, -, hup, -⟩
  · exact evolves_refl _
  · by_cases hr : r = recipient
    · subst hr
      rcases updateStatus_ok.mp hup with ⟨hs, rfl⟩ | ⟨hne, hcheck, rfl⟩
      · -- the status is written as it was
        refine ⟨[], ?_, ?_⟩
        · simp [atStream, auditRows, site, postgres, Db.apply]
        · simp [atStream, site, postgres, Db.apply, hrow, Trail, hs]
      · refine ⟨[⟨r, row.status, status⟩], ?_, ?_⟩
        · simp [atStream, auditRows, site, postgres, Db.apply]
        · have hmem := mem_validTransitions_of_check hne hcheck
          simp [atStream, site, postgres, Db.apply, hrow, Trail, hmem]
    · -- another stream
      have hother : atStream recipient (site.applyAll db es) = atStream recipient db := by
        refine (atStream_reads recipient).applyAll_other fun e he hk => ?_
        rcases updateStatus_ok.mp hup with ⟨-, rfl⟩ | ⟨-, -, rfl⟩
        · simp only [List.mem_singleton] at he
          subst he
          exact hr (Key.stream.inj hk)
        · simp only [List.mem_cons, List.not_mem_nil, or_false] at he
          rcases he with rfl | rfl
          · exact hr (Key.stream.inj hk)
          · exact hr (Key.stream.inj hk)
      rw [hother]
      exact evolves_refl _

/-- **Every statement** of every job. -/
theorem evolves_exec (recipient : String) (q : Statement) (db : Db) (es : List Effect)
    (r : q.Reply) (h : site.exec q db = .ok (es, r)) :
    Evolves (atStream recipient db) (atStream recipient (site.applyAll db es)) := by
  have hsame : (∀ e ∈ es, e.key ≠ .stream recipient) →
      Evolves (atStream recipient db) (atStream recipient (site.applyAll db es)) := by
    intro hkeys
    rw [(atStream_reads recipient).applyAll_other hkeys]
    exact evolves_refl _
  cases q with
  | updateCancelled r => exact evolves_updateStatusWhere h
  | updateStatus toStatus r => exact evolves_updateStatusWhere h
  | expireRow currentLedger r => exact evolves_updateStatusWhere h
  | updateDrained ev => cases h
  | incrementClaimedTotal streamId amount => cases h
  | insertRecomputed streamId claimedTotal => cases h
  | insertEvent ev =>
    obtain ⟨-, ⟨-, rfl, -⟩ | ⟨-, rfl, -⟩⟩ := insertEvent_ok.mp h
    · exact evolves_refl _
    · exact hsame (by simp [Effect.key])
  | upsertTotalDeposit streamId amount =>
    obtain ⟨-, rfl, -⟩ := upsertBalance_ok.mp h
    exact hsame (by simp [Effect.key])
  | updateRecomputed streamId claimedTotal remaining =>
    simp only [site, postgres, exec] at h
    split at h <;> cases h
    · exact evolves_refl _
    · exact hsame (by simp [Effect.key])
  | selectStatusForUpdate r =>
    -- the lock changes nothing
    simp only [site, postgres, exec] at h
    split at h <;> cases h
    · exact evolves_refl _
    · exact evolves_refl _
  | updateCursor cursor =>
    simp only [site, postgres, exec] at h
    split at h <;> cases h
    · exact evolves_refl _
    · exact hsame (by simp [Effect.key])
  | _ =>
    cases h
    exact evolves_refl _

/-- The statuses of streams that have ended on the chain. -/
def Terminal (status : StreamStatus) : Prop :=
  status = .cancelled ∨ status = .drained ∨ status = .clawedback

/-- The status column of the row. -/
def statusOf (db : Db) (recipient : String) : Option StreamStatus :=
  (db.vestingStreams recipient).map (·.status)

/-- One stream at two moments of a run, `db'` after `db`, that began with the rows `streams`. -/
structure StatusHistory (streams : String → Option VestingStream) (recipient : String)
    (db db' : Db) : Prop where
  /-- An ended stream keeps its status. -/
  terminal : ∀ status, statusOf db recipient = some status → Terminal status →
    statusOf db' recipient = some status
  /-- What happened to the status in between is recorded, and is in the table. -/
  changes : Evolves (atStream recipient db) (atStream recipient db')
  /-- The audit rows lead from the first status to the current one. -/
  audited : ∀ row row', streams recipient = some row → db'.vestingStreams recipient = some row' →
    Trail row.status (auditRows recipient db') row'.status

variable {ι : Type} [DecidableEq ι]

theorem committedAfter_append (db : Db) (pre post : List (Action ι Job)) :
    committedAfter db (pre ++ post) =
      (run site.step (run site.step (World.idle db : Connections ι) pre) post).committed := by
  unfold committedAfter
  rw [run_append]

/-- **Between any two moments of a run** a stream evolves along the table. -/
theorem evolves_committedAfter (db : Db) (recipient : String) (pre post : List (Action ι Job)) :
    Evolves (atStream recipient (committedAfter db pre))
      (atStream recipient (committedAfter db (pre ++ post))) := by
  have hf := atStream_reads recipient
  have hl : Site.Locked site (World.idle db : Connections ι) := Site.locked_idle db
  have ha : Site.Ahead site (atStream recipient) Evolves (World.idle db : Connections ι) :=
    Site.ahead_idle db
  rw [committedAfter_append]
  exact Site.committed_rel hf evolves_refl evolves_trans (evolves_exec recipient)
    (Site.locked_run hl pre)
    (Site.ahead_run hf evolves_refl evolves_trans (evolves_exec recipient) hl ha pre) post

/-- The status machine: in any interleaving of the writers the table of the application and the
function of the database accept the same changes, an ended stream keeps its status, every change
follows the table, and the audit rows of a recipient are a chain that ends in its status. -/
theorem statusMachine (streams : String → Option VestingStream) (recipient : String)
    (pre post : List (Action ι Job)) :
    (∀ fromStatus toStatus, isValidTransition fromStatus toStatus = true ↔
      checkStreamStatusTransition fromStatus toStatus = .ok ()) ∧
    StatusHistory streams recipient (committedAfter (Db.fresh streams) pre)
      (committedAfter (Db.fresh streams) (pre ++ post)) := by
  have hchanges := evolves_committedAfter (Db.fresh streams) recipient pre post
  refine ⟨isValidTransition_iff, ?_, hchanges, ?_⟩
  · intro status hs ht
    obtain ⟨new, -, hnew⟩ := hchanges
    unfold statusOf at hs ⊢
    obtain ⟨row, hrow, rfl⟩ := Option.map_eq_some_iff.mp hs
    simp only [atStream, hrow] at hnew
    split at hnew
    · next row1 row' heq hrow' =>
      cases heq
      have hstuck := hnew.stuck (by rcases ht with h | h | h <;> rw [h] <;> rfl)
      rw [hrow', Option.map_some, hstuck]
    · next heq _ => cases heq
    · exact hnew.elim
  · intro row row' hrow hrow'
    have hall := evolves_committedAfter (Db.fresh streams) recipient ([] : List (Action ι Job))
      (pre ++ post)
    rw [List.nil_append] at hall
    obtain ⟨new, hnew, htrail⟩ := hall
    have hfirst : auditRows recipient (committedAfter (Db.fresh streams)
      ([] : List (Action ι Job))) = [] := rfl
    have hstart : (committedAfter (Db.fresh streams) ([] : List (Action ι Job))).vestingStreams
      recipient = some row := hrow
    simp only [atStream, hfirst, hstart, hrow', List.nil_append] at hnew htrail
    rw [hnew]
    exact htrail

end VestingDripStream.Backend.StatusMachine
