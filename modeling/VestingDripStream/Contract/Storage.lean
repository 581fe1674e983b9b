import VestingDripStream.Contract.Types
import VestingDripStream.Lib.KeyValue

/-! # Persistent storage of the fixed-rate streams

The functions of `storage.rs` and `migration.rs` on the persistent map. The lifetimes of entries
(`extend_ttl`) are not part of the map: extending one changes no value.

A stream is *live* at `(recipient, id)` if `scheduleAt` finds it: under
`ScheduleById(recipient, id)` or, for id `0`, under the legacy `Schedule(recipient)`. Seen through
`scheduleAt` the two key schemes are one map, whatever mixture of legacy and new entries the storage
holds (`scheduleAt_setScheduleById`, `scheduleAt_removeScheduleById`). -/

namespace VestingDripStream.Contract.Storage

open VestingDripStream.Lib.Checked VestingDripStream.Lib.KeyValue
open VestingDripStream.Contract.Types

/-! ### Reading the keys -/

/-- The entry under the legacy `Schedule(recipient)`. -/
def legacy (st : Storage) (recipient : Address) : Option VestingSchedule :=
  st.lookup (.schedule recipient)

/-- The entry under `ScheduleById(recipient, id)`. -/
def byId (st : Storage) (recipient : Address) (streamId : UInt32) : Option VestingSchedule :=
  st.lookup (.scheduleById recipient streamId)

/-- The entry under `NextStreamId(recipient)`. -/
def storedNext (st : Storage) (recipient : Address) : Option UInt32 :=
  st.lookup (.nextStreamId recipient)

/-- The entry under `SponsorStreams(sponsor)`. -/
def storedIndex (st : Storage) (sponsor : Address) : Option (List Address) :=
  st.lookup (.sponsorStreams sponsor)

/-! ### Schedules -/

/-- The end of `set_schedule_by_id`: `NextStreamId` is raised above the id written. -/
def raiseNext (st : Storage) (recipient : Address) (streamId : UInt32) : Storage :=
  match checkedAdd streamId 1 with
  | some nextId =>
    if (storedNext st recipient).getD 0 < nextId then
      st.insert (.nextStreamId recipient) nextId
    else st
  | none => st

/-- The legacy entry goes when id `0` is written or removed. -/
def clearLegacy (st : Storage) (recipient : Address) (streamId : UInt32) : Storage :=
  if streamId = 0 then st.erase (.schedule recipient) else st

/-- `set_schedule_by_id`. -/
def setScheduleById (st : Storage) (recipient : Address) (streamId : UInt32)
    (schedule : VestingSchedule) : Storage :=
  raiseNext (clearLegacy (st.insert (.scheduleById recipient streamId) schedule) recipient streamId)
    recipient streamId

/-- `set_schedule`. -/
def setSchedule (st : Storage) (recipient : Address) (schedule : VestingSchedule) : Storage :=
  setScheduleById st recipient 0 schedule

/-- `remove_schedule_by_id`. -/
def removeScheduleById (st : Storage) (recipient : Address) (streamId : UInt32) : Storage :=
  clearLegacy (st.erase (.scheduleById recipient streamId)) recipient streamId

/-- `remove_schedule`. -/
def removeSchedule (st : Storage) (recipient : Address) : Storage :=
  removeScheduleById st recipient 0

/-- `migrate_v1_to_v2`. -/
def migrateV1ToV2 (schedule : VestingSchedule) : VestingSchedule :=
  { schedule with schemaVersion := currentSchemaVersion }

/-- `migrate_schedule` of `migration.rs`: the schedule afterwards, and the storage. -/
def migrateSchedule (st : Storage) (recipient : Address) (schedule : VestingSchedule) :
    VestingSchedule × Storage :=
  let storedVersion := if schedule.schemaVersion = 0 then 1 else schedule.schemaVersion
  if currentSchemaVersion ≤ storedVersion then (schedule, st)
  else
    let migrated := if storedVersion < 2 then migrateV1ToV2 schedule else schedule
    (migrated, setSchedule st recipient migrated)

/-- `get_schedule`: reads the legacy key only, and migrates what it finds. -/
def getSchedule (st : Storage) (recipient : Address) : Option VestingSchedule × Storage :=
  match legacy st recipient with
  | none => (none, st)
  | some schedule =>
    let (schedule, st) := migrateSchedule st recipient schedule
    (some schedule, st)

/-- `get_schedule_readonly`. -/
def getScheduleReadonly (st : Storage) (recipient : Address) : Option VestingSchedule :=
  legacy st recipient

/-- `has_schedule`. -/
def hasSchedule (st : Storage) (recipient : Address) : Bool :=
  (byId st recipient 0).isSome || (legacy st recipient).isSome

/-- The live schedule at `(recipient, id)`. -/
def scheduleAt (st : Storage) (recipient : Address) (streamId : UInt32) : Option VestingSchedule :=
  match byId st recipient streamId with
  | some s => some s
  | none => if streamId = 0 then legacy st recipient else none

/-! ### Stream ids -/

/-- `next_stream_id`: the id returned, and the storage with the following id. -/
def nextStreamId (st : Storage) (recipient : Address) : Except Failure (UInt32 × Storage) :=
  let nextId := (storedNext st recipient).getD (if (legacy st recipient).isSome then 1 else 0)
  match checkedAdd nextId 1 with
  | some followingId => .ok (nextId, st.insert (.nextStreamId recipient) followingId)
  | none => .error (.err .depositOverflow)

/-- `get_stream_ids`: the loop over `0 .. next_id`, and the case of an unset `NextStreamId`. -/
def getStreamIds (st : Storage) (recipient : Address) : List UInt32 :=
  let nextId := (storedNext st recipient).getD 0
  let ids := ((List.range nextId.toNat).map UInt32.ofNat).filter fun streamId =>
    (byId st recipient streamId).isSome || (streamId == 0 && (legacy st recipient).isSome)
  if nextId = 0 ∧ ((byId st recipient 0).isSome ∨ (legacy st recipient).isSome) then ids ++ [0]
  else ids

/-! ### The sponsor index -/

/-- `get_sponsor_streams`. -/
def getSponsorStreams (st : Storage) (sponsor : Address) : List Address :=
  (storedIndex st sponsor).getD []

/-- `add_sponsor_stream`. -/
def addSponsorStream (st : Storage) (sponsor recipient : Address) : Storage :=
  let list := getSponsorStreams st sponsor
  if recipient ∈ list then st else st.insert (.sponsorStreams sponsor) (list ++ [recipient])

/-- `remove_sponsor_stream`. -/
def removeSponsorStream (st : Storage) (sponsor recipient : Address) : Storage :=
  st.insert (.sponsorStreams sponsor)
    ((getSponsorStreams st sponsor).filter fun addr => addr ≠ recipient)

/-! ### What each writer does to each key

The frame lemmas: for every writer and every key it may touch, the entry afterwards. Proofs about
the contract use these and never unfold a writer. -/

section Frames

variable (st : Storage) (r r' sp sp' : Address) (k k' : UInt32) (s : VestingSchedule)

theorem lookup_raiseNext {key : DataKey} (h : key ≠ .nextStreamId r) :
    (raiseNext st r k).lookup key = st.lookup key := by
  unfold raiseNext
  split
  · split_ifs
    · exact Finmap.lookup_insert_of_ne _ h
    · rfl
  · rfl

theorem lookup_clearLegacy {key : DataKey} (h : key ≠ .schedule r) :
    (clearLegacy st r k).lookup key = st.lookup key := by
  unfold clearLegacy
  split_ifs
  · exact Finmap.lookup_erase_ne h
  · rfl

theorem lookup_setScheduleById {key : DataKey} (h1 : key ≠ .scheduleById r k)
    (h2 : key ≠ .schedule r) (h3 : key ≠ .nextStreamId r) :
    (setScheduleById st r k s).lookup key = st.lookup key := by
  unfold setScheduleById
  rw [lookup_raiseNext _ _ _ h3, lookup_clearLegacy _ _ _ h2, Finmap.lookup_insert_of_ne _ h1]

theorem lookup_removeScheduleById {key : DataKey} (h1 : key ≠ .scheduleById r k)
    (h2 : key ≠ .schedule r) : (removeScheduleById st r k).lookup key = st.lookup key := by
  unfold removeScheduleById
  rw [lookup_clearLegacy _ _ _ h2, Finmap.lookup_erase_ne h1]

theorem legacy_clearLegacy :
    legacy (clearLegacy st r k) r' = if r' = r ∧ k = 0 then none else legacy st r' := by
  unfold clearLegacy legacy
  by_cases hk : k = 0
  · by_cases hr : r' = r
    · subst hr; rw [if_pos hk, if_pos ⟨rfl, hk⟩, Finmap.lookup_erase]
    · rw [if_pos hk, if_neg (fun h => hr h.1), Finmap.lookup_erase_ne (by simpa using hr)]
  · rw [if_neg hk, if_neg (fun h => hk h.2)]

theorem byId_setScheduleById : byId (setScheduleById st r k s) r' k' =
    if r' = r ∧ k' = k then some s else byId st r' k' := by
  unfold byId setScheduleById
  rw [lookup_raiseNext _ _ _ (by simp), lookup_clearLegacy _ _ _ (by simp)]
  split_ifs with h
  · obtain ⟨rfl, rfl⟩ := h
    exact Finmap.lookup_insert _
  · exact Finmap.lookup_insert_of_ne _ (by simpa using h)

theorem legacy_setScheduleById : legacy (setScheduleById st r k s) r' =
    if r' = r ∧ k = 0 then none else legacy st r' := by
  have h : legacy (st.insert (.scheduleById r k) s) r' = legacy st r' :=
    Finmap.lookup_insert_of_ne _ (by simp)
  rw [← h, ← legacy_clearLegacy]
  exact lookup_raiseNext _ _ _ (by simp)

theorem storedNext_setScheduleById_of_ne (h : r' ≠ r) :
    storedNext (setScheduleById st r k s) r' = storedNext st r' :=
  lookup_setScheduleById _ _ _ _ (by simp) (by simp) (by simpa using h)

/-- After a write `NextStreamId` is set, above the id written and no lower than before. -/
theorem storedNext_setScheduleById (hk : k.toNat + 1 < UInt32.size) :
    ∃ n, storedNext (setScheduleById st r k s) r = some n ∧
      n.toNat = max ((storedNext st r).getD 0).toNat (k.toNat + 1) := by
  obtain ⟨n, hn⟩ : ∃ n, checkedAdd k 1 = some n :=
    ⟨k + 1, checkedAdd_eq_some.mpr (toNat_add_of_lt hk)⟩
  have hv : n.toNat = k.toNat + 1 := checkedAdd_eq_some.mp hn
  have hst : storedNext (clearLegacy (st.insert (.scheduleById r k) s) r k) r = storedNext st r :=
    (lookup_clearLegacy _ _ _ (by simp)).trans (Finmap.lookup_insert_of_ne _ (by simp))
  unfold setScheduleById raiseNext
  rw [hn]
  simp only [hst, UInt32.lt_iff_toNat_lt]
  split_ifs with h
  · exact ⟨n, Finmap.lookup_insert _, by omega⟩
  · refine ⟨(storedNext st r).getD 0, ?_, by omega⟩
    rw [hst]
    cases hs : storedNext st r with
    | none => rw [hs] at h; simp at h; omega
    | some m => rfl

theorem storedIndex_setScheduleById :
    storedIndex (setScheduleById st r k s) sp = storedIndex st sp :=
  lookup_setScheduleById _ _ _ _ (by simp) (by simp) (by simp)

theorem byId_removeScheduleById : byId (removeScheduleById st r k) r' k' =
    if r' = r ∧ k' = k then none else byId st r' k' := by
  unfold byId removeScheduleById
  rw [lookup_clearLegacy _ _ _ (by simp)]
  split_ifs with h
  · obtain ⟨rfl, rfl⟩ := h
    exact Finmap.lookup_erase _ _
  · exact Finmap.lookup_erase_ne (by simpa using h)

theorem legacy_removeScheduleById : legacy (removeScheduleById st r k) r' =
    if r' = r ∧ k = 0 then none else legacy st r' := by
  have h : legacy (st.erase (.scheduleById r k)) r' = legacy st r' :=
    Finmap.lookup_erase_ne (by simp)
  rw [← h, ← legacy_clearLegacy]
  rfl

theorem storedNext_removeScheduleById :
    storedNext (removeScheduleById st r k) r' = storedNext st r' :=
  lookup_removeScheduleById _ _ _ (by simp) (by simp)

theorem storedIndex_removeScheduleById :
    storedIndex (removeScheduleById st r k) sp = storedIndex st sp :=
  lookup_removeScheduleById _ _ _ (by simp) (by simp)

/-- What a successful `next_stream_id` returns and writes. -/
theorem nextStreamId_ok {st' : Storage} (h : nextStreamId st r = .ok (k, st')) :
    k = (storedNext st r).getD (if (legacy st r).isSome then 1 else 0) ∧
      ∃ n, n.toNat = k.toNat + 1 ∧ st' = st.insert (.nextStreamId r) n := by
  unfold nextStreamId at h
  simp only at h
  split at h
  · next n hn =>
    simp only [Except.ok.injEq, Prod.mk.injEq] at h
    obtain ⟨rfl, rfl⟩ := h
    exact ⟨rfl, n, checkedAdd_eq_some.mp hn, rfl⟩
  · cases h

theorem lookup_addSponsorStream {key : DataKey} (h : key ≠ .sponsorStreams sp) :
    (addSponsorStream st sp r).lookup key = st.lookup key := by
  unfold addSponsorStream
  simp only
  split_ifs
  · rfl
  · exact Finmap.lookup_insert_of_ne _ h

theorem lookup_removeSponsorStream {key : DataKey} (h : key ≠ .sponsorStreams sp) :
    (removeSponsorStream st sp r).lookup key = st.lookup key := by
  unfold removeSponsorStream
  exact Finmap.lookup_insert_of_ne _ h

theorem legacy_addSponsorStream : legacy (addSponsorStream st sp r) r' = legacy st r' :=
  lookup_addSponsorStream _ _ _ (by simp)

theorem legacy_removeSponsorStream : legacy (removeSponsorStream st sp r) r' = legacy st r' :=
  lookup_removeSponsorStream _ _ _ (by simp)

theorem storedNext_addSponsorStream :
    storedNext (addSponsorStream st sp r) r' = storedNext st r' :=
  lookup_addSponsorStream _ _ _ (by simp)

theorem storedNext_removeSponsorStream :
    storedNext (removeSponsorStream st sp r) r' = storedNext st r' :=
  lookup_removeSponsorStream _ _ _ (by simp)

theorem legacy_insert_nextStreamId (n : UInt32) :
    legacy (st.insert (.nextStreamId r) n) r' = legacy st r' :=
  Finmap.lookup_insert_of_ne _ (by simp)

theorem storedNext_insert_nextStreamId (n : UInt32) :
    storedNext (st.insert (.nextStreamId r) n) r' = if r' = r then some n else storedNext st r' := by
  unfold storedNext
  split_ifs with h
  · subst h
    exact Finmap.lookup_insert _
  · exact Finmap.lookup_insert_of_ne _ (by simpa using h)

end Frames

/-! ### The sponsor index as a set -/

section Index

variable (st : Storage) (sp sp' r x : Address)

theorem getSponsorStreams_insert (l : List Address) :
    getSponsorStreams (st.insert (.sponsorStreams sp) l) sp' =
      if sp' = sp then l else getSponsorStreams st sp' := by
  unfold getSponsorStreams storedIndex
  split_ifs with h
  · subst h
    rw [Finmap.lookup_insert]
    rfl
  · rw [Finmap.lookup_insert_of_ne _ (by simpa using h)]

theorem mem_addSponsorStream : x ∈ getSponsorStreams (addSponsorStream st sp r) sp' ↔
    x ∈ getSponsorStreams st sp' ∨ (sp' = sp ∧ x = r) := by
  unfold addSponsorStream
  simp only
  split_ifs with h
  · refine ⟨Or.inl, ?_⟩
    rintro (hx | ⟨rfl, rfl⟩)
    · exact hx
    · exact h
  · rw [getSponsorStreams_insert]
    split_ifs with hsp
    · subst hsp
      simp
    · simp [hsp]

theorem nodup_addSponsorStream (h : (getSponsorStreams st sp').Nodup) :
    (getSponsorStreams (addSponsorStream st sp r) sp').Nodup := by
  unfold addSponsorStream
  simp only
  split_ifs with hr
  · exact h
  · rw [getSponsorStreams_insert]
    split_ifs with hsp
    · subst hsp
      rw [List.nodup_append_comm, List.singleton_append]
      exact List.nodup_cons.mpr ⟨hr, h⟩
    · exact h

theorem mem_removeSponsorStream : x ∈ getSponsorStreams (removeSponsorStream st sp r) sp' ↔
    x ∈ getSponsorStreams st sp' ∧ ¬ (sp' = sp ∧ x = r) := by
  unfold removeSponsorStream
  rw [getSponsorStreams_insert]
  split_ifs with hsp
  · subst hsp
    simp
  · simp [hsp]

theorem nodup_removeSponsorStream (h : (getSponsorStreams st sp').Nodup) :
    (getSponsorStreams (removeSponsorStream st sp r) sp').Nodup := by
  unfold removeSponsorStream
  rw [getSponsorStreams_insert]
  split_ifs with hsp
  · subst hsp
    exact h.filter _
  · exact h

theorem getSponsorStreams_setScheduleById (k : UInt32) (s : VestingSchedule) :
    getSponsorStreams (setScheduleById st r k s) sp = getSponsorStreams st sp := by
  unfold getSponsorStreams
  rw [storedIndex_setScheduleById]

theorem getSponsorStreams_removeScheduleById (k : UInt32) :
    getSponsorStreams (removeScheduleById st r k) sp = getSponsorStreams st sp := by
  unfold getSponsorStreams
  rw [storedIndex_removeScheduleById]

theorem getSponsorStreams_insert_nextStreamId (n : UInt32) :
    getSponsorStreams (st.insert (.nextStreamId r) n) sp = getSponsorStreams st sp := by
  unfold getSponsorStreams storedIndex
  rw [Finmap.lookup_insert_of_ne _ (by simp)]

end Index

/-! ### The streams as a map over `(recipient, id)`

Through `scheduleAt` the two key schemes are one map: writing an id writes that entry, removing an
id removes it, and nothing else changes. -/

section Streams

variable (st : Storage) (r r' sp : Address) (k k' : UInt32) (s : VestingSchedule)

/-- Storages that agree on the keys `scheduleAt` reads hold the same stream. -/
theorem scheduleAt_congr {st st' : Storage} {r : Address} {k : UInt32}
    (hb : byId st' r k = byId st r k) (hl : k = 0 → legacy st' r = legacy st r) :
    scheduleAt st' r k = scheduleAt st r k := by
  unfold scheduleAt
  rw [hb]
  by_cases hk : k = 0
  · rw [hl hk]
  · rw [if_neg hk, if_neg hk]

/-- **Writing an id** writes that stream and no other. -/
theorem scheduleAt_setScheduleById : scheduleAt (setScheduleById st r k s) r' k' =
    if r' = r ∧ k' = k then some s else scheduleAt st r' k' := by
  split_ifs with h
  · unfold scheduleAt; rw [byId_setScheduleById, if_pos h]
  · refine scheduleAt_congr (by rw [byId_setScheduleById, if_neg h]) fun hk => ?_
    rw [legacy_setScheduleById, if_neg]
    rintro ⟨hr, h0⟩
    exact h ⟨hr, by rw [hk, h0]⟩

/-- **Removing an id** removes that stream and no other. -/
theorem scheduleAt_removeScheduleById : scheduleAt (removeScheduleById st r k) r' k' =
    if r' = r ∧ k' = k then none else scheduleAt st r' k' := by
  split_ifs with h
  · obtain ⟨rfl, rfl⟩ := h
    unfold scheduleAt
    rw [byId_removeScheduleById, legacy_removeScheduleById, if_pos ⟨rfl, rfl⟩]
    by_cases hk : k' = 0 <;> simp [hk]
  · refine scheduleAt_congr (by rw [byId_removeScheduleById, if_neg h]) fun hk => ?_
    rw [legacy_removeScheduleById, if_neg]
    rintro ⟨hr, h0⟩
    exact h ⟨hr, by rw [hk, h0]⟩

theorem scheduleAt_insert_nextStreamId (n : UInt32) :
    scheduleAt (st.insert (.nextStreamId r) n) r' k' = scheduleAt st r' k' :=
  scheduleAt_congr (Finmap.lookup_insert_of_ne _ (by simp))
    fun _ => Finmap.lookup_insert_of_ne _ (by simp)

theorem scheduleAt_addSponsorStream :
    scheduleAt (addSponsorStream st sp r) r' k' = scheduleAt st r' k' :=
  scheduleAt_congr (lookup_addSponsorStream _ _ _ (by simp))
    fun _ => lookup_addSponsorStream _ _ _ (by simp)

theorem scheduleAt_removeSponsorStream :
    scheduleAt (removeSponsorStream st sp r) r' k' = scheduleAt st r' k' :=
  scheduleAt_congr (lookup_removeSponsorStream _ _ _ (by simp))
    fun _ => lookup_removeSponsorStream _ _ _ (by simp)

end Streams

end VestingDripStream.Contract.Storage
