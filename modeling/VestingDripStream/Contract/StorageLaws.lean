import VestingDripStream.Contract.Storage
import VestingDripStream.Lib.Run

/-! # Laws of the storage layer

Writers use `ScheduleById`, `get_schedule` and `get_schedule_readonly` read the legacy `Schedule`,
and every write of id `0` removes the legacy entry. So a schedule that was just set is never read
back (`getSchedule_setSchedule`), although `has_schedule` sees it, and a read that migrates a legacy
entry is the last one to find it (`getSchedule_again_of_old`).

The ids are kept better: `IdsKept` ties `NextStreamId` to the ids that are live and to those that
were handed out, each of the three operations on ids preserves it (`idsKept_step`), and under it
`get_stream_ids` lists the live ids and `next_stream_id` returns a new one. -/

namespace VestingDripStream.Contract.StorageLaws

open VestingDripStream.Lib.Checked VestingDripStream.Lib.Run
open VestingDripStream.Contract.Types VestingDripStream.Contract.Storage

/-! ### Read your writes -/

/-- What a reader of `r'` sees: the two reads and the existence check. -/
def seen (st : Storage) (r' : Address) : Option VestingSchedule × Option VestingSchedule × Bool :=
  ((getSchedule st r').1, getScheduleReadonly st r', hasSchedule st r')

/-- **Read-your-writes** at `r`: a schedule that is set is read back, one that is removed is gone,
and no other recipient sees a difference. -/
structure ReadYourWrites (st : Storage) (r : Address) (s : VestingSchedule) : Prop where
  set : seen (setSchedule st r s) r = (some s, some s, true)
  remove : seen (removeSchedule st r) r = (none, none, false)
  set_other : ∀ r' ≠ r, seen (setSchedule st r s) r' = seen st r'
  remove_other : ∀ r' ≠ r, seen (removeSchedule st r) r' = seen st r'

theorem getSchedule_of_legacy_none {st : Storage} {r : Address} (h : legacy st r = none) :
    getSchedule st r = (none, st) := by
  unfold getSchedule; rw [h]

/-- The schedule `get_schedule` finds depends on the legacy key alone. -/
theorem getSchedule_fst_congr {st st' : Storage} {r : Address} (h : legacy st' r = legacy st r) :
    (getSchedule st' r).1 = (getSchedule st r).1 := by
  unfold getSchedule
  rw [h]
  cases legacy st r with
  | none => rfl
  | some s => simp only [migrateSchedule]; split_ifs <;> rfl

theorem legacy_setSchedule (st : Storage) (r : Address) (s : VestingSchedule) :
    legacy (setSchedule st r s) r = none := by
  unfold setSchedule; rw [legacy_setScheduleById, if_pos ⟨rfl, rfl⟩]

/-- A schedule that was just set is not found by `get_schedule`. -/
theorem getSchedule_setSchedule (st : Storage) (r : Address) (s : VestingSchedule) :
    getSchedule (setSchedule st r s) r = (none, setSchedule st r s) :=
  getSchedule_of_legacy_none (legacy_setSchedule st r s)

theorem seen_setSchedule (st : Storage) (r : Address) (s : VestingSchedule) :
    seen (setSchedule st r s) r = (none, none, true) := by
  unfold seen hasSchedule
  rw [getSchedule_setSchedule, getScheduleReadonly, legacy_setSchedule, setSchedule,
    byId_setScheduleById, if_pos ⟨rfl, rfl⟩]
  rfl

theorem seen_removeSchedule (st : Storage) (r : Address) :
    seen (removeSchedule st r) r = (none, none, false) := by
  have hl : legacy (removeSchedule st r) r = none := by
    unfold removeSchedule; rw [legacy_removeScheduleById, if_pos ⟨rfl, rfl⟩]
  unfold seen hasSchedule
  rw [getSchedule_of_legacy_none hl, getScheduleReadonly, hl, removeSchedule,
    byId_removeScheduleById, if_pos ⟨rfl, rfl⟩]
  rfl

/-- A reader sees a difference only if the legacy key or id `0` changed. -/
theorem seen_congr {st st' : Storage} {r : Address} (hl : legacy st' r = legacy st r)
    (hb : byId st' r 0 = byId st r 0) : seen st' r = seen st r := by
  unfold seen getScheduleReadonly hasSchedule
  rw [getSchedule_fst_congr hl, hl, hb]

theorem seen_setSchedule_of_ne (st : Storage) {r r' : Address} (s : VestingSchedule)
    (h : r' ≠ r) : seen (setSchedule st r s) r' = seen st r' := by
  unfold setSchedule
  refine seen_congr ?_ ?_
  · rw [legacy_setScheduleById, if_neg (fun h' => h h'.1)]
  · rw [byId_setScheduleById, if_neg (fun h' => h h'.1)]

theorem seen_removeSchedule_of_ne (st : Storage) {r r' : Address} (h : r' ≠ r) :
    seen (removeSchedule st r) r' = seen st r' := by
  unfold removeSchedule
  refine seen_congr ?_ ?_
  · rw [legacy_removeScheduleById, if_neg (fun h' => h h'.1)]
  · rw [byId_removeScheduleById, if_neg (fun h' => h h'.1)]

/-- **Read-your-writes fails for every storage, recipient and schedule**, and only at the two reads
of the schedule that was set: the existence check, the removal and the other recipients are
right. -/
theorem readYourWrites_fails (st : Storage) (r : Address) (s : VestingSchedule) :
    ¬ ReadYourWrites st r s ∧ seen (setSchedule st r s) r = (none, none, true) ∧
      seen (removeSchedule st r) r = (none, none, false) ∧
      (∀ r' ≠ r, seen (setSchedule st r s) r' = seen st r') ∧
      ∀ r' ≠ r, seen (removeSchedule st r) r' = seen st r' := by
  refine ⟨fun h => ?_, seen_setSchedule st r s, seen_removeSchedule st r,
    fun r' hr => seen_setSchedule_of_ne st s hr, fun r' hr => seen_removeSchedule_of_ne st hr⟩
  have := h.set
  rw [seen_setSchedule] at this
  simp at this

/-- A current-schema schedule for examples: 1 token per ledger over 200 ledgers, cliff at 50. -/
def sampleSchedule : VestingSchedule where
  token := ⟨10⟩
  sponsor := ⟨1⟩
  ratePerLedger := 10000000
  startLedger := 100
  cliffLedger := 150
  endLedger := 300
  lastClaimedLedger := 100
  totalClaimed := 0
  claimedAmount := 0
  metadata := none
  pausedAtLedger := none
  accumulatedPauseLedgers := 0
  version := 1
  schemaVersion := currentSchemaVersion

/-- Setting the sample schedule of recipient `2` in the empty storage. -/
theorem readYourWrites_sample_false :
    sampleSchedule.schemaVersion = currentSchemaVersion ∧
      ¬ ReadYourWrites ∅ ⟨2⟩ sampleSchedule := by
  refine ⟨rfl, fun h => ?_⟩
  have := h.set
  rw [seen_setSchedule] at this
  simp at this

/-! ### Lazy migration -/

/-- The schedule with its schema version raised to the current one. -/
def raised (s : VestingSchedule) : VestingSchedule :=
  if s.schemaVersion < currentSchemaVersion then { s with schemaVersion := currentSchemaVersion }
  else s

/-- The storage after `n` calls of `get_schedule(r)`. -/
def afterReads (st : Storage) (r : Address) : ℕ → Storage
  | 0 => st
  | n + 1 => (getSchedule (afterReads st r n) r).2

/-- **Lazy migration is lossless and stable** on the legacy entry `s` of `r`: the first read returns
it raised, and so does every later read, of either kind. -/
structure MigrationStable (st : Storage) (r : Address) (s : VestingSchedule) : Prop where
  first : (getSchedule st r).1 = some (raised s)
  second : (getSchedule (getSchedule st r).2 r).1 = some (raised s)
  readonly : getScheduleReadonly (getSchedule st r).2 r = some (raised s)
  reads : ∀ n, (getSchedule (afterReads st r n) r).1 = some (raised s)

section Migration

variable {st : Storage} {r : Address} {s : VestingSchedule}

theorem getSchedule_of_current (hl : legacy st r = some s)
    (h : currentSchemaVersion ≤ s.schemaVersion) : getSchedule st r = (some s, st) := by
  have h0 : s.schemaVersion ≠ 0 := by
    intro h0
    rw [h0] at h
    exact absurd h (by decide)
  unfold getSchedule migrateSchedule
  rw [hl]
  simp only [if_neg h0, if_pos h]

/-- A read of an older record stores the raised record under id `0` and drops the legacy entry. -/
theorem getSchedule_of_old (hl : legacy st r = some s)
    (h : s.schemaVersion < currentSchemaVersion) :
    getSchedule st r = (some (raised s), setSchedule st r (raised s)) := by
  have hr : raised s = migrateV1ToV2 s := by unfold raised; rw [if_pos h]; rfl
  have hv : (if s.schemaVersion = 0 then (1 : UInt32) else s.schemaVersion) < 2 := by
    split_ifs
    · decide
    · exact h
  unfold getSchedule migrateSchedule
  rw [hl]
  simp only [if_pos hv, hr]
  rw [if_neg]
  rw [UInt32.not_le]
  exact hv

theorem getSchedule_again_of_old (hl : legacy st r = some s)
    (h : s.schemaVersion < currentSchemaVersion) :
    (getSchedule (getSchedule st r).2 r).1 = none := by
  rw [getSchedule_of_old hl h, getSchedule_setSchedule]

theorem afterReads_of_current (hl : legacy st r = some s)
    (h : currentSchemaVersion ≤ s.schemaVersion) (n : ℕ) : afterReads st r n = st := by
  induction n with
  | zero => rfl
  | succ n ih => unfold afterReads; rw [ih, getSchedule_of_current hl h]

/-- **Lazy migration is stable exactly on records that need none.** -/
theorem migrationStable_iff (hl : legacy st r = some s) :
    MigrationStable st r s ↔ currentSchemaVersion ≤ s.schemaVersion := by
  constructor
  · intro hst
    by_contra h
    rw [UInt32.not_le] at h
    have h2 := hst.second
    rw [getSchedule_again_of_old hl h] at h2
    cases h2
  · intro h
    have hr : raised s = s := by unfold raised; rw [if_neg (UInt32.not_lt.mpr h)]
    have hg := getSchedule_of_current hl h
    refine ⟨?_, ?_, ?_, fun n => ?_⟩
    · rw [hg, hr]
    · rw [hg, hr, hg]
    · rw [hg, hr]; exact hl
    · rw [afterReads_of_current hl h, hg, hr]

end Migration

/-- The sample schedule as a legacy record of recipient `2`, at schema version `v`. -/
def legacySample (v : UInt32) : Storage :=
  (∅ : Storage).insert (.schedule ⟨2⟩) { sampleSchedule with schemaVersion := v }

theorem legacy_legacySample (v : UInt32) :
    legacy (legacySample v) ⟨2⟩ = some { sampleSchedule with schemaVersion := v } :=
  Finmap.lookup_insert _

theorem migrationStable_iff_sample :
    MigrationStable (legacySample 2) ⟨2⟩ { sampleSchedule with schemaVersion := 2 } ↔
      currentSchemaVersion ≤ 2 :=
  migrationStable_iff (legacy_legacySample 2)

/-- A record of schema version `1` is found by the first read and lost to the second. -/
theorem migrationStable_v1_false :
    legacy (legacySample 1) ⟨2⟩ = some { sampleSchedule with schemaVersion := 1 } ∧
      ¬ MigrationStable (legacySample 1) ⟨2⟩ { sampleSchedule with schemaVersion := 1 } := by
  refine ⟨legacy_legacySample 1, fun h => ?_⟩
  have h2 := h.second
  rw [getSchedule_again_of_old (legacy_legacySample 1) (by decide)] at h2
  cases h2

/-! ### Stream ids -/

/-- The operations on the ids of a recipient. -/
inductive IdOp
  | nextStreamId (r : Address)
  | setScheduleById (r : Address) (k : UInt32) (s : VestingSchedule)
  | removeScheduleById (r : Address) (k : UInt32)

/-- The ids of the operation are below `u32::MAX`. -/
def IdOp.Legal : IdOp → Prop
  | .nextStreamId _ => True
  | .setScheduleById _ k _ => k < u32Max
  | .removeScheduleById _ k => k < u32Max

/-- A storage together with the ids `next_stream_id` has returned so far. -/
structure IdState where
  st : Storage
  issued : List (Address × UInt32)

/-- One operation; a failing `next_stream_id` changes nothing. -/
def IdState.step (c : IdState) : IdOp → IdState
  | .nextStreamId r =>
    match nextStreamId c.st r with
    | .ok (k, st') => ⟨st', (r, k) :: c.issued⟩
    | .error _ => c
  | .setScheduleById r k s => { c with st := setScheduleById c.st r k s }
  | .removeScheduleById r k => { c with st := removeScheduleById c.st r k }

/-- A storage that holds, per recipient, nothing or a legacy entry. -/
def LegacyOnly (st : Storage) : Prop :=
  ∀ r, storedNext st r = none ∧ ∀ k, byId st r k = none

/-- **The invariant of the ids**: `NextStreamId`, where it is set, is positive and above every id
that is stored or was handed out; where it is not set, there is no such id. -/
structure IdsKept (c : IdState) : Prop where
  pos : ∀ r n, storedNext c.st r = some n → 0 < n.toNat
  stored : ∀ r k, (byId c.st r k).isSome → ∃ n, storedNext c.st r = some n ∧ k.toNat < n.toNat
  issued : ∀ r k, (r, k) ∈ c.issued → ∃ n, storedNext c.st r = some n ∧ k.toNat < n.toNat

theorem idsKept_of_legacyOnly {st : Storage} (h : LegacyOnly st) : IdsKept ⟨st, []⟩ where
  pos r n hn := by rw [(h r).1] at hn; cases hn
  stored r k hk := by rw [(h r).2 k] at hk; cases hk
  issued r k hk := by cases hk

/-- `NextStreamId` may rise, and what is stored or handed out may shrink. -/
theorem IdsKept.mono {c c' : IdState} (h : IdsKept c)
    (hnext : ∀ r n, storedNext c.st r = some n →
      ∃ n', storedNext c'.st r = some n' ∧ n.toNat ≤ n'.toNat)
    (hpos : ∀ r n, storedNext c'.st r = some n → 0 < n.toNat)
    (hstored : ∀ r k, (byId c'.st r k).isSome → (byId c.st r k).isSome ∨
      ∃ n, storedNext c'.st r = some n ∧ k.toNat < n.toNat)
    (hissued : ∀ r k, (r, k) ∈ c'.issued → (r, k) ∈ c.issued ∨
      ∃ n, storedNext c'.st r = some n ∧ k.toNat < n.toNat) : IdsKept c' where
  pos := hpos
  stored r k hk := by
    rcases hstored r k hk with hk | hk
    · obtain ⟨n, hn, hlt⟩ := h.stored r k hk
      obtain ⟨n', hn', hle⟩ := hnext r n hn
      exact ⟨n', hn', by omega⟩
    · exact hk
  issued r k hk := by
    rcases hissued r k hk with hk | hk
    · obtain ⟨n, hn, hlt⟩ := h.issued r k hk
      obtain ⟨n', hn', hle⟩ := hnext r n hn
      exact ⟨n', hn', by omega⟩
    · exact hk

theorem idsKept_set {c : IdState} (h : IdsKept c) (r : Address) (k : UInt32)
    (s : VestingSchedule) (hk : k < u32Max) :
    IdsKept { c with st := setScheduleById c.st r k s } := by
  have hlt : k.toNat + 1 < UInt32.size := by
    have := UInt32.lt_iff_toNat_lt.mp hk
    have hm : u32Max.toNat + 1 = UInt32.size := rfl
    omega
  obtain ⟨m, hm, hmv⟩ := storedNext_setScheduleById c.st r k s hlt
  refine h.mono (fun r' n hn => ?_) (fun r' n hn => ?_) (fun r' k' hk' => ?_)
    fun r' k' hk' => Or.inl hk'
  · by_cases hr : r' = r
    · subst hr
      rw [hn] at hmv
      exact ⟨m, hm, by simp at hmv; omega⟩
    · exact ⟨n, by rw [storedNext_setScheduleById_of_ne _ _ _ _ _ hr, hn], le_rfl⟩
  · by_cases hr : r' = r
    · subst hr
      rw [hm, Option.some.injEq] at hn
      subst hn
      omega
    · rw [storedNext_setScheduleById_of_ne _ _ _ _ _ hr] at hn
      exact h.pos r' n hn
  · rw [byId_setScheduleById] at hk'
    split_ifs at hk' with heq
    · obtain ⟨rfl, rfl⟩ := heq
      exact Or.inr ⟨m, hm, by omega⟩
    · exact Or.inl hk'

theorem idsKept_remove {c : IdState} (h : IdsKept c) (r : Address) (k : UInt32) :
    IdsKept { c with st := removeScheduleById c.st r k } := by
  refine h.mono (fun r' n hn => ⟨n, ?_, le_rfl⟩) (fun r' n hn => ?_) (fun r' k' hk' => ?_)
    fun r' k' hk' => Or.inl hk'
  · rw [storedNext_removeScheduleById, hn]
  · rw [storedNext_removeScheduleById] at hn
    exact h.pos r' n hn
  · rw [byId_removeScheduleById] at hk'
    split_ifs at hk' with heq
    · cases hk'
    · exact Or.inl hk'

/-- The id `next_stream_id` returns is not below a stored `NextStreamId`. -/
theorem le_nextStreamId {st st' : Storage} {r : Address} {k n : UInt32}
    (h : nextStreamId st r = .ok (k, st')) (hn : storedNext st r = some n) : k = n := by
  rw [(nextStreamId_ok _ _ _ h).1, hn]; rfl

theorem idsKept_next {c : IdState} (h : IdsKept c) {r : Address} {k : UInt32} {st' : Storage}
    (hk : nextStreamId c.st r = .ok (k, st')) : IdsKept ⟨st', (r, k) :: c.issued⟩ := by
  obtain ⟨-, m, hm, rfl⟩ := nextStreamId_ok _ _ _ hk
  have hself : storedNext (c.st.insert (.nextStreamId r) m) r = some m := Finmap.lookup_insert _
  have hother : ∀ r' ≠ r, storedNext (c.st.insert (.nextStreamId r) m) r' = storedNext c.st r' :=
    fun r' hr => Finmap.lookup_insert_of_ne _ (by simpa using hr)
  have hbyId : ∀ r' k', byId (c.st.insert (.nextStreamId r) m) r' k' = byId c.st r' k' :=
    fun r' k' => Finmap.lookup_insert_of_ne _ (by simp)
  refine h.mono (fun r' n hn => ?_) (fun r' n hn => ?_) (fun r' k' hk' => ?_)
    fun r' k' hk' => ?_
  · by_cases hr : r' = r
    · subst hr
      have := le_nextStreamId hk hn
      subst this
      exact ⟨m, hself, by omega⟩
    · exact ⟨n, by rw [hother r' hr, hn], le_rfl⟩
  · by_cases hr : r' = r
    · subst hr
      rw [hself, Option.some.injEq] at hn
      subst hn
      omega
    · rw [hother r' hr] at hn
      exact h.pos r' n hn
  · rw [hbyId] at hk'
    exact Or.inl hk'
  · rcases List.mem_cons.mp hk' with heq | hmem
    · obtain ⟨rfl, rfl⟩ := Prod.mk.inj heq
      exact Or.inr ⟨m, hself, by omega⟩
    · exact Or.inl hmem

/-- One step keeps the invariant. -/
theorem idsKept_step (c : IdState) (op : IdOp) (h : IdsKept c) (hop : op.Legal) :
    IdsKept (c.step op) := by
  cases op with
  | nextStreamId r =>
    cases hk : nextStreamId c.st r with
    | error e => simpa only [IdState.step, hk] using h
    | ok p => simpa only [IdState.step, hk] using idsKept_next h hk
  | setScheduleById r k s => exact idsKept_set h r k s hop
  | removeScheduleById r k => exact idsKept_remove h r k

/-! ### What the invariant gives -/

theorem mem_map_ofNat_range {n : ℕ} (hn : n ≤ UInt32.size) {k : UInt32} :
    k ∈ (List.range n).map UInt32.ofNat ↔ k.toNat < n := by
  simp only [List.mem_map, List.mem_range]
  constructor
  · rintro ⟨i, hi, rfl⟩
    rwa [UInt32.toNat_ofNat_of_lt' (lt_of_lt_of_le hi hn)]
  · exact fun h => ⟨k.toNat, h, UInt32.ofNat_toNat⟩

theorem pairwise_map_ofNat_range {n : ℕ} (hn : n ≤ UInt32.size) :
    ((List.range n).map UInt32.ofNat).Pairwise (· < ·) := by
  rw [List.pairwise_map]
  refine List.Pairwise.imp_of_mem ?_ List.pairwise_lt_range
  intro a b ha hb hab
  rw [List.mem_range] at ha hb
  rw [UInt32.lt_iff_toNat_lt, UInt32.toNat_ofNat_of_lt' (lt_of_lt_of_le ha hn),
    UInt32.toNat_ofNat_of_lt' (lt_of_lt_of_le hb hn)]
  exact hab

theorem isSome_scheduleAt (st : Storage) (r : Address) (k : UInt32) :
    (scheduleAt st r k).isSome ↔ (byId st r k).isSome ∨ (k = 0 ∧ (legacy st r).isSome) := by
  unfold scheduleAt
  cases byId st r k with
  | some s => simp
  | none => by_cases hk : k = 0 <;> simp [hk]

/-- `get_stream_ids` where `NextStreamId` is set. -/
theorem getStreamIds_of_some {st : Storage} {r : Address} {n : UInt32}
    (hn : storedNext st r = some n) (hpos : 0 < n.toNat) :
    getStreamIds st r = ((List.range n.toNat).map UInt32.ofNat).filter fun k =>
      (byId st r k).isSome || (k == 0 && (legacy st r).isSome) := by
  unfold getStreamIds
  simp only [hn, Option.getD_some]
  rw [if_neg]
  rintro ⟨rfl, -⟩
  exact absurd hpos (by decide)

/-- `get_stream_ids` where it is not. -/
theorem getStreamIds_of_none {st : Storage} {r : Address} (hn : storedNext st r = none)
    (hb : byId st r 0 = none) :
    getStreamIds st r = if (legacy st r).isSome then [0] else [] := by
  unfold getStreamIds
  simp [hn, hb]

section Kept

variable {c : IdState} (h : IdsKept c)
include h

/-- Without `NextStreamId` nothing is stored by id. -/
theorem IdsKept.byId_none {r : Address} (hn : storedNext c.st r = none) (k : UInt32) :
    byId c.st r k = none := by
  by_contra hb
  obtain ⟨n, hn', -⟩ := h.stored r k (Option.isSome_iff_ne_none.mpr hb)
  rw [hn] at hn'
  cases hn'

theorem IdsKept.mem_getStreamIds {r : Address} {k : UInt32} :
    k ∈ getStreamIds c.st r ↔ (scheduleAt c.st r k).isSome := by
  rw [isSome_scheduleAt]
  cases hn : storedNext c.st r with
  | none =>
    rw [getStreamIds_of_none hn (h.byId_none hn 0), h.byId_none hn k]
    split_ifs with hl <;> simp [hl]
  | some n =>
    have hpos := h.pos r n hn
    rw [getStreamIds_of_some hn hpos, List.mem_filter,
      mem_map_ofNat_range (Nat.le_of_lt n.toNat_lt)]
    simp only [Bool.or_eq_true, Bool.and_eq_true, beq_iff_eq]
    refine ⟨fun hk => hk.2, fun hk => ⟨?_, hk⟩⟩
    rcases hk with hk | ⟨rfl, -⟩
    · obtain ⟨n', hn', hlt⟩ := h.stored r k hk
      rw [hn, Option.some.injEq] at hn'
      rwa [hn']
    · simpa using hpos

theorem IdsKept.pairwise_getStreamIds (r : Address) :
    (getStreamIds c.st r).Pairwise (· < ·) := by
  cases hn : storedNext c.st r with
  | none =>
    rw [getStreamIds_of_none hn (h.byId_none hn 0)]
    split_ifs <;> simp
  | some n =>
    rw [getStreamIds_of_some hn (h.pos r n hn)]
    exact (pairwise_map_ofNat_range (Nat.le_of_lt n.toNat_lt)).filter _

theorem IdsKept.nextStreamId_fresh {r : Address} {k : UInt32} {st' : Storage}
    (hk : nextStreamId c.st r = .ok (k, st')) :
    scheduleAt c.st r k = none ∧ (r, k) ∉ c.issued := by
  cases hn : storedNext c.st r with
  | none =>
    have hissued : (r, k) ∉ c.issued := by
      intro hmem
      obtain ⟨n, hn', -⟩ := h.issued r k hmem
      rw [hn] at hn'
      cases hn'
    refine ⟨?_, hissued⟩
    have hid := (nextStreamId_ok _ _ _ hk).1
    unfold scheduleAt
    rw [h.byId_none hn k]
    cases hl : legacy c.st r with
    | none => simp
    | some s =>
      -- a legacy stream counts as id 0, and the first id handed out is then 1
      simp only [hn, hl, Option.getD_none, Option.isSome_some, if_true] at hid
      rw [hid]
      rfl
  | some n =>
    have hkn := le_nextStreamId hk hn
    subst hkn
    constructor
    · by_contra hlive
      rw [← ne_eq, ← Option.isSome_iff_ne_none, isSome_scheduleAt] at hlive
      rcases hlive with hb | ⟨rfl, -⟩
      · obtain ⟨n', hn', hlt⟩ := h.stored r k hb
        rw [hn, Option.some.injEq] at hn'
        rw [hn'] at hlt
        exact lt_irrefl _ hlt
      · exact absurd (h.pos r 0 hn) (by decide)
    · intro hmem
      obtain ⟨n', hn', hlt⟩ := h.issued r k hmem
      rw [hn, Option.some.injEq] at hn'
      rw [hn'] at hlt
      exact lt_irrefl _ hlt

end Kept

/-- **Stream ids are exact and fresh.** After any sequence of the three operations with ids below
`u32::MAX`, started with nothing but legacy entries, `get_stream_ids` lists exactly the live ids, in
increasing order, and `next_stream_id` returns an id that is neither live nor was returned
before. -/
theorem streamIds_exact {st : Storage} (hst : LegacyOnly st) {ops : List IdOp}
    (hops : ∀ op ∈ ops, op.Legal) (r : Address) :
    let c := run IdState.step ⟨st, []⟩ ops
    (∀ k, k ∈ getStreamIds c.st r ↔ (scheduleAt c.st r k).isSome) ∧
      (getStreamIds c.st r).Pairwise (· < ·) ∧ (getStreamIds c.st r).Nodup ∧
      ∀ k st', nextStreamId c.st r = .ok (k, st') →
        scheduleAt c.st r k = none ∧ (r, k) ∉ c.issued := by
  intro c
  have h : IdsKept c :=
    run_induct idsKept_step (idsKept_of_legacyOnly hst) (allSteps_of_forall hops)
  refine ⟨fun k => h.mem_getStreamIds, h.pairwise_getStreamIds r, ?_,
    fun k st' hk => h.nextStreamId_fresh hk⟩
  refine (h.pairwise_getStreamIds r).imp fun hab heq => ?_
  subst heq
  exact UInt32.lt_irrefl _ hab

theorem legacyOnly_legacySample (v : UInt32) : LegacyOnly (legacySample v) := by
  intro r
  refine ⟨?_, fun k => ?_⟩
  · exact (Finmap.lookup_insert_of_ne _ (by simp)).trans (Finmap.lookup_empty _)
  · exact (Finmap.lookup_insert_of_ne _ (by simp)).trans (Finmap.lookup_empty _)

/-- A legacy stream of recipient `2`; an id is taken and used, then the legacy stream is removed. -/
theorem streamIds_exact_sample :
    let ops : List IdOp := [.nextStreamId ⟨2⟩, .setScheduleById ⟨2⟩ 1 sampleSchedule,
      .removeScheduleById ⟨2⟩ 0]
    let c := run IdState.step ⟨legacySample 2, []⟩ ops
    LegacyOnly (legacySample 2) ∧ (∀ op ∈ ops, op.Legal) ∧
      ∀ k, k ∈ getStreamIds c.st ⟨2⟩ ↔ (scheduleAt c.st ⟨2⟩ k).isSome := by
  intro ops c
  have hops : ∀ op ∈ ops, op.Legal := by
    intro op hop
    simp only [ops, List.mem_cons, List.not_mem_nil, or_false] at hop
    rcases hop with rfl | rfl | rfl
    · exact trivial
    · show (1 : UInt32) < u32Max
      decide
    · show (0 : UInt32) < u32Max
      decide
  exact ⟨legacyOnly_legacySample 2, hops,
    (streamIds_exact (legacyOnly_legacySample 2) hops ⟨2⟩).1⟩

end VestingDripStream.Contract.StorageLaws
