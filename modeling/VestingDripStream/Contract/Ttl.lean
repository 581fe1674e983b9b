import VestingDripStream.Contract.EntryPoints
import VestingDripStream.Lib.Expiring
import VestingDripStream.Lib.Run

/-! # Lifetimes of the stored streams

An entry of the persistent storage lives up to its expiry. `set_schedule_by_id` gives the entry of a
stream a lifetime derived from the end of the stream, and keepers are to renew it through
`keeper_bump`.

* With lifetimes or without, `set_schedule_by_id` writes the same values
  (`shows_setScheduleById`).
* `expiry_setScheduleById` is the expiry it leaves: at most `PERSISTENT_BUMP_AMOUNT` ledgers ahead.
* `keeper_bump` reads the legacy key through `get_schedule_readonly`, which extends nothing, so it
  never touches the entry (`entryKept_keeperStep`): the entry is there up to the end of the stream
  exactly if it was so when it was stored, however often keepers call (`keptAlive_iff`). -/

namespace VestingDripStream.Contract.Ttl

open VestingDripStream.Lib.Checked VestingDripStream.Lib.Expiring VestingDripStream.Lib.Run
open VestingDripStream.Contract.Types VestingDripStream.Contract.Storage
open VestingDripStream.Contract.EntryPoints

/-! ### The storage functions with lifetimes -/

/-- `PERSISTENT_LEDGER_THRESHOLD`. -/
def persistentLedgerThreshold : UInt32 := 3000000

/-- `PERSISTENT_BUMP_AMOUNT`. -/
def persistentBumpAmount : UInt32 := 3110400

/-- `TTL_BUFFER_LEDGERS`. -/
def ttlBufferLedgers : UInt32 := 3153600

/-- The persistent entries with their expiries, and the expiry of the instance storage. -/
structure Ledger where
  persistent : TimedMap DataKey DataKey.Val
  instanceExpiry : ℕ

/-- `bump_instance`. -/
def bumpInstance (m : Ledger) (current : UInt32) : Ledger :=
  if m.instanceExpiry - current.toNat < persistentLedgerThreshold.toNat then
    { m with instanceExpiry := current.toNat + persistentBumpAmount.toNat }
  else m

/-- `compute_stream_ttl`. -/
def computeStreamTtl (current endLedger : UInt32) : UInt32 :=
  min (saturatingSub (saturatingAdd endLedger ttlBufferLedgers) current) persistentBumpAmount

/-- `ensure_ttl_for_stream_id`. -/
def ensureTtlForStreamId (m : Ledger) (current : UInt32) (recipient : Address) (streamId : UInt32)
    (schedule : VestingSchedule) : Ledger :=
  let key := DataKey.scheduleById recipient streamId
  let ttl := computeStreamTtl current schedule.endLedger
  let persistent :=
    if (m.persistent.read current.toNat key).isSome = true ∧ persistentLedgerThreshold < ttl then
      m.persistent.extendTtl current.toNat key persistentLedgerThreshold.toNat ttl.toNat
    else m.persistent
  bumpInstance { m with persistent } current

/-- The legacy entry goes when id `0` is written. -/
def clearLegacyKey (m : TimedMap DataKey DataKey.Val) (recipient : Address) (streamId : UInt32) :
    TimedMap DataKey DataKey.Val :=
  if streamId = 0 then m.remove (.schedule recipient) else m

/-- `NextStreamId` is raised above the id written; a new entry lives for `life` ledgers. -/
def raiseNextId (m : TimedMap DataKey DataKey.Val) (life : ℕ) (current : UInt32)
    (recipient : Address) (streamId : UInt32) : TimedMap DataKey DataKey.Val :=
  match checkedAdd streamId 1 with
  | some nextId =>
    if (m.read current.toNat (.nextStreamId recipient)).getD 0 < nextId then
      m.set life current.toNat (.nextStreamId recipient) nextId
    else m
  | none => m

/-- The writes of `set_schedule_by_id`. -/
def writeScheduleById (m : TimedMap DataKey DataKey.Val) (life : ℕ) (current : UInt32)
    (recipient : Address) (streamId : UInt32) (schedule : VestingSchedule) :
    TimedMap DataKey DataKey.Val :=
  raiseNextId (clearLegacyKey
    (m.set life current.toNat (.scheduleById recipient streamId) schedule) recipient streamId)
    life current recipient streamId

/-- `set_schedule_by_id`. -/
def setScheduleById (m : Ledger) (life : ℕ) (current : UInt32) (recipient : Address)
    (streamId : UInt32) (schedule : VestingSchedule) : Ledger :=
  ensureTtlForStreamId
    { m with persistent := writeScheduleById m.persistent life current recipient streamId schedule }
    current recipient streamId schedule

/-- `get_schedule_readonly`. -/
def getScheduleReadonly (m : Ledger) (current : UInt32) (recipient : Address) :
    Option VestingSchedule :=
  m.persistent.read current.toNat (.schedule recipient)

/-- `keeper_bump`. -/
def keeperBump (m : Ledger) (current : UInt32) (recipient : Address) : Except Failure Ledger :=
  match getScheduleReadonly m current recipient with
  | none => .error (.err .scheduleNotFound)
  | some _ => .ok (bumpInstance m current)

/-- The expiry `set_schedule_by_id` leaves. -/
def storedUntil (m : TimedMap DataKey DataKey.Val) (life : ℕ) (current : UInt32) (r : Address)
    (k : UInt32) (s : VestingSchedule) : ℕ :=
  let held := m.expiryOnSet life current.toNat (.scheduleById r k)
  let ttl := computeStreamTtl current s.endLedger
  if held - current.toNat < persistentLedgerThreshold.toNat ∧ persistentLedgerThreshold < ttl then
    current.toNat + ttl.toNat
  else held

/-! ### Storing a stream -/

section Store

variable {m : Ledger} {life : ℕ} {current : UInt32} {r : Address} {k : UInt32}
  {s : VestingSchedule}

theorem bumpInstance_persistent : (bumpInstance m current).persistent = m.persistent := by
  unfold bumpInstance
  split_ifs <;> rfl

section Write

variable {m : TimedMap DataKey DataKey.Val} {st : Storage}

theorem shows_clearLegacyKey (h : Shows current.toNat m st) :
    Shows current.toNat (clearLegacyKey m r k) (clearLegacy st r k) := by
  unfold clearLegacyKey clearLegacy
  split_ifs
  · exact h.remove
  · exact h

theorem shows_raiseNextId (h : Shows current.toNat m st) :
    Shows current.toNat (raiseNextId m life current r k) (raiseNext st r k) := by
  unfold raiseNextId raiseNext storedNext
  rw [h (.nextStreamId r)]
  cases checkedAdd k 1 with
  | none => exact h
  | some nextId =>
    simp only
    split_ifs
    · exact h.set (.nextStreamId r) nextId
    · exact h

/-- What can be read after the writes is what the writes of the plain storage leave. -/
theorem shows_writeScheduleById (h : Shows current.toNat m st) :
    Shows current.toNat (writeScheduleById m life current r k s)
      (Storage.setScheduleById st r k s) :=
  shows_raiseNextId (shows_clearLegacyKey (h.set (.scheduleById r k) s))

/-- Only the first write concerns the entry of the stream. -/
theorem entry_writeScheduleById :
    (writeScheduleById m life current r k s).entry (.scheduleById r k) =
      (some s, m.expiryOnSet life current.toNat (.scheduleById r k)) := by
  have hclear : ∀ m' : TimedMap DataKey DataKey.Val,
      (clearLegacyKey m' r k).entry (.scheduleById r k) = m'.entry (.scheduleById r k) := by
    intro m'
    unfold clearLegacyKey
    split_ifs
    · exact entry_remove_of_ne (by simp)
    · rfl
  have hraise : ∀ m' : TimedMap DataKey DataKey.Val,
      (raiseNextId m' life current r k).entry (.scheduleById r k) =
        m'.entry (.scheduleById r k) := by
    intro m'
    unfold raiseNextId
    split
    · split_ifs
      · exact entry_set_of_ne (by simp)
      · rfl
    · rfl
  unfold writeScheduleById
  rw [hraise, hclear]
  exact entry_set

end Write

/-- **The lifetimes do not matter to the values**: `set_schedule_by_id` changes what can be read as
the plain storage is changed. -/
theorem shows_setScheduleById {st : Storage} (h : Shows current.toNat m.persistent st) :
    Shows current.toNat (setScheduleById m life current r k s).persistent
      (Storage.setScheduleById st r k s) := by
  have hwrite : Shows current.toNat (writeScheduleById m.persistent life current r k s)
      (Storage.setScheduleById st r k s) := shows_writeScheduleById h
  unfold setScheduleById ensureTtlForStreamId
  simp only [bumpInstance_persistent]
  split_ifs
  · exact hwrite.extendTtl
  · exact hwrite

/-- **The expiry of a stored stream.** It is what the write leaves, or the lifetime derived from the
end of the stream. -/
theorem entry_setScheduleById :
    (setScheduleById m life current r k s).persistent.entry (.scheduleById r k) =
      (some s, storedUntil m.persistent life current r k s) := by
  have hwrite : (writeScheduleById m.persistent life current r k s).entry (.scheduleById r k) =
      (some s, m.persistent.expiryOnSet life current.toNat (.scheduleById r k)) :=
    entry_writeScheduleById
  have hread : ((writeScheduleById m.persistent life current r k s).read current.toNat
      (.scheduleById r k)).isSome = true := by
    rw [read_eq_of_entry hwrite, if_pos le_expiryOnSet]
    rfl
  have hexpiry := congrArg Prod.snd hwrite
  unfold setScheduleById ensureTtlForStreamId storedUntil
  simp only [bumpInstance_persistent, hread, true_and]
  by_cases hlong : persistentLedgerThreshold < computeStreamTtl current s.endLedger
  · rw [if_pos hlong, entry_extendTtl hread, hwrite]
    simp only [TimedMap.entry] at hexpiry
    simp only [hexpiry, hlong, and_true]
  · simp only [hwrite, hlong, and_false, if_false]

end Store

/-! ### Keepers -/

/-- What happens after a stream was stored: a keeper calls `keeper_bump`, or something else changes
the storage. -/
inductive KeeperStep
  | bump (current : UInt32)
  | other (current : UInt32) (change : Ledger → Ledger)

/-- The ledger of a step. -/
def KeeperStep.ledger : KeeperStep → UInt32
  | .bump current => current
  | .other current _ => current

/-- One step; a `keeper_bump` that fails changes nothing. -/
def keeperStep (r : Address) (m : Ledger) : KeeperStep → Ledger
  | .bump current =>
    match keeperBump m current r with
    | .ok m' => m'
    | .error _ => m
  | .other _ change => change m

/-- Nothing but a keeper touches the entry of the stream. -/
def OthersKeep (r : Address) (k : UInt32) (m : Ledger) : KeeperStep → Prop
  | .bump _ => True
  | .other _ change =>
    (change m).persistent.entry (.scheduleById r k) = m.persistent.entry (.scheduleById r k)

/-- Keepers call at least once in every `PERSISTENT_LEDGER_THRESHOLD` ledgers, from the ledger
`stored` up to the ledger `last`. -/
def Diligent (stored last : UInt32) (l : List KeeperStep) : Prop :=
  ∀ t, stored.toNat ≤ t → t + persistentLedgerThreshold.toNat ≤ last.toNat →
    ∃ current, .bump current ∈ l ∧ t < current.toNat ∧
      current.toNat ≤ t + persistentLedgerThreshold.toNat

/-- The entry of the stream can be read at every moment from `stored` to the end of the stream. -/
def KeptAlive (r : Address) (k : UInt32) (s : VestingSchedule) (stored : UInt32) (m : Ledger)
    (l : List KeeperStep) : Prop :=
  ∀ pre post, l = pre ++ post → ∀ t : UInt32, Between KeeperStep.ledger pre post t → stored ≤ t →
    t ≤ s.endLedger →
      (run (keeperStep r) m pre).persistent.read t.toNat (.scheduleById r k) = some s

/-- The expiry the entry has when it is stored covers the stream: `set` leaves it long enough, or it
is extended, and the extension is long enough. -/
def CoveredAtStoring (m : TimedMap DataKey DataKey.Val) (life : ℕ) (current : UInt32) (r : Address)
    (k : UInt32) (s : VestingSchedule) : Prop :=
  s.endLedger.toNat ≤ m.expiryOnSet life current.toNat (.scheduleById r k) ∨
    (m.expiryOnSet life current.toNat (.scheduleById r k) <
        current.toNat + persistentLedgerThreshold.toNat ∧
      persistentLedgerThreshold < computeStreamTtl current s.endLedger ∧
      s.endLedger.toNat ≤ current.toNat + (computeStreamTtl current s.endLedger).toNat)

section Keepers

variable {m : Ledger} {life : ℕ} {current : UInt32} {r : Address} {k : UInt32}
  {s : VestingSchedule}

theorem keeperBump_ok {m' : Ledger} (h : keeperBump m current r = .ok m') :
    m'.persistent = m.persistent := by
  unfold keeperBump at h
  split at h
  · cases h
  · obtain rfl := Except.ok.inj h
    exact bumpInstance_persistent

/-- **One step** leaves the entry alone: `keeper_bump` extends the instance storage at most. -/
theorem entry_keeperStep {a : KeeperStep} (h : OthersKeep r k m a) :
    (keeperStep r m a).persistent.entry (.scheduleById r k) =
      m.persistent.entry (.scheduleById r k) := by
  cases a with
  | bump current =>
    simp only [keeperStep]
    split
    · next m' hok => rw [keeperBump_ok hok]
    · rfl
  | other current change => exact h

theorem endLedger_le_storedUntil_iff :
    s.endLedger.toNat ≤ storedUntil m.persistent life current r k s ↔
      CoveredAtStoring m.persistent life current r k s := by
  have hheld : current.toNat ≤ m.persistent.expiryOnSet life current.toNat (.scheduleById r k) :=
    le_expiryOnSet
  unfold storedUntil CoveredAtStoring
  simp only [UInt32.lt_iff_toNat_lt]
  split_ifs with h
  · omega
  · omega

/-- **Keepers keep nothing alive.** A stream stored by `set_schedule_by_id` is there at every ledger
up to its end exactly if the lifetime it was stored with lasts that long, whatever keepers do. -/
theorem keptAlive_iff {l : List KeeperStep}
    (hsorted : l.Pairwise fun a b => a.ledger ≤ b.ledger)
    (hothers : AllSteps (keeperStep r) (OthersKeep r k) (setScheduleById m life current r k s) l) :
    KeptAlive r k s current (setScheduleById m life current r k s) l ↔
      CoveredAtStoring m.persistent life current r k s := by
  rw [← endLedger_le_storedUntil_iff]
  have hentry : ∀ pre post, l = pre ++ post →
      (run (keeperStep r) (setScheduleById m life current r k s) pre).persistent.entry
        (.scheduleById r k) = (some s, storedUntil m.persistent life current r k s) := by
    rintro pre post rfl
    have hstep : ∀ m' a, m'.persistent.entry (.scheduleById r k) =
          (some s, storedUntil m.persistent life current r k s) → OthersKeep r k m' a →
        (keeperStep r m' a).persistent.entry (.scheduleById r k) =
          (some s, storedUntil m.persistent life current r k s) :=
      fun m' a hm' ha => (entry_keeperStep ha).trans hm'
    exact run_induct hstep entry_setScheduleById (allSteps_append.mp hothers).1
  constructor
  · intro h
    by_cases hle : current ≤ s.endLedger
    · obtain ⟨pre, post, hl, hb⟩ := exists_between s.endLedger hsorted
      have hread := h pre post hl s.endLedger hb hle (UInt32.le_refl _)
      rw [read_eq_of_entry (hentry pre post hl)] at hread
      by_contra hlt
      rw [if_neg hlt] at hread
      cases hread
    · -- a stream that has ended when it is stored
      have hcur : current.toNat ≤ storedUntil m.persistent life current r k s := by
        have hheld : current.toNat ≤
            m.persistent.expiryOnSet life current.toNat (.scheduleById r k) := le_expiryOnSet
        unfold storedUntil
        simp only
        split_ifs <;> omega
      rw [UInt32.le_iff_toNat_le] at hle
      omega
  · intro hcovered pre post hl t _ _ ht
    have hle : t.toNat ≤ storedUntil m.persistent life current r k s :=
      le_trans (UInt32.le_iff_toNat_le.mp ht) hcovered
    rw [read_eq_of_entry (hentry pre post hl), if_pos hle]

/-- A stream under a new key, whose end is no matter for `u32::MAX`: it is covered exactly if it
ends within `PERSISTENT_BUMP_AMOUNT` ledgers. -/
theorem coveredAtStoring_of_new
    (hnew : m.persistent.read current.toNat (.scheduleById r k) = none)
    (hlife : life < persistentLedgerThreshold.toNat) (hlive : current ≤ s.endLedger)
    (hfits : s.endLedger.toNat + ttlBufferLedgers.toNat < UInt32.size) :
    CoveredAtStoring m.persistent life current r k s ↔
      s.endLedger.toNat ≤ current.toNat + persistentBumpAmount.toNat := by
  have hheld : m.persistent.expiryOnSet life current.toNat (.scheduleById r k) =
      current.toNat + life := by
    unfold TimedMap.expiryOnSet
    rw [hnew]
    exact if_neg (by simp)
  have hthreshold : persistentLedgerThreshold.toNat = 3000000 := rfl
  have hbump : persistentBumpAmount.toNat = 3110400 := rfl
  have hbuffer : ttlBufferLedgers.toNat = 3153600 := rfl
  rw [UInt32.le_iff_toNat_le] at hlive
  have httl : (computeStreamTtl current s.endLedger).toNat = persistentBumpAmount.toNat := by
    unfold computeStreamTtl
    rw [toNat_min, toNat_saturatingSub, toNat_saturatingAdd hfits]
    omega
  unfold CoveredAtStoring
  rw [hheld, UInt32.lt_iff_toNat_lt, httl]
  omega

end Keepers

/-- A storage with nothing in it. -/
def emptyLedger : Ledger := ⟨⟨∅, fun _ => 0⟩, 0⟩

/-- The sample stream ends soon after it is stored, so keepers have nothing to do. -/
theorem keptAlive_iff_sample :
    KeptAlive ⟨2⟩ 0 sampleStream 100
      (setScheduleById emptyLedger 120959 100 ⟨2⟩ 0 sampleStream) [.bump 250] := by
  have hothers : AllSteps (keeperStep ⟨2⟩) (OthersKeep ⟨2⟩ 0)
      (setScheduleById emptyLedger 120959 100 ⟨2⟩ 0 sampleStream) [.bump 250] :=
    ⟨trivial, trivial⟩
  refine (keptAlive_iff (List.pairwise_singleton _ _) hothers).mpr ?_
  exact Or.inl (by decide +kernel)

/-- The sample stream, with an end one ledger beyond `PERSISTENT_BUMP_AMOUNT` from ledger `100`. -/
def longStream : VestingSchedule := { sampleStream with endLedger := 3110501 }

/-- Keepers call in time, and the entry is gone before the stream ends. -/
theorem keptAlive_long_false :
    Diligent 100 longStream.endLedger [.bump 3000100] ∧
    ¬ KeptAlive ⟨2⟩ 0 longStream 100
      (setScheduleById emptyLedger 120959 100 ⟨2⟩ 0 longStream) [.bump 3000100] := by
  refine ⟨fun t hstored hlast => ⟨3000100, List.mem_singleton_self _, ?_⟩, fun h => ?_⟩
  · have hthreshold : persistentLedgerThreshold.toNat = 3000000 := rfl
    have hend : longStream.endLedger.toNat = 3110501 := rfl
    have hfrom : (100 : UInt32).toNat = 100 := rfl
    have hcall : (3000100 : UInt32).toNat = 3000100 := rfl
    omega
  · have hread := h [.bump 3000100] [] rfl 3110501
      ⟨fun a ha => by rw [List.mem_singleton.mp ha]; decide, by simp⟩ (by decide) (by decide)
    have hgone : (run (keeperStep ⟨2⟩) (setScheduleById emptyLedger 120959 100 ⟨2⟩ 0 longStream)
        [.bump 3000100]).persistent.read (3110501 : UInt32).toNat (.scheduleById ⟨2⟩ 0) = none := by
      decide +kernel
    rw [hgone] at hread
    cases hread

end VestingDripStream.Contract.Ttl
