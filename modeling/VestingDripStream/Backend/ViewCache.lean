import VestingDripStream.Lib.Run
import VestingDripStream.Lib.Copies

/-! # The cached views of a recipient

`getSchedule`, `claimableAmount` and `isCliffPassed` of `sorobanViews.js`. Each looks its key up in
the cache, reads the chain on a miss and stores what it read; these are separate steps, between
which other calls, changes of the chain and invalidations take place. `isCliffPassed`, if the answer
is no, calls `getSchedule` for the time until the cliff before it stores its answer.

`invalidateRecipient` drops all keys of the recipient, for a change of the chain that came before.
It does not reach the calls that are under way: one that read the chain before the change may store
what it read after the invalidation, and a later call then returns it. `invalidation_effective` says
that this is the only way: the cache never holds such a value exactly if no call stores one. -/

namespace VestingDripStream.Backend.ViewCache

open VestingDripStream.Lib.Run VestingDripStream.Lib.Copies

/-! ### Keys -/

/-- The cached views of a recipient. -/
inductive View
  | getSchedule
  | claimableAmount
  | isCliffPassed
  deriving DecidableEq, Repr

/-- The name of the function in the key. -/
def View.fn : View → String
  | .getSchedule => "get_schedule"
  | .claimableAmount => "claimable_amount"
  | .isCliffPassed => "is_cliff_passed"

/-- The prefix of the keys of a recipient. -/
def keyPrefix (recipient : String) : String := "view:" ++ recipient ++ ":"

/-- `viewKey`. -/
def viewKey (recipient : String) (view : View) : String := keyPrefix recipient ++ view.fn

/-- `key.startsWith(prefix)`, for the prefix of the recipient. -/
def isKeyOf (recipient key : String) : Bool :=
  (keyPrefix recipient).toList.isPrefixOf key.toList

/-! ### Times to live -/

/-- `TTL_GET_SCHEDULE_MS`. -/
def ttlGetScheduleMs : ℕ := 60000

/-- `TTL_CLAIMABLE_AMOUNT_MS`. -/
def ttlClaimableAmountMs : ℕ := 5000

/-- `TTL_IS_CLIFF_PASSED_MS`. -/
def ttlIsCliffPassedMs : ℕ := 60000

/-- `TTL_CLIFF_PASSED_MS`. -/
def ttlCliffPassedMs : ℕ := 86400000

/-- The time to live of a cliff that is not passed, by its ledger and the ledger the caller gave, if
both are there. -/
def cliffTtlMs (cliffLedger currentLedger : Option ℤ) : ℕ :=
  match cliffLedger, currentLedger with
  | some cliff, some current =>
    if 0 < cliff - current then min ((cliff - current) * 5000).toNat ttlIsCliffPassedMs else 1000
  | _, _ => ttlIsCliffPassedMs

/-! ### Calls -/

/-- A value, as the text that is cached, and the version of the chain it was read from. -/
structure Reading where
  value : String
  readAt : ℕ
  deriving DecidableEq, Repr

/-- How far a call is. `ready` has a value to store and return; the three phases before it are those
of the call of `getSchedule` inside `isCliffPassed`. -/
inductive Phase
  | started
  | missed
  | nestedStarted (x : Reading)
  | nestedMissed (x : Reading)
  | nestedRead (x schedule : Reading)
  | ready (x : Reading) (ttlMs : ℕ)
  | returned (x : Reading)
  | failed
  deriving DecidableEq, Repr

/-- A call of a view. `required` is the newest change that an invalidation of the recipient,
complete before the call started, was for. -/
structure ViewCall where
  view : View
  recipient : String
  currentLedger : Option ℤ
  required : ℕ
  phase : Phase

/-- The chain in its versions, the newest of which is the current one, the cache, and the calls. -/
structure World (Chain : Type) where
  versions : ℕ → Chain
  newest : ℕ
  cache : Store String String String
  calls : ℕ → Option ViewCall

/-- The steps: a call starts, asks the cache, reads the chain, stores a value, or fails where it
stands (the RPC throws, or the value has no JSON); the chain changes; and a recipient is invalidated
because of a change. -/
inductive Action (Chain : Type)
  | start (id : ℕ) (view : View) (recipient : String) (currentLedger : Option ℤ)
  | get (id : ℕ) (now : ℕ)
  | rpc (id : ℕ)
  | set (id : ℕ) (now : ℕ)
  | fail (id : ℕ)
  | change (chain : Chain)
  | invalidateRecipient (recipient : String) (version : ℕ)

section Model

variable {Chain : Type} (viewOf : Chain → View → String → String)
  (cliffLedger : String → Option ℤ)

/-- A call that asks the cache: for its own key, or for that of the schedule. -/
def onGet (cache : Store String String String) (now : ℕ) (c : ViewCall) : Phase :=
  match c.phase with
  | .started =>
    match cache.get now (viewKey c.recipient c.view) with
    | some e => .returned ⟨e.value, e.version⟩
    | none => .missed
  | .nestedStarted x =>
    match cache.get now (viewKey c.recipient .getSchedule) with
    | some e => .ready x (cliffTtlMs (cliffLedger e.value) c.currentLedger)
    | none => .nestedMissed x
  | ph => ph

/-- What a call does with a value it read: the answer yes of `isCliffPassed` is kept for long, and
for the answer no the schedule is needed. -/
def afterRead (view : View) (x : Reading) : Phase :=
  match view with
  | .getSchedule => .ready x ttlGetScheduleMs
  | .claimableAmount => .ready x ttlClaimableAmountMs
  | .isCliffPassed => if x.value = "true" then .ready x ttlCliffPassedMs else .nestedStarted x

/-- A call that reads the chain. -/
def onRpc (chain : Chain) (version : ℕ) (c : ViewCall) : Phase :=
  match c.phase with
  | .missed => afterRead c.view ⟨viewOf chain c.view c.recipient, version⟩
  | .nestedMissed x => .nestedRead x ⟨viewOf chain .getSchedule c.recipient, version⟩
  | ph => ph

/-- What a call is about to store: the view, the value and its time to live. -/
def pendingWrite (c : ViewCall) : Option (View × Reading × ℕ) :=
  match c.phase with
  | .ready x ttlMs => some (c.view, x, ttlMs)
  | .nestedRead _ schedule => some (.getSchedule, schedule, ttlGetScheduleMs)
  | _ => none

/-- A call that has stored a value. -/
def onSet (c : ViewCall) : Phase :=
  match c.phase with
  | .ready x _ => .returned x
  | .nestedRead x schedule => .ready x (cliffTtlMs (cliffLedger schedule.value) c.currentLedger)
  | ph => ph

/-- A call that fails; inside `isCliffPassed` the error is caught. -/
def onFail (c : ViewCall) : Phase :=
  match c.phase with
  | .returned x => .returned x
  | .nestedStarted x | .nestedMissed x | .nestedRead x _ => .ready x ttlIsCliffPassedMs
  | _ => .failed

/-- The world with the call at `id` in another phase. -/
def World.advance (w : World Chain) (id : ℕ) (c : ViewCall) (ph : Phase) : World Chain :=
  { w with calls := Function.update w.calls id (some { c with phase := ph }) }

/-- The cache after a call has stored what it was about to. -/
def World.store (w : World Chain) (now : ℕ) (c : ViewCall) : World Chain :=
  match pendingWrite c with
  | none => w
  | some (view, x, ttlMs) =>
    { w with cache := w.cache.put (viewKey c.recipient view) ⟨x.value, x.readAt, now + ttlMs⟩ }

/-- The change of one call. -/
def World.onCall (w : World Chain) (id : ℕ) (f : ViewCall → World Chain) : World Chain :=
  match w.calls id with
  | none => w
  | some c => f c

/-- One step. -/
def step (w : World Chain) : Action Chain → World Chain
  | .start id view recipient currentLedger =>
    match w.calls id with
    | some _ => w
    | none =>
      { w with
        calls := Function.update w.calls id (some
          ⟨view, recipient, currentLedger, w.cache.dropped recipient, .started⟩) }
  | .get id now => w.onCall id fun c => w.advance id c (onGet cliffLedger w.cache now c)
  | .rpc id => w.onCall id fun c => w.advance id c (onRpc viewOf (w.versions w.newest) w.newest c)
  | .set id now => w.onCall id fun c => (w.store now c).advance id c (onSet cliffLedger c)
  | .fail id => w.onCall id fun c => w.advance id c (onFail c)
  | .change chain =>
    { w with
      versions := Function.update w.versions (w.newest + 1) chain
      newest := w.newest + 1 }
  | .invalidateRecipient recipient version =>
    { w with cache := w.cache.drop (isKeyOf recipient) recipient version }

/-- No call has started, and the cache is empty. -/
def World.start (chain : Chain) : World Chain := ⟨fun _ => chain, 0, Store.empty, fun _ => none⟩

/-! ### What must hold -/

/-- An invalidation is because of a change of the chain that came before. -/
def Legal (w : World Chain) : Action Chain → Prop
  | .invalidateRecipient _ version => version ≤ w.newest
  | _ => True

instance (w : World Chain) (a : Action Chain) : Decidable (Legal w a) := by
  unfold Legal; split <;> infer_instance

/-- The value was read from the chain, in a version that was there. -/
def Genuine (w : World Chain) (recipient : String) (view : View) (x : Reading) : Prop :=
  x.readAt ≤ w.newest ∧ x.value = viewOf (w.versions x.readAt) view recipient

/-- **The demand.** Each call that has returned a value returned one that was read from the chain
after the changes for which the recipient was invalidated before the call started. -/
def Answered (w : World Chain) : Prop :=
  ∀ id c x, w.calls id = some c → c.phase = .returned x →
    c.required ≤ x.readAt ∧ Genuine viewOf w c.recipient c.view x

/-- A call that starts now and is answered from the cache is answered with a value that was read
after the changes for which the recipient was invalidated. -/
def Effective (w : World Chain) : Prop :=
  ∀ view recipient currentLedger now x,
    onGet cliffLedger w.cache now
      ⟨view, recipient, currentLedger, w.cache.dropped recipient, .started⟩ = .returned x →
    w.cache.dropped recipient ≤ x.readAt

/-- The step does not store a value that was read before a change for which the recipient was
invalidated since. -/
def WritesFresh (w : World Chain) : Action Chain → Prop
  | .set id _ => ∀ c ∈ w.calls id, ∀ p ∈ pendingWrite c,
      w.cache.dropped c.recipient ≤ p.2.1.readAt
  | _ => True

instance (w : World Chain) (a : Action Chain) : Decidable (WritesFresh w a) := by
  unfold WritesFresh; split <;> infer_instance

/-! ### Keys of a recipient -/

theorem View.fn_ne_nil (v : View) : v.fn.toList ≠ [] := by cases v <;> decide +kernel

theorem View.eq_of_last {v v' : View} (h : v.fn.toList.getLast? = v'.fn.toList.getLast?) :
    v = v' := by
  revert h
  cases v <;> cases v' <;> decide +kernel

/-- The last letter tells the view, and what is left the recipient. -/
theorem viewKey_injective : Function.Injective fun i : String × View => viewKey i.1 i.2 := by
  rintro ⟨r, v⟩ ⟨r', v'⟩ h
  have hlist : (viewKey r v).toList = (viewKey r' v').toList := congrArg String.toList h
  simp only [viewKey, keyPrefix, String.toList_append] at hlist
  have hview : v = v' := by
    have hlast := congrArg List.getLast? hlist
    rw [List.getLast?_append_of_ne_nil _ v.fn_ne_nil,
      List.getLast?_append_of_ne_nil _ v'.fn_ne_nil] at hlast
    exact View.eq_of_last hlast
  subst hview
  rw [List.append_cancel_right_eq, List.append_cancel_right_eq, List.append_cancel_left_eq,
    String.toList_inj] at hlist
  rw [hlist]

theorem isKeyOf_viewKey (r : String) (v : View) : isKeyOf r (viewKey r v) = true := by
  unfold isKeyOf viewKey
  rw [String.toList_append, List.isPrefixOf_iff_prefix]
  exact List.prefix_append ..

/-! ### The invariant -/

/-- The values a call holds, with the views they are of. -/
def readings (c : ViewCall) : List (View × Reading) :=
  match c.phase with
  | .nestedStarted x | .nestedMissed x | .ready x _ | .returned x => [(c.view, x)]
  | .nestedRead x schedule => [(c.view, x), (.getSchedule, schedule)]
  | _ => []

/-- What a call holds is genuine, and what it may yet store it has read itself, after the changes
for which the recipient was invalidated before it started. -/
structure CallSound (w : World Chain) (c : ViewCall) : Prop where
  required_le : c.required ≤ w.cache.dropped c.recipient
  genuine : ∀ p ∈ readings c, Genuine viewOf w c.recipient p.1 p.2
  recent : (∀ x, c.phase ≠ .returned x) → ∀ p ∈ readings c, c.required ≤ p.2.readAt

/-- The invariant of the world. -/
structure Sound (w : World Chain) : Prop where
  dropped_le : ∀ r, w.cache.dropped r ≤ w.newest
  entries : ∀ r v e, w.cache.entry (viewKey r v) = some e →
    Genuine viewOf w r v ⟨e.value, e.version⟩
  calls : ∀ id c, w.calls id = some c → CallSound viewOf w c

variable {viewOf cliffLedger} {w : World Chain}

theorem Genuine.change {r : String} {v : View} {x : Reading} (h : Genuine viewOf w r v x)
    (chain : Chain) : Genuine viewOf (step viewOf cliffLedger w (.change chain)) r v x := by
  refine ⟨h.1.trans (Nat.le_succ _), ?_⟩
  show x.value = viewOf (Function.update w.versions (w.newest + 1) chain x.readAt) v r
  rw [Function.update_of_ne (by have := h.1; omega)]
  exact h.2

/-- What holds of the world and after the change of a call holds after a step of a call. -/
theorem onCall_induct {P : World Chain → Prop} {id : ℕ} {f : ViewCall → World Chain} (h : P w)
    (hf : ∀ c, w.calls id = some c → P (f c)) : P (w.onCall id f) := by
  unfold World.onCall
  cases hc : w.calls id with
  | none => exact h
  | some c => exact hf c hc

theorem sound_start (chain : Chain) : Sound viewOf (World.start chain) where
  dropped_le := fun _ => Nat.le_refl 0
  entries := fun _ _ _ h => nomatch h
  calls := fun _ _ h => nomatch h

/-- A call that goes on keeps the invariant if its next phase is sound. -/
theorem Sound.advance (h : Sound viewOf w) {id : ℕ} {c : ViewCall} {ph : Phase}
    (hc : CallSound viewOf w { c with phase := ph }) : Sound viewOf (w.advance id c ph) where
  dropped_le := h.dropped_le
  entries := h.entries
  calls := fun j d hd => by
    rcases of_update_eq_some hd with ⟨-, rfl⟩ | hold
    · exact ⟨hc.required_le, hc.genuine, hc.recent⟩
    · have hd := h.calls j d hold
      exact ⟨hd.required_le, hd.genuine, hd.recent⟩

/-- What a call reads from the chain now. -/
def current (viewOf : Chain → View → String → String) (w : World Chain) (recipient : String)
    (view : View) : Reading :=
  ⟨viewOf (w.versions w.newest) view recipient, w.newest⟩

/-- A phase is sound that holds nothing but what the call held before or reads now. -/
theorem CallSound.next (h : Sound viewOf w) {c : ViewCall} (hc : CallSound viewOf w c) {ph : Phase}
    (hsub : ∀ p ∈ readings { c with phase := ph },
      p ∈ readings c ∨ p.2 = current viewOf w c.recipient p.1)
    (hopen : (∀ x, ph ≠ .returned x) → ∀ x, c.phase ≠ .returned x) :
    CallSound viewOf w { c with phase := ph } where
  required_le := hc.required_le
  genuine := fun p hp => by
    rcases hsub p hp with hold | hnow
    · exact hc.genuine p hold
    · rw [hnow]
      exact ⟨Nat.le_refl _, rfl⟩
  recent := fun hph p hp => by
    rcases hsub p hp with hold | hnow
    · exact hc.recent (hopen hph) p hold
    · rw [hnow]
      exact hc.required_le.trans (h.dropped_le _)

theorem CallSound.onGet (h : Sound viewOf w) {c : ViewCall} (hc : CallSound viewOf w c) (now : ℕ) :
    CallSound viewOf w { c with phase := onGet cliffLedger w.cache now c } := by
  unfold ViewCache.onGet
  split
  case h_1 hph =>
    cases hget : w.cache.get now (viewKey c.recipient c.view) with
    | some e =>
      -- a hit returns what is in the cache
      refine ⟨hc.required_le, fun p hp => ?_, fun hopen => absurd rfl (hopen _)⟩
      rw [List.mem_singleton.mp hp]
      exact h.entries _ _ e (entry_of_get hget)
    | none => exact hc.next h (fun p hp => nomatch hp) fun _ x => by simp [hph]
  case h_2 x hph =>
    cases hget : w.cache.get now (viewKey c.recipient .getSchedule) with
    | some e =>
      exact hc.next h (fun p hp => Or.inl (by simpa [readings, hph] using hp)) (by simp [hph])
    | none =>
      exact hc.next h (fun p hp => Or.inl (by simpa [readings, hph] using hp)) (by simp [hph])
  case h_3 => exact hc

theorem CallSound.onRpc (h : Sound viewOf w) {c : ViewCall} (hc : CallSound viewOf w c) :
    CallSound viewOf w { c with phase := onRpc viewOf (w.versions w.newest) w.newest c } := by
  unfold ViewCache.onRpc
  split
  case h_1 hph =>
    refine hc.next h (fun p hp => Or.inr ?_) (by simp [hph])
    have hread : ∀ x, p ∈ readings { c with phase := afterRead c.view x } → p = (c.view, x) := by
      intro x hp
      unfold afterRead at hp
      split at hp
      case h_3 => split_ifs at hp <;> exact List.mem_singleton.mp hp
      all_goals exact List.mem_singleton.mp hp
    rw [hread _ hp]
    rfl
  case h_2 x hph =>
    refine hc.next h (fun p hp => ?_) (by simp [hph])
    simp only [readings, List.mem_cons, List.not_mem_nil, or_false] at hp
    rcases hp with rfl | rfl
    · exact Or.inl (by simp [readings, hph])
    · exact Or.inr rfl
  case h_3 => exact hc

theorem CallSound.onSet (h : Sound viewOf w) {c : ViewCall} (hc : CallSound viewOf w c) :
    CallSound viewOf w { c with phase := onSet cliffLedger c } := by
  unfold ViewCache.onSet
  split
  case h_1 x ttl hph =>
    exact hc.next h (fun p hp => Or.inl (by simpa [readings, hph] using hp)) (by simp [hph])
  case h_2 x schedule hph =>
    refine hc.next h (fun p hp => Or.inl ?_) (by simp [hph])
    rw [List.mem_singleton.mp hp]
    simp [readings, hph]
  case h_3 => exact hc

theorem CallSound.onFail (h : Sound viewOf w) {c : ViewCall} (hc : CallSound viewOf w c) :
    CallSound viewOf w { c with phase := onFail c } := by
  refine hc.next h (fun p hp => Or.inl ?_) ?_
  · unfold ViewCache.onFail at hp
    split at hp <;> simp_all [readings]
  · unfold ViewCache.onFail
    intro hopen x hph
    simp [hph] at hopen

theorem mem_readings_of_pendingWrite {c : ViewCall} {v : View} {x : Reading} {ttlMs : ℕ}
    (h : pendingWrite c = some (v, x, ttlMs)) : (v, x) ∈ readings c := by
  unfold pendingWrite at h
  split at h
  case h_1 hph => cases h; simp [readings, hph]
  case h_2 hph => cases h; simp [readings, hph]
  case h_3 => cases h

@[simp] theorem store_calls (w : World Chain) (now : ℕ) (c : ViewCall) :
    (w.store now c).calls = w.calls := by
  unfold World.store; split <;> rfl

theorem CallSound.store {c d : ViewCall} {now : ℕ} (hd : CallSound viewOf w d) :
    CallSound viewOf (w.store now c) d := by
  unfold World.store
  split
  · exact hd
  · exact ⟨hd.required_le, hd.genuine, hd.recent⟩

theorem Sound.store (h : Sound viewOf w) {c : ViewCall} (hc : CallSound viewOf w c) (now : ℕ) :
    Sound viewOf (w.store now c) := by
  refine ⟨?_, ?_, fun id d hd => (h.calls id d (by simpa using hd)).store⟩
  · unfold World.store
    split <;> exact h.dropped_le
  · unfold World.store
    split
    · exact h.entries
    · intro r v e he
      rename_i hw
      rcases entry_put (i := (c.recipient, _)) viewKey_injective (j := (r, v)) he with
        ⟨hi, rfl⟩ | he
      · cases hi
        exact hc.genuine _ (mem_readings_of_pendingWrite hw)
      · exact h.entries r v e he

theorem Sound.step (h : Sound viewOf w) {a : Action Chain} (ha : Legal w a) :
    Sound viewOf (step viewOf cliffLedger w a) := by
  have hcall : ∀ id (f : ViewCall → World Chain),
      (∀ c, CallSound viewOf w c → Sound viewOf (f c)) → Sound viewOf (w.onCall id f) :=
    fun id f hf => onCall_induct h fun c hc => hf c (h.calls id c hc)
  cases a with
  | start id view recipient currentLedger =>
    simp only [ViewCache.step]
    split
    · exact h
    · refine Sound.advance (c := ⟨view, recipient, currentLedger, _, .started⟩) h ?_
      exact ⟨Nat.le_refl _, fun _ hp => (nomatch hp), fun _ _ hp => nomatch hp⟩
  | get id now => exact hcall id _ fun c hc => h.advance (hc.onGet h now)
  | rpc id => exact hcall id _ fun c hc => h.advance (hc.onRpc h)
  | set id now => exact hcall id _ fun c hc => (h.store hc now).advance (hc.onSet h).store
  | fail id => exact hcall id _ fun c hc => h.advance (hc.onFail h)
  | change chain =>
    refine ⟨fun r => (h.dropped_le r).trans (Nat.le_succ _), ?_, fun id c hc => ?_⟩
    · exact fun r v e he => (h.entries r v e he).change chain
    · have hc := h.calls id c hc
      exact ⟨hc.required_le, fun p hp => (hc.genuine p hp).change chain, hc.recent⟩
  | invalidateRecipient recipient version =>
    refine ⟨dropped_drop_le h.dropped_le ha, ?_, fun id c hc => ?_⟩
    · exact fun r v e he => h.entries r v e (entry_drop he).1
    · have hc := h.calls id c hc
      exact ⟨hc.required_le.trans dropped_le_drop, hc.genuine, hc.recent⟩

/-! ### Effective invalidation -/

/-- The cache holds nothing that is older than the invalidations that have completed. -/
def CacheFresh (w : World Chain) : Prop :=
  Fresh (fun i : String × View => viewKey i.1 i.2) Prod.fst w.cache

theorem effective_iff : Effective cliffLedger w ↔ CacheFresh w := by
  constructor
  · rintro h ⟨r, v⟩ now e he
    exact h v r none now ⟨e.value, e.version⟩ (by simp [onGet, he])
  · intro h view r ledger now x hx
    unfold onGet at hx
    simp only at hx
    split at hx
    · cases hx
      rename_i e he
      exact h (r, view) now e he
    · cases hx

/-- A step keeps the cache fresh exactly if it does not store an old value. -/
theorem cacheFresh_step_iff (h : CacheFresh w) (a : Action Chain) :
    CacheFresh (step viewOf cliffLedger w a) ↔ WritesFresh w a := by
  -- the other steps of a call leave the cache alone
  have hcall : ∀ id (f : ViewCall → World Chain), (∀ c, (f c).cache = w.cache) →
      CacheFresh (w.onCall id f) := by
    refine fun id f hf => onCall_induct h fun c _ => ?_
    unfold CacheFresh
    rw [hf]
    exact h
  cases a with
  | start id view recipient currentLedger =>
    refine iff_of_true ?_ trivial
    simp only [step]
    split <;> exact h
  | get id now => exact iff_of_true (hcall id _ fun _ => rfl) trivial
  | rpc id => exact iff_of_true (hcall id _ fun _ => rfl) trivial
  | set id now =>
    simp only [step, WritesFresh]
    unfold World.onCall
    cases hc : w.calls id with
    | none => exact iff_of_true h fun c hc => nomatch hc
    | some c =>
      simp only [Option.mem_def, Option.some.injEq, forall_eq']
      show CacheFresh (w.store now c) ↔ _
      unfold World.store
      cases hw : pendingWrite c with
      | none => exact iff_of_true h fun p hp => nomatch hp
      | some p =>
        simp only [Option.some.injEq, forall_eq']
        have hput : ∀ e : Copy String,
            CacheFresh { w with cache := w.cache.put (viewKey c.recipient p.1) e } ↔
              w.cache.dropped c.recipient ≤ e.version :=
          fun e => fresh_put_iff (i := (c.recipient, p.1)) viewKey_injective h
        exact hput ⟨p.2.1.value, p.2.1.readAt, now + p.2.2⟩
  | fail id => exact iff_of_true (hcall id _ fun _ => rfl) trivial
  | change chain => exact iff_of_true h trivial
  | invalidateRecipient recipient version =>
    refine iff_of_true (Fresh.drop h ?_) trivial
    rintro ⟨r, v⟩ rfl
    exact isKeyOf_viewKey r v

/-- The calls have returned what is recent enough. -/
def Answers (w : World Chain) : Prop :=
  ∀ id c x, w.calls id = some c → c.phase = .returned x → c.required ≤ x.readAt

theorem Sound.answered (h : Sound viewOf w) (ha : Answers w) : Answered viewOf w := by
  intro id c x hc hph
  refine ⟨ha id c x hc hph, ?_⟩
  exact (h.calls id c hc).genuine (c.view, x) (by simp [readings, hph])

theorem Answers.advance (ha : Answers w) {w' : World Chain} (hw : w'.calls = w.calls) {id : ℕ}
    {c : ViewCall} {ph : Phase} (hph : ∀ x, ph = .returned x → c.required ≤ x.readAt) :
    Answers (w'.advance id c ph) := by
  intro j d x hd hx
  rcases of_update_eq_some hd with ⟨-, rfl⟩ | hold
  · exact hph x hx
  · rw [hw] at hold
    exact ha j d x hold hx

/-- While the cache is fresh a hit is as recent as the call demands. -/
theorem required_le_of_onGet (h : CacheFresh w) {c : ViewCall} (hc : CallSound viewOf w c)
    (hold : ∀ x, c.phase = .returned x → c.required ≤ x.readAt) {now : ℕ} {x : Reading}
    (hx : onGet cliffLedger w.cache now c = .returned x) : c.required ≤ x.readAt := by
  unfold onGet at hx
  split at hx
  · split at hx
    · cases hx
      rename_i e hget
      exact hc.required_le.trans (h (c.recipient, c.view) now e hget)
    · cases hx
  · split at hx <;> cases hx
  · exact hold x hx

theorem Answers.step (ha : Answers w) (hs : Sound viewOf w) (he : CacheFresh w) (a : Action Chain) :
    Answers (step viewOf cliffLedger w a) := by
  have hcall : ∀ id (f : ViewCall → World Chain),
      (∀ c, CallSound viewOf w c → (∀ x, c.phase = .returned x → c.required ≤ x.readAt) →
        Answers (f c)) → Answers (w.onCall id f) :=
    fun id f hf => onCall_induct ha fun c hc =>
      hf c (hs.calls id c hc) fun x hx => ha id c x hc hx
  cases a with
  | start id view recipient currentLedger =>
    simp only [ViewCache.step]
    split
    · exact ha
    · exact ha.advance (c := ⟨view, recipient, currentLedger, _, .started⟩) rfl
        fun x hx => nomatch hx
  | get id now =>
    exact hcall id _ fun c hc hold => ha.advance rfl fun x hx => required_le_of_onGet he hc hold hx
  | rpc id =>
    refine hcall id _ fun c hc hold => ha.advance rfl fun x hx => ?_
    unfold onRpc at hx
    split at hx
    · unfold afterRead at hx
      split at hx
      case h_3 => split_ifs at hx
      all_goals cases hx
    · cases hx
    · exact hold x hx
  | set id now =>
    refine hcall id _ fun c hc hold => ha.advance (store_calls ..) fun x hx => ?_
    unfold onSet at hx
    split at hx
    case h_1 hph =>
      cases hx
      exact hc.recent (by simp [hph]) (c.view, x) (by simp [readings, hph])
    case h_2 => cases hx
    case h_3 => exact hold x hx
  | fail id =>
    refine hcall id _ fun c hc hold => ha.advance rfl fun x hx => ?_
    unfold onFail at hx
    split at hx
    case h_1 hph => exact hold x (hph.trans hx)
    all_goals cases hx
  | change chain => exact ha
  | invalidateRecipient recipient version => exact ha

/-- **Invalidation.** In every state of a run a call that starts is answered from the cache, if at
all, with a value read after the changes for which its recipient was invalidated, exactly if no call
stores an older value; and then every call returns a value that was read from the chain after the
changes for which the recipient was invalidated before the call started. -/
theorem invalidation_effective {chain : Chain} {l : List (Action Chain)}
    (hlegal : AllSteps (step viewOf cliffLedger) Legal (World.start chain) l) :
    (AllStates (step viewOf cliffLedger) (Effective cliffLedger) (World.start chain) l ↔
      AllSteps (step viewOf cliffLedger) WritesFresh (World.start chain) l) ∧
    (AllSteps (step viewOf cliffLedger) WritesFresh (World.start chain) l →
      AllStates (step viewOf cliffLedger) (Answered viewOf) (World.start chain) l) := by
  have hempty : CacheFresh (World.start chain) := fresh_empty
  refine ⟨?_, fun hfresh => ?_⟩
  · refine allStates_iff_of_step (fun w a h => ?_) (effective_iff.mpr hempty)
    rw [effective_iff]
    exact cacheFresh_step_iff (effective_iff.mp h) a
  · have hall : AllStates (step viewOf cliffLedger)
        (fun w => Sound viewOf w ∧ CacheFresh w ∧ Answers w) (World.start chain) l := by
      refine allStates_of_inv ?_ ?_ (hlegal.and hfresh)
      · rintro w a ⟨hs, hc, ha⟩ ⟨hl, hw⟩
        exact ⟨hs.step hl, (cacheFresh_step_iff hc a).mpr hw, ha.step hs hc a⟩
      · exact ⟨sound_start chain, hempty, fun _ _ _ h => nomatch h⟩
    exact hall.imp fun w h => h.1.answered h.2.2

end Model

/-! ### A late write -/

/-- The amount that can be claimed, as the only thing on the chain. -/
def amountView (amount : ℕ) : View → String → String
  | .claimableAmount, _ => toString amount
  | _, _ => "null"

/-- A call reads 5; the recipient claims, and is invalidated; the call stores what it read, and a
call that starts then finds it. -/
def lateWrite : List (Action ℕ) :=
  [.start 0 .claimableAmount "G" none, .get 0 0, .rpc 0, .change 0, .invalidateRecipient "G" 1,
    .set 0 0, .start 1 .claimableAmount "G" none, .get 1 0]

/-- The second call started after the invalidation, and returns what was read before the change. -/
theorem late_write_survives :
    AllSteps (step amountView fun _ => none) Legal (World.start 5) lateWrite ∧
    ¬ AllStates (step amountView fun _ => none) (Answered amountView) (World.start 5)
      lateWrite := by
  refine ⟨by decide +kernel, fun h => ?_⟩
  have hcall : ((run (step amountView fun _ => none) (World.start 5) lateWrite).calls 1).map
      (fun c => (c.required, c.phase)) = some (1, .returned ⟨"5", 0⟩) := by decide +kernel
  obtain ⟨c, hc, hph⟩ := Option.map_eq_some_iff.mp hcall
  rw [Prod.mk.injEq] at hph
  have hanswer := (h.last 1 c _ hc hph.2).1
  rw [hph.1] at hanswer
  exact absurd hanswer (by decide)

/-- The same without the late write: the first call ends before the change. -/
theorem invalidation_effective_sample :
    AllStates (step amountView fun _ => none) (Answered amountView) (World.start 5)
      [.start 0 .claimableAmount "G" none, .get 0 0, .rpc 0, .set 0 0, .change 0,
        .invalidateRecipient "G" 1, .start 1 .claimableAmount "G" none, .get 1 0, .rpc 1,
        .set 1 0] :=
  (invalidation_effective (by decide +kernel)).2 (by decide +kernel)

end VestingDripStream.Backend.ViewCache
