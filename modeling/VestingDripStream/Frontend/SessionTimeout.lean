import VestingDripStream.Lib.Run

/-! # The timeout of a session

`useSessionTimeout` shows a warning after a time without activity and is meant to call `onExpire`,
by which `SessionTimeoutProvider` disconnects the wallet, if nobody reacts to the warning. The
effect depends on `isWarning`: as soon as React has rendered the warning, the cleanup of the effect
clears the timeouts, the one for `onExpire` among them, and the effect starts all over, which
withdraws the warning.

`session_never_expires`: as long as React renders within the inactivity period and within the
duration of the warning, `onExpire` is never called, and when the warning is on the page it has been
withdrawn already. -/

namespace VestingDripStream.Frontend.SessionTimeout

open VestingDripStream.Lib.Run

/-- `SessionTimeoutConfig`, without the callbacks. -/
structure Config where
  inactivityMs : ℕ
  warningDurationMs : ℕ
  enabled : Bool
  deriving DecidableEq, Repr

/-- What `SessionTimeoutProvider` passes, with the default of `enabled`. -/
def providerConfig : Config where
  inactivityMs := 20 * 60 * 1000
  warningDurationMs := 10 * 60 * 1000
  enabled := true

/-- The hook at the time `now`: its state and its refs, where a timeout is the time it comes at and
the interval has the time left with it. `rendered` is `isWarning` in the last render, and `dirty` is
since when another render is due. -/
structure Session where
  now : ℕ
  isWarning : Bool
  timeRemaining : ℕ
  lastActivity : ℕ
  inactivityTimeout : Option ℕ
  warningTimeout : Option ℕ
  countdownInterval : Option (ℕ × ℕ)
  rendered : Bool
  dirty : Option ℕ
  warned : ℕ
  expired : ℕ
  deriving DecidableEq, Repr

namespace Session

/-- A render is due, from now on or from before. -/
def setDirty (s : Session) : Session := { s with dirty := some (s.dirty.getD s.now) }

/-- `setIsWarning`; a value that is there already causes no render. -/
def setIsWarning (s : Session) (v : Bool) : Session :=
  if s.isWarning = v then s else { s.setDirty with isWarning := v }

/-- `setTimeRemaining`. -/
def setTimeRemaining (s : Session) (v : ℕ) : Session :=
  if s.timeRemaining = v then s else { s.setDirty with timeRemaining := v }

/-- `clearTimeout` and `clearInterval` for the three refs. -/
def clearTimers (s : Session) : Session :=
  { s with inactivityTimeout := none, warningTimeout := none, countdownInterval := none }

/-- `resetActivity`. -/
def resetActivity (c : Config) (s : Session) : Session :=
  let s := (({ s with lastActivity := s.now }.setIsWarning false).setTimeRemaining
    c.warningDurationMs).clearTimers
  { s with inactivityTimeout := if c.enabled then some (s.now + c.inactivityMs) else none }

/-- `handleActivity`, with the `isWarning` of the last render. -/
def handleActivity (c : Config) (s : Session) : Session :=
  if s.rendered then s else s.resetActivity c

/-- The timeout of the inactivity. -/
def showWarning (c : Config) (s : Session) : Session :=
  let s := { s with inactivityTimeout := none }.setIsWarning true
  { s with
    warned := s.warned + 1
    countdownInterval := some (s.now + 1000, c.warningDurationMs)
    warningTimeout := some (s.now + c.warningDurationMs) }

/-- The interval. -/
def countDown (s : Session) (remaining : ℕ) : Session :=
  { s with countdownInterval := some (s.now + 1000, remaining - 1000) }.setTimeRemaining
    (remaining - 1000)

/-- The timeout of the warning, which calls `onExpire`. -/
def expire (s : Session) : Session :=
  let s := { s with warningTimeout := none, countdownInterval := none }.setIsWarning false
  { s with expired := s.expired + 1 }

/-- A render, and the effect if one of its dependencies has changed: `isWarning` or, by `others`,
another one. Its cleanup clears the timers. -/
def commit (c : Config) (s : Session) (others : Bool) : Session :=
  let changed := others || s.isWarning != s.rendered
  let s := { s with rendered := s.isWarning, dirty := none }
  if c.enabled && changed then s.clearTimers.resetActivity c else s

end Session

/-- The steps: time passes; somebody is active, or dismisses the warning; a timer whose time has
come fires; React renders. -/
inductive Action
  | wait (ms : ℕ)
  | activity
  | dismiss
  | inactivityTimeout
  | countdownInterval
  | warningTimeout
  | commit (others : Bool)
  deriving DecidableEq, Repr

/-- One step; a timer that is not due does nothing. -/
def step (c : Config) (s : Session) : Action → Session
  | .wait ms => { s with now := s.now + ms }
  | .activity => if c.enabled then s.handleActivity c else s
  | .dismiss => s.resetActivity c
  | .inactivityTimeout =>
    match s.inactivityTimeout with
    | some due => if due ≤ s.now then s.showWarning c else s
    | none => s
  | .countdownInterval =>
    match s.countdownInterval with
    | some (due, remaining) => if due ≤ s.now then s.countDown remaining else s
    | none => s
  | .warningTimeout =>
    match s.warningTimeout with
    | some due => if due ≤ s.now then s.expire else s
    | none => s
  | .commit others => s.commit c others

/-- After the first render and its effect. -/
def start (c : Config) : Session :=
  Session.resetActivity c ⟨0, false, c.warningDurationMs, 0, none, none, none, false, none, 0, 0⟩

/-- React renders at most `lag` after it has to. -/
def Prompt (lag : ℕ) (s : Session) : Action → Prop
  | .wait ms => ∀ t ∈ s.dirty, s.now + ms ≤ t + lag
  | _ => True

instance (lag : ℕ) (s : Session) (a : Action) : Decidable (Prompt lag s a) := by
  unfold Prompt; split <;> infer_instance

/-- `onExpire` has not been called, and a warning on the page has been withdrawn no more than `lag`
ago. -/
def NeverExpired (lag : ℕ) (s : Session) : Prop :=
  s.expired = 0 ∧
    (s.rendered = true → s.isWarning = false ∧ ∃ t ∈ s.dirty, t ≤ s.now ∧ s.now ≤ t + lag)

/-! ### The invariant -/

/-- The timeout of the warning is only there until React renders the warning, and the warning is
only on the page until React renders that it is withdrawn. -/
structure Inv (c : Config) (lag : ℕ) (s : Session) : Prop where
  never : s.expired = 0
  prompt : ∀ t ∈ s.dirty, t ≤ s.now ∧ s.now ≤ t + lag
  warning : s.isWarning = true → c.enabled = true ∧ s.rendered = false ∧ s.dirty.isSome = true
  timeout : ∀ d ∈ s.warningTimeout, s.isWarning = true ∧
    ∃ t ∈ s.dirty, t + c.warningDurationMs ≤ d
  rendered : s.rendered = true → ∃ t ∈ s.dirty, ∀ d ∈ s.inactivityTimeout, t + c.inactivityMs ≤ d
  enabled : ∀ d ∈ s.inactivityTimeout, c.enabled = true

variable {c : Config} {lag : ℕ} {s s' : Session}

theorem Inv.neverExpired (h : Inv c lag s) : NeverExpired lag s := by
  refine ⟨h.never, fun hrendered => ⟨?_, ?_⟩⟩
  · cases hw : s.isWarning with
    | false => rfl
    | true =>
      have hnot : s.rendered = false := (h.warning hw).2.1
      rw [hrendered] at hnot
      cases hnot
  · obtain ⟨t, ht, -⟩ := h.rendered hrendered
    exact ⟨t, ht, h.prompt t ht⟩

/-! ### The setters -/

/-- What a setter does besides the value: a render may have become due now. -/
structure Sets (s s' : Session) : Prop where
  dirty : s'.dirty = s.dirty ∨ s.dirty = none ∧ s'.dirty = some s.now
  now : s'.now = s.now
  expired : s'.expired = s.expired
  rendered : s'.rendered = s.rendered

theorem Sets.trans {s'' : Session} (h : Sets s s') (h' : Sets s' s'') : Sets s s'' := by
  refine ⟨?_, h'.now.trans h.now, h'.expired.trans h.expired, h'.rendered.trans h.rendered⟩
  rcases h.dirty with hd | ⟨hnone, hd⟩
  · rcases h'.dirty with hd' | ⟨hnone', hd'⟩
    · exact Or.inl (hd'.trans hd)
    · exact Or.inr ⟨hd ▸ hnone', hd'.trans (by rw [h.now])⟩
  · rcases h'.dirty with hd' | ⟨hnone', -⟩
    · exact Or.inr ⟨hnone, hd'.trans hd⟩
    · rw [hd] at hnone'
      cases hnone'

theorem sets_setDirty (s : Session) : Sets s s.setDirty := by
  refine ⟨?_, rfl, rfl, rfl⟩
  cases hd : s.dirty with
  | none => exact Or.inr ⟨rfl, by simp [Session.setDirty, hd]⟩
  | some t => exact Or.inl (by simp [Session.setDirty, hd])

theorem sets_setIsWarning (s : Session) (v : Bool) : Sets s (s.setIsWarning v) := by
  unfold Session.setIsWarning
  split_ifs
  · exact ⟨Or.inl rfl, rfl, rfl, rfl⟩
  · exact ⟨(sets_setDirty s).dirty, rfl, rfl, rfl⟩

theorem sets_setTimeRemaining (s : Session) (v : ℕ) : Sets s (s.setTimeRemaining v) := by
  unfold Session.setTimeRemaining
  split_ifs
  · exact ⟨Or.inl rfl, rfl, rfl, rfl⟩
  · exact ⟨(sets_setDirty s).dirty, rfl, rfl, rfl⟩

@[simp] theorem setIsWarning_isWarning (s : Session) (v : Bool) :
    (s.setIsWarning v).isWarning = v := by
  unfold Session.setIsWarning
  split_ifs with hv
  · exact hv
  · rfl

@[simp] theorem setTimeRemaining_isWarning (s : Session) (v : ℕ) :
    (s.setTimeRemaining v).isWarning = s.isWarning := by
  unfold Session.setTimeRemaining
  split_ifs <;> rfl

theorem setTimeRemaining_timers (s : Session) (v : ℕ) :
    (s.setTimeRemaining v).inactivityTimeout = s.inactivityTimeout ∧
      (s.setTimeRemaining v).warningTimeout = s.warningTimeout := by
  unfold Session.setTimeRemaining
  split_ifs <;> exact ⟨rfl, rfl⟩

/-- A render that was due stays due. -/
theorem Sets.mem_dirty (h : Sets s s') {t : ℕ} (ht : t ∈ s.dirty) : t ∈ s'.dirty := by
  rcases h.dirty with hd | ⟨hnone, -⟩
  · rwa [hd]
  · rw [hnone] at ht
    cases ht

theorem Sets.prompt (h : Sets s s') (hprompt : ∀ t ∈ s.dirty, t ≤ s.now ∧ s.now ≤ t + lag) :
    ∀ t ∈ s'.dirty, t ≤ s'.now ∧ s'.now ≤ t + lag := by
  intro t ht
  rw [h.now]
  rcases h.dirty with hd | ⟨-, hd⟩
  · exact hprompt t (hd ▸ ht)
  · rw [hd, Option.mem_some_iff] at ht
    omega

/-- After `setIsWarning true` a render is due. -/
theorem setIsWarning_dirty (h : s.isWarning = true → s.dirty.isSome = true) :
    ∃ t, t ∈ (s.setIsWarning true).dirty := by
  unfold Session.setIsWarning
  split_ifs with hv
  · exact Option.isSome_iff_exists.mp (h hv)
  · exact ⟨_, rfl⟩

/-! ### The steps -/

theorem sets_resetActivity (c : Config) (s : Session) : Sets s (s.resetActivity c) := by
  have hwarning := sets_setIsWarning { s with lastActivity := s.now } false
  have hremaining := sets_setTimeRemaining
    ({ s with lastActivity := s.now }.setIsWarning false) c.warningDurationMs
  have hsets := hwarning.trans hremaining
  exact ⟨hsets.dirty, hsets.now, hsets.expired, hsets.rendered⟩

/-- **`resetActivity`** leaves the timeout of the inactivity only, and no warning. -/
theorem resetActivity_timers (c : Config) (s : Session) :
    (s.resetActivity c).isWarning = false ∧ (s.resetActivity c).warningTimeout = none ∧
      ∀ d ∈ (s.resetActivity c).inactivityTimeout,
        c.enabled = true ∧ d = s.now + c.inactivityMs := by
  refine ⟨?_, rfl, fun d hd => ?_⟩
  · show (Session.setTimeRemaining _ _).isWarning = false
    simp
  · have hnow : (s.resetActivity c).now = s.now := (sets_resetActivity c s).now
    simp only [Session.resetActivity, Option.mem_def] at hd hnow
    split_ifs at hd with henabled
    · rw [hnow] at hd
      exact ⟨henabled, (Option.some.inj hd).symm⟩

/-- `resetActivity` needs less than the whole invariant: it establishes what is about timers. -/
theorem inv_resetActivity (hnever : s.expired = 0)
    (hprompt : ∀ t ∈ s.dirty, t ≤ s.now ∧ s.now ≤ t + lag)
    (hrendered : s.rendered = true → (s.resetActivity c).dirty.isSome = true) :
    Inv c lag (s.resetActivity c) := by
  have hsets := sets_resetActivity c s
  obtain ⟨hwarning, htimeout, hinactivity⟩ := resetActivity_timers c s
  have hprompt' := hsets.prompt hprompt
  refine ⟨hsets.expired.trans hnever, hprompt', fun h => ?_, fun d hd => ?_, fun h => ?_,
    fun d hd => (hinactivity d hd).1⟩
  · rw [hwarning] at h
    cases h
  · rw [htimeout] at hd
    cases hd
  · obtain ⟨t, ht⟩ := Option.isSome_iff_exists.mp (hrendered (hsets.rendered ▸ h))
    refine ⟨t, ht, fun d hd => ?_⟩
    have hle : t ≤ s.now := hsets.now ▸ (hprompt' t ht).1
    have hdue := (hinactivity d hd).2
    omega

/-- Withdrawing a warning takes a render. -/
theorem resetActivity_dirty (c : Config) (h : s.isWarning = true) :
    (s.resetActivity c).dirty.isSome = true := by
  have hdue : ∃ t, t ∈ ({ s with lastActivity := s.now }.setIsWarning false).dirty := by
    unfold Session.setIsWarning
    rw [if_neg (by simp [h])]
    exact ⟨_, rfl⟩
  obtain ⟨t, ht⟩ := hdue
  exact Option.isSome_iff_exists.mpr
    ⟨t, (sets_setTimeRemaining _ c.warningDurationMs).mem_dirty ht⟩

theorem Inv.resetActivity (h : Inv c lag s) : Inv c lag (s.resetActivity c) := by
  refine inv_resetActivity h.never h.prompt fun hrendered => ?_
  obtain ⟨t, ht, -⟩ := h.rendered hrendered
  exact Option.isSome_iff_exists.mpr ⟨t, (sets_resetActivity c s).mem_dirty ht⟩

/-- **The warning.** When the timeout of the inactivity comes, the warning is not on the page. -/
theorem Inv.showWarning (h : Inv c lag s) (hlag : lag < c.inactivityMs) {due : ℕ}
    (hdue : due ∈ s.inactivityTimeout) (hle : due ≤ s.now) : Inv c lag (s.showWarning c) := by
  have hsets := sets_setIsWarning { s with inactivityTimeout := none } true
  have hprompt := hsets.prompt h.prompt
  have henabled : c.enabled = true := h.enabled due hdue
  have hnot : s.rendered = false := by
    cases hr : s.rendered with
    | false => rfl
    | true =>
      obtain ⟨t, ht, hfar⟩ := h.rendered hr
      have hnear := (h.prompt t ht).2
      have hlate := hfar due hdue
      omega
  have hrendered : (s.showWarning c).rendered = false := hsets.rendered.trans hnot
  obtain ⟨t, ht⟩ := setIsWarning_dirty (s := { s with inactivityTimeout := none })
    fun hw => (h.warning hw).2.2
  refine ⟨hsets.expired.trans h.never, hprompt,
    fun _ => ⟨henabled, hrendered, Option.isSome_iff_exists.mpr ⟨t, ht⟩⟩, fun d hd => ?_,
    fun hr => ?_, fun _ _ => henabled⟩
  · refine ⟨setIsWarning_isWarning _ _, t, ht, ?_⟩
    rw [← Option.mem_some_iff.mp hd]
    exact Nat.add_le_add_right (hprompt t ht).1 _
  · rw [hrendered] at hr
    cases hr

theorem Inv.countDown (h : Inv c lag s) (remaining : ℕ) : Inv c lag (s.countDown remaining) := by
  have hsets := sets_setTimeRemaining
    { s with countdownInterval := some (s.now + 1000, remaining - 1000) } (remaining - 1000)
  obtain ⟨hinactivity, htimeout⟩ := setTimeRemaining_timers
    { s with countdownInterval := some (s.now + 1000, remaining - 1000) } (remaining - 1000)
  have hwarning : (s.countDown remaining).isWarning = s.isWarning := setTimeRemaining_isWarning _ _
  refine ⟨hsets.expired.trans h.never, hsets.prompt h.prompt, fun hw => ?_, fun d hd => ?_,
    fun hr => ?_, fun d hd => h.enabled d ?_⟩
  · obtain ⟨henabled, hrendered, hdirty⟩ := h.warning (hwarning ▸ hw)
    obtain ⟨t, ht⟩ := Option.isSome_iff_exists.mp hdirty
    exact ⟨henabled, hsets.rendered.trans hrendered,
      Option.isSome_iff_exists.mpr ⟨t, hsets.mem_dirty ht⟩⟩
  · obtain ⟨hw, t, ht, hle⟩ := h.timeout d (htimeout ▸ hd)
    exact ⟨hwarning.trans hw, t, hsets.mem_dirty ht, hle⟩
  · obtain ⟨t, ht, hle⟩ := h.rendered (hsets.rendered ▸ hr)
    exact ⟨t, hsets.mem_dirty ht, fun d hd => hle d (hinactivity ▸ hd)⟩
  · exact hinactivity ▸ hd

/-- **A render.** If it brings the warning to the page, the effect clears the timeouts and
withdraws the warning. -/
theorem Inv.commit (h : Inv c lag s) (others : Bool) : Inv c lag (s.commit c others) := by
  have hnone : ∀ t ∈ (none : Option ℕ), t ≤ s.now ∧ s.now ≤ t + lag := fun t ht => by cases ht
  unfold Session.commit
  dsimp only
  split_ifs with hchanged
  · exact inv_resetActivity h.never hnone fun hrendered => resetActivity_dirty c hrendered
  · have hw : s.isWarning = false := by
      cases hw : s.isWarning with
      | false => rfl
      | true =>
        obtain ⟨henabled, hrendered, -⟩ := h.warning hw
        simp [henabled, hw, hrendered] at hchanged
    have habsurd {P : Prop} (htrue : s.isWarning = true) : P := by
      rw [hw] at htrue
      cases htrue
    exact ⟨h.never, hnone, habsurd, fun d hd => habsurd (h.timeout d hd).1, habsurd, h.enabled⟩

/-- **The invariant** is kept as long as React is prompt. -/
theorem Inv.step (h : Inv c lag s) (hinactivity : lag < c.inactivityMs)
    (hwarning : lag < c.warningDurationMs) {a : Action} (ha : Prompt lag s a) :
    Inv c lag (step c s a) := by
  cases a with
  | wait ms =>
    refine ⟨h.never, fun t ht => ?_, h.warning, h.timeout, h.rendered, h.enabled⟩
    have hle := (h.prompt t ht).1
    exact ⟨hle.trans (Nat.le_add_right _ _), ha t ht⟩
  | activity =>
    show Inv c lag (if c.enabled then s.handleActivity c else s)
    unfold Session.handleActivity
    split_ifs
    · exact h
    · exact h.resetActivity
    · exact h
  | dismiss => exact h.resetActivity
  | inactivityTimeout =>
    unfold SessionTimeout.step
    cases hdue : s.inactivityTimeout with
    | none => exact h
    | some due =>
      simp only
      split_ifs with hle
      · exact h.showWarning hinactivity hdue hle
      · exact h
  | countdownInterval =>
    unfold SessionTimeout.step
    cases s.countdownInterval with
    | none => exact h
    | some due =>
      simp only
      split_ifs
      · exact h.countDown due.2
      · exact h
  | warningTimeout =>
    unfold SessionTimeout.step
    cases hdue : s.warningTimeout with
    | none => exact h
    | some due =>
      simp only
      split_ifs with hle
      · -- the timeout is later than the render that clears it
        obtain ⟨-, t, ht, hfar⟩ := h.timeout due hdue
        have hnear := (h.prompt t ht).2
        omega
      · exact h
  | commit others => exact h.commit others

theorem inv_start (c : Config) (lag : ℕ) : Inv c lag (start c) :=
  inv_resetActivity rfl (fun t ht => by cases ht) fun hr => by cases hr

/-- **No session expires.** As long as React renders what it has to within `lag`, which is shorter
than the inactivity period and the duration of the warning, `onExpire` is never called, whatever the
user does or does not do, and a warning on the page has been withdrawn before. -/
theorem session_never_expires {c : Config} {lag : ℕ} (hinactivity : lag < c.inactivityMs)
    (hwarning : lag < c.warningDurationMs) {l : List Action}
    (hl : AllSteps (step c) (Prompt lag) (start c) l) :
    AllStates (step c) (NeverExpired lag) (start c) l :=
  (allStates_of_inv (fun _ _ h ha => h.step hinactivity hwarning ha) (inv_start c lag) hl).imp
    fun _ h => h.neverExpired

/-- Nobody is there for an hour: the warning comes and goes twice. -/
theorem session_never_expires_provider :
    AllSteps (step providerConfig) (Prompt 16) (start providerConfig)
        [.wait 1200000, .inactivityTimeout, .wait 9, .commit true, .wait 9, .commit true,
          .wait 1200000, .inactivityTimeout, .wait 16, .commit true, .wait 16, .commit true,
          .wait 600000, .warningTimeout] ∧
      AllStates (step providerConfig) (NeverExpired 16) (start providerConfig)
        [.wait 1200000, .inactivityTimeout, .wait 9, .commit true, .wait 9, .commit true,
          .wait 1200000, .inactivityTimeout, .wait 16, .commit true, .wait 16, .commit true,
          .wait 600000, .warningTimeout] := by
  have hprompt : AllSteps (step providerConfig) (Prompt 16) (start providerConfig)
      [.wait 1200000, .inactivityTimeout, .wait 9, .commit true, .wait 9, .commit true,
        .wait 1200000, .inactivityTimeout, .wait 16, .commit true, .wait 16, .commit true,
        .wait 600000, .warningTimeout] := by decide
  exact ⟨hprompt, session_never_expires (by decide) (by decide) hprompt⟩

end VestingDripStream.Frontend.SessionTimeout
