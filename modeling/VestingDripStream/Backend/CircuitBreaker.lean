import VestingDripStream.Lib.Run

/-! # The circuit breaker of the Horizon client

The calls of `execute` overlap: a call asks the breaker for its state when it is made, and tells it
how its function ended some time later. A step of the system is a call that is made, a function that
settles, or a reading of the state. The calls are numbered in the order they are made in.

`rejects_iff`: a call is rejected exactly if the breaker opened less than `halfOpenAfterMs` before
and no function has succeeded since. -/

namespace VestingDripStream.Backend.CircuitBreaker

open VestingDripStream.Lib.Run

/-- `CircuitState`. -/
inductive CircuitState
  | closed
  | opened
  | halfOpen
  deriving DecidableEq, Repr

/-- The options of a breaker, with their defaults. -/
structure Options where
  threshold : ℕ := 5
  halfOpenAfterMs : ℕ := 30000
  deriving DecidableEq, Repr

/-- The private fields of a `CircuitBreaker` and their first values. -/
structure Breaker where
  state : CircuitState := .closed
  consecutiveFailures : ℕ := 0
  openedAt : ℕ := 0
  deriving DecidableEq, Repr

namespace Breaker

variable (opts : Options)

/-- What `getState` makes of the breaker: an open one becomes half-open once its time is over. -/
def getState (b : Breaker) (now : ℕ) : Breaker :=
  if b.state = .opened ∧ b.openedAt + opts.halfOpenAfterMs ≤ now then { b with state := .halfOpen }
  else b

/-- `onSuccess`: any success closes the breaker. -/
def onSuccess (_ : Breaker) : Breaker where
  state := .closed
  consecutiveFailures := 0
  openedAt := 0

/-- The next failure opens the breaker. -/
def Trips (b : Breaker) : Prop :=
  b.state = .halfOpen ∨ opts.threshold ≤ b.consecutiveFailures + 1

instance (b : Breaker) : Decidable (b.Trips opts) := by
  unfold Trips; infer_instance

/-- `onFailure`. -/
def onFailure (b : Breaker) (now : ℕ) : Breaker :=
  if b.Trips opts then { state := .opened, openedAt := now, consecutiveFailures := 0 }
  else { b with consecutiveFailures := b.consecutiveFailures + 1 }

end Breaker

/-- A breaker with the calls of `execute` so far. -/
structure World where
  breaker : Breaker := {}
  calls : ℕ := 0
  /-- The calls whose function was invoked and has not settled. -/
  inFlight : List ℕ := []
  clock : ℕ := 0
  deriving DecidableEq, Repr

/-- What happens to the breaker; calls of `execute` overlap. -/
inductive Action
  /-- A call of `execute` is made. -/
  | execute (now : ℕ)
  /-- The function of the call `i` resolves (`ok`) or rejects. -/
  | settle (i : ℕ) (ok : Bool) (now : ℕ)
  /-- Somebody reads the state. -/
  | read (now : ℕ)
  deriving DecidableEq, Repr

/-- The time at which it happens. -/
def Action.time : Action → ℕ
  | .execute now => now
  | .settle _ _ now => now
  | .read now => now

variable (opts : Options)

/-- A call made `now` throws `CircuitOpenError`; otherwise it invokes its function. -/
def Rejects (w : World) (now : ℕ) : Prop := (w.breaker.getState opts now).state = .opened

instance (w : World) (now : ℕ) : Decidable (Rejects opts w now) := by
  unfold Rejects; infer_instance

/-- One action: a call that is let through is in flight until its function settles. -/
def step (w : World) : Action → World
  | .execute now =>
    { breaker := w.breaker.getState opts now
      calls := w.calls + 1
      inFlight := if Rejects opts w now then w.inFlight else w.calls :: w.inFlight
      clock := now }
  | .settle i ok now =>
    { w with
      breaker := if ok then w.breaker.onSuccess else w.breaker.onFailure opts now
      inFlight := w.inFlight.erase i
      clock := now }
  | .read now => { w with breaker := w.breaker.getState opts now, clock := now }

/-- Time does not run backwards, and only a function that was invoked settles. -/
def Legal (w : World) : Action → Prop
  | .settle i _ now => w.clock ≤ now ∧ i ∈ w.inFlight
  | .execute now | .read now => w.clock ≤ now

instance (w : World) : (a : Action) → Decidable (Legal w a)
  | .settle i _ now => inferInstanceAs (Decidable (w.clock ≤ now ∧ i ∈ w.inFlight))
  | .execute now | .read now => inferInstanceAs (Decidable (w.clock ≤ now))

/-- The step opens the breaker, or opens it again. -/
def Opens (w : World) (a : Action) : Prop :=
  ∃ i now, a = .settle i false now ∧ w.breaker.Trips opts

/-- The function of a call succeeds. -/
def Succeeds (a : Action) : Prop := ∃ i now, a = .settle i true now

/-- The breaker opened less than `halfOpenAfterMs` before `now`, and no function has succeeded
since. -/
def OpenFor (l : List Action) (now : ℕ) : Prop :=
  Since (step opts) (fun w a => Opens opts w a ∧ now < a.time + opts.halfOpenAfterMs)
    (fun _ a => Succeeds a) {} l

variable {opts}

/-! ### When a call is rejected -/

theorem Legal.clock_le {w : World} {a : Action} (h : Legal w a) : w.clock ≤ a.time := by
  cases a with
  | settle i ok now => exact h.1
  | execute now => exact h
  | read now => exact h

theorem rejects_iff_state {w : World} {now : ℕ} :
    Rejects opts w now ↔
      w.breaker.state = .opened ∧ now < w.breaker.openedAt + opts.halfOpenAfterMs := by
  unfold Rejects Breaker.getState
  split_ifs with h
  · refine iff_of_false nofun fun hr => ?_
    have := h.2
    omega
  · constructor
    · intro hs
      have := not_and.mp h hs
      exact ⟨hs, by omega⟩
    · exact fun hr => hr.1

/-- Reading the state at `now` does not change whether a later call is rejected. -/
theorem rejects_getState {w w' : World} {now later : ℕ} (hle : now ≤ later)
    (hw : w'.breaker = w.breaker.getState opts now) :
    Rejects opts w' later ↔ Rejects opts w later := by
  rw [rejects_iff_state, rejects_iff_state, hw]
  unfold Breaker.getState
  split_ifs with h
  · refine iff_of_false (fun hr => nomatch hr.1) fun hr => ?_
    have := h.2
    omega
  · rfl

theorem openedAt_getState {b : Breaker} {now : ℕ} :
    (b.getState opts now).openedAt = b.openedAt := by
  unfold Breaker.getState
  split_ifs <;> rfl

theorem openedAt_onFailure_le {b : Breaker} {now : ℕ} (h : b.openedAt ≤ now) :
    (b.onFailure opts now).openedAt ≤ now := by
  unfold Breaker.onFailure
  split_ifs
  · exact le_rfl
  · exact h

/-- The breaker does not open in the future. -/
theorem openedAt_le_clock {w : World} {a : Action} (h : w.breaker.openedAt ≤ w.clock)
    (hl : Legal w a) : (step opts w a).breaker.openedAt ≤ (step opts w a).clock := by
  have hle := h.trans hl.clock_le
  cases a with
  | execute now => exact openedAt_getState.trans_le hle
  | read now => exact openedAt_getState.trans_le hle
  | settle i ok now =>
    cases ok with
    | true => exact Nat.zero_le now
    | false => exact openedAt_onFailure_le hle

/-- **One step** and the calls at a later time `now`: an opening less than `halfOpenAfterMs` before
makes the breaker reject them, a success makes it accept them, and no other step matters. -/
theorem rejects_step {w : World} {a : Action} {now : ℕ} (h : w.breaker.openedAt ≤ w.clock)
    (hl : Legal w a) (hnow : a.time ≤ now) :
    Rejects opts (step opts w a) now ↔
      (Opens opts w a ∧ now < a.time + opts.halfOpenAfterMs) ∨
        (Rejects opts w now ∧ ¬ Succeeds a) := by
  cases a with
  | execute t =>
    rw [rejects_getState hnow rfl]
    simp [Opens, Succeeds]
  | read t =>
    rw [rejects_getState hnow rfl]
    simp [Opens, Succeeds]
  | settle i ok t =>
    have hopened : w.breaker.openedAt ≤ t := h.trans hl.clock_le
    cases ok with
    | true =>
      refine iff_of_false ?_ ?_
      · rw [rejects_iff_state]
        exact fun hr => nomatch hr.1
      · rintro (⟨⟨_, _, ha, -⟩, -⟩ | ⟨-, hs⟩)
        · exact nomatch ha
        · exact hs ⟨i, t, rfl⟩
    | false =>
      have hopens : Opens opts w (.settle i false t) ↔ w.breaker.Trips opts :=
        ⟨fun ⟨_, _, _, ht⟩ => ht, fun ht => ⟨i, t, rfl, ht⟩⟩
      have hs : ¬ Succeeds (.settle i false t) := fun ⟨_, _, ha⟩ => nomatch ha
      have hstep : (step opts w (.settle i false t)).breaker = w.breaker.onFailure opts t := rfl
      rw [hopens, rejects_iff_state, rejects_iff_state, hstep]
      unfold Breaker.onFailure
      split_ifs with ht
      · -- the older opening would reject at `now` only if this one does
        simp only [ht, hs, Action.time, true_and, not_false_eq_true, and_true]
        constructor
        · exact Or.inl
        · rintro (hr | ⟨-, hr⟩)
          · exact hr
          · omega
      · simp [ht, hs]

theorem times_le_clock {w : World} {l : List Action} (hl : AllSteps (step opts) Legal w l) :
    w.clock ≤ (run (step opts) w l).clock ∧ ∀ a ∈ l, a.time ≤ (run (step opts) w l).clock := by
  induction l generalizing w with
  | nil => exact ⟨le_rfl, by simp⟩
  | cons a l ih =>
    obtain ⟨hle, hall⟩ := ih hl.2
    have hclock : (step opts w a).clock = a.time := by cases a <;> rfl
    rw [hclock] at hle
    refine ⟨hl.1.clock_le.trans hle, fun b hb => ?_⟩
    rcases List.mem_cons.mp hb with rfl | hb
    · exact hle
    · exact hall b hb

/-- **When a call is rejected**: exactly if the breaker opened less than `halfOpenAfterMs` before
and no function has succeeded since. -/
theorem rejects_iff {l : List Action} {now : ℕ} (hl : AllSteps (step opts) Legal {} l)
    (hnow : (run (step opts) {} l).clock ≤ now) :
    Rejects opts (run (step opts) {} l) now ↔ OpenFor opts l now := by
  have htimes : AllSteps (step opts) (fun w a => Legal w a ∧ a.time ≤ now) {} l := by
    refine allSteps_iff_forall_split.mpr ?_
    rintro pre a post rfl
    refine ⟨(allSteps_append.mp hl).2.1, ?_⟩
    exact ((times_le_clock hl).2 a (by simp)).trans hnow
  have hinv : ∀ (w : World) (a : Action), w.breaker.openedAt ≤ w.clock →
      Legal w a ∧ a.time ≤ now → (step opts w a).breaker.openedAt ≤ (step opts w a).clock :=
    fun w a hI hP => openedAt_le_clock hI hP.1
  refine iff_since_of_inv (Q := fun w => Rejects opts w now) hinv
    (fun w a hI hP => rejects_step hI hP.1 hP.2) le_rfl ?_ htimes
  rw [rejects_iff_state]
  exact fun hr => nomatch hr.1

/-- The same for a call that a run makes. -/
theorem rejects_at_iff {l pre post : List Action} {now : ℕ}
    (hl : AllSteps (step opts) Legal {} l) (h : l = pre ++ .execute now :: post) :
    Rejects opts (run (step opts) {} pre) now ↔ OpenFor opts pre now := by
  subst h
  obtain ⟨hpre, hexec, -⟩ := allSteps_append.mp hl
  exact rejects_iff hpre hexec

/-! ### The open window -/

variable (opts) in
/-- After an opening at the time `t` no call invokes its function before `t + halfOpenAfterMs`. -/
def StaysOpen (l : List Action) : Prop :=
  ∀ pre a mid now post, l = pre ++ a :: (mid ++ .execute now :: post) →
    Opens opts (run (step opts) {} pre) a → now < a.time + opts.halfOpenAfterMs →
    Rejects opts (run (step opts) {} (pre ++ a :: mid)) now

/-- **The breaker stays open** exactly if, whenever `execute` is called less than `halfOpenAfterMs`
after an opening, no function has succeeded since some such opening. -/
theorem staysOpen_iff (l : List Action) (hl : AllSteps (step opts) Legal {} l) :
    StaysOpen opts l ↔ ∀ pre a mid now post, l = pre ++ a :: (mid ++ .execute now :: post) →
      Opens opts (run (step opts) {} pre) a → now < a.time + opts.halfOpenAfterMs →
      OpenFor opts (pre ++ a :: mid) now := by
  refine forall_congr' fun pre => forall_congr' fun a => forall_congr' fun mid =>
    forall_congr' fun now => forall_congr' fun post => forall_congr' fun h => ?_
  have h' : l = (pre ++ a :: mid) ++ .execute now :: post := by simp [h]
  rw [rejects_at_iff hl h']

/-- A run in which the open breaker is left alone until its time is over. -/
theorem staysOpen_alone : StaysOpen { threshold := 1 } [.execute 0, .settle 0 false 10,
    .execute 30010] ↔ ∀ pre a mid now post,
      [.execute 0, .settle 0 false 10, .execute 30010] =
        pre ++ a :: (mid ++ Action.execute now :: post) →
      Opens { threshold := 1 } (run (step { threshold := 1 }) {} pre) a →
      now < a.time + 30000 → OpenFor { threshold := 1 } (pre ++ a :: mid) now :=
  staysOpen_iff _ (by decide)

/-- A breaker of threshold 1 with two calls: one fails and opens it, the other one succeeds and a
third call is made in the open window. -/
theorem not_staysOpen :
    AllSteps (step { threshold := 1 }) Legal {} [.execute 0, .execute 0, .settle 0 false 10,
      .settle 1 true 20, .execute 30] ∧
    ¬ StaysOpen { threshold := 1 } [.execute 0, .execute 0, .settle 0 false 10,
      .settle 1 true 20, .execute 30] := by
  refine ⟨by decide, fun h => ?_⟩
  have hr := h [.execute 0, .execute 0] (.settle 0 false 10) [.settle 1 true 20] 30 [] rfl
    ⟨0, 10, rfl, by decide⟩ (by decide)
  exact absurd hr (by decide)

/-! ### The half-open state -/

/-- The call whose function the step invokes, and the state it is admitted in. -/
def admission (opts : Options) (w : World) : Action → Option (ℕ × CircuitState)
  | .execute now =>
    if Rejects opts w now then none else some (w.calls, (w.breaker.getState opts now).state)
  | .settle _ _ _ | .read _ => none

/-- The calls whose functions a stretch of a run invokes. -/
def invoked (opts : Options) : World → List Action → List (ℕ × CircuitState)
  | _, [] => []
  | w, a :: l => (admission opts w a).toList ++ invoked opts (step opts w a) l

variable (opts) in
/-- The step is the moment at which the breaker becomes half-open. -/
def BecomesHalfOpen (w : World) (a : Action) : Prop :=
  w.breaker.state = .opened ∧ (step opts w a).breaker.state = .halfOpen

variable (opts) in
/-- The breaker became half-open with the step `h` after `pre`, and `i`, the first call admitted
since, was admitted in that state and has not completed at the end of `mid`. -/
def Probing (pre : List Action) (h : Action) (mid : List Action) (i : ℕ) : Prop :=
  BecomesHalfOpen opts (run (step opts) {} pre) h ∧
    (invoked opts (run (step opts) {} pre) (h :: mid)).head? = some (i, .halfOpen) ∧
    i ∈ (run (step opts) {} (pre ++ h :: mid)).inFlight

variable (opts) in
/-- Between the moment the breaker becomes half-open and the completion of the first call admitted
in that state no other call invokes its function. -/
def SingleProbe (l : List Action) : Prop :=
  ∀ pre h mid post, l = pre ++ h :: (mid ++ post) → ∀ i, Probing opts pre h mid i →
    (invoked opts (run (step opts) {} pre) (h :: mid)).length = 1

theorem invoked_append {w : World} {l l' : List Action} :
    invoked opts w (l ++ l') = invoked opts w l ++ invoked opts (run (step opts) w l) l' := by
  induction l generalizing w with
  | nil => rfl
  | cons a l ih =>
    show _ ++ invoked opts (step opts w a) (l ++ l') = _
    rw [ih, ← List.append_assoc]
    rfl

theorem invoked_execute {w : World} {now : ℕ} :
    invoked opts w [.execute now] =
      if Rejects opts w now then [] else [(w.calls, (w.breaker.getState opts now).state)] := by
  simp only [invoked, admission]
  split_ifs <;> rfl

/-- The calls are numbered: a call in flight is none of those to come. -/
theorem mem_inFlight_step {w : World} {a : Action} {i : ℕ} (hi : i < w.calls)
    (h : i ∈ (step opts w a).inFlight) : i ∈ w.inFlight := by
  cases a with
  | read now => exact h
  | settle j ok now => exact List.mem_of_mem_erase h
  | execute now =>
    have h : i ∈ if Rejects opts w now then w.inFlight else w.calls :: w.inFlight := h
    split_ifs at h
    · exact h
    · rcases List.mem_cons.mp h with rfl | h
      · exact absurd hi (lt_irrefl _)
      · exact h

theorem calls_le_step {w : World} {a : Action} : w.calls ≤ (step opts w a).calls := by
  cases a with
  | execute now => exact Nat.le_succ _
  | settle i ok now => exact le_rfl
  | read now => exact le_rfl

/-- A call that is in flight at the end of a stretch and was made before it was in flight at its
start. -/
theorem mem_inFlight_of_run {w : World} {l : List Action} {i : ℕ} (hi : i < w.calls)
    (h : i ∈ (run (step opts) w l).inFlight) : i ∈ w.inFlight := by
  induction l generalizing w with
  | nil => exact h
  | cons a l ih => exact mem_inFlight_step hi (ih (hi.trans_le calls_le_step) h)

theorem lt_calls_of_mem_invoked {w : World} {l : List Action} {c : ℕ × CircuitState}
    (h : c ∈ invoked opts w l) : c.1 < (run (step opts) w l).calls := by
  induction l using List.reverseRecOn with
  | nil => simp [invoked] at h
  | append_singleton l a ih =>
    rw [invoked_append] at h
    rw [run_append]
    rcases List.mem_append.mp h with h | h
    · exact (ih h).trans_le calls_le_step
    · cases a with
      | settle j ok now => simp [invoked, admission] at h
      | read now => simp [invoked, admission] at h
      | execute now =>
        rw [invoked_execute] at h
        split_ifs at h
        · simp at h
        · rw [List.mem_singleton.mp h]
          exact Nat.lt_succ_self _

/-- The last function that a stretch invokes. -/
theorem exists_last_invoked {w : World} {l : List Action} (h : invoked opts w l ≠ []) :
    ∃ mid now post, l = mid ++ .execute now :: post ∧
      ¬ Rejects opts (run (step opts) w mid) now ∧
      invoked opts w l = invoked opts w (mid ++ [.execute now]) := by
  induction l using List.reverseRecOn with
  | nil => simp [invoked] at h
  | append_singleton l a ih =>
    by_cases ha : invoked opts (run (step opts) w l) [a] = []
    · have heq : invoked opts w (l ++ [a]) = invoked opts w l := by
        rw [invoked_append, ha, List.append_nil]
      rw [heq] at h ⊢
      obtain ⟨mid, now, post, rfl, hr, hinv⟩ := ih h
      exact ⟨mid, now, post ++ [a], by simp, hr, hinv⟩
    · cases a with
      | settle j ok now => simp [invoked, admission] at ha
      | read now => simp [invoked, admission] at ha
      | execute now =>
        refine ⟨l, now, [], rfl, fun hr => ?_, rfl⟩
        rw [invoked_execute, if_pos hr] at ha
        exact ha rfl

/-- A further call does not end the probe. -/
theorem Probing.execute {pre mid : List Action} {h : Action} {i : ℕ}
    (hp : Probing opts pre h mid i) (now : ℕ) :
    Probing opts pre h (mid ++ [.execute now]) i := by
  obtain ⟨hhalf, hfirst, hi⟩ := hp
  refine ⟨hhalf, ?_, ?_⟩
  · rw [← List.cons_append, invoked_append, List.head?_append, hfirst]
    rfl
  · rw [← List.cons_append, ← List.append_assoc, run_append]
    show i ∈ if _ then _ else _
    split_ifs
    · exact hi
    · exact List.mem_cons_of_mem _ hi

/-- If a second function was invoked, then one was invoked while the probe was running. -/
theorem Probing.earlier {pre mid : List Action} {h : Action} {i : ℕ}
    (hp : Probing opts pre h mid i)
    (hlen : (invoked opts (run (step opts) {} pre) (h :: mid)).length ≠ 1) :
    ∃ mid' now rest, mid = mid' ++ .execute now :: rest ∧
      ¬ Rejects opts (run (step opts) {} (pre ++ h :: mid')) now ∧ Probing opts pre h mid' i := by
  obtain ⟨hhalf, hfirst, hi⟩ := hp
  have hne : invoked opts (run (step opts) {} pre) (h :: mid) ≠ [] := by
    intro hnil
    rw [hnil] at hfirst
    cases hfirst
  obtain ⟨stretch, now, rest, hsplit, hr, hinv⟩ := exists_last_invoked hne
  rw [hinv, invoked_append, invoked_execute, if_neg hr] at hlen hfirst
  rw [← run_append] at hr
  rcases List.eq_nil_or_concat' (invoked opts (run (step opts) {} pre) stretch) with
    hnil | ⟨init, last, hlast⟩
  · -- the last function would be the first one
    rw [hnil] at hlen
    exact absurd rfl hlen
  · cases stretch with
    | nil =>
      exact absurd hlast (by simp [invoked])
    | cons h' mid' =>
      rw [List.cons_append] at hsplit
      obtain ⟨rfl, rfl⟩ := List.cons.inj hsplit
      have hfirst' : (invoked opts (run (step opts) {} pre) (h :: mid')).head? =
          some (i, .halfOpen) := by
        rw [List.head?_append] at hfirst
        cases hh : (invoked opts (run (step opts) {} pre) (h :: mid')).head? with
        | none =>
          rw [List.head?_eq_none_iff.mp hh] at hlast
          exact absurd hlast (by simp)
        | some c =>
          rw [hh] at hfirst
          exact hfirst
      refine ⟨mid', now, rest, rfl, hr, hhalf, hfirst', ?_⟩
      have hlt := lt_calls_of_mem_invoked (List.mem_of_head? hfirst')
      rw [← run_append] at hlt
      rw [← List.cons_append, ← List.append_assoc, run_append] at hi
      exact mem_inFlight_of_run hlt hi

/-- **The half-open state.** While the first call admitted in the half-open state is running, a
further call is rejected exactly if a failure reopened the breaker less than `halfOpenAfterMs`
before and no function has succeeded since; otherwise it invokes its function as well. So the probe
is the only one exactly if every further call is made in such an open window. -/
theorem singleProbe_iff (l : List Action) (hl : AllSteps (step opts) Legal {} l) :
    (∀ pre h mid now post, l = pre ++ h :: (mid ++ .execute now :: post) →
      ∀ i, Probing opts pre h mid i →
        (Rejects opts (run (step opts) {} (pre ++ h :: mid)) now ↔
          OpenFor opts (pre ++ h :: mid) now)) ∧
    (SingleProbe opts l ↔ ∀ pre h mid now post, l = pre ++ h :: (mid ++ .execute now :: post) →
      ∀ i, Probing opts pre h mid i → OpenFor opts (pre ++ h :: mid) now) := by
  have hrejects : ∀ pre h mid now post, l = pre ++ h :: (mid ++ .execute now :: post) →
      (Rejects opts (run (step opts) {} (pre ++ h :: mid)) now ↔
        OpenFor opts (pre ++ h :: mid) now) := by
    intro pre h mid now post hsplit
    have hsplit : l = (pre ++ h :: mid) ++ .execute now :: post := by simp [hsplit]
    exact rejects_at_iff hl hsplit
  refine ⟨fun pre h mid now post hsplit i _ => hrejects pre h mid now post hsplit, ?_, ?_⟩
  · rintro hsingle pre h mid now post rfl i hp
    refine (hrejects pre h mid now post rfl).mp ?_
    by_contra hr
    have hone := hsingle pre h mid (.execute now :: post) rfl i hp
    have htwo := hsingle pre h (mid ++ [.execute now]) post (by simp) i (hp.execute now)
    rw [← List.cons_append, invoked_append, ← run_append, invoked_execute, if_neg hr,
      List.length_append, hone] at htwo
    exact absurd htwo (by simp)
  · rintro hcond pre h mid post rfl i hp
    by_contra hlen
    obtain ⟨mid', now, rest, hmid, hr, hp'⟩ := hp.earlier hlen
    refine hr ((hrejects pre h mid' now (rest ++ post) (by simp [hmid])).mpr ?_)
    exact hcond pre h mid' now (rest ++ post) (by simp [hmid]) i hp'

/-- The breaker opens, becomes half-open and probes once. -/
theorem singleProbe_once : (∀ pre h mid now post,
      [.execute 0, .settle 0 false 10, .execute 40000, .settle 1 true 40005] =
        pre ++ h :: (mid ++ Action.execute now :: post) →
      ∀ i, Probing { threshold := 1 } pre h mid i →
        (Rejects { threshold := 1 } (run (step { threshold := 1 }) {} (pre ++ h :: mid)) now ↔
          OpenFor { threshold := 1 } (pre ++ h :: mid) now)) ∧
    (SingleProbe { threshold := 1 }
        [.execute 0, .settle 0 false 10, .execute 40000, .settle 1 true 40005] ↔
      ∀ pre h mid now post,
        [.execute 0, .settle 0 false 10, .execute 40000, .settle 1 true 40005] =
          pre ++ h :: (mid ++ Action.execute now :: post) →
        ∀ i, Probing { threshold := 1 } pre h mid i →
          OpenFor { threshold := 1 } (pre ++ h :: mid) now) :=
  singleProbe_iff _ (by decide)

/-- The half-open breaker that lets a second call through while the probe runs. -/
theorem not_singleProbe :
    AllSteps (step { threshold := 1 }) Legal {} [.execute 0, .settle 0 false 10, .execute 40000,
      .execute 40001] ∧
    ¬ SingleProbe { threshold := 1 } [.execute 0, .settle 0 false 10, .execute 40000,
      .execute 40001] := by
  refine ⟨by decide, fun h => ?_⟩
  have hone := h [.execute 0, .settle 0 false 10] (.execute 40000) [.execute 40001] [] rfl 1
    ⟨⟨by decide, by decide⟩, by decide, by decide⟩
  exact absurd hone (by decide)

end VestingDripStream.Backend.CircuitBreaker
