import VestingDripStream.Backend.CircuitBreaker
import VestingDripStream.Lib.History
import Mathlib.Data.List.DropRight

/-! # The circuit breaker, one call after the other

When no two calls of `execute` overlap, what the breaker does can be read off the history of the
calls: the failures of the current segment, which starts anew with every success and every opening,
and the last opening. `sequential` is this reading, and `run_actions` finds these calls among the
runs of calls that overlap. -/

namespace VestingDripStream.Backend.CircuitHistory

open VestingDripStream.Lib.Run VestingDripStream.Lib.History
open VestingDripStream.Backend.CircuitBreaker (Breaker CircuitState Options)

/-- A call of `execute`: when it is made, and when and how its function ends, if it is invoked. -/
structure Call where
  start : ℕ
  fin : ℕ
  ok : Bool
  deriving DecidableEq

/-- What became of a call: the state that `execute` read, whether its function was invoked and how
it ended, and the breaker before and after. -/
structure Entry where
  call : Call
  found : CircuitState
  result : Option Bool
  before : Breaker
  after : Breaker
  deriving DecidableEq

variable (opts : Options)

/-- `execute`. A call that is rejected has no result. -/
def execute (b : Breaker) (c : Call) : Entry :=
  let current := b.getState opts c.start
  if current.state = .opened then ⟨c, current.state, none, b, current⟩
  else if c.ok then ⟨c, current.state, some true, b, current.onSuccess⟩
  else ⟨c, current.state, some false, b, current.onFailure opts c.fin⟩

namespace Entry

/-- The function was invoked. -/
def admitted (e : Entry) : Bool := e.result.isSome

/-- The function was called and resolved. -/
def succeeds (e : Entry) : Bool := e.result == some true

/-- The function was called and rejected. -/
def fails (e : Entry) : Bool := e.result == some false

/-- The breaker opens, or opens again. -/
def opens (e : Entry) : Bool := e.admitted && e.after.state == .opened

/-- The breaker closes. -/
def closes (e : Entry) : Bool := e.before.state != .closed && e.after.state == .closed

/-- The time at which the call is over. -/
def finishedAt (e : Entry) : ℕ := if e.admitted then e.call.fin else e.call.start

end Entry

/-- The breaker with the calls so far. -/
structure State where
  breaker : Breaker := {}
  log : List Entry := []
  clock : ℕ := 0

/-- The next call, made when the one before it is over. -/
def step (s : State) (c : Call) : State :=
  let e := execute opts s.breaker c
  { breaker := e.after, log := s.log ++ [e], clock := e.finishedAt }

/-- A call is made when the one before it is over, and time does not run backwards. -/
def Legal (s : State) (c : Call) : Prop := s.clock ≤ c.start ∧ c.start ≤ c.fin

instance (s : State) (c : Call) : Decidable (Legal s c) := by
  unfold Legal; infer_instance

/-! ### The history -/

/-- The current segment: the calls that were admitted since the last success or opening. -/
def segment (log : List Entry) : List Entry :=
  (log.filter Entry.admitted).rtakeWhile fun e => !(e.succeeds || e.opens)

/-- The failures of the current segment. -/
def failures (log : List Entry) : ℕ := (segment log).countP Entry.fails

/-- The breaker opened at the time `t`, and no call has been admitted since. -/
def OpenSince (t : ℕ) : List Entry → Prop :=
  Pending (fun e => e.opens = true ∧ e.call.fin = t) fun e => e.admitted = true

/-- What a call does after the calls in `pre`. -/
structure FollowsHistory (pre : List Entry) (e : Entry) : Prop where
  /-- The call opens the breaker if it is the failure that completes the threshold in its segment,
  or a failure and the first call that was admitted after an opening. -/
  opens_iff : e.opens = true ↔
    e.fails = true ∧ (failures pre + 1 = opts.threshold ∨ ∃ t, OpenSince t pre)
  /-- Before the time of some opening is over, and only then, the call is rejected. -/
  rejected_iff : e.admitted = false ↔
    ∃ o ∈ pre, o.opens = true ∧ e.call.start < o.call.fin + opts.halfOpenAfterMs
  /-- The first call from then on is the probe. -/
  probe : ∀ pre' o mid, pre = pre' ++ o :: mid → o.opens = true →
    (∀ x ∈ mid, x.call.start < o.call.fin + opts.halfOpenAfterMs) →
    o.call.fin + opts.halfOpenAfterMs ≤ e.call.start → e.admitted = true ∧ e.found = .halfOpen
  /-- The breaker closes by a success. -/
  closes_iff : e.closes = true ↔ e.before.state ≠ .closed ∧ e.succeeds = true
  closed : e.succeeds = true → e.after.state = .closed

/-- Every call did what the history asked for, and the counter counts the failures of the current
segment. -/
structure Sequential (s : State) : Prop where
  history : Each (FollowsHistory opts) s.log
  counts : s.breaker.consecutiveFailures = failures s.log
  below : s.breaker.consecutiveFailures < opts.threshold

section

variable {opts} {b : Breaker} {c : Call} {s : State} {log : List Entry} {e : Entry}

/-! ### One call -/

/-- The breaker admits a call in the state `found`. -/
def Admits (opts : Options) (b : Breaker) (c : Call) (found : CircuitState) : Prop :=
  (b.state = .closed ∧ found = .closed) ∨
    (b.state = .opened ∧ b.openedAt + opts.halfOpenAfterMs ≤ c.start ∧ found = .halfOpen)

theorem getState_of_closed {now : ℕ} (h : b.state = .closed) : b.getState opts now = b := by
  unfold Breaker.getState
  rw [if_neg]
  rintro ⟨hopened, -⟩
  rw [h] at hopened
  cases hopened

theorem onFailure_of_trips {now : ℕ} (h : b.Trips opts) :
    b.onFailure opts now = ⟨.opened, 0, now⟩ := if_pos h

theorem onFailure_of_not_trips {now : ℕ} (h : ¬ b.Trips opts) :
    b.onFailure opts now = { b with consecutiveFailures := b.consecutiveFailures + 1 } := if_neg h

variable (opts) in
/-- A call that is admitted. -/
theorem execute_of_admitted (h : (b.getState opts c.start).state ≠ .opened) : execute opts b c =
    ⟨c, (b.getState opts c.start).state, some c.ok, b,
      if c.ok then {} else (b.getState opts c.start).onFailure opts c.fin⟩ := by
  unfold execute
  simp only [if_neg h]
  cases c.ok <;> rfl

/-- What becomes of a call that is admitted: the function succeeds, or its failure opens the breaker,
or its failure is counted. -/
def Settles (opts : Options) (b : Breaker) (c : Call) (found : CircuitState) (e : Entry) : Prop :=
  e = ⟨c, found, some true, b, {}⟩ ∨
    ((b.state = .opened ∨ opts.threshold ≤ b.consecutiveFailures + 1) ∧
      e = ⟨c, found, some false, b, ⟨.opened, 0, c.fin⟩⟩) ∨
    (b.state = .closed ∧ b.consecutiveFailures + 1 < opts.threshold ∧
      e = ⟨c, found, some false, b, { b with consecutiveFailures := b.consecutiveFailures + 1 }⟩)

theorem execute_of_closed (hclosed : b.state = .closed) (c : Call) :
    Settles opts b c .closed (execute opts b c) := by
  have hget : b.getState opts c.start = b := getState_of_closed hclosed
  have hexec := execute_of_admitted opts (b := b) (c := c) (by simp [hget, hclosed])
  rw [hget, hclosed] at hexec
  rw [hexec]
  cases c.ok with
  | true => exact Or.inl rfl
  | false =>
    by_cases hle : opts.threshold ≤ b.consecutiveFailures + 1
    · have htrips : b.Trips opts := Or.inr hle
      exact Or.inr (Or.inl ⟨Or.inr hle, by rw [onFailure_of_trips htrips]; rfl⟩)
    · have htrips : ¬ b.Trips opts := by
        rintro (hhalf | h)
        · rw [hclosed] at hhalf
          cases hhalf
        · exact hle h
      exact Or.inr (Or.inr ⟨hclosed, not_le.mp hle, by rw [onFailure_of_not_trips htrips]; rfl⟩)

theorem execute_of_due (hopened : b.state = .opened)
    (hdue : b.openedAt + opts.halfOpenAfterMs ≤ c.start) :
    Settles opts b c .halfOpen (execute opts b c) := by
  have hget : b.getState opts c.start = { b with state := .halfOpen } := if_pos ⟨hopened, hdue⟩
  have hexec := execute_of_admitted opts (b := b) (c := c) (by simp [hget])
  rw [hget] at hexec
  rw [hexec]
  cases c.ok with
  | true => exact Or.inl rfl
  | false =>
    refine Or.inr (Or.inl ⟨Or.inl hopened, ?_⟩)
    rw [onFailure_of_trips (Or.inl rfl)]
    rfl

theorem execute_of_early (hopened : b.state = .opened)
    (hearly : c.start < b.openedAt + opts.halfOpenAfterMs) :
    execute opts b c = ⟨c, .opened, none, b, b⟩ := by
  have hget : b.getState opts c.start = b := if_neg fun h => absurd h.2 (not_le.mpr hearly)
  unfold execute
  simp only [hget, hopened, if_true]

variable (opts) in
/-- **What a call does** to a breaker that is closed or open. -/
theorem execute_cases (hphase : b.state = .closed ∨ b.state = .opened) (c : Call) :
    (b.state = .opened ∧ c.start < b.openedAt + opts.halfOpenAfterMs ∧
      execute opts b c = ⟨c, .opened, none, b, b⟩) ∨
    ∃ found, Admits opts b c found ∧ Settles opts b c found (execute opts b c) := by
  rcases hphase with hclosed | hopened
  · exact Or.inr ⟨.closed, Or.inl ⟨hclosed, rfl⟩, execute_of_closed hclosed c⟩
  · rcases lt_or_ge c.start (b.openedAt + opts.halfOpenAfterMs) with hearly | hdue
    · exact Or.inl ⟨hopened, hearly, execute_of_early hopened hearly⟩
    · exact Or.inr ⟨.halfOpen, Or.inr ⟨hopened, hdue, rfl⟩, execute_of_due hopened hdue⟩

/-! ### The history after one more call -/

theorem openSince_concat {t : ℕ} : OpenSince t (log ++ [e]) ↔
    (e.opens = true ∧ e.call.fin = t) ∨ (OpenSince t log ∧ ¬ e.admitted = true) :=
  pending_concat

theorem OpenSince.exists_mem {t : ℕ} (h : OpenSince t log) :
    ∃ o ∈ log, o.opens = true ∧ o.call.fin = t := by
  obtain ⟨pre, o, post, rfl, ho, -⟩ := h
  exact ⟨o, by simp, ho⟩

theorem failures_rejected (h : e.admitted = false) : failures (log ++ [e]) = failures log := by
  unfold failures segment
  rw [List.filter_append, List.filter_singleton, h]
  simp

theorem failures_ends (ha : e.admitted = true) (h : e.succeeds = true ∨ e.opens = true) :
    failures (log ++ [e]) = 0 := by
  unfold failures segment
  rw [List.filter_append, List.filter_singleton, ha]
  simp only [cond_true]
  rw [List.rtakeWhile_concat_neg _ _ _ (by rcases h with h | h <;> simp [h])]
  rfl

theorem failures_fails (ha : e.admitted = true) (hs : e.succeeds = false) (ho : e.opens = false)
    (hf : e.fails = true) : failures (log ++ [e]) = failures log + 1 := by
  unfold failures segment
  rw [List.filter_append, List.filter_singleton, ha]
  simp only [cond_true]
  rw [List.rtakeWhile_concat_pos _ _ _ (by simp [hs, ho]), List.countP_append,
    List.countP_singleton, hf]
  rfl

/-! ### Runs -/

/-- What the breaker knows of the history between two calls. -/
structure Tracked (opts : Options) (s : State) : Prop where
  counts : s.breaker.consecutiveFailures = failures s.log
  below : s.breaker.consecutiveFailures < opts.threshold
  phase : s.breaker.state = .closed ∨ s.breaker.state = .opened
  openSince_iff : ∀ t, OpenSince t s.log ↔ s.breaker.state = .opened ∧ s.breaker.openedAt = t
  /-- The time of an opening is over, unless the breaker is still open. -/
  elapsed : ∀ o ∈ s.log, o.opens = true →
    o.call.fin + opts.halfOpenAfterMs ≤ s.clock ∨
      (s.breaker.state = .opened ∧ o.call.fin ≤ s.breaker.openedAt)

/-- A legal call that is admitted comes after the time of every opening. -/
theorem Tracked.elapsed_of_admits (h : Tracked opts s) (hlegal : Legal s c) {found : CircuitState}
    (ha : Admits opts s.breaker c found) :
    ∀ o ∈ s.log, o.opens = true → o.call.fin + opts.halfOpenAfterMs ≤ c.start := by
  intro o ho hopens
  rcases h.elapsed o ho hopens with hover | ⟨hopened, hle⟩
  · exact hover.trans hlegal.1
  · rcases ha with ⟨hclosed, -⟩ | ⟨-, hdue, -⟩
    · rw [hclosed] at hopened
      cases hopened
    · exact (Nat.add_le_add_right hle _).trans hdue

/-- A call that is rejected. -/
theorem Tracked.rejected (h : Tracked opts s) (hlegal : Legal s c)
    (he : execute opts s.breaker c = ⟨c, .opened, none, s.breaker, s.breaker⟩) :
    Tracked opts (step opts s c) := by
  unfold step
  rw [he]
  refine ⟨?_, h.below, h.phase, fun t => ?_, fun o ho hopens => ?_⟩
  · rw [failures_rejected rfl]
    exact h.counts
  · rw [openSince_concat, ← h.openSince_iff]
    simp [Entry.opens, Entry.admitted]
  · rcases List.mem_append.mp ho with ho | ho
    · exact (h.elapsed o ho hopens).imp_left fun hle => hle.trans hlegal.1
    · rw [List.mem_singleton.mp ho] at hopens
      cases hopens

/-- What a call that is admitted leaves, from what it adds to the history. -/
theorem Tracked.admitted (h : Tracked opts s) (hlegal : Legal s c) {found : CircuitState}
    {ok : Bool} {after : Breaker} (ha : Admits opts s.breaker c found)
    (he : execute opts s.breaker c = ⟨c, found, some ok, s.breaker, after⟩)
    (hcounts : after.consecutiveFailures =
      failures (s.log ++ [⟨c, found, some ok, s.breaker, after⟩]))
    (hbelow : after.consecutiveFailures < opts.threshold)
    (hafter : after.state = .closed ∨ (after.state = .opened ∧ after.openedAt = c.fin)) :
    Tracked opts (step opts s c) := by
  unfold step
  rw [he]
  refine ⟨hcounts, hbelow, hafter.imp_right And.left, fun t => ?_, fun o ho hopens => ?_⟩
  · rw [openSince_concat]
    rcases hafter with hclosed | ⟨hopened, hat⟩
    · simp [Entry.opens, Entry.admitted, hclosed]
    · simp [Entry.opens, Entry.admitted, hopened, hat]
  · rcases List.mem_append.mp ho with ho | ho
    · exact Or.inl ((h.elapsed_of_admits hlegal ha o ho hopens).trans hlegal.2)
    · rw [List.mem_singleton.mp ho] at hopens ⊢
      have hopened : after.state = .opened := by simpa [Entry.opens, Entry.admitted] using hopens
      rcases hafter with hclosed | ⟨-, hat⟩
      · rw [hclosed] at hopened
        cases hopened
      · exact Or.inr ⟨hopened, hat.ge⟩

theorem tracked_step (hthreshold : 1 ≤ opts.threshold) (s : State) (c : Call) (h : Tracked opts s)
    (hlegal : Legal s c) : Tracked opts (step opts s c) := by
  rcases execute_cases opts h.phase c with ⟨-, -, he⟩ |
    ⟨found, ha, he | ⟨-, he⟩ | ⟨hclosed, hlt, he⟩⟩
  · exact h.rejected hlegal he
  · exact h.admitted hlegal ha he (failures_ends rfl (Or.inl rfl)).symm hthreshold (Or.inl rfl)
  · exact h.admitted hlegal ha he (failures_ends rfl (Or.inr rfl)).symm hthreshold
      (Or.inr ⟨rfl, rfl⟩)
  · refine h.admitted hlegal ha he ?_ hlt (Or.inl hclosed)
    rw [failures_fails rfl rfl (by simp [Entry.opens, hclosed]) rfl, h.counts]

/-! ### What the history asks for -/

theorem Tracked.openSince (h : Tracked opts s) :
    (∃ t, OpenSince t s.log) ↔ s.breaker.state = .opened :=
  ⟨fun ⟨t, ht⟩ => ((h.openSince_iff t).mp ht).1, fun ho => ⟨_, (h.openSince_iff _).mpr ⟨ho, rfl⟩⟩⟩

/-- While the calls after an opening come too early for a probe, the breaker stays open. -/
theorem openSince_of_early {pre' mid : List Entry} {o : Entry}
    (hhist : Each (FollowsHistory opts) log) (hsplit : log = pre' ++ o :: mid)
    (ho : o.opens = true)
    (hearly : ∀ x ∈ mid, x.call.start < o.call.fin + opts.halfOpenAfterMs) :
    OpenSince o.call.fin log := by
  refine ⟨pre', o, mid, hsplit, ⟨ho, rfl⟩, fun x hx (hadm : x.admitted = true) => ?_⟩
  obtain ⟨mid', mid'', rfl⟩ := List.append_of_mem hx
  have hfollows := hhist (pre' ++ o :: mid') x mid'' (by simp [hsplit])
  have hrejected := hfollows.rejected_iff.mpr ⟨o, by simp, ho, hearly x hx⟩
  rw [hrejected] at hadm
  cases hadm

theorem followsHistory_rejected (h : Tracked opts s) (hhist : Each (FollowsHistory opts) s.log)
    (hopened : s.breaker.state = .opened)
    (hearly : c.start < s.breaker.openedAt + opts.halfOpenAfterMs) :
    FollowsHistory opts s.log ⟨c, .opened, none, s.breaker, s.breaker⟩ where
  opens_iff := by simp [Entry.opens, Entry.admitted, Entry.fails]
  rejected_iff := by
    refine iff_of_true rfl ?_
    obtain ⟨o, ho, hopens, hat⟩ := ((h.openSince_iff _).mpr ⟨hopened, rfl⟩).exists_mem
    exact ⟨o, ho, hopens, by rwa [hat]⟩
  probe pre' o mid hsplit ho hmid hdue := by
    have hat := ((h.openSince_iff _).mp (openSince_of_early hhist hsplit ho hmid)).2
    rw [hat] at hearly
    exact absurd hdue (not_le.mpr hearly)
  closes_iff := by simp [Entry.closes, Entry.succeeds]
  closed := nofun

theorem followsHistory_admitted (h : Tracked opts s) (hhist : Each (FollowsHistory opts) s.log)
    (hlegal : Legal s c) {found : CircuitState} {ok : Bool} {after : Breaker}
    (ha : Admits opts s.breaker c found) (hok : ok = true → after.state = .closed)
    (hfail : ok = false → (after.state = .opened ↔
      s.breaker.consecutiveFailures + 1 = opts.threshold ∨ s.breaker.state = .opened) ∧
        (after.state = .closed → s.breaker.state = .closed)) :
    FollowsHistory opts s.log ⟨c, found, some ok, s.breaker, after⟩ where
  opens_iff := by
    rw [← h.counts, h.openSince]
    cases ok with
    | true => simp [Entry.opens, Entry.admitted, Entry.fails, hok rfl]
    | false => simpa [Entry.opens, Entry.admitted, Entry.fails] using (hfail rfl).1
  rejected_iff := by
    refine iff_of_false nofun ?_
    rintro ⟨o, ho, hopens, hearly⟩
    exact absurd (h.elapsed_of_admits hlegal ha o ho hopens) (not_le.mpr hearly)
  probe pre' o mid hsplit ho hmid _ := by
    have hopened := ((h.openSince_iff _).mp (openSince_of_early hhist hsplit ho hmid)).1
    rcases ha with ⟨hclosed, -⟩ | ⟨-, -, rfl⟩
    · rw [hclosed] at hopened
      cases hopened
    · exact ⟨rfl, rfl⟩
  closes_iff := by
    cases ok with
    | true => simp [Entry.closes, Entry.succeeds, hok rfl]
    | false =>
      have := (hfail rfl).2
      simp only [Entry.closes, Entry.succeeds]
      grind
  closed hs := hok (by simpa [Entry.succeeds] using hs)

/-- **What a call does** is what the history before it asks for. -/
theorem followsHistory (h : Tracked opts s) (hhist : Each (FollowsHistory opts) s.log)
    (hlegal : Legal s c) : FollowsHistory opts s.log (execute opts s.breaker c) := by
  rcases execute_cases opts h.phase c with ⟨hopened, hearly, he⟩ |
    ⟨found, ha, he | ⟨htrips, he⟩ | ⟨hclosed, hlt, he⟩⟩ <;> rw [he]
  · exact followsHistory_rejected h hhist hopened hearly
  · exact followsHistory_admitted h hhist hlegal ha (fun _ => rfl) nofun
  · refine followsHistory_admitted h hhist hlegal ha nofun fun _ => ⟨iff_of_true rfl ?_, nofun⟩
    have hbelow := h.below
    exact htrips.symm.imp_left fun hle => by omega
  · refine followsHistory_admitted h hhist hlegal ha nofun fun _ => ⟨?_, fun _ => hclosed⟩
    refine iff_of_false (by simp [hclosed]) ?_
    rintro (heq | hopened)
    · omega
    · rw [hclosed] at hopened
      cases hopened

/-- **One call after the other** the breaker does what the history asks for. -/
theorem sequential (hthreshold : 1 ≤ opts.threshold) (l : List Call)
    (hl : AllSteps (step opts) Legal {} l) : AllStates (step opts) (Sequential opts) {} l := by
  have hfirst : Tracked opts {} ∧ Each (FollowsHistory opts) (State.log {}) := by
    refine ⟨⟨rfl, hthreshold, Or.inl rfl, fun t => ?_, nofun⟩, each_nil _⟩
    exact iff_of_false not_pending_nil nofun
  have hstep : ∀ (s : State) (c : Call), Tracked opts s ∧ Each (FollowsHistory opts) s.log →
      Legal s c → Tracked opts (step opts s c) ∧ Each (FollowsHistory opts) (step opts s c).log :=
    fun s c h hlegal => ⟨tracked_step hthreshold s c h.1 hlegal,
      each_concat.mpr ⟨h.2, followsHistory h.1 h.2 hlegal⟩⟩
  exact (allStates_of_inv hstep hfirst hl).imp fun s h => ⟨h.2, h.1.counts, h.1.below⟩

/-- A breaker of threshold 2 that opens, rejects a call, and closes by its probe. -/
theorem sequential_sample : Sequential { threshold := 2 } (run (step { threshold := 2 }) {}
    [⟨0, 1, false⟩, ⟨2, 3, false⟩, ⟨10, 10, true⟩, ⟨30003, 30004, true⟩]) :=
  (sequential (by decide) _ (by decide)).last

/-! ### Among the calls that overlap -/

/-- The steps that a call consists of: `execute` is called, and if the function is invoked, it
settles. -/
def actionsOf (opts : Options) (b : Breaker) (i : ℕ) (c : Call) : List CircuitBreaker.Action :=
  if (execute opts b c).admitted then [.execute c.start, .settle i c.ok c.fin]
  else [.execute c.start]

/-- The steps of calls that do not overlap. -/
def actions (opts : Options) : Breaker → ℕ → List Call → List CircuitBreaker.Action
  | _, _, [] => []
  | b, i, c :: rest => actionsOf opts b i c ++ actions opts (execute opts b c).after (i + 1) rest

/-- The breaker between two calls that do not overlap. -/
structure Idle (w : CircuitBreaker.World) (s : State) : Prop where
  breaker : w.breaker = s.breaker
  inFlight : w.inFlight = []
  clock : w.clock = s.clock

/-- A step that calls `execute`, seen from the sequential breaker. -/
theorem Idle.rejects_iff {w : CircuitBreaker.World} (h : Idle w s) (c : Call) :
    CircuitBreaker.Rejects opts w c.start ↔ (s.breaker.getState opts c.start).state = .opened := by
  unfold CircuitBreaker.Rejects
  rw [h.breaker]

variable (opts) in
theorem Idle.inFlight_execute {w : CircuitBreaker.World} (h : Idle w s) (c : Call) :
    (CircuitBreaker.step opts w (.execute c.start)).inFlight =
      if (s.breaker.getState opts c.start).state = .opened then [] else [w.calls] := by
  show (if CircuitBreaker.Rejects opts w c.start then w.inFlight else w.calls :: w.inFlight) = _
  simp only [h.rejects_iff, h.inFlight]

/-- The steps of a call lead from one idle breaker to the next. -/
theorem idle_step {w : CircuitBreaker.World} (h : Idle w s) (hlegal : Legal s c) :
    AllSteps (CircuitBreaker.step opts) CircuitBreaker.Legal w
        (actionsOf opts s.breaker w.calls c) ∧
      Idle (run (CircuitBreaker.step opts) w (actionsOf opts s.breaker w.calls c))
        (step opts s c) ∧
      (run (CircuitBreaker.step opts) w (actionsOf opts s.breaker w.calls c)).calls =
        w.calls + 1 := by
  have hclock : w.clock ≤ c.start := h.clock.trans_le hlegal.1
  have hbreaker : (CircuitBreaker.step opts w (.execute c.start)).breaker =
      s.breaker.getState opts c.start := by
    rw [← h.breaker]
    rfl
  have hflight := h.inFlight_execute opts c
  by_cases hr : (s.breaker.getState opts c.start).state = .opened
  · have he : execute opts s.breaker c = ⟨c, (s.breaker.getState opts c.start).state, none,
        s.breaker, s.breaker.getState opts c.start⟩ := by
      unfold execute
      simp only [if_pos hr]
    have hactions : actionsOf opts s.breaker w.calls c = [.execute c.start] := by
      rw [actionsOf, he]
      rfl
    rw [if_pos hr] at hflight
    rw [hactions, step, he]
    exact ⟨⟨hclock, trivial⟩, ⟨hbreaker, hflight, rfl⟩, rfl⟩
  · have he := execute_of_admitted opts hr
    have hactions : actionsOf opts s.breaker w.calls c =
        [.execute c.start, .settle w.calls c.ok c.fin] := by
      rw [actionsOf, he]
      rfl
    rw [if_neg hr] at hflight
    rw [hactions, step, he]
    refine ⟨⟨hclock, ⟨hlegal.2, ?_⟩, trivial⟩, ⟨?_, ?_, rfl⟩, rfl⟩
    · rw [hflight]
      exact List.mem_singleton.mpr rfl
    · show (if c.ok then Breaker.onSuccess _ else Breaker.onFailure opts _ c.fin) = _
      rw [hbreaker]
      rfl
    · show (CircuitBreaker.step opts w (.execute c.start)).inFlight.erase w.calls = []
      rw [hflight, List.erase_cons_head]

/-- **Calls that do not overlap** are runs of calls that may: legal ones, which take the breaker
through the same states. -/
theorem run_actions {w : CircuitBreaker.World} :
    ∀ {s : State} (l : List Call), Idle w s → AllSteps (step opts) Legal s l →
      AllSteps (CircuitBreaker.step opts) CircuitBreaker.Legal w
          (actions opts s.breaker w.calls l) ∧
        Idle (run (CircuitBreaker.step opts) w (actions opts s.breaker w.calls l))
          (run (step opts) s l)
  | _, [], h, _ => ⟨trivial, h⟩
  | s, c :: l, h, hl => by
    obtain ⟨hfirst, hidle, hcalls⟩ := idle_step h hl.1
    obtain ⟨hrest, hend⟩ := run_actions l hidle hl.2
    rw [hcalls] at hrest hend
    exact ⟨allSteps_append.mpr ⟨hfirst, hrest⟩, by rw [actions, run_append]; exact hend⟩

end

end VestingDripStream.Backend.CircuitHistory
