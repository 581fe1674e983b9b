import VestingDripStream.Lib.History
import VestingDripStream.Lib.SlidingWindow
import VestingDripStream.Lib.Run

/-! # The request counter

`isAllowed` counts the requests of a client in Redis. It sends `INCR`; the request that starts a
counter sends `EXPIRE`; all of them read `TTL`. The commands are atomic, those of several requests
interleave, and a process can crash between `INCR` and `EXPIRE`.

A counter covers a window of its own, from its start on. The requests that it allows and those that
the counter before it allowed can lie in one window (`burst_and_lockout`): a window anywhere on the
line stays bounded exactly if the counters leave room for each other. A counter whose `EXPIRE` was
not sent never ends, and a client that has used it up is locked out. -/

namespace VestingDripStream.Backend.RateLimit

open VestingDripStream.Lib.Run VestingDripStream.Lib.History VestingDripStream.Lib.SlidingWindow

/-! ### The commands -/

/-- The key in Redis: the counter, and when it disappears, once `EXPIRE` was sent. Times are in
milliseconds. -/
structure Key where
  count : ℕ
  expiresAt : Option ℤ
  deriving DecidableEq

/-- The key is there at the time `now`; without an expiry it stays for ever. -/
def Key.live (now : ℤ) (k : Key) : Bool := k.expiresAt.all fun t => decide (now < t)

/-- The counter in place at the time `now`, zero if there is none. -/
def countAt (now : ℤ) (key : Option Key) : ℕ :=
  ((key.filter (Key.live now)).map (·.count)).getD 0

/-- `INCR`. -/
def incr (now : ℤ) (key : Option Key) : Key :=
  match key.filter (Key.live now) with
  | some k => { k with count := k.count + 1 }
  | none => ⟨1, none⟩

/-- `EXPIRE`. -/
def expire (now windowSec : ℤ) (key : Option Key) : Option Key :=
  (key.filter (Key.live now)).map ({ · with expiresAt := some (now + 1000 * windowSec) })

/-- What `isAllowed` returns. -/
structure Reply where
  allowed : Bool
  remaining : ℤ
  resetAfter : ℤ
  deriving DecidableEq

/-- `isAllowed`, after `INCR` has returned `count` and `TTL` has returned `ttl`. -/
def isAllowed (max windowSec : ℤ) (count : ℕ) (ttl : ℤ) : Reply where
  allowed := decide (count ≤ max)
  remaining := Max.max 0 (max - count)
  resetAfter := if 0 < ttl then ttl else windowSec

/-! ### Runs -/

/-- A request: when its `INCR` was executed, and the reply, unless its process crashed. -/
structure Request where
  time : ℤ
  reply : Option Reply
  deriving DecidableEq

/-- The process did not crash before the answer. -/
def Request.answered (r : Request) : Bool := r.reply.isSome

/-- The request was let through. -/
def Request.allowed (r : Request) : Bool := r.reply.any (·.allowed)

/-- The key, whether the request that started the counter is about to send `EXPIRE`, the time of the
last command, and the requests so far: those that were counted by earlier counters, and those that
were counted by the last one. -/
structure State where
  key : Option Key := none
  expiring : Bool := false
  clock : ℤ
  earlier : List Request := []
  current : List Request := []

/-- All requests, in the order of their `INCR`. -/
def State.log (s : State) : List Request := s.earlier ++ s.current

/-- The requests of the earlier counters and those of the one in place at the time `now`. -/
def State.counters (s : State) (now : ℤ) : List Request × List Request :=
  if (s.key.filter (Key.live now)).isSome then (s.earlier, s.current) else (s.log, [])

/-- A command that reaches Redis. -/
inductive Action
  /-- A request sends `INCR`. It will read `ttl`; its process crashes before that, and before it
  sends `EXPIRE`, if there is none. -/
  | incr (now : ℤ) (ttl : Option ℤ)
  /-- The request that started the counter sends `EXPIRE`. -/
  | expire (now : ℤ)

section

variable (max windowSec : ℤ)

/-- One command. `INCR` keeps the expiry of a counter that is in place. -/
def step (s : State) : Action → State
  | .incr now ttl =>
    let key := incr now s.key
    { key := some key
      expiring := if key.count = 1 then ttl.isSome else s.expiring
      clock := now
      earlier := (s.counters now).1
      current := (s.counters now).2 ++ [⟨now, ttl.map (isAllowed max windowSec key.count)⟩] }
  | .expire now =>
    { s with key := expire now windowSec s.key, expiring := false, clock := now }

/-- Time does not run backwards, and `EXPIRE` is sent by the request that started the counter. -/
def Legal (s : State) : Action → Prop
  | .incr now _ => s.clock ≤ now
  | .expire now => s.clock ≤ now ∧ s.expiring = true

instance (s : State) (a : Action) : Decidable (Legal s a) := by
  cases a <;> unfold Legal <;> infer_instance

/-- A client that made no request for `windowSec` seconds is allowed its next one. -/
def IdleAllowed (pre : List Request) (r : Request) : Prop :=
  (∀ x ∈ pre, x.time + 1000 * windowSec ≤ r.time) → r.answered = true → r.allowed = true

/-- Every interval of `windowSec` seconds contains at most `max` requests that were allowed, and a
client that made no request for that long is allowed its next one. -/
structure SlidingWindow (log : List Request) : Prop where
  bounded : Bounded Request.time Request.allowed (1000 * windowSec) max log
  idle : Each (IdleAllowed windowSec) log

/-- The requests of the last `windowSec` seconds that earlier counters allowed. -/
def carried (s : State) (now : ℤ) : ℕ :=
  recent Request.time Request.allowed (1000 * windowSec) now (s.counters now).1

/-- The requests of the last `windowSec` seconds that the counter in place counted, those of
processes that crashed apart. -/
def counted (s : State) (now : ℤ) : ℕ :=
  recent Request.time Request.answered (1000 * windowSec) now (s.counters now).2

/-- A counter that is not used up leaves room for what earlier counters allowed, and the counter in
place is not used up when an idle client returns. -/
def Fits (s : State) : Action → Prop
  | .incr now ttl => ttl.isSome = true →
      (countAt now s.key < max → carried windowSec s now = 0 ∨
        carried windowSec s now + counted windowSec s now < max) ∧
      ((∀ r ∈ s.log, r.time + 1000 * windowSec ≤ now) → 1 ≤ max ∧
        ∀ k, s.key = some k → k.live now = true → k.count < max)
  | .expire _ => True

end

section Proofs

variable {max windowSec now : ℤ} {s : State} {key : Option Key} {k : Key}

/-! ### The counter -/

theorem incr_count : (incr now key).count = countAt now key + 1 := by
  unfold incr countAt
  cases key.filter (Key.live now) <;> rfl

theorem filter_eq_some (hkey : key = some k) (hlive : k.live now = true) :
    key.filter (Key.live now) = some k := by
  rw [hkey, Option.filter_some, if_pos hlive]

theorem countAt_of_live (hkey : key = some k) (hlive : k.live now = true) :
    countAt now key = k.count := by
  rw [countAt, filter_eq_some hkey hlive]
  rfl

/-- There is a counter in place, or none. -/
theorem live_or_gone (now : ℤ) (key : Option Key) :
    (∃ k, key = some k ∧ k.live now = true) ∨ key.filter (Key.live now) = none := by
  cases hfilter : key.filter (Key.live now) with
  | none => exact Or.inr rfl
  | some k =>
    obtain ⟨hkey, hlive⟩ := Option.filter_eq_some_iff.mp hfilter
    exact Or.inl ⟨k, hkey, hlive⟩

theorem counters_of_live (hkey : s.key = some k) (hlive : k.live now = true) :
    s.counters now = (s.earlier, s.current) := by
  rw [State.counters, filter_eq_some hkey hlive]
  rfl

theorem counters_of_gone (h : s.key.filter (Key.live now) = none) :
    s.counters now = (s.log, []) := by
  rw [State.counters, h]
  rfl

theorem counters_append (s : State) (now : ℤ) :
    (s.counters now).1 ++ (s.counters now).2 = s.log := by
  unfold State.counters
  split_ifs
  · rfl
  · exact List.append_nil _

/-- The log after a request. -/
theorem log_incr (ttl : Option ℤ) : (step max windowSec s (.incr now ttl)).log =
    s.log ++ [⟨now, ttl.map (isAllowed max windowSec (countAt now s.key + 1))⟩] := by
  show (s.counters now).1 ++ ((s.counters now).2 ++ [_]) = _
  rw [← List.append_assoc, counters_append, incr_count]

theorem allowed_iff (ttl : Option ℤ) (count : ℕ) :
    Request.allowed ⟨now, ttl.map (isAllowed max windowSec (count + 1))⟩ = true ↔
      ttl.isSome = true ∧ count < max := by
  cases ttl with
  | none => simp [Request.allowed]
  | some t =>
    show decide (((count + 1 : ℕ) : ℤ) ≤ max) = true ↔ _
    simp only [decide_eq_true_eq, Option.isSome_some, true_and]
    omega

/-! ### What the counter stands for -/

/-- The counter is the number of its requests, and until it is used up they are allowed. -/
structure Counted (max : ℤ) (s : State) : Prop where
  length : ∀ k, s.key = some k → k.count = s.current.length
  allowed : ∀ k, s.key = some k → k.count ≤ max →
    ∀ r ∈ s.current, r.answered = true → r.allowed = true
  past : ∀ r ∈ s.log, r.time ≤ s.clock

theorem counters_length (h : Counted max s) (now : ℤ) :
    (s.counters now).2.length = countAt now s.key := by
  rcases live_or_gone now s.key with ⟨k, hkey, hlive⟩ | hgone
  · rw [counters_of_live hkey hlive, countAt_of_live hkey hlive, h.length k hkey]
  · rw [counters_of_gone hgone, countAt, hgone]
    rfl

theorem counters_allowed (h : Counted max s) (hle : countAt now s.key ≤ max) :
    ∀ r ∈ (s.counters now).2, r.answered = true → r.allowed = true := by
  rcases live_or_gone now s.key with ⟨k, hkey, hlive⟩ | hgone
  · rw [counters_of_live hkey hlive]
    rw [countAt_of_live hkey hlive] at hle
    exact h.allowed k hkey hle
  · rw [counters_of_gone hgone]
    simp

theorem counted_step (s : State) (a : Action) (h : Counted max s) (hlegal : Legal s a) :
    Counted max (step max windowSec s a) := by
  cases a with
  | incr now ttl =>
    have hclock : s.clock ≤ now := hlegal
    refine ⟨fun k hk => ?_, fun k hk hle r hr => ?_, fun r hr => ?_⟩
    · rw [← Option.some.inj hk, incr_count, ← counters_length h now]
      show (s.counters now).2.length + 1 = ((s.counters now).2 ++ [_]).length
      rw [List.length_append, List.length_singleton]
    · rw [← Option.some.inj hk, incr_count] at hle
      push_cast at hle
      rcases List.mem_append.mp hr with hr | hr
      · exact counters_allowed h (by omega) r hr
      · rw [List.mem_singleton.mp hr, incr_count, allowed_iff]
        intro hanswered
        refine ⟨?_, by omega⟩
        rwa [Request.answered, Option.isSome_map] at hanswered
    · rw [log_incr] at hr
      rcases List.mem_append.mp hr with hr | hr
      · exact (h.past r hr).trans hclock
      · rw [List.mem_singleton.mp hr]
        exact le_rfl
  | expire now =>
    refine ⟨fun k hk => ?_, fun k hk hle => ?_, fun r hr => (h.past r hr).trans hlegal.1⟩
    all_goals
      obtain ⟨k', hfilter, rfl⟩ := Option.map_eq_some_iff.mp hk
      obtain ⟨hkey, -⟩ := Option.filter_eq_some_iff.mp hfilter
    · exact h.length k' hkey
    · exact h.allowed k' hkey hle

/-! ### The window -/

/-- Until the counter is used up, the requests it counted are those it allowed. -/
theorem recent_log (h : Counted max s) (hlt : countAt now s.key < max) :
    recent Request.time Request.allowed (1000 * windowSec) now s.log =
      carried windowSec s now + counted windowSec s now := by
  rw [← counters_append s now, recent_append]
  refine congrArg (carried windowSec s now + ·) (List.countP_congr fun r hr => ?_)
  have hanswered : r.allowed = true → r.answered = true := by
    unfold Request.allowed Request.answered
    cases r.reply <;> simp
  have hallowed := counters_allowed h hlt.le r hr
  simp only [decide_eq_true_eq]
  exact ⟨fun ⟨ha, ht⟩ => ⟨hanswered ha, ht⟩, fun ⟨ha, ht⟩ => ⟨hallowed ha, ht⟩⟩

theorem counted_le (h : Counted max s) : counted windowSec s now ≤ countAt now s.key := by
  rw [← counters_length h now]
  exact List.countP_le_length

/-- A request leaves the windows bounded exactly if there is room for it. -/
theorem bounded_incr_iff (h : Counted max s) (hclock : s.clock ≤ now) (ttl : Option ℤ) :
    Bounded Request.time Request.allowed (1000 * windowSec) max
        (step max windowSec s (.incr now ttl)).log ↔
      Bounded Request.time Request.allowed (1000 * windowSec) max s.log ∧
        (ttl.isSome = true → countAt now s.key < max → carried windowSec s now = 0 ∨
          carried windowSec s now + counted windowSec s now < max) := by
  rw [log_incr, bounded_concat (fun x hx => (h.past x hx).trans hclock)
    (fun ha => by have := ((allowed_iff _ _).mp ha).2; omega), allowed_iff]
  refine and_congr_right fun _ => ⟨fun hroom hans hlt => Or.inr ?_, fun hroom ⟨hans, hlt⟩ => ?_⟩
  · have hrecent := hroom ⟨hans, hlt⟩
    rw [recent_log h hlt] at hrecent
    exact_mod_cast hrecent
  · have hle : counted windowSec s now ≤ countAt now s.key := counted_le h
    rw [recent_log h hlt]
    push_cast
    rcases hroom hans hlt with hzero | hlt'
    · omega
    · exact hlt'

/-- What is allowed to an idle client depends on the counter in place. -/
theorem countAt_lt_iff : countAt now s.key < max ↔
    1 ≤ max ∧ ∀ k, s.key = some k → k.live now = true → k.count < max := by
  rcases live_or_gone now s.key with ⟨k, hkey, hlive⟩ | hgone
  · rw [countAt_of_live hkey hlive]
    constructor
    · refine fun hlt => ⟨by omega, fun k' hkey' _ => ?_⟩
      rw [hkey] at hkey'
      cases hkey'
      exact hlt
    · exact fun h => h.2 k hkey hlive
  · have hzero : countAt now s.key = 0 := by
      rw [countAt, hgone]
      rfl
    rw [hzero]
    constructor
    · refine fun hlt => ⟨by exact_mod_cast hlt, fun k hkey hlive => ?_⟩
      rw [filter_eq_some hkey hlive] at hgone
      cases hgone
    · exact fun h => by exact_mod_cast h.1

theorem idle_incr_iff (ttl : Option ℤ) :
    Each (IdleAllowed windowSec) (step max windowSec s (.incr now ttl)).log ↔
      Each (IdleAllowed windowSec) s.log ∧ (ttl.isSome = true →
        (∀ r ∈ s.log, r.time + 1000 * windowSec ≤ now) → 1 ≤ max ∧
          ∀ k, s.key = some k → k.live now = true → k.count < max) := by
  rw [log_incr, each_concat]
  refine and_congr_right fun _ => ?_
  unfold IdleAllowed
  rw [allowed_iff, Request.answered, Option.isSome_map, countAt_lt_iff]
  constructor
  · exact fun h hans hidle => (h hidle hans).2
  · exact fun h hidle hans => ⟨hans, h hans hidle⟩

/-- **One command.** -/
theorem slidingWindow_step (s : State) (a : Action) (h : Counted max s) (hlegal : Legal s a) :
    SlidingWindow max windowSec (step max windowSec s a).log ↔
      SlidingWindow max windowSec s.log ∧ Fits max windowSec s a := by
  cases a with
  | expire now => exact ⟨fun h => ⟨h, trivial⟩, And.left⟩
  | incr now ttl =>
    have hclock : s.clock ≤ now := hlegal
    constructor
    · rintro ⟨hbounded, hidle⟩
      obtain ⟨hbefore, hroom⟩ := (bounded_incr_iff h hclock ttl).mp hbounded
      obtain ⟨hbefore', hunused⟩ := (idle_incr_iff ttl).mp hidle
      exact ⟨⟨hbefore, hbefore'⟩, fun hans => ⟨hroom hans, hunused hans⟩⟩
    · rintro ⟨⟨hbefore, hbefore'⟩, hfits⟩
      exact ⟨(bounded_incr_iff h hclock ttl).mpr ⟨hbefore, fun hans => (hfits hans).1⟩,
        (idle_incr_iff ttl).mpr ⟨hbefore', fun hans => (hfits hans).2⟩⟩

/-- **The sliding window** is kept in a run exactly if in all its steps the counters leave room for
each other, and for clients that were idle. -/
theorem slidingWindow_iff {start : ℤ} (l : List Action)
    (hl : AllSteps (step max windowSec) Legal { clock := start } l) :
    SlidingWindow max windowSec (run (step max windowSec) { clock := start } l).log ↔
      0 ≤ max ∧ AllSteps (step max windowSec) (Fits max windowSec) { clock := start } l := by
  have hcounted : Counted max { clock := start } := ⟨nofun, nofun, nofun⟩
  have hfirst : SlidingWindow max windowSec (State.log { clock := start }) ↔ 0 ≤ max :=
    ⟨fun h => bounded_nil.mp h.bounded, fun h => ⟨bounded_nil.mpr h, each_nil _⟩⟩
  rw [run_iff_allSteps (Q := fun s => SlidingWindow max windowSec s.log) counted_step
    slidingWindow_step hcounted hl, hfirst]

end Proofs

/-- A client that sends its requests at the start of its windows. -/
theorem slidingWindow_iff_sample : SlidingWindow 2 60 (run (step 2 60) { clock := 0 }
    [.incr 0 (some 60), .expire 0, .incr 1000 (some 59), .incr 61000 (some 60)]).log :=
  (slidingWindow_iff _ (by decide)).mpr ⟨by decide, by
    refine ⟨?_, trivial, ?_, ?_, trivial⟩ <;> unfold Fits <;> decide⟩

/-- Two requests for each minute. A client that sends one early in the first minute, one at its end
and two at the start of the next is allowed three within two seconds; and a client whose first
process crashes is denied its third request, two minutes after the second. -/
theorem burst_and_lockout :
    (AllSteps (step 2 60) Legal { clock := 0 } [.incr 0 (some 60), .expire 0, .incr 59000 (some 1),
        .incr 60000 (some 60), .expire 60000, .incr 61000 (some 59)] ∧
      ¬ Bounded Request.time Request.allowed (1000 * 60) 2 (run (step 2 60) { clock := 0 }
        [.incr 0 (some 60), .expire 0, .incr 59000 (some 1), .incr 60000 (some 60), .expire 60000,
          .incr 61000 (some 59)]).log) ∧
    AllSteps (step 2 60) Legal { clock := 0 }
        [.incr 0 none, .incr 120000 (some (-1)), .incr 240000 (some (-1))] ∧
      ¬ Each (IdleAllowed 60) (run (step 2 60) { clock := 0 }
        [.incr 0 none, .incr 120000 (some (-1)), .incr 240000 (some (-1))]).log := by
  refine ⟨⟨by decide, fun h => ?_⟩, by decide, fun h => ?_⟩
  · exact absurd (h 59000) (by decide)
  · have hthird := h [⟨0, none⟩, ⟨120000, some ⟨true, 0, 60⟩⟩] ⟨240000, some ⟨false, 0, 60⟩⟩ []
      (by decide)
    exact absurd (hthird (by decide) rfl) (by decide)

end VestingDripStream.Backend.RateLimit
