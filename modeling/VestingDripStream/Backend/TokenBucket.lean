import VestingDripStream.Lib.Refill
import VestingDripStream.Lib.Run
import Mathlib.Algebra.Order.Floor.Ring
import Mathlib.Data.Rat.Floor

/-! # The token bucket

The script that `rateLimitMiddleware` runs in Redis for a request, over exact rationals. It takes
the time of the request from the replica that sends it.

* Under one clock (`oneClock`): the tokens stay between zero and the capacity, an interval of time
  admits the capacity and what is refilled in it, and `retry_ms` is the time to wait. The expiry of
  the key changes nothing: after two windows the bucket is full anyway.
* Under several clocks (`manyClocks`): elapsed time that is negative counts as zero, but the earlier
  time is stored as that of the last update all the same. So the bucket refills for every step
  forward, over time that was counted before as well; the clocks mint no tokens as long as the steps
  forward sum up to no more than the spread of the times. The executions follow each other while
  the key is there: `PEXPIRE` runs on the clock of Redis, and a key that was not used for two
  windows of this clock is gone, whatever the replicas' clocks say. -/

namespace VestingDripStream.Backend.TokenBucket

open VestingDripStream.Lib.Refill VestingDripStream.Lib.Run

/-! ### The script -/

/-- The hash under the key, with the expiry that `PEXPIRE` sets. -/
structure Bucket where
  tokens : ℚ
  updatedAt : ℚ
  expiresAt : ℚ
  deriving DecidableEq

/-- What the script returns. -/
structure Reply where
  allowed : Bool
  remaining : ℤ
  retryMs : ℤ
  deriving DecidableEq

/-- `TOKEN_BUCKET_SCRIPT`: the hash it leaves and what it returns. -/
def tokenBucketScript (capacity windowMs nowMs : ℚ) (key : Option Bucket) : Bucket × Reply :=
  let refillRate := capacity / windowMs
  let tokens := (key.map (·.tokens)).getD capacity
  let lastMs := (key.map (·.updatedAt)).getD nowMs
  let tokens := min capacity (tokens + max 0 (nowMs - lastMs) * refillRate)
  if 1 ≤ tokens then
    (⟨tokens - 1, nowMs, nowMs + windowMs * 2⟩, ⟨true, ⌊tokens - 1⌋, 0⟩)
  else
    (⟨tokens, nowMs, nowMs + windowMs * 2⟩, ⟨false, ⌊tokens⌋, ⌈(1 - tokens) / refillRate⌉⟩)

/-- The tokens that the script finds at the time `now`. -/
def available (capacity windowMs now : ℚ) : Option Bucket → ℚ
  | some b => refill capacity (capacity / windowMs) b.tokens (max 0 (now - b.updatedAt))
  | none => capacity

section Script

variable {capacity windowMs now : ℚ} {key : Option Bucket}

/-- **The script** draws a token from what is available. -/
theorem script_eq : tokenBucketScript capacity windowMs now key =
    (⟨draw (available capacity windowMs now key), now, now + windowMs * 2⟩,
      if 1 ≤ available capacity windowMs now key then
        ⟨true, ⌊available capacity windowMs now key - 1⌋, 0⟩
      else ⟨false, ⌊available capacity windowMs now key⌋,
        ⌈(1 - available capacity windowMs now key) / (capacity / windowMs)⌉⟩) := by
  have hfound : min capacity ((key.map (·.tokens)).getD capacity +
      max 0 (now - (key.map (·.updatedAt)).getD now) * (capacity / windowMs)) =
        available capacity windowMs now key := by
    cases key with
    | some b => rfl
    | none => simp [available]
  unfold tokenBucketScript draw
  simp only [hfound]
  split_ifs <;> rfl

theorem script_bucket : (tokenBucketScript capacity windowMs now key).1 =
    ⟨draw (available capacity windowMs now key), now, now + windowMs * 2⟩ := by
  rw [script_eq]

theorem script_allowed : (tokenBucketScript capacity windowMs now key).2.allowed =
    decide (1 ≤ available capacity windowMs now key) := by
  rw [script_eq]
  simp only
  split_ifs with h <;> simp [h]

theorem script_retryMs (h : ¬ 1 ≤ available capacity windowMs now key) :
    (tokenBucketScript capacity windowMs now key).2.retryMs =
      ⌈(1 - available capacity windowMs now key) / (capacity / windowMs)⌉ := by
  rw [script_eq, if_neg h]

theorem available_of_le {b : Bucket} (h : b.updatedAt ≤ now) :
    available capacity windowMs now (some b) =
      refill capacity (capacity / windowMs) b.tokens (now - b.updatedAt) := by
  show refill _ _ _ (max 0 (now - b.updatedAt)) = _
  rw [max_eq_right (sub_nonneg.mpr h)]

theorem available_after {x d : ℚ} (expiresAt : ℚ) (hd : 0 ≤ d) :
    available capacity windowMs (now + d) (some ⟨x, now, expiresAt⟩) =
      refill capacity (capacity / windowMs) x d := by
  show refill _ _ x (max 0 (now + d - now)) = _
  rw [add_sub_cancel_left, max_eq_right hd]

theorem available_stored {x : ℚ} (expiresAt : ℚ) (h : x ≤ capacity) :
    available capacity windowMs now (some ⟨x, now, expiresAt⟩) = x := by
  show refill _ _ x (max 0 (now - now)) = x
  rw [sub_self, max_self]
  exact refill_zero h

theorem available_le_capacity : available capacity windowMs now key ≤ capacity := by
  cases key with
  | some b => exact refill_le_cap
  | none => exact le_rfl

end Script

/-! ### Under one clock -/

/-- The key, the time of the last request or expiry, and the requests so far: when each was made,
and whether it was allowed. -/
structure State where
  key : Option Bucket := none
  clock : ℚ
  log : List (ℚ × Bool) := []

/-- What happens to the key. -/
inductive Action
  /-- A request at the time `now`. -/
  | execute (now : ℚ)
  /-- Redis removes the key at the time `now`. -/
  | expire (now : ℚ)

section OneClock

variable (capacity windowMs : ℚ)

/-- One execution of the script, or the end of the key. -/
def step (s : State) : Action → State
  | .execute now =>
    let result := tokenBucketScript capacity windowMs now s.key
    { key := some result.1, clock := now, log := s.log ++ [(now, result.2.allowed)] }
  | .expire now => { s with key := none, clock := now }

/-- Time does not run backwards, and a key is removed when its time is over. -/
def Legal (s : State) : Action → Prop
  | .execute now => s.clock ≤ now
  | .expire now => s.clock ≤ now ∧ ∀ b, s.key = some b → b.expiresAt ≤ now

/-- What is stored is sound. -/
structure BucketSound (clock : ℚ) (b : Bucket) : Prop where
  nonneg : 0 ≤ b.tokens
  le_capacity : b.tokens ≤ capacity
  updated_le : b.updatedAt ≤ clock
  expires : b.expiresAt = b.updatedAt + windowMs * 2

/-- What is stored is sound, and all requests were made before now. -/
structure Sound (s : State) : Prop where
  bucket : ∀ b, s.key = some b → BucketSound capacity windowMs s.clock b
  logged : ∀ e ∈ s.log, e.1 ≤ s.clock

/-- The number of requests allowed in the interval. -/
def allowedIn (a b : ℚ) (log : List (ℚ × Bool)) : ℕ :=
  log.countP fun e => decide (a ≤ e.1 ∧ e.1 ≤ b ∧ e.2 = true)

/-- What the key may hold at the time `later`, if no request came since `b` was stored. -/
def Untouched (b : Bucket) (later : ℚ) (key : Option Bucket) : Prop :=
  key = some b ∨ (key = none ∧ b.expiresAt ≤ later)

variable {capacity windowMs}

theorem rate_pos (hcap : 1 ≤ capacity) (hwin : 0 < windowMs) : 0 < capacity / windowMs :=
  div_pos (lt_of_lt_of_le one_pos hcap) hwin

variable {s : State} {now a b : ℚ}

theorem available_nonneg (hcap : 1 ≤ capacity) (hwin : 0 < windowMs)
    (h : Sound capacity windowMs s) : 0 ≤ available capacity windowMs now s.key := by
  have hcap0 : 0 ≤ capacity := le_trans zero_le_one hcap
  cases hkey : s.key with
  | some b =>
    exact refill_nonneg (rate_pos hcap hwin).le hcap0 (h.bucket b hkey).nonneg (le_max_left _ _)
  | none => exact hcap0

/-- What is available grows by what is refilled. -/
theorem available_later (hcap : 1 ≤ capacity) (hwin : 0 < windowMs)
    (h : Sound capacity windowMs s) {t : ℚ} (ht : s.clock ≤ t) (hnow : t ≤ now) :
    available capacity windowMs now s.key ≤
      available capacity windowMs t s.key + (now - t) * (capacity / windowMs) := by
  have hrate := (rate_pos hcap hwin).le
  have hmore : 0 ≤ (now - t) * (capacity / windowMs) :=
    mul_nonneg (sub_nonneg.mpr hnow) hrate
  cases hkey : s.key with
  | some b =>
    have hupdated := (h.bucket b hkey).updated_le
    rw [available_of_le (hupdated.trans (ht.trans hnow)), available_of_le (hupdated.trans ht),
      show now - b.updatedAt = (t - b.updatedAt) + (now - t) by ring,
      ← refill_add hrate (sub_nonneg.mpr hnow)]
    exact refill_le
  | none => exact le_add_of_nonneg_right hmore

/-- In two windows two buckets are refilled. -/
theorem two_windows (capacity : ℚ) (hwin : 0 < windowMs) :
    windowMs * 2 * (capacity / windowMs) = 2 * capacity := by
  field_simp

/-- When the key may be removed, the bucket is full. -/
theorem available_of_expired (hcap : 1 ≤ capacity) (hwin : 0 < windowMs)
    (h : Sound capacity windowMs s) (hexp : ∀ b, s.key = some b → b.expiresAt ≤ now) :
    available capacity windowMs now s.key = capacity := by
  cases hkey : s.key with
  | some b =>
    obtain ⟨hnn, -, -, hexpires⟩ := h.bucket b hkey
    have hidle : windowMs * 2 ≤ now - b.updatedAt := by
      have := hexp b hkey
      linarith
    refine refill_eq_cap ?_
    have hfull := two_windows capacity hwin
    have hmul : windowMs * 2 * (capacity / windowMs) ≤
        max 0 (now - b.updatedAt) * (capacity / windowMs) :=
      mul_le_mul_of_nonneg_right (hidle.trans (le_max_right _ _)) (rate_pos hcap hwin).le
    linarith
  | none => rfl

theorem sound_step (hcap : 1 ≤ capacity) (hwin : 0 < windowMs) (s : State) (act : Action)
    (h : Sound capacity windowMs s) (hlegal : Legal s act) :
    Sound capacity windowMs (step capacity windowMs s act) := by
  cases act with
  | execute now =>
    have hclock : s.clock ≤ now := hlegal
    refine ⟨fun b hb => ?_, fun e he => ?_⟩
    · have hb' : (tokenBucketScript capacity windowMs now s.key).1 = b := Option.some.inj hb
      rw [script_bucket] at hb'
      subst hb'
      exact ⟨draw_nonneg (available_nonneg hcap hwin h), draw_le.trans available_le_capacity,
        le_rfl, rfl⟩
    · rcases List.mem_append.mp he with he | he
      · exact (h.logged e he).trans hclock
      · rw [List.mem_singleton.mp he]
        exact le_rfl
  | expire now => exact ⟨nofun, fun e he => (h.logged e he).trans hlegal.1⟩

/-- **The potential**: the requests allowed in `[a, b]` and the tokens that are left are covered by a
full bucket and what was refilled since `a`. -/
structure Covered (capacity windowMs a b : ℚ) (s : State) : Prop where
  within : s.clock ≤ b → allowedIn a b s.log + available capacity windowMs (max s.clock a) s.key ≤
    capacity + (max s.clock a - a) * (capacity / windowMs)
  total : (allowedIn a b s.log : ℚ) ≤ capacity + (b - a) * (capacity / windowMs)

theorem allowedIn_concat (a b : ℚ) (log : List (ℚ × Bool)) (e : ℚ × Bool) :
    allowedIn a b (log ++ [e]) =
      allowedIn a b log + if a ≤ e.1 ∧ e.1 ≤ b ∧ e.2 = true then 1 else 0 := by
  unfold allowedIn
  rw [List.countP_append, List.countP_singleton]
  simp only [decide_eq_true_eq]

/-- Nothing was allowed after the last request. -/
theorem allowedIn_eq_zero (h : Sound capacity windowMs s) (ha : s.clock < a) :
    allowedIn a b s.log = 0 := by
  refine List.countP_eq_zero.mpr fun e he => ?_
  have := h.logged e he
  simp only [decide_eq_true_eq, not_and]
  intro hle
  linarith

/-- What is covered stays covered while time passes. -/
theorem Covered.later (hcap : 1 ≤ capacity) (hwin : 0 < windowMs) (h : Sound capacity windowMs s)
    (hc : Covered capacity windowMs a b s) (hclock : s.clock ≤ now) (ha : a ≤ now) (hb : now ≤ b) :
    allowedIn a b s.log + available capacity windowMs now s.key ≤
      capacity + (now - a) * (capacity / windowMs) := by
  have hbefore := hc.within (hclock.trans hb)
  have hmore := available_later hcap hwin h (le_max_left s.clock a) (max_le hclock ha)
  linarith

/-- As long as nothing was allowed in the interval there is nothing to cover. -/
theorem covered_of_eq_zero (hcap : 1 ≤ capacity) (hwin : 0 < windowMs) (hab : a ≤ b)
    (h : allowedIn a b s.log = 0) : Covered capacity windowMs a b s := by
  have hrate := (rate_pos hcap hwin).le
  have hspan : 0 ≤ (b - a) * (capacity / windowMs) := mul_nonneg (sub_nonneg.mpr hab) hrate
  have hmore : 0 ≤ (max s.clock a - a) * (capacity / windowMs) :=
    mul_nonneg (sub_nonneg.mpr (le_max_right _ _)) hrate
  have hfull : available capacity windowMs (max s.clock a) s.key ≤ capacity := available_le_capacity
  constructor
  · intro _
    rw [h, Nat.cast_zero]
    linarith
  · rw [h, Nat.cast_zero]
    linarith

variable (capacity windowMs) in
/-- What a request adds to the interval. -/
theorem allowedIn_execute (a b : ℚ) (s : State) (now : ℚ) :
    allowedIn a b (step capacity windowMs s (.execute now)).log =
      allowedIn a b s.log + if a ≤ now ∧ now ≤ b then
        drawn (available capacity windowMs now s.key) else 0 := by
  show allowedIn a b
    (s.log ++ [(now, (tokenBucketScript capacity windowMs now s.key).2.allowed)]) = _
  rw [allowedIn_concat, script_allowed]
  unfold drawn
  simp only [decide_eq_true_eq]
  split_ifs <;> grind

/-- What a request leaves. -/
theorem available_execute (s : State) (now : ℚ) :
    available capacity windowMs now (step capacity windowMs s (.execute now)).key =
      draw (available capacity windowMs now s.key) := by
  show available capacity windowMs now (some (tokenBucketScript capacity windowMs now s.key).1) = _
  rw [script_bucket]
  exact available_stored _ (draw_le.trans available_le_capacity)

theorem covered_step (hcap : 1 ≤ capacity) (hwin : 0 < windowMs) (hab : a ≤ b) (s : State)
    (act : Action) (h : Sound capacity windowMs s ∧ Covered capacity windowMs a b s)
    (hlegal : Legal s act) : Covered capacity windowMs a b (step capacity windowMs s act) := by
  obtain ⟨hs, hc⟩ := h
  by_cases hbefore : (step capacity windowMs s act).clock < a
  · exact covered_of_eq_zero hcap hwin hab
      (allowedIn_eq_zero (sound_step hcap hwin s act hs hlegal) hbefore)
  cases act with
  | execute now =>
    have hclock : s.clock ≤ now := hlegal
    have ha : a ≤ now := not_lt.mp hbefore
    have hcount := allowedIn_execute capacity windowMs a b s now
    by_cases hb : now ≤ b
    · have hlater := hc.later hcap hwin hs hclock ha hb
      have hkept := draw_add_drawn (available capacity windowMs now s.key)
      have hleft : 0 ≤ draw (available capacity windowMs now s.key) :=
        draw_nonneg (available_nonneg hcap hwin hs)
      have hnow : (now - a) * (capacity / windowMs) ≤ (b - a) * (capacity / windowMs) :=
        mul_le_mul_of_nonneg_right (by linarith) (rate_pos hcap hwin).le
      rw [if_pos ⟨ha, hb⟩] at hcount
      constructor
      · intro _
        show (allowedIn a b (step capacity windowMs s (.execute now)).log : ℚ) +
          available capacity windowMs (max now a) (step capacity windowMs s (.execute now)).key ≤
            capacity + (max now a - a) * (capacity / windowMs)
        rw [max_eq_left ha, available_execute, hcount]
        push_cast
        linarith
      · rw [hcount]
        push_cast
        linarith
    · rw [if_neg fun h => hb h.2, add_zero] at hcount
      exact ⟨fun hle => absurd hle hb, by rw [hcount]; exact hc.total⟩
  | expire now =>
    obtain ⟨hclock, hexp⟩ := hlegal
    have ha : a ≤ now := not_lt.mp hbefore
    refine ⟨fun hb => ?_, hc.total⟩
    have hlater := hc.later hcap hwin hs hclock ha hb
    rw [available_of_expired hcap hwin hs hexp] at hlater
    show (allowedIn a b s.log : ℚ) + capacity ≤
      capacity + (max now a - a) * (capacity / windowMs)
    rwa [max_eq_left ha]

/-- A request that is denied, and its repetitions. -/
structure RetryExact (capacity windowMs now : ℚ) (key : Option Bucket) : Prop where
  then_allowed : ∀ key', Untouched (tokenBucketScript capacity windowMs now key).1
    (now + (tokenBucketScript capacity windowMs now key).2.retryMs) key' →
      (tokenBucketScript capacity windowMs
        (now + (tokenBucketScript capacity windowMs now key).2.retryMs) key').2.allowed = true
  before_denied : ∀ d : ℚ, 0 ≤ d → d < (tokenBucketScript capacity windowMs now key).2.retryMs - 1 →
    ∀ key', Untouched (tokenBucketScript capacity windowMs now key).1 (now + d) key' →
      (tokenBucketScript capacity windowMs (now + d) key').2.allowed = false

/-- **The retry hint** is the time after which a token is there, rounded up. -/
theorem retryExact (hcap : 1 ≤ capacity) (hwin : 0 < windowMs) (h : Sound capacity windowMs s)
    (hdenied : (tokenBucketScript capacity windowMs now s.key).2.allowed = false) :
    RetryExact capacity windowMs now s.key := by
  have hrate := rate_pos hcap hwin
  have hlow : ¬ 1 ≤ available capacity windowMs now s.key := by
    rw [script_allowed] at hdenied
    exact of_decide_eq_false hdenied
  have hretry := script_retryMs hlow
  have hkept : draw (available capacity windowMs now s.key) =
      available capacity windowMs now s.key := if_neg hlow
  have hbucket : (tokenBucketScript capacity windowMs now s.key).1 =
      ⟨draw (available capacity windowMs now s.key), now, now + windowMs * 2⟩ := script_bucket
  have hnn : 0 ≤ available capacity windowMs now s.key := available_nonneg hcap hwin h
  rw [hkept] at hbucket
  generalize available capacity windowMs now s.key = level at hlow hretry hbucket hnn
  constructor
  · rintro key' (rfl | ⟨rfl, -⟩)
    · rw [script_allowed, hbucket, hretry, available_after _ (Int.cast_nonneg (Int.ceil_nonneg ?_))]
      · refine decide_eq_true (le_min hcap ?_)
        have hceil := Int.le_ceil ((1 - level) / (capacity / windowMs))
        rw [div_le_iff₀ hrate] at hceil
        linarith
      · exact div_nonneg (by linarith) hrate.le
    · rw [script_allowed]
      exact decide_eq_true hcap
  · intro d hd hearly key' hkey
    have hceil := Int.ceil_lt_add_one ((1 - level) / (capacity / windowMs))
    rw [hretry] at hearly
    have hshort : d * (capacity / windowMs) < 1 - level := by
      rw [← lt_div_iff₀ hrate]
      linarith
    rw [script_allowed]
    rcases hkey with rfl | ⟨-, hexpired⟩
    · rw [hbucket, available_after _ hd]
      refine decide_eq_false (not_le.mpr (lt_of_le_of_lt refill_le ?_))
      linarith
    · -- two windows would have filled the bucket
      rw [hbucket] at hexpired
      have hidle : windowMs * 2 ≤ d := by
        have hle : now + windowMs * 2 ≤ now + d := hexpired
        linarith
      have hmul := mul_le_mul_of_nonneg_right hidle hrate.le
      have hfull := two_windows capacity hwin
      linarith

/-- **The bucket under one clock.** In every state of a run with times that do not run backwards:
the tokens stay between zero and the capacity; an interval of time has at most as many allowed
requests as the capacity and what is refilled in it; and a denied request is allowed when it is
repeated `retry_ms` later, and denied more than a millisecond before that. -/
theorem oneClock {capacity windowMs : ℚ} (hcap : 1 ≤ capacity) (hwin : 0 < windowMs) (t0 : ℚ)
    (actions : List Action)
    (hlegal : AllSteps (step capacity windowMs) Legal { clock := t0 } actions) :
    AllStates (step capacity windowMs) (fun s =>
      (∀ b, s.key = some b → 0 ≤ b.tokens ∧ b.tokens ≤ capacity) ∧
      (∀ a b, a ≤ b → (allowedIn a b s.log : ℚ) ≤ capacity + (b - a) * (capacity / windowMs)) ∧
      ∀ now, s.clock ≤ now → (tokenBucketScript capacity windowMs now s.key).2.allowed = false →
        RetryExact capacity windowMs now s.key) { clock := t0 } actions := by
  have hsound0 : Sound capacity windowMs { clock := t0 } := ⟨nofun, nofun⟩
  have hsound : AllStates (step capacity windowMs) (Sound capacity windowMs) { clock := t0 }
      actions := allStates_of_inv (sound_step hcap hwin) hsound0 hlegal
  have hcovered : ∀ p : ℚ × ℚ, AllStates (step capacity windowMs)
      (fun s => p.1 ≤ p.2 → Covered capacity windowMs p.1 p.2 s) { clock := t0 } actions := by
    rintro ⟨a, b⟩
    have hinv : AllStates (step capacity windowMs)
        (fun s => Sound capacity windowMs s ∧ (a ≤ b → Covered capacity windowMs a b s))
        { clock := t0 } actions := by
      refine allStates_of_inv (fun s act h hl => ⟨sound_step hcap hwin s act h.1 hl, fun hab =>
        covered_step hcap hwin hab s act ⟨h.1, h.2 hab⟩ hl⟩) ⟨hsound0, fun hab => ?_⟩ hlegal
      exact covered_of_eq_zero hcap hwin hab rfl
    exact hinv.imp fun s h => h.2
  refine (hsound.and (allStates_forall hcovered)).imp fun s h => ⟨fun b hb => ?_, ?_, ?_⟩
  · exact ⟨(h.1.bucket b hb).nonneg, (h.1.bucket b hb).le_capacity⟩
  · exact fun a b hab => (h.2 (a, b) hab).total
  · exact fun now _ hdenied => retryExact hcap hwin h.1 hdenied

end OneClock

/-- Two requests a tenth of a second apart on a bucket with one token for a second: the second one is
told to wait for 900 ms. -/
theorem oneClock_sample :
    RetryExact 1 1000 100 (run (step 1 1000) { clock := 0 } [.execute 0]).key := by
  have hlegal : AllSteps (step 1 1000) Legal { clock := 0 } [.execute 0] :=
    ⟨le_rfl, trivial⟩
  have hcap : (1 : ℚ) ≤ 1 := le_rfl
  have hwin : (0 : ℚ) < 1000 := by norm_num
  have hstates := oneClock hcap hwin 0 _ hlegal
  exact hstates.last.2.2 100 (by decide +kernel) (by decide +kernel)

/-! ### Under several clocks -/

section ManyClocks

/-- The number of requests allowed, of requests with these times between which the key does not
expire. -/
def allowedCount (capacity windowMs : ℚ) : Option Bucket → List ℚ → ℕ
  | _, [] => 0
  | key, now :: rest =>
    let result := tokenBucketScript capacity windowMs now key
    (if result.2.allowed then 1 else 0) + allowedCount capacity windowMs (some result.1) rest

/-- The sum of the steps forward. -/
def forward : List ℚ → ℚ
  | [] => 0
  | [_] => 0
  | t :: t' :: rest => max 0 (t' - t) + forward (t' :: rest)

/-- The clocks mint no tokens: a bucket that is not there yet allows no more requests than one clock
would, on the way from the earliest to the latest of the times. -/
def NoExtraTokens (capacity windowMs : ℚ) (nows : List ℚ) : Prop :=
  ∀ lo ∈ nows, ∀ hi ∈ nows, (∀ t ∈ nows, lo ≤ t ∧ t ≤ hi) →
    allowedCount capacity windowMs none nows ≤ capacity + (hi - lo) * (capacity / windowMs)

/-- The steps forward are no longer than the way from the earliest to the latest time. -/
def StepsWithinSpread (nows : List ℚ) : Prop :=
  ∀ lo ∈ nows, ∀ hi ∈ nows, (∀ t ∈ nows, lo ≤ t ∧ t ≤ hi) → forward nows ≤ hi - lo

variable {capacity windowMs now lo hi : ℚ} {key : Option Bucket} {nows : List ℚ}

theorem allowedCount_cons : allowedCount capacity windowMs key (now :: nows) =
    drawn (available capacity windowMs now key) + allowedCount capacity windowMs
      (some ⟨draw (available capacity windowMs now key), now, now + windowMs * 2⟩) nows := by
  show (if (tokenBucketScript capacity windowMs now key).2.allowed then 1 else 0) +
    allowedCount capacity windowMs (some (tokenBucketScript capacity windowMs now key).1) nows = _
  rw [script_allowed, script_bucket]
  unfold drawn
  simp only [decide_eq_true_eq]

/-- **The potential of a run**: what is allowed was there, or was refilled in a step forward. -/
theorem allowedCount_le (hcap : 0 ≤ capacity) (hrate : 0 ≤ capacity / windowMs) :
    ∀ (nows : List ℚ) (last : ℚ) {x : ℚ}, 0 ≤ x → ∀ expiresAt,
      allowedCount capacity windowMs (some ⟨x, last, expiresAt⟩) nows ≤
        x + forward (last :: nows) * (capacity / windowMs)
  | [], last, x, hx, _ => by
    show ((0 : ℕ) : ℚ) ≤ x + 0 * (capacity / windowMs)
    push_cast
    linarith
  | now :: nows, last, x, hx, expiresAt => by
    have hkept := draw_add_drawn (available capacity windowMs now (some ⟨x, last, expiresAt⟩))
    have hfound : available capacity windowMs now (some ⟨x, last, expiresAt⟩) ≤
        x + max 0 (now - last) * (capacity / windowMs) := refill_le
    have hnn : 0 ≤ draw (available capacity windowMs now (some ⟨x, last, expiresAt⟩)) :=
      draw_nonneg (refill_nonneg hrate hcap hx (le_max_left _ _))
    have hrest := allowedCount_le hcap hrate nows now hnn (now + windowMs * 2)
    have hforward : forward (last :: now :: nows) =
        max 0 (now - last) + forward (now :: nows) := rfl
    rw [allowedCount_cons, hforward, add_mul]
    push_cast
    linarith

theorem noExtraTokens (hcap : 1 ≤ capacity) (hwin : 0 < windowMs) (h : StepsWithinSpread nows) :
    NoExtraTokens capacity windowMs nows := by
  intro lo hlo hi hhi hspread
  have hrate := rate_pos hcap hwin
  have hforward := mul_le_mul_of_nonneg_right (h lo hlo hi hhi hspread) hrate.le
  cases nows with
  | nil => cases hlo
  | cons now nows =>
    have hkept := draw_add_drawn capacity
    have hcap0 : 0 ≤ capacity := le_trans zero_le_one hcap
    have hrest := allowedCount_le hcap0 hrate.le nows now (draw_nonneg hcap0)
      (now + windowMs * 2)
    rw [allowedCount_cons]
    show ((drawn capacity +
      allowedCount capacity windowMs (some ⟨draw capacity, now, _⟩) nows : ℕ) : ℚ) ≤ _
    push_cast
    linarith

/-! With two times that differ, any number of requests can be allowed. -/

/-- A bucket that was last updated at the time `hi`. -/
def UpdatedAt (capacity hi : ℚ) (key : Option Bucket) : Prop :=
  ∃ x expiresAt, key = some ⟨x, hi, expiresAt⟩ ∧ 0 ≤ x ∧ x ≤ capacity

/-- Some requests at the two times, of which `n` are allowed. -/
def CanAllow (capacity windowMs lo hi : ℚ) (key : Option Bucket) (n : ℕ) : Prop :=
  ∃ nows, (∀ t ∈ nows, t = lo ∨ t = hi) ∧ n ≤ allowedCount capacity windowMs key nows

theorem CanAllow.cons {n : ℕ} {t : ℚ} (ht : t = lo ∨ t = hi)
    (h : CanAllow capacity windowMs lo hi
      (some ⟨draw (available capacity windowMs t key), t, t + windowMs * 2⟩) n) :
    CanAllow capacity windowMs lo hi key (drawn (available capacity windowMs t key) + n) := by
  obtain ⟨nows, htimes, hcount⟩ := h
  refine ⟨t :: nows, List.forall_mem_cons.mpr ⟨ht, htimes⟩, ?_⟩
  rw [allowedCount_cons]
  omega

/-- A request that is denied leaves its time and what is available. -/
theorem CanAllow.cons_denied {n : ℕ} {t : ℚ} (ht : t = lo ∨ t = hi)
    (hdenied : ¬ 1 ≤ available capacity windowMs t key)
    (h : CanAllow capacity windowMs lo hi
      (some ⟨available capacity windowMs t key, t, t + windowMs * 2⟩) n) :
    CanAllow capacity windowMs lo hi key n := by
  have hcons := CanAllow.cons ht (by rw [draw, if_neg hdenied]; exact h)
  rwa [drawn, if_neg hdenied, zero_add] at hcons

/-- A bucket that has a token, to which the rest can follow. -/
theorem canAllow_of_le {n : ℕ}
    (h : ∀ key, UpdatedAt capacity hi key → CanAllow capacity windowMs lo hi key n)
    (hone : 1 ≤ available capacity windowMs hi key) :
    CanAllow capacity windowMs lo hi key (n + 1) := by
  have hstored : UpdatedAt capacity hi
      (some ⟨draw (available capacity windowMs hi key), hi, hi + windowMs * 2⟩) :=
    ⟨_, _, rfl, draw_nonneg (zero_le_one.trans hone), draw_le.trans available_le_capacity⟩
  have hcons := CanAllow.cons (Or.inr rfl) (h _ hstored)
  rwa [drawn, if_pos hone, add_comm] at hcons

/-- **One more**: a bucket that lacks a token gets one by enough steps back and forth. -/
theorem canAllow_succ (hcap : 1 ≤ capacity) (hwin : 0 < windowMs) (hlt : lo < hi) {n : ℕ}
    (h : ∀ key, UpdatedAt capacity hi key → CanAllow capacity windowMs lo hi key n) (k : ℕ) :
    ∀ {x : ℚ} (expiresAt : ℚ), 0 ≤ x → x ≤ capacity →
      1 ≤ x + k * ((hi - lo) * (capacity / windowMs)) →
        CanAllow capacity windowMs lo hi (some ⟨x, hi, expiresAt⟩) (n + 1) := by
  induction k with
  | zero =>
    intro x expiresAt _ hxcap hone
    refine canAllow_of_le h ?_
    rw [available_stored _ hxcap]
    simpa using hone
  | succ k ih =>
    intro x expiresAt hx hxcap hone
    by_cases hx1 : 1 ≤ x
    · refine canAllow_of_le h ?_
      rwa [available_stored _ hxcap]
    have hrate := (rate_pos hcap hwin).le
    have hspan : 0 ≤ hi - lo := (sub_pos.mpr hlt).le
    -- back: nothing is refilled, and the time is stored
    have hback : available capacity windowMs lo (some ⟨x, hi, expiresAt⟩) = x := by
      show refill _ _ x (max 0 (lo - hi)) = x
      rw [max_eq_left (by linarith)]
      exact refill_zero hxcap
    -- and forth: the time between is refilled
    have hforth : available capacity windowMs hi (some ⟨x, lo, lo + windowMs * 2⟩) =
        refill capacity (capacity / windowMs) x (hi - lo) := by
      rw [← available_after (lo + windowMs * 2) hspan, add_sub_cancel]
    have hlater : CanAllow capacity windowMs lo hi (some ⟨x, lo, lo + windowMs * 2⟩) (n + 1) := by
      by_cases hy : 1 ≤ refill capacity (capacity / windowMs) x (hi - lo)
      · exact canAllow_of_le h (by rwa [hforth])
      · have hyeq : refill capacity (capacity / windowMs) x (hi - lo) =
            x + (hi - lo) * (capacity / windowMs) := by
          refine min_eq_right (le_of_lt ?_)
          by_contra hle
          exact hy (le_min hcap (hcap.trans (not_lt.mp hle)))
        have hnext := ih (hi + windowMs * 2) (refill_nonneg hrate (zero_le_one.trans hcap) hx hspan)
          refill_le_cap (by rw [hyeq]; push_cast at hone; linarith)
        refine CanAllow.cons_denied (Or.inr rfl) (by rwa [hforth]) ?_
        rw [hforth]
        exact hnext
    refine CanAllow.cons_denied (Or.inl rfl) (by rwa [hback]) ?_
    rw [hback]
    exact hlater

theorem canAllow (hcap : 1 ≤ capacity) (hwin : 0 < windowMs) (hlt : lo < hi) (n : ℕ) :
    ∀ key, UpdatedAt capacity hi key → CanAllow capacity windowMs lo hi key n := by
  induction n with
  | zero => exact fun key _ => ⟨[], by simp, Nat.zero_le _⟩
  | succ n ih =>
    rintro key ⟨x, expiresAt, rfl, hx, hxcap⟩
    have hstep : 0 < (hi - lo) * (capacity / windowMs) :=
      mul_pos (sub_pos.mpr hlt) (rate_pos hcap hwin)
    obtain ⟨k, hk⟩ := exists_nat_gt (1 / ((hi - lo) * (capacity / windowMs)))
    rw [div_lt_iff₀ hstep] at hk
    exact canAllow_succ hcap hwin hlt ih k expiresAt hx hxcap (by linarith)

/-- Requests at two different times from replicas whose clocks differ, of which any number is
allowed. -/
def Minted (capacity windowMs lo hi : ℚ) (n : ℕ) : Prop :=
  ∃ nows, (∀ t ∈ nows, t = lo ∨ t = hi) ∧ lo ∈ nows ∧ hi ∈ nows ∧
    n ≤ allowedCount capacity windowMs none nows

theorem minted (hcap : 1 ≤ capacity) (hwin : 0 < windowMs) (hlt : lo < hi) (n : ℕ) :
    Minted capacity windowMs lo hi n := by
  have hfirst : 0 ≤ draw capacity := draw_nonneg (zero_le_one.trans hcap)
  set key : Option Bucket := some ⟨draw capacity, lo, lo + windowMs * 2⟩ with hkey
  -- the bucket once both replicas have sent a request
  have hstored : UpdatedAt capacity hi
      (some ⟨draw (available capacity windowMs hi key), hi, hi + windowMs * 2⟩) :=
    ⟨_, _, rfl, draw_nonneg (refill_nonneg (rate_pos hcap hwin).le (zero_le_one.trans hcap) hfirst
      (le_max_left _ _)), draw_le.trans available_le_capacity⟩
  obtain ⟨nows, htimes, hcount⟩ := canAllow hcap hwin hlt n _ hstored
  refine ⟨lo :: hi :: nows, ?_, by simp, by simp, ?_⟩
  · exact List.forall_mem_cons.mpr ⟨Or.inl rfl, List.forall_mem_cons.mpr ⟨Or.inr rfl, htimes⟩⟩
  · have hnone : available capacity windowMs lo none = capacity := rfl
    rw [allowedCount_cons, hnone, ← hkey, allowedCount_cons]
    omega

/-- **Under several clocks** the bound holds as long as the steps forward stay within the spread of
the times, of executions between which the key does not expire. Two replicas whose clocks differ, by
however little, can be allowed any number of requests. -/
theorem manyClocks (hcap : 1 ≤ capacity) (hwin : 0 < windowMs) :
    (∀ nows, StepsWithinSpread nows → NoExtraTokens capacity windowMs nows) ∧
      ∀ lo hi, lo < hi → ∀ n, Minted capacity windowMs lo hi n :=
  ⟨fun _ h => noExtraTokens hcap hwin h, fun _ _ hlt n => minted hcap hwin hlt n⟩

end ManyClocks

/-- Requests of one replica whose clock runs on. -/
theorem manyClocks_sample : NoExtraTokens 1 1000 [0, 500, 1000] := by
  have hcap : (1 : ℚ) ≤ 1 := le_rfl
  have hwin : (0 : ℚ) < 1000 := by norm_num
  exact (manyClocks hcap hwin).1 _ (by unfold StepsWithinSpread; decide +kernel)

/-- Two replicas a second apart take turns on a bucket with one token for a second: three requests
are allowed where one clock would have allowed two. -/
theorem clocks_mint_tokens : ¬ NoExtraTokens 1 1000 [0, 1000, 0, 1000] := by
  unfold NoExtraTokens
  decide +kernel

end VestingDripStream.Backend.TokenBucket
