import VestingDripStream.Lib.Run

/-! # Graceful shutdown

`ShutdownManager` of `server/shutdown.js`: the middleware that counts the requests in flight,
`performShutdown`, which waits until there are none and then runs the teardown handlers one after
the other, and the timer that forces the exit. A `Map` is the list of its entries in insertion
order; its iteration is live, so a handler that is registered meanwhile is run too.

Events of different requests, timers and handlers interleave. `ended` is the event `finish` or
`close` of a response, `check` the timer of `waitForInFlightRequests`, `settled` the end of the
handler that runs, by a result or an error. -/

namespace VestingDripStream.Backend.Shutdown

open VestingDripStream.Lib.Run

/-- How far the shutdown is; `i` is the place of the handler that runs. -/
inductive Phase
  | serving
  | waiting
  | tearingDown (i : ℕ)
  | exited (code : ℕ)
  deriving DecidableEq, Repr

/-- `H` are the handlers; `listening` are the requests whose response still has the listeners of the
middleware, `calls` the handlers that were called. -/
structure World (ι H : Type) where
  isShuttingDown : Bool
  inFlightCount : ℕ
  listening : List ι
  teardownHandlers : List (String × H)
  phase : Phase
  calls : List (String × H)
  deriving DecidableEq, Repr

/-- The server takes requests. -/
def World.init {ι H : Type} : World ι H := ⟨false, 0, [], [], .serving, []⟩

/-- What happens next to a request, a handler or a timer. -/
inductive Action (ι H : Type)
  | request (i : ι)
  | ended (i : ι)
  | registerTeardown (name : String) (handlerFn : H)
  /-- `performShutdown`, on a signal. -/
  | signal
  | check
  | settled
  | force
  deriving DecidableEq, Repr

section Steps

variable {ι H : Type} [DecidableEq ι]

/-- `Map.set`. -/
def setEntry (m : List (String × H)) (name : String) (handlerFn : H) : List (String × H) :=
  if name ∈ m.map Prod.fst then m.map fun p => if p.1 = name then (name, handlerFn) else p
  else m ++ [(name, handlerFn)]

/-- The loop over the teardown handlers, from the `i`-th entry on. -/
def World.teardown (w : World ι H) (i : ℕ) : World ι H :=
  match w.teardownHandlers[i]? with
  | some p => { w with phase := .tearingDown i, calls := w.calls ++ [p] }
  | none => { w with phase := .exited 0 }

/-- `check` of `waitForInFlightRequests`, and what follows when it resolves. -/
def World.check (w : World ι H) : World ι H :=
  if w.inFlightCount = 0 then w.teardown 0 else { w with phase := .waiting }

/-- One event; `force` ends a shutdown that is still going on. -/
def step (w : World ι H) : Action ι H → World ι H
  | .request i =>
    if w.isShuttingDown then w
    else { w with inFlightCount := w.inFlightCount + 1, listening := i :: w.listening }
  | .ended i =>
    if i ∈ w.listening then
      { w with inFlightCount := w.inFlightCount - 1, listening := w.listening.erase i }
    else w
  | .registerTeardown name handlerFn =>
    { w with teardownHandlers := setEntry w.teardownHandlers name handlerFn }
  | .signal => if w.isShuttingDown then w else { w with isShuttingDown := true }.check
  | .check => if w.phase = .waiting then w.check else w
  | .settled =>
    match w.phase with
    | .tearingDown i => w.teardown (i + 1)
    | _ => w
  | .force =>
    match w.phase with
    | .waiting | .tearingDown _ => { w with phase := .exited 1 }
    | _ => w

/-- A process that exited makes no step, and a request is not one that is still open. -/
def Legal (w : World ι H) (a : Action ι H) : Prop :=
  (∀ code, w.phase ≠ .exited code) ∧ ∀ i, a = .request i → i ∉ w.listening

end Steps

/-! ### The invariant -/

section Graceful

variable {ι H : Type}

/-- The names of the handlers that were called are the first of those that are registered. -/
def CallsFirst (w : World ι H) (n : ℕ) : Prop :=
  n ≤ w.teardownHandlers.length ∧ w.calls.map Prod.fst = (w.teardownHandlers.map Prod.fst).take n

/-- What holds in each phase. -/
def PhaseHolds (w : World ι H) : Prop :=
  match w.phase with
  | .serving => w.isShuttingDown = false ∧ CallsFirst w 0
  | .waiting => w.isShuttingDown = true ∧ CallsFirst w 0
  | .tearingDown i => w.isShuttingDown = true ∧ w.listening = [] ∧ CallsFirst w (i + 1)
  | .exited 0 => w.isShuttingDown = true ∧ w.listening = [] ∧
      CallsFirst w w.teardownHandlers.length
  | .exited _ => w.isShuttingDown = true ∧ ∃ n, CallsFirst w n

/-- Requests are counted exactly, no handler runs while one is open, and every handler is called at
most once, in the order of registration. -/
structure Graceful (w : World ι H) : Prop where
  counted : w.inFlightCount = w.listening.length
  requests : w.listening.Nodup
  names : (w.teardownHandlers.map Prod.fst).Nodup
  phase : PhaseHolds w

variable {w : World ι H}

theorem names_setEntry (m : List (String × H)) (name : String) (handlerFn : H) :
    (setEntry m name handlerFn).map Prod.fst =
      if name ∈ m.map Prod.fst then m.map Prod.fst else m.map Prod.fst ++ [name] := by
  unfold setEntry
  split_ifs with h
  · rw [List.map_map]
    refine List.map_congr_left fun p _ => ?_
    show (if p.1 = name then (name, handlerFn) else p).1 = p.1
    split_ifs with hp
    · exact hp.symm
    · rfl
  · rw [List.map_append]
    rfl

theorem nodup_setEntry {m : List (String × H)} (h : (m.map Prod.fst).Nodup) (name : String)
    (handlerFn : H) : ((setEntry m name handlerFn).map Prod.fst).Nodup := by
  rw [names_setEntry]
  split_ifs with hname
  · exact h
  · rw [List.nodup_append]
    refine ⟨h, List.nodup_singleton name, fun a ha b hb => ?_⟩
    rw [List.mem_singleton.mp hb]
    exact fun hab => hname (hab ▸ ha)

/-- A handler that is registered takes no place of an earlier one. -/
theorem CallsFirst.register {n : ℕ} (h : CallsFirst w n) (name : String) (handlerFn : H) :
    CallsFirst { w with teardownHandlers := setEntry w.teardownHandlers name handlerFn } n := by
  obtain ⟨hn, hcalls⟩ := h
  have hlen : (w.teardownHandlers.map Prod.fst).length = w.teardownHandlers.length :=
    List.length_map _
  have hnames := names_setEntry w.teardownHandlers name handlerFn
  have hlen' := congrArg List.length hnames
  rw [List.length_map] at hlen'
  unfold CallsFirst
  simp only [hnames]
  split_ifs at hlen' ⊢ with hname
  · exact ⟨by omega, hcalls⟩
  · rw [List.length_append] at hlen'
    refine ⟨by omega, ?_⟩
    rw [List.take_append_of_le_length (by omega)]
    exact hcalls

/-- One more handler is called, or all were. -/
theorem CallsFirst.teardown {i : ℕ} (h : CallsFirst w i) (hdown : w.isShuttingDown = true)
    (hnone : w.listening = []) : PhaseHolds (w.teardown i) := by
  obtain ⟨hi, hcalls⟩ := h
  unfold World.teardown
  cases hget : w.teardownHandlers[i]? with
  | none =>
    have hlen : i = w.teardownHandlers.length :=
      le_antisymm hi (List.getElem?_eq_none_iff.mp hget)
    subst hlen
    exact ⟨hdown, hnone, le_rfl, hcalls⟩
  | some p =>
    obtain ⟨hlt, rfl⟩ := List.getElem?_eq_some_iff.mp hget
    refine ⟨hdown, hnone, hlt, ?_⟩
    show (w.calls ++ [w.teardownHandlers[i]]).map Prod.fst = _
    rw [List.map_append, hcalls, List.take_add_one, List.getElem?_map, hget]
    rfl

theorem counted_teardown (w : World ι H) (i : ℕ) :
    (w.teardown i).inFlightCount = w.inFlightCount ∧ (w.teardown i).listening = w.listening ∧
      (w.teardown i).teardownHandlers = w.teardownHandlers ∧
        (w.teardown i).isShuttingDown = w.isShuttingDown := by
  unfold World.teardown
  split <;> exact ⟨rfl, rfl, rfl, rfl⟩

theorem listening_check (w : World ι H) :
    w.check.listening = w.listening ∧ w.check.isShuttingDown = w.isShuttingDown := by
  unfold World.check
  split_ifs
  · exact ⟨(counted_teardown w 0).2.1, (counted_teardown w 0).2.2.2⟩
  · exact ⟨rfl, rfl⟩

theorem Graceful.teardown (h : Graceful w) {i : ℕ} (hi : CallsFirst w i)
    (hdown : w.isShuttingDown = true) (hnone : w.listening = []) : Graceful (w.teardown i) := by
  obtain ⟨hcount, hlisten, hhandlers, -⟩ := counted_teardown w i
  exact ⟨by rw [hcount, hlisten]; exact h.counted, by rw [hlisten]; exact h.requests,
    by rw [hhandlers]; exact h.names, hi.teardown hdown hnone⟩

theorem Graceful.check (h : Graceful w) (hfirst : CallsFirst w 0)
    (hdown : w.isShuttingDown = true) : Graceful w.check := by
  unfold World.check
  split_ifs with hzero
  · have hnone : w.listening = [] := by
      have hlen := h.counted
      rw [hzero] at hlen
      exact List.eq_nil_of_length_eq_zero hlen.symm
    exact h.teardown hfirst hdown hnone
  · exact ⟨h.counted, h.requests, h.names, hdown, hfirst⟩

variable [DecidableEq ι]

/-- One step. -/
theorem graceful_step {a : Action ι H} (h : Graceful w) (hl : Legal w a) :
    Graceful (step w a) := by
  have hphase := h.phase
  unfold PhaseHolds at hphase
  cases a with
  | request i =>
    by_cases hdown : w.isShuttingDown = true
    · rw [show step w (.request i) = w from if_pos hdown]
      exact h
    · rw [show step w (.request i) = { w with
        inFlightCount := w.inFlightCount + 1, listening := i :: w.listening } from if_neg hdown]
      have hserving : w.phase = .serving := by
        split at hphase
        · assumption
        all_goals exact absurd hphase.1 hdown
      have hcount := h.counted
      refine ⟨by simp [hcount], List.nodup_cons.mpr ⟨hl.2 i rfl, h.requests⟩, h.names, ?_⟩
      unfold PhaseHolds
      simp only [hserving] at hphase ⊢
      exact hphase
  | ended i =>
    by_cases hi : i ∈ w.listening
    · simp only [step, hi, if_true]
      have hcount := h.counted
      have hpos := List.length_pos_of_mem hi
      have hlen := List.length_erase_of_mem hi
      refine ⟨by simp only; omega, h.requests.erase i, h.names, ?_⟩
      unfold PhaseHolds
      split at hphase
      · next hp =>
        simp only [hp]
        exact hphase
      · next hp =>
        simp only [hp]
        exact hphase
      · rw [hphase.2.1] at hi
        cases hi
      · rw [hphase.2.1] at hi
        cases hi
      · next hp =>
        simp only [hp]
        exact hphase
    · simp only [step, hi, if_false]
      exact h
  | registerTeardown name handlerFn =>
    refine ⟨h.counted, h.requests, nodup_setEntry h.names name handlerFn, ?_⟩
    unfold PhaseHolds
    simp only [step]
    split at hphase
    · next hp => simpa only [hp] using ⟨hphase.1, hphase.2.register name handlerFn⟩
    · next hp => simpa only [hp] using ⟨hphase.1, hphase.2.register name handlerFn⟩
    · next hp =>
      simpa only [hp] using ⟨hphase.1, hphase.2.1, hphase.2.2.register name handlerFn⟩
    · next hp => exact absurd hp (hl.1 0)
    · next hp => exact absurd hp (hl.1 _)
  | signal =>
    by_cases hdown : w.isShuttingDown = true
    · rw [show step w .signal = w from if_pos hdown]
      exact h
    · rw [show step w .signal = World.check { w with isShuttingDown := true } from if_neg hdown]
      have hfirst : CallsFirst w 0 := by
        split at hphase
        · exact hphase.2
        all_goals exact absurd hphase.1 hdown
      have hset : Graceful { w with isShuttingDown := true, phase := .waiting } :=
        ⟨h.counted, h.requests, h.names, rfl, hfirst⟩
      exact hset.check hfirst rfl
  | check =>
    by_cases hp : w.phase = .waiting
    · simp only [step, hp, if_true]
      simp only [hp] at hphase
      exact h.check hphase.2 hphase.1
    · simp only [step, hp, if_false]
      exact h
  | settled =>
    simp only [step]
    split
    · next i hp =>
      simp only [hp] at hphase
      exact h.teardown hphase.2.2 hphase.1 hphase.2.1
    · exact h
  | force =>
    simp only [step]
    split
    · next hp =>
      simp only [hp] at hphase
      exact ⟨h.counted, h.requests, h.names, hphase.1, 0, hphase.2⟩
    · next i hp =>
      simp only [hp] at hphase
      exact ⟨h.counted, h.requests, h.names, hphase.1, i + 1, hphase.2.2⟩
    · exact h

/-- The middleware lets the request through. -/
def Admitted (i : ι) (w : World ι H) (a : Action ι H) : Prop :=
  a = .request i ∧ w.isShuttingDown = false

/-- Which requests are open after a step. -/
theorem mem_listening_step {a : Action ι H} (h : w.listening.Nodup) (i : ι) :
    i ∈ (step w a).listening ↔ Admitted i w a ∨ (i ∈ w.listening ∧ ¬ a = .ended i) := by
  unfold Admitted
  cases a with
  | request j =>
    by_cases hdown : w.isShuttingDown = true
    · rw [show step w (.request j) = w from if_pos hdown]
      simp [hdown]
    · rw [show step w (.request j) = { w with
        inFlightCount := w.inFlightCount + 1, listening := j :: w.listening } from if_neg hdown]
      have hup : w.isShuttingDown = false := by simpa using hdown
      simp [hup, eq_comm]
  | ended j =>
    by_cases hj : j ∈ w.listening
    · rw [show step w (.ended j) = { w with
        inFlightCount := w.inFlightCount - 1, listening := w.listening.erase j } from if_pos hj]
      have hne : ¬ Action.ended (H := H) j = .ended i ↔ i ≠ j := by
        rw [Action.ended.injEq, eq_comm]
      rw [h.mem_erase_iff, hne]
      simp [and_comm]
    · rw [show step w (.ended j) = w from if_neg hj]
      have hne : i ∈ w.listening → ¬ j = i := fun hi hji => hj (hji ▸ hi)
      simpa using hne
  | registerTeardown name handlerFn => simp [step]
  | signal =>
    by_cases hdown : w.isShuttingDown = true
    · rw [show step w .signal = w from if_pos hdown]
      simp
    · rw [show step w .signal = World.check { w with isShuttingDown := true } from if_neg hdown,
        (listening_check _).1]
      simp
  | check =>
    by_cases hp : w.phase = .waiting
    · rw [show step w .check = w.check from if_pos hp, (listening_check _).1]
      simp
    · rw [show step w .check = w from if_neg hp]
      simp
  | settled =>
    simp only [step]
    split
    · rw [(counted_teardown _ _).2.1]
      simp
    · simp
  | force =>
    simp only [step]
    split <;> simp

theorem isShuttingDown_step {a : Action ι H} :
    (step w a).isShuttingDown = true ↔ a = .signal ∨ (w.isShuttingDown = true ∧ ¬ False) := by
  cases a with
  | request j =>
    simp only [step]
    split_ifs <;> simp
  | ended j =>
    simp only [step]
    split_ifs <;> simp
  | registerTeardown name handlerFn => simp [step]
  | signal =>
    by_cases hdown : w.isShuttingDown = true
    · rw [show step w .signal = w from if_pos hdown]
      simp [hdown]
    · rw [show step w .signal = World.check { w with isShuttingDown := true } from if_neg hdown,
        (listening_check _).2]
      simp
  | check =>
    by_cases hp : w.phase = .waiting
    · rw [show step w .check = w.check from if_pos hp, (listening_check _).2]
      simp
    · rw [show step w .check = w from if_neg hp]
      simp
  | settled =>
    simp only [step]
    split
    · rw [(counted_teardown _ _).2.2.2]
      simp
    · simp
  | force =>
    simp only [step]
    split <;> simp

theorem graceful_run {l : List (Action ι H)} (hl : AllSteps step Legal World.init l) :
    Graceful (run step World.init l) := by
  have hinit : Graceful (World.init : World ι H) :=
    ⟨rfl, List.nodup_nil, List.nodup_nil, rfl, Nat.zero_le _, rfl⟩
  exact run_induct (fun _ _ => graceful_step) hinit hl

/-- **Shutting down is graceful.** In every run a request is in flight exactly if it came before the
first signal and its response did not end since; a teardown handler is called only when no request
is in flight, each at most once and in the order of registration, and the process exits with `0`
only after all of them. -/
theorem shutdown_graceful {l : List (Action ι H)} (hl : AllSteps step Legal World.init l) :
    Graceful (run step World.init l) ∧
      ((run step World.init l).isShuttingDown = true ↔ .signal ∈ l) ∧
      ∀ i, i ∈ (run step World.init l).listening ↔
        Since step (Admitted i) (fun _ a => a = .ended i) World.init l := by
  refine ⟨graceful_run hl, ?_, fun i => ?_⟩
  · have hdown := iff_since (Q := fun w : World ι H => w.isShuttingDown = true)
      (A := fun _ a => a = .signal) (R := fun _ _ => False) (s := World.init) (l := l) nofun
      fun _ _ => isShuttingDown_step
    rw [hdown]
    constructor
    · rintro ⟨pre, a, post, rfl, rfl, -⟩
      simp
    · intro h
      obtain ⟨pre, post, rfl⟩ := List.append_of_mem h
      exact ⟨pre, _, post, rfl, rfl, allSteps_of_forall fun _ _ => not_false⟩
  · have hrequests : (World.init : World ι H).listening.Nodup := List.nodup_nil
    have hkeeps : ∀ (w : World ι H) a, Graceful w → Legal w a → Graceful (step w a) :=
      fun _ _ => graceful_step
    exact iff_since_of_inv (Q := fun w : World ι H => i ∈ w.listening) hkeeps
      (fun w a h _ => mem_listening_step h.requests i)
      (graceful_run (l := []) trivial) nofun hl

/-! ### The end -/

/-- From the `i`-th handler on, all of them are called. -/
theorem run_settled (n : ℕ) : ∀ {w : World ι H} {i : ℕ}, w.phase = .tearingDown i →
    i + n = w.teardownHandlers.length → 0 < n →
      (run step w (List.replicate n .settled)).phase = .exited 0 := by
  induction n with
  | zero => exact fun _ _ h => absurd h (lt_irrefl 0)
  | succ n ih =>
    intro w i hp hn _
    have hstep : step w .settled = w.teardown (i + 1) := by simp only [step, hp]
    rw [List.replicate_succ, run_cons, hstep]
    cases n with
    | zero =>
      have hnone : w.teardownHandlers[i + 1]? = none := List.getElem?_eq_none (by omega)
      simp only [List.replicate_zero, run_nil, World.teardown, hnone]
    | succ n =>
      have hsome : w.teardownHandlers[i + 1]? = some w.teardownHandlers[i + 1] :=
        List.getElem?_eq_getElem (by omega)
      refine ih ?_ ?_ (Nat.succ_pos n) (i := i + 1)
      · simp only [World.teardown, hsome]
      · rw [(counted_teardown w (i + 1)).2.2.1]
        omega

/-- **Shutting down ends.** Whatever happened before, if a signal came and the process did not exit
yet, then as soon as the requests in flight have ended, the next check and the ends of the handlers
lead to the exit with `0`. -/
theorem shutdown_completes {l : List (Action ι H)} (hl : AllSteps step Legal World.init l)
    (hsignal : .signal ∈ l) (hnone : (run step World.init l).listening = [])
    (hrunning : ∀ code, (run step World.init l).phase ≠ .exited code) :
    ∃ n ≤ (run step World.init l).teardownHandlers.length,
      (run step World.init (l ++ .check :: List.replicate n .settled)).phase = .exited 0 := by
  obtain ⟨hgraceful, hdown, -⟩ := shutdown_graceful hl
  have hphase := hgraceful.phase
  have hcount := hgraceful.counted
  have hsignalled := hdown.mpr hsignal
  rw [hnone] at hcount
  simp only [run_append]
  generalize run step World.init l = w at hphase hcount hsignalled hrunning ⊢
  unfold PhaseHolds at hphase
  split at hphase
  · rw [hphase.1] at hsignalled
    cases hsignalled
  · next hp =>
    have hcheck : step w .check = w.teardown 0 := by
      rw [show step w .check = w.check from if_pos hp]
      exact if_pos hcount
    refine ⟨w.teardownHandlers.length, le_rfl, ?_⟩
    rw [run_cons, hcheck]
    cases hhandlers : w.teardownHandlers with
    | nil =>
      simp [World.teardown, hhandlers]
    | cons p rest =>
      have hfirst : (w.teardown 0).phase = .tearingDown 0 := by
        simp [World.teardown, hhandlers]
      refine run_settled _ hfirst ?_ (Nat.succ_pos _)
      rw [(counted_teardown w 0).2.2.1, hhandlers]
      simp
  · next i hp =>
    have hcheck : step w .check = w := if_neg fun h => by rw [hp] at h; cases h
    obtain ⟨hi, -⟩ := hphase.2.2
    refine ⟨w.teardownHandlers.length - i, Nat.sub_le _ _, ?_⟩
    rw [run_cons, hcheck]
    exact run_settled _ hp (by omega) (by omega)
  · next hp => exact absurd hp (hrunning 0)
  · next code _ hp => exact absurd hp (hrunning code)

end Graceful

/-- A request is open when the signal comes, and ends. -/
def sampleRun : List (Action ℕ Unit) :=
  [.request 0, .registerTeardown "dbPool" (), .signal, .request 1, .ended 0]

theorem sampleRun_legal : AllSteps step Legal World.init sampleRun := by
  refine ⟨⟨nofun, nofun⟩, ⟨nofun, nofun⟩, ⟨nofun, nofun⟩, ⟨nofun, ?_⟩, ⟨nofun, nofun⟩, trivial⟩
  intro i hi
  cases hi
  decide

theorem shutdown_graceful_sample : (run step World.init sampleRun).isShuttingDown = true :=
  (shutdown_graceful sampleRun_legal).2.1.mpr (by decide)

theorem shutdown_completes_sample :
    ∃ n ≤ 1, (run step World.init (sampleRun ++ .check :: List.replicate n .settled)).phase =
      .exited 0 :=
  shutdown_completes sampleRun_legal (by decide) rfl nofun

end VestingDripStream.Backend.Shutdown
