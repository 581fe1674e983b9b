import VestingDripStream.Backend.RpcPool
import VestingDripStream.Lib.Run

/-! # Runs of the pool of RPC nodes

Picks, reports and health checks follow each other in any order, while checks are in flight. The
world keeps the outcomes that were recorded for the URLs. A URL whose last outcomes are all failures
should not be picked until a window after the latest of them; `respected_iff_allSteps` says which
runs of `rpcPool.ts` respect this. -/

namespace VestingDripStream.Backend.RpcQuarantine

open VestingDripStream.Lib.Run
open VestingDripStream.Backend.RpcPool

/-- A health check that waits for its answer. -/
structure Check where
  place : ℕ
  now : ℕ
  deriving DecidableEq, Repr

/-- The outcome of a call or of a health check. -/
structure Outcome where
  url : String
  time : ℕ
  failed : Bool
  deriving DecidableEq, Repr

/-- The pool, the checks in flight, and the outcomes so far, the latest one first. -/
structure World where
  pool : Pool
  clock : ℕ := 0
  checks : List Check := []
  outcomes : List Outcome := []
  deriving DecidableEq, Repr

/-- A call of the pool; `now` is its time. -/
inductive Action
  | pick (now : ℕ)
  | reportSuccess (url : String) (now : ℕ)
  | reportFailure (url : String) (now : ℕ)
  /-- `checkNode` is called for the node at a place, as `runHealthChecks` does for all of them. -/
  | startCheck (place : ℕ) (now : ℕ)
  /-- The answer to the `i`-th check in flight is there, good (`ok`) or bad. -/
  | finishCheck (i : ℕ) (ok : Bool) (now : ℕ)
  deriving DecidableEq, Repr

/-- The time of the call. -/
def Action.time : Action → ℕ
  | .pick now | .reportSuccess _ now | .reportFailure _ now | .startCheck _ now
  | .finishCheck _ _ now => now

/-- `checkNode` until it waits, and whether it asks the node. -/
def startCheck (now place : ℕ) (s : Pool) : Pool × Bool :=
  match s.nodes[place]? with
  | none => (s, false)
  | some node =>
    (update s place ({ · with lastChecked := now }),
      ¬ (node.healthy = false ∧ now < node.unhealthyUntil))

/-- `checkNode` from the answer on; a window counts from the start of the check. -/
def finishCheck (c : Check) (ok : Bool) (s : Pool) : Pool :=
  update s c.place (if ok then NodeState.succeed else NodeState.fail (c.now + unhealthyWindowMs))

/-- An outcome as it is recorded: for which node, and from when on its window would count. -/
structure Recorded where
  place : ℕ
  url : String
  failed : Bool
  start : ℕ
  deriving DecidableEq, Repr

/-- What an action records. -/
def recorded (w : World) : Action → Option Recorded
  | .pick _ | .startCheck _ _ => none
  | .reportSuccess url now => (findNode w.pool url).map fun place => ⟨place, url, false, now⟩
  | .reportFailure url now => (findNode w.pool url).map fun place => ⟨place, url, true, now⟩
  | .finishCheck i ok _ => do
    let c ← w.checks[i]?
    let url ← urlAt w.pool c.place
    return ⟨c.place, url, !ok, c.now⟩

/-- The pool after the call. -/
def poolStep (w : World) : Action → Pool
  | .pick now => (pick now w.pool).2
  | .reportSuccess url _ => reportSuccess url w.pool
  | .reportFailure url now => reportFailure now url w.pool
  | .startCheck place now => (startCheck now place w.pool).1
  | .finishCheck i ok _ =>
    match w.checks[i]? with
    | none => w.pool
    | some c => finishCheck c ok w.pool

/-- The checks in flight after the call. -/
def checksStep (w : World) : Action → List Check
  | .startCheck place now =>
    if (startCheck now place w.pool).2 then w.checks ++ [⟨place, now⟩] else w.checks
  | .finishCheck i _ _ => w.checks.eraseIdx i
  | .pick _ | .reportSuccess _ _ | .reportFailure _ _ => w.checks

/-- One call, with what it reports of a node. -/
def step (w : World) (a : Action) : World where
  pool := poolStep w a
  clock := a.time
  checks := checksStep w a
  outcomes :=
    match recorded w a with
    | none => w.outcomes
    | some r => ⟨r.url, a.time, r.failed⟩ :: w.outcomes

/-- Time does not run backwards. -/
def Legal (w : World) (a : Action) : Prop := w.clock ≤ a.time

instance (w : World) (a : Action) : Decidable (Legal w a) := by unfold Legal; infer_instance

/-- The pool of the URLs that are configured. -/
def initial (env : Env) : World where
  pool := new (parseRpcUrls env)

/-! ### What should hold -/

/-- The last `k` outcomes of a list are failures. -/
def Failing (k : ℕ) (outcomes : List Outcome) : Prop :=
  k ≤ outcomes.length ∧ ∀ o ∈ outcomes.take k, o.failed = true

instance (k : ℕ) (outcomes : List Outcome) : Decidable (Failing k outcomes) := by
  unfold Failing; infer_instance

/-- The outcomes that were recorded for a URL. -/
def outcomesOf (w : World) (url : String) : List Outcome := w.outcomes.filter (·.url = url)

/-- The last outcomes for the URL, as many as the threshold, are failures, the latest at `t`. -/
def FailedAt (w : World) (url : String) (t : ℕ) : Prop :=
  Failing failureThreshold (outcomesOf w url) ∧
    (outcomesOf w url).head?.map Outcome.time = some t

instance (w : World) (url : String) (t : ℕ) : Decidable (FailedAt w url t) := by
  unfold FailedAt; infer_instance

/-- No picks from now on return a URL less than a window after its last failure, if it and those
before it complete the threshold. -/
def Respected (w : World) : Prop :=
  ∀ url t, FailedAt w url t → ∀ times : List ℕ, times.Pairwise (· ≤ ·) →
    (∀ now ∈ times, w.clock ≤ now ∧ now < t + unhealthyWindowMs) → some url ∉ picks w.pool times

/-- The node is in quarantine, at least to `limit`. -/
def Quarantined (limit : ℕ) (node : NodeState) : Prop :=
  node.healthy = false ∧ limit ≤ node.unhealthyUntil

/-- A failure recorded `now` leaves the node in quarantine for a window: it is healthy, the failure
completes the threshold of those that are counted, and the window counts from now; or it is in
quarantine for that long already. -/
def StaysOut (start now : ℕ) (node : NodeState) : Prop :=
  (node.healthy = true ∧ failureThreshold ≤ node.consecutiveFailures + 1 ∧ now ≤ start) ∨
    Quarantined (now + unhealthyWindowMs) node

/-- A failure that completes the threshold of the URL's outcomes finds all nodes with the URL ready:
the node that failed is left in quarantine, and the others are in it. -/
def Effective (w : World) (a : Action) : Prop :=
  ∀ r, recorded w a = some r → r.failed = true →
    Failing (failureThreshold - 1) (outcomesOf w r.url) →
    ∀ place node, w.pool.nodes[place]? = some node → node.url = r.url →
      if place = r.place then StaysOut r.start a.time node
      else Quarantined (a.time + unhealthyWindowMs) node

/-! ### Picks and quarantine -/

section Picks

variable {s : Pool} {node node' : NodeState} {now limit : ℕ} {url : String}

/-- A node as others left it: unless it was eligible it is healthy or not, and its window ends, as
before. -/
def Kept (now : ℕ) (node node' : NodeState) : Prop :=
  node'.url = node.url ∧ (node.eligible now = false →
    node'.healthy = node.healthy ∧ node'.unhealthyUntil = node.unhealthyUntil)

theorem not_eligible_of_quarantined (h : Quarantined limit node) (hnow : now < limit) :
    node.eligible now = false := by
  obtain ⟨hhealthy, huntil⟩ := h
  unfold NodeState.eligible
  rw [hhealthy, Bool.false_or, decide_eq_false_iff_not]
  omega

theorem Kept.quarantined (h : Kept now node node') (hq : Quarantined limit node)
    (hnow : now < limit) : Quarantined limit node' := by
  obtain ⟨hhealthy, huntil⟩ := h.2 (not_eligible_of_quarantined hq hnow)
  unfold Quarantined at hq ⊢
  rwa [hhealthy, huntil]

/-- A pick keeps the nodes. -/
theorem kept_pick {place : ℕ} (h : (pick now s).2.nodes[place]? = some node') :
    ∃ node, s.nodes[place]? = some node ∧ Kept now node node' := by
  rcases pickNode_nodes now s place with hsame | hback
  · exact ⟨node', hsame.symm.trans h, rfl, fun _ => ⟨rfl, rfl⟩⟩
  · obtain ⟨node, hnode, rfl⟩ := Option.map_eq_some_iff.mp (hback.symm.trans h)
    refine ⟨node, hnode, reenter_url now node, fun heligible => ?_⟩
    rw [reenter_of_not_eligible heligible]
    exact ⟨rfl, rfl⟩

/-- Picks do not return a URL whose nodes are in quarantine. -/
theorem not_mem_picks {times : List ℕ}
    (h : ∀ node ∈ s.nodes, node.url = url → Quarantined limit node)
    (ht : ∀ now ∈ times, now < limit) : some url ∉ picks s times := by
  induction times generalizing s with
  | nil => exact List.not_mem_nil
  | cons now times ih =>
    have hnow := ht now List.mem_cons_self
    rw [picks, List.mem_cons, not_or]
    constructor
    · intro hurl
      obtain ⟨node, hnode, hsame, heligible⟩ := eligible_of_pick hurl.symm
      rw [not_eligible_of_quarantined (h node hnode hsame) hnow] at heligible
      cases heligible
    · refine ih (fun node' hnode' hurl => ?_) fun t hmem => ht t (List.mem_cons_of_mem now hmem)
      obtain ⟨place, hplace⟩ := List.getElem?_of_mem hnode'
      obtain ⟨node, hnode, hkept⟩ := kept_pick hplace
      exact hkept.quarantined (h node (List.mem_of_getElem? hnode) (hkept.1 ▸ hurl)) hnow

/-- Some of as many picks as there are eligible nodes returns the URL of a given one. -/
theorem mem_picks (h : node ∈ s.nodes) (heligible : node.eligible now = true) :
    some node.url ∈ picks s (List.replicate (healthyCount now s) now) := by
  obtain ⟨place, hplace⟩ := List.getElem?_of_mem h
  have hperm : (pickNodes s (List.replicate (healthyCount now s) now)).Perm
      ((eligibleNodes now s).map some) := by
    refine pickNodes_perm (fun t ht node _ => ?_) List.length_replicate
    rw [List.eq_of_mem_replicate ht]
  have hmem : some place ∈ pickNodes s (List.replicate (healthyCount now s) now) := by
    rw [hperm.mem_iff]
    refine List.mem_map_of_mem ?_
    unfold eligibleNodes
    rw [List.mem_filter, List.mem_range]
    obtain ⟨hlt, -⟩ := List.getElem?_eq_some_iff.mp hplace
    exact ⟨hlt, eligibleAt_iff.mpr ⟨node, hplace, heligible⟩⟩
  rw [picks_eq]
  refine List.mem_map.mpr ⟨some place, hmem, ?_⟩
  rw [Option.bind_some, urlAt, hplace]
  rfl

/-- No picks before `limit` return a URL exactly if its nodes are in quarantine until then. -/
theorem not_mem_picks_iff {clock : ℕ} (hclock : clock < limit) :
    (∀ times : List ℕ, times.Pairwise (· ≤ ·) → (∀ now ∈ times, clock ≤ now ∧ now < limit) →
      some url ∉ picks s times) ↔
    ∀ node ∈ s.nodes, node.url = url → Quarantined limit node := by
  constructor
  · intro h node hnode hurl
    by_contra hout
    -- a time before `limit` at which the node is eligible
    have htime : ∃ now, clock ≤ now ∧ now < limit ∧ node.eligible now = true := by
      unfold Quarantined at hout
      by_cases hhealthy : node.healthy = true
      · exact ⟨clock, le_rfl, hclock, by unfold NodeState.eligible; rw [hhealthy, Bool.true_or]⟩
      · rw [Bool.not_eq_true] at hhealthy
        have huntil : node.unhealthyUntil < limit := by
          by_contra hge
          exact hout ⟨hhealthy, by omega⟩
        refine ⟨max clock node.unhealthyUntil, le_max_left _ _, max_lt hclock huntil, ?_⟩
        unfold NodeState.eligible
        rw [Bool.or_eq_true, decide_eq_true_iff]
        exact Or.inr (le_max_right _ _)
    obtain ⟨now, hle, hlt, heligible⟩ := htime
    refine h (List.replicate (healthyCount now s) now) ?_ ?_ (hurl ▸ mem_picks hnode heligible)
    · exact List.pairwise_replicate.mpr (Or.inr le_rfl)
    · intro t ht
      rw [List.eq_of_mem_replicate ht]
      exact ⟨hle, hlt⟩
  · exact fun h times _ ht => not_mem_picks h fun now hnow => (ht now hnow).2

end Picks

/-! ### One step -/

section Step

variable {w : World} {a : Action} {r : Recorded} {node : NodeState} {url : String} {start now : ℕ}

/-- `Respected`, in terms of the nodes. -/
theorem respected_iff (w : World) : Respected w ↔ ∀ url t, FailedAt w url t →
    w.clock < t + unhealthyWindowMs →
    ∀ node ∈ w.pool.nodes, node.url = url → Quarantined (t + unhealthyWindowMs) node := by
  unfold Respected
  constructor
  · intro h url t hfailed hclock
    exact (not_mem_picks_iff hclock).mp (h url t hfailed)
  · intro h url t hfailed
    by_cases hclock : w.clock < t + unhealthyWindowMs
    · exact (not_mem_picks_iff hclock).mpr (h url t hfailed hclock)
    · -- the window is over
      intro times _ ht
      cases times with
      | nil => exact List.not_mem_nil
      | cons now times =>
        have hnow := ht now List.mem_cons_self
        omega

/-- What a failure does to quarantine. -/
theorem quarantined_fail_iff : Quarantined (now + unhealthyWindowMs)
    (node.fail (start + unhealthyWindowMs)) ↔ StaysOut start now node := by
  unfold Quarantined StaysOut NodeState.fail
  cases hhealthy : node.healthy with
  | false => simp [Quarantined, hhealthy]
  | true =>
    by_cases hcount : failureThreshold ≤ node.consecutiveFailures + 1
    · simp [Quarantined, hhealthy, hcount]
    · simp [Quarantined, hhealthy, hcount]

/-- The node for which an outcome is recorded has its URL. -/
theorem url_of_recorded (h : recorded w a = some r) : urlAt w.pool r.place = some r.url := by
  have hfind : ∀ {url place}, findNode w.pool url = some place →
      urlAt w.pool place = some url := by
    intro url place hplace
    unfold findNode at hplace
    obtain ⟨hlt, hurl, -⟩ := List.findIdx?_eq_some_iff_getElem.mp hplace
    unfold urlAt
    rw [List.getElem?_eq_getElem hlt, Option.map_some, of_decide_eq_true hurl]
  cases a with
  | pick now => cases h
  | startCheck place now => cases h
  | reportSuccess url now =>
    obtain ⟨place, hplace, rfl⟩ := Option.map_eq_some_iff.mp h
    exact hfind hplace
  | reportFailure url now =>
    obtain ⟨place, hplace, rfl⟩ := Option.map_eq_some_iff.mp h
    exact hfind hplace
  | finishCheck i ok now =>
    obtain ⟨c, -, hc⟩ := Option.bind_eq_some_iff.mp h
    obtain ⟨url, hurl, hr⟩ := Option.bind_eq_some_iff.mp hc
    obtain rfl := Option.some.inj hr
    exact hurl

/-- What a recorded outcome does to the pool. -/
theorem poolStep_of_recorded (h : recorded w a = some r) : poolStep w a = update w.pool r.place
    (if r.failed = true then NodeState.fail (r.start + unhealthyWindowMs)
      else NodeState.succeed) := by
  cases a with
  | pick now => cases h
  | startCheck place now => cases h
  | reportSuccess url now =>
    obtain ⟨place, hplace, rfl⟩ := Option.map_eq_some_iff.mp h
    simp only [poolStep, reportSuccess, hplace]
    rfl
  | reportFailure url now =>
    obtain ⟨place, hplace, rfl⟩ := Option.map_eq_some_iff.mp h
    simp only [poolStep, reportFailure, hplace]
    rfl
  | finishCheck i ok now =>
    obtain ⟨c, hcheck, hc⟩ := Option.bind_eq_some_iff.mp h
    obtain ⟨url, -, hr⟩ := Option.bind_eq_some_iff.mp hc
    obtain rfl := Option.some.inj hr
    simp only [poolStep, hcheck, finishCheck]
    cases ok <;> rfl

/-- An action that records nothing keeps the nodes. -/
theorem kept_of_not_recorded (h : recorded w a = none) {node' : NodeState}
    (hnode' : node' ∈ (poolStep w a).nodes) :
    ∃ node ∈ w.pool.nodes, Kept a.time node node' := by
  have hsame : ∀ {now}, node' ∈ w.pool.nodes → ∃ node ∈ w.pool.nodes, Kept now node node' :=
    fun hmem => ⟨node', hmem, rfl, fun _ => ⟨rfl, rfl⟩⟩
  cases a with
  | pick now =>
    obtain ⟨place, hplace⟩ := List.getElem?_of_mem hnode'
    obtain ⟨node, hnode, hkept⟩ := kept_pick hplace
    exact ⟨node, List.mem_of_getElem? hnode, hkept⟩
  | reportSuccess url now =>
    have hnone := Option.map_eq_none_iff.mp h
    simp only [poolStep, reportSuccess, hnone] at hnode'
    exact hsame hnode'
  | reportFailure url now =>
    have hnone := Option.map_eq_none_iff.mp h
    simp only [poolStep, reportFailure, hnone] at hnode'
    exact hsame hnode'
  | startCheck place now =>
    unfold poolStep startCheck at hnode'
    cases hplace : w.pool.nodes[place]? with
    | none =>
      simp only [hplace] at hnode'
      exact hsame hnode'
    | some node =>
      simp only [hplace] at hnode'
      obtain ⟨j, hj⟩ := List.getElem?_of_mem hnode'
      simp only [update, List.getElem?_modify] at hj
      obtain ⟨old, hold, rfl⟩ := Option.map_eq_some_iff.mp hj
      refine ⟨old, List.mem_of_getElem? hold, ?_⟩
      split_ifs <;> exact ⟨rfl, fun _ => ⟨rfl, rfl⟩⟩
  | finishCheck i ok now =>
    cases hcheck : w.checks[i]? with
    | none =>
      simp only [poolStep, hcheck] at hnode'
      exact hsame hnode'
    | some c =>
      -- the check is for no node
      have hurl : urlAt w.pool c.place = none := by
        simp only [recorded, hcheck] at h
        cases hurl : urlAt w.pool c.place with
        | none => rfl
        | some url =>
          simp only [Option.bind_eq_bind, Option.bind_some, hurl] at h
          cases h
      have hlen : w.pool.nodes.length ≤ c.place :=
        List.getElem?_eq_none_iff.mp (Option.map_eq_none_iff.mp hurl)
      simp only [poolStep, hcheck, finishCheck, update] at hnode'
      rw [List.modify_eq_self hlen] at hnode'
      exact hsame hnode'

theorem failing_cons {k : ℕ} {o : Outcome} {l : List Outcome} :
    Failing (k + 1) (o :: l) ↔ o.failed = true ∧ Failing k l := by
  unfold Failing
  rw [List.length_cons, List.take_succ_cons, List.forall_mem_cons, Nat.add_le_add_iff_right]
  tauto

theorem outcomesOf_of_not_recorded (h : recorded w a = none) (url : String) :
    outcomesOf (step w a) url = outcomesOf w url := by
  unfold outcomesOf step
  rw [h]

theorem outcomesOf_of_recorded (h : recorded w a = some r) (url : String) :
    outcomesOf (step w a) url =
      if r.url = url then ⟨url, a.time, r.failed⟩ :: outcomesOf w url else outcomesOf w url := by
  unfold outcomesOf step
  rw [h]
  by_cases hurl : r.url = url
  · rw [if_pos hurl, ← hurl]
    exact List.filter_cons_of_pos (decide_eq_true rfl)
  · rw [if_neg hurl]
    exact List.filter_cons_of_neg (by simpa using hurl)

theorem failedAt_congr {w' : World} {t : ℕ} (h : outcomesOf w' url = outcomesOf w url) :
    FailedAt w' url t ↔ FailedAt w url t := by
  unfold FailedAt
  rw [h]

/-- The outcome that was just recorded is the latest one for its URL. -/
theorem failedAt_of_recorded (h : recorded w a = some r) {t : ℕ} :
    FailedAt (step w a) r.url t ↔ r.failed = true ∧ t = a.time ∧
      Failing (failureThreshold - 1) (outcomesOf w r.url) := by
  unfold FailedAt
  rw [outcomesOf_of_recorded h, if_pos rfl]
  show Failing (failureThreshold - 1 + 1) _ ∧ _ ↔ _
  rw [failing_cons, List.head?_cons, Option.map_some, Option.some.injEq]
  tauto

/-- The node at a place after an outcome was recorded. -/
theorem nodes_of_recorded (h : recorded w a = some r) (place : ℕ) :
    (step w a).pool.nodes[place]? = w.pool.nodes[place]?.map fun node =>
      if r.place = place then
        (if r.failed = true then node.fail (r.start + unhealthyWindowMs) else node.succeed)
      else node := by
  show (poolStep w a).nodes[place]? = _
  rw [poolStep_of_recorded h, update, List.getElem?_modify]
  show Option.map _ _ = _
  congr 1
  funext node
  split_ifs <;> rfl

/-- The nodes of another URL are as before. -/
theorem mem_nodes_of_ne (h : recorded w a = some r) (hurl : node.url ≠ r.url)
    (hnode : node ∈ (step w a).pool.nodes) : node ∈ w.pool.nodes := by
  obtain ⟨place, hplace⟩ := List.getElem?_of_mem hnode
  rw [nodes_of_recorded h] at hplace
  obtain ⟨old, hold, hnew⟩ := Option.map_eq_some_iff.mp hplace
  by_cases hhere : r.place = place
  · -- the node at this place has the URL
    have hrecorded := url_of_recorded h
    rw [hhere, urlAt, hold, Option.map_some, Option.some.injEq] at hrecorded
    rw [if_pos hhere] at hnew
    refine absurd ?_ hurl
    rw [← hnew, ← hrecorded]
    split_ifs
    · exact fail_url _ old
    · rfl
  · rw [if_neg hhere] at hnew
    exact hnew ▸ List.mem_of_getElem? hold

/-- After a failure the nodes of the URL are in quarantine exactly if it was effective. -/
theorem quarantined_of_failure_iff (h : recorded w a = some r) (hfailed : r.failed = true) :
    (∀ node ∈ (step w a).pool.nodes, node.url = r.url →
      Quarantined (a.time + unhealthyWindowMs) node) ↔
    ∀ (place : ℕ) (node : NodeState), w.pool.nodes[place]? = some node → node.url = r.url →
      if place = r.place then StaysOut r.start a.time node
      else Quarantined (a.time + unhealthyWindowMs) node := by
  have hplaces : (∀ node ∈ (step w a).pool.nodes, node.url = r.url →
      Quarantined (a.time + unhealthyWindowMs) node) ↔
      ∀ (place : ℕ) (node : NodeState), (step w a).pool.nodes[place]? = some node →
        node.url = r.url → Quarantined (a.time + unhealthyWindowMs) node := by
    constructor
    · intro hall place node hplace
      exact hall node (List.mem_of_getElem? hplace)
    · intro hall node hnode
      obtain ⟨place, hplace⟩ := List.getElem?_of_mem hnode
      exact hall place node hplace
  rw [hplaces]
  refine forall_congr' fun place => ?_
  rw [nodes_of_recorded h place]
  cases w.pool.nodes[place]? with
  | none => simp
  | some node =>
    by_cases hplace : r.place = place
    · simp only [Option.map_some, Option.some.injEq, forall_eq', if_pos hplace, if_pos hfailed,
        if_pos hplace.symm, fail_url, quarantined_fail_iff]
    · simp only [Option.map_some, Option.some.injEq, forall_eq', if_neg hplace,
        if_neg (Ne.symm hplace)]

/-- **One step** keeps the quarantine exactly if it is effective. -/
theorem respected_step_iff (hlegal : Legal w a) (h : Respected w) :
    Respected (step w a) ↔ Effective w a := by
  rw [respected_iff] at h ⊢
  have hlater : ∀ {t}, (step w a).clock < t + unhealthyWindowMs →
      w.clock < t + unhealthyWindowMs := lt_of_le_of_lt hlegal
  cases hrecorded : recorded w a with
  | none =>
    refine iff_of_true (fun url t hfailed hclock node' hnode' hurl => ?_) fun r hr => ?_
    · obtain ⟨node, hnode, hkept⟩ := kept_of_not_recorded hrecorded hnode'
      have hbefore := (failedAt_congr (outcomesOf_of_not_recorded hrecorded url)).mp hfailed
      exact hkept.quarantined (h url t hbefore (hlater hclock) node hnode (hkept.1 ▸ hurl)) hclock
    · rw [hrecorded] at hr
      cases hr
  | some r =>
    -- only the URL of the outcome matters
    have hothers : ∀ url t, url ≠ r.url → FailedAt (step w a) url t →
        (step w a).clock < t + unhealthyWindowMs →
        ∀ node ∈ (step w a).pool.nodes, node.url = url →
          Quarantined (t + unhealthyWindowMs) node := by
      intro url t hne hfailed hclock node hnode hurl
      have hsame := outcomesOf_of_recorded hrecorded url
      rw [if_neg (Ne.symm hne)] at hsame
      exact h url t ((failedAt_congr hsame).mp hfailed) (hlater hclock) node
        (mem_nodes_of_ne hrecorded (hurl ▸ hne) hnode) hurl
    have hwindow : (step w a).clock < a.time + unhealthyWindowMs :=
      Nat.lt_add_of_pos_right (by decide)
    constructor
    · intro hafter r' hr' hfailed hfailing
      obtain rfl := Option.some.inj (hrecorded.symm.trans hr')
      rw [← quarantined_of_failure_iff hrecorded hfailed]
      exact hafter r.url a.time
        ((failedAt_of_recorded hrecorded).mpr ⟨hfailed, rfl, hfailing⟩) hwindow
    · intro heffective url t hfailedAt hclock
      by_cases hurl : url = r.url
      · subst hurl
        obtain ⟨hfailed, rfl, hfailing⟩ := (failedAt_of_recorded hrecorded).mp hfailedAt
        exact (quarantined_of_failure_iff hrecorded hfailed).mpr
          (heffective r hrecorded hfailed hfailing)
      · exact hothers url t hurl hfailedAt hclock

end Step

/-! ### Runs -/

theorem respected_initial (env : Env) : Respected (initial env) := by
  rintro url t ⟨⟨hlen, -⟩, -⟩
  -- nothing has been recorded yet
  exact absurd hlen (show ¬ failureThreshold ≤ 0 by decide)

/-- Along a run from any configured URLs a URL whose last outcomes are failures stays out exactly if
every failure is effective. -/
theorem respected_iff_allSteps (env : Env) (l : List Action)
    (hl : AllSteps step Legal (initial env) l) :
    AllStates step Respected (initial env) l ↔ AllSteps step Effective (initial env) l :=
  allStates_iff_allSteps (fun _ _ (_ : True) _ => trivial)
    (fun _ _ _ hlegal h => respected_step_iff hlegal h) trivial hl (respected_initial env)

/-- One node. -/
def oneNode : Env where
  sorobanRpcUrl := some "a"

theorem respected_iff_allSteps_sample :
    AllStates step Respected (initial oneNode)
      [.reportFailure "a" 0, .reportFailure "a" 1, .reportFailure "a" 2] ↔
    AllSteps step Effective (initial oneNode)
      [.reportFailure "a" 0, .reportFailure "a" 1, .reportFailure "a" 2] :=
  respected_iff_allSteps oneNode _ (by decide +kernel)

/-- The same URL twice. -/
def twice : Env where
  sorobanRpcUrls := some "a,a"

/-- The second node with the URL is picked after three failures. -/
theorem repeated_url_picked :
    AllSteps step Legal (initial twice)
      [.reportFailure "a" 0, .reportFailure "a" 1, .reportFailure "a" 2] ∧
    ¬ AllStates step Respected (initial twice)
      [.reportFailure "a" 0, .reportFailure "a" 1, .reportFailure "a" 2] := by
  refine ⟨by decide +kernel, fun h => ?_⟩
  exact h.last "a" 2 (by decide +kernel) [3] (by decide) (by decide +kernel) (by decide +kernel)

end VestingDripStream.Backend.RpcQuarantine
