import VestingDripStream.Lib.RoundRobin
import VestingDripStream.Backend.Decoder

/-! # The pool of RPC nodes

`rpcPool.ts`: `pick` goes round the nodes from the rotation index on and returns the first one that
is healthy, or whose quarantine is over. The nodes are known by their places in the list, as two of
them may have the same URL. The rotation is the round robin of `Lib.RoundRobin`, so consecutive
picks return the eligible nodes in turn (`pick_roundRobin`). -/

namespace VestingDripStream.Backend.RpcPool

open VestingDripStream.Lib.RoundRobin
open VestingDripStream.Backend.Decoder (trim)

/-- `UNHEALTHY_WINDOW_MS`. -/
def unhealthyWindowMs : ℕ := 60000

/-- `FAILURE_THRESHOLD`. -/
def failureThreshold : ℕ := 3

/-- `NodeState`; the times are in milliseconds. -/
structure NodeState where
  url : String
  healthy : Bool := true
  unhealthyUntil : ℕ := 0
  consecutiveFailures : ℕ := 0
  lastChecked : ℕ := 0
  deriving DecidableEq, Repr

namespace NodeState

/-- `n.healthy || now >= n.unhealthyUntil`. -/
def eligible (now : ℕ) (node : NodeState) : Bool := node.healthy || node.unhealthyUntil ≤ now

/-- A node whose window is over is healthy again, with no failures. -/
def reenter (now : ℕ) (node : NodeState) : NodeState :=
  if node.healthy = false ∧ node.unhealthyUntil ≤ now then
    { node with healthy := true, consecutiveFailures := 0 }
  else node

/-- What a success does to a node. -/
def succeed (node : NodeState) : NodeState :=
  { node with consecutiveFailures := 0, healthy := true, unhealthyUntil := 0 }

/-- What a failure does to a node: it is counted, and may start a window that lasts to `limit`. -/
def fail (limit : ℕ) (node : NodeState) : NodeState :=
  let consecutiveFailures := node.consecutiveFailures + 1
  if failureThreshold ≤ consecutiveFailures ∧ node.healthy = true then
    { node with
      consecutiveFailures := consecutiveFailures
      healthy := false
      unhealthyUntil := limit }
  else { node with consecutiveFailures := consecutiveFailures }

end NodeState

/-- The fields of an `RpcPool`. -/
structure Pool where
  nodes : List NodeState
  rrIndex : ℕ := 0
  deriving DecidableEq, Repr

/-- The constructor. -/
def new (urls : List String) : Pool where
  nodes := urls.map fun url => { url := url }

/-- The loop of `pick`: at most `i` nodes from the rotation index on. It returns the place of a
node. -/
def pickLoop (now : ℕ) : ℕ → Pool → Option ℕ × Pool
  | 0, s => (none, s)
  | i + 1, s =>
    let total := s.nodes.length
    let place := s.rrIndex % total
    match s.nodes[place]? with
    | none => (none, s)
    | some node =>
      let node := node.reenter now
      let s := { nodes := s.nodes.set place node, rrIndex := (s.rrIndex + 1) % total }
      if node.healthy then (some place, s) else pickLoop now i s

/-- `pick`, with the place of the node. -/
def pickNode (now : ℕ) (s : Pool) : Option ℕ × Pool :=
  let total := s.nodes.length
  if total = 0 then (none, s) else pickLoop now total s

/-- The URL of the node at a place. -/
def urlAt (s : Pool) (place : ℕ) : Option String := s.nodes[place]?.map NodeState.url

/-- `pick`. -/
def pick (now : ℕ) (s : Pool) : Option String × Pool :=
  ((pickNode now s).1.bind (urlAt (pickNode now s).2), (pickNode now s).2)

/-- `findNode`, with the place of the node. -/
def findNode (s : Pool) (url : String) : Option ℕ := s.nodes.findIdx? (·.url = url)

/-- The pool with another state of the node at a place. -/
def update (s : Pool) (place : ℕ) (f : NodeState → NodeState) : Pool :=
  { s with nodes := s.nodes.modify place f }

/-- `reportSuccess`. -/
def reportSuccess (url : String) (s : Pool) : Pool :=
  match findNode s url with
  | none => s
  | some place => update s place NodeState.succeed

/-- `reportFailure`. -/
def reportFailure (now : ℕ) (url : String) (s : Pool) : Pool :=
  match findNode s url with
  | none => s
  | some place => update s place (NodeState.fail (now + unhealthyWindowMs))

/-- `RpcNodeStatus`. -/
structure RpcNodeStatus where
  url : String
  healthy : Bool
  consecutiveFailures : ℕ
  unhealthyUntil : Option ℕ
  deriving DecidableEq, Repr

/-- `status`. -/
def status (now : ℕ) (s : Pool) : List RpcNodeStatus :=
  s.nodes.map fun n =>
    ⟨n.url, n.eligible now, n.consecutiveFailures,
      if 0 < n.unhealthyUntil then some n.unhealthyUntil else none⟩

/-- `healthyCount`. -/
def healthyCount (now : ℕ) (s : Pool) : ℕ := (s.nodes.filter (·.eligible now)).length

/-- The variables that `parseRpcUrls` reads. -/
structure Env where
  sorobanRpcUrls : Option String := none
  sorobanRpcUrl : Option String := none

/-- `parseRpcUrls`. -/
def parseRpcUrls (env : Env) : List String :=
  let multi :=
    ((((env.sorobanRpcUrls.getD "").toList.splitOn ',').map String.ofList).map trim).filter (· ≠ "")
  if 0 < multi.length then multi
  else
    match env.sorobanRpcUrl.map trim with
    | none => []
    | some single => if single = "" then [] else [single]

/-! ### One pick -/

section Pick

variable {now : ℕ} {s : Pool} {node : NodeState}

theorem reenter_healthy (now : ℕ) (node : NodeState) :
    (node.reenter now).healthy = node.eligible now := by
  unfold NodeState.reenter NodeState.eligible
  cases hhealthy : node.healthy with
  | true => simp [hhealthy]
  | false => by_cases hover : node.unhealthyUntil ≤ now <;> simp [hhealthy, hover]

theorem reenter_of_not_eligible (h : node.eligible now = false) : node.reenter now = node := by
  unfold NodeState.eligible at h
  simp only [Bool.or_eq_false_iff, decide_eq_false_iff_not] at h
  exact if_neg fun hover => h.2 hover.2

theorem reenter_url (now : ℕ) (node : NodeState) : (node.reenter now).url = node.url := by
  unfold NodeState.reenter
  split_ifs <;> rfl

theorem fail_url (limit : ℕ) (node : NodeState) : (node.fail limit).url = node.url := by
  unfold NodeState.fail
  dsimp only
  split_ifs <;> rfl

/-- The node at a place may be picked. -/
def eligibleAt (s : Pool) (now : ℕ) (place : ℕ) : Bool := s.nodes[place]?.any (·.eligible now)

/-- The pool after a pick that found `found`. -/
def picked (now : ℕ) (s : Pool) (found : Option ℕ) (rrIndex : ℕ) : Pool where
  nodes := found.elim s.nodes fun place => s.nodes.modify place (·.reenter now)
  rrIndex := rrIndex

/-- **The loop** is the search for an eligible node. -/
theorem pickLoop_eq (hpos : 0 < s.nodes.length) (k : ℕ) : pickLoop now k s =
    let r := search (eligibleAt s now) s.nodes.length k s.rrIndex
    (r.1, picked now s r.1 r.2) := by
  induction k generalizing s with
  | zero => rfl
  | succ k ih =>
    have hlt : s.rrIndex % s.nodes.length < s.nodes.length := Nat.mod_lt _ hpos
    have hget := List.getElem?_eq_getElem hlt
    set node := s.nodes[s.rrIndex % s.nodes.length] with hnode
    have heligible : eligibleAt s now (s.rrIndex % s.nodes.length) = node.eligible now := by
      unfold eligibleAt
      rw [hget, Option.any_some]
    rw [pickLoop, search]
    simp only [hget, reenter_healthy, heligible]
    by_cases h : node.eligible now = true
    · -- the node is returned
      rw [if_pos h, if_pos h]
      unfold picked
      rw [Option.elim_some, List.modify_eq_set_getElem?, hget]
      rfl
    · have hself : s.nodes.set (s.rrIndex % s.nodes.length) (node.reenter now) = s.nodes := by
        rw [reenter_of_not_eligible (Bool.eq_false_iff.mpr h), hnode, List.set_getElem_self]
      rw [if_neg h, if_neg h, hself]
      exact ih (s := ⟨s.nodes, (s.rrIndex + 1) % s.nodes.length⟩) hpos

theorem pickNode_eq (now : ℕ) (s : Pool) : pickNode now s =
    let r := search (eligibleAt s now) s.nodes.length s.nodes.length s.rrIndex
    (r.1, picked now s r.1 r.2) := by
  unfold pickNode
  by_cases hzero : s.nodes.length = 0
  · simp only [hzero, search, if_pos]
    rfl
  · simp only [if_neg hzero]
    exact pickLoop_eq (Nat.pos_of_ne_zero hzero) s.nodes.length

theorem length_pickNode (now : ℕ) (s : Pool) :
    (pickNode now s).2.nodes.length = s.nodes.length := by
  rw [pickNode_eq]
  show (Option.elim _ _ _ : List NodeState).length = _
  cases (search (eligibleAt s now) s.nodes.length s.nodes.length s.rrIndex).1 with
  | none => rfl
  | some place => exact List.length_modify ..

/-- A node after a pick: it is as before, unless it was reenterted. -/
theorem pickNode_nodes (now : ℕ) (s : Pool) (place : ℕ) :
    (pickNode now s).2.nodes[place]? = s.nodes[place]? ∨
      (pickNode now s).2.nodes[place]? = s.nodes[place]?.map (·.reenter now) := by
  rw [pickNode_eq]
  show (Option.elim _ _ _ : List NodeState)[place]? = _ ∨ (Option.elim _ _ _ : List _)[place]? = _
  cases (search (eligibleAt s now) s.nodes.length s.nodes.length s.rrIndex).1 with
  | none => exact Or.inl rfl
  | some found =>
    rw [Option.elim_some]
    by_cases hplace : found = place
    · rw [hplace, List.getElem?_modify_eq]
      exact Or.inr rfl
    · rw [List.getElem?_modify_ne _ _ hplace]
      exact Or.inl rfl

theorem urlAt_pickNode (now : ℕ) (s : Pool) : urlAt (pickNode now s).2 = urlAt s := by
  funext place
  unfold urlAt
  rcases pickNode_nodes now s place with hsame | hback
  · rw [hsame]
  · rw [hback, Option.map_map]
    congr 1
    funext node
    exact reenter_url now node

theorem eligibleAt_iff {place : ℕ} : eligibleAt s now place = true ↔
    ∃ node, s.nodes[place]? = some node ∧ node.eligible now = true := by
  unfold eligibleAt
  rw [Option.any_eq_true]

end Pick

/-! ### Picks one after the other -/

/-- The places of the nodes that are picked at the `times`. -/
def pickNodes : Pool → List ℕ → List (Option ℕ)
  | _, [] => []
  | s, now :: times => (pickNode now s).1 :: pickNodes (pickNode now s).2 times

/-- What `pick` returns at the `times`. -/
def picks : Pool → List ℕ → List (Option String)
  | _, [] => []
  | s, now :: times => (pick now s).1 :: picks (pick now s).2 times

/-- The places of the eligible nodes. -/
def eligibleNodes (now : ℕ) (s : Pool) : List ℕ :=
  (List.range s.nodes.length).filter (eligibleAt s now)

/-- The places of the eligible nodes, from the rotation index on and round. -/
def cycle (now : ℕ) (s : Pool) : List ℕ :=
  ((List.range s.nodes.length).rotate s.rrIndex).filter (eligibleAt s now)

section Picks

variable {now : ℕ} {s : Pool}

/-- A pick does not tell times apart at which the same nodes were eligible. -/
theorem eligibleAt_pickNode {now later : ℕ} (h : eligibleAt s now = eligibleAt s later) :
    eligibleAt (pickNode now s).2 later = eligibleAt s later := by
  funext place
  rcases pickNode_nodes now s place with hsame | hback
  · unfold eligibleAt
    rw [hsame]
  · have hplace := congrFun h place
    unfold eligibleAt at hplace ⊢
    rw [hback]
    cases hnode : s.nodes[place]? with
    | none => rfl
    | some node =>
      rw [hnode, Option.any_some, Option.any_some] at hplace
      rw [Option.map_some, Option.any_some, Option.any_some, ← hplace]
      cases heligible : node.eligible now with
      | false => rw [reenter_of_not_eligible heligible, ← hplace, heligible]
      | true =>
        -- the node is healthy from now on
        have hhealthy : (node.reenter now).healthy = true := by rw [reenter_healthy, heligible]
        unfold NodeState.eligible
        rw [hhealthy, Bool.true_or]

/-- The pool as a round robin; the labels are the times of the picks. -/
def rotor : Rotor Pool ℕ where
  size s := s.nodes.length
  index s := s.rrIndex
  eligible := eligibleAt
  step s now := pickNode now s
  size_step s now := length_pickNode now s
  step_eq s now := by rw [pickNode_eq]; rfl
  keeps _ _ _ := eligibleAt_pickNode

theorem pickNodes_eq (s : Pool) (times : List ℕ) : pickNodes s times = rotor.outputs s times := by
  induction times generalizing s with
  | nil => rfl
  | cons now times ih => exact congrArg _ (ih _)

theorem picks_eq (s : Pool) (times : List ℕ) :
    picks s times = (pickNodes s times).map (·.bind (urlAt s)) := by
  induction times generalizing s with
  | nil => rfl
  | cons now times ih =>
    have hrest := ih (pickNode now s).2
    rw [urlAt_pickNode] at hrest
    rw [picks, pickNodes, List.map_cons]
    refine congrArg₂ _ ?_ hrest
    show (pickNode now s).1.bind _ = _
    rw [urlAt_pickNode]

/-- As many nodes are eligible as are counted. -/
theorem length_eligibleNodes (now : ℕ) (s : Pool) :
    (eligibleNodes now s).length = healthyCount now s := by
  have hnodes : (List.range s.nodes.length).map (s.nodes[·]?) = s.nodes.map some := by
    refine List.ext_getElem (by simp) fun i hi hi' => ?_
    rw [List.length_map] at hi'
    rw [List.getElem_map, List.getElem_map, List.getElem_range, List.getElem?_eq_getElem hi']
  have hcount := congrArg (List.countP (Option.any (NodeState.eligible now))) hnodes
  rw [List.countP_map, List.countP_map] at hcount
  unfold eligibleNodes healthyCount
  rw [← List.countP_eq_length_filter, ← List.countP_eq_length_filter]
  exact hcount

/-- The first of the cycle is picked. -/
theorem pickNode_eq_head? (now : ℕ) (s : Pool) : (pickNode now s).1 = (cycle now s).head? := by
  rw [pickNode_eq]
  exact (search_turns (eligibleAt s now) s.nodes.length s.rrIndex).1

theorem pick_of_pickNode (now : ℕ) (s : Pool) :
    (pick now s).1 = (pickNode now s).1.bind (urlAt s) := by
  unfold pick
  rw [urlAt_pickNode]

/-- A pick finds a node exactly if one is eligible. -/
theorem pick_eq_none_iff (now : ℕ) (s : Pool) : (pick now s).1 = none ↔ healthyCount now s = 0 := by
  have hperm := (turns_perm (eligibleAt s now) s.nodes.length s.rrIndex).length_eq
  rw [← length_eligibleNodes, pick_of_pickNode, pickNode_eq_head?]
  show _ ↔ ((List.range s.nodes.length).filter (eligibleAt s now)).length = 0
  rw [← hperm, List.length_eq_zero_iff]
  show (cycle now s).head?.bind _ = none ↔ cycle now s = []
  cases hcycle : cycle now s with
  | nil => exact iff_of_true rfl rfl
  | cons place rest =>
    have hmem : place ∈ cycle now s := by rw [hcycle]; exact List.mem_cons_self
    obtain ⟨node, hnode, -⟩ := eligibleAt_iff.mp (mem_turns.mp hmem).2
    refine iff_of_false ?_ (List.cons_ne_nil _ _)
    rw [List.head?_cons, Option.bind_some, urlAt, hnode]
    exact Option.some_ne_none _

/-- The URL that a pick returns is an eligible node's. -/
theorem eligible_of_pick {url : String} (h : (pick now s).1 = some url) :
    ∃ node ∈ s.nodes, node.url = url ∧ node.eligible now = true := by
  rw [pick_of_pickNode, pickNode_eq_head?, Option.bind_eq_some_iff] at h
  obtain ⟨place, hplace, hurl⟩ := h
  obtain ⟨node, hnode, heligible⟩ :=
    eligibleAt_iff.mp (mem_turns.mp (List.mem_of_head? hplace)).2
  rw [urlAt, hnode, Option.map_some, Option.some.injEq] at hurl
  exact ⟨node, List.mem_of_getElem? hnode, hurl, heligible⟩

/-- The places that are eligible, if the nodes are. -/
theorem eligibleAt_congr {later : ℕ}
    (h : ∀ node ∈ s.nodes, node.eligible later = node.eligible now) :
    eligibleAt s later = eligibleAt s now := by
  funext place
  unfold eligibleAt
  cases hnode : s.nodes[place]? with
  | none => rfl
  | some node => exact h node (List.mem_of_getElem? hnode)

/-- As many picks as nodes are eligible return each of them. -/
theorem pickNodes_perm {times : List ℕ}
    (h : ∀ t ∈ times, ∀ node ∈ s.nodes, node.eligible t = node.eligible now)
    (hlen : times.length = healthyCount now s) :
    (pickNodes s times).Perm ((eligibleNodes now s).map some) := by
  rw [pickNodes_eq]
  refine rotor.outputs_perm (fun t ht => eligibleAt_congr (h t ht)) ?_
  rw [hlen, ← length_eligibleNodes]
  rfl

/-- `pick` returns nothing exactly if no node is eligible, and otherwise an eligible node. Picks
between which no node becomes eligible return the eligible nodes in the cyclic order of the list,
and as many of them as there are eligible nodes return each of these once. -/
theorem pick_roundRobin (now : ℕ) (s : Pool) :
    ((pick now s).1 = none ↔ healthyCount now s = 0) ∧
    (∀ url, (pick now s).1 = some url →
      ∃ node ∈ s.nodes, node.url = url ∧ (node.healthy = true ∨ node.unhealthyUntil ≤ now)) ∧
    ∀ times : List ℕ,
      (∀ t ∈ times, ∀ node ∈ s.nodes, node.eligible t = node.eligible now) →
      picks s times = (pickNodes s times).map (·.bind (urlAt s)) ∧
      pickNodes s times = (List.range times.length).map
        (fun j => (cycle now s)[j % (cycle now s).length]?) ∧
      (times.length = healthyCount now s →
        (pickNodes s times).Perm ((eligibleNodes now s).map some)) := by
  refine ⟨pick_eq_none_iff now s, fun url hurl => ?_, fun times h => ⟨picks_eq s times, ?_, ?_⟩⟩
  · obtain ⟨node, hnode, rfl, heligible⟩ := eligible_of_pick hurl
    unfold NodeState.eligible at heligible
    rw [Bool.or_eq_true, decide_eq_true_iff] at heligible
    exact ⟨node, hnode, rfl, heligible⟩
  · rw [pickNodes_eq]
    exact rotor.outputs_eq fun t ht => eligibleAt_congr (h t ht)
  · exact pickNodes_perm h

/-- Three nodes, of which the second one is in quarantine until the time 5. -/
def samplePool : Pool where
  nodes := [{ url := "a" }, { url := "b", healthy := false, unhealthyUntil := 5 }, { url := "c" }]

theorem pick_roundRobin_sample : pickNodes samplePool [3, 4] = [some 0, some 2] := by
  have hturns := ((pick_roundRobin 3 samplePool).2.2 [3, 4] (by decide)).2.1
  exact hturns.trans (by decide)

end Picks

end VestingDripStream.Backend.RpcPool
