import VestingDripStream.Lib.Run
import VestingDripStream.Lib.Buckets

/-! # Who is subscribed to what

The subscription registry of `ws.ts`: a map from recipients to sets of clients, shared by all
connections, next to the variable `subscribedRecipient` of each connection. A message may subscribe,
a close or an error unsubscribes, and the idle sweep removes clients from the sets without telling
the connection. Every handler runs to its end before the next one starts, so a run is a list of
handler calls, in any order.

`Owned` says that a client is in no set but the one its connection knows of. From it `mem_step` says
what one handler does to the membership of a client, and `registry_consistent` what a run leaves:
the set of a recipient holds the clients that subscribed to it and have not left since. -/

namespace VestingDripStream.Backend.Subscriptions

open VestingDripStream.Lib.Run VestingDripStream.Lib.Buckets

/-! ### Messages -/

/-- A field of a parsed message: a string, or whether it is truthy. -/
inductive Field
  | text (s : String)
  | falsy
  | truthy
  deriving DecidableEq, Repr

/-- A message, as `JSON.parse` leaves it: reading a field of `null` throws. -/
inductive Message
  | invalid
  | null
  | parsed (type recipient : Field)
  deriving DecidableEq, Repr

/-- How the handler of a message goes on. -/
inductive Outcome
  | reply (error : String)
  | thrown
  | subscribe (recipient : String)
  deriving DecidableEq, Repr

/-- `!field`. -/
def Field.isFalsy : Field → Bool
  | .text s => s = ""
  | .falsy => true
  | .truthy => false

/-- `typeof field === "string"`. -/
def Field.isText : Field → Bool
  | .text _ => true
  | _ => false

/-- The checks of the message handler: the typed protocol and the one that names just a
recipient. -/
def outcome : Message → Outcome
  | .invalid => .reply "invalid JSON"
  | .null => .thrown
  | .parsed type recipient =>
    let isNewProtocol := decide (type = .text "subscribe")
    let isLegacyProtocol := recipient.isText && type.isFalsy
    if !isNewProtocol && !isLegacyProtocol then
      .reply "expected \x7b \"type\": \"subscribe\", \"recipient\": \"G...\" \x7d"
    else match recipient with
      | .text r => if r = "" then .reply "recipient required" else .subscribe r
      | _ => .reply "recipient required"

/-! ### The registry -/

/-- The map `subscriptions`, and of each connection `subscribedRecipient` and `lastActivityAt`. -/
structure Server (C : Type) where
  subscriptions : Sets String C
  subscribedRecipient : C → Option String
  lastActivityAt : C → ℤ

/-- The calls of handlers: a message at a time, a close, an error, and the idle sweep at a time. -/
inductive Handler (C : Type)
  | message (c : C) (now : ℤ) (raw : Message)
  | close (c : C)
  | error (c : C)
  | idleSweep (now : ℤ)
  deriving DecidableEq

variable {C : Type} [DecidableEq C]

/-- `removeSubscription`, for the recipient a connection is subscribed to, if any. -/
def removeSubscription (subs : Sets String C) (recipient : Option String) (c : C) : Sets String C :=
  match recipient with
  | none => subs
  | some r => remove subs r c

/-- A subscription of `c` to `recipient`: it leaves the set of another recipient before. -/
def subscribe (s : Server C) (c : C) (recipient : String) : Server C :=
  let subs := if s.subscribedRecipient c = some recipient then s.subscriptions
    else removeSubscription s.subscriptions (s.subscribedRecipient c) c
  { s with
    subscribedRecipient := Function.update s.subscribedRecipient c (some recipient)
    subscriptions := add subs recipient c }

/-- The message handler. -/
def onMessage (s : Server C) (c : C) (now : ℤ) (raw : Message) : Server C :=
  let s := { s with lastActivityAt := Function.update s.lastActivityAt c now }
  match outcome raw with
  | .subscribe recipient => subscribe s c recipient
  | _ => s

/-- The handler of `close`, and that of `error`. -/
def onClose (s : Server C) (c : C) : Server C :=
  { s with subscriptions := removeSubscription s.subscriptions (s.subscribedRecipient c) c }

omit [DecidableEq C] in
/-- The client has been idle for longer than `IDLE_TIMEOUT_MS`. -/
def isIdle (idleTimeoutMs now : ℤ) (s : Server C) (c : C) : Bool :=
  idleTimeoutMs < now - s.lastActivityAt c

omit [DecidableEq C] in
/-- The sweep of `startIdleSweep`, which also terminates the sockets of those it removes. -/
def sweep (idleTimeoutMs now : ℤ) (s : Server C) : Server C :=
  { s with subscriptions := prune s.subscriptions (isIdle idleTimeoutMs now s) }

/-- One call of a handler. -/
def step (idleTimeoutMs : ℤ) (s : Server C) : Handler C → Server C
  | .message c now raw => onMessage s c now raw
  | .close c => onClose s c
  | .error c => onClose s c
  | .idleSweep now => sweep idleTimeoutMs now s

omit [DecidableEq C] in
/-- `publishEvent`: the clients the event is sent to, in order, with the sockets that are open. -/
def publishEvent (s : Server C) (isOpen : C → Bool) (recipient : String) : List C :=
  match s.subscriptions recipient with
  | none => []
  | some clients => clients.filter isOpen

omit [DecidableEq C] in
/-- A server without subscriptions. -/
def Server.start (lastActivityAt : C → ℤ) : Server C :=
  ⟨fun _ => none, fun _ => none, lastActivityAt⟩

/-! ### Subscribing and leaving -/

omit [DecidableEq C] in
/-- The recipient a call subscribes a client to. -/
def Handler.subscription : Handler C → Option (C × String)
  | .message c _ raw =>
    match outcome raw with
    | .subscribe r => some (c, r)
    | _ => none
  | _ => none

omit [DecidableEq C] in
/-- The call subscribes `c` to `r`. -/
def Subscribes (c : C) (r : String) (_ : Server C) (e : Handler C) : Prop :=
  e.subscription = some (c, r)

omit [DecidableEq C] in
/-- The call ends a subscription of `c` to `r`: `c` subscribes to another recipient, closes, errors,
or is idle in a sweep. -/
def Leaves (idleTimeoutMs : ℤ) (c : C) (r : String) (s : Server C) (e : Handler C) : Prop :=
  (∃ r', r' ≠ r ∧ e.subscription = some (c, r')) ∨ e = .close c ∨ e = .error c ∨
    ∃ now, e = .idleSweep now ∧ isIdle idleTimeoutMs now s c = true

/-- After the run `c` is subscribed to `r`: it subscribed to `r` last, and has not closed, errored
or been swept since. -/
def Current (idleTimeoutMs : ℤ) (c : C) (r : String) : Server C → List (Handler C) → Prop :=
  Since (step idleTimeoutMs) (Subscribes c r) (Leaves idleTimeoutMs c r)

/-! ### The connections own their memberships -/

omit [DecidableEq C] in
/-- A client is in no set but that of the recipient its connection has stored. -/
def Owned (s : Server C) : Prop :=
  ∀ c r, c ∈ members s.subscriptions r → s.subscribedRecipient c = some r

section Steps

variable {idleTimeoutMs : ℤ} {s : Server C} {c c' : C} {r r' : String}

/-- What `removeSubscription` does to the members. -/
theorem mem_removeSubscription (h : Owned s) :
    c' ∈ members (removeSubscription s.subscriptions (s.subscribedRecipient c) c) r ↔
      c' ∈ members s.subscriptions r ∧ c' ≠ c := by
  unfold removeSubscription
  cases hsub : s.subscribedRecipient c with
  | none =>
    -- a connection without a recipient is in no set
    refine ⟨fun hmem => ⟨hmem, ?_⟩, And.left⟩
    rintro rfl
    rw [h c' r hmem] at hsub
    cases hsub
  | some old =>
    simp only [mem_remove]
    refine and_congr_right fun hmem => not_congr ⟨And.right, fun hc => ⟨?_, hc⟩⟩
    subst hc
    rw [h c' r hmem, Option.some.injEq] at hsub
    exact hsub

/-- A subscription moves the client to the set of the recipient. -/
theorem mem_subscribe (h : Owned s) :
    c' ∈ members (subscribe s c r').subscriptions r ↔
      (r = r' ∧ c' = c) ∨ (c' ∈ members s.subscriptions r ∧ c' ≠ c) := by
  unfold subscribe
  simp only [mem_add]
  split_ifs with hsame
  · by_cases hc : c' = c
    · subst hc
      simp only [and_true, ne_eq, not_true, and_false, or_false]
      refine or_iff_left_of_imp fun hmem => ?_
      rw [h c' r hmem, Option.some.injEq] at hsame
      exact hsame
    · simp [hc]
  · rw [mem_removeSubscription h]

/-- **What one handler does to the membership of a client.** -/
theorem mem_step (h : Owned s) (e : Handler C) :
    c ∈ members (step idleTimeoutMs s e).subscriptions r ↔
      Subscribes c r s e ∨
        (c ∈ members s.subscriptions r ∧ ¬ Leaves idleTimeoutMs c r s e) := by
  cases e with
  | message c0 now raw =>
    show c ∈ members (onMessage s c0 now raw).subscriptions r ↔ _
    unfold onMessage Subscribes Leaves Handler.subscription
    cases hout : outcome raw with
    | subscribe r0 =>
      have howned : Owned { s with lastActivityAt := Function.update s.lastActivityAt c0 now } := h
      simp only [mem_subscribe howned]
      by_cases hc : c = c0
      · subst hc
        by_cases hr : r = r0
        · subst hr
          simp [hout]
        · simp [hout, hr, Ne.symm hr]
      · simp [hout, hc, Ne.symm hc]
    | reply err => simp [hout]
    | thrown => simp [hout]
  | close c0 =>
    show c ∈ members (onClose s c0).subscriptions r ↔ _
    unfold onClose
    rw [mem_removeSubscription h, ne_comm]
    simp [Subscribes, Leaves, Handler.subscription]
  | error c0 =>
    show c ∈ members (onClose s c0).subscriptions r ↔ _
    unfold onClose
    rw [mem_removeSubscription h, ne_comm]
    simp [Subscribes, Leaves, Handler.subscription]
  | idleSweep now =>
    show c ∈ members (sweep idleTimeoutMs now s).subscriptions r ↔ _
    unfold sweep
    rw [mem_prune]
    simp [Subscribes, Leaves, Handler.subscription]

omit [DecidableEq C] in
/-- Only a message of the client subscribes it. -/
theorem subscription_eq_some {e : Handler C} : e.subscription = some (c, r) ↔
    ∃ now raw, e = .message c now raw ∧ outcome raw = .subscribe r := by
  unfold Handler.subscription
  constructor
  · intro h
    split at h
    case h_2 => cases h
    case h_1 now raw =>
      split at h
      · cases h
        exact ⟨now, raw, rfl, by assumption⟩
      · cases h
  · rintro ⟨now, raw, rfl, hout⟩
    simp [hout]

/-- The connection of a client stores the recipient the client subscribes to. -/
theorem subscribedRecipient_of_subscribes {e : Handler C} (h : e.subscription = some (c, r)) :
    (step idleTimeoutMs s e).subscribedRecipient c = some r := by
  obtain ⟨now, raw, rfl, hout⟩ := subscription_eq_some.mp h
  show (onMessage s c now raw).subscribedRecipient c = some r
  unfold onMessage
  simp [hout, subscribe]

/-- A call that does not subscribe the client leaves what its connection has stored. -/
theorem subscribedRecipient_of_not {e : Handler C} (h : ∀ r, e.subscription ≠ some (c, r)) :
    (step idleTimeoutMs s e).subscribedRecipient c = s.subscribedRecipient c := by
  cases e with
  | message c0 now raw =>
    show (onMessage s c0 now raw).subscribedRecipient c = _
    unfold onMessage
    cases hout : outcome raw with
    | subscribe r0 =>
      have hc : c ≠ c0 := by
        rintro rfl
        exact h r0 (subscription_eq_some.mpr ⟨now, raw, rfl, hout⟩)
      simp [subscribe, hc]
    | reply err => rfl
    | thrown => rfl
  | close c0 => rfl
  | error c0 => rfl
  | idleSweep now => rfl

theorem owned_step (h : Owned s) (e : Handler C) : Owned (step idleTimeoutMs s e) := by
  intro c r hmem
  rcases (mem_step h e).mp hmem with hsub | ⟨hmem, hstay⟩
  · exact subscribedRecipient_of_subscribes hsub
  · by_cases hsome : ∃ r', e.subscription = some (c, r')
    · obtain ⟨r', hr'⟩ := hsome
      have heq : r' = r := by
        by_contra hne
        exact hstay (Or.inl ⟨r', hne, hr'⟩)
      exact heq ▸ subscribedRecipient_of_subscribes hr'
    · rw [subscribedRecipient_of_not fun r' hr' => hsome ⟨r', hr'⟩]
      exact h c r hmem

omit [DecidableEq C] in
theorem tidy_removeSubscription [DecidableEq C] {subs : Sets String C} (h : Tidy subs)
    (recipient : Option String) (c : C) : Tidy (removeSubscription subs recipient c) := by
  unfold removeSubscription
  cases recipient with
  | none => exact h
  | some r => exact h.remove r c

theorem tidy_step (h : Tidy s.subscriptions) (e : Handler C) :
    Tidy (step idleTimeoutMs s e).subscriptions := by
  cases e with
  | message c now raw =>
    show Tidy (onMessage s c now raw).subscriptions
    unfold onMessage
    cases outcome raw with
    | subscribe r =>
      refine Tidy.add ?_ r c
      split_ifs
      · exact h
      · exact tidy_removeSubscription h _ c
    | reply err => exact h
    | thrown => exact h
  | close c => exact tidy_removeSubscription h _ c
  | error c => exact tidy_removeSubscription h _ c
  | idleSweep now => exact h.prune _

end Steps

/-! ### Runs of handlers -/

section Runs

variable {idleTimeoutMs : ℤ} {lastActivityAt : C → ℤ} {l : List (Handler C)}

omit [DecidableEq C] in
theorem owned_start : Owned (Server.start lastActivityAt : Server C) := by
  intro c r hmem
  cases hmem

omit [DecidableEq C] in
theorem tidy_start : Tidy (Server.start lastActivityAt : Server C).subscriptions :=
  ⟨fun _ hnil => (by cases hnil), fun _ => List.nodup_nil⟩

theorem owned_run : Owned (run (step idleTimeoutMs) (Server.start lastActivityAt) l) := by
  have hall : AllStates (step idleTimeoutMs) Owned (Server.start lastActivityAt) l :=
    allStates_of_step (fun _ e h => owned_step h e) owned_start
  exact hall.last

theorem tidy_run :
    Tidy (run (step idleTimeoutMs) (Server.start lastActivityAt) l).subscriptions := by
  have hall : AllStates (step idleTimeoutMs) (fun s : Server C => Tidy s.subscriptions)
      (Server.start lastActivityAt) l :=
    allStates_of_step (fun _ e h => tidy_step h e) tidy_start
  exact hall.last

/-- The members of a set are those that are subscribed to its recipient. -/
theorem mem_run_iff {c : C} {r : String} :
    c ∈ members (run (step idleTimeoutMs) (Server.start lastActivityAt) l).subscriptions r ↔
      Current idleTimeoutMs c r (Server.start lastActivityAt) l := by
  have hempty : ¬ c ∈ members (Server.start lastActivityAt : Server C).subscriptions r :=
    fun hmem => by cases hmem
  exact iff_since_of_inv (P := fun _ _ => True)
    (Q := fun s : Server C => c ∈ members s.subscriptions r) (fun s e h _ => owned_step h e)
    (fun s e h _ => mem_step h e) owned_start hempty (allSteps_of_forall fun _ _ => trivial)

omit [DecidableEq C] in
/-- The client has closed; the socket delivers no message after its `close`. -/
def Closed (c : C) (l : List (Handler C)) : Prop :=
  ∃ pre post, l = pre ++ .close c :: post ∧ ∀ now raw, Handler.message c now raw ∉ post

/-- A client that is in no set and sends no message stays out. -/
theorem stays_out {s : Server C} {e : Handler C} {c : C} {r : String}
    (h : Owned s ∧ c ∉ members s.subscriptions r) (hmsg : ∀ now raw, e ≠ .message c now raw) :
    Owned (step idleTimeoutMs s e) ∧ c ∉ members (step idleTimeoutMs s e).subscriptions r := by
  obtain ⟨hown, hout⟩ := h
  refine ⟨owned_step hown e, fun hmem => ?_⟩
  rcases (mem_step hown e).mp hmem with hsub | ⟨hmem, -⟩
  · obtain ⟨now, raw, rfl, -⟩ := subscription_eq_some.mp hsub
    exact hmsg now raw rfl
  · exact hout hmem

theorem not_mem_of_closed {c : C} (h : Closed c l) (r : String) :
    c ∉ members (run (step idleTimeoutMs) (Server.start lastActivityAt) l).subscriptions r := by
  obtain ⟨pre, post, rfl, hpost⟩ := h
  rw [run_append, run_cons]
  have hown : Owned (run (step idleTimeoutMs) (Server.start lastActivityAt) pre) := owned_run
  generalize run (step idleTimeoutMs) (Server.start lastActivityAt) pre = s at hown ⊢
  have hclosed : Owned (step idleTimeoutMs s (.close c)) ∧
      c ∉ members (step idleTimeoutMs s (.close c)).subscriptions r := by
    refine ⟨owned_step hown _, fun hmem => ?_⟩
    rcases (mem_step hown _).mp hmem with hsub | ⟨-, hstay⟩
    · cases hsub
    · exact hstay (Or.inr (Or.inl rfl))
  have hsilent : AllSteps (step idleTimeoutMs) (fun _ e => ∀ now raw, e ≠ .message c now raw)
      (step idleTimeoutMs s (.close c)) post := by
    refine allSteps_of_forall fun e he now raw heq => ?_
    subst heq
    exact hpost now raw he
  have hall : AllStates (step idleTimeoutMs)
      (fun s => Owned s ∧ c ∉ members s.subscriptions r)
      (step idleTimeoutMs s (.close c)) post := by
    refine allStates_of_inv ?_ ?_ hsilent
    · exact fun s e h hmsg => stays_out h hmsg
    · exact hclosed
  exact hall.last.2

omit [DecidableEq C] in
theorem publishEvent_eq (s : Server C) (isOpen : C → Bool) (r : String) :
    publishEvent s isOpen r = (members s.subscriptions r).filter isOpen := by
  unfold publishEvent members
  cases s.subscriptions r <;> rfl

/-- **The registry is consistent**, whatever the order of the handlers: a client is in one set at
most, that of the recipient it subscribed to last, exactly as long as it has not closed, errored or
been swept since; a closed client is in no set; no set is empty. So an event is sent once to each
open client that is subscribed to its recipient, and to no other. -/
theorem registry_consistent (idleTimeoutMs : ℤ) (lastActivityAt : C → ℤ) (l : List (Handler C)) :
    let s := run (step idleTimeoutMs) (Server.start lastActivityAt) l
    (∀ c r r', c ∈ members s.subscriptions r → c ∈ members s.subscriptions r' → r = r') ∧
    (∀ c r, c ∈ members s.subscriptions r ↔
      Current idleTimeoutMs c r (Server.start lastActivityAt) l) ∧
    (∀ c r, Closed c l → c ∉ members s.subscriptions r) ∧
    (∀ r, s.subscriptions r ≠ some []) ∧
    ∀ (isOpen : C → Bool) (r : String), (publishEvent s isOpen r).Nodup ∧
      ∀ c, c ∈ publishEvent s isOpen r ↔
        Current idleTimeoutMs c r (Server.start lastActivityAt) l ∧ isOpen c = true := by
  have hown : Owned (run (step idleTimeoutMs) (Server.start lastActivityAt) l) := owned_run
  have htidy : Tidy (run (step idleTimeoutMs) (Server.start lastActivityAt) l).subscriptions :=
    tidy_run
  refine ⟨fun c r r' hr hr' => ?_, fun c r => mem_run_iff, fun c r hc => not_mem_of_closed hc r,
    htidy.ne_nil, fun isOpen r => ⟨?_, fun c => ?_⟩⟩
  · have heq := hown c r hr
    rw [hown c r' hr', Option.some.injEq] at heq
    exact heq.symm
  · rw [publishEvent_eq]
    exact (htidy.nodup r).filter isOpen
  · rw [publishEvent_eq, List.mem_filter, mem_run_iff]

end Runs

end VestingDripStream.Backend.Subscriptions
