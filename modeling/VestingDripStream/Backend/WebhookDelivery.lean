import VestingDripStream.Lib.Run

/-! # Webhook deliveries

`webhookStore.js` keeps registrations and delivery logs in memory; `dispatch` of `webhookWorker.js`
makes a log for every registration that listens to an event and delivers to each on its own, with up
to three attempts. The deliveries of all dispatches interleave; a step is the answer to an attempt
(an HTTP answer, an error or the timeout) or a timer that fires before the next one.

The random ids and the serialised payload are fields of the actions, the HMAC is a parameter.
Deliveries end with the process; a run is the life of one process. -/

namespace VestingDripStream.Backend.WebhookDelivery

open VestingDripStream.Lib.Run

/-- `SUPPORTED_EVENTS` -/
def supportedEvents : List String :=
  ["cliff_reached", "tokens_claimed", "stream_cancelled", "stream_expired"]

/-- `MAX_ATTEMPTS` -/
def maxAttempts : ℕ := 3

/-- `BASE_DELAY_MS` -/
def baseDelayMs : ℕ := 1000

/-- `BACKFILL_THRESHOLD_MS` -/
def backfillThresholdMs : ℤ := 24 * 60 * 60 * 1000

/-- The pause before an attempt after the first. -/
def delayBefore (attempt : ℕ) : ℕ := baseDelayMs * 2 ^ (attempt - 2)

/-- A registration, as the store keeps it. -/
structure Registration where
  id : String
  sponsorId : String
  url : String
  secret : String
  events : List String
  deriving DecidableEq, Repr

/-- The status of a delivery log. -/
inductive Status
  | pending
  | success
  | failed
  deriving DecidableEq, Repr

/-- A delivery log, without its times. -/
structure DeliveryLog where
  webhookId : String
  event : String
  payload : String
  status : Status
  attempts : ℕ
  lastError : Option String
  deriving DecidableEq, Repr

/-- The answer to an attempt: `error` with the text that is logged. -/
abbrev Outcome : Type := Except String Unit

/-- How far a delivery is: an attempt is under way, the pause before one lasts until `due`, or the
loop is over. -/
inductive Phase
  | sending (attempt : ℕ)
  | sleeping (attempt due : ℕ)
  | over
  deriving DecidableEq, Repr

/-- A call of `deliverWithRetry`. -/
structure Delivery where
  registration : Registration
  payloadStr : String
  phase : Phase
  deriving DecidableEq, Repr

/-- A request that was made, for the delivery log it belongs to. -/
structure Post where
  logId : String
  url : String
  signature : String
  body : String
  deriving DecidableEq, Repr

/-- The store, the loops of `deliverWithRetry` by their logs, and the requests that were made. -/
structure World where
  registrations : List Registration
  deliveryLogs : String → Option DeliveryLog
  deliveries : String → Option Delivery
  posts : List Post

/-- The store is empty, and nothing is delivered. -/
def World.init : World := ⟨[], fun _ => none, fun _ => none, []⟩

/-- What happens next; an attempt or a timer belongs to the log `logId`. -/
inductive Action
  | createRegistration (reg : Registration)
  /-- `deleteWebhookHandler` with the header `X-Sponsor-Id`. -/
  | deleteWebhook (sponsorId : Option String) (id : String)
  /-- `dispatch`; `timestamp` is the time in the options, `some none` if it is no date, and `ids` are
  those of the logs. -/
  | dispatch (eventType : String) (timestamp : Option (Option ℤ)) (payloadStr : String)
    (ids : List String) (now : ℤ)
  | answer (logId : String) (result : Outcome) (now : ℕ)
  | wake (logId : String) (now : ℕ)

/-! ### Signatures -/

section Signatures

variable (hmacHex : String → String → String)

/-- `computeSignature`. -/
def computeSignature (secret payload : String) : String := "sha256=" ++ hmacHex secret payload

/-- `verifySignature` of the worker; the signature is `none` if it is no string. -/
def verifySignature (secret payload : String) (signature : Option String) : Bool :=
  match signature with
  | none => false
  | some signature =>
    let a := (computeSignature hmacHex secret payload).toUTF8
    let b := signature.toUTF8
    if signature.length = 0 then false else if a.size ≠ b.size then false else a.data = b.data

/-- The worker accepts its own signature of the payload, and nothing else. -/
theorem verifySignature_iff {secret payload : String} {signature : Option String} :
    verifySignature hmacHex secret payload signature = true ↔
      signature = some (computeSignature hmacHex secret payload) := by
  have hne : computeSignature hmacHex secret payload ≠ "" := by
    intro h
    have hlist := congrArg String.toList h
    rw [computeSignature, String.toList_append] at hlist
    exact absurd (List.append_eq_nil_iff.mp hlist).1 (by decide)
  unfold verifySignature
  cases signature with
  | none => simp
  | some signature =>
    simp only [Option.some.injEq]
    constructor
    · intro h
      split_ifs at h
      have hdata := of_decide_eq_true h
      exact (String.toByteArray_inj.mp (ByteArray.ext hdata)).symm
    · rintro rfl
      rw [if_neg fun h => hne (String.length_eq_zero_iff.mp h), if_neg (not_not.mpr rfl)]
      exact decide_eq_true rfl

end Signatures

/-! ### Steps -/

section Steps

variable (hmacHex : String → String → String)

/-- `findRegistrationsByEvent`: `*` stands for all events. -/
def findRegistrationsByEvent (registrations : List Registration) (eventType : String) :
    List Registration :=
  registrations.filter fun reg => reg.events.contains eventType || reg.events.contains "*"

/-- The registrations that a dispatch delivers to; an error if it throws. -/
def targets (w : World) (eventType : String) (timestamp : Option (Option ℤ)) (now : ℤ) :
    Except String (List Registration) :=
  if ¬ supportedEvents.contains eventType then .error ("Unknown event type: " ++ eventType)
  else
    match timestamp.getD (some now) with
    | none => .error "Invalid timestamp"
    | some eventTime =>
      if backfillThresholdMs < now - eventTime then .ok []
      else .ok (findRegistrationsByEvent w.registrations eventType)

/-- `attemptDelivery`, up to its request. -/
def World.attemptDelivery (w : World) (logId : String) (reg : Registration) (payloadStr : String) :
    World :=
  { w with
    posts := w.posts ++ [⟨logId, reg.url, computeSignature hmacHex reg.secret payloadStr, payloadStr⟩] }

/-- `createDeliveryLog`, and the first attempt. -/
def World.deliver (eventType payloadStr : String) (w : World) (target : Registration × String) :
    World :=
  World.attemptDelivery hmacHex
    { w with
      deliveryLogs := Function.update w.deliveryLogs target.2
        (some ⟨target.1.id, eventType, payloadStr, .pending, 0, none⟩)
      deliveries := Function.update w.deliveries target.2 (some ⟨target.1, payloadStr, .sending 1⟩) }
    target.2 target.1 payloadStr

/-- The status after an attempt. -/
def statusAfter (attempt : ℕ) : Outcome → Status
  | .ok _ => .success
  | .error _ => if attempt < maxAttempts then .pending else .failed

/-- The error text of an answer. -/
def errorOf : Outcome → Option String
  | .ok _ => none
  | .error e => some e

/-- Where the loop goes after an attempt. -/
def phaseAfter (attempt now : ℕ) : Outcome → Phase
  | .ok _ => .over
  | .error _ =>
    if attempt + 1 ≤ maxAttempts then .sleeping (attempt + 1) (now + delayBefore (attempt + 1))
    else .over

/-- `updateDeliveryLog`. -/
def World.updateDeliveryLog (w : World) (logId : String) (f : DeliveryLog → DeliveryLog) : World :=
  { w with deliveryLogs := Function.update w.deliveryLogs logId ((w.deliveryLogs logId).map f) }

/-- The loop of the log goes on. -/
def World.setDelivery (w : World) (logId : String) (d : Delivery) : World :=
  { w with deliveries := Function.update w.deliveries logId (some d) }

/-- `deleteWebhookHandler`: the owner may delete. -/
def deleteWebhookHandler (registrations : List Registration) (sponsorId : Option String)
    (id : String) : List Registration :=
  match registrations.find? (·.id = id) with
  | none => registrations
  | some reg =>
    if sponsorId = some reg.sponsorId ∧ sponsorId ≠ some "" then registrations.filter (·.id ≠ id)
    else registrations

/-- One step; answers and timers of other phases are ignored. -/
def step (w : World) : Action → World
  | .createRegistration reg => { w with registrations := w.registrations ++ [reg] }
  | .deleteWebhook sponsorId id =>
    { w with registrations := deleteWebhookHandler w.registrations sponsorId id }
  | .dispatch eventType timestamp payloadStr ids now =>
    match targets w eventType timestamp now with
    | .error _ => w
    | .ok regs => (regs.zip ids).foldl (World.deliver hmacHex eventType payloadStr) w
  | .answer logId result now =>
    match w.deliveries logId with
    | some ⟨reg, payloadStr, .sending attempt⟩ =>
      (w.updateDeliveryLog logId fun log =>
        { log with attempts := attempt, lastError := errorOf result,
                   status := statusAfter attempt result }).setDelivery logId
        ⟨reg, payloadStr, phaseAfter attempt now result⟩
    | _ => w
  | .wake logId _ =>
    match w.deliveries logId with
    | some ⟨reg, payloadStr, .sleeping attempt _⟩ =>
      (w.setDelivery logId ⟨reg, payloadStr, .sending attempt⟩).attemptDelivery hmacHex logId reg
        payloadStr
    | _ => w

/-- The ids are new, an answer is one to a request, and a timer fires when it is due. -/
def Legal (w : World) : Action → Prop
  | .createRegistration reg => ∀ r ∈ w.registrations, r.id ≠ reg.id
  | .deleteWebhook _ _ => True
  | .dispatch eventType timestamp _ ids now =>
    ids.Nodup ∧ (∀ id ∈ ids, w.deliveryLogs id = none) ∧
      ∀ regs, targets w eventType timestamp now = .ok regs → ids.length = regs.length
  | .answer logId _ _ => ∃ reg payloadStr attempt,
    w.deliveries logId = some ⟨reg, payloadStr, .sending attempt⟩
  | .wake logId now => ∃ reg payloadStr attempt due,
    w.deliveries logId = some ⟨reg, payloadStr, .sleeping attempt due⟩ ∧ due ≤ now

end Steps

/-! ### What a delivery log says -/

/-- The answers to the attempts of a delivery, in order. -/
def outcomes (logId : String) (l : List Action) : List Outcome :=
  l.filterMap fun
    | .answer id result _ => if id = logId then some result else none
    | _ => none

/-- The status that a log has after the answers `os`. -/
def statusOf (os : List Outcome) : Status :=
  match os.getLast? with
  | none => .pending
  | some result => statusAfter os.length result

/-- The error text of the last answer. -/
def lastErrorOf (os : List Outcome) : Option String := os.getLast?.bind errorOf

/-- The loop after the answers `os`: it goes on as long as all of them are errors, for three
attempts. -/
def AtPhase (os : List Outcome) : Phase → Prop
  | .sending attempt | .sleeping attempt _ =>
    attempt = os.length + 1 ∧ attempt ≤ maxAttempts ∧ ∀ o ∈ os, o.isOk = false
  | .over => ∃ before o, os = before ++ [o] ∧ before.length < maxAttempts ∧
      (∀ o' ∈ before, o'.isOk = false) ∧ (o.isOk = true ∨ os.length = maxAttempts)

/-- The request of an attempt. -/
def post (hmacHex : String → String → String) (logId : String) (d : Delivery) : Post :=
  ⟨logId, d.registration.url, computeSignature hmacHex d.registration.secret d.payloadStr,
    d.payloadStr⟩

/-- How many requests a delivery has made after `n` answers. -/
def requestsMade (n : ℕ) : Phase → ℕ
  | .sending _ => n + 1
  | .sleeping _ _ | .over => n

/-- The log of a delivery is for its registration and its payload, and it and the requests are those
of the answers. -/
structure Tracks (hmacHex : String → String → String) (posts : List Post) (logId : String)
    (os : List Outcome) (d : Delivery) (log : DeliveryLog) : Prop where
  webhookId : log.webhookId = d.registration.id
  payload : log.payload = d.payloadStr
  attempts : log.attempts = os.length
  status : log.status = statusOf os
  lastError : log.lastError = lastErrorOf os
  phase : AtPhase os d.phase
  posts : posts.filter (·.logId = logId) =
    List.replicate (requestsMade os.length d.phase) (post hmacHex logId d)

/-- Every log belongs to a delivery that it tracks; nothing is known under other ids. -/
def Accounts (hmacHex : String → String → String) (os : String → List Outcome) (w : World) : Prop :=
  ∀ id, (w.deliveryLogs id = none ∧ w.deliveries id = none ∧ os id = [] ∧
      w.posts.filter (·.logId = id) = []) ∨
    ∃ d log, w.deliveries id = some d ∧ w.deliveryLogs id = some log ∧
      Tracks hmacHex w.posts id (os id) d log

section Accounts

variable {hmacHex : String → String → String} {w : World} {os : String → List Outcome}

theorem outcomes_concat (logId : String) (l : List Action) (a : Action) :
    outcomes logId (l ++ [a]) = outcomes logId l ++ outcomes logId [a] :=
  List.filterMap_append

/-- A change of one delivery that leaves the others alone. -/
theorem Accounts.update (h : Accounts hmacHex os w) {w' : World} {os' : String → List Outcome}
    (logId : String) (hlogs : ∀ id, id ≠ logId → w'.deliveryLogs id = w.deliveryLogs id)
    (hdel : ∀ id, id ≠ logId → w'.deliveries id = w.deliveries id)
    (hos : ∀ id, id ≠ logId → os' id = os id)
    (hposts : ∀ id, id ≠ logId → w'.posts.filter (·.logId = id) = w.posts.filter (·.logId = id))
    (hone : ∃ d log, w'.deliveries logId = some d ∧ w'.deliveryLogs logId = some log ∧
      Tracks hmacHex w'.posts logId (os' logId) d log) : Accounts hmacHex os' w' := by
  intro id
  by_cases hid : id = logId
  · subst hid
    exact Or.inr hone
  · rw [hlogs id hid, hdel id hid, hos id hid, hposts id hid]
    rcases h id with hnone | ⟨d, log, hd, hlog, ht⟩
    · exact Or.inl hnone
    · exact Or.inr ⟨d, log, hd, hlog, ht.webhookId, ht.payload, ht.attempts, ht.status,
        ht.lastError, ht.phase, (hposts id hid).trans ht.posts⟩

theorem filter_posts_append {posts : List Post} {p : Post} {id : String} :
    (posts ++ [p]).filter (·.logId = id) =
      posts.filter (·.logId = id) ++ if p.logId = id then [p] else [] := by
  rw [List.filter_append, List.filter_singleton]
  split_ifs <;> simp_all

/-- A dispatch to one registration. -/
theorem Accounts.deliver (h : Accounts hmacHex os w) {eventType payloadStr logId : String}
    {reg : Registration} (hnew : w.deliveryLogs logId = none) :
    Accounts hmacHex os (World.deliver hmacHex eventType payloadStr w (reg, logId)) := by
  obtain ⟨-, -, hempty, hposts⟩ : w.deliveryLogs logId = none ∧ w.deliveries logId = none ∧
      os logId = [] ∧ w.posts.filter (·.logId = logId) = [] := by
    rcases h logId with hnone | ⟨d, log, -, hlog, -⟩
    · exact hnone
    · rw [hnew] at hlog
      cases hlog
  refine h.update logId (fun id hid => Function.update_of_ne hid _ _)
    (fun id hid => Function.update_of_ne hid _ _) (fun _ _ => rfl) (fun id hid => ?_)
    ⟨_, _, Function.update_self _ _ _, Function.update_self _ _ _, ?_⟩
  · show (w.posts ++ [_]).filter _ = _
    rw [filter_posts_append, if_neg (Ne.symm hid), List.append_nil]
  · rw [hempty]
    refine ⟨rfl, rfl, rfl, rfl, rfl, ⟨rfl, by decide, nofun⟩, ?_⟩
    show (w.posts ++ [_]).filter _ = _
    rw [filter_posts_append, hposts, if_pos rfl]
    rfl

/-- The whole of a dispatch. -/
theorem Accounts.dispatch {eventType payloadStr : String} : ∀ {targets : List (Registration × String)}
    {w : World}, Accounts hmacHex os w → (targets.map Prod.snd).Nodup →
      (∀ id ∈ targets.map Prod.snd, w.deliveryLogs id = none) →
        Accounts hmacHex os (targets.foldl (World.deliver hmacHex eventType payloadStr) w)
  | [], _, h, _, _ => h
  | (reg, logId) :: rest, w, h, hnodup, hnew => by
    rw [List.map_cons, List.nodup_cons] at hnodup
    rw [List.foldl_cons]
    refine Accounts.dispatch (h.deliver (hnew logId List.mem_cons_self)) hnodup.2 fun id hid => ?_
    have hne : id ≠ logId := by
      rintro rfl
      exact hnodup.1 hid
    exact (Function.update_of_ne hne _ _).trans (hnew id (List.mem_cons_of_mem _ hid))

theorem statusOf_concat (os : List Outcome) (o : Outcome) :
    statusOf (os ++ [o]) = statusAfter (os.length + 1) o := by
  unfold statusOf
  rw [List.getLast?_concat, List.length_append]
  rfl

theorem lastErrorOf_concat (os : List Outcome) (o : Outcome) :
    lastErrorOf (os ++ [o]) = errorOf o := by
  unfold lastErrorOf
  rw [List.getLast?_concat]
  rfl

/-- The loop after one more answer. -/
theorem atPhase_after {os : List Outcome} {attempt now : ℕ} (h : AtPhase os (.sending attempt))
    (o : Outcome) : AtPhase (os ++ [o]) (phaseAfter attempt now o) := by
  obtain ⟨hattempt, hmax, hos⟩ := h
  have hlen : (os ++ [o]).length = attempt := by
    rw [List.length_append, hattempt]
    rfl
  cases o with
  | ok u => exact ⟨os, .ok u, rfl, by omega, hos, Or.inl rfl⟩
  | error e =>
    unfold phaseAfter
    by_cases hnext : attempt + 1 ≤ maxAttempts
    · simp only [if_pos hnext]
      refine ⟨by rw [hlen], hnext, fun o' ho' => ?_⟩
      rcases List.mem_append.mp ho' with ho' | ho'
      · exact hos o' ho'
      · rw [List.mem_singleton.mp ho']
        rfl
    · simp only [if_neg hnext]
      exact ⟨os, .error e, rfl, by omega, hos, Or.inr (by omega)⟩

theorem requestsMade_after (n attempt now : ℕ) (o : Outcome) :
    requestsMade n (phaseAfter attempt now o) = n := by
  unfold phaseAfter
  cases o with
  | ok u => rfl
  | error e => by_cases h : attempt + 1 ≤ maxAttempts <;> simp only [h, if_true, if_false] <;> rfl

/-- An attempt is answered. -/
theorem Accounts.answer (h : Accounts hmacHex os w) {logId payloadStr : String}
    {reg : Registration} {attempt now : ℕ} {result : Outcome}
    (hd : w.deliveries logId = some ⟨reg, payloadStr, .sending attempt⟩) :
    Accounts hmacHex (Function.update os logId (os logId ++ [result]))
      (step hmacHex w (.answer logId result now)) := by
  obtain ⟨d, log, hd', hlog, ht⟩ : ∃ d log, w.deliveries logId = some d ∧
      w.deliveryLogs logId = some log ∧ Tracks hmacHex w.posts logId (os logId) d log := by
    rcases h logId with ⟨-, hnone, -⟩ | htracks
    · rw [hd] at hnone
      cases hnone
    · exact htracks
  obtain rfl := Option.some.inj (hd.symm.trans hd')
  have hattempt : attempt = (os logId).length + 1 := ht.phase.1
  simp only [step, hd]
  refine h.update logId (fun id hid => Function.update_of_ne hid _ _)
    (fun id hid => Function.update_of_ne hid _ _) (fun id hid => Function.update_of_ne hid _ _)
    (fun _ _ => rfl) ⟨_, _, Function.update_self _ _ _,
      (Function.update_self _ _ _).trans (congrArg (Option.map _) hlog), ?_⟩
  rw [Function.update_self]
  refine ⟨ht.webhookId, ht.payload, ?_, ?_, (lastErrorOf_concat _ _).symm,
    atPhase_after ht.phase result, ?_⟩
  · rw [List.length_append, List.length_singleton]
    exact hattempt
  · rw [statusOf_concat, ← hattempt]
  · rw [requestsMade_after, List.length_append, List.length_singleton]
    exact ht.posts

/-- The pause before an attempt is over. -/
theorem Accounts.wake (h : Accounts hmacHex os w) {logId payloadStr : String}
    {reg : Registration} {attempt due now : ℕ}
    (hd : w.deliveries logId = some ⟨reg, payloadStr, .sleeping attempt due⟩) :
    Accounts hmacHex os (step hmacHex w (.wake logId now)) := by
  obtain ⟨d, log, hd', hlog, ht⟩ : ∃ d log, w.deliveries logId = some d ∧
      w.deliveryLogs logId = some log ∧ Tracks hmacHex w.posts logId (os logId) d log := by
    rcases h logId with ⟨-, hnone, -⟩ | htracks
    · rw [hd] at hnone
      cases hnone
    · exact htracks
  obtain rfl := Option.some.inj (hd.symm.trans hd')
  simp only [step, hd]
  refine h.update logId (fun _ _ => rfl)
    (fun id hid => Function.update_of_ne hid _ _) (fun _ _ => rfl) (fun id hid => ?_)
    ⟨_, log, Function.update_self _ _ _, hlog,
      ht.webhookId, ht.payload, ht.attempts, ht.status, ht.lastError, ht.phase, ?_⟩
  · show (w.posts ++ [_]).filter _ = _
    rw [filter_posts_append, if_neg (Ne.symm hid), List.append_nil]
  · show (w.posts ++ [_]).filter _ = _
    rw [filter_posts_append, if_pos rfl, ht.posts]
    exact (List.replicate_succ' ..).symm

/-- One step. -/
theorem accounts_step {l : List Action} {a : Action} (h : Accounts hmacHex (outcomes · l) w)
    (hl : Legal w a) : Accounts hmacHex (outcomes · (l ++ [a])) (step hmacHex w a) := by
  have hsame : (outcomes · [a]) = (fun _ => []) → (outcomes · (l ++ [a])) = (outcomes · l) := by
    intro hnil
    funext id
    show outcomes id (l ++ [a]) = outcomes id l
    rw [outcomes_concat, show outcomes id [a] = [] from congrFun hnil id, List.append_nil]
  cases a with
  | createRegistration reg =>
    rw [hsame rfl]
    exact h
  | deleteWebhook sponsorId id =>
    rw [hsame rfl]
    exact h
  | dispatch eventType timestamp payloadStr ids now =>
    rw [hsame rfl]
    obtain ⟨hnodup, hnew, hlen⟩ := hl
    simp only [step]
    split
    · exact h
    · next regs hregs =>
      have hsnd : (regs.zip ids).map Prod.snd = ids := List.map_snd_zip (hlen regs hregs).le
      exact h.dispatch (by rwa [hsnd]) (by rwa [hsnd])
  | answer logId result now =>
    obtain ⟨reg, payloadStr, attempt, hd⟩ := hl
    have hos : (outcomes · (l ++ [.answer logId result now])) =
        Function.update (outcomes · l) logId (outcomes logId l ++ [result]) := by
      funext id
      rw [outcomes_concat, Function.update_apply]
      by_cases hid : id = logId
      · subst hid
        rw [if_pos rfl]
        simp [outcomes]
      · rw [if_neg hid]
        simp [outcomes, Ne.symm hid]
    rw [hos]
    exact h.answer hd
  | wake logId now =>
    rw [hsame rfl]
    obtain ⟨reg, payloadStr, attempt, due, hd, -⟩ := hl
    exact h.wake hd

theorem accounts_run {l : List Action} (hl : AllSteps (step hmacHex) Legal World.init l) :
    Accounts hmacHex (outcomes · l) (run (step hmacHex) World.init l) := by
  induction l using List.reverseRecOn with
  | nil => exact fun id => Or.inl ⟨rfl, rfl, rfl, rfl⟩
  | append_singleton l a ih =>
    obtain ⟨hpre, hlast⟩ := allSteps_append.mp hl
    rw [run_append]
    exact accounts_step (ih hpre) hlast.1

end Accounts

/-! ### Who is delivered to -/

/-- A sponsor deletes the registration. -/
def DeletedBy (reg : Registration) (a : Action) : Prop :=
  a = .deleteWebhook (some reg.sponsorId) reg.id ∧ reg.sponsorId ≠ ""

/-- The ids of the registrations differ. -/
def DistinctIds (w : World) : Prop := (w.registrations.map (·.id)).Nodup

section Reached

variable {hmacHex : String → String → String} {w : World}

theorem registrations_deliver {eventType payloadStr : String} :
    ∀ {targets : List (Registration × String)} {w : World},
      (targets.foldl (World.deliver hmacHex eventType payloadStr) w).registrations =
        w.registrations
  | [], _ => rfl
  | t :: rest, w => by
    rw [List.foldl_cons, registrations_deliver]
    rfl

/-- The registrations after a step. -/
theorem registrations_step (w : World) (a : Action) :
    (step hmacHex w a).registrations =
      match a with
      | .createRegistration reg => w.registrations ++ [reg]
      | .deleteWebhook sponsorId id => deleteWebhookHandler w.registrations sponsorId id
      | _ => w.registrations := by
  cases a with
  | dispatch eventType timestamp payloadStr ids now =>
    simp only [step]
    split
    · rfl
    · exact registrations_deliver
  | answer logId result now =>
    simp only [step]
    split <;> rfl
  | wake logId now =>
    simp only [step]
    split <;> rfl
  | _ => rfl

theorem deleteWebhookHandler_sublist (registrations : List Registration)
    (sponsorId : Option String) (id : String) :
    (deleteWebhookHandler registrations sponsorId id).Sublist registrations := by
  unfold deleteWebhookHandler
  split
  · exact List.Sublist.refl _
  · split_ifs
    · exact List.filter_sublist
    · exact List.Sublist.refl _

theorem distinctIds_step {a : Action} (h : DistinctIds w) (hl : Legal w a) :
    DistinctIds (step hmacHex w a) := by
  unfold DistinctIds at h ⊢
  rw [registrations_step]
  cases a with
  | createRegistration reg =>
    show ((w.registrations ++ [reg]).map _).Nodup
    rw [List.map_append, List.nodup_append]
    refine ⟨h, List.nodup_singleton _, fun x hx y hy => ?_⟩
    obtain ⟨r, hr, rfl⟩ := List.mem_map.mp hx
    rw [List.mem_singleton.mp hy]
    exact hl r hr
  | deleteWebhook sponsorId id =>
    exact h.sublist ((deleteWebhookHandler_sublist _ _ _).map _)
  | _ => exact h

/-- **What a deletion does**: the owner's removes the registration, any other leaves it. -/
theorem mem_deleteWebhookHandler {registrations : List Registration} {reg : Registration}
    {sponsorId : Option String} {id : String} (h : (registrations.map (·.id)).Nodup) :
    reg ∈ deleteWebhookHandler registrations sponsorId id ↔
      reg ∈ registrations ∧ ¬ DeletedBy reg (.deleteWebhook sponsorId id) := by
  unfold deleteWebhookHandler DeletedBy
  cases hfind : registrations.find? (·.id = id) with
  | none =>
    have hnone := List.find?_eq_none.mp hfind
    refine ⟨fun hreg => ⟨hreg, ?_⟩, And.left⟩
    rintro ⟨hdel, -⟩
    cases hdel
    simpa using hnone reg hreg
  | some found =>
    have hid : found.id = id := by simpa using List.find?_some hfind
    have hmem := List.mem_of_find?_eq_some hfind
    subst hid
    by_cases howner : sponsorId = some found.sponsorId ∧ sponsorId ≠ some ""
    · simp only [if_pos howner, List.mem_filter, decide_not, Bool.not_eq_true',
        decide_eq_false_iff_not]
      refine and_congr_right fun hreg => not_congr ⟨fun hsame => ?_, ?_⟩
      · rw [List.inj_on_of_nodup_map h hreg hmem hsame]
        obtain ⟨hsp, hne⟩ := howner
        rw [hsp]
        exact ⟨rfl, fun hempty => hne (by rw [hsp, hempty])⟩
      · rintro ⟨hdel, -⟩
        injection hdel with _ hid
        exact hid.symm
    · simp only [if_neg howner]
      refine ⟨fun hreg => ⟨hreg, ?_⟩, And.left⟩
      rintro ⟨hdel, hne⟩
      have hsame : reg.id = found.id := by
        injection hdel with _ hid
        exact hid.symm
      obtain rfl := List.inj_on_of_nodup_map h hreg hmem hsame
      injection hdel with hsp _
      exact howner ⟨hsp, by rw [hsp]; simpa using hne⟩

/-- The registrations that a dispatch delivers to. -/
theorem mem_targets_iff {eventType : String} {timestamp : Option (Option ℤ)} {now : ℤ}
    {reg : Registration} :
    (∃ regs, targets w eventType timestamp now = .ok regs ∧ reg ∈ regs) ↔
      eventType ∈ supportedEvents ∧
        (∃ eventTime, timestamp.getD (some now) = some eventTime ∧
          now - eventTime ≤ backfillThresholdMs) ∧
        reg ∈ w.registrations ∧ (eventType ∈ reg.events ∨ "*" ∈ reg.events) := by
  unfold targets findRegistrationsByEvent
  by_cases hsupported : eventType ∈ supportedEvents
  · cases htime : timestamp.getD (some now) with
    | none => simp [hsupported]
    | some eventTime =>
      by_cases hold : backfillThresholdMs < now - eventTime
      · have hnot : ¬ now - eventTime ≤ backfillThresholdMs := not_le.mpr hold
        simp only [List.contains_eq_mem, hold, hsupported, Option.some.injEq]
        simp [hnot]
      · have hle : now - eventTime ≤ backfillThresholdMs := not_lt.mp hold
        simp only [List.contains_eq_mem, hold, hsupported]
        simp [-tsub_le_iff_right, hle]
  · simp [hsupported]

/-- **Which webhooks are registered**: those created and not deleted by their owner since. -/
theorem registered_iff {l : List Action} (hl : AllSteps (step hmacHex) Legal World.init l)
    (reg : Registration) : reg ∈ (run (step hmacHex) World.init l).registrations ↔
      Since (step hmacHex) (fun _ a => a = .createRegistration reg) (fun _ a => DeletedBy reg a)
        World.init l := by
  have hone : ∀ w a, DistinctIds w → Legal w a → (reg ∈ (step hmacHex w a).registrations ↔
      a = .createRegistration reg ∨ (reg ∈ w.registrations ∧ ¬ DeletedBy reg a)) := by
    intro w a hI ha
    rw [registrations_step]
    cases a with
    | createRegistration r =>
      have hkeep : ¬ DeletedBy reg (.createRegistration r) := fun h => by cases h.1
      simp only [List.mem_append, List.mem_singleton, Action.createRegistration.injEq, hkeep,
        not_false_eq_true, and_true]
      rw [or_comm, eq_comm]
    | deleteWebhook sponsorId id =>
      have hne : ¬ (Action.deleteWebhook sponsorId id = .createRegistration reg) := nofun
      rw [mem_deleteWebhookHandler hI]
      simp only [hne, false_or]
    | dispatch eventType timestamp payloadStr ids now =>
      have hkeep : ¬ DeletedBy reg (.dispatch eventType timestamp payloadStr ids now) :=
        fun h => by cases h.1
      simp [hkeep]
    | answer logId result now =>
      have hkeep : ¬ DeletedBy reg (.answer logId result now) := fun h => by cases h.1
      simp [hkeep]
    | wake logId now =>
      have hkeep : ¬ DeletedBy reg (.wake logId now) := fun h => by cases h.1
      simp [hkeep]
  have hdistinct : DistinctIds World.init := List.nodup_nil
  exact iff_since_of_inv (Q := fun w => reg ∈ w.registrations)
    (fun w a hI ha => distinctIds_step hI ha) hone hdistinct nofun hl

/-- What of a delivery and its log never changes: the registration, the event and the payload. -/
def Delivers (w : World) (logId event : String) (reg : Registration) (payloadStr : String) : Prop :=
  ∃ d log, w.deliveries logId = some d ∧ w.deliveryLogs logId = some log ∧ d.registration = reg ∧
    d.payloadStr = payloadStr ∧ log.event = event

/-- The step dispatches the event and the payload to the registration, under the id of the log. -/
def DispatchesTo (logId event : String) (reg : Registration) (payloadStr : String) (w : World)
    (a : Action) : Prop :=
  ∃ timestamp ids now regs, a = .dispatch event timestamp payloadStr ids now ∧
    targets w event timestamp now = .ok regs ∧ (reg, logId) ∈ regs.zip ids

/-- The run dispatched the event and the payload to the registration, which had been created and not
been deleted by its owner. -/
def Dispatched (hmacHex : String → String → String) (l : List Action) (logId event : String)
    (reg : Registration) (payloadStr : String) : Prop :=
  ∃ pre a post, l = pre ++ a :: post ∧
    DispatchesTo logId event reg payloadStr (run (step hmacHex) World.init pre) a ∧
    Since (step hmacHex) (fun _ a => a = .createRegistration reg) (fun _ a => DeletedBy reg a)
      World.init pre

/-- A delivery after those of a dispatch is one of them, or was there. -/
theorem delivers_of_foldl {eventType payloadStr logId event payload : String}
    {reg : Registration} : ∀ {targets : List (Registration × String)} {w : World},
      Delivers (targets.foldl (World.deliver hmacHex eventType payloadStr) w) logId event reg
          payload →
        ((reg, logId) ∈ targets ∧ eventType = event ∧ payloadStr = payload) ∨
          Delivers w logId event reg payload
  | [], _, h => Or.inr h
  | (r, id) :: rest, w, h => by
    rw [List.foldl_cons] at h
    rcases delivers_of_foldl h with ⟨hmem, hrest⟩ | ⟨d, log, hd, hlog, hreg, hpayload, hevent⟩
    · exact Or.inl ⟨List.mem_cons_of_mem _ hmem, hrest⟩
    · have hd' : Function.update w.deliveries id (some _) logId = some d := hd
      have hlog' : Function.update w.deliveryLogs id (some _) logId = some log := hlog
      rw [Function.update_apply] at hd' hlog'
      split_ifs at hd' hlog' with hid
      · cases hd'
        cases hlog'
        subst hid hreg
        exact Or.inl ⟨List.mem_cons_self, hevent, hpayload⟩
      · exact Or.inr ⟨d, log, hd', hlog', hreg, hpayload, hevent⟩

/-- A delivery after a step is one that the step dispatches, or was there. -/
theorem delivers_of_step {a : Action} {logId event payload : String} {reg : Registration}
    (h : Delivers (step hmacHex w a) logId event reg payload) :
    DispatchesTo logId event reg payload w a ∨ Delivers w logId event reg payload := by
  cases a with
  | createRegistration r => exact Or.inr h
  | deleteWebhook sponsorId id => exact Or.inr h
  | dispatch eventType timestamp payloadStr ids now =>
    simp only [step] at h
    split at h
    · exact Or.inr h
    · next regs hregs =>
      refine (delivers_of_foldl h).imp_left ?_
      rintro ⟨hmem, rfl, rfl⟩
      exact ⟨timestamp, ids, now, regs, rfl, hregs, hmem⟩
  | answer id result now =>
    simp only [step] at h
    split at h
    · next r payloadStr attempt hd0 =>
      obtain ⟨d, log, hd, hlog, hreg, hpayload, hevent⟩ := h
      have hd' : Function.update w.deliveries id (some _) logId = some d := hd
      have hlog' : Function.update w.deliveryLogs id ((w.deliveryLogs id).map _) logId =
          some log := hlog
      rw [Function.update_apply] at hd' hlog'
      split_ifs at hd' hlog' with hid
      · subst hid
        obtain ⟨log0, hlog0, rfl⟩ := Option.map_eq_some_iff.mp hlog'
        cases hd'
        exact Or.inr ⟨_, log0, hd0, hlog0, hreg, hpayload, hevent⟩
      · exact Or.inr ⟨d, log, hd', hlog', hreg, hpayload, hevent⟩
    · exact Or.inr h
  | wake id now =>
    simp only [step] at h
    split at h
    · next r payloadStr attempt due hd0 =>
      obtain ⟨d, log, hd, hlog, hreg, hpayload, hevent⟩ := h
      have hd' : Function.update w.deliveries id (some _) logId = some d := hd
      have hlog' : w.deliveryLogs logId = some log := hlog
      rw [Function.update_apply] at hd'
      split_ifs at hd' with hid
      · subst hid
        cases hd'
        exact Or.inr ⟨_, log, hd0, hlog', hreg, hpayload, hevent⟩
      · exact Or.inr ⟨d, log, hd', hlog', hreg, hpayload, hevent⟩
    · exact Or.inr h

/-- **Where a delivery comes from**: a dispatch, to a registration of that moment. -/
theorem dispatched_of_delivers {l : List Action}
    (hl : AllSteps (step hmacHex) Legal World.init l) {logId event payload : String}
    {reg : Registration}
    (h : Delivers (run (step hmacHex) World.init l) logId event reg payload) :
    Dispatched hmacHex l logId event reg payload := by
  induction l using List.reverseRecOn with
  | nil =>
    obtain ⟨d, log, hd, -⟩ := h
    cases hd
  | append_singleton l a ih =>
    obtain ⟨hpre, hlast⟩ := allSteps_append.mp hl
    rw [run_append] at h
    rcases delivers_of_step h with hnow | hold
    · refine ⟨l, a, [], rfl, hnow, (registered_iff hpre reg).mp ?_⟩
      obtain ⟨timestamp, ids, now, regs, -, hregs, hmem⟩ := hnow
      obtain ⟨-, -, hreg, -⟩ := mem_targets_iff.mp ⟨regs, hregs, (List.of_mem_zip hmem).1⟩
      exact hreg
    · obtain ⟨pre, b, post, rfl, hrest⟩ := ih hpre hold
      exact ⟨pre, b, post ++ [a], by simp, hrest⟩

/-- **Delivery logs tell the truth.** In every run, in which deliveries interleave in any way, a
delivery log has the number of the answers to its attempts, the status and the error of the last
one; there are at most three, all but the last are errors, and the requests made are those answered
and at most one more. Each goes to the URL of the registration that the log names, signed with its
secret and with the payload in the log; this registration was there when the payload was
dispatched. -/
theorem delivery_logs {l : List Action} (hl : AllSteps (step hmacHex) Legal World.init l) :
    Accounts hmacHex (outcomes · l) (run (step hmacHex) World.init l) ∧
      ∀ id d log, (run (step hmacHex) World.init l).deliveries id = some d →
        (run (step hmacHex) World.init l).deliveryLogs id = some log →
          Dispatched hmacHex l id log.event d.registration log.payload := by
  refine ⟨accounts_run hl, fun id d log hd hlog => ?_⟩
  have hpayload : d.payloadStr = log.payload := by
    rcases accounts_run hl id with ⟨hnone, -⟩ | ⟨d', log', hd', hlog', ht⟩
    · rw [hlog] at hnone
      cases hnone
    · cases hd.symm.trans hd'
      cases hlog.symm.trans hlog'
      exact ht.payload.symm
  exact dispatched_of_delivers hl ⟨d, log, hd, hlog, rfl, hpayload, rfl⟩

/-- What of a log never changes: its webhook, its event and its payload. -/
def LogFor (w : World) (logId webhookId event payload : String) : Prop :=
  ∃ log, w.deliveryLogs logId = some log ∧ log.webhookId = webhookId ∧ log.event = event ∧
    log.payload = payload

/-- The step dispatches the event to a webhook, with the given log. -/
def Dispatches (logId webhookId event payload : String) (w : World) (a : Action) : Prop :=
  ∃ timestamp ids now regs reg, a = .dispatch event timestamp payload ids now ∧
    targets w event timestamp now = .ok regs ∧ (reg, logId) ∈ regs.zip ids ∧ reg.id = webhookId

/-- The logs after the deliveries of a dispatch. -/
theorem logFor_deliver {eventType payloadStr logId webhookId event payload : String} :
    ∀ {targets : List (Registration × String)} {w : World}, (targets.map Prod.snd).Nodup →
      (∀ id ∈ targets.map Prod.snd, w.deliveryLogs id = none) →
      (LogFor (targets.foldl (World.deliver hmacHex eventType payloadStr) w) logId webhookId event
        payload ↔ (∃ reg, (reg, logId) ∈ targets ∧ reg.id = webhookId ∧ eventType = event ∧
          payloadStr = payload) ∨ LogFor w logId webhookId event payload)
  | [], w, _, _ => by simp
  | (reg, id) :: rest, w, hnodup, hnew => by
    rw [List.map_cons, List.nodup_cons] at hnodup
    have hne : ∀ id' ∈ rest.map Prod.snd, id' ≠ id := by
      rintro id' hid' rfl
      exact hnodup.1 hid'
    rw [List.foldl_cons, logFor_deliver hnodup.2 fun id' hid' =>
      (Function.update_of_ne (hne id' hid') _ _).trans (hnew id' (List.mem_cons_of_mem _ hid'))]
    -- the log of the first delivery
    have hfirst : LogFor (World.deliver hmacHex eventType payloadStr w (reg, id)) logId webhookId
        event payload ↔ (logId = id ∧ reg.id = webhookId ∧ eventType = event ∧
          payloadStr = payload) ∨ LogFor w logId webhookId event payload := by
      unfold LogFor
      show (∃ log, Function.update w.deliveryLogs id (some _) logId = some log ∧ _) ↔ _
      rw [Function.update_apply]
      split_ifs with hid
      · subst hid
        rw [hnew logId List.mem_cons_self]
        simp
      · simp [hid]
    rw [hfirst]
    simp only [List.mem_cons, Prod.mk.injEq]
    constructor
    · rintro (⟨reg', hmem, hrest⟩ | ⟨rfl, hrest⟩ | hold)
      · exact Or.inl ⟨reg', Or.inr hmem, hrest⟩
      · exact Or.inl ⟨reg, Or.inl ⟨rfl, rfl⟩, hrest⟩
      · exact Or.inr hold
    · rintro (⟨reg', ⟨rfl, rfl⟩ | hmem, hrest⟩ | hold)
      · exact Or.inr (Or.inl ⟨rfl, hrest⟩)
      · exact Or.inl ⟨reg', hmem, hrest⟩
      · exact Or.inr (Or.inr hold)

/-- Whose logs there are after a step. -/
theorem logFor_step {a : Action} (hl : Legal w a) {logId webhookId event payload : String} :
    LogFor (step hmacHex w a) logId webhookId event payload ↔
      Dispatches logId webhookId event payload w a ∨ LogFor w logId webhookId event payload := by
  cases a with
  | createRegistration reg =>
    exact ⟨Or.inr, Or.rec (fun ⟨_, _, _, _, _, h, _⟩ => by cases h) fun h => h⟩
  | deleteWebhook sponsorId id =>
    exact ⟨Or.inr, Or.rec (fun ⟨_, _, _, _, _, h, _⟩ => by cases h) fun h => h⟩
  | dispatch eventType timestamp payloadStr ids now =>
    obtain ⟨hnodup, hnew, hlen⟩ := hl
    simp only [step]
    split
    · next e herr =>
      refine ⟨Or.inr, Or.rec ?_ fun h => h⟩
      rintro ⟨_, _, _, regs, _, h, hregs, -⟩
      cases h
      rw [herr] at hregs
      cases hregs
    · next regs hregs =>
      have hsnd : (regs.zip ids).map Prod.snd = ids := List.map_snd_zip (hlen regs hregs).le
      rw [logFor_deliver (by rwa [hsnd]) (by rwa [hsnd])]
      refine or_congr_left ⟨?_, ?_⟩
      · rintro ⟨reg, hmem, hid, rfl, rfl⟩
        exact ⟨timestamp, ids, now, regs, reg, rfl, hregs, hmem, hid⟩
      · rintro ⟨_, _, _, regs', reg, h, hregs', hmem, hid⟩
        cases h
        obtain rfl := Except.ok.inj (hregs.symm.trans hregs')
        exact ⟨reg, hmem, hid, rfl, rfl⟩
  | answer id result now =>
    refine Iff.trans ?_ ⟨Or.inr, Or.rec (fun ⟨_, _, _, _, _, h, _⟩ => by cases h) fun h => h⟩
    simp only [step]
    split
    · unfold LogFor
      show (∃ log, Function.update w.deliveryLogs id _ logId = some log ∧ _) ↔ _
      rw [Function.update_apply]
      split_ifs with hid
      · subst hid
        cases w.deliveryLogs logId with
        | none => simp
        | some log => simp
      · rfl
    · rfl
  | wake id now =>
    refine Iff.trans ?_ ⟨Or.inr, Or.rec (fun ⟨_, _, _, _, _, h, _⟩ => by cases h) fun h => h⟩
    simp only [step]
    split <;> exact Iff.rfl

/-- **Who gets an event.** In every run there is a delivery of an event and payload to a webhook
exactly if it was dispatched, less than a day old, at a moment when a registration with that id,
which listens to the event, had been created and not been deleted by its owner. -/
theorem webhook_reached_iff {l : List Action} (hl : AllSteps (step hmacHex) Legal World.init l)
    (webhookId event payload : String) :
    (∃ logId, LogFor (run (step hmacHex) World.init l) logId webhookId event payload) ↔
      ∃ pre timestamp ids now post reg,
        l = pre ++ .dispatch event timestamp payload ids now :: post ∧
        event ∈ supportedEvents ∧
        (∃ eventTime, timestamp.getD (some now) = some eventTime ∧
          now - eventTime ≤ backfillThresholdMs) ∧
        reg.id = webhookId ∧ (event ∈ reg.events ∨ "*" ∈ reg.events) ∧
        Since (step hmacHex) (fun _ a => a = .createRegistration reg) (fun _ a => DeletedBy reg a)
          World.init pre := by
  have hlog (logId : String) : LogFor (run (step hmacHex) World.init l) logId webhookId event
      payload ↔ Since (step hmacHex) (Dispatches logId webhookId event payload)
        (fun _ _ => False) World.init l := by
    have hone : ∀ w a, True → Legal w a → (LogFor (step hmacHex w a) logId webhookId event payload ↔
        Dispatches logId webhookId event payload w a ∨
          (LogFor w logId webhookId event payload ∧ ¬ False)) := by
      intro w a _ ha
      rw [not_false_eq_true, and_true]
      exact logFor_step ha
    have hnone : ¬ LogFor World.init logId webhookId event payload := by
      rintro ⟨_, hlog, -⟩
      cases hlog
    exact iff_since_of_inv (Q := fun w => LogFor w logId webhookId event payload)
      (fun _ _ (_ : True) _ => trivial) hone trivial hnone hl
  constructor
  · rintro ⟨logId, h⟩
    obtain ⟨pre, a, post, rfl, ⟨timestamp, ids, now, regs, reg, rfl, hregs, hmem, hid⟩, -⟩ :=
      (hlog logId).mp h
    obtain ⟨hsupported, htime, hreg, hlistens⟩ :=
      mem_targets_iff.mp ⟨regs, hregs, (List.of_mem_zip hmem).1⟩
    exact ⟨pre, timestamp, ids, now, post, reg, rfl, hsupported, htime, hid, hlistens,
      (registered_iff (allSteps_append.mp hl).1 reg).mp hreg⟩
  · rintro ⟨pre, timestamp, ids, now, post, reg, rfl, hsupported, htime, hid, hlistens, hsince⟩
    have hreg := (registered_iff (allSteps_append.mp hl).1 reg).mpr hsince
    obtain ⟨regs, hregs, hmem⟩ := mem_targets_iff.mpr ⟨hsupported, htime, hreg, hlistens⟩
    obtain ⟨-, -, hlen⟩ := (allSteps_append.mp hl).2.1
    -- every target has an id of its own
    obtain ⟨i, hi, rfl⟩ := List.mem_iff_getElem.mp hmem
    have hi' : i < ids.length := by rwa [hlen regs hregs]
    have hzip : (regs[i], ids[i]) ∈ regs.zip ids :=
      List.mem_iff_getElem.mpr ⟨i, by rw [List.length_zip]; omega, List.getElem_zip⟩
    exact ⟨ids[i], (hlog _).mpr ⟨pre, _, post, rfl,
      ⟨timestamp, ids, now, regs, regs[i], rfl, hregs, hzip, hid⟩,
      allSteps_of_forall fun _ _ => not_false⟩⟩

end Reached

/-- A sponsor registers for claims, a claim is dispatched, the first attempt fails and the second
does not. -/
def sampleRun : List Action :=
  [.createRegistration ⟨"w", "S", "https://s.example", "k", ["tokens_claimed"]⟩,
    .dispatch "tokens_claimed" none "5" ["d"] 0, .answer "d" (.error "HTTP 503") 10,
    .wake "d" 1010, .answer "d" (.ok ()) 1020]

/-- A hash that hides nothing. -/
def sampleHmac : String → String → String := fun secret payload => secret ++ payload

theorem sampleRun_legal : AllSteps (step sampleHmac) Legal World.init sampleRun := by
  refine ⟨by simp [World.init, Legal], ⟨by simp, fun _ _ => rfl, ?_⟩, ⟨_, _, _, rfl⟩,
    ⟨_, _, _, _, rfl, by decide⟩, ⟨_, _, _, rfl⟩, trivial⟩
  intro regs hregs
  cases hregs
  rfl

theorem delivery_logs_sample :
    Accounts sampleHmac (outcomes · sampleRun) (run (step sampleHmac) World.init sampleRun) ∧
      Dispatched sampleHmac sampleRun "d" "tokens_claimed"
        ⟨"w", "S", "https://s.example", "k", ["tokens_claimed"]⟩ "5" :=
  ⟨(delivery_logs sampleRun_legal).1, (delivery_logs sampleRun_legal).2 "d" _ _ rfl rfl⟩

theorem webhook_reached_iff_sample :
    ∃ logId, LogFor (run (step sampleHmac) World.init sampleRun) logId "w" "tokens_claimed" "5" :=
  (webhook_reached_iff sampleRun_legal "w" "tokens_claimed" "5").mpr
    ⟨sampleRun.take 1, none, ["d"], 0, sampleRun.drop 2, _, rfl, by decide, ⟨0, rfl, by decide⟩,
      rfl, Or.inl (by decide), [], _, [], rfl, rfl, trivial⟩

end VestingDripStream.Backend.WebhookDelivery
