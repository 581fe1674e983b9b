import VestingDripStream.Lib.Run
import VestingDripStream.Lib.Buckets

/-! # What a WebSocket connection holds

The connection handler of `wsStreams.ts`: the count of its source address, its callback on the local
bus, its Redis client and its heartbeat timer. The setup of a connection waits for the snapshot, the
publisher client, the buffer, the subscriber client and the subscription, and then, without waiting,
falls back to the local bus if it has no client and starts the timer. `cleanup` runs on the first
close or error and gives back what there is at that moment.

So a setup that goes on after `cleanup` starts a timer that nobody stops; and a client whose
subscription failed is forgotten, not quit. `cleanup_complete` says that nothing else is left
behind, and that the counts are right whatever happens. -/

namespace VestingDripStream.Backend.WsCleanup

open VestingDripStream.Lib.Run VestingDripStream.Lib.Buckets

/-! ### Connections -/

/-- What the setup waits for. -/
inductive Setup
  | snapshot
  | pubClient
  | lRange
  | createClient
  | subscribing
  | done
  deriving DecidableEq, Repr

/-- An accepted connection, with the variables of its handler. `isOpen` is `readyState === OPEN`,
`connected` says that a Redis client of the connection exists, and `unsubscribing` that `cleanup`
waits for it to unsubscribe before it quits it. -/
structure Connection where
  sourceIp : String
  recipient : String
  isOpen : Bool := true
  setup : Setup := .snapshot
  closed : Bool := false
  missedHeartbeats : ℕ := 0
  heartbeatTimer : Bool := false
  subscriberClient : Bool := false
  localCallback : Bool := false
  connected : Bool := false
  unsubscribing : Bool := false
  deriving DecidableEq, Repr

/-- `_ipConnectionCount`, `_localBus`, the callbacks by the numbers of their connections, and the
accepted connections. -/
structure Server where
  ipConnectionCount : String → Option ℕ := fun _ => none
  localBus : Sets String ℕ := fun _ => none
  connections : List Connection := []

/-- What happens to a connection: its socket is no longer open, it is closed or has an error; what
its setup or `cleanup` waits for is there; the heartbeat timer fires; a pong comes. -/
inductive Event
  | shut
  | close
  | error
  | snapshot
  | pubClient (redis : Bool)
  | lRange
  | created (connected : Bool)
  | subscribed (ok : Bool)
  | unsubscribed
  | heartbeat
  | pong
  deriving DecidableEq, Repr

/-- A connection to the path of a valid recipient comes, or something happens to one. -/
inductive Action
  | connect (sourceIp recipient : String)
  | event (id : ℕ) (e : Event)
  deriving DecidableEq, Repr

/-- `MAX_MISSED_HEARTBEATS`. -/
def maxMissedHeartbeats : ℕ := 2

/-- `incrementIpCount`, and the count it returns. -/
def incrementIpCount (m : String → Option ℕ) (ip : String) : (String → Option ℕ) × ℕ :=
  let current := (m ip).getD 0
  (Function.update m ip (some (current + 1)), current + 1)

/-- `decrementIpCount`. -/
def decrementIpCount (m : String → Option ℕ) (ip : String) : String → Option ℕ :=
  let current := (m ip).getD 1
  if current ≤ 1 then Function.update m ip none else Function.update m ip (some (current - 1))

/-- The server with another record of the connection `id`. -/
def Server.put (s : Server) (id : ℕ) (c : Connection) : Server :=
  { s with connections := s.connections.set id c }

/-- `cleanup`. -/
def cleanup (s : Server) (id : ℕ) (c : Connection) : Server :=
  if c.closed then s.put id c
  else
    { ipConnectionCount := decrementIpCount s.ipConnectionCount c.sourceIp
      localBus := if c.localCallback then remove s.localBus c.recipient id else s.localBus
      connections := s.connections.set id
        { c with
          closed := true
          heartbeatTimer := false
          unsubscribing := c.subscriberClient
          localCallback := false } }

/-- The end of the setup: the fallback to the local bus, and the heartbeat timer. -/
def finishSetup (s : Server) (id : ℕ) (c : Connection) : Server :=
  { s with
    localBus := if c.subscriberClient then s.localBus else add s.localBus c.recipient id
    connections := s.connections.set id
      { c with
        setup := .done
        localCallback := c.localCallback || !c.subscriberClient
        heartbeatTimer := true } }

/-- What an event does. -/
def onEvent (s : Server) (id : ℕ) (c : Connection) : Event → Server
  | .shut => s.put id { c with isOpen := false }
  | .close => cleanup s id { c with isOpen := false }
  | .error => cleanup s id c
  | .snapshot => if c.setup = .snapshot then s.put id { c with setup := .pubClient } else s
  | .pubClient redis =>
    if c.setup = .pubClient then
      s.put id { c with setup := if redis then .lRange else .createClient }
    else s
  | .lRange => if c.setup = .lRange then s.put id { c with setup := .createClient } else s
  | .created connected =>
    if c.setup = .createClient then
      if connected then
        s.put id { c with setup := .subscribing, subscriberClient := true, connected := true }
      else finishSetup s id { c with subscriberClient := false }
    else s
  | .subscribed ok =>
    if c.setup = .subscribing then
      -- a client that cannot subscribe is dropped
      finishSetup s id { c with subscriberClient := c.subscriberClient && ok }
    else s
  | .unsubscribed =>
    if c.unsubscribing then
      s.put id
        { c with
          connected := c.connected && !c.subscriberClient
          subscriberClient := false
          unsubscribing := false }
    else s
  | .heartbeat =>
    if c.heartbeatTimer then
      if !c.isOpen then cleanup s id c
      else if maxMissedHeartbeats < c.missedHeartbeats + 1 then
        cleanup s id { c with missedHeartbeats := c.missedHeartbeats + 1, isOpen := false }
      else s.put id { c with missedHeartbeats := c.missedHeartbeats + 1 }
    else s
  | .pong => if c.setup = .done then s.put id { c with missedHeartbeats := 0 } else s

/-- A connection comes and is accepted, unless its address has too many. The limit is what
`parseInt` makes of the environment. -/
def onConnect (maxConnectionsPerIp : Option ℤ) (s : Server) (ip recipient : String) : Server :=
  let (counts, count) := incrementIpCount s.ipConnectionCount ip
  if ∃ limit ∈ maxConnectionsPerIp, limit < (count : ℤ) then
    { s with ipConnectionCount := decrementIpCount counts ip }
  else
    { s with
      ipConnectionCount := counts
      connections := s.connections ++ [{ sourceIp := ip, recipient := recipient }] }

/-- One step. -/
def step (maxConnectionsPerIp : Option ℤ) (s : Server) : Action → Server
  | .connect ip recipient => onConnect maxConnectionsPerIp s ip recipient
  | .event id e =>
    match s.connections[id]? with
    | none => s
    | some c => onEvent s id c e

/-! ### What must hold -/

/-- The number of the accepted connections from an address that are not closed. -/
def live (connections : List Connection) (ip : String) : ℕ :=
  connections.countP fun c => decide (c.sourceIp = ip) && !c.closed

/-- The count of every address is the number of its accepted connections that are not closed. -/
def Counted (s : Server) : Prop :=
  ∀ ip, (s.ipConnectionCount ip).getD 0 = live s.connections ip

/-- The connection is closed, and its setup has run to the end. -/
def Connection.isOver (c : Connection) : Bool := c.closed && decide (c.setup = .done)

/-- No callback and no timer of the connection is left, and no client once it has unsubscribed. -/
structure Released (s : Server) (id : ℕ) (c : Connection) : Prop where
  localBus : ∀ recipient, id ∉ members s.localBus recipient
  heartbeatTimer : c.heartbeatTimer = false
  connected : c.unsubscribing = false → c.connected = false

/-- **The demand.** Connections that are over have left nothing behind. -/
def Clean (s : Server) : Prop :=
  ∀ id c, s.connections[id]? = some c → c.isOver → Released s id c

/-- The event makes `cleanup` run for the first time. -/
def Event.cleansUp (c : Connection) : Event → Bool
  | .close | .error => !c.closed
  | .heartbeat =>
    !c.closed && c.heartbeatTimer &&
      (!c.isOpen || decide (maxMissedHeartbeats < c.missedHeartbeats + 1))
  | _ => false

/-- The event ends the setup. -/
def Event.endsSetup (c : Connection) : Event → Bool
  | .created connected => decide (c.setup = .createClient) && !connected
  | .subscribed _ => decide (c.setup = .subscribing)
  | _ => false

/-- A client of the connection exists, and its setup is over and does not know it: it could not
subscribe. -/
def Connection.hasLostClient (c : Connection) : Bool :=
  decide (c.setup = .done) && c.connected && !c.subscriberClient

/-- No setup ends after the connection was closed, and no connection is closed that has lost a
client. -/
def InTime (s : Server) : Action → Prop
  | .connect .. => True
  | .event id e => ∀ c ∈ s.connections[id]?,
      (e.endsSetup c → c.closed = false) ∧ (e.cleansUp c → c.hasLostClient = false)

instance (s : Server) (a : Action) : Decidable (InTime s a) := by
  unfold InTime; split <;> infer_instance

variable {s s' : Server} {id : ℕ} {c c' : Connection} {e : Event}

/-! ### What an event does -/

/-- How the client of a connection changes while neither `cleanup` nor the end of the setup runs:
not, or the setup gets one, or it is quit if `cleanup` still knows it. -/
inductive ClientChange (c c' : Connection) : Prop
  | same : c'.connected = c.connected → c'.subscriberClient = c.subscriberClient →
      c'.unsubscribing = c.unsubscribing → ClientChange c c'
  | created : c'.setup ≠ .done → c'.subscriberClient = true →
      c'.unsubscribing = c.unsubscribing → ClientChange c c'
  | quit : c.unsubscribing = true → c'.connected = (c.connected && !c.subscriberClient) →
      c'.unsubscribing = false → ClientChange c c'

/-- Nothing is given back and nothing acquired but the client. -/
structure Quiet (c c' : Connection) : Prop where
  sourceIp : c'.sourceIp = c.sourceIp
  recipient : c'.recipient = c.recipient
  closed : c'.closed = c.closed
  setup : c'.setup = .done ↔ c.setup = .done
  heartbeatTimer : c'.heartbeatTimer = c.heartbeatTimer
  localCallback : c'.localCallback = c.localCallback
  client : ClientChange c c'

/-- The record with other values of what `cleanup` does not look at. -/
def Connection.withSocket (c : Connection) (isOpen : Bool) (missed : ℕ) : Connection :=
  { c with isOpen := isOpen, missedHeartbeats := missed }

theorem quiet_withSocket (c : Connection) (isOpen : Bool) (missed : ℕ) :
    Quiet c (c.withSocket isOpen missed) :=
  ⟨rfl, rfl, rfl, Iff.rfl, rfl, rfl, .same rfl rfl rfl⟩

theorem put_self (h : s.connections[id]? = some c) : s.put id c = s := by
  obtain ⟨hid, rfl⟩ := List.getElem?_eq_some_iff.mp h
  unfold Server.put
  rw [List.set_getElem_self]

/-- **What an event does**: it runs `cleanup` on a connection that is not closed, it ends the setup,
or it is quiet. -/
inductive Effect (s : Server) (id : ℕ) (c : Connection) (e : Event) : Server → Prop
  | cleanup (isOpen : Bool) (missed : ℕ) : e.cleansUp c = true → e.endsSetup c = false →
      c.closed = false → Effect s id c e (cleanup s id (c.withSocket isOpen missed))
  | finish (known : Bool) : e.cleansUp c = false → e.endsSetup c = true → c.setup ≠ .done →
      Effect s id c e (finishSetup s id { c with subscriberClient := known })
  | quiet (c' : Connection) : e.cleansUp c = false → e.endsSetup c = false → Quiet c c' →
      Effect s id c e (s.put id c')

theorem effect_of_cleanup (isOpen : Bool) (missed : ℕ) (hcleans : e.cleansUp c = !c.closed)
    (hends : e.endsSetup c = false) :
    Effect s id c e (cleanup s id (c.withSocket isOpen missed)) := by
  cases hclosed : c.closed with
  | false => exact .cleanup isOpen missed (by rw [hcleans, hclosed]; rfl) hends hclosed
  | true =>
    have hput : WsCleanup.cleanup s id (c.withSocket isOpen missed) =
        s.put id (c.withSocket isOpen missed) := if_pos hclosed
    rw [hput]
    exact .quiet _ (by rw [hcleans, hclosed]; rfl) hends (quiet_withSocket c isOpen missed)

theorem effect_onEvent (h : s.connections[id]? = some c) (e : Event) :
    Effect s id c e (onEvent s id c e) := by
  have hself : e.cleansUp c = false → e.endsSetup c = false → Effect s id c e s := by
    intro hcleans hends
    have hquiet : Effect s id c e (s.put id c) := .quiet c hcleans hends (quiet_withSocket c _ _)
    rwa [put_self h] at hquiet
  cases e with
  | shut => exact .quiet _ rfl rfl (quiet_withSocket c false c.missedHeartbeats)
  | close => exact effect_of_cleanup false c.missedHeartbeats rfl rfl
  | error => exact effect_of_cleanup c.isOpen c.missedHeartbeats rfl rfl
  | snapshot =>
    simp only [onEvent]
    split
    case isTrue hs =>
      exact .quiet _ rfl rfl ⟨rfl, rfl, rfl, by simp [hs], rfl, rfl, .same rfl rfl rfl⟩
    case isFalse => exact hself rfl rfl
  | pubClient redis =>
    simp only [onEvent]
    split
    case isTrue hs =>
      refine .quiet _ rfl rfl ⟨rfl, rfl, rfl, ?_, rfl, rfl, .same rfl rfl rfl⟩
      cases redis <;> simp [hs]
    case isFalse => exact hself rfl rfl
  | lRange =>
    simp only [onEvent]
    split
    case isTrue hs =>
      exact .quiet _ rfl rfl ⟨rfl, rfl, rfl, by simp [hs], rfl, rfl, .same rfl rfl rfl⟩
    case isFalse => exact hself rfl rfl
  | created connected =>
    simp only [onEvent]
    split
    case isTrue hs =>
      cases connected with
      | true =>
        exact .quiet _ rfl (by simp [Event.endsSetup])
          ⟨rfl, rfl, rfl, by simp [hs], rfl, rfl, .created nofun rfl rfl⟩
      | false => exact .finish false rfl (by simp [Event.endsSetup, hs]) (by simp [hs])
    case isFalse hs => exact hself rfl (by simp [Event.endsSetup, hs])
  | subscribed ok =>
    simp only [onEvent]
    split
    case isTrue hs => exact .finish _ rfl (by simp [Event.endsSetup, hs]) (by simp [hs])
    case isFalse hs => exact hself rfl (by simp [Event.endsSetup, hs])
  | unsubscribed =>
    simp only [onEvent]
    split
    case isTrue hs => exact .quiet _ rfl rfl ⟨rfl, rfl, rfl, Iff.rfl, rfl, rfl, .quit hs rfl rfl⟩
    case isFalse => exact hself rfl rfl
  | heartbeat =>
    simp only [onEvent]
    split
    case isFalse htimer => exact hself (by simp [Event.cleansUp, htimer]) rfl
    case isTrue htimer =>
      split
      case isTrue hopen =>
        refine effect_of_cleanup c.isOpen c.missedHeartbeats ?_ rfl
        simp [Event.cleansUp, htimer, hopen]
      case isFalse hopen =>
        split
        case isTrue hmissed =>
          refine effect_of_cleanup false (c.missedHeartbeats + 1) ?_ rfl
          simp [Event.cleansUp, htimer, hmissed]
        case isFalse hmissed =>
          refine .quiet _ ?_ rfl (quiet_withSocket c c.isOpen (c.missedHeartbeats + 1))
          simp [Event.cleansUp, hopen, hmissed]
  | pong =>
    simp only [onEvent]
    split
    · exact .quiet _ rfl rfl (quiet_withSocket c c.isOpen 0)
    · exact hself rfl rfl

/-! ### The counts -/

theorem getD_decrement (m : String → Option ℕ) (ip ip' : String) :
    (decrementIpCount m ip ip').getD 0 =
      if ip' = ip then (m ip).getD 0 - 1 else (m ip').getD 0 := by
  unfold decrementIpCount
  by_cases h : ip' = ip
  · subst h
    rw [if_pos rfl]
    cases hm : m ip' with
    | none => simp
    | some n =>
      simp only [Option.getD_some]
      split_ifs with hn
      · simp only [Function.update_self, Option.getD_none]
        omega
      · simp
  · rw [if_neg h]
    split_ifs <;> rw [Function.update_of_ne h]

theorem getD_increment (m : String → Option ℕ) (ip ip' : String) :
    ((incrementIpCount m ip).1 ip').getD 0 =
      if ip' = ip then (m ip).getD 0 + 1 else (m ip').getD 0 := by
  unfold incrementIpCount
  by_cases h : ip' = ip
  · subst h
    simp
  · rw [if_neg h]
    simp only
    rw [Function.update_of_ne h]

theorem live_set {l : List Connection} (h : l[id]? = some c) (ip : String) :
    live (l.set id c') ip = live l ip - (if decide (c.sourceIp = ip) && !c.closed then 1 else 0) +
      (if decide (c'.sourceIp = ip) && !c'.closed then 1 else 0) := by
  obtain ⟨hid, rfl⟩ := List.getElem?_eq_some_iff.mp h
  exact List.countP_set hid

theorem live_pos {l : List Connection} (h : l[id]? = some c) {ip : String}
    (hc : (decide (c.sourceIp = ip) && !c.closed) = true) : 0 < live l ip :=
  List.countP_pos_iff.mpr ⟨c, List.mem_of_getElem? h, hc⟩

/-- A connection is counted as before as long as it keeps its address and is not closed. -/
theorem live_set_of_eq {l : List Connection} (h : l[id]? = some c)
    (hip : c'.sourceIp = c.sourceIp) (hclosed : c'.closed = c.closed) (ip : String) :
    live (l.set id c') ip = live l ip := by
  rw [live_set h, hip, hclosed]
  split_ifs with hlive
  · have hpos := live_pos h hlive
    omega
  · rfl

theorem counted_cleanup (hc : Counted s) (h : s.connections[id]? = some c)
    (hclosed : c.closed = false) (isOpen : Bool) (missed : ℕ) :
    Counted (cleanup s id (c.withSocket isOpen missed)) := by
  intro ip
  unfold cleanup
  rw [if_neg (by simp [Connection.withSocket, hclosed])]
  simp only [live_set h, getD_decrement, Connection.withSocket, hclosed]
  by_cases hip : ip = c.sourceIp
  · subst hip
    simp [hc c.sourceIp]
  · simp [hip, Ne.symm hip, hc ip]

theorem counted_onConnect (hc : Counted s) (maxConnectionsPerIp : Option ℤ)
    (ip recipient : String) : Counted (onConnect maxConnectionsPerIp s ip recipient) := by
  intro ip'
  have h := hc ip'
  unfold onConnect
  by_cases hip : ip' = ip
  · subst hip
    simp only
    split_ifs
    · -- a connection too many is not counted
      simpa [getD_decrement, getD_increment] using h
    · simpa [getD_increment, live] using h
  · simp only
    split_ifs
    · simpa [getD_decrement, getD_increment, hip] using h
    · simpa [getD_increment, hip, Ne.symm hip, live] using h

/-- **The counts** stay right whatever happens. -/
theorem counted_step (maxConnectionsPerIp : Option ℤ) (hc : Counted s) (a : Action) :
    Counted (step maxConnectionsPerIp s a) := by
  cases a with
  | connect ip recipient => exact counted_onConnect hc maxConnectionsPerIp ip recipient
  | event id e =>
    simp only [step]
    split
    · exact hc
    case h_2 c h =>
      have heffect := effect_onEvent h e
      generalize onEvent s id c e = s' at heffect ⊢
      cases heffect with
      | cleanup isOpen missed _ _ hclosed => exact counted_cleanup hc h hclosed isOpen missed
      | finish known =>
        refine fun ip => (hc ip).trans (live_set_of_eq h ?_ ?_ ip).symm
        · rfl
        · rfl
      | quiet c' _ _ hquiet =>
        exact fun ip => (hc ip).trans (live_set_of_eq h hquiet.sourceIp hquiet.closed ip).symm

/-! ### What is left behind -/

/-- What the variables of a handler say: they know its callback, the timer is started last, and
`cleanup` waits for a client that they know, unless the setup ended in between. -/
structure Known (s : Server) (id : ℕ) (c : Connection) : Prop where
  localBus : ∀ recipient, id ∈ members s.localBus recipient →
    c.localCallback = true ∧ recipient = c.recipient
  heartbeatTimer : c.heartbeatTimer = true → c.setup = .done
  unsubscribing : c.unsubscribing = true → c.closed = true ∧
    (c.subscriberClient = true ∨ (c.setup = .done ∧ c.heartbeatTimer = true))

/-- The invariant. -/
structure Inv (s : Server) : Prop where
  known : ∀ id c, s.connections[id]? = some c → Known s id c
  localBus : ∀ recipient, ∀ id ∈ members s.localBus recipient, id < s.connections.length

/-- An event changes the record of its connection, and only its callback on the local bus. -/
structure Touches (s : Server) (id : ℕ) (c' : Connection) (s' : Server) : Prop where
  connections : s'.connections = s.connections.set id c'
  localBus : ∀ j recipient, j ≠ id →
    (j ∈ members s'.localBus recipient ↔ j ∈ members s.localBus recipient)

theorem Known.congr {j : ℕ} (h : Known s j c)
    (hbus : ∀ recipient, j ∈ members s'.localBus recipient → j ∈ members s.localBus recipient) :
    Known s' j c :=
  ⟨fun r hr => h.localBus r (hbus r hr), h.heartbeatTimer, h.unsubscribing⟩

theorem Released.congr {j : ℕ} (h : Released s j c)
    (hbus : ∀ recipient, j ∈ members s'.localBus recipient → j ∈ members s.localBus recipient) :
    Released s' j c :=
  ⟨fun r hr => h.localBus r (hbus r hr), h.heartbeatTimer, h.connected⟩

theorem Touches.get (h : Touches s id c' s') (hid : id < s.connections.length) (j : ℕ) :
    s'.connections[j]? = if id = j then some c' else s.connections[j]? := by
  rw [h.connections, List.getElem?_set]
  split_ifs <;> rfl

theorem Touches.inv (h : Touches s id c' s') (hI : Inv s) (hid : id < s.connections.length)
    (hknown : Known s' id c') : Inv s' := by
  refine ⟨fun j d hj => ?_, fun r j hj => ?_⟩
  · rw [h.get hid] at hj
    split_ifs at hj with hjd
    · cases hj
      exact hjd ▸ hknown
    · exact (hI.known j d hj).congr fun r => (h.localBus j r (Ne.symm hjd)).mp
  · rw [h.connections, List.length_set]
    by_cases hjd : j = id
    · exact hjd ▸ hid
    · exact hI.localBus r j ((h.localBus j r hjd).mp hj)

/-- Whether all is clean is decided by the connection itself. -/
theorem Touches.clean_iff (h : Touches s id c' s') (hclean : Clean s)
    (hid : id < s.connections.length) : Clean s' ↔ (c'.isOver → Released s' id c') := by
  constructor
  · exact fun hc => hc id c' (by rw [h.get hid, if_pos rfl])
  · intro hown j d hj hover
    rw [h.get hid] at hj
    split_ifs at hj with hjd
    · cases hj
      exact hjd ▸ hown hover
    · exact (hclean j d hj hover).congr fun r => (h.localBus j r (Ne.symm hjd)).mp

theorem isOver_iff : c.isOver = true ↔ c.closed = true ∧ c.setup = .done := by
  simp [Connection.isOver]

/-- A quiet event keeps what the variables know. -/
theorem Quiet.known (h : Quiet c c') (hk : Known s id c) : Known (s.put id c') id c' where
  localBus := fun r hr => by
    rw [h.localCallback, h.recipient]
    exact hk.localBus r hr
  heartbeatTimer := by
    rw [h.heartbeatTimer, h.setup]
    exact hk.heartbeatTimer
  unsubscribing := by
    rw [h.closed, h.heartbeatTimer, h.setup]
    rcases h.client with ⟨-, hvar, hunsub⟩ | ⟨-, hvar, hunsub⟩ | ⟨-, -, hunsub⟩
    · rw [hvar, hunsub]
      exact hk.unsubscribing
    · rw [hvar, hunsub]
      exact fun hu => ⟨(hk.unsubscribing hu).1, Or.inl rfl⟩
    · rw [hunsub]
      exact fun hu => nomatch hu

/-- A quiet event of a connection that is over leaves nothing behind. -/
theorem Quiet.released (h : Quiet c c') (hk : Known s id c) (hover : c'.isOver)
    (hr : c.isOver → Released s id c) : Released (s.put id c') id c' := by
  rw [isOver_iff, h.closed, h.setup] at hover
  have hr := hr (isOver_iff.mpr hover)
  refine ⟨hr.localBus, h.heartbeatTimer.trans hr.heartbeatTimer, fun hunsub => ?_⟩
  rcases h.client with ⟨hconn, -, hun⟩ | ⟨hsetup, -, -⟩ | ⟨hun, hconn, -⟩
  · rw [hconn]
    exact hr.connected (hun ▸ hunsub)
  · exact absurd (h.setup.mpr hover.2) hsetup
  · -- the timer is stopped, so that the client is known, and quit
    rcases (hk.unsubscribing hun).2 with hvar | ⟨-, htimer⟩
    · rw [hconn, hvar, Bool.not_true, Bool.and_false]
    · rw [hr.heartbeatTimer] at htimer
      cases htimer

/-- The record of a connection after its first `cleanup`. -/
def Connection.cleaned (c : Connection) : Connection :=
  { c with
    closed := true
    heartbeatTimer := false
    unsubscribing := c.subscriberClient
    localCallback := false }

theorem cleanup_of_open (h : c.closed = false) : cleanup s id c =
    { ipConnectionCount := decrementIpCount s.ipConnectionCount c.sourceIp
      localBus := if c.localCallback then remove s.localBus c.recipient id else s.localBus
      connections := s.connections.set id c.cleaned } :=
  if_neg (by simp [h])

/-- The first `cleanup` leaves nothing on the bus. -/
theorem not_mem_cleanup (hk : Known s id c) (hclosed : c.closed = false) (recipient : String) :
    id ∉ members (cleanup s id c).localBus recipient := by
  rw [cleanup_of_open hclosed]
  simp only
  split_ifs with hcall
  · intro hmem
    obtain ⟨hold, hne⟩ := mem_remove.mp hmem
    exact hne ⟨(hk.localBus _ hold).2, rfl⟩
  · exact fun hmem => hcall (hk.localBus _ hmem).1

theorem touches_cleanup (hclosed : c.closed = false) :
    Touches s id c.cleaned (cleanup s id c) := by
  rw [cleanup_of_open hclosed]
  refine ⟨rfl, fun j r hj => ?_⟩
  simp only
  split_ifs
  · rw [mem_remove]
    simp [hj]
  · exact Iff.rfl

theorem known_cleanup (hk : Known s id c) (hclosed : c.closed = false) :
    Known (cleanup s id c) id c.cleaned :=
  ⟨fun r hr => absurd hr (not_mem_cleanup hk hclosed r), fun h => (nomatch h),
    fun h => ⟨rfl, Or.inl h⟩⟩

/-- **The first `cleanup`** leaves nothing behind exactly if no client was lost. -/
theorem released_cleanup_iff (hk : Known s id c) (hclosed : c.closed = false) :
    (c.cleaned.isOver → Released (cleanup s id c) id c.cleaned) ↔ c.hasLostClient = false := by
  have hover : c.cleaned.isOver = true ↔ c.setup = .done :=
    isOver_iff.trans (and_iff_right rfl)
  have hlost : c.hasLostClient = false ↔
      (c.setup = .done → c.subscriberClient = false → c.connected = false) := by
    unfold Connection.hasLostClient
    cases c.subscriberClient <;> simp
  rw [hover, hlost]
  constructor
  · exact fun h hdone => (h hdone).connected
  · exact fun h hdone => ⟨not_mem_cleanup hk hclosed, rfl, h hdone⟩

/-- The record of a connection whose setup has ended. -/
def Connection.ready (c : Connection) : Connection :=
  { c with
    setup := .done
    localCallback := c.localCallback || !c.subscriberClient
    heartbeatTimer := true }

theorem touches_finishSetup : Touches s id c.ready (finishSetup s id c) := by
  refine ⟨rfl, fun j r hj => ?_⟩
  simp only [finishSetup]
  split_ifs
  · exact Iff.rfl
  · rw [mem_add]
    simp [hj]

theorem known_finishSetup (hk : Known s id c) (known : Bool) :
    Known (finishSetup s id { c with subscriberClient := known }) id
      (Connection.ready { c with subscriberClient := known }) := by
  refine ⟨fun r hr => ?_, fun _ => rfl, fun h => ⟨(hk.unsubscribing h).1, Or.inr ⟨rfl, rfl⟩⟩⟩
  simp only [finishSetup] at hr
  simp only [Connection.ready]
  split_ifs at hr with hknown
  · obtain ⟨hcall, hrec⟩ := hk.localBus r hr
    simp [hcall, hrec]
  · rcases mem_add.mp hr with ⟨hrec, -⟩ | hold
    · simp [hknown, hrec]
    · obtain ⟨hcall, hrec⟩ := hk.localBus r hold
      simp [hcall, hrec]

/-- **The end of the setup** leaves nothing behind exactly if the connection is not closed. -/
theorem released_finishSetup_iff :
    (c.ready.isOver → Released (finishSetup s id c) id c.ready) ↔ c.closed = false := by
  have hover : c.ready.isOver = true ↔ c.closed = true := isOver_iff.trans (and_iff_left rfl)
  rw [hover]
  constructor
  · intro h
    by_contra hclosed
    have htimer := (h (Bool.not_eq_false _ ▸ hclosed)).heartbeatTimer
    cases htimer
  · intro hclosed h
    rw [hclosed] at h
    cases h

/-- **One event** keeps the invariant, and leaves nothing behind exactly if it is in time. -/
theorem event_keeps (hI : Inv s) (h : s.connections[id]? = some c) (e : Event) :
    Inv (onEvent s id c e) ∧ (Clean s → (Clean (onEvent s id c e) ↔
      (e.endsSetup c → c.closed = false) ∧ (e.cleansUp c → c.hasLostClient = false))) := by
  have hk := hI.known id c h
  have hid := (List.getElem?_eq_some_iff.mp h).1
  have heffect := effect_onEvent h e
  generalize onEvent s id c e = s' at heffect ⊢
  cases heffect with
  | cleanup isOpen missed hcleans hends hclosed =>
    have hk' : Known s id (c.withSocket isOpen missed) :=
      ⟨hk.localBus, hk.heartbeatTimer, hk.unsubscribing⟩
    have ht : Touches s id _ (cleanup s id (c.withSocket isOpen missed)) :=
      touches_cleanup hclosed
    refine ⟨ht.inv hI hid (known_cleanup hk' hclosed), fun hclean => ?_⟩
    have hlost : (c.withSocket isOpen missed).hasLostClient = c.hasLostClient := rfl
    rw [ht.clean_iff hclean hid, released_cleanup_iff hk' hclosed, hlost]
    simp [hcleans, hends]
  | finish known hcleans hends hsetup =>
    have ht : Touches s id _ (finishSetup s id { c with subscriberClient := known }) :=
      touches_finishSetup
    refine ⟨ht.inv hI hid (known_finishSetup hk known), fun hclean => ?_⟩
    rw [ht.clean_iff hclean hid, released_finishSetup_iff]
    simp [hcleans, hends]
  | quiet c' hcleans hends hquiet =>
    have ht : Touches s id c' (s.put id c') := ⟨rfl, fun _ _ _ => Iff.rfl⟩
    refine ⟨ht.inv hI hid (hquiet.known hk), fun hclean => ?_⟩
    rw [ht.clean_iff hclean hid]
    refine iff_of_true (fun hover => hquiet.released hk hover (hclean id c h)) ?_
    simp [hcleans, hends]

theorem get_concat {l : List Connection} {j : ℕ} {d : Connection} (h : (l ++ [c])[j]? = some d) :
    l[j]? = some d ∨ (j = l.length ∧ d = c) := by
  rw [List.getElem?_append] at h
  split_ifs at h with hj
  · exact Or.inl h
  · rw [List.getElem?_singleton] at h
    split_ifs at h with hzero
    exact Or.inr ⟨by omega, by simpa using h.symm⟩

/-- A connection that comes holds nothing yet, and one too many changes only the count. -/
theorem connect_keeps (hI : Inv s) (limit : Option ℤ) (ip recipient : String) :
    Inv (onConnect limit s ip recipient) ∧
      (Clean s → Clean (onConnect limit s ip recipient)) := by
  unfold onConnect
  simp only
  split_ifs
  · refine ⟨⟨fun j c h => (hI.known j c h).congr fun _ hr => hr, hI.localBus⟩, fun hclean => ?_⟩
    exact fun j c h hover => (hclean j c h hover).congr fun _ hr => hr
  · refine ⟨⟨fun j c h => ?_, fun r j hj => ?_⟩, fun hclean j c h hover => ?_⟩
    · rcases get_concat h with hold | ⟨hnew, rfl⟩
      · exact (hI.known j c hold).congr fun _ hr => hr
      · refine ⟨fun r hr => ?_, fun h => (nomatch h), fun h => (nomatch h)⟩
        have hlt := hI.localBus r j hr
        omega
    · have hlt := hI.localBus r j hj
      simp only [List.length_append, List.length_singleton]
      omega
    · rcases get_concat h with hold | ⟨-, rfl⟩
      · exact (hclean j c hold hover).congr fun _ hr => hr
      · cases hover

theorem step_keeps (maxConnectionsPerIp : Option ℤ) (hI : Inv s) (a : Action) :
    Inv (step maxConnectionsPerIp s a) ∧
      (Clean s → (Clean (step maxConnectionsPerIp s a) ↔ InTime s a)) := by
  cases a with
  | connect ip recipient =>
    have h := connect_keeps hI maxConnectionsPerIp ip recipient
    exact ⟨h.1, fun hclean => iff_of_true (h.2 hclean) trivial⟩
  | event id e =>
    simp only [step, InTime]
    cases h : s.connections[id]? with
    | none => exact ⟨hI, fun hclean => iff_of_true hclean fun c hc => nomatch hc⟩
    | some c =>
      simp only [Option.mem_def, Option.some.injEq, forall_eq']
      exact event_keeps hI h e

/-- **Cleanup.** In every run the count of each address is the number of its accepted connections
that are not closed; and no connection that is closed, and whose setup has run to the end, leaves a
callback, a timer or a client behind, exactly if no setup ends after the connection was closed and
no connection is closed whose subscription failed. -/
theorem cleanup_complete {maxConnectionsPerIp : Option ℤ} {l : List Action} :
    AllStates (step maxConnectionsPerIp) Counted {} l ∧
    (AllStates (step maxConnectionsPerIp) Clean {} l ↔
      AllSteps (step maxConnectionsPerIp) InTime {} l) := by
  refine ⟨allStates_of_step (fun s a hc => counted_step _ hc a) fun _ => rfl, ?_⟩
  have hinv : ∀ s a, Inv s → True → Inv (step maxConnectionsPerIp s a) :=
    fun s a hI _ => (step_keeps _ hI a).1
  have hempty : Inv {} := ⟨fun id c h => (nomatch h), fun r id h => (nomatch h)⟩
  exact allStates_iff_allSteps hinv (fun s a hI _ => (step_keeps _ hI a).2) hempty
    (allSteps_of_forall fun _ _ => trivial) fun id c h => nomatch h

/-! ### A close during the setup -/

/-- A connection is closed while its snapshot is fetched, and its setup then goes on without
Redis. -/
def closedEarly : List Action :=
  [.connect "1.2.3.4" "G", .event 0 .close, .event 0 .snapshot, .event 0 (.pubClient false),
    .event 0 (.created false)]

/-- It leaves its callback and its timer behind. -/
theorem closed_early_leaks : ¬ AllStates (step (some 100)) Clean {} closedEarly := by
  intro h
  have hget : (run (step (some 100)) {} closedEarly).connections[0]?.map
      (fun c => (c.isOver, c.heartbeatTimer)) = some (true, true) := by decide +kernel
  obtain ⟨c, hc, hp⟩ := Option.map_eq_some_iff.mp hget
  rw [Prod.mk.injEq] at hp
  have htimer := (h.last 0 c hc hp.1).heartbeatTimer
  rw [hp.2] at htimer
  cases htimer

end VestingDripStream.Backend.WsCleanup
