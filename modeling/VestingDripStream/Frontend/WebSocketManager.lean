import VestingDripStream.Lib.Run

/-! # The live connection of a page

`WebSocketManager` opens a socket and, when it is closed, opens the next one after a delay that
grows. `StreamDashboardClient` and `useNotificationWebSocket` have a manager for the address they
show: an effect makes it, and its cleanup destroys it when the address changes or the page goes.
The sockets and the timers belong to the browser, which runs their handlers one at a time.

`one_connection`: a page never has more than one connection, counting a reconnection that is to
come, it is for the address shown, and what is heard is for the address shown at that moment.
`keeps_trying`: while an address is shown, there is a connection or one is to come, after the delay
for the number of failures, unless the last one was closed with the code 1000 or the attempts are
used up. -/

namespace VestingDripStream.Frontend.WebSocketManager

open VestingDripStream.Lib.Run

/-! ### The browser -/

/-- `WebSocket.readyState`. -/
inductive ReadyState
  | connecting
  | opened
  | closing
  | closed
  deriving DecidableEq, Repr

/-- A socket, the manager whose handlers it has, and whether `onclose` is still one of them. -/
structure Socket where
  manager : ℕ
  readyState : ReadyState
  onclose : Bool
  deriving DecidableEq, Repr

/-- A timeout of a manager that is to come. -/
structure Timer where
  manager : ℕ
  delay : ℕ
  deriving DecidableEq, Repr

/-- The callbacks of a manager. -/
inductive Callback
  | onOpen
  | onMessage
  | onClose (code : ℕ)
  | onError
  deriving DecidableEq, Repr

/-- A callback that was called: by which manager, for which address, and which was shown then. -/
structure Heard where
  manager : ℕ
  address : String
  shown : Option String
  callback : Callback
  deriving DecidableEq, Repr

/-! ### `WebSocketManager` -/

/-- The options that are numbers. -/
structure Options where
  initialDelay : ℕ
  maxDelay : ℕ
  backoffFactor : ℕ
  maxAttempts : ℕ
  deriving DecidableEq, Repr

/-- The defaults of the constructor. -/
def defaultOptions : Options where
  initialDelay := 1000
  maxDelay := 30000
  backoffFactor := 2
  maxAttempts := 0

/-- A manager; `address` is what its `url` is for. -/
structure Manager where
  address : String
  ws : Option ℕ
  reconnectAttempts : ℕ
  reconnectTimer : Option ℕ
  destroyed : Bool
  deriving DecidableEq, Repr

/-- A page: the address of the last effect, the manager in `wsRef`, and what there is in the
browser. New sockets, timers and managers get the number `fresh`. -/
structure Page where
  address : Option String
  wsRef : Option ℕ
  managers : ℕ → Option Manager
  sockets : ℕ → Option Socket
  timers : ℕ → Option Timer
  heard : List Heard
  fresh : ℕ

/-- The delay before the reconnection after `attempts` others. -/
def delay (o : Options) (attempts : ℕ) : ℕ :=
  min (o.initialDelay * o.backoffFactor ^ attempts) o.maxDelay

namespace Page

/-- The manager `m` changes its fields. -/
def setManager (p : Page) (m : ℕ) (M : Manager) : Page :=
  { p with managers := Function.update p.managers m (some M) }

/-- The socket `s` changes its state. -/
def setSocket (p : Page) (s : ℕ) (k : Socket) : Page :=
  { p with sockets := Function.update p.sockets s (some k) }

/-- The manager calls a callback of the page. -/
def hear (p : Page) (m : ℕ) (M : Manager) (callback : Callback) : Page :=
  { p with heard := ⟨m, M.address, p.address, callback⟩ :: p.heard }

/-- `connect`. -/
def connect (p : Page) (m : ℕ) (M : Manager) : Page :=
  if M.destroyed then p
  else
    { (p.setSocket p.fresh ⟨m, .connecting, true⟩).setManager m { M with ws := some p.fresh } with
      fresh := p.fresh + 1 }

/-- `scheduleReconnect`. -/
def scheduleReconnect (o : Options) (p : Page) (m : ℕ) (M : Manager) : Page :=
  if 0 < o.maxAttempts ∧ o.maxAttempts ≤ M.reconnectAttempts then p
  else
    { p.setManager m { M with
        reconnectAttempts := M.reconnectAttempts + 1
        reconnectTimer := some p.fresh } with
      timers := Function.update p.timers p.fresh (some ⟨m, delay o M.reconnectAttempts⟩)
      fresh := p.fresh + 1 }

/-- `clearTimeout`. -/
def clearTimeout (p : Page) (timer : Option ℕ) : Page :=
  match timer with
  | some t => { p with timers := Function.update p.timers t none }
  | none => p

/-- `onclose = null` and `close(1000)` of a socket. -/
def closeSocket (p : Page) (ws : Option ℕ) : Page :=
  match ws.bind fun s => (p.sockets s).map fun k => (s, k) with
  | some (s, k) => p.setSocket s
      { k with
        onclose := false
        readyState := if k.readyState = .closed then .closed else .closing }
  | none => p

/-- `destroy`. -/
def destroy (p : Page) (m : ℕ) (M : Manager) : Page :=
  ((p.clearTimeout M.reconnectTimer).closeSocket M.ws).setManager m
    { M with destroyed := true, reconnectTimer := none, ws := none }

/-! ### The effect -/

/-- The cleanup of the effect. -/
def cleanup (p : Page) : Page :=
  match p.wsRef.bind fun m => (p.managers m).map fun M => (m, M) with
  | some (m, M) => { p.destroy m M with wsRef := none }
  | none => { p with wsRef := none }

/-- The effect for an address. -/
def effect (p : Page) (address : Option String) : Page :=
  match address.filter fun a => a ≠ "" with
  | some a =>
    let M : Manager := ⟨a, none, 0, none, false⟩
    ({ p.setManager p.fresh M with
      address := address
      wsRef := some p.fresh
      fresh := p.fresh + 1 }).connect p.fresh M
  | none => { p with address := address }

end Page

/-! ### Steps -/

/-- The steps: another address is shown, or none; something happens to a socket; a timeout comes. -/
inductive Action
  | setAddress (address : Option String)
  | opened (s : ℕ)
  | message (s : ℕ)
  | errored (s : ℕ)
  | closed (s : ℕ) (code : ℕ)
  | timeout (t : ℕ)
  deriving DecidableEq, Repr

/-- A socket and its manager, if they are there. -/
def Page.onSocket (p : Page) (s : ℕ) (f : Socket → Manager → Page) : Page :=
  match p.sockets s with
  | some k =>
    match p.managers k.manager with
    | some M => f k M
    | none => p
  | none => p

/-- The handler `onclose`. -/
def onClose (o : Options) (p : Page) (k : Socket) (M : Manager) (code : ℕ) : Page :=
  if k.onclose then
    let p := p.hear k.manager M (.onClose code)
    if M.destroyed = false ∧ code ≠ 1000 then p.scheduleReconnect o k.manager M else p
  else p

/-- One step; what the browser does not do in a state, such as opening a closed socket, changes
nothing. -/
def step (o : Options) (p : Page) : Action → Page
  | .setAddress address => if address = p.address then p else p.cleanup.effect address
  | .opened s => p.onSocket s fun k M =>
    if k.readyState = .connecting then
      ((p.setSocket s { k with readyState := .opened }).setManager k.manager
        { M with reconnectAttempts := 0 }).hear k.manager M .onOpen
    else p
  | .message s => p.onSocket s fun k M =>
    if k.readyState = .opened then p.hear k.manager M .onMessage else p
  | .errored s => p.onSocket s fun k M =>
    if k.readyState ≠ .closed then p.hear k.manager M .onError else p
  | .closed s code => p.onSocket s fun k M =>
    if k.readyState ≠ .closed then
      onClose o (p.setSocket s { k with readyState := .closed }) k M code
    else p
  | .timeout t =>
    match p.timers t with
    | some timer =>
      let p := { p with timers := Function.update p.timers t none }
      match p.managers timer.manager with
      | some M => p.connect timer.manager M
      | none => p
    | none => p

/-- The page before its first effect. -/
def start : Page := ⟨none, none, fun _ => none, fun _ => none, fun _ => none, [], 0⟩

/-! ### What is asked of the page -/

/-- A socket that is open or about to be. -/
def Live (p : Page) (s m : ℕ) : Prop :=
  ∃ k, p.sockets s = some k ∧ k.manager = m ∧
    (k.readyState = .connecting ∨ k.readyState = .opened)

/-- A reconnection that is to come. -/
def Waiting (p : Page) (t m : ℕ) : Prop := ∃ timer, p.timers t = some timer ∧ timer.manager = m

/-- **At most one connection**, for the address that is shown. -/
structure OneConnection (p : Page) : Prop where
  socket_unique : ∀ s m s' m', Live p s m → Live p s' m' → s = s'
  timer_unique : ∀ t m t' m', Waiting p t m → Waiting p t' m' → t = t'
  apart : ∀ s m t m', Live p s m → ¬ Waiting p t m'
  current : ∀ i m, Live p i m ∨ Waiting p i m →
    ∃ M, p.managers m = some M ∧ M.destroyed = false ∧ p.address = some M.address
  heard : ∀ h ∈ p.heard, h.callback ≠ .onError → h.shown = some h.address

/-- What a manager has called, the last one first. -/
def callbacks (p : Page) (m : ℕ) : List Callback :=
  (p.heard.filter fun h => h.manager = m).map Heard.callback

/-- The number of closed sockets since one was open. -/
def failures : List Callback → ℕ
  | [] => 0
  | .onOpen :: _ => 0
  | .onClose _ :: l => failures l + 1
  | .onMessage :: l => failures l
  | .onError :: l => failures l

/-- The code of the last callback, errors apart, if it is `onClose`. -/
def lastClose : List Callback → Option ℕ
  | .onError :: l => lastClose l
  | .onClose code :: _ => some code
  | _ => none

/-- The last socket was closed for good, or the attempts are used up. -/
def GivenUp (o : Options) (l : List Callback) : Prop :=
  ∃ code, lastClose l = some code ∧
    (code = 1000 ∨ (0 < o.maxAttempts ∧ o.maxAttempts < failures l))

/-- **Trying again**: for an address that is shown, the manager that the page has now is not
destroyed, and it has a connection, or one is to come after the delay for the number of failures. -/
def KeepsTrying (o : Options) (p : Page) : Prop :=
  ∀ a, p.address = some a → a ≠ "" → ∃ m M, p.wsRef = some m ∧ p.managers m = some M ∧
    M.destroyed = false ∧ M.address = a ∧
    ((∃ s, Live p s m) ∨
      (∃ t, p.timers t = some ⟨m, delay o (failures (callbacks p m) - 1)⟩) ∨
      GivenUp o (callbacks p m))

/-! ### The invariant -/

/-- A socket whose handlers are never called again, `onerror` apart. -/
def Dead (k : Socket) : Prop :=
  k.readyState = .closed ∨ (k.readyState = .closing ∧ k.onclose = false)

/-- Every socket is dead, but for one. -/
def DeadBut (p : Page) (ws : Option ℕ) : Prop := ∀ s k, p.sockets s = some k → s ∉ ws → Dead k

/-- No timeout is to come, but for one. -/
def QuietBut (p : Page) (timer : Option ℕ) : Prop := ∀ t, t ∉ timer → p.timers t = none

/-- The manager `m` has the socket `s`, and nothing else is going on. -/
structure Connected (p : Page) (m : ℕ) (M : Manager) (s : ℕ) (k : Socket) : Prop where
  ws : M.ws = some s
  socket : p.sockets s = some k
  manager : k.manager = m
  onclose : k.onclose = true
  opened : k.readyState = .connecting ∨ k.readyState = .opened
  dead : DeadBut p (some s)
  quiet : QuietBut p none
  attempts : M.reconnectAttempts = failures (callbacks p m)

/-- The manager `m` reconnects when the timeout `t` comes, and nothing else is going on. -/
structure Delayed (o : Options) (p : Page) (m : ℕ) (M : Manager) (t : ℕ) : Prop where
  reconnectTimer : M.reconnectTimer = some t
  timer : p.timers t = some ⟨m, delay o (M.reconnectAttempts - 1)⟩
  dead : DeadBut p none
  quiet : QuietBut p (some t)
  attempts : M.reconnectAttempts = failures (callbacks p m)

/-- What the manager that is not destroyed is doing. -/
inductive Doing (o : Options) (p : Page) (m : ℕ) (M : Manager) : Prop
  | connected {s : ℕ} {k : Socket} (h : Connected p m M s k)
  | delayed {t : ℕ} (h : Delayed o p m M t)
  | stopped (given : GivenUp o (callbacks p m)) (dead : DeadBut p none) (quiet : QuietBut p none)

/-- The manager of the page. -/
structure Current (p : Page) (m : ℕ) (M : Manager) : Prop where
  ref : p.wsRef = some m
  manager : p.managers m = some M
  alive : M.destroyed = false
  address : p.address = some M.address

/-- Nothing is going on. -/
structure Idle (p : Page) : Prop where
  ref : p.wsRef = none
  dead : DeadBut p none
  quiet : QuietBut p none

/-- What was heard, and from whom. -/
structure Log (p : Page) : Prop where
  manager_lt : ∀ m M, p.managers m = some M → m < p.fresh
  heard_lt : ∀ h ∈ p.heard, h.manager < p.fresh
  shown : ∀ h ∈ p.heard, h.callback ≠ .onError → h.shown = some h.address

/-- The invariant of a page. -/
inductive Inv (o : Options) (p : Page) : Prop
  | idle (log : Log p) (h : Idle p) (address : ∀ a ∈ p.address, a = "")
  | current {m : ℕ} {M : Manager} (log : Log p) (h : Current p m M) (doing : Doing o p m M)

variable {o : Options} {p : Page} {m s t : ℕ} {M : Manager} {k k' : Socket}

theorem not_dead_of_open (h : k.readyState = .connecting ∨ k.readyState = .opened) : ¬ Dead k := by
  rintro (hclosed | ⟨hclosing, -⟩)
  · rcases h with h | h <;> rw [h] at hclosed <;> cases hclosed
  · rcases h with h | h <;> rw [h] at hclosing <;> cases hclosing

/-- A live socket is the one that is not dead. -/
theorem Live.mem (h : Live p s m) {ws : Option ℕ} (hdead : DeadBut p ws) : s ∈ ws := by
  obtain ⟨k, hk, -, hopen⟩ := h
  by_contra hs
  exact not_dead_of_open hopen (hdead s k hk hs)

theorem Waiting.mem (h : Waiting p t m) {timer : Option ℕ} (hquiet : QuietBut p timer) :
    t ∈ timer := by
  obtain ⟨tm, htm, -⟩ := h
  by_contra ht
  rw [hquiet t ht] at htm
  cases htm

theorem Inv.log (h : Inv o p) : Log p := by
  cases h with
  | idle log => exact log
  | current log => exact log

theorem mem_unique {ws : Option ℕ} {i j : ℕ} (hi : i ∈ ws) (hj : j ∈ ws) : i = j :=
  Option.some.inj ((Option.mem_def.mp hi).symm.trans (Option.mem_def.mp hj))

/-- One socket or one timeout apart from dead ones is one connection. -/
theorem Log.oneConnection (h : Log p) {ws timer : Option ℕ} (hdead : DeadBut p ws)
    (hquiet : QuietBut p timer) (hone : ws = none ∨ timer = none)
    (hcurrent : ∀ i m, Live p i m ∨ Waiting p i m →
      ∃ M, p.managers m = some M ∧ M.destroyed = false ∧ p.address = some M.address) :
    OneConnection p where
  socket_unique := fun _ _ _ _ hl hl' => mem_unique (hl.mem hdead) (hl'.mem hdead)
  timer_unique := fun _ _ _ _ hw hw' => mem_unique (hw.mem hquiet) (hw'.mem hquiet)
  apart := fun s m t m' hl hw => by
    have hs := hl.mem hdead
    have ht := hw.mem hquiet
    rcases hone with rfl | rfl
    · cases hs
    · cases ht
  current := hcurrent
  heard := h.shown

theorem Current.exists_manager (h : Current p m M) {n : ℕ} (hn : n = m) :
    ∃ M, p.managers n = some M ∧ M.destroyed = false ∧ p.address = some M.address := by
  subst hn
  exact ⟨M, h.manager, h.alive, h.address⟩

/-- The invariant leaves room for one connection. -/
theorem Inv.oneConnection (h : Inv o p) : OneConnection p := by
  have hnone : ∀ {i : ℕ}, i ∉ (none : Option ℕ) := fun hi => by cases hi
  cases h with
  | idle log h =>
    refine log.oneConnection h.dead h.quiet (Or.inl rfl) fun i m hor => ?_
    rcases hor with hl | hw
    · exact absurd (hl.mem h.dead) hnone
    · exact absurd (hw.mem h.quiet) hnone
  | current log h doing =>
    cases doing with
    | connected hc =>
      refine log.oneConnection hc.dead hc.quiet (Or.inr rfl) fun i m hor => ?_
      rcases hor with hl | hw
      · obtain rfl := Option.mem_some_iff.mp (hl.mem hc.dead)
        obtain ⟨k', hk', hm, -⟩ := hl
        obtain rfl := Option.some.inj (hc.socket.symm.trans hk')
        exact h.exists_manager (hm.symm.trans hc.manager)
      · exact absurd (hw.mem hc.quiet) hnone
    | delayed hd =>
      refine log.oneConnection hd.dead hd.quiet (Or.inl rfl) fun i m hor => ?_
      rcases hor with hl | hw
      · exact absurd (hl.mem hd.dead) hnone
      · obtain rfl := Option.mem_some_iff.mp (hw.mem hd.quiet)
        obtain ⟨timer, htimer, hm⟩ := hw
        obtain rfl := Option.some.inj (hd.timer.symm.trans htimer)
        exact h.exists_manager hm.symm
    | stopped given dead quiet =>
      refine log.oneConnection dead quiet (Or.inl rfl) fun i m hor => ?_
      rcases hor with hl | hw
      · exact absurd (hl.mem dead) hnone
      · exact absurd (hw.mem quiet) hnone

theorem Inv.keepsTrying (h : Inv o p) : KeepsTrying o p := by
  intro a ha hne
  cases h with
  | idle _ _ haddress => exact absurd (haddress a ha) hne
  | @current m M _ h doing =>
    have hM : M.address = a := Option.some.inj (h.address.symm.trans ha)
    refine ⟨m, M, h.ref, h.manager, h.alive, hM, ?_⟩
    cases doing with
    | @connected s k hc => exact Or.inl ⟨s, k, hc.socket, hc.manager, hc.opened⟩
    | @delayed t hd =>
      have ht := hd.timer
      rw [hd.attempts] at ht
      exact Or.inr (Or.inl ⟨t, ht⟩)
    | stopped given => exact Or.inr (Or.inr given)

/-! ### Sockets -/

theorem callbacks_hear {n : ℕ} {callback : Callback} : callbacks (p.hear m M callback) n =
    if m = n then callback :: callbacks p n else callbacks p n := by
  unfold callbacks Page.hear
  by_cases h : m = n
  · rw [if_pos h, List.filter_cons_of_pos (by simpa using h), List.map_cons]
  · rw [if_neg h, List.filter_cons_of_neg (by simpa using h)]

/-- Callbacks of the manager of the page are for the address that is shown. -/
theorem Log.hear (h : Log p) (hM : p.managers m = some M) {callback : Callback}
    (hshown : callback ≠ .onError → p.address = some M.address) : Log (p.hear m M callback) where
  manager_lt := h.manager_lt
  heard_lt := fun e he => by
    rcases List.mem_cons.mp he with rfl | hold
    · exact h.manager_lt m M hM
    · exact h.heard_lt e hold
  shown := fun e he hne => by
    rcases List.mem_cons.mp he with rfl | hold
    · exact hshown hne
    · exact h.shown e hold hne

theorem DeadBut.setSocket {ws : Option ℕ} (h : DeadBut p ws) (hk : s ∉ ws → Dead k) :
    DeadBut (p.setSocket s k) ws := by
  intro s' k' hk' hs'
  rcases of_update_eq_some hk' with ⟨rfl, rfl⟩ | hold
  · exact hk hs'
  · exact h s' k' hold hs'

/-- A socket is dead, or it is that of the manager of the page. -/
theorem Inv.dead_or_connected (h : Inv o p) (hk : p.sockets s = some k) :
    Dead k ∨ ∃ m M, Current p m M ∧ Connected p m M s k := by
  have hnone : s ∉ (none : Option ℕ) := fun hs => by cases hs
  cases h with
  | idle _ h => exact Or.inl (h.dead s k hk hnone)
  | @current m M _ h doing =>
    cases doing with
    | @connected s' k' hc =>
      by_cases hs : s = s'
      · subst hs
        obtain rfl := Option.some.inj (hc.socket.symm.trans hk)
        exact Or.inr ⟨m, M, h, hc⟩
      · exact Or.inl (hc.dead s k hk fun hmem => hs (Option.mem_some_iff.mp hmem).symm)
    | delayed hd => exact Or.inl (hd.dead s k hk hnone)
    | stopped _ dead => exact Or.inl (dead s k hk hnone)

/-- A dead socket that changes into a dead one. -/
theorem Inv.setSocket_dead (h : Inv o p) (hk : p.sockets s = some k) (hd : Dead k)
    (hd' : Dead k') : Inv o (p.setSocket s k') := by
  cases h with
  | idle log h address =>
    exact .idle ⟨log.manager_lt, log.heard_lt, log.shown⟩
      ⟨h.ref, h.dead.setSocket fun _ => hd', h.quiet⟩ address
  | current log h doing =>
    refine .current ⟨log.manager_lt, log.heard_lt, log.shown⟩
      ⟨h.ref, h.manager, h.alive, h.address⟩ ?_
    cases doing with
    | @connected s' k'' hc =>
      have hs : s' ≠ s := by
        rintro rfl
        obtain rfl := Option.some.inj (hc.socket.symm.trans hk)
        exact not_dead_of_open hc.opened hd
      refine .connected ⟨hc.ws, ?_, hc.manager, hc.onclose, hc.opened,
        hc.dead.setSocket fun _ => hd', hc.quiet, hc.attempts⟩
      show Function.update p.sockets s (some k') s' = some k''
      rw [Function.update_of_ne hs]
      exact hc.socket
    | delayed hw =>
      exact .delayed ⟨hw.reconnectTimer, hw.timer, hw.dead.setSocket fun _ => hd', hw.quiet,
        hw.attempts⟩
    | stopped given dead quiet => exact .stopped given (dead.setSocket fun _ => hd') quiet

theorem Current.hear (h : Current p m M) {n : ℕ} {M' : Manager} {callback : Callback} :
    Current (p.hear n M' callback) m M :=
  ⟨h.ref, h.manager, h.alive, h.address⟩

/-- `onError` is no failure. -/
theorem Inv.hear_error (h : Inv o p) (hM : p.managers m = some M) :
    Inv o (p.hear m M .onError) := by
  have hlog := h.log.hear hM fun hne => absurd rfl hne
  have hfailures : ∀ n,
      failures (callbacks (p.hear m M .onError) n) = failures (callbacks p n) := by
    intro n
    rw [callbacks_hear]
    split_ifs <;> rfl
  have hclose : ∀ n,
      lastClose (callbacks (p.hear m M .onError) n) = lastClose (callbacks p n) := by
    intro n
    rw [callbacks_hear]
    split_ifs <;> rfl
  cases h with
  | idle _ h address => exact .idle hlog ⟨h.ref, h.dead, h.quiet⟩ address
  | @current n M' _ h doing =>
    refine .current hlog h.hear ?_
    cases doing with
    | connected hc =>
      exact .connected ⟨hc.ws, hc.socket, hc.manager, hc.onclose, hc.opened, hc.dead, hc.quiet,
        hc.attempts.trans (hfailures n).symm⟩
    | delayed hd =>
      exact .delayed ⟨hd.reconnectTimer, hd.timer, hd.dead, hd.quiet,
        hd.attempts.trans (hfailures n).symm⟩
    | stopped given dead quiet =>
      obtain ⟨code, hcode, hwhy⟩ := given
      refine .stopped ⟨code, (hclose n).trans hcode, ?_⟩ dead quiet
      rw [hfailures n]
      exact hwhy

/-- The socket of the manager and the manager itself are what an event of the socket finds. -/
theorem Connected.manager_eq (hc : Connected p m M s k) (h : Current p m M) {M' : Manager}
    (hM' : p.managers k.manager = some M') : M' = M := by
  rw [hc.manager, h.manager] at hM'
  exact (Option.some.inj hM').symm

theorem Inv.message (h : Inv o p) (hk : p.sockets s = some k) (hM : p.managers k.manager = some M)
    (hopen : k.readyState = .opened) : Inv o (p.hear k.manager M .onMessage) := by
  rcases h.dead_or_connected hk with hdead | ⟨m, M', hcur, hc⟩
  · exact absurd hdead (not_dead_of_open (Or.inr hopen))
  · obtain rfl := hc.manager_eq hcur hM
    refine .current (h.log.hear hM fun _ => hcur.address) hcur.hear
      (.connected ⟨hc.ws, hc.socket, hc.manager, hc.onclose, hc.opened, hc.dead, hc.quiet, ?_⟩)
    rw [callbacks_hear, if_pos hc.manager]
    exact hc.attempts

theorem Inv.opened (h : Inv o p) (hk : p.sockets s = some k) (hM : p.managers k.manager = some M)
    (hopen : k.readyState = .connecting) :
    Inv o (((p.setSocket s { k with readyState := .opened }).setManager k.manager
      { M with reconnectAttempts := 0 }).hear k.manager M .onOpen) := by
  rcases h.dead_or_connected hk with hdead | ⟨m, M', hcur, hc⟩
  · exact absurd hdead (not_dead_of_open (Or.inl hopen))
  · obtain rfl := hc.manager_eq hcur hM
    obtain rfl := hc.manager
    have hlog : Log (p.hear k.manager M .onOpen) := h.log.hear hM fun _ => hcur.address
    refine .current (m := k.manager) (M := { M with reconnectAttempts := 0 })
      ⟨fun n N hN => ?_, hlog.heard_lt, hlog.shown⟩
      ⟨hcur.ref, Function.update_self .., hcur.alive, hcur.address⟩
      (.connected (s := s) (k := { k with readyState := .opened })
        ⟨hc.ws, Function.update_self .., rfl, hc.onclose, Or.inr rfl, ?_, hc.quiet, ?_⟩)
    · rcases of_update_eq_some hN with ⟨rfl, -⟩ | hold
      · exact h.log.manager_lt _ _ hM
      · exact h.log.manager_lt n N hold
    · exact hc.dead.setSocket fun hs => absurd rfl hs
    · rw [callbacks_hear, if_pos rfl]
      rfl

/-- **A socket is closed**: the manager tries again, or it has given up. -/
theorem Inv.closed (h : Inv o p) (hk : p.sockets s = some k) (hM : p.managers k.manager = some M)
    (hopen : k.readyState ≠ .closed) (code : ℕ) :
    Inv o (onClose o (p.setSocket s { k with readyState := .closed }) k M code) := by
  unfold onClose
  rcases h.dead_or_connected hk with hdead | ⟨m, M', hcur, hc⟩
  · have honclose := (hdead.resolve_left hopen).2
    rw [if_neg (by rw [honclose]; decide)]
    exact h.setSocket_dead hk hdead (Or.inl rfl)
  · obtain rfl := hc.manager_eq hcur hM
    obtain rfl := hc.manager
    rw [if_pos hc.onclose]
    -- the page without a connection
    have hsocket : Log (p.setSocket s { k with readyState := .closed }) :=
      ⟨h.log.manager_lt, h.log.heard_lt, h.log.shown⟩
    have hlog : Log ((p.setSocket s { k with readyState := .closed }).hear k.manager M
        (.onClose code)) := hsocket.hear hM fun _ => hcur.address
    have hcallbacks : callbacks ((p.setSocket s { k with readyState := .closed }).hear k.manager M
        (.onClose code)) k.manager = .onClose code :: callbacks p k.manager := by
      rw [callbacks_hear, if_pos rfl]
      rfl
    have hdead : DeadBut (p.setSocket s { k with readyState := .closed }) none := by
      intro s' k' hk' _
      rcases of_update_eq_some hk' with ⟨-, rfl⟩ | hold
      · exact Or.inl rfl
      · by_cases hs : s' = s
        · subst hs
          rw [show (p.setSocket s' _).sockets s' = some { k with readyState := .closed } from
            Function.update_self ..] at hk'
          obtain rfl := Option.some.inj hk'
          exact Or.inl rfl
        · exact hc.dead s' k' hold fun hmem => hs (Option.mem_some_iff.mp hmem).symm
    simp only
    by_cases hagain : M.destroyed = false ∧ code ≠ 1000
    · rw [if_pos hagain]
      unfold Page.scheduleReconnect
      split_ifs with hmax
      · refine .current hlog ⟨hcur.ref, hcur.manager, hcur.alive, hcur.address⟩
          (.stopped ⟨code, ?_, Or.inr ⟨hmax.1, ?_⟩⟩ hdead hc.quiet)
        · rw [hcallbacks]
          rfl
        · rw [hcallbacks]
          show o.maxAttempts < failures (callbacks p k.manager) + 1
          have hattempts := hc.attempts
          omega
      · refine .current (m := k.manager) (M := { M with
            reconnectAttempts := M.reconnectAttempts + 1, reconnectTimer := some p.fresh })
          ⟨fun n N hN => ?_, fun e he => (hlog.heard_lt e he).trans (Nat.lt_succ_self _),
            hlog.shown⟩
          ⟨hcur.ref, Function.update_self .., hcur.alive, hcur.address⟩
          (.delayed (t := p.fresh) ⟨rfl, Function.update_self .., hdead, ?_, ?_⟩)
        · rcases of_update_eq_some hN with ⟨rfl, -⟩ | hold
          · exact (h.log.manager_lt _ _ hM).trans (Nat.lt_succ_self _)
          · exact (h.log.manager_lt n N hold).trans (Nat.lt_succ_self _)
        · intro t ht
          have hne : t ≠ p.fresh := fun heq => ht (Option.mem_some_iff.mpr heq.symm)
          show Function.update p.timers p.fresh _ t = none
          rw [Function.update_of_ne hne]
          exact hc.quiet t fun hmem => by cases hmem
        · show M.reconnectAttempts + 1 = failures (callbacks (Page.hear _ _ _ _) k.manager)
          rw [hcallbacks, hc.attempts]
          rfl
    · rw [if_neg hagain]
      have hcode : code = 1000 := by
        by_contra hne
        exact hagain ⟨hcur.alive, hne⟩
      refine .current hlog ⟨hcur.ref, hcur.manager, hcur.alive, hcur.address⟩
        (.stopped ⟨code, ?_, Or.inl hcode⟩ hdead hc.quiet)
      rw [hcallbacks]
      rfl

/-! ### Timeouts -/

theorem Inv.timeout (h : Inv o p) {timer : Timer} (ht : p.timers t = some timer) :
    Inv o (step o p (.timeout t)) := by
  have hnone : t ∉ (none : Option ℕ) := fun hmem => by cases hmem
  have hsilent : ∀ {l : Option ℕ}, QuietBut p l → t ∈ l := fun hquiet =>
    Waiting.mem ⟨timer, ht, rfl⟩ hquiet
  cases h with
  | idle _ h => exact absurd (hsilent h.quiet) hnone
  | @current m M log h doing =>
    cases doing with
    | connected hc => exact absurd (hsilent hc.quiet) hnone
    | stopped _ _ quiet => exact absurd (hsilent quiet) hnone
    | @delayed t' hd =>
      obtain rfl := Option.mem_some_iff.mp (hsilent hd.quiet)
      obtain rfl := Option.some.inj (hd.timer.symm.trans ht)
      simp only [step, hd.timer, h.manager]
      unfold Page.connect
      rw [if_neg (by rw [h.alive]; decide)]
      refine .current (m := m) (M := { M with ws := some p.fresh })
        ⟨fun n N hN => ?_, fun e he => (log.heard_lt e he).trans (Nat.lt_succ_self _), log.shown⟩
        ⟨h.ref, Function.update_self .., h.alive, h.address⟩
        (.connected (s := p.fresh) (k := ⟨m, .connecting, true⟩)
          ⟨rfl, Function.update_self .., rfl, rfl, Or.inl rfl, fun s k hk hs => ?_, fun t _ => ?_,
            hd.attempts⟩)
      · rcases of_update_eq_some hN with ⟨rfl, -⟩ | hold
        · exact (log.manager_lt _ _ h.manager).trans (Nat.lt_succ_self _)
        · exact (log.manager_lt n N hold).trans (Nat.lt_succ_self _)
      · rcases of_update_eq_some hk with ⟨rfl, -⟩ | hold
        · exact absurd rfl hs
        · exact hd.dead s k hold fun hmem => by cases hmem
      · show Function.update p.timers t' none t = none
        by_cases htt : t = t'
        · subst htt
          exact Function.update_self ..
        · rw [Function.update_of_ne htt]
          exact hd.quiet t fun hmem => htt (Option.mem_some_iff.mp hmem).symm

/-! ### Another address -/

theorem DeadBut.mono {ws : Option ℕ} (h : DeadBut p none) : DeadBut p ws :=
  fun s k hk _ => h s k hk fun hmem => by cases hmem

theorem QuietBut.mono {timer : Option ℕ} (h : QuietBut p none) : QuietBut p timer :=
  fun t _ => h t fun hmem => by cases hmem

/-- What `destroy` has to stop. -/
theorem Doing.rest (h : Doing o p m M) : DeadBut p M.ws ∧ QuietBut p M.reconnectTimer := by
  cases h with
  | connected hc =>
    rw [hc.ws]
    exact ⟨hc.dead, hc.quiet.mono⟩
  | delayed hd =>
    rw [hd.reconnectTimer]
    exact ⟨hd.dead.mono, hd.quiet⟩
  | stopped _ dead quiet => exact ⟨dead.mono, quiet.mono⟩

theorem QuietBut.clearTimeout {timer : Option ℕ} (h : QuietBut p timer) :
    QuietBut (p.clearTimeout timer) none := by
  intro t _
  unfold Page.clearTimeout
  cases timer with
  | none => exact h t fun hmem => by cases hmem
  | some t' =>
    show Function.update p.timers t' none t = none
    by_cases ht : t = t'
    · subst ht
      exact Function.update_self ..
    · rw [Function.update_of_ne ht]
      exact h t fun hmem => ht (Option.mem_some_iff.mp hmem).symm

theorem DeadBut.closeSocket {ws : Option ℕ} (h : DeadBut p ws) :
    DeadBut (p.closeSocket ws) none := by
  intro s k hk _
  cases ws with
  | none => exact h s k hk fun hmem => by cases hmem
  | some s' =>
    have hold : s ≠ s' → p.sockets s = some k → Dead k := fun hne hk =>
      h s k hk fun hmem => hne (Option.mem_some_iff.mp hmem).symm
    cases hk' : p.sockets s' with
    | none =>
      simp only [Page.closeSocket, Option.bind_some, hk', Option.map_none] at hk
      refine hold (fun heq => ?_) hk
      rw [heq, hk'] at hk
      cases hk
    | some k' =>
      simp only [Page.closeSocket, Option.bind_some, hk', Option.map_some] at hk
      by_cases hs : s = s'
      · subst hs
        rw [show (p.setSocket s _).sockets s = some _ from Function.update_self ..] at hk
        obtain rfl := Option.some.inj hk
        unfold Dead
        split_ifs
        · exact Or.inl rfl
        · exact Or.inr ⟨rfl, rfl⟩
      · refine hold hs ?_
        rwa [show (p.setSocket s' _).sockets s = p.sockets s from Function.update_of_ne hs ..] at hk

/-- `closeSocket` changes sockets only. -/
theorem closeSocket_eq (p : Page) (ws : Option ℕ) :
    ∃ sockets, p.closeSocket ws = { p with sockets := sockets } := by
  unfold Page.closeSocket
  split
  · exact ⟨_, rfl⟩
  · exact ⟨p.sockets, rfl⟩

theorem clearTimeout_eq (p : Page) (timer : Option ℕ) :
    ∃ timers, p.clearTimeout timer = { p with timers := timers } := by
  unfold Page.clearTimeout
  split
  · exact ⟨_, rfl⟩
  · exact ⟨p.timers, rfl⟩

/-- **The cleanup** leaves nothing going on. -/
theorem Inv.cleanup (h : Inv o p) : Idle p.cleanup ∧ Log p.cleanup := by
  cases h with
  | idle log h =>
    have heq : p.cleanup = { p with wsRef := none } := by
      unfold Page.cleanup
      rw [h.ref]
      rfl
    rw [heq]
    exact ⟨⟨rfl, h.dead, h.quiet⟩, log.manager_lt, log.heard_lt, log.shown⟩
  | @current m M log h doing =>
    have heq : p.cleanup = { p.destroy m M with wsRef := none } := by
      unfold Page.cleanup
      rw [h.ref, Option.bind_some, h.manager]
      rfl
    obtain ⟨hdead, hquiet⟩ := doing.rest
    obtain ⟨timers, htimers⟩ := clearTimeout_eq p M.reconnectTimer
    obtain ⟨sockets, hsockets⟩ := closeSocket_eq (p.clearTimeout M.reconnectTimer) M.ws
    have hquiet' : QuietBut (p.clearTimeout M.reconnectTimer) none := hquiet.clearTimeout
    have hdead' : DeadBut ((p.clearTimeout M.reconnectTimer).closeSocket M.ws) none := by
      refine DeadBut.closeSocket ?_
      rw [htimers]
      exact hdead
    rw [heq]
    unfold Page.destroy
    rw [hsockets] at hdead' ⊢
    rw [htimers] at hdead' hquiet' ⊢
    refine ⟨⟨rfl, hdead', hquiet'⟩, fun n N hN => ?_, log.heard_lt, log.shown⟩
    rcases of_update_eq_some hN with ⟨rfl, -⟩ | hold
    · exact log.manager_lt _ _ h.manager
    · exact log.manager_lt n N hold

/-- **The effect** connects for the address. -/
theorem Idle.effect (h : Idle p) (log : Log p) (address : Option String) :
    Inv o (p.effect address) := by
  unfold Page.effect
  split
  case h_2 hnone =>
    refine .idle ⟨log.manager_lt, log.heard_lt, log.shown⟩ ⟨h.ref, h.dead, h.quiet⟩ ?_
    intro a ha
    simpa using Option.filter_eq_none_iff.mp hnone a ha
  case h_1 a hsome =>
    obtain ⟨haddress, -⟩ := Option.filter_eq_some_iff.mp hsome
    have hcallbacks : callbacks p p.fresh = [] := by
      unfold callbacks
      rw [List.filter_eq_nil_iff.mpr, List.map_nil]
      intro e he
      have hlt := log.heard_lt e he
      simp only [decide_eq_true_eq]
      omega
    refine .current (m := p.fresh) (M := ⟨a, some (p.fresh + 1), 0, none, false⟩)
      ⟨fun n N hN => ?_, fun e he => (log.heard_lt e he).trans (Nat.lt_add_of_pos_right two_pos),
        log.shown⟩
      ⟨rfl, Function.update_self .., rfl, haddress⟩
      (.connected (s := p.fresh + 1) (k := ⟨p.fresh, .connecting, true⟩)
        ⟨rfl, Function.update_self .., rfl, rfl, Or.inl rfl, fun s k hk hs => ?_, h.quiet, ?_⟩)
    · show n < p.fresh + 2
      rcases of_update_eq_some hN with ⟨rfl, -⟩ | hold
      · omega
      · rcases of_update_eq_some hold with ⟨rfl, -⟩ | hold
        · omega
        · exact (log.manager_lt n N hold).trans (Nat.lt_add_of_pos_right two_pos)
    · rcases of_update_eq_some hk with ⟨rfl, -⟩ | hold
      · exact absurd rfl hs
      · exact h.dead s k hold fun hmem => by cases hmem
    · show 0 = failures (callbacks p p.fresh)
      rw [hcallbacks]
      rfl

/-! ### Runs -/

theorem onSocket_induct {P : Page → Prop} {f : Socket → Manager → Page} (h : P p)
    (hf : ∀ k M, p.sockets s = some k → p.managers k.manager = some M → P (f k M)) :
    P (p.onSocket s f) := by
  unfold Page.onSocket
  cases hk : p.sockets s with
  | none => exact h
  | some k =>
    simp only
    cases hM : p.managers k.manager with
    | none => exact h
    | some M => exact hf k M hk hM

/-- **The invariant** is kept. -/
theorem Inv.step (h : Inv o p) (a : Action) : Inv o (step o p a) := by
  cases a with
  | setAddress address =>
    show Inv o (if address = p.address then p else p.cleanup.effect address)
    split_ifs
    · exact h
    · obtain ⟨hidle, hlog⟩ := h.cleanup
      exact hidle.effect hlog address
  | opened s =>
    refine onSocket_induct h fun k M hk hM => ?_
    split_ifs with hopen
    · exact h.opened hk hM hopen
    · exact h
  | message s =>
    refine onSocket_induct h fun k M hk hM => ?_
    split_ifs with hopen
    · exact h.message hk hM hopen
    · exact h
  | errored s =>
    refine onSocket_induct h fun k M hk hM => ?_
    split_ifs
    · exact h.hear_error hM
    · exact h
  | closed s code =>
    refine onSocket_induct h fun k M hk hM => ?_
    split_ifs with hopen
    · exact h.closed hk hM hopen code
    · exact h
  | timeout t =>
    cases ht : p.timers t with
    | none =>
      simp only [WebSocketManager.step, ht]
      exact h
    | some timer => exact h.timeout ht

theorem inv_start : Inv o start :=
  .idle ⟨fun _ _ h => (by cases h), fun _ h => (by cases h), fun _ h => (by cases h)⟩
    ⟨rfl, fun _ _ h => (by cases h), fun _ _ => rfl⟩ fun _ h => by cases h

theorem inv_run (o : Options) (l : List Action) :
    AllStates (WebSocketManager.step o) (Inv o) start l :=
  allStates_of_step (fun _ a h => h.step a) inv_start

/-- **One connection.** Whatever addresses are shown and whatever the browser does, in every state
of a page there is at most one socket that is open or opening, or one reconnection that is to come,
and not both; it is for the address that is shown, and `onOpen`, `onMessage` and `onClose` are
called for the address that is shown at that moment only. -/
theorem one_connection (o : Options) (l : List Action) :
    AllStates (WebSocketManager.step o) OneConnection start l :=
  (inv_run o l).imp fun _ h => h.oneConnection

/-- **Reconnecting.** In every state in which an address is shown there is a connection for it, or
one is to come after the delay `min (initialDelay * backoffFactor ^ n) maxDelay`, where `n + 1`
sockets have been closed since one was open, unless the last one was closed with the code 1000 or
more than `maxAttempts` (if this is not 0) were closed. -/
theorem keeps_trying (o : Options) (l : List Action) :
    AllStates (WebSocketManager.step o) (KeepsTrying o) start l :=
  (inv_run o l).imp fun _ h => h.keepsTrying

/-- The second reconnection in a row comes after two seconds, and the first again after one. -/
example : (run (WebSocketManager.step defaultOptions) start
      [.setAddress (some "G1"), .closed 1 1006, .timeout 2, .closed 3 1006]).timers 4 =
        some ⟨0, 2000⟩ ∧
    (run (WebSocketManager.step defaultOptions) start
      [.setAddress (some "G1"), .closed 1 1006, .timeout 2, .opened 3, .closed 3 1006]).timers 4 =
        some ⟨0, 1000⟩ :=
  ⟨rfl, rfl⟩

end VestingDripStream.Frontend.WebSocketManager
