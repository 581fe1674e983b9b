import VestingDripStream.Lib.CheckThenAct

/-! # The idempotency middleware

Requests pass through `idempotencyMiddleware` on their way to a handler. A step of the system is one
of the asynchronous steps of one request: the lookup in the cache, the answer of the handler, and,
if the cache is in Redis, the store that is started with the answer and not waited for.

What the handler of a request would answer is fixed from outside for every request. An entry of the
cache carries the request that stored it, which no step looks at. -/

namespace VestingDripStream.Backend.Idempotency

open VestingDripStream.Lib.Run VestingDripStream.Lib.CheckThenAct

/-- A header as the HTTP server hands it over. -/
inductive HeaderValue
  | text (s : String)
  | list (l : List String)
  deriving DecidableEq, Repr

/-- What the middleware reads of a request, and its path. -/
structure Request where
  method : String
  path : String
  idempotencyKey : Option HeaderValue
  ip : Option String
  remoteAddress : Option String
  deriving DecidableEq, Repr

/-- `getCallerIp`. -/
def getCallerIp (req : Request) : String :=
  match req.ip, req.remoteAddress with
  | some ip, _ => ip
  | none, some address => address
  | none, none => "unknown"

/-- `buildCacheKey`; the parts are joined by colons, which may occur in them. -/
def buildCacheKey (idempotencyKey callerIp : String) : String :=
  "idempotency:" ++ idempotencyKey ++ ":" ++ callerIp

/-- The key under which the request is deduplicated; without one it goes straight to its handler. -/
def cacheKeyOf (req : Request) : Option String :=
  if req.method ≠ "POST" ∧ req.method ≠ "DELETE" then none
  else
    match req.idempotencyKey with
    | some (.text key) => if key = "" then none else some (buildCacheKey key (getCallerIp req))
    | some (.list _) => none
    | none => none

/-- Where the responses are kept: in Redis, or in the memory of the process. -/
inductive Path
  | redis
  | memory
  deriving DecidableEq, Repr

variable (ι β : Type)

/-- What the handler of a request answers. `json` says that it does so through `res.json`, the
method that the middleware replaces. -/
structure Outcome where
  status : ℕ
  body : β
  json : Bool
  deriving DecidableEq, Repr

/-- A response in the cache, and the request that stored it. -/
structure CachedResponse where
  status : ℕ
  body : β
  origin : ι
  deriving DecidableEq, Repr

/-- How far a request is. -/
inductive Phase
  | waiting
  /-- The handler runs; `res.json` is intercepted or not. -/
  | handling (intercepted : Bool)
  /-- The handler has answered and the store is under way. -/
  | storing
  /-- The handler has answered and its response is in the cache, -/
  | stored
  /-- or will never be. -/
  | unstored
  /-- The request was answered from the cache. -/
  | replayed (cached : CachedResponse ι β)
  deriving DecidableEq, Repr

/-- The cache, and how far each request is. -/
structure World where
  cache : String → Option (CachedResponse ι β)
  phase : ι → Phase ι β

/-- What happens next to a request or to an entry of the cache. -/
inductive Action
  | lookup (i : ι)
  /-- Redis fails during the lookup. -/
  | lookupFails (i : ι)
  | complete (i : ι)
  | store (i : ι)
  | storeFails (i : ι)
  /-- The life of an entry is over. -/
  | expire (key : String)
  deriving DecidableEq, Repr

/-- An answer to a request. `replayOf` is the request that stored the response, if it is a
replay. -/
structure Answer where
  status : ℕ
  body : β
  replayOf : Option ι
  deriving DecidableEq, Repr

variable {ι β}

/-- What `i` was answered, if it was. -/
def World.answer (w : World ι β) (outcome : ι → Outcome β) (i : ι) : Option (Answer ι β) :=
  match w.phase i with
  | .waiting | .handling _ => none
  | .storing | .stored | .unstored => some ⟨(outcome i).status, (outcome i).body, none⟩
  | .replayed cached => some ⟨cached.status, cached.body, some cached.origin⟩

variable [DecidableEq ι]

/-- The request `i` goes on to the phase `p`. -/
def World.setPhase (w : World ι β) (i : ι) (p : Phase ι β) : World ι β :=
  { w with phase := Function.update w.phase i p }

/-- The response of `i` is written to the cache. -/
def World.setCache (w : World ι β) (key : String) (i : ι) (o : Outcome β) : World ι β :=
  { w with cache := Function.update w.cache key (some ⟨o.status, o.body, i⟩) }

variable (path : Path) (request : ι → Request) (outcome : ι → Outcome β)

/-- The store of `i` succeeds. -/
def store (w : World ι β) (i : ι) : World ι β :=
  match cacheKeyOf (request i) with
  | some key => (w.setCache key i (outcome i)).setPhase i .stored
  | none => w.setPhase i .stored

/-- One step: an error of Redis lets the request through to its handler. -/
def step (w : World ι β) : Action ι → World ι β
  | .lookup i =>
    match cacheKeyOf (request i) with
    | none => w.setPhase i (.handling false)
    | some key =>
      match w.cache key with
      | some cached => w.setPhase i (.replayed cached)
      | none => w.setPhase i (.handling true)
  | .lookupFails i => w.setPhase i (.handling false)
  | .complete i =>
    match w.phase i with
    | .handling true =>
      if (outcome i).json = true ∧ (outcome i).status < 500 then
        match path with
        | .redis => w.setPhase i .storing
        | .memory => store request outcome w i
      else w.setPhase i .unstored
    | _ => w.setPhase i .unstored
  | .store i => store request outcome w i
  | .storeFails i => w.setPhase i .unstored
  | .expire key => { w with cache := Function.update w.cache key none }

/-- Every request takes its steps in order, and only Redis fails. -/
def Legal (w : World ι β) : Action ι → Prop
  | .lookup i => w.phase i = .waiting
  | .lookupFails i => path = .redis ∧ cacheKeyOf (request i) ≠ none ∧ w.phase i = .waiting
  | .complete i => w.phase i = .handling true ∨ w.phase i = .handling false
  | .store i => w.phase i = .storing
  | .storeFails i => w.phase i = .storing
  | .expire _ => True

instance [DecidableEq β] (w : World ι β) : (a : Action ι) → Decidable (Legal path request w a)
  | .lookup i => inferInstanceAs (Decidable (w.phase i = .waiting))
  | .lookupFails i => inferInstanceAs (Decidable (path = .redis ∧ cacheKeyOf (request i) ≠ none ∧
      w.phase i = .waiting))
  | .complete i =>
    inferInstanceAs (Decidable (w.phase i = .handling true ∨ w.phase i = .handling false))
  | .store i | .storeFails i => inferInstanceAs (Decidable (w.phase i = .storing))
  | .expire _ => inferInstanceAs (Decidable True)

/-- No request has arrived. -/
def World.init : World ι β where
  cache := fun _ => none
  phase := fun _ => .waiting

/-! ### What the cache holds -/

/-- `i` has stored its response under `key`. -/
structure HasStored (w : World ι β) (key : String) (i : ι) : Prop where
  keyed : cacheKeyOf (request i) = some key
  succeeded : (outcome i).status < 500
  stored : w.phase i = .stored

/-- What is known of a request from its phase. -/
def PhaseSound (w : World ι β) (i : ι) : Phase ι β → Prop
  | .waiting | .handling false | .unstored => True
  | .handling true => cacheKeyOf (request i) ≠ none
  | .storing | .stored => cacheKeyOf (request i) ≠ none ∧ (outcome i).status < 500
  | .replayed cached => ∃ key, cacheKeyOf (request i) = some key ∧
    HasStored request outcome w key cached.origin ∧ cached.status = (outcome cached.origin).status ∧
      cached.body = (outcome cached.origin).body

/-- The entries of the cache and the replays are responses of requests that stored them. -/
structure Sound (w : World ι β) : Prop where
  cached : ∀ key c, w.cache key = some c → HasStored request outcome w key c.origin ∧
    c.status = (outcome c.origin).status ∧ c.body = (outcome c.origin).body
  phase : ∀ i, PhaseSound request outcome w i (w.phase i)

variable {path request outcome} {w w' : World ι β}

omit [DecidableEq ι] in
theorem sound_init : Sound request outcome (World.init : World ι β) where
  cached := fun _ _ h => nomatch h
  phase := fun _ => trivial

omit [DecidableEq ι] in
theorem HasStored.mono {key : String} {i : ι} (h : HasStored request outcome w key i)
    (hw : w.phase i = .stored → w'.phase i = .stored) : HasStored request outcome w' key i :=
  { h with stored := hw h.stored }

omit [DecidableEq ι] in
theorem PhaseSound.mono {i : ι} {p : Phase ι β} (h : PhaseSound request outcome w i p)
    (hw : ∀ j, w.phase j = .stored → w'.phase j = .stored) : PhaseSound request outcome w' i p := by
  cases p with
  | replayed cached =>
    obtain ⟨key, hk, hs, hc⟩ := h
    exact ⟨key, hk, hs.mono (hw _), hc⟩
  | handling b => cases b <;> exact h
  | _ => exact h

/-- A request that is not stored moves on. -/
theorem Sound.setPhase (h : Sound request outcome w) {i : ι} {p : Phase ι β}
    (hi : w.phase i ≠ .stored) (hp : PhaseSound request outcome w i p) :
    Sound request outcome (w.setPhase i p) := by
  have hw : ∀ j, w.phase j = .stored → (w.setPhase i p).phase j = .stored := by
    intro j hj
    have hne : j ≠ i := by
      rintro rfl
      exact hi hj
    exact (Function.update_of_ne hne ..).trans hj
  constructor
  · intro key c hc
    obtain ⟨hs, hr⟩ := h.cached key c hc
    exact ⟨hs.mono (hw _), hr⟩
  · intro j
    by_cases hj : j = i
    · subst hj
      have hself : (w.setPhase j p).phase j = p := Function.update_self ..
      rw [hself]
      exact hp.mono hw
    · have hother : (w.setPhase i p).phase j = w.phase j := Function.update_of_ne hj ..
      rw [hother]
      exact (h.phase j).mono hw

/-- A request that succeeded stores its response. -/
theorem Sound.store (h : Sound request outcome w) {i : ι} {key : String}
    (hk : cacheKeyOf (request i) = some key) (ho : (outcome i).status < 500) :
    Sound request outcome (store request outcome w i) := by
  unfold Idempotency.store
  rw [hk]
  have hself : ((w.setCache key i (outcome i)).setPhase i .stored).phase i = .stored :=
    Function.update_self ..
  have hw : ∀ j, w.phase j = .stored →
      ((w.setCache key i (outcome i)).setPhase i .stored).phase j = .stored := by
    intro j hj
    by_cases hji : j = i
    · rw [hji, hself]
    · exact (Function.update_of_ne hji ..).trans hj
  constructor
  · intro key' c hc
    have hc : Function.update w.cache key (some ⟨(outcome i).status, (outcome i).body, i⟩) key' =
      some c := hc
    by_cases hkey : key' = key
    · subst hkey
      rw [Function.update_self] at hc
      obtain rfl := Option.some.inj hc
      exact ⟨⟨hk, ho, hself⟩, rfl, rfl⟩
    · rw [Function.update_of_ne hkey] at hc
      obtain ⟨hs, hr⟩ := h.cached key' c hc
      exact ⟨hs.mono (hw _), hr⟩
  · intro j
    by_cases hj : j = i
    · subst hj
      rw [hself]
      exact ⟨by simp [hk], ho⟩
    · have hother : ((w.setCache key i (outcome i)).setPhase i .stored).phase j = w.phase j :=
        Function.update_of_ne hj ..
      rw [hother]
      exact (h.phase j).mono hw

/-- What a legal step can do. -/
inductive Moves (path : Path) (request : ι → Request) (outcome : ι → Outcome β) (w : World ι β) :
    Action ι → World ι β → Prop
  | pass {i} (hi : w.phase i = .waiting) (hk : cacheKeyOf (request i) = none) :
    Moves path request outcome w (.lookup i) (w.setPhase i (.handling false))
  | hit {i key cached} (hi : w.phase i = .waiting) (hk : cacheKeyOf (request i) = some key)
      (hc : w.cache key = some cached) :
    Moves path request outcome w (.lookup i) (w.setPhase i (.replayed cached))
  | miss {i key} (hi : w.phase i = .waiting) (hk : cacheKeyOf (request i) = some key)
      (hc : w.cache key = none) :
    Moves path request outcome w (.lookup i) (w.setPhase i (.handling true))
  | skip {i} (hi : w.phase i = .waiting) :
    Moves path request outcome w (.lookupFails i) (w.setPhase i (.handling false))
  | answered {i} (hi : w.phase i = .handling true) (ho : (outcome i).status < 500) :
    Moves path request outcome w (.complete i) (w.setPhase i .storing)
  | answeredAtOnce {i} (hi : w.phase i = .handling true) (ho : (outcome i).status < 500) :
    Moves path request outcome w (.complete i) (store request outcome w i)
  | answeredOnly {i b} (hi : w.phase i = .handling b) :
    Moves path request outcome w (.complete i) (w.setPhase i .unstored)
  | store {i} (hi : w.phase i = .storing) :
    Moves path request outcome w (.store i) (store request outcome w i)
  | lose {i} (hi : w.phase i = .storing) :
    Moves path request outcome w (.storeFails i) (w.setPhase i .unstored)
  | expire (key) :
    Moves path request outcome w (.expire key)
      { w with cache := Function.update w.cache key none }

theorem moves_step {a : Action ι} (hl : Legal path request w a) :
    Moves path request outcome w a (step path request outcome w a) := by
  cases a with
  | lookup i =>
    have hi : w.phase i = .waiting := hl
    cases hk : cacheKeyOf (request i) with
    | none =>
      simp only [step, hk]
      exact .pass hi hk
    | some key =>
      cases hc : w.cache key with
      | none =>
        simp only [step, hk, hc]
        exact .miss hi hk hc
      | some cached =>
        simp only [step, hk, hc]
        exact .hit hi hk hc
  | lookupFails i => exact .skip hl.2.2
  | complete i =>
    rcases hl with hi | hi
    · simp only [step, hi]
      split_ifs with ho
      · cases path with
        | redis => exact .answered hi ho.2
        | memory => exact .answeredAtOnce hi ho.2
      · exact .answeredOnly hi
    · simp only [step, hi]
      exact .answeredOnly hi
  | store i => exact .store hl
  | storeFails i => exact .lose hl
  | expire key => exact .expire key

/-- **The step lemma** of the cache. -/
theorem Sound.moves (h : Sound request outcome w) {a : Action ι}
    (hm : Moves path request outcome w a w') : Sound request outcome w' := by
  have hphase : ∀ {i : ι} {p : Phase ι β}, w.phase i = p → PhaseSound request outcome w i p :=
    fun hi => hi ▸ h.phase _
  cases hm with
  | pass hi hk => exact h.setPhase (by simp [hi]) trivial
  | hit hi hk hc =>
    obtain ⟨hs, hr⟩ := h.cached _ _ hc
    exact h.setPhase (by simp [hi]) ⟨_, hk, hs, hr⟩
  | miss hi hk hc => exact h.setPhase (by simp [hi]) (by simp [PhaseSound, hk])
  | skip hi => exact h.setPhase (by simp [hi]) trivial
  | answered hi ho => exact h.setPhase (by simp [hi]) ⟨hphase hi, ho⟩
  | answeredAtOnce hi ho =>
    obtain ⟨key, hk⟩ := Option.ne_none_iff_exists'.mp (hphase hi)
    exact h.store hk ho
  | answeredOnly hi => exact h.setPhase (by simp [hi]) trivial
  | store hi =>
    obtain ⟨key, hk⟩ := Option.ne_none_iff_exists'.mp (hphase hi).1
    exact h.store hk (hphase hi).2
  | lose hi => exact h.setPhase (by simp [hi]) trivial
  | expire key =>
    refine ⟨fun key' c hc => ?_, fun i => (h.phase i).mono fun _ hj => hj⟩
    have hc : Function.update w.cache key none key' = some c := hc
    by_cases hkey : key' = key
    · rw [hkey, Function.update_self] at hc
      cases hc
    · rw [Function.update_of_ne hkey] at hc
      obtain ⟨hs, hr⟩ := h.cached key' c hc
      exact ⟨hs.mono fun hj => hj, hr⟩

/-! ### Isolation -/

/-- The `Idempotency-Key` of a request. -/
def headerKey (req : Request) : Option String :=
  match req.idempotencyKey with
  | some (.text key) => some key
  | _ => none

theorem cacheKeyOf_eq_some {req : Request} {k : String} :
    cacheKeyOf req = some k ↔ (req.method = "POST" ∨ req.method = "DELETE") ∧
      ∃ key, headerKey req = some key ∧ key ≠ "" ∧ k = buildCacheKey key (getCallerIp req) := by
  unfold cacheKeyOf headerKey
  split_ifs with hm
  · refine iff_of_false nofun ?_
    rintro ⟨h | h, -⟩
    · exact hm.1 h
    · exact hm.2 h
  · have hm : req.method = "POST" ∨ req.method = "DELETE" := by tauto
    simp only [hm, true_and]
    cases req.idempotencyKey with
    | none => exact iff_of_false nofun fun ⟨_, h, _⟩ => nomatch h
    | some v =>
      cases v with
      | list l => exact iff_of_false nofun fun ⟨_, h, _⟩ => nomatch h
      | text key =>
        dsimp only
        split_ifs with he
        · refine iff_of_false nofun ?_
          rintro ⟨_, h, hne, -⟩
          exact hne (Option.some.inj h ▸ he)
        · constructor
          · intro h
            exact ⟨key, rfl, he, (Option.some.inj h).symm⟩
          · rintro ⟨_, h, -, rfl⟩
            rw [Option.some.inj h]

/-- A text behind the last of a fixed number of colons can be read off. -/
theorem colon_append_inj {k k' i i' : List Char} (h : k ++ ':' :: i = k' ++ ':' :: i')
    (hc : i.count ':' = i'.count ':') : k = k' ∧ i = i' := by
  rcases List.append_eq_append_iff.mp h with ⟨m, rfl, hm⟩ | ⟨m, rfl, hm⟩
  · cases m with
    | nil => exact ⟨by simp, by simpa using hm⟩
    | cons c m =>
      obtain ⟨rfl, rfl⟩ := List.cons.inj hm
      simp at hc
      omega
  · cases m with
    | nil => exact ⟨by simp, by simpa using hm.symm⟩
    | cons c m =>
      obtain ⟨rfl, rfl⟩ := List.cons.inj hm
      simp at hc
      omega

/-- The cache key determines the header and the address, if the number of colons in the address is
known. -/
theorem buildCacheKey_inj {key key' ip ip' : String}
    (h : buildCacheKey key ip = buildCacheKey key' ip')
    (hc : ip.toList.count ':' = ip'.toList.count ':') : key = key' ∧ ip = ip' := by
  have hl := congrArg String.toList h
  unfold buildCacheKey at hl
  simp only [String.toList_append, List.append_assoc] at hl
  obtain ⟨hk, hi⟩ := colon_append_inj (List.append_cancel_left hl) hc
  exact ⟨String.toList_inj.mp hk, String.toList_inj.mp hi⟩

-- without that the key of one request can run on into the address of another one
example : buildCacheKey "k1" "2001:db8::1" = buildCacheKey "k1:2001" "db8::1" := by decide +kernel

/-- A replay goes to a request that agrees in everything with the one that stored the response. -/
def Isolated (request : ι → Request) (outcome : ι → Outcome β) (w : World ι β) : Prop :=
  ∀ i a o, w.answer outcome i = some a → a.replayOf = some o →
    headerKey (request i) = headerKey (request o) ∧
      getCallerIp (request i) = getCallerIp (request o) ∧
      (request i).method = (request o).method ∧ (request i).path = (request o).path

/-- A replay goes to a `POST` or `DELETE` request with the cache key of the one that stored the
response. If their addresses have equally many colons, they have the same `Idempotency-Key` and the
same address. -/
def IsolatedByKey (request : ι → Request) (outcome : ι → Outcome β) (w : World ι β) : Prop :=
  ∀ i a o, w.answer outcome i = some a → a.replayOf = some o →
    (∀ j, j = i ∨ j = o → (request j).method = "POST" ∨ (request j).method = "DELETE") ∧
      (∃ key, cacheKeyOf (request i) = some key ∧ cacheKeyOf (request o) = some key) ∧
      ((getCallerIp (request i)).toList.count ':' = (getCallerIp (request o)).toList.count ':' →
        headerKey (request i) = headerKey (request o) ∧
          getCallerIp (request i) = getCallerIp (request o))

omit [DecidableEq ι] in
theorem Sound.keptApart (h : Sound request outcome w) : IsolatedByKey request outcome w := by
  intro i a o ha ho
  have hi := h.phase i
  unfold World.answer at ha
  split at ha
  · cases ha
  · cases ha
  · cases ha
    cases ho
  · cases ha
    cases ho
  · cases ha
    cases ho
  · rename_i cached hphase
    rw [hphase] at hi
    obtain ⟨key, hk, hs, -⟩ := hi
    cases ha
    obtain rfl := Option.some.inj ho
    obtain ⟨hm, k, hh, -, hb⟩ := cacheKeyOf_eq_some.mp hk
    obtain ⟨hm', k', hh', -, hb'⟩ := cacheKeyOf_eq_some.mp hs.keyed
    refine ⟨?_, ⟨key, hk, hs.keyed⟩, fun hc => ?_⟩
    · rintro j (rfl | rfl)
      · exact hm
      · exact hm'
    · obtain ⟨rfl, hip⟩ := buildCacheKey_inj (hb.symm.trans hb') hc
      exact ⟨hh.trans hh'.symm, hip⟩

/-- **Replays** in every run, whatever expires in between. -/
theorem isolatedByKey (path : Path) (request : ι → Request) (outcome : ι → Outcome β)
    (l : List (Action ι))
    (hl : AllSteps (step path request outcome) (Legal path request) World.init l) :
    AllStates (step path request outcome) (IsolatedByKey request outcome) World.init l :=
  AllStates.imp (fun _ h => h.keptApart)
    (allStates_of_inv (fun _ _ h hP => h.moves (moves_step hP)) sound_init hl)

/-- Two requests of one client with the same key. -/
def twoRequests (i : Fin 2) : Request where
  method := if i.val = 0 then "POST" else "DELETE"
  path := if i.val = 0 then "/api/streams" else "/api/cancel"
  idempotencyKey := some (.text "k1")
  ip := some "203.0.113.7"
  remoteAddress := none

/-- Each handler creates something, and answers with its number. -/
def created (i : Fin 2) : Outcome ℕ := ⟨201, i, true⟩

/-- The second request gets the stored response of the first one, by another method and on another
path. -/
theorem isolatedByKey_twoRequests :
    AllStates (step .memory twoRequests created) (IsolatedByKey twoRequests created) World.init
      [.lookup 0, .complete 0, .lookup 1] :=
  isolatedByKey .memory twoRequests created _ (by decide +kernel)

theorem not_isolated :
    AllSteps (step .memory twoRequests created) (Legal .memory twoRequests) World.init
      [.lookup 0, .complete 0, .lookup 1] ∧
    ¬ AllStates (step .memory twoRequests created) (Isolated twoRequests created) World.init
      [.lookup 0, .complete 0, .lookup 1] := by
  refine ⟨by decide +kernel, fun h => ?_⟩
  have heq := h.last 1 ⟨201, 0, some 0⟩ 0 (by decide +kernel) rfl
  exact absurd heq.2.2.2 (by decide)

/-! ### At most one execution -/

variable (request outcome) in
/-- The handler of a request under this key answers below 500, if it is invoked. -/
def Succeeds (key : String) (i : ι) : Prop :=
  cacheKeyOf (request i) = some key ∧ (outcome i).status < 500

/-- The request got past the cache to its handler. -/
def Phase.Passed : Phase ι β → Prop
  | .waiting | .replayed _ => False
  | .handling _ | .storing | .stored | .unstored => True

/-- The request got past the cache and its response is not there. -/
def Phase.Inside : Phase ι β → Prop
  | .waiting | .replayed _ | .stored => False
  | .handling _ | .storing | .unstored => True

instance : (p : Phase ι β) → Decidable p.Inside
  | .waiting | .replayed _ | .stored => inferInstanceAs (Decidable False)
  | .handling _ | .storing | .unstored => inferInstanceAs (Decidable True)

omit [DecidableEq ι] in
theorem Phase.Inside.passed : ∀ {p : Phase ι β}, p.Inside → p.Passed
  | .handling _, _ | .storing, _ | .unstored, _ => trivial

variable (request outcome) in
/-- The entry under a key as a resource of the requests that succeed: the first one takes it with
its store. -/
def cacheEntry (key : String) : Resource (World ι β) (Action ι) ι where
  admitted w i := Succeeds request outcome key i ∧ (w.phase i).Passed
  inside w i := Succeeds request outcome key i ∧ (w.phase i).Inside
  taken w := w.cache key ≠ none
  admits w a i := Succeeds request outcome key i ∧
    ((a = .lookup i ∧ w.cache key = none) ∨ a = .lookupFails i)

instance [Fintype ι] [DecidableEq β] (key : String) (w : World ι β) (a : Action ι) :
    Decidable ((cacheEntry request outcome key).Alone w a) :=
  inferInstanceAs (Decidable (∀ i, ((cacheKeyOf (request i) = some key ∧ (outcome i).status < 500) ∧
    ((a = .lookup i ∧ w.cache key = none) ∨ a = .lookupFails i)) → ¬ w.cache key ≠ none ∧
      ∀ j, ¬ ((cacheKeyOf (request j) = some key ∧ (outcome j).status < 500) ∧
        (w.phase j).Inside)))

variable (request outcome) in
/-- The handler of `i`, a request under this key, completed below 500. -/
def Executes (key : String) (w : World ι β) (i : ι) : Prop :=
  cacheKeyOf (request i) = some key ∧
    ∃ a, w.answer outcome i = some a ∧ a.status < 500 ∧ a.replayOf = none

variable (request outcome) in
/-- Of the requests under this key at most one executes, and the others that complete below 500 are
replays of its response. -/
structure ExecutesOnce (key : String) (w : World ι β) : Prop where
  once : ∀ i j, Executes request outcome key w i → Executes request outcome key w j → i = j
  others : ∀ i a, cacheKeyOf (request i) = some key → w.answer outcome i = some a →
    a.status < 500 → ¬ Executes request outcome key w i →
    ∃ o, Executes request outcome key w o ∧ a = ⟨(outcome o).status, (outcome o).body, some o⟩

/-- Nothing expires, so a response that was stored stays. -/
structure Kept (request : ι → Request) (outcome : ι → Outcome β) (w : World ι β) : Prop where
  sound : Sound request outcome w
  stored : ∀ key i, HasStored request outcome w key i → w.cache key ≠ none

omit [DecidableEq ι] in
theorem kept_init : Kept request outcome (World.init : World ι β) where
  sound := sound_init
  stored := fun _ _ h => nomatch h.stored

theorem phase_setPhase {i j : ι} {p : Phase ι β} :
    (w.setPhase i p).phase j = if j = i then p else w.phase j := Function.update_apply ..

theorem phase_store {i j : ι} :
    (store request outcome w i).phase j = if j = i then .stored else w.phase j := by
  unfold store
  split <;> exact Function.update_apply ..

theorem cache_store {i : ι} {key : String} (hk : cacheKeyOf (request i) = some key) :
    (store request outcome w i).cache key ≠ none := by
  unfold store
  rw [hk]
  show Function.update w.cache key _ key ≠ none
  rw [Function.update_self]
  exact Option.some_ne_none _

theorem cache_store_of_ne_none {i : ι} {key : String} (h : w.cache key ≠ none) :
    (store request outcome w i).cache key ≠ none := by
  unfold store
  split
  · rename_i key' _
    show Function.update w.cache key' _ key ≠ none
    rw [Function.update_apply]
    split_ifs
    · exact Option.some_ne_none _
    · exact h
  · exact h

theorem Kept.setPhase (h : Kept request outcome w) {i : ι} {p : Phase ι β} (hp : p ≠ .stored)
    (hs : Sound request outcome (w.setPhase i p)) : Kept request outcome (w.setPhase i p) := by
  refine ⟨hs, fun key j hj => h.stored key j (hj.mono fun hst => ?_)⟩
  rw [phase_setPhase] at hst
  split_ifs at hst
  · exact absurd hst hp
  · exact hst

theorem Kept.store (h : Kept request outcome w) {i : ι}
    (hs : Sound request outcome (Idempotency.store request outcome w i)) :
    Kept request outcome (Idempotency.store request outcome w i) := by
  refine ⟨hs, fun key j hj => ?_⟩
  by_cases hji : j = i
  · exact cache_store (hji ▸ hj.keyed)
  · refine cache_store_of_ne_none (h.stored key j (hj.mono fun hst => ?_))
    rwa [phase_store, if_neg hji] at hst

theorem Kept.moves (h : Kept request outcome w) {a : Action ι}
    (hm : Moves path request outcome w a w') (ha : ∀ key, a ≠ .expire key) :
    Kept request outcome w' := by
  have hs := h.sound.moves hm
  cases hm with
  | pass hi hk => exact h.setPhase nofun hs
  | hit hi hk hc => exact h.setPhase nofun hs
  | miss hi hk hc => exact h.setPhase nofun hs
  | skip hi => exact h.setPhase nofun hs
  | answered hi ho => exact h.setPhase nofun hs
  | answeredAtOnce hi ho => exact h.store hs
  | answeredOnly hi => exact h.setPhase nofun hs
  | store hi => exact h.store hs
  | lose hi => exact h.setPhase nofun hs
  | expire key => exact absurd rfl (ha key)

/-- **Getting past the cache**: by a lookup that finds nothing or by one that fails. -/
theorem passed_moves {a : Action ι} (hm : Moves path request outcome w a w') {key : String} {j : ι}
    (hk : cacheKeyOf (request j) = some key) :
    (w'.phase j).Passed ↔
      (w.phase j).Passed ∨ (a = .lookup j ∧ w.cache key = none) ∨ a = .lookupFails j := by
  cases hm with
  | @pass i hi hk' =>
    by_cases hj : j = i
    · subst hj
      rw [hk] at hk'
      cases hk'
    · simp [phase_setPhase, hj, Ne.symm hj]
  | @hit i key' cached hi hk' hc =>
    by_cases hj : j = i
    · subst hj
      obtain rfl := Option.some.inj (hk.symm.trans hk')
      simp [phase_setPhase, hi, hc, Phase.Passed]
    · simp [phase_setPhase, hj, Ne.symm hj]
  | @miss i key' hi hk' hc =>
    by_cases hj : j = i
    · subst hj
      obtain rfl := Option.some.inj (hk.symm.trans hk')
      simp [phase_setPhase, hc, Phase.Passed]
    · simp [phase_setPhase, hj, Ne.symm hj]
  | @skip i hi =>
    by_cases hj : j = i
    · subst hj
      simp [phase_setPhase, Phase.Passed]
    · simp [phase_setPhase, hj, Ne.symm hj]
  | @answered i hi ho | @answeredOnly i b hi | @lose i hi =>
    by_cases hj : j = i
    · subst hj
      simp [phase_setPhase, hi, Phase.Passed]
    · simp [phase_setPhase, hj]
  | @answeredAtOnce i hi ho | @store i hi =>
    by_cases hj : j = i
    · subst hj
      simp [phase_store, hi, Phase.Passed]
    · simp [phase_store, hj]
  | expire key => simp

/-- The steps of a run in which nothing expires. -/
def Proceeds (path : Path) (request : ι → Request) (w : World ι β) (a : Action ι) : Prop :=
  Legal path request w a ∧ ∀ key, a ≠ .expire key

omit [DecidableEq ι] in
theorem waiting_of_admits {key : String} {a : Action ι} {i : ι} (hl : Legal path request w a)
    (h : (cacheEntry request outcome key).admits w a i) : w.phase i = .waiting := by
  rcases h.2 with ⟨rfl, -⟩ | rfl
  · exact hl
  · exact hl.2.2

theorem admitted_step {key : String} {a : Action ι} {j : ι} (hP : Proceeds path request w a)
    (hj : (cacheEntry request outcome key).admitted w j) :
    (cacheEntry request outcome key).admitted (step path request outcome w a) j :=
  ⟨hj.1, (passed_moves (moves_step hP.1) hj.1.1).mpr (Or.inl hj.2)⟩

/-- **The entry of the cache is a resource of its requests.** -/
theorem cacheEntry_lawful (key : String) :
    (cacheEntry request outcome key).Lawful (step path request outcome) (Proceeds path request)
      (Kept request outcome) where
  inv := fun _ _ hI hP => hI.moves (moves_step hP.1) hP.2
  admitted_step := by
    rintro w a hI hP i ⟨hi, hp⟩
    rcases (passed_moves (moves_step hP.1) hi.1).mp hp with hp | ha
    · exact Or.inl ⟨hi, hp⟩
    · exact Or.inr ⟨hi, ha⟩
  admits_new := by
    intro w a hI hP i hi
    have hw := waiting_of_admits hP.1 hi
    refine ⟨⟨hi.1, (passed_moves (moves_step hP.1) hi.1.1).mpr (Or.inr hi.2)⟩, fun hold => ?_⟩
    have hp := hold.2
    rw [hw] at hp
    exact hp
  admits_one := by
    rintro w a i j ⟨-, ⟨rfl, -⟩ | rfl⟩ ⟨-, ⟨ha, -⟩ | ha⟩
    · cases ha; rfl
    · cases ha
    · cases ha
    · cases ha; rfl
  admits_keeps := fun w a _ _ hP _ j hj => admitted_step hP hj
  inside_admitted := by
    rintro w j - ⟨hj, hin⟩
    exact ⟨hj, hin.passed⟩
  left_taken := by
    rintro w j hI ⟨hj, hp⟩
    cases hphase : w.phase j with
    | stored => exact Or.inr (hI.stored key j ⟨hj.1, hj.2, hphase⟩)
    | waiting => rw [hphase] at hp; exact absurd hp id
    | replayed c => rw [hphase] at hp; exact absurd hp id
    | handling b | storing | unstored =>
      refine Or.inl ⟨hj, ?_⟩
      rw [hphase]
      trivial
  admits_taken := by
    intro w a i hI _ _ ht
    obtain ⟨c, hc⟩ := Option.ne_none_iff_exists'.mp ht
    have hs := (hI.sound.cached key c hc).1
    refine ⟨c.origin, ⟨hs.keyed, hs.succeeded⟩, ?_⟩
    rw [hs.stored]
    trivial

omit [DecidableEq ι] in
/-- A handler that completed below 500 was invoked. -/
theorem Executes.admitted {key : String} {i : ι} (h : Executes request outcome key w i) :
    (cacheEntry request outcome key).admitted w i := by
  obtain ⟨hk, a, ha, hs, hr⟩ := h
  unfold World.answer at ha
  cases hp : w.phase i with
  | waiting | handling b => rw [hp] at ha; cases ha
  | replayed c =>
    rw [hp] at ha
    cases ha
    cases hr
  | storing | stored | unstored =>
    rw [hp] at ha
    cases ha
    refine ⟨⟨hk, hs⟩, ?_⟩
    rw [hp]
    trivial

omit [DecidableEq ι] in
/-- A handler that was invoked and is not running has completed. -/
theorem executes_of_admitted {key : String} {i : ι}
    (h : (cacheEntry request outcome key).admitted w i) (hrun : ∀ b, w.phase i ≠ .handling b) :
    Executes request outcome key w i := by
  obtain ⟨⟨hk, hs⟩, hp⟩ := h
  refine ⟨hk, ⟨(outcome i).status, (outcome i).body, none⟩, ?_, hs, rfl⟩
  unfold World.answer
  cases hphase : w.phase i with
  | waiting | replayed c => rw [hphase] at hp; exact absurd hp id
  | handling b => exact absurd hphase (hrun b)
  | storing | stored | unstored => rfl

omit [DecidableEq ι] in
theorem HasStored.executes {key : String} {i : ι} (h : HasStored request outcome w key i) :
    Executes request outcome key w i := by
  refine ⟨h.keyed, ⟨(outcome i).status, (outcome i).body, none⟩, ?_, h.succeeded, rfl⟩
  unfold World.answer
  rw [h.stored]

omit [DecidableEq ι] in
/-- What completes below 500 without executing is the replay of an execution. -/
theorem Sound.others (h : Sound request outcome w) {key : String} {i : ι} {a : Answer ι β}
    (hk : cacheKeyOf (request i) = some key) (ha : w.answer outcome i = some a)
    (hs : a.status < 500) (hne : ¬ Executes request outcome key w i) :
    ∃ o, Executes request outcome key w o ∧
      a = ⟨(outcome o).status, (outcome o).body, some o⟩ := by
  have hi := h.phase i
  cases hr : a.replayOf with
  | none => exact absurd ⟨hk, a, ha, hs, hr⟩ hne
  | some o =>
    unfold World.answer at ha
    cases hp : w.phase i with
    | waiting | handling b => rw [hp] at ha; cases ha
    | storing | stored | unstored =>
      rw [hp] at ha
      cases ha
      cases hr
    | replayed c =>
      rw [hp] at ha hi
      obtain ⟨key', hk', hst, hstatus, hbody⟩ := hi
      obtain rfl := Option.some.inj (hk.symm.trans hk')
      cases ha
      obtain rfl := Option.some.inj hr
      exact ⟨c.origin, hst.executes, by rw [hstatus, hbody]⟩

/-- **Executing once.** If every request that would complete below 500 gets past the cache only when
nothing is stored under the key and no other such request is past it without a stored response, then
at most one of them executes. In a run at whose end no handler is running this is necessary. -/
theorem executesOnce (path : Path) (request : ι → Request) (outcome : ι → Outcome β) (key : String)
    (l : List (Action ι))
    (hl : AllSteps (step path request outcome) (Legal path request) World.init l)
    (hkeep : ∀ k, Action.expire k ∉ l) :
    (AllSteps (step path request outcome) (cacheEntry request outcome key).Alone World.init l →
      AllStates (step path request outcome) (ExecutesOnce request outcome key) World.init l) ∧
    ((∀ i b, (run (step path request outcome) World.init l).phase i ≠ .handling b) →
      AllStates (step path request outcome) (ExecutesOnce request outcome key) World.init l →
      AllSteps (step path request outcome) (cacheEntry request outcome key).Alone World.init
        l) := by
  have hlaws : (cacheEntry request outcome key).Lawful (step path request outcome)
      (Proceeds path request) (Kept request outcome) := cacheEntry_lawful key
  have hsteps : AllSteps (step path request outcome) (Proceeds path request) World.init l :=
    hl.and (allSteps_of_forall fun a ha k h => hkeep k (h ▸ ha))
  have hexact := hlaws.atMostOne_iff kept_init hsteps fun i hi => hi.2
  constructor
  · intro halone
    have hone := hexact.mpr halone
    have hsound := allStates_of_inv (fun _ _ hI hP => hlaws.inv _ _ hI hP) kept_init hsteps
    refine (hone.and hsound).imp fun w hw => ⟨fun i j hi hj => ?_, fun i a => ?_⟩
    · exact hw.1 i j hi.admitted hj.admitted
    · exact hw.2.sound.others
  · intro hrun honce
    refine hexact.mp (Resource.atMostOne_of_last hlaws.inv
      (fun w a _ hP j hj => admitted_step hP hj) kept_init hsteps ?_)
    intro i j hi hj
    exact honce.last.once i j (executes_of_admitted hi (hrun i)) (executes_of_admitted hj (hrun j))

/-- The second request comes after the store of the first one. -/
theorem executesOnce_inTurn :
    AllStates (step .redis twoRequests created)
      (ExecutesOnce twoRequests created "idempotency:k1:203.0.113.7") World.init
      [.lookup 0, .complete 0, .store 0, .lookup 1] := by
  refine (executesOnce .redis twoRequests created "idempotency:k1:203.0.113.7"
    [.lookup 0, .complete 0, .store 0, .lookup 1] (by decide +kernel) (by simp)).1 ?_
  decide +kernel

/-- The second request comes while the handler of the first one is running: both execute. -/
theorem not_executesOnce :
    AllSteps (step .redis twoRequests created) (Legal .redis twoRequests) World.init
      [.lookup 0, .lookup 1, .complete 0, .complete 1] ∧
    ¬ AllStates (step .redis twoRequests created)
      (ExecutesOnce twoRequests created "idempotency:k1:203.0.113.7") World.init
      [.lookup 0, .lookup 1, .complete 0, .complete 1] := by
  refine ⟨by decide +kernel, fun h => ?_⟩
  have heq := h.last.once 0 1 ⟨by decide +kernel, ⟨201, 0, none⟩, by decide +kernel, by decide, rfl⟩
    ⟨by decide +kernel, ⟨201, 1, none⟩, by decide +kernel, by decide, rfl⟩
  exact absurd heq (by decide)

end VestingDripStream.Backend.Idempotency
