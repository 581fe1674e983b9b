import VestingDripStream.Lib.CheckThenAct

/-! # Authentication by nonces

`challengeHandlerV1` and `challengeHandler` store a nonce for an address, `verifyHandlerV1` and
`tokenHandler` exchange a signed nonce for a token. A verification reads the nonce from Redis,
deletes it and then checks the payload and the signature; each of these is a step of its own, and
between them other requests take theirs.

The verification of the signatures is a parameter. `Number(timestamp)` and the time of arrival are
fields of a request. -/

namespace VestingDripStream.Backend.AuthNonces

open VestingDripStream.Lib.Run VestingDripStream.Lib.CheckThenAct

/-- The two versions of the authentication. -/
inductive Api
  | v1
  | v2
  deriving DecidableEq, Repr

/-- `NONCE_PREFIX`, of each version. -/
def noncePrefix : Api → String
  | .v1 => "auth_nonce_v1:"
  | .v2 => "auth_nonce:"

/-- The Redis key of a nonce. -/
def nonceKey (api : Api) (nonce : String) : String := noncePrefix api ++ nonce

/-- What is stored under a nonce. -/
structure Payload where
  address : String
  createdAt : ℕ
  deriving DecidableEq, Repr

/-- A letter of an address behind its `G`. -/
def isAddressChar (c : Char) : Bool := ('A' ≤ c && c ≤ 'Z') || ('2' ≤ c && c ≤ '7')

/-- `/^G[A-Z2-7]{55}$/` -/
def isStellarAddress (address : String) : Bool :=
  match address.toList with
  | [] => false
  | c :: rest => c == 'G' && rest.length == 55 && rest.all isAddressChar

/-- A verification request. `timestampNumber` is `Number(timestamp)`, `none` for `NaN`. -/
structure Request where
  api : Api
  address : String
  nonce : String
  timestamp : String
  signature : String
  timestampNumber : Option ℚ
  arrivedAt : ℚ
  deriving DecidableEq, Repr

namespace Request

/-- The key that the verification reads and deletes. -/
def key (r : Request) : String := nonceKey r.api r.nonce

/-- The message that the wallet signs. -/
def message (r : Request) : String := r.address ++ ":" ++ r.nonce ++ ":" ++ r.timestamp

/-- The timestamp is a positive number in the window around the time of arrival. -/
def timely (r : Request) : Bool :=
  match r.timestampNumber with
  | none => false
  | some ts => 0 < ts && r.arrivedAt - ts ≤ 300000 && -30000 ≤ r.arrivedAt - ts

/-- The checks before Redis is asked; only the first version looks at the form of the address. -/
def wellFormed (r : Request) : Bool :=
  r.address != "" && r.nonce != "" && r.timestamp != "" && r.signature != "" &&
    (r.api == .v2 || isStellarAddress r.address) && r.timely

/-- The checks after the nonce is deleted. -/
def authenticates (r : Request) (verify : Api → String → String → String → Bool) (p : Payload) :
    Bool :=
  p.address == r.address && verify r.api r.address r.message r.signature

end Request

/-- How far a verification is. -/
inductive Phase
  | waiting
  /-- The nonce was read and is not deleted yet. -/
  | holding (p : Payload)
  /-- The nonce was read and deleted. -/
  | consumed (p : Payload)
  /-- A token was issued. -/
  | issued
  /-- The request was turned down, or it failed. -/
  | refused
  deriving DecidableEq, Repr

/-- The nonce is in the hands of the request, and still in Redis. -/
def Phase.isHolding : Phase → Bool
  | .holding _ => true
  | .waiting | .consumed _ | .issued | .refused => false

/-- The nonce is in the hands of the request only. -/
def Phase.isConsumed : Phase → Bool
  | .consumed _ => true
  | .waiting | .holding _ | .issued | .refused => false

/-- Redis, and how far each verification is. -/
structure World (ι : Type) where
  redis : String → Option Payload
  phase : ι → Phase
  /-- The nonces that were created, and the addresses they were created for. -/
  created : List (Api × String × String)

/-- What happens next, to a challenge, to a verification or to a stored nonce. -/
inductive Action (ι : Type)
  /-- A challenge for an address; `nonce` is the random UUID it draws. -/
  | challenge (api : Api) (address nonce : String) (now : ℕ)
  | read (i : ι)
  | delete (i : ι)
  | finish (i : ι)
  /-- A request is over the rate limit, or one of its calls fails. -/
  | fail (i : ι)
  /-- The life of a nonce is over. -/
  | expire (key : String)
  deriving DecidableEq, Repr

variable {ι : Type} [DecidableEq ι] (verify : Api → String → String → String → Bool)
  (request : ι → Request)

/-- Nothing is stored, and no verification has begun. -/
def World.init : World ι where
  redis := fun _ => none
  phase := fun _ => .waiting
  created := []

/-- The verification `i` goes on to the phase `p`. -/
def World.setPhase (w : World ι) (i : ι) (p : Phase) : World ι :=
  { w with phase := Function.update w.phase i p }

/-- A `SET`, or a `DEL` if there is no value. -/
def World.setRedis (w : World ι) (key : String) (v : Option Payload) : World ι :=
  { w with redis := Function.update w.redis key v }

/-- A nonce is stored for an address. -/
def World.create (w : World ι) (api : Api) (address nonce : String) (now : ℕ) : World ι where
  redis := Function.update w.redis (nonceKey api nonce) (some ⟨address, now⟩)
  phase := w.phase
  created := (api, nonce, address) :: w.created

/-- One step: a request that is not at the point of the action stays where it is. -/
def step (w : World ι) : Action ι → World ι
  | .challenge api address nonce now =>
    if isStellarAddress address then w.create api address nonce now else w
  | .read i =>
    if (request i).wellFormed then
      match w.redis (request i).key with
      | some p => w.setPhase i (.holding p)
      | none => w.setPhase i .refused
    else w.setPhase i .refused
  | .delete i =>
    match w.phase i with
    | .holding p => (w.setRedis (request i).key none).setPhase i (.consumed p)
    | _ => w
  | .finish i =>
    match w.phase i with
    | .consumed p =>
      if (request i).authenticates verify p then w.setPhase i .issued else w.setPhase i .refused
    | _ => w
  | .fail i => w.setPhase i .refused
  | .expire key => w.setRedis key none

/-- Every request takes its steps in order; the nonces are new. -/
def Legal (w : World ι) : Action ι → Prop
  | .challenge _ _ nonce _ => ∀ c ∈ w.created, c.2.1 ≠ nonce
  | .read i => w.phase i = .waiting
  | .delete i => (w.phase i).isHolding = true
  | .finish i => (w.phase i).isConsumed = true
  | .fail i => w.phase i ≠ .issued
  | .expire _ => True

instance (w : World ι) : (a : Action ι) → Decidable (Legal w a)
  | .challenge _ _ nonce _ => inferInstanceAs (Decidable (∀ c ∈ w.created, c.2.1 ≠ nonce))
  | .read i => inferInstanceAs (Decidable (w.phase i = .waiting))
  | .delete i => inferInstanceAs (Decidable ((w.phase i).isHolding = true))
  | .finish i => inferInstanceAs (Decidable ((w.phase i).isConsumed = true))
  | .fail i => inferInstanceAs (Decidable (w.phase i ≠ .issued))
  | .expire _ => inferInstanceAs (Decidable True)

variable {verify request} {w w' : World ι}

/-! ### The keys -/

theorem nonceKey_inj {api api' : Api} {nonce nonce' : String}
    (h : nonceKey api nonce = nonceKey api' nonce') : api = api' ∧ nonce = nonce' := by
  have hl := congrArg String.toList h
  unfold nonceKey at hl
  rw [String.toList_append, String.toList_append] at hl
  cases api with
  | v1 =>
    cases api' with
    | v1 => exact ⟨rfl, String.toList_inj.mp (List.append_cancel_left hl)⟩
    | v2 => simp [noncePrefix] at hl
  | v2 =>
    cases api' with
    | v1 => simp [noncePrefix] at hl
    | v2 => exact ⟨rfl, String.toList_inj.mp (List.append_cancel_left hl)⟩

/-! ### What a step can do -/

/-- **What a step can do**, one constructor for each way through the handlers. -/
inductive Moves (verify : Api → String → String → String → Bool) (request : ι → Request)
    (w : World ι) : Action ι → World ι → Prop
  | create {api address nonce now} (hnew : ∀ c ∈ w.created, c.2.1 ≠ nonce) :
    Moves verify request w (.challenge api address nonce now)
      (w.create api address nonce now)
  | badAddress {api address nonce now} :
    Moves verify request w (.challenge api address nonce now) w
  | hold {i p} (hi : w.phase i = .waiting) (hr : (request i).wellFormed = true)
      (hp : w.redis (request i).key = some p) :
    Moves verify request w (.read i) (w.setPhase i (.holding p))
  | miss {i} (hi : w.phase i = .waiting)
      (hr : (request i).wellFormed = true → w.redis (request i).key = none) :
    Moves verify request w (.read i) (w.setPhase i .refused)
  | consume {i p} (hi : w.phase i = .holding p) :
    Moves verify request w (.delete i)
      ((w.setRedis (request i).key none).setPhase i (.consumed p))
  | issue {i p} (hi : w.phase i = .consumed p) (hm : (request i).authenticates verify p = true) :
    Moves verify request w (.finish i) (w.setPhase i .issued)
  | refuse {i p} (hi : w.phase i = .consumed p) (hm : (request i).authenticates verify p ≠ true) :
    Moves verify request w (.finish i) (w.setPhase i .refused)
  | fail {i} (hi : w.phase i ≠ .issued) : Moves verify request w (.fail i) (w.setPhase i .refused)
  | expire (key) : Moves verify request w (.expire key) (w.setRedis key none)

theorem Phase.exists_of_isHolding : ∀ {p : Phase}, p.isHolding = true → ∃ v, p = .holding v
  | .holding v, _ => ⟨v, rfl⟩

theorem Phase.exists_of_isConsumed : ∀ {p : Phase}, p.isConsumed = true → ∃ v, p = .consumed v
  | .consumed v, _ => ⟨v, rfl⟩

theorem moves_step {a : Action ι} (hl : Legal w a) :
    Moves verify request w a (step verify request w a) := by
  cases a with
  | challenge api address nonce now =>
    unfold step
    dsimp only
    split_ifs
    · exact .create hl
    · exact .badAddress
  | read i =>
    unfold step
    dsimp only
    split_ifs with hr
    · cases hp : w.redis (request i).key with
      | none => exact .miss hl fun _ => hp
      | some p => exact .hold hl hr hp
    · exact .miss hl fun h => absurd h hr
  | delete i =>
    obtain ⟨p, hp⟩ := Phase.exists_of_isHolding hl
    unfold step
    simp only [hp]
    exact .consume hp
  | finish i =>
    obtain ⟨p, hp⟩ := Phase.exists_of_isConsumed hl
    unfold step
    simp only [hp]
    split_ifs with hm
    · exact .issue hp hm
    · exact .refuse hp hm
  | fail i => exact .fail hl
  | expire key => exact .expire key

/-! ### Where nonces come from -/

/-- The nonce of `i` was created for this address. -/
def CreatedFor (request : ι → Request) (w : World ι) (i : ι) (address : String) : Prop :=
  ((request i).api, (request i).nonce, address) ∈ w.created

/-- What is known of a request from its phase. -/
def PhaseSound (request : ι → Request) (w : World ι) (i : ι) : Phase → Prop
  | .waiting | .refused => True
  | .holding p => CreatedFor request w i p.address
  | .consumed p => CreatedFor request w i p.address ∧ w.redis (request i).key = none
  | .issued => CreatedFor request w i (request i).address ∧ w.redis (request i).key = none

/-- A nonce is created once, is held as it was created, and is gone once it was deleted. -/
structure Sound (request : ι → Request) (w : World ι) : Prop where
  created : ∀ c ∈ w.created, ∀ c' ∈ w.created, c.2.1 = c'.2.1 → c = c'
  redis : ∀ api nonce p, w.redis (nonceKey api nonce) = some p → (api, nonce, p.address) ∈ w.created
  phase : ∀ i, PhaseSound request w i (w.phase i)

omit [DecidableEq ι] in
theorem sound_init : Sound request (World.init : World ι) where
  created := fun _ h => nomatch h
  redis := fun _ _ _ h => nomatch h
  phase := fun _ => trivial

omit [DecidableEq ι] in
theorem PhaseSound.mono {i : ι} {p : Phase} (h : PhaseSound request w i p)
    (hc : w.created ⊆ w'.created)
    (hr : ∀ api nonce address, (api, nonce, address) ∈ w.created →
      w.redis (nonceKey api nonce) = none → w'.redis (nonceKey api nonce) = none) :
    PhaseSound request w' i p := by
  cases p with
  | waiting | refused => trivial
  | holding p => exact hc h
  | consumed p | issued => exact ⟨hc h.1, hr _ _ _ h.1 h.2⟩

theorem phase_setPhase {i j : ι} {p : Phase} :
    (w.setPhase i p).phase j = if j = i then p else w.phase j := Function.update_apply ..

theorem Sound.setPhase (h : Sound request w) {i : ι} {p : Phase} (hp : PhaseSound request w i p) :
    Sound request (w.setPhase i p) := by
  refine ⟨h.created, h.redis, fun j => ?_⟩
  rw [phase_setPhase]
  split_ifs with hj
  · subst hj
    exact hp.mono (List.Subset.refl _) fun _ _ _ _ hr => hr
  · exact (h.phase j).mono (List.Subset.refl _) fun _ _ _ _ hr => hr

omit [DecidableEq ι] in
theorem redis_setRedis {key key' : String} {v : Option Payload} :
    (w.setRedis key v).redis key' = if key' = key then v else w.redis key' :=
  Function.update_apply ..

omit [DecidableEq ι] in
theorem redis_create {api : Api} {address nonce key : String} {now : ℕ} :
    (w.create api address nonce now).redis key =
      if key = nonceKey api nonce then some ⟨address, now⟩ else w.redis key :=
  Function.update_apply ..

omit [DecidableEq ι] in
/-- A key is deleted. -/
theorem Sound.delete (h : Sound request w) (key : String) :
    Sound request (w.setRedis key none) := by
  refine ⟨h.created, fun api nonce p hp => ?_, fun i => ?_⟩
  · rw [redis_setRedis] at hp
    split_ifs at hp
    exact h.redis api nonce p hp
  · refine (h.phase i).mono (List.Subset.refl _) fun api nonce _ _ hr => ?_
    rw [redis_setRedis]
    split_ifs
    · rfl
    · exact hr

omit [DecidableEq ι] in
/-- A new nonce is created. -/
theorem Sound.create (h : Sound request w) {api : Api} {address nonce : String} {now : ℕ}
    (hnew : ∀ c ∈ w.created, c.2.1 ≠ nonce) : Sound request (w.create api address nonce now) := by
  refine ⟨?_, fun api' nonce' p hp => ?_, fun i => ?_⟩
  · intro c hc c' hc' heq
    rcases List.mem_cons.mp hc with rfl | hc <;> rcases List.mem_cons.mp hc' with rfl | hc'
    · rfl
    · exact absurd heq.symm (hnew c' hc')
    · exact absurd heq (hnew c hc)
    · exact h.created c hc c' hc' heq
  · rw [redis_create] at hp
    by_cases hkey : nonceKey api' nonce' = nonceKey api nonce
    · rw [if_pos hkey] at hp
      obtain ⟨rfl, rfl⟩ := nonceKey_inj hkey
      obtain rfl := Option.some.inj hp
      exact List.mem_cons_self
    · rw [if_neg hkey] at hp
      exact List.mem_cons_of_mem _ (h.redis api' nonce' p hp)
  · refine (h.phase i).mono (List.subset_cons_self _ _) fun api' nonce' a ha hr => ?_
    rw [redis_create, if_neg, hr]
    intro hkey
    exact hnew _ ha (nonceKey_inj hkey).2

/-- **The step lemma** of the nonces. -/
theorem Sound.moves (h : Sound request w) {a : Action ι} (hm : Moves verify request w a w') :
    Sound request w' := by
  have hphase : ∀ {i : ι} {p : Phase}, w.phase i = p → PhaseSound request w i p :=
    fun hi => hi ▸ h.phase _
  cases hm with
  | create hnew => exact h.create hnew
  | badAddress => exact h
  | hold hi hr hp => exact h.setPhase (h.redis _ _ _ hp)
  | miss hi hr => exact h.setPhase trivial
  | consume hi =>
    refine (h.delete _).setPhase ⟨hphase hi, ?_⟩
    rw [redis_setRedis, if_pos rfl]
  | @issue i p hi hm =>
    obtain ⟨hc, hr⟩ := hphase hi
    have hm := hm
    unfold Request.authenticates at hm
    rw [Bool.and_eq_true, beq_iff_eq] at hm
    exact h.setPhase ⟨hm.1 ▸ hc, hr⟩
  | refuse hi hm => exact h.setPhase trivial
  | fail hi => exact h.setPhase trivial
  | expire key => exact h.delete key

/-! ### Single use -/

/-- A request in this phase got the nonce and has issued a token, or will unless it fails. -/
def Winning (verify : Api → String → String → String → Bool) (r : Request) : Phase → Prop
  | .holding p | .consumed p => r.authenticates verify p = true
  | .issued => True
  | .waiting | .refused => False

variable (verify request) in
/-- A nonce as a resource of the requests that present it with a valid signature: the first one
takes it with its `DEL`. -/
def nonceUse (api : Api) (nonce : String) : Resource (World ι) (Action ι) ι where
  admitted w i := ((request i).api = api ∧ (request i).nonce = nonce) ∧
    Winning verify (request i) (w.phase i)
  inside w i := ((request i).api = api ∧ (request i).nonce = nonce) ∧
    ∃ p, w.phase i = .holding p ∧ (request i).authenticates verify p = true
  taken w := w.redis (nonceKey api nonce) = none
  admits w a i := ((request i).api = api ∧ (request i).nonce = nonce) ∧ a = .read i ∧
    (request i).wellFormed = true ∧
      ∃ p, w.redis (nonceKey api nonce) = some p ∧ (request i).authenticates verify p = true

/-- A request becomes a winning one by its reading the nonce. -/
theorem winning_moves {a : Action ι} (hm : Moves verify request w a w') {j : ι}
    (h : Winning verify (request j) (w'.phase j)) :
    Winning verify (request j) (w.phase j) ∨ (a = .read j ∧ (request j).wellFormed = true ∧
      ∃ p, w.redis (request j).key = some p ∧ (request j).authenticates verify p = true) := by
  cases hm with
  | create hnew => exact Or.inl h
  | badAddress => exact Or.inl h
  | expire key => exact Or.inl h
  | @hold i p hi hr hp =>
    rw [phase_setPhase] at h
    split_ifs at h with hj
    · subst hj
      exact Or.inr ⟨rfl, hr, p, hp, h⟩
    · exact Or.inl h
  | miss hi hr | refuse hi hm | fail hi =>
    rw [phase_setPhase] at h
    split_ifs at h
    · exact absurd h id
    · exact Or.inl h
  | @consume i p hi =>
    rw [phase_setPhase] at h
    split_ifs at h with hj
    · subst hj
      rw [hi]
      exact Or.inl h
    · exact Or.inl h
  | @issue i p hi hm =>
    rw [phase_setPhase] at h
    split_ifs at h with hj
    · subst hj
      rw [hi]
      exact Or.inl hm
    · exact Or.inl h

/-- A winning request stays one, unless it fails. -/
theorem Winning.moves {a : Action ι} {j : ι} (h : Winning verify (request j) (w.phase j))
    (hm : Moves verify request w a w') (ha : a ≠ .fail j) :
    Winning verify (request j) (w'.phase j) := by
  cases hm with
  | create hnew => exact h
  | badAddress => exact h
  | expire key => exact h
  | hold hi hr hp | miss hi hr =>
    rw [phase_setPhase]
    split_ifs with hj
    · rw [hj, hi] at h
      exact absurd h id
    · exact h
  | consume hi =>
    rw [phase_setPhase]
    split_ifs with hj
    · rw [hj, hi] at h
      exact hj ▸ h
    · exact h
  | issue hi hm =>
    rw [phase_setPhase]
    split_ifs
    · trivial
    · exact h
  | refuse hi hm =>
    rw [phase_setPhase]
    split_ifs with hj
    · rw [hj, hi] at h
      exact absurd h hm
    · exact h
  | fail hi =>
    rw [phase_setPhase, if_neg]
    · exact h
    · rintro rfl
      exact ha rfl

/-- A winning request that is not under way has its token. -/
theorem Winning.issued {r : Request} {ph : Phase} (h : Winning verify r ph)
    (hrest : ∀ p, ph ≠ .holding p ∧ ph ≠ .consumed p) : ph = .issued := by
  cases ph with
  | waiting | refused => exact absurd h id
  | holding p => exact absurd rfl (hrest p).1
  | consumed p => exact absurd rfl (hrest p).2
  | issued => rfl

/-- **A nonce is a resource of the requests that present it.** -/
theorem nonceUse_lawful (api : Api) (nonce : String) :
    (nonceUse verify request api nonce).Lawful (step verify request) Legal (Sound request) where
  inv := by
    intro w a hI hP
    have hm : Moves verify request w a _ := moves_step hP
    exact hI.moves hm
  admitted_step := by
    rintro w a - hP i ⟨⟨rfl, rfl⟩, hi⟩
    rcases winning_moves (moves_step hP) hi with hi | ⟨ha, hr, p, hp, hm⟩
    · exact Or.inl ⟨⟨rfl, rfl⟩, hi⟩
    · exact Or.inr ⟨⟨rfl, rfl⟩, ha, hr, p, hp, hm⟩
  admits_new := by
    rintro w a - hP i ⟨⟨rfl, rfl⟩, rfl, hr, p, hp, hm⟩
    have hw : w.phase i = .waiting := hP
    have hp : w.redis (request i).key = some p := hp
    refine ⟨⟨⟨rfl, rfl⟩, ?_⟩, fun hold => ?_⟩
    · unfold step
      simp only [hr, hp, if_true]
      rw [phase_setPhase, if_pos rfl]
      exact hm
    · have hold := hold.2
      rw [hw] at hold
      exact hold
  admits_one := by
    rintro w a i j ⟨-, rfl, -⟩ ⟨-, ha, -⟩
    cases ha
    rfl
  admits_keeps := by
    rintro w a i - hP ⟨-, rfl, -⟩ j ⟨hk, hj⟩
    exact ⟨hk, hj.moves (moves_step hP) nofun⟩
  inside_admitted := by
    rintro w j - ⟨hk, p, hp, hm⟩
    refine ⟨hk, ?_⟩
    rw [hp]
    exact hm
  left_taken := by
    rintro w j hI ⟨⟨rfl, rfl⟩, hj⟩
    have hs := hI.phase j
    cases hp : w.phase j with
    | waiting | refused => rw [hp] at hj; exact absurd hj id
    | holding p =>
      rw [hp] at hj
      exact Or.inl ⟨⟨rfl, rfl⟩, p, hp, hj⟩
    | consumed p | issued => rw [hp] at hs; exact Or.inr hs.2
  admits_taken := by
    rintro w a i - - ⟨-, -, -, p, hp, -⟩ ht
    rw [show w.redis (nonceKey api nonce) = none from ht] at hp
    cases hp

variable (request) in
/-- Every token goes to the address that its nonce was created for. -/
def ForOwner (w : World ι) : Prop :=
  ∀ i, w.phase i = .issued → CreatedFor request w i (request i).address

variable (request) in
/-- Every nonce leads to at most one token. -/
def SingleUse (w : World ι) : Prop :=
  ∀ i j, w.phase i = .issued → w.phase j = .issued → (request i).nonce = (request j).nonce → i = j

omit [DecidableEq ι] in
theorem Sound.forOwner (h : Sound request w) : ForOwner request w := by
  intro i hi
  have hp := h.phase i
  rw [hi] at hp
  exact hp.1

omit [DecidableEq ι] in
/-- Two tokens for one nonce were issued by the same version. -/
theorem Sound.onceEach (h : Sound request w)
    (hone : ∀ api nonce, (nonceUse verify request api nonce).AtMostOne w) :
    SingleUse request w := by
  intro i j hi hj heq
  refine hone (request i).api (request i).nonce i j ⟨⟨rfl, rfl⟩, by rw [hi]; trivial⟩
    ⟨⟨?_, heq.symm⟩, by rw [hj]; trivial⟩
  have hc := h.created _ (h.forOwner i hi) _ (h.forOwner j hj) heq
  exact (congrArg Prod.fst hc).symm

/-- **Nonces.** In every run a token goes only to the address that its nonce was created for. If a
request with a valid signature gets a nonce only when no other such request has read it and not yet
deleted it, then every nonce leads to at most one token. In a run in which no call fails and that
ends with no request under way this is necessary. -/
theorem singleUse (verify : Api → String → String → String → Bool) (request : ι → Request)
    (l : List (Action ι)) (hl : AllSteps (step verify request) Legal World.init l) :
    AllStates (step verify request) (ForOwner request) World.init l ∧
    ((∀ api nonce, AllSteps (step verify request) (nonceUse verify request api nonce).Alone
        World.init l) →
      AllStates (step verify request) (SingleUse request) World.init l) ∧
    ((∀ i, Action.fail i ∉ l) →
      (∀ i p, (run (step verify request) World.init l).phase i ≠ .holding p ∧
        (run (step verify request) World.init l).phase i ≠ .consumed p) →
      AllStates (step verify request) (SingleUse request) World.init l →
      ∀ api nonce, AllSteps (step verify request) (nonceUse verify request api nonce).Alone
        World.init l) := by
  have hlaws : ∀ api nonce, (nonceUse verify request api nonce).Lawful (step verify request)
      Legal (Sound request) := nonceUse_lawful
  have hexact := fun api nonce =>
    (hlaws api nonce).atMostOne_iff sound_init hl fun i hi => hi.2
  have hsound : AllStates (step verify request) (Sound request) World.init l :=
    allStates_of_inv (fun w a hI hP => (hlaws .v1 "").inv w a hI hP) sound_init hl
  refine ⟨hsound.imp fun w hw => hw.forOwner, fun halone => ?_,
    fun hfail hrest hsingle api nonce => ?_⟩
  · have hone := allStates_forall fun k : Api × String => (hexact k.1 k.2).mpr (halone k.1 k.2)
    exact (hone.and hsound).imp fun w hw => hw.2.onceEach fun api nonce => hw.1 (api, nonce)
  · have hsteps : AllSteps (step verify request) (fun w a => Legal w a ∧ ∀ i, a ≠ .fail i)
        World.init l :=
      hl.and (allSteps_of_forall fun a ha i h => hfail i (h ▸ ha))
    refine (hexact api nonce).mp (Resource.atMostOne_of_last
      (fun w a hI hP => (hlaws api nonce).inv w a hI hP.1) ?_ sound_init hsteps ?_)
    · rintro w a - hP j ⟨hk, hj⟩
      exact ⟨hk, hj.moves (moves_step hP.1) (hP.2 j)⟩
    · intro i j hi hj
      have hissued : ∀ k, (nonceUse verify request api nonce).admitted
          (run (step verify request) World.init l) k →
          (run (step verify request) World.init l).phase k = .issued :=
        fun k hk => hk.2.issued (hrest k)
      exact hsingle.last i j (hissued i hi) (hissued j hj) (hi.1.2.trans hj.1.2.symm)

/-- A signed request for a token that a client sends twice. -/
def tokenRequest (_ : Fin 2) : Request where
  api := .v2
  address := "GDLVVGABQKYQVN6VJP7NHSLEA45A5YLS6PNKMIZFV4BBU2HXA5IRVHUR"
  nonce := "3f1c9a52-7d0e-4b6a-9c1d-5a2f8e7b6c40"
  timestamp := "1760000000000"
  signature :=
    "nIJAhpM9+iz5UrDTJEo1xJcjsZhqkc8XY323Qq5uWnbj6pxrLq+mVbLxF08DYtlILsKgi8NJ7rGppT9Mz+IrBQ=="
  timestampNumber := some 1760000000000
  arrivedAt := 1760000002000

/-- A verification that knows the signature of that request. -/
def knowsToken (api : Api) (address message signature : String) : Bool :=
  api == .v2 && address == (tokenRequest 0).address && message == (tokenRequest 0).message &&
    signature == (tokenRequest 0).signature

/-- The challenge that the request answers. -/
def tokenChallenge : Action (Fin 2) :=
  .challenge .v2 (tokenRequest 0).address (tokenRequest 0).nonce 1760000000000

/-- The second request comes after the first one has deleted the nonce. -/
theorem singleUse_inTurn :
    AllStates (step knowsToken tokenRequest) (SingleUse tokenRequest) World.init
      [tokenChallenge, .read 0, .delete 0, .read 1, .finish 0] := by
  refine (singleUse knowsToken tokenRequest [tokenChallenge, .read 0, .delete 0, .read 1, .finish 0]
    (by decide +kernel)).2.1 fun api nonce => ⟨?_, ?_, ?_, ?_, ?_, trivial⟩
  · rintro i ⟨-, ha, -⟩
    unfold tokenChallenge at ha
    cases ha
  · rintro i ⟨-, -, -, p, hp, -⟩
    have hwaiting : ∀ j, (step knowsToken tokenRequest World.init tokenChallenge).phase j =
      .waiting := by decide +kernel
    refine ⟨fun ht => (nomatch hp.symm.trans ht), ?_⟩
    rintro j ⟨-, q, hq, -⟩
    rw [hwaiting j] at hq
    cases hq
  · rintro i ⟨-, ha, -⟩
    cases ha
  · rintro i ⟨⟨rfl, rfl⟩, ha, -, p, hp, -⟩
    cases ha
    have hgone : (step knowsToken tokenRequest (step knowsToken tokenRequest (step knowsToken
      tokenRequest World.init tokenChallenge) (.read 0)) (.delete 0)).redis
        (tokenRequest 1).key = none := by decide +kernel
    exact nomatch hp.symm.trans hgone
  · rintro i ⟨-, ha, -⟩
    cases ha

/-- Both requests read the nonce before either deletes it. -/
theorem not_singleUse :
    AllSteps (step knowsToken tokenRequest) Legal World.init
      [tokenChallenge, .read 0, .read 1, .delete 0, .delete 1, .finish 0, .finish 1] ∧
    ¬ AllStates (step knowsToken tokenRequest) (SingleUse tokenRequest) World.init
      [tokenChallenge, .read 0, .read 1, .delete 0, .delete 1, .finish 0, .finish 1] := by
  refine ⟨by decide +kernel, fun h => ?_⟩
  exact absurd (h.last 0 1 (by decide +kernel) (by decide +kernel) rfl) (by decide)

end VestingDripStream.Backend.AuthNonces
