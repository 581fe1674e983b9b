import VestingDripStream.Lib.Run

/-! # Sessions

What `tokenHandler` hands out once the signature of the wallet is verified: an access token, signed
by the current key of `keyStore.ts`, and a refresh token kept in Redis, which `refreshHandler`
exchanges for further access tokens. `authMiddleware` accepts an access token by the key that its
header names.

The signatures are symbolic: a token carries the key pair it verifies with. `kid` is the fingerprint
of a key pair, and the pairs that `generateKeyPair` draws are fields of the events.

A run interleaves the requests `ι` with rotations of the keys and restarts of the process; a restart
loses the keys and the requests in progress, and may change the environment. Redis stays. -/

namespace VestingDripStream.Backend.AuthSessions

open VestingDripStream.Lib.Run

/-- The roles that a token can carry. -/
inductive Role
  | admin
  | user
  deriving DecidableEq, Repr

/-- What the process reads from its environment: `accessTtlHours` is `parseInt` of
`AUTH_ACCESS_TOKEN_TTL_H`, `none` for `NaN`; `signingKey` the pair in the two PEM variables. -/
structure Config (K : Type) where
  adminAddresses : List String
  accessTtlHours : Option ℤ
  refreshTtlDays : ℕ
  signingKey : Option K

section Config

variable {K : Type}

/-- `MAX_ACCESS_TTL_H` -/
def maxAccessTtlH : ℤ := 1

/-- `ACCESS_TTL_S` -/
def Config.accessTtlS (c : Config K) : ℤ :=
  min (c.accessTtlHours.getD maxAccessTtlH) maxAccessTtlH * 3600

/-- `REFRESH_TTL_S` -/
def Config.refreshTtlS (c : Config K) : ℕ := c.refreshTtlDays * 86400

/-- `roleFor`: the administrators are listed in the environment. -/
def Config.roleFor (c : Config K) (address : String) : Role :=
  if address ∈ c.adminAddresses then .admin else .user

end Config

/-! ### The key store -/

/-- The pair that signs, and the one before it, whose tokens are still accepted. -/
structure KeyStore (K : Type) where
  currentKey : K
  previousKey : Option K
  deriving DecidableEq

section KeyStore

variable {K : Type} (kid : K → String)

/-- `initKeyStore`: the pair of the environment, or else a generated one. -/
def initKeyStore (c : Config K) (generated : K) : KeyStore K := ⟨c.signingKey.getD generated, none⟩

/-- `rotateKeys`: only one old pair is kept. -/
def rotateKeys (s : KeyStore K) (generated : K) : KeyStore K := ⟨generated, some s.currentKey⟩

/-- `getPublicKeyByKid`. -/
def getPublicKeyByKid (s : KeyStore K) (id : String) : Option K :=
  if kid s.currentKey = id then some s.currentKey else s.previousKey.filter fun k => kid k = id

/-- The keys behind `/.well-known/jwks.json`. -/
def getJwks (s : KeyStore K) : List K := s.currentKey :: s.previousKey.toList

/-- The published keys are those the tokens are checked with. -/
theorem getPublicKeyByKid_eq_find (s : KeyStore K) (id : String) :
    getPublicKeyByKid kid s id = (getJwks s).find? fun k => kid k = id := by
  unfold getPublicKeyByKid getJwks
  rw [List.find?_cons]
  by_cases h : kid s.currentKey = id
  · simp [h]
  · rw [if_neg h]
    cases s.previousKey with
    | none => simp [h]
    | some k => by_cases hk : kid k = id <;> simp [h, hk]

end KeyStore

/-! ### Access tokens -/

/-- A JWT that decodes: the `kid` of its header, the pair its signature verifies with, its claims. -/
structure AccessToken (K : Type) where
  kid : Option String
  signer : K
  sub : String
  role : Option Role
  exp : ℤ
  deriving DecidableEq

/-- The errors of `authMiddleware`. -/
inductive AuthError
  | unauthorized
  | tokenExpired
  deriving DecidableEq, Repr

section Tokens

variable {K : Type} (kid : K → String)

/-- `signAccessToken`; `now` is in milliseconds, and `exp` in seconds. -/
def signAccessToken (c : Config K) (s : KeyStore K) (address : String) (role : Role) (now : ℕ) :
    AccessToken K where
  kid := some (kid s.currentKey)
  signer := s.currentKey
  sub := address
  role := some role
  exp := (now / 1000 : ℕ) + c.accessTtlS

/-- The key that `authMiddleware` verifies with: the one the header names, the current one if it
names none. -/
def verificationKey (s : KeyStore K) (tok : AccessToken K) : Option K :=
  match tok.kid with
  | some id => if id = "" then some s.currentKey else getPublicKeyByKid kid s id
  | none => some s.currentKey

/-- `authMiddleware`, on what the header holds: `none` if it is not a bearer token or does not
decode. -/
def authMiddleware [DecidableEq K] (s : KeyStore K) (now : ℕ) :
    Option (AccessToken K) → Except AuthError (String × Role)
  | none => .error .unauthorized
  | some tok =>
    match verificationKey kid s tok with
    | none => .error .unauthorized
    | some key =>
      if tok.signer ≠ key then .error .unauthorized
      else if tok.exp ≤ (now / 1000 : ℕ) then .error .tokenExpired
      else .ok (tok.sub, tok.role.getD .user)

/-- `requireRole`: the status it answers with, or none if the handler is called. -/
def requireRole (role : Role) : Option (String × Role) → Option ℕ
  | none => some 401
  | some user => if user.2 ≠ role then some 403 else none

/-- A fingerprint tells the keys apart, and is not empty. -/
structure Fingerprint : Prop where
  injective : Function.Injective kid
  nonempty : ∀ k, kid k ≠ ""

variable {kid}

/-- A key is found by its fingerprint exactly if it is in the store. -/
theorem getPublicKeyByKid_self (hkid : Fingerprint kid) {s : KeyStore K} {k : K} :
    getPublicKeyByKid kid s (kid k) = some k ↔ k ∈ getJwks s := by
  rw [getPublicKeyByKid_eq_find]
  constructor
  · exact fun h => List.mem_of_find?_eq_some h
  · intro h
    cases hfind : (getJwks s).find? fun k' => decide (kid k' = kid k) with
    | none =>
      have hnone := List.find?_eq_none.mp hfind k h
      simp at hnone
    | some k' =>
      have heq := List.find?_some hfind
      rw [hkid.injective (of_decide_eq_true heq)]

/-- Whatever is accepted was signed by a key of the store. -/
theorem signer_mem_of_ok [DecidableEq K] {s : KeyStore K} {now : ℕ} {tok : AccessToken K}
    {user : String × Role} (h : authMiddleware kid s now (some tok) = .ok user) :
    tok.signer ∈ getJwks s := by
  unfold authMiddleware at h
  split at h
  · cases h
  · next tok' heq =>
    obtain rfl := Option.some.inj heq
    split at h
    · cases h
    · next key hkey =>
      split_ifs at h with hne
      rw [not_ne_iff.mp hne]
      unfold verificationKey at hkey
      split at hkey
      · split_ifs at hkey
        · exact Option.some.inj hkey ▸ List.mem_cons_self
        · rw [getPublicKeyByKid_eq_find] at hkey
          exact List.mem_of_find?_eq_some hkey
      · exact Option.some.inj hkey ▸ List.mem_cons_self

/-- **When a token of the server is accepted.** -/
theorem authMiddleware_eq_ok [DecidableEq K] (hkid : Fingerprint kid) {s : KeyStore K} {now : ℕ}
    {tok : AccessToken K} {user : String × Role} (hown : tok.kid = some (kid tok.signer)) :
    authMiddleware kid s now (some tok) = .ok user ↔
      tok.signer ∈ getJwks s ∧ ((now / 1000 : ℕ) : ℤ) < tok.exp ∧
        (tok.sub, tok.role.getD .user) = user := by
  have hkey : verificationKey kid s tok = getPublicKeyByKid kid s (kid tok.signer) := by
    unfold verificationKey
    rw [hown]
    exact if_neg (hkid.nonempty _)
  unfold authMiddleware
  simp only [hkey]
  by_cases hmem : tok.signer ∈ getJwks s
  · rw [(getPublicKeyByKid_self hkid).mpr hmem]
    by_cases hexp : tok.exp ≤ ((now / 1000 : ℕ) : ℤ)
    · simp only [ne_eq, not_true_eq_false, if_false, if_pos hexp]
      exact iff_of_false nofun fun h => absurd h.2.1 (not_lt.mpr hexp)
    · simp only [ne_eq, not_true_eq_false, if_false, if_neg hexp, Except.ok.injEq]
      exact ⟨fun h => ⟨hmem, not_le.mp hexp, h⟩, fun h => h.2.2⟩
  · refine iff_of_false (fun h => hmem ?_) fun h => hmem h.1
    cases hfound : getPublicKeyByKid kid s (kid tok.signer) with
    | none => rw [hfound] at h; cases h
    | some key =>
      simp only [hfound] at h
      split_ifs at h with hne
      rw [not_ne_iff.mp hne] at hfound ⊢
      exact (getPublicKeyByKid_self hkid).mp hfound

end Tokens

/-! ### Runs -/

/-- What is stored under a refresh token. -/
structure Refresh where
  address : String
  role : Role
  deriving DecidableEq, Repr

/-- How far a request is. -/
inductive Phase
  | idle
  /-- `tokenHandler` has signed the access token and not stored the refresh token yet. -/
  | signedIn (p : Refresh)
  /-- `refreshHandler` has read the refresh token. -/
  | refreshing (p : Refresh)
  deriving DecidableEq, Repr

/-- The process, Redis and the requests on their way through the handlers. -/
structure World (ι K : Type) where
  config : Config K
  keys : KeyStore K
  /-- The refresh tokens, with the time in milliseconds at which they expire. -/
  redis : String → Option (Refresh × ℕ)
  phase : ι → Phase

/-- What happens next; every `await` of a handler is a point where others go first. -/
inductive Event (ι K : Type)
  /-- The process starts; `generated` is the pair it draws if the environment has none. -/
  | start (c : Config K) (generated : K)
  | rotateKeys (generated : K)
  /-- `tokenHandler` behind the check of the signature, up to the request to store. -/
  | signIn (i : ι) (address : String) (now : ℕ)
  | storeRefresh (i : ι) (refreshToken : String) (now : ℕ)
  | readRefresh (i : ι) (refreshToken : String) (now : ℕ)
  | signRefreshed (i : ι) (now : ℕ)

/-- What Redis answers at `now`. -/
def redisGet (redis : String → Option (Refresh × ℕ)) (key : String) (now : ℕ) : Option Refresh :=
  match redis key with
  | some (p, expiresAt) => if now < expiresAt then some p else none
  | none => none

section Runs

variable {ι K : Type} (kid : K → String)

/-- `SET` with an expiry. -/
def World.setRedis (w : World ι K) (key : String) (v : Refresh × ℕ) : World ι K :=
  { w with redis := Function.update w.redis key (some v) }

variable [DecidableEq ι]

/-- The request `i` goes on to the phase `p`. -/
def World.setPhase (w : World ι K) (i : ι) (p : Phase) : World ι K :=
  { w with phase := Function.update w.phase i p }

/-- One event. A start forgets the keys and the requests, and keeps Redis. -/
def step (w : World ι K) : Event ι K → World ι K
  | .start c generated => ⟨c, initKeyStore c generated, w.redis, fun _ => .idle⟩
  | .rotateKeys generated => { w with keys := rotateKeys w.keys generated }
  | .signIn i address _ => w.setPhase i (.signedIn ⟨address, w.config.roleFor address⟩)
  | .storeRefresh i refreshToken now =>
    match w.phase i with
    | .signedIn p =>
      (w.setPhase i .idle).setRedis refreshToken (p, now + w.config.refreshTtlS * 1000)
    | _ => w
  | .readRefresh i refreshToken now =>
    match redisGet w.redis refreshToken now with
    | some p => w.setPhase i (.refreshing p)
    | none => w.setPhase i .idle
  | .signRefreshed i _ =>
    match w.phase i with
    | .refreshing _ => w.setPhase i .idle
    | _ => w

/-- The access token that a step signs. -/
def issues (w : World ι K) : Event ι K → Option (AccessToken K)
  | .signIn _ address now =>
    some (signAccessToken kid w.config w.keys address (w.config.roleFor address) now)
  | .signRefreshed i now =>
    match w.phase i with
    | .refreshing p => some (signAccessToken kid w.config w.keys p.address p.role now)
    | _ => none
  | _ => none

/-- A process that was just started, over an empty Redis. -/
def boot (c : Config K) (generated : K) : World ι K :=
  ⟨c, initKeyStore c generated, fun _ => none, fun _ => .idle⟩

/-! ### The life of a key -/

/-- What the store is for: a key signs until it is rotated out, and is accepted until the rotation
after that. -/
inductive KeyLife
  | signing
  | grace
  | gone
  deriving DecidableEq, Repr

variable [DecidableEq K]

/-- What a step does to the key `k`: a restart keeps the one of the environment only. -/
def KeyLife.after (k : K) (life : KeyLife) : Event ι K → KeyLife
  | .start c _ => if c.signingKey = some k then .signing else .gone
  | .rotateKeys _ =>
    match life with
    | .signing => .grace
    | .grace | .gone => .gone
  | _ => life

/-- The life of a key that signs, after the events `l`. -/
def keyLife (k : K) (l : List (Event ι K)) : KeyLife := l.foldl (KeyLife.after k) .signing

/-- The key pair that a step generates. -/
def generated : Event ι K → Option K
  | .start c g => if c.signingKey.isSome then none else some g
  | .rotateKeys g => some g
  | _ => none

/-- The place of `k` in the store. -/
def lifeIn (s : KeyStore K) (k : K) : KeyLife :=
  if s.currentKey = k then .signing else if s.previousKey = some k then .grace else .gone

omit [DecidableEq ι] in
theorem mem_getJwks_iff {s : KeyStore K} {k : K} : k ∈ getJwks s ↔ lifeIn s k ≠ .gone := by
  unfold getJwks lifeIn
  rw [List.mem_cons, Option.mem_toList]
  split_ifs with h1 h2
  · simp [h1]
  · simp [h2]
  · simp [Ne.symm h1, h2]

/-- **The store keeps a key for as long as its life says.** -/
theorem lifeIn_step {w : World ι K} {e : Event ι K} {k : K} (hk : generated e ≠ some k) :
    lifeIn (step w e).keys k = (lifeIn w.keys k).after k e := by
  cases e with
  | start c g =>
    show lifeIn (initKeyStore c g) k = if c.signingKey = some k then KeyLife.signing else .gone
    unfold initKeyStore lifeIn
    cases hc : c.signingKey with
    | none =>
      have hg : g ≠ k := by
        rintro rfl
        exact hk (by simp only [generated, hc]; rfl)
      simp [hg]
    | some k' => by_cases heq : k' = k <;> simp [heq]
  | rotateKeys g =>
    have hg : g ≠ k := fun h => hk (congrArg some h)
    show lifeIn (rotateKeys w.keys g) k = (lifeIn w.keys k).after k (.rotateKeys g)
    unfold rotateKeys lifeIn KeyLife.after
    simp only [hg, if_false, Option.some.injEq]
    split_ifs <;> rfl
  | signIn i a t => rfl
  | storeRefresh i rt t =>
    simp only [step]
    split <;> rfl
  | readRefresh i rt t =>
    simp only [step]
    split <;> rfl
  | signRefreshed i t =>
    simp only [step]
    split <;> rfl

theorem lifeIn_run {k : K} : ∀ {l : List (Event ι K)} {w : World ι K},
    (∀ e ∈ l, generated e ≠ some k) →
      lifeIn (run step w l).keys k = l.foldl (KeyLife.after k) (lifeIn w.keys k)
  | [], _, _ => rfl
  | e :: l, w, h => by
    rw [run_cons, lifeIn_run fun e' he' => h e' (List.mem_cons_of_mem _ he'),
      lifeIn_step (h e List.mem_cons_self)]
    rfl

/-! ### Which tokens are accepted -/

/-- The key pair that a restart takes from the environment. -/
def environmentKey : Event ι K → Option K
  | .start c _ => c.signingKey
  | _ => none

/-- The generated keys are new: distinct, none of those the run starts with, none of the
environment's. -/
structure FreshKeys (w : World ι K) (l : List (Event ι K)) : Prop where
  nodup : (l.filterMap generated).Nodup
  unknown : ∀ k ∈ l.filterMap generated, k ∉ getJwks w.keys ∧ k ∉ l.filterMap environmentKey

omit [DecidableEq K] in
theorem mem_getJwks_step {w : World ι K} {e : Event ι K} {k : K}
    (h : k ∈ getJwks (step w e).keys) :
    k ∈ getJwks w.keys ∨ generated e = some k ∨ environmentKey e = some k := by
  cases e with
  | start c g =>
    refine Or.inr ?_
    have hk : k = c.signingKey.getD g := by simpa [step, initKeyStore, getJwks] using h
    simp only [generated, environmentKey]
    cases hc : c.signingKey with
    | none => exact Or.inl (by rw [hk, hc]; rfl)
    | some k' => exact Or.inr (by rw [hk, hc]; rfl)
  | rotateKeys g =>
    have hk : k = g ∨ k = w.keys.currentKey := by simpa [step, rotateKeys, getJwks] using h
    rcases hk with rfl | rfl
    · exact Or.inr (Or.inl rfl)
    · exact Or.inl List.mem_cons_self
  | signIn i a t => exact Or.inl h
  | storeRefresh i rt t =>
    simp only [step] at h
    split at h <;> exact Or.inl h
  | readRefresh i rt t =>
    simp only [step] at h
    split at h <;> exact Or.inl h
  | signRefreshed i t =>
    simp only [step] at h
    split at h <;> exact Or.inl h

omit [DecidableEq K] in
/-- Where a key of the store comes from. -/
theorem mem_getJwks_run {k : K} : ∀ {l : List (Event ι K)} {w : World ι K},
    k ∈ getJwks (run step w l).keys →
      k ∈ getJwks w.keys ∨ k ∈ l.filterMap generated ∨ k ∈ l.filterMap environmentKey
  | [], _, h => Or.inl h
  | e :: l, w, h => by
    simp only [List.mem_filterMap, List.mem_cons, exists_eq_or_imp]
    rcases mem_getJwks_run (l := l) (w := step w e) h with hw | hg | he
    · rcases mem_getJwks_step hw with hw | hg | he
      · exact Or.inl hw
      · exact Or.inr (Or.inl (Or.inl hg))
      · exact Or.inr (Or.inr (Or.inl he))
    · exact Or.inr (Or.inl (Or.inr (List.mem_filterMap.mp hg)))
    · exact Or.inr (Or.inr (Or.inr (List.mem_filterMap.mp he)))

omit [DecidableEq K] in
/-- A key that signs is not generated again. -/
theorem FreshKeys.not_again {w : World ι K} {pre post : List (Event ι K)} {e : Event ι K}
    (h : FreshKeys w (pre ++ e :: post)) {k : K} (hk : k ∈ getJwks (run step w pre).keys) :
    ∀ e' ∈ post, generated e' ≠ some k := by
  intro e' he' hgen
  have hpost : k ∈ (e :: post).filterMap generated :=
    List.mem_filterMap.mpr ⟨e', List.mem_cons_of_mem _ he', hgen⟩
  have hall : k ∈ (pre ++ e :: post).filterMap generated := by
    rw [List.filterMap_append]
    exact List.mem_append_right _ hpost
  obtain ⟨hw, henv⟩ := h.unknown k hall
  rcases mem_getJwks_run hk with hold | hpre | hpreEnv
  · exact hw hold
  · have hnodup := h.nodup
    rw [List.filterMap_append] at hnodup
    exact (List.nodup_append.mp hnodup).2.2 k hpre k hpost rfl
  · rw [List.filterMap_append] at henv
    exact henv (List.mem_append_left _ hpreEnv)

variable {kid}

omit [DecidableEq ι] [DecidableEq K] in
/-- What the server signs, it signs with its current key. -/
theorem issues_signed {w : World ι K} {e : Event ι K} {tok : AccessToken K}
    (h : issues kid w e = some tok) : tok.kid = some (kid tok.signer) ∧
      tok.signer = w.keys.currentKey ∧ tok.role.isSome = true := by
  cases e with
  | signIn i a t => cases h; exact ⟨rfl, rfl, rfl⟩
  | signRefreshed i t =>
    simp only [issues] at h
    split at h
    · cases h; exact ⟨rfl, rfl, rfl⟩
    · cases h
  | _ => cases h

omit [DecidableEq K] in
theorem issues_keys {w : World ι K} {e : Event ι K} {tok : AccessToken K}
    (h : issues kid w e = some tok) : (step w e).keys = w.keys := by
  cases e with
  | signIn i a t => rfl
  | signRefreshed i t =>
    simp only [step]
    split <;> rfl
  | _ => cases h

/-- **Which tokens are accepted.** In every run with new keys, a token that nobody forged is accepted
exactly if the server signed it in the run, it has not expired, and its key has been rotated at most
once since and was not lost in a restart. -/
theorem accepted_iff (hkid : Fingerprint kid) {w : World ι K} {l : List (Event ι K)}
    (hfresh : FreshKeys w l) {tok : AccessToken K}
    (hsigned : tok.signer ∈ getJwks (run step w l).keys →
      ∃ pre e post, l = pre ++ e :: post ∧ issues kid (run step w pre) e = some tok)
    (now : ℕ) (address : String) (role : Role) :
    authMiddleware kid (run step w l).keys now (some tok) = .ok (address, role) ↔
      ∃ pre e post, l = pre ++ e :: post ∧ issues kid (run step w pre) e = some tok ∧
        tok.sub = address ∧ tok.role = some role ∧ ((now / 1000 : ℕ) : ℤ) < tok.exp ∧
          keyLife tok.signer post ≠ .gone := by
  -- the life of the key from the moment the token was signed
  have hlife : ∀ pre e post, l = pre ++ e :: post → issues kid (run step w pre) e = some tok →
      (tok.signer ∈ getJwks (run step w l).keys ↔ keyLife tok.signer post ≠ .gone) := by
    rintro pre e post rfl hissue
    obtain ⟨-, hsigner, -⟩ := issues_signed hissue
    have hcur : tok.signer ∈ getJwks (run step w pre).keys := by
      rw [hsigner]
      exact List.mem_cons_self
    rw [mem_getJwks_iff, run_append, run_cons, lifeIn_run (hfresh.not_again hcur),
      issues_keys hissue]
    have hsigning : lifeIn (run step w pre).keys tok.signer = .signing := if_pos hsigner.symm
    rw [hsigning]
    rfl
  have hrole : ∀ {pre e}, issues kid (run step w pre) e = some tok →
      (tok.role.getD .user = role ↔ tok.role = some role) := by
    intro pre e hissue
    obtain ⟨r, hr⟩ := Option.isSome_iff_exists.mp (issues_signed hissue).2.2
    rw [hr]
    simp
  constructor
  · intro h
    have hmem := signer_mem_of_ok h
    obtain ⟨pre, e, post, hl, hissue⟩ := hsigned hmem
    obtain ⟨-, hexp, huser⟩ := (authMiddleware_eq_ok hkid (issues_signed hissue).1).mp h
    obtain ⟨hsub, hr⟩ := Prod.mk.inj huser
    exact ⟨pre, e, post, hl, hissue, hsub, (hrole hissue).mp hr, hexp,
      (hlife pre e post hl hissue).mp hmem⟩
  · rintro ⟨pre, e, post, hl, hissue, hsub, hr, hexp, hkey⟩
    refine (authMiddleware_eq_ok hkid (issues_signed hissue).1).mpr
      ⟨(hlife pre e post hl hissue).mpr hkey, hexp, ?_⟩
    rw [hsub, (hrole hissue).mpr hr]

/-! ### Where a role comes from -/

/-- The step signs the address of `p` in, with the role that the configuration gives it. -/
def SignsIn (p : Refresh) (w : World ι K) (e : Event ι K) : Prop :=
  ∃ i now, e = .signIn i p.address now ∧ w.config.roleFor p.address = p.role

/-- A step of `l` signed the address of `p` in, with its role. -/
def SignedIn (w0 : World ι K) (l : List (Event ι K)) (p : Refresh) : Prop :=
  ∃ pre e post, l = pre ++ e :: post ∧ SignsIn p (run step w0 pre) e

/-- What requests and Redis hold after `l` goes back to sign-ins. -/
structure Backed (w0 : World ι K) (l : List (Event ι K)) : Prop where
  phase : ∀ i p, (run step w0 l).phase i = .signedIn p ∨ (run step w0 l).phase i = .refreshing p →
    SignedIn w0 l p
  redis : ∀ rt p t, (run step w0 l).redis rt = some (p, t) → SignedIn w0 l p

omit [DecidableEq K] in
theorem phase_setPhase {w : World ι K} {i j : ι} {ph : Phase} :
    (w.setPhase i ph).phase j = if j = i then ph else w.phase j := by
  show Function.update w.phase i ph j = _
  rw [Function.update_apply]

omit [DecidableEq ι] [DecidableEq K] in
theorem redis_setRedis {w : World ι K} {key key' : String} {v : Refresh × ℕ} :
    (w.setRedis key v).redis key' = if key' = key then some v else w.redis key' := by
  show Function.update w.redis key (some v) key' = _
  rw [Function.update_apply]

theorem redisGet_some {redis : String → Option (Refresh × ℕ)} {key : String} {now : ℕ} {p : Refresh} :
    redisGet redis key now = some p ↔ ∃ t, redis key = some (p, t) ∧ now < t := by
  unfold redisGet
  cases redis key with
  | none => simp
  | some q =>
    obtain ⟨p', t⟩ := q
    by_cases h : now < t <;> simp [h]

variable {w0 : World ι K} {l : List (Event ι K)} {e : Event ι K} {p : Refresh}

omit [DecidableEq K] in
theorem SignedIn.concat (h : SignedIn w0 l p) : SignedIn w0 (l ++ [e]) p := by
  obtain ⟨pre, e', post, rfl, he'⟩ := h
  exact ⟨pre, e', post ++ [e], by simp, he'⟩

omit [DecidableEq K] in
theorem signedIn_last (h : SignsIn p (run step w0 l) e) : SignedIn w0 (l ++ [e]) p :=
  ⟨l, e, [], rfl, h⟩

omit [DecidableEq K] in
/-- What a step leaves in the phases and in Redis was there, or goes back to the step. -/
theorem Backed.concat (h : Backed w0 l) (e : Event ι K) : Backed w0 (l ++ [e]) := by
  have hphase := fun j p hp => (h.phase j p hp).concat (e := e)
  have hredis := fun rt p t hp => (h.redis rt p t hp).concat (e := e)
  have hrun : run step w0 (l ++ [e]) = step (run step w0 l) e := run_append ..
  -- a request that becomes idle holds nothing
  have hidle : ∀ (i j : ι) (p : Refresh), ((run step w0 l).setPhase i .idle).phase j = .signedIn p ∨
      ((run step w0 l).setPhase i .idle).phase j = .refreshing p → SignedIn w0 (l ++ [e]) p := by
    intro i j p hp
    rw [phase_setPhase] at hp
    split_ifs at hp with hj
    · rcases hp with hp | hp <;> cases hp
    · exact hphase j p hp
  cases e with
  | start c g =>
    refine ⟨fun i p hp => ?_, fun rt p t hp => hredis rt p t (by rwa [hrun] at hp)⟩
    rw [hrun] at hp
    rcases hp with hp | hp <;> cases hp
  | rotateKeys g =>
    refine ⟨fun i p hp => hphase i p (by rwa [hrun] at hp),
      fun rt p t hp => hredis rt p t (by rwa [hrun] at hp)⟩
  | signIn i a now =>
    refine ⟨fun j p hp => ?_, fun rt p t hp => hredis rt p t (by rwa [hrun] at hp)⟩
    rw [hrun] at hp
    simp only [step, phase_setPhase] at hp
    split_ifs at hp with hj
    · rcases hp with hp | hp
      · cases hp
        exact signedIn_last ⟨i, now, rfl, rfl⟩
      · cases hp
    · exact hphase j p hp
  | storeRefresh i rt now =>
    have hstep : step (run step w0 l) (.storeRefresh i rt now) = run step w0 l ∨
        ∃ p, (run step w0 l).phase i = .signedIn p ∧ step (run step w0 l) (.storeRefresh i rt now) =
          ((run step w0 l).setPhase i .idle).setRedis rt
            (p, now + (run step w0 l).config.refreshTtlS * 1000) := by
      simp only [step]
      split
      · next p hp => exact Or.inr ⟨p, hp, rfl⟩
      · exact Or.inl rfl
    rcases hstep with heq | ⟨p0, hp0, heq⟩
    · rw [← hrun] at heq
      exact ⟨fun j p hp => hphase j p (by rwa [heq] at hp),
        fun rt p t hp => hredis rt p t (by rwa [heq] at hp)⟩
    · rw [← hrun] at heq
      refine ⟨fun j p hp => hidle i j p (by rwa [heq] at hp), fun rt' p t hp => ?_⟩
      rw [heq, redis_setRedis] at hp
      split_ifs at hp with hrt
      · rw [Option.some.injEq, Prod.mk.injEq] at hp
        exact hphase i p (Or.inl (hp.1 ▸ hp0))
      · exact hredis rt' p t hp
  | readRefresh i rt now =>
    have hsame : (step (run step w0 l) (.readRefresh i rt now)).redis = (run step w0 l).redis := by
      simp only [step]
      split <;> rfl
    refine ⟨fun j p hp => ?_, fun rt p t hp => hredis rt p t (by rwa [hrun, hsame] at hp)⟩
    rw [hrun] at hp
    simp only [step] at hp
    split at hp
    · next p0 hread =>
      rw [phase_setPhase] at hp
      split_ifs at hp with hj
      · rcases hp with hp | hp
        · cases hp
        · cases hp
          obtain ⟨t, hrt, -⟩ := redisGet_some.mp hread
          exact hredis rt _ t hrt
      · exact hphase j p hp
    · exact hidle i j p hp
  | signRefreshed i now =>
    have hsame : (step (run step w0 l) (.signRefreshed i now)).redis = (run step w0 l).redis := by
      simp only [step]
      split <;> rfl
    refine ⟨fun j p hp => ?_, fun rt p t hp => hredis rt p t (by rwa [hrun, hsame] at hp)⟩
    rw [hrun] at hp
    simp only [step] at hp
    split at hp
    · exact hidle i j p hp
    · exact hphase j p hp

omit [DecidableEq K] in
theorem backed_run (c : Config K) (g : K) (l : List (Event ι K)) : Backed (boot c g) l := by
  induction l using List.reverseRecOn with
  | nil =>
    refine ⟨fun i p hp => ?_, fun rt p t hp => ?_⟩
    · rcases hp with hp | hp <;> cases hp
    · cases hp
  | append_singleton l e ih => exact ih.concat e

omit [DecidableEq K] in
/-- What is stored under a refresh token stays until another value is stored under it. -/
theorem redis_run {rt : String} : ∀ {l : List (Event ι K)} {w : World ι K},
    (∀ i now, .storeRefresh i rt now ∉ l) → (run step w l).redis rt = w.redis rt
  | [], _, _ => rfl
  | e :: l, w, h => by
    rw [run_cons, redis_run fun i now hmem => h i now (List.mem_cons_of_mem _ hmem)]
    cases e with
    | storeRefresh i rt' now =>
      have hrt : rt ≠ rt' := by
        rintro rfl
        exact h i now List.mem_cons_self
      simp only [step]
      split
      · rw [redis_setRedis, if_neg hrt]
        rfl
      · rfl
    | readRefresh i rt' now =>
      simp only [step]
      split <;> rfl
    | signRefreshed i now =>
      simp only [step]
      split <;> rfl
    | _ => rfl

omit [DecidableEq K] in
variable (kid) in
/-- **Roles are decided at sign-in.** In every run from a start, whoever gets a token of some role
signed in while the configuration gave them this role; and the refresh token of a sign-in is worth
that role until it expires, whatever keys, restarts and configurations come in between. -/
theorem session_role (c : Config K) (g : K) (l : List (Event ι K)) :
    (∀ e tok, issues kid (run step (boot c g) l) e = some tok →
      ∃ pre i now post, l ++ [e] = pre ++ .signIn i tok.sub now :: post ∧
        tok.role = some ((run step (boot c g) pre).config.roleFor tok.sub)) ∧
    ∀ i p rt now post, (run step (boot c g) l).phase i = .signedIn p →
      (∀ j now', .storeRefresh j rt now' ∉ post) → ∀ t,
        redisGet (run step (boot c g) (l ++ .storeRefresh i rt now :: post)).redis rt t =
          if t < now + (run step (boot c g) l).config.refreshTtlS * 1000 then some p else none := by
  constructor
  · intro e tok h
    cases e with
    | signIn i a now =>
      cases h
      exact ⟨l, i, now, [], rfl, rfl⟩
    | signRefreshed i now =>
      simp only [issues] at h
      split at h
      · next p hp =>
        cases h
        obtain ⟨pre, e, post, rfl, j, now', rfl, hrole⟩ :=
          (backed_run c g l).phase i p (Or.inr hp)
        exact ⟨pre, j, now', post ++ [.signRefreshed i now], by simp [signAccessToken],
          congrArg some hrole.symm⟩
      · cases h
    | _ => cases h
  · intro i p rt now post hp hpost t
    rw [run_append, run_cons]
    unfold redisGet
    rw [redis_run hpost]
    simp only [step, hp, redis_setRedis, if_true]

end Runs

/-! ### A sample run -/

/-- Key pairs named by numbers, and a fingerprint for them. -/
def sampleKid (k : ℕ) : String := String.ofList (List.replicate (k + 1) 'k')

theorem sampleKid_fingerprint : Fingerprint sampleKid where
  injective a b h := by
    have hlen := congrArg List.length (String.ofList_injective h)
    simpa using hlen
  nonempty k h := by
    have hlen := congrArg (fun s : String => s.toList.length) h
    simp [sampleKid] at hlen

/-- The administrator is `"A"`, and the environment has no key. -/
def sampleConfig : Config ℕ := ⟨["A"], none, 30, none⟩

/-- `"A"` signs in, and the keys are rotated. -/
def sampleRun : List (Event ℕ ℕ) := [.signIn 0 "A" 5000, .rotateKeys 1]

/-- A token of an administrator, signed five seconds after the epoch. -/
def sampleToken : AccessToken ℕ := signAccessToken sampleKid sampleConfig ⟨0, none⟩ "A" .admin 5000

theorem accepted_iff_sample :
    authMiddleware sampleKid (run step (boot sampleConfig 0) sampleRun).keys 3604000
      (some sampleToken) = .ok ("A", .admin) :=
  (accepted_iff sampleKid_fingerprint (w := boot sampleConfig 0) (l := sampleRun)
    ⟨by decide, by decide⟩ (fun _ => ⟨[], _, _, rfl, rfl⟩) 3604000 "A" .admin).mpr
    ⟨[], _, _, rfl, rfl, rfl, rfl, by decide, by decide⟩

theorem session_role_sample : redisGet (run step (boot sampleConfig 0)
    ([.signIn 0 "A" 5000] ++ .storeRefresh 0 "R" 5000 :: [.start ⟨[], none, 30, none⟩ 1])).redis "R"
      6000 = some ⟨"A", .admin⟩ :=
  ((session_role sampleKid sampleConfig 0 ([.signIn 0 "A" 5000] : List (Event ℕ ℕ))).2 0
    ⟨"A", .admin⟩ "R" 5000 [.start ⟨[], none, 30, none⟩ 1] rfl (by simp) 6000).trans (by decide)

end VestingDripStream.Backend.AuthSessions
