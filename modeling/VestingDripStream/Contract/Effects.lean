import VestingDripStream.Contract.EntryPoints

/-! # What the entry points do

One inversion lemma per entry point: what a successful call has checked, what it leaves in the
storages, and what it takes out of the vault. What later modules say of runs is derived from these
lemmas; an entry point is unfolded again only where a call has to succeed or where a token calls
back.

* `vault D env t` is the contract's balance of `t`; `outflow D dst x` is what a payment of `x` to
  `dst` takes out of it, which is nothing if the contract pays itself.
* The entry points that go through `get_schedule` succeed only on a legacy record
  (`isSome_legacy_of_getSchedule`).
* A claim is a sequence of paid streams: `claimLoop_induct` carries a property of the environment
  along it. -/

namespace VestingDripStream.Contract.Effects

open VestingDripStream.Lib.Checked VestingDripStream.Lib.Transaction VestingDripStream.Lib.KeyValue
open VestingDripStream.Contract.Types VestingDripStream.Contract.Storage
open VestingDripStream.Contract.Schedule VestingDripStream.Contract.EntryPoints

/-! ### The vault -/

/-- The contract's balance of a token. -/
def vault (D : Deployment) (env : Env) (token : Address) : ℤ := env.balances token D.contractAddress

/-- What a payment of `amount` to `dst` takes out of the vault. -/
def outflow (D : Deployment) (dst : Address) (amount : ℤ) : ℤ :=
  if dst = D.contractAddress then 0 else amount

theorem outflow_nonneg (D : Deployment) (dst : Address) {x : ℤ} (h : 0 ≤ x) :
    0 ≤ outflow D dst x := by
  unfold outflow; split_ifs <;> omega

theorem outflow_le (D : Deployment) (dst : Address) {x : ℤ} (h : 0 ≤ x) : outflow D dst x ≤ x := by
  unfold outflow; split_ifs <;> omega

/-- Between `env` and `env'` the vault paid `x` of `token`; the storages are as they were. -/
structure Paid (D : Deployment) (env env' : Env) (token : Address) (x : ℤ) : Prop where
  persistent : env'.persistent = env.persistent
  inst : env'.inst = env.inst
  vault : ∀ t, vault D env' t = vault D env t - if t = token then x else 0

theorem Paid.refl (D : Deployment) (env : Env) (token : Address) : Paid D env env token 0 :=
  ⟨rfl, rfl, fun t => by simp⟩

theorem Paid.trans {D : Deployment} {env env' env'' : Env} {token : Address} {x y : ℤ}
    (h : Paid D env env' token x) (h' : Paid D env' env'' token y) :
    Paid D env env'' token (x + y) := by
  refine ⟨h'.persistent.trans h.persistent, h'.inst.trans h.inst, fun t => ?_⟩
  rw [h'.vault, h.vault]
  split_ifs <;> ring

/-- A transfer moves its amount from `src` to `dst` and touches no other balance. -/
theorem transfer_ok {b b' : Balances} {token src dst : Address} {x : ℤ}
    (h : transfer b token src dst x = some b') :
    0 ≤ x ∧ x ≤ b token src ∧ ∀ t a, (b' t a : ℤ) = b t a -
      (if t = token ∧ a = src then x else 0) + (if t = token ∧ a = dst then x else 0) := by
  unfold transfer at h
  split_ifs at h with hx
  simp only [Option.some.injEq] at h
  refine ⟨hx.1, hx.2, fun t a => ?_⟩
  have hxn : (x.toNat : ℤ) = x := Int.toNat_of_nonneg hx.1
  rw [← h]
  by_cases ht : t = token
  · subst ht
    by_cases hd : a = dst
    · subst hd
      by_cases hs : a = src
      · subst hs
        simp only [Function.update_self, true_and, if_true]
        omega
      · simp only [Function.update_self, Function.update_of_ne hs, true_and, if_true, hs, if_false]
        push_cast
        omega
    · by_cases hs : a = src
      · subst hs
        simp only [Function.update_self, Function.update_of_ne hd, true_and, if_true, hd, if_false]
        omega
      · simp only [Function.update_self, Function.update_of_ne hd, Function.update_of_ne hs,
          true_and, hd, hs, if_false]
        omega
  · simp only [Function.update_of_ne ht, ht, false_and, if_false]
    omega

/-! ### The primitive actions -/

section Primitive

variable {D : Deployment} {host : Host} {env env' : Env} {u : Unit}

theorem persist_ok {f : Storage → Storage} : persist f env = .ok (u, env') ↔
    { env with persistent := f env.persistent } = env' := update_ok

theorem configure_ok {f : Storage → Storage} : configure f env = .ok (u, env') ↔
    { env with inst := f env.inst } = env' := update_ok

theorem emit_ok {e : Event} : emit e env = .ok (u, env') ↔
    { env with events := env.events ++ [e] } = env' := update_ok

section Bind

variable {β : Type} {f : Unit → Call β} {r : β × Env}

theorem require_bind_ok {c : Prop} [Decidable c] {e : VestingError} :
    (require c e >>= f) env = .ok r ↔ c ∧ f () env = .ok r := ensure_bind_ok

theorem requireAuth_bind_ok {a : Address} : (requireAuth D host a >>= f) env = .ok r ↔
    (host.auth a = true ∧ a ≠ D.contractAddress) ∧ f () env = .ok r := ensure_bind_ok

theorem persist_bind_ok {g : Storage → Storage} : (persist g >>= f) env = .ok r ↔
    f () { env with persistent := g env.persistent } = .ok r := update_bind_ok

theorem configure_bind_ok {g : Storage → Storage} : (configure g >>= f) env = .ok r ↔
    f () { env with inst := g env.inst } = .ok r := update_bind_ok

theorem emit_bind_ok {e : Event} : (emit e >>= f) env = .ok r ↔
    f () { env with events := env.events ++ [e] } = .ok r := update_bind_ok

theorem readSchedule_bind_ok {a : Address} {f : Option VestingSchedule → Call β} :
    (readSchedule a >>= f) env = .ok r ↔ f (getSchedule env.persistent a).1
      { env with persistent := (getSchedule env.persistent a).2 } = .ok r := Iff.rfl

end Bind

theorem tryTransfer_ok {token src dst : Address} {x : ℤ}
    (h : tryTransfer host token src dst x env = .ok (u, env')) :
    ∃ b, transfer env.balances token src dst x = some b ∧ env' = { env with balances := b } := by
  unfold tryTransfer at h
  split at h
  · next b _ hb =>
    simp only [Except.ok.injEq, Prod.mk.injEq, true_and] at h
    exact ⟨b, hb, h.symm⟩
  · cases h

/-- A transfer that the token accepts and the balance covers. -/
theorem exists_tryTransfer {token src dst : Address} {x : ℤ}
    (hacc : host.accepts token src dst x = true) (h0 : 0 ≤ x) (hx : x ≤ env.balances token src) :
    ∃ b, transfer env.balances token src dst x = some b ∧
      tryTransfer host token src dst x env = .ok ((), { env with balances := b }) := by
  have hb : ∃ b, transfer env.balances token src dst x = some b := by
    unfold transfer
    rw [if_pos ⟨h0, hx⟩]
    exact ⟨_, rfl⟩
  obtain ⟨b, hb⟩ := hb
  refine ⟨b, hb, ?_⟩
  unfold tryTransfer
  rw [hacc, hb]

/-- A payment out of the vault. -/
theorem pay_ok {token dst : Address} {x : ℤ}
    (h : tryTransfer host token D.contractAddress dst x env = .ok (u, env')) :
    0 ≤ x ∧ Paid D env env' token (outflow D dst x) := by
  obtain ⟨b, hb, rfl⟩ := tryTransfer_ok h
  obtain ⟨h0, -, hbal⟩ := transfer_ok hb
  refine ⟨h0, rfl, rfl, fun t => ?_⟩
  have := hbal t D.contractAddress
  unfold vault outflow
  simp only [and_true] at this
  rw [this]
  by_cases ht : t = token
  · by_cases hd : D.contractAddress = dst
    · rw [if_pos ht, if_pos ⟨ht, hd⟩, if_pos ht, if_pos hd.symm]; ring
    · rw [if_pos ht, if_neg (fun h => hd h.2), if_pos ht, if_neg (Ne.symm hd)]; ring
  · rw [if_neg ht, if_neg (fun h => ht h.1), if_neg ht]; ring

/-- The lock is released before the call ends, so it leaves no trace. -/
theorem unlock_lock {st : Storage} (h : (st.lookup .lock).isNone = true) :
    (st.insert .lock true).erase .lock = st := by
  refine Finmap.ext_lookup fun key => ?_
  by_cases hk : key = .lock
  · subst hk
    rw [Finmap.lookup_erase]
    exact (Option.isNone_iff_eq_none.mp h).symm
  · rw [Finmap.lookup_erase_ne hk, Finmap.lookup_insert_of_ne _ hk]

theorem lockedTransfer_ok {token dst : Address} {x : ℤ}
    (h : lockedTransfer D host token dst x env = .ok (u, env')) :
    0 ≤ x ∧ Paid D env env' token (outflow D dst x) := by
  simp only [lockedTransfer, asks_bind_ok, require_bind_ok, configure_bind_ok] at h
  obtain ⟨hlock, h⟩ := h
  obtain ⟨_, e1, hpay, h⟩ := bind_ok.mp h
  rw [configure_ok] at h
  subst h
  obtain ⟨h0, hp⟩ := pay_ok hpay
  refine ⟨h0, hp.persistent, ?_, hp.vault⟩
  show e1.inst.erase .lock = _
  rw [hp.inst]
  exact unlock_lock hlock

/-- An optional payment: none is made for an amount that is not positive. -/
theorem onlyIf_pos_ok {token dst : Address} {x : ℤ} {pay : Call Unit}
    (hpay : ∀ env', pay env = .ok ((), env') → 0 ≤ x ∧ Paid D env env' token (outflow D dst x))
    (h : onlyIf (0 < x) pay env = .ok (u, env')) :
    Paid D env env' token (outflow D dst (max x 0)) := by
  rcases onlyIf_ok.mp h with ⟨hx, h⟩ | ⟨hx, rfl⟩
  · rw [max_eq_left hx.le]
    exact (hpay env' h).2
  · rw [max_eq_right (not_lt.mp hx)]
    have h0 : outflow D dst 0 = 0 := by unfold outflow; simp
    rw [h0]
    exact Paid.refl D env token

end Primitive

/-! ### Creation -/

/-- What `create_vesting_stream` computes on its way. -/
structure CreationReceipt where
  metadata : Option String
  cliffLedger : UInt32
  endLedger : UInt32
  deposit : ℤ
  fee : ℤ
  /-- The storage after `next_stream_id`. -/
  reserved : Storage

/-- The schedule a creation stores. -/
def CreationReceipt.schedule (c : CreationReceipt) (host : Host) (a : CreateArgs) :
    VestingSchedule :=
  newSchedule a c.metadata host.sequence c.cliffLedger c.endLedger

/-- What the creation fee takes out of the vault: nothing if there is no treasury, or if it is the
contract itself. -/
def feeOut (D : Deployment) (inst : Storage) (fee : ℤ) : ℤ :=
  match (getFee inst).2 with
  | some treasury => outflow D treasury fee
  | none => 0

theorem feeOut_nonneg (D : Deployment) (inst : Storage) {fee : ℤ} (h : 0 ≤ fee) :
    0 ≤ feeOut D inst fee := by
  unfold feeOut
  split
  · exact outflow_nonneg D _ h
  · exact le_rfl

/-- A successful creation: its checks, its sums and what it leaves behind. -/
structure Created (D : Deployment) (host : Host) (a : CreateArgs) (env : Env) (id : UInt32)
    (env' : Env) (c : CreationReceipt) : Prop where
  initialized : isInitialized env.inst = true
  rate_pos : 0 < a.rate
  cliff_pos : 0 < a.cliffDuration.toNat
  cliff_lt : a.cliffDuration.toNat < a.totalDuration.toNat
  cliffLedger : c.cliffLedger.toNat = host.sequence.toNat + a.cliffDuration.toNat
  endLedger : c.endLedger.toNat = host.sequence.toNat + a.totalDuration.toNat
  total_fits : InI128 (a.rate * a.totalDuration.toNat)
  deposit : c.deposit = (a.rate * a.totalDuration.toNat).tdiv rateDecimals
  fee : c.fee = (c.deposit * (getFee env.inst).1.toNat).tdiv 10000
  id : nextStreamId env.persistent a.recipient = .ok (id, c.reserved)
  persistent : env'.persistent =
    addSponsorStream (setSchedule c.reserved a.recipient (c.schedule host a)) a.sponsor a.recipient
  inst : env'.inst = env.inst
  vault : ∀ t, vault D env' t = vault D env t +
    if t = a.token then c.deposit - feeOut D env.inst c.fee else 0

section Creation

variable {D : Deployment} {host : Host} {a : CreateArgs} {env env' : Env}

theorem takeStreamId_ok {r : Address} {k : UInt32} (h : takeStreamId r env = .ok (k, env')) :
    ∃ st, nextStreamId env.persistent r = .ok (k, st) ∧ env' = { env with persistent := st } := by
  unfold takeStreamId at h
  split at h
  · next k' st hk =>
    simp only [Except.ok.injEq, Prod.mk.injEq] at h
    obtain ⟨rfl, rfl⟩ := h
    exact ⟨st, hk, rfl⟩
  · cases h

theorem validateCreate_ok {m : Option String} (h : validateCreate D host a env = .ok (m, env')) :
    isInitialized env.inst = true ∧ 0 < a.rate ∧ 0 < a.cliffDuration.toNat ∧
      a.cliffDuration.toNat < a.totalDuration.toNat ∧ a.sponsor ≠ D.contractAddress ∧
      env = env' := by
  simp only [validateCreate, asks_bind_ok, require_bind_ok, compute_bind_ok, requireAuth_bind_ok,
    pure_ok] at h
  obtain ⟨hini, -, hr, -, hc, hlt, -, -, -, -, m', -, ⟨-, hs⟩, -, rfl⟩ := h
  refine ⟨hini, hr, ?_, UInt32.lt_iff_toNat_lt.mp hlt, hs, rfl⟩
  rcases Nat.eq_zero_or_pos a.cliffDuration.toNat with h0 | hpos
  · exact absurd (UInt32.toNat_inj.mp h0) hc
  · exact hpos

theorem collectFee_ok {deposit : ℤ} {u : Unit} (hdep : 0 ≤ deposit)
    (h : collectFee D host a deposit env = .ok (u, env')) :
    Paid D env env' a.token
      (feeOut D env.inst ((deposit * (getFee env.inst).1.toNat).tdiv 10000)) := by
  have hzero : ∀ x, x = 0 → feeOut D env.inst x = 0 := by
    rintro x rfl
    unfold feeOut outflow
    split
    · split_ifs <;> rfl
    · rfl
  simp only [collectFee, asks_bind_ok] at h
  rcases onlyIf_ok.mp h with ⟨hpos, h⟩ | ⟨hpos, rfl⟩
  · simp only [need_bind_ok, compute_bind_ok] at h
    obtain ⟨treasury, htr, fee, hfee, h⟩ := h
    have hout : feeOut D env.inst fee = outflow D treasury fee := by unfold feeOut; rw [htr]
    rw [← protocolFee_ok hfee]
    have hnn := protocolFee_nonneg hfee hdep
    rcases onlyIf_ok.mp h with ⟨-, h'⟩ | ⟨hf, rfl⟩
    · obtain ⟨_, e3, hpay, h'⟩ := bind_ok.mp h'
      rw [emit_ok] at h'
      subst h'
      have hp := (pay_ok hpay).2
      rw [hout]
      exact ⟨hp.persistent, hp.inst, hp.vault⟩
    · rw [hzero fee (by omega)]
      exact Paid.refl D env a.token
  · have h0 : (getFee env.inst).1.toNat = 0 := by
      rw [UInt32.lt_iff_toNat_lt] at hpos
      simpa using hpos
    rw [h0, hzero _ (by simp)]
    exact Paid.refl D env a.token

/-- **What a successful creation does.** -/
theorem createVestingStream_ok {id : UInt32}
    (h : createVestingStream D host a env = .ok (id, env')) :
    ∃ c, Created D host a env id env' c := by
  unfold createVestingStream at h
  obtain ⟨m, e0, hval, h⟩ := bind_ok.mp h
  obtain ⟨hini, hrate, hcpos, hclt, hsp, rfl⟩ := validateCreate_ok hval
  simp only [compute_bind_ok, orOverflow_ok, checkedAdd_eq_some, asks_bind_ok,
    require_bind_ok] at h
  obtain ⟨cliff, hcliff, fin, hfin, -, deposit, hdep, -, h⟩ := h
  obtain ⟨k, e1, hid, h⟩ := bind_ok.mp h
  obtain ⟨_, e2, htr, h⟩ := bind_ok.mp h
  obtain ⟨_, e3, hfee, h⟩ := bind_ok.mp h
  simp only [persist_bind_ok, compute_bind_ok, emit_bind_ok, pure_ok] at h
  obtain ⟨dur, -, announced, -, rfl, rfl⟩ := h
  obtain ⟨reserved, hres, rfl⟩ := takeStreamId_ok hid
  obtain ⟨b, hb, rfl⟩ := tryTransfer_ok htr
  obtain ⟨hd0, -, hbal⟩ := transfer_ok hb
  obtain ⟨hin, hdep⟩ := calculateTotalDeposit_ok hdep
  have hp := collectFee_ok hd0 hfee
  refine ⟨⟨m, cliff, fin, deposit, (deposit * (getFee env.inst).1.toNat).tdiv 10000, reserved⟩,
    { initialized := hini, rate_pos := hrate, cliff_pos := hcpos, cliff_lt := hclt,
      cliffLedger := hcliff, endLedger := hfin, total_fits := hin, deposit := hdep, fee := rfl,
      id := hres, persistent := ?_, inst := hp.inst, vault := fun t => ?_ }⟩
  · show addSponsorStream (setSchedule e3.persistent _ _) _ _ = _
    rw [hp.persistent]
    rfl
  · have hv := hp.vault t
    have hin' : ((b t D.contractAddress : ℕ) : ℤ) =
        vault D env t + if t = a.token then deposit else 0 := by
      rw [hbal t D.contractAddress, if_neg (fun h => hsp h.2.symm)]
      unfold vault
      simp
    show vault D e3 t = _
    rw [hv]
    show ((b t D.contractAddress : ℕ) : ℤ) - _ = _
    rw [hin']
    split_ifs <;> ring

end Creation

/-! ### Claims -/

/-- What a paid claim leaves at `(r, k)`. -/
def afterClaim (st : Storage) (r : Address) (k : UInt32) (rc : ClaimReceipt) : Storage :=
  if rc.finished = true then removeScheduleById st r k else setScheduleById st r k rc.schedule

/-- A paid stream in the loop of `claim_vested`. -/
structure StreamPaid (D : Deployment) (host : Host) (r : Address) (k : UInt32) (env env' : Env)
    (s : VestingSchedule) (rc : ClaimReceipt) : Prop where
  live : scheduleAt env.persistent r k = some s
  receipt : claimSchedule s host.sequence (getFee env.inst).1 = .ok rc
  persistent : env'.persistent = afterClaim env.persistent r k rc
  inst : env'.inst = env.inst
  vault : ∃ x, 0 ≤ x ∧ x ≤ max rc.fee 0 + rc.net ∧
    ∀ t, vault D env' t = vault D env t - if t = s.token then x else 0

section Claim

variable {D : Deployment} {host : Host} {r : Address} {env env' : Env}

theorem payClaim_ok {token : Address} {fee net : ℤ} {u : Unit}
    (h : payClaim D host r token fee net env = .ok (u, env')) :
    ∃ x, 0 ≤ x ∧ x ≤ max fee 0 + net ∧ Paid D env env' token x := by
  simp only [payClaim, asks_bind_ok, require_bind_ok, configure_bind_ok] at h
  obtain ⟨hlock, h⟩ := h
  obtain ⟨_, e3, hfee, h⟩ := bind_ok.mp h
  obtain ⟨_, e4, hnet, h⟩ := bind_ok.mp h
  rw [configure_ok] at h
  subst h
  obtain ⟨hn0, hpn⟩ := pay_ok hnet
  have hunlock : e4.inst = e3.inst → e3.inst = env.inst.insert .lock true →
      e4.inst.erase .lock = env.inst := by
    intro h4 h3
    rw [h4, h3]
    exact unlock_lock hlock
  rcases onlyIf_ok.mp hfee with ⟨hpos, h⟩ | ⟨hpos, rfl⟩
  · rw [need_bind_ok] at h
    obtain ⟨treasury, -, h⟩ := h
    obtain ⟨_, e6, hpay, h⟩ := bind_ok.mp h
    rw [emit_ok] at h
    subst h
    obtain ⟨hf0, hpf⟩ := pay_ok hpay
    have hp := hpf.trans (⟨hpn.persistent, hpn.inst, hpn.vault⟩ : Paid D e6 e4 token _)
    have h1 := outflow_nonneg D treasury hf0
    have h2 := outflow_nonneg D r hn0
    have h3 := outflow_le D treasury hf0
    have h4 := outflow_le D r hn0
    exact ⟨_, add_nonneg h1 h2, by omega, hp.persistent, hunlock hpn.inst hpf.inst, hp.vault⟩
  · have h4 := outflow_le D r hn0
    exact ⟨_, outflow_nonneg D r hn0, by omega, hpn.persistent, hunlock hpn.inst rfl, hpn.vault⟩

theorem storeClaim_ok {k : UInt32} {s : VestingSchedule} {total : ℤ} {u : Unit}
    (h : storeClaim r k s total env = .ok (u, env')) :
    env'.persistent = (if total ≤ s.claimedAmount then removeScheduleById env.persistent r k
      else setScheduleById env.persistent r k s) ∧
      env'.inst = env.inst ∧ env'.balances = env.balances := by
  unfold storeClaim at h
  split_ifs at h with hdone
  · rw [persist_bind_ok, emit_ok] at h
    rw [← h]
    exact ⟨(if_pos hdone).symm, rfl, rfl⟩
  · rw [persist_ok] at h
    rw [← h]
    exact ⟨(if_neg hdone).symm, rfl, rfl⟩

/-- **One turn of the claim loop**: the stream is skipped, or it is paid. -/
theorem claimStream_ok (hD : D.ReadsById) {specific : Bool} {k : UInt32} {amount : ℤ}
    (h : claimStream D host r specific k env = .ok (amount, env')) :
    (amount = 0 ∧ env' = env) ∨ ∃ s rc, StreamPaid D host r k env env' s rc ∧ amount = rc.gross := by
  simp only [claimStream, asks_bind_ok] at h
  cases hs : scheduleAt env.persistent r k with
  | none =>
    simp only [hD env.persistent r k, hs, require_bind_ok, pure_ok] at h
    obtain ⟨-, rfl, rfl⟩ := h
    exact Or.inl ⟨rfl, rfl⟩
  | some s =>
    simp only [hD env.persistent r k, hs, compute_bind_ok] at h
    obtain ⟨acc, hacc, h⟩ := h
    cases acc with
    | skip reason =>
      simp only [require_bind_ok, pure_ok] at h
      obtain ⟨-, rfl, rfl⟩ := h
      exact Or.inl ⟨rfl, rfl⟩
    | due s1 total claimable =>
      simp only [asks_bind_ok, compute_bind_ok] at h
      obtain ⟨⟨fee, net⟩, hfee, h⟩ := h
      obtain ⟨_, e1, hpay, h⟩ := bind_ok.mp h
      rw [compute_bind_ok] at h
      obtain ⟨s2, hset, h⟩ := h
      obtain ⟨_, e2, hstore, h⟩ := bind_ok.mp h
      rw [emit_bind_ok, pure_ok] at h
      obtain ⟨rfl, rfl⟩ := h
      obtain ⟨x, hx0, hx, hp⟩ := payClaim_ok hpay
      obtain ⟨hpers, hinst, hbal⟩ := storeClaim_ok hstore
      have htok : s1.token = s.token := by rw [(accrue_due hacc).2.2.2.2.1]
      have hrc : claimSchedule s host.sequence (getFee env.inst).1 =
          .ok ⟨claimable, fee, net, s2, decide (total ≤ s2.claimedAmount)⟩ := by
        unfold claimSchedule
        simp only [hacc, hfee, hset, bind, Except.bind]
      refine Or.inr ⟨s, _, ⟨hs, hrc, ?_, hinst.trans hp.inst, x, hx0, hx, fun t => ?_⟩, rfl⟩
      · rw [hpers, hp.persistent]
        unfold afterClaim
        simp only [decide_eq_true_eq]
      · rw [← htok, ← hp.vault t]
        unfold vault
        rw [hbal]

/-- **The loop rule**: what every turn preserves, with the total so far, holds after the loop. -/
theorem claimLoop_induct {specific : Bool} {P : ℤ → Env → Prop} :
    ∀ {ids : List UInt32} {acc amount : ℤ} {env env' : Env},
      (∀ k ∈ ids, ∀ acc env x env1, P acc env →
        claimStream D host r specific k env = .ok (x, env1) → P (acc + x) env1) →
      P acc env → claimLoop D host r specific ids acc env = .ok (amount, env') → P amount env'
  | [], acc, amount, env, env', _, h0, h => by
    unfold claimLoop at h
    rw [pure_ok] at h
    obtain ⟨rfl, rfl⟩ := h
    exact h0
  | k :: ids, acc, amount, env, env', hturn, h0, h => by
    unfold claimLoop at h
    obtain ⟨x, e1, hx, h⟩ := bind_ok.mp h
    simp only [compute_bind_ok, orOverflow_ok, checked_eq_some] at h
    obtain ⟨total, ⟨-, rfl⟩, h⟩ := h
    exact claimLoop_induct (fun k hk => hturn k (List.mem_cons_of_mem _ hk))
      (hturn k List.mem_cons_self acc env x e1 h0 hx) h

/-- The loop rule for `claim_vested`: a successful claim has a total other than zero. -/
theorem claimVested_induct {streamId : Option UInt32} {amount : ℤ} {P : ℤ → Env → Prop}
    (h : claimVested D host r streamId env = .ok (amount, env'))
    (hturn : ∀ k, (∀ k', streamId = some k' → k' = k) → ∀ acc env x env1, P acc env →
      claimStream D host r streamId.isSome k env = .ok (x, env1) → P (acc + x) env1)
    (h0 : P 0 env) : P amount env' ∧ amount ≠ 0 := by
  simp only [claimVested, requireAuth_bind_ok, asks_bind_ok, require_bind_ok] at h
  obtain ⟨-, -, h⟩ := h
  obtain ⟨total, e1, hloop, h⟩ := bind_ok.mp h
  rw [require_bind_ok, pure_ok] at h
  obtain ⟨hne, rfl, rfl⟩ := h
  refine ⟨claimLoop_induct (fun k hk => hturn k fun k' hk' => ?_) h0 hloop, hne⟩
  subst hk'
  simpa [eq_comm] using hk

end Claim

/-! ### Terminal operations on a stream id -/

/-- A successful `cancel_stream` or `clawback_stream` on `(r, k)`, which holds `s`. The schedule
that goes is the one under id `0`. -/
structure Terminated (D : Deployment) (sponsor r : Address) (k : UInt32) (env env' : Env)
    (s : VestingSchedule) (bound : ℤ) : Prop where
  live : scheduleAt env.persistent r k = some s
  sponsor_eq : s.sponsor = sponsor
  persistent : env'.persistent =
    removeSponsorStream (removeSchedule env.persistent r) sponsor r
  inst : env'.inst = env.inst
  vault : ∃ x, x ≤ bound ∧ ∀ t, vault D env' t = vault D env t - if t = s.token then x else 0

section Terminal

variable {D : Deployment} {host : Host} {sponsor r : Address} {k : UInt32} {env env' : Env}
  {u : Unit}

theorem cancelStream_ok (hD : D.ReadsById)
    (h : cancelStream D host sponsor r k env = .ok (u, env')) :
    ∃ s share refund, cancelSplit s host.sequence = .ok (share, refund) ∧
      Terminated D sponsor r k env env' s (max share 0 + max refund 0) := by
  simp only [cancelStream, requireAuth_bind_ok, require_bind_ok, asks_bind_ok, need_bind_ok,
    compute_bind_ok] at h
  obtain ⟨-, -, s, hs, hsp, ⟨share, refund⟩, hsplit, h⟩ := h
  obtain ⟨_, e6, hshare, h⟩ := bind_ok.mp h
  obtain ⟨_, e7, hrefund, h⟩ := bind_ok.mp h
  rw [dropStream, persist_bind_ok, emit_ok] at h
  subst h
  rw [hD] at hs
  have hp1 := onlyIf_pos_ok (fun _ => lockedTransfer_ok) hshare
  have hp2 := onlyIf_pos_ok (fun _ => lockedTransfer_ok) hrefund
  have hp := hp1.trans hp2
  have h1 := outflow_le D r (le_max_right share 0)
  have h2 := outflow_le D sponsor (le_max_right refund 0)
  refine ⟨s, share, refund, hsplit, hs, hsp, ?_, hp.inst, _, add_le_add h1 h2, hp.vault⟩
  show removeSponsorStream (removeSchedule e7.persistent r) sponsor r = _
  rw [hp.persistent]

theorem clawbackStream_ok (hD : D.ReadsById) {reason : String}
    (h : clawbackStream D host sponsor r k reason env = .ok (u, env')) :
    ∃ s remaining, clawbackRemaining s = .ok remaining ∧
      Terminated D sponsor r k env env' s (max remaining 0) := by
  simp only [clawbackStream, requireAuth_bind_ok, require_bind_ok, asks_bind_ok, need_bind_ok,
    compute_bind_ok] at h
  obtain ⟨-, s, hs, hsp, -, -, remaining, hrem, h⟩ := h
  obtain ⟨_, e8, hpay, h⟩ := bind_ok.mp h
  rw [dropStream, persist_bind_ok, emit_ok] at h
  subst h
  rw [hD] at hs
  have hp := onlyIf_pos_ok (fun _ => pay_ok) hpay
  refine ⟨s, remaining, hrem, hs, hsp, ?_, hp.inst, _,
    outflow_le D sponsor (le_max_right remaining 0), hp.vault⟩
  show removeSponsorStream (removeSchedule e8.persistent r) sponsor r = _
  rw [hp.persistent]

end Terminal

/-! ### Operations through `get_schedule`

Each of them needs a legacy record of its recipient and touches the streams of no one else. -/

/-- Every stream outside the recipients in `R` is as it was. -/
def SameOutside (R : Set Address) (st st' : Storage) : Prop :=
  ∀ r, r ∉ R → ∀ k, scheduleAt st' r k = scheduleAt st r k

theorem SameOutside.trans {R : Set Address} {st st' st'' : Storage} (h : SameOutside R st st')
    (h' : SameOutside R st' st'') : SameOutside R st st'' :=
  fun r hr k => (h' r hr k).trans (h r hr k)

/-- `get_schedule` changes nothing, or stores the migrated record under id `0`. -/
theorem getSchedule_storage (st : Storage) (r : Address) :
    (getSchedule st r).2 = st ∨ ∃ s, (getSchedule st r).2 = setSchedule st r s ∧
      ∃ s0, legacy st r = some s0 ∧ s = { s0 with schemaVersion := s.schemaVersion } := by
  unfold getSchedule migrateSchedule
  split
  · exact Or.inl rfl
  · next s0 hl =>
    by_cases h : currentSchemaVersion ≤ if s0.schemaVersion = 0 then 1 else s0.schemaVersion
    · rw [if_pos h]
      exact Or.inl rfl
    · rw [if_neg h]
      refine Or.inr ⟨_, rfl, s0, hl, ?_⟩
      split_ifs <;> rfl

section Frame

variable {R : Set Address} (st : Storage) {r : Address} (hr : r ∈ R)
include hr

theorem sameOutside_setScheduleById (k : UInt32) (s : VestingSchedule) :
    SameOutside R st (setScheduleById st r k s) := by
  intro r' hr' k'
  rw [scheduleAt_setScheduleById, if_neg]
  rintro ⟨rfl, -⟩
  exact hr' hr

theorem sameOutside_removeScheduleById (k : UInt32) :
    SameOutside R st (removeScheduleById st r k) := by
  intro r' hr' k'
  rw [scheduleAt_removeScheduleById, if_neg]
  rintro ⟨rfl, -⟩
  exact hr' hr

theorem sameOutside_getSchedule : SameOutside R st (getSchedule st r).2 := by
  rcases getSchedule_storage st r with heq | ⟨s, heq, -⟩
  · rw [heq]
    exact fun _ _ _ => rfl
  · rw [heq]
    exact sameOutside_setScheduleById st hr 0 s

end Frame

section Legacy

variable {D : Deployment} {host : Host} {sponsor r : Address} {env env' : Env} {u : Unit}

/-- What `get_schedule` finds is the legacy record, up to its schema version. -/
theorem getSchedule_some {st : Storage} {s : VestingSchedule}
    (h : (getSchedule st r).1 = some s) :
    ∃ s0, legacy st r = some s0 ∧ s = { s0 with schemaVersion := s.schemaVersion } := by
  unfold getSchedule migrateSchedule at h
  split at h
  · cases h
  · next s0 hl =>
    refine ⟨s0, hl, ?_⟩
    simp only [Option.some.injEq] at h
    split_ifs at h <;> rw [← h] <;> rfl

theorem isSome_legacy_of_getSchedule {st : Storage} {s : VestingSchedule}
    (h : (getSchedule st r).1 = some s) : (legacy st r).isSome = true := by
  obtain ⟨s0, hl, -⟩ := getSchedule_some h
  rw [hl]
  rfl

/-- A successful pause or resumption: the legacy record `s` gives way to `s'`, under id `0`. -/
structure Rewritten (r : Address) (env env' : Env) (s s' : VestingSchedule) : Prop where
  found : (getSchedule env.persistent r).1 = some s
  persistent : env'.persistent = setSchedule (getSchedule env.persistent r).2 r s'
  inst : env'.inst = env.inst
  balances : env'.balances = env.balances

/-- A successful transfer: the legacy record `s` of `r` becomes the stream of `r'`, under id `0`. -/
structure Transferred (r r' : Address) (env env' : Env) (s : VestingSchedule) : Prop where
  ne : r ≠ r'
  found : (getSchedule env.persistent r).1 = some s
  free : hasSchedule (getSchedule env.persistent r).2 r' = false
  persistent : env'.persistent = addSponsorStream (removeSponsorStream
    (setSchedule (removeSchedule (getSchedule env.persistent r).2 r) r' s) s.sponsor r) s.sponsor r'
  inst : env'.inst = env.inst
  balances : env'.balances = env.balances

/-- A successful drain: the legacy record `s` goes, and at most `bound` is paid to its sponsor. -/
structure Drained (D : Deployment) (r : Address) (env env' : Env) (s : VestingSchedule) (bound : ℤ) :
    Prop where
  found : (getSchedule env.persistent r).1 = some s
  persistent : env'.persistent =
    removeSponsorStream (removeSchedule (getSchedule env.persistent r).2 r) s.sponsor r
  inst : env'.inst = env.inst
  vault : ∃ x, x ≤ bound ∧
    ∀ t, vault D env' t = vault D env t - if t = s.token then x else 0

theorem pauseStreamWith_ok {f : VestingSchedule → Address → UInt32 → Except Failure VestingSchedule}
    (h : pauseStreamWith f D host sponsor r env = .ok (u, env')) :
    ∃ s s', f s sponsor host.sequence = .ok s' ∧ Rewritten r env env' s s' := by
  simp only [pauseStreamWith, requireAuth_bind_ok, readSchedule_bind_ok, need_bind_ok,
    compute_bind_ok, persist_bind_ok, emit_ok] at h
  obtain ⟨-, s, hs, s', hf, rfl⟩ := h
  exact ⟨s, s', hf, hs, rfl, rfl, rfl⟩

theorem resumeStreamWith_ok {f : VestingSchedule → Address → UInt32 → Except Failure VestingSchedule}
    (h : resumeStreamWith f D host sponsor r env = .ok (u, env')) :
    ∃ s s', f s sponsor host.sequence = .ok s' ∧ Rewritten r env env' s s' := by
  simp only [resumeStreamWith, requireAuth_bind_ok, readSchedule_bind_ok, need_bind_ok,
    compute_bind_ok, persist_bind_ok, emit_ok] at h
  obtain ⟨-, s, hs, s', hf, rfl⟩ := h
  exact ⟨s, s', hf, hs, rfl, rfl, rfl⟩

theorem transferRecipient_ok {r' : Address}
    (h : transferRecipient D host r r' env = .ok (u, env')) :
    ∃ s, Transferred r r' env env' s := by
  simp only [transferRecipient, requireAuth_bind_ok, require_bind_ok, readSchedule_bind_ok,
    need_bind_ok, asks_bind_ok, persist_bind_ok, emit_ok] at h
  obtain ⟨-, hne, s, hs, hfree, rfl⟩ := h
  exact ⟨s, hne, hs, hfree, rfl, rfl, rfl⟩

theorem drainExpiredStream_ok {caller : Address}
    (h : drainExpiredStream D host caller r env = .ok (u, env')) :
    ∃ s remaining, drainRemaining s host.sequence = .ok remaining ∧
      Drained D r env env' s (max remaining 0) := by
  simp only [drainExpiredStream, readSchedule_bind_ok, need_bind_ok, compute_bind_ok, dropStream,
    persist_bind_ok] at h
  obtain ⟨s, hs, remaining, hrem, h⟩ := h
  obtain ⟨_, e2, hpay, h⟩ := bind_ok.mp h
  rw [emit_ok] at h
  subst h
  have hp := onlyIf_pos_ok (fun _ => pay_ok) hpay
  exact ⟨s, remaining, hrem, hs, hp.persistent, hp.inst, _,
    outflow_le D s.sponsor (le_max_right remaining 0), hp.vault⟩

theorem emergencyDrain_ok (h : emergencyDrain D host sponsor r env = .ok (u, env')) :
    ∃ s amount, emergencyAmount s host.sequence = .ok amount ∧
      Drained D r env env' s (max amount 0) := by
  simp only [emergencyDrain, requireAuth_bind_ok, readSchedule_bind_ok, need_bind_ok,
    require_bind_ok, compute_bind_ok] at h
  obtain ⟨-, s, hs, rfl, amount, hamount, h⟩ := h
  obtain ⟨_, e2, hpay, h⟩ := bind_ok.mp h
  rw [dropStream, persist_bind_ok, emit_ok] at h
  subst h
  have hp := onlyIf_pos_ok (fun _ => pay_ok) hpay
  refine ⟨s, amount, hamount, hs, ?_, hp.inst, _,
    outflow_le D s.sponsor (le_max_right amount 0), hp.vault⟩
  show removeSponsorStream (removeSchedule e2.persistent r) s.sponsor r = _
  rw [hp.persistent]

theorem sameOutside_addSponsorStream (R : Set Address) (st : Storage) (sp r : Address) :
    SameOutside R st (addSponsorStream st sp r) :=
  fun r' _ k' => scheduleAt_addSponsorStream st r r' sp k'

theorem sameOutside_removeSponsorStream (R : Set Address) (st : Storage) (sp r : Address) :
    SameOutside R st (removeSponsorStream st sp r) :=
  fun r' _ k' => scheduleAt_removeSponsorStream st r r' sp k'

section Outside

variable {R : Set Address} {s s' : VestingSchedule} (hr : r ∈ R)
include hr

theorem Rewritten.sameOutside (h : Rewritten r env env' s s') :
    SameOutside R env.persistent env'.persistent := by
  rw [h.persistent]
  exact (sameOutside_getSchedule env.persistent hr).trans (sameOutside_setScheduleById _ hr 0 s')

theorem Transferred.sameOutside {r' : Address} (hr' : r' ∈ R) (h : Transferred r r' env env' s) :
    SameOutside R env.persistent env'.persistent := by
  rw [h.persistent]
  exact ((((sameOutside_getSchedule env.persistent hr).trans
    (sameOutside_removeScheduleById _ hr 0)).trans
    (sameOutside_setScheduleById _ hr' 0 s)).trans
    (sameOutside_removeSponsorStream R _ _ _)).trans (sameOutside_addSponsorStream R _ _ _)

theorem Drained.sameOutside {bound : ℤ} (h : Drained D r env env' s bound) :
    SameOutside R env.persistent env'.persistent := by
  rw [h.persistent]
  exact ((sameOutside_getSchedule env.persistent hr).trans
    (sameOutside_removeScheduleById _ hr 0)).trans (sameOutside_removeSponsorStream R _ _ _)

end Outside

end Legacy

/-! ### The streams afterwards -/

section Streams

variable {D : Deployment} {host : Host} {env env' : Env} {r : Address} {k : UInt32}

theorem scheduleAt_terminated {sponsor r' : Address} {k' : UInt32} {s : VestingSchedule} {bound : ℤ}
    (h : Terminated D sponsor r k env env' s bound) : scheduleAt env'.persistent r' k' =
      if r' = r ∧ k' = 0 then none else scheduleAt env.persistent r' k' := by
  rw [h.persistent, scheduleAt_removeSponsorStream, removeSchedule, scheduleAt_removeScheduleById]

theorem scheduleAt_afterClaim_of_ne (st : Storage) {r' : Address} {k' : UInt32} (rc : ClaimReceipt)
    (h : ¬ (r' = r ∧ k' = k)) : scheduleAt (afterClaim st r k rc) r' k' = scheduleAt st r' k' := by
  unfold afterClaim
  split_ifs
  · rw [scheduleAt_removeScheduleById, if_neg h]
  · rw [scheduleAt_setScheduleById, if_neg h]

theorem sameOutside_claim (hD : D.ReadsById) {streamId : Option UInt32} {amount : ℤ}
    (h : claimVested D host r streamId env = .ok (amount, env')) :
    SameOutside {r} env.persistent env'.persistent := by
  refine (claimVested_induct (P := fun _ e => SameOutside {r} env.persistent e.persistent) h
    (fun k _ acc e x e1 he hx => ?_) fun _ _ _ => rfl).1
  rcases claimStream_ok hD hx with ⟨-, rfl⟩ | ⟨s, rc, hpaid, -⟩
  · exact he
  · intro r' hr' k'
    rw [hpaid.persistent, scheduleAt_afterClaim_of_ne _ _ fun heq => hr' heq.1]
    exact he r' hr' k'

/-- A successful claim pays on a stream that was live before it. -/
theorem exists_live_of_claim (hD : D.ReadsById) {streamId : Option UInt32} {amount : ℤ}
    (h : claimVested D host r streamId env = .ok (amount, env')) :
    ∃ k s, scheduleAt env.persistent r k = some s := by
  by_contra hnone
  -- with no live stream every turn of the loop skips
  have hskip := claimVested_induct (P := fun acc e => acc = 0 ∧ e = env) h
    (fun k _ acc e x e1 he hx => ?_) ⟨rfl, rfl⟩
  · exact hskip.2 hskip.1.1
  · obtain ⟨rfl, rfl⟩ := he
    rcases claimStream_ok hD hx with ⟨rfl, rfl⟩ | ⟨s, rc, hpaid, -⟩
    · exact ⟨by simp, rfl⟩
    · exact absurd ⟨k, s, hpaid.live⟩ hnone

section Created

variable {a : CreateArgs} {id : UInt32} {c : CreationReceipt}

/-- A creation stores its schedule under id `0`, whatever id it returns. -/
theorem scheduleAt_of_created (h : Created D host a env id env' c) (r : Address) (k : UInt32) :
    scheduleAt env'.persistent r k =
      if r = a.recipient ∧ k = 0 then some (c.schedule host a)
      else scheduleAt env.persistent r k := by
  obtain ⟨-, n, -, hres⟩ := nextStreamId_ok _ _ _ h.id
  rw [h.persistent, scheduleAt_addSponsorStream, setSchedule, scheduleAt_setScheduleById, hres,
    scheduleAt_insert_nextStreamId]

theorem scheduleAt_created (h : Created D host a env id env' c) :
    scheduleAt env'.persistent a.recipient 0 = some (c.schedule host a) := by
  rw [scheduleAt_of_created h, if_pos ⟨rfl, rfl⟩]

theorem sameOutside_created (h : Created D host a env id env' c) :
    SameOutside {a.recipient} env.persistent env'.persistent := by
  intro r' hr' k'
  rw [scheduleAt_of_created h, if_neg fun heq => hr' heq.1]

end Created

end Streams

/-! ### Configuration -/

/-- The call touches neither the persistent storage nor the balances. -/
def ConfigOnly {α : Type} (x : Call α) : Prop :=
  ∀ env v env', x env = .ok (v, env') →
    env'.persistent = env.persistent ∧ env'.balances = env.balances

theorem ConfigOnly.bind {α β : Type} {x : Call α} {f : α → Call β} (hx : ConfigOnly x)
    (hf : ∀ v, ConfigOnly (f v)) : ConfigOnly (x >>= f) := by
  intro env v env' h
  obtain ⟨a, e, ha, h⟩ := bind_ok.mp h
  exact ⟨((hf a _ _ _ h).1).trans (hx _ _ _ ha).1, ((hf a _ _ _ h).2).trans (hx _ _ _ ha).2⟩

theorem configOnly_pure {α : Type} (a : α) : ConfigOnly (pure a : Call α) := by
  intro env v env' h
  obtain ⟨-, rfl⟩ := pure_ok.mp h
  exact ⟨rfl, rfl⟩

theorem configOnly_ensure (c : Prop) [Decidable c] (e : Failure) :
    ConfigOnly (ensure c e : Call Unit) := by
  intro env v env' h
  obtain ⟨-, rfl⟩ := ensure_ok.mp h
  exact ⟨rfl, rfl⟩

theorem configOnly_configure (f : Storage → Storage) : ConfigOnly (configure f) := by
  intro env v env' h
  rw [configure_ok] at h
  rw [← h]
  exact ⟨rfl, rfl⟩

theorem configOnly_emit (e : Event) : ConfigOnly (emit e) := by
  intro env v env' h
  rw [emit_ok] at h
  rw [← h]
  exact ⟨rfl, rfl⟩

theorem configOnly_asks {α : Type} (f : Env → α) : ConfigOnly (asks f : Call α) := by
  intro env v env' h
  obtain ⟨-, rfl⟩ := asks_ok.mp h
  exact ⟨rfl, rfl⟩

theorem configOnly_requireAdmin (D : Deployment) (host : Host) (admin : Address) :
    ConfigOnly (requireAdmin D host admin) :=
  (configOnly_ensure _ _).bind fun _ => (configOnly_asks _).bind fun _ => configOnly_ensure _ _

section Config

variable (D : Deployment) (host : Host) (admin : Address)

theorem configOnly_initializeContract (feeBps : UInt32) (treasury : Address) :
    ConfigOnly (initializeContract D host admin feeBps treasury) :=
  (configOnly_asks _).bind fun _ => (configOnly_ensure _ _).bind fun _ =>
    (configOnly_ensure _ _).bind fun _ => (configOnly_ensure _ _).bind fun _ =>
      (configOnly_configure _).bind fun _ => configOnly_emit _

theorem configOnly_transferAdmin (newAdmin : Address) :
    ConfigOnly (transferAdmin D host admin newAdmin) :=
  (configOnly_requireAdmin D host admin).bind fun _ => configOnly_configure _

theorem configOnly_addAllowedToken (token : Address) :
    ConfigOnly (addAllowedToken D host admin token) :=
  (configOnly_requireAdmin D host admin).bind fun _ =>
    (configOnly_configure _).bind fun _ => configOnly_emit _

theorem configOnly_removeAllowedToken (token : Address) :
    ConfigOnly (removeAllowedToken D host admin token) :=
  (configOnly_requireAdmin D host admin).bind fun _ =>
    (configOnly_configure _).bind fun _ => configOnly_emit _

theorem configOnly_setAllowlistLoop (allowed : Bool) (recipients : List Address) :
    ConfigOnly (setAllowlistLoop admin allowed recipients) := by
  induction recipients with
  | nil => exact configOnly_pure _
  | cons r rest ih =>
    exact (configOnly_configure _).bind fun _ => (configOnly_emit _).bind fun _ => ih

theorem configOnly_setAllowlist (recipients : List Address) (allowed : Bool) :
    ConfigOnly (setAllowlist D host admin recipients allowed) :=
  (configOnly_requireAdmin D host admin).bind fun _ => configOnly_setAllowlistLoop admin _ _

theorem configOnly_setAllowlistEnabled (enabled : Bool) :
    ConfigOnly (setAllowlistEnabled D host admin enabled) :=
  (configOnly_requireAdmin D host admin).bind fun _ => configOnly_configure _

theorem configOnly_setFee (feeBps : UInt32) (treasury : Address) :
    ConfigOnly (setFee D host admin feeBps treasury) :=
  (configOnly_requireAdmin D host admin).bind fun _ =>
    (configOnly_ensure _ _).bind fun _ => configOnly_configure _

theorem configOnly_setMinDeposit (minDeposit : ℤ) :
    ConfigOnly (setMinDeposit D host admin minDeposit) :=
  (configOnly_requireAdmin D host admin).bind fun _ =>
    (configOnly_ensure _ _).bind fun _ => configOnly_configure _

theorem configOnly_setConfig (key : String) (value : ℤ) :
    ConfigOnly (setConfig D host admin key value) := by
  refine (configOnly_requireAdmin D host admin).bind fun _ => ?_
  split_ifs
  · exact (configOnly_ensure _ _).bind fun _ => configOnly_configure _
  · exact (configOnly_ensure _ _).bind fun _ => configOnly_configure _
  · exact configOnly_ensure _ _

end Config

end VestingDripStream.Contract.Effects
