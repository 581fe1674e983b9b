import VestingDripStream.Contract.Reentrant

/-! # What the reentrancy lock protects

`claim_vested` and `cancel_stream` hold a lock during their transfers and test it, `clawback_stream`
does neither. So a token may have a stream clawed back while the same stream is claimed, cancelled
or clawed back: it is paid twice, and a claim stores the schedule again that it read before
(`safe_clawback_false`). Everything else is safe: `safe_of_calm`.

The proof follows one payment. `Inv F` is the invariant of the books while the payments `F` are
under way, with nothing said about what was paid to their recipients. `Respects F` is what a payment
can rely on while the token is at work: the lock stays as it is, nothing is paid on behalf of its
stream, and the slot of a claim stays as it is. `Flight` is the state of one payment between its
transfers. -/

namespace VestingDripStream.Contract.Reentrancy

open VestingDripStream.Lib.Checked VestingDripStream.Lib.Transaction
open VestingDripStream.Contract.Types VestingDripStream.Contract.Storage
open VestingDripStream.Contract.Schedule VestingDripStream.Contract.EntryPoints
open VestingDripStream.Contract.Effects VestingDripStream.Contract.Requests
open VestingDripStream.Contract.VariableRate VestingDripStream.Contract.AllRequests
open VestingDripStream.Contract.Reentrant

/-! ### Sound schedules -/

/-- A schedule that pays at a positive rate, has not been paid to its end, and counts as claimed
what was due up to the last claim. -/
structure Sound (s : VestingSchedule) : Prop where
  rate_pos : 0 < s.ratePerLedger
  start_le_last : s.startLedger.toNat ≤ s.lastClaimedLedger.toNat
  last_lt_end : s.lastClaimedLedger.toNat < s.endLedger.toNat
  claimed : s.claimedAmount =
    s.ratePerLedger * ((s.lastClaimedLedger.toNat : ℤ) - s.startLedger.toNat)

section Sound

variable {s : VestingSchedule} {current feeBps : UInt32}

theorem Sound.owed_eq (h : Sound s) :
    s.owed = s.ratePerLedger * ((s.endLedger.toNat : ℤ) - s.lastClaimedLedger.toNat) := by
  unfold VestingSchedule.owed VestingSchedule.total
  rw [h.claimed]
  ring

theorem Sound.owed_pos (h : Sound s) : 0 < s.owed := by
  have hlt := h.last_lt_end
  rw [h.owed_eq]
  exact mul_pos h.rate_pos (by omega)

/-- A paid claim pays a positive part of what is owed, and leaves a sound schedule unless it pays
all of it. -/
theorem Sound.claim (h : Sound s) {rc : ClaimReceipt}
    (hrc : claimSchedule s current feeBps = .ok rc) :
    0 < rc.gross ∧ rc.gross ≤ s.owed ∧
      (rc.finished = false → Sound rc.schedule ∧ rc.schedule.total = s.total ∧
        rc.schedule.claimedAmount = s.claimedAmount + rc.gross) := by
  obtain ⟨-, -, hne, -, -, hdue, -, hsched, hfin⟩ := claimSchedule_ok hrc
  have hpos := h.owed_pos
  have howed : s.owed = s.total - s.claimedAmount := rfl
  obtain ⟨-, -, -, -, ⟨-, hgross⟩ | ⟨hlt, hle, hgross⟩⟩ := dueAmount_ok hdue
  · -- after the end all of it is paid
    refine ⟨by omega, by omega, fun hopen => ?_⟩
    have hdone := hfin.mpr (by omega)
    rw [hopen] at hdone
    cases hdone
  · have hrate := h.rate_pos
    have hstart := h.start_le_last
    have hnn : 0 ≤ rc.gross := by
      rw [hgross]
      exact mul_nonneg hrate.le (by omega)
    have hrest : rc.gross ≤ s.owed := by
      rw [hgross, h.owed_eq]
      exact mul_le_mul_of_nonneg_left (by omega) hrate.le
    refine ⟨by omega, hrest, fun _ => ⟨⟨?_, ?_, ?_, ?_⟩, ?_, ?_⟩⟩
    · rw [hsched]
      exact hrate
    · rw [hsched]
      simp only [toNat_min]
      omega
    · rw [hsched]
      simp only [toNat_min]
      omega
    · have hlast : ((min current s.endLedger).toNat : ℤ) = current.toNat := by
        rw [toNat_min]
        omega
      rw [hsched]
      simp only [hlast]
      rw [h.claimed, hgross]
      ring
    · rw [hsched]
      rfl
    · rw [hsched]

/-- A cancellation pays what is owed, in two parts. -/
theorem Sound.cancel (h : Sound s) {share refund : ℤ}
    (hsplit : cancelSplit s current = .ok (share, refund)) :
    0 ≤ share ∧ 0 ≤ refund ∧ share + refund = s.owed := by
  have hrate := h.rate_pos
  have hpos := h.owed_pos
  obtain ⟨-, ⟨-, hle, hshare, hrefund⟩ | ⟨-, hshare, hrefund⟩⟩ := cancelSplit_ok hsplit
  · have hnn : 0 ≤ share := by
      rw [hshare]
      exact mul_nonneg hrate.le (by omega)
    have hrest : share ≤ s.owed := by
      rw [hshare, h.owed_eq]
      exact mul_le_mul_of_nonneg_left (by omega) hrate.le
    omega
  · omega

theorem Sound.clawback (h : Sound s) {remaining : ℤ}
    (hrem : clawbackRemaining s = .ok remaining) : remaining = s.owed := by
  rw [(clawbackRemaining_ok hrem).2, h.owed_eq]

/-- A new schedule is sound. -/
theorem sound_newSchedule (a : CreateArgs) (m : Option String) {start cliff fin : UInt32}
    (hrate : 0 < a.rate) (hdur : 0 < a.totalDuration.toNat)
    (hfin : fin.toNat = start.toNat + a.totalDuration.toNat) :
    Sound (newSchedule a m start cliff fin) ∧
      (newSchedule a m start cliff fin).total = a.rate * a.totalDuration.toNat := by
  refine ⟨⟨hrate, le_rfl, ?_, ?_⟩, ?_⟩
  · show start.toNat < fin.toNat
    omega
  · show (0 : ℤ) = a.rate * ((start.toNat : ℤ) - start.toNat)
    ring
  · show a.rate * ((fin.toNat : ℤ) - start.toNat) = _
    rw [hfin]
    push_cast
    ring

end Sound

/-! ### The books while payments are under way -/

/-- A payment to `r` is under way. -/
def Busy (F : List Pending) (r : Address) : Prop := ∃ p ∈ F, p.recipient = r

/-- Claims and cancellations under way hold the lock. -/
def Locked (F : List Pending) (w : World) : Prop :=
  (∃ p ∈ F, p.kind ≠ .clawback) → (w.env.inst.lookup .lock).isSome = true

/-- The stream `n` is stored under `(r, k)`, with the schedule `s`. -/
structure Holds (w : World) (r : Address) (k : UInt32) (n : ℕ) (s : VestingSchedule) : Prop where
  owner : w.owner r k = some n
  stored : scheduleAt w.env.persistent r k = some s

/-- The books agree with a stored stream. -/
structure StreamOk (w : World) (n : ℕ) (s : VestingSchedule) : Prop where
  known : n < w.next
  here : (w.account n).gone = false
  sound : Sound s
  total : (w.account n).total = s.total

/-- **The invariant of the books**, while the payments `F` are under way. -/
structure Inv (F : List Pending) (w : World) : Prop where
  flat : Flat w.env.persistent
  owned : ∀ r k, (w.owner r k).isSome = (scheduleAt w.env.persistent r k).isSome
  single : ∀ r k r' k' n, w.owner r k = some n → w.owner r' k' = some n → r = r' ∧ k = k'
  streams : ∀ r k n s, Holds w r k n s → StreamOk w n s
  paid : ∀ r k n s, Holds w r k n s → ¬ Busy F r → (w.account n).out ≤ s.claimedAmount
  bounded : ∀ n < w.next, (w.account n).out ≤ (w.account n).total

/-- What the payments `F` rely on while something else happens. -/
structure Respects (F : List Pending) (w w' : World) : Prop where
  lock : w'.env.inst.lookup .lock = w.env.inst.lookup .lock
  next_le : w.next ≤ w'.next
  /-- A stream that takes a place is a new one. -/
  origin : ∀ r k n, w'.owner r k = some n → w.owner r k = some n ∨ w.next ≤ n
  /-- Nothing is paid on behalf of a stream that is stored for no one but a busy recipient. -/
  accounts : ∀ n < w.next, (∀ r k, w.owner r k = some n → Busy F r) →
    (w'.account n).out = (w.account n).out
  totals : ∀ n < w.next, (w'.account n).total = (w.account n).total
  /-- The slot of a claim stays as it is. -/
  claims : ∀ r, ⟨.claim, r⟩ ∈ F → ∀ k, w'.owner r k = w.owner r k ∧
    scheduleAt w'.env.persistent r k = scheduleAt w.env.persistent r k

/-- A token that the payments `F` can rely on. -/
def Polite (F : List Pending) (token : Token) : Prop :=
  ∀ v, Locked F v → Inv F v → Inv F (token v) ∧ Respects F v (token v)

section Books

variable {F F' : List Pending} {w w' w'' : World} {r : Address} {k : UInt32} {n : ℕ}
  {s : VestingSchedule}

theorem Busy.mono (hF : ∀ p ∈ F, p ∈ F') (h : Busy F r) : Busy F' r := by
  obtain ⟨p, hp, hr⟩ := h
  exact ⟨p, hF p hp, hr⟩

theorem busy_cons {p : Pending} : Busy (p :: F) r ↔ p.recipient = r ∨ Busy F r := by
  simp [Busy]

theorem Respects.refl (F : List Pending) (w : World) : Respects F w w :=
  ⟨rfl, le_rfl, fun _ _ _ => Or.inl, fun _ _ _ => rfl, fun _ _ => rfl, fun _ _ _ => ⟨rfl, rfl⟩⟩

/-- A stream that is stored for busy recipients only stays so. -/
theorem Respects.still_busy (h : Respects F w w') (hn : n < w.next)
    (hbusy : ∀ r k, w.owner r k = some n → Busy F r) :
    ∀ r k, w'.owner r k = some n → Busy F r := by
  intro r k hr
  rcases h.origin r k n hr with hold | hnew
  · exact hbusy r k hold
  · omega

theorem Respects.trans (h : Respects F w w') (h' : Respects F w' w'') : Respects F w w'' where
  lock := h'.lock.trans h.lock
  next_le := h.next_le.trans h'.next_le
  origin r k n hr := by
    rcases h'.origin r k n hr with hmid | hnew
    · exact h.origin r k n hmid
    · exact Or.inr (h.next_le.trans hnew)
  accounts n hn hbusy := by
    rw [h'.accounts n (lt_of_lt_of_le hn h.next_le) (h.still_busy hn hbusy), h.accounts n hn hbusy]
  totals n hn := by
    rw [h'.totals n (lt_of_lt_of_le hn h.next_le), h.totals n hn]
  claims r hr k :=
    ⟨(h'.claims r hr k).1.trans (h.claims r hr k).1, (h'.claims r hr k).2.trans (h.claims r hr k).2⟩

theorem Locked.of_respects (h : Respects F w w') (hl : Locked F w) : Locked F w' := by
  intro hp
  rw [h.lock]
  exact hl hp

theorem Inv.holds_of_stored (h : Inv F w) (hs : scheduleAt w.env.persistent r k = some s) :
    ∃ n, Holds w r k n s := by
  have hsome : (w.owner r k).isSome = true := by
    rw [h.owned, hs]
    rfl
  obtain ⟨n, hn⟩ := Option.isSome_iff_exists.mp hsome
  exact ⟨n, hn, hs⟩

theorem Inv.holds_of_owner (h : Inv F w) (hn : w.owner r k = some n) : ∃ s, Holds w r k n s := by
  have hsome : (scheduleAt w.env.persistent r k).isSome = true := by
    rw [← h.owned, hn]
    rfl
  obtain ⟨s, hs⟩ := Option.isSome_iff_exists.mp hsome
  exact ⟨s, hn, hs⟩

theorem Inv.known (h : Inv F w) (hn : w.owner r k = some n) : n < w.next := by
  obtain ⟨s, hs⟩ := h.holds_of_owner hn
  exact (h.streams r k n s hs).known

/-- Every stream is stored under id `0`. -/
theorem Inv.zero_of_stored (h : Inv F w) (hs : scheduleAt w.env.persistent r k = some s) :
    k = 0 := by
  rcases zero_or_byId_of_scheduleAt hs with h0 | hk
  · exact h0
  · exact h.flat.ids r k hk

theorem Inv.mono (hF : ∀ p ∈ F, p ∈ F') (h : Inv F w) : Inv F' w :=
  { h with paid := fun r k n s hs hbusy => h.paid r k n s hs fun hb => hbusy (hb.mono hF) }

/-- Changes of the environment that concern neither the fixed-rate streams nor the lock. -/
theorem Inv.of_env (h : Inv F w) {env : Env} (hflat : Flat env.persistent)
    (hstreams : ∀ r k, scheduleAt env.persistent r k = scheduleAt w.env.persistent r k) :
    Inv F { w with env } where
  flat := hflat
  owned r k := by
    show (w.owner r k).isSome = (scheduleAt env.persistent r k).isSome
    rw [hstreams]
    exact h.owned r k
  single := h.single
  streams r k n s hs := by
    obtain ⟨h1, h2, h3, h4⟩ := h.streams r k n s ⟨hs.owner, (hstreams r k) ▸ hs.stored⟩
    exact ⟨h1, h2, h3, h4⟩
  paid r k n s hs := h.paid r k n s ⟨hs.owner, (hstreams r k) ▸ hs.stored⟩
  bounded := h.bounded

theorem respects_of_env {env : Env}
    (hlock : env.inst.lookup .lock = w.env.inst.lookup .lock)
    (hstreams : ∀ r k, scheduleAt env.persistent r k = scheduleAt w.env.persistent r k) :
    Respects F w { w with env } :=
  ⟨hlock, le_rfl, fun _ _ _ => Or.inl, fun _ _ _ => rfl, fun _ _ => rfl,
    fun r _ k => ⟨rfl, hstreams r k⟩⟩

end Books

/-! ### Taking a place -/

/-- The stream `o` with the schedule `os` may take its place under `(r, 0)`. -/
inductive Fits (w : World) (r : Address) : Option ℕ → Option VestingSchedule → Prop
  | empty : Fits w r none none
  | stream {n : ℕ} {s : VestingSchedule}
      (only : ∀ r' k', w.owner r' k' = some n → r' = r ∧ k' = 0) (ok : StreamOk w n s)
      (paid : (w.account n).out ≤ s.claimedAmount) : Fits w r (some n) (some s)

section Place

variable {F F' : List Pending} {w : World} {r : Address} {k : UInt32} {o : Option ℕ}
  {os : Option VestingSchedule} {m : ℕ} {s : VestingSchedule}

@[simp]
theorem out_place : ((w.place r k o).account m).out = (w.account m).out := by
  show Account.out (if _ then _ else _) = _
  split_ifs <;> rfl

@[simp]
theorem total_place : ((w.place r k o).account m).total = (w.account m).total := by
  show Account.total (if _ then _ else _) = _
  split_ifs <;> rfl

/-- The accounts of the other streams stay as they are. -/
theorem account_place (h : w.owner r k = some m → o = some m) :
    (w.place r k o).account m = w.account m :=
  if_neg fun hold => hold.2 (h hold.1)

/-- What is stored afterwards has just taken its place, or was there. -/
theorem holds_place (hfits : Fits w r o os) {env : Env}
    (hstreams : ∀ r' k', scheduleAt env.persistent r' k' =
      if r' = r ∧ k' = 0 then os else scheduleAt w.env.persistent r' k') {r' : Address}
    {k' : UInt32} (h : Holds { w.place r 0 o with env } r' k' m s) :
    ((r' = r ∧ k' = 0) ∧ o = some m ∧ StreamOk w m s ∧ (w.account m).out ≤ s.claimedAmount) ∨
      (¬ (r' = r ∧ k' = 0) ∧ Holds w r' k' m s) := by
  have howner : (if r' = r ∧ k' = 0 then o else w.owner r' k') = some m := h.owner
  have hstored : scheduleAt env.persistent r' k' = some s := h.stored
  rw [hstreams] at hstored
  by_cases heq : r' = r ∧ k' = 0
  · rw [if_pos heq] at howner hstored
    cases hfits with
    | empty => cases howner
    | stream _ ok paid =>
      cases howner
      cases hstored
      exact Or.inl ⟨heq, rfl, ok, paid⟩
  · rw [if_neg heq] at howner hstored
    exact Or.inr ⟨heq, howner, hstored⟩

/-- **The books after a stream has taken its place.** -/
theorem Inv.place (h : Inv F' w) (hfits : Fits w r o os)
    (hF : ∀ r', Busy F' r' → r' = r ∨ Busy F r') {env : Env} (hflat : Flat env.persistent)
    (hstreams : ∀ r' k', scheduleAt env.persistent r' k' =
      if r' = r ∧ k' = 0 then os else scheduleAt w.env.persistent r' k') :
    Inv F { w.place r 0 o with env } := by
  have howner : ∀ r' k', (w.place r 0 o).owner r' k' =
      if r' = r ∧ k' = 0 then o else w.owner r' k' := fun _ _ => rfl
  have honly : ∀ n, o = some n → ∀ r' k', w.owner r' k' = some n → r' = r ∧ k' = 0 := by
    intro n hn
    cases hfits with
    | empty => cases hn
    | stream only _ _ =>
      cases hn
      exact only
  -- a stream that was elsewhere is not the one that loses its place
  have hsame : ∀ r' k' m, ¬ (r' = r ∧ k' = 0) → w.owner r' k' = some m →
      (w.place r 0 o).account m = w.account m := by
    intro r' k' m hne hm
    exact account_place fun hold => absurd (h.single r' k' r 0 m hm hold) hne
  refine ⟨hflat, fun r' k' => ?_, fun r1 k1 r2 k2 m h1 h2 => ?_, fun r' k' m s hs => ?_,
    fun r' k' m s hs hbusy => ?_, fun m hm => ?_⟩
  · show ((w.place r 0 o).owner r' k').isSome = (scheduleAt env.persistent r' k').isSome
    rw [howner, hstreams]
    split_ifs
    · cases hfits <;> rfl
    · exact h.owned r' k'
  · change (w.place r 0 o).owner r1 k1 = some m at h1
    change (w.place r 0 o).owner r2 k2 = some m at h2
    rw [howner] at h1 h2
    split_ifs at h1 h2 with heq1 heq2 heq2
    · exact ⟨heq1.1.trans heq2.1.symm, heq1.2.trans heq2.2.symm⟩
    · exact absurd (honly m h1 r2 k2 h2) heq2
    · exact absurd (honly m h2 r1 k1 h1) heq1
    · exact h.single r1 k1 r2 k2 m h1 h2
  · rcases holds_place hfits hstreams hs with ⟨-, ho, hok, -⟩ | ⟨hne, hold⟩
    · obtain ⟨h1, h2, h3, h4⟩ := hok
      have hacc : (w.place r 0 o).account m = w.account m := account_place fun _ => ho
      exact ⟨h1, (congrArg Account.gone hacc).trans h2, h3, (congrArg Account.total hacc).trans h4⟩
    · obtain ⟨h1, h2, h3, h4⟩ := h.streams r' k' m s hold
      have hacc := hsame r' k' m hne hold.owner
      exact ⟨h1, (congrArg Account.gone hacc).trans h2, h3, (congrArg Account.total hacc).trans h4⟩
  · refine le_of_eq_of_le out_place ?_
    rcases holds_place hfits hstreams hs with ⟨-, -, -, hpaid⟩ | ⟨hne, hold⟩
    · exact hpaid
    · refine h.paid r' k' m s hold fun hb => ?_
      rcases hF r' hb with hr | hb
      · exact hne ⟨hr, h.zero_of_stored hold.stored⟩
      · exact hbusy hb
  · refine (le_of_eq_of_le out_place ?_).trans_eq total_place.symm
    exact h.bounded m hm

end Place

/-! ### One payment -/

section Spend

variable {w : World} {o : Option ℕ} {n m : ℕ} {y : ℤ}

theorem gone_spend : ((w.spend o y).account m).gone = (w.account m).gone := by
  show Account.gone (if _ then _ else _) = _
  split_ifs <;> rfl

theorem total_spend : ((w.spend o y).account m).total = (w.account m).total := by
  show Account.total (if _ then _ else _) = _
  split_ifs <;> rfl

theorem out_spend : ((w.spend (some n) y).account m).out =
    (w.account m).out + if m = n then y else 0 := by
  show Account.out (if some n = some m then _ else _) = _
  by_cases hm : m = n
  · rw [if_pos (by rw [hm]), if_pos hm]
  · rw [if_neg (by simpa using Ne.symm hm), if_neg hm, add_zero]

end Spend

/-- The payment `p` on behalf of the stream `n` is under way since `w0`, and `x` has been paid. -/
structure Flight (F : List Pending) (p : Pending) (n : ℕ) (w0 : World) (x : ℤ) (w : World) :
    Prop where
  inv : Inv (p :: F) w
  next_le : w0.next ≤ w.next
  origin : ∀ r k m, w.owner r k = some m → w0.owner r k = some m ∨ w0.next ≤ m
  out : (w.account n).out = (w0.account n).out + x
  accounts : ∀ m < w0.next, m ≠ n → (∀ r k, w0.owner r k = some m → Busy F r) →
    (w.account m).out = (w0.account m).out
  totals : ∀ m < w0.next, (w.account m).total = (w0.account m).total
  claims : ∀ r, ⟨.claim, r⟩ ∈ p :: F → ∀ k, w.owner r k = w0.owner r k ∧
    scheduleAt w.env.persistent r k = scheduleAt w0.env.persistent r k

section Flight

variable {F : List Pending} {p : Pending} {n : ℕ} {w0 w w' : World} {x : ℤ} {token : Token}

theorem flight_start (h : Inv F w0) : Flight F p n w0 0 w0 where
  inv := h.mono fun _ hq => List.mem_cons_of_mem _ hq
  next_le := le_rfl
  origin _ _ _ := Or.inl
  out := (add_zero _).symm
  accounts _ _ _ _ := rfl
  totals _ _ := rfl
  claims _ _ _ := ⟨rfl, rfl⟩

/-- Changes of the environment outside the persistent storage. -/
theorem Flight.of_env (h : Flight F p n w0 x w) {env : Env}
    (hp : env.persistent = w.env.persistent) : Flight F p n w0 x { w with env } where
  inv := h.inv.of_env (by rw [hp]; exact h.inv.flat) fun r k => by rw [hp]
  next_le := h.next_le
  origin := h.origin
  out := h.out
  accounts := h.accounts
  totals := h.totals
  claims r hr k := by
    show _ ∧ scheduleAt env.persistent r k = _
    rw [hp]
    exact h.claims r hr k

/-- The stream stays with its recipient, or is stored nowhere. -/
theorem Flight.owner_eq (h : Flight F p n w0 x w) (h0 : Inv F w0)
    (hn : w0.owner p.recipient 0 = some n) {r : Address} {k : UInt32}
    (hr : w.owner r k = some n) : r = p.recipient ∧ k = 0 := by
  rcases h.origin r k n hr with hold | hnew
  · exact h0.single r k p.recipient 0 n hold hn
  · have := h0.known hn
    omega

/-- **The token at work.** -/
theorem Flight.call (h : Flight F p n w0 x w) (h0 : Inv F w0)
    (hn : w0.owner p.recipient 0 = some n) (htoken : Polite (p :: F) token)
    (hlocked : Locked (p :: F) w) :
    Flight F p n w0 x (token w) ∧
      (token w).env.inst.lookup .lock = w.env.inst.lookup .lock := by
  obtain ⟨hinv, hres⟩ := htoken w hlocked h.inv
  have hnext := h0.known hn
  have hbusy : ∀ r k, w.owner r k = some n → Busy (p :: F) r := by
    intro r k hr
    rw [(h.owner_eq h0 hn hr).1]
    exact busy_cons.mpr (Or.inl rfl)
  refine ⟨⟨hinv, h.next_le.trans hres.next_le, fun r k m hr => ?_, ?_, fun m hm hne hfree => ?_,
    fun m hm => ?_, fun r hr k => ?_⟩, hres.lock⟩
  · rcases hres.origin r k m hr with hmid | hnew
    · exact h.origin r k m hmid
    · exact Or.inr (h.next_le.trans hnew)
  · rw [hres.accounts n (lt_of_lt_of_le hnext h.next_le) hbusy]
    exact h.out
  · -- another stream of a busy recipient
    have hbusy' : ∀ r k, w.owner r k = some m → Busy (p :: F) r := by
      intro r k hr
      rcases h.origin r k m hr with hold | hnew
      · exact busy_cons.mpr (Or.inr (hfree r k hold))
      · omega
    rw [hres.accounts m (lt_of_lt_of_le hm h.next_le) hbusy']
    exact h.accounts m hm hne hfree
  · rw [hres.totals m (lt_of_lt_of_le hm h.next_le)]
    exact h.totals m hm
  · exact ⟨(hres.claims r hr k).1.trans (h.claims r hr k).1,
      (hres.claims r hr k).2.trans (h.claims r hr k).2⟩

/-- Entering an amount that does not exceed the total of the stream. -/
theorem Flight.spend (h : Flight F p n w0 x w) (h0 : Inv F w0)
    (hn : w0.owner p.recipient 0 = some n) {y : ℤ}
    (hbound : (w0.account n).out + x + y ≤ (w0.account n).total) :
    Flight F p n w0 (x + y) (w.spend (some n) y) := by
  have hout := h.out
  have htotal := h.totals n (h0.known hn)
  refine
    { inv :=
        { flat := h.inv.flat, owned := h.inv.owned, single := h.inv.single
          streams := fun r k m s hs => ?_, paid := fun r k m s hs hbusy => ?_
          bounded := fun m hm => ?_ }
      next_le := h.next_le, origin := h.origin, out := ?_, accounts := fun m hm hne hfree => ?_
      totals := fun m hm => ?_, claims := h.claims }
  · obtain ⟨h1, h2, h3, h4⟩ := h.inv.streams r k m s ⟨hs.owner, hs.stored⟩
    exact ⟨h1, gone_spend.trans h2, h3, total_spend.trans h4⟩
  · -- the stream of the payment belongs to a busy recipient
    have hm : m ≠ n := by
      rintro rfl
      obtain ⟨rfl, -⟩ := h.owner_eq h0 hn hs.owner
      exact hbusy (busy_cons.mpr (Or.inl rfl))
    rw [out_spend, if_neg hm, add_zero]
    exact h.inv.paid r k m s ⟨hs.owner, hs.stored⟩ hbusy
  · have hold := h.inv.bounded m hm
    rw [out_spend, total_spend]
    split_ifs with hmn
    · subst hmn
      omega
    · omega
  · rw [out_spend, if_pos rfl]
    omega
  · rw [out_spend, if_neg hne, add_zero]
    exact h.accounts m hm hne hfree
  · exact total_spend.trans (h.totals m hm)

/-- **The end of a payment**: the slot of the recipient is emptied, or the stream is stored again
where it still is. -/
theorem Flight.finish (h : Flight F p n w0 x w)
    (hn : w0.owner p.recipient 0 = some n) (hfree : ¬ Busy F p.recipient) {env : Env}
    {o : Option ℕ} {os : Option VestingSchedule} (hfits : Fits w p.recipient o os)
    (hback : ∀ m, o = some m → w.owner p.recipient 0 = some m)
    (hlock : env.inst.lookup .lock = w0.env.inst.lookup .lock) (hflat : Flat env.persistent)
    (hstreams : ∀ r k, scheduleAt env.persistent r k =
      if r = p.recipient ∧ k = 0 then os else scheduleAt w.env.persistent r k) :
    Inv F { w.place p.recipient 0 o with env } ∧
      Respects F w0 { w.place p.recipient 0 o with env } := by
  have howner : ∀ r k, (w.place p.recipient 0 o).owner r k =
      if r = p.recipient ∧ k = 0 then o else w.owner r k := fun _ _ => rfl
  refine ⟨h.inv.place hfits (fun r hb => ?_) hflat hstreams,
    hlock, h.next_le, fun r k m hm => ?_, fun m hm hbusy => ?_, fun m hm => ?_, fun r hr k => ?_⟩
  · exact (busy_cons.mp hb).imp_left Eq.symm
  · change (w.place p.recipient 0 o).owner r k = some m at hm
    rw [howner] at hm
    split_ifs at hm with heq
    · refine h.origin r k m ?_
      rw [heq.1, heq.2]
      exact hback m hm
    · exact h.origin r k m hm
  · refine out_place.trans (h.accounts m hm ?_ hbusy)
    rintro rfl
    exact hfree (hbusy _ _ hn)
  · exact total_place.trans (h.totals m hm)
  · have hne : ¬ (r = p.recipient ∧ k = 0) := fun heq => hfree ⟨_, hr, heq.1⟩
    have hsame := h.claims r (List.mem_cons_of_mem _ hr) k
    refine ⟨?_, ?_⟩
    · show (w.place p.recipient 0 o).owner r k = _
      rw [howner, if_neg hne]
      exact hsame.1
    · show scheduleAt env.persistent r k = _
      rw [hstreams, if_neg hne]
      exact hsame.2

end Flight

/-! ### The transfers of a payment -/

section Pay

variable {D : Deployment} {host : Host} {F : List Pending} {p : Pending} {n : ℕ} {w0 w w' : World}
  {x y : ℤ} {token : Token} {asset dst : Address} {u : Unit}

theorem inEnv_ok {α : Type} {f : Call α} {a : α} : inEnv f w = .ok (a, w') ↔
    ∃ env, f w.env = .ok (a, env) ∧ { w with env } = w' := zoom_ok

section Bind

variable {β : Type} {f : Unit → WorldCall β} {res : β × World}

theorem inEnv_requireAuth_bind_ok {a : Address} :
    (inEnv (requireAuth D host a) >>= f) w = .ok res ↔
      (host.auth a = true ∧ a ≠ D.contractAddress) ∧ f () w = .ok res := by
  constructor
  · intro h
    obtain ⟨_, w1, h1, h⟩ := bind_ok.mp h
    obtain ⟨env, hauth, rfl⟩ := inEnv_ok.mp h1
    obtain ⟨hc, rfl⟩ := ensure_ok.mp hauth
    exact ⟨hc, h⟩
  · rintro ⟨hc, h⟩
    exact bind_ok.mpr ⟨(), w, inEnv_ok.mpr ⟨w.env, ensure_ok.mpr ⟨hc, rfl⟩, rfl⟩, h⟩

theorem inEnv_configure_bind_ok {g : Storage → Storage} :
    (inEnv (configure g) >>= f) w = .ok res ↔
      f () { w with env := { w.env with inst := g w.env.inst } } = .ok res := Iff.rfl

theorem inEnv_emit_bind_ok {e : Event} : (inEnv (emit e) >>= f) w = .ok res ↔
    f () { w with env := { w.env with events := w.env.events ++ [e] } } = .ok res := Iff.rfl

end Bind

theorem inEnv_configure_ok {g : Storage → Storage} : inEnv (configure g) w = .ok (u, w') ↔
    { w with env := { w.env with inst := g w.env.inst } } = w' := by
  rw [inEnv_ok]
  constructor
  · rintro ⟨env, henv, rfl⟩
    rw [← configure_ok.mp henv]
  · intro h
    exact ⟨_, configure_ok.mpr rfl, h⟩

theorem inEnv_emit_ok {e : Event} : inEnv (emit e) w = .ok (u, w') ↔
    { w with env := { w.env with events := w.env.events ++ [e] } } = w' := by
  rw [inEnv_ok]
  constructor
  · rintro ⟨env, henv, rfl⟩
    rw [← emit_ok.mp henv]
  · intro h
    exact ⟨_, emit_ok.mpr rfl, h⟩

/-- A payment that succeeds: the token has been at work, and the amount is entered. -/
theorem payOut_ok {o : Option ℕ} (h : payOut D host token o asset dst y w = .ok (u, w')) :
    0 ≤ y ∧ ∃ b, w' = World.spend
      { token w with env := { (token w).env with balances := b } } o y := by
  simp only [payOut, update_bind_ok] at h
  obtain ⟨_, w1, hpay, h⟩ := bind_ok.mp h
  obtain ⟨env, htransfer, rfl⟩ := inEnv_ok.mp hpay
  obtain ⟨b, hb, rfl⟩ := tryTransfer_ok htransfer
  exact ⟨(transfer_ok hb).1, b, (update_ok.mp h).symm⟩

/-- **A transfer** while the payment is under way. -/
theorem Flight.pay (h : Flight F p n w0 x w) (h0 : Inv F w0)
    (hn : w0.owner p.recipient 0 = some n) (htoken : Polite (p :: F) token)
    (hlocked : Locked (p :: F) w)
    (hbound : (w0.account n).out + x + y ≤ (w0.account n).total)
    (hpay : payOut D host token (some n) asset dst y w = .ok (u, w')) :
    Flight F p n w0 (x + y) w' ∧
      w'.env.inst.lookup .lock = w.env.inst.lookup .lock := by
  obtain ⟨-, b, rfl⟩ := payOut_ok hpay
  obtain ⟨hcall, hlock⟩ := h.call h0 hn htoken hlocked
  have hmoved : Flight F p n w0 x { token w with env := { (token w).env with balances := b } } :=
    hcall.of_env rfl
  exact ⟨hmoved.spend h0 hn hbound, hlock⟩

/-- The state with the lock set. -/
def setLock (w : World) : World :=
  { w with env := { w.env with inst := w.env.inst.insert .lock true } }

/-- The state with the lock released. -/
def clearLock (w : World) : World :=
  { w with env := { w.env with inst := w.env.inst.erase .lock } }

theorem locked_setLock : Locked F (setLock w) := by
  intro _
  have hset : (setLock w).env.inst.lookup .lock = some true := Finmap.lookup_insert _
  rw [hset]
  rfl

theorem lookup_clearLock : (clearLock w).env.inst.lookup .lock = none := Finmap.lookup_erase _ _

/-- A transfer under the lock. -/
theorem Flight.lockedPay (h : Flight F p n w0 x w) (h0 : Inv F w0)
    (hn : w0.owner p.recipient 0 = some n) (htoken : Polite (p :: F) token)
    (hbound : (w0.account n).out + x + y ≤ (w0.account n).total)
    (hpay : lockedPayOut D host token (some n) asset dst y w = .ok (u, w')) :
    Flight F p n w0 (x + y) w' ∧ w'.env.inst.lookup .lock = none := by
  simp only [lockedPayOut, asks_bind_ok, ensure_bind_ok, inEnv_configure_bind_ok] at hpay
  obtain ⟨-, hpay⟩ := hpay
  obtain ⟨_, w1, hpay, hend⟩ := bind_ok.mp hpay
  rw [inEnv_configure_ok] at hend
  have hlock : Flight F p n w0 x (setLock w) := h.of_env rfl
  obtain ⟨hpaid, -⟩ := hlock.pay h0 hn htoken locked_setLock hbound hpay
  rw [← hend]
  exact ⟨hpaid.of_env rfl, lookup_clearLock⟩

theorem lock_of_lockedPayOut {o : Option ℕ}
    (h : lockedPayOut D host token o asset dst y w = .ok (u, w')) :
    w.env.inst.lookup .lock = none := by
  simp only [lockedPayOut, asks_bind_ok, ensure_bind_ok] at h
  exact Option.isNone_iff_eq_none.mp h.1

end Pay

/-! ### Claims -/

section Claim

variable {D : Deployment} {host : Host} {F : List Pending} {r : Address} {k : UInt32}
  {w w' : World} {token : Token} {x : ℤ} {n : ℕ}

/-- The transfers of a claim, under the lock. -/
theorem flight_payClaimOut {w0 : World} {asset : Address} {fee net : ℤ} {u : Unit}
    (h0 : Inv F w0) (hn : w0.owner r 0 = some n) (htoken : Polite (⟨.claim, r⟩ :: F) token)
    (hfee : 0 ≤ fee)
    (hbound : (w0.account n).out + (fee + net) ≤ (w0.account n).total)
    (hpay : payClaimOut D host token (some n) r asset fee net w0 = .ok (u, w')) :
    Flight F ⟨.claim, r⟩ n w0 (fee + net) w' ∧ w'.env.inst.lookup .lock = none := by
  simp only [payClaimOut, asks_bind_ok, ensure_bind_ok, inEnv_configure_bind_ok] at hpay
  obtain ⟨-, hpay⟩ := hpay
  obtain ⟨_, w1, hpayFee, hpay⟩ := bind_ok.mp hpay
  obtain ⟨_, w2, hpayNet, hend⟩ := bind_ok.mp hpay
  rw [inEnv_configure_ok] at hend
  have hnet := (payOut_ok hpayNet).1
  have hstart : Flight F ⟨.claim, r⟩ n w0 0 (setLock w0) := (flight_start h0).of_env rfl
  have hfirst : Flight F ⟨.claim, r⟩ n w0 fee w1 ∧ Locked (⟨.claim, r⟩ :: F) w1 := by
    rcases onlyIf_ok.mp hpayFee with ⟨-, hpayFee⟩ | ⟨hzero, rfl⟩
    · rw [need_bind_ok] at hpayFee
      obtain ⟨treasury, -, hpayFee⟩ := hpayFee
      obtain ⟨_, w3, hpayFee, hemit⟩ := bind_ok.mp hpayFee
      rw [inEnv_emit_ok] at hemit
      obtain ⟨hpaid, hlock⟩ := hstart.pay h0 hn htoken locked_setLock (by omega) hpayFee
      rw [zero_add] at hpaid
      rw [← hemit]
      refine ⟨hpaid.of_env rfl, fun hp => ?_⟩
      show (w3.env.inst.lookup .lock).isSome = true
      rw [hlock]
      exact locked_setLock hp
    · have h0' : fee = 0 := by omega
      rw [h0']
      exact ⟨hstart, locked_setLock⟩
  obtain ⟨hpaid, -⟩ := hfirst.1.pay h0 hn htoken hfirst.2 (by omega) hpayNet
  rw [← hend]
  exact ⟨hpaid.of_env rfl, lookup_clearLock⟩

theorem lock_of_payClaimOut {o : Option ℕ} {asset : Address} {fee net : ℤ} {u : Unit}
    (h : payClaimOut D host token o r asset fee net w = .ok (u, w')) :
    w.env.inst.lookup .lock = none := by
  simp only [payClaimOut, asks_bind_ok, ensure_bind_ok] at h
  exact Option.isNone_iff_eq_none.mp h.1

/-- Without the lock only clawbacks are under way. -/
theorem not_busy (hlocked : Locked F w) (hlock : w.env.inst.lookup .lock = none)
    (hcalm : ⟨.clawback, r⟩ ∉ F) : ¬ Busy F r := by
  rintro ⟨p, hp, rfl⟩
  by_cases hkind : p.kind = .clawback
  · apply hcalm
    rw [← hkind]
    exact hp
  · have hset := hlocked ⟨p, hp, hkind⟩
    rw [hlock] at hset
    cases hset

/-- What a claim leaves in the storage. -/
theorem stored_afterClaim {st : Storage} (hflat : Flat st) (rc : ClaimReceipt) :
    Flat (afterClaim st r 0 rc) ∧ ∀ r' k', scheduleAt (afterClaim st r 0 rc) r' k' =
      if r' = r ∧ k' = 0 then (if rc.finished = true then none else some rc.schedule)
      else scheduleAt st r' k' := by
  unfold afterClaim
  by_cases hdone : rc.finished = true
  · simp only [if_pos hdone]
    exact ⟨hflat.of_tame (tame_remove _ r 0), fun r' k' => scheduleAt_removeScheduleById ..⟩
  · simp only [if_neg hdone]
    exact ⟨hflat.of_tame (tame_set _ r _ (Or.inl rfl)), fun r' k' => scheduleAt_setScheduleById ..⟩

/-- A turn of the claim loop skips the stream, or pays it. What it stores in the end comes from the
schedule that it has read in the beginning. -/
theorem claimStreamOut_ok (hD : D.ReadsById) {specific : Bool}
    (h : claimStreamOut D host token r specific k w = .ok (x, w')) :
    w' = w ∨ ∃ s rc w1 env, scheduleAt w.env.persistent r k = some s ∧
      claimSchedule s host.sequence (getFee w.env.inst).1 = .ok rc ∧
      payClaimOut D host token (w.owner r k) r s.token rc.fee rc.net w = .ok ((), w1) ∧
      env.persistent = afterClaim w1.env.persistent r k rc ∧ env.inst = w1.env.inst ∧
      w' = { w1.place r k (if rc.finished = true then none else w.owner r k) with env } := by
  simp only [claimStreamOut, asks_bind_ok, hD w.env.persistent r k] at h
  cases hs : scheduleAt w.env.persistent r k with
  | none =>
    simp only [hs, ensure_bind_ok, pure_ok] at h
    obtain ⟨-, -, rfl⟩ := h
    exact Or.inl rfl
  | some s =>
    simp only [hs, compute_bind_ok] at h
    obtain ⟨acc, hacc, h⟩ := h
    cases acc with
    | skip reason =>
      simp only [ensure_bind_ok, pure_ok] at h
      obtain ⟨-, -, rfl⟩ := h
      exact Or.inl rfl
    | due s1 total claimable =>
      simp only [asks_bind_ok, compute_bind_ok] at h
      obtain ⟨⟨fee, net⟩, hfee, h⟩ := h
      obtain ⟨_, w1, hpay, h⟩ := bind_ok.mp h
      rw [compute_bind_ok] at h
      obtain ⟨s2, hset, h⟩ := h
      obtain ⟨_, w2, hstore, h⟩ := bind_ok.mp h
      rw [inEnv_emit_bind_ok, pure_ok] at h
      obtain ⟨-, rfl⟩ := h
      simp only [storeClaimOut, update_bind_ok] at hstore
      obtain ⟨env, henv, rfl⟩ := inEnv_ok.mp hstore
      obtain ⟨hpers, hinst, -⟩ := storeClaim_ok henv
      have htok : s1.token = s.token := by rw [(accrue_due hacc).2.2.2.2.1]
      have hrc : claimSchedule s host.sequence (getFee w.env.inst).1 =
          .ok ⟨claimable, fee, net, s2, decide (total ≤ s2.claimedAmount)⟩ := by
        unfold claimSchedule
        simp only [hacc, hfee, hset, bind, Except.bind]
      rw [htok] at hpay
      let claimed : Event := .tokensClaimed r claimable (min host.sequence s2.endLedger)
      refine Or.inr ⟨s, _, w1, { env with events := env.events ++ [claimed] }, rfl, hrc, hpay, ?_,
        hinst, ?_⟩
      · unfold afterClaim
        simp only [decide_eq_true_eq]
        exact hpers
      · simp only [decide_eq_true_eq]
        rfl

/-- The stream of a claim is still there when its schedule is stored. -/
theorem Flight.fits (h : Flight F ⟨.claim, r⟩ n w x w') (h0 : Inv F w) (hn : w.owner r 0 = some n)
    {s : VestingSchedule} (hsound : Sound s) (htotal : s.total = (w.account n).total)
    (hpaid : (w.account n).out + x ≤ s.claimedAmount) :
    Fits w' r (some n) (some s) ∧ w'.owner r 0 = some n := by
  have hstill := (h.claims r List.mem_cons_self 0).1.trans hn
  obtain ⟨s', hs'⟩ := h.inv.holds_of_owner hstill
  obtain ⟨hknown, hhere, -, -⟩ := h.inv.streams r 0 n s' hs'
  refine ⟨.stream (fun r' k' hr' => h.owner_eq h0 hn hr') ⟨hknown, hhere, hsound, ?_⟩ ?_, hstill⟩
  · rw [h.totals n (h0.known hn), htotal]
  · rw [h.out]
    exact hpaid

/-- **One turn of the claim loop.** -/
theorem respects_claimStreamOut (hD : D.ReadsById) {specific : Bool} (h0 : Inv F w)
    (hlocked : Locked F w) (hcalm : ⟨.clawback, r⟩ ∉ F)
    (htoken : Polite (⟨.claim, r⟩ :: F) token)
    (h : claimStreamOut D host token r specific k w = .ok (x, w')) :
    Inv F w' ∧ Respects F w w' := by
  rcases claimStreamOut_ok hD h with rfl | ⟨s, rc, w1, env, hs, hrc, hpay, hpers, hinst, rfl⟩
  · exact ⟨h0, Respects.refl F w'⟩
  obtain rfl := h0.zero_of_stored hs
  obtain ⟨n, hholds⟩ := h0.holds_of_stored hs
  obtain ⟨-, -, hsound, htotal⟩ := h0.streams r 0 n s hholds
  obtain ⟨hpos, hle, hopen⟩ := hsound.claim hrc
  obtain ⟨-, -, -, hsum, hnn, -⟩ := claimSchedule_ok hrc
  have hlock := lock_of_payClaimOut hpay
  have hfree := not_busy hlocked hlock hcalm
  have hpaid := h0.paid r 0 n s hholds hfree
  have howed : s.owed = s.total - s.claimedAmount := rfl
  rw [hholds.owner] at hpay ⊢
  obtain ⟨hflight, hlock1⟩ :=
    flight_payClaimOut h0 hholds.owner htoken (hnn hpos.le) (by omega) hpay
  rw [hsum] at hflight
  obtain ⟨hflat, hstreams⟩ := stored_afterClaim hflight.inv.flat rc
  rw [← hpers] at hflat hstreams
  have hlock' : env.inst.lookup .lock = w.env.inst.lookup .lock := by rw [hinst, hlock1, hlock]
  by_cases hdone : rc.finished = true
  · simp only [if_pos hdone] at hstreams ⊢
    exact hflight.finish hholds.owner hfree .empty (by simp) hlock' hflat hstreams
  · simp only [if_neg hdone] at hstreams ⊢
    obtain ⟨hsound', htotal', hclaimed⟩ := hopen (Bool.eq_false_iff.mpr hdone)
    obtain ⟨hfits, hstill⟩ := hflight.fits h0 hholds.owner hsound' (htotal'.trans htotal.symm)
      (by omega)
    exact hflight.finish hholds.owner hfree hfits (by simpa using hstill) hlock' hflat hstreams

/-- The loop: each turn starts with the lock as the one before has found it. -/
theorem respects_claimLoopOut (hD : D.ReadsById) {specific : Bool} {ids : List UInt32} {acc : ℤ}
    (h0 : Inv F w) (hlocked : Locked F w) (hcalm : ⟨.clawback, r⟩ ∉ F)
    (htoken : Polite (⟨.claim, r⟩ :: F) token)
    (h : claimLoopOut D host token r specific ids acc w = .ok (x, w')) :
    Inv F w' ∧ Respects F w w' := by
  induction ids generalizing acc w with
  | nil =>
    obtain ⟨-, rfl⟩ := pure_ok.mp h
    exact ⟨h0, Respects.refl F w⟩
  | cons k ids ih =>
    unfold claimLoopOut at h
    obtain ⟨claimable, w1, hturn, h⟩ := bind_ok.mp h
    rw [compute_bind_ok] at h
    obtain ⟨acc', -, h⟩ := h
    obtain ⟨hinv, hres⟩ := respects_claimStreamOut hD h0 hlocked hcalm htoken hturn
    obtain ⟨hinv', hres'⟩ := ih hinv (hlocked.of_respects hres) h
    exact ⟨hinv', hres.trans hres'⟩

theorem respects_claimVestedOut (hD : D.ReadsById) {streamId : Option UInt32} (h0 : Inv F w)
    (hlocked : Locked F w) (hcalm : ⟨.clawback, r⟩ ∉ F)
    (htoken : Polite (⟨.claim, r⟩ :: F) token)
    (h : claimVestedOut D host token r streamId w = .ok (x, w')) :
    Inv F w' ∧ Respects F w w' := by
  simp only [claimVestedOut, inEnv_requireAuth_bind_ok, asks_bind_ok, ensure_bind_ok] at h
  obtain ⟨-, -, h⟩ := h
  obtain ⟨total, w1, hloop, h⟩ := bind_ok.mp h
  rw [ensure_bind_ok, pure_ok] at h
  obtain ⟨-, -, rfl⟩ := h
  exact respects_claimLoopOut hD h0 hlocked hcalm htoken hloop

end Claim

/-! ### Cancellations and clawbacks -/

section Terminal

variable {D : Deployment} {host : Host} {F : List Pending} {sponsor r : Address} {k : UInt32}
  {w w' : World} {token : Token} {n : ℕ} {u : Unit}

/-- The end of a terminal operation. -/
theorem Flight.drop {w0 : World} {p : Pending} {x : ℤ} {e : Event} (h : Flight F p n w0 x w)
    (hn : w0.owner p.recipient 0 = some n) (hfree : ¬ Busy F p.recipient)
    (hlock : w.env.inst.lookup .lock = w0.env.inst.lookup .lock)
    (hdrop : (do dropOut sponsor p.recipient; inEnv (emit e) : WorldCall Unit) w = .ok (u, w')) :
    Inv F w' ∧ Respects F w0 w' := by
  obtain ⟨_, w1, hdrop, hemit⟩ := bind_ok.mp hdrop
  rw [dropOut, update_bind_ok, inEnv_ok] at hdrop
  obtain ⟨env, henv, rfl⟩ := hdrop
  rw [dropStream, persist_ok] at henv
  subst henv
  rw [← inEnv_emit_ok.mp hemit]
  refine h.finish hn hfree .empty (by simp) hlock ?_ fun r' k' => ?_
  · exact h.inv.flat.of_tame ((tame_remove _ _ 0).trans (tame_removeSponsorStream ..))
  · show scheduleAt (removeSponsorStream _ _ _) r' k' = _
    rw [scheduleAt_removeSponsorStream]
    exact scheduleAt_removeScheduleById ..

/-- One of the two transfers of a cancellation. -/
theorem Flight.lockedPart {w0 : World} {p : Pending} {x y : ℤ} {asset dst : Address}
    (h : Flight F p n w0 x w) (h0 : Inv F w0) (hn : w0.owner p.recipient 0 = some n)
    (htoken : Polite (p :: F) token) (hy : 0 ≤ y)
    (hbound : (w0.account n).out + x + y ≤ (w0.account n).total)
    (hpay : onlyIf (0 < y) (lockedPayOut D host token (some n) asset dst y) w = .ok (u, w')) :
    Flight F p n w0 (x + y) w' ∧ w'.env.inst.lookup .lock = w.env.inst.lookup .lock := by
  rcases onlyIf_ok.mp hpay with ⟨-, hpay⟩ | ⟨hzero, rfl⟩
  · obtain ⟨hpaid, hlock⟩ := h.lockedPay h0 hn htoken hbound hpay
    exact ⟨hpaid, hlock.trans (lock_of_lockedPayOut hpay).symm⟩
  · obtain rfl : y = 0 := by omega
    rw [add_zero]
    exact ⟨h, rfl⟩

theorem respects_cancelStreamOut (hD : D.ReadsById) (h0 : Inv F w) (hlocked : Locked F w)
    (hcalm : ⟨.clawback, r⟩ ∉ F) (htoken : Polite (⟨.cancel, r⟩ :: F) token)
    (h : cancelStreamOut D host token sponsor r k w = .ok (u, w')) :
    Inv F w' ∧ Respects F w w' := by
  simp only [cancelStreamOut, inEnv_requireAuth_bind_ok, ensure_bind_ok, asks_bind_ok, need_bind_ok,
    compute_bind_ok, hD w.env.persistent r k] at h
  obtain ⟨-, -, s, hs, -, ⟨share, refund⟩, hsplit, h⟩ := h
  obtain rfl := h0.zero_of_stored hs
  obtain ⟨n, hholds⟩ := h0.holds_of_stored hs
  obtain ⟨-, -, hsound, htotal⟩ := h0.streams r 0 n s hholds
  obtain ⟨hshare, hrefund, hsum⟩ := hsound.cancel hsplit
  have howed : s.owed = s.total - s.claimedAmount := rfl
  have hpos := hsound.owed_pos
  rw [hholds.owner] at h
  obtain ⟨_, w1, hpay1, h⟩ := bind_ok.mp h
  obtain ⟨_, w2, hpay2, h⟩ := bind_ok.mp h
  -- something is owed, so that one of the transfers is made and tests the lock
  have hlock : w.env.inst.lookup .lock = none := by
    rcases onlyIf_ok.mp hpay1 with ⟨-, hpay⟩ | ⟨hzero, rfl⟩
    · exact lock_of_lockedPayOut hpay
    · rcases onlyIf_ok.mp hpay2 with ⟨-, hpay⟩ | ⟨hzero', -⟩
      · exact lock_of_lockedPayOut hpay
      · omega
  have hfree := not_busy hlocked hlock hcalm
  have hpaid := h0.paid r 0 n s hholds hfree
  obtain ⟨hpart, hlock1⟩ :=
    (flight_start h0).lockedPart h0 hholds.owner htoken hshare (by omega) hpay1
  obtain ⟨hboth, hlock2⟩ := hpart.lockedPart h0 hholds.owner htoken hrefund (by omega) hpay2
  exact hboth.drop hholds.owner hfree (hlock2.trans hlock1) h

/-- A clawback takes no lock, and tests none. -/
theorem respects_clawbackStreamOut (hD : D.ReadsById) {reason : String} (h0 : Inv F w)
    (hlocked : Locked F w) (hfree : ¬ Busy F r) (htoken : Polite (⟨.clawback, r⟩ :: F) token)
    (h : clawbackStreamOut D host token sponsor r k reason w = .ok (u, w')) :
    Inv F w' ∧ Respects F w w' := by
  simp only [clawbackStreamOut, inEnv_requireAuth_bind_ok, ensure_bind_ok, asks_bind_ok,
    need_bind_ok, compute_bind_ok, hD w.env.persistent r k] at h
  obtain ⟨-, s, hs, -, -, -, remaining, hrem, h⟩ := h
  obtain rfl := h0.zero_of_stored hs
  obtain ⟨n, hholds⟩ := h0.holds_of_stored hs
  obtain ⟨-, -, hsound, htotal⟩ := h0.streams r 0 n s hholds
  obtain rfl := hsound.clawback hrem
  have howed : s.owed = s.total - s.claimedAmount := rfl
  have hpaid := h0.paid r 0 n s hholds hfree
  rw [hholds.owner] at h
  obtain ⟨_, w1, hpay, h⟩ := bind_ok.mp h
  rcases onlyIf_ok.mp hpay with ⟨-, hpay⟩ | ⟨hzero, -⟩
  · have hlocked' : Locked (⟨.clawback, r⟩ :: F) w := by
      rintro ⟨p, hp, hkind⟩
      rcases List.mem_cons.mp hp with rfl | hp
      · exact absurd rfl hkind
      · exact hlocked ⟨p, hp, hkind⟩
    obtain ⟨hflight, hlock⟩ :=
      (flight_start h0).pay h0 hholds.owner htoken hlocked' (by omega) hpay
    exact hflight.drop hholds.owner hfree hlock h
  · exact absurd hsound.owed_pos hzero

end Terminal

/-! ### Calls that meet no token -/

section Other

variable {D : Deployment} {host : Host} {F : List Pending} {r : Address} {w : World}
  {call : AnyCall} {env : Env} {u : Unit}

/-- A new stream that is not yet stored. -/
theorem Inv.fresh (h : Inv F w) {total : ℤ} (htotal : 0 ≤ total) :
    Inv F { w with account := Function.update w.account w.next ⟨total, 0, false⟩
                   next := w.next + 1 } := by
  have hold : ∀ m < w.next,
      Function.update w.account w.next ⟨total, 0, false⟩ m = w.account m := by
    intro m hm
    exact Function.update_of_ne (by omega) _ _
  refine ⟨h.flat, h.owned, h.single, fun r k m s hs => ?_, fun r k m s hs hbusy => ?_,
    fun m hm => ?_⟩
  · obtain ⟨h1, h2, h3, h4⟩ := h.streams r k m s ⟨hs.owner, hs.stored⟩
    have hacc := hold m h1
    exact ⟨Nat.lt_succ_of_lt h1, (congrArg Account.gone hacc).trans h2, h3,
      (congrArg Account.total hacc).trans h4⟩
  · have hacc := hold m (h.known hs.owner)
    exact le_of_eq_of_le (congrArg Account.out hacc) (h.paid r k m s ⟨hs.owner, hs.stored⟩ hbusy)
  · show (Function.update w.account w.next ⟨total, 0, false⟩ m).out ≤
      (Function.update w.account w.next ⟨total, 0, false⟩ m).total
    by_cases hnew : m = w.next
    · rw [hnew, Function.update_self]
      exact htotal
    · have hm' : m < w.next + 1 := hm
      rw [hold m (by omega)]
      exact h.bounded m (by omega)

/-- **A creation**: the new stream takes the place of any other the recipient has, unless a claim of
that one is under way. -/
theorem Inv.create (h : Inv F w) (hcalm : ⟨.claim, r⟩ ∉ F) {s : VestingSchedule} (hsound : Sound s)
    (hlock : env.inst.lookup .lock = w.env.inst.lookup .lock) (hflat : Flat env.persistent)
    (hstreams : ∀ r' k', scheduleAt env.persistent r' k' =
      if r' = r ∧ k' = 0 then some s else scheduleAt w.env.persistent r' k') :
    Inv F { w.openAccount r s.total with env } ∧
      Respects F w { w.openAccount r s.total with env } := by
  have hrate := hsound.rate_pos
  have hstart := hsound.start_le_last
  have hpos := hsound.owed_pos
  have howed : s.owed = s.total - s.claimedAmount := rfl
  have hclaimed : 0 ≤ s.claimedAmount := by
    rw [hsound.claimed]
    exact mul_nonneg hrate.le (by omega)
  have hself : Function.update w.account w.next ⟨s.total, 0, false⟩ w.next = ⟨s.total, 0, false⟩ :=
    Function.update_self ..
  have hfresh := h.fresh (show 0 ≤ s.total by omega)
  refine ⟨hfresh.place (.stream (fun r' k' hr' => ?_) ⟨?_, ?_, hsound, ?_⟩ ?_) (fun _ => Or.inr)
    hflat hstreams, hlock, Nat.le_succ _, fun r' k' m hm => ?_, fun m hm _ => ?_, fun m hm => ?_,
    fun r' hr' k' => ?_⟩
  · have hlt : w.next < w.next := h.known hr'
    omega
  · exact Nat.lt_succ_self _
  · exact congrArg Account.gone hself
  · exact congrArg Account.total hself
  · exact le_of_eq_of_le (congrArg Account.out hself) hclaimed
  · change (if r' = r ∧ k' = 0 then some w.next else w.owner r' k') = some m at hm
    split_ifs at hm
    · exact Or.inr (Option.some.inj hm).le
    · exact Or.inl hm
  · exact out_place.trans (congrArg Account.out (Function.update_of_ne (by omega) _ _))
  · exact total_place.trans (congrArg Account.total (Function.update_of_ne (by omega) _ _))
  · have hne : ¬ (r' = r ∧ k' = 0) := by
      rintro ⟨rfl, -⟩
      exact hcalm hr'
    exact ⟨if_neg hne, (hstreams r' k').trans (if_neg hne)⟩

/-- What a creation leaves in the storage. -/
theorem stored_create {st st' : Storage} {s : VestingSchedule} {sponsor : Address} (hflat : Flat st)
    (h : addSponsorStream (setSchedule st r s) sponsor r = st') :
    Flat st' ∧ ∀ r' k', scheduleAt st' r' k' =
      if r' = r ∧ k' = 0 then some s else scheduleAt st r' k' := by
  rw [← h]
  refine ⟨hflat.of_tame ((tame_set _ _ _ (Or.inl rfl)).trans (tame_addSponsorStream ..)),
    fun r' k' => ?_⟩
  rw [scheduleAt_addSponsorStream]
  exact scheduleAt_setScheduleById ..

/-- The creations of a batch, one after the other. -/
theorem respects_batch {sponsor token : Address} {streams : List BatchEntry} {st st' : Storage}
    (hbatch : BatchStored host sponsor token streams st st') (hst : w.env.persistent = st)
    (hvalid : ∀ e ∈ streams, 0 < e.rate ∧ 0 < e.totalDuration.toNat)
    (hcalm : ∀ e ∈ streams, ⟨.claim, e.recipient⟩ ∉ F) (h : Inv F w)
    (hst' : env.persistent = st') (hlock : env.inst.lookup .lock = w.env.inst.lookup .lock) :
    Inv F ((creations (.createBatchStreams sponsor token streams)).foldl
        (fun w p => w.openAccount p.1 p.2) { w with env }) ∧
      Respects F w ((creations (.createBatchStreams sponsor token streams)).foldl
        (fun w p => w.openAccount p.1 p.2) { w with env }) := by
  induction hbatch generalizing w with
  | nil st =>
    have hp : env.persistent = w.env.persistent := hst'.trans hst.symm
    exact ⟨h.of_env (by rw [hp]; exact h.flat) fun _ _ => by rw [hp],
      respects_of_env hlock fun _ _ => by rw [hp]⟩
  | @cons e rest st st' cliff fin hcliff hfin hrest ih =>
    obtain ⟨hrate, hdur⟩ := hvalid e List.mem_cons_self
    generalize hs : newSchedule (e.args sponsor token) none host.sequence cliff fin = s at hrest ih
    generalize hst1 : addSponsorStream (setSchedule st e.recipient s) sponsor e.recipient = st1
      at hrest ih
    obtain ⟨hsound, htotal⟩ : Sound s ∧ s.total = e.rate * e.totalDuration.toNat := by
      rw [← hs]
      exact sound_newSchedule (e.args sponsor token) none hrate hdur hfin
    rw [← hst] at hst1
    obtain ⟨hflat, hstreams⟩ := stored_create h.flat hst1
    obtain ⟨hinv, hres⟩ := h.create (hcalm e List.mem_cons_self) hsound
      (show ({ w.env with persistent := st1 } : Env).inst.lookup .lock = _ from rfl) hflat hstreams
    rw [htotal] at hinv hres
    obtain ⟨hinv', hres'⟩ := ih rfl (fun e' he' => hvalid e' (List.mem_cons_of_mem _ he'))
      (fun e' he' => hcalm e' (List.mem_cons_of_mem _ he')) hinv hst' hlock
    exact ⟨hinv', hres.trans hres'⟩

/-- Variable-rate schedules have keys of their own. -/
theorem scheduleAt_setVariableSchedule {st : Storage} {r' : Address} {k : UInt32}
    {v : VariableRateSchedule} :
    scheduleAt (setVariableSchedule st r' v) r k = scheduleAt st r k :=
  scheduleAt_congr (Finmap.lookup_insert_of_ne _ (by simp))
    fun _ => Finmap.lookup_insert_of_ne _ (by simp)

theorem scheduleAt_removeVariableSchedule {st : Storage} {r' : Address} {k : UInt32} :
    scheduleAt (removeVariableSchedule st r') r k = scheduleAt st r k :=
  scheduleAt_congr (Finmap.lookup_erase_ne (by simp)) fun _ => Finmap.lookup_erase_ne (by simp)

theorem readSchedule_ok {a : Address} {found : Option VestingSchedule} {env env' : Env}
    (h : readSchedule a env = .ok (found, env')) : (getSchedule env.persistent a).1 = found := by
  cases h
  rfl

/-- Nothing is found under a legacy key. -/
theorem not_found (h : Inv F w) {s : VestingSchedule} :
    (getSchedule w.env.persistent r).1 ≠ some s := by
  intro hs
  obtain ⟨s0, hl, -⟩ := getSchedule_some hs
  rw [h.flat.noLegacy r] at hl
  cases hl

/-- A call that creates no stream and moves none. -/
theorem respects_plain (h : Inv F w) (hmoves : call.moves = none) (hnone : creations call = [])
    (hlock : env.inst.lookup .lock = w.env.inst.lookup .lock) (hflat : Flat env.persistent)
    (hstreams : ∀ r k, scheduleAt env.persistent r k = scheduleAt w.env.persistent r k) :
    Inv F (World.record call { w with env }) ∧ Respects F w (World.record call { w with env }) := by
  have hrecord : World.record call { w with env } = { w with env } := by
    unfold World.record
    rw [hmoves, hnone]
    rfl
  rw [hrecord]
  exact ⟨h.of_env hflat hstreams, respects_of_env hlock hstreams⟩

theorem creations_of_create {a : CreateArgs} (h : call.base = some (.createVestingStream a)) :
    call.moves = none ∧ creations call = [(a.recipient, a.rate * a.totalDuration.toNat)] := by
  cases call with
  | fixed base => cases h; exact ⟨rfl, rfl⟩
  | createVestingStreamWithMeta a' => cases h; exact ⟨rfl, rfl⟩
  | createMilestoneStream a' => cases h; exact ⟨rfl, rfl⟩
  | _ => cases h

theorem creations_of_config {base : ContractCall} (hbase : call.base = some base)
    (h : base.isConfig = true) : call.moves = none ∧ creations call = [] := by
  cases call with
  | fixed base' =>
    cases hbase
    cases base <;> first | exact ⟨rfl, rfl⟩ | cases h
  | createVestingStreamWithMeta a => cases hbase; cases h
  | createMilestoneStream a => cases hbase; cases h
  | transferStream r r' => cases hbase; cases h
  | _ => cases hbase

/-- No request but the payments touches the lock. -/
theorem lock_of_execAny (hD : D.ReadsById) (h : execAny D host call w.env = .ok (u, env)) :
    env.inst.lookup .lock = w.env.inst.lookup .lock := by
  refine lookup_inst_of_execAny hD (fun base _ => ?_) h
  cases base <;> simp [configKeys]

theorem respects_created {a : CreateArgs} {id : UInt32} {c : CreationReceipt} (h : Inv F w)
    (hbase : call.base = some (.createVestingStream a)) (hcalm : ⟨.claim, a.recipient⟩ ∉ F)
    (hc : Created D host a w.env id env c)
    (hlock : env.inst.lookup .lock = w.env.inst.lookup .lock) (hflat : Flat env.persistent) :
    Inv F (World.record call { w with env }) ∧ Respects F w (World.record call { w with env }) := by
  obtain ⟨hmoves, hone⟩ := creations_of_create hbase
  have hdur : 0 < a.totalDuration.toNat := by
    have hlt := hc.cliff_lt
    omega
  obtain ⟨hsound, htotal⟩ : Sound (c.schedule host a) ∧
      (c.schedule host a).total = a.rate * a.totalDuration.toNat :=
    sound_newSchedule a c.metadata hc.rate_pos hdur hc.endLedger
  have hrecord : World.record call { w with env } =
      { w.openAccount a.recipient (c.schedule host a).total with env } := by
    unfold World.record
    rw [hmoves, hone, htotal]
    rfl
  rw [hrecord]
  exact h.create hcalm hsound hlock hflat fun r' k' => scheduleAt_of_created hc r' k'

/-- **The calls that meet no token**: creations, claims of variable-rate streams, and changes of the
configuration. The others find no legacy record. -/
theorem respects_record (hD : D.ReadsById) (h : Inv F w) (hpending : pending call = [])
    (hcalm : ∀ p ∈ creations call, ⟨.claim, p.1⟩ ∉ F)
    (hexec : execAny D host call w.env = .ok (u, env)) :
    Inv F (World.record call { w with env }) ∧ Respects F w (World.record call { w with env }) := by
  have hlock := lock_of_execAny hD hexec
  have heff := execAny_ok hD hexec
  have hflat := flat_of_effect hD heff h.flat
  cases heff with
  | fixed hbase heff =>
    cases heff with
    | config kind hp =>
      obtain ⟨hmoves, hnone⟩ := creations_of_config hbase kind
      exact respects_plain h hmoves hnone hlock hflat fun _ _ => by rw [hp]
    | create _ _ hc =>
      have hone := (creations_of_create hbase).2
      rw [hone] at hcalm
      exact respects_created h hbase (hcalm _ List.mem_cons_self) hc hlock hflat
    | claim _ =>
      cases call with
      | fixed base => cases hbase; cases hpending
      | _ => cases hbase
    | rewritten _ _ hr => exact absurd hr.found (not_found h)
    | transferred ht => exact absurd ht.found (not_found h)
    | terminated kind _ =>
      cases call with
      | fixed base => rcases kind with rfl | ⟨reason, rfl⟩ <;> cases hbase <;> cases hpending
      | _ => rcases kind with rfl | ⟨reason, rfl⟩ <;> cases hbase
    | drained _ hd => exact absurd hd.found (not_found h)
  | @batch sponsor token streams hb =>
    refine respects_batch hb.stored rfl (fun e he => ?_) (fun e he => ?_) h rfl hlock
    · have hlt := (hb.valid e he).cliff_lt
      exact ⟨(hb.valid e he).rate_pos, by omega⟩
    · exact hcalm _ (List.mem_map_of_mem he)
  | variableRate kind hv =>
    have hstreams : ∀ r k, scheduleAt env.persistent r k = scheduleAt w.env.persistent r k := by
      intro r k
      rw [hv.persistent]
      exact scheduleAt_setVariableSchedule
    rcases kind with rfl | rfl <;> exact respects_plain h rfl rfl hlock hflat hstreams
  | claimVariable kind hv =>
    have hstreams : ∀ r k, scheduleAt env.persistent r k = scheduleAt w.env.persistent r k := by
      intro r k
      rw [hv.persistent]
      split_ifs
      · exact scheduleAt_removeVariableSchedule
      · exact scheduleAt_setVariableSchedule
    rcases kind with rfl | rfl <;> exact respects_plain h rfl rfl hlock hflat hstreams

/-- The two drains never get to their transfers. -/
theorem not_drainExpiredStreamOut (h : Inv F w) {token : Token} {caller : Address} {w' : World} :
    drainExpiredStreamOut D host token caller r w ≠ .ok (u, w') := by
  intro hok
  simp only [drainExpiredStreamOut, asks_bind_ok] at hok
  obtain ⟨found, w1, hread, hok⟩ := bind_ok.mp hok
  rw [need_bind_ok] at hok
  obtain ⟨s, hs, -⟩ := hok
  obtain ⟨env, henv, -⟩ := inEnv_ok.mp hread
  exact not_found h ((readSchedule_ok henv).trans hs)

theorem not_emergencyDrainOut (h : Inv F w) {token : Token} {sponsor : Address} {w' : World} :
    emergencyDrainOut D host token sponsor r w ≠ .ok (u, w') := by
  intro hok
  simp only [emergencyDrainOut, inEnv_requireAuth_bind_ok, asks_bind_ok] at hok
  obtain ⟨-, hok⟩ := hok
  obtain ⟨found, w1, hread, hok⟩ := bind_ok.mp hok
  rw [need_bind_ok] at hok
  obtain ⟨s, hs, -⟩ := hok
  obtain ⟨env, henv, -⟩ := inEnv_ok.mp hread
  exact not_found h ((readSchedule_ok henv).trans hs)

end Other

/-! ### Whole executions -/

/-- The call gets in the way of a payment that is under way: a clawback in that of any payment to
the recipient, a claim or a cancellation in that of a clawback, and a creation in that of a
claim. -/
def Interferes (p : Pending) : AnyCall → Prop
  | .fixed (.claimVested recipient _) => p = ⟨.clawback, recipient⟩
  | .fixed (.cancelStream _ recipient _) => p = ⟨.clawback, recipient⟩
  | .fixed (.clawbackStream _ recipient _ _) => p.recipient = recipient
  | call => p.kind = .claim ∧ p.recipient ∈ (creations call).map Prod.fst

/-- If the call succeeds, it gets in the way of no payment that is under way. -/
def Calm (D : Deployment) (F : List Pending) (w : World) (q : AnyRequest) (token : Token) : Prop :=
  (callOut D q.host token q.call w).isOk = true → ∀ p ∈ F, ¬ Interferes p q.call

section Executions

variable {D : Deployment} {host : Host} {F : List Pending} {w w' : World} {call : AnyCall}
  {token : Token} {u : Unit}

theorem respects_other (hD : D.ReadsById) (h : Inv F w) (hpending : pending call = [])
    (hcalm : ∀ p ∈ creations call, ⟨.claim, p.1⟩ ∉ F)
    (hok : (do inEnv (execAny D host call); update (World.record call) : WorldCall Unit) w =
      .ok (u, w')) :
    Inv F w' ∧ Respects F w w' := by
  obtain ⟨_, w1, hexec, hrecord⟩ := bind_ok.mp hok
  obtain ⟨env, henv, rfl⟩ := inEnv_ok.mp hexec
  rw [← update_ok.mp hrecord]
  exact respects_record hD h hpending hcalm henv

/-- **One call.** -/
theorem respects_callOut (hD : D.ReadsById) (h : Inv F w) (hlocked : Locked F w)
    (hcalm : ∀ p ∈ F, ¬ Interferes p call) (htoken : Polite (pending call ++ F) token)
    (hok : callOut D host token call w = .ok (u, w')) : Inv F w' ∧ Respects F w w' := by
  cases call with
  | fixed base =>
    cases base with
    | claimVested r streamId =>
      obtain ⟨amount, w1, hclaim, hpure⟩ := bind_ok.mp hok
      obtain ⟨-, rfl⟩ := pure_ok.mp hpure
      exact respects_claimVestedOut hD h hlocked (fun hF => hcalm _ hF rfl) htoken hclaim
    | cancelStream sponsor r k =>
      exact respects_cancelStreamOut hD h hlocked (fun hF => hcalm _ hF rfl) htoken hok
    | clawbackStream sponsor r k reason =>
      refine respects_clawbackStreamOut hD h hlocked ?_ htoken hok
      rintro ⟨p, hp, hr⟩
      exact hcalm p hp hr
    | drainExpiredStream caller r => exact absurd hok (not_drainExpiredStreamOut h)
    | emergencyDrain sponsor r => exact absurd hok (not_emergencyDrainOut h)
    | _ =>
      exact respects_other hD h rfl
        (fun p hp hF => hcalm _ hF ⟨rfl, List.mem_map_of_mem hp⟩) hok
  | _ =>
    exact respects_other hD h rfl (fun p hp hF => hcalm _ hF ⟨rfl, List.mem_map_of_mem hp⟩) hok

/-- **A run**: the payments under way can rely on what happens meanwhile. The induction goes over
the nested runs as well, and makes the tokens polite. -/
theorem respects_of_run (hD : D.ReadsById) (hrun : Run D (Calm D) F w w') (hlocked : Locked F w)
    (h : Inv F w) : Inv F w' ∧ Respects F w w' := by
  induction hrun with
  | nil => exact ⟨h, Respects.refl _ _⟩
  | @call F w w1 q token before legal during ih ihToken =>
    obtain ⟨hinv, hres⟩ := ih hlocked h
    have hcall : Inv F (reenter D q token w1) ∧ Respects F w1 (reenter D q token w1) := by
      refine commit_induct (P := fun v => Inv F v ∧ Respects F w1 v) ⟨hinv, Respects.refl F w1⟩
        fun u w2 hok => ?_
      refine respects_callOut hD hinv (hlocked.of_respects hres) (legal ?_) ihToken hok
      rw [hok]
      rfl
    exact ⟨hcall.1, hres.trans hcall.2⟩

theorem inv_startWorld (balances : Balances) : Inv [] (startWorld balances) where
  flat := flat_empty
  owned r k := by
    show false = (scheduleAt ∅ r k).isSome
    rw [scheduleAt_empty]
    rfl
  single _ _ _ _ _ h := nomatch h
  streams _ _ _ _ h := nomatch h.owner
  paid _ _ _ _ h := nomatch h.owner
  bounded _ h := absurd h (Nat.not_lt_zero _)

theorem Inv.safe (h : Inv F w) : Safe w := by
  refine ⟨h.bounded, fun r k n hn => ?_⟩
  obtain ⟨s, hs⟩ := h.holds_of_owner hn
  exact (h.streams r k n s hs).here

/-- **Reentrancy.** A contract whose token calls back is safe as long as no successful call gets in
the way of a payment under way. -/
theorem safe_of_calm (hD : D.ReadsById) (balances : Balances)
    (hrun : Run D (Calm D) [] (startWorld balances) w) : Safe w :=
  (respects_of_run hD hrun (fun hp => nomatch hp) (inv_startWorld balances)).1.safe

end Executions

/-- The sponsor `1` has tokens, and the vault has been given some. -/
def sampleFunds : Balances := fun _ holder =>
  if holder = ⟨0⟩ then 4000000000 else if holder = ⟨1⟩ then 1000000 else 0

/-- The contract is initialised, and the sample stream is created at ledger `100`. -/
def sampleCreated : World :=
  reenter sampleDeployment ⟨sampleHost 100, .fixed (.createVestingStream sampleArgs)⟩ id
    (reenter sampleDeployment ⟨sampleHost 1, .fixed (.initializeContract ⟨9⟩ 0 ⟨8⟩)⟩ id
      (startWorld sampleFunds))

/-- The recipient claims at ledger `200`. -/
def sampleClaim : AnyRequest := ⟨sampleHost 200, .fixed (.claimVested ⟨2⟩ none)⟩

theorem run_sampleCreated {C : List Pending → World → AnyRequest → Token → Prop}
    (hC : ∀ w q token, C [] w q token) :
    Run sampleDeployment C [] (startWorld sampleFunds) sampleCreated :=
  .call _ id (.call _ id .nil (hC _ _ _) fun _ => .nil) (hC _ _ _) fun _ => .nil

/-- The token that runs the request `q` during a transfer. -/
def callBack (q : AnyRequest) : Token := reenter sampleDeployment q id

/-- The recipient claims, and has the token claim again: the lock is in the way, and half of the
stream is paid once. -/
theorem safe_of_calm_sample :
    (reenter sampleDeployment sampleClaim (callBack sampleClaim) sampleCreated).account 0 =
        ⟨2000000000, 1000000000, false⟩ ∧
      Safe (reenter sampleDeployment sampleClaim (callBack sampleClaim) sampleCreated) := by
  refine ⟨by decide +kernel, safe_of_calm sampleDeployment_readsById sampleFunds ?_⟩
  have hC : ∀ w q token, Calm sampleDeployment [] w q token := fun _ _ _ _ p hp => nomatch hp
  refine .call sampleClaim (callBack sampleClaim) (run_sampleCreated hC) (hC _ _ _) fun v => ?_
  refine .call sampleClaim id .nil (fun _ p hp => ?_) fun _ => .nil
  rw [List.mem_singleton.mp hp]
  exact nofun

/-- The sponsor claws the stream back during the claim: it is paid in full, half of it is paid once
more, and the claim stores it again. -/
def sampleClawedBack : World :=
  reenter sampleDeployment sampleClaim
    (callBack ⟨sampleHost 200, .fixed (.clawbackStream ⟨1⟩ ⟨2⟩ 0 "")⟩) sampleCreated

theorem safe_clawback_false :
    Run sampleDeployment (fun _ _ _ _ => True) [] (startWorld sampleFunds) sampleClawedBack ∧
      (sampleClawedBack.account 0).total < (sampleClawedBack.account 0).out ∧
      sampleClawedBack.owner ⟨2⟩ 0 = some 0 ∧ (sampleClawedBack.account 0).gone = true ∧
      ¬ Safe sampleClawedBack := by
  have hbooks : sampleClawedBack.account 0 = ⟨2000000000, 3000000000, true⟩ ∧
      sampleClawedBack.owner ⟨2⟩ 0 = some 0 := by decide +kernel
  obtain ⟨haccount, howner⟩ := hbooks
  rw [haccount]
  refine ⟨?_, by decide, howner, rfl, fun hsafe => ?_⟩
  · refine .call sampleClaim _ (run_sampleCreated fun _ _ _ => trivial) trivial fun v => ?_
    exact .call _ id .nil trivial fun _ => .nil
  · have hhere := hsafe.2 ⟨2⟩ 0 0 howner
    rw [haccount] at hhere
    cases hhere

end VestingDripStream.Contract.Reentrancy
