import VestingDripStream.Backend.Balances

/-! # Balances of a recipient with several streams

`stream_balances` is keyed by the recipient, and a recipient has one stream after the other. A
history lists the decoded events of a recipient in the order of the chain: a creation starts a new
stream, claims are positive and together at most the deposit, and a cancellation, a clawback or a
drain ends the stream. The completion of a stream is no event that the indexer decodes, so a
creation may follow in any state.

The batch of a claim is rolled back, so the balance row only ever follows the creations that are
accepted (`streamBalances_scheduled`). -/

namespace VestingDripStream.Backend.ReusedRecipients

open VestingDripStream.Lib.Run
open VestingDripStream.Backend.Database VestingDripStream.Backend.Persistence
open VestingDripStream.Backend.Balances

/-- A valid history, and the deposit and the claims of the stream that is live after it. -/
inductive ValidHistory : List DecodedStreamEvent → Option (ℤ × ℤ) → Prop
  | nil : ValidHistory [] none
  | created {hist : List DecodedStreamEvent} {live : Option (ℤ × ℤ)} (h : ValidHistory hist live)
      (ev : DecodedStreamEvent) (deposit : ℤ) (ht : ev.eventType = .streamCreated)
      (ha : ev.amount = some deposit) (hpos : 0 < deposit) :
      ValidHistory (hist ++ [ev]) (some (deposit, 0))
  | claimed {hist : List DecodedStreamEvent} {deposit claims : ℤ}
      (h : ValidHistory hist (some (deposit, claims))) (ev : DecodedStreamEvent) (amount : ℤ)
      (ht : ev.eventType = .tokensClaimed) (ha : ev.amount = some amount) (hpos : 0 < amount)
      (hle : claims + amount ≤ deposit) :
      ValidHistory (hist ++ [ev]) (some (deposit, claims + amount))
  | ended {hist : List DecodedStreamEvent} {stream : ℤ × ℤ} (h : ValidHistory hist (some stream))
      (ev : DecodedStreamEvent) (hc : ev.eventType ≠ .streamCreated)
      (ht : ev.eventType ≠ .tokensClaimed) : ValidHistory (hist ++ [ev]) none

/-- The deposit of the last stream, and the claims made on it. -/
def currentStream (hist : List DecodedStreamEvent) : ℤ × ℤ :=
  hist.foldl (fun cur ev =>
    match ev.eventType, ev.amount with
    | .streamCreated, some deposit => (deposit, 0)
    | .tokensClaimed, some amount => (cur.1, cur.2 + amount)
    | _, _ => cur) (0, 0)

/-- The balance row is that of the last stream. -/
structure FollowsCurrentStream (db : Db) (recipient : String) (hist : List DecodedStreamEvent) :
    Prop where
  row : hist ≠ [] → db.streamBalances recipient ≠ none
  remaining : ∀ b, db.streamBalances recipient = some b →
    b.remaining = (currentStream hist).1 - (currentStream hist).2
  nonneg : ∀ b, db.streamBalances recipient = some b → 0 ≤ b.remaining

/-- The events of the batches that hold nothing that the database rejects. -/
def accepted (streams : String → Option VestingStream) (batches : List (List DecodedStreamEvent)) :
    List DecodedStreamEvent :=
  (batches.filter fun b => ∀ ev ∈ b, Acceptable streams ev).flatten

/-- The last accepted creation deposits what is left of the current stream. -/
def DepositsWhatIsLeft (streams : String → Option VestingStream) (recipient : String)
    (batches : List (List DecodedStreamEvent)) (hist : List DecodedStreamEvent) : Prop :=
  hist ≠ [] → (deposits recipient (accepted streams batches)).getLast? =
    some ((currentStream hist).1 - (currentStream hist).2)

/-- No batch with a creation for the recipient holds anything that the database rejects. -/
def CreationsAccepted (streams : String → Option VestingStream) (recipient : String)
    (batches : List (List DecodedStreamEvent)) : Prop :=
  ∀ b ∈ batches, deposits recipient b ≠ [] → ∀ ev ∈ b, Acceptable streams ev

/-- The events after the last creation, the latest first. -/
def sinceCreation (hist : List DecodedStreamEvent) : List DecodedStreamEvent :=
  hist.reverse.takeWhile fun ev => ev.eventType ≠ .streamCreated

/-- Nothing was claimed on the current stream. -/
def NoCurrentClaim (hist : List DecodedStreamEvent) : Prop :=
  ∀ ev ∈ sinceCreation hist, ev.eventType ≠ .tokensClaimed

/-! ### What a history adds up to -/

/-- The creations and the claims of a history against its current stream. -/
structure Adds (hist : List DecodedStreamEvent) (recipient : String) : Prop where
  deposit : hist ≠ [] → (deposits recipient hist).getLast? = some (currentStream hist).1
  claims_nonneg : 0 ≤ (currentStream hist).2
  claims_zero : (currentStream hist).2 = 0 ↔ NoCurrentClaim hist
  covered : (currentStream hist).2 ≤ (currentStream hist).1

theorem currentStream_append (hist : List DecodedStreamEvent) (ev : DecodedStreamEvent) :
    currentStream (hist ++ [ev]) =
      match ev.eventType, ev.amount with
      | .streamCreated, some deposit => (deposit, 0)
      | .tokensClaimed, some amount => ((currentStream hist).1, (currentStream hist).2 + amount)
      | _, _ => currentStream hist := by
  unfold currentStream
  rw [List.foldl_append]
  rfl

theorem sinceCreation_append (hist : List DecodedStreamEvent) (ev : DecodedStreamEvent) :
    sinceCreation (hist ++ [ev]) =
      if ev.eventType = .streamCreated then [] else ev :: sinceCreation hist := by
  unfold sinceCreation
  rw [List.reverse_append, List.reverse_singleton, List.singleton_append, List.takeWhile_cons]
  by_cases h : ev.eventType = .streamCreated <;> simp [h]

theorem noCurrentClaim_append (hist : List DecodedStreamEvent) (ev : DecodedStreamEvent) :
    NoCurrentClaim (hist ++ [ev]) ↔ ev.eventType = .streamCreated ∨
      ev.eventType ≠ .tokensClaimed ∧ NoCurrentClaim hist := by
  unfold NoCurrentClaim
  rw [sinceCreation_append]
  split_ifs with h
  · simp [h]
  · simp [h]

theorem ne_nil_of_live {hist : List DecodedStreamEvent} {stream : ℤ × ℤ}
    (h : ValidHistory hist (some stream)) : hist ≠ [] := by
  cases h <;> simp

section Events

variable {hist : List DecodedStreamEvent} {ev : DecodedStreamEvent} {recipient : String}

/-- A creation. -/
theorem Adds.created (hr : ev.recipient = recipient) (ht : ev.eventType = .streamCreated)
    {deposit : ℤ} (ha : ev.amount = some deposit) (hpos : 0 < deposit) :
    Adds (hist ++ [ev]) recipient ∧ currentStream (hist ++ [ev]) = (deposit, 0) := by
  have hcur := currentStream_append hist ev
  simp only [ht, ha] at hcur
  refine ⟨⟨fun _ => ?_, ?_, ?_, ?_⟩, hcur⟩
  · rw [deposits_append, hcur]
    simp [ht, ha, hr]
  · rw [hcur]
  · rw [hcur, noCurrentClaim_append]
    exact iff_of_true rfl (Or.inl ht)
  · rw [hcur]; exact hpos.le

/-- A claim on the live stream. -/
theorem Adds.claimed (h : Adds hist recipient) (hne : hist ≠ [])
    (ht : ev.eventType = .tokensClaimed) {deposit claims amount : ℤ} (ha : ev.amount = some amount)
    (hlive : currentStream hist = (deposit, claims)) (hpos : 0 < amount)
    (hle : claims + amount ≤ deposit) :
    Adds (hist ++ [ev]) recipient ∧ currentStream (hist ++ [ev]) = (deposit, claims + amount) := by
  have hcur := currentStream_append hist ev
  simp only [ht, ha, hlive] at hcur
  have hnonneg : 0 ≤ claims := by
    have hn := h.claims_nonneg
    rwa [hlive] at hn
  refine ⟨⟨fun _ => ?_, ?_, ?_, ?_⟩, hcur⟩
  · have hdep := h.deposit hne
    rw [deposits_append, hcur]
    simpa [ht, hlive] using hdep
  · rw [hcur]
    show 0 ≤ claims + amount
    omega
  · have hsome : claims + amount ≠ 0 := by omega
    rw [hcur, noCurrentClaim_append]
    simp [ht, hsome]
  · rw [hcur]; exact hle

/-- Any other event changes neither sum. -/
theorem Adds.ended (h : Adds hist recipient) (hne : hist ≠ []) (hc : ev.eventType ≠ .streamCreated)
    (ht : ev.eventType ≠ .tokensClaimed) : Adds (hist ++ [ev]) recipient := by
  have hcur : currentStream (hist ++ [ev]) = currentStream hist := by
    rw [currentStream_append]
    split <;> simp_all
  refine ⟨fun _ => ?_, ?_, ?_, ?_⟩
  · rw [deposits_append, hcur]
    simpa [hc] using h.deposit hne
  · rw [hcur]; exact h.claims_nonneg
  · rw [hcur, noCurrentClaim_append, h.claims_zero]
    simp [hc, ht]
  · rw [hcur]; exact h.covered

end Events

/-- **What a valid history adds up to**, by induction on its events. -/
theorem adds_of_valid {recipient : String} {hist : List DecodedStreamEvent}
    {live : Option (ℤ × ℤ)} (h : ValidHistory hist live)
    (hr : ∀ ev ∈ hist, ev.recipient = recipient) :
    Adds hist recipient ∧ ∀ stream, live = some stream → currentStream hist = stream := by
  induction h with
  | nil =>
    refine ⟨⟨fun hne => absurd rfl hne, le_rfl, ?_, le_rfl⟩, by simp⟩
    exact iff_of_true rfl fun ev hev => absurd hev List.not_mem_nil
  | created h ev deposit ht ha hpos ih =>
    obtain ⟨hadds, hcur⟩ := Adds.created (hr ev (by simp)) ht ha hpos
    exact ⟨hadds, by simp [hcur]⟩
  | claimed h ev amount ht ha hpos hle ih =>
    obtain ⟨hadds, hlive⟩ := ih fun ev' hev' => hr ev' (by simp [hev'])
    obtain ⟨hadds', hcur⟩ := hadds.claimed (ne_nil_of_live h) ht ha (hlive _ rfl) hpos hle
    exact ⟨hadds', by simp [hcur]⟩
  | ended h ev hc ht ih =>
    obtain ⟨hadds, -⟩ := ih fun ev' hev' => hr ev' (by simp [hev'])
    exact ⟨hadds.ended (ne_nil_of_live h) hc ht, by simp⟩

/-! ### The row after a schedule -/

section Schedules

variable {streams : String → Option VestingStream} {recipient : String}
  {batches : List (List DecodedStreamEvent)}

/-- An event of the recipient that opens or changes its row is a creation with an amount. -/
theorem credits_eq_nil_iff (rows : List DecodedStreamEvent) :
    credits recipient rows = [] ↔ deposits recipient rows = [] := by
  unfold credits deposits
  rw [List.filter_eq_nil_iff, List.filterMap_eq_nil_iff]
  unfold Credits
  simp only [List.mem_filter, decide_eq_true_eq, and_imp]
  grind

/-- **The row** that a schedule leaves is that of the last creation in it that was accepted. -/
theorem streamBalances_scheduled (h : (batches.flatten.map (·.transactionHash)).Nodup)
    (recipient : String) : (scheduled streams batches).streamBalances recipient =
      (deposits recipient (accepted streams batches)).getLast?.map fun d => ⟨d, 0, d⟩ := by
  have hevents : (scheduled streams batches).streamEvents = accepted streams batches :=
    scheduled_streamEvents h
  have hclaims : sumAmounts .tokensClaimed recipient (accepted streams batches) = 0 := by
    have hstep : ∀ db b, NoClaimStored db → NoClaimStored (upsertBatch db b) :=
      fun _ b hI => noClaimStored_upsertBatch hI b
    have hnone : NoClaimStored (scheduled streams batches) :=
      (allStates_of_step hstep (noClaimStored_fresh streams)).last
    rw [← hevents]
    exact sumAmounts_of_noClaimStored hnone recipient
  rw [scheduled_streamBalances, hevents]
  unfold balanceOf lastDeposit
  rw [hclaims]
  split_ifs with hnil
  · rw [credits_eq_nil_iff] at hnil
    rw [hnil]; rfl
  · rw [credits_eq_nil_iff] at hnil
    rw [List.getLast?_eq_some_getLast hnil]
    simp

/-- A recipient without a history has no accepted creation. -/
theorem deposits_accepted_of_nil (h : batches.flatten.filter (·.recipient = recipient) = []) :
    deposits recipient (accepted streams batches) = [] := by
  have hother : ∀ ev ∈ accepted streams batches, ev.recipient ≠ recipient := by
    intro ev hev
    obtain ⟨b, hb, hmem⟩ := List.mem_flatten.mp hev
    have hflat := List.mem_flatten.mpr ⟨b, (List.mem_filter.mp hb).1, hmem⟩
    simpa using List.filter_eq_nil_iff.mp h ev hflat
  unfold deposits
  rw [List.filterMap_eq_nil_iff]
  intro ev hev
  have hmem := List.mem_filter.mp hev
  simp only [decide_eq_true_eq] at hmem
  exact absurd hmem.2.1 (hother ev hmem.1)

theorem deposits_append_list (rows rows' : List DecodedStreamEvent) :
    deposits recipient (rows ++ rows') = deposits recipient rows ++ deposits recipient rows' := by
  unfold deposits
  rw [List.filter_append, List.filterMap_append]

/-- Where the creations of the recipient are accepted, the others do not matter to its row. -/
theorem deposits_accepted (h : CreationsAccepted streams recipient batches) :
    deposits recipient (accepted streams batches) = deposits recipient batches.flatten := by
  induction batches with
  | nil => rfl
  | cons b batches ih =>
    have hrest := ih fun b' hb' => h b' (List.mem_cons_of_mem b hb')
    unfold accepted at hrest ⊢
    rw [List.filter_cons, List.flatten_cons, deposits_append_list, ← hrest]
    split_ifs with hb
    · rw [List.flatten_cons, deposits_append_list]
    · have hnil : deposits recipient b = [] := by
        by_contra hne
        exact hb (decide_eq_true (h b List.mem_cons_self hne))
      rw [hnil, List.nil_append]

theorem deposits_filter (rows : List DecodedStreamEvent) :
    deposits recipient (rows.filter (·.recipient = recipient)) = deposits recipient rows := by
  unfold deposits
  rw [List.filter_filter]
  congr 2
  funext ev
  by_cases h : ev.recipient = recipient <;> simp [h]

/-- A row that is that of a creation follows the current stream exactly if the creation deposits what
is left of it. -/
theorem followsCurrentStream_of_row {db : Db} {hist : List DecodedStreamEvent} {last : Option ℤ}
    (hcovered : (currentStream hist).2 ≤ (currentStream hist).1)
    (hrow : db.streamBalances recipient = last.map fun d => ⟨d, 0, d⟩)
    (hnone : hist = [] → last = none) : FollowsCurrentStream db recipient hist ↔
      (hist ≠ [] → last = some ((currentStream hist).1 - (currentStream hist).2)) := by
  constructor
  · intro h hne
    obtain ⟨b, hb⟩ := Option.ne_none_iff_exists'.mp (h.row hne)
    have hleft := h.remaining b hb
    rw [hrow] at hb
    obtain ⟨d, hd, rfl⟩ := Option.map_eq_some_iff.mp hb
    rw [hd, ← hleft]
  · intro h
    by_cases hne : hist = []
    · -- there is no stream yet
      rw [hnone hne] at hrow
      refine ⟨fun hc => absurd hne hc, fun b hb => ?_, fun b hb => ?_⟩
      · rw [hrow] at hb; cases hb
      · rw [hrow] at hb; cases hb
    · rw [h hne] at hrow
      refine ⟨fun _ => by rw [hrow]; simp, fun b hb => ?_, fun b hb => ?_⟩
      · rw [hrow] at hb; cases hb; rfl
      · rw [hrow] at hb; cases hb
        show 0 ≤ (currentStream hist).1 - (currentStream hist).2
        omega

/-- Where the creations of the recipient are accepted, the last of them is the current stream, and
its whole deposit is left exactly if nothing was claimed on it. -/
theorem depositsWhatIsLeft_iff (h : CreationsAccepted streams recipient batches)
    (hadds : Adds (batches.flatten.filter (·.recipient = recipient)) recipient) :
    DepositsWhatIsLeft streams recipient batches
        (batches.flatten.filter (·.recipient = recipient)) ↔
      NoCurrentClaim (batches.flatten.filter (·.recipient = recipient)) := by
  unfold DepositsWhatIsLeft
  rw [deposits_accepted h, ← deposits_filter, ← hadds.claims_zero]
  by_cases hne : batches.flatten.filter (·.recipient = recipient) = []
  · exact iff_of_true (fun hc => absurd hne hc) (by rw [hne]; rfl)
  · rw [hadds.deposit hne]
    simp only [hne, ne_eq, not_false_eq_true, forall_const, Option.some.injEq]
    omega

end Schedules

/-- In a history of distinct transactions that is processed in order, in any batches, the balance
row is that of the current stream exactly if the last creation that the database accepts deposits
what is left of this stream. Where it accepts the batches with the creations, that is the case
exactly if nothing was claimed on the current stream. -/
theorem followsCurrentStream_iff (streams : String → Option VestingStream) (recipient : String)
    (batches : List (List DecodedStreamEvent)) (live : Option (ℤ × ℤ))
    (hvalid : ValidHistory (batches.flatten.filter (·.recipient = recipient)) live)
    (hdistinct : (batches.flatten.map (·.transactionHash)).Nodup) :
    (FollowsCurrentStream (scheduled streams batches) recipient
        (batches.flatten.filter (·.recipient = recipient)) ↔
      DepositsWhatIsLeft streams recipient batches
        (batches.flatten.filter (·.recipient = recipient))) ∧
    (CreationsAccepted streams recipient batches →
      (FollowsCurrentStream (scheduled streams batches) recipient
          (batches.flatten.filter (·.recipient = recipient)) ↔
        NoCurrentClaim (batches.flatten.filter (·.recipient = recipient)))) := by
  obtain ⟨hadds, -⟩ := adds_of_valid hvalid fun ev hev => by
    simpa using (List.mem_filter.mp hev).2
  have hrow : (scheduled streams batches).streamBalances recipient =
      (deposits recipient (accepted streams batches)).getLast?.map fun d => ⟨d, 0, d⟩ :=
    streamBalances_scheduled hdistinct recipient
  have hiff := followsCurrentStream_of_row hadds.covered hrow fun hnil => by
    rw [deposits_accepted_of_nil hnil]; rfl
  exact ⟨hiff, fun hcreations => hiff.trans (depositsWhatIsLeft_iff hcreations hadds)⟩

/-- A stream of 100 of which 40 are claimed. -/
def claimedStream : List (List DecodedStreamEvent) :=
  [[⟨.streamCreated, "CRECIPIENT", "GSPONSOR", "CTOKEN", some 100, 10, "a1"⟩],
    [⟨.tokensClaimed, "CRECIPIENT", "", "", some 40, 20, "a2"⟩]]

theorem validHistory_claimedStream :
    ValidHistory (claimedStream.flatten.filter (·.recipient = "CRECIPIENT")) (some (100, 40)) := by
  have hfilter : claimedStream.flatten.filter (·.recipient = "CRECIPIENT") =
      claimedStream.flatten := by decide
  rw [hfilter]
  have h1 : ValidHistory [] none := .nil
  have h2 := h1.created ⟨.streamCreated, "CRECIPIENT", "GSPONSOR", "CTOKEN", some 100, 10, "a1"⟩
    100 rfl rfl (by decide)
  exact h2.claimed ⟨.tokensClaimed, "CRECIPIENT", "", "", some 40, 20, "a2"⟩ 40 rfl rfl
    (by decide) (by decide)

theorem followsCurrentStream_iff_claimedStream :
    FollowsCurrentStream (scheduled (fun _ => none) claimedStream) "CRECIPIENT"
        (claimedStream.flatten.filter (·.recipient = "CRECIPIENT")) ↔
      NoCurrentClaim (claimedStream.flatten.filter (·.recipient = "CRECIPIENT")) :=
  (followsCurrentStream_iff (fun _ => none) "CRECIPIENT" claimedStream (some (100, 40))
    validHistory_claimedStream (by decide)).2 (by unfold CreationsAccepted; decide)

/-- The claim is never counted: 100 remain of a stream that has 60 left. -/
theorem claimedStream_uncounted :
    ValidHistory (claimedStream.flatten.filter (·.recipient = "CRECIPIENT")) (some (100, 40)) ∧
      ¬ FollowsCurrentStream (scheduled (fun _ => none) claimedStream) "CRECIPIENT"
        (claimedStream.flatten.filter (·.recipient = "CRECIPIENT")) := by
  have hrow : (scheduled (fun _ => none) claimedStream).streamBalances "CRECIPIENT" =
      some ⟨100, 0, 100⟩ := by decide
  exact ⟨validHistory_claimedStream, fun h => absurd (h.remaining _ hrow) (by decide)⟩

end VestingDripStream.Backend.ReusedRecipients
