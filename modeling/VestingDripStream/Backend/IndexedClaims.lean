import VestingDripStream.Contract.EventLog
import VestingDripStream.Backend.Decoder
import VestingDripStream.Backend.Balances

/-! # From the contract to the balance table

The whole way of a claim: a run of transactions on the contract, the records of what they publish,
the pages of records that reach the indexer, `decodeEvent` and `upsertStreamEvents`.

* `history` lists what a run publishes, `Genuine` says that the pages hold records of it only, in
  any order and any number of times, and `Delivered` that they hold them all.
* `receipts` lists what `claim_vested` has returned over the run. Its records are decoded to the
  amounts that were returned, but none is ever counted: a page with such a record does not commit,
  and the `claimed_total` of every address stays zero.
* Whether every page commits depends on the events only: there must be no claim, and a creation must
  be for a contract, since `stream_id` has room for the text of a contract's address, and not for
  that of an account. -/

namespace VestingDripStream.Backend.IndexedClaims

open VestingDripStream.Lib VestingDripStream.Lib.Run VestingDripStream.Lib.Xdr
open VestingDripStream.Contract.Types VestingDripStream.Contract.EntryPoints
open VestingDripStream.Contract.AllRequests VestingDripStream.Contract.EventLog
open VestingDripStream.Backend.Database VestingDripStream.Backend.Persistence
open VestingDripStream.Backend.Balances VestingDripStream.Backend.Decoder

/-! ### What a run publishes -/

/-- A request and the hash of its transaction. -/
structure Transaction where
  hash : String
  request : AnyRequest

/-- The ledger of the transaction. -/
def Transaction.ledger (tx : Transaction) : ℤ := tx.request.host.sequence.toNat

/-- What the transactions publish, one after the other. -/
def history (D : Deployment) : Env → List Transaction → List (Transaction × Event)
  | _, [] => []
  | env, tx :: txs =>
    (newEvents D env tx.request).map (Prod.mk tx) ++ history D (stepAny D env tx.request) txs

/-- What the transactions return to their recipients. -/
def receipts (D : Deployment) : Env → List Transaction → List (Transaction × Address × ℤ)
  | _, [] => []
  | env, tx :: txs =>
    (returned D env tx.request).toList.map (Prod.mk tx) ++ receipts D (stepAny D env tx.request) txs

section History

variable {D : Deployment} {env : Env} {txs : List Transaction} {tx : Transaction} {e : Event}

/-- An event of the history is announced by its transaction. -/
theorem announces_of_history (h : (tx, e) ∈ history D env txs) :
    tx ∈ txs ∧ Announces tx.request e := by
  induction txs generalizing env with
  | nil => cases h
  | cons tx0 txs ih =>
    rcases List.mem_append.mp h with h | h
    · obtain ⟨e', he', heq⟩ := List.mem_map.mp h
      cases heq
      exact ⟨List.mem_cons_self, (announces_of_mem he').2⟩
    · obtain ⟨hmem, ha⟩ := ih h
      exact ⟨List.mem_cons_of_mem _ hmem, ha⟩

theorem not_drained_of_history (hD : D.ReadsById) (hflat : Flat env.persistent)
    {caller recipient sponsor token : Address} {amount : ℤ} :
    (tx, Event.streamDrained caller recipient sponsor token amount) ∉ history D env txs := by
  induction txs generalizing env with
  | nil => exact List.not_mem_nil
  | cons tx0 txs ih =>
    intro h
    rcases List.mem_append.mp h with h | h
    · obtain ⟨e', he', heq⟩ := List.mem_map.mp h
      cases heq
      exact not_drained_of_flat hflat he'
    · exact ih (flat_step hD env tx0.request hflat) h

theorem mem_claimsIn {l : List Event} {r : Address} {amount : ℤ} :
    (r, amount) ∈ claimsIn l ↔ ∃ ledger, Event.tokensClaimed r amount ledger ∈ l := by
  unfold claimsIn
  rw [List.mem_filterMap]
  constructor
  · rintro ⟨e, he, hclaim⟩
    cases e with
    | tokensClaimed r' amount' ledger =>
      cases hclaim
      exact ⟨ledger, he⟩
    | _ => cases hclaim
  · rintro ⟨ledger, he⟩
    exact ⟨_, he, rfl⟩

/-- The claims of the history are the receipts. -/
theorem mem_receipts_iff (hD : D.ReadsById) (hflat : Flat env.persistent) {r : Address}
    {amount : ℤ} : (tx, r, amount) ∈ receipts D env txs ↔
      ∃ ledger, (tx, Event.tokensClaimed r amount ledger) ∈ history D env txs := by
  induction txs generalizing env with
  | nil => simp [receipts, history]
  | cons tx0 txs ih =>
    have hfirst := claimsIn_newEvents (D := D) hflat tx0.request
    have hrest := ih (flat_step hD env tx0.request hflat)
    unfold receipts history
    simp only [List.mem_append, exists_or, ← hrest, ← hfirst, List.mem_map, Prod.mk.injEq]
    refine or_congr_left ?_
    constructor
    · rintro ⟨p, hp, rfl, rfl⟩
      obtain ⟨ledger, he⟩ := mem_claimsIn.mp hp
      exact ⟨ledger, _, he, rfl, rfl⟩
    · rintro ⟨ledger, e', he, rfl, rfl⟩
      exact ⟨_, mem_claimsIn.mpr ⟨ledger, he⟩, rfl, rfl⟩

/-- What was returned is an `i128`. -/
theorem fits_of_receipts (hD : D.ReadsById) (hflat : Flat env.persistent) {r : Address}
    {amount : ℤ} (h : (tx, r, amount) ∈ receipts D env txs) : Checked.InI128 amount := by
  induction txs generalizing env with
  | nil => cases h
  | cons tx0 txs ih =>
    rcases List.mem_append.mp h with h | h
    · obtain ⟨p, hp, heq⟩ := List.mem_map.mp h
      cases heq
      exact fits_of_returned hflat (Option.mem_toList.mp hp)
    · exact ih (flat_step hD env tx0.request hflat) h

end History

/-! ### The records of the history -/

/-- The symbols in the first topic of the events that the indexer does not know; two emitters of
`events.rs` have two definitions each. -/
def otherSymbols : Event → List String
  | .contractInitialized .. => ["ContractInit"]
  | .allowlistUpdated .. => ["AllowlistUpdated"]
  | .recipientAllowlistUpdated .. => ["RecipientAllowlist"]
  | .variableStreamCreated .. => ["vc_vrcre"]
  | .variableTokensClaimed .. => ["vc_vrclam"]
  | .feeCollected .. => ["FeeCollected"]
  | .feeTaken .. => ["vc_fee"]
  | .streamCompleted .. => ["vc_done"]
  | .streamPaused .. => ["vc_pause", "StreamPaused"]
  | .streamResumed .. => ["vc_resum", "StreamResumed"]
  | .streamTransferred .. => ["StreamTransferred"]
  | .emergencyDrain .. => ["vc_emdrn", "vc_emgdr"]
  | _ => []

-- The addresses of the contract as values of the network, and the hash of a reason.
variable (scAddress : Address → ScAddress) (reasonHash : String → Bytes32)

/-- The record of an event: of an event that the indexer does not know only the symbol matters. -/
structure RecordOf (tx : Transaction) (e : Event) (record : HorizonEventRecord) : Prop where
  hash : record.transactionHash = some tx.hash
  ledger : record.ledger = tx.ledger
  known : ∀ topics data, published scAddress reasonHash e = some (topics, data) →
    present record topics data = record
  unknown : published scAddress reasonHash e = none →
    ∃ symbol ∈ otherSymbols e, record.topic.head? = some (ScVal.symbol symbol).text

/-- The pages hold records of the events only. -/
def Genuine (events : List (Transaction × Event)) (pages : List (List HorizonEventRecord)) : Prop :=
  ∀ record ∈ pages.flatten, ∃ p ∈ events, RecordOf scAddress reasonHash p.1 p.2 record

/-- The pages hold the records of the events, and nothing else. -/
structure Delivered (events : List (Transaction × Event)) (pages : List (List HorizonEventRecord)) :
    Prop where
  genuine : Genuine scAddress reasonHash events pages
  complete : ∀ p ∈ events, ∃ record ∈ pages.flatten, RecordOf scAddress reasonHash p.1 p.2 record

/-- The row of a claim. -/
def claimRow (tx : Transaction) (recipient : Address) (amount : ℤ) : DecodedStreamEvent :=
  ⟨.tokensClaimed, (addr scAddress recipient).text, "", "", some amount, tx.ledger, tx.hash⟩

/-- The recipient whose balance row an event opens or changes. -/
def credited : Event → Option Address
  | .streamCreated _ recipient .. => some recipient
  | _ => none

/-- The type that the event is decoded to, if it is. -/
def decodedType : Event → Option StreamEventType
  | .streamCreated .. => some .streamCreated
  | .tokensClaimed .. => some .tokensClaimed
  | .streamClawedBack .. => some .streamClawedBack
  | .streamDrained .. => some .streamDrained
  | _ => none

/-- What a decoded event keeps of its record. -/
structure DecodedFrom (tx : Transaction) (e : Event) (d : DecodedStreamEvent) : Prop where
  hash : d.transactionHash = tx.hash
  ledger : d.ledgerSequence = tx.ledger
  eventType : decodedType e = some d.eventType
  recipient : ∀ r, credited e = some r → d.recipient = (addr scAddress r).text

section Decoding

variable {scAddress reasonHash} {tx : Transaction} {e : Event} {record : HorizonEventRecord}
  {d : DecodedStreamEvent}

theorem other_symbols_unknown : ∀ e, ∀ symbol ∈ otherSymbols e,
    Readable symbol ∧ symbolToEventType symbol = none := by
  have hall : ∀ symbol ∈ ["ContractInit", "AllowlistUpdated", "RecipientAllowlist", "vc_vrcre",
      "vc_vrclam", "FeeCollected", "vc_fee", "vc_done", "vc_pause", "StreamPaused", "vc_resum",
      "StreamResumed", "StreamTransferred", "vc_emdrn", "vc_emgdr"],
      Readable symbol ∧ symbolToEventType symbol = none := by decide +kernel
  intro e symbol hs
  refine hall symbol ?_
  cases e <;> simp only [otherSymbols, List.mem_cons, List.not_mem_nil, or_false] at hs ⊢ <;>
    tauto

/-- The hash in the record is the one that is stored. -/
theorem RecordOf.txHash (h : RecordOf scAddress reasonHash tx e record) (hne : tx.hash ≠ "") :
    txHash record = tx.hash := by
  unfold Decoder.txHash orElse
  rw [h.hash, Option.getD_some, if_neg hne]
  rfl

theorem RecordOf.decode_unknown (h : RecordOf scAddress reasonHash tx e record)
    (hp : published scAddress reasonHash e = none) : decodeEvent record = none := by
  obtain ⟨symbol, hs, hhead⟩ := h.unknown hp
  obtain ⟨hread, hnone⟩ := other_symbols_unknown e symbol hs
  unfold decodeEvent
  cases ht : record.topic with
  | nil => rfl
  | cons topic rest =>
    rw [ht, List.head?_cons, Option.some.injEq] at hhead
    rw [hhead]
    simp only [decodeSymbol_text hread, hnone]

/-- How a known event is decoded. -/
theorem RecordOf.decode_known (h : RecordOf scAddress reasonHash tx e record) (hne : tx.hash ≠ "")
    {symbol : String} {topics data : List ScVal} (hs : Readable symbol)
    (hp : published scAddress reasonHash e = some (.symbol symbol :: topics, data)) :
    decodeEvent record = (symbolToEventType symbol).bind fun eventType =>
      decodeAs eventType ((ScVal.symbol symbol).text :: topics.map ScVal.text)
        (data.map ScVal.text) tx.ledger tx.hash := by
  rw [← h.txHash hne, ← h.ledger, ← decodeEvent_present hs, h.known _ _ hp]

/-- **A claim** is decoded to its row. -/
theorem RecordOf.decode_claim {r : Address} {amount : ℤ} {ledger : UInt32}
    (h : RecordOf scAddress reasonHash tx (.tokensClaimed r amount ledger) record)
    (hne : tx.hash ≠ "") (hfit : Checked.InI128 amount) :
    decodeEvent record = some (claimRow scAddress tx r amount) := by
  rw [h.decode_known hne (readable_symbols _ (by simp)) rfl]
  refine (if_neg (addr_text_ne_empty r)).trans ?_
  show some (DecodedStreamEvent.mk _ _ _ _ (decodeI128 (some (ScVal.i128 amount).text)) _ _) = _
  rw [decodeI128_text hfit]
  rfl

/-- A decoded event is of the type and for the recipient of its record. -/
theorem RecordOf.decoded (h : RecordOf scAddress reasonHash tx e record) (hne : tx.hash ≠ "")
    (hd : decodeEvent record = some d) : DecodedFrom scAddress tx e d := by
  cases e with
  | streamCreated sponsor r token rate start cliff fin total metadata =>
    have hdec := (h.decode_known hne (readable_symbols _ (by simp)) rfl).symm.trans hd
    obtain rfl := Option.some.inj ((if_neg (addr_text_ne_empty r)).symm.trans hdec)
    exact ⟨rfl, rfl, rfl, fun _ hr => by cases hr; rfl⟩
  | tokensClaimed r amount ledger =>
    have hdec := (h.decode_known hne (readable_symbols _ (by simp)) rfl).symm.trans hd
    obtain rfl := Option.some.inj ((if_neg (addr_text_ne_empty r)).symm.trans hdec)
    exact ⟨rfl, rfl, rfl, nofun⟩
  | streamClawedBack sponsor r token amount ledger reason =>
    have hdec := (h.decode_known hne (readable_symbols _ (by simp)) rfl).symm.trans hd
    obtain rfl := Option.some.inj ((if_neg (addr_text_ne_empty r)).symm.trans hdec)
    exact ⟨rfl, rfl, rfl, nofun⟩
  | streamDrained caller r sponsor token amount =>
    have hdec := (h.decode_known hne (readable_symbols _ (by simp)) rfl).symm.trans hd
    obtain rfl := Option.some.inj ((if_neg (addr_text_ne_empty r)).symm.trans hdec)
    exact ⟨rfl, rfl, rfl, nofun⟩
  | streamCancelled sponsor r refund released ledger =>
    -- the symbol is not in the decoder's table
    have hdec := (h.decode_known hne (readable_symbols _ (by simp)) rfl).symm.trans hd
    cases hdec
  | _ =>
    rw [h.decode_unknown rfl] at hd
    cases hd

/-- Any integer is decoded to an amount. -/
theorem decodeI128_ne_none (v : ℤ) : decodeI128 (some (ScVal.i128 v).text) ≠ none := by
  have hbytes : Base64.decode (ScVal.i128 v).text = word 10 ++ BigEndian.ofInt 16 v :=
    Base64.decode_encode _
  have hlen : 16 ≤ (Base64.decode (ScVal.i128 v).text).length := by rw [hbytes]; simp
  rw [decodeI128_of_length hlen]
  exact Option.some_ne_none _

/-- A creation opens or changes the balance row of its recipient. -/
theorem RecordOf.decode_credited (h : RecordOf scAddress reasonHash tx e record)
    (hne : tx.hash ≠ "") {r : Address} (hr : credited e = some r) :
    ∃ d, decodeEvent record = some d ∧ Credits d := by
  cases e with
  | streamCreated sponsor r token rate start cliff fin total metadata =>
    refine ⟨_, (h.decode_known hne (readable_symbols _ (by simp)) rfl).trans
      (if_neg (addr_text_ne_empty r)), rfl, decodeI128_ne_none total⟩
  | _ => cases hr

end Decoding

/-! ### The pages that the indexer stores -/

/-- `upsertStreamEvents` of what a page decodes to. -/
def indexPage (db : Db) (page : List HorizonEventRecord) : Db :=
  upsertBatch db (page.filterMap decodeEvent)

/-- The batch of the page commits. -/
def PageCommits (db : Db) (page : List HorizonEventRecord) : Prop :=
  Commits db (page.filterMap decodeEvent)

section Rows

variable {db : Db} {events : List DecodedStreamEvent}

end Rows

/-! ### The claims are rolled back -/

section Claims

variable {scAddress reasonHash} {D : Deployment} {env : Env} {txs : List Transaction}
  {pages : List (List HorizonEventRecord)} {d : DecodedStreamEvent}

/-- What is decoded from one page is decoded from the pages. -/
theorem decoded_of_page {page : List HorizonEventRecord} (hpage : page ∈ pages)
    (hd : d ∈ page.filterMap decodeEvent) : d ∈ pages.flatten.filterMap decodeEvent := by
  obtain ⟨record, hrecord, hdec⟩ := List.mem_filterMap.mp hd
  exact List.mem_filterMap.mpr ⟨record, List.mem_flatten_of_mem hpage hrecord, hdec⟩

/-- The decoded events of the pages, each with the event that it comes from. -/
theorem exists_of_decoded (hne : ∀ tx ∈ txs, tx.hash ≠ "")
    (hgenuine : Genuine scAddress reasonHash (history D env txs) pages)
    (hd : d ∈ pages.flatten.filterMap decodeEvent) :
    ∃ tx e record, (tx, e) ∈ history D env txs ∧ RecordOf scAddress reasonHash tx e record ∧
      decodeEvent record = some d ∧ DecodedFrom scAddress tx e d := by
  obtain ⟨record, hrecord, hdec⟩ := List.mem_filterMap.mp hd
  obtain ⟨⟨tx, e⟩, hp, hof⟩ := hgenuine record hrecord
  have htx := hne tx (announces_of_history hp).1
  exact ⟨tx, e, record, hp, hof, hdec, hof.decoded htx hdec⟩

end Claims

/-! ### Which pages commit -/

/-- A record of the event: a record of an unknown event has its first symbol as its only topic. -/
def recordOf (p : Transaction × Event) : HorizonEventRecord :=
  let empty : HorizonEventRecord := ⟨none, "", p.1.ledger, some p.1.hash, [], .array []⟩
  match published scAddress reasonHash p.2 with
  | some (topics, data) => present empty topics data
  | none => { empty with topic := [(ScVal.symbol ((otherSymbols p.2).headD "")).text] }

theorem recordOf_spec (p : Transaction × Event) :
    RecordOf scAddress reasonHash p.1 p.2 (recordOf scAddress reasonHash p) := by
  obtain ⟨tx, e⟩ := p
  cases e with
  | streamCreated | tokensClaimed | streamCancelled | streamClawedBack | streamDrained =>
    exact ⟨rfl, rfl, fun _ _ hp => by cases hp; rfl, nofun⟩
  | _ => exact ⟨rfl, rfl, nofun, fun _ => ⟨_, List.mem_cons_self, rfl⟩⟩

/-- A page with a record of every event, after any page of such records. -/
theorem delivered_recordOf {events : List (Transaction × Event)} {first : List HorizonEventRecord}
    (h : first ⊆ events.map (recordOf scAddress reasonHash)) :
    Delivered scAddress reasonHash events [first, events.map (recordOf scAddress reasonHash)] := by
  have hflat : [first, events.map (recordOf scAddress reasonHash)].flatten =
      first ++ events.map (recordOf scAddress reasonHash) := by simp
  refine ⟨fun record hr => ?_, fun p hp => ?_⟩
  · rw [hflat, List.mem_append] at hr
    obtain ⟨p, hp, rfl⟩ := List.mem_map.mp (hr.elim (fun hf => h hf) id)
    exact ⟨p, hp, recordOf_spec scAddress reasonHash p⟩
  · refine ⟨_, ?_, recordOf_spec scAddress reasonHash p⟩
    rw [hflat]
    exact List.mem_append_right _ (List.mem_map_of_mem hp)

/-- The event is no claim, and if it is a creation, it is for a contract. -/
def Storable : Event → Prop
  | .tokensClaimed .. => False
  | e => ∀ r, credited e = some r → ∃ hash, scAddress r = .contract hash

section Commit

variable {scAddress reasonHash} {D : Deployment} {env : Env} {txs : List Transaction}
  {pages : List (List HorizonEventRecord)}

/-- The text of an address fits `stream_id` exactly if it is the address of a contract. -/
theorem fitsVarchar56_addr_iff {r : Address} : FitsVarchar56 (addr scAddress r).text ↔
    ∃ hash, scAddress r = .contract hash := by
  have hlen := length_text_address (scAddress r)
  unfold FitsVarchar56 addr
  rw [hlen]
  cases scAddress r with
  | account key => simp
  | contract hash => simp

/-- What is decoded from storable events is accepted wherever it stands. -/
theorem accepts_of_decoded (hD : D.ReadsById) (hflat : Flat env.persistent)
    (hne : ∀ tx ∈ txs, tx.hash ≠ "") (hledger : ∀ tx ∈ txs, tx.ledger ≤ 2147483647)
    (hgenuine : Genuine scAddress reasonHash (history D env txs) pages)
    (hstorable : ∀ p ∈ history D env txs, Storable scAddress p.2)
    {d : DecodedStreamEvent} (hd : d ∈ pages.flatten.filterMap decodeEvent) (db : Db) :
    Accepts db d := by
  obtain ⟨tx, e, record, hp, hof, hdec, hfrom⟩ := exists_of_decoded hne hgenuine hd
  have htx := (announces_of_history hp).1
  have hnonneg : 0 ≤ tx.ledger := Int.natCast_nonneg _
  have hmax := hledger tx htx
  have htype := hfrom.eventType
  have hevent := hstorable _ hp
  refine ⟨?_, fun hdrained => ?_, fun hcancelled => ?_, fun _ => ⟨fun hinc => ?_, fun hcr => ?_⟩⟩
  · rw [hfrom.ledger]
    exact ⟨by omega, hmax⟩
  · rw [hdrained] at htype
    cases e with
    | streamDrained => exact not_drained_of_history hD hflat hp
    | _ => cases htype
  · rw [hcancelled] at htype
    cases e <;> cases htype
  · rw [hinc.1] at htype
    cases e with
    | tokensClaimed => exact hevent
    | _ => cases htype
  · rw [hcr.1] at htype
    cases e with
    | streamCreated sponsor r token rate start cliff fin total metadata =>
      rw [hfrom.recipient r rfl]
      exact fitsVarchar56_addr_iff.mpr (hevent r rfl)
    | _ => cases htype

/-- Pages all of whose events are accepted wherever they stand commit. -/
theorem pageCommits_of_accepts {db : Db}
    (h : ∀ d ∈ pages.flatten.filterMap decodeEvent, ∀ db, Accepts db d) :
    AllSteps indexPage PageCommits db pages := by
  have hpage : ∀ page ∈ pages, ∀ db, PageCommits db page := by
    intro page hpage db
    have hevents : ∀ d ∈ page.filterMap decodeEvent, ∀ db, Accepts db d :=
      fun d hd => h d (decoded_of_page hpage hd)
    exact commits_iff.mpr ((allSteps_of_forall hevents).imp fun db d hd => hd db)
  exact (allSteps_of_forall hpage).imp fun db page hp => hp db

end Commit

/-! ### The main results -/

/-- Everyone has tokens, and the vault too. -/
def richBalances : Balances := fun _ _ => 10000000000

/-- The contract is initialised, a stream is created, and half of it is claimed. -/
def sampleTransactions : List Transaction :=
  [⟨"a1", ⟨sampleHost 1, .fixed (.initializeContract ⟨9⟩ 0 ⟨8⟩)⟩⟩,
    ⟨"a2", ⟨sampleHost 100, .fixed (.createVestingStream sampleArgs)⟩⟩,
    ⟨"a3", ⟨sampleHost 200, .fixed (.claimVested ⟨2⟩ none)⟩⟩]

/-- **A claim or an account stops the indexer.** Every delivery of a run of a new contract is stored
without an error exactly if there is no claim in the run, and no creation for an account. -/
theorem deliveries_commit_iff {D : Deployment} (hD : D.ReadsById) (balances : Balances)
    (txs : List Transaction) (hne : ∀ tx ∈ txs, tx.hash ≠ "")
    (hledger : ∀ tx ∈ txs, tx.ledger ≤ 2147483647)
    (streams : String → Option VestingStream) :
    (∀ pages, Delivered scAddress reasonHash (history D (emptyEnv balances) txs) pages →
        AllSteps indexPage PageCommits (Db.fresh streams) pages) ↔
      ∀ p ∈ history D (emptyEnv balances) txs, Storable scAddress p.2 := by
  constructor
  · rintro hall ⟨tx, e⟩ hp
    -- the record of the event may come alone
    have hfirst : [recordOf scAddress reasonHash (tx, e)] ⊆
        (history D (emptyEnv balances) txs).map (recordOf scAddress reasonHash) :=
      List.cons_subset.mpr ⟨List.mem_map_of_mem hp, List.nil_subset _⟩
    have hcommit := (hall _ (delivered_recordOf scAddress reasonHash hfirst)).1
    have htx := hne tx (announces_of_history hp).1
    have hof := recordOf_spec scAddress reasonHash (tx, e)
    have hinsertable : ∀ d, decodeEvent (recordOf scAddress reasonHash (tx, e)) = some d →
        Insertable d := by
      intro d hdec
      unfold PageCommits at hcommit
      rw [List.filterMap_cons_some hdec, commits_iff] at hcommit
      exact hcommit.1.insertable List.not_mem_nil
    have hcredited : ∀ r, credited e = some r → ∃ hash, scAddress r = .contract hash := by
      intro r hr
      obtain ⟨d, hdec, hcredits⟩ := hof.decode_credited htx hr
      have hfits := (hinsertable d hdec).fits hcredits
      rw [(hof.decoded htx hdec).recipient r hr] at hfits
      exact fitsVarchar56_addr_iff.mp hfits
    cases e with
    | tokensClaimed r amount ledger =>
      have hreceipt := (mem_receipts_iff hD flat_empty).mpr ⟨ledger, hp⟩
      have hdec := hof.decode_claim htx (fits_of_receipts hD flat_empty hreceipt)
      exact (hinsertable _ hdec).unclaimed ⟨rfl, Option.some_ne_none _⟩
    | _ => exact hcredited
  · intro hstorable pages hdel
    exact pageCommits_of_accepts fun d hd db =>
      accepts_of_decoded hD flat_empty hne hledger hdel.genuine hstorable hd db

/-- The sample stream is for a contract, and claimed. -/
theorem deliveries_commit_iff_sample :
    (∀ pages, Delivered contractAddress zeroHash
        (history sampleDeployment (emptyEnv richBalances) sampleTransactions) pages →
        AllSteps indexPage PageCommits (Db.fresh fun _ => none) pages) ↔
      ∀ p ∈ history sampleDeployment (emptyEnv richBalances) sampleTransactions,
        Storable contractAddress p.2 :=
  deliveries_commit_iff contractAddress zeroHash sampleDeployment_readsById richBalances
    sampleTransactions (by decide) (by decide) fun _ => none

end VestingDripStream.Backend.IndexedClaims
