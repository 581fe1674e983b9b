import VestingDripStream.Backend.Decoder

/-! # Three decoders

`horizonWorker.ts` and `admin/backfill.ts` decode the same records as `decoder.ts`, each with its
own table of symbols, positions of fields and readers of integers. `decodersAgree_iff` says for each
kind of record when the three return the same. -/

namespace VestingDripStream.Backend.Decoders

open VestingDripStream.Lib VestingDripStream.Lib.Xdr
open VestingDripStream.Backend.Database VestingDripStream.Backend.Decoder

/-! ### What the two share -/

/-- `EventType`. -/
inductive EventType
  | vcCreate
  | vcClaim
  | vcCancel
  | vcDone
  | vcDrain
  deriving DecidableEq, Repr

/-- `KNOWN_TYPES` and `KNOWN_EVENT_TYPES`. -/
def knownType (symbol : String) : Option EventType :=
  if symbol = "vc_create" then some .vcCreate
  else if symbol = "vc_claim" then some .vcClaim
  else if symbol = "vc_cancel" then some .vcCancel
  else if symbol = "vc_done" then some .vcDone
  else if symbol = "vc_drain" then some .vcDrain
  else none

/-- What they decode to; the worker's `DecodedStreamEvent`. -/
structure WorkerEvent where
  eventType : EventType
  recipient : String
  sponsor : Option String
  token : Option String
  amount : Option ℤ
  ledgerSequence : ℤ
  txHash : String
  deriving DecidableEq, Repr

/-- `s.replace(/\0/g, '')`. -/
def withoutNul (s : String) : String := String.ofList (s.toList.filter fun c => c.toNat ≠ 0)

/-- `decodeSymbol` of the two: everything after the first eight bytes. -/
def decodeSymbolTail (xdr : String) : String :=
  let buf := Base64.decode xdr
  if 8 < buf.length then trim (withoutNul (Utf8.decode (buf.drop 8)))
  else trim (printable (Utf8.decode buf))

/-- `x || null`. -/
def orNull (x : Option String) : Option String := x.filter (· ≠ "")

/-! ### `horizonWorker.ts` -/

namespace Worker

/-- `decodeSymbol`. -/
def decodeSymbol (xdr : String) : String := if xdr = "" then "" else decodeSymbolTail xdr

/-- `decodeInt128`. -/
def decodeInt128 (xdr : Option String) : Option ℤ :=
  match xdr with
  | none => none
  | some xdr =>
    if xdr = "" then none
    else
      let buf := Base64.decode xdr
      if 16 ≤ buf.length then do
        let hi ← BigEndian.readBigInt64BE buf (buf.length - 16)
        let lo ← BigEndian.readBigUInt64BE buf (buf.length - 8)
        return hi * 2 ^ 64 + lo
      else if 8 ≤ buf.length then BigEndian.readBigInt64BE buf (buf.length - 8)
      else none

/-- The transaction hash. -/
def txHash (record : HorizonEventRecord) : String :=
  ((record.transactionHash.or (idPrefix record.id)).or record.id).getD ""

/-- The values of a record. -/
def valueFields : EventValue → List String
  | .array l => l
  | .xdr s => if s = "" then [] else [s]
  | .fields _ => []
  | .other => []

/-- `decodeEvent`. -/
def decodeEvent (record : HorizonEventRecord) : Option WorkerEvent :=
  let topics := record.topic
  match knownType (decodeSymbol (topics[0]?.getD "")) with
  | none => none
  | some eventType =>
    let recipient := decodeAddress (topics[1]?.getD "")
    let values := valueFields record.value
    if recipient = "" then none
    else
      let decoded (sponsor token : String) (amount : Option ℤ) : WorkerEvent :=
        ⟨eventType, recipient, orNull (some sponsor), orNull (some token), amount, record.ledger,
          txHash record⟩
      match eventType with
      | .vcCreate =>
        some (decoded (decodeAddress ((topics[2]?.or values[0]?).getD ""))
          (decodeAddress (values[1]?.getD "")) none)
      | .vcClaim => some (decoded "" "" (decodeInt128 values[0]?))
      | .vcCancel => some (decoded "" "" (decodeInt128 values[0]?))
      | .vcDrain => some (decoded (decodeAddress (values[0]?.getD "")) "" (decodeInt128 values[1]?))
      | .vcDone => some (decoded "" (decodeAddress (values[0]?.getD "")) none)

end Worker

/-! ### `admin/backfill.ts` -/

namespace Backfill

/-- `decodeSymbol`. -/
def decodeSymbol (xdr : String) : String := decodeSymbolTail xdr

/-- `decodeBigInt`. -/
def decodeBigInt (xdr : Option String) : Option ℤ :=
  match xdr with
  | none => none
  | some xdr =>
    if xdr = "" then none
    else
      let buf := Base64.decode xdr
      if 8 ≤ buf.length then BigEndian.readBigInt64BE buf (buf.length - 8) else none

/-- The transaction hash. -/
def txHash (record : HorizonEventRecord) : String :=
  (record.transactionHash.or (record.id.map beforeDash)).getD ""

/-- The values of a record. -/
def valueFields : EventValue → List String
  | .xdr s => [s]
  | .array l => l
  | .fields _ => []
  | .other => []

/-- `parseInt(s, 10)` of a text without a minus sign; `none` stands for `NaN`. -/
def parseInt (s : String) : Option ℕ :=
  let text := s.toList.dropWhile isSpace
  let digits := (if text.head? = some '+' then text.tail else text).takeWhile Char.isDigit
  if digits = [] then none else some (digits.foldl (fun n c => n * 10 + (c.toNat - 48)) 0)

/-- `id.split('-')[1] ?? '0'`. -/
def indexText (id : String) : String :=
  if '-' ∈ id.toList then
    String.ofList (((id.toList.dropWhile (· ≠ '-')).drop 1).takeWhile (· ≠ '-'))
  else "0"

/-- The index of the event in its transaction. -/
def eventIndex (record : HorizonEventRecord) : Option ℕ :=
  match record.id with
  | some id => parseInt (indexText id)
  | none => some 0

/-- `DecodedEvent`. -/
structure BackfillEvent extends WorkerEvent where
  eventIndex : Option ℕ
  deriving DecidableEq, Repr

/-- `decodeEvent`. -/
def decodeEvent (record : HorizonEventRecord) (fromLedger toLedger : ℤ) : Option BackfillEvent :=
  let topics := record.topic
  match knownType (decodeSymbolTail (topics[0]?.getD "")) with
  | none => none
  | some eventType =>
    let recipient := decodeAddress (topics[1]?.getD "")
    let values := valueFields record.value
    if record.ledger < fromLedger ∨ toLedger < record.ledger then none
    else
      let decoded (sponsor token : Option String) (amount : Option ℤ) : BackfillEvent :=
        ⟨⟨eventType, recipient, sponsor, token, amount, record.ledger, txHash record⟩,
          eventIndex record⟩
      match eventType with
      | .vcCreate =>
        some (decoded (some (decodeAddress ((topics[2]?.or values[0]?).getD "")))
          (some (decodeAddress (values[1]?.getD ""))) none)
      | .vcClaim => some (decoded none none (decodeBigInt values[0]?))
      | .vcCancel => some (decoded none none (decodeBigInt values[0]?))
      | .vcDrain =>
        some (decoded (some (decodeAddress (values[0]?.getD ""))) none (decodeBigInt values[1]?))
      | .vcDone => some (decoded none (some (decodeAddress (values[0]?.getD ""))) none)

end Backfill

/-! ### `scripts/backfill_stream_events.ts` -/

namespace Script

/-- `decodeSymbol`. -/
def decodeSymbol (xdr : String) : String := decodeSymbolTail xdr

/-- `decodeBigInt`: that of `admin/backfill.ts`. -/
def decodeBigInt (xdr : Option String) : Option ℤ := Backfill.decodeBigInt xdr

/-- The values of a record: those of the worker. -/
def valueFields (value : EventValue) : List String := Worker.valueFields value

/-- The transaction hash: that of `admin/backfill.ts`. -/
def txHash (record : HorizonEventRecord) : String := Backfill.txHash record

/-- `DecodeContext`. -/
structure DecodeContext where
  fromLedger : Option ℤ := none
  toLedger : Option ℤ := none
  eventTypes : List EventType := []

/-- `decodeEvent`; no event types are all of them. -/
def decodeEvent (record : HorizonEventRecord) (ctx : DecodeContext) : Option WorkerEvent :=
  let topics := record.topic
  match knownType (decodeSymbol (topics[0]?.getD "")) with
  | none => none
  | some eventType =>
    if ctx.eventTypes ≠ [] ∧ eventType ∉ ctx.eventTypes then none
    else
      let recipient := decodeAddress (topics[1]?.getD "")
      if ctx.fromLedger.any (record.ledger < ·) then none
      else if ctx.toLedger.any (· < record.ledger) then none
      else
        let values := valueFields record.value
        let decoded (sponsor token : Option String) (amount : Option ℤ) : WorkerEvent :=
          ⟨eventType, recipient, sponsor, token, amount, record.ledger, txHash record⟩
        match eventType with
        | .vcCreate =>
          some (decoded (some (decodeAddress ((topics[2]?.or values[0]?).getD "")))
            (some (decodeAddress (values[1]?.getD ""))) none)
        | .vcClaim => some (decoded none none (decodeBigInt values[0]?))
        | .vcCancel => some (decoded none none (decodeBigInt values[0]?))
        | .vcDrain =>
          some (decoded (some (decodeAddress (values[0]?.getD ""))) none (decodeBigInt values[1]?))
        | .vcDone => some (decoded none (some (decodeAddress (values[0]?.getD ""))) none)

end Script

/-! ### Agreement -/

/-- What is compared; an absent party and an empty one are the same. -/
structure Row where
  recipient : String
  sponsor : Option String
  token : Option String
  amount : Option ℤ
  ledger : ℤ
  txHash : String
  deriving DecidableEq, Repr

/-- The row of the indexer. -/
def indexerRow (d : DecodedStreamEvent) : Row :=
  ⟨d.recipient, orNull (some d.sponsor), orNull (some d.token), d.amount, d.ledgerSequence,
    d.transactionHash⟩

/-- The row of the worker and of the backfill. -/
def workerRow (e : WorkerEvent) : Row :=
  ⟨e.recipient, orNull e.sponsor, orNull e.token, e.amount, e.ledgerSequence, e.txHash⟩

/-- The three decoders recognise the record alike, and return the same. -/
structure DecodersAgree (record : HorizonEventRecord) (fromLedger toLedger : ℤ) : Prop where
  worker : (Worker.decodeEvent record).map workerRow =
    (Decoder.decodeEvent record).map indexerRow
  backfill : (Backfill.decodeEvent record fromLedger toLedger).map (workerRow ·.toWorkerEvent) =
    (Decoder.decodeEvent record).map indexerRow

/-- The kinds of records, by their symbols: the contract cancels with `StreamCancelled`, the
decoders know `vc_cancel`. -/
inductive RecordKind
  | streamCreated
  | claim
  | streamCancelled
  | cancel
  | drain
  deriving DecidableEq, Repr

/-- The symbol in the first topic. -/
def RecordKind.symbol : RecordKind → String
  | .streamCreated => "StreamCreated"
  | .claim => "vc_claim"
  | .streamCancelled => "StreamCancelled"
  | .cancel => "vc_cancel"
  | .drain => "vc_drain"

/-- The last eight bytes of a buffer, as an integer. -/
def lastInt64 (buf : List UInt8) : ℤ :=
  BigEndian.signed 8 (BigEndian.nat (buf.drop (buf.length - 8)))

/-- The bytes of a value; an absent one has none. -/
def valueBytes (xdr : Option String) : List UInt8 := Base64.decode (xdr.getD "")

/-- The indexer reads in `x` the amount that the two others read in `y`. -/
def SameAmount (x y : List UInt8) : Prop :=
  (x.length < 16 ∧ y.length < 8) ∨
    (16 ≤ x.length ∧ 8 ≤ y.length ∧ lastInt128 x = lastInt64 y ∧
      (16 ≤ y.length → lastInt128 y = lastInt64 y))

/-- The three chains of fallbacks lead to the same transaction hash. -/
def SameHash (record : HorizonEventRecord) : Prop :=
  match record.transactionHash with
  | some hash => hash = "" → record.id.getD "" = ""
  | none => ∀ id, record.id = some id → id.toList.head? ≠ some '-'

/-- When the three agree on a record of the kind with the other `topics` and `values`. -/
def Agreeable (record : HorizonEventRecord) (topics values : List String) : RecordKind → Prop
  | .streamCreated => topics[1]?.getD "" = ""
  | .streamCancelled => True
  | .claim | .cancel =>
    topics[0]?.getD "" ≠ "" ∧ SameHash record ∧
      SameAmount (valueBytes values[0]?) (valueBytes values[0]?)
  | .drain =>
    topics[0]?.getD "" ≠ "" ∧ SameHash record ∧ values[0]?.getD "" = values[1]?.getD "" ∧
      values[2]?.getD "" = "" ∧ SameAmount (valueBytes values[3]?) (valueBytes values[1]?)

/-! ### Parties -/

theorem orNull_orNull (x : Option String) : orNull (orNull x) = orNull x := by
  unfold orNull
  rw [Option.filter_filter]
  simp

theorem orNull_eq_none {s : String} : orNull (some s) = none ↔ s = "" := by
  unfold orNull
  simp

theorem orNull_some_inj {s t : String} : orNull (some s) = orNull (some t) ↔ s = t := by
  unfold orNull
  by_cases hs : s = "" <;> by_cases ht : t = "" <;> simp [Option.filter_some, hs, ht, eq_comm]

/-! ### The readers of integers -/

theorem readInt64 {buf : List UInt8} (h : 8 ≤ buf.length) :
    BigEndian.readBigInt64BE buf (buf.length - 8) = some (lastInt64 buf) := by
  unfold BigEndian.readBigInt64BE BigEndian.read
  rw [if_pos (by omega), List.take_of_length_le (by rw [List.length_drop]; omega)]
  rfl

/-- A missing value is read as no bytes. -/
theorem valueBytes_none : valueBytes none = [] := Base64.decode_empty

theorem valueBytes_empty : valueBytes (some "") = [] := Base64.decode_empty

/-- A value is missing, empty or a text. -/
theorem value_induct {motive : Option String → Prop} (missing : motive none)
    (empty : motive (some "")) (text : ∀ xdr, xdr ≠ "" → motive (some xdr)) (x : Option String) :
    motive x := by
  cases x with
  | none => exact missing
  | some xdr =>
    by_cases hne : xdr = ""
    · rwa [hne]
    · exact text xdr hne

/-- The indexer reads sixteen bytes or more. -/
theorem decodeI128_eq (x : Option String) : decodeI128 x =
    if 16 ≤ (valueBytes x).length then some (lastInt128 (valueBytes x)) else none := by
  induction x using value_induct with
  | missing => rw [valueBytes_none]; rfl
  | empty => rw [valueBytes_empty]; rfl
  | text xdr hne =>
    have hbytes : valueBytes (some xdr) = Base64.decode xdr := rfl
    rw [hbytes]
    split_ifs with h16
    · exact decodeI128_of_length h16
    · unfold decodeI128
      simp only [if_neg hne, if_neg h16]
      rw [if_neg (by omega)]
      split_ifs with h12
      · -- twelve bytes are taken for a tagged integer, whose second half is not there
        have hlo : BigEndian.readBigUInt64BE (Base64.decode xdr) 12 = none := by
          unfold BigEndian.readBigUInt64BE BigEndian.read
          rw [if_neg (by omega)]
          rfl
        show (BigEndian.readBigInt64BE (Base64.decode xdr) 4).bind _ = none
        cases BigEndian.readBigInt64BE (Base64.decode xdr) 4 with
        | none => rfl
        | some hi =>
          show (BigEndian.readBigUInt64BE (Base64.decode xdr) 12).bind _ = none
          rw [hlo]
          rfl
      · rfl

/-- The worker reads eight bytes or more. -/
theorem decodeInt128_eq (x : Option String) : Worker.decodeInt128 x =
    if 16 ≤ (valueBytes x).length then some (lastInt128 (valueBytes x))
    else if 8 ≤ (valueBytes x).length then some (lastInt64 (valueBytes x)) else none := by
  induction x using value_induct with
  | missing => rw [valueBytes_none]; rfl
  | empty => rw [valueBytes_empty]; rfl
  | text xdr hne =>
    have hbytes : valueBytes (some xdr) = Base64.decode xdr := rfl
    rw [hbytes]
    unfold Worker.decodeInt128
    simp only [if_neg hne]
    split_ifs with h16 h8
    · have hoff : (Base64.decode xdr).length - 8 = (Base64.decode xdr).length - 16 + 8 := by omega
      rw [hoff]
      exact readInt128 _ (by omega)
    · exact readInt64 h8
    · rfl

/-- The backfill reads the last eight bytes. -/
theorem decodeBigInt_eq (x : Option String) : Backfill.decodeBigInt x =
    if 8 ≤ (valueBytes x).length then some (lastInt64 (valueBytes x)) else none := by
  induction x using value_induct with
  | missing => rw [valueBytes_none]; rfl
  | empty => rw [valueBytes_empty]; rfl
  | text xdr hne =>
    have hbytes : valueBytes (some xdr) = Base64.decode xdr := rfl
    rw [hbytes]
    unfold Backfill.decodeBigInt
    simp only [if_neg hne]
    split_ifs with h8
    · exact readInt64 h8
    · rfl

/-- **The amounts agree** exactly if the indexer's sixteen bytes are the others' eight. -/
theorem sameAmount_iff (x y : Option String) :
    (Worker.decodeInt128 y = decodeI128 x ∧ Backfill.decodeBigInt y = decodeI128 x) ↔
      SameAmount (valueBytes x) (valueBytes y) := by
  rw [decodeI128_eq, decodeInt128_eq, decodeBigInt_eq]
  unfold SameAmount
  constructor
  · rintro ⟨h1, h2⟩
    split_ifs at h1 h2 <;> simp only [Option.some.injEq] at h1 h2 <;> grind
  · rintro (⟨h1, h2⟩ | ⟨h1, h2, h3, h4⟩)
    · have hy : ¬ 16 ≤ (valueBytes y).length := by omega
      rw [if_neg hy, if_neg (not_le.mpr h2), if_neg (not_le.mpr h1)]
      exact ⟨rfl, rfl⟩
    · rw [if_pos h2, if_pos h1, h3]
      refine ⟨?_, rfl⟩
      split_ifs with h16
      · rw [h4 h16]
      · rfl

/-! ### The transaction hashes -/

theorem beforeDash_of_not_mem {s : String} (h : '-' ∉ s.toList) : beforeDash s = s := by
  unfold beforeDash
  rw [List.takeWhile_eq_self_iff.mpr, String.ofList_toList]
  intro c hc
  have hne : c ≠ '-' := fun he => h (he ▸ hc)
  simpa using hne

theorem beforeDash_eq_empty {s : String} :
    beforeDash s = "" ↔ s = "" ∨ s.toList.head? = some '-' := by
  have hempty : ∀ l : List Char, String.ofList l = "" ↔ l = [] := fun l => by
    rw [← String.toList_inj, String.toList_ofList, String.toList_empty]
  have hs : s = "" ↔ s.toList = [] := by rw [← String.toList_inj, String.toList_empty]
  unfold beforeDash
  rw [hempty, hs, List.takeWhile_eq_nil_iff]
  cases s.toList with
  | nil => simp
  | cons c l => simp

/-- The prefix of an id is what stands before its first dash. -/
theorem idPrefix_eq (id : Option String) : idPrefix id = id.map beforeDash := by
  unfold idPrefix
  cases id with
  | none => rfl
  | some s =>
    by_cases h : '-' ∈ s.toList
    · simp [h]
    · simp [h, beforeDash_of_not_mem h]

/-- **The hashes agree** exactly under `SameHash`. -/
theorem sameHash_iff (record : HorizonEventRecord) :
    (Worker.txHash record = Decoder.txHash record ∧
      Backfill.txHash record = Decoder.txHash record) ↔ SameHash record := by
  obtain ⟨id, pagingToken, ledger, hash, topic, value⟩ := record
  unfold Worker.txHash Backfill.txHash Decoder.txHash SameHash
  simp only [idPrefix_eq]
  cases hash with
  | some hash =>
    by_cases h : hash = ""
    · subst h
      -- the indexer goes on to the id
      cases id with
      | none => simp [orElse]
      | some id =>
        by_cases hid : id = ""
        · simp [orElse, hid, beforeDash_eq_empty.mpr]
        · by_cases hd : beforeDash id = ""
          · simp [orElse, hid, hd, Ne.symm hid]
          · simp [orElse, hid, hd, Ne.symm hd]
    · simp [orElse, h]
  | none =>
    cases id with
    | none => simp [orElse]
    | some id =>
      by_cases hd : beforeDash id = ""
      · rcases beforeDash_eq_empty.mp hd with rfl | hhead
        · simp [orElse, hd]
        · have hid : id ≠ "" := by
            rintro rfl
            simp at hhead
          simp [orElse, hd, hid, hhead, Ne.symm hid]
      · have hhead : id.toList.head? ≠ some '-' := fun h => hd (beforeDash_eq_empty.mpr (Or.inr h))
        simp [orElse, hd, hhead]

/-! ### Each kind of record -/

/-- The first topic of a record of the kind. -/
def RecordKind.topic (kind : RecordKind) : String := (ScVal.symbol kind.symbol).text

theorem decodeSymbol_topic (kind : RecordKind) : decodeSymbol kind.topic = kind.symbol := by
  cases kind <;> decide +kernel

theorem decodeSymbolTail_topic (kind : RecordKind) : decodeSymbolTail kind.topic = kind.symbol := by
  cases kind <;> decide +kernel

theorem topic_ne_empty (kind : RecordKind) : kind.topic ≠ "" := ScVal.text_ne_empty _

section Kind

variable {record : HorizonEventRecord} {kind : RecordKind} {topics values : List String}
  {fromLedger toLedger : ℤ}

/-- The indexer's decoder goes by the symbol of the kind. -/
theorem decodeEvent_kind (ht : record.topic = kind.topic :: topics)
    (hv : record.value = .array values) :
    Decoder.decodeEvent record = (symbolToEventType kind.symbol).bind fun eventType =>
      decodeAs eventType (kind.topic :: topics) values record.ledger (Decoder.txHash record) := by
  unfold Decoder.decodeEvent
  simp only [ht, hv, decodeSymbol_topic, extractValueXdrs]
  cases symbolToEventType kind.symbol <;> rfl

/-- A symbol outside the table of the worker and the backfill. -/
theorem decodeEvents_of_unknown (fromLedger toLedger : ℤ) (ht : record.topic = kind.topic :: topics)
    (hk : knownType kind.symbol = none) :
    Worker.decodeEvent record = none ∧ Backfill.decodeEvent record fromLedger toLedger = none := by
  unfold Worker.decodeEvent Worker.decodeSymbol Backfill.decodeEvent
  simp only [ht, List.getElem?_cons_zero, Option.getD_some, if_neg (topic_ne_empty kind),
    decodeSymbolTail_topic, hk, and_self]

/-- **A creation** is known to the indexer only. -/
theorem agree_streamCreated (ht : record.topic = RecordKind.streamCreated.topic :: topics)
    (hv : record.value = .array values) :
    DecodersAgree record fromLedger toLedger ↔ Agreeable record topics values .streamCreated := by
  obtain ⟨hworker, hbackfill⟩ := decodeEvents_of_unknown fromLedger toLedger ht rfl
  have hindexer : Decoder.decodeEvent record = decodeStreamCreated
      (RecordKind.streamCreated.topic :: topics) values record.ledger (Decoder.txHash record) :=
    decodeEvent_kind ht hv
  have hnone : Decoder.decodeEvent record = none ↔ topics[1]?.getD "" = "" := by
    rw [hindexer]
    unfold decodeStreamCreated decodeAddress
    simp
  rw [show Agreeable record topics values .streamCreated ↔ topics[1]?.getD "" = "" from Iff.rfl,
    ← hnone]
  constructor
  · intro h
    have hmap := h.worker
    rw [hworker] at hmap
    simpa using hmap.symm
  · intro h
    exact ⟨by rw [hworker, h]; rfl, by rw [hbackfill, h]; rfl⟩

/-- **`StreamCancelled`** is known to none of the three. -/
theorem agree_streamCancelled (ht : record.topic = RecordKind.streamCancelled.topic :: topics)
    (hv : record.value = .array values) : DecodersAgree record fromLedger toLedger := by
  obtain ⟨hworker, hbackfill⟩ := decodeEvents_of_unknown fromLedger toLedger ht rfl
  have hindexer : Decoder.decodeEvent record = none := decodeEvent_kind ht hv
  exact ⟨by rw [hworker, hindexer]; rfl, by rw [hbackfill, hindexer]; rfl⟩

/-- A record that all three know, by the fields that they read. -/
theorem agree_of_known (eventType : EventType) (type : StreamEventType)
    (recipient sponsor token party : String) (x y : Option String)
    (hworker : Worker.decodeEvent record = if recipient = "" then none else
      some ⟨eventType, recipient, orNull (some party), none, Worker.decodeInt128 y, record.ledger,
        Worker.txHash record⟩)
    (hbackfill : (Backfill.decodeEvent record fromLedger toLedger).map (workerRow ·.toWorkerEvent) =
      some ⟨recipient, orNull (some party), none, Backfill.decodeBigInt y, record.ledger,
        Backfill.txHash record⟩)
    (hindexer : Decoder.decodeEvent record = if recipient = "" then none else
      some ⟨type, recipient, sponsor, token, decodeI128 x, record.ledger,
        Decoder.txHash record⟩) :
    DecodersAgree record fromLedger toLedger ↔ recipient ≠ "" ∧ SameHash record ∧ sponsor = party ∧
      token = "" ∧ SameAmount (valueBytes x) (valueBytes y) := by
  rw [← sameHash_iff, ← sameAmount_iff]
  by_cases hr : recipient = ""
  · -- only the backfill takes an event without a recipient
    rw [if_pos hr] at hindexer
    refine iff_of_false (fun h => ?_) (fun h => h.1 hr)
    have hmap := h.backfill
    rw [hbackfill, hindexer] at hmap
    cases hmap
  rw [if_neg hr] at hworker hindexer
  constructor
  · rintro ⟨hw, hb⟩
    rw [hworker, hindexer] at hw
    rw [hbackfill, hindexer] at hb
    simp only [Option.map_some, Option.some.injEq, workerRow, indexerRow, Row.mk.injEq,
      orNull_orNull, orNull_some_inj, true_and] at hw hb
    obtain ⟨hparty, htoken, hamount, hhash⟩ := hw
    obtain ⟨-, -, hamount', hhash'⟩ := hb
    exact ⟨hr, ⟨hhash, hhash'⟩, hparty.symm, orNull_eq_none.mp htoken.symm, hamount, hamount'⟩
  · rintro ⟨-, ⟨hhash, hhash'⟩, hparty, htoken, hamount, hamount'⟩
    constructor
    · rw [hworker, hindexer]
      simp only [Option.map_some, workerRow, indexerRow, orNull_orNull, hparty, htoken, hamount,
        hhash]
      rfl
    · rw [hbackfill, hindexer]
      simp only [Option.map_some, indexerRow, hparty, htoken, hamount', hhash']
      rfl

/-- The worker goes by the symbol of the kind. -/
theorem worker_known (ht : record.topic = kind.topic :: topics) {eventType : EventType}
    (hk : knownType kind.symbol = some eventType) :
    knownType (Worker.decodeSymbol (record.topic[0]?.getD "")) = some eventType := by
  unfold Worker.decodeSymbol
  rw [ht, List.getElem?_cons_zero, Option.getD_some, if_neg (topic_ne_empty kind),
    decodeSymbolTail_topic, hk]

/-- The backfill goes by the symbol of the kind. -/
theorem backfill_known (ht : record.topic = kind.topic :: topics) {eventType : EventType}
    (hk : knownType kind.symbol = some eventType) :
    knownType (decodeSymbolTail (record.topic[0]?.getD "")) = some eventType := by
  rw [ht, List.getElem?_cons_zero, Option.getD_some, decodeSymbolTail_topic, hk]

/-- **A claim or a cancellation** is a recipient and an amount. -/
theorem agree_amount (ht : record.topic = kind.topic :: topics) (hv : record.value = .array values)
    (hrange : ¬ (record.ledger < fromLedger ∨ toLedger < record.ledger)) {eventType : EventType}
    {type : StreamEventType} (hamount : eventType = .vcClaim ∨ eventType = .vcCancel)
    (hk : knownType kind.symbol = some eventType) (hs : symbolToEventType kind.symbol = some type)
    (has : decodeAs type = decodeAmount type) :
    DecodersAgree record fromLedger toLedger ↔ topics[0]?.getD "" ≠ "" ∧ SameHash record ∧
      SameAmount (valueBytes values[0]?) (valueBytes values[0]?) := by
  have hrecipient : record.topic[1]? = topics[0]? := by rw [ht]; rfl
  refine (agree_of_known eventType type (topics[0]?.getD "") "" "" "" values[0]? values[0]?
    ?_ ?_ ?_).trans ?_
  · unfold Worker.decodeEvent
    simp only [worker_known ht hk, hv, Worker.valueFields, hrecipient, decodeAddress]
    rcases hamount with rfl | rfl <;> rfl
  · unfold Backfill.decodeEvent
    simp only [backfill_known ht hk, hv, Backfill.valueFields, hrecipient, decodeAddress,
      if_neg hrange]
    rcases hamount with rfl | rfl <;> rfl
  · rw [decodeEvent_kind ht hv, hs, Option.bind_some, has]
    rfl
  · tauto

/-- The three decoders agree on a record of one of the kinds exactly if it is `Agreeable`. -/
theorem decodersAgree_iff (record : HorizonEventRecord) (kind : RecordKind)
    (topics values : List String) (ht : record.topic = kind.topic :: topics)
    (hv : record.value = .array values) (fromLedger toLedger : ℤ)
    (hfrom : fromLedger ≤ record.ledger) (hto : record.ledger ≤ toLedger) :
    DecodersAgree record fromLedger toLedger ↔ Agreeable record topics values kind := by
  have hrange : ¬ (record.ledger < fromLedger ∨ toLedger < record.ledger) := by omega
  have hrecipient : record.topic[1]? = topics[0]? := by rw [ht]; rfl
  cases kind with
  | streamCreated => exact agree_streamCreated ht hv
  | streamCancelled => exact iff_of_true (agree_streamCancelled ht hv) trivial
  | claim => exact agree_amount ht hv hrange (Or.inl rfl) rfl rfl rfl
  | cancel => exact agree_amount ht hv hrange (Or.inr rfl) rfl rfl rfl
  | drain =>
    refine (agree_of_known .vcDrain .streamDrained (topics[0]?.getD "") (values[1]?.getD "")
      (values[2]?.getD "") (values[0]?.getD "") values[3]? values[1]? ?_ ?_ ?_).trans ?_
    · unfold Worker.decodeEvent
      simp only [worker_known ht rfl, hv, Worker.valueFields, hrecipient, decodeAddress]
      rfl
    · unfold Backfill.decodeEvent
      simp only [backfill_known ht rfl, hv, Backfill.valueFields, hrecipient, decodeAddress,
        if_neg hrange]
      rfl
    · exact decodeEvent_kind ht hv
    · unfold Agreeable
      tauto

end Kind

/-- The record of an event of the contract. -/
def recordOf (e : Contract.Types.Event) : Option HorizonEventRecord :=
  (published contractAddress zeroHash e).map fun p => present emptyRecord p.1 p.2

/-- The texts of a recipient and of an amount of 100. -/
def recipientText : String := (addr contractAddress ⟨2⟩).text

/-- The XDR text of an amount. -/
def amountText : String := (ScVal.i128 100).text

/-- A claim of 100. -/
def claimRecord : HorizonEventRecord :=
  { emptyRecord with
    topic := [RecordKind.claim.topic, recipientText]
    value := .array [amountText] }

theorem decodersAgree_iff_claim :
    DecodersAgree claimRecord 7 7 ↔ Agreeable claimRecord [recipientText] [amountText] .claim :=
  decodersAgree_iff claimRecord .claim [recipientText] [amountText] rfl rfl 7 7 (by decide)
    (by decide)

/-- A creation, a drain and a claim of `2 ^ 63`, as the contract publishes them. -/
theorem creation_drain_claim_decoded_apart :
    (∃ record, recordOf (.streamCreated ⟨1⟩ ⟨2⟩ ⟨10⟩ 1 7 7 107 100 none) = some record ∧
      ¬ DecodersAgree record 7 7) ∧
    (∃ record, recordOf (.streamDrained ⟨3⟩ ⟨2⟩ ⟨1⟩ ⟨10⟩ 100) = some record ∧
      ¬ DecodersAgree record 7 7) ∧
    (∃ record, recordOf (.tokensClaimed ⟨2⟩ (2 ^ 63) 7) = some record ∧
      ¬ DecodersAgree record 7 7) := by
  refine ⟨⟨_, rfl, fun h => ?_⟩, ⟨_, rfl, fun h => ?_⟩, ⟨_, rfl, fun h => ?_⟩⟩
  · -- the worker does not know the symbol
    exact absurd h.worker (by decide +kernel)
  · -- the worker takes the caller for the sponsor
    exact absurd h.worker (by decide +kernel)
  · -- the backfill reads the last eight bytes
    exact absurd h.backfill (by decide +kernel)

end VestingDripStream.Backend.Decoders
