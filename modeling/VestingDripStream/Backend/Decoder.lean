import Mathlib.Data.List.DropRight
import VestingDripStream.Contract.Types
import VestingDripStream.Lib.Xdr
import VestingDripStream.Backend.Database

/-! # The indexer's decoder

`decoder.ts`: a Horizon record becomes an event of the indexer by the symbol in its first topic and
by the positions of the other topics and values. The second part presents the contract's events to
it, as the XDR of their topics and of their data fields, and says which are decoded to what they
say: a creation, a claim and a drain always are, a cancellation never, as its symbol is not in the
decoder's table, and a clawback only if what stands at the decoder's positions happens to be right
(`decodesFaithfully_iff`). -/

namespace VestingDripStream.Backend.Decoder

open VestingDripStream.Lib VestingDripStream.Lib.Xdr
open VestingDripStream.Backend.Database

/-! ### Records and strings of JavaScript -/

/-- The `value` of a record: an array of XDR strings, one under `xdr`, an array under `fields`, or
anything else. -/
inductive EventValue
  | array (l : List String)
  | xdr (s : String)
  | fields (l : List String)
  | other
  deriving DecidableEq, Repr

/-- `HorizonEventRecord`; the decoders also expect records without a hash or an id. -/
structure HorizonEventRecord where
  id : Option String
  pagingToken : String
  ledger : ℤ
  transactionHash : Option String
  topic : List String
  value : EventValue
  deriving DecidableEq, Repr

/-- `x || y`, for strings that may be absent. -/
def orElse (x y : Option String) : Option String := if x.getD "" = "" then y else x

/-- `s.split('-')[0]`. -/
def beforeDash (s : String) : String := String.ofList (s.toList.takeWhile (· ≠ '-'))

/-- `id?.includes('-') ? id.split('-')[0] : id`. -/
def idPrefix (id : Option String) : Option String :=
  id.map fun s => if '-' ∈ s.toList then beforeDash s else s

/-- `s.replace(/[^\x20-\x7e]/g, '')`. -/
def printable (s : String) : String :=
  String.ofList (s.toList.filter fun c => 0x20 ≤ c.toNat ∧ c.toNat ≤ 0x7e)

/-- The white space that `trim` removes. -/
def isSpace (c : Char) : Bool :=
  (9 ≤ c.toNat ∧ c.toNat ≤ 13) ∨ (0x2000 ≤ c.toNat ∧ c.toNat ≤ 0x200A) ∨
    c.toNat ∈ [0x20, 0xA0, 0x1680, 0x2028, 0x2029, 0x202F, 0x205F, 0x3000, 0xFEFF]

/-- `s.trim()`. -/
def trim (s : String) : String :=
  String.ofList ((s.toList.dropWhile isSpace).rdropWhile isSpace)

/-! ### `decoder.ts` -/

/-- `SYMBOL_TO_EVENT_TYPE`. -/
def symbolToEventType (symbol : String) : Option StreamEventType :=
  if symbol = "StreamCreated" then some .streamCreated
  else if symbol = "vc_claim" then some .tokensClaimed
  else if symbol = "vc_cancel" then some .streamCancelled
  else if symbol = "vc_claw" then some .streamClawedBack
  else if symbol = "vc_drain" then some .streamDrained
  else none

/-- `decodeSymbol`. -/
def decodeSymbol (xdr : String) : String :=
  if xdr = "" then ""
  else
    let buf := Base64.decode xdr
    if buf.length < 8 then trim (printable (Utf8.decode buf))
    else
      match BigEndian.readUInt32BE buf 4 with
      | none => xdr
      | some len =>
        if len = 0 ∨ buf.length < 8 + len then trim (printable (Utf8.decode (buf.drop 8)))
        else Utf8.decode ((buf.drop 8).take len)

/-- `decodeAddress`: every branch returns the argument. -/
def decodeAddress (xdr : String) : String := xdr

/-- `decodeI128`. -/
def decodeI128 (xdr : Option String) : Option ℤ :=
  match xdr with
  | none => none
  | some xdr =>
    if xdr = "" then none
    else do
      let buf := Base64.decode xdr
      let hiOffset ←
        if buf.length = 20 then some 4
        else if buf.length = 12 then some 4
        else if 16 ≤ buf.length then some (buf.length - 16)
        else none
      let hi ← BigEndian.readBigInt64BE buf hiOffset
      let lo ← BigEndian.readBigUInt64BE buf (hiOffset + 8)
      -- `(hi << 64n) | lo`, where `lo` is below `2 ^ 64`
      return hi * 2 ^ 64 + lo

/-- `extractValueXdrs`. -/
def extractValueXdrs : EventValue → List String
  | .array l => l
  | .xdr s => [s]
  | .fields l => l
  | .other => []

/-- The transaction hash of a record, from its id if need be. -/
def txHash (record : HorizonEventRecord) : String :=
  (orElse record.transactionHash (orElse (idPrefix record.id) (orElse record.id (some "")))).getD ""

/-- `decodeStreamCreated`. -/
def decodeStreamCreated (topics values : List String) (ledger : ℤ) (txHash : String) :
    Option DecodedStreamEvent :=
  let sponsor := decodeAddress (topics[1]?.getD "")
  let recipient := decodeAddress (topics[2]?.getD "")
  if recipient = "" then none
  else some ⟨.streamCreated, recipient, sponsor, decodeAddress (values[0]?.getD ""),
    decodeI128 (values[5]?.or values[1]?), ledger, txHash⟩

/-- `decodeTokensClaimed` and `decodeStreamCancelled`: a recipient and an amount. -/
def decodeAmount (eventType : StreamEventType) (topics values : List String) (ledger : ℤ)
    (txHash : String) : Option DecodedStreamEvent :=
  let recipient := decodeAddress (topics[1]?.getD "")
  if recipient = "" then none
  else some ⟨eventType, recipient, "", "", decodeI128 values[0]?, ledger, txHash⟩

/-- `decodeStreamClawedBack` and `decodeStreamDrained`: sponsor, token and amount from the value at
`first` on. -/
def decodeParties (eventType : StreamEventType) (first : ℕ) (topics values : List String)
    (ledger : ℤ) (txHash : String) : Option DecodedStreamEvent :=
  let recipient := decodeAddress (topics[1]?.getD "")
  if recipient = "" then none
  else some ⟨eventType, recipient, decodeAddress (values[first]?.getD ""),
    decodeAddress (values[first + 1]?.getD ""), decodeI128 values[first + 2]?, ledger, txHash⟩

/-- `decodeTokensClaimed`. -/
def decodeTokensClaimed := decodeAmount .tokensClaimed

/-- `decodeStreamCancelled`. -/
def decodeStreamCancelled := decodeAmount .streamCancelled

/-- `decodeStreamClawedBack`: `values` are sponsor, token, amount and reason. -/
def decodeStreamClawedBack := decodeParties .streamClawedBack 0

/-- `decodeStreamDrained`: `values` are caller, sponsor, token and amount. -/
def decodeStreamDrained := decodeParties .streamDrained 1

/-- The `switch` of `decodeEvent`. -/
def decodeAs : StreamEventType → (topics values : List String) → (ledger : ℤ) →
    (txHash : String) → Option DecodedStreamEvent
  | .streamCreated => decodeStreamCreated
  | .tokensClaimed => decodeTokensClaimed
  | .streamCancelled => decodeStreamCancelled
  | .streamClawedBack => decodeStreamClawedBack
  | .streamDrained => decodeStreamDrained

/-- `decodeEvent`; `none` stands for `null`. -/
def decodeEvent (record : HorizonEventRecord) : Option DecodedStreamEvent :=
  match record.topic with
  | [] => none
  | topic :: _ =>
    match symbolToEventType (decodeSymbol topic) with
    | none => none
    | some eventType =>
      decodeAs eventType record.topic (extractValueXdrs record.value) record.ledger (txHash record)

/-! ### What the decoder reads from XDR -/

/-- The last sixteen bytes of a buffer, as an integer. -/
def lastInt128 (buf : List UInt8) : ℤ :=
  BigEndian.signed 16 (BigEndian.nat (buf.drop (buf.length - 16)))

/-- The two halves of an integer of sixteen bytes. -/
theorem readInt128 {buf : List UInt8} (offset : ℕ) (h : buf.length = offset + 16) :
    (do let hi ← BigEndian.readBigInt64BE buf offset
        let lo ← BigEndian.readBigUInt64BE buf (offset + 8)
        return hi * 2 ^ 64 + lo : Option ℤ) = some (lastInt128 buf) := by
  have hhi : BigEndian.read 8 buf offset = some ((buf.drop offset).take 8) := by
    unfold BigEndian.read
    rw [if_pos (by omega)]
  have hlo : BigEndian.read 8 buf (offset + 8) = some ((buf.drop (offset + 8)).take 8) := by
    unfold BigEndian.read
    rw [if_pos (by omega)]
  have hlohi : (buf.drop (offset + 8)).take 8 = (buf.drop offset).drop 8 := by
    rw [List.drop_drop, List.take_of_length_le]
    rw [List.length_drop]
    omega
  have hleft : ((buf.drop offset).take 8).length = 8 := by simp; omega
  have hright : ((buf.drop offset).drop 8).length = 8 := by simp; omega
  have hwhole := BigEndian.signed_append hleft hright
  rw [List.take_append_drop] at hwhole
  unfold BigEndian.readBigInt64BE BigEndian.readBigUInt64BE
  rw [hhi, hlo, hlohi]
  simp only [Option.map_some, Option.bind_eq_bind, Option.bind_some, Option.pure_def,
    Option.some.injEq]
  unfold lastInt128
  rw [show buf.length - 16 = offset by omega, ← hwhole]
  norm_num

/-- A buffer of sixteen bytes or more ends with the integer. -/
theorem decodeI128_of_length {xdr : String} (h : 16 ≤ (Base64.decode xdr).length) :
    decodeI128 (some xdr) = some (lastInt128 (Base64.decode xdr)) := by
  have hne : xdr ≠ "" := by
    rintro rfl
    simp at h
  unfold decodeI128
  simp only [if_neg hne]
  by_cases h20 : (Base64.decode xdr).length = 20
  · rw [if_pos h20]
    exact readInt128 4 h20
  · rw [if_neg h20, if_neg (by omega), if_pos h]
    exact readInt128 ((Base64.decode xdr).length - 16) (by omega)

/-- An integer is decoded to itself. -/
theorem decodeI128_text {v : ℤ} (h : Checked.InI128 v) :
    decodeI128 (some (ScVal.i128 v).text) = some v := by
  have hbytes : Base64.decode (ScVal.i128 v).text = word 10 ++ BigEndian.ofInt 16 v :=
    Base64.decode_encode _
  rw [decodeI128_of_length (by rw [hbytes]; simp), hbytes]
  unfold lastInt128
  rw [List.drop_left' (by simp)]
  obtain ⟨hmin, hmax⟩ := h
  rw [BigEndian.signed_ofInt]
  · unfold Checked.i128Min at hmin
    norm_num at hmin ⊢
    omega
  · unfold Checked.i128Max at hmax
    norm_num at hmax ⊢
    omega

/-- An address is read as the integer of its last bytes. -/
theorem decodeI128_address (a : ScAddress) :
    decodeI128 (some (ScVal.address a).text) = some (lastInt128 (ScVal.address a).xdr) := by
  have hbytes : Base64.decode (ScVal.address a).text = (ScVal.address a).xdr :=
    Base64.decode_encode _
  rw [decodeI128_of_length, hbytes]
  rw [hbytes]
  rcases length_xdr_address a with h | h <;> omega

/-- A symbol of ASCII characters whose length fits its length field. -/
structure Readable (s : String) : Prop where
  ascii : ∀ c ∈ s.toList, Utf8.IsAscii c
  pos : (Utf8.encode s).length ≠ 0
  fits : (Utf8.encode s).length < 256 ^ 4

instance (s : String) : Decidable (Readable s) :=
  have : Decidable (∀ c ∈ s.toList, Utf8.IsAscii c) := List.decidableBAll _ _
  decidable_of_iff ((∀ c ∈ s.toList, Utf8.IsAscii c) ∧ (Utf8.encode s).length ≠ 0 ∧
    (Utf8.encode s).length < 256 ^ 4) ⟨fun h => ⟨h.1, h.2.1, h.2.2⟩, fun h => ⟨h.1, h.2, h.3⟩⟩

/-- **A symbol** is decoded to itself, whatever its tag is. -/
theorem decodeSymbol_encoded {tag : List UInt8} (ht : tag.length = 4) {s : String}
    (h : Readable s) : decodeSymbol (Base64.encode (tag ++ opaqueVar (Utf8.encode s))) = s := by
  obtain ⟨hascii, hpos, hlen⟩ := h
  set enc := Utf8.encode s with henc
  set pad := List.replicate ((4 - enc.length % 4) % 4) (0 : UInt8) with hpad
  have hbuf : tag ++ opaqueVar enc = tag ++ (word enc.length ++ (enc ++ pad)) := by
    unfold opaqueVar
    rw [List.append_assoc (word enc.length)]
  have hcount : (tag ++ opaqueVar enc).length = 8 + enc.length + pad.length := by
    rw [hbuf]
    simp only [List.length_append, length_word, ht]
    omega
  have hne : tag ++ opaqueVar enc ≠ [] := by
    intro hnil
    rw [hnil] at hcount
    simp at hcount
    omega
  have hread : BigEndian.readUInt32BE (tag ++ opaqueVar enc) 4 = some enc.length := by
    unfold BigEndian.readUInt32BE BigEndian.read
    rw [if_pos (by omega), hbuf, List.drop_left' ht, List.take_left' (length_word _)]
    simp only [Option.map_some, word, BigEndian.nat_bytes, Nat.mod_eq_of_lt hlen]
  have hdrop : (tag ++ opaqueVar enc).drop 8 = enc ++ pad := by
    rw [hbuf, ← List.append_assoc]
    exact List.drop_left' (by simp [ht])
  unfold decodeSymbol
  rw [if_neg (Base64.encode_ne_empty hne), Base64.decode_encode]
  simp only [hcount, hread, hdrop]
  rw [if_neg (by omega), if_neg (by omega), List.take_left' rfl, henc]
  exact Utf8.decode_encode hascii

theorem decodeSymbol_text {s : String} (h : Readable s) :
    decodeSymbol (ScVal.symbol s).text = s := decodeSymbol_encoded (length_word 15) h

/-! ### The events of the contract -/

section Contract

open VestingDripStream.Contract.Types

-- The addresses of the contract as values of the network, and the hash of a reason.
variable (scAddress : Address → ScAddress) (reasonHash : String → Bytes32)

/-- An address in a topic or a field. -/
def addr (a : Address) : ScVal := .address (scAddress a)

/-- The topics and the data fields of the events that the indexer knows, nested structures
flattened in the order of their declaration. -/
def published : Event → Option (List ScVal × List ScVal)
  | .streamCreated sponsor recipient token rate startLedger cliffLedger endLedger totalDeposit
      metadata =>
    some ([.symbol "StreamCreated", addr scAddress sponsor, addr scAddress recipient],
      [addr scAddress token, .i128 rate, .u32 startLedger, .u32 cliffLedger, .u32 endLedger,
        .i128 totalDeposit, metadata.elim .void .string])
  | .tokensClaimed recipient amount ledgerClaimedThrough =>
    some ([.symbol "vc_claim", addr scAddress recipient], [.i128 amount, .u32 ledgerClaimedThrough])
  | .streamCancelled sponsor recipient refundToSponsor releasedToRecipient ledger =>
    some ([.symbol "StreamCancelled", addr scAddress recipient],
      [addr scAddress sponsor, .i128 refundToSponsor, .i128 releasedToRecipient, .u32 ledger])
  | .streamClawedBack sponsor recipient token amountRecovered ledger reason =>
    some ([.symbol "vc_claw", addr scAddress recipient],
      [addr scAddress sponsor, addr scAddress recipient, addr scAddress token,
        .i128 amountRecovered, .bytes (reasonHash reason).val, .u32 ledger, .string reason])
  | .streamDrained caller recipient sponsor token amount =>
    some ([.symbol "vc_drain", addr scAddress recipient],
      [addr scAddress caller, addr scAddress sponsor, addr scAddress token, .i128 amount])
  | _ => none

/-- A record with these topics and data fields. -/
def present (record : HorizonEventRecord) (topics data : List ScVal) : HorizonEventRecord :=
  { record with topic := topics.map ScVal.text, value := .array (data.map ScVal.text) }

/-- What an event says. -/
structure Announcement where
  eventType : StreamEventType
  recipient : Address
  sponsor : Option Address
  token : Option Address
  amount : ℤ

/-- The type, the parties and the amount of an event: the deposit, or what was claimed, refunded,
recovered or drained. -/
def announcement : Event → Option Announcement
  | .streamCreated sponsor recipient token _ _ _ _ totalDeposit _ =>
    some ⟨.streamCreated, recipient, some sponsor, some token, totalDeposit⟩
  | .tokensClaimed recipient amount _ => some ⟨.tokensClaimed, recipient, none, none, amount⟩
  | .streamCancelled sponsor recipient refundToSponsor _ _ =>
    some ⟨.streamCancelled, recipient, some sponsor, none, refundToSponsor⟩
  | .streamClawedBack sponsor recipient token amountRecovered _ _ =>
    some ⟨.streamClawedBack, recipient, some sponsor, some token, amountRecovered⟩
  | .streamDrained _ recipient sponsor token amount =>
    some ⟨.streamDrained, recipient, some sponsor, some token, amount⟩
  | _ => none

/-- The decoded event says the same; a sponsor or a token may be left out. -/
structure Says (d : DecodedStreamEvent) (a : Announcement) : Prop where
  eventType : d.eventType = a.eventType
  recipient : d.recipient = (addr scAddress a.recipient).text
  sponsor : d.sponsor ≠ "" → ∃ s, a.sponsor = some s ∧ d.sponsor = (addr scAddress s).text
  token : d.token ≠ "" → ∃ t, a.token = some t ∧ d.token = (addr scAddress t).text
  amount : d.amount = some a.amount

/-- The indexer decodes the event, presented in the record, to what it says. -/
def DecodesFaithfully (record : HorizonEventRecord) (e : Event) : Prop :=
  ∃ topics data a d, published scAddress reasonHash e = some (topics, data) ∧
    announcement e = some a ∧ decodeEvent (present record topics data) = some d ∧
    Says scAddress d a

/-- The event is a creation, a claim or a drain; or a clawback of a token that is written as the
recipient, and whose XDR ends with the amount. -/
def Decodable : Event → Prop
  | .streamCreated .. => True
  | .tokensClaimed .. => True
  | .streamDrained .. => True
  | .streamClawedBack _ recipient token amountRecovered _ _ =>
    (addr scAddress token).text = (addr scAddress recipient).text ∧
      lastInt128 (addr scAddress token).xdr = amountRecovered
  | _ => False

/-- The amount that an event announces is an `i128`. -/
def AmountFits (e : Event) : Prop := ∀ a, announcement e = some a → Checked.InI128 a.amount

variable {scAddress reasonHash}

theorem addr_text_ne_empty (a : Address) : (addr scAddress a).text ≠ "" := ScVal.text_ne_empty _

/-- The decoder that a symbol selects. -/
theorem decodeEvent_present {record : HorizonEventRecord} {symbol : String}
    {topics data : List ScVal} (hs : Readable symbol) :
    decodeEvent (present record (.symbol symbol :: topics) data) =
      (symbolToEventType symbol).bind fun eventType =>
        decodeAs eventType ((ScVal.symbol symbol).text :: topics.map ScVal.text)
          (data.map ScVal.text) record.ledger (txHash record) := by
  unfold decodeEvent present
  simp only [List.map_cons, decodeSymbol_text hs]
  cases symbolToEventType symbol <;> rfl

/-- An event whose symbol selects a decoder. -/
theorem decodesFaithfully_of_symbol {record : HorizonEventRecord} {e : Event} {symbol : String}
    {topics data : List ScVal} {a : Announcement} {d : DecodedStreamEvent}
    (hp : published scAddress reasonHash e = some (.symbol symbol :: topics, data))
    (ha : announcement e = some a) (hs : Readable symbol)
    (hd : ((symbolToEventType symbol).bind fun eventType =>
      decodeAs eventType ((ScVal.symbol symbol).text :: topics.map ScVal.text)
        (data.map ScVal.text) record.ledger (txHash record)) = some d) :
    DecodesFaithfully scAddress reasonHash record e ↔ Says scAddress d a := by
  rw [← decodeEvent_present hs] at hd
  constructor
  · rintro ⟨topics', data', a', d', hp', ha', hd', hsays⟩
    rw [hp] at hp'
    rw [ha] at ha'
    cases hp'
    cases ha'
    rw [hd] at hd'
    cases hd'
    exact hsays
  · exact fun hsays => ⟨_, data, a, d, hp, ha, hd, hsays⟩

/-- The symbols of the events in `published`. -/
theorem readable_symbols : ∀ symbol ∈
    ["StreamCreated", "vc_claim", "StreamCancelled", "vc_claw", "vc_drain"], Readable symbol := by
  decide +kernel

/-- The indexer decodes an event of the contract to what it says exactly if it is a creation, a
claim or a drain, or a clawback whose token and amount are found in the wrong places. -/
theorem decodesFaithfully_iff (scAddress : Address → ScAddress) (reasonHash : String → Bytes32)
    (record : HorizonEventRecord) (e : Event) (hfit : AmountFits e) :
    DecodesFaithfully scAddress reasonHash record e ↔ Decodable scAddress e := by
  cases e with
  | streamCreated sponsor recipient token rate startLedger cliffLedger endLedger totalDeposit
      metadata =>
    have hamount : decodeI128 (some (ScVal.i128 totalDeposit).text) = some totalDeposit :=
      decodeI128_text (hfit _ rfl)
    refine iff_of_true (Iff.mpr (decodesFaithfully_of_symbol rfl rfl
      (readable_symbols _ (by simp)) (if_neg (addr_text_ne_empty recipient))) ?_) trivial
    exact ⟨rfl, rfl, fun _ => ⟨sponsor, rfl, rfl⟩, fun _ => ⟨token, rfl, rfl⟩, hamount⟩
  | tokensClaimed recipient amount ledgerClaimedThrough =>
    have hamount : decodeI128 (some (ScVal.i128 amount).text) = some amount :=
      decodeI128_text (hfit _ rfl)
    refine iff_of_true (Iff.mpr (decodesFaithfully_of_symbol rfl rfl
      (readable_symbols _ (by simp)) (if_neg (addr_text_ne_empty recipient))) ?_) trivial
    exact ⟨rfl, rfl, fun h => absurd rfl h, fun h => absurd rfl h, hamount⟩
  | streamDrained caller recipient sponsor token amount =>
    have hamount : decodeI128 (some (ScVal.i128 amount).text) = some amount :=
      decodeI128_text (hfit _ rfl)
    refine iff_of_true (Iff.mpr (decodesFaithfully_of_symbol rfl rfl
      (readable_symbols _ (by simp)) (if_neg (addr_text_ne_empty recipient))) ?_) trivial
    exact ⟨rfl, rfl, fun _ => ⟨sponsor, rfl, rfl⟩, fun _ => ⟨token, rfl, rfl⟩, hamount⟩
  | streamCancelled sponsor recipient refundToSponsor releasedToRecipient ledger =>
    -- the symbol is not in the table
    refine iff_of_false ?_ id
    rintro ⟨topics, data, a, d, hp, -, hd, -⟩
    cases hp
    have hnone : none = some d :=
      (decodeEvent_present (readable_symbols _ (by simp))).symm.trans hd
    cases hnone
  | streamClawedBack sponsor recipient token amountRecovered ledger reason =>
    -- the token is read in the place of the recipient, and the amount in that of the token
    refine Iff.trans (decodesFaithfully_of_symbol rfl rfl (readable_symbols _ (by simp))
      (if_neg (addr_text_ne_empty recipient))) ?_
    constructor
    · intro h
      obtain ⟨t, ht, htoken⟩ := h.token (addr_text_ne_empty recipient)
      cases ht
      exact ⟨htoken.symm,
        Option.some.inj ((decodeI128_address (scAddress token)).symm.trans h.amount)⟩
    · rintro ⟨htoken, hamount⟩
      refine ⟨rfl, rfl, fun _ => ⟨sponsor, rfl, rfl⟩, fun _ => ⟨token, rfl, htoken.symm⟩, ?_⟩
      exact (decodeI128_address (scAddress token)).trans (congrArg some hamount)
  | _ =>
    refine iff_of_false ?_ id
    rintro ⟨topics, data, a, d, hp, -⟩
    cases hp

/-- Addresses of contracts, numbered. -/
def contractAddress (a : Address) : ScAddress :=
  .contract ⟨BigEndian.bytes 32 a.id, BigEndian.length_bytes 32 a.id⟩

/-- A hash of zeros. -/
def zeroHash (_ : String) : Bytes32 := ⟨List.replicate 32 0, rfl⟩

/-- A record without its topics and its data. -/
def emptyRecord : HorizonEventRecord := ⟨some "1-0", "1-0", 7, some "a1", [], .array []⟩

theorem decodesFaithfully_iff_claim :
    DecodesFaithfully contractAddress zeroHash emptyRecord (.tokensClaimed ⟨2⟩ 100 7) ↔
      Decodable contractAddress (.tokensClaimed ⟨2⟩ 100 7) :=
  decodesFaithfully_iff contractAddress zeroHash emptyRecord (.tokensClaimed ⟨2⟩ 100 7)
    (by rintro a ⟨⟩; decide)

/-- A cancellation is not recognised, and a clawback is decoded to another token and amount. -/
theorem cancelled_or_clawedBack_misread :
    ¬ DecodesFaithfully contractAddress zeroHash emptyRecord (.streamCancelled ⟨1⟩ ⟨2⟩ 50 150 7) ∧
      ¬ DecodesFaithfully contractAddress zeroHash emptyRecord
        (.streamClawedBack ⟨1⟩ ⟨2⟩ ⟨10⟩ 200 7 "sanction") := by
  have hcancelled : (published contractAddress zeroHash (.streamCancelled ⟨1⟩ ⟨2⟩ 50 150 7)).bind
      (fun p => decodeEvent (present emptyRecord p.1 p.2)) = none := by decide +kernel
  have hclawedBack : ((published contractAddress zeroHash
      (.streamClawedBack ⟨1⟩ ⟨2⟩ ⟨10⟩ 200 7 "sanction")).bind
      (fun p => decodeEvent (present emptyRecord p.1 p.2))).map (·.amount) = some (some 10) := by
    decide +kernel
  refine ⟨?_, ?_⟩
  · rintro ⟨topics, data, a, d, hp, -, hd, -⟩
    rw [hp] at hcancelled
    cases hcancelled.symm.trans hd
  · rintro ⟨topics, data, a, d, hp, ha, hd, hsays⟩
    rw [hp, Option.bind_some, hd] at hclawedBack
    cases ha
    cases hclawedBack.symm.trans (congrArg some hsays.amount)

end Contract

end VestingDripStream.Backend.Decoder
