import VestingDripStream.Backend.AuthNonces
import Std.Data.String.ToInt

/-! # The schedules of a sponsor

`GET /api/v1/schedules` lists the streams of a sponsor page by page. The middleware checks the token
(`authMiddlewareV1`) and the query (`SchedulesQuerySchema`); `schedulesHandler` compares the subject
of the token with the sponsor that is asked for, looks for the page in Redis, which all callers and
all processes share, and otherwise asks the database twice, for the number of streams and for those
of the page, and stores the response for the next callers. Other requests, writes to the database
and evictions take place between these steps.

`ownSchedulesOnly`: whoever is signed in with an address sees streams of this address only, also in
the answers that come from the cache. `listing_genuine`: every answer is one that the database gave
to a request for the same page, and one from the cache was stored at most `CACHE_TTL_MS` ago. -/

namespace VestingDripStream.Backend.ScheduleListing

open VestingDripStream.Lib.Run VestingDripStream.Backend.AuthNonces

/-! ### Queries -/

/-- `STREAM_STATUSES`. -/
inductive StreamStatus
  | active
  | preCliff
  | expired
  | cancelled
  deriving DecidableEq, Repr

/-- The status as the API writes it. -/
def StreamStatus.text : StreamStatus → String
  | .active => "active"
  | .preCliff => "pre_cliff"
  | .expired => "expired"
  | .cancelled => "cancelled"

/-- `SORT_VALUES`. -/
inductive SortField
  | cliffAsc
  | cliffDesc
  | endAsc
  | endDesc
  | claimableAsc
  | claimableDesc
  | recipientAsc
  | recipientDesc
  deriving DecidableEq, Repr

/-- The sort order as the query string has it. -/
def SortField.text : SortField → String
  | .cliffAsc => "cliff_asc"
  | .cliffDesc => "cliff_desc"
  | .endAsc => "end_asc"
  | .endDesc => "end_desc"
  | .claimableAsc => "claimable_asc"
  | .claimableDesc => "claimable_desc"
  | .recipientAsc => "recipient_asc"
  | .recipientDesc => "recipient_desc"

/-- What the handler needs of the numbers of JavaScript without `NaN` and with one zero. Different
numbers are written differently, and `bigint` is how Postgres reads one as an offset. -/
structure Numbers (N : Type) where
  ofNat : ℕ → N
  add : N → N → N
  sub : N → N → N
  mul : N → N → N
  max : N → N → N
  lt : N → N → Bool
  bigint : N → Option ℕ
  text : N → String
  text_injective : Function.Injective text
  text_plain : ∀ n, ':' ∉ (text n).toList

/-- `SchedulesQuerySchema`: what is left of the query after it. -/
structure SchedulesQuery (N : Type) where
  sponsor : String
  sponsor_valid : isStellarAddress sponsor = true
  status : Option StreamStatus
  sort : SortField
  page : N
  limit : ℕ
  limit_valid : 1 ≤ limit ∧ limit ≤ 100
  cursor : String

/-- The `Authorization` header: there is no bearer token, `jwt.verify` throws, or it gives a payload
with this `sub`. -/
inductive Authorization
  | missing
  | invalid
  | verified (sub : Option String)
  deriving DecidableEq, Repr

/-- What is listed: the page `page` of the streams of a sponsor. -/
structure Listing (N : Type) where
  sponsor : String
  sponsor_valid : isStellarAddress sponsor = true
  status : Option StreamStatus
  sort : SortField
  page : N
  limit : ℕ

/-- `CursorPayload`. -/
structure CursorPayload (N : Type) where
  page : N
  offset : N
  deriving DecidableEq, Repr

/-! ### The database -/

/-- A row of `vesting_streams`, with the columns that are listed; moments are in milliseconds. -/
structure VestingStream where
  recipientAddress : String
  sponsorAddress : String
  tokenAddress : Option String
  ratePerLedger : ℤ
  startLedger : ℤ
  cliffLedger : ℤ
  endLedger : ℤ
  lastClaimedLedger : ℤ
  status : String
  cancelledAt : Option ℤ
  createdAt : ℤ
  deriving DecidableEq, Repr

/-- A row of `stream_events`. -/
structure StreamEvent where
  recipient : String
  eventType : String
  ledgerSequence : ℤ
  deriving DecidableEq, Repr

/-- The two tables that a listing reads. -/
structure Db where
  vestingStreams : List VestingStream
  streamEvents : List StreamEvent
  deriving DecidableEq, Repr

/-- The newest claim event of a recipient. -/
def lastClaim (db : Db) (recipient : String) : Option ℤ :=
  ((db.streamEvents.filter fun e => e.recipient = recipient ∧ e.eventType = "vc_claim").map
    StreamEvent.ledgerSequence).max?

/-- `claimable_amount`, a text. -/
def claimableAmount (db : Db) (s : VestingStream) : String :=
  toString (max 0 (((lastClaim db s.recipientAddress).getD s.startLedger - s.lastClaimedLedger) *
    s.ratePerLedger))

/-- `ScheduleItem`. -/
structure ScheduleItem where
  recipient : String
  sponsor : String
  token : Option String
  ratePerLedger : String
  startLedger : ℤ
  cliffLedger : ℤ
  endLedger : ℤ
  status : String
  cancelledAt : Option ℤ
  claimableAmount : String
  createdAt : ℤ
  deriving DecidableEq, Repr

/-- The item that the page has for a row. -/
def scheduleItem (db : Db) (s : VestingStream) : ScheduleItem where
  recipient := s.recipientAddress
  sponsor := s.sponsorAddress
  token := s.tokenAddress
  ratePerLedger := toString s.ratePerLedger
  startLedger := s.startLedger
  cliffLedger := s.cliffLedger
  endLedger := s.endLedger
  status := s.status
  cancelledAt := s.cancelledAt
  claimableAmount := claimableAmount db s
  createdAt := s.createdAt

/-- `SchedulesResponse`. -/
structure SchedulesResponse (N : Type) where
  items : List ScheduleItem
  total : ℕ
  page : N
  limit : ℕ
  nextCursor : Option (CursorPayload N)
  prevCursor : Option (CursorPayload N)
  deriving DecidableEq, Repr

section Handler

variable {N : Type} (num : Numbers N)

/-- `WHERE`. -/
def matching (db : Db) (q : Listing N) : List VestingStream :=
  db.vestingStreams.filter fun s =>
    s.sponsorAddress = q.sponsor ∧ ∀ status ∈ q.status, s.status = status.text

/-- `SORT_MAP`: may `s` stand before `s'`? Texts are compared by the collation of the database, also
the amounts, which are texts in the `SELECT` list. -/
def mayPrecede (collate : String → String → Bool) (db : Db) : SortField →
    VestingStream → VestingStream → Bool
  | .cliffAsc, s, s' => s.cliffLedger ≤ s'.cliffLedger
  | .cliffDesc, s, s' => s'.cliffLedger ≤ s.cliffLedger
  | .endAsc, s, s' => s.endLedger ≤ s'.endLedger
  | .endDesc, s, s' => s'.endLedger ≤ s.endLedger
  | .claimableAsc, s, s' => collate (claimableAmount db s) (claimableAmount db s')
  | .claimableDesc, s, s' => collate (claimableAmount db s') (claimableAmount db s)
  | .recipientAsc, s, s' => collate s.recipientAddress s'.recipientAddress
  | .recipientDesc, s, s' => collate s'.recipientAddress s.recipientAddress

/-- `ORDER BY`: an order that Postgres may choose. -/
structure Sorted (collate : String → String → Bool) (db : Db) (q : Listing N)
    (order : List VestingStream) : Prop where
  perm : order.Perm (matching db q)
  pairwise : order.Pairwise fun s s' => mayPrecede collate db q.sort s s' = true

instance (collate : String → String → Bool) (db : Db) (q : Listing N)
    (order : List VestingStream) : Decidable (Sorted collate db q order) :=
  decidable_of_iff (order.Perm (matching db q) ∧
      order.Pairwise fun s s' => mayPrecede collate db q.sort s s' = true)
    ⟨fun h => ⟨h.1, h.2⟩, fun h => ⟨h.perm, h.pairwise⟩⟩

/-- `offset`. -/
def offset (q : Listing N) : N := num.mul (num.sub q.page (num.ofNat 1)) (num.ofNat q.limit)

/-- `LIMIT` and `OFFSET` of an order, unless Postgres refuses the offset. -/
def pageOf (db : Db) (q : Listing N) (order : List VestingStream) : Option (List ScheduleItem) :=
  (num.bigint (offset num q)).map fun from' =>
    ((order.drop from').take q.limit).map (scheduleItem db)

/-- The response to a listing. -/
def response (q : Listing N) (total : ℕ) (items : List ScheduleItem) : SchedulesResponse N where
  items := items
  total := total
  page := q.page
  limit := q.limit
  nextCursor :=
    if num.lt (num.add (offset num q) (num.ofNat items.length)) (num.ofNat total) then
      some ⟨num.add q.page (num.ofNat 1), num.add (offset num q) (num.ofNat q.limit)⟩
    else none
  prevCursor :=
    if num.lt (num.ofNat 1) q.page then
      some ⟨num.sub q.page (num.ofNat 1),
        num.max (num.ofNat 0) (num.sub (offset num q) (num.ofNat q.limit))⟩
    else none

/-- `cacheKey`. -/
def cacheKey (q : Listing N) : String :=
  "schedules:v1:" ++ q.sponsor ++ ":" ++ (q.status.map StreamStatus.text).getD "" ++ ":" ++
    q.sort.text ++ ":" ++ num.text q.page ++ ":" ++ toString q.limit

/-- The page that is listed; `decodeCursor` gives the page of a cursor that it can read. -/
def pageAsked (decodeCursor : String → Option N) (q : SchedulesQuery N) : N :=
  if q.cursor ≠ "" then (decodeCursor q.cursor).getD q.page else q.page

/-- What is listed for a query. -/
def listing (decodeCursor : String → Option N) (q : SchedulesQuery N) : Listing N where
  sponsor := q.sponsor
  sponsor_valid := q.sponsor_valid
  status := q.status
  sort := q.sort
  page := pageAsked decodeCursor q
  limit := q.limit

/-- The requests that `authMiddlewareV1` and the handler refuse, with the status and the message. -/
def refusal (auth : Authorization) (q : SchedulesQuery N) : Option (ℕ × String) :=
  match auth with
  | .missing => some (401, "Authorization header with Bearer token required")
  | .invalid => some (401, "invalid or expired token")
  | .verified sub =>
    let address := sub.getD ""
    if address ≠ "" ∧ address ≠ q.sponsor then
      some (403, "JWT wallet address does not match sponsor parameter")
    else none

end Handler

/-! ### Requests under way -/

/-- An answer; `ok` has the header `X-Cache`. -/
inductive Answer (N : Type)
  | error (status : ℕ) (message : String)
  | ok (xCache : String) (body : SchedulesResponse N)
  deriving DecidableEq, Repr

/-- How far a request is: it asks the cache, it waits for the two queries of the database, or it is
answered. What a query gave has the version of the database with it. -/
inductive Phase (N : Type)
  | looking
  | querying (total : Option (ℕ × ℕ)) (items : Option (List ScheduleItem × ℕ))
  | answered (answer : Answer N) (time : ℕ)
  deriving DecidableEq, Repr

/-- A request; `storedAt` is when its response was stored in the cache. -/
structure Call (N : Type) where
  authorization : Authorization
  query : SchedulesQuery N
  arrivedIn : ℕ
  phase : Phase N
  storedAt : Option ℕ

/-- A response in Redis. -/
structure Entry (N : Type) where
  body : SchedulesResponse N
  storedAt : ℕ
  deriving DecidableEq, Repr

/-- The database in its versions, Redis, and the requests. -/
structure World (N : Type) where
  now : ℕ
  versions : ℕ → Db
  newest : ℕ
  redis : String → Option (Entry N)
  calls : ℕ → Option (Call N)

/-- The steps: a request arrives; it asks Redis, if there is a connection; the database counts the
streams or reads a page in some order, or a query fails; the response is sent and, later, stored;
Redis drops a key; the database changes; and time passes. -/
inductive Action (N : Type)
  | request (id : ℕ) (authorization : Authorization) (query : SchedulesQuery N)
  | cacheGet (id : ℕ) (connected : Bool)
  | countQuery (id : ℕ)
  | rowsQuery (id : ℕ) (order : List VestingStream)
  | queryError (id : ℕ)
  | respond (id : ℕ)
  | cacheSet (id : ℕ)
  | evict (key : String)
  | write (db : Db)
  | tick

section System

variable {N : Type} (num : Numbers N) (decodeCursor : String → Option N) (cacheTtlMs : ℕ)

/-- `redis.get`: an entry can be read for `CACHE_TTL_MS`, and no longer at its end. -/
def World.get (w : World N) (key : String) : Option (Entry N) :=
  (w.redis key).filter fun e => w.now < e.storedAt + cacheTtlMs

/-- The world with another call at `id`. -/
def World.setCall (w : World N) (id : ℕ) (c : Call N) : World N :=
  { w with calls := Function.update w.calls id (some c) }

/-- The call goes on to another phase. -/
def World.advance (w : World N) (id : ℕ) (c : Call N) (ph : Phase N) : World N :=
  w.setCall id { c with phase := ph }

/-- A step of one call. -/
def World.onCall (w : World N) (id : ℕ) (f : Call N → World N) : World N :=
  match w.calls id with
  | none => w
  | some c => f c

/-- The answer to a query that throws. -/
def internalError : Answer N := .error 500 "Internal server error"

/-- The first phase of a request. -/
def onRequest (now : ℕ) (auth : Authorization) (q : SchedulesQuery N) : Phase N :=
  match refusal auth q with
  | some (status, message) => .answered (.error status message) now
  | none => .looking

/-- `cacheGet`. -/
def onGet (w : World N) (connected : Bool) (c : Call N) : Phase N :=
  match c.phase with
  | .looking =>
    if connected then
      match w.get cacheTtlMs (cacheKey num (listing decodeCursor c.query)) with
      | some e => .answered (.ok "HIT" e.body) w.now
      | none => .querying none none
    else .querying none none
  | ph => ph

/-- The query with `countSql`. -/
def onCount (w : World N) (c : Call N) : Phase N :=
  match c.phase with
  | .querying none items =>
    .querying (some ((matching (w.versions w.newest) (listing decodeCursor c.query)).length,
      w.newest)) items
  | ph => ph

/-- The query with `sql`, which throws if Postgres refuses the offset. -/
def onRows (w : World N) (order : List VestingStream) (c : Call N) : Phase N :=
  match c.phase with
  | .querying total none =>
    match pageOf num (w.versions w.newest) (listing decodeCursor c.query) order with
    | some items => .querying total (some (items, w.newest))
    | none => .answered internalError w.now
  | ph => ph

/-- A query throws. -/
def onError (now : ℕ) (c : Call N) : Phase N :=
  match c.phase with
  | .querying _ _ => .answered internalError now
  | ph => ph

/-- Both queries are done. -/
def onRespond (now : ℕ) (c : Call N) : Phase N :=
  match c.phase with
  | .querying (some (total, _)) (some (items, _)) =>
    .answered (.ok "MISS" (response num (listing decodeCursor c.query) total items)) now
  | ph => ph

/-- `cacheSet`. -/
def World.store (w : World N) (id : ℕ) (c : Call N) : World N :=
  match c.phase, c.storedAt with
  | .answered (.ok "MISS" body) _, none =>
    { w.setCall id { c with storedAt := some w.now } with
      redis := Function.update w.redis (cacheKey num (listing decodeCursor c.query))
        (some ⟨body, w.now⟩) }
  | _, _ => w

/-- One step. -/
def step (w : World N) : Action N → World N
  | .request id auth q =>
    match w.calls id with
    | some _ => w
    | none => w.setCall id ⟨auth, q, w.newest, onRequest w.now auth q, none⟩
  | .cacheGet id connected =>
    w.onCall id fun c => w.advance id c (onGet num decodeCursor cacheTtlMs w connected c)
  | .countQuery id => w.onCall id fun c => w.advance id c (onCount decodeCursor w c)
  | .rowsQuery id order => w.onCall id fun c => w.advance id c (onRows num decodeCursor w order c)
  | .queryError id => w.onCall id fun c => w.advance id c (onError w.now c)
  | .respond id => w.onCall id fun c => w.advance id c (onRespond num decodeCursor w.now c)
  | .cacheSet id => w.onCall id fun c => w.store num decodeCursor id c
  | .evict key => { w with redis := Function.update w.redis key none }
  | .write db =>
    { w with
      versions := Function.update w.versions (w.newest + 1) db
      newest := w.newest + 1 }
  | .tick => { w with now := w.now + 1 }

/-- No request has arrived, and Redis is empty. -/
def World.start (db : Db) : World N := ⟨0, fun _ => db, 0, fun _ => none, fun _ => none⟩

/-- Postgres reads a page in an order that it may choose. -/
def Legal (collate : String → String → Bool) (w : World N) : Action N → Prop
  | .rowsQuery id order => ∀ c ∈ w.calls id,
      Sorted collate (w.versions w.newest) (listing decodeCursor c.query) order
  | _ => True

instance (collate : String → String → Bool) (w : World N) (a : Action N) :
    Decidable (Legal decodeCursor collate w a) := by
  unfold Legal; split <;> infer_instance

end System

/-! ### Keys -/

section Keys

variable {N : Type} {num : Numbers N} {q q' : Listing N}

/-- The parts of a key. -/
def keyFields (num : Numbers N) (q : Listing N) : List (List Char) :=
  ["schedules".toList, "v1".toList, q.sponsor.toList,
    ((q.status.map StreamStatus.text).getD "").toList, q.sort.text.toList,
    (num.text q.page).toList, q.limit.repr.toList]

theorem toList_cacheKey (q : Listing N) :
    (cacheKey num q).toList = List.intercalate [':'] (keyFields num q) := by
  have hlimit : toString q.limit = q.limit.repr := rfl
  have hlead : "schedules:v1:".toList = "schedules".toList ++ ':' :: "v1".toList ++ [':'] := rfl
  have hcolon : ":".toList = [':'] := rfl
  unfold cacheKey keyFields
  rw [hlimit]
  simp only [String.toList_append, hlead, hcolon, List.intercalate, List.intersperse,
    List.flatten_cons, List.flatten_nil, List.append_assoc, List.cons_append, List.nil_append,
    List.append_nil]

theorem sponsor_plain (h : isStellarAddress q.sponsor = true) : ':' ∉ q.sponsor.toList := by
  unfold isStellarAddress at h
  cases hs : q.sponsor.toList with
  | nil => exact List.not_mem_nil
  | cons c rest =>
    rw [hs] at h
    simp only [Bool.and_eq_true, beq_iff_eq] at h
    obtain ⟨⟨rfl, -⟩, hall⟩ := h
    intro hmem
    rcases List.mem_cons.mp hmem with heq | hrest
    · exact absurd heq (by decide)
    · exact absurd (List.all_eq_true.mp hall _ hrest) (by decide)

theorem limit_plain (n : ℕ) : ':' ∉ n.repr.toList := by
  intro hmem
  rw [Nat.toList_repr] at hmem
  have hdigit := Nat.isDigit_of_mem_toDigits (by decide) (by decide) hmem
  exact absurd hdigit (by decide)

theorem keyFields_plain (q : Listing N) : ∀ field ∈ keyFields num q, ':' ∉ field := by
  have hstatus : ':' ∉ ((q.status.map StreamStatus.text).getD "").toList := by
    cases q.status with
    | none => decide
    | some status => cases status <;> decide
  have hsort : ':' ∉ q.sort.text.toList := by cases q.sort <;> decide
  intro field hfield
  simp only [keyFields, List.mem_cons, List.not_mem_nil, or_false] at hfield
  rcases hfield with rfl | rfl | rfl | rfl | rfl | rfl | rfl
  · decide
  · decide
  · exact sponsor_plain q.sponsor_valid
  · exact hstatus
  · exact hsort
  · exact num.text_plain q.page
  · exact limit_plain q.limit

theorem status_inj {o o' : Option StreamStatus}
    (h : (o.map StreamStatus.text).getD "" = (o'.map StreamStatus.text).getD "") : o = o' := by
  revert h
  cases o with
  | none => cases o' with
    | none => exact fun _ => rfl
    | some b => cases b <;> decide
  | some a => cases o' with
    | none => cases a <;> decide
    | some b => cases a <;> cases b <;> decide

theorem sort_inj {a b : SortField} (h : a.text = b.text) : a = b := by
  revert h
  cases a <;> cases b <;> decide

/-- **Different pages have different keys.** -/
theorem cacheKey_inj (h : cacheKey num q = cacheKey num q') : q = q' := by
  have hfields : keyFields num q = keyFields num q' := by
    rw [← List.splitOn_intercalate _ (keyFields_plain q) (List.cons_ne_nil _ _),
      ← List.splitOn_intercalate _ (keyFields_plain q') (List.cons_ne_nil _ _),
      ← toList_cacheKey, ← toList_cacheKey, h]
  simp only [keyFields, List.cons.injEq, true_and, and_true, String.toList_inj] at hfields
  obtain ⟨hsponsor, hstatus, hsort, hpage, hlimit⟩ := hfields
  obtain ⟨sponsor, hvalid, status, sort, page, limit⟩ := q
  obtain ⟨sponsor', hvalid', status', sort', page', limit'⟩ := q'
  obtain rfl : sponsor = sponsor' := hsponsor
  obtain rfl : status = status' := status_inj hstatus
  obtain rfl : sort = sort' := sort_inj hsort
  obtain rfl : page = page' := num.text_injective hpage
  obtain rfl : limit = limit' := Nat.repr_injective hlimit
  rfl

end Keys

/-! ### What an answer goes back to -/

section Origin

variable {N : Type} (num : Numbers N) (decodeCursor : String → Option N) (cacheTtlMs : ℕ)
  (collate : String → String → Bool)

/-- A number of streams that the database gave in a version from `since` on. -/
def Counted (w : World N) (since : ℕ) (q : Listing N) (total : ℕ × ℕ) : Prop :=
  (since ≤ total.2 ∧ total.2 ≤ w.newest) ∧ total.1 = (matching (w.versions total.2) q).length

/-- Streams that the database gave in a version from `since` on. -/
def Listed (w : World N) (since : ℕ) (q : Listing N) (items : List ScheduleItem × ℕ) : Prop :=
  (since ≤ items.2 ∧ items.2 ≤ w.newest) ∧ ∃ order, Sorted collate (w.versions items.2) q order ∧
    pageOf num (w.versions items.2) q order = some items.1

/-- A response from what the database gave from the version `since` on. -/
def FromDb (w : World N) (since : ℕ) (q : Listing N) (body : SchedulesResponse N) : Prop :=
  ∃ total items, Counted w since q total ∧ Listed num collate w since q items ∧
    body = response num q total.1 items.1

/-- The response was sent to a request for the same page, which read it from the database after it
had arrived, and stored at the time `u`. -/
def StoredFor (w : World N) (q : Listing N) (body : SchedulesResponse N) (u : ℕ) : Prop :=
  ∃ id d t, w.calls id = some d ∧ listing decodeCursor d.query = q ∧
    d.phase = .answered (.ok "MISS" body) t ∧ d.storedAt = some u ∧
    FromDb num collate w d.arrivedIn q body

/-- Where a response comes from, by the header `X-Cache` and the time of the answer. -/
def Genuine (w : World N) (c : Call N) (xCache : String) (body : SchedulesResponse N) (t : ℕ) :
    Prop :=
  (xCache = "MISS" ∧ FromDb num collate w c.arrivedIn (listing decodeCursor c.query) body) ∨
    (xCache = "HIT" ∧ ∃ u, u ≤ t ∧ t < u + cacheTtlMs ∧
      StoredFor num decodeCursor collate w (listing decodeCursor c.query) body u)

/-- **The demand on the answers**: who gets which. -/
def OwnSchedules (w : World N) : Prop :=
  ∀ id c xCache body t, w.calls id = some c → c.phase = .answered (.ok xCache body) t →
    ∃ sub, c.authorization = .verified sub ∧ ∀ address, sub = some address → address ≠ "" →
      c.query.sponsor = address ∧ ∀ item ∈ body.items, item.sponsor = address ∧
        ∀ status ∈ c.query.status, item.status = status.text

/-- **The demand on the answers**: where they come from. -/
def GenuineAnswers (w : World N) : Prop :=
  ∀ id c xCache body t, w.calls id = some c → c.phase = .answered (.ok xCache body) t →
    Genuine num decodeCursor cacheTtlMs collate w c xCache body t

/-- What a request has got so far is right. -/
def PhaseSound (w : World N) (c : Call N) : Phase N → Prop
  | .looking => True
  | .querying total items =>
    (∀ x ∈ total, Counted w c.arrivedIn (listing decodeCursor c.query) x) ∧
      ∀ x ∈ items, Listed num collate w c.arrivedIn (listing decodeCursor c.query) x
  | .answered (.error _ _) _ => True
  | .answered (.ok xCache body) t => Genuine num decodeCursor cacheTtlMs collate w c xCache body t

/-- The invariant of a request. -/
structure CallSound (w : World N) (c : Call N) : Prop where
  arrived_le : c.arrivedIn ≤ w.newest
  admitted : (∀ status message t, c.phase ≠ .answered (.error status message) t) →
    refusal c.authorization c.query = none
  phase : PhaseSound num decodeCursor cacheTtlMs collate w c c.phase
  stored : ∀ u ∈ c.storedAt, ∃ body t, c.phase = .answered (.ok "MISS" body) t

/-- The invariant of the world. -/
structure Sound (w : World N) : Prop where
  entries : ∀ q e, w.redis (cacheKey num q) = some e → e.storedAt ≤ w.now ∧
    StoredFor num decodeCursor collate w q e.body e.storedAt
  calls : ∀ id c, w.calls id = some c → CallSound num decodeCursor cacheTtlMs collate w c

/-- What a later world has kept: the versions of the database, and the requests whose responses are
stored. -/
structure Later (w w' : World N) : Prop where
  now_le : w.now ≤ w'.now
  newest_le : w.newest ≤ w'.newest
  versions_eq : ∀ v ≤ w.newest, w'.versions v = w.versions v
  stored : ∀ id c, w.calls id = some c → c.storedAt.isSome = true → w'.calls id = some c

end Origin

section Invariant

variable {N : Type} {num : Numbers N} {decodeCursor : String → Option N} {cacheTtlMs : ℕ}
  {collate : String → String → Bool} {w w' : World N} {q : Listing N}

theorem Counted.later (hl : Later w w') {since : ℕ} {total : ℕ × ℕ}
    (h : Counted w since q total) : Counted w' since q total := by
  obtain ⟨⟨hfrom, hto⟩, htotal⟩ := h
  refine ⟨⟨hfrom, hto.trans hl.newest_le⟩, ?_⟩
  rw [hl.versions_eq _ hto]
  exact htotal

theorem Listed.later (hl : Later w w') {since : ℕ} {items : List ScheduleItem × ℕ}
    (h : Listed num collate w since q items) : Listed num collate w' since q items := by
  obtain ⟨⟨hfrom, hto⟩, horder⟩ := h
  refine ⟨⟨hfrom, hto.trans hl.newest_le⟩, ?_⟩
  rw [hl.versions_eq _ hto]
  exact horder

theorem FromDb.later (hl : Later w w') {since : ℕ} {body : SchedulesResponse N}
    (h : FromDb num collate w since q body) : FromDb num collate w' since q body := by
  obtain ⟨total, items, htotal, hitems, hbody⟩ := h
  exact ⟨total, items, htotal.later hl, hitems.later hl, hbody⟩

theorem StoredFor.later (hl : Later w w') {body : SchedulesResponse N} {u : ℕ}
    (h : StoredFor num decodeCursor collate w q body u) :
    StoredFor num decodeCursor collate w' q body u := by
  obtain ⟨id, d, t, hd, hq, hphase, hstored, hdb⟩ := h
  refine ⟨id, d, t, hl.stored id d hd ?_, hq, hphase, hstored, hdb.later hl⟩
  rw [hstored]
  rfl

theorem PhaseSound.later (hl : Later w w') {c : Call N} {ph : Phase N}
    (h : PhaseSound num decodeCursor cacheTtlMs collate w c ph) :
    PhaseSound num decodeCursor cacheTtlMs collate w' c ph := by
  cases ph with
  | looking => trivial
  | querying total items =>
    exact ⟨fun x hx => (h.1 x hx).later hl, fun x hx => (h.2 x hx).later hl⟩
  | answered answer t =>
    cases answer with
    | error status message => trivial
    | ok xCache body =>
      rcases h with ⟨hmiss, hdb⟩ | ⟨hhit, u, hfrom, hto, hstored⟩
      · exact Or.inl ⟨hmiss, hdb.later hl⟩
      · exact Or.inr ⟨hhit, u, hfrom, hto, hstored.later hl⟩

theorem CallSound.later (hl : Later w w') {c : Call N}
    (h : CallSound num decodeCursor cacheTtlMs collate w c) :
    CallSound num decodeCursor cacheTtlMs collate w' c where
  arrived_le := h.arrived_le.trans hl.newest_le
  admitted := h.admitted
  phase := h.phase.later hl
  stored := h.stored

/-- A request that changes has no response in the cache yet. -/
theorem Later.setCall {id : ℕ} {c : Call N}
    (h : ∀ d, w.calls id = some d → d.storedAt.isSome = true → d = c) :
    Later w (w.setCall id c) := by
  refine ⟨le_rfl, le_rfl, fun _ _ => rfl, fun j d hd hstored => ?_⟩
  show Function.update w.calls id (some c) j = some d
  by_cases hj : j = id
  · subst hj
    rw [Function.update_self, h d hd hstored]
  · rw [Function.update_of_ne hj]
    exact hd

/-- A phase a request may go on to. -/
structure Next (num : Numbers N) (decodeCursor : String → Option N) (cacheTtlMs : ℕ)
    (collate : String → String → Bool) (w : World N) (c : Call N) (ph : Phase N) : Prop where
  sound : PhaseSound num decodeCursor cacheTtlMs collate w c ph
  admitted : (∀ status message t, ph ≠ .answered (.error status message) t) →
    ∀ status message t, c.phase ≠ .answered (.error status message) t
  final : ∀ answer t, c.phase = .answered answer t → ph = c.phase

section Steps

variable {c : Call N} (hc : CallSound num decodeCursor cacheTtlMs collate w c)
include hc

theorem Next.same : Next num decodeCursor cacheTtlMs collate w c c.phase :=
  ⟨hc.phase, fun h => h, fun _ _ _ => rfl⟩

theorem Next.onGet (h : Sound num decodeCursor cacheTtlMs collate w) (connected : Bool) :
    Next num decodeCursor cacheTtlMs collate w c
      (onGet num decodeCursor cacheTtlMs w connected c) := by
  have hmiss : PhaseSound num decodeCursor cacheTtlMs collate w c (.querying none none) :=
    ⟨fun x hx => absurd hx (Option.not_mem_none x), fun x hx => absurd hx (Option.not_mem_none x)⟩
  unfold ScheduleListing.onGet
  split
  case h_2 => exact Next.same hc
  case h_1 hphase =>
    have hopen : ∀ answer t, c.phase ≠ .answered answer t := fun answer t => by simp [hphase]
    refine ⟨?_, fun _ status message => hopen _, fun answer t ht => absurd ht (hopen answer t)⟩
    split_ifs with hconnected
    · split
      case h_2 => exact hmiss
      case h_1 e hget =>
        obtain ⟨hentry, hlive⟩ := Option.filter_eq_some_iff.mp hget
        obtain ⟨hpast, hstored⟩ := h.entries _ e hentry
        exact Or.inr ⟨rfl, e.storedAt, hpast, of_decide_eq_true hlive, hstored⟩
    · exact hmiss

theorem Next.onCount : Next num decodeCursor cacheTtlMs collate w c
    (onCount decodeCursor w c) := by
  unfold ScheduleListing.onCount
  split
  case h_2 => exact Next.same hc
  case h_1 items hphase =>
    have hopen : ∀ answer t, c.phase ≠ .answered answer t := fun answer t => by simp [hphase]
    have hsound := hc.phase
    rw [hphase] at hsound
    refine ⟨⟨fun x hx => ?_, hsound.2⟩, fun _ status message => hopen _,
      fun answer t ht => absurd ht (hopen answer t)⟩
    obtain rfl := Option.some.inj hx
    exact ⟨⟨hc.arrived_le, le_rfl⟩, rfl⟩

theorem Next.onRows {order : List VestingStream}
    (horder : Sorted collate (w.versions w.newest) (listing decodeCursor c.query) order) :
    Next num decodeCursor cacheTtlMs collate w c (onRows num decodeCursor w order c) := by
  unfold ScheduleListing.onRows
  split
  case h_2 => exact Next.same hc
  case h_1 total hphase =>
    have hopen : ∀ answer t, c.phase ≠ .answered answer t := fun answer t => by simp [hphase]
    have hsound := hc.phase
    rw [hphase] at hsound
    refine ⟨?_, fun _ status message => hopen _, fun answer t ht => absurd ht (hopen answer t)⟩
    split
    case h_2 => trivial
    case h_1 items hpage =>
      refine ⟨hsound.1, fun x hx => ?_⟩
      obtain rfl := Option.some.inj hx
      exact ⟨⟨hc.arrived_le, le_rfl⟩, order, horder, hpage⟩

theorem Next.onError : Next num decodeCursor cacheTtlMs collate w c (onError w.now c) := by
  unfold ScheduleListing.onError
  split
  case h_2 => exact Next.same hc
  case h_1 total items hphase =>
    have hopen : ∀ answer t, c.phase ≠ .answered answer t := fun answer t => by simp [hphase]
    exact ⟨trivial, fun _ status message => hopen _, fun answer t ht => absurd ht (hopen answer t)⟩

theorem Next.onRespond : Next num decodeCursor cacheTtlMs collate w c
    (onRespond num decodeCursor w.now c) := by
  unfold ScheduleListing.onRespond
  split
  case h_2 => exact Next.same hc
  case h_1 total v items v' hphase =>
    have hopen : ∀ answer t, c.phase ≠ .answered answer t := fun answer t => by simp [hphase]
    have hsound := hc.phase
    rw [hphase] at hsound
    refine ⟨Or.inl ⟨rfl, (total, v), (items, v'), hsound.1 _ rfl, hsound.2 _ rfl, rfl⟩,
      fun _ status message => hopen _, fun answer t ht => absurd ht (hopen answer t)⟩

end Steps

theorem Sound.setCall (h : Sound num decodeCursor cacheTtlMs collate w) {id : ℕ} {c : Call N}
    (hl : Later w (w.setCall id c)) (hc : CallSound num decodeCursor cacheTtlMs collate w c) :
    Sound num decodeCursor cacheTtlMs collate (w.setCall id c) where
  entries := fun q e he => ⟨(h.entries q e he).1, (h.entries q e he).2.later hl⟩
  calls := fun j d hd => by
    rcases of_update_eq_some hd with ⟨-, rfl⟩ | hold
    · exact hc.later hl
    · exact (h.calls j d hold).later hl

/-- A request goes on. -/
theorem Sound.advance (h : Sound num decodeCursor cacheTtlMs collate w) {id : ℕ} {c : Call N}
    (hget : w.calls id = some c) {ph : Phase N}
    (hn : Next num decodeCursor cacheTtlMs collate w c ph) :
    Sound num decodeCursor cacheTtlMs collate (w.advance id c ph) := by
  have hc := h.calls id c hget
  have hstored : ∀ u ∈ c.storedAt, ph = c.phase := by
    intro u hu
    obtain ⟨body, t, hphase⟩ := hc.stored u hu
    exact hn.final _ t hphase
  refine h.setCall (Later.setCall fun d hd hsome => ?_) ?_
  · obtain rfl := Option.some.inj (hget.symm.trans hd)
    obtain ⟨u, hu⟩ := Option.isSome_iff_exists.mp hsome
    rw [hstored u hu]
  · exact {
      arrived_le := hc.arrived_le
      admitted := fun hopen => hc.admitted (hn.admitted hopen)
      phase := hn.sound
      stored := fun u hu => by
        show ∃ body t, ph = .answered (.ok "MISS" body) t
        rw [hstored u hu]
        exact hc.stored u hu }

/-- A response goes into the cache. -/
theorem Sound.store (h : Sound num decodeCursor cacheTtlMs collate w) {id : ℕ} {c : Call N}
    (hget : w.calls id = some c) :
    Sound num decodeCursor cacheTtlMs collate (w.store num decodeCursor id c) := by
  have hc := h.calls id c hget
  unfold World.store
  split
  case h_2 => exact h
  case h_1 body t hphase hnone =>
    have hdb : FromDb num collate w c.arrivedIn (listing decodeCursor c.query) body := by
      have hsound := hc.phase
      rw [hphase] at hsound
      rcases hsound with ⟨-, hdb⟩ | ⟨hhit, -⟩
      · exact hdb
      · exact absurd hhit (by decide)
    have hl : Later w (w.setCall id { c with storedAt := some w.now }) :=
      Later.setCall fun d hd hsome => by
        obtain rfl := Option.some.inj (hget.symm.trans hd)
        rw [hnone] at hsome
        cases hsome
    have hcalls := h.setCall hl (c := { c with storedAt := some w.now }) {
      arrived_le := hc.arrived_le
      admitted := hc.admitted
      phase := hc.phase
      stored := fun _ _ => ⟨body, t, hphase⟩ }
    refine ⟨fun q e he => ?_, fun j d hd => ?_⟩
    · change Function.update w.redis _ _ _ = some e at he
      by_cases hkey : cacheKey num q = cacheKey num (listing decodeCursor c.query)
      · -- the key of this page
        obtain rfl := cacheKey_inj hkey
        rw [Function.update_self, Option.some.injEq] at he
        subst he
        exact ⟨le_rfl, id, { c with storedAt := some w.now }, t, Function.update_self .., rfl,
          hphase, rfl, hdb⟩
      · rw [Function.update_of_ne hkey] at he
        exact hcalls.entries q e he
    · have hd' := hcalls.calls j d hd
      exact ⟨hd'.arrived_le, hd'.admitted, hd'.phase, hd'.stored⟩

theorem sound_start (db : Db) :
    Sound num decodeCursor cacheTtlMs collate (World.start db : World N) where
  entries := fun _ _ h => by cases h
  calls := fun _ _ h => by cases h

theorem Sound.request (h : Sound num decodeCursor cacheTtlMs collate w) {id : ℕ}
    (hnew : w.calls id = none) (auth : Authorization) (q : SchedulesQuery N) :
    Sound num decodeCursor cacheTtlMs collate
      (w.setCall id ⟨auth, q, w.newest, onRequest w.now auth q, none⟩) := by
  refine h.setCall (Later.setCall fun d hd => ?_) ⟨le_rfl, ?_, ?_, fun u hu => ?_⟩
  · rw [hnew] at hd
    cases hd
  · intro hopen
    show refusal auth q = none
    cases hrefusal : refusal auth q with
    | none => rfl
    | some r =>
      have hphase : onRequest (N := N) w.now auth q = .answered (.error r.1 r.2) w.now := by
        unfold onRequest
        rw [hrefusal]
      exact absurd hphase (hopen r.1 r.2 w.now)
  · show PhaseSound num decodeCursor cacheTtlMs collate w _ (onRequest w.now auth q)
    unfold onRequest
    split <;> trivial
  · cases hu

theorem Sound.onCall {id : ℕ} {f : Call N → World N}
    (h : Sound num decodeCursor cacheTtlMs collate w)
    (hf : ∀ c, w.calls id = some c → Sound num decodeCursor cacheTtlMs collate (f c)) :
    Sound num decodeCursor cacheTtlMs collate (w.onCall id f) := by
  unfold World.onCall
  split
  · exact h
  · exact hf _ ‹_›

/-- **The invariant** is kept. -/
theorem Sound.step (h : Sound num decodeCursor cacheTtlMs collate w) {a : Action N}
    (ha : Legal decodeCursor collate w a) :
    Sound num decodeCursor cacheTtlMs collate (step num decodeCursor cacheTtlMs w a) := by
  cases a with
  | request id auth q =>
    unfold ScheduleListing.step
    cases hget : w.calls id with
    | none =>
      simp only [hget]
      exact h.request hget auth q
    | some c =>
      simp only [hget]
      exact h
  | cacheGet id connected =>
    exact h.onCall fun c hget => h.advance hget (Next.onGet (h.calls id c hget) h connected)
  | countQuery id => exact h.onCall fun c hget => h.advance hget (Next.onCount (h.calls id c hget))
  | rowsQuery id order =>
    exact h.onCall fun c hget => h.advance hget (Next.onRows (h.calls id c hget) (ha c hget))
  | queryError id => exact h.onCall fun c hget => h.advance hget (Next.onError (h.calls id c hget))
  | respond id => exact h.onCall fun c hget => h.advance hget (Next.onRespond (h.calls id c hget))
  | cacheSet id => exact h.onCall fun c hget => h.store hget
  | evict key =>
    have hl : Later w (ScheduleListing.step num decodeCursor cacheTtlMs w (.evict key)) :=
      ⟨le_rfl, le_rfl, fun _ _ => rfl, fun _ _ hd _ => hd⟩
    refine ⟨fun q e he => ?_, fun id c hget => (h.calls id c hget).later hl⟩
    change Function.update w.redis key none (cacheKey num q) = some e at he
    by_cases hkey : cacheKey num q = key
    · rw [hkey, Function.update_self] at he
      cases he
    · rw [Function.update_of_ne hkey] at he
      exact ⟨(h.entries q e he).1, (h.entries q e he).2.later hl⟩
  | write db =>
    have hl : Later w (ScheduleListing.step num decodeCursor cacheTtlMs w (.write db)) := by
      refine ⟨le_rfl, Nat.le_succ _, fun v hv => ?_, fun _ _ hd _ => hd⟩
      have hne : v ≠ w.newest + 1 := by omega
      exact Function.update_of_ne hne ..
    exact ⟨fun q e he => ⟨(h.entries q e he).1, (h.entries q e he).2.later hl⟩,
      fun id c hget => (h.calls id c hget).later hl⟩
  | tick =>
    have hl : Later w (ScheduleListing.step num decodeCursor cacheTtlMs w .tick) :=
      ⟨Nat.le_succ _, le_rfl, fun _ _ => rfl, fun _ _ hd _ => hd⟩
    exact ⟨fun q e he => ⟨(h.entries q e he).1.trans (Nat.le_succ _),
      (h.entries q e he).2.later hl⟩, fun id c hget => (h.calls id c hget).later hl⟩

theorem sound_run {db : Db} {l : List (Action N)} (hl : AllSteps
      (step num decodeCursor cacheTtlMs) (Legal decodeCursor collate) (World.start db) l) :
    AllStates (step num decodeCursor cacheTtlMs)
      (Sound num decodeCursor cacheTtlMs collate) (World.start db) l :=
  allStates_of_inv (fun _ _ h ha => h.step ha) (sound_start db) hl

/-! ### What is listed -/

/-- Every listed stream is one of the sponsor, with the status asked for. -/
theorem Listed.mem {since : ℕ} {items : List ScheduleItem × ℕ}
    (h : Listed num collate w since q items) {item : ScheduleItem} (hitem : item ∈ items.1) :
    item.sponsor = q.sponsor ∧ ∀ status ∈ q.status, item.status = status.text := by
  obtain ⟨-, order, horder, hpage⟩ := h
  obtain ⟨from', -, hitems⟩ := Option.map_eq_some_iff.mp hpage
  rw [← hitems] at hitem
  obtain ⟨s, hs, rfl⟩ := List.mem_map.mp hitem
  have hmatch := horder.perm.subset (List.mem_of_mem_drop (List.mem_of_mem_take hs))
  exact of_decide_eq_true (List.mem_filter.mp hmatch).2

theorem FromDb.mem {since : ℕ} {body : SchedulesResponse N}
    (h : FromDb num collate w since q body) {item : ScheduleItem} (hitem : item ∈ body.items) :
    item.sponsor = q.sponsor ∧ ∀ status ∈ q.status, item.status = status.text := by
  obtain ⟨total, items, -, hlisted, rfl⟩ := h
  exact hlisted.mem hitem

theorem Genuine.mem {c : Call N} {xCache : String} {body : SchedulesResponse N} {t : ℕ}
    (h : Genuine num decodeCursor cacheTtlMs collate w c xCache body t) {item : ScheduleItem}
    (hitem : item ∈ body.items) : item.sponsor = c.query.sponsor ∧
      ∀ status ∈ c.query.status, item.status = status.text := by
  rcases h with ⟨-, hdb⟩ | ⟨-, u, -, -, id, d, t', -, -, -, -, hdb⟩
  · exact hdb.mem hitem
  · exact hdb.mem hitem

theorem CallSound.genuine {c : Call N} (h : CallSound num decodeCursor cacheTtlMs collate w c)
    {xCache : String} {body : SchedulesResponse N} {t : ℕ}
    (hphase : c.phase = .answered (.ok xCache body) t) :
    refusal c.authorization c.query = none ∧
      Genuine num decodeCursor cacheTtlMs collate w c xCache body t := by
  have hsound := h.phase
  rw [hphase] at hsound
  exact ⟨h.admitted fun status message t => by simp [hphase], hsound⟩

/-- Who is not refused. -/
theorem refusal_eq_none_iff {auth : Authorization} {q : SchedulesQuery N} :
    refusal auth q = none ↔
      ∃ sub, auth = .verified sub ∧ (sub.getD "" = "" ∨ sub.getD "" = q.sponsor) := by
  cases auth with
  | missing => simp [refusal]
  | invalid => simp [refusal]
  | verified sub =>
    simp only [refusal, ite_eq_right_iff, reduceCtorEq, imp_false, not_and_or, not_not,
      Authorization.verified.injEq, ↓existsAndEq, true_and]

end Invariant

/-! ### A sample -/

section Sample

theorem int_plain (z : ℤ) : ':' ∉ z.repr.toList := by
  cases z with
  | ofNat n => exact limit_plain n
  | negSucc n =>
    show ':' ∉ ("-" ++ (n + 1).repr).toList
    rw [String.toList_append, List.mem_append, not_or]
    exact ⟨by decide, limit_plain (n + 1)⟩

/-- Small integers are written like those of Lean. -/
def sampleNumbers : Numbers ℤ where
  ofNat := Int.ofNat
  add := (· + ·)
  sub := (· - ·)
  mul := (· * ·)
  max := max
  lt a b := a < b
  bigint z := if 0 ≤ z then some z.toNat else none
  text := Int.repr
  text_injective := fun _ _ h => Int.repr_injective h
  text_plain := int_plain

/-- A sponsor. -/
def sampleSponsor : String := "GAAAAAAAAAAAAAAAAAAAAAAAAAAAAAAAAAAAAAAAAAAAAAAAAAAAAAAA"

/-- Another sponsor. -/
def sampleOther : String := "GBBBBBBBBBBBBBBBBBBBBBBBBBBBBBBBBBBBBBBBBBBBBBBBBBBBBBBB"

/-- A stream that ends at the ledger 1000. -/
def sampleStream (sponsor recipient : String) (cliff : ℤ) : VestingStream where
  recipientAddress := recipient
  sponsorAddress := sponsor
  tokenAddress := none
  ratePerLedger := 10
  startLedger := 100
  cliffLedger := cliff
  endLedger := 1000
  lastClaimedLedger := 100
  status := "active"
  cancelledAt := none
  createdAt := 0

/-- Two streams of the sponsor, and one of another. -/
def sampleDb : Db where
  vestingStreams := [sampleStream sampleSponsor "GR1" 300, sampleStream sampleOther "GR2" 200,
    sampleStream sampleSponsor "GR3" 150]
  streamEvents := [⟨"GR3", "vc_claim", 160⟩]

/-- The first page of the sponsor. -/
def sampleQuery : SchedulesQuery ℤ where
  sponsor := sampleSponsor
  sponsor_valid := by decide +kernel
  status := none
  sort := .cliffAsc
  page := 1
  limit := 25
  limit_valid := by decide
  cursor := ""

/-- The sponsor asks twice, and the second answer comes from the cache; another sponsor asks for the
same page in between. -/
def sampleRequests : List (Action ℤ) :=
  [.request 0 (.verified (some sampleSponsor)) sampleQuery, .cacheGet 0 true, .countQuery 0,
    .rowsQuery 0 [sampleStream sampleSponsor "GR3" 150, sampleStream sampleSponsor "GR1" 300],
    .respond 0, .cacheSet 0, .tick, .request 1 (.verified (some sampleOther)) sampleQuery,
    .cacheGet 1 true, .request 2 (.verified (some sampleSponsor)) sampleQuery, .cacheGet 2 true]

/-- The world after the sample requests. -/
def sampleEnd : World ℤ :=
  run (step sampleNumbers (fun _ => none) 5000) (World.start sampleDb) sampleRequests

/-- The answer: the two streams of the sponsor, by their cliffs. -/
def sampleBody : SchedulesResponse ℤ where
  items := [scheduleItem sampleDb (sampleStream sampleSponsor "GR3" 150),
    scheduleItem sampleDb (sampleStream sampleSponsor "GR1" 300)]
  total := 2
  page := 1
  limit := 25
  nextCursor := none
  prevCursor := none

theorem legal_sampleRequests : AllSteps (step sampleNumbers (fun _ => none) 5000)
    (Legal (fun _ => none) fun a b => a ≤ b) (World.start sampleDb) sampleRequests := by
  decide +kernel

end Sample

/-! ### The answers of a run -/

section Results

variable {N : Type} {num : Numbers N} {decodeCursor : String → Option N} {cacheTtlMs : ℕ}
  {collate : String → String → Bool}

/-- **Own schedules only.** In every run of requests with any tokens, which share the cache and read
a database that changes, a request that is answered 200 had a valid token; if the token has an
address as its subject, this address is the sponsor that was asked for, and every schedule of the
answer, be it from the database or from the cache, is of this sponsor and has the status asked
for. -/
theorem ownSchedulesOnly {db : Db} {l : List (Action N)} (hl : AllSteps
      (step num decodeCursor cacheTtlMs) (Legal decodeCursor collate) (World.start db) l) :
    AllStates (step num decodeCursor cacheTtlMs) OwnSchedules (World.start db) l := by
  refine (sound_run hl).imp fun w hw id c xCache body t hget hphase => ?_
  obtain ⟨hrefusal, hgenuine⟩ := (hw.calls id c hget).genuine hphase
  obtain ⟨sub, hauth, hsub⟩ := refusal_eq_none_iff.mp hrefusal
  refine ⟨sub, hauth, fun address hsome hne => ?_⟩
  subst hsome
  have hsponsor : address = c.query.sponsor := hsub.resolve_left hne
  refine ⟨hsponsor.symm, fun item hitem => ?_⟩
  rw [hsponsor]
  exact hgenuine.mem hitem

/-- The second answer comes from the cache, and the other sponsor gets none. -/
theorem ownSchedulesOnly_sample :
    ((sampleEnd.calls 1).map Call.phase, (sampleEnd.calls 2).map Call.phase) =
      (some (.answered (.error 403 "JWT wallet address does not match sponsor parameter") 1),
        some (.answered (.ok "HIT" sampleBody) 1)) ∧ OwnSchedules sampleEnd :=
  ⟨by decide +kernel, (ownSchedulesOnly legal_sampleRequests).last⟩

/-- **Every answer is genuine.** In every such run, an answer from the database has the number of
streams and the page that were asked for, both from versions of the database that are not older than
the request; an answer from the cache is one that the database gave in this way to a request for the
same page, and was stored at most `CACHE_TTL_MS` before. -/
theorem listing_genuine {db : Db} {l : List (Action N)} (hl : AllSteps
      (step num decodeCursor cacheTtlMs) (Legal decodeCursor collate) (World.start db) l) :
    AllStates (step num decodeCursor cacheTtlMs)
      (GenuineAnswers num decodeCursor cacheTtlMs collate) (World.start db) l :=
  (sound_run hl).imp fun _ hw id c _ _ _ hget hphase => ((hw.calls id c hget).genuine hphase).2

theorem listing_genuine_sample :
    GenuineAnswers sampleNumbers (fun _ => none) 5000 (fun a b => a ≤ b) sampleEnd :=
  (listing_genuine legal_sampleRequests).last

end Results

end VestingDripStream.Backend.ScheduleListing
