import VestingDripStream.Lib.Keyset
import Mathlib.Data.List.Sort
import Mathlib.Data.Prod.Lex

/-! # The streams of a sponsor, page by page

`listSponsorStreams` of `routes/streams.ts` and `sponsorStreamsHandler` of
`routes/sponsorDashboard.ts`. Both select the rows of a sponsor, the largest sort key first, and go
on below the cursor of the last row of a page. The cursor holds the row's `created_at` as a `Date`
has it, in milliseconds; the column has microseconds. So the rows of that millisecond that come
after the page are not below the cursor, and no page has them.

The status is the `varchar` of migration 001. Where it is the enum of migration 006, as in
`Backend.Database`, `listSponsorStreams` always answers 500: it compares the status with
`completed`, which the enum does not have.

`complete_iff` says when a reader that follows the cursors gets all rows, for both handlers;
`list_never_twice` and `dashboard_never_twice` say that it never gets one twice. -/

namespace VestingDripStream.Backend.SponsorStreams

open VestingDripStream.Lib.Keyset

/-! ### Rows -/

/-- A `uuid`; its order is that of its bytes. -/
abbrev Uuid := Fin (2 ^ 128)

/-- A row of `vesting_streams`, with `created_at` in microseconds. -/
structure Row where
  id : Uuid
  recipientAddress : String
  sponsorAddress : String
  tokenAddress : String
  ratePerLedger : ℤ
  startLedger : ℤ
  cliffLedger : ℤ
  endLedger : ℤ
  status : String
  createdAt : ℤ
  deriving DecidableEq, Repr

/-- `new Date(created_at)`: what the driver makes of microseconds, in milliseconds. -/
def toDate (createdAt : ℤ) : ℤ := createdAt / 1000

/-- The instant of a `Date`, as `timestamptz` reads it. -/
def ofDate (date : ℤ) : ℤ := date * 1000

/-- A stream in a response. -/
structure StreamItem where
  recipient : String
  sponsor : String
  token : String
  ratePerLedger : String
  startLedger : ℤ
  cliffLedger : ℤ
  endLedger : ℤ
  status : String
  createdAt : ℤ
  deriving DecidableEq, Repr

/-- The columns that are selected, with a status. -/
def Row.item (r : Row) (status : String) : StreamItem :=
  ⟨r.recipientAddress, r.sponsorAddress, r.tokenAddress, toString r.ratePerLedger, r.startLedger,
    r.cliffLedger, r.endLedger, status, toDate r.createdAt⟩

/-- `StreamSort`. -/
inductive StreamSort
  | createdAt
  | endLedger
  deriving DecidableEq, Repr

/-- `StreamStatus`. -/
inductive StreamStatus
  | active
  | cancelled
  | expired
  | drained
  | all
  deriving DecidableEq, Repr

/-- The sort column and the id. -/
def sortKey (sort : StreamSort) (r : Row) : ℤ ×ₗ Uuid :=
  match sort with
  | .createdAt => toLex (r.createdAt, r.id)
  | .endLedger => toLex (r.endLedger, r.id)

/-- `ORDER BY column DESC, id DESC`. -/
def orderBy (sort : StreamSort) (rows : List Row) : List Row :=
  rows.insertionSort fun r r' => sortKey sort r' ≤ sortKey sort r

/-! ### `listSponsorStreams` -/

/-- The query of a request, after its validation. -/
structure StreamsQuery where
  sponsor : String
  status : StreamStatus
  sort : StreamSort
  page : ℕ
  limit : ℕ
  deriving DecidableEq, Repr

/-- `StreamCursor`, with its `created_at` in milliseconds. -/
structure StreamCursor where
  sponsor : String
  status : StreamStatus
  sort : StreamSort
  page : ℕ
  id : Uuid
  createdAt : ℤ
  endLedger : ℤ
  deriving DecidableEq, Repr

/-- The hexadecimal digit with `i` digits after it. -/
def Uuid.digit (id : Uuid) (i : ℕ) : ℕ := id.val / 16 ^ i % 16

/-- The test of `decodeCursor`: the version is 1 to 8, the variant 8 to b. -/
def Uuid.isRfc (id : Uuid) : Bool :=
  decide (1 ≤ Uuid.digit id 19) && decide (Uuid.digit id 19 ≤ 8) &&
    decide (8 ≤ Uuid.digit id 15) && decide (Uuid.digit id 15 ≤ 11)

/-- `decodeCursor`, for the text that `encodeCursor` makes of a cursor. -/
def decodeCursor (c : StreamCursor) : Option StreamCursor :=
  if 0 < c.page ∧ Uuid.isRfc c.id then some c else none

/-- The condition on the status. -/
def StreamStatus.accepts (filter : StreamStatus) (status : String) : Bool :=
  match filter with
  | .all => true
  | .active => status == "active"
  | .cancelled => status == "cancelled"
  | .expired => status == "expired" || status == "completed"
  | .drained => status == "drained"

/-- `CASE WHEN status = 'completed' THEN 'expired' ELSE status END`. -/
def shownStatus (status : String) : String := if status = "completed" then "expired" else status

/-- The key that a cursor is compared by. -/
def StreamCursor.anchor (c : StreamCursor) : ℤ ×ₗ Uuid :=
  match c.sort with
  | .createdAt => toLex (ofDate c.createdAt, c.id)
  | .endLedger => toLex (c.endLedger, c.id)

/-- The rows of the request, without its cursor. -/
def matching (table : List Row) (q : StreamsQuery) : List Row :=
  table.filter fun r => r.sponsorAddress == q.sponsor && q.status.accepts r.status

/-- A response with the status 200. -/
structure StreamsResponse where
  streams : List StreamItem
  total : ℕ
  page : ℕ
  limit : ℕ
  nextCursor : Option StreamCursor
  deriving DecidableEq, Repr

/-- A response, or an error with its status. -/
inductive Reply (R : Type)
  | ok (response : R)
  | error (status : ℕ) (message : String)
  deriving DecidableEq, Repr

/-- The cursor of the last row of a page. -/
def encodeCursor (q : StreamsQuery) (page : ℕ) (last : Row) : StreamCursor :=
  ⟨q.sponsor, q.status, q.sort, page + 1, last.id, toDate last.createdAt, last.endLedger⟩

/-- The page that is answered with, of the rows that the database returned for `LIMIT limit + 1`. -/
def respond (table : List Row) (q : StreamsQuery) (page : ℕ) (rows : List Row) :
    StreamsResponse where
  streams := (rows.take q.limit).map fun r => r.item (shownStatus r.status)
  total := (matching table q).length
  page := page
  limit := q.limit
  nextCursor := if q.limit < rows.length then
    (rows.take q.limit).getLast?.map (encodeCursor q page) else none

/-- `listSponsorStreams`. -/
def listSponsorStreams (table : List Row) (q : StreamsQuery) (cursor : Option StreamCursor) :
    Reply StreamsResponse :=
  match cursor with
  | none =>
    .ok (respond table q q.page
      (((orderBy q.sort (matching table q)).drop ((q.page - 1) * q.limit)).take (q.limit + 1)))
  | some c =>
    match decodeCursor c with
    | none => .error 400 "Invalid cursor for sponsor, status, or sort"
    | some decoded =>
      if decoded.sponsor ≠ q.sponsor ∨ decoded.status ≠ q.status ∨ decoded.sort ≠ q.sort then
        .error 400 "Invalid cursor for sponsor, status, or sort"
      else
        .ok (respond table q decoded.page
          ((orderBy q.sort ((matching table q).filter fun r =>
            sortKey decoded.sort r < decoded.anchor)).take (q.limit + 1)))

/-! ### `sponsorStreamsHandler` -/

/-- The `StreamCursor` of the dashboard. -/
structure DashboardCursor where
  address : String
  id : Uuid
  createdAt : ℤ
  deriving DecidableEq, Repr

/-- `SponsorDashboardResponse`. -/
structure SponsorDashboardResponse where
  sponsor : String
  activeStreams : List StreamItem
  cancelledStreams : List StreamItem
  terminalStreams : List StreamItem
  totalDeposited : ℤ
  totalClaimed : ℤ
  totalRemaining : ℤ
  nextCursor : Option DashboardCursor
  deriving DecidableEq, Repr

/-- The groups that the streams of a page are listed in. -/
inductive Group
  | active
  | cancelled
  | terminal
  deriving DecidableEq, Repr

/-- The group of a status. -/
def groupOf (status : String) : Group :=
  if status = "active" ∨ status = "pre_cliff" then .active
  else if status = "cancelled" then .cancelled
  else .terminal

/-- The streams of a group, in the order of the rows. -/
def grouped (g : Group) (rows : List Row) : List StreamItem :=
  (rows.filter fun r => groupOf r.status = g).map fun r => r.item r.status

/-- The database: the streams, and recipient and amount of each `TokensClaimed` event. -/
structure Dashboard where
  table : List Row
  claims : List (String × ℤ)

/-- The rows of a sponsor. -/
def Dashboard.rowsOf (d : Dashboard) (address : String) : List Row :=
  d.table.filter fun r => r.sponsorAddress == address

/-- `total_deposited`. -/
def Dashboard.totalDeposited (d : Dashboard) (address : String) : ℤ :=
  ((d.rowsOf address).map fun r => (r.endLedger - r.startLedger) * r.ratePerLedger).sum

/-- `total_claimed`. -/
def Dashboard.totalClaimed (d : Dashboard) (address : String) : ℤ :=
  ((d.claims.filter fun e =>
    (d.rowsOf address).any fun r => r.recipientAddress == e.1).map Prod.snd).sum

/-- `cursorFilter`. -/
def cursorFilter (cursor : Option DashboardCursor) (r : Row) : Bool :=
  match cursor with
  | none => true
  | some c => decide (sortKey .createdAt r < toLex (ofDate c.createdAt, c.id))

/-- `sponsorStreamsHandler`, without its cache. -/
def sponsorStreamsHandler (d : Dashboard) (address : String) (limit : ℕ)
    (cursor : Option DashboardCursor) : Reply SponsorDashboardResponse :=
  if ∃ c ∈ cursor, c.address ≠ address then .error 400 "Invalid cursor for this sponsor"
  else
    let selected := (d.rowsOf address).filter (cursorFilter cursor)
    let rows := (orderBy .createdAt selected).take (limit + 1)
    if rows.length = 0 ∧ cursor = none then .error 404 "no streams found for sponsor"
    else
      let streams := rows.take limit
      .ok
        { sponsor := address
          activeStreams := grouped .active streams
          cancelledStreams := grouped .cancelled streams
          terminalStreams := grouped .terminal streams
          totalDeposited := d.totalDeposited address
          totalClaimed := d.totalClaimed address
          totalRemaining := d.totalDeposited address - d.totalClaimed address
          nextCursor := if limit < rows.length then
            streams.getLast?.map fun last => ⟨address, last.id, toDate last.createdAt⟩ else none }

/-! ### The order of the rows -/

variable {table : List Row} {sort : StreamSort} {r r' : Row}

/-- The ids are distinct. -/
def DistinctIds (table : List Row) : Prop := (table.map Row.id).Nodup

instance (table : List Row) : Decidable (DistinctIds table) := by
  unfold DistinctIds; infer_instance

theorem id_eq_of_sortKey (h : sortKey sort r = sortKey sort r') : r.id = r'.id := by
  cases sort <;> exact (Prod.mk.inj (toLex.injective h)).2

theorem perm_orderBy (sort : StreamSort) (rows : List Row) : (orderBy sort rows).Perm rows :=
  List.perm_insertionSort ..

/-- Rows with distinct ids are strictly sorted. -/
theorem descending_orderBy (sort : StreamSort) (h : DistinctIds table) :
    Descending (sortKey sort) (orderBy sort table) := by
  have htotal : Std.Total fun r r' : Row => sortKey sort r' ≤ sortKey sort r :=
    ⟨fun a b => le_total ..⟩
  have htrans : IsTrans Row fun r r' : Row => sortKey sort r' ≤ sortKey sort r :=
    ⟨fun a b c hab hbc => hbc.trans hab⟩
  have hsorted : (orderBy sort table).Pairwise fun r r' => sortKey sort r' ≤ sortKey sort r :=
    List.pairwise_insertionSort _ table
  have hdistinct : (orderBy sort table).Pairwise fun r r' => r.id ≠ r'.id := by
    have hids : DistinctIds (orderBy sort table) :=
      ((perm_orderBy sort table).map Row.id).nodup_iff.mpr h
    exact List.pairwise_map.mp hids
  exact (hsorted.and hdistinct).imp fun h =>
    lt_of_le_of_ne h.1 fun heq => h.2 (id_eq_of_sortKey heq).symm

theorem DistinctIds.filter (h : DistinctIds table) (p : Row → Bool) :
    DistinctIds (table.filter p) :=
  List.Nodup.sublist (List.filter_sublist.map Row.id) h

/-- Selecting before sorting is selecting after it. -/
theorem orderBy_filter (h : DistinctIds table) (p : Row → Bool) :
    orderBy sort (table.filter p) = (orderBy sort table).filter p := by
  have hperm : (orderBy sort (table.filter p)).Perm ((orderBy sort table).filter p) :=
    (perm_orderBy sort _).trans ((perm_orderBy sort table).filter p).symm
  refine hperm.eq_of_pairwise ?_ (descending_orderBy sort (h.filter p))
    ((descending_orderBy sort h).sublist List.filter_sublist)
  exact fun a b _ _ hab hba => absurd hab (lt_asymm hba)

/-! ### The reader of `listSponsorStreams` -/

/-- The key that the cursor of a row is compared by. -/
def cutKey (sort : StreamSort) (r : Row) : ℤ ×ₗ Uuid :=
  match sort with
  | .createdAt => toLex (ofDate (toDate r.createdAt), r.id)
  | .endLedger => toLex (r.endLedger, r.id)

/-- The same, if `decodeCursor` takes it. -/
def listCut (sort : StreamSort) (r : Row) : Option (ℤ ×ₗ Uuid) :=
  if Uuid.isRfc r.id then some (cutKey sort r) else none

theorem cutKey_le (sort : StreamSort) (r : Row) : cutKey sort r ≤ sortKey sort r := by
  cases sort with
  | createdAt => exact Prod.Lex.toLex_mono ⟨Int.ediv_mul_le r.createdAt (by decide), le_rfl⟩
  | endLedger => exact le_rfl

theorem listCut_le (sort : StreamSort) (r : Row) : ∀ a ∈ listCut sort r, a ≤ sortKey sort r := by
  intro a ha
  unfold listCut at ha
  split_ifs at ha
  · cases ha
    exact cutKey_le sort r
  · cases ha

theorem mem_listCut (r : Row) (a : ℤ ×ₗ Uuid) :
    a ∈ listCut sort r ↔ Uuid.isRfc r.id = true ∧ a = cutKey sort r := by
  unfold listCut
  by_cases h : Uuid.isRfc r.id
  · simp [h, eq_comm]
  · simp [h]

/-- The streams that `listSponsorStreams` makes of rows. -/
def listed (rows : List Row) : List StreamItem := rows.map fun r => r.item (shownStatus r.status)

/-- What a reader of `listSponsorStreams` goes on with. -/
def listPage (table : List Row) (q : StreamsQuery) (cursor : Option StreamCursor) :
    Option (List StreamItem × Option StreamCursor) :=
  match listSponsorStreams table q cursor with
  | .ok r => some (r.streams, r.nextCursor)
  | .error .. => none

variable {q : StreamsQuery}

/-- The rows that are left for a cursor of the request. -/
def ListLeft (table : List Row) (q : StreamsQuery) : Option StreamCursor → List Row → Prop
  | none, rest => rest = orderBy q.sort (matching table q)
  | some c, rest => c.sponsor = q.sponsor ∧ c.status = q.status ∧ c.sort = q.sort ∧
      decodeCursor c = some c ∧
      rest = below (sortKey q.sort) c.anchor (orderBy q.sort (matching table q))

/-- The rows that are left are those the database is asked for. -/
theorem listPage_of_left (htable : DistinctIds table) (hpage : q.page = 1)
    {cursor : Option StreamCursor} {rest : List Row} (h : ListLeft table q cursor rest) :
    ∃ page, listPage table q cursor =
      some ((respond table q page (rest.take (q.limit + 1))).streams,
        (respond table q page (rest.take (q.limit + 1))).nextCursor) := by
  cases cursor with
  | none =>
    refine ⟨q.page, ?_⟩
    unfold listPage listSponsorStreams
    rw [h]
    simp [hpage]
  | some c =>
    obtain ⟨hsponsor, hstatus, hsort, hdecode, rfl⟩ := h
    refine ⟨c.page, ?_⟩
    have hmatching : DistinctIds (matching table q) := htable.filter _
    unfold listPage listSponsorStreams
    simp only [hdecode]
    rw [if_neg (by simp [hsponsor, hstatus, hsort]), hsort, orderBy_filter hmatching]
    rfl

theorem take_take_succ (n : ℕ) (rest : List Row) : (rest.take (n + 1)).take n = rest.take n := by
  rw [List.take_take, Nat.min_eq_left (Nat.le_succ n)]

theorem lt_length_take_succ (n : ℕ) (rest : List Row) :
    n < (rest.take (n + 1)).length ↔ n < rest.length := by
  rw [List.length_take]
  omega

/-- The last page. -/
theorem respond_last {rest : List Row} (page : ℕ) (h : rest.length ≤ q.limit) :
    (respond table q page (rest.take (q.limit + 1))).streams = listed rest ∧
      (respond table q page (rest.take (q.limit + 1))).nextCursor = none := by
  unfold respond
  simp only
  rw [take_take_succ, List.take_of_length_le h, if_neg (by rw [lt_length_take_succ]; omega)]
  exact ⟨rfl, rfl⟩

/-- A page with a cursor. -/
theorem respond_page {rest : List Row} {last : Row} (page : ℕ) (h : q.limit < rest.length)
    (hlast : (rest.take q.limit).getLast? = some last) :
    (respond table q page (rest.take (q.limit + 1))).streams = listed (rest.take q.limit) ∧
      (respond table q page (rest.take (q.limit + 1))).nextCursor =
        some (encodeCursor q page last) := by
  unfold respond
  simp only
  rw [take_take_succ, if_pos ((lt_length_take_succ ..).mpr h), hlast]
  exact ⟨rfl, rfl⟩

theorem anchor_encodeCursor (page : ℕ) (last : Row) :
    (encodeCursor q page last).anchor = cutKey q.sort last := by
  unfold StreamCursor.anchor cutKey encodeCursor
  cases q.sort <;> rfl

/-- The cursor of a row is refused, or leaves the rows below it. -/
theorem listLeft_encodeCursor {cursor : Option StreamCursor} {rest : List Row} {last : Row}
    {page : ℕ} (h : ListLeft table q cursor rest) (hmem : last ∈ rest) :
    (listCut q.sort last = none → listPage table q (some (encodeCursor q page last)) = none) ∧
    ∀ a ∈ listCut q.sort last, ListLeft table q (some (encodeCursor q page last))
      (below (sortKey q.sort) a rest) := by
  unfold listCut
  by_cases hrfc : Uuid.isRfc last.id
  · refine ⟨by simp [hrfc], fun a ha => ?_⟩
    rw [if_pos hrfc, Option.mem_some] at ha
    subst ha
    refine ⟨rfl, rfl, rfl, if_pos ⟨Nat.succ_pos page, hrfc⟩, ?_⟩
    rw [anchor_encodeCursor]
    cases cursor with
    | none => rw [h]
    | some c =>
      obtain ⟨-, -, -, -, rfl⟩ := h
      have hlt : sortKey q.sort last < c.anchor := by
        simpa [below] using (List.mem_filter.mp hmem).2
      exact below_below ((cutKey_le q.sort last).trans hlt.le)
  · refine ⟨fun _ => ?_, by simp [hrfc]⟩
    have hdecode : decodeCursor (encodeCursor q page last) = none := if_neg fun hok => hrfc hok.2
    unfold listPage listSponsorStreams
    simp only [hdecode]

theorem collect_listPage (htable : DistinctIds table) (hpage : q.page = 1) (hlimit : 0 < q.limit)
    (fuel : ℕ) : collect (listPage table q) fuel none =
      (walk (sortKey q.sort) (listCut q.sort) q.limit fuel
        (orderBy q.sort (matching table q))).map listed := by
  have hstart : ListLeft table q none (orderBy q.sort (matching table q)) := rfl
  have hlisted : ∀ l l', listed (l ++ l') = listed l ++ listed l' := fun l l' => List.map_append
  refine collect_eq_walk hlimit hlisted ?_ ?_ hstart
  · intro cursor rest hleft hlen
    obtain ⟨page, hserve⟩ := listPage_of_left htable hpage hleft
    rw [hserve, (respond_last page hlen).1, (respond_last page hlen).2]
  · intro cursor rest last hleft hlen hlast
    obtain ⟨page, hserve⟩ := listPage_of_left htable hpage hleft
    have hmem : last ∈ rest := List.mem_of_mem_take (List.mem_of_getLast? hlast)
    refine ⟨encodeCursor q page last, ?_, listLeft_encodeCursor hleft hmem⟩
    rw [hserve, (respond_page page hlen hlast).1, (respond_page page hlen hlast).2]

/-! ### The readers of `sponsorStreamsHandler` -/

/-- The streams of a group in a response. -/
def SponsorDashboardResponse.group (r : SponsorDashboardResponse) : Group → List StreamItem
  | .active => r.activeStreams
  | .cancelled => r.cancelledStreams
  | .terminal => r.terminalStreams

/-- What a reader of a group goes on with; it takes the answer 404 as no streams. -/
def dashboardPage (d : Dashboard) (address : String) (limit : ℕ) (g : Group)
    (cursor : Option DashboardCursor) : Option (List StreamItem × Option DashboardCursor) :=
  match sponsorStreamsHandler d address limit cursor with
  | .ok r => some (r.group g, r.nextCursor)
  | .error status _ => if status = 404 then some ([], none) else none

variable {d : Dashboard} {address : String} {limit : ℕ}

/-- The rows that are left for a cursor of the address. -/
def DashboardLeft (d : Dashboard) (address : String) : Option DashboardCursor → List Row → Prop
  | none, rest => rest = orderBy .createdAt (d.rowsOf address)
  | some c, rest => c.address = address ∧
      rest = below (sortKey .createdAt) (toLex (ofDate c.createdAt, c.id))
        (orderBy .createdAt (d.rowsOf address))

/-- What the handler answers with, by the rows that are left. -/
theorem dashboardPage_of_left (hd : DistinctIds d.table) {cursor : Option DashboardCursor}
    {rest : List Row} (g : Group) (h : DashboardLeft d address cursor rest) :
    dashboardPage d address limit g cursor =
      some (grouped g (rest.take limit), if limit < rest.length then
        (rest.take limit).getLast?.map fun last => ⟨address, last.id, toDate last.createdAt⟩
        else none) := by
  have hrows : DistinctIds (d.rowsOf address) := hd.filter _
  have hselected : orderBy .createdAt ((d.rowsOf address).filter (cursorFilter cursor)) = rest := by
    rw [orderBy_filter hrows]
    cases cursor with
    | none => exact (List.filter_eq_self.mpr fun _ _ => rfl).trans h.symm
    | some c => exact h.2.symm
  have haddress : ¬ ∃ c ∈ cursor, c.address ≠ address := by
    rintro ⟨c, hc, hne⟩
    rw [Option.mem_def] at hc
    subst hc
    exact hne h.1
  unfold dashboardPage sponsorStreamsHandler
  rw [if_neg haddress]
  simp only [hselected, take_take_succ, lt_length_take_succ]
  by_cases hempty : (rest.take (limit + 1)).length = 0 ∧ cursor = none
  · have hnil : rest = [] := by simpa using hempty.1
    subst hnil
    simp [hempty.2, grouped]
  · rw [if_neg hempty]
    cases g <;> rfl

theorem grouped_append (g : Group) (l l' : List Row) :
    grouped g (l ++ l') = grouped g l ++ grouped g l' := by
  unfold grouped
  rw [List.filter_append, List.map_append]

theorem collect_dashboardPage (hd : DistinctIds d.table) (hlimit : 0 < limit) (fuel : ℕ)
    (g : Group) : collect (dashboardPage d address limit g) fuel none =
      (walk (sortKey .createdAt) (fun r => some (cutKey .createdAt r)) limit fuel
        (orderBy .createdAt (d.rowsOf address))).map (grouped g) := by
  have hstart : DashboardLeft d address none (orderBy .createdAt (d.rowsOf address)) := rfl
  refine collect_eq_walk hlimit (grouped_append g) ?_ ?_ hstart
  · intro cursor rest hleft hlen
    rw [dashboardPage_of_left hd g hleft, if_neg (by omega), List.take_of_length_le hlen]
  · intro cursor rest last hleft hlen hlast
    have hmem : last ∈ rest := List.mem_of_mem_take (List.mem_of_getLast? hlast)
    refine ⟨⟨address, last.id, toDate last.createdAt⟩, ?_, fun h => (nomatch h), fun a ha => ?_⟩
    · rw [dashboardPage_of_left hd g hleft, if_pos hlen, hlast]
      rfl
    · cases ha
      refine ⟨rfl, ?_⟩
      cases cursor with
      | none => rw [hleft]; rfl
      | some c =>
        obtain ⟨-, rfl⟩ := hleft
        have hlt := (List.mem_filter.mp hmem).2
        rw [decide_eq_true_eq] at hlt
        exact below_below ((cutKey_le .createdAt last).trans hlt.le)

/-! ### All rows -/

/-- `P` holds of the last row of each full page and the row after it. -/
def PageEnds (limit : ℕ) (rows : List Row) (P : Row → Row → Prop) : Prop :=
  ∀ k r r', 0 < k → rows[k * limit - 1]? = some r → rows[k * limit]? = some r' → P r r'

/-- The row `r'`, which comes after `r`, is not in the rest of the millisecond of `r`. -/
def Reaches (sort : StreamSort) (r r' : Row) : Prop :=
  match sort with
  | .createdAt => r'.createdAt < ofDate (toDate r.createdAt) ∨
      (r'.createdAt = ofDate (toDate r.createdAt) ∧ r'.id < r.id)
  | .endLedger => True

/-- A row is below the cursor of one that comes before it exactly if the cursor reaches it. -/
theorem lt_cutKey_iff (h : sortKey sort r' < sortKey sort r) :
    sortKey sort r' < cutKey sort r ↔ Reaches sort r r' := by
  cases sort with
  | createdAt => exact Prod.Lex.toLex_lt_toLex
  | endLedger => exact iff_of_true h trivial

theorem boundaries_iff_pageEnds {rows : List Row} {cut : Row → Option (ℤ ×ₗ Uuid)}
    {taken : Row → Prop} (hdesc : Descending (sortKey sort) rows) (hlimit : 0 < limit)
    (hcut : ∀ r a, a ∈ cut r ↔ taken r ∧ a = cutKey sort r) :
    Boundaries (sortKey sort) cut limit rows ↔
      PageEnds limit rows fun r r' => taken r ∧ Reaches sort r r' := by
  refine forall_congr' fun k => forall_congr' fun r => forall_congr' fun r' =>
    forall_congr' fun hk => forall_congr' fun hr => forall_congr' fun hr' => ?_
  have hlt : sortKey sort r' < sortKey sort r := by
    obtain ⟨hi, rfl⟩ := List.getElem?_eq_some_iff.mp hr
    obtain ⟨hj, rfl⟩ := List.getElem?_eq_some_iff.mp hr'
    have hpos := Nat.mul_pos hk hlimit
    exact List.pairwise_iff_getElem.mp hdesc _ _ hi hj (by omega)
  simp only [hcut, ← lt_cutKey_iff hlt]
  constructor
  · rintro ⟨a, ⟨htaken, rfl⟩, ha⟩
    exact ⟨htaken, ha⟩
  · exact fun ⟨htaken, ha⟩ => ⟨_, ⟨htaken, rfl⟩, ha⟩

/-- Every row is in one group. -/
theorem length_groups (rows : List Row) :
    (grouped .active rows).length + (grouped .cancelled rows).length +
      (grouped .terminal rows).length = rows.length := by
  unfold grouped
  simp only [List.length_map]
  induction rows with
  | nil => rfl
  | cons r rows ih =>
    simp only [List.filter_cons, List.length_cons]
    cases groupOf r.status <;> simp <;> omega

theorem cutKey_le_of_mem (r : Row) :
    ∀ a ∈ some (cutKey .createdAt r), a ≤ sortKey .createdAt r := by
  rintro a ⟨⟩
  exact cutKey_le .createdAt r

theorem length_orderBy_filter (sort : StreamSort) (p : Row → Bool) :
    (orderBy sort (table.filter p)).length ≤ table.length := by
  rw [(perm_orderBy sort _).length_eq]
  exact List.length_filter_le ..

theorem descending_matching (hids : DistinctIds table) :
    Descending (sortKey q.sort) (orderBy q.sort (matching table q)) :=
  descending_orderBy q.sort (hids.filter _)

theorem descending_rowsOf (hids : DistinctIds d.table) :
    Descending (sortKey .createdAt) (orderBy .createdAt (d.rowsOf address)) :=
  descending_orderBy .createdAt (hids.filter _)

/-- **No row twice**: what a reader gets is part of the ordered rows. -/
theorem list_never_twice (hids : DistinctIds table) (hpage : q.page = 1) (hlimit : 0 < q.limit)
    {fuel : ℕ} {items : List StreamItem}
    (h : collect (listPage table q) fuel none = some items) :
    items.Sublist (listed (orderBy q.sort (matching table q))) := by
  rw [collect_listPage hids hpage hlimit] at h
  obtain ⟨rows, hrows, rfl⟩ := Option.map_eq_some_iff.mp h
  exact (walk_sublist (listCut_le q.sort) hlimit (descending_matching hids) hrows).map _

/-- A reader of the dashboard gets to the end, whatever it has missed, and no row twice. -/
theorem dashboard_never_twice (hids : DistinctIds d.table) (hlimit : 0 < limit) {fuel : ℕ}
    (hfuel : d.table.length < fuel) (g : Group) :
    ∃ items, collect (dashboardPage d address limit g) fuel none = some items ∧
      items.Sublist (grouped g (orderBy .createdAt (d.rowsOf address))) := by
  have hdesc : Descending (sortKey .createdAt) (orderBy .createdAt (d.rowsOf address)) :=
    descending_rowsOf hids
  have hlen : (orderBy .createdAt (d.rowsOf address)).length < fuel :=
    (length_orderBy_filter .createdAt _).trans_lt hfuel
  obtain ⟨rows, hrows⟩ := Option.isSome_iff_exists.mp
    (walk_isSome (fun _ => rfl) cutKey_le_of_mem hlimit hlen hdesc)
  refine ⟨grouped g rows, ?_, ?_⟩
  · rw [collect_dashboardPage hids hlimit, hrows]
    rfl
  · have hsub := walk_sublist cutKey_le_of_mem hlimit hdesc hrows
    exact (hsub.filter _).map _

/-- **All rows.** A reader that starts at the first page and follows the cursors gets all rows of
its request, in their order, exactly if at the end of each page the id is one that `decodeCursor`
takes and the cursor reaches the next row; and a reader of the dashboard gets all rows of the
sponsor, by groups, exactly if the cursors reach. -/
theorem complete_iff (hids : DistinctIds d.table) (hpage : q.page = 1) (hlimit : 0 < q.limit)
    {fuel : ℕ} (hfuel : d.table.length < fuel) :
    (collect (listPage d.table q) fuel none =
        some (listed (orderBy q.sort (matching d.table q))) ↔
      PageEnds q.limit (orderBy q.sort (matching d.table q))
        fun r r' => Uuid.isRfc r.id ∧ Reaches q.sort r r') ∧
    ((∀ g, collect (dashboardPage d q.sponsor q.limit g) fuel none =
        some (grouped g (orderBy .createdAt (d.rowsOf q.sponsor)))) ↔
      PageEnds q.limit (orderBy .createdAt (d.rowsOf q.sponsor)) (Reaches .createdAt)) := by
  constructor
  · have hdesc : Descending (sortKey q.sort) (orderBy q.sort (matching d.table q)) :=
      descending_matching hids
    have hbound := walk_eq_self_iff (listCut_le q.sort) hlimit
      ((length_orderBy_filter q.sort _).trans_lt hfuel) hdesc
    rw [collect_listPage hids hpage hlimit, ← boundaries_iff_pageEnds hdesc hlimit mem_listCut]
    refine Iff.trans ⟨fun h => ?_, fun h => congrArg (Option.map listed) h⟩ hbound
    -- the rows of the streams are part of all rows, and as many
    obtain ⟨rows, hrows, heq⟩ := Option.map_eq_some_iff.mp h
    have hsub := walk_sublist (listCut_le q.sort) hlimit hdesc hrows
    have hlen := congrArg List.length heq
    rw [listed, listed, List.length_map, List.length_map] at hlen
    exact hsub.eq_of_length hlen ▸ hrows
  · have hdesc : Descending (sortKey .createdAt) (orderBy .createdAt (d.rowsOf q.sponsor)) :=
      descending_rowsOf hids
    have hbound := walk_eq_self_iff cutKey_le_of_mem hlimit
      ((length_orderBy_filter .createdAt _).trans_lt hfuel) hdesc
    have hends : Boundaries (sortKey .createdAt) (fun r => some (cutKey .createdAt r)) q.limit
        (orderBy .createdAt (d.rowsOf q.sponsor)) ↔
          PageEnds q.limit (orderBy .createdAt (d.rowsOf q.sponsor))
            fun r r' => True ∧ Reaches .createdAt r r' :=
      boundaries_iff_pageEnds hdesc hlimit fun r a => by simp [eq_comm]
    simp only [true_and] at hends
    simp only [collect_dashboardPage hids hlimit]
    rw [← hends]
    refine Iff.trans ⟨fun h => ?_, fun h g => congrArg (Option.map (grouped g)) h⟩ hbound
    obtain ⟨rows, hrows, -⟩ := Option.map_eq_some_iff.mp (h .active)
    have hsub := walk_sublist cutKey_le_of_mem hlimit hdesc hrows
    have hgroup : ∀ g, grouped g rows = grouped g (orderBy .createdAt (d.rowsOf q.sponsor)) := by
      intro g
      have hg := h g
      rw [hrows] at hg
      simpa using hg
    have hlen : rows.length = (orderBy .createdAt (d.rowsOf q.sponsor)).length := by
      rw [← length_groups rows, hgroup .active, hgroup .cancelled, hgroup .terminal, length_groups]
    exact hsub.eq_of_length hlen ▸ hrows

/-! ### Two rows in one millisecond -/

/-- A row of the sponsor `S`. -/
def sampleRow (id : Uuid) (createdAt : ℤ) : Row :=
  ⟨id, "R", "S", "T", 10, 0, 5, 10, "active", createdAt⟩

/-- Two rows that are 100 microseconds apart, in one millisecond. -/
def closeRows : Dashboard :=
  ⟨[sampleRow 0x11111111111141118111111111111111 1000500,
    sampleRow 0x22222222222242228222222222222222 1000400], []⟩

/-- All streams of `S`, one on a page. -/
def sampleQuery : StreamsQuery := ⟨"S", .all, .createdAt, 1, 1⟩

/-- The reader of either handler gets the first one only. -/
theorem close_rows_are_skipped :
    collect (listPage closeRows.table sampleQuery) 3 none ≠
      some (listed (orderBy .createdAt (matching closeRows.table sampleQuery))) ∧
    collect (dashboardPage closeRows "S" 1 .active) 3 none ≠
      some (grouped .active (orderBy .createdAt (closeRows.rowsOf "S"))) := by
  decide +kernel

/-- The condition for the two rows: it fails, as the first is cut to the instant 1000000. -/
theorem complete_iff_sample :
    (collect (listPage closeRows.table sampleQuery) 3 none =
        some (listed (orderBy sampleQuery.sort (matching closeRows.table sampleQuery))) ↔
      PageEnds sampleQuery.limit (orderBy sampleQuery.sort (matching closeRows.table sampleQuery))
        fun r r' => Uuid.isRfc r.id ∧ Reaches sampleQuery.sort r r') ∧
    ((∀ g, collect (dashboardPage closeRows sampleQuery.sponsor sampleQuery.limit g) 3 none =
        some (grouped g (orderBy .createdAt (closeRows.rowsOf sampleQuery.sponsor)))) ↔
      PageEnds sampleQuery.limit (orderBy .createdAt (closeRows.rowsOf sampleQuery.sponsor))
        (Reaches .createdAt)) :=
  complete_iff (by decide +kernel) rfl (by decide) (by decide)

end VestingDripStream.Backend.SponsorStreams
