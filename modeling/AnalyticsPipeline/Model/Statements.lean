import AnalyticsPipeline.Framework.Conflict
import AnalyticsPipeline.Model.Tables
import Mathlib.Algebra.Ring.Int.Defs
import Mathlib.Data.List.Sort

/-!
# SQL statements

The statements the repositories issue. `Stmt.run` computes a statement on the
tables its transaction sees: its answer and the rows it writes. What SQL leaves
open is supplied from outside: the outcome of `pg_notify`, and the order in
which rows reach a sort that does not distinguish them.
-/

namespace AnalyticsPipeline

open Framework

inductive Choice where
  | auto
  | uuid (u : UUID)
  | clock (t : DateTime)
  | seconds (q : ℚ)
  | rows (scan : List RawEvent)
  | groups (keys : List RollupKey)
  | merchants (ids : List UUID)
  | snapshots (keys : List SnapshotKey)
  /-- The call fails, `n` of its commands having taken effect. -/
  | fail (n : ℕ)
deriving DecidableEq

inductive DbError where
  | inFailedTransaction
  | invalidText
  | numericOutOfRange
  | stringTruncation
  | datetimeOutOfRange
  | uniqueViolation
  | cardinalityViolation
  | notifyFailed
deriving DecidableEq

/-! ## Column domains -/

def hasNul (s : String) : Bool := s.toList.contains '\x00'

/-- Assignment to a `CHAR(n)` column: padded with spaces, surplus spaces cut. -/
def charColumn (n : ℕ) (s : String) : Except DbError String :=
  if hasNul s then .error .invalidText
  else if (s.toList.drop n).all (· = ' ') then
    .ok (String.ofList
      (s.toList.take n ++ List.replicate (n - s.toList.length) ' '))
  else .error .stringTruncation

def integerColumn (n : ℤ) : Except DbError ℤ :=
  if -2 ^ 31 ≤ n ∧ n < 2 ^ 31 then .ok n else .error .numericOutOfRange

def textColumn (s : String) : Except DbError String :=
  if hasNul s then .error .invalidText else .ok s

/-- `json.dumps` of the document, parsed by a `JSONB` column: it has no null
character, no unpaired surrogate, no `NaN` and no `Infinity`. -/
def jsonColumn : Option Metadata → Except DbError (Option Metadata)
  | none => .ok none
  | some fields =>
      if fields.all fun f => (codePoints f.1).storable && f.2.storable then
        .ok (some fields)
      else .error .invalidText

/-- `t.astimezone(utc)` in the driver. Without a zone the time is local, which is
UTC, and `datetime` looks at the day before to tell a fold: on the first day of
its calendar it raises. `datetime.min` and `datetime.max` are not converted; the
first and the last instant stand for the infinities the driver writes. -/
def timestamptzColumn : PyDateTime → Except DbError DateTime
  | .naive t =>
      if t.ordinal = 1 ∧ t.timeOfDay ≠ 0 then .error .datetimeOutOfRange
      else .ok t
  | .aware t =>
      match t.toUtc? with
      | none => .error .datetimeOutOfRange
      | some u => .ok u

/-- The values as the columns of `raw_events` store them. -/
def RawValues.stored (v : RawValues PyDateTime) :
    Except DbError (RawValues DateTime) := do
  let amount_cents ← integerColumn v.amount_cents
  let currency ← charColumn 3 v.currency
  let idempotency_key ← textColumn v.idempotency_key
  let client_timestamp ← v.client_timestamp.mapM timestamptzColumn
  let metadata ← jsonColumn v.metadata
  .ok { v with
    amount_cents, currency, idempotency_key, client_timestamp, metadata }

/-- `PRIMARY KEY (id, occurred_at)` -/
def RawEvent.primaryKey (r : RawEvent) : UUID × DateTime := (r.id, r.occurred_at)

/-! ## Orders -/

/-- `ORDER BY created_at` -/
def byCreatedAt (a b : RawEvent) : Prop := a.created_at ≤ b.created_at

/-- `ORDER BY created_at, id` -/
def byCreatedAtId (a b : RawEvent) : Prop :=
  a.created_at < b.created_at ∨ (a.created_at = b.created_at ∧ a.id ≤ b.id)

instance : DecidableRel byCreatedAt := fun a b =>
  inferInstanceAs (Decidable (a.created_at ≤ b.created_at))

instance : DecidableRel byCreatedAtId := fun a b =>
  inferInstanceAs (Decidable (a.created_at < b.created_at ∨
    (a.created_at = b.created_at ∧ a.id ≤ b.id)))

/-! ## Rows of queries -/

structure BucketRow where
  bucket : DateTime
  volume_cents : ℤ
  count : ℤ
deriving DecidableEq

structure LeaderboardRow where
  merchant_id : UUID
  volume_cents : ℤ
  transaction_count : ℤ
deriving DecidableEq

structure DiscrepancyRow where
  merchant_id : UUID
  event_type : EventType
  day_count : ℤ
  hour_count : ℤ
  delta : ℤ
deriving DecidableEq

structure RankedRow where
  merchant_id : UUID
  volume : ℤ
  rank : ℕ
deriving DecidableEq

structure HistoryRow where
  period : String
  period_start : DateTime
  merchant_id : UUID
  rank : ℕ
  amount_sum_cents : ℤ
  created_at : DateTime
  merchant_name : Option String
deriving DecidableEq

abbrev RollupEntry := RollupKey × RollupRow

/-- `ORDER BY period_start DESC, rank ASC` -/
def byPeriodRank (a b : HistoryRow) : Prop :=
  b.period_start < a.period_start ∨
    (a.period_start = b.period_start ∧ a.rank ≤ b.rank)

instance : DecidableRel byPeriodRank := fun a b =>
  inferInstanceAs (Decidable (b.period_start < a.period_start ∨
    (a.period_start = b.period_start ∧ a.rank ≤ b.rank)))

/-! ## Statements -/

inductive Stmt where
  | selectMerchantIds (ids : List UUID)
  | insertIdempotency (values : List EventIdempotency)
  | selectIdempotency (idempotency_key : String)
  | insertRawEvents (values : List (RawValues PyDateTime))
  | selectRawEventsById (id : UUID)
  | selectRawEventsByKeys (keys : List String)
  | selectRawEventsAfter (last_event_id : Option UUID) (limit : ℕ)
  | pgNotify (payload : String)
  | selectConsumerOffset (consumer_id : String)
  | insertProcessedMarkers (consumer_id : String) (event_ids : List UUID)
  | upsertRollup (g : RollupGranularity) (values : List RollupEntry)
  | upsertRollupRow (g : RollupGranularity) (key : RollupKey)
      (count_delta amount_cents : ℤ)
  | upsertConsumerOffset (consumer_id : String) (last_event_id : UUID)
      (last_event_at : DateTime)
  | selectBuckets (g : RollupGranularity) (merchant_id : UUID) (start stop : ℤ)
  | selectOutcomes (merchant_id : UUID) (start stop : ℤ)
  | selectSparkline (merchant_id : UUID) (window : ℤ)
  | selectLeaderboard (start stop : ℤ) (top_n : ℕ)
  | aggregateHours (start stop : ℤ)
  | overwriteDayRow (entry : RollupEntry)
  | selectDiscrepancies (start stop : ℤ)
  | selectDailyVolumes (start stop : ℤ)
  | upsertSnapshot (key : SnapshotKey) (values : SnapshotValues)
  | selectHistory (period : String) (row_limit : ℕ)

namespace Stmt

abbrev Result : Stmt → Type
  | selectMerchantIds _ => List UUID
  | insertIdempotency _ => List EventIdempotency
  | selectIdempotency _ => List EventIdempotency
  | insertRawEvents _ => List RawEvent
  | selectRawEventsById _ => List RawEvent
  | selectRawEventsByKeys _ => List RawEvent
  | selectRawEventsAfter _ _ => List RawEvent
  | selectConsumerOffset _ => Option ConsumerOffset
  | insertProcessedMarkers _ _ => List UUID
  | selectBuckets _ _ _ _ => List BucketRow
  | selectOutcomes _ _ _ => Option ℤ × Option ℤ
  | selectSparkline _ _ => List BucketRow
  | selectLeaderboard _ _ _ => List LeaderboardRow
  | aggregateHours _ _ => List RollupEntry
  | selectDiscrepancies _ _ => List DiscrepancyRow
  | selectDailyVolumes _ _ => List RankedRow
  | selectHistory _ _ => List HistoryRow
  | _ => Unit

/-- The keys a statement inserts or updates. -/
def locks : Stmt → List Lock
  | insertIdempotency values => values.map fun v => .idempotency v.idempotency_key
  | insertRawEvents values => values.map fun v => .rawEvent v.id v.occurred_at
  | insertProcessedMarkers c ids => ids.map fun id => .marker ⟨c, id⟩
  | upsertRollup g values => values.map fun v => .rollup g v.1
  | upsertRollupRow g key _ _ => [.rollup g key]
  | upsertConsumerOffset c _ _ => [.offset c]
  | overwriteDayRow entry => [.rollup .day entry.1]
  | upsertSnapshot key _ => [.snapshot key]
  | _ => []

/-! ### Meanings -/

/-- `bucket` in `query_minute`, `date_trunc('hour', bucket)` and
`date_trunc('day', bucket)` in the others. -/
def bucketOf : RollupGranularity → DateTime → DateTime
  | .minute, t => t
  | .hour, t => t.truncHour
  | .day, t => t.truncDay

def sumCount (rows : List RollupEntry) : ℤ := (rows.map (·.2.count)).sum

def sumAmount (rows : List RollupEntry) : ℤ := (rows.map (·.2.sum)).sum

/-- Counts and volumes grouped by an expression of the bucket, in its order. -/
def groupBuckets (expr : DateTime → DateTime) (rows : List RollupEntry) :
    List BucketRow :=
  let buckets := (rows.map fun r => expr r.1.bucket).dedup
  (buckets.insertionSort (· ≤ ·)).map fun b =>
    let group := rows.filter fun r => expr r.1.bucket = b
    ⟨b, sumAmount group, sumCount group⟩

/-- `bucket BETWEEN start AND stop` -/
def between (start stop : ℤ) (t : DateTime) : Bool :=
  start ≤ t.micros ∧ t.micros ≤ stop

/-- `bucket >= start AND bucket < stop` -/
def within (start stop : ℤ) (t : DateTime) : Bool :=
  start ≤ t.micros ∧ t.micros < stop

def merchantRows (rows : List RollupEntry) (merchant_id : UUID) :
    List RollupEntry :=
  rows.filter fun r => r.1.merchant_id = merchant_id

def leaderboardRows (view : Db) (start stop : ℤ) : List RollupEntry :=
  (view.rollup .day).entries.filter fun r =>
    between start stop r.1.bucket ∧ r.1.event_type = .paymentConfirmed

def rankedRows (rows : List RollupEntry) (ids : List UUID) :
    List LeaderboardRow :=
  (ids.map fun m =>
    ⟨m, sumAmount (merchantRows rows m), sumCount (merchantRows rows m)⟩).insertionSort
      fun a b : LeaderboardRow => b.volume_cents ≤ a.volume_cents

/-- The day row an hour row is compacted into. -/
def dayKey (k : RollupKey) : RollupKey := { k with bucket := k.bucket.truncDay }

def hourRows (view : Db) (start stop : ℤ) : List RollupEntry :=
  (view.rollup .hour).entries.filter fun r => within start stop r.1.bucket

def hourGroup (rows : List RollupEntry) (k : RollupKey) : RollupRow :=
  ((rows.filter fun r => dayKey r.1 = k).map Prod.snd).sum

def hourCount (rows : List RollupEntry) (k : RollupKey) : ℤ :=
  sumCount (rows.filter fun r =>
    r.1.merchant_id = k.merchant_id ∧ r.1.event_type = k.event_type)

def discrepancy (hours : List RollupEntry) (r : RollupEntry) : DiscrepancyRow :=
  let hour_count := hourCount hours r.1
  ⟨r.1.merchant_id, r.1.event_type, r.2.count, hour_count,
    (r.2.count - hour_count).natAbs⟩

/-- The row of a stored snapshot, joined with the merchant's name. -/
def historyRow (view : Db) (k : SnapshotKey) : Option HistoryRow :=
  (view.leaderboard_snapshots.get? k).map fun row =>
    { period := k.period
      period_start := k.period_start
      merchant_id := k.merchant_id
      rank := row.rank
      amount_sum_cents := row.amount_sum_cents
      created_at := row.created_at
      merchant_name := (view.merchants.find? (·.id = k.merchant_id)).map (·.name) }

/-- The first `limit` events after `last_event_id`. Without one the rows are
ordered by `created_at` alone, and rows it does not distinguish come in the
order of the scan. -/
def eventsAfter (log : List RawEvent) (last_event_id : Option UUID)
    (limit : ℕ) (scan : List RawEvent) : Except DbError (List RawEvent) :=
  match last_event_id with
  | none => .ok ((scan.insertionSort byCreatedAt).take limit)
  | some id =>
      match log.filter (fun r => r.id = id) with
      | [] => .ok []
      | [last] =>
          .ok (((scan.filter fun r => last.created_at < r.created_at).insertionSort
            byCreatedAtId).take limit)
      | _ => .error .cardinalityViolation

def rawWrites (rows : List RawEvent) : Db := { (∅ : Db) with raw_events := rows }

def idempotencyWrites (rows : List EventIdempotency) : Db :=
  { (∅ : Db) with event_idempotency := rows }

def markerWrites (rows : List ProcessedMarker) : Db :=
  { (∅ : Db) with processed_rollup_events := rows }

def rollupWrites (g : RollupGranularity) (rows : RollupTable) : Db :=
  { (∅ : Db) with rollup := fun g' => if g' = g then rows else ∅ }

def offsetWrites (c : String) (row : ConsumerOffset) : Db :=
  { (∅ : Db) with consumer_offsets := (∅ : Dict _ _).set c row }

def snapshotWrites (k : SnapshotKey) (row : SnapshotRow) : Db :=
  { (∅ : Db) with leaderboard_snapshots := (∅ : Dict _ _).set k row }

/-- `INSERT ... ON CONFLICT DO UPDATE SET count = count + EXCLUDED.count, ...`:
the row that results at one key. -/
def absorb (table : RollupTable) (entry : RollupEntry) : RollupEntry :=
  (entry.1, match table.get? entry.1 with
    | none => entry.2
    | some old => old + entry.2)

/-- `LEAST` and `GREATEST`, which ignore `NULL`. -/
def least (a b : Option ℤ) : Option ℤ := a.merge min b

def greatest (a b : Option ℤ) : Option ℤ := a.merge max b

/-- The row that results when a single row of one amount is upserted. -/
def addRow (stored : Option RollupRow) (count_delta amount_cents : ℤ) :
    RollupRow :=
  match stored with
  | none => ⟨count_delta, amount_cents, some amount_cents, some amount_cents⟩
  | some old => ⟨old.count + count_delta, old.sum + amount_cents,
      least old.min (some amount_cents), greatest old.max (some amount_cents)⟩

/-- What the statement answers and the rows it writes; `none` when the choice
is not one for this statement. -/
def run (now : DateTime) (ch : Choice) (view : Db) :
    (s : Stmt) → Option (Except DbError (s.Result × Db))
  | selectMerchantIds ids =>
      some (.ok ((view.merchants.filter (·.id ∈ ids)).map (·.id), ∅))
  | insertIdempotency values =>
      if values.any (hasNul ·.idempotency_key) then some (.error .invalidText)
      else
        let rows := freshBy (·.idempotency_key)
          (view.event_idempotency.map (·.idempotency_key)) values
        some (.ok (rows, idempotencyWrites rows))
  | selectIdempotency key =>
      some (.ok (view.event_idempotency.filter (·.idempotency_key = key), ∅))
  | insertRawEvents values =>
      match values.mapM RawValues.stored with
      | .error e => some (.error e)
      | .ok stored =>
          let rows := stored.map fun v => ({ v with created_at := now } : RawEvent)
          if ((view.raw_events ++ rows).map RawEvent.primaryKey).Nodup then
            some (.ok (rows, rawWrites rows))
          else some (.error .uniqueViolation)
  | selectRawEventsById id =>
      some (.ok (view.raw_events.filter (·.id = id), ∅))
  | selectRawEventsByKeys keys =>
      some (.ok (view.raw_events.filter (·.idempotency_key ∈ keys), ∅))
  | selectRawEventsAfter last_event_id limit =>
      match ch with
      | .rows scan =>
          if scan.Perm view.raw_events then
            some ((eventsAfter view.raw_events last_event_id limit scan).map
              fun x => (x, ∅))
          else none
      | _ => none
  | pgNotify _ =>
      match ch with
      | .auto => some (.ok ((), ∅))
      | .fail _ => some (.error .notifyFailed)
      | _ => none
  | selectConsumerOffset c => some (.ok (view.consumer_offsets.get? c, ∅))
  | insertProcessedMarkers c ids =>
      let rows := freshBy id view.processed_rollup_events
        (ids.map fun u => (⟨c, u⟩ : ProcessedMarker))
      some (.ok (rows.map (·.event_id), markerWrites rows))
  | upsertRollup g values =>
      if (values.map Prod.fst).Nodup then
        some (.ok ((), rollupWrites g
          (Dict.ofList (values.map (absorb (view.rollup g))))))
      else some (.error .cardinalityViolation)
  | upsertRollupRow g key count_delta amount_cents =>
      some (.ok ((), rollupWrites g ((∅ : RollupTable).set key
        (addRow ((view.rollup g).get? key) count_delta amount_cents))))
  | upsertConsumerOffset c last_event_id last_event_at =>
      some (.ok ((), offsetWrites c ⟨some last_event_id, some last_event_at⟩))
  | selectBuckets g m start stop =>
      some (.ok (groupBuckets (bucketOf g)
        ((merchantRows (view.rollup g).entries m).filter fun r =>
          between start stop r.1.bucket), ∅))
  | selectOutcomes m start stop =>
      let rows := (merchantRows (view.rollup .hour).entries m).filter fun r =>
        between start stop r.1.bucket
      let of (type : EventType) := rows.filter fun r => r.1.event_type = type
      if rows = [] then some (.ok ((none, none), ∅))
      else some (.ok ((some (sumCount (of .paymentConfirmed)),
        some (sumCount (of .paymentFailed))), ∅))
  | selectSparkline m window =>
      some (.ok (groupBuckets id
        ((merchantRows (view.rollup .minute).entries m).filter fun r =>
          (now.micros : ℤ) - window * 60000000 ≤ r.1.bucket.micros), ∅))
  | selectLeaderboard start stop top_n =>
      let rows := leaderboardRows view start stop
      match ch with
      | .merchants ids =>
          if ids.Perm (rows.map (·.1.merchant_id)).dedup then
            some (.ok ((rankedRows rows ids).take top_n, ∅))
          else none
      | _ => none
  | aggregateHours start stop =>
      let rows := hourRows view start stop
      match ch with
      | .groups keys =>
          if keys.Perm (rows.map (dayKey ·.1)).dedup then
            some (.ok (keys.map fun k => (k, hourGroup rows k), ∅))
          else none
      | _ => none
  | overwriteDayRow entry =>
      some (.ok ((), rollupWrites .day ((∅ : RollupTable).set entry.1 entry.2)))
  | selectDiscrepancies start stop =>
      let days := (view.rollup .day).entries.filter fun r => r.1.bucket.micros = start
      match ch with
      | .groups keys =>
          if keys.Perm (days.map Prod.fst) then
            let rows := keys.filterMap fun k => ((view.rollup .day).get? k).map
              fun row => discrepancy (hourRows view start stop) (k, row)
            some (.ok (((rows.filter (0 < ·.delta)).insertionSort
              (fun a b => b.delta ≤ a.delta)).take 10, ∅))
          else none
      | _ => none
  | selectDailyVolumes start stop =>
      let rows := (view.rollup .day).entries.filter fun r =>
        within start stop r.1.bucket ∧ r.1.event_type = .paymentConfirmed
      match ch with
      | .merchants ids =>
          if ids.Perm (rows.map (·.1.merchant_id)).dedup then
            let ranked := (rankedRows rows ids).map fun r =>
              ⟨r.merchant_id, r.volume_cents, 1 + (ids.filter fun m =>
                r.volume_cents < sumAmount (merchantRows rows m)).length⟩
            some (.ok (ranked.take 100, ∅))
          else none
      | _ => none
  | upsertSnapshot key values =>
      some (.ok ((), snapshotWrites key
        (match view.leaderboard_snapshots.get? key with
        | none => { values with created_at := now }
        | some old => { values with id := old.id, created_at := old.created_at })))
  | selectHistory period row_limit =>
      match ch with
      | .snapshots keys =>
          if hasNul period then some (.error .invalidText)
          else if keys.Perm
              (view.leaderboard_snapshots.keys.filter (·.period = period)) then
            some (.ok (((keys.filterMap (historyRow view)).insertionSort
              byPeriodRank).take row_limit, ∅))
          else none
      | _ => none

end Stmt

end AnalyticsPipeline
