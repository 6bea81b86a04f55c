import AnalyticsPipeline.Model.EventRepository
import AnalyticsPipeline.Model.RedisRepository
import AnalyticsPipeline.Model.RollupRepository

/-!
# Rollup worker

One batch of the worker: a page of the event log after the consumer's offset,
markers that filter out what was aggregated before, the deltas of the rest, the
new offset, all in one transaction; then the leaderboard, best effort.
-/

namespace AnalyticsPipeline

open Framework

/-! ## Buckets -/

def minuteBucket (ts : DateTime) : DateTime := ts.truncMinute

def hourBucket (ts : DateTime) : DateTime := ts.truncHour

def dayBucket (ts : DateTime) : DateTime := ts.truncDay

def yearWidth (year : ℕ) : ℕ :=
  if year < 10 then 1 else if year < 100 then 2 else if year < 1000 then 3 else 4

/-- `%Y-%m`: the year is not padded, the month is. -/
def yearMonth (year month : ℕ) : String :=
  String.ofList (pad 10 (yearWidth year) year ++ '-' :: pad 10 2 month)

def periodKey (ts : DateTime) : String := yearMonth ts.year ts.month

def bucketTs (event : RawEvent) : DateTime :=
  event.client_timestamp.getD event.occurred_at

/-! ## Aggregation -/

def BucketAccum.add (a : BucketAccum) (amount_cents : ℤ) : BucketAccum :=
  let a := if a.initialised then a
    else { a with
      amount_min := amount_cents, amount_max := amount_cents
      initialised := true }
  { a with
    count := a.count + 1
    amount_sum := a.amount_sum + amount_cents
    amount_min := min a.amount_min amount_cents
    amount_max := max a.amount_max amount_cents }

/-- `agg[key].add(amount)` on a `defaultdict(_BucketAccum)`. -/
def AggMap.add (agg : AggMap) (key : RollupKey) (amount : ℤ) : AggMap :=
  agg.alter key fun a => (a.getD {}).add amount

def aggregateBatch (events : List RawEvent) : AggMap × AggMap × AggMap :=
  events.foldl
    (fun aggs event =>
      let ts := bucketTs event
      let key (bucket : DateTime) : RollupKey :=
        ⟨event.merchant_id, bucket, event.event_type⟩
      let amount := event.amount_cents
      (AggMap.add aggs.1 (key (minuteBucket ts)) amount,
        AggMap.add aggs.2.1 (key (hourBucket ts)) amount,
        AggMap.add aggs.2.2 (key (dayBucket ts)) amount))
    (∅, ∅, ∅)

/-! ## The batch -/

namespace RollupWorker

/-- The markers that were not there yet. -/
def insertProcessedMarkers (consumer_id : String) (event_ids : List UUID) :
    Service (List UUID) :=
  execute (.insertProcessedMarkers consumer_id event_ids)

/-- Step 3 and the upserts: only events not yet processed are aggregated. -/
def upsertDeltas (new_events : List RawEvent) : Service Unit :=
  if new_events = [] then pure ()
  else do
    let (minute_agg, hour_agg, day_agg) := aggregateBatch new_events
    RollupRepository.batchUpsertMinute minute_agg
    RollupRepository.batchUpsertHour hour_agg
    RollupRepository.batchUpsertDay day_agg

/-- The transaction of a batch: the events fetched and those among them that
are new, or nothing when the page is empty. -/
def batchTransaction (settings : Settings) :
    Service (Option (List RawEvent × List RawEvent)) := do
  let offset ← RollupRepository.getConsumerOffset settings.worker_id
  let last_event_id := offset.bind ConsumerOffset.last_event_id
  let events ← EventRepository.getEventsAfter last_event_id
    settings.worker_batch_size
  match events.getLast? with
  | none => pure none
  | some last => do
      let event_ids := events.map (·.id)
      let new_ids ← insertProcessedMarkers settings.worker_id event_ids
      let new_events := events.filter (·.id ∈ new_ids)
      upsertDeltas new_events
      RollupRepository.upsertConsumerOffset settings.worker_id last.id
        last.occurred_at
      perform (.commit [])
      pure (some (events, new_events))

/-- `period_increments`: the confirmed amounts by period and merchant. -/
def periodIncrements (events : List RawEvent) : Dict String (Dict String ℤ) :=
  (events.filter (·.event_type = .paymentConfirmed)).foldl
    (fun acc event =>
      acc.alter (periodKey (bucketTs event)) fun merchants =>
        (merchants.getD ∅).alter event.merchant_id.str fun volume =>
          volume.getD 0 + event.amount_cents)
    ∅

def updateLeaderboard (events : List RawEvent) : Service Unit :=
  let period_increments := periodIncrements events
  tryCatch
    (period_increments.entries.forM fun p =>
      RedisRepository.leaderboardIncrementBatch p.1 p.2)
    fun _ => pure ()

/-- What follows the transaction: Redis, best effort. -/
def publish (settings : Settings) (new_events : List RawEvent) :
    Service Unit := do
  if new_events ≠ [] then updateLeaderboard new_events
  RedisRepository.setWorkerHeartbeat settings.worker_id

/-- The number of events fetched; `0` when the log holds no more. -/
def processBatch (settings : Settings) : Service ℕ := do
  let batch ← sessionScope (batchTransaction settings)
  match batch with
  | none => pure 0
  | some (events, new_events) => do
      publish settings new_events
      pure events.length

end RollupWorker

end AnalyticsPipeline
