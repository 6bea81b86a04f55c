import AnalyticsPipeline.Model.World
import Mathlib.Data.Rat.Floor

/-!
# Rollup repository

Additive upserts of a batch's deltas, the queries over the three rollup tables,
and the consumer offsets.
-/

namespace AnalyticsPipeline

open Framework

/-- The accumulated delta of one `(merchant_id, bucket, event_type)` cell. -/
structure BucketAccum where
  count : ℤ := 0
  amount_sum : ℤ := 0
  amount_min : ℤ := 0
  amount_max : ℤ := 0
  initialised : Bool := false
deriving DecidableEq

abbrev AggMap := Dict RollupKey BucketAccum

/-- The values a cell contributes to an upsert. -/
def BucketAccum.row (a : BucketAccum) : RollupRow :=
  ⟨a.count, a.amount_sum, some a.amount_min, some a.amount_max⟩

/-- Python's `round(q, digits)`: to the nearest, ties to even. -/
def roundTo (digits : ℕ) (q : ℚ) : ℚ :=
  let scaled := q * 10 ^ digits
  let low := ⌊scaled⌋
  let rest := scaled - low
  let nearest :=
    if rest < 1 / 2 then low
    else if 1 / 2 < rest then low + 1
    else if low % 2 = 0 then low else low + 1
  (nearest : ℚ) / 10 ^ digits

namespace RollupRepository

/-! ### Single rows -/

def upsertRollup (g : RollupGranularity) (merchant_id : UUID)
    (bucket : DateTime) (event_type : EventType) (count_delta : ℤ)
    (amount_cents : ℤ) : Service Unit :=
  execute (.upsertRollupRow g ⟨merchant_id, bucket, event_type⟩ count_delta
    amount_cents)

def upsertMinute (merchant_id : UUID) (bucket : DateTime)
    (event_type : EventType) (count_delta amount_cents : ℤ) : Service Unit :=
  upsertRollup .minute merchant_id bucket event_type count_delta amount_cents

def upsertHour (merchant_id : UUID) (bucket : DateTime)
    (event_type : EventType) (count_delta amount_cents : ℤ) : Service Unit :=
  upsertRollup .hour merchant_id bucket event_type count_delta amount_cents

def upsertDay (merchant_id : UUID) (bucket : DateTime)
    (event_type : EventType) (count_delta amount_cents : ℤ) : Service Unit :=
  upsertRollup .day merchant_id bucket event_type count_delta amount_cents

def upsertAllGranularities (merchant_id : UUID) (event_type : EventType)
    (bucket_minute bucket_hour bucket_day : DateTime) (amount_cents : ℤ) :
    Service Unit := do
  upsertMinute merchant_id bucket_minute event_type 1 amount_cents
  upsertHour merchant_id bucket_hour event_type 1 amount_cents
  upsertDay merchant_id bucket_day event_type 1 amount_cents

/-! ### Batches and queries -/

def batchUpsert (g : RollupGranularity) (agg : AggMap) : Service Unit := do
  if agg.entries = [] then pure ()
  else execute (.upsertRollup g (agg.entries.map fun p => (p.1, p.2.row)))

def batchUpsertMinute (agg : AggMap) : Service Unit := batchUpsert .minute agg

def batchUpsertHour (agg : AggMap) : Service Unit := batchUpsert .hour agg

def batchUpsertDay (agg : AggMap) : Service Unit := batchUpsert .day agg

def queryMinute (merchant_id : UUID) (start stop : AwareDateTime) :
    Service (List BucketRow) :=
  execute (.selectBuckets .minute merchant_id start.instant stop.instant)

def queryHour (merchant_id : UUID) (start stop : AwareDateTime) :
    Service (List BucketRow) :=
  execute (.selectBuckets .hour merchant_id start.instant stop.instant)

def queryDay (merchant_id : UUID) (start stop : AwareDateTime) :
    Service (List BucketRow) :=
  execute (.selectBuckets .day merchant_id start.instant stop.instant)

def querySuccessRate (merchant_id : UUID) (start stop : AwareDateTime) :
    Service (Option ℚ) := do
  let row ← execute
    (.selectOutcomes merchant_id start.instant stop.instant)
  let confirmed := row.1.getD 0
  let failed := row.2.getD 0
  let total := confirmed + failed
  pure (if 0 < total then some (roundTo 4 ((confirmed : ℚ) / total)) else none)

def querySparkline (merchant_id : UUID) (window_minutes : ℤ) :
    Service (List BucketRow) :=
  execute (.selectSparkline merchant_id window_minutes)

def queryLeaderboardFromDb (period_start period_end : DateTime) (top_n : ℕ) :
    Service (List LeaderboardRow) :=
  execute (.selectLeaderboard period_start.micros period_end.micros top_n)

def getConsumerOffset (consumer_id : String) :
    Service (Option ConsumerOffset) :=
  execute (.selectConsumerOffset consumer_id)

def upsertConsumerOffset (consumer_id : String) (last_event_id : UUID)
    (last_event_at : DateTime) : Service Unit :=
  execute (.upsertConsumerOffset consumer_id last_event_id last_event_at)

end RollupRepository

end AnalyticsPipeline
