import AnalyticsPipeline.Model.RedisRepository
import AnalyticsPipeline.Model.RollupRepository
import AnalyticsPipeline.Model.RollupWorker

/-!
# Query service

Cache-aside reads of the rollup tables and the leaderboard. A response is
cached as the document `model_dump` gives and rebuilt from it by keyword
arguments.
-/

namespace AnalyticsPipeline

open Framework

/-! ## Dumping and rebuilding responses -/

def BucketDataPoint.dump (p : BucketDataPoint) : ScalarObject :=
  [("bucket", .datetime (.utc p.bucket)), ("volume_cents", .int p.volume_cents),
    ("count", .int p.count)]

/-- `BucketDataPoint(**fields)` -/
def BucketDataPoint.ofFields (fields : ScalarObject) :
    Except PyError BucketDataPoint :=
  match fields.lookup "bucket", fields.lookup "volume_cents",
    fields.lookup "count" with
  | some (.datetime t), some (.int volume_cents), some (.int count) =>
      .ok ⟨t.naive, volume_cents, count⟩
  | _, _, _ => .error .validationError

def optionalFloat : Option ℚ → Scalar
  | none => .null
  | some q => .float q

/-- `response.model_dump(mode="json")` -/
def MetricsResponse.dump (r : MetricsResponse) : Document :=
  .object
    [("merchant_id", .scalar (.uuid r.merchant_id)),
      ("start", .scalar (.datetime r.start)),
      ("end", .scalar (.datetime r.stop)),
      ("granularity", .scalar (.granularity r.granularity)),
      ("total_volume_cents", .scalar (.int r.total_volume_cents)),
      ("total_count", .scalar (.int r.total_count)),
      ("success_rate", .scalar (optionalFloat r.success_rate)),
      ("data", .objects (r.data.map BucketDataPoint.dump)),
      ("cache_hit", .scalar (.bool r.cache_hit)),
      ("query_latency_ms", .scalar (optionalFloat r.query_latency_ms))]

/-- `f(**document, **extra)`: a keyword given twice is a `TypeError`, and so is
expanding what is no mapping. -/
def keywords (document : Document) (extra : List (String × FieldValue)) :
    Except PyError (List (String × FieldValue)) :=
  match document with
  | .object fields =>
      if extra.any fun p => p.1 ∈ fields.map Prod.fst then .error .typeError
      else .ok (fields ++ extra)
  | _ => .error .typeError

def FieldValue.optionalFloat? : Option FieldValue → Option (Option ℚ)
  | none => some none
  | some (.scalar .null) => some none
  | some (.scalar (.float q)) => some (some q)
  | _ => none

def FieldValue.cacheHit? : Option FieldValue → Option Bool
  | none => some false
  | some (.scalar (.bool b)) => some b
  | _ => none

/-- `MetricsResponse(**fields)` -/
def MetricsResponse.ofFields (fields : List (String × FieldValue)) :
    Except PyError MetricsResponse :=
  match fields.lookup "merchant_id", fields.lookup "start",
    fields.lookup "end", fields.lookup "granularity",
    fields.lookup "total_volume_cents", fields.lookup "total_count",
    FieldValue.optionalFloat? (fields.lookup "success_rate"),
    fields.lookup "data", FieldValue.cacheHit? (fields.lookup "cache_hit"),
    FieldValue.optionalFloat? (fields.lookup "query_latency_ms") with
  | some (.scalar (.uuid merchant_id)), some (.scalar (.datetime start)),
    some (.scalar (.datetime stop)), some (.scalar (.granularity granularity)),
    some (.scalar (.int total_volume_cents)), some (.scalar (.int total_count)),
    some success_rate, some (.objects data), some cache_hit,
    some query_latency_ms =>
      (data.mapM BucketDataPoint.ofFields).map fun points =>
        ⟨merchant_id, start, stop, granularity, total_volume_cents, total_count,
          success_rate, points, cache_hit, query_latency_ms⟩
  | _, _, _, _, _, _, _, _, _, _ => .error .validationError

/-- `[BucketDataPoint(**d) for d in cached]` -/
def Document.dataPoints : Document → Except PyError (List BucketDataPoint)
  | .array items => items.mapM BucketDataPoint.ofFields
  | .object _ => .error .typeError
  | .number _ => .error .typeError

def raising {α : Type} : Except PyError α → Service α
  | .ok x => pure x
  | .error e => throw e

def BucketRow.dataPoint (r : BucketRow) : BucketDataPoint :=
  ⟨r.bucket, r.volume_cents, r.count⟩

/-! ## Routing -/

def hourMicros : ℤ := 3600 * 1000000

def selectGranularity (settings : Settings) (start stop : AwareDateTime) :
    RollupGranularity × ℕ :=
  let range := stop.instant - start.instant
  if range ≤ 3 * hourMicros then (.minute, settings.cache_ttl_live)
  else if range ≤ 720 * hourMicros then (.hour, settings.cache_ttl_historical)
  else (.day, settings.cache_ttl_archive)

/-- `year, month = (int(p) for p in period_key.split("-"))` -/
def parsePeriod (period_key : String) : Option (ℕ × ℕ) :=
  match (period_key.toList.splitOn '-').map natLiteral? with
  | [some year, some month] => some (year, month)
  | _ => none

/-- The first instants of the period's month and of the next. -/
def periodBounds (year month : ℕ) : Option (DateTime × DateTime) := do
  let period_start ← DateTime.ofDate? year month 1
  let period_end ←
    if month = 12 then DateTime.ofDate? (year + 1) 1 1
    else DateTime.ofDate? year (month + 1) 1
  pure (period_start, period_end)

/-- What is raised for a period without bounds; `datetime` takes its arguments as
C integers first. -/
def periodError (period_key : String) : PyError :=
  match parsePeriod period_key with
  | some (year, month) =>
      if 2 ^ 31 ≤ year ∨ 2 ^ 31 ≤ month then .overflowError else .valueError
  | none => .valueError

namespace QueryService

/-- `round((time.monotonic() - t0) * 1000, 2)` -/
def latencyMs (t₀ : ℚ) : Service ℚ := do
  let t₁ ← perform .monotonic
  pure (roundTo 2 ((t₁ - t₀) * 1000))

def queryRows (granularity : RollupGranularity) (merchant_id : UUID)
    (start stop : AwareDateTime) : Service (List BucketRow) :=
  match granularity with
  | .minute => RollupRepository.queryMinute merchant_id start stop
  | .hour => RollupRepository.queryHour merchant_id start stop
  | .day => RollupRepository.queryDay merchant_id start stop

/-- The response of a hit: the cached fields and this call's own. -/
def cachedMetrics (t₀ : ℚ) (cached : Document) : Service MetricsResponse := do
  RedisRepository.recordCacheHit
  let latency ← latencyMs t₀
  raising do
    let fields ← keywords cached
      [("cache_hit", .scalar (.bool true)),
        ("query_latency_ms", .scalar (.float latency))]
    MetricsResponse.ofFields fields

def computedMetrics (settings : Settings) (t₀ : ℚ) (merchant_id : UUID)
    (start stop : AwareDateTime) : Service MetricsResponse := do
  let (granularity, ttl) := selectGranularity settings start stop
  RedisRepository.recordCacheMiss
  let rows ← queryRows granularity merchant_id start stop
  let success_rate ← RollupRepository.querySuccessRate merchant_id start stop
  let data := rows.map BucketRow.dataPoint
  let latency ← latencyMs t₀
  let response : MetricsResponse :=
    { merchant_id, start, stop, granularity
      total_volume_cents := (data.map (·.volume_cents)).sum
      total_count := (data.map (·.count)).sum
      success_rate, data
      cache_hit := false
      query_latency_ms := some latency }
  RedisRepository.metricCacheSet merchant_id start stop granularity.value
    response.dump ttl
  pure response

def getMerchantMetrics (settings : Settings) (merchant_id : UUID)
    (start stop : AwareDateTime) : Service MetricsResponse := do
  let t₀ ← perform .monotonic
  let (granularity, _) := selectGranularity settings start stop
  let cached ← RedisRepository.metricCacheGet merchant_id start stop
    granularity.value
  match cached.filter Document.truthy with
  | some document => cachedMetrics t₀ document
  | none => computedMetrics settings t₀ merchant_id start stop

def getSparkline (settings : Settings) (merchant_id : UUID)
    (window_minutes : ℤ) : Service SparklineResponse := do
  let cached ← RedisRepository.sparklineCacheGet merchant_id window_minutes
  match cached.filter Document.truthy with
  | some document => do
      RedisRepository.recordCacheHit
      let data ← raising document.dataPoints
      pure ⟨merchant_id, window_minutes, data, true⟩
  | none => do
      RedisRepository.recordCacheMiss
      let rows ← RollupRepository.querySparkline merchant_id window_minutes
      let data := rows.map BucketRow.dataPoint
      RedisRepository.sparklineCacheSet merchant_id window_minutes
        (.array (data.map BucketDataPoint.dump)) settings.cache_ttl_live
      pure ⟨merchant_id, window_minutes, data, false⟩

/-- The entries of the sorted set, `uuid.UUID(mid)` for each member. -/
def redisEntries (raw : List (String × ℤ)) :
    Except PyError (List LeaderboardEntry) :=
  raw.zipIdx.mapM fun p =>
    match UUID.ofStr? p.1.1 with
    | none => .error .valueError
    | some merchant_id => .ok ⟨p.2 + 1, merchant_id, none, p.1.2, none⟩

def rollupEntries (rows : List LeaderboardRow) : List LeaderboardEntry :=
  rows.zipIdx.map fun p =>
    ⟨p.2 + 1, p.1.merchant_id, none, p.1.volume_cents,
      some p.1.transaction_count⟩

/-- The entries and their source. -/
def leaderboardEntries (settings : Settings) (period_key : String)
    (period_start period_end : DateTime) (n : ℕ) :
    Service (List LeaderboardEntry × String) := do
  let live ← RedisRepository.leaderboardExists period_key
  if live then do
    let raw ← RedisRepository.leaderboardTopN period_key n
    let entries ← raising (redisEntries raw)
    pure (entries, "redis")
  else do
    RedisRepository.incrLeaderboardRebuildCount
    let rows ← RollupRepository.queryLeaderboardFromDb period_start period_end n
    if rows = [] then pure ()
    else RedisRepository.leaderboardRebuild settings period_key rows
    pure (rollupEntries rows, "rollup_day")

def getLeaderboard (settings : Settings) (period : Option String)
    (top_n : Option ℕ) : Service LeaderboardResponse := do
  let now ← perform .now
  let period_key := match period.filter (· ≠ "") with
    | some p => p
    | none => periodKey now
  let n := match top_n.filter (· ≠ 0) with
    | some n => n
    | none => settings.leaderboard_top_n
  match (parsePeriod period_key).bind fun p => periodBounds p.1 p.2 with
  | none => throw (periodError period_key)
  | some (period_start, period_end) => do
      let (entries, source) ←
        leaderboardEntries settings period_key period_start period_end n
      pure ⟨period_key, period_start, period_end, entries, source, now⟩

/-! ### History -/

/-- What an attribute of a service object refers to. -/
inductive Attribute where
  | rollupRepository
  | redisRepository
  | asyncSession

/-- The attributes `__init__` sets. -/
def init : Dict String Attribute :=
  ((∅ : Dict String Attribute).set "_rollup_repo" .rollupRepository).set
    "_redis_repo" .redisRepository

/-- `getattr(self, name)` -/
def getattr (self : Dict String Attribute) (name : String) : Service Attribute :=
  match self.get? name with
  | some value => pure value
  | none => throw .attributeError

/-- `await value.execute(statement)`; only sessions have that method. -/
def executeOn (value : Attribute) (s : Stmt) : Service s.Result :=
  match value with
  | .asyncSession => execute s
  | .rollupRepository => throw .attributeError
  | .redisRepository => throw .attributeError

/-- The `defaultdict(list)` of the rows by `period_start`. -/
def groupByStart (rows : List HistoryRow) : Dict DateTime (List HistoryRow) :=
  rows.foldl (fun grouped row => grouped.alter row.period_start fun entries =>
    entries.getD [] ++ [row]) ∅

def historyEnd (period : String) (ps : DateTime) : Except PyError DateTime :=
  if period = "monthly" then
    let first :=
      if ps.month = 12 then ps.replace? (ps.year + 1) 1 1
      else ps.replace? ps.year (ps.month + 1) 1
    first.elim (.error .valueError) .ok
  else if period = "daily" then
    (ps.addDays? 1).elim (.error .overflowError) .ok
  else (ps.addDays? 7).elim (.error .overflowError) .ok

def historyEntry (e : HistoryRow) : LeaderboardEntry :=
  ⟨e.rank, e.merchant_id, e.merchant_name, e.amount_sum_cents, none⟩

def snapshotResponse (period : String) (period_start : DateTime)
    (entries : List HistoryRow) : Service LeaderboardResponse := do
  let period_end ← raising (historyEnd period period_start)
  let generated_at ← match entries with
    | e :: _ => pure e.created_at
    | [] => perform .now
  pure ⟨period, period_start, period_end, entries.map historyEntry,
    "snapshot", generated_at⟩

def getLeaderboardHistory (self : Dict String Attribute) (period : String)
    (limit : ℕ) : Service LeaderboardHistoryResponse := do
  let session ← getattr self "_session"
  let rows ← executeOn session (.selectHistory period (limit * 10))
  let grouped := (groupByStart rows).entries.insertionSort fun a b => b.1 ≤ a.1
  let snapshots ← (grouped.take limit).mapM fun p =>
    snapshotResponse period p.1 p.2
  match LeaderboardPeriod.ofValue? period with
  | none => throw .valueError
  | some value => pure ⟨value, snapshots⟩

end QueryService

/-! ## Requests -/

def metricsRequest (settings : Settings) (merchant_id : UUID)
    (start stop : AwareDateTime) : Service MetricsResponse :=
  getDb (fun _ => [])
    (QueryService.getMerchantMetrics settings merchant_id start stop)

def sparklineRequest (settings : Settings) (merchant_id : UUID)
    (window_minutes : ℤ) : Service SparklineResponse :=
  getDb (fun _ => [])
    (QueryService.getSparkline settings merchant_id window_minutes)

def leaderboardRequest (settings : Settings) (period : Option String)
    (top_n : Option ℕ) : Service LeaderboardResponse :=
  getDb (fun _ => []) (QueryService.getLeaderboard settings period top_n)

def leaderboardHistoryRequest (period : String) (limit : ℕ) :
    Service LeaderboardHistoryResponse :=
  getDb (fun _ => [])
    (QueryService.getLeaderboardHistory QueryService.init period limit)

end AnalyticsPipeline
