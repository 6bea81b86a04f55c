import AnalyticsPipeline.Framework.Binary64
import AnalyticsPipeline.Model.QueryService

/-!
# Routes

What the handlers do themselves: the bounds of a metrics request, and the health
report.
-/

namespace AnalyticsPipeline

open Framework

/-! ## Times of a request -/

namespace PyDateTime

/-- `a >= b` -/
def ge : PyDateTime → PyDateTime → Except PyError Bool
  | .naive a, .naive b => .ok (b.micros ≤ a.micros)
  | .aware a, .aware b => .ok (b.instant ≤ a.instant)
  | _, _ => .error .typeError

/-- `a - b`, in microseconds. -/
def sub : PyDateTime → PyDateTime → Except PyError ℤ
  | .naive a, .naive b => .ok (a.micros - b.micros)
  | .aware a, .aware b => .ok (a.instant - b.instant)
  | _, _ => .error .typeError

/-- `t.replace(tzinfo=timezone.utc)` where there is no `tzinfo`. -/
def ensureAware : PyDateTime → AwareDateTime
  | .naive t => .utc t
  | .aware t => t

end PyDateTime

/-- `timedelta.days` -/
def timedeltaDays (micros : ℤ) : ℤ := micros / DateTime.dayMicros

/-! ## Metrics -/

def checkBounds (start stop : PyDateTime) :
    Except PyError (AwareDateTime × AwareDateTime) := do
  if ← start.ge stop then
    throw (.httpException 400 "start must be before end")
  if 365 < timedeltaDays (← stop.sub start) then
    throw (.httpException 400 "Range cannot exceed 365 days")
  pure (start.ensureAware, stop.ensureAware)

/-- `get_metrics` once it has read the clock. -/
def getMetricsAt (settings : Settings) (now : DateTime) (merchant_id : UUID)
    (start stop : Option PyDateTime) : Service MetricsResponse := do
  let stop := stop.getD (.aware (.utc now))
  let start ← match start with
    | some start => pure start
    | none => do
        -- `now - timedelta(hours=24)`
        let start ← raising (now.prevDay?.elim (.error .overflowError) .ok)
        pure (.aware (.utc start))
  let (start, stop) ← raising (checkBounds start stop)
  QueryService.getMerchantMetrics settings merchant_id start stop

def getMetrics (settings : Settings) (merchant_id : UUID)
    (start stop : Option PyDateTime) : Service MetricsResponse := do
  let now ← perform .now
  getMetricsAt settings now merchant_id start stop

/-! ## Health -/

inductive HealthStatus where
  | ok
  | degraded
  | down
  | unknown
deriving DecidableEq

structure ComponentHealth where
  status : HealthStatus
  detail : Option String := none
  latency_ms : Option ℚ := none
deriving DecidableEq

structure ConsumerOffsetInfo where
  consumer_id : String
  last_event_id : Option String
  last_event_at : String
  lag_seconds : ℚ
deriving DecidableEq

structure HealthResponse where
  status : HealthStatus
  version : String
  components : Dict String ComponentHealth
  rollup_lag_seconds : Option ℚ
  consumer_offset : Option ConsumerOffsetInfo
  timestamp : DateTime

/-- `timedelta.total_seconds()` -/
def totalSeconds (micros : ℤ) : ℚ := binary64 (micros / 1000000)

/-- `round((now - last).total_seconds(), 1)` -/
def lagSeconds (now last : DateTime) : ℚ :=
  binary64 (roundTo 1 (totalSeconds ((now.micros : ℤ) - last.micros)))

/-- `str` of the lag. -/
def lagText (now last : DateTime) : String :=
  let seconds := totalSeconds ((now.micros : ℤ) - last.micros)
  let tenths := (nearestEven (seconds * 10)).natAbs
  let sign := if seconds < 0 then "-" else ""
  s!"{sign}{tenths / 10}.{tenths % 10}"

def databaseHealth : Except String ℚ → ComponentHealth
  | .ok latency => { status := .ok, latency_ms := some latency }
  | .error exc => { status := .down, detail := some exc }

def redisHealth : Except String ℚ → ComponentHealth
  | .ok latency => { status := .ok, latency_ms := some latency }
  | .error exc => { status := .degraded, detail := some exc }

def workerHealth (settings : Settings) (now : DateTime) :
    Option DateTime → ComponentHealth
  | some last =>
      { status :=
          if settings.worker_lag_threshold_s < lagSeconds now last then .degraded
          else .ok
        detail := some s!"lag={lagText now last}s" }
  | none =>
      { status := .unknown
        detail := some "No offset recorded — worker may not have started" }

/-- `health_check`: how the database answers, the offset row of the configured
consumer if the query came to return it, how Redis answers the ping, and the
clock when the lag is taken and at the end. -/
def healthCheck (settings : Settings) (database : Except String ℚ)
    (offset : Option ConsumerOffset) (redis : Except String ℚ)
    (now timestamp : DateTime) : HealthResponse :=
  let last_event_at := offset.bind ConsumerOffset.last_event_at
  let overall := (databaseHealth database).status
  let overall :=
    if overall = .ok then (redisHealth redis).status else overall
  let worker := workerHealth settings now last_event_at
  let overall :=
    if overall = .ok ∧ worker.status = .degraded then .degraded else overall
  { status := overall
    version := settings.app_version
    components := Dict.ofList
      [("database", databaseHealth database), ("redis", redisHealth redis),
        ("rollup_worker", worker)]
    rollup_lag_seconds := last_event_at.map (lagSeconds now)
    consumer_offset := offset.bind fun o => last_event_at.map fun last =>
      { consumer_id := settings.worker_id
        last_event_id := o.last_event_id.map UUID.str
        last_event_at := isoformat (.utc last)
        lag_seconds := lagSeconds now last }
    timestamp }

end AnalyticsPipeline
