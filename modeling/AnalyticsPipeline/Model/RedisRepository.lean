import AnalyticsPipeline.Model.World

/-!
# Redis repository

Leaderboard sorted sets, the query cache and the counters. Merchants are
members under the text of their id, and every key is spelled as the services
spell it.
-/

namespace AnalyticsPipeline

open Framework

/-! ## Text -/

/-- `YYYY-MM-DDTHH:MM:SS`, then the microseconds when there are any. -/
def naiveIsoformat (t : DateTime) : List Char :=
  pad 10 4 t.year ++ '-' :: pad 10 2 t.month ++ '-' :: pad 10 2 t.day ++
    'T' :: pad 10 2 t.hour ++ ':' :: pad 10 2 t.minute ++
    ':' :: pad 10 2 t.second ++
    if t.microsecond = 0 then [] else '.' :: pad 10 6 t.microsecond

/-- `±HH:MM`, then the seconds and microseconds when there are any. -/
def offsetIsoformat (offset : ℤ) : List Char :=
  let n := offset.natAbs
  let seconds := n / 1000000
  (if offset < 0 then '-' else '+') :: pad 10 2 (seconds / 3600) ++
    ':' :: pad 10 2 (seconds / 60 % 60) ++
    (if n % 60000000 = 0 then [] else ':' :: pad 10 2 (seconds % 60)) ++
    if n % 1000000 = 0 then [] else '.' :: pad 10 6 (n % 1000000)

/-- `datetime.isoformat()` -/
def isoformat (t : AwareDateTime) : String :=
  String.ofList (naiveIsoformat t.naive ++ offsetIsoformat t.utcoffset)

/-! ## Keys -/

def leaderboardKey (period : String) : String := s!"leaderboard:volume:{period}"

def metricCacheKey (merchant_id : UUID) (start stop : AwareDateTime)
    (granularity : String) : String :=
  s!"metrics:{merchant_id.str}:{isoformat start}:{isoformat stop}:{granularity}"

def sparklineCacheKey (merchant_id : UUID) (window_minutes : ℤ) : String :=
  s!"sparkline:{merchant_id.str}:{window_minutes}"

namespace RedisRepository

/-! ## Leaderboard -/

def write (transaction : Bool) (ops : List RedisOp) : Service Unit := do
  redisResult (← perform (.redisWrite transaction ops))

def leaderboardIncrementBatch (period : String)
    (merchant_increments : Dict String ℤ) : Service Unit := do
  if merchant_increments.entries = [] then pure ()
  else
    let key := leaderboardKey period
    write false
      ((merchant_increments.entries.map fun p => .zincrby key p.2 p.1) ++
        [.expire key (48 * 3600)])

def leaderboardTopN (period : String) (top_n : ℕ) :
    Service (List (String × ℤ)) := do
  redisResult (← perform (.redisRange (leaderboardKey period) 0 (top_n - 1)))

def leaderboardExists (period : String) : Service Bool := do
  redisResult (← perform (.redisExists (leaderboardKey period)))

def leaderboardRebuild (settings : Settings) (period : String)
    (entries : List LeaderboardRow) : Service Unit :=
  let key := leaderboardKey period
  write true
    ([.delete key] ++
      (entries.map fun e => .zadd key e.merchant_id.str e.volume_cents) ++
      [.expire key settings.leaderboard_rebuild_ttl])

/-! ## Metric cache -/

def cacheGet (key : String) : Service (Option Document) := do
  redisResult (← perform (.redisGet key))

def cacheSet (key : String) (value : Document) (ttl : ℕ) : Service Unit :=
  write false [.set key (.document value) ttl]

def metricCacheGet (merchant_id : UUID) (start stop : AwareDateTime)
    (granularity : String) : Service (Option Document) :=
  cacheGet (metricCacheKey merchant_id start stop granularity)

def metricCacheSet (merchant_id : UUID) (start stop : AwareDateTime)
    (granularity : String) (value : Document) (ttl : ℕ) : Service Unit :=
  cacheSet (metricCacheKey merchant_id start stop granularity) value ttl

def sparklineCacheGet (merchant_id : UUID) (window_minutes : ℤ) :
    Service (Option Document) :=
  cacheGet (sparklineCacheKey merchant_id window_minutes)

def sparklineCacheSet (merchant_id : UUID) (window_minutes : ℤ)
    (value : Document) (ttl : ℕ) : Service Unit :=
  cacheSet (sparklineCacheKey merchant_id window_minutes) value ttl

/-! ## Health -/

def setWorkerHeartbeat (worker_id : String) : Service Unit := do
  let now ← perform .now
  write false [.set s!"worker:heartbeat:{worker_id}" (.timestamp now) 60]

def recordIngestion (count : ℕ) : Service Unit :=
  write true
    [.incrby "metrics:ingestion_rate" count, .expire "metrics:ingestion_rate" 2]

def recordCacheHit : Service Unit :=
  write true
    [.incrby "metrics:cache_hits" 1, .expire "metrics:cache_hits" 3600]

def recordCacheMiss : Service Unit :=
  write true
    [.incrby "metrics:cache_misses" 1, .expire "metrics:cache_misses" 3600]

def incrLeaderboardRebuildCount : Service Unit :=
  write false [.incrby "metrics:leaderboard_rebuilds" 1]

end RedisRepository

end AnalyticsPipeline
