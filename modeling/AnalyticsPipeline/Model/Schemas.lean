import AnalyticsPipeline.Framework.Calendar
import AnalyticsPipeline.Framework.Digits
import AnalyticsPipeline.Framework.Json
import AnalyticsPipeline.Framework.Uppercase
import Mathlib.Data.Rat.Defs

/-!
# Schemas

The request and response models of the services, after validation: a value of
`EventIngest` or `BatchEventIngest` is one the route layer has accepted, and
carries the checks it passed as fields. The keys of a metadata document are
validated strings; what is below them is as `json.loads` built it.
-/

namespace AnalyticsPipeline

open Framework

inductive EventType where
  | paymentInitiated
  | paymentConfirmed
  | paymentFailed
deriving DecidableEq

inductive RollupGranularity where
  | minute
  | hour
  | day
deriving DecidableEq

def RollupGranularity.value : RollupGranularity → String
  | .minute => "minute"
  | .hour => "hour"
  | .day => "day"

/-! ## Settings -/

structure Settings where
  worker_id : String := "rollup-worker-1"
  worker_batch_size : ℕ := 1000
  worker_lag_threshold_s : ℤ := 30
  cache_ttl_live : ℕ := 5
  cache_ttl_historical : ℕ := 60
  cache_ttl_archive : ℕ := 300
  leaderboard_top_n : ℕ := 10
  leaderboard_rebuild_ttl : ℕ := 3600
  app_version : String := "1.0.0"

/-! ## Times of a request -/

/-- `datetime`, with or without a `tzinfo`. -/
inductive PyDateTime where
  | naive (t : DateTime)
  | aware (t : AwareDateTime)
deriving DecidableEq

/-! ## Ingestion -/

/-- `dict[str, Any]` -/
abbrev Metadata := List (String × Json)

/-- `currency` is the value after the `currency_uppercase` validator, which may
be longer than the three characters the raw field had. -/
structure EventIngest where
  event_type : EventType
  merchant_id : UUID
  amount_cents : ℤ
  currency : String
  idempotency_key : String
  client_timestamp : Option PyDateTime
  metadata : Option Metadata
  amount_nonneg : 0 ≤ amount_cents
  key_length : 1 ≤ idempotency_key.length ∧ idempotency_key.length ≤ 255

/-- The fields of an event as the JSON body has them, before the constraints of
`EventIngest` are checked. -/
structure EventPayload where
  event_type : EventType
  merchant_id : UUID
  amount_cents : ℤ
  currency : Option String := none
  idempotency_key : String
  client_timestamp : Option PyDateTime := none
  metadata : Option Metadata := none

/-- `loc` and `type` of one entry of a `ValidationError`. -/
structure FieldError where
  loc : String
  type : String
deriving DecidableEq

/-- `min_length` and `max_length`, counted in code points. -/
def checkLength (loc : String) (min_length max_length : ℕ) (s : String) :
    List FieldError :=
  if s.length < min_length then [⟨loc, "string_too_short"⟩]
  else if max_length < s.length then [⟨loc, "string_too_long"⟩]
  else []

/-- `ge` -/
def checkGe (loc : String) (bound value : ℤ) : List FieldError :=
  if value < bound then [⟨loc, "greater_than_equal"⟩] else []

def EventPayload.errors (p : EventPayload) : List FieldError :=
  checkGe "amount_cents" 0 p.amount_cents ++
  p.currency.elim [] (checkLength "currency" 3 3) ++
  checkLength "idempotency_key" 1 255 p.idempotency_key

theorem checkLength_eq_nil_iff {loc : String} {m n : ℕ} {s : String} :
    checkLength loc m n s = [] ↔ m ≤ s.length ∧ s.length ≤ n := by
  unfold checkLength
  split
  · simp only [reduceCtorEq, false_iff]
    omega
  · split
    · simp only [reduceCtorEq, false_iff]
      omega
    · simp only [true_iff]
      omega

theorem checkGe_eq_nil_iff {loc : String} {bound value : ℤ} :
    checkGe loc bound value = [] ↔ bound ≤ value := by
  unfold checkGe
  split
  · simp only [reduceCtorEq, false_iff]
    omega
  · simp only [true_iff]
    omega

/-- What the checks let through. -/
theorem EventPayload.errors_eq_nil_iff {p : EventPayload} : p.errors = [] ↔
    (0 ≤ p.amount_cents ∧ ∀ currency, p.currency = some currency →
      currency.length = 3) ∧
    1 ≤ p.idempotency_key.length ∧ p.idempotency_key.length ≤ 255 := by
  rw [EventPayload.errors, List.append_eq_nil_iff, List.append_eq_nil_iff,
    checkGe_eq_nil_iff, checkLength_eq_nil_iff]
  cases p.currency with
  | none => simp
  | some currency =>
      rw [Option.elim_some, checkLength_eq_nil_iff]
      simp only [Option.some.injEq, forall_eq']
      constructor
      · rintro ⟨⟨hamount, hcurrency⟩, hkey⟩
        exact ⟨⟨hamount, by omega⟩, hkey⟩
      · rintro ⟨⟨hamount, hcurrency⟩, hkey⟩
        exact ⟨⟨hamount, by omega⟩, hkey⟩

/-- The `currency_uppercase` validator runs after the length check, and not on
the default. -/
def EventIngest.validate (p : EventPayload) :
    Except (List FieldError) EventIngest :=
  if h : p.errors = [] then
    .ok {
      event_type := p.event_type
      merchant_id := p.merchant_id
      amount_cents := p.amount_cents
      currency := p.currency.elim "EUR" upper
      idempotency_key := p.idempotency_key
      client_timestamp := p.client_timestamp
      metadata := p.metadata
      amount_nonneg := (EventPayload.errors_eq_nil_iff.mp h).1.1
      key_length := (EventPayload.errors_eq_nil_iff.mp h).2 }
  else .error p.errors

structure BatchEventIngest where
  events : List EventIngest
  length_range : 1 ≤ events.length ∧ events.length ≤ 500

structure EventIngestResponse where
  event_id : UUID
  idempotency_key : String
  occurred_at : DateTime
  duplicate : Bool
deriving DecidableEq

structure BatchIngestResponse where
  accepted : ℤ
  duplicates : ℤ
  events : List EventIngestResponse
deriving DecidableEq

/-! ## Metrics -/

structure BucketDataPoint where
  bucket : DateTime
  volume_cents : ℤ
  count : ℤ
deriving DecidableEq

structure MetricsResponse where
  merchant_id : UUID
  start : AwareDateTime
  stop : AwareDateTime
  granularity : RollupGranularity
  total_volume_cents : ℤ
  total_count : ℤ
  success_rate : Option ℚ
  data : List BucketDataPoint
  cache_hit : Bool
  query_latency_ms : Option ℚ
deriving DecidableEq

structure SparklineResponse where
  merchant_id : UUID
  window_minutes : ℤ
  data : List BucketDataPoint
  cache_hit : Bool
deriving DecidableEq

/-! ## Leaderboard -/

inductive LeaderboardPeriod where
  | daily
  | weekly
  | monthly
deriving DecidableEq

def LeaderboardPeriod.value : LeaderboardPeriod → String
  | .daily => "daily"
  | .weekly => "weekly"
  | .monthly => "monthly"

/-- `LeaderboardPeriod(value)` -/
def LeaderboardPeriod.ofValue? (value : String) : Option LeaderboardPeriod :=
  [.daily, .weekly, .monthly].find? (·.value = value)

structure LeaderboardEntry where
  rank : ℕ
  merchant_id : UUID
  merchant_name : Option String
  volume_cents : ℤ
  transaction_count : Option ℤ
deriving DecidableEq

structure LeaderboardResponse where
  period : String
  period_start : DateTime
  period_end : DateTime
  entries : List LeaderboardEntry
  source : String
  generated_at : DateTime
deriving DecidableEq

structure LeaderboardHistoryResponse where
  period : LeaderboardPeriod
  snapshots : List LeaderboardResponse
deriving DecidableEq

end AnalyticsPipeline
