import AnalyticsPipeline.Guarantees.ExactlyOnce
import AnalyticsPipeline.Metatheory.SolitaryQuery

/-!
# Metrics are a scan of the events

Batches fill the rollup tables, queries regroup their rows; end to end a query
on a cache miss answers the bucketed aggregation of the processed events.
-/

namespace AnalyticsPipeline

open Framework

/-- The merchant's events in one bucket. -/
def inBucket (g : RollupGranularity) (m : UUID) (bucket : DateTime)
    (events : List RawEvent) : List RawEvent :=
  events.filter fun e => e.merchant_id = m ∧ g.truncate (bucketTs e) = bucket

/-- The response is the bucketed aggregation of the merchant's events between
the bounds. -/
structure ScanOf (g : RollupGranularity) (m : UUID) (start stop : ℤ)
    (events : List RawEvent) (a : MetricsResponse) : Prop where
  granularity : a.granularity = g
  ascending : (a.data.map (·.bucket)).Pairwise (· < ·)
  buckets : ∀ b, (∃ p ∈ a.data, p.bucket = b) ↔
    (start ≤ b.micros ∧ b.micros ≤ stop) ∧ inBucket g m b events ≠ []
  count : ∀ p ∈ a.data, p.count = (inBucket g m p.bucket events).length
  volume : ∀ p ∈ a.data, p.volume_cents =
    ((inBucket g m p.bucket events).map fun e => e.amount_cents).sum
  total_count : a.total_count = (scanned g m start stop events).length
  total_volume : a.total_volume_cents =
    ((scanned g m start stop events).map fun e => e.amount_cents).sum

section Scan

variable {db : Db} {events : List RawEvent} {g : RollupGranularity} {m : UUID}
  {start stop : ℤ}

@[simp] theorem bucketOf_truncate (g : RollupGranularity) (t : DateTime) :
    Stmt.bucketOf g (g.truncate t) = g.truncate t := by
  cases g <;> rfl

theorem between_iff {t : DateTime} :
    Stmt.between start stop t = true ↔ start ≤ t.micros ∧ t.micros ≤ stop := by
  simp [Stmt.between]

/-- A bucket between the bounds is scanned whole. -/
theorem scanned_bucket {b : DateTime} (hb : Stmt.between start stop b = true) :
    ((scanned g m start stop events).filter fun e =>
      decide (Stmt.bucketOf g (e.rollupKey g).bucket = b)) =
        inBucket g m b events := by
  rw [scanned, inBucket, List.filter_filter]
  refine List.filter_congr fun e _ => ?_
  rw [RawEvent.rollupKey, bucketOf_truncate]
  by_cases hbucket : g.truncate (bucketTs e) = b
  · simp [hbucket, hb]
  · simp [hbucket]

theorem between_of_scanned {e : RawEvent}
    (he : e ∈ scanned g m start stop events) :
    e.merchant_id = m ∧
      Stmt.between start stop (g.truncate (bucketTs e)) = true := by
  have hmem := (List.mem_filter.mp he).2
  simpa using hmem

/-- The buckets of the points are those of the scanned events. -/
theorem Rolled.exists_point_iff (h : Rolled db events) (b : DateTime) :
    (∃ r ∈ db.bucketRows g m start stop,
      Stmt.bucketOf g r.1.bucket = b) ↔
        Stmt.between start stop b = true ∧ inBucket g m b events ≠ [] := by
  rw [h.exists_bucketRow_iff fun k => Stmt.bucketOf g k.bucket = b]
  simp only [RawEvent.rollupKey, bucketOf_truncate]
  constructor
  · rintro ⟨e, he, rfl⟩
    obtain ⟨hm, hbetween⟩ := between_of_scanned he
    refine ⟨hbetween, List.ne_nil_of_mem (a := e) ?_⟩
    rw [inBucket, List.mem_filter]
    exact ⟨(List.mem_filter.mp he).1, by simp [hm]⟩
  · rintro ⟨hbetween, hne⟩
    obtain ⟨e, he⟩ := List.exists_mem_of_ne_nil _ hne
    rw [inBucket, List.mem_filter, decide_eq_true_eq] at he
    obtain ⟨he, hm, rfl⟩ := he
    exact ⟨e, List.mem_filter.mpr ⟨he, by simp [hm, hbetween]⟩, rfl⟩

theorem Rolled.mem_points (h : Rolled db events) {p : BucketRow}
    (hp : p ∈ db.points g m start stop) :
    p.count = (inBucket g m p.bucket events).length ∧
      p.volume_cents =
        ((inBucket g m p.bucket events).map fun e => e.amount_cents).sum := by
  obtain ⟨hrow, hvolume, hcount⟩ := (mem_groupBuckets_iff _ _).mp hp
  have hbetween := ((h.exists_point_iff p.bucket).mp hrow).1
  have hcount' := @Rolled.sumCount _ _ g m start stop h
    fun k => decide (Stmt.bucketOf g k.bucket = p.bucket)
  have hvolume' := @Rolled.sumAmount _ _ g m start stop h
    fun k => decide (Stmt.bucketOf g k.bucket = p.bucket)
  rw [scanned_bucket hbetween] at hcount' hvolume'
  exact ⟨hcount.trans hcount', hvolume.trans hvolume'⟩

/-- **A query is a scan**, whatever events the tables group. -/
theorem Rolled.scanOf (h : Rolled db events) (settings : Settings) (m : UUID)
    (start stop : AwareDateTime) (latency : ℚ) :
    ScanOf (selectGranularity settings start stop).1 m start.instant stop.instant
      events (db.metrics settings m start stop latency) where
  granularity := rfl
  ascending := by
    rw [Db.metrics, List.map_map]
    exact groupBuckets_ascending _ _
  buckets := fun b => by
    rw [← between_iff, ← h.exists_point_iff b, ← exists_groupBuckets_iff]
    simp only [Db.metrics, List.mem_map, exists_exists_and_eq_and]
    rfl
  count := by
    simp only [Db.metrics, List.forall_mem_map]
    exact fun p hp => (h.mem_points hp).1
  volume := by
    simp only [Db.metrics, List.forall_mem_map]
    exact fun p hp => (h.mem_points hp).2
  total_count := by
    have htotal := @Rolled.sumCount _ _ (selectGranularity settings start stop).1
      m start.instant stop.instant h fun _ => true
    simp only [List.filter_true] at htotal
    rw [← htotal]
    simp only [Db.metrics, List.map_map]
    exact groupBuckets_count _ _
  total_volume := by
    have htotal := @Rolled.sumAmount _ _ (selectGranularity settings start stop).1
      m start.instant stop.instant h fun _ => true
    simp only [List.filter_true] at htotal
    rw [← htotal]
    simp only [Db.metrics, List.map_map]
    exact groupBuckets_volume _ _

end Scan

/-! ## The request -/

section Request

variable {settings : Settings} {i : ℕ} {w w' : World} {m : UUID}
  {start stop : AwareDateTime} {redis : Redis} {fails : Bool}
  {x : Except PyError MetricsResponse}

theorem eval_metricsRequest (hidle : w.txs.get? i = none)
    (hmiss : redis.misses (metricCacheKey m start stop
      (selectGranularity settings start stop).1.value))
    (he : Eval (M := services) (notifying fails) i
      (metricsRequest settings m start stop) { w with redis } x w') :
    MetricsMissed settings w.toHistory redis m start stop x w'.redis := by
  have hat : At i w.toHistory redis w.issued none { w with redis } :=
    ⟨rfl, rfl, rfl, hidle⟩
  obtain ⟨_, r', hat', -, hx⟩ := after_metricsRequest hat hmiss x w' he
  exact hat'.redis ▸ hx

/-- The request is answered from the tables, Redis having no hit for it. -/
def AnswersMiss (settings : Settings) (i : ℕ) (w : World) (m : UUID)
    (start stop : AwareDateTime) (a : MetricsResponse) : Prop :=
  ∃ redis w', redis.misses (metricCacheKey m start stop
      (selectGranularity settings start stop).1.value) ∧
    Eval (M := services) noFailure i (metricsRequest settings m start stop)
      { w with redis } (.ok a) w'

theorem AnswersMiss.eq {a : MetricsResponse} (hidle : w.txs.get? i = none)
    (h : AnswersMiss settings i w m start stop a) :
    ∃ latency, a = w.db.metrics settings m start stop latency := by
  obtain ⟨redis, w', hmiss, he⟩ := h
  exact (eval_metricsRequest hidle hmiss he).1

/-- A request that misses returns, unless its counter is none or its time to
live is zero. -/
theorem exists_eval_metricsRequest (hidle : w.txs.get? i = none)
    (hmiss : redis.misses (metricCacheKey m start stop
      (selectGranularity settings start stop).1.value))
    (hcounts : CountsAt "metrics:cache_misses" redis)
    (httl : (selectGranularity settings start stop).2 ≠ 0) :
    ∃ a w', Eval (M := services) noFailure i
      (metricsRequest settings m start stop) { w with redis } (.ok a) w' := by
  obtain ⟨x, w', he⟩ := exists_eval_waitless (i := i) false
    (within_metricsRequest settings m start stop) { w with redis }
  have hx := eval_metricsRequest hidle hmiss he
  cases x with
  | ok a => exact ⟨a, w', he⟩
  | error e => exact absurd (hx hcounts) httl

theorem exists_answersMiss (hidle : w.txs.get? i = none)
    (httl : (selectGranularity settings start stop).2 ≠ 0) :
    ∃ a, AnswersMiss settings i w m start stop a := by
  have hmiss : (∅ : Redis).misses (metricCacheKey m start stop
      (selectGranularity settings start stop).1.value) := ⟨none, rfl, rfl⟩
  obtain ⟨a, w', he⟩ := exists_eval_metricsRequest hidle hmiss
    (fun _ hget => by simp at hget) httl
  exact ⟨a, ∅, w', hmiss, he⟩

/-- Without a time to live no miss is answered. -/
theorem ttl_ne_zero_of_answersMiss {a : MetricsResponse}
    (hidle : w.txs.get? i = none)
    (h : AnswersMiss settings i w m start stop a) :
    (selectGranularity settings start stop).2 ≠ 0 := by
  obtain ⟨redis, w', hmiss, he⟩ := h
  exact (eval_metricsRequest hidle hmiss he).2.1

end Request

end AnalyticsPipeline
