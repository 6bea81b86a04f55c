import AnalyticsPipeline.Metatheory.RollupReads
import AnalyticsPipeline.Metatheory.SolitaryTransaction

/-!
# Queries alone

A query reads the committed rows and Redis and writes to the cache and the
counters only. What it answers on a cache miss is a function of the tables.
-/

namespace AnalyticsPipeline

open Framework

/-! ## What a miss computes -/

/-- The rounded share of the confirmed payments, if there are any to share. -/
def successRate (confirmed failed : ℤ) : Option ℚ :=
  if 0 < confirmed + failed then
    some (roundTo 4 ((confirmed : ℚ) / (confirmed + failed : ℤ)))
  else none

/-- The payments of one type in the hour rows of the range. -/
def Db.outcomes (db : Db) (m : UUID) (start stop : ℤ) (type : EventType) : ℤ :=
  Stmt.sumCount ((db.bucketRows .hour m start stop).filter fun r =>
    r.1.event_type = type)

/-- The points of the range at a granularity. -/
def Db.points (db : Db) (g : RollupGranularity) (m : UUID) (start stop : ℤ) :
    List BucketRow :=
  Stmt.groupBuckets (Stmt.bucketOf g) (db.bucketRows g m start stop)

/-- What `get_merchant_metrics` computes from the tables. -/
def Db.metrics (db : Db) (settings : Settings) (m : UUID)
    (start stop : AwareDateTime) (latency : ℚ) : MetricsResponse :=
  let granularity := (selectGranularity settings start stop).1
  let data := (db.points granularity m start.instant stop.instant).map
    BucketRow.dataPoint
  { merchant_id := m, start, stop, granularity
    total_volume_cents := (data.map (·.volume_cents)).sum
    total_count := (data.map (·.count)).sum
    success_rate := successRate
      (db.outcomes m start.instant stop.instant .paymentConfirmed)
      (db.outcomes m start.instant stop.instant .paymentFailed)
    data
    cache_hit := false
    query_latency_ms := some latency }

/-- The minutes of the last `window`, as the sparkline query reads them at
`now`. -/
def Db.sparkline (db : Db) (m : UUID) (window : ℤ) (now : DateTime) :
    List BucketDataPoint :=
  (Stmt.groupBuckets id ((Stmt.merchantRows (db.rollup .minute).entries m).filter
    fun r => (now.micros : ℤ) - window * 60000000 ≤ r.1.bucket.micros)).map
      BucketRow.dataPoint

/-- The key holds no document that counts as a hit. -/
def Redis.misses (r : Redis) (key : String) : Prop :=
  ∃ cached, r.getDocument key = .ok cached ∧
    cached.filter Document.truthy = none

section Rules

variable {i : ℕ} {h : History} {r : Redis} {d : Dict UUID ℕ} {tx : Tx}
  {t : Option Tx} {w : World} {fails : Bool} {m : UUID}
  {start stop : AwareDateTime} {settings : Settings} {latency : ℚ}

theorem after_latencyMs {t₀ : ℚ} {Q : Except PyError ℚ → World → Prop}
    (hQ : ∀ latency, Q (.ok latency) w) :
    After (notifying fails) (M := services) i (QueryService.latencyMs t₀) Q w :=
  after_monotonic fun _ => after_ret (hQ _)

/-- A counter of the health endpoint, incremented. -/
theorem after_count {transaction : Bool} {key : String} {seconds : ℕ}
    {Q : Except PyError Unit → World → Prop} (hat : At i h r d t w)
    (hok : CountsAt key r → ∀ r' w', (∀ k, k ≠ key → r'.get? k = r.get? k) →
      At i h r' d t w' → Q (.ok ()) w')
    (herror : ¬ CountsAt key r → ∀ err r' w', At i h r' d t w' →
      Q (.error err) w') :
    After (notifying fails) (M := services) i
      (RedisRepository.write transaction [.incrby key 1, .expire key seconds])
      Q w := by
  refine after_write hat fun w' hat' => ?_
  by_cases hcounts : CountsAt key r
  · rw [(hcounts.record 1 seconds).1]
    refine hok hcounts _ w' (fun k hk => runAll_get?_of_ne ?_) hat'
    intro op hop
    rcases List.mem_pair.mp hop with rfl | rfl <;> exact Ne.symm hk
  · have herr : (r.runAll [.incrby key 1, .expire key seconds]).1 =
        .error .wrongType := by
      rw [Redis.runAll, not_countsAt_incrby hcounts]
    rw [herr]
    exact herror hcounts _ _ w' hat'

theorem after_queryRows {g : RollupGranularity}
    {Q : Except PyError (List BucketRow) → World → Prop}
    (hat : At i h r d (some tx) w) (hopen : tx.aborted = false)
    (hempty : tx.writes = ∅)
    (hQ : ∀ w', At i h r d (some tx) w' →
      Q (.ok (h.db.points g m start.instant stop.instant)) w') :
    After (notifying fails) (M := services) i
      (QueryService.queryRows g m start stop) Q w := by
  have hrun : After (notifying fails) (M := services) i
      (execute (.selectBuckets g m start.instant stop.instant)) Q w := by
    refine after_read hat hopen (by simp) (fun ch => ?_) hQ
    rw [hempty, Db.empty_overlay]
    rfl
  cases g <;> exact hrun

theorem after_querySuccessRate
    {Q : Except PyError (Option ℚ) → World → Prop}
    (hat : At i h r d (some tx) w) (hopen : tx.aborted = false)
    (hempty : tx.writes = ∅)
    (hQ : ∀ w', At i h r d (some tx) w' →
      Q (.ok (successRate
        (h.db.outcomes m start.instant stop.instant .paymentConfirmed)
        (h.db.outcomes m start.instant stop.instant .paymentFailed))) w') :
    After (notifying fails) (M := services) i
      (RollupRepository.querySuccessRate m start stop) Q w := by
  unfold RollupRepository.querySuccessRate
  by_cases hrows : h.db.bucketRows .hour m start.instant stop.instant = []
  · refine after_bind (after_read hat hopen (by simp) (x := (none, none))
      (fun ch => ?_) fun w' hat' => after_ret ?_)
    · rw [hempty, Db.empty_overlay]
      exact if_pos hrows
    · have hnone := hQ w' hat'
      rw [Db.outcomes, Db.outcomes, hrows] at hnone
      exact hnone
  · refine after_bind (after_read hat hopen (by simp)
      (x := (some (h.db.outcomes m start.instant stop.instant .paymentConfirmed),
        some (h.db.outcomes m start.instant stop.instant .paymentFailed)))
      (fun ch => ?_) fun w' hat' => after_ret (hQ w' hat'))
    rw [hempty, Db.empty_overlay]
    exact if_neg hrows

/-- How a miss ends: with what the tables hold, cached, unless the counter is
none or the time to live is zero. -/
def MetricsMissed (settings : Settings) (h : History) (r : Redis) (m : UUID)
    (start stop : AwareDateTime) (x : Except PyError MetricsResponse) (r' : Redis) : Prop :=
  match x with
  | .ok a => (∃ latency, a = h.db.metrics settings m start stop latency) ∧
      (selectGranularity settings start stop).2 ≠ 0 ∧
      r'.get? (metricCacheKey m start stop
        (selectGranularity settings start stop).1.value) =
        some ⟨.document a.dump, some (selectGranularity settings start stop).2⟩
  | .error _ => CountsAt "metrics:cache_misses" r →
      (selectGranularity settings start stop).2 = 0

theorem after_computedMetrics {t₀ : ℚ} {g : RollupGranularity} {ttl : ℕ}
    (hsel : selectGranularity settings start stop = (g, ttl))
    (hat : At i h r d (some tx) w) (hopen : tx.aborted = false)
    (hempty : tx.writes = ∅) :
    After (notifying fails) (M := services) i
      (QueryService.computedMetrics settings t₀ m start stop)
      (fun x w' => ∃ r', At i h r' d (some tx) w' ∧
        MetricsMissed settings h r m start stop x r') w := by
  unfold QueryService.computedMetrics MetricsMissed
  rw [hsel]
  refine after_bind (after_count hat ?_ ?_)
  · intro hcounts r₁ w₁ _ hat₁
    refine after_bind (after_queryRows hat₁ hopen hempty fun w₂ hat₂ => ?_)
    refine after_bind (after_querySuccessRate hat₂ hopen hempty
      fun w₃ hat₃ => ?_)
    refine after_bind (after_latencyMs fun latency => ?_)
    refine after_bind (after_write hat₃ fun w₄ hat₄ => ?_)
    rw [runAll_set] at hat₄ ⊢
    split at hat₄
    · rename_i httl
      rw [if_pos httl]
      exact ⟨_, hat₄, fun _ => httl⟩
    · rename_i httl
      rw [if_neg httl]
      refine after_ret ⟨_, hat₄, ⟨latency, ?_⟩, httl, ?_⟩
      · simp only [Db.metrics, hsel]
      · rw [Dict.get?_set]
        exact if_pos rfl
  · intro hno err r₁ w₁ hat₁
    exact ⟨r₁, hat₁, fun hcounts => absurd hcounts hno⟩

theorem after_getMerchantMetrics {g : RollupGranularity} {ttl : ℕ}
    (hsel : selectGranularity settings start stop = (g, ttl))
    (hat : At i h r d (some tx) w) (hopen : tx.aborted = false)
    (hempty : tx.writes = ∅)
    (hmiss : r.misses (metricCacheKey m start stop g.value)) :
    After (notifying fails) (M := services) i
      (QueryService.getMerchantMetrics settings m start stop)
      (fun x w' => ∃ r', At i h r' d (some tx) w' ∧
        MetricsMissed settings h r m start stop x r') w := by
  obtain ⟨cached, hget, hcached⟩ := hmiss
  unfold QueryService.getMerchantMetrics
  rw [hsel]
  refine after_monotonic fun t₀ => after_bind (after_cacheGet hat ?_)
  rw [hget]
  dsimp only [Except.mapError]
  rw [hcached]
  exact after_computedMetrics hsel hat hopen hempty

/-- **A miss** of the whole request leaves the tables as they are. -/
theorem after_metricsRequest (hat : At i h r d none w)
    (hmiss : r.misses (metricCacheKey m start stop
      (selectGranularity settings start stop).1.value)) :
    After (notifying fails) (M := services) i
      (metricsRequest settings m start stop)
      (fun x w' => ∃ h' r', At i h' r' d none w' ∧ h'.db = h.db ∧
        MetricsMissed settings h r m start stop x r') w := by
  refine after_getDb hat fun now w₁ hat₁ => ?_
  refine After.mono ?_ (after_getMerchantMetrics rfl hat₁ rfl rfl hmiss)
  rintro x w₂ ⟨r', hat₂, hx⟩
  refine ⟨r', d, _, hat₂, fun w₃ hat₃ => ⟨_, r', hat₃, ?_, hx⟩⟩
  cases x with
  | ok a => exact Db.empty_overlay h.db
  | error e => rfl

/-- How a sparkline that misses at `now` ends. -/
def SparklineMissed (settings : Settings) (h : History) (r : Redis) (m : UUID)
    (window : ℤ) (now : DateTime) (x : Except PyError SparklineResponse)
    (r' : Redis) : Prop :=
  match x with
  | .ok a => a = ⟨m, window, h.db.sparkline m window now, false⟩ ∧
      CountsAt "metrics:cache_misses" r ∧ settings.cache_ttl_live ≠ 0 ∧
      r'.get? (sparklineCacheKey m window) =
        some ⟨.document (.array (a.data.map BucketDataPoint.dump)),
          some settings.cache_ttl_live⟩
  | .error _ => CountsAt "metrics:cache_misses" r → settings.cache_ttl_live = 0

theorem after_getSparkline {window : ℤ} (hat : At i h r d (some tx) w)
    (hopen : tx.aborted = false) (hempty : tx.writes = ∅)
    (hmiss : r.misses (sparklineCacheKey m window)) :
    After (notifying fails) (M := services) i
      (QueryService.getSparkline settings m window)
      (fun x w' => ∃ r', At i h r' d (some tx) w' ∧
        SparklineMissed settings h r m window tx.now x r') w := by
  obtain ⟨cached, hget, hcached⟩ := hmiss
  unfold QueryService.getSparkline SparklineMissed
  refine after_bind (after_cacheGet hat ?_)
  rw [hget]
  dsimp only [Except.mapError]
  rw [hcached]
  refine after_bind (after_count hat ?_ ?_)
  · intro hcounts r₁ w₁ _ hat₁
    refine after_bind (after_read hat₁ hopen (by simp) (fun ch => rfl)
      fun w₂ hat₂ => ?_)
    refine after_bind (after_write hat₂ fun w₃ hat₃ => ?_)
    rw [hempty, Db.empty_overlay] at hat₃ ⊢
    rw [runAll_set] at hat₃ ⊢
    split at hat₃
    · rename_i httl
      rw [if_pos httl]
      exact ⟨_, hat₃, fun _ => httl⟩
    · rename_i httl
      rw [if_neg httl]
      refine after_ret ⟨_, hat₃, rfl, hcounts, httl, ?_⟩
      rw [Dict.get?_set]
      exact if_pos rfl
  · intro hno err r₁ w₁ hat₁
    exact ⟨r₁, hat₁, fun hcounts => absurd hcounts hno⟩

/-- A whole request that misses, at one of the instants `T`. -/
theorem after_sparklineRequest {ok : Call → Choice → Prop}
    {T : DateTime → Prop} {window : ℤ}
    (hok : ∀ c ch, ok c ch → notifying fails c ch)
    (hT : ∀ t, ok .begin (.clock t) → T t) (hat : At i h r d none w)
    (hmiss : r.misses (sparklineCacheKey m window)) :
    After ok (M := services) i (sparklineRequest settings m window)
      (fun x w' => ∃ h' r' now, At i h' r' d none w' ∧ h'.db = h.db ∧ T now ∧
        SparklineMissed settings h r m window now x r') w := by
  refine after_getDb_of hok hT hat fun now w₁ hnow hat₁ => ?_
  refine After.mono ?_ (after_getSparkline hat₁ rfl rfl hmiss)
  rintro x w₂ ⟨r', hat₂, hx⟩
  refine ⟨r', d, _, hat₂, fun w₃ hat₃ => ⟨_, r', now, hat₃, ?_, hnow, hx⟩⟩
  cases x with
  | ok a => exact Db.empty_overlay h.db
  | error e => rfl

/-! ## Hits -/

theorem ofFields_dump (p : BucketDataPoint) :
    BucketDataPoint.ofFields p.dump = .ok p := rfl

/-- Points are read back as they were dumped. -/
theorem dataPoints_dump (data : List BucketDataPoint) :
    (Document.array (data.map BucketDataPoint.dump)).dataPoints = .ok data := by
  show (data.map BucketDataPoint.dump).mapM BucketDataPoint.ofFields = .ok data
  induction data with
  | nil => rfl
  | cons p data ih =>
      rw [List.map_cons, List.mapM_cons, ofFields_dump, ih]
      rfl

/-- **A dumped response has `cache_hit` already**: given again it is a
`TypeError`. -/
theorem keywords_dump (a : MetricsResponse) (latency : ℚ) :
    keywords a.dump [("cache_hit", .scalar (.bool true)),
      ("query_latency_ms", .scalar (.float latency))] = .error .typeError := rfl

/-- A hit whose document is a dumped response raises. -/
theorem after_metricsRequest_hit (hat : At i h r d none w) {a : MetricsResponse}
    (hhit : r.getDocument (metricCacheKey m start stop
      (selectGranularity settings start stop).1.value) = .ok (some a.dump)) :
    After (notifying fails) (M := services) i
      (metricsRequest settings m start stop)
      (fun x _ => ∃ err, x = .error err) w := by
  generalize hsel : selectGranularity settings start stop = choice at hhit
  obtain ⟨g, ttl⟩ := choice
  refine after_getDb hat fun now w₁ hat₁ => ?_
  have hbody : After (notifying fails) (M := services) i
      (QueryService.getMerchantMetrics settings m start stop)
      (fun x w' => (∃ r', At i h r' d (some ⟨now, false, ∅⟩) w') ∧
        ∃ err, x = .error err) w₁ := by
    unfold QueryService.getMerchantMetrics
    rw [hsel]
    refine after_monotonic fun t₀ => after_bind (after_cacheGet hat₁ ?_)
    rw [hhit]
    refine after_bind (after_count hat₁ ?_ ?_)
    · intro _ r₁ w₂ _ hat₂
      refine after_bind (after_latencyMs fun latency => ?_)
      dsimp only
      rw [keywords_dump]
      exact after_ret ⟨⟨r₁, hat₂⟩, _, rfl⟩
    · exact fun _ err r₁ w₂ hat₂ => ⟨⟨r₁, hat₂⟩, err, rfl⟩
  refine After.mono ?_ hbody
  rintro x w₂ ⟨⟨r', hat₂⟩, err, rfl⟩
  exact ⟨r', d, _, hat₂, fun w₃ _ => ⟨err, rfl⟩⟩

/-- A hit is answered with the points cached, while the hits count. -/
theorem after_sparklineRequest_hit {window : ℤ} {data : List BucketDataPoint}
    (hat : At i h r d none w) (hne : data ≠ [])
    (hhit : r.getDocument (sparklineCacheKey m window) =
      .ok (some (.array (data.map BucketDataPoint.dump)))) :
    After (notifying fails) (M := services) i (sparklineRequest settings m window)
      (fun x _ => match x with
        | .ok a => a.data = data ∧ CountsAt "metrics:cache_hits" r
        | .error _ => ¬ CountsAt "metrics:cache_hits" r) w := by
  have htruthy : (some (Document.array (data.map BucketDataPoint.dump))).filter
      Document.truthy = some (.array (data.map BucketDataPoint.dump)) := by
    refine Option.filter_eq_some_iff.mpr ⟨rfl, ?_⟩
    simpa [Document.truthy] using hne
  refine after_getDb hat fun now w₁ hat₁ => ?_
  refine After.mono (Q := fun x w' => (∃ r', At i h r' d
    (some ⟨now, false, ∅⟩) w') ∧ match x with
      | .ok a => a.data = data ∧ CountsAt "metrics:cache_hits" r
      | .error _ => ¬ CountsAt "metrics:cache_hits" r) ?_ ?_
  · rintro x w₂ ⟨⟨r', hat₂⟩, hx⟩
    exact ⟨r', d, _, hat₂, fun w₃ _ => hx⟩
  · unfold QueryService.getSparkline
    refine after_bind (after_cacheGet hat₁ ?_)
    rw [hhit]
    dsimp only [Except.mapError]
    rw [htruthy]
    refine after_bind (after_count hat₁ ?_ ?_)
    · intro hcounts r₁ w₂ _ hat₂
      dsimp only
      rw [dataPoints_dump]
      exact after_bind (after_ret (after_ret ⟨⟨r₁, hat₂⟩, rfl, hcounts⟩))
    · exact fun hno err r₁ w₂ hat₂ => ⟨⟨r₁, hat₂⟩, hno⟩

theorem within_sparklineRequest (settings : Settings) (m : UUID) (window : ℤ) :
    Prog.Within Call.waits 0 (sparklineRequest settings m window) := by
  refine within_getDb rfl rfl (fun _ => rfl) ?_
  unfold QueryService.getSparkline
  refine Prog.Within.bind (m := 0) (n := 0) (.free rfl within_redisResult)
    fun cached => ?_
  split
  · refine Prog.Within.bind (m := 0) (n := 0) (within_write rfl) fun _ => ?_
    refine Prog.Within.bind (m := 0) (n := 0) ?_ fun data => .ret
    unfold raising
    split <;> exact .ret
  · refine Prog.Within.bind (m := 0) (n := 0) (within_write rfl) fun _ => ?_
    refine Prog.Within.bind (m := 0) (n := 0)
      (within_execute (Call.waits_sql rfl)) fun rows => ?_
    exact Prog.Within.bind (m := 0) (n := 0) (within_write rfl) fun _ => .ret

theorem within_metricsRequest (settings : Settings) (m : UUID)
    (start stop : AwareDateTime) :
    Prog.Within Call.waits 0 (metricsRequest settings m start stop) := by
  have hlatency : ∀ t₀, Prog.Within Call.waits 0 (QueryService.latencyMs t₀) :=
    fun _ => .free rfl fun _ => .ret
  refine within_getDb rfl rfl (fun _ => rfl) ?_
  unfold QueryService.getMerchantMetrics
  rw [perform_bind]
  refine .free rfl fun t₀ => ?_
  refine Prog.Within.bind (m := 0) (n := 0) (.free rfl within_redisResult)
    fun cached => ?_
  split
  · refine Prog.Within.bind (m := 0) (n := 0) (within_write rfl) fun _ => ?_
    refine Prog.Within.bind (m := 0) (n := 0) (hlatency t₀) fun latency => ?_
    unfold raising
    split <;> exact .ret
  · refine Prog.Within.bind (m := 0) (n := 0) (within_write rfl) fun _ => ?_
    refine Prog.Within.bind (m := 0) (n := 0) ?_ fun rows => ?_
    · unfold QueryService.queryRows
      split <;> exact within_execute (Call.waits_sql rfl)
    · refine Prog.Within.bind (m := 0) (n := 0) ?_ fun rate => ?_
      · exact Prog.Within.bind (m := 0) (n := 0)
          (within_execute (Call.waits_sql rfl)) fun _ => .ret
      · refine Prog.Within.bind (m := 0) (n := 0) (hlatency t₀) fun latency => ?_
        exact Prog.Within.bind (m := 0) (n := 0) (within_write rfl) fun _ => .ret

end Rules

section Requests

variable {settings : Settings} {i : ℕ} {w w' : World} {m : UUID} {window : ℤ}
  {redis : Redis} {fails : Bool} {x : Except PyError SparklineResponse}

end Requests

end AnalyticsPipeline
