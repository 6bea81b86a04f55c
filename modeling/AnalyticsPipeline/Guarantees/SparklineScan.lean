import AnalyticsPipeline.Guarantees.MetricsScan

/-!
# The sparkline is the live end of the metrics

The sparkline query has no upper bound: it reads what the metrics of the same
minutes read, to the end of the calendar. So its points are a scan of the
processed events as well, and the metrics of any window that starts with it are
its first points.
-/

namespace AnalyticsPipeline

open Framework

/-- The points are the bucketed aggregation, minute by minute, of the merchant's
events from `since` on. -/
structure WindowOf (m : UUID) (since : ℤ) (events : List RawEvent)
    (data : List BucketDataPoint) : Prop where
  ascending : (data.map (·.bucket)).Pairwise (· < ·)
  buckets : ∀ b, (∃ p ∈ data, p.bucket = b) ↔
    since ≤ b.micros ∧ inBucket .minute m b events ≠ []
  count : ∀ p ∈ data, p.count = (inBucket .minute m p.bucket events).length
  volume : ∀ p ∈ data, p.volume_cents =
    ((inBucket .minute m p.bucket events).map fun e => e.amount_cents).sum

/-- No instant is later. -/
def lastMicros : ℤ := (DateTime.maxOrdinal + 1) * DateTime.dayMicros

theorem micros_le_lastMicros (t : DateTime) : (t.micros : ℤ) ≤ lastMicros := by
  have hday := t.ordinal_le_maxOrdinal
  have htime := t.timeOfDay_lt
  have hmul := Nat.mul_le_mul_right DateTime.dayMicros hday
  rw [lastMicros, DateTime.micros, Int.add_mul, Int.one_mul]
  omega

/-- Points are told apart by their buckets: two lists of them in order are equal
when they have the same ones. -/
theorem points_ext {points points' : List BucketRow}
    (h : (points.map (·.bucket)).Pairwise (· < ·))
    (h' : (points'.map (·.bucket)).Pairwise (· < ·))
    (hmem : ∀ p, p ∈ points ↔ p ∈ points') : points = points' := by
  have : Std.Irrefl fun p q : BucketRow => p.bucket < q.bucket :=
    ⟨fun p => lt_irrefl p.bucket⟩
  have : Std.Antisymm fun p q : BucketRow => p.bucket < q.bucket :=
    ⟨fun p q hpq hqp => absurd hpq (lt_asymm hqp)⟩
  exact List.Pairwise.eq_of_mem_iff (List.pairwise_map.mp h) (List.pairwise_map.mp h')
    hmem

/-- The points of some of the buckets. -/
theorem groupBuckets_filter (expr : DateTime → DateTime) (rows : List RollupEntry)
    (q : DateTime → Bool) :
    Stmt.groupBuckets expr (rows.filter fun r => q (expr r.1.bucket)) =
      (Stmt.groupBuckets expr rows).filter fun p => q p.bucket := by
  apply points_ext (groupBuckets_ascending _ _)
  · exact (groupBuckets_ascending expr rows).sublist (List.filter_sublist.map _)
  · intro p
    have hgroup : q p.bucket = true →
        (rows.filter fun r => q (expr r.1.bucket)).filter
          (fun r => expr r.1.bucket = p.bucket) =
        rows.filter fun r => expr r.1.bucket = p.bucket := by
      intro hp
      rw [List.filter_filter]
      refine List.filter_congr fun r _ => ?_
      by_cases hr : expr r.1.bucket = p.bucket
      · simp [hr, hp]
      · simp [hr]
    rw [List.mem_filter, mem_groupBuckets_iff, mem_groupBuckets_iff]
    constructor
    · rintro ⟨⟨r, hr, hbucket⟩, hsums⟩
      have hq := (List.mem_filter.mp hr).2
      rw [hbucket] at hq
      rw [hgroup hq] at hsums
      exact ⟨⟨⟨r, List.mem_of_mem_filter hr, hbucket⟩, hsums⟩, hq⟩
    · rintro ⟨⟨⟨r, hr, hbucket⟩, hsums⟩, hq⟩
      rw [hgroup hq]
      refine ⟨⟨r, List.mem_filter.mpr ⟨hr, ?_⟩, hbucket⟩, hsums⟩
      rw [hbucket]
      exact hq

section Points

variable {db : Db} {m : UUID} {window start stop : ℤ} {now : DateTime}
  {events : List RawEvent}

/-- The sparkline's points are those of the minutes to the end of the calendar. -/
theorem sparkline_eq (hlast : lastMicros ≤ stop) : db.sparkline m window now =
    (db.points .minute m (now.micros - window * 60000000) stop).map
      BucketRow.dataPoint := by
  have hrows : ((Stmt.merchantRows (db.rollup .minute).entries m).filter fun r =>
      (now.micros : ℤ) - window * 60000000 ≤ r.1.bucket.micros) =
      db.bucketRows .minute m (now.micros - window * 60000000) stop := by
    rw [Db.bucketRows]
    refine List.filter_congr fun r _ => ?_
    have hbucket := micros_le_lastMicros r.1.bucket
    rw [Stmt.between, decide_eq_decide]
    omega
  rw [Db.sparkline, hrows]
  rfl

theorem bucketRows_until {stop' : ℤ} (hle : stop ≤ stop') :
    db.bucketRows .minute m start stop =
      (db.bucketRows .minute m start stop').filter fun r =>
        r.1.bucket.micros ≤ stop := by
  rw [Db.bucketRows, Db.bucketRows, List.filter_filter]
  refine List.filter_congr fun r _ => ?_
  rw [Stmt.between, Stmt.between, ← Bool.decide_and, decide_eq_decide]
  omega

/-- An earlier end keeps the first points. -/
theorem points_until {stop' : ℤ} (hle : stop ≤ stop') :
    db.points .minute m start stop =
      (db.points .minute m start stop').filter fun p => p.bucket.micros ≤ stop := by
  rw [Db.points, bucketRows_until hle]
  exact groupBuckets_filter (Stmt.bucketOf .minute) _ fun t => t.micros ≤ stop

/-- **A sparkline is a scan**, whatever events the tables group. -/
theorem Rolled.windowOf (h : Rolled db events) :
    WindowOf m (now.micros - window * 60000000) events
      (db.sparkline m window now) where
  ascending := by
    rw [sparkline_eq le_rfl, List.map_map]
    exact groupBuckets_ascending _ _
  buckets := fun b => by
    have hpoint := @Rolled.exists_point_iff db events .minute m
      (now.micros - window * 60000000) lastMicros h b
    rw [between_iff, and_iff_left (micros_le_lastMicros b)] at hpoint
    rw [← hpoint, ← exists_groupBuckets_iff, sparkline_eq le_rfl]
    simp only [List.mem_map, exists_exists_and_eq_and]
    rfl
  count := by
    rw [sparkline_eq le_rfl]
    simp only [List.forall_mem_map]
    exact fun p hp => (h.mem_points hp).1
  volume := by
    rw [sparkline_eq le_rfl]
    simp only [List.forall_mem_map]
    exact fun p hp => (h.mem_points hp).2

/-- The metrics of a window that ends at `stop` are its first points. -/
theorem metrics_data_eq {settings : Settings} {start stop : AwareDateTime}
    {latency : ℚ} (hminute : (selectGranularity settings start stop).1 = .minute)
    (hstart : start.instant = now.micros - window * 60000000) :
    (db.metrics settings m start stop latency).data =
      (db.sparkline m window now).filter fun p =>
        p.bucket.micros ≤ stop.instant := by
  rw [sparkline_eq (le_max_right stop.instant lastMicros), Db.metrics, hminute, hstart,
    List.filter_map, points_until (le_max_left stop.instant lastMicros)]
  rfl

end Points

/-! ## The request -/

/-- **The sparkline is the live end of the metrics**: after any run of one consumer,
a request whose transaction starts at `t` and that misses the cache answers the
processed events of the merchant, minute by minute, whose minute is in the window
before `t` or later; and a metrics request for any end, at the minute granularity
over the same window, gives its points up to that end. -/
theorem sparkline_scans_events (merchants : List Merchant) {consumer_id : String}
    {c : Config services PyError}
    (hc : Reach (oneConsumer consumer_id)
      (Config.idle (World.start merchants)) c)
    {i : ℕ} (hidle : c.world.txs.get? i = none) {settings : Settings} {m : UUID}
    {window : ℤ} {t : DateTime} {redis : Redis} {a : SparklineResponse} {w' : World}
    (hmiss : redis.misses (sparklineCacheKey m window))
    (he : Eval (M := services) (startingAt t) i (sparklineRequest settings m window)
      { c.world with redis } (.ok a) w') :
    a.cache_hit = false ∧
    WindowOf m (t.micros - window * 60000000) c.world.db.processed a.data ∧
    ∀ settings' (start stop : AwareDateTime) b,
      start.instant = t.micros - window * 60000000 →
      (selectGranularity settings' start stop).1 = .minute →
      AnswersMiss settings' i c.world m start stop b →
      b.data = a.data.filter fun p => p.bucket.micros ≤ stop.instant := by
  obtain ⟨hd, hagg, honce⟩ := reach_oneConsumer hc
  have hat : At i c.world.toHistory redis c.world.issued none { c.world with redis } :=
    ⟨rfl, rfl, rfl, hidle⟩
  obtain ⟨_, r', now, -, -, rfl, hx⟩ := after_sparklineRequest (fun _ _ h => h.1)
    (fun _ => startingAt_begin) hat hmiss (.ok a) w' he
  obtain ⟨rfl, -⟩ := hx
  refine ⟨rfl, (hagg.rolled_processed hd honce).windowOf, ?_⟩
  intro settings' start stop b hstart hminute hb
  obtain ⟨latency, rfl⟩ := hb.eq hidle
  exact metrics_data_eq hminute hstart

/-- The event of the replayed run, in the hour before 10:59. -/
theorem sparkline_scans_events_replayed : ∃ c : Config services PyError,
    Reach (oneConsumer "w") (Config.idle (World.start Sample.merchants)) c ∧
    ∃ a w', Eval (M := services) (startingAt (Sample.instant 59)) 5
        (sparklineRequest {} 7 60) { c.world with redis := ∅ } (.ok a) w' ∧
      WindowOf 7 ((Sample.instant 59).micros - 60 * 60000000)
        c.world.db.processed a.data := by
  have hrun : ((Config.idle (World.start Sample.merchants)).replay?
      (fun _ _ _ _ => true) replayedRun).map (fun c => c.world.txs.entries.length) =
      some 0 := by decide +kernel
  obtain ⟨c, hc, htxs⟩ := Option.map_eq_some_iff.mp hrun
  have hidle : c.world.txs.get? 5 = none := idle_of_no_entries htxs 5
  have hmiss : (∅ : Redis).misses (sparklineCacheKey 7 60) := ⟨none, rfl, rfl⟩
  have hat : At 5 c.world.toHistory ∅ c.world.issued none
      { c.world with redis := ∅ } := ⟨rfl, rfl, rfl, hidle⟩
  obtain ⟨x, w', he⟩ := exists_eval_startingAt (i := 5) (Sample.instant 59)
    (within_sparklineRequest {} 7 60) { c.world with redis := ∅ }
  cases x with
  | ok a =>
      exact ⟨c, reach_replayedRun hc, a, w', he, (sparkline_scans_events
        Sample.merchants (reach_replayedRun hc) hidle hmiss he).2.1⟩
  | error e =>
      obtain ⟨_, r', now, -, -, -, hx⟩ := after_sparklineRequest (fun _ _ h => h.1)
        (fun _ => startingAt_begin) hat hmiss (.error e) w' he
      have hcounts : CountsAt "metrics:cache_misses" (∅ : Redis) :=
        fun _ hget => by simp at hget
      exact absurd (hx hcounts) (by decide)

end AnalyticsPipeline
