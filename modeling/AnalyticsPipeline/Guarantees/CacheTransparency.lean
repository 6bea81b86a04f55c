import AnalyticsPipeline.Guarantees.MetricsScan

/-!
# The read cache

A query that misses stores what it answers. The second call with the same
arguments rebuilds a metrics response from keywords that it gives twice, and it
takes an empty sparkline for a miss.
-/

namespace AnalyticsPipeline

open Framework

/-! ## Second calls -/

/-- The second call returns, and with the fields of the first response. -/
structure MetricsRepeats (settings : Settings) (j : ℕ) (v : World) (m : UUID)
    (start stop : AwareDateTime) (a : MetricsResponse) : Prop where
  returns : ∃ x v', Eval (M := services) noFailure j
    (metricsRequest settings m start stop) v x v'
  same : ∀ x v', Eval (M := services) noFailure j
    (metricsRequest settings m start stop) v x v' → ∃ b, x = .ok b ∧
      b = { a with cache_hit := true, query_latency_ms := b.query_latency_ms }

/-- The second call, at `t`, returns, and with the data of the first. -/
structure SparklineRepeats (settings : Settings) (j : ℕ) (v : World)
    (t : DateTime) (m : UUID) (window : ℤ) (a : SparklineResponse) : Prop where
  returns : ∃ x v', Eval (M := services) (startingAt t) j
    (sparklineRequest settings m window) v x v'
  same : ∀ x v', Eval (M := services) (startingAt t) j
    (sparklineRequest settings m window) v x v' → ∃ b, x = .ok b ∧ b.data = a.data

/-- The merchant has a minute row in the window that ends at `t`. -/
def Db.Active (db : Db) (m : UUID) (window : ℤ) (t : DateTime) : Prop :=
  ∃ p ∈ (db.rollup .minute).entries, p.1.merchant_id = m ∧
    (t.micros : ℤ) - window * 60000000 ≤ p.1.bucket.micros

/-- The second call has the points of the first to give: they are cached, or
there are none in the tables at either call. -/
def Repeatable (w v : World) (m : UUID) (window : ℤ) (t₁ t₂ : DateTime) : Prop :=
  (w.db.Active m window t₁ ∧ CountsAt "metrics:cache_hits" v.redis) ∨
  ¬ w.db.Active m window t₁ ∧ ¬ v.db.Active m window t₂ ∧
    CountsAt "metrics:cache_misses" v.redis

theorem sparkline_ne_nil_iff {db : Db} {m : UUID} {window : ℤ} {t : DateTime} :
    db.sparkline m window t ≠ [] ↔ db.Active m window t := by
  unfold Db.sparkline Stmt.groupBuckets Db.Active
  rw [ne_eq, List.map_eq_nil_iff, List.map_eq_nil_iff,
    ← List.length_eq_zero_iff, List.length_insertionSort,
    List.length_eq_zero_iff, List.dedup_eq_nil, List.map_eq_nil_iff,
    Stmt.merchantRows, List.filter_filter, List.filter_eq_nil_iff]
  simp only [Bool.and_eq_true, decide_eq_true_eq, not_forall, not_not]
  constructor
  · rintro ⟨p, hp, hwindow, hm⟩
    exact ⟨p, hp, hm, hwindow⟩
  · rintro ⟨p, hp, hm, hwindow⟩
    exact ⟨p, hp, hwindow, hm⟩

section Repeats

variable {settings : Settings} {i j : ℕ} {w v w' : World} {m : UUID}

theorem getDocument_of_get? {r : Redis} {key : String} {document : Document}
    {ttl : Option ℕ} (h : r.get? key = some ⟨.document document, ttl⟩) :
    r.getDocument key = .ok (some document) := by
  rw [Redis.getDocument, h]

/-- **A metrics response is never served from the cache**: the second call
raises. -/
theorem not_metricsRepeats {start stop : AwareDateTime} {a : MetricsResponse}
    (hw : w.txs.get? i = none) (hv : v.txs.get? j = none)
    (hmiss : w.redis.misses (metricCacheKey m start stop
      (selectGranularity settings start stop).1.value))
    (he : Eval (M := services) noFailure i (metricsRequest settings m start stop)
      w (.ok a) w')
    (hkept : v.redis.get? (metricCacheKey m start stop
        (selectGranularity settings start stop).1.value) =
      w'.redis.get? (metricCacheKey m start stop
        (selectGranularity settings start stop).1.value)) :
    ¬ MetricsRepeats settings j v m start stop a := by
  rintro ⟨⟨x, v', he₂⟩, hsame⟩
  obtain ⟨b, rfl, -⟩ := hsame x v' he₂
  obtain ⟨-, -, hstored⟩ := eval_metricsRequest (w := w) hw hmiss he
  have hat : At j v.toHistory v.redis v.issued none v := ⟨rfl, rfl, rfl, hv⟩
  obtain ⟨err, hraise⟩ := after_metricsRequest_hit hat
    (getDocument_of_get? (hkept.trans hstored)) _ v' he₂
  cases hraise

theorem sparklineRepeats_iff {window : ℤ} {t₁ t₂ : DateTime}
    {a : SparklineResponse} (hw : w.txs.get? i = none)
    (hv : v.txs.get? j = none)
    (hmiss : w.redis.misses (sparklineCacheKey m window))
    (he : Eval (M := services) (startingAt t₁) i
      (sparklineRequest settings m window) w (.ok a) w')
    (hkept : v.redis.get? (sparklineCacheKey m window) =
      w'.redis.get? (sparklineCacheKey m window)) :
    SparklineRepeats settings j v t₂ m window a ↔ Repeatable w v m window t₁ t₂ := by
  have hat₁ : At i w.toHistory w.redis w.issued none w := ⟨rfl, rfl, rfl, hw⟩
  obtain ⟨_, r', now, hat', -, hnow, ha, -, httl, hstored⟩ :=
    after_sparklineRequest (fun _ _ h => h.1) (fun _ => startingAt_begin) hat₁
      hmiss _ w' he
  rw [hnow] at ha
  subst ha
  rw [← hat'.redis, ← hkept] at hstored
  have hat : At j v.toHistory v.redis v.issued none v := ⟨rfl, rfl, rfl, hv⟩
  have hdocument := getDocument_of_get? hstored
  obtain ⟨x, v', he₂⟩ := exists_eval_startingAt (i := j) t₂
    (within_sparklineRequest settings m window) v
  have hquiet : ∀ {x v'}, Eval (M := services) (startingAt t₂) j
      (sparklineRequest settings m window) v x v' → Eval (M := services)
        noFailure j (sparklineRequest settings m window) v x v' := fun he =>
    he.weaken fun _ _ h => h.1
  unfold Repeatable
  -- an answer with points is served from the cache; an empty one counts as a miss
  by_cases hactive : w.db.Active m window t₁
  · have hne := sparkline_ne_nil_iff.mpr hactive
    simp only [hactive, not_true_eq_false, true_and, false_and, or_false]
    constructor
    · rintro ⟨-, hsame⟩
      obtain ⟨b, rfl, -⟩ := hsame x v' he₂
      exact (after_sparklineRequest_hit hat hne hdocument _ v' (hquiet he₂)).2
    · intro hcounts
      refine ⟨⟨x, v', he₂⟩, fun x v' he => ?_⟩
      have hx := after_sparklineRequest_hit hat hne hdocument x v' (hquiet he)
      cases x with
      | ok b => exact ⟨b, rfl, hx.1⟩
      | error err => exact absurd hcounts hx
  · have hnil : w.db.sparkline m window t₁ = [] := by
      by_contra hne
      exact hactive (sparkline_ne_nil_iff.mp hne)
    -- the empty list was stored, but it is falsy
    have hmiss₂ : v.redis.misses (sparklineCacheKey m window) := by
      refine ⟨_, hdocument, ?_⟩
      rw [hnil]
      rfl
    simp only [hactive, not_false_eq_true, false_and, true_and, false_or]
    constructor
    · rintro ⟨-, hsame⟩
      obtain ⟨b, rfl, hb⟩ := hsame x v' he₂
      obtain ⟨_, _, now₂, -, -, hnow₂, hb₂, hcounts, -⟩ :=
        after_sparklineRequest (fun _ _ h => h.1) (fun _ => startingAt_begin) hat
          hmiss₂ _ v' he₂
      rw [hnow₂] at hb₂
      subst hb₂
      refine ⟨?_, hcounts⟩
      rw [← sparkline_ne_nil_iff, not_not]
      exact hb.trans hnil
    · rintro ⟨hgone, hcounts⟩
      refine ⟨⟨x, v', he₂⟩, fun x v' he => ?_⟩
      obtain ⟨_, _, now₂, -, -, hnow₂, hx⟩ :=
        after_sparklineRequest (fun _ _ h => h.1) (fun _ => startingAt_begin) hat
          hmiss₂ x v' he
      cases x with
      | ok b =>
          refine ⟨b, rfl, ?_⟩
          rw [hx.1, hnow₂]
          rw [← sparkline_ne_nil_iff, not_not] at hgone
          exact hgone.trans hnil.symm
      | error err => exact absurd (hx hcounts) httl

end Repeats

/-- **The cache is transparent** for no metrics, and for a sparkline if and only
if it has a point or the second call finds none either. -/
theorem cache_transparent_iff (settings : Settings) {i j : ℕ} {w v : World}
    (hw : w.txs.get? i = none) (hv : v.txs.get? j = none) :
    (∀ m start stop a w', w.redis.misses (metricCacheKey m start stop
        (selectGranularity settings start stop).1.value) →
      Eval (M := services) noFailure i (metricsRequest settings m start stop)
        w (.ok a) w' →
      v.redis.get? (metricCacheKey m start stop
          (selectGranularity settings start stop).1.value) =
        (World.redis w').get? (metricCacheKey m start stop
          (selectGranularity settings start stop).1.value) →
      ¬ MetricsRepeats settings j v m start stop a) ∧
    ∀ m window t₁ t₂ a w', w.redis.misses (sparklineCacheKey m window) →
      Eval (M := services) (startingAt t₁) i
        (sparklineRequest settings m window) w (.ok a) w' →
      v.redis.get? (sparklineCacheKey m window) =
        (World.redis w').get? (sparklineCacheKey m window) →
      (SparklineRepeats settings j v t₂ m window a ↔
        Repeatable w v m window t₁ t₂) :=
  ⟨fun _ _ _ _ _ hmiss he hkept => not_metricsRepeats hw hv hmiss he hkept,
    fun _ _ _ _ _ _ hmiss he hkept =>
      sparklineRepeats_iff hw hv hmiss he hkept⟩

/-- One payment in the minute table. -/
def onePayment : World :=
  let table : RollupTable := (∅ : RollupTable).set
    ⟨7, Sample.instant 3, .paymentConfirmed⟩ ⟨1, 250, some 250, some 250⟩
  { World.start Sample.merchants with
    db := { (∅ : Db) with
      merchants := Sample.merchants
      rollup := fun g => if g = .minute then table else ∅ } }

/-- The same with its sparkline cached. -/
def onePaymentCached : World :=
  { onePayment with
    redis := (∅ : Redis).set (sparklineCacheKey 7 60)
      ⟨.document (.array ((onePayment.db.sparkline 7 60 (Sample.instant 4)).map
        BucketDataPoint.dump)), some 5⟩ }

theorem cache_transparent_iff_drawn : ∃ a w',
    Eval (M := services) (startingAt (Sample.instant 4)) 0
      (sparklineRequest {} 7 60) onePayment (.ok a) w' ∧
    SparklineRepeats {} 0 onePaymentCached (Sample.instant 4) 7 60 a := by
  have hmiss : onePayment.redis.misses (sparklineCacheKey 7 60) := ⟨none, rfl, rfl⟩
  have hat : At 0 onePayment.toHistory ∅ onePayment.issued none onePayment :=
    ⟨rfl, rfl, rfl, rfl⟩
  obtain ⟨x, w', he⟩ := exists_eval_startingAt (i := 0) (Sample.instant 4)
    (within_sparklineRequest {} 7 60) onePayment
  obtain ⟨_, r', now, hat', -, hnow, hx⟩ := after_sparklineRequest
    (fun _ _ h => h.1) (fun _ => startingAt_begin) hat hmiss x w' he
  cases x with
  | error err => exact absurd (hx fun _ hget => by cases hget) (by decide)
  | ok a =>
      obtain ⟨ha, -, -, hstored⟩ := hx
      refine ⟨a, w', he, ((cache_transparent_iff {} rfl rfl).2 7 60 _ _ a w' hmiss
        he ?_).mpr (.inl ⟨?_, ?_⟩)⟩
      · rw [hat'.redis, hstored, ha, hnow]
        exact (Dict.get?_set _ _ _ _).trans (if_pos rfl)
      · exact ⟨_, List.mem_singleton.mpr rfl, rfl, by decide⟩
      · intro entry hget
        have hnone : onePaymentCached.redis.get? "metrics:cache_hits" = none :=
          (Dict.get?_set _ _ _ _).trans (if_neg (by decide))
        rw [hnone] at hget
        cases hget

/-- **A cached metrics response is not served**: the second call raises. -/
theorem metrics_hit_raises : ∃ a w', Eval (M := services) noFailure 0
      (metricsRequest {} 7 (.utc (Sample.instant 0)) (.utc (Sample.instant 59)))
      (World.start Sample.merchants) (.ok a) w' ∧
    ¬ MetricsRepeats {} 0 w' 7 (.utc (Sample.instant 0)) (.utc (Sample.instant 59))
      a := by
  have hmiss : (∅ : Redis).misses (metricCacheKey 7 (.utc (Sample.instant 0))
      (.utc (Sample.instant 59)) (selectGranularity {} (.utc (Sample.instant 0))
        (.utc (Sample.instant 59))).1.value) := ⟨none, rfl, rfl⟩
  have httl : (selectGranularity {} (.utc (Sample.instant 0))
      (.utc (Sample.instant 59))).2 ≠ 0 := by decide
  obtain ⟨a, w', he⟩ := exists_eval_metricsRequest (i := 0)
    (w := World.start Sample.merchants) rfl hmiss (fun _ hget => by cases hget) httl
  have hat : At 0 (World.start Sample.merchants).toHistory ∅ ∅ none
      (World.start Sample.merchants) := ⟨rfl, rfl, rfl, rfl⟩
  obtain ⟨_, r', hat', -, -⟩ := after_metricsRequest hat hmiss _ w' he
  exact ⟨a, w', he, not_metricsRepeats rfl hat'.tx hmiss he rfl⟩

end AnalyticsPipeline
