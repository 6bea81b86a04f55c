import AnalyticsPipeline.Framework.Grouping
import AnalyticsPipeline.Metatheory.MarkedEvents
import AnalyticsPipeline.Model.QueryService

/-!
# Reading the rollup tables

While the tables group the processed events, a query over their rows is an
aggregation of the events themselves: those whose bucket, at the granularity of
the table, meets the query's bounds.
-/

namespace AnalyticsPipeline

open Framework

/-- The three tables group the events by their rollup keys. -/
def Rolled (db : Db) (events : List RawEvent) : Prop :=
  ∀ g, Grouped (db.rollup g) (RawEvent.rollupKey g) (fun e => e.amount_cents)
    events

theorem Aggregated.rolled {db : Db} (h : Aggregated db) :
    Rolled db db.markedEvents := h.rollups

/-- The processed events. -/
def Db.processed (db : Db) : List RawEvent := db.raw_events.filter db.marked

theorem Aggregated.rolled_processed {db : Db} (h : Aggregated db)
    (hd : Deduplicated db)
    (honce : (db.processed_rollup_events.map (·.event_id)).Nodup) :
    Rolled db db.processed := fun g =>
  Grouped.perm (h.rolled g) (markedEvents_perm hd.ids honce)

/-! ## Sets of rows -/

/-- The merchant's events whose bucket is in the range. -/
def scanned (g : RollupGranularity) (m : UUID) (start stop : ℤ)
    (events : List RawEvent) : List RawEvent :=
  events.filter fun e => e.merchant_id = m ∧
    Stmt.between start stop (g.truncate (bucketTs e))

/-- The merchant's rows the bucket queries select. -/
def Db.bucketRows (db : Db) (g : RollupGranularity) (m : UUID)
    (start stop : ℤ) : List RollupEntry :=
  (Stmt.merchantRows (db.rollup g).entries m).filter fun r =>
    Stmt.between start stop r.1.bucket

section BucketRows

variable {db : Db} {events : List RawEvent} {g : RollupGranularity} {m : UUID}
  {start stop : ℤ}

theorem bucketRows_filter (p : RollupKey → Bool) :
    (db.bucketRows g m start stop).filter (fun r => p r.1) =
      (db.rollup g).entries.filter fun r =>
        decide (r.1.merchant_id = m) && (Stmt.between start stop r.1.bucket &&
          p r.1) := by
  rw [Db.bucketRows, Stmt.merchantRows, List.filter_filter, List.filter_filter]
  refine List.filter_congr fun r _ => ?_
  rw [Bool.and_comm, Bool.and_comm (p r.1)]

theorem scanned_filter (p : RollupKey → Bool) :
    ((scanned g m start stop events).filter fun e => p (e.rollupKey g)) =
      events.filter fun e => decide ((e.rollupKey g).merchant_id = m) &&
        (Stmt.between start stop (e.rollupKey g).bucket && p (e.rollupKey g)) := by
  rw [scanned, List.filter_filter]
  refine List.filter_congr fun e _ => ?_
  rw [Bool.decide_and, Bool.decide_eq_true, Bool.and_comm (p _), Bool.and_assoc]
  rfl

theorem Rolled.sumCount (h : Rolled db events) (p : RollupKey → Bool) :
    Stmt.sumCount ((db.bucketRows g m start stop).filter fun r => p r.1) =
      ((scanned g m start stop events).filter fun e =>
        p (e.rollupKey g)).length := by
  rw [Stmt.sumCount, bucketRows_filter, scanned_filter]
  exact (h g).count_entries fun k => decide (k.merchant_id = m) &&
    (Stmt.between start stop k.bucket && p k)

theorem Rolled.sumAmount (h : Rolled db events) (p : RollupKey → Bool) :
    Stmt.sumAmount ((db.bucketRows g m start stop).filter fun r => p r.1) =
      (((scanned g m start stop events).filter fun e =>
        p (e.rollupKey g)).map fun e => e.amount_cents).sum := by
  rw [Stmt.sumAmount, bucketRows_filter, scanned_filter]
  exact (h g).amount_entries fun k => decide (k.merchant_id = m) &&
    (Stmt.between start stop k.bucket && p k)

/-- A query selects a row exactly when it covers an event of the row. -/
theorem Rolled.exists_bucketRow_iff (h : Rolled db events)
    (p : RollupKey → Prop) :
    (∃ r ∈ db.bucketRows g m start stop, p r.1) ↔
      ∃ e ∈ scanned g m start stop events, p (e.rollupKey g) := by
  have hiff := (h g).exists_entry_iff fun k => k.merchant_id = m ∧
    Stmt.between start stop k.bucket = true ∧ p k
  simp only [Db.bucketRows, Stmt.merchantRows, List.mem_filter, scanned,
    decide_eq_true_eq, and_assoc]
  exact hiff

end BucketRows

/-! ## Points -/

section Points

variable (expr : DateTime → DateTime) (rows : List RollupEntry)

/-- The buckets of the points ascend without repeats. -/
theorem groupBuckets_ascending :
    ((Stmt.groupBuckets expr rows).map (·.bucket)).Pairwise (· < ·) := by
  have hbuckets : (Stmt.groupBuckets expr rows).map (·.bucket) =
      (rows.map fun r => expr r.1.bucket).dedup.insertionSort (· ≤ ·) := by
    rw [Stmt.groupBuckets, List.map_map]
    exact List.map_id _
  have hnd : ((rows.map fun r => expr r.1.bucket).dedup.insertionSort
      (· ≤ ·)).Nodup :=
    (List.perm_insertionSort _ _).nodup_iff.mpr (List.nodup_dedup _)
  rw [hbuckets]
  refine ((List.pairwise_insertionSort _ _).and hnd).imp fun hb => ?_
  exact lt_of_le_of_ne hb.1 hb.2

theorem mem_groupBuckets_iff {p : BucketRow} :
    p ∈ Stmt.groupBuckets expr rows ↔ (∃ r ∈ rows, expr r.1.bucket = p.bucket) ∧
      p.volume_cents = Stmt.sumAmount (rows.filter fun r =>
        expr r.1.bucket = p.bucket) ∧
      p.count = Stmt.sumCount (rows.filter fun r =>
        expr r.1.bucket = p.bucket) := by
  simp only [Stmt.groupBuckets, List.mem_map, List.mem_insertionSort,
    List.mem_dedup]
  constructor
  · rintro ⟨_, ⟨r, hr, rfl⟩, rfl⟩
    exact ⟨⟨r, hr, rfl⟩, rfl, rfl⟩
  · rintro ⟨⟨r, hr, heq⟩, hv, hc⟩
    refine ⟨p.bucket, ⟨r, hr, heq⟩, ?_⟩
    rw [← hv, ← hc]

theorem exists_groupBuckets_iff {b : DateTime} :
    (∃ p ∈ Stmt.groupBuckets expr rows, p.bucket = b) ↔
      ∃ r ∈ rows, expr r.1.bucket = b := by
  constructor
  · rintro ⟨p, hp, rfl⟩
    exact ((mem_groupBuckets_iff expr rows).mp hp).1
  · intro hrow
    let group := rows.filter fun r => expr r.1.bucket = b
    exact ⟨⟨b, Stmt.sumAmount group, Stmt.sumCount group⟩,
      (mem_groupBuckets_iff expr rows).mpr ⟨hrow, rfl, rfl⟩, rfl⟩

/-- Grouping loses nothing of what a projection of the rows sums up to. -/
theorem groupBuckets_total {val : RollupEntry → ℤ} {out : BucketRow → ℤ}
    (hout : ∀ p ∈ Stmt.groupBuckets expr rows, out p =
      ((rows.filter fun r => expr r.1.bucket = p.bucket).map val).sum) :
    ((Stmt.groupBuckets expr rows).map out).sum = (rows.map val).sum := by
  have hmap : (Stmt.groupBuckets expr rows).map out =
      ((rows.map fun r => expr r.1.bucket).dedup.insertionSort (· ≤ ·)).map
        fun b => ((rows.filter fun r => expr r.1.bucket = b).map val).sum := by
    rw [List.map_congr_left hout, Stmt.groupBuckets, List.map_map]
    rfl
  have hnd : ((rows.map fun r => expr r.1.bucket).dedup.insertionSort
      (· ≤ ·)).Nodup :=
    (List.perm_insertionSort _ _).nodup_iff.mpr (List.nodup_dedup _)
  have hall : (rows.filter fun r => expr r.1.bucket ∈
      (rows.map fun r => expr r.1.bucket).dedup.insertionSort (· ≤ ·)) = rows := by
    rw [List.filter_eq_self]
    intro r hr
    simp only [List.mem_insertionSort, List.mem_dedup, decide_eq_true_eq]
    exact List.mem_map_of_mem hr
  rw [hmap, sum_groups (fun r : RollupEntry => expr r.1.bucket) val rows hnd, hall]

theorem groupBuckets_volume :
    ((Stmt.groupBuckets expr rows).map (·.volume_cents)).sum =
      Stmt.sumAmount rows :=
  groupBuckets_total expr rows fun _ hp =>
    ((mem_groupBuckets_iff expr rows).mp hp).2.1

theorem groupBuckets_count :
    ((Stmt.groupBuckets expr rows).map (·.count)).sum = Stmt.sumCount rows :=
  groupBuckets_total expr rows fun _ hp =>
    ((mem_groupBuckets_iff expr rows).mp hp).2.2

end Points

end AnalyticsPipeline
