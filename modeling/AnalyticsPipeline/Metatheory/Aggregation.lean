import AnalyticsPipeline.Model.RollupWorker

/-!
# Aggregation

A cell accumulated by the worker is the summary of the amounts that fell into
it, and an upsert merges that summary into the stored row. The keys of the
three granularities are one function of the event, truncated.
-/

namespace AnalyticsPipeline

open Framework

def RollupGranularity.truncate : RollupGranularity → DateTime → DateTime
  | .minute => minuteBucket
  | .hour => hourBucket
  | .day => dayBucket

/-- The length of a bucket in microseconds. -/
def RollupGranularity.width : RollupGranularity → ℕ
  | .minute => 60000000
  | .hour => 3600000000
  | .day => DateTime.dayMicros

section Truncate

variable (g : RollupGranularity) (t : DateTime)

/-- Buckets start at the multiples of their length. -/
theorem truncate_micros : (g.truncate t).micros = t.micros / g.width * g.width := by
  have htod := t.timeOfDay_lt
  obtain ⟨h₁, h₂, h₃, h₄⟩ := t.time_range
  cases g with
  | minute =>
      simp only [RollupGranularity.truncate, minuteBucket, DateTime.truncMinute,
        DateTime.micros, DateTime.ordinal, DateTime.timeOfDay,
        DateTime.dayMicros, RollupGranularity.width] at *
      omega
  | hour =>
      simp only [RollupGranularity.truncate, hourBucket, DateTime.truncHour,
        DateTime.micros, DateTime.ordinal, DateTime.timeOfDay,
        DateTime.dayMicros, RollupGranularity.width] at *
      omega
  | day =>
      change t.truncDay.micros = _
      rw [DateTime.truncDay_micros, DateTime.micros, RollupGranularity.width]
      simp only [DateTime.dayMicros] at *
      omega

theorem width_pos : 0 < g.width := by
  cases g <;> decide

theorem truncate_le : (g.truncate t).micros ≤ t.micros := by
  rw [truncate_micros]
  exact Nat.div_mul_le_self _ _

variable {g t}

/-- No bucket reaches across a boundary. -/
theorem le_truncate_iff {n : ℤ} (hn : (g.width : ℤ) ∣ n) :
    n ≤ (g.truncate t).micros ↔ n ≤ t.micros := by
  obtain ⟨k, rfl⟩ := hn
  have hpos : (0 : ℤ) < g.width := Int.natCast_pos.mpr (width_pos g)
  rw [truncate_micros, Int.natCast_mul, Int.natCast_ediv, mul_comm (g.width : ℤ),
    mul_le_mul_iff_left₀ hpos, Int.le_ediv_iff_mul_le hpos]

theorem truncate_lt_iff {n : ℤ} (hn : (g.width : ℤ) ∣ n) :
    (g.truncate t).micros < n ↔ t.micros < n := by
  rw [← not_le, ← not_le, le_truncate_iff hn]

end Truncate

/-- The rollup row an event belongs to. -/
def RawEvent.rollupKey (g : RollupGranularity) (e : RawEvent) : RollupKey :=
  ⟨e.merchant_id, g.truncate (bucketTs e), e.event_type⟩

/-- The amounts of the events that belong to one row. -/
def amountsAt (g : RollupGranularity) (k : RollupKey) (events : List RawEvent) :
    List ℤ :=
  (events.filter fun e => e.rollupKey g = k).map fun e => e.amount_cents

section amountsAt

variable {g : RollupGranularity} {k : RollupKey}

@[simp] theorem amountsAt_nil : amountsAt g k [] = [] := rfl

theorem amountsAt_append (xs ys : List RawEvent) :
    amountsAt g k (xs ++ ys) = amountsAt g k xs ++ amountsAt g k ys := by
  simp [amountsAt]

theorem amountsAt_perm {xs ys : List RawEvent} (h : xs.Perm ys) :
    (amountsAt g k xs).Perm (amountsAt g k ys) :=
  (h.filter _).map _

theorem amountsAt_singleton (e : RawEvent) :
    amountsAt g k [e] = if e.rollupKey g = k then [e.amount_cents] else [] := by
  by_cases h : e.rollupKey g = k <;> simp [amountsAt, h]

theorem amountsAt_eq_nil_iff {events : List RawEvent} :
    amountsAt g k events = [] ↔ ∀ e ∈ events, e.rollupKey g ≠ k := by
  simp [amountsAt, List.filter_eq_nil_iff]

end amountsAt

/-! ## Cells -/

namespace BucketAccum

theorem add_initialised (a : BucketAccum) (x : ℤ) :
    (a.add x).initialised = true := by
  by_cases h : a.initialised <;> simp [add, h]

theorem row_add {a : BucketAccum} (h : a.initialised = true) (x : ℤ) :
    (a.add x).row = a.row + Summary.single x := by
  simp [add, row, h, Summary.add_def, Summary.single]

theorem row_add_empty (x : ℤ) :
    (({} : BucketAccum).add x).row = Summary.single x := by
  simp [add, row, Summary.single]

end BucketAccum

/-- One of the three maps of `_aggregate_batch`. -/
def aggregateBy (g : RollupGranularity) (events : List RawEvent) : AggMap :=
  events.foldl (fun agg e => agg.add (e.rollupKey g) e.amount_cents) ∅

theorem aggregateBy_append_singleton (g : RollupGranularity)
    (events : List RawEvent) (e : RawEvent) :
    aggregateBy g (events ++ [e]) =
      (aggregateBy g events).add (e.rollupKey g) e.amount_cents := by
  simp [aggregateBy]

theorem aggregateBatch_eq (events : List RawEvent) :
    aggregateBatch events = (aggregateBy .minute events,
      aggregateBy .hour events, aggregateBy .day events) := by
  induction events using List.reverseRecOn with
  | nil => rfl
  | append_singleton events e ih =>
      rw [aggregateBatch, List.foldl_append] at *
      rw [ih, aggregateBy_append_singleton, aggregateBy_append_singleton,
        aggregateBy_append_singleton]
      rfl

theorem initialised_of_get? (g : RollupGranularity) {k : RollupKey}
    {a : BucketAccum} : ∀ {events : List RawEvent},
      (aggregateBy g events).get? k = some a → a.initialised = true := by
  intro events
  induction events using List.reverseRecOn with
  | nil => simp [aggregateBy]
  | append_singleton events e ih =>
      rw [aggregateBy_append_singleton, AggMap.add, Dict.get?_alter]
      split
      · intro h
        cases h
        exact BucketAccum.add_initialised _ _
      · exact ih

/-- **Aggregation is summarizing**: the cell at a key holds the summary of the
amounts that belong to it, and exists exactly when there are any. -/
theorem row_aggregateBy (g : RollupGranularity) (k : RollupKey)
    (events : List RawEvent) :
    ((aggregateBy g events).get? k).map BucketAccum.row =
      Summary.collect (amountsAt g k events) := by
  induction events using List.reverseRecOn with
  | nil => rfl
  | append_singleton events e ih =>
      rw [aggregateBy_append_singleton, AggMap.add, Dict.get?_alter,
        amountsAt_append, Summary.collect_append, amountsAt_singleton, ← ih]
      by_cases h : e.rollupKey g = k
      · subst h
        rw [if_pos rfl, if_pos rfl, Summary.collect_of_ne_nil (by simp),
          Summary.ofList_cons, Summary.ofList_nil, add_zero]
        cases ha : (aggregateBy g events).get? (e.rollupKey g) with
        | none => simp [BucketAccum.row_add_empty]
        | some a =>
            simp [BucketAccum.row_add (initialised_of_get? g ha)]
      · rw [if_neg (Ne.symm h), if_neg h]
        simp

/-! ## Upserts -/

/-- A stored row and a delta, either of which may be absent. -/
abbrev mergeRows : Option RollupRow → Option RollupRow → Option RollupRow :=
  Option.merge (· + ·)

/-- The values of a batch upsert. -/
def AggMap.values (agg : AggMap) : List RollupEntry :=
  agg.entries.map fun p => (p.1, p.2.row)

theorem AggMap.nodup_values (agg : AggMap) :
    (agg.values.map Prod.fst).Nodup := by
  have hfst : agg.values.map Prod.fst = agg.keys := by
    simp [values, Dict.keys, Function.comp_def]
  exact hfst ▸ agg.nodup_keys

/-- The row an upsert leaves at a key it touches: the delta, absorbed. -/
def absorbed (stored delta : Option RollupRow) : Option RollupRow :=
  delta.map fun d => match stored with
    | none => d
    | some old => old + d

theorem absorbed_or (stored delta : Option RollupRow) :
    (absorbed stored delta).or stored = mergeRows stored delta := by
  cases stored <;> cases delta <;> rfl

theorem get?_absorb (table : RollupTable) (agg : AggMap) (k : RollupKey) :
    (Dict.ofList (agg.values.map (Stmt.absorb table))).get? k =
      absorbed (table.get? k) ((agg.get? k).map BucketAccum.row) := by
  have hfst : (agg.values.map (Stmt.absorb table)).map Prod.fst =
      agg.values.map Prod.fst := by
    simp [Stmt.absorb, Function.comp_def]
  have hnd := hfst ▸ agg.nodup_values
  refine Option.ext fun row => ?_
  rw [Dict.get?_ofList_eq_some_iff hnd]
  simp only [AggMap.values, List.map_map, List.mem_map, Function.comp_apply,
    Stmt.absorb, Prod.mk.injEq, Prod.exists, absorbed, Option.map_map,
    Option.map_eq_some_iff, Dict.get?_eq_some_iff]
  constructor
  · rintro ⟨_, a, hmem, rfl, rfl⟩
    exact ⟨a, hmem, by cases table.get? _ <;> rfl⟩
  · rintro ⟨a, hmem, rfl⟩
    exact ⟨k, a, hmem, rfl, by cases table.get? k <;> rfl⟩

end AnalyticsPipeline
