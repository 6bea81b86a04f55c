import AnalyticsPipeline.Guarantees.SuccessRate

/-!
# Back-to-back windows

A window counts the buckets that start between its bounds, both bounds included.
Two windows that share a bound therefore share the bucket that starts there, and
reports stitched from them count its events twice.
-/

namespace AnalyticsPipeline

open Framework

/-- The merchant's events from `start` up to, but not at, `stop`. -/
def eventsFrom (m : UUID) (start stop : ℤ) (events : List RawEvent) :
    List RawEvent :=
  events.filter fun e => e.merchant_id = m ∧ start ≤ (bucketTs e).micros ∧
    (bucketTs e).micros < stop

section Scanned

variable {g : RollupGranularity} {m : UUID} {events : List RawEvent} {a b c : ℤ}

/-- Two windows with a common bound: their union, and the bound again. -/
theorem scanned_append_perm (hab : a ≤ b) (hbc : b ≤ c) :
    (scanned g m a b events ++ scanned g m b c events).Perm
      (scanned g m a c events ++ scanned g m b b events) := by
  have hor : scanned g m a c events = events.filter fun e =>
      decide (e.merchant_id = m ∧ Stmt.between a b (g.truncate (bucketTs e))) ||
        decide (e.merchant_id = m ∧ Stmt.between b c (g.truncate (bucketTs e))) := by
    refine List.filter_congr fun e _ => ?_
    rw [← Bool.decide_or, decide_eq_decide, between_iff, between_iff, between_iff]
    constructor
    · rintro ⟨hm, h₁, h₂⟩
      rcases le_total (↑(g.truncate (bucketTs e)).micros) b with h | h
      · exact .inl ⟨hm, h₁, h⟩
      · exact .inr ⟨hm, h, h₂⟩
    · rintro (⟨hm, h₁, h₂⟩ | ⟨hm, h₁, h₂⟩)
      · exact ⟨hm, h₁, h₂.trans hbc⟩
      · exact ⟨hm, hab.trans h₁, h₂⟩
  have hand : scanned g m b b events = events.filter fun e =>
      decide (e.merchant_id = m ∧ Stmt.between a b (g.truncate (bucketTs e))) &&
        decide (e.merchant_id = m ∧ Stmt.between b c (g.truncate (bucketTs e))) := by
    refine List.filter_congr fun e _ => ?_
    rw [← Bool.decide_and, decide_eq_decide, between_iff, between_iff, between_iff]
    constructor
    · rintro ⟨hm, h₁, h₂⟩
      exact ⟨⟨hm, hab.trans h₁, h₂⟩, hm, h₁, h₂.trans hbc⟩
    · rintro ⟨⟨hm, -, h₁⟩, -, h₂, -⟩
      exact ⟨hm, h₂, h₁⟩
  rw [hor, hand]
  exact filter_append_filter_perm events

/-- Aligned bounds count the events up to the end of the bucket at `b`. -/
theorem scanned_eq_eventsFrom (ha : (g.width : ℤ) ∣ a) (hb : (g.width : ℤ) ∣ b) :
    scanned g m a b events = eventsFrom m a (b + g.width) events := by
  refine List.filter_congr fun e _ => ?_
  rw [decide_eq_decide, between_iff, le_truncate_iff ha]
  refine and_congr_right fun _ => and_congr_right fun _ => ?_
  have hnext : (g.width : ℤ) ∣ b + g.width := hb.add (dvd_refl _)
  rw [← truncate_lt_iff hnext]
  -- bucket starts are multiples of the length, so none lies in between
  constructor
  · have hpos := width_pos g
    omega
  · intro hlt
    obtain ⟨k, rfl⟩ := hb
    rw [truncate_micros, Int.natCast_mul] at *
    have hpos : (0 : ℤ) < g.width := Int.natCast_pos.mpr (width_pos g)
    rw [mul_comm (g.width : ℤ), ← add_one_mul, mul_lt_mul_iff_left₀ hpos] at hlt
    rw [mul_comm (g.width : ℤ), mul_le_mul_iff_left₀ hpos]
    exact Int.lt_add_one_iff.mp hlt

/-- Half-open ranges that meet add up. -/
theorem eventsFrom_append_perm (hab : a ≤ b) (hbc : b ≤ c) :
    (eventsFrom m a b events ++ eventsFrom m b c events).Perm
      (eventsFrom m a c events) := by
  have hperm := filter_append_filter_perm events
    (p := fun e => decide (e.merchant_id = m ∧ a ≤ (bucketTs e).micros ∧
      (bucketTs e).micros < b))
    (q := fun e => decide (e.merchant_id = m ∧ b ≤ (bucketTs e).micros ∧
      (bucketTs e).micros < c))
  have hor : (events.filter fun e =>
      decide (e.merchant_id = m ∧ a ≤ (bucketTs e).micros ∧
        (bucketTs e).micros < b) ||
      decide (e.merchant_id = m ∧ b ≤ (bucketTs e).micros ∧
        (bucketTs e).micros < c)) = eventsFrom m a c events := by
    refine List.filter_congr fun e _ => ?_
    rw [← Bool.decide_or, decide_eq_decide, ← and_or_left]
    refine and_congr_right fun _ => ?_
    omega
  have hand : (events.filter fun e =>
      decide (e.merchant_id = m ∧ a ≤ (bucketTs e).micros ∧
        (bucketTs e).micros < b) &&
      decide (e.merchant_id = m ∧ b ≤ (bucketTs e).micros ∧
        (bucketTs e).micros < c)) = [] := by
    refine List.filter_eq_nil_iff.mpr fun e _ => ?_
    rw [← Bool.decide_and, decide_eq_true_eq]
    omega
  rw [hor, hand, List.append_nil] at hperm
  exact hperm

end Scanned

/-- The answers over `[a, b]`, `[b, c]` and `[a, c]` add up, and the first one
counts the events before `b`. -/
structure Partitions (m : UUID) (a b : AwareDateTime) (events : List RawEvent)
    (ab bc ac : MetricsResponse) : Prop where
  total_count : ac.total_count = ab.total_count + bc.total_count
  total_volume_cents :
    ac.total_volume_cents = ab.total_volume_cents + bc.total_volume_cents
  counted : ab.total_count = (eventsFrom m a.instant b.instant events).length

/-- The bounds are boundaries of buckets, and every window is answered from
them. -/
structure Stitched (settings : Settings) (g : RollupGranularity)
    (a b c : AwareDateTime) : Prop where
  lt : a.instant < b.instant ∧ b.instant < c.instant
  aligned : (g.width : ℤ) ∣ a.instant ∧ (g.width : ℤ) ∣ b.instant ∧
    (g.width : ℤ) ∣ c.instant
  routed : (selectGranularity settings a b).1 = g ∧
    (selectGranularity settings b c).1 = g ∧ (selectGranularity settings a c).1 = g

section Windows

variable {settings : Settings} {g : RollupGranularity} {a b c : AwareDateTime}
  {m : UUID} {events : List RawEvent} {ab bc ac : MetricsResponse}

/-- Answers that scan the events partition them exactly when the bucket at the
common bound is empty. -/
theorem partitions_iff (h : Stitched settings g a b c)
    (hab : ScanOf g m a.instant b.instant events ab)
    (hbc : ScanOf g m b.instant c.instant events bc)
    (hac : ScanOf g m a.instant c.instant events ac) :
    Partitions m a b events ab bc ac ↔
      eventsFrom m b.instant (b.instant + g.width) events = [] := by
  have hperm := @scanned_append_perm g m events _ _ _
    h.lt.1.le h.lt.2.le
  rw [scanned_eq_eventsFrom h.aligned.2.1 h.aligned.2.1] at hperm
  have hpos := width_pos g
  have hsplit := (@eventsFrom_append_perm m events _ _ _ h.lt.1.le
    (show b.instant ≤ b.instant + g.width by omega)).length_eq
  rw [← scanned_eq_eventsFrom h.aligned.1 h.aligned.2.1, List.length_append]
    at hsplit
  have hlength := hperm.length_eq
  have hamount := (hperm.map fun e => e.amount_cents).sum_eq
  rw [List.length_append, List.length_append] at hlength
  rw [List.map_append, List.map_append, List.sum_append, List.sum_append]
    at hamount
  constructor
  · intro hpart
    have hcount := hpart.total_count
    rw [hab.total_count, hbc.total_count, hac.total_count] at hcount
    exact List.length_eq_zero_iff.mp (by omega)
  · intro hnil
    rw [hnil] at hlength hamount hsplit
    rw [List.length_nil] at hlength hsplit
    rw [List.map_nil, List.sum_nil] at hamount
    refine ⟨?_, ?_, ?_⟩
    · rw [hab.total_count, hbc.total_count, hac.total_count]
      omega
    · rw [hab.total_volume, hbc.total_volume, hac.total_volume]
      omega
    · rw [hab.total_count]
      omega

theorem scanOf_of_answersMiss {merchants : List Merchant}
    {w : Config services PyError}
    (hw : Reach anyConsumers (Config.idle (World.start merchants)) w) {i : ℕ}
    (hidle : w.world.txs.get? i = none)
    (hroute : (selectGranularity settings a b).1 = g)
    (h : AnswersMiss settings i w.world m a b ab) :
    ScanOf g m a.instant b.instant w.world.db.markedEvents ab := by
  obtain ⟨latency, rfl⟩ := h.eq hidle
  exact hroute ▸ (reach_aggregated hw).rolled.scanOf settings m a b latency

end Windows

/-- **Windows partition the events** if and only if no processed event of the
merchant falls into the bucket that starts at their common bound. -/
theorem windows_partition_iff (merchants : List Merchant)
    {w : Config services PyError}
    (hw : Reach anyConsumers (Config.idle (World.start merchants)) w)
    {settings : Settings} {g : RollupGranularity} {a b c : AwareDateTime}
    (h : Stitched settings g a b c) {i : ℕ}
    (hidle : w.world.txs.get? i = none) {m : UUID} {ab bc ac : MetricsResponse}
    (hab : AnswersMiss settings i w.world m a b ab)
    (hbc : AnswersMiss settings i w.world m b c bc)
    (hac : AnswersMiss settings i w.world m a c ac) :
    Partitions m a b w.world.db.markedEvents ab bc ac ↔
      ∀ e ∈ w.world.db.markedEvents, e.merchant_id = m →
        ¬ (b.instant ≤ (bucketTs e).micros ∧
          (bucketTs e).micros < b.instant + g.width) := by
  rw [partitions_iff h (scanOf_of_answersMiss hw hidle h.routed.1 hab)
    (scanOf_of_answersMiss hw hidle h.routed.2.1 hbc)
    (scanOf_of_answersMiss hw hidle h.routed.2.2 hac), eventsFrom,
    List.filter_eq_nil_iff]
  simp only [decide_eq_true_eq, not_and]

namespace Sample

/-- Ten minutes and the next ten. -/
theorem stitched : Stitched {} .minute (.utc (instant 0)) (.utc (instant 10))
    (.utc (instant 20)) where
  lt := by decide
  aligned := by decide
  routed := by decide

end Sample

/-- The two windows and their union, asked in a state with one event. -/
theorem exists_stitched_answers (t : DateTime) :
    ∃ merchants, ∃ w : Config services PyError,
      Reach anyConsumers (Config.idle (World.start merchants)) w ∧
      w.world.txs.get? 0 = none ∧
      (∃ row, OneCent 7 .paymentConfirmed t row ∧
        w.world.db.markedEvents = [row]) ∧
      ∃ ab bc ac,
        AnswersMiss {} 0 w.world 7 (.utc (Sample.instant 0))
          (.utc (Sample.instant 10)) ab ∧
        AnswersMiss {} 0 w.world 7 (.utc (Sample.instant 10))
          (.utc (Sample.instant 20)) bc ∧
        AnswersMiss {} 0 w.world 7 (.utc (Sample.instant 0))
          (.utc (Sample.instant 20)) ac := by
  have httl : (selectGranularity {} (.utc (Sample.instant 0))
      (.utc (Sample.instant 10))).2 ≠ 0 := by decide
  obtain ⟨merchants, w, hw, hidle, row, hrow, hmarked, ab, hab⟩ :=
    exists_answer_oneCent httl 7 .paymentConfirmed t
  obtain ⟨bc, hbc⟩ := @exists_answersMiss {} _ _ 7
    (.utc (Sample.instant 10)) (.utc (Sample.instant 20))
    (hidle 0) (by decide)
  obtain ⟨ac, hac⟩ := @exists_answersMiss {} _ _ 7
    (.utc (Sample.instant 0)) (.utc (Sample.instant 20))
    (hidle 0) (by decide)
  exact ⟨merchants, w, hw, hidle 0, ⟨row, hrow, hmarked⟩, ab, bc, ac, hab, hbc,
    hac⟩

/-- An event in the middle of the first window is counted once. -/
theorem windows_partition_iff_inside :
    ∃ merchants, ∃ w : Config services PyError,
      Reach anyConsumers (Config.idle (World.start merchants)) w ∧
      w.world.db.markedEvents.length = 1 ∧
      ∃ ab bc ac, Partitions 7 (.utc (Sample.instant 0)) (.utc (Sample.instant 10))
        w.world.db.markedEvents ab bc ac := by
  obtain ⟨merchants, w, hw, hidle, ⟨row, hrow, hmarked⟩, ab, bc, ac, hab, hbc,
    hac⟩ := exists_stitched_answers (Sample.instant 5)
  refine ⟨merchants, w, hw, by rw [hmarked]; rfl, ab, bc, ac,
    (windows_partition_iff merchants hw Sample.stitched hidle hab hbc hac).mpr ?_⟩
  rw [hmarked]
  rintro e he -
  rw [List.mem_singleton.mp he, hrow.bucket]
  decide

/-- An event at the common bound is counted in both windows. -/
theorem boundary_event_counted_twice :
    ¬ ∀ (merchants : List Merchant) (w : Config services PyError),
      Reach anyConsumers (Config.idle (World.start merchants)) w →
      ∀ (m : UUID) (a b c : AwareDateTime) (g : RollupGranularity),
        Stitched {} g a b c → ∀ i, w.world.txs.get? i = none →
        ∀ ab bc ac, AnswersMiss {} i w.world m a b ab →
          AnswersMiss {} i w.world m b c bc → AnswersMiss {} i w.world m a c ac →
          Partitions m a b w.world.db.markedEvents ab bc ac := by
  intro hlaw
  obtain ⟨merchants, w, hw, hidle, ⟨row, hrow, hmarked⟩, ab, bc, ac, hab, hbc,
    hac⟩ := exists_stitched_answers (Sample.instant 10)
  have hpart := hlaw merchants w hw 7 _ _ _ .minute Sample.stitched 0 hidle ab bc
    ac hab hbc hac
  have hempty := (partitions_iff Sample.stitched
    (scanOf_of_answersMiss hw hidle Sample.stitched.routed.1 hab)
    (scanOf_of_answersMiss hw hidle Sample.stitched.routed.2.1 hbc)
    (scanOf_of_answersMiss hw hidle Sample.stitched.routed.2.2 hac)).mp hpart
  rw [hmarked, eventsFrom, List.filter_eq_nil_iff] at hempty
  have hrow' := hempty row List.mem_cons_self
  rw [hrow.bucket, hrow.merchant_id] at hrow'
  exact hrow' (by decide)

end AnalyticsPipeline
