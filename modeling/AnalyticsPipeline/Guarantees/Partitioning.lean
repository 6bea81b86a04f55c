import AnalyticsPipeline.Guarantees.ExactlyOnce
import AnalyticsPipeline.Metatheory.Periods
import AnalyticsPipeline.Model.CreatePartitions

/-!
# Pre-created partitions

A day whose rows went to the default partition can no longer get a partition of
its own, and the script stops at the first such day. It succeeds exactly when
no row of the default partition falls into its window.
-/

namespace AnalyticsPipeline

open Framework

/-! ## Daily partitions -/

/-- The partition of the day that begins at `d`. -/
structure Partition.IsDay (p : Partition) (d : DateTime) : Prop where
  name : p.name = CreatePartitions.partitionName d
  start : p.start = d.micros
  stop : p.stop = d.micros + DateTime.dayMicros

def Partition.Apart (p q : Partition) : Prop :=
  p.stop ≤ q.start ∨ q.stop ≤ p.start

/-- One partition a day at most, and every row where it belongs. -/
structure PartitionedTable.Daily (t : PartitionedTable) : Prop where
  day : ∀ p ∈ t.partitions, ∃ d : DateTime, d.truncDay = d ∧ p.IsDay d
  apart : t.partitions.Pairwise Partition.Apart
  placed : ∀ p ∈ t.partitions, ∀ r ∈ p.rows, p.Holds r
  unplaced : ∀ r ∈ t.default_rows, ∀ p ∈ t.partitions, ¬ p.Holds r

/-- What daily partitions and the rows ingested between their creation come
to. -/
inductive Produced : PartitionedTable → Prop where
  | migrated : Produced ⟨[], []⟩
  | insert {t : PartitionedTable} (r : RawEvent) :
      Produced t → Produced (t.insert r)
  | partition {t t' : PartitionedTable} {d : DateTime} :
      d.truncDay = d → Produced t →
      t.createPartition (CreatePartitions.partitionName d) d.micros
        (d.micros + DateTime.dayMicros) = .ok t' →
      Produced t'

section Days

variable {d e : DateTime} {p q : Partition} {r : RawEvent}

theorem micros_midnight (hd : d.truncDay = d) :
    d.micros = d.ordinal * DateTime.dayMicros := by
  rw [← d.truncDay_micros, hd]

theorem eq_of_ordinal_eq (hd : d.truncDay = d) (he : e.truncDay = e)
    (h : d.ordinal = e.ordinal) : d = e := by
  rw [← hd, ← he]
  exact DateTime.truncDay_eq_iff.mpr h

/-- **A name is a day**: its month and day are the last digits. -/
theorem partitionName_injective (hd : d.truncDay = d) (he : e.truncDay = e)
    (h : CreatePartitions.partitionName d = CreatePartitions.partitionName e) :
    d = e := by
  have hmonth := d.month_range
  have hmonth' := e.month_range
  have hday := d.day_range
  have hday' := e.day_range
  have hle := daysInMonth_le d.year d.month
  have hle' := daysInMonth_le e.year e.month
  unfold CreatePartitions.partitionName at h
  rw [String.ofList_inj] at h
  obtain ⟨hrest, hlast⟩ := List.append_inj' h (by simp)
  obtain ⟨hrest, hmiddle⟩ := List.append_inj' hrest (by simp)
  have hyears := List.append_cancel_left hrest
  have hwidth : yearWidth d.year = yearWidth e.year := by
    simpa using congrArg List.length hyears
  rw [hwidth] at hyears
  have hy := pad_injective (by decide) (by decide) (yearWidth_ne_zero _)
    (hwidth ▸ lt_pow_yearWidth d.year_range.2) (lt_pow_yearWidth e.year_range.2)
    hyears
  have hm := pad_injective (by decide) (by decide) (by decide)
    (show d.month < 10 ^ 2 by omega) (show e.month < 10 ^ 2 by omega)
    (List.cons.inj hmiddle).2
  have hd' := pad_injective (by decide) (by decide) (by decide)
    (show d.day < 10 ^ 2 by omega) (show e.day < 10 ^ 2 by omega)
    (List.cons.inj hlast).2
  exact eq_of_ordinal_eq hd he (DateTime.ordinal_eq_iff.mpr ⟨hy, hm, hd'⟩)

theorem Partition.IsDay.holds_iff (hp : p.IsDay d) (hd : d.truncDay = d) :
    p.Holds r ↔ r.occurred_at.ordinal = d.ordinal := by
  unfold Partition.Holds
  rw [hp.start, hp.stop, DateTime.mem_day_iff hd]
  constructor
  · intro h
    rw [← r.occurred_at.truncDay_ordinal, h]
  · intro h
    rw [← hd]
    exact DateTime.truncDay_eq_iff.mpr h

/-- Days overlap only with themselves. -/
theorem Partition.IsDay.eq_of_overlap (hp : p.IsDay d) (hd : d.truncDay = d)
    (he : e.truncDay = e) (hlow : p.start < e.micros + DateTime.dayMicros)
    (hhigh : e.micros < p.stop) : d = e := by
  rw [hp.start, micros_midnight hd, micros_midnight he] at hlow
  rw [hp.stop, micros_midnight hd, micros_midnight he] at hhigh
  apply eq_of_ordinal_eq hd he
  unfold DateTime.dayMicros at hlow hhigh
  omega

end Days

/-! ## One day -/

/-- A day gets its partition, and no row moves. -/
structure PartitionedTable.GainsDay (t t' : PartitionedTable) (d : DateTime) : Prop where
  daily : t'.Daily
  default_rows : t'.default_rows = t.default_rows
  rows : t'.rows = t.rows
  keeps : t.partitions ⊆ t'.partitions
  own : ∃ p ∈ t'.partitions, p.IsDay d

namespace PartitionedTable.Daily

variable {t t' : PartitionedTable} {d : DateTime} {r : RawEvent}

theorem tableExists_iff (ht : t.Daily) (hd : d.truncDay = d) :
    t.tableExists (CreatePartitions.partitionName d) = true ↔
      ∃ p ∈ t.partitions, p.IsDay d := by
  unfold tableExists
  rw [List.any_eq_true]
  constructor
  · rintro ⟨p, hp, hname⟩
    obtain ⟨e, he, hday⟩ := ht.day p hp
    rw [decide_eq_true_eq, hday.name] at hname
    exact ⟨p, hp, partitionName_injective he hd hname ▸ hday⟩
  · rintro ⟨p, hp, hday⟩
    exact ⟨p, hp, decide_eq_true hday.name⟩

/-- Next to the days it has, a table takes every other. -/
theorem no_overlap (ht : t.Daily) (hd : d.truncDay = d)
    (hnew : ¬ ∃ p ∈ t.partitions, p.IsDay d) :
    (t.partitions.any fun p =>
      p.start < d.micros + DateTime.dayMicros ∧ d.micros < p.stop) = false := by
  rw [List.any_eq_false]
  intro p hp hoverlap
  obtain ⟨hlow, hhigh⟩ := of_decide_eq_true hoverlap
  obtain ⟨e, he, hday⟩ := ht.day p hp
  exact hnew ⟨p, hp, hday.eq_of_overlap he hd hlow hhigh ▸ hday⟩

/-- The partition a successful `CREATE TABLE` adds. -/
abbrev dayPartition (d : DateTime) : Partition :=
  ⟨CreatePartitions.partitionName d, d.micros, d.micros + DateTime.dayMicros, []⟩

theorem isDay_dayPartition (d : DateTime) : (dayPartition d).IsDay d :=
  ⟨rfl, rfl, rfl⟩

/-- **What `CREATE TABLE` does** for one day. -/
theorem createPartition_eq (ht : t.Daily) (hd : d.truncDay = d) :
    t.createPartition (CreatePartitions.partitionName d) d.micros
        (d.micros + DateTime.dayMicros) =
      if t.tableExists (CreatePartitions.partitionName d) = true then .ok t
      else if ∃ r ∈ t.default_rows, r.occurred_at.ordinal = d.ordinal then
        .error .checkViolation
      else .ok { t with partitions := t.partitions ++ [dayPartition d] } := by
  unfold createPartition
  by_cases hexists : t.tableExists (CreatePartitions.partitionName d) = true
  · rw [if_pos hexists, if_pos hexists]
  · rw [if_neg hexists, if_neg hexists,
      ht.no_overlap hd (mt (ht.tableExists_iff hd).mpr hexists),
      if_neg Bool.false_ne_true]
    have hrows : (t.default_rows.any fun r => (dayPartition d).Holds r) = true ↔
        ∃ r ∈ t.default_rows, r.occurred_at.ordinal = d.ordinal := by
      rw [List.any_eq_true]
      simp only [decide_eq_true_eq, (isDay_dayPartition d).holds_iff hd]
    exact if_congr hrows rfl rfl

theorem append_day (ht : t.Daily) (hd : d.truncDay = d)
    (hnew : ¬ ∃ p ∈ t.partitions, p.IsDay d)
    (hfree : ¬ ∃ r ∈ t.default_rows, r.occurred_at.ordinal = d.ordinal) :
    Daily { t with partitions := t.partitions ++ [dayPartition d] } where
  day := by
    intro p hp
    rcases List.mem_append.mp hp with hp | hp
    · exact ht.day p hp
    · rw [List.mem_singleton.mp hp]
      exact ⟨d, hd, isDay_dayPartition d⟩
  apart := by
    refine List.pairwise_append.mpr ⟨ht.apart, List.pairwise_singleton _ _, ?_⟩
    intro p hp q hq
    rw [List.mem_singleton.mp hq]
    by_contra hnot
    have hoverlap := List.any_eq_false.mp (ht.no_overlap hd hnew) p hp
    rw [decide_eq_true_eq] at hoverlap
    unfold Partition.Apart at hnot
    dsimp only at hnot
    omega
  placed := by
    intro p hp
    rcases List.mem_append.mp hp with hp | hp
    · exact ht.placed p hp
    · rw [List.mem_singleton.mp hp]
      exact fun r hr => by cases hr
  unplaced := by
    intro r hr p hp
    rcases List.mem_append.mp hp with hp | hp
    · exact ht.unplaced r hr p hp
    · rw [List.mem_singleton.mp hp, (isDay_dayPartition d).holds_iff hd]
      exact fun hord => hfree ⟨r, hr, hord⟩

theorem createPartition_ok (ht : t.Daily) (hd : d.truncDay = d)
    (h : t.createPartition (CreatePartitions.partitionName d) d.micros
      (d.micros + DateTime.dayMicros) = .ok t') : t.GainsDay t' d := by
  rw [ht.createPartition_eq hd] at h
  split_ifs at h with hexists hrows
  · cases h
    exact ⟨ht, rfl, rfl, fun _ hp => hp, (ht.tableExists_iff hd).mp hexists⟩
  · cases h
    have hnew := mt (ht.tableExists_iff hd).mpr hexists
    refine ⟨ht.append_day hd hnew hrows, rfl, ?_, ?_, ?_⟩
    · simp [PartitionedTable.rows, dayPartition]
    · exact List.subset_append_left _ _
    · exact ⟨dayPartition d, by simp, isDay_dayPartition d⟩

/-- A day that has a partition has no rows in the default one. -/
theorem createPartition_ok_iff (ht : t.Daily) (hd : d.truncDay = d) :
    (∃ t', t.createPartition (CreatePartitions.partitionName d) d.micros
      (d.micros + DateTime.dayMicros) = .ok t') ↔
    ∀ r ∈ t.default_rows, r.occurred_at.ordinal ≠ d.ordinal := by
  rw [ht.createPartition_eq hd]
  split_ifs with hexists hrows
  · refine iff_of_true ⟨t, rfl⟩ fun r hr hord => ?_
    obtain ⟨p, hp, hday⟩ := (ht.tableExists_iff hd).mp hexists
    exact ht.unplaced r hr p hp ((hday.holds_iff hd).mpr hord)
  · obtain ⟨r, hr, hord⟩ := hrows
    exact iff_of_false (by simp) fun hall => hall r hr hord
  · exact iff_of_true ⟨_, rfl⟩ fun r hr hord => hrows ⟨r, hr, hord⟩

/-- A partition that takes in the row if it is one of its own. -/
abbrev taking (r : RawEvent) (p : Partition) : Partition :=
  if p.Holds r then { p with rows := p.rows ++ [r] } else p

theorem taking_bounds (r : RawEvent) (p : Partition) : (taking r p).name = p.name ∧
    (taking r p).start = p.start ∧ (taking r p).stop = p.stop := by
  unfold taking
  split_ifs <;> exact ⟨rfl, rfl, rfl⟩

theorem taking_holds (r s : RawEvent) (p : Partition) :
    (taking r p).Holds s ↔ p.Holds s := by
  obtain ⟨-, hstart, hstop⟩ := taking_bounds r p
  unfold Partition.Holds
  rw [hstart, hstop]

theorem insert (ht : t.Daily) (r : RawEvent) : (t.insert r).Daily := by
  unfold PartitionedTable.insert
  split_ifs with hany
  · constructor
    · intro q hq
      obtain ⟨p, hp, rfl⟩ := List.mem_map.mp hq
      obtain ⟨d, hd, hday⟩ := ht.day p hp
      obtain ⟨hname, hstart, hstop⟩ := taking_bounds r p
      exact ⟨d, hd, hname.trans hday.name, hstart.trans hday.start,
        hstop.trans hday.stop⟩
    · rw [List.pairwise_map]
      refine ht.apart.imp fun {p q} hapart => ?_
      obtain ⟨-, hstart, hstop⟩ := taking_bounds r p
      obtain ⟨-, hstart', hstop'⟩ := taking_bounds r q
      show (taking r p).stop ≤ (taking r q).start ∨
        (taking r q).stop ≤ (taking r p).start
      rwa [hstart, hstop, hstart', hstop']
    · intro q hq s hs
      obtain ⟨p, hp, rfl⟩ := List.mem_map.mp hq
      rw [taking_holds]
      split_ifs at hs with hholds
      · rcases List.mem_append.mp hs with hs | hs
        · exact ht.placed p hp s hs
        · rw [List.mem_singleton.mp hs]
          exact hholds
      · exact ht.placed p hp s hs
    · intro s hs q hq
      obtain ⟨p, hp, rfl⟩ := List.mem_map.mp hq
      rw [taking_holds]
      exact ht.unplaced s hs p hp
  · refine ⟨ht.day, ht.apart, ht.placed, fun s hs p hp => ?_⟩
    rcases List.mem_append.mp hs with hs | hs
    · exact ht.unplaced s hs p hp
    · rw [List.mem_singleton.mp hs]
      exact fun hholds =>
        hany (List.any_eq_true.mpr ⟨p, hp, decide_eq_true hholds⟩)

end PartitionedTable.Daily

theorem Produced.daily {t : PartitionedTable} (h : Produced t) : t.Daily := by
  induction h with
  | migrated => exact ⟨by simp, by simp, by simp, by simp⟩
  | insert r _ ih => exact ih.insert r
  | partition hd _ hcreate ih => exact (ih.createPartition_ok hd hcreate).daily

/-! ## The loop -/

section Loop

variable {t t' : PartitionedTable} {today d : DateTime} {i : ℤ}

/-- The date a turn of the loop is about. -/
structure TargetDate (today : DateTime) (i : ℤ) (d : DateTime) : Prop where
  midnight : d.truncDay = d
  ordinal : (d.ordinal : ℤ) = today.ordinal + i

theorem plusDays?_midnight (htoday : today.truncDay = today)
    (h : today.plusDays? i = some d) : TargetDate today i d := by
  obtain ⟨hord, htime⟩ := DateTime.plusDays?_ordinal h
  refine ⟨?_, hord⟩
  have hzero : today.timeOfDay = today.truncDay.timeOfDay := by rw [htoday]
  apply DateTime.micros_injective
  rw [DateTime.truncDay_micros, DateTime.micros, htime, hzero]
  simp [DateTime.timeOfDay, DateTime.truncDay]

/-- Both dates of a turn can be represented, or the script overflows. -/
theorem ensurePartition_eq (htoday : today.truncDay = today) :
    (∃ d, TargetDate today i d ∧ d.ordinal < DateTime.maxOrdinal ∧
      CreatePartitions.ensurePartition today i t =
        t.createPartition (CreatePartitions.partitionName d) d.micros
          (d.micros + DateTime.dayMicros)) ∨
    ¬ (1 ≤ (today.ordinal : ℤ) + i ∧
        (today.ordinal : ℤ) + i < DateTime.maxOrdinal) ∧
      CreatePartitions.ensurePartition today i t = .error .overflowError := by
  unfold CreatePartitions.ensurePartition
  cases htarget : today.plusDays? i with
  | none =>
      refine .inr ⟨?_, rfl⟩
      rintro ⟨hlow, hhigh⟩
      have hsome := DateTime.plusDays?_isSome_iff.mpr ⟨hlow, hhigh.le⟩
      rw [htarget] at hsome
      cases hsome
  | some d =>
      have hturn := plusDays?_midnight htoday htarget
      cases hstop : d.plusDays? 1 with
      | none =>
          refine .inr ⟨?_, ?_⟩
          · rintro ⟨-, hhigh⟩
            have hord := hturn.ordinal
            have hsome := DateTime.plusDays?_isSome_iff (t := d) (i := 1)
            rw [hstop] at hsome
            have := hsome.mpr ⟨by omega, by omega⟩
            cases this
          · dsimp only [CreatePartitions.dateOrOverflow, Option.elim, bind, Except.bind]
            rw [hstop]
      | some e =>
          obtain ⟨hord, htime⟩ := DateTime.plusDays?_ordinal hstop
          have hmax := e.ordinal_le_maxOrdinal
          have hmicros : e.micros = d.micros + DateTime.dayMicros := by
            have hnext : e.ordinal = d.ordinal + 1 := by omega
            rw [DateTime.micros, DateTime.micros, hnext, htime, Nat.add_mul]
            omega
          refine .inl ⟨d, hturn, by omega, ?_⟩
          dsimp only [CreatePartitions.dateOrOverflow, Option.elim, bind,
            Except.bind]
          rw [hstop, ← hmicros]
          unfold PartitionedTable.createPartition
          dsimp only
          split_ifs <;> rfl

/-- **One turn** succeeds for a day of the calendar without rows in the default
partition. -/
theorem ensurePartition_ok_iff (ht : t.Daily) (htoday : today.truncDay = today) :
    (∃ t', CreatePartitions.ensurePartition today i t = .ok t') ↔
      (1 ≤ (today.ordinal : ℤ) + i ∧
        (today.ordinal : ℤ) + i < DateTime.maxOrdinal) ∧
      ∀ r ∈ t.default_rows, (r.occurred_at.ordinal : ℤ) ≠ today.ordinal + i := by
  rcases ensurePartition_eq (t := t) (i := i) htoday with
    ⟨d, hturn, hmax, heq⟩ | ⟨hout, heq⟩
  · have hpos := d.one_le_ordinal
    rw [heq, ht.createPartition_ok_iff hturn.midnight, ← hturn.ordinal]
    simp only [ne_eq, Nat.cast_inj]
    exact (and_iff_right (by omega)).symm
  · rw [heq]
    exact iff_of_false (by simp) fun h => hout h.1

theorem ensurePartition_ok (ht : t.Daily) (htoday : today.truncDay = today)
    (h : CreatePartitions.ensurePartition today i t = .ok t') :
    ∃ d, TargetDate today i d ∧ t.GainsDay t' d := by
  rcases ensurePartition_eq (t := t) (i := i) htoday with
    ⟨d, hturn, -, heq⟩ | ⟨-, heq⟩
  · rw [heq] at h
    exact ⟨d, hturn, ht.createPartition_ok hturn.midnight h⟩
  · rw [heq] at h
    cases h

/-- **Every turn of the loop** must succeed, each over the same default rows. -/
theorem loop_ok_iff (htoday : today.truncDay = today) (is : List ℤ) :
    ∀ {t : PartitionedTable}, t.Daily →
    ((CreatePartitions.loop today is t).1 = .ok () ↔
      ∀ i ∈ is, (1 ≤ (today.ordinal : ℤ) + i ∧
        (today.ordinal : ℤ) + i < DateTime.maxOrdinal) ∧
        ∀ r ∈ t.default_rows,
          (r.occurred_at.ordinal : ℤ) ≠ today.ordinal + i) := by
  induction is with
  | nil => simp [CreatePartitions.loop]
  | cons i rest ih =>
      intro t ht
      have hiff := ensurePartition_ok_iff (i := i) ht htoday
      unfold CreatePartitions.loop
      rw [List.forall_mem_cons, ← hiff]
      cases hturn : CreatePartitions.ensurePartition today i t with
      | error e => simp
      | ok t' =>
          obtain ⟨d, -, hprep⟩ := ensurePartition_ok ht htoday hturn
          have hrest := ih hprep.daily
          rw [hprep.default_rows] at hrest
          rw [hrest]
          exact (and_iff_right ⟨t', rfl⟩).symm

/-- What the loop leaves behind, also when it stops early. -/
theorem loop_keeps (htoday : today.truncDay = today) (is : List ℤ) :
    ∀ {t : PartitionedTable}, t.Daily →
    (CreatePartitions.loop today is t).2.Daily ∧
    (CreatePartitions.loop today is t).2.rows = t.rows ∧
    t.partitions ⊆ (CreatePartitions.loop today is t).2.partitions := by
  induction is with
  | nil => exact fun ht => ⟨ht, rfl, fun _ hp => hp⟩
  | cons i rest ih =>
      intro t ht
      unfold CreatePartitions.loop
      cases hturn : CreatePartitions.ensurePartition today i t with
      | error e => exact ⟨ht, rfl, fun _ hp => hp⟩
      | ok t' =>
          obtain ⟨d, -, hprep⟩ := ensurePartition_ok ht htoday hturn
          obtain ⟨hdaily, hrows, hkeeps⟩ := ih hprep.daily
          exact ⟨hdaily, hrows.trans hprep.rows, List.Subset.trans hprep.keeps hkeeps⟩

/-- A loop that returns has been through every day. -/
theorem loop_own (htoday : today.truncDay = today) {is : List ℤ} :
    ∀ {t : PartitionedTable}, t.Daily →
    (CreatePartitions.loop today is t).1 = .ok () → ∀ i ∈ is,
    ∃ d, TargetDate today i d ∧
      ∃ p ∈ (CreatePartitions.loop today is t).2.partitions, p.IsDay d := by
  induction is with
  | nil => simp
  | cons i rest ih =>
      intro t ht h
      unfold CreatePartitions.loop at h ⊢
      cases hturn : CreatePartitions.ensurePartition today i t with
      | error e => rw [hturn] at h; cases h
      | ok t' =>
          rw [hturn] at h
          obtain ⟨d, hd, hprep⟩ := ensurePartition_ok ht htoday hturn
          obtain ⟨p, hp, hday⟩ := hprep.own
          have hkeeps := (loop_keeps htoday rest hprep.daily).2.2
          rw [List.forall_mem_cons]
          exact ⟨⟨d, hd, p, hkeeps hp, hday⟩, ih hprep.daily h⟩

end Loop

/-! ## The script -/

/-- The script returns, every day from yesterday to `days_ahead` days on has
its partition, no two overlap, and no row is lost. -/
structure PreCreates (now : DateTime) (days_ahead : ℕ) (t : PartitionedTable) :
    Prop where
  returns : (createPartitions now days_ahead t).1 = .ok ()
  own : ∀ d : DateTime, d.truncDay = d → now.ordinal ≤ d.ordinal + 1 →
    d.ordinal ≤ now.ordinal + days_ahead →
    ∃ p ∈ (createPartitions now days_ahead t).2.partitions, p.IsDay d
  apart : (createPartitions now days_ahead t).2.partitions.Pairwise
    Partition.Apart
  kept : (createPartitions now days_ahead t).2.rows.Perm t.rows

theorem mem_dayOffsets {days_ahead : ℕ} {i : ℤ} :
    i ∈ CreatePartitions.dayOffsets days_ahead ↔ -1 ≤ i ∧ i ≤ days_ahead := by
  unfold CreatePartitions.dayOffsets
  simp only [List.mem_map, List.mem_range]
  constructor
  · rintro ⟨k, hk, rfl⟩
    omega
  · rintro ⟨hlow, hhigh⟩
    exact ⟨(i + 1).toNat, by omega, by omega⟩

/-- **Pre-creation** succeeds exactly when the calendar has the days of the
window and the one after, and the default partition holds no row of the
window. -/
theorem partitions_precreated_iff {t : PartitionedTable} (ht : Produced t)
    (now : DateTime) (days_ahead : ℕ) :
    PreCreates now days_ahead t ↔
      (1 < now.ordinal ∧ now.ordinal + days_ahead < DateTime.maxOrdinal) ∧
      ∀ r ∈ t.default_rows, ¬ (now.ordinal ≤ r.occurred_at.ordinal + 1 ∧
        r.occurred_at.ordinal ≤ now.ordinal + days_ahead) := by
  have hdaily := ht.daily
  have htoday := now.truncDay_truncDay
  have hloop := loop_ok_iff htoday (CreatePartitions.dayOffsets days_ahead) hdaily
  simp only [DateTime.truncDay_ordinal, mem_dayOffsets] at hloop
  constructor
  · intro h
    have hall := hloop.mp h.returns
    refine ⟨⟨?_, ?_⟩, fun r hr hwindow => ?_⟩
    · have := (hall (-1) (by omega)).1.1
      omega
    · have := (hall days_ahead (by omega)).1.2
      omega
    · refine (hall (r.occurred_at.ordinal - now.ordinal) (by omega)).2 r hr ?_
      omega
  · rintro ⟨⟨hlow, hhigh⟩, hfree⟩
    have hreturns := hloop.mpr fun i hi =>
      ⟨⟨by omega, by omega⟩, fun r hr heq => hfree r hr ⟨by omega, by omega⟩⟩
    obtain ⟨hdaily', hrows, -⟩ := loop_keeps htoday
      (CreatePartitions.dayOffsets days_ahead) hdaily
    refine ⟨hreturns, fun d hd hfrom hto => ?_, hdaily'.apart, .of_eq hrows⟩
    obtain ⟨e, hturn, hown⟩ := loop_own htoday hdaily hreturns
      ((d.ordinal : ℤ) - now.ordinal) (mem_dayOffsets.mpr ⟨by omega, by omega⟩)
    have hord := hturn.ordinal
    rw [DateTime.truncDay_ordinal] at hord
    have heq : e = d := eq_of_ordinal_eq hturn.midnight hd (by omega)
    exact heq ▸ hown

theorem partitions_precreated_empty : PreCreates (Sample.instant 5) 7 ⟨[], []⟩ :=
  (partitions_precreated_iff .migrated (Sample.instant 5) 7).mpr
    ⟨by decide, fun r hr => by cases hr⟩

/-- A row that came before its day had a partition. -/
theorem default_row_stops_precreation :
    ¬ ∀ (t : PartitionedTable), Produced t → ∀ (now : DateTime)
      (days_ahead : ℕ), PreCreates now days_ahead t := by
  intro hall
  have hreturns := (hall _ (.insert (Sample.row (Sample.payment 'a' 250) 1 3)
    .migrated) (Sample.instant 5) 7).returns
  have hstops : (createPartitions (Sample.instant 5) 7
      ((⟨[], []⟩ : PartitionedTable).insert
        (Sample.row (Sample.payment 'a' 250) 1 3))).1 =
      .error .checkViolation := by decide +kernel
  rw [hstops] at hreturns
  cases hreturns

end AnalyticsPipeline
